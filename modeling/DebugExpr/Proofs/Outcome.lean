import DebugExpr.Proofs.Blame
import DebugExpr.Proofs.Tiling
import DebugExpr.Proofs.WellFormed

/-!
# The outcome of an analysis

The analysis of a source comes to a tree, to a lexical diagnostic, or to a diagnostic about one of
the tokens, and to nothing else. The warnings for ambiguous literals change nothing of that.
-/

namespace DebugExpr

open Parse

variable {settings : Settings} {source : String}

/-! ## The place of a failure -/

theorem stop_ofList {ts : List Token} {mark : Token} (hts : ∀ t ∈ ts, t.kind ≠ .eof)
    (hmark : mark.kind = .eof) : (Token.Input.ofList (ts ++ [mark])).stop = mark.pos := by
  have hnone : ts.find? (fun t => t.kind = .eof) = none := by
    simpa [List.find?_eq_none] using hts
  simp [Token.Input.ofList, withEndMark_append ts hmark, List.find?_append, hnone, hmark]

/-- A failure on tokens before an end mark is at the place of one of them, or of the mark. -/
theorem pos_of_blame {ts : List Token} {mark : Token} {f : Failure}
    (hts : ∀ t ∈ ts, t.kind ≠ .eof) (hmark : mark.kind = .eof) (hblame : f.rest <:+ ts) :
    ∃ t ∈ ts ++ [mark], f.pos (.ofList (ts ++ [mark])) = t.pos := by
  unfold Failure.pos
  split
  · exact ⟨mark, by simp, stop_ofList hts hmark⟩
  · rename_i t rest hrest
    rw [hrest] at hblame
    exact ⟨t, List.mem_append_left _ (hblame.mem List.mem_cons_self), rfl⟩

theorem treeify_eq_error {ts : List Token} {mark : Token} {fault : Fault}
    (hts : ∀ t ∈ ts, t.kind ≠ .eof) (hmark : mark.kind = .eof)
    (h : (treeify settings (some source) (ts ++ [mark])).result = .error fault) :
    ∃ d, fault = .diagnostic d ∧ d.subject = .expression ∧
      ∃ t ∈ ts ++ [mark], d.pos = some t.pos := by
  simp only [treeify, Expr.ofInput, tokens_ofList hts hmark, Fault.ofFailure_ample] at h
  cases htokens : Expr.ofTokens settings.extended ts with
  | ok e =>
      rw [htokens] at h
      cases h
  | error f =>
      rw [htokens] at h
      cases h
      obtain ⟨t, ht, hpos⟩ := pos_of_blame hts hmark (blame_suffix htokens)
      exact ⟨_, rfl, rfl, t, ht, congrArg some hpos⟩

theorem pos_of_tokenize {tokens : List Token} (h : (tokenize settings source).result = .ok tokens) :
    ∀ t ∈ tokens, 0 ≤ t.pos ∧ t.pos ≤ source.length := by
  obtain ⟨ts, rfl, hcut⟩ := cuts_of_tokenize h
  intro t ht
  rcases List.mem_append.mp ht with ht | ht
  · have hread := hcut.readIn t ht
    have hle := hread.pos_le
    rw [Nat.zero_add, String.length_toList] at hle
    exact ⟨hread.le_pos, hle⟩
  · cases List.mem_singleton.mp ht
    exact ⟨Int.natCast_nonneg _, Int.le_refl _⟩

/-! ## Outcomes -/

/-- What the analysis of a source can come to. -/
inductive Outcome (settings : Settings) (source : String) : Except Fault Expr → Prop
  /-- A tree, of which all literals can be checked. -/
  | tree {e messages} : e.warnings = .ok messages → Outcome settings source (.ok e)
  /-- A diagnostic of the scanner. -/
  | lexical {d} :
      (tokenize settings source).result = .error (.diagnostic d) → d.subject = .lexical →
      Outcome settings source (.error (.diagnostic d))
  /-- A diagnostic at the place of one of the tokens, which lies in the source. -/
  | located {d tokens t} :
      (tokenize settings source).result = .ok tokens → t ∈ tokens → d.subject = .expression →
      d.pos = some t.pos → 0 ≤ t.pos → t.pos ≤ source.length →
      Outcome settings source (.error (.diagnostic d))

theorem outcome_of_tokenize {tokens : List Token}
    (h : (tokenize settings source).result = .ok tokens) :
    Outcome settings source (parse settings source).result := by
  have hsource := tokenize_eq_ok.mp h
  obtain ⟨ts, mark, rfl, hmark, hts⟩ := ofSource_eq_ok hsource
  rw [parse_result hsource]
  cases htree : (treeify settings (some source) (ts ++ [mark])).result with
  | ok e =>
      obtain ⟨messages, hmessages⟩ :=
        warnings_of_wellFormed (wellFormed_of_treeify hts hmark htree).1
      exact .tree hmessages
  | error fault =>
      obtain ⟨d, rfl, hsubject, t, ht, hpos⟩ :=
        treeify_eq_error (noMark_of_validTokens hts) hmark htree
      obtain ⟨hlow, hhigh⟩ := pos_of_tokenize h t ht
      exact .located h ht hsubject hpos hlow hhigh

theorem parse_of_unclosed {u : Token.Unclosed} (h : Token.ofSource settings source = .error u) :
    (tokenize settings source).result = .error (.diagnostic (.ofUnclosed source u)) ∧
      (parse settings source).result = .error (.diagnostic (.ofUnclosed source u)) := by
  simp only [parse, tokenize, h, Logged.andThen, and_self]

theorem outcome_of_parse (settings : Settings) (source : String) :
    Outcome settings source (parse settings source).result := by
  cases h : Token.ofSource settings source with
  | error u =>
      obtain ⟨htokenize, hparse⟩ := parse_of_unclosed h
      rw [hparse]
      exact .lexical htokenize rfl
  | ok tokens => exact outcome_of_tokenize (tokenize_eq_ok.mpr h)

/-- The tree of a source is the one that all its tokens form. -/
theorem tokens_of_parse {e : Expr} (h : (parse settings source).result = .ok e) :
    ∃ ts, (tokenize settings source).result = .ok (ts ++ [Token.endMark source.length]) ∧
      Expr.ofTokens settings.extended ts = .ok e := by
  cases hsource : Token.ofSource settings source with
  | error u =>
      rw [(parse_of_unclosed hsource).2] at h
      cases h
  | ok tokens =>
      have htokenize := tokenize_eq_ok.mpr hsource
      obtain ⟨ts, rfl, hcut⟩ := cuts_of_tokenize htokenize
      rw [parse_result hsource, treeify_ok (noMark_of_validTokens hcut.valid) rfl] at h
      exact ⟨ts, htokenize, h⟩

end DebugExpr
