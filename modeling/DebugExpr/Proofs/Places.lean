import DebugExpr.Proofs.Locations
import DebugExpr.Proofs.Outcome
import DebugExpr.Proofs.Quotes

/-!
# The places of diagnostics

A diagnostic about a source is at the end of the source or at a character that is no blank, so that
its place can be shown, with the caret below this character.
-/

namespace DebugExpr

/-- At an end of a line the caret stands after it, and elsewhere below the character there. -/
theorem Location.row_caret {l : Location} (hlow : 0 ≤ l.pos) (hhigh : l.pos ≤ l.source.length)
    (hfeed : l.source.toList[l.pos.toNat]? ≠ some '\n') :
    l.row[l.marker.idxOf '^']? = l.source.toList[l.pos.toNat]? := by
  obtain ⟨above, left, right, below, hsplits⟩ := l.exists_splits
  cases hc : l.source.toList[l.pos.toNat]? with
  | some c => exact hsplits.row_caret hlow hhigh hc fun h => hfeed (h ▸ hc)
  | none =>
      have hend := List.getElem?_eq_none_iff.mp hc
      have hrest := hsplits.rest_eq
      rw [← hsplits.toNat_pos hlow hhigh, List.drop_eq_nil_of_le hend] at hrest
      cases hrest
      rw [hsplits.idxOf_marker hlow hhigh, row, hsplits.lineText_eq, List.append_nil]
      exact List.getElem?_eq_none (Nat.le_of_eq List.length_append)

/-- A place at the end of a source, or at a character that is no blank. -/
def AtLexeme (source : String) (pos : Int) : Prop :=
  ∃ n : Nat, pos = n ∧
    (n = source.length ∨ ∃ c, source.toList[n]? = some c ∧ Text.isBlank c = false)

theorem AtLexeme.row_caret {l : Location} (h : AtLexeme l.source l.pos) :
    l.row[l.marker.idxOf '^']? = l.source.toList[l.pos.toNat]? := by
  obtain ⟨n, hpos, rfl | ⟨c, hc, hblank⟩⟩ := h
  · refine Location.row_caret (by omega) (by omega) ?_
    rw [hpos, Int.toNat_natCast, ← String.length_toList, List.getElem?_eq_none (Nat.le_refl _)]
    nofun
  · have hlt := (List.getElem?_eq_some_iff.mp hc).1
    rw [String.length_toList] at hlt
    refine Location.row_caret (by omega) (by omega) ?_
    rw [hpos, Int.toNat_natCast, hc]
    rintro ⟨⟩
    cases hblank

theorem atLexeme_of_tokenize {settings : Settings} {source : String} {tokens : List Token}
    (h : (tokenize settings source).result = .ok tokens) :
    ∀ t ∈ tokens, AtLexeme source t.pos := by
  obtain ⟨ts, rfl, hcut⟩ := cuts_of_tokenize h
  intro t ht
  rcases List.mem_append.mp ht with ht | ht
  · obtain ⟨n, c, tail, hpos, hdrop, hblank, -⟩ := hcut.readIn t ht
    refine ⟨n, by rw [hpos, Nat.zero_add], .inr ⟨c, ?_, hblank⟩⟩
    rw [← List.head?_drop, hdrop]
    rfl
  · cases List.mem_singleton.mp ht
    exact ⟨source.length, rfl, .inl rfl⟩

theorem atLexeme_of_unclosed {settings : Settings} {source : String} {u : Token.Unclosed}
    (h : Token.ofSource settings source = .error u) : AtLexeme source u.pos := by
  rcases Token.cuts_or_breaks settings.extended 0 source.toList with ⟨ts, hts⟩ | ⟨p, hp⟩
  · cases h.symm.trans (Token.scan_of_cuts hts)
  · cases h.symm.trans (Token.scan_of_breaks hp)
    obtain ⟨i, rfl, hquote, -⟩ := hp.lastQuote
    exact ⟨i, by rw [Nat.zero_add], .inr ⟨_, hquote, rfl⟩⟩

/-- A diagnostic shows a place in the source that it is about. -/
theorem location_of_parse {settings : Settings} {source : String} {d : Diagnostic}
    (h : (parse settings source).result = .error (.diagnostic d)) :
    ∃ l, d.location = some l ∧ l.source = source ∧ AtLexeme source l.pos := by
  cases hsource : Token.ofSource settings source with
  | error u =>
      rw [(parse_of_unclosed hsource).2] at h
      cases h
      exact ⟨_, rfl, rfl, atLexeme_of_unclosed hsource⟩
  | ok tokens =>
      have houtcome := outcome_of_tokenize (tokenize_eq_ok.mpr hsource)
      rw [h] at houtcome
      rw [parse_result hsource, treeify] at h
      simp only [Fault.ofFailure_ample] at h
      split at h
      · cases h
      · cases h
        refine ⟨_, rfl, rfl, ?_⟩
        cases houtcome with
        | lexical htokenize _ =>
            rw [tokenize_eq_ok.mpr hsource] at htokenize
            cases htokenize
        | located htokenize ht _ hpos _ _ =>
            have hat := atLexeme_of_tokenize htokenize _ ht
            rw [← Option.some.inj hpos] at hat
            exact hat

/-! ## The text of a diagnostic -/

theorem AtLexeme.bounds {source : String} {pos : Int} (h : AtLexeme source pos) :
    0 ≤ pos ∧ pos ≤ source.length := by
  obtain ⟨n, rfl, rfl | ⟨c, hc, -⟩⟩ := h
  · omega
  · have hlt := (List.getElem?_eq_some_iff.mp hc).1
    rw [String.length_toList] at hlt
    omega

theorem Diagnostic.text?_of_location {d : Diagnostic} {l : Location} (h : d.location = some l)
    (hformat : l.format? = .ok l.format) : d.text? = .ok d.text := by
  simp only [text?, text, h, hformat]
  rfl

/-- Every diagnostic about a source of any real length has a text. -/
theorem text?_of_parse {settings : Settings} {source : String} {d : Diagnostic}
    (h : (parse settings source).result = .error (.diagnostic d)) (hlength : source.length < 2 ^ 61) :
    d.text? = .ok d.text := by
  obtain ⟨l, hl, rfl, hat⟩ := location_of_parse h
  obtain ⟨hlow, hhigh⟩ := hat.bounds
  exact Diagnostic.text?_of_location hl (Location.format?_of_near (by omega))

end DebugExpr
