import DebugExpr.Analysis
import DebugExpr.Proofs.Complete

/-!
# Acceptance and limits

The analysis of tokens returns the trees that the grammar derives from them, within the limits on
nesting and height, and rejects all other tokens.
-/

namespace DebugExpr

open Grammar Parse

/-- The tokens are refused. -/
def Rejected (r : Except Fault Expr) : Prop :=
  ∃ d, r = .error (.diagnostic d) ∧ d.subject = .expression

/-- The tokens are refused for their nesting or height. -/
def TooDeep (r : Except Fault Expr) : Prop :=
  ∃ d, r = .error (.diagnostic d) ∧ d.subject = .expression ∧
    d.reason = "Expression nested too deeply"

/-! ## The tokens before the end mark -/

theorem Grammar.Names.noMark {ts xs} (h : Names ts xs) : ∀ t ∈ ts, t.kind ≠ .eof := by
  induction h with
  | one ht => simp [ht]
  | more ht hc _ ih => simpa [ht, hc] using ih

theorem Grammar.Params.noMark {ts xs} : Params ts xs → ∀ t ∈ ts, t.kind ≠ .eof
  | .none => by simp
  | .some h => h.noMark

theorem Grammar.Target.noMark {ts x} : Target ts x → ∀ t ∈ ts, t.kind ≠ .eof
  | .name h => by simp [h]
  | .group h target h' => by simpa [h, h', or_imp, forall_and] using target.noMark

theorem Grammar.LeftOp.noMark {s : Stratum} {k : Token.Kind} {op : BinaryOp} (h : LeftOp s k op) :
    k ≠ .eof := by
  cases h <;> simp

theorem Grammar.PrefixOp.noMark {k : Token.Kind} {op : UnaryOp} (h : PrefixOp k op) :
    k ≠ .eof := by
  cases h <;> simp

theorem Grammar.AssignOp.noMark {x : String} {v e : Expr} {k : Token.Kind}
    (h : AssignOp x v k e) : k ≠ .eof := by
  cases h <;> simp

theorem Grammar.Leaf.noMark {extended : Bool} {t : Token} {e : Expr} (h : Leaf extended t e) :
    t.kind ≠ .eof := by
  cases h <;> simp_all

mutual

theorem Grammar.Derivation.noMark {extended s ts e} :
    Derivation extended s ts e → ∀ t ∈ ts, t.kind ≠ .eof
  | .assign target h d => by
      simpa [or_imp, forall_and, h.noMark] using ⟨target.noMark, d.noMark⟩
  | .chain d h d' => by
      simpa [or_imp, forall_and, h.noMark] using ⟨d.noMark, d'.noMark⟩
  | .sum d h d' => by
      simpa [or_imp, forall_and, h] using ⟨d.noMark, d'.noMark⟩
  | .unary h d => by simpa [h.noMark] using d.noMark
  | .leaf h => by simpa using h.noMark
  | .bareCall h h' h'' => by simp [h, h', h'']
  | .call h h' ds h'' => by simpa [or_imp, forall_and, h, h', h''] using ds.noMark
  | .group h d h' => by simpa [or_imp, forall_and, h, h'] using d.noMark
  | .bareFunc ht hps hu hv hw => by
      simpa [or_imp, forall_and, ht, hu, hv, hw] using hps.noMark
  | .func ht hps hu hv ds hw => by
      simpa [or_imp, forall_and, ht, hu, hv, hw] using ⟨hps.noMark, ds.noMark⟩
  | .tighter _ d => d.noMark

theorem Grammar.Items.noMark {extended ts es} :
    Items extended ts es → ∀ t ∈ ts, t.kind ≠ .eof
  | .one d => d.noMark
  | .more d h ds => by simpa [or_imp, forall_and, h] using ⟨d.noMark, ds.noMark⟩

end

theorem withEndMark_append {mark : Token} (ts : List Token) (hmark : mark.kind = .eof) :
    Token.withEndMark (ts ++ [mark]) = ts ++ [mark] := by
  simp [Token.withEndMark, hmark]

theorem tokens_ofList {ts : List Token} {mark : Token} (hts : ∀ t ∈ ts, t.kind ≠ .eof)
    (hmark : mark.kind = .eof) : (Token.Input.ofList (ts ++ [mark])).tokens = ts := by
  simp only [Token.Input.ofList, withEndMark_append ts hmark]
  rw [List.takeWhile_append_of_pos (by simpa using hts)]
  simp [hmark]

/-! ## All tokens -/

variable {extended : Bool}

theorem derivation_of_ofTokens {ts : List Token} {e : Expr}
    (h : Expr.ofTokens extended ts = .ok e) : Nonempty (Derivation extended .expression ts e) := by
  obtain ⟨⟨e', rest⟩, hread, h⟩ := bind_eq_ok.mp h
  cases rest with
  | cons t rest => cases h
  | nil =>
      cases h
      obtain ⟨⟨read, rfl, hd⟩, _⟩ := (Level.sound extended maxDepth).expr (s := .expression) hread
      simpa using hd

theorem ofTokens_within {ts : List Token} {e : Expr} (d : Derivation extended .expression ts e) :
    Within (d.nesting ≤ maxDepth ∧ e.height ≤ maxHeight) (Expr.ofTokens extended ts) (.ok e) := by
  have hread := (runs_derivation d).expr maxDepth assignPrecedence [] [] (Nat.le_refl _)
    (after_nil _) trivial
  rw [List.append_nil] at hread
  exact (hread.andThen (q := True) (.of_eq trivial rfl)).congr (and_iff_left trivial)

variable {settings : Settings} {source : Option String} {ts : List Token} {mark : Token}

theorem treeify_ok {e : Expr} (hts : ∀ t ∈ ts, t.kind ≠ .eof) (hmark : mark.kind = .eof) :
    (treeify settings source (ts ++ [mark])).result = .ok e ↔
      Expr.ofTokens settings.extended ts = .ok e := by
  simp only [treeify, Expr.ofInput, tokens_ofList hts hmark]
  cases Expr.ofTokens settings.extended ts <;> simp

theorem treeify_error {f : Failure} (hts : ∀ t ∈ ts, t.kind ≠ .eof) (hmark : mark.kind = .eof)
    (h : Expr.ofTokens settings.extended ts = .error f) :
    ∃ d, (treeify settings source (ts ++ [mark])).result = .error (.diagnostic d) ∧
      d.subject = .expression ∧ d.reason = f.cause.message := by
  refine ⟨.ofFailure source (.ofList (ts ++ [mark])) f, ?_, ?_, ?_⟩
  · simp only [treeify, Expr.ofInput, tokens_ofList hts hmark, h, Fault.ofFailure_ample]
  · cases source <;> rfl
  · cases source <;> rfl

theorem treeify_within (source : Option String) {e : Expr} (d : Derivation settings.extended .expression ts e)
    (hmark : mark.kind = .eof) :
    (d.nesting ≤ maxDepth ∧ e.height ≤ maxHeight →
      (treeify settings source (ts ++ [mark])).result = .ok e) ∧
    (¬ (d.nesting ≤ maxDepth ∧ e.height ≤ maxHeight) →
      TooDeep (treeify settings source (ts ++ [mark])).result) := by
  obtain ⟨hfits, hdeep⟩ := ofTokens_within d
  refine ⟨fun h => (treeify_ok d.noMark hmark).mpr (hfits h), fun h => ?_⟩
  obtain ⟨us, hus⟩ := hdeep h
  exact treeify_error d.noMark hmark hus

theorem treeify_rejected (source : Option String) (hts : ∀ t ∈ ts, t.kind ≠ .eof)
    (hmark : mark.kind = .eof)
    (hnone : ¬ ∃ e, Nonempty (Derivation settings.extended .expression ts e)) :
    Rejected (treeify settings source (ts ++ [mark])).result := by
  cases h : Expr.ofTokens settings.extended ts with
  | ok e => exact absurd ⟨e, derivation_of_ofTokens h⟩ hnone
  | error f =>
      obtain ⟨d, hd, hsubject, _⟩ := treeify_error hts hmark h
      exact ⟨d, hd, hsubject⟩

/-- The trees returned are those that the grammar derives, as long as the tokens are not too deep,
and tokens without a derivation are rejected. -/
theorem treeify_eq_ok_iff_derivation (settings : Settings) (source : Option String)
    {ts : List Token} {mark : Token} (hts : ∀ t ∈ ts, t.kind ≠ .eof) (hmark : mark.kind = .eof) :
    (¬ TooDeep (treeify settings source (ts ++ [mark])).result →
      ∀ e, (treeify settings source (ts ++ [mark])).result = .ok e ↔
        Nonempty (Derivation settings.extended .expression ts e)) ∧
    ((¬ ∃ e, Nonempty (Derivation settings.extended .expression ts e)) →
      Rejected (treeify settings source (ts ++ [mark])).result) := by
  constructor
  · intro hdeep e
    constructor
    · intro h
      exact derivation_of_ofTokens ((treeify_ok hts hmark).mp h)
    · rintro ⟨d⟩
      by_cases hfits : d.nesting ≤ maxDepth ∧ e.height ≤ maxHeight
      · exact (treeify_within source d hmark).1 hfits
      · exact absurd ((treeify_within source d hmark).2 hfits) hdeep
  · exact treeify_rejected source hts hmark

/-- A sum of two names is returned, and so it has a derivation. -/
theorem derivation_of_sum :
    (∀ t ∈ [⟨.ident, "a", 0⟩, ⟨.plus, "+", 1⟩, (⟨.ident, "b", 2⟩ : Token)], t.kind ≠ .eof) ∧
    (Token.endMark 3).kind = .eof ∧
    ¬ TooDeep (treeify {} none ([⟨.ident, "a", 0⟩, ⟨.plus, "+", 1⟩, ⟨.ident, "b", 2⟩] ++
      [Token.endMark 3])).result ∧
    Nonempty (Derivation false .expression
      [⟨.ident, "a", 0⟩, ⟨.plus, "+", 1⟩, ⟨.ident, "b", 2⟩]
      (.binary .add (.var "a") (.var "b"))) := by
  have hts : ∀ t ∈ [⟨.ident, "a", 0⟩, ⟨.plus, "+", 1⟩, (⟨.ident, "b", 2⟩ : Token)],
      t.kind ≠ .eof := by decide
  have hmark : (Token.endMark 3).kind = .eof := rfl
  have hok : (treeify {} none ([⟨.ident, "a", 0⟩, ⟨.plus, "+", 1⟩, ⟨.ident, "b", 2⟩] ++
      [Token.endMark 3])).result = .ok (.binary .add (.var "a") (.var "b")) := rfl
  have hdeep : ¬ TooDeep (treeify {} none
      ([⟨.ident, "a", 0⟩, ⟨.plus, "+", 1⟩, ⟨.ident, "b", 2⟩] ++ [Token.endMark 3])).result := by
    rintro ⟨d, hd, _⟩
    cases hok.symm.trans hd
  exact ⟨hts, hmark, hdeep, ((treeify_eq_ok_iff_derivation {} none hts hmark).1 hdeep _).mp hok⟩

/-! ## Chains of terms -/

/-- A term and more terms, each with the sign before it. -/
def row (first : Token) (more : List (Token × Token)) : List Token :=
  first :: more.flatMap fun p => [p.1, p.2]

theorem row_cons (first : Token) (p : Token × Token) (more : List (Token × Token)) :
    row first (p :: more) = [first] ++ p.1 :: row p.2 more :=
  rfl

theorem Grammar.Leaf.height_eq {t : Token} {e : Expr} (h : Leaf extended t e) : e.height = 1 := by
  cases h <;> simp [Expr.height]

/-- A chain of pluses groups from the right, and yet its terms lie side by side. -/
theorem sum_row {first : Token} {e : Expr} {more : List (Token × Token)}
    (hfirst : Leaf extended first e)
    (hmore : ∀ p ∈ more, p.1.kind = .plus ∧ ∃ e, Leaf extended p.2 e) :
    ∃ (r : Expr) (d : Derivation extended .sum (row first more) r),
      (∀ lift ≤ 1, d.levels lift ≤ 1) ∧ r.height = more.length + 1 := by
  induction more generalizing first e with
  | nil =>
      refine ⟨e, .tighter (by decide) (.leaf hfirst), fun lift hlift => ?_, hfirst.height_eq⟩
      simpa [Derivation.levels] using hlift
  | cons p more ih =>
      obtain ⟨hp, e', he'⟩ := hmore p List.mem_cons_self
      obtain ⟨r, d, hlevels, hheight⟩ := ih he' fun q hq => hmore q (List.mem_cons_of_mem p hq)
      rw [row_cons]
      refine ⟨.binary .add e r, .sum (.tighter (by decide) (.leaf hfirst)) hp d, ?_, ?_⟩
      · intro lift hlift
        have := hlevels 1 (Nat.le_refl 1)
        simp only [Derivation.levels]
        omega
      · simp only [Expr.height, hfirst.height_eq, hheight, List.length_cons]
        omega

/-- A chain of minuses groups from the left. -/
theorem difference_row {ts : List Token} {l : Expr} {more : List (Token × Token)}
    (d : Derivation extended .difference ts l) (hlevels : d.levels 0 ≤ 1) (hl : 1 ≤ l.height)
    (hmore : ∀ p ∈ more, p.1.kind = .minus ∧ ∃ e, Leaf extended p.2 e) :
    ∃ (r : Expr) (d' : Derivation extended .difference (ts ++ more.flatMap fun p => [p.1, p.2]) r),
      d'.levels 0 ≤ 1 ∧ r.height = l.height + more.length := by
  induction more generalizing ts l with
  | nil =>
      rw [List.flatMap_nil, List.append_nil]
      exact ⟨l, d, hlevels, rfl⟩
  | cons p more ih =>
      obtain ⟨hp, e, he⟩ := hmore p List.mem_cons_self
      have hop : LeftOp .difference p.1.kind .sub := hp ▸ .sub
      have hheight : (Expr.binary .sub l e).height = l.height + 1 := by
        simp only [Expr.height, he.height_eq]
        omega
      obtain ⟨r, d', hlevels', hr⟩ :=
        ih (.chain d hop (.tighter (by decide) (.leaf he)))
          (by simp only [Derivation.levels]; omega) (by omega)
          fun q hq => hmore q (List.mem_cons_of_mem p hq)
      have happ : ts ++ (p :: more).flatMap (fun p => [p.1, p.2]) =
          ts ++ p.1 :: [p.2] ++ more.flatMap fun p => [p.1, p.2] := by simp
      rw [happ]
      exact ⟨r, d', hlevels', by simp only [hr, hheight, List.length_cons]; omega⟩

theorem derivation_row {k : Token.Kind} (hk : k = .plus ∨ k = .minus) {first : Token} {e : Expr}
    {more : List (Token × Token)} (hfirst : Leaf extended first e)
    (hmore : ∀ p ∈ more, p.1.kind = k ∧ ∃ e, Leaf extended p.2 e) :
    ∃ (r : Expr) (d : Derivation extended .expression (row first more) r),
      d.nesting ≤ 2 ∧ r.height = more.length + 1 := by
  rcases hk with rfl | rfl
  · obtain ⟨r, d, hlevels, hheight⟩ := sum_row hfirst hmore
    have := hlevels 0 (Nat.zero_le 1)
    exact ⟨r, .tighter (by decide) d, by simpa [Derivation.nesting, Derivation.levels], hheight⟩
  · obtain ⟨r, d, hlevels, hheight⟩ :=
      difference_row (.tighter (by decide) (.leaf hfirst)) (by simp [Derivation.levels])
        (Nat.le_of_eq hfirst.height_eq.symm) hmore
    refine ⟨r, .tighter (by decide) d, by simpa [Derivation.nesting, Derivation.levels], ?_⟩
    rw [hheight, hfirst.height_eq, Nat.add_comm]

/-- A derived tree is returned unless its nesting is beyond 100 or its height beyond 256. A chain
of pluses or minuses between single tokens is limited by its height alone. -/
theorem treeify_limits (settings : Settings) (source : Option String) {mark : Token}
    (hmark : mark.kind = .eof) :
    (∀ {ts e} (d : Derivation settings.extended .expression ts e),
      (d.nesting ≤ 100 ∧ e.height ≤ 256 →
        (treeify settings source (ts ++ [mark])).result = .ok e) ∧
      (¬ (d.nesting ≤ 100 ∧ e.height ≤ 256) →
        TooDeep (treeify settings source (ts ++ [mark])).result)) ∧
    (∀ {k first more}, (k = .plus ∨ k = .minus) → (∃ e, Leaf settings.extended first e) →
      (∀ p ∈ more, p.1.kind = k ∧ ∃ e, Leaf settings.extended p.2 e) →
      (more.length + 1 ≤ 256 →
        ∃ e, e.height = more.length + 1 ∧
          (treeify settings source (row first more ++ [mark])).result = .ok e) ∧
      (256 < more.length + 1 →
        TooDeep (treeify settings source (row first more ++ [mark])).result)) := by
  constructor
  · intro ts e d
    exact treeify_within source d hmark
  · rintro k first more hk ⟨e, hfirst⟩ hmore
    obtain ⟨r, d, hnesting, hheight⟩ := derivation_row hk hfirst hmore
    obtain ⟨hfits, hdeep⟩ := treeify_within source d hmark
    rw [hheight, maxDepth, maxHeight] at hfits hdeep
    constructor
    · intro h
      exact ⟨r, hheight, hfits ⟨by omega, h⟩⟩
    · intro h
      exact hdeep (by omega)

/-- A name is returned, and so is a sum of 256 names, but not one of 257 names. -/
theorem treeify_long_sum :
    (Token.endMark 3).kind = .eof ∧
    (treeify {} none ([⟨.ident, "a", 0⟩] ++ [Token.endMark 3])).result = .ok (.var "a") ∧
    (∃ e, (treeify {} none (row ⟨.ident, "a", 0⟩
      (List.replicate 255 (⟨.plus, "+", 1⟩, ⟨.ident, "a", 2⟩)) ++ [Token.endMark 3])).result =
        .ok e) ∧
    TooDeep (treeify {} none (row ⟨.ident, "a", 0⟩
      (List.replicate 256 (⟨.plus, "+", 1⟩, ⟨.ident, "a", 2⟩)) ++ [Token.endMark 3])).result := by
  have hmark : (Token.endMark 3).kind = .eof := rfl
  have hleaf : ∃ e, Leaf false ⟨.ident, "a", 0⟩ e := ⟨_, .var rfl⟩
  have hname := ((treeify_limits {} none hmark).1
    (.tighter (s := .expression) (by decide) (.leaf (.var (t := ⟨.ident, "a", 0⟩) rfl)))).1
    (by simp [Derivation.nesting, Derivation.levels, Expr.height])
  have hmore : ∀ n, ∀ p ∈ List.replicate n ((⟨.plus, "+", 1⟩, ⟨.ident, "a", 2⟩) : Token × Token),
      p.1.kind = .plus ∧ ∃ e, Leaf false p.2 e := by
    intro n p hp
    cases List.eq_of_mem_replicate hp
    exact ⟨rfl, _, .var rfl⟩
  have hlength : ∀ n, (List.replicate n ((⟨.plus, "+", 1⟩, ⟨.ident, "a", 2⟩) :
      Token × Token)).length + 1 = n + 1 := fun n => congrArg (· + 1) List.length_replicate
  obtain ⟨e, -, he⟩ := ((treeify_limits {} none hmark).2 (.inl rfl) hleaf (hmore 255)).1
    (Nat.le_of_eq (hlength 255))
  have hdeep := ((treeify_limits {} none hmark).2 (.inl rfl) hleaf (hmore 256)).2
    (Nat.lt_of_lt_of_eq (Nat.lt_succ_self 256) (hlength 256).symm)
  exact ⟨hmark, hname, ⟨e, he⟩, hdeep⟩

end DebugExpr
