import DebugExpr.Proofs.Parameters
import DebugExpr.Parse.Expression

/-!
# What is read is derived

Every reader takes a derivable part off the front of its tokens. An expression is read as far as
it goes: no operator of its stratum stands after it.
-/

namespace DebugExpr.Parse

open Grammar

/-! ## Good results -/

theorem bind_eq_ok {ε α β : Type} {x : Except ε α} {f : α → Except ε β} {b : β} :
    x >>= f = .ok b ↔ ∃ a, x = .ok a ∧ f a = .ok b := by
  cases x with
  | error e => simp [bind, Except.bind]
  | ok a => simp [bind, Except.bind]

theorem build_eq_ok {e e' : Expr} {rest rest' : List Token} :
    build e rest = .ok (e', rest') ↔ e.height ≤ maxHeight ∧ e' = e ∧ rest' = rest := by
  unfold build
  split
  · rename_i h
    exact ⟨nofun, fun h' => absurd h (Nat.not_lt.mpr h'.1)⟩
  · rename_i h
    constructor
    · rintro ⟨⟩
      exact ⟨Nat.le_of_not_lt h, rfl, rfl⟩
    · rintro ⟨_, rfl, rfl⟩
      rfl

theorem closeGroup_eq_ok {b : Bracket} {opener : Token} {inside ts rest : List Token}
    (h : closeGroup b opener inside ts = .ok rest) : ∃ t, ts = t :: rest ∧ t.kind = b.closing := by
  cases ts with
  | nil => cases h
  | cons t ts =>
      rw [closeGroup] at h
      split at h
      · rename_i ht
        cases h
        exact ⟨t, rfl, ht⟩
      · cases h

theorem nextIs_eq_true {k : Token.Kind} {ts : List Token} (h : nextIs k ts = true) :
    ∃ t rest, ts = t :: rest ∧ t.kind = k := by
  cases ts with
  | nil => cases h
  | cons t ts => exact ⟨t, ts, rfl, by simpa [nextIs] using h⟩

theorem funcBody_eq {inner : Level} {groups : List Bracket} {xs : List String} {opener : Token}
    {inside : List Token} :
    funcBody inner groups xs opener inside = (do
      let (body, rest) ←
        (if nextIs .rbrace inside then .ok ([], inside) else exprs inner (.brace :: groups) inside)
      let rest ← closeGroup .brace opener inside rest
      build (.func xs body) rest) := by
  unfold funcBody
  split <;> rfl

theorem assignment_var {inner : Level} {groups : List Bracket} {x : String}
    {op : Option BinaryOp} {sign : Token} {ts : List Token} :
    assignment inner groups (.var x) op sign ts = (do
      let (v, rest) ← inner.expr groups assignPrecedence ts
      let (v, rest) ← (if op.isSome then build (stored x v op) rest else .ok (v, rest))
      build (.assign x v) rest) := by
  cases op <;> rfl

/-! ## The end of an expression -/

/-- No operator that binds at least as tightly as `least` comes next. -/
def Stops (least : Nat) : List Token → Prop
  | [] => True
  | t :: _ => (t.kind.assignOp? = none ∨ assignPrecedence < least) ∧
      ∀ op, t.kind.binaryOp? = some op → op.precedence < least

/-- An operator that comes next takes an expression of the stratum to its left. -/
def Follows (s : Stratum) : List Token → Prop
  | [] => True
  | t :: _ => ∀ op, t.kind.binaryOp? = some op → (leftStratum op).level ≤ s.level

theorem follows_operand (ts : List Token) : Follows .operand ts := by
  cases ts with
  | nil => trivial
  | cons t ts => exact fun op _ => Stratum.level_le_operand _

theorem Stops.follows_expression {ts : List Token} (h : Stops assignPrecedence ts) :
    Follows .expression ts := by
  cases ts with
  | nil => trivial
  | cons t ts =>
      intro op hop
      have := h.2 op hop
      cases op <;> simp [BinaryOp.precedence, assignPrecedence] at this

/-- After the right operand of an operator, an operator takes the whole application. -/
theorem Stops.follows_stratum {op : BinaryOp} (hop : op ≠ .add) {ts : List Token}
    (h : Stops (op.precedence + 1) ts) : Follows (stratum op) ts := by
  cases ts with
  | nil => trivial
  | cons t ts =>
      intro op' hop'
      have := h.2 op' hop'
      cases op <;> cases op' <;> simp_all [BinaryOp.precedence, stratum, leftStratum, Stratum.level]

theorem Stops.follows_sum {ts : List Token} (h : Stops BinaryOp.add.precedence ts) :
    Follows .sum ts := by
  cases ts with
  | nil => trivial
  | cons t ts =>
      intro op hop
      have := h.2 op hop
      cases op <;> simp_all [BinaryOp.precedence, leftStratum, Stratum.level]

/-! ## Levels -/

/-- A part of the tokens is derived, and the rest is left. -/
def Takes (extended : Bool) (s : Stratum) (ts : List Token) (e : Expr) (rest : List Token) : Prop :=
  ∃ read, ts = read ++ rest ∧ Nonempty (Derivation extended s read e)

/-- What the readings of a level promise. -/
structure Level.Sound (extended : Bool) (inner : Level) : Prop where
  expr {groups : List Bracket} {s : Stratum} {ts rest : List Token} {e : Expr} :
    inner.expr groups s.level ts = .ok (e, rest) → Takes extended s ts e rest ∧ Stops s.level rest
  operand {groups : List Bracket} {ts rest : List Token} {e : Expr} :
    inner.operand groups ts = .ok (e, rest) → Takes extended .operand ts e rest

variable {extended : Bool} {inner : Level} {groups : List Bracket}

/-! ## Lists of expressions -/

theorem separated_items (h : inner.Sound extended) {bound : Nat} {read ts rest : List Token}
    {e : Expr} {es : List Expr} (d : Derivation extended .expression read e)
    (hs : separated .comma (inner.expr groups assignPrecedence) bound ts = .ok (es, rest)) :
    ∃ more, ts = more ++ rest ∧ Nonempty (Items extended (read ++ more) (e :: es)) := by
  induction bound generalizing read ts e es with
  | zero =>
      simp [separated] at hs
      obtain ⟨rfl, rfl⟩ := hs
      exact ⟨[], rfl, ⟨by simpa using .one d⟩⟩
  | succ bound ih =>
      cases ts with
      | nil =>
          simp [separated] at hs
          obtain ⟨rfl, rfl⟩ := hs
          exact ⟨[], rfl, ⟨by simpa using .one d⟩⟩
      | cons t ts =>
          rw [separated] at hs
          split at hs
          · rename_i ht
            obtain ⟨⟨e', rest'⟩, he, hs⟩ := bind_eq_ok.mp hs
            obtain ⟨⟨es', rest''⟩, hes, hs⟩ := bind_eq_ok.mp hs
            cases hs
            obtain ⟨⟨read', rfl, ⟨d'⟩⟩, _⟩ := h.expr (s := .expression) he
            obtain ⟨more, rfl, ⟨ds⟩⟩ := ih d' hes
            exact ⟨t :: (read' ++ more), by simp, ⟨.more d ht ds⟩⟩
          · cases hs
            exact ⟨[], rfl, ⟨by simpa using .one d⟩⟩

theorem exprs_items (h : inner.Sound extended) {ts rest : List Token} {es : List Expr}
    (hs : exprs inner groups ts = .ok (es, rest)) :
    ∃ read, ts = read ++ rest ∧ Nonempty (Items extended read es) := by
  obtain ⟨⟨e, rest'⟩, he, hs⟩ := bind_eq_ok.mp hs
  obtain ⟨⟨es', rest''⟩, hes, hs⟩ := bind_eq_ok.mp hs
  cases hs
  obtain ⟨⟨read, rfl, ⟨d⟩⟩, _⟩ := h.expr (s := .expression) he
  obtain ⟨more, rfl, hds⟩ := separated_items h d hes
  exact ⟨read ++ more, by simp, hds⟩

/-! ## Operands -/

theorem call_takes (h : inner.Sound extended) {t u : Token} {inside rest : List Token} {e : Expr}
    (ht : t.kind = .ident) (hu : u.kind = .lparen)
    (hc : call inner groups t.value u inside = .ok (e, rest)) :
    Takes extended .operand (t :: u :: inside) e rest := by
  unfold call at hc
  split at hc
  · rename_i hn
    obtain ⟨v, inside, rfl, hv⟩ := nextIs_eq_true hn
    cases hc
    exact ⟨[t, u, v], rfl, ⟨.bareCall ht hu hv⟩⟩
  · obtain ⟨⟨es, rest'⟩, hes, hc⟩ := bind_eq_ok.mp hc
    obtain ⟨rest'', hr, hc⟩ := bind_eq_ok.mp hc
    obtain ⟨_, rfl, rfl⟩ := build_eq_ok.mp hc
    obtain ⟨read, rfl, ⟨ds⟩⟩ := exprs_items h hes
    obtain ⟨v, rfl, hv⟩ := closeGroup_eq_ok hr
    exact ⟨t :: u :: (read ++ [v]), by simp, ⟨.call ht hu ds hv⟩⟩

theorem funcBody_takes (h : inner.Sound extended) {t u v : Token} {ps inside rest : List Token}
    {xs : List String} {e : Expr} (ht : t.kind = .lparen) (hps : Params ps xs)
    (hu : u.kind = .rparen) (hv : v.kind = .lbrace)
    (hb : funcBody inner groups xs v inside = .ok (e, rest)) :
    Takes extended .operand (t :: (ps ++ u :: v :: inside)) e rest := by
  rw [funcBody_eq] at hb
  obtain ⟨⟨body, rest'⟩, hes, hb⟩ := bind_eq_ok.mp hb
  obtain ⟨rest'', hr, hb⟩ := bind_eq_ok.mp hb
  obtain ⟨_, rfl, rfl⟩ := build_eq_ok.mp hb
  obtain ⟨w, rfl, hw⟩ := closeGroup_eq_ok hr
  split at hes
  · cases hes
    exact ⟨t :: (ps ++ [u, v, w]), by simp, ⟨.bareFunc ht hps hu hv hw⟩⟩
  · obtain ⟨read, rfl, ⟨ds⟩⟩ := exprs_items h hes
    exact ⟨t :: (ps ++ u :: v :: (read ++ [w])), by simp, ⟨.func ht hps hu hv ds hw⟩⟩

theorem parens_takes (h : inner.Sound extended) {t : Token} {inside rest : List Token} {e : Expr}
    (ht : t.kind = .lparen) (hp : parens inner groups t inside = .ok (e, rest)) :
    Takes extended .operand (t :: inside) e rest := by
  unfold parens at hp
  split at hp
  · rename_i hf
    obtain ⟨ps, xs, u, v, body, rfl, hps, hu, hv⟩ := opensFunc_iff.mp hf
    rw [takeParams_append hps hu] at hp
    exact funcBody_takes h ht hps hu hv hp
  · split at hp
    · cases hp
    · obtain ⟨⟨e', rest'⟩, he, hp⟩ := bind_eq_ok.mp hp
      obtain ⟨rest'', hr, hp⟩ := bind_eq_ok.mp hp
      cases hp
      obtain ⟨⟨read, rfl, ⟨d⟩⟩, _⟩ := h.expr (s := .expression) he
      obtain ⟨u, rfl, hu⟩ := closeGroup_eq_ok hr
      exact ⟨t :: (read ++ [u]), by simp, ⟨.group ht d hu⟩⟩

theorem takes_leaf {t : Token} {rest : List Token} {e : Expr} (h : Leaf extended t e) :
    Takes extended .operand (t :: rest) e rest :=
  ⟨[t], rfl, ⟨.leaf h⟩⟩

theorem primary_takes (h : inner.Sound extended) {ts rest : List Token} {e : Expr}
    (hp : primary extended inner groups ts = .ok (e, rest)) :
    Takes extended .operand ts e rest := by
  cases ts with
  | nil => cases hp
  | cons t ts =>
      simp only [primary] at hp
      split at hp
      · cases hp; exact takes_leaf (.number ‹_›)
      · cases hp; exact takes_leaf (.hex ‹_›)
      · split at hp
        · cases hp; exact takes_leaf (.bin ‹_› ‹_›)
        · cases hp
      · cases hp; exact takes_leaf (.string ‹_›)
      · split at hp
        · split at hp
          · exact call_takes h ‹_› ‹_› hp
          · cases hp; exact takes_leaf (.var ‹_›)
        · cases hp; exact takes_leaf (.var ‹_›)
      · exact parens_takes h ‹_› hp
      · cases hp

theorem unary_takes (h : inner.Sound extended) {ts rest : List Token} {e : Expr}
    (hu : unary extended inner groups ts = .ok (e, rest)) :
    Takes extended .operand ts e rest := by
  cases ts with
  | nil => cases hu
  | cons t ts =>
      rw [unary] at hu
      split at hu
      · rename_i op hop
        obtain ⟨⟨e', rest'⟩, he, hu⟩ := bind_eq_ok.mp hu
        obtain ⟨_, rfl, rfl⟩ := build_eq_ok.mp hu
        obtain ⟨read, rfl, ⟨d⟩⟩ := h.operand he
        exact ⟨t :: read, rfl, ⟨.unary (prefixOp_iff.mpr hop) d⟩⟩
      · exact primary_takes h hu

/-! ## Operators -/

/-- The summands after the first one, and the sum of all of them. -/
theorem summands_takes (h : inner.Sound extended) {bound : Nat} {read ts rest rest' : List Token}
    {e r : Expr} {es : List Expr} (d : Derivation extended .difference read e)
    (hstop : Stops Stratum.difference.level ts) (hb : ts.length ≤ bound)
    (hs : separated .plus (inner.expr groups Stratum.difference.level) bound ts = .ok (es, rest))
    (hr : sumRight rest' e es = .ok r) :
    ∃ more, ts = more ++ rest ∧ Nonempty (Derivation extended .sum (read ++ more) r) ∧
      Stops Stratum.sum.level rest := by
  induction bound generalizing read ts e es r with
  | zero =>
      cases List.length_eq_zero_iff.mp (Nat.le_zero.mp hb)
      cases hs
      cases hr
      exact ⟨[], rfl, d.alone, trivial⟩
  | succ bound ih =>
      cases ts with
      | nil =>
          cases hs
          cases hr
          exact ⟨[], rfl, d.alone, trivial⟩
      | cons t ts =>
          rw [separated] at hs
          split at hs
          · rename_i ht
            obtain ⟨⟨e', rest₁⟩, he, hs⟩ := bind_eq_ok.mp hs
            obtain ⟨⟨es', rest₂⟩, hes, hs⟩ := bind_eq_ok.mp hs
            cases hs
            obtain ⟨r', hr', hr⟩ := bind_eq_ok.mp hr
            obtain ⟨⟨sum, _⟩, hsum, hr⟩ := bind_eq_ok.mp hr
            cases hr
            obtain ⟨_, rfl, _⟩ := build_eq_ok.mp hsum
            obtain ⟨⟨read', rfl, ⟨d'⟩⟩, hstop'⟩ := h.expr he
            simp only [List.length_cons, List.length_append] at hb
            obtain ⟨more, rfl, ⟨d''⟩, hstop''⟩ := ih d' hstop' (by omega) hes hr'
            exact ⟨t :: (read' ++ more), by simp, ⟨.sum d ht d''⟩, hstop''⟩
          · rename_i ht
            cases hs
            cases hr
            refine ⟨[], rfl, d.alone, hstop.1.imp_right fun _ => by decide, ?_⟩
            intro op hop
            have hlt := hstop.2 op hop
            have hne : op ≠ .add := by
              rintro rfl
              exact ht (eq_plus_of_binaryOp? hop)
            cases op <;> simp_all [BinaryOp.precedence, Stratum.level]

theorem rightOperand_takes (h : inner.Sound extended) {op : BinaryOp} {ts rest : List Token}
    {e : Expr} (hr : rightOperand inner groups op ts = .ok (e, rest)) :
    Takes extended (rightStratum op) ts e rest ∧ Follows (stratum op) rest := by
  obtain ⟨⟨e', rest'⟩, he, hr⟩ := bind_eq_ok.mp hr
  dsimp only at hr
  split at hr
  · rename_i hop
    subst hop
    obtain ⟨⟨es, rest''⟩, hes, hr⟩ := bind_eq_ok.mp hr
    obtain ⟨r, hsum, hr⟩ := bind_eq_ok.mp hr
    cases hr
    obtain ⟨⟨read, rfl, ⟨d⟩⟩, hstop⟩ := h.expr (s := .difference) he
    obtain ⟨more, rfl, hd, hstop'⟩ := summands_takes h d hstop (Nat.le_refl _) hes hsum
    exact ⟨⟨read ++ more, by simp, hd⟩, hstop'.follows_sum⟩
  · rename_i hop
    cases hr
    have hlevel : op.precedence + 1 = (rightStratum op).level := by
      cases op <;> first | rfl | exact absurd rfl hop
    rw [hlevel] at he
    obtain ⟨htakes, hstop⟩ := h.expr he
    exact ⟨htakes, (hlevel ▸ hstop).follows_stratum hop⟩

theorem assignment_eq_ok {target e : Expr} {op : Option BinaryOp} {sign : Token}
    {ts rest : List Token} (h : assignment inner groups target op sign ts = .ok (e, rest)) :
    ∃ x v, target = .var x ∧ inner.expr groups assignPrecedence ts = .ok (v, rest) ∧
      e = .assign x (stored x v op) := by
  cases target with
  | var x =>
      rw [assignment_var] at h
      obtain ⟨⟨v, rest₁⟩, hv, hstore⟩ := bind_eq_ok.mp h
      obtain ⟨⟨v', rest₂⟩, hv', hbuild⟩ := bind_eq_ok.mp hstore
      obtain ⟨_, rfl, rfl⟩ := build_eq_ok.mp hbuild
      have hstored : v' = stored x v op ∧ rest = rest₁ := by
        cases op with
        | none => cases hv'; exact ⟨rfl, rfl⟩
        | some op => exact (build_eq_ok.mp hv').2
      obtain ⟨rfl, rfl⟩ := hstored
      exact ⟨x, v, rfl, hv, rfl⟩
  | _ => cases h

theorem assignment_takes (h : inner.Sound extended) {s : Stratum} {target e : Expr}
    {op : Option BinaryOp} {t : Token} {read ts rest : List Token}
    (hop : t.kind.assignOp? = some op) (d : Derivation extended s read target)
    (ha : assignment inner groups target op t ts = .ok (e, rest)) :
    ∃ more, ts = more ++ rest ∧
      Nonempty (Derivation extended .expression (read ++ t :: more) e) ∧
      Stops assignPrecedence rest := by
  obtain ⟨x, v, rfl, hv, rfl⟩ := assignment_eq_ok ha
  obtain ⟨⟨more, hts, ⟨d'⟩⟩, hstop⟩ := h.expr (s := .expression) hv
  obtain ⟨target⟩ := d.target
  exact ⟨more, hts, ⟨.assign target (assignOp_iff.mpr ⟨op, hop, rfl⟩) d'⟩, hstop⟩

theorem binaryOp?_of_assignOp? {k : Token.Kind} {op : Option BinaryOp}
    (h : k.assignOp? = some op) : k.binaryOp? = none := by
  cases k <;> simp_all [Token.Kind.assignOp?, Token.Kind.binaryOp?]

theorem assignOp?_of_binaryOp? {k : Token.Kind} {op : BinaryOp} (h : k.binaryOp? = some op) :
    k.assignOp? = none := by
  cases k <;> simp_all [Token.Kind.assignOp?, Token.Kind.binaryOp?]

/-- The loop over operators, from an operand that the next operator may take. -/
theorem operators_takes (h : inner.Sound extended) {s s' : Stratum} {bound : Nat}
    {read ts rest : List Token} {left e : Expr} (d : Derivation extended s' read left)
    (hs : s.level ≤ s'.level) (hf : Follows s' ts) (hb : ts.length ≤ bound)
    (ho : operators inner groups s.level bound left ts = .ok (e, rest)) :
    ∃ more, ts = more ++ rest ∧ Nonempty (Derivation extended s (read ++ more) e) ∧
      Stops s.level rest := by
  induction bound generalizing s' read ts left with
  | zero =>
      cases List.length_eq_zero_iff.mp (Nat.le_zero.mp hb)
      cases ho
      exact ⟨[], rfl, ⟨by simpa using d.loosen hs⟩, trivial⟩
  | succ bound ih =>
      cases ts with
      | nil =>
          cases ho
          exact ⟨[], rfl, ⟨by simpa using d.loosen hs⟩, trivial⟩
      | cons t ts =>
          rw [operators] at ho
          simp only [List.length_cons] at hb
          split at ho
          · rename_i op hop
            split at ho
            · rename_i hleast
              cases ho
              refine ⟨[], rfl, ⟨by simpa using d.loosen hs⟩, .inr hleast, ?_⟩
              intro op' hop'
              rw [binaryOp?_of_assignOp? hop] at hop'
              cases hop'
            · rename_i hleast
              obtain ⟨⟨e', rest'⟩, ha, hloop⟩ := bind_eq_ok.mp ho
              obtain ⟨more, rfl, ⟨d'⟩, hstop⟩ := assignment_takes h hop d ha
              simp only [List.length_append] at hb
              obtain ⟨more', rfl, hd, hstop'⟩ :=
                ih d' (Nat.le_of_not_lt hleast) hstop.follows_expression (by omega) hloop
              exact ⟨t :: (more ++ more'), by simp, by simpa using hd, hstop'⟩
          · rename_i op hassign hop
            split at ho
            · rename_i hleast
              cases ho
              refine ⟨[], rfl, ⟨by simpa using d.loosen hs⟩, .inl hassign, ?_⟩
              intro op' hop'
              cases hop.symm.trans hop'
              exact hleast
            · rename_i hleast
              obtain ⟨⟨r, rest'⟩, hr, hloop⟩ := bind_eq_ok.mp ho
              obtain ⟨⟨e', rest''⟩, hbuild, hrun⟩ := bind_eq_ok.mp hloop
              obtain ⟨_, rfl, rfl⟩ := build_eq_ok.mp hbuild
              obtain ⟨⟨more, rfl, ⟨d'⟩⟩, hfollow⟩ := rightOperand_takes h hr
              obtain ⟨d''⟩ := Derivation.binary hop (d.loosen (hf op hop)) d'
              simp only [List.length_append] at hb
              obtain ⟨more', rfl, hd, hstop⟩ :=
                ih d'' (by rw [level_stratum]; omega) hfollow (by omega) hrun
              exact ⟨t :: (more ++ more'), by simp, by simpa using hd, hstop⟩
          · rename_i hassign hop
            cases ho
            refine ⟨[], rfl, ⟨by simpa using d.loosen hs⟩, .inl hassign, ?_⟩
            intro op' hop'
            cases hop.symm.trans hop'

/-! ## All levels -/

theorem Level.sound_bottom : Level.bottom.Sound extended where
  expr h := by cases h
  operand h := by cases h

theorem Level.Sound.above (h : inner.Sound extended) : (Level.above extended inner).Sound extended where
  expr he := by
    obtain ⟨⟨e, rest⟩, hu, ho⟩ := bind_eq_ok.mp he
    obtain ⟨read, rfl, ⟨d⟩⟩ := unary_takes h hu
    obtain ⟨more, rfl, hd, hstop⟩ :=
      operators_takes h d (Stratum.level_le_operand _) (follows_operand _) (Nat.le_refl _) ho
    exact ⟨⟨read ++ more, by simp, hd⟩, hstop⟩
  operand he := unary_takes h he

theorem Level.sound (extended : Bool) (n : Nat) : (Level.ofDepth extended n).Sound extended := by
  induction n with
  | zero => exact sound_bottom
  | succ n ih => exact ih.above

end DebugExpr.Parse
