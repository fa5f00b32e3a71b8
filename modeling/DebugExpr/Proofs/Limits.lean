import DebugExpr.Proofs.Sound

/-!
# What is derived is read, within the limits

A derived part of the tokens is read to its end, unless its nesting or its height is beyond the
limits; then, and only then, the failure is that it is too deep.
-/

namespace DebugExpr.Parse

open Grammar

/-! ## Within the limits -/

/-- Where the limits are kept, `x` is `y`; elsewhere it is too deep. -/
def Within {α : Type} (fits : Prop) (x y : Except Failure α) : Prop :=
  (fits → x = y) ∧ (¬ fits → ∃ ts, x = .error ⟨.tooDeep, ts⟩)

namespace Within

variable {α β : Type} {p q : Prop} {x y z : Except Failure α}

theorem of_eq (hp : p) (h : x = y) : Within p x y :=
  ⟨fun _ => h, fun hnp => absurd hp hnp⟩

theorem congr (h : Within p x y) (hpq : p ↔ q) : Within q x y :=
  ⟨fun hq => h.1 (hpq.mpr hq), fun hnq => h.2 fun hp => hnq (hpq.mp hp)⟩

theorem trans (h : Within p x y) (h' : Within q y z) : Within (p ∧ q) x z := by
  by_cases hp : p
  · rw [h.1 hp]
    exact h'.congr (by simp [hp])
  · exact ⟨fun hpq => absurd hpq.1 hp, fun _ => h.2 hp⟩

theorem bind (h : Within p x y) (f : α → Except Failure β) : Within p (x >>= f) (y >>= f) := by
  refine ⟨fun hp => by rw [h.1 hp], fun hnp => ?_⟩
  obtain ⟨ts, rfl⟩ := h.2 hnp
  exact ⟨ts, rfl⟩

theorem andThen {a : α} {f : α → Except Failure β} {b : Except Failure β}
    (h : Within p x (.ok a)) (h' : Within q (f a) b) : Within (p ∧ q) (x >>= f) b :=
  (h.bind f).trans h'

end Within

theorem build_within (e : Expr) (rest : List Token) :
    Within (e.height ≤ maxHeight) (build e rest) (.ok (e, rest)) := by
  by_cases h : e.height > maxHeight
  · exact ⟨fun h' => absurd h (Nat.not_lt.mpr h'), fun _ => ⟨rest, by simp [build, fail, h]⟩⟩
  · exact .of_eq (Nat.le_of_not_lt h) (by simp [build, h])

/-! ## The bounds of the loops -/

variable {extended : Bool} {inner : Level} {groups : List Bracket}

theorem Takes.length_le {s : Stratum} {ts rest : List Token} {e : Expr}
    (h : Takes extended s ts e rest) : rest.length ≤ ts.length := by
  obtain ⟨read, rfl, _⟩ := h
  simp

/-- Any bound that is large enough gives the same list. -/
theorem separated_bound (groups : List Bracket) (h : inner.Sound extended) (s : Stratum)
    (sep : Token.Kind) {b b' : Nat} {ts : List Token} (hb : ts.length ≤ b) (hb' : ts.length ≤ b') :
    separated sep (inner.expr groups s.level) b ts =
      separated sep (inner.expr groups s.level) b' ts := by
  induction b generalizing b' ts with
  | zero =>
      cases List.length_eq_zero_iff.mp (Nat.le_zero.mp hb)
      cases b' <;> rfl
  | succ b ih =>
      cases ts with
      | nil => cases b' <;> rfl
      | cons t ts =>
          cases b' with
          | zero => simp at hb'
          | succ b' =>
              simp only [List.length_cons, Nat.add_le_add_iff_right] at hb hb'
              rw [separated, separated]
              split
              · cases he : inner.expr groups s.level ts with
                | error => rfl
                | ok p =>
                    have hle := (h.expr he).1.length_le
                    simp only [bind, Except.bind]
                    rw [ih (Nat.le_trans hle hb) (Nat.le_trans hle hb')]
              · rfl

theorem assignment_length_le (h : inner.Sound extended) {target e : Expr} {op : Option BinaryOp}
    {sign : Token} {ts rest : List Token}
    (ha : assignment inner groups target op sign ts = .ok (e, rest)) :
    rest.length ≤ ts.length := by
  obtain ⟨x, v, _, hv, _⟩ := assignment_eq_ok ha
  exact (h.expr (s := .expression) hv).1.length_le

/-- Any bound that is large enough gives the same expression. -/
theorem operators_bound (h : inner.Sound extended) {least b b' : Nat} {left : Expr}
    {ts : List Token} (hb : ts.length ≤ b) (hb' : ts.length ≤ b') :
    operators inner groups least b left ts = operators inner groups least b' left ts := by
  induction b generalizing b' left ts with
  | zero =>
      cases List.length_eq_zero_iff.mp (Nat.le_zero.mp hb)
      cases b' <;> rfl
  | succ b ih =>
      cases ts with
      | nil => cases b' <;> rfl
      | cons t ts =>
          cases b' with
          | zero => simp at hb'
          | succ b' =>
              simp only [List.length_cons, Nat.add_le_add_iff_right] at hb hb'
              rw [operators, operators]
              split
              · rename_i op hop
                split
                · rfl
                · cases ha : assignment inner groups left op t ts with
                  | error => rfl
                  | ok p =>
                      have hle := assignment_length_le h ha
                      exact ih (Nat.le_trans hle hb) (Nat.le_trans hle hb')
              · rename_i op _ hop
                split
                · rfl
                · cases hr : rightOperand inner groups op ts with
                  | error => rfl
                  | ok p =>
                      have hle := (rightOperand_takes h hr).1.length_le
                      simp only [bind, Except.bind]
                      cases hbuild : build (.binary op left p.1) p.2 with
                      | error => rfl
                      | ok p' =>
                          obtain ⟨_, _, hrest⟩ := build_eq_ok.mp hbuild
                          rw [← hrest] at hle
                          exact ih (Nat.le_trans hle hb) (Nat.le_trans hle hb')
              · rfl

end DebugExpr.Parse
