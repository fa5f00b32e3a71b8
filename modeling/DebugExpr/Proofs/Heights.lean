import DebugExpr.Proofs.Sound

/-!
# The heights of what is read

Every tree that is read is within the limit on the height, and so is a tree that an assignment is
refused to: no reader has the text of a higher tree written for a message.
-/

namespace DebugExpr.Parse

/-- A good result is as asked, and a tree that an assignment is refused to is within the limit. -/
def Bounded {α : Type} (good : α → Prop) : Except Failure α → Prop
  | .ok a => good a
  | .error f => ∀ target, f.cause = .notAssignable target → target.height ≤ maxHeight

/-- The tree that is read is within the limit on the height. -/
def IsLow (front : Front Expr) : Prop :=
  front.1.height ≤ maxHeight

namespace Bounded

variable {α β : Type} {good : α → Prop} {good' : β → Prop}

theorem bind {x : Except Failure α} {f : α → Except Failure β} (hx : Bounded good x)
    (hf : ∀ a, good a → Bounded good' (f a)) : Bounded good' (x >>= f) := by
  cases x with
  | ok a => exact hf a hx
  | error e => exact hx

theorem trivially {x : Except Failure α} (hx : Bounded good x) : Bounded (fun _ => True) x := by
  cases x with
  | ok a => trivial
  | error e => exact hx

end Bounded

/-- Every reading of a level is within the limit. -/
structure Level.Low (inner : Level) : Prop where
  expr (groups : List Bracket) (least : Nat) (ts : List Token) :
    Bounded IsLow (inner.expr groups least ts)
  operand (groups : List Bracket) (ts : List Token) : Bounded IsLow (inner.operand groups ts)

theorem bounded_fail {α : Type} {good : α → Prop} {cause : Cause} (ts : List Token)
    (h : ∀ target, cause ≠ .notAssignable target) : Bounded good (fail cause ts : Except Failure α) :=
  fun target heq => absurd heq (h target)

/-- A new tree is within the limit whatever it is made of. -/
theorem bounded_build (e : Expr) (rest : List Token) : Bounded IsLow (build e rest) := by
  unfold build
  split
  · exact bounded_fail rest (by simp)
  · rename_i hheight
    exact Nat.le_of_not_lt hheight

theorem bounded_closeGroup (b : Bracket) (opener : Token) (inside ts : List Token) :
    Bounded (fun _ => True) (closeGroup b opener inside ts) := by
  cases ts with
  | nil => exact bounded_fail _ (by simp)
  | cons t rest =>
      rw [closeGroup]
      split
      · trivial
      · exact bounded_fail _ (by simp)

/-- A leaf has one level. -/
theorem isLow_leaf {e : Expr} (h : e.height = 1) (rest : List Token) : IsLow (e, rest) := by
  rw [IsLow, h]
  decide

variable {inner : Level} {groups : List Bracket}

/-! ## Lists of expressions -/

/-- Items go into a new tree, so their heights are not asked for. -/
theorem bounded_separated (h : inner.Low) (sep : Token.Kind) (least bound : Nat)
    (ts : List Token) :
    Bounded (fun _ => True) (separated sep (inner.expr groups least) bound ts) := by
  induction bound generalizing ts with
  | zero => trivial
  | succ bound ih =>
      cases ts with
      | nil => trivial
      | cons t ts =>
          rw [separated]
          split
          · refine (h.expr groups least ts).bind ?_
            rintro ⟨e, rest⟩ _
            refine (ih rest).bind ?_
            rintro ⟨es, rest'⟩ _
            trivial
          · trivial

theorem bounded_exprs (h : inner.Low) (ts : List Token) :
    Bounded (fun _ => True) (exprs inner groups ts) := by
  refine (h.expr groups assignPrecedence ts).bind ?_
  rintro ⟨e, rest⟩ _
  refine (bounded_separated h .comma assignPrecedence rest.length rest).bind ?_
  rintro ⟨es, rest'⟩ _
  trivial

/-! ## Operands -/

theorem bounded_call (h : inner.Low) (name : String) (opener : Token) (inside : List Token) :
    Bounded IsLow (call inner groups name opener inside) := by
  unfold call
  split
  · exact isLow_leaf rfl _
  · refine (bounded_exprs h inside).bind ?_
    rintro ⟨args, rest⟩ _
    refine (bounded_closeGroup .paren opener inside rest).bind ?_
    intro rest' _
    exact bounded_build _ _

theorem bounded_funcBody (h : inner.Low) (params : List String) (opener : Token)
    (inside : List Token) : Bounded IsLow (funcBody inner groups params opener inside) := by
  have hbody : Bounded (fun _ => True)
      (if nextIs .rbrace inside then .ok ([], inside)
        else exprs inner (.brace :: groups) inside) := by
    split
    · trivial
    · exact bounded_exprs h inside
  rw [funcBody_eq]
  refine hbody.bind ?_
  rintro ⟨body, rest⟩ _
  refine (bounded_closeGroup .brace opener inside rest).bind ?_
  intro rest' _
  exact bounded_build _ _

theorem bounded_parens (h : inner.Low) (opener : Token) (inside : List Token) :
    Bounded IsLow (parens inner groups opener inside) := by
  unfold parens
  split
  · split
    · exact bounded_funcBody h _ _ _
    · exact bounded_fail _ (by simp)
  · split
    · exact bounded_fail _ (by simp)
    · refine (h.expr _ _ inside).bind ?_
      rintro ⟨e, rest⟩ he
      refine (bounded_closeGroup .paren opener inside rest).bind ?_
      intro rest' _
      exact he

theorem noOperand_ne (groups : List Bracket) (t : Token) (target : Expr) :
    noOperand groups t ≠ .notAssignable target := by
  unfold noOperand
  split
  · split <;> simp
  · split <;> simp

theorem bounded_primary (extended : Bool) (h : inner.Low) (ts : List Token) :
    Bounded IsLow (primary extended inner groups ts) := by
  cases ts with
  | nil => exact bounded_fail _ (by simp)
  | cons t rest =>
      simp only [primary]
      split
      · exact isLow_leaf rfl _
      · exact isLow_leaf rfl _
      · split
        · exact isLow_leaf rfl _
        · exact bounded_fail _ (by simp)
      · exact isLow_leaf rfl _
      · split
        · split
          · exact bounded_call h _ _ _
          · exact isLow_leaf rfl _
        · exact isLow_leaf rfl _
      · exact bounded_parens h t rest
      · exact bounded_fail _ (noOperand_ne groups t)

theorem bounded_unary (extended : Bool) (h : inner.Low) (ts : List Token) :
    Bounded IsLow (unary extended inner groups ts) := by
  cases ts with
  | nil => exact bounded_fail _ (by simp)
  | cons t rest =>
      rw [unary]
      split
      · refine (h.operand groups rest).bind ?_
        rintro ⟨e, rest'⟩ _
        exact bounded_build _ _
      · exact bounded_primary extended h (t :: rest)

/-! ## Operators -/

theorem bounded_sumRight (rest : List Token) (e : Expr) (es : List Expr) :
    Bounded (fun _ => True) (sumRight rest e es) := by
  induction es generalizing e with
  | nil => trivial
  | cons e' es ih =>
      rw [sumRight]
      refine (ih e').bind ?_
      intro right _
      refine (bounded_build _ rest).bind ?_
      rintro ⟨sum, _⟩ _
      trivial

/-- A right operand goes into a new tree, so its height is not asked for. -/
theorem bounded_rightOperand (h : inner.Low) (op : BinaryOp) (ts : List Token) :
    Bounded (fun _ => True) (rightOperand inner groups op ts) := by
  unfold rightOperand
  refine (h.expr groups (op.precedence + 1) ts).bind ?_
  rintro ⟨e, rest⟩ _
  dsimp only
  split
  · refine (bounded_separated h .plus _ _ rest).bind ?_
    rintro ⟨es, rest'⟩ _
    refine (bounded_sumRight rest' e es).bind ?_
    intro right _
    trivial
  · trivial

theorem bounded_assignment (h : inner.Low) {target : Expr} (htarget : target.height ≤ maxHeight)
    (op : Option BinaryOp) (sign : Token) (ts : List Token) :
    Bounded IsLow (assignment inner groups target op sign ts) := by
  cases target with
  | var x =>
      rw [assignment_var]
      refine (h.expr groups assignPrecedence ts).bind ?_
      rintro ⟨v, rest⟩ _
      have hstored : Bounded (fun _ => True)
          (if op.isSome then build (Grammar.stored x v op) rest else .ok (v, rest)) := by
        split
        · exact (bounded_build _ _).trivially
        · trivial
      refine hstored.bind ?_
      rintro ⟨v', rest'⟩ _
      exact bounded_build _ _
  | _ =>
      -- The refused tree is the one that was just read.
      rintro _ ⟨⟩
      exact htarget

theorem bounded_operators (h : inner.Low) (least bound : Nat) {left : Expr}
    (hleft : left.height ≤ maxHeight) (ts : List Token) :
    Bounded IsLow (operators inner groups least bound left ts) := by
  induction bound generalizing left ts with
  | zero => exact hleft
  | succ bound ih =>
      cases ts with
      | nil => exact hleft
      | cons t rest =>
          rw [operators]
          split
          · split
            · exact hleft
            · refine (bounded_assignment h hleft _ t rest).bind ?_
              rintro ⟨e, rest'⟩ he
              exact ih he rest'
          · split
            · exact hleft
            · refine (bounded_rightOperand h _ rest).bind ?_
              rintro ⟨right, rest'⟩ _
              refine (bounded_build _ rest').bind ?_
              rintro ⟨e, rest''⟩ he
              exact ih he rest''
          · exact hleft

/-! ## All levels -/

theorem Level.low_bottom : Level.bottom.Low where
  expr _ _ ts := bounded_fail ts (by simp)
  operand _ ts := bounded_fail ts (by simp)

theorem Level.Low.above (extended : Bool) (h : inner.Low) :
    (Level.above extended inner).Low where
  expr _ least ts := by
    refine (bounded_unary extended h ts).bind ?_
    rintro ⟨e, rest⟩ he
    exact bounded_operators h least rest.length he rest
  operand _ ts := bounded_unary extended h ts

theorem Level.low (extended : Bool) (n : Nat) : (Level.ofDepth extended n).Low := by
  induction n with
  | zero => exact low_bottom
  | succ n ih => exact ih.above extended

theorem leftOver_ne (t : Token) (target : Expr) : leftOver t ≠ .notAssignable target := by
  unfold leftOver
  split
  · simp
  · split <;> simp

/-- The tree of all tokens is within the limit, and so is one that an assignment is refused to. -/
theorem bounded_ofTokens (extended : Bool) (ts : List Token) :
    Bounded (·.height ≤ maxHeight) (Expr.ofTokens extended ts) := by
  refine ((Level.low extended maxDepth).expr [] assignPrecedence ts).bind ?_
  rintro ⟨e, rest⟩ he
  cases rest with
  | nil => exact he
  | cons t rest => exact bounded_fail _ (leftOver_ne t)

end DebugExpr.Parse
