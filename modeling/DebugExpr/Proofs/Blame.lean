import DebugExpr.Proofs.Sound

/-!
# Where failures are

Every reader works on the end of its tokens: what it leaves is an end part of them, and so are the
tokens from the one on that a failure blames.
-/

namespace DebugExpr.Parse

/-- What is left of the tokens is an end part of them, both of a good result and of a failure. -/
def Leaves {α : Type} (left : α → List Token) (ts : List Token) : Except Failure α → Prop
  | .ok a => left a <:+ ts
  | .error f => f.rest <:+ ts

namespace Leaves

variable {α β : Type} {l : α → List Token} {l' : β → List Token} {ts us : List Token}

theorem mono {x : Except Failure α} (h : Leaves l ts x) (hts : ts <:+ us) : Leaves l us x := by
  cases x with
  | ok a => exact List.IsSuffix.trans h hts
  | error f => exact List.IsSuffix.trans h hts

/-- A reader that goes on with what is left works on the end of the same tokens. -/
theorem bind {x : Except Failure α} {f : α → Except Failure β} (hx : Leaves l ts x)
    (hf : ∀ a, l a <:+ ts → Leaves l' ts (f a)) : Leaves l' ts (x >>= f) := by
  cases x with
  | ok a => exact hf a hx
  | error e => exact hx

end Leaves

/-- Every reading of a level leaves an end part of the tokens. -/
structure Level.Leaving (inner : Level) : Prop where
  expr (groups : List Bracket) (least : Nat) (ts : List Token) :
    Leaves Prod.snd ts (inner.expr groups least ts)
  operand (groups : List Bracket) (ts : List Token) :
    Leaves Prod.snd ts (inner.operand groups ts)

theorem leaves_fail {α : Type} {l : α → List Token} {ts us : List Token} (cause : Cause)
    (h : us <:+ ts) : Leaves l ts (fail cause us) :=
  h

theorem leaves_build {ts rest : List Token} (e : Expr) (h : rest <:+ ts) :
    Leaves Prod.snd ts (build e rest) := by
  unfold build
  split
  · exact leaves_fail .tooDeep h
  · exact h

theorem leaves_closeGroup (b : Bracket) (opener : Token) {inside ts : List Token}
    (h : ts <:+ opener :: inside) :
    Leaves id (opener :: inside) (closeGroup b opener inside ts) := by
  cases ts with
  | nil => exact leaves_fail _ (List.suffix_refl _)
  | cons t rest =>
      rw [closeGroup]
      split
      · exact (List.suffix_cons t rest).trans h
      · exact leaves_fail _ h

variable {inner : Level} {groups : List Bracket}

/-! ## Lists of expressions -/

theorem leaves_separated (h : inner.Leaving) (sep : Token.Kind) (least bound : Nat)
    (ts : List Token) : Leaves Prod.snd ts (separated sep (inner.expr groups least) bound ts) := by
  induction bound generalizing ts with
  | zero => exact List.suffix_refl ts
  | succ bound ih =>
      cases ts with
      | nil => exact List.suffix_refl []
      | cons t ts =>
          rw [separated]
          split
          · refine ((h.expr groups least ts).mono (List.suffix_cons t ts)).bind ?_
            rintro ⟨e, rest⟩ hrest
            refine ((ih rest).mono hrest).bind ?_
            rintro ⟨es, rest'⟩ hrest'
            exact hrest'
          · exact List.suffix_refl _

theorem leaves_exprs (h : inner.Leaving) (ts : List Token) :
    Leaves Prod.snd ts (exprs inner groups ts) := by
  refine (h.expr groups assignPrecedence ts).bind ?_
  rintro ⟨e, rest⟩ hrest
  refine ((leaves_separated h .comma assignPrecedence rest.length rest).mono hrest).bind ?_
  rintro ⟨es, rest'⟩ hrest'
  exact hrest'

/-! ## Operands -/

theorem leaves_call (h : inner.Leaving) (name : String) (opener : Token) (inside : List Token) :
    Leaves Prod.snd (opener :: inside) (call inner groups name opener inside) := by
  have hinside : inside <:+ opener :: inside := List.suffix_cons opener inside
  unfold call
  split
  · exact (List.tail_suffix inside).trans hinside
  · refine ((leaves_exprs h inside).mono hinside).bind ?_
    rintro ⟨args, rest⟩ hrest
    refine (leaves_closeGroup .paren opener hrest).bind ?_
    intro rest' hrest'
    exact leaves_build _ hrest'

theorem leaves_funcBody (h : inner.Leaving) (params : List String) (opener : Token)
    (inside : List Token) :
    Leaves Prod.snd (opener :: inside) (funcBody inner groups params opener inside) := by
  have hinside : inside <:+ opener :: inside := List.suffix_cons opener inside
  have hbody : Leaves Prod.snd (opener :: inside)
      (if nextIs .rbrace inside then .ok ([], inside)
        else exprs inner (.brace :: groups) inside) := by
    split
    · exact hinside
    · exact (leaves_exprs h inside).mono hinside
  rw [funcBody_eq]
  refine hbody.bind ?_
  rintro ⟨body, rest⟩ hrest
  refine (leaves_closeGroup .brace opener hrest).bind ?_
  intro rest' hrest'
  exact leaves_build _ hrest'

theorem leaves_parens (h : inner.Leaving) (opener : Token) (inside : List Token) :
    Leaves Prod.snd (opener :: inside) (parens inner groups opener inside) := by
  have hinside : inside <:+ opener :: inside := List.suffix_cons opener inside
  unfold parens
  split
  · -- The body begins after the parameters, still on the end of the tokens.
    rename_i hopens
    obtain ⟨ps, xs, u, v, body, rfl, hps, hu, _⟩ := opensFunc_iff.mp hopens
    have hbrace : v :: body <:+ opener :: (ps ++ u :: v :: body) :=
      (List.suffix_cons u _).trans ((List.suffix_append ps _).trans hinside)
    rw [takeParams_append hps hu]
    exact (leaves_funcBody h xs v body).mono hbrace
  · split
    · exact leaves_fail .emptyParens (List.suffix_refl _)
    · refine ((h.expr _ _ inside).mono hinside).bind ?_
      rintro ⟨e, rest⟩ hrest
      refine (leaves_closeGroup .paren opener hrest).bind ?_
      intro rest' hrest'
      exact hrest'

theorem leaves_primary (extended : Bool) (h : inner.Leaving) (ts : List Token) :
    Leaves Prod.snd ts (primary extended inner groups ts) := by
  cases ts with
  | nil => exact leaves_fail .missing (List.suffix_refl [])
  | cons t rest =>
      have hrest : rest <:+ t :: rest := List.suffix_cons t rest
      have hself : t :: rest <:+ t :: rest := List.suffix_refl _
      simp only [primary]
      split
      · exact hrest
      · exact hrest
      · split
        · exact hrest
        · exact leaves_fail .binaryLiteral hself
      · exact hrest
      · split
        · split
          · exact (leaves_call h _ _ _).mono hrest
          · exact hrest
        · exact hrest
      · exact leaves_parens h t rest
      · exact leaves_fail _ hself

theorem leaves_unary (extended : Bool) (h : inner.Leaving) (ts : List Token) :
    Leaves Prod.snd ts (unary extended inner groups ts) := by
  cases ts with
  | nil => exact leaves_fail .missing (List.suffix_refl [])
  | cons t rest =>
      rw [unary]
      split
      · refine ((h.operand groups rest).mono (List.suffix_cons t rest)).bind ?_
        rintro ⟨e, rest'⟩ hrest'
        exact leaves_build _ hrest'
      · exact leaves_primary extended h (t :: rest)

/-! ## Operators -/

theorem leaves_sumRight {rest ts : List Token} (hrest : rest <:+ ts) (e : Expr) (es : List Expr) :
    Leaves (fun _ => rest) ts (sumRight rest e es) := by
  induction es generalizing e with
  | nil => exact hrest
  | cons e' es ih =>
      rw [sumRight]
      refine (ih e').bind ?_
      intro right _
      refine (leaves_build _ hrest).bind ?_
      rintro ⟨sum, _⟩ _
      exact hrest

theorem leaves_rightOperand (h : inner.Leaving) (op : BinaryOp) (ts : List Token) :
    Leaves Prod.snd ts (rightOperand inner groups op ts) := by
  unfold rightOperand
  refine (h.expr groups (op.precedence + 1) ts).bind ?_
  rintro ⟨e, rest⟩ hrest
  dsimp only
  split
  · refine ((leaves_separated h .plus _ _ rest).mono hrest).bind ?_
    rintro ⟨es, rest'⟩ hrest'
    refine (leaves_sumRight hrest' e es).bind ?_
    intro right _
    exact hrest'
  · exact hrest

theorem leaves_assignment (h : inner.Leaving) (target : Expr) (op : Option BinaryOp) (sign : Token)
    (ts : List Token) :
    Leaves Prod.snd (sign :: ts) (assignment inner groups target op sign ts) := by
  have hts : ts <:+ sign :: ts := List.suffix_cons sign ts
  cases target with
  | var x =>
      rw [assignment_var]
      refine ((h.expr groups assignPrecedence ts).mono hts).bind ?_
      rintro ⟨v, rest⟩ hrest
      have hstored : Leaves Prod.snd (sign :: ts)
          (if op.isSome then build (Grammar.stored x v op) rest else .ok (v, rest)) := by
        split
        · exact leaves_build _ hrest
        · exact hrest
      refine hstored.bind ?_
      rintro ⟨v', rest'⟩ hrest'
      exact leaves_build _ hrest'
  | _ => exact leaves_fail _ (List.suffix_refl _)

theorem leaves_operators (h : inner.Leaving) (least bound : Nat) (left : Expr) (ts : List Token) :
    Leaves Prod.snd ts (operators inner groups least bound left ts) := by
  induction bound generalizing left ts with
  | zero => exact List.suffix_refl ts
  | succ bound ih =>
      cases ts with
      | nil => exact List.suffix_refl []
      | cons t rest =>
          have hrest : rest <:+ t :: rest := List.suffix_cons t rest
          have hself : t :: rest <:+ t :: rest := List.suffix_refl _
          rw [operators]
          split
          · split
            · exact hself
            · refine (leaves_assignment h left _ t rest).bind ?_
              rintro ⟨e, rest'⟩ hrest'
              exact (ih e rest').mono hrest'
          · split
            · exact hself
            · refine ((leaves_rightOperand h _ rest).mono hrest).bind ?_
              rintro ⟨right, rest'⟩ hrest'
              refine (leaves_build _ hrest').bind ?_
              rintro ⟨e, rest''⟩ hrest''
              exact (ih e rest'').mono hrest''
          · exact hself

/-! ## All levels -/

theorem Level.leaving_bottom : Level.bottom.Leaving where
  expr _ _ ts := leaves_fail .tooDeep (List.suffix_refl ts)
  operand _ ts := leaves_fail .tooDeep (List.suffix_refl ts)

theorem Level.Leaving.above (extended : Bool) (h : inner.Leaving) :
    (Level.above extended inner).Leaving where
  expr _ least ts := by
    refine (leaves_unary extended h ts).bind ?_
    rintro ⟨e, rest⟩ hrest
    exact (leaves_operators h least rest.length e rest).mono hrest
  operand _ ts := leaves_unary extended h ts

theorem Level.leaving (extended : Bool) (n : Nat) : (Level.ofDepth extended n).Leaving := by
  induction n with
  | zero => exact leaving_bottom
  | succ n ih => exact ih.above extended

/-- A failure blames a token of the input, or its end. -/
theorem blame_suffix {extended : Bool} {ts : List Token} {f : Failure}
    (h : Expr.ofTokens extended ts = .error f) : f.rest <:+ ts := by
  have hleaves : Leaves (fun _ => []) ts (Expr.ofTokens extended ts) := by
    refine ((Level.leaving extended maxDepth).expr [] assignPrecedence ts).bind ?_
    rintro ⟨e, rest⟩ hrest
    cases rest with
    | nil => exact hrest
    | cons t rest => exact leaves_fail _ hrest
  rw [h] at hleaves
  exact hleaves

end DebugExpr.Parse
