import DebugExpr.Proofs.Sound

/-!
# Open groups

The brackets of a list of tokens leave some groups open. The reader knows those around every token
that it reads, and so a failure that names a bracket says of it what is true of the tokens.
-/

namespace DebugExpr

open Token (Kind)

namespace Bracket

def opening : Bracket → Kind
  | paren => .lparen
  | brace => .lbrace

def openingText : Bracket → String
  | paren => "("
  | brace => "\x7b"

def ofOpening? : Kind → Option Bracket
  | .lparen => some paren
  | .lbrace => some brace
  | _ => none

theorem ofOpening?_eq_some {k : Kind} {b : Bracket} (h : ofOpening? k = some b) :
    k = b.opening := by
  cases k <;> simp [ofOpening?] at h <;> subst h <;> rfl

theorem ofClosing?_eq_some {k : Kind} {b : Bracket} (h : ofClosing? k = some b) :
    k = b.closing := by
  cases k <;> simp [ofClosing?] at h <;> subst h <;> rfl

end Bracket

/-- A group that is open: its bracket and the token that opens it. -/
abbrev OpenGroup := Bracket × Token

/-! ## The groups that tokens leave open -/

/-- The open groups after one more token, the innermost first. There are none if the token closes a
group that is not the innermost one. -/
def groupsAfterToken (opened : List OpenGroup) (t : Token) : Option (List OpenGroup) :=
  match Bracket.ofOpening? t.kind, Bracket.ofClosing? t.kind with
  | some b, _ => some ((b, t) :: opened)
  | none, none => some opened
  | none, some b =>
    match opened with
    | [] => none
    | group :: outer => if group.1 = b then some outer else none

/-- The open groups after some tokens, when those before them leave some groups open. -/
def groupsAfter (opened : List OpenGroup) (ts : List Token) : Option (List OpenGroup) :=
  ts.foldlM groupsAfterToken opened

@[simp] theorem groupsAfter_nil (opened : List OpenGroup) : groupsAfter opened [] = some opened :=
  rfl

theorem groupsAfter_append (opened : List OpenGroup) (ts us : List Token) :
    groupsAfter opened (ts ++ us) =
      (groupsAfter opened ts).bind fun opened => groupsAfter opened us :=
  List.foldlM_append ..

theorem groupsAfter_opening {b : Bracket} {t : Token} (h : t.kind = b.opening)
    (opened : List OpenGroup) : groupsAfter opened [t] = some ((b, t) :: opened) := by
  cases b <;> simp [groupsAfter, groupsAfterToken, Bracket.ofOpening?, h, Bracket.opening]

theorem groupsAfter_closing {b : Bracket} {t : Token} (h : t.kind = b.closing) (opener : Token)
    (opened : List OpenGroup) : groupsAfter ((b, opener) :: opened) [t] = some opened := by
  cases b <;> simp [groupsAfter, groupsAfterToken, Bracket.ofOpening?, Bracket.ofClosing?, h,
    Bracket.closing]

theorem mem_groupsAfterToken {opened around : List OpenGroup} {t : Token}
    (h : groupsAfterToken opened t = some around) {g : OpenGroup} (hg : g ∈ around) :
    g ∈ opened ∨ (t = g.2 ∧ t.kind = g.1.opening) := by
  unfold groupsAfterToken at h
  split at h
  · rename_i b _ hb
    cases h
    rcases List.mem_cons.mp hg with rfl | hg
    · exact .inr ⟨rfl, Bracket.ofOpening?_eq_some hb⟩
    · exact .inl hg
  · cases h
    exact .inl hg
  · split at h
    · cases h
    · split at h
      · cases h
        exact .inl (List.mem_cons_of_mem _ hg)
      · cases h

/-- The token neither opens nor closes a group. -/
def NoBracket (t : Token) : Prop :=
  Bracket.ofOpening? t.kind = none ∧ Bracket.ofClosing? t.kind = none

theorem groupsAfter_noBracket {t : Token} (h : NoBracket t) (opened : List OpenGroup) :
    groupsAfter opened [t] = some opened := by
  simp [groupsAfter, groupsAfterToken, h.1, h.2]

theorem groupsAfter_noBrackets {ts : List Token} (h : ∀ t ∈ ts, NoBracket t)
    (opened : List OpenGroup) : groupsAfter opened ts = some opened := by
  induction ts with
  | nil => rfl
  | cons t ts ih =>
      obtain ⟨ht, hts⟩ := List.forall_mem_cons.mp h
      rw [← List.singleton_append, groupsAfter_append, groupsAfter_noBracket ht]
      exact ih hts

theorem noBracket_of_binaryOp? {t : Token} {op : BinaryOp} (h : t.kind.binaryOp? = some op) :
    NoBracket t := by
  unfold NoBracket
  cases hk : t.kind <;> simp_all [Kind.binaryOp?, Bracket.ofOpening?, Bracket.ofClosing?]

theorem noBracket_of_assignOp? {t : Token} {op : Option BinaryOp}
    (h : t.kind.assignOp? = some op) : NoBracket t := by
  unfold NoBracket
  cases hk : t.kind <;> simp_all [Kind.assignOp?, Bracket.ofOpening?, Bracket.ofClosing?]

theorem noBracket_of_unaryOp? {t : Token} {op : UnaryOp} (h : t.kind.unaryOp? = some op) :
    NoBracket t := by
  unfold NoBracket
  cases hk : t.kind <;> simp_all [Kind.unaryOp?, Bracket.ofOpening?, Bracket.ofClosing?]

theorem noBracket_of_names {ts : List Token} {xs : List String} (h : Grammar.Names ts xs) :
    ∀ t ∈ ts, NoBracket t := by
  induction h with
  | one ht => simp [NoBracket, ht, Bracket.ofOpening?, Bracket.ofClosing?]
  | more ht hc _ ih =>
      refine List.forall_mem_cons.mpr ⟨?_, List.forall_mem_cons.mpr ⟨?_, ih⟩⟩
      · simp [NoBracket, ht, Bracket.ofOpening?, Bracket.ofClosing?]
      · simp [NoBracket, hc, Bracket.ofOpening?, Bracket.ofClosing?]

theorem noBracket_of_params {ts : List Token} {xs : List String} (h : Grammar.Params ts xs) :
    ∀ t ∈ ts, NoBracket t := by
  cases h with
  | none => exact fun t ht => absurd ht List.not_mem_nil
  | some h => exact noBracket_of_names h

/-! ## Failures that name a bracket -/

/-- The cause tells which groups are open. -/
def Cause.namesBracket : Cause → Bool
  | .closedEarly _ | .unmatched _ | .unclosed .. => true
  | _ => false

/-- What the failure says about the open groups is true of the tokens, when those before them leave
some groups open. -/
inductive Justified (opened : List OpenGroup) (ts : List Token) : Failure → Prop
  /-- A closing bracket that closes nothing is early inside of a group of its kind, and unmatched
  elsewhere. -/
  | closer {b : Bracket} {read t rest around} :
      ts = read ++ t :: rest → t.kind = b.closing → groupsAfter opened read = some around →
      Justified opened ts
        ⟨if b ∈ around.map Prod.fst then .closedEarly t.value else .unmatched t.value, t :: rest⟩
  /-- The innermost group that all the tokens leave open. -/
  | unclosed {b : Bracket} {opener inside outer} :
      groupsAfter opened ts = some ((b, opener) :: outer) →
      Justified opened ts ⟨.unclosed b opener.value, opener :: inside⟩
  | other {cause rest} : cause.namesBracket = false → Justified opened ts ⟨cause, rest⟩

theorem Justified.append {opened around : List OpenGroup} {read ts : List Token} {f : Failure}
    (hread : groupsAfter opened read = some around) (h : Justified around ts f) :
    Justified opened (read ++ ts) f := by
  have happend : ∀ us, groupsAfter opened (read ++ us) = groupsAfter around us := by
    intro us
    rw [groupsAfter_append, hread]
    rfl
  cases h with
  | @closer b read' t rest _ hts ht hafter =>
      rw [hts, ← List.append_assoc]
      exact .closer rfl ht (by rw [happend, hafter])
  | unclosed hafter => exact .unclosed (by rw [happend, hafter])
  | other hcause => exact .other hcause

namespace Parse

/-! ## Readers among open groups -/

/-- A reader that starts with some groups open and ends with others: the tokens that it takes off
turn the ones into the others, and its failures are justified. -/
def Turns {α : Type} (opened closed : List OpenGroup) (left : α → List Token) (ts : List Token) :
    Except Failure α → Prop
  | .ok a => ∃ read, ts = read ++ left a ∧ groupsAfter opened read = some closed
  | .error f => Justified opened ts f

variable {α β : Type} {l : α → List Token} {l' : β → List Token} {ts : List Token}
  {opened around closed : List OpenGroup}

theorem turns_ok {a : α} (h : l a = ts) : Turns opened opened l ts (.ok a) :=
  ⟨[], h.symm, rfl⟩

theorem turns_fail {cause : Cause} {rest : List Token} (h : cause.namesBracket = false) :
    Turns opened closed l ts (fail cause rest) :=
  .other h

namespace Turns

/-- Tokens that are read before. -/
theorem append {read : List Token} {x : Except Failure α}
    (hread : groupsAfter opened read = some around) (h : Turns around closed l ts x) :
    Turns opened closed l (read ++ ts) x := by
  cases x with
  | error f => exact Justified.append hread h
  | ok a =>
      obtain ⟨more, rfl, hmore⟩ := h
      refine ⟨read ++ more, by rw [List.append_assoc], ?_⟩
      rw [groupsAfter_append, hread]
      exact hmore

theorem cons {t : Token} {x : Except Failure α} (ht : groupsAfter opened [t] = some around)
    (h : Turns around closed l ts x) : Turns opened closed l (t :: ts) x :=
  h.append ht

theorem bind {x : Except Failure α} {f : α → Except Failure β} (hx : Turns opened around l ts x)
    (hf : ∀ a, Turns around closed l' (l a) (f a)) : Turns opened closed l' ts (x >>= f) := by
  cases x with
  | error e => exact hx
  | ok a =>
      obtain ⟨read, rfl, hread⟩ := hx
      exact (hf a).append hread

end Turns

/-- The readings of a level leave the groups around them as they are. -/
structure Level.Grouping (inner : Level) : Prop where
  expr (opened : List OpenGroup) (least : Nat) (ts : List Token) :
    Turns opened opened Prod.snd ts (inner.expr (opened.map Prod.fst) least ts)
  operand (opened : List OpenGroup) (ts : List Token) :
    Turns opened opened Prod.snd ts (inner.operand (opened.map Prod.fst) ts)

theorem turns_build (e : Expr) (rest : List Token) :
    Turns opened opened Prod.snd rest (build e rest) := by
  unfold build
  split
  · exact turns_fail rfl
  · exact turns_ok rfl

theorem turns_closeGroup (b : Bracket) (opener : Token) (inside ts : List Token) :
    Turns ((b, opener) :: opened) opened id ts (closeGroup b opener inside ts) := by
  cases ts with
  | nil => exact Justified.unclosed rfl
  | cons t rest =>
      rw [closeGroup]
      split
      · rename_i ht
        exact ⟨[t], rfl, groupsAfter_closing ht opener opened⟩
      · exact turns_fail rfl

variable {inner : Level}

/-! ## Lists of expressions -/

theorem turns_separated (h : inner.Grouping) {sep : Kind}
    (hsep : ∀ t : Token, t.kind = sep → NoBracket t) (least bound : Nat) (ts : List Token) :
    Turns opened opened Prod.snd ts
      (separated sep (inner.expr (opened.map Prod.fst) least) bound ts) := by
  induction bound generalizing ts with
  | zero => exact turns_ok rfl
  | succ bound ih =>
      cases ts with
      | nil => exact turns_ok rfl
      | cons t ts =>
          rw [separated]
          split
          · rename_i ht
            refine .cons (groupsAfter_noBracket (hsep t ht) opened) ?_
            refine (h.expr opened least ts).bind ?_
            rintro ⟨e, rest⟩
            refine (ih rest).bind ?_
            rintro ⟨es, rest'⟩
            exact turns_ok rfl
          · exact turns_ok rfl

theorem noBracket_comma (t : Token) (h : t.kind = .comma) : NoBracket t := by
  simp [NoBracket, h, Bracket.ofOpening?, Bracket.ofClosing?]

theorem noBracket_plus (t : Token) (h : t.kind = .plus) : NoBracket t := by
  simp [NoBracket, h, Bracket.ofOpening?, Bracket.ofClosing?]

theorem turns_exprs (h : inner.Grouping) (opened : List OpenGroup) (ts : List Token) :
    Turns opened opened Prod.snd ts (exprs inner (opened.map Prod.fst) ts) := by
  refine (h.expr opened assignPrecedence ts).bind ?_
  rintro ⟨e, rest⟩
  refine (turns_separated h noBracket_comma assignPrecedence rest.length rest).bind ?_
  rintro ⟨es, rest'⟩
  exact turns_ok rfl

/-! ## Operands -/

theorem turns_call (h : inner.Grouping) (name : String) (opener : Token) (inside : List Token) :
    Turns ((.paren, opener) :: opened) opened Prod.snd inside
      (call inner (opened.map Prod.fst) name opener inside) := by
  unfold call
  split
  · rename_i hclosed
    obtain ⟨t, rest, rfl, ht⟩ := nextIs_eq_true hclosed
    exact ⟨[t], rfl, groupsAfter_closing (b := .paren) ht opener opened⟩
  · refine (turns_exprs h ((.paren, opener) :: opened) inside).bind ?_
    rintro ⟨args, rest⟩
    refine (turns_closeGroup .paren opener inside rest).bind ?_
    intro rest'
    exact turns_build _ rest'

theorem turns_funcBody (h : inner.Grouping) (params : List String) (opener : Token)
    (inside : List Token) :
    Turns ((.brace, opener) :: opened) opened Prod.snd inside
      (funcBody inner (opened.map Prod.fst) params opener inside) := by
  have hbody : Turns ((.brace, opener) :: opened) ((.brace, opener) :: opened) Prod.snd inside
      (if nextIs .rbrace inside then .ok ([], inside)
        else exprs inner (.brace :: opened.map Prod.fst) inside) := by
    split
    · exact turns_ok rfl
    · exact turns_exprs h ((.brace, opener) :: opened) inside
  rw [funcBody_eq]
  refine hbody.bind ?_
  rintro ⟨body, rest⟩
  refine (turns_closeGroup .brace opener inside rest).bind ?_
  intro rest'
  exact turns_build _ rest'

theorem turns_parens (h : inner.Grouping) (opener : Token) (inside : List Token) :
    Turns ((.paren, opener) :: opened) opened Prod.snd inside
      (parens inner (opened.map Prod.fst) opener inside) := by
  unfold parens
  split
  · -- The parameters are passed over as a whole, and their parenthesis is closed again.
    rename_i hopens
    obtain ⟨ps, xs, u, v, body, rfl, hps, hu, hv⟩ := opensFunc_iff.mp hopens
    rw [takeParams_append hps hu]
    refine .append (groupsAfter_noBrackets (noBracket_of_params hps) _) ?_
    refine .cons (groupsAfter_closing (b := .paren) hu opener opened) ?_
    refine .cons (groupsAfter_opening (b := .brace) hv opened) ?_
    exact turns_funcBody h xs v body
  · split
    · exact turns_fail rfl
    · refine (h.expr ((.paren, opener) :: opened) assignPrecedence inside).bind ?_
      rintro ⟨e, rest⟩
      refine (turns_closeGroup .paren opener inside rest).bind ?_
      intro rest'
      exact turns_ok rfl

theorem turns_noOperand (t : Token) (rest : List Token) :
    Turns opened closed l (t :: rest)
      (fail (noOperand (opened.map Prod.fst) t) (t :: rest) : Except Failure α) := by
  unfold noOperand
  split
  · rename_i b hb
    have hts : t :: rest = [] ++ t :: rest := rfl
    exact Justified.closer hts (Bracket.ofClosing?_eq_some hb) rfl
  · split
    · exact turns_fail rfl
    · exact turns_fail rfl

theorem turns_leaf {t : Token} {e : Expr} (ht : NoBracket t) (rest : List Token) :
    Turns opened opened Prod.snd (t :: rest) (.ok (e, rest)) :=
  .cons (groupsAfter_noBracket ht opened) (turns_ok rfl)

theorem turns_primary (extended : Bool) (h : inner.Grouping) (ts : List Token) :
    Turns opened opened Prod.snd ts (primary extended inner (opened.map Prod.fst) ts) := by
  cases ts with
  | nil => exact turns_fail rfl
  | cons t rest =>
      have hleaf : ∀ k, t.kind = k → Bracket.ofOpening? k = none → Bracket.ofClosing? k = none →
          NoBracket t := by
        rintro k rfl hopening hclosing
        exact ⟨hopening, hclosing⟩
      simp only [primary]
      split
      · exact turns_leaf (hleaf .number ‹_› rfl rfl) rest
      · exact turns_leaf (hleaf .hex ‹_› rfl rfl) rest
      · split
        · exact turns_leaf (hleaf .bin ‹_› rfl rfl) rest
        · exact turns_fail rfl
      · exact turns_leaf (hleaf .string ‹_› rfl rfl) rest
      · rename_i ht
        have hname := hleaf .ident ht rfl rfl
        split
        · rename_i u inside
          split
          · rename_i hu
            refine .cons (groupsAfter_noBracket hname opened) ?_
            refine .cons (groupsAfter_opening (b := .paren) hu opened) ?_
            exact turns_call h t.value u inside
          · exact turns_leaf hname (u :: inside)
        · exact turns_leaf hname []
      · rename_i ht
        exact .cons (groupsAfter_opening (b := .paren) ht opened) (turns_parens h t rest)
      · exact turns_noOperand t rest

theorem turns_unary (extended : Bool) (h : inner.Grouping) (ts : List Token) :
    Turns opened opened Prod.snd ts (unary extended inner (opened.map Prod.fst) ts) := by
  cases ts with
  | nil => exact turns_fail rfl
  | cons t rest =>
      rw [unary]
      split
      · rename_i op hop
        refine .cons (groupsAfter_noBracket (noBracket_of_unaryOp? hop) opened) ?_
        refine (h.operand opened rest).bind ?_
        rintro ⟨e, rest'⟩
        exact turns_build _ rest'
      · exact turns_primary extended h (t :: rest)

/-! ## Operators -/

theorem turns_sumRight (rest : List Token) (e : Expr) (es : List Expr) :
    Turns opened opened (fun _ => rest) rest (sumRight rest e es) := by
  induction es generalizing e with
  | nil => exact turns_ok rfl
  | cons e' es ih =>
      rw [sumRight]
      refine (ih e').bind ?_
      intro right
      have hbuild : Turns opened opened (fun _ => rest) rest
          (build (.binary .add e right) rest) := by
        unfold build
        split
        · exact turns_fail rfl
        · exact turns_ok rfl
      refine hbuild.bind ?_
      rintro ⟨sum, _⟩
      exact turns_ok rfl

theorem turns_rightOperand (h : inner.Grouping) (op : BinaryOp) (ts : List Token) :
    Turns opened opened Prod.snd ts (rightOperand inner (opened.map Prod.fst) op ts) := by
  unfold rightOperand
  refine (h.expr opened (op.precedence + 1) ts).bind ?_
  rintro ⟨e, rest⟩
  dsimp only
  split
  · refine (turns_separated h noBracket_plus _ _ rest).bind ?_
    rintro ⟨es, rest'⟩
    refine (turns_sumRight rest' e es).bind ?_
    intro right
    exact turns_ok rfl
  · exact turns_ok rfl

theorem turns_assignment (h : inner.Grouping) (target : Expr) (op : Option BinaryOp)
    (sign : Token) (ts : List Token) :
    Turns opened opened Prod.snd ts
      (assignment inner (opened.map Prod.fst) target op sign ts) := by
  cases target with
  | var x =>
      rw [assignment_var]
      refine (h.expr opened assignPrecedence ts).bind ?_
      rintro ⟨v, rest⟩
      have hstored : Turns opened opened Prod.snd rest
          (if op.isSome then build (Grammar.stored x v op) rest else .ok (v, rest)) := by
        split
        · exact turns_build _ rest
        · exact turns_ok rfl
      refine hstored.bind ?_
      rintro ⟨v', rest'⟩
      exact turns_build _ rest'
  | _ => exact turns_fail rfl

theorem turns_operators (h : inner.Grouping) (least bound : Nat) (left : Expr) (ts : List Token) :
    Turns opened opened Prod.snd ts
      (operators inner (opened.map Prod.fst) least bound left ts) := by
  induction bound generalizing left ts with
  | zero => exact turns_ok rfl
  | succ bound ih =>
      cases ts with
      | nil => exact turns_ok rfl
      | cons t rest =>
          rw [operators]
          split
          · rename_i op _ hop
            split
            · exact turns_ok rfl
            · refine .cons (groupsAfter_noBracket (noBracket_of_assignOp? hop) opened) ?_
              refine (turns_assignment h left _ t rest).bind ?_
              rintro ⟨e, rest'⟩
              exact ih e rest'
          · rename_i op _ hop
            split
            · exact turns_ok rfl
            · refine .cons (groupsAfter_noBracket (noBracket_of_binaryOp? hop) opened) ?_
              refine (turns_rightOperand h _ rest).bind ?_
              rintro ⟨right, rest'⟩
              refine (turns_build _ rest').bind ?_
              rintro ⟨e, rest''⟩
              exact ih e rest''
          · exact turns_ok rfl

/-! ## All levels -/

theorem Level.grouping_bottom : Level.bottom.Grouping where
  expr _ _ _ := turns_fail rfl
  operand _ _ := turns_fail rfl

theorem Level.Grouping.above (extended : Bool) (h : inner.Grouping) :
    (Level.above extended inner).Grouping where
  expr opened least ts := by
    refine (turns_unary extended h ts).bind ?_
    rintro ⟨e, rest⟩
    exact turns_operators h least rest.length e rest
  operand _ ts := turns_unary extended h ts

theorem Level.grouping (extended : Bool) (n : Nat) : (Level.ofDepth extended n).Grouping := by
  induction n with
  | zero => exact grouping_bottom
  | succ n ih => exact ih.above extended

theorem turns_leftOver (t : Token) (rest : List Token) :
    Turns [] closed l (t :: rest) (fail (leftOver t) (t :: rest) : Except Failure α) := by
  unfold leftOver
  split
  · rename_i b hb
    have hts : t :: rest = [] ++ t :: rest := rfl
    have hafter : groupsAfter [] [] = some [] := rfl
    exact Justified.closer hts (Bracket.ofClosing?_eq_some hb) hafter
  · split
    · exact turns_fail rfl
    · exact turns_fail rfl

/-- A failure is justified by the tokens alone. -/
theorem justified_of_ofTokens {extended : Bool} {ts : List Token} {f : Failure}
    (h : Expr.ofTokens extended ts = .error f) : Justified [] ts f := by
  have hturns : Turns [] [] (fun _ => []) ts (Expr.ofTokens extended ts) := by
    refine ((Level.grouping extended maxDepth).expr [] assignPrecedence ts).bind ?_
    rintro ⟨e, rest⟩
    cases rest with
    | nil => exact turns_ok rfl
    | cons t rest => exact turns_leftOver t rest
  rw [h] at hturns
  exact hturns

end Parse

end DebugExpr
