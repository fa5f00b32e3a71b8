import Mathlib.Data.List.Forall2
import DebugExpr.Proofs.Outcome

/-!
# Positions

Tokens that are the same but for their positions are read in step: every reader comes to the same
result on two such lists, or it fails on both for the same cause and blames the same token.
-/

namespace DebugExpr

/-- The tokens are the same but for their positions. -/
structure Token.Alike (t u : Token) : Prop where
  kind_eq : t.kind = u.kind
  value_eq : t.value = u.value

namespace Parse

/-- Tokens that are alike one by one. -/
abbrev Alike : List Token → List Token → Prop :=
  List.Forall₂ Token.Alike

/-- Both results are good and related, or both are failures for the same cause, which blame alike
tokens. -/
inductive InStep {α : Type} (R : α → α → Prop) : Except Failure α → Except Failure α → Prop
  | ok {a b} : R a b → InStep R (.ok a) (.ok b)
  | error {cause ts us} : Alike ts us → InStep R (.error ⟨cause, ts⟩) (.error ⟨cause, us⟩)

/-- The same is read, and the tokens left are alike. -/
inductive SameFront {α : Type} : Front α → Front α → Prop
  | intro (a : α) {ts us} : Alike ts us → SameFront (a, ts) (a, us)

theorem InStep.bind {α β : Type} {R : α → α → Prop} {S : β → β → Prop} {x y : Except Failure α}
    {f g : α → Except Failure β} (h : InStep R x y) (hf : ∀ a b, R a b → InStep S (f a) (g b)) :
    InStep S (x >>= f) (y >>= g) := by
  cases h with
  | ok hab => exact hf _ _ hab
  | error hts => exact .error hts

/-- Positions make no difference to the readings of a level. -/
structure Level.Blind (inner : Level) : Prop where
  expr (groups : List Bracket) (least : Nat) {ts us : List Token} :
    Alike ts us → InStep SameFront (inner.expr groups least ts) (inner.expr groups least us)
  operand (groups : List Bracket) {ts us : List Token} :
    Alike ts us → InStep SameFront (inner.operand groups ts) (inner.operand groups us)

theorem inStep_build (e : Expr) {ts us : List Token} (h : Alike ts us) :
    InStep SameFront (build e ts) (build e us) := by
  unfold build
  split
  · exact .error h
  · exact .ok ⟨e, h⟩

theorem inStep_closeGroup (b : Bracket) {t u : Token} {inside inside' ts us : List Token}
    (hopener : t.Alike u) (hinside : Alike inside inside') (h : Alike ts us) :
    InStep Alike (closeGroup b t inside ts) (closeGroup b u inside' us) := by
  cases h with
  | nil =>
      rw [closeGroup, closeGroup, hopener.value_eq]
      exact .error (.cons hopener hinside)
  | cons ht hts =>
      rw [closeGroup, closeGroup, ht.kind_eq, ht.value_eq]
      split
      · exact .ok hts
      · exact .error (.cons ht hts)

theorem nextIs_alike (k : Token.Kind) {ts us : List Token} (h : Alike ts us) :
    nextIs k ts = nextIs k us := by
  cases h with
  | nil => rfl
  | cons ht _ => rw [nextIs, nextIs, ht.kind_eq]

variable {inner : Level} {groups : List Bracket} {ts us : List Token}

/-! ## Lists of expressions -/

theorem inStep_separated (h : inner.Blind) (sep : Token.Kind) (least bound : Nat)
    (hts : Alike ts us) :
    InStep SameFront (separated sep (inner.expr groups least) bound ts)
      (separated sep (inner.expr groups least) bound us) := by
  induction bound generalizing ts us with
  | zero => exact .ok ⟨[], hts⟩
  | succ bound ih =>
      cases hts with
      | nil => exact .ok ⟨[], .nil⟩
      | cons ht hts =>
          rw [separated, separated, ht.kind_eq]
          split
          · refine (h.expr groups least hts).bind ?_
            rintro _ _ ⟨e, hrest⟩
            refine (ih hrest).bind ?_
            rintro _ _ ⟨es, hrest'⟩
            exact .ok ⟨e :: es, hrest'⟩
          · exact .ok ⟨[], .cons ht hts⟩

theorem inStep_exprs (h : inner.Blind) (hts : Alike ts us) :
    InStep SameFront (exprs inner groups ts) (exprs inner groups us) := by
  refine (h.expr groups assignPrecedence hts).bind ?_
  rintro _ _ ⟨e, hrest⟩
  dsimp only
  rw [hrest.length_eq]
  refine (inStep_separated h .comma assignPrecedence _ hrest).bind ?_
  rintro _ _ ⟨es, hrest'⟩
  exact .ok ⟨e :: es, hrest'⟩

/-! ## Function literals -/

theorem endsParams_alike (hts : Alike ts us) : endsParams ts = endsParams us := by
  cases hts with
  | nil => rfl
  | cons ht hts =>
      cases hts with
      | nil => rfl
      | cons hu _ => rw [endsParams, endsParams, ht.kind_eq, hu.kind_eq]

theorem moreParams_alike (hts : Alike ts us) : moreParams ts = moreParams us := by
  fun_induction moreParams ts generalizing us with
  | case1 t u rest hparam ih =>
      obtain _ | ⟨ht, _ | ⟨hu, hrest⟩⟩ := hts
      rw [moreParams_cons (ht.kind_eq ▸ hparam.1) (hu.kind_eq ▸ hparam.2)]
      exact ih hrest
  | case2 t u rest hparam =>
      rw [endsParams_alike hts]
      obtain _ | ⟨ht, _ | ⟨hu, hrest⟩⟩ := hts
      rw [ht.kind_eq, hu.kind_eq] at hparam
      rw [moreParams, if_neg hparam]
  | case3 ts hshort =>
      obtain _ | ⟨_, _ | ⟨_, _⟩⟩ := hts
      · rfl
      · rfl
      · exact absurd rfl (hshort _ _ _)

theorem opensFunc_alike (hts : Alike ts us) : opensFunc ts = opensFunc us := by
  cases hts with
  | nil => rfl
  | cons ht hrest =>
      rw [opensFunc, opensFunc, ht.kind_eq, moreParams_alike hrest,
        endsParams_alike (.cons ht hrest)]

theorem SameFront.cons {α : Type} {p q : Front (List α)} (h : SameFront p q) (a : α) :
    SameFront (a :: p.1, p.2) (a :: q.1, q.2) := by
  cases h with
  | intro as hrest => exact ⟨a :: as, hrest⟩

theorem sameFront_takeParams {ts us : List Token} (hts : Alike ts us) :
    SameFront (takeParams ts) (takeParams us) := by
  match hts with
  | .nil => exact ⟨[], .nil⟩
  | .cons ht .nil =>
      rw [takeParams, takeParams, ht.kind_eq, ht.value_eq]
      split
      · exact ⟨[], .nil⟩
      · exact ⟨[_], .nil⟩
  | .cons ht (.cons hu hrest) =>
      rw [takeParams, takeParams, ht.kind_eq, ht.value_eq]
      split
      · exact ⟨[], .cons hu hrest⟩
      · simp only [hu.kind_eq]
        split
        · exact (sameFront_takeParams hrest).cons _
        · exact (sameFront_takeParams (.cons hu hrest)).cons _

theorem inStep_funcBody (h : inner.Blind) (xs : List String) {t u : Token}
    (hopener : t.Alike u) (hts : Alike ts us) :
    InStep SameFront (funcBody inner groups xs t ts) (funcBody inner groups xs u us) := by
  have hbody : InStep SameFront
      (if nextIs .rbrace ts then .ok ([], ts) else exprs inner (.brace :: groups) ts)
      (if nextIs .rbrace us then .ok ([], us) else exprs inner (.brace :: groups) us) := by
    rw [nextIs_alike .rbrace hts]
    split
    · exact .ok ⟨[], hts⟩
    · exact inStep_exprs h hts
  rw [funcBody_eq, funcBody_eq]
  refine hbody.bind ?_
  rintro _ _ ⟨body, hrest⟩
  refine (inStep_closeGroup .brace hopener hts hrest).bind ?_
  intro rest rest' hrest'
  exact inStep_build _ hrest'

/-! ## Operands -/

theorem inStep_call (h : inner.Blind) (name : String) {t u : Token} (hopener : t.Alike u)
    (hts : Alike ts us) :
    InStep SameFront (call inner groups name t ts) (call inner groups name u us) := by
  unfold call
  rw [nextIs_alike .rparen hts]
  split
  · refine .ok ⟨Expr.bareCall name, ?_⟩
    cases hts with
    | nil => exact .nil
    | cons _ hrest => exact hrest
  · refine (inStep_exprs h hts).bind ?_
    rintro _ _ ⟨args, hrest⟩
    refine (inStep_closeGroup .paren hopener hts hrest).bind ?_
    intro rest rest' hrest'
    exact inStep_build _ hrest'

theorem inStep_parens (h : inner.Blind) {t u : Token} (hopener : t.Alike u)
    (hts : Alike ts us) :
    InStep SameFront (parens inner groups t ts) (parens inner groups u us) := by
  unfold parens
  rw [opensFunc_alike hts, nextIs_alike .rparen hts]
  split
  · generalize takeParams ts = p, takeParams us = q, sameFront_takeParams hts = hparams
    obtain ⟨xs, _ | ⟨hbrace, hbody⟩⟩ := hparams
    · exact .error .nil
    · exact inStep_funcBody h xs hbrace hbody
  · split
    · exact .error (.cons hopener hts)
    · refine (h.expr _ _ hts).bind ?_
      rintro _ _ ⟨e, hrest⟩
      refine (inStep_closeGroup .paren hopener hts hrest).bind ?_
      intro rest rest' hrest'
      exact .ok ⟨e, hrest'⟩

theorem noOperand_alike (groups : List Bracket) {t u : Token} (h : t.Alike u) :
    noOperand groups t = noOperand groups u := by
  unfold noOperand
  rw [h.kind_eq, h.value_eq]

theorem inStep_primary (extended : Bool) (h : inner.Blind) (hts : Alike ts us) :
    InStep SameFront (primary extended inner groups ts) (primary extended inner groups us) := by
  cases hts with
  | nil => exact .error .nil
  | cons ht hrest =>
      simp only [primary, ht.kind_eq, ht.value_eq, noOperand_alike groups ht]
      split
      · exact .ok ⟨_, hrest⟩
      · exact .ok ⟨_, hrest⟩
      · split
        · exact .ok ⟨_, hrest⟩
        · exact .error (.cons ht hrest)
      · exact .ok ⟨_, hrest⟩
      · cases hrest with
        | nil => exact .ok ⟨_, .nil⟩
        | cons hu hrest =>
            simp only [hu.kind_eq]
            split
            · exact inStep_call h _ hu hrest
            · exact .ok ⟨_, .cons hu hrest⟩
      · exact inStep_parens h ht hrest
      · exact .error (.cons ht hrest)

theorem inStep_unary (extended : Bool) (h : inner.Blind) (hts : Alike ts us) :
    InStep SameFront (unary extended inner groups ts) (unary extended inner groups us) := by
  cases hts with
  | nil => exact .error .nil
  | cons ht hrest =>
      rw [unary, unary, ht.kind_eq]
      split
      · refine (h.operand groups hrest).bind ?_
        rintro _ _ ⟨e, hrest'⟩
        exact inStep_build _ hrest'
      · exact inStep_primary extended h (.cons ht hrest)

/-! ## Operators -/

theorem inStep_sumRight (h : Alike ts us) (e : Expr) (es : List Expr) :
    InStep Eq (sumRight ts e es) (sumRight us e es) := by
  induction es generalizing e with
  | nil => exact .ok rfl
  | cons e' es ih =>
      rw [sumRight, sumRight]
      refine (ih e').bind ?_
      rintro right _ rfl
      refine (inStep_build _ h).bind ?_
      rintro _ _ ⟨sum, _⟩
      exact .ok rfl

theorem inStep_rightOperand (h : inner.Blind) (op : BinaryOp) (hts : Alike ts us) :
    InStep SameFront (rightOperand inner groups op ts) (rightOperand inner groups op us) := by
  unfold rightOperand
  refine (h.expr groups (op.precedence + 1) hts).bind ?_
  rintro _ _ ⟨e, hrest⟩
  dsimp only
  split
  · rw [hrest.length_eq]
    refine (inStep_separated h .plus _ _ hrest).bind ?_
    rintro _ _ ⟨es, hrest'⟩
    refine (inStep_sumRight hrest' e es).bind ?_
    rintro right _ rfl
    exact .ok ⟨right, hrest'⟩
  · exact .ok ⟨e, hrest⟩

theorem inStep_stored (x : String) (v : Expr) (op : Option BinaryOp) (hts : Alike ts us) :
    InStep SameFront (if op.isSome then build (Grammar.stored x v op) ts else .ok (v, ts))
      (if op.isSome then build (Grammar.stored x v op) us else .ok (v, us)) := by
  split
  · exact inStep_build _ hts
  · exact .ok ⟨v, hts⟩

theorem inStep_assignment (h : inner.Blind) (target : Expr) (op : Option BinaryOp) {t u : Token}
    (hsign : t.Alike u) (hts : Alike ts us) :
    InStep SameFront (assignment inner groups target op t ts)
      (assignment inner groups target op u us) := by
  cases target with
  | var x =>
      rw [assignment_var, assignment_var]
      refine (h.expr groups assignPrecedence hts).bind ?_
      rintro _ _ ⟨v, hrest⟩
      refine (inStep_stored x v op hrest).bind ?_
      rintro _ _ ⟨v', hrest'⟩
      exact inStep_build _ hrest'
  | _ => exact .error (.cons hsign hts)

theorem inStep_operators (h : inner.Blind) (least bound : Nat) (left : Expr) (hts : Alike ts us) :
    InStep SameFront (operators inner groups least bound left ts)
      (operators inner groups least bound left us) := by
  induction bound generalizing left ts us with
  | zero => exact .ok ⟨left, hts⟩
  | succ bound ih =>
      cases hts with
      | nil => exact .ok ⟨left, .nil⟩
      | cons ht hrest =>
          rw [operators, operators, ht.kind_eq]
          split
          · split
            · exact .ok ⟨left, .cons ht hrest⟩
            · refine (inStep_assignment h left _ ht hrest).bind ?_
              rintro _ _ ⟨e, hrest'⟩
              exact ih e hrest'
          · split
            · exact .ok ⟨left, .cons ht hrest⟩
            · refine (inStep_rightOperand h _ hrest).bind ?_
              rintro _ _ ⟨right, hrest'⟩
              refine (inStep_build _ hrest').bind ?_
              rintro _ _ ⟨e, hrest''⟩
              exact ih e hrest''
          · exact .ok ⟨left, .cons ht hrest⟩

/-! ## All levels -/

theorem Level.blind_bottom : Level.bottom.Blind where
  expr _ _ _ _ h := .error h
  operand _ _ _ h := .error h

theorem Level.Blind.above (extended : Bool) (h : inner.Blind) :
    (Level.above extended inner).Blind where
  expr _ least _ _ hts := by
    refine (inStep_unary extended h hts).bind ?_
    rintro _ _ ⟨e, hrest⟩
    dsimp only
    rw [hrest.length_eq]
    exact inStep_operators h least _ e hrest
  operand _ _ _ hts := inStep_unary extended h hts

theorem Level.blind (extended : Bool) (n : Nat) : (Level.ofDepth extended n).Blind := by
  induction n with
  | zero => exact blind_bottom
  | succ n ih => exact ih.above extended

theorem leftOver_alike {t u : Token} (h : t.Alike u) : leftOver t = leftOver u := by
  unfold leftOver
  rw [h.kind_eq, h.value_eq]

theorem inStep_ofTokens (extended : Bool) (hts : Alike ts us) :
    InStep Eq (Expr.ofTokens extended ts) (Expr.ofTokens extended us) := by
  refine ((Level.blind extended maxDepth).expr [] assignPrecedence hts).bind ?_
  rintro _ _ ⟨e, hrest⟩
  cases hrest with
  | nil => exact .ok rfl
  | cons ht hrest =>
      dsimp only
      rw [leftOver_alike ht]
      exact .error (.cons ht hrest)

end Parse

/-! ## Places of failures -/

open Parse

/-- The last token is an end mark; others may stand before it. -/
def EndsInMark (ts : List Token) : Prop :=
  ∃ t, ts.getLast? = some t ∧ t.kind = .eof

theorem withEndMark_of_endsInMark {ts : List Token} (h : EndsInMark ts) :
    Token.withEndMark ts = ts := by
  obtain ⟨t, hlast, ht⟩ := h
  simp [Token.withEndMark, hlast, ht]

/-- The tokens are read up to the first end mark. -/
theorem split_of_endsInMark {ts : List Token} (h : EndsInMark ts) :
    ∃ read mark after, ts = read ++ mark :: after ∧ (∀ t ∈ read, t.kind ≠ .eof) ∧
      mark.kind = .eof := by
  obtain ⟨t, hlast, ht⟩ := h
  cases hfind : ts.find? (·.kind = .eof) with
  | none =>
      have hne := List.find?_eq_none.mp hfind t (List.mem_of_getLast? hlast)
      exact absurd ht (by simpa using hne)
  | some mark =>
      obtain ⟨hmark, read, after, rfl, hread⟩ := List.find?_eq_some_iff_append.mp hfind
      exact ⟨read, mark, after, rfl, by simpa using hread, by simpa using hmark⟩

theorem withEndMark_eq_append (ts : List Token) : ∃ more, Token.withEndMark ts = ts ++ more := by
  unfold Token.withEndMark
  split
  · rename_i hlast
    cases List.getLast?_eq_none_iff.mp hlast
    exact ⟨[.endMark 0], rfl⟩
  · split
    · exact ⟨[], (List.append_nil ts).symm⟩
    · exact ⟨_, rfl⟩

theorem ofList_split {read after : List Token} {mark : Token} (hread : ∀ t ∈ read, t.kind ≠ .eof)
    (hmark : mark.kind = .eof) :
    Token.Input.ofList (read ++ mark :: after) = ⟨read, mark.pos⟩ := by
  have hfind : read.find? (fun t => t.kind = .eof) = none := by
    simpa [List.find?_eq_none] using hread
  obtain ⟨more, hmore⟩ := withEndMark_eq_append (read ++ mark :: after)
  simp only [Token.Input.ofList, hmore, List.append_assoc, List.cons_append]
  rw [List.takeWhile_append_of_pos (by simpa using hread)]
  simp [hmark, List.find?_append, hfind]

theorem alike_split {read after us : List Token} {mark : Token}
    (h : Alike (read ++ mark :: after) us) :
    ∃ read' mark' after', us = read' ++ mark' :: after' ∧ Alike read read' ∧
      mark.Alike mark' ∧ Alike after after' := by
  induction read generalizing us with
  | nil =>
      obtain _ | ⟨hmark, hafter⟩ := h
      exact ⟨[], _, _, rfl, .nil, hmark, hafter⟩
  | cons t read ih =>
      obtain _ | ⟨ht, hrest⟩ := h
      obtain ⟨read', mark', after', rfl, hread, hmarks⟩ := ih hrest
      exact ⟨_ :: read', mark', after', rfl, .cons ht hread, hmarks⟩

theorem noMark_of_alike {ts us : List Token} (h : Alike ts us) (hts : ∀ t ∈ ts, t.kind ≠ .eof) :
    ∀ u ∈ us, u.kind ≠ .eof := by
  induction h with
  | nil => exact hts
  | cons ht _ ih =>
      obtain ⟨hhead, htail⟩ := List.forall_mem_cons.mp hts
      exact List.forall_mem_cons.mpr ⟨ht.kind_eq ▸ hhead, ih htail⟩

/-- How many tokens are left from the blamed one on tells which token it is. -/
theorem blamed_token {read : List Token} {f : Failure} (hblame : f.rest <:+ read) (mark : Token)
    (after : List Token) :
    ∃ t, (read ++ mark :: after)[read.length - f.rest.length]? = some t ∧
      f.pos ⟨read, mark.pos⟩ = t.pos := by
  obtain ⟨before, rfl⟩ := hblame
  rw [List.length_append, Nat.add_sub_cancel, List.append_assoc,
    List.getElem?_append_right (Nat.le_refl _), Nat.sub_self]
  unfold Failure.pos
  cases f.rest with
  | nil => exact ⟨mark, rfl, rfl⟩
  | cons t rest => exact ⟨t, rfl, rfl⟩

/-! ## Outcomes -/

/-- The outcomes on two lists of tokens are the same tree, or diagnostics with the same reason, each
at the place of the token of its own list that has the same number. -/
inductive SameOutcome (ts us : List Token) : Except Fault Expr → Except Fault Expr → Prop
  | tree (e : Expr) : SameOutcome ts us (.ok e) (.ok e)
  | blame {d d' : Diagnostic} {k : Nat} {t u : Token} :
      d.subject = .expression → d'.subject = .expression → d.reason = d'.reason →
      ts[k]? = some t → us[k]? = some u → d.pos = some t.pos → d'.pos = some u.pos →
      SameOutcome ts us (.error (.diagnostic d)) (.error (.diagnostic d'))

theorem ofFailure_eq (source : Option String) (input : Token.Input) (f : Failure) :
    (Diagnostic.ofFailure source input f).subject = .expression ∧
      (Diagnostic.ofFailure source input f).reason = f.cause.message ∧
      (Diagnostic.ofFailure source input f).pos = some (f.pos input) := by
  cases source <;> exact ⟨rfl, rfl, rfl⟩

theorem treeify_sameOutcome (settings : Settings) (source source' : Option String)
    {ts us : List Token} (hts : EndsInMark ts) (hus : EndsInMark us) (h : Alike ts us) :
    SameOutcome ts us (treeify settings source ts).result
      (treeify settings source' us).result := by
  obtain ⟨read, mark, after, rfl, hread, hmark⟩ := split_of_endsInMark hts
  obtain ⟨read', mark', after', rfl, halike, hmarks, _⟩ := alike_split h
  have hread' := noMark_of_alike halike hread
  have hmark' : mark'.kind = .eof := hmarks.kind_eq ▸ hmark
  simp only [treeify, Expr.ofInput, Fault.ofFailure_ample, ofList_split hread hmark,
    ofList_split hread' hmark']
  have hstep := inStep_ofTokens settings.extended halike
  generalize hx : Expr.ofTokens settings.extended read = x at hstep ⊢
  generalize hy : Expr.ofTokens settings.extended read' = y at hstep ⊢
  cases hstep with
  | @ok e _ heq => exact heq ▸ .tree e
  | @error cause rest rest' hrests =>
      obtain ⟨t, ht, hpos⟩ := blamed_token (blame_suffix hx) mark after
      obtain ⟨u, hu, hpos'⟩ := blamed_token (blame_suffix hy) mark' after'
      have hlength : read'.length - rest'.length = read.length - rest.length := by
        rw [halike.length_eq, hrests.length_eq]
      obtain ⟨hsubject, hreason, hplace⟩ := ofFailure_eq source ⟨read, mark.pos⟩ ⟨cause, rest⟩
      obtain ⟨hsubject', hreason', hplace'⟩ :=
        ofFailure_eq source' ⟨read', mark'.pos⟩ ⟨cause, rest'⟩
      exact .blame hsubject hsubject' (hreason.trans hreason'.symm) ht (hlength ▸ hu)
        (by rw [hplace, hpos]) (by rw [hplace', hpos'])

theorem endsInMark_of_tokenize {settings : Settings} {source : String} {tokens : List Token}
    (h : (tokenize settings source).result = .ok tokens) : EndsInMark tokens := by
  obtain ⟨ts, rfl, _⟩ := cuts_of_tokenize h
  exact ⟨_, List.getLast?_concat, rfl⟩

end DebugExpr
