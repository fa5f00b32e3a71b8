import DebugExpr.Proofs.Cursor
import DebugExpr.Proofs.Positions

/-!
# The cursor stays with the tokens

A run at a cursor does what the parser does on the tokens before the first end mark: after each
reader the cursor is at the tokens that are left. So it looks at no token behind the mark, and each
token that a loop reads is worth a round.
-/

namespace DebugExpr.Cursor

open Token (Kind)
open Parse (Front)

/-! ## Cursors and the tokens left -/

/-- The index of the tokens that are left of a list. -/
def place (body ts : List Token) : Nat :=
  body.length - ts.length

/-- The tokens of the tape up to their first end mark. The mark may be looked at, and a loop may
take a round for each token and one more. -/
structure Tape.Holds (tape : Tape) (body : List Token) (mark : Token) : Prop where
  tokens : ∃ after, tape.tokens = body ++ mark :: after
  mark : mark.kind = .eof
  noMark : ∀ t ∈ body, t.kind ≠ .eof
  reach : body.length ≤ tape.reach
  rounds : body.length < tape.rounds

/-- A run at the cursor comes to what is read of tokens, or fails for the same cause at the position
of the blamed token. -/
inductive Tracks (mark : Token) {α β : Type} (R : α → β → Prop) :
    Except Failure α → Except Stop β → Prop
  | ok {a b} : R a b → Tracks mark R (.ok a) (.ok b)
  | error {cause rest} :
      Tracks mark R (.error ⟨cause, rest⟩) (.error (.blame cause (rest.headD mark).pos))

/-- The cursor is at the end part of the tokens that is left of them. -/
def AtLeft (body ts rest : List Token) (i : Nat) : Prop :=
  rest <:+ ts ∧ i = place body rest

/-- The same is read, and the cursor is at what is left. -/
inductive AtFront (body ts : List Token) {α : Type} : Front α → α × Nat → Prop
  | intro (a : α) {rest} : rest <:+ ts → AtFront body ts (a, rest) (a, place body rest)

theorem Tracks.bind {mark : Token} {α β α' β' : Type} {R : α → β → Prop} {S : α' → β' → Prop}
    {x : Except Failure α} {y : Except Stop β} {f : α → Except Failure α'}
    {g : β → Except Stop β'} (h : Tracks mark R x y)
    (hf : ∀ a b, R a b → Tracks mark S (f a) (g b)) : Tracks mark S (x >>= f) (y >>= g) := by
  cases h with
  | ok hab => exact hf _ _ hab
  | error => exact .error

theorem Tracks.mono {mark : Token} {body ts us : List Token} {α : Type}
    {x : Except Failure (Front α)} {y : Except Stop (α × Nat)}
    (h : Tracks mark (AtFront body ts) x y) (hts : ts <:+ us) :
    Tracks mark (AtFront body us) x y := by
  cases h with
  | ok hab =>
      obtain ⟨a, hrest⟩ := hab
      exact .ok ⟨a, hrest.trans hts⟩
  | error => exact .error

/-- The cursor stays with the readings of a level. -/
structure Level.Tracking (body : List Token) (mark : Token) (inner : Parse.Level)
    (inner' : Level) : Prop where
  expr (groups : List Bracket) (least : Nat) {ts : List Token} : ts <:+ body →
    Tracks mark (AtFront body ts) (inner.expr groups least ts)
      (inner'.expr groups least (place body ts))
  operand (groups : List Bracket) {ts : List Token} : ts <:+ body →
    Tracks mark (AtFront body ts) (inner.operand groups ts)
      (inner'.operand groups (place body ts))

variable {tape : Tape} {body : List Token} {mark : Token} {ts rest : List Token} {t : Token}
  {inner : Parse.Level} {inner' : Level} {groups : List Bracket}

/-! ## Looking and moving -/

theorem ok_bind {ε α β : Type} (a : α) (f : α → Except ε β) : (.ok a >>= f) = f a :=
  rfl

theorem suffix_of_cons (h : t :: rest <:+ body) : rest <:+ body :=
  (List.suffix_cons t rest).trans h

theorem place_self (body : List Token) : place body body = 0 :=
  Nat.sub_self _

theorem place_succ (h : t :: rest <:+ body) : place body (t :: rest) + 1 = place body rest := by
  have hlen := h.length_le
  rw [List.length_cons] at hlen
  rw [place, place, List.length_cons]
  omega

theorem place_add_two {u : Token} (h : t :: u :: rest <:+ body) :
    place body (t :: u :: rest) + 2 = place body rest := by
  rw [← place_succ (suffix_of_cons h), ← place_succ h]

section

variable (h : tape.Holds body mark)
include h

theorem look_place (hts : ts <:+ body) : look tape (place body ts) = .ok (ts.headD mark) := by
  have htoken : tape.tokens[place body ts]? = some (ts.headD mark) := by
    obtain ⟨after, htokens⟩ := h.tokens
    obtain ⟨read, rfl⟩ := hts
    rw [htokens, place, List.length_append, Nat.add_sub_cancel, List.append_assoc,
      List.getElem?_append_right (Nat.le_refl _), Nat.sub_self]
    cases ts <;> rfl
  have hreach : place body ts ≤ tape.reach := Nat.le_trans (Nat.sub_le _ _) h.reach
  rw [look, htoken]
  exact if_pos hreach

theorem place_lt (ts : List Token) : place body ts < tape.tokens.length := by
  obtain ⟨after, htokens⟩ := h.tokens
  rw [htokens, place, List.length_append, List.length_cons]
  omega

theorem peek_place (hts : ts <:+ body) : peek tape (place body ts) = .ok (ts.headD mark) := by
  have hlt := place_lt h ts
  rw [peek, Nat.min_eq_left (by omega)]
  exact look_place h hts

theorem peek_succ (hts : t :: rest <:+ body) :
    peek tape (place body (t :: rest) + 1) = .ok (rest.headD mark) := by
  rw [place_succ hts]
  exact peek_place h (suffix_of_cons hts)

theorem advance_place (hts : t :: rest <:+ body) :
    advance tape (place body (t :: rest)) = .ok (t, place body rest) := by
  have hlt := place_lt h rest
  simp only [advance, look_place h hts, ok_bind, place_succ hts, if_pos hlt,
    look_place h (suffix_of_cons hts)]
  rfl

theorem tracks_fail {α β : Type} {R : α → β → Prop} (cause : Cause) (hts : ts <:+ body) :
    Tracks mark R (Parse.fail cause ts) (fail tape cause (place body ts)) := by
  rw [fail, look_place h hts]
  exact .error

theorem tracks_build (e : Expr) (hts : ts <:+ body) :
    Tracks mark (AtFront body ts) (Parse.build e ts) (build tape e (place body ts)) := by
  unfold Parse.build build
  split
  · exact tracks_fail h .tooDeep hts
  · exact .ok ⟨e, List.suffix_refl ts⟩

theorem kind_ne_eof (hts : t :: rest <:+ body) : t.kind ≠ .eof :=
  h.noMark t (hts.mem List.mem_cons_self)

theorem kind_headD {k : Kind} (hk : k ≠ .eof) (ts : List Token) :
    (ts.headD mark).kind = k ↔ Parse.nextIs k ts = true := by
  cases ts with
  | nil => simp [Parse.nextIs, h.mark, Ne.symm hk]
  | cons t ts => simp [Parse.nextIs]

theorem tracks_closeGroup (b : Bracket) (opener : Token) (inside : List Token)
    (hts : ts <:+ body) :
    Tracks mark (AtLeft body ts) (Parse.closeGroup b opener inside ts)
      (closeGroup tape b opener (place body ts)) := by
  rw [closeGroup, look_place h hts, ok_bind]
  cases ts with
  | nil =>
      have hclosing : ¬ mark.kind = b.closing := by
        rw [h.mark]
        cases b <;> decide
      rw [List.headD_nil, if_neg hclosing, if_pos h.mark]
      exact .error
  | cons t rest =>
      rw [Parse.closeGroup, List.headD_cons]
      split
      · rw [advance_place h hts]
        exact .ok ⟨List.suffix_cons t rest, rfl⟩
      · rw [if_neg (kind_ne_eof h hts)]
        exact .error

/-! ## Parameters -/

theorem endsParams_place (hts : ts <:+ body) :
    endsParams tape (place body ts) = .ok (Parse.endsParams ts) := by
  rw [endsParams, peek_place h hts, ok_bind]
  cases ts with
  | nil =>
      rw [List.headD_nil, h.mark]
      rfl
  | cons t ts =>
      rw [List.headD_cons, peek_succ h hts]
      cases ts with
      | nil =>
          rw [ok_bind, List.headD_nil, h.mark]
          split <;> rfl
      | cons u rest =>
          rw [ok_bind, List.headD_cons, Parse.endsParams]
          split
          · rename_i ht
            simp [ht, pure, Except.pure]
          · rename_i ht
            simp [ht]

/-- What the look-ahead for further names finds. -/
theorem skipNames_place {rounds : Nat} (hts : ts <:+ body) (hrounds : ts.length < rounds) :
    (skipNames tape rounds (place body ts) >>= endsParams tape) = .ok (Parse.moreParams ts) := by
  induction rounds generalizing ts with
  | zero => exact absurd hrounds (Nat.not_lt_zero _)
  | succ rounds ih =>
      rw [skipNames, peek_place h hts, ok_bind]
      have hends := endsParams_place h hts
      match ts with
      | [] =>
          rw [List.headD_nil, h.mark]
          exact hends
      | [t] =>
          rw [List.headD_cons, peek_succ h hts, ok_bind, List.headD_nil, h.mark]
          split
          · exact hends
          · exact hends
      | t :: u :: rest =>
          rw [List.headD_cons, peek_succ h hts, ok_bind, List.headD_cons, Parse.moreParams]
          by_cases ht : t.kind = .comma
          · by_cases hu : u.kind = .ident
            · rw [if_pos ht, if_pos hu, if_pos ⟨ht, hu⟩, place_add_two hts]
              simp only [List.length_cons] at hrounds
              exact ih (suffix_of_cons (suffix_of_cons hts)) (by omega)
            · rw [if_pos ht, if_neg hu, if_neg fun hparam => hu hparam.2]
              exact hends
          · rw [if_neg ht, if_neg fun hparam => ht hparam.1]
            exact hends

theorem opensFunc_place {inside : List Token} (hts : t :: inside <:+ body) :
    opensFunc tape (place body (t :: inside)) = .ok (Parse.opensFunc inside) := by
  have hinside := suffix_of_cons hts
  rw [opensFunc, peek_succ h hts, ok_bind]
  cases inside with
  | nil =>
      rw [List.headD_nil, h.mark, place_succ hts]
      exact endsParams_place h hinside
  | cons u rest =>
      rw [List.headD_cons, Parse.opensFunc]
      split
      · rw [place_add_two hts]
        have hrest := suffix_of_cons hinside
        exact skipNames_place h hrest (Nat.lt_of_le_of_lt hrest.length_le h.rounds)
      · rw [place_succ hts]
        exact endsParams_place h hinside

theorem takeParams_rparen (rounds : Nat) (hts : t :: rest <:+ body) (ht : t.kind = .rparen) :
    takeParams tape (rounds + 1) (place body (t :: rest)) = .ok ([], place body (t :: rest)) := by
  rw [takeParams, look_place h hts, ok_bind, List.headD_cons, if_pos ht]

/-- A name is taken off, and the comma behind it. -/
theorem takeParams_name {u : Token} (rounds : Nat) (hts : t :: u :: rest <:+ body)
    (ht : t.kind = .ident) :
    takeParams tape (rounds + 1) (place body (t :: u :: rest)) = (do
      let (xs, i) ← takeParams tape rounds
        (place body (if u.kind = .comma then rest else u :: rest))
      return (t.value :: xs, i)) := by
  have hname : ¬ t.kind = .rparen := by simp [ht]
  have hrest := suffix_of_cons hts
  simp only [takeParams, look_place h hts, look_place h hrest, advance_place h hts, ok_bind,
    List.headD_cons, if_neg hname]
  split
  · rw [advance_place h hrest, ok_bind]
  · rfl

theorem takeParams_names {ps : List Token} {xs : List String} (hps : Grammar.Names ps xs)
    {rounds : Nat} (hts : ps ++ t :: rest <:+ body) (ht : t.kind = .rparen)
    (hrounds : ps.length < rounds) :
    takeParams tape rounds (place body (ps ++ t :: rest)) = .ok (xs, place body (t :: rest)) := by
  induction hps generalizing rounds with
  | @one name hname =>
      obtain ⟨rounds, rfl⟩ : ∃ n, rounds = n + 2 := Nat.exists_eq_add_of_le' hrounds
      have hcomma : ¬ t.kind = .comma := by simp [ht]
      rw [List.singleton_append] at hts ⊢
      rw [takeParams_name h _ hts hname, if_neg hcomma,
        takeParams_rparen h rounds (suffix_of_cons hts) ht]
      rfl
  | @more name comma ps xs hname hcomma _ ih =>
      obtain ⟨rounds, rfl⟩ := Nat.exists_eq_add_one_of_ne_zero (Nat.ne_zero_of_lt hrounds)
      simp only [List.cons_append] at hts ⊢
      simp only [List.length_cons] at hrounds
      rw [takeParams_name h _ hts hname, if_pos hcomma,
        ih (suffix_of_cons (suffix_of_cons hts)) (by omega)]
      rfl

theorem takeParams_place {ps : List Token} {xs : List String} (hps : Grammar.Params ps xs)
    (hts : ps ++ t :: rest <:+ body) (ht : t.kind = .rparen) :
    takeParams tape tape.rounds (place body (ps ++ t :: rest)) =
      .ok (xs, place body (t :: rest)) := by
  have hlen := hts.length_le
  have hrounds := h.rounds
  rw [List.length_append, List.length_cons] at hlen
  cases hps with
  | none =>
      obtain ⟨n, hn⟩ := Nat.exists_eq_add_one_of_ne_zero (Nat.ne_zero_of_lt hrounds)
      rw [hn]
      exact takeParams_rparen h n hts ht
  | some hps => exact takeParams_names h hps hts ht (by omega)

variable (hinner : Level.Tracking body mark inner inner')
include hinner

/-! ## Lists of expressions -/

theorem tracks_separated (sep : Kind) (hsep : sep ≠ .eof) (least : Nat) {bound rounds : Nat}
    (hts : ts <:+ body) (hbound : ts.length ≤ bound) (hrounds : ts.length < rounds) :
    Tracks mark (AtFront body ts) (Parse.separated sep (inner.expr groups least) bound ts)
      (separated tape sep (inner'.expr groups least) rounds (place body ts)) := by
  induction rounds generalizing bound ts with
  | zero => exact absurd hrounds (Nat.not_lt_zero _)
  | succ rounds ih =>
      rw [separated, look_place h hts, ok_bind]
      cases ts with
      | nil =>
          rw [List.headD_nil, h.mark, if_neg (Ne.symm hsep)]
          cases bound <;> exact .ok ⟨[], List.suffix_refl []⟩
      | cons t ts =>
          obtain ⟨bound, rfl⟩ := Nat.exists_eq_add_one_of_ne_zero (Nat.ne_zero_of_lt hbound)
          rw [List.length_cons] at hbound hrounds
          rw [Parse.separated, List.headD_cons]
          split
          · have hrest := suffix_of_cons hts
            rw [advance_place h hts, ok_bind]
            refine Tracks.mono ?_ (List.suffix_cons t ts)
            refine (hinner.expr groups least hrest).bind ?_
            rintro _ _ ⟨e, hleft⟩
            have hlen := hleft.length_le
            refine ((ih (hleft.trans hrest) (by omega) (by omega)).mono hleft).bind ?_
            rintro _ _ ⟨es, hleft'⟩
            exact .ok ⟨e :: es, hleft'⟩
          · exact .ok ⟨[], List.suffix_refl _⟩

theorem tracks_exprs (hts : ts <:+ body) :
    Tracks mark (AtFront body ts) (Parse.exprs inner groups ts)
      (exprs tape inner' groups (place body ts)) := by
  refine (hinner.expr groups assignPrecedence hts).bind ?_
  rintro _ _ ⟨e, hleft⟩
  have hrest := hleft.trans hts
  have hrounds := Nat.lt_of_le_of_lt hrest.length_le h.rounds
  refine ((tracks_separated h hinner .comma nofun assignPrecedence hrest
    (Nat.le_refl _) hrounds).mono hleft).bind ?_
  rintro _ _ ⟨es, hleft'⟩
  exact .ok ⟨e :: es, hleft'⟩

/-! ## Operands -/

theorem tracks_funcItems (hts : ts <:+ body) :
    Tracks mark (AtFront body ts)
      (if Parse.nextIs .rbrace ts then .ok ([], ts) else Parse.exprs inner (.brace :: groups) ts)
      (funcItems tape inner' groups (place body ts)) := by
  simp only [funcItems, look_place h hts, ok_bind, kind_headD h (k := .rbrace) nofun]
  split
  · exact .ok ⟨[], List.suffix_refl ts⟩
  · exact tracks_exprs h hinner hts

/-- A function literal. The look-ahead has found its parameters and its opening brace. -/
theorem tracks_func {ps inside : List Token} {xs : List String} {u v : Token}
    (hps : Grammar.Params ps xs) (hu : u.kind = .rparen)
    (hts : t :: (ps ++ u :: v :: inside) <:+ body) :
    Tracks mark (AtFront body inside) (Parse.funcBody inner groups xs v inside)
      (func tape inner' groups (place body (t :: (ps ++ u :: v :: inside)))) := by
  have hparams := suffix_of_cons hts
  have hclose : u :: v :: inside <:+ body := (List.suffix_append ps _).trans hparams
  have hbrace := suffix_of_cons hclose
  have hinside := suffix_of_cons hbrace
  simp only [func, advance_place h hts, takeParams_place h hps hparams hu, advance_place h hclose,
    advance_place h hbrace, ok_bind]
  rw [Parse.funcBody_eq]
  refine (tracks_funcItems h hinner hinside).bind ?_
  rintro _ _ ⟨es, hleft⟩
  refine (tracks_closeGroup h .brace v inside (hleft.trans hinside)).bind ?_
  rintro rest _ ⟨hrest, rfl⟩
  have hrest' := hrest.trans hleft
  exact (tracks_build h _ (hrest'.trans hinside)).mono hrest'

theorem tracks_call {name opener : Token} {inside : List Token}
    (hts : name :: opener :: inside <:+ body) :
    Tracks mark (AtFront body inside) (Parse.call inner groups name.value opener inside)
      (call tape inner' groups (place body (name :: opener :: inside))) := by
  have hopener := suffix_of_cons hts
  have hinside := suffix_of_cons hopener
  simp only [call, advance_place h hts, advance_place h hopener, look_place h hinside, ok_bind,
    kind_headD h (k := .rparen) nofun]
  unfold Parse.call
  split
  · rename_i hclosed
    obtain ⟨t, rest, rfl, _⟩ := Parse.nextIs_eq_true hclosed
    rw [advance_place h hinside, ok_bind]
    exact .ok ⟨_, List.suffix_cons t rest⟩
  · refine (tracks_exprs h hinner hinside).bind ?_
    rintro _ _ ⟨args, hleft⟩
    refine (tracks_closeGroup h .paren opener inside (hleft.trans hinside)).bind ?_
    rintro rest _ ⟨hrest, rfl⟩
    have hrest' := hrest.trans hleft
    exact (tracks_build h _ (hrest'.trans hinside)).mono hrest'

theorem tracks_parens {opener : Token} {inside : List Token} (hts : opener :: inside <:+ body) :
    Tracks mark (AtFront body inside) (Parse.parens inner groups opener inside)
      (parens tape inner' groups (place body (opener :: inside))) := by
  have hinside := suffix_of_cons hts
  simp only [parens, opensFunc_place h hts, peek_succ h hts, advance_place h hts, ok_bind,
    kind_headD h (k := .rparen) nofun]
  unfold Parse.parens
  split
  · rename_i hopens
    obtain ⟨ps, xs, u, v, rest, rfl, hps, hu, _⟩ := Parse.opensFunc_iff.mp hopens
    rw [Parse.takeParams_append hps hu]
    have hrest : rest <:+ ps ++ u :: v :: rest :=
      (List.suffix_append [u, v] rest).trans (List.suffix_append ps _)
    exact (tracks_func h hinner hps hu hts).mono hrest
  · split
    · exact tracks_fail h .emptyParens hts
    · refine (hinner.expr (.paren :: groups) assignPrecedence hinside).bind ?_
      rintro _ _ ⟨e, hleft⟩
      refine (tracks_closeGroup h .paren opener inside (hleft.trans hinside)).bind ?_
      rintro rest _ ⟨hrest, rfl⟩
      exact .ok ⟨e, hrest.trans hleft⟩

omit hinner in
theorem tracks_leaf (e : Expr) (hts : t :: rest <:+ body) :
    Tracks mark (AtFront body (t :: rest)) (.ok (e, rest))
      (leaf tape e (place body (t :: rest))) := by
  rw [leaf, advance_place h hts, ok_bind]
  exact .ok ⟨e, List.suffix_cons t rest⟩

theorem tracks_primary (extended : Bool) (hts : ts <:+ body) :
    Tracks mark (AtFront body ts) (Parse.primary extended inner groups ts)
      (primary tape extended inner' groups (place body ts)) := by
  rw [primary, look_place h hts, ok_bind]
  cases ts with
  | nil =>
      rw [List.headD_nil, h.mark]
      exact tracks_fail h .missing hts
  | cons t rest =>
      have hne := kind_ne_eof h hts
      simp only [Parse.primary, List.headD_cons]
      split
      · rename_i ht
        rw [ht]
        exact tracks_leaf h _ hts
      · rename_i ht
        rw [ht]
        exact tracks_leaf h _ hts
      · rename_i ht
        rw [ht]
        dsimp only
        split
        · exact tracks_leaf h _ hts
        · exact tracks_fail h .binaryLiteral hts
      · rename_i ht
        rw [ht]
        exact tracks_leaf h _ hts
      · rename_i ht
        rw [ht]
        dsimp only
        rw [peek_succ h hts, ok_bind]
        cases rest with
        | nil =>
            rw [List.headD_nil, h.mark]
            exact tracks_leaf h _ hts
        | cons u inside =>
            rw [List.headD_cons]
            dsimp only
            split
            · have hinside : inside <:+ t :: u :: inside := List.suffix_append [t, u] inside
              exact (tracks_call h hinner hts).mono hinside
            · exact tracks_leaf h _ hts
      · rename_i ht
        rw [ht]
        exact (tracks_parens h hinner hts).mono (List.suffix_cons t rest)
      · split
        all_goals first
          | contradiction
          | exact tracks_fail h _ hts

theorem tracks_unary (extended : Bool) (hts : ts <:+ body) :
    Tracks mark (AtFront body ts) (Parse.unary extended inner groups ts)
      (unary tape extended inner' groups (place body ts)) := by
  rw [unary, look_place h hts, ok_bind]
  cases ts with
  | nil =>
      rw [List.headD_nil, h.mark]
      exact tracks_primary h hinner extended hts
  | cons t rest =>
      have hrest := suffix_of_cons hts
      rw [Parse.unary, List.headD_cons]
      cases t.kind.unaryOp? with
      | some op =>
          dsimp only
          rw [advance_place h hts, ok_bind]
          refine Tracks.mono ?_ (List.suffix_cons t rest)
          refine (hinner.operand groups hrest).bind ?_
          rintro _ _ ⟨e, hleft⟩
          exact (tracks_build h _ (hleft.trans hrest)).mono hleft
      | none => exact tracks_primary h hinner extended hts

/-! ## Operators -/

omit hinner in
theorem tracks_sumRight (hts : ts <:+ body) (e : Expr) (es : List Expr) :
    Tracks mark Eq (Parse.sumRight ts e es) (sumRight tape (place body ts) e es) := by
  induction es generalizing e with
  | nil => exact .ok rfl
  | cons e' es ih =>
      refine (ih e').bind ?_
      rintro right _ rfl
      refine (tracks_build h _ hts).bind ?_
      rintro _ _ ⟨sum, _⟩
      exact .ok rfl

theorem tracks_rightOperand (op : BinaryOp) (hts : ts <:+ body) :
    Tracks mark (AtFront body ts) (Parse.rightOperand inner groups op ts)
      (rightOperand tape inner' groups op (place body ts)) := by
  refine (hinner.expr groups (op.precedence + 1) hts).bind ?_
  rintro _ _ ⟨e, hleft⟩
  dsimp only
  split
  · have hrest := hleft.trans hts
    have hrounds := Nat.lt_of_le_of_lt hrest.length_le h.rounds
    refine ((tracks_separated h hinner .plus nofun _ hrest (Nat.le_refl _) hrounds).mono
      hleft).bind ?_
    rintro _ _ ⟨es, hleft'⟩
    refine (tracks_sumRight h (hleft'.trans hts) e es).bind ?_
    rintro right _ rfl
    exact .ok ⟨right, hleft'⟩
  · exact .ok ⟨e, hleft⟩

omit hinner in
theorem tracks_stored (name : String) (op : Option BinaryOp) (value : Expr) (hts : ts <:+ body) :
    Tracks mark (AtFront body ts)
      (if op.isSome then Parse.build (Grammar.stored name value op) ts else .ok (value, ts))
      (stored tape name op value (place body ts)) := by
  cases op with
  | none => exact .ok ⟨value, List.suffix_refl ts⟩
  | some op => exact tracks_build h _ hts

theorem tracks_assignment (target : Expr) (op : Option BinaryOp) {sign : Token}
    (hts : sign :: ts <:+ body) :
    Tracks mark (AtFront body ts) (Parse.assignment inner groups target op sign ts)
      (assignment tape inner' groups target op sign (place body (sign :: ts))) := by
  have hrest := suffix_of_cons hts
  cases target with
  | var name =>
      rw [Parse.assignment_var]
      simp only [assignment, advance_place h hts, ok_bind]
      refine (hinner.expr groups assignPrecedence hrest).bind ?_
      rintro _ _ ⟨value, hleft⟩
      refine ((tracks_stored h name op value (hleft.trans hrest)).mono hleft).bind ?_
      rintro _ _ ⟨value', hleft'⟩
      exact (tracks_build h _ (hleft'.trans hrest)).mono hleft'
  | _ => exact .error

theorem tracks_operators (least : Nat) {bound rounds : Nat} (left : Expr) (hts : ts <:+ body)
    (hbound : ts.length ≤ bound) (hrounds : ts.length < rounds) :
    Tracks mark (AtFront body ts) (Parse.operators inner groups least bound left ts)
      (operators tape inner' groups least rounds left (place body ts)) := by
  induction rounds generalizing bound left ts with
  | zero => exact absurd hrounds (Nat.not_lt_zero _)
  | succ rounds ih =>
      rw [operators, look_place h hts, ok_bind]
      cases ts with
      | nil =>
          rw [List.headD_nil, h.mark]
          cases bound <;> exact .ok ⟨left, List.suffix_refl []⟩
      | cons t ts =>
          obtain ⟨bound, rfl⟩ := Nat.exists_eq_add_one_of_ne_zero (Nat.ne_zero_of_lt hbound)
          have hrest := suffix_of_cons hts
          rw [List.length_cons] at hbound hrounds
          rw [Parse.operators, List.headD_cons]
          cases t.kind.assignOp? with
          | some op =>
              dsimp only
              split
              · exact .ok ⟨left, List.suffix_refl _⟩
              · refine Tracks.mono ?_ (List.suffix_cons t ts)
                refine (tracks_assignment h hinner left op hts).bind ?_
                rintro _ _ ⟨e, hleft⟩
                have hlen := hleft.length_le
                exact (ih e (hleft.trans hrest) (by omega) (by omega)).mono hleft
          | none =>
              cases t.kind.binaryOp? with
              | none => exact .ok ⟨left, List.suffix_refl _⟩
              | some op =>
                  dsimp only
                  split
                  · exact .ok ⟨left, List.suffix_refl _⟩
                  · rw [advance_place h hts, ok_bind]
                    refine Tracks.mono ?_ (List.suffix_cons t ts)
                    refine (tracks_rightOperand h hinner op hrest).bind ?_
                    rintro _ _ ⟨right, hleft⟩
                    refine ((tracks_build h _ (hleft.trans hrest)).mono hleft).bind ?_
                    rintro _ _ ⟨e, hleft'⟩
                    have hlen := hleft'.length_le
                    exact (ih e (hleft'.trans hrest) (by omega) (by omega)).mono hleft'

end

/-! ## All levels -/

theorem Level.tracking_bottom (h : tape.Holds body mark) :
    Level.Tracking body mark Parse.Level.bottom (bottom tape) where
  expr _ _ _ hts := tracks_fail h .tooDeep hts
  operand _ _ hts := tracks_fail h .tooDeep hts

theorem Level.Tracking.above (h : tape.Holds body mark)
    (hinner : Level.Tracking body mark inner inner') (extended : Bool) :
    Level.Tracking body mark (Parse.Level.above extended inner)
      (Level.above tape extended inner') where
  expr groups least ts hts := by
    refine (tracks_unary h hinner extended hts).bind ?_
    rintro _ _ ⟨e, hleft⟩
    have hrest := hleft.trans hts
    have hrounds := Nat.lt_of_le_of_lt hrest.length_le h.rounds
    exact (tracks_operators h hinner least e hrest (Nat.le_refl _) hrounds).mono hleft
  operand groups ts hts := tracks_unary h hinner extended hts

theorem Level.tracking (h : tape.Holds body mark) (extended : Bool) (n : Nat) :
    Level.Tracking body mark (Parse.Level.ofDepth extended n) (ofDepth tape extended n) := by
  induction n with
  | zero => exact tracking_bottom h
  | succ n ih => exact Tracking.above h ih extended

theorem tracks_expression (h : tape.Holds body mark) (extended : Bool) :
    Tracks mark Eq (Expr.ofTokens extended body) (expression tape extended) := by
  have hread := (Level.tracking h extended maxDepth).expr [] assignPrecedence
    (List.suffix_refl body)
  rw [place_self] at hread
  refine hread.bind ?_
  rintro _ _ ⟨e, hleft⟩
  rename_i rest
  simp only [look_place h hleft, ok_bind]
  cases rest with
  | nil =>
      rw [List.headD_nil, if_pos h.mark]
      exact .ok rfl
  | cons t rest =>
      rw [List.headD_cons, if_neg (kind_ne_eof h hleft)]
      exact .error

end DebugExpr.Cursor

namespace DebugExpr

open Cursor

/-! ## Whole runs -/

theorem endsInMark_withEndMark (ts : List Token) : EndsInMark (Token.withEndMark ts) := by
  unfold Token.withEndMark
  split
  · exact ⟨.endMark 0, rfl, rfl⟩
  · rename_i t hlast
    split
    · rename_i ht
      exact ⟨t, hlast, ht⟩
    · exact ⟨.endMark t.stop, List.getLast?_concat, rfl⟩

theorem ofList_withEndMark (ts : List Token) :
    Token.Input.ofList (Token.withEndMark ts) = Token.Input.ofList ts := by
  simp only [Token.Input.ofList, withEndMark_of_endsInMark (endsInMark_withEndMark ts)]

/-- Tokens after an end mark make no difference. -/
theorem ofList_append_mark {mark : Token} (hmark : mark.kind = .eof) (ts us : List Token) :
    Token.Input.ofList (ts ++ mark :: us) = Token.Input.ofList (ts ++ [mark]) := by
  have hends : EndsInMark (ts ++ [mark]) := ⟨mark, List.getLast?_concat, hmark⟩
  obtain ⟨read, first, after, hsplit, hread, hfirst⟩ := split_of_endsInMark hends
  have hall : ts ++ mark :: us = read ++ first :: (after ++ us) := by
    rw [List.append_cons, hsplit, List.append_assoc, List.cons_append]
  rw [hall, hsplit, ofList_split hread hfirst, ofList_split hread hfirst]

theorem treeify_result_congr {settings : Settings} {source : Option String} {ts us : List Token}
    (h : Token.Input.ofList ts = Token.Input.ofList us) :
    (treeify settings source ts).result = (treeify settings source us).result := by
  simp only [treeify, h]
  cases Expr.ofInput settings (Token.Input.ofList us) <;> rfl

theorem treeify_total (settings : Settings) (source : Option String) (ts : List Token) :
    (∃ e, (treeify settings source ts).result = .ok e) ∨
      ∃ d, (treeify settings source ts).result = .error (.diagnostic d) ∧
        d.subject = .expression := by
  simp only [treeify, Fault.ofFailure_ample]
  cases Expr.ofInput settings (Token.Input.ofList ts) with
  | ok e => exact .inl ⟨e, rfl⟩
  | error f => exact .inr ⟨_, rfl, (ofFailure_eq source _ f).1⟩

theorem findIdx_mark {body : List Token} {mark : Token} (hbody : ∀ t ∈ body, t.kind ≠ .eof)
    (hmark : mark.kind = .eof) (after : List Token) :
    (body ++ mark :: after).findIdx (fun t => t.kind = .eof) = body.length := by
  rw [List.findIdx_append, if_neg (by simpa using hbody), List.findIdx_cons]
  simp [hmark]

theorem run_eq_treeify (settings : Settings) (source : Option String) {ts : List Token}
    {reach rounds : Nat} (hreach : firstMark ts ≤ reach)
    (hrounds : (Token.withEndMark ts).length ≤ rounds) :
    run settings source ts reach rounds = some (treeify settings source ts).result := by
  obtain ⟨body, mark, after, hsplit, hbody, hmark⟩ :=
    split_of_endsInMark (endsInMark_withEndMark ts)
  have hinput : Token.Input.ofList ts = ⟨body, mark.pos⟩ := by
    rw [← ofList_withEndMark, hsplit, ofList_split hbody hmark]
  rw [firstMark, hsplit, findIdx_mark hbody hmark] at hreach
  rw [hsplit, List.length_append, List.length_cons] at hrounds
  have h : Tape.Holds ⟨Token.withEndMark ts, reach, rounds⟩ body mark :=
    { tokens := ⟨after, hsplit⟩, mark := hmark, noMark := hbody, reach := hreach
      rounds := Nat.lt_of_lt_of_le (by omega) hrounds }
  have htracks := tracks_expression h settings.extended
  simp only [run, treeify, Expr.ofInput, Fault.ofFailure_ample, hinput]
  generalize Expr.ofTokens settings.extended body = x at htracks ⊢
  generalize expression ⟨Token.withEndMark ts, reach, rounds⟩ settings.extended = y at htracks ⊢
  cases htracks with
  | ok heq => exact heq ▸ rfl
  | @error cause rest => cases rest <;> rfl

end DebugExpr
