import DebugExpr.Proofs.Acceptance
import DebugExpr.Proofs.Tracking

/-!
# Look-ahead and parameters

The look-ahead at an opening parenthesis and the loop that takes the parameters go over the tokens
in different ways, the loop with fewer tests. They agree wherever the parenthesis stands, even
behind an end mark: if the look-ahead finds a function literal, then the loop comes to its end at
the parenthesis that the look-ahead has found, with the names in between, and the token behind it
that is taken for the opening brace is one.
-/

namespace DebugExpr.Grammar

/-- The names among the tokens of a list of parameters. -/
def namesOf (params : List Token) : List String :=
  (params.filter (·.kind = .ident)).map (·.value)

theorem Names.eq_namesOf {params : List Token} {names : List String} (h : Names params names) :
    names = namesOf params := by
  induction h with
  | one ht => simp [namesOf, ht]
  | more ht hu _ ih => rw [ih]; simp [namesOf, ht, hu]

theorem Params.eq_namesOf {params : List Token} {names : List String} :
    Params params names → names = namesOf params
  | .none => rfl
  | .some h => h.eq_namesOf

end DebugExpr.Grammar

namespace DebugExpr.Cursor

open Token (Kind)
open Grammar (namesOf)

variable {tape : Tape} {n i : Nat}

/-! ## Runs that begin at an index -/

/-- The tape without the tokens before an index. -/
def Tape.after (tape : Tape) (n : Nat) : Tape :=
  ⟨tape.tokens.drop n, tape.reach - n, tape.rounds⟩

/-- The same result with its cursor on the whole tape. -/
def forward (n : Nat) {α : Type} (x : Except Stop (α × Nat)) : Except Stop (α × Nat) :=
  x.map fun front => (front.1, n + front.2)

theorem forward_bind {α β : Type} {x : Except Stop (α × Nat)}
    {f g : α × Nat → Except Stop (β × Nat)} (h : ∀ a j, f (a, n + j) = forward n (g (a, j))) :
    (forward n x >>= f) = forward n (x >>= g) := by
  cases x with
  | error => rfl
  | ok front => exact h front.1 front.2

theorem bind_forward {α β : Type} {x : Except Stop α} {f g : α → Except Stop (β × Nat)}
    (h : ∀ a, f a = forward n (g a)) : (x >>= f) = forward n (x >>= g) := by
  cases x with
  | error => rfl
  | ok a => exact h a

section

variable (hreach : n ≤ tape.reach)
include hreach

theorem look_after (i : Nat) : look (tape.after n) i = look tape (n + i) := by
  have hle : i ≤ tape.reach - n ↔ n + i ≤ tape.reach := by omega
  simp only [look, Tape.after, List.getElem?_drop, hle]

theorem peek_after (hlt : n < tape.tokens.length) (i : Nat) :
    peek (tape.after n) i = peek tape (n + i) := by
  have hmin : n + min i (tape.tokens.length - n - 1) = min (n + i) (tape.tokens.length - 1) := by
    omega
  rw [peek, look_after hreach, peek, Tape.after, List.length_drop, hmin]

theorem advance_after (i : Nat) : advance tape (n + i) = forward n (advance (tape.after n) i) := by
  have hlt : i + 1 < tape.tokens.length - n ↔ n + i + 1 < tape.tokens.length := by omega
  have hnext : n + (if i + 1 < tape.tokens.length - n then i + 1 else i) =
      if n + i + 1 < tape.tokens.length then n + i + 1 else n + i := by
    simp only [hlt]
    split <;> rfl
  simp only [advance, look_after hreach]
  simp only [Tape.after, List.length_drop, hnext]
  refine bind_forward fun t => bind_forward fun _ => ?_
  exact congrArg (fun j => Except.ok (t, j)) hnext.symm

theorem takeParams_after (rounds i : Nat) :
    takeParams tape rounds (n + i) = forward n (takeParams (tape.after n) rounds i) := by
  induction rounds generalizing i with
  | zero => rfl
  | succ rounds ih =>
      rw [takeParams, takeParams, look_after hreach]
      refine bind_forward fun t => ?_
      split
      · rfl
      · rw [advance_after hreach]
        refine forward_bind fun name j => ?_
        dsimp only
        rw [look_after hreach]
        refine bind_forward fun u => ?_
        split
        · rw [advance_after hreach]
          refine forward_bind fun _ k => ?_
          dsimp only
          rw [ih]
          exact forward_bind fun _ _ => rfl
        · rw [ih]
          exact forward_bind fun _ _ => rfl

end

/-! ## The end of the look-ahead -/

/-- The index at which the look-ahead expects the parameters to end. -/
def lookAhead (tape : Tape) (i : Nat) : Except Stop Nat := do
  let t ← peek tape (i + 1)
  if t.kind = .ident then skipNames tape tape.rounds (i + 2) else return i + 1

theorem opensFunc_eq (tape : Tape) (i : Nat) :
    opensFunc tape i = lookAhead tape i >>= endsParams tape := by
  rw [opensFunc, lookAhead]
  cases peek tape (i + 1) with
  | error => rfl
  | ok t =>
      rw [ok_bind, ok_bind]
      split <;> rfl

section

variable (hreach : n ≤ tape.reach) (hlt : n < tape.tokens.length)
include hreach hlt

theorem skipNames_after (rounds i : Nat) :
    skipNames tape rounds (n + i) = (skipNames (tape.after n) rounds i).map (n + ·) := by
  induction rounds generalizing i with
  | zero => rfl
  | succ rounds ih =>
      rw [skipNames, skipNames, peek_after hreach hlt]
      cases peek tape (n + i) with
      | error => rfl
      | ok t =>
          rw [ok_bind, ok_bind]
          split
          · rw [Nat.add_assoc, peek_after hreach hlt]
            cases peek tape (n + (i + 1)) with
            | error => rfl
            | ok u =>
                rw [ok_bind, ok_bind]
                split
                · rw [Nat.add_assoc, ih]
                · rfl
          · rfl

theorem lookAhead_after (i : Nat) :
    lookAhead tape (n + i) = (lookAhead (tape.after n) i).map (n + ·) := by
  rw [lookAhead, lookAhead, Nat.add_assoc, peek_after hreach hlt]
  cases peek tape (n + (i + 1)) with
  | error => rfl
  | ok t =>
      rw [ok_bind, ok_bind]
      split
      · rw [Nat.add_assoc, skipNames_after hreach hlt]
        rfl
      · rfl

theorem endsParams_after (i : Nat) : endsParams (tape.after n) i = endsParams tape (n + i) := by
  rw [endsParams, endsParams, peek_after hreach hlt, peek_after hreach hlt, Nat.add_assoc]

theorem opensFunc_after (i : Nat) : opensFunc tape (n + i) = opensFunc (tape.after n) i := by
  rw [opensFunc_eq, opensFunc_eq, lookAhead_after hreach hlt]
  cases lookAhead (tape.after n) i with
  | error => rfl
  | ok j => exact (endsParams_after hreach hlt j).symm

end

section

variable {body ps rest : List Token} {xs : List String} {mark t u : Token}

theorem skipNames_names (h : tape.Holds body mark) (hps : Grammar.Names ps xs)
    (hu : u.kind = .rparen) {rounds : Nat} (hts : ps ++ u :: rest <:+ body)
    (hrounds : ps.length ≤ rounds) :
    ∃ name others, ps = name :: others ∧ name.kind = .ident ∧
      skipNames tape rounds (place body (others ++ u :: rest)) = .ok (place body (u :: rest)) := by
  induction hps generalizing rounds with
  | @one name hname =>
      obtain ⟨rounds, rfl⟩ : ∃ n, rounds = n + 1 := Nat.exists_eq_add_of_le' hrounds
      have hclose : u :: rest <:+ body := suffix_of_cons hts
      refine ⟨name, [], rfl, hname, ?_⟩
      rw [List.nil_append, skipNames, peek_place h hclose, ok_bind, List.headD_cons,
        if_neg (by simp [hu])]
  | @more name comma ps xs hname hcomma _ ih =>
      rw [List.length_cons, List.length_cons] at hrounds
      obtain ⟨rounds, rfl⟩ : ∃ n, rounds = n + 1 := Nat.exists_eq_add_of_le' (by omega)
      obtain ⟨name', others, rfl, hname', hskip⟩ :=
        ih (suffix_of_cons (suffix_of_cons hts)) (by omega : _ ≤ rounds)
      have hmore : comma :: name' :: (others ++ u :: rest) <:+ body := suffix_of_cons hts
      refine ⟨name, comma :: name' :: others, rfl, hname, ?_⟩
      rw [List.cons_append, List.cons_append, skipNames, peek_place h hmore, ok_bind,
        List.headD_cons, if_pos hcomma, peek_succ h hmore, ok_bind, List.headD_cons,
        if_pos hname', place_add_two hmore, hskip]

theorem lookAhead_place (h : tape.Holds body mark) (hps : Grammar.Params ps xs)
    (hu : u.kind = .rparen) (hts : t :: (ps ++ u :: rest) <:+ body) :
    lookAhead tape (place body (t :: (ps ++ u :: rest))) = .ok (place body (u :: rest)) := by
  rw [lookAhead, peek_succ h hts, ok_bind]
  cases hps with
  | none =>
      rw [List.nil_append] at hts ⊢
      rw [List.headD_cons, if_neg (by simp [hu]), place_succ hts]
      rfl
  | some hps =>
      have hparams := suffix_of_cons hts
      have hlen := hparams.length_le
      rw [List.length_append] at hlen
      have hbound := h.rounds
      have hrounds : ps.length ≤ tape.rounds := by omega
      obtain ⟨name, others, rfl, hname, hskip⟩ := skipNames_names h hps hu hparams hrounds
      rw [List.cons_append] at hts ⊢
      rw [List.headD_cons, if_pos hname, place_add_two hts, hskip]

end

/-! ## The tokens of a function literal -/

/-- The tokens behind an index are those of a function literal up to its opening brace, and more. -/
structure Begins (tokens : List Token) (i : Nat) (params : List Token) (closer opener : Token)
    (rest : List Token) : Prop where
  tokens_eq : tokens.drop (i + 1) = params ++ closer :: opener :: rest
  params : ∃ names, Grammar.Params params names
  closer : closer.kind = .rparen
  opener : opener.kind = .lbrace

/-- The tokens before the first end mark. -/
def beforeMark (tokens : List Token) : List Token :=
  tokens.takeWhile (·.kind ≠ .eof)

theorem Begins.beforeMark_eq {tokens : List Token} {params rest : List Token}
    {closer opener : Token} (h : Begins tokens i params closer opener rest) :
    beforeMark (tokens.drop (i + 1)) = params ++ closer :: opener :: beforeMark rest := by
  obtain ⟨names, hparams⟩ := h.params
  have hmark : ∀ t ∈ params, decide (t.kind ≠ .eof) = true := by simpa using hparams.noMark
  rw [beforeMark, h.tokens_eq, List.takeWhile_append_of_pos hmark]
  simp [beforeMark, h.closer, h.opener]

theorem beforeMark_append {read after : List Token} {mark : Token}
    (hread : ∀ t ∈ read, t.kind ≠ .eof) (hmark : mark.kind = .eof) :
    beforeMark (read ++ mark :: after) = read := by
  rw [beforeMark, List.takeWhile_append_of_pos (by simpa using hread)]
  simp [hmark]

/-- What the parser reads behind an index begins a function literal if all that stands there
does. -/
theorem opensFunc_beforeMark {tokens : List Token} :
    Parse.opensFunc (beforeMark (tokens.drop (i + 1))) = true ↔
      ∃ params closer opener rest, Begins tokens i params closer opener rest := by
  rw [Parse.opensFunc_iff]
  constructor
  · rintro ⟨ps, xs, u, v, rest, heq, hps, hu, hv⟩
    obtain ⟨after, hafter⟩ : beforeMark (tokens.drop (i + 1)) <+: tokens.drop (i + 1) :=
      List.takeWhile_prefix _
    rw [heq] at hafter
    exact ⟨ps, u, v, rest ++ after, by simp [← hafter], ⟨xs, hps⟩, hu, hv⟩
  · rintro ⟨params, closer, opener, rest, h⟩
    obtain ⟨names, hparams⟩ := h.params
    exact ⟨params, names, closer, opener, beforeMark rest, h.beforeMark_eq, hparams, h.closer,
      h.opener⟩

/-! ## Any cursor -/

/-- A tape that ends in an end mark. All of it may be looked at, and a loop may take a round for
each token. -/
structure Tape.Whole (tape : Tape) : Prop where
  mark : EndsInMark tape.tokens
  reach : tape.tokens.length ≤ tape.reach + 1
  rounds : tape.tokens.length ≤ tape.rounds

variable {t closer opener : Token} {params rest : List Token}

theorem Tape.Whole.le_reach (h : tape.Whole) (ht : tape.tokens[i]? = some t) : i ≤ tape.reach := by
  have hlt := (List.getElem?_eq_some_iff.mp ht).1
  have hreach := h.reach
  omega

/-- From a token on that is no end mark, the tape holds the tokens up to the next one. -/
theorem Tape.Whole.after_holds (h : tape.Whole) (ht : tape.tokens[i]? = some t)
    (hne : t.kind ≠ .eof) :
    ∃ mark, (tape.after i).Holds (t :: beforeMark (tape.tokens.drop (i + 1))) mark := by
  obtain ⟨hlt, hget⟩ := List.getElem?_eq_some_iff.mp ht
  have hcons : tape.tokens.drop i = t :: tape.tokens.drop (i + 1) := by
    rw [List.drop_eq_getElem_cons hlt, hget]
  have hends : EndsInMark (tape.tokens.drop i) := by
    obtain ⟨last, hlast, hkind⟩ := h.mark
    exact ⟨last, by rw [List.getLast?_drop, if_neg (Nat.not_le_of_lt hlt), hlast], hkind⟩
  obtain ⟨read, mark, after, hsplit, hread, hkind⟩ := split_of_endsInMark hends
  have hlength := congrArg List.length hsplit
  rw [List.length_drop, List.length_append, List.length_cons] at hlength
  have hreach := h.reach
  have hrounds := h.rounds
  cases read with
  | nil => exact absurd ((List.cons.inj (hcons.symm.trans hsplit)).1 ▸ hkind) hne
  | cons t' inside =>
      obtain ⟨rfl, hinside⟩ := List.cons.inj (hcons.symm.trans hsplit)
      rw [hinside, List.append_eq, beforeMark_append (List.forall_mem_cons.mp hread).2 hkind]
      exact ⟨mark,
        { tokens := ⟨after, hsplit⟩
          mark := hkind
          noMark := hread
          reach := show _ ≤ tape.reach - i by omega
          rounds := show _ < tape.rounds by omega }⟩

theorem opensFunc_at (h : tape.Whole) (ht : tape.tokens[i]? = some t) (hparen : t.kind = .lparen) :
    opensFunc tape i = .ok (Parse.opensFunc (beforeMark (tape.tokens.drop (i + 1)))) := by
  obtain ⟨mark, hholds⟩ := h.after_holds ht (by simp [hparen])
  have hopens := opensFunc_place hholds (List.suffix_refl _)
  rwa [place_self, ← opensFunc_after (h.le_reach ht) (List.getElem?_eq_some_iff.mp ht).1] at hopens

section

variable {body ts : List Token} {names : List String} {mark u : Token}
  (hholds : (tape.after i).Holds body mark) (hi : i ≤ tape.reach)
include hholds hi

theorem advance_at (hts : t :: ts <:+ body) :
    advance tape (i + place body (t :: ts)) = .ok (t, i + place body ts) := by
  rw [advance_after hi, advance_place hholds hts]
  rfl

theorem lookAhead_at (hlt : i < tape.tokens.length) (hparams : Grammar.Params params names)
    (hu : u.kind = .rparen) (hts : t :: (params ++ u :: ts) <:+ body) :
    lookAhead tape (i + place body (t :: (params ++ u :: ts))) =
      .ok (i + place body (u :: ts)) := by
  rw [lookAhead_after hi hlt, lookAhead_place hholds hparams hu hts]
  rfl

theorem takeParams_at (hparams : Grammar.Params params names) (hu : u.kind = .rparen)
    (hts : params ++ u :: ts <:+ body) :
    takeParams tape tape.rounds (i + place body (params ++ u :: ts)) =
      .ok (names, i + place body (u :: ts)) := by
  rw [takeParams_after hi]
  exact congrArg (forward i) (takeParams_place hholds hparams hts hu)

end

/-- What becomes of a function literal at an index: the look-ahead and the loop end at the same
index, and the loop has taken the names before it. The next two tokens are the closing parenthesis
and the opening brace, and the body is read behind them. -/
structure Agrees (tape : Tape) (i : Nat) (params : List Token) (closer opener : Token) : Prop where
  lookAhead_eq : lookAhead tape i = .ok (i + 1 + params.length)
  takeParams_eq :
    takeParams tape tape.rounds (i + 1) = .ok (namesOf params, i + 1 + params.length)
  closer_eq : advance tape (i + 1 + params.length) = .ok (closer, i + params.length + 2)
  opener_eq : advance tape (i + params.length + 2) = .ok (opener, i + params.length + 3)
  func_eq (inner : Level) (groups : List Bracket) :
    func tape inner groups i = do
      let (body, k) ← funcItems tape inner groups (i + params.length + 3)
      let k ← closeGroup tape .brace opener k
      build tape (.func (namesOf params) body) k

theorem Begins.agrees (hbegins : Begins tape.tokens i params closer opener rest) (h : tape.Whole)
    (ht : tape.tokens[i]? = some t) (hparen : t.kind = .lparen) :
    Agrees tape i params closer opener := by
  obtain ⟨names, hparams⟩ := hbegins.params
  obtain ⟨mark, hholds⟩ := h.after_holds ht (by simp [hparen])
  have hi := h.le_reach ht
  have hlt := (List.getElem?_eq_some_iff.mp ht).1
  rw [hbegins.beforeMark_eq] at hholds
  generalize beforeMark rest = left at hholds
  generalize hbody : t :: (params ++ closer :: opener :: left) = body at hholds
  have hopen : t :: (params ++ closer :: opener :: left) <:+ body := hbody ▸ List.suffix_refl _
  have hinside := suffix_of_cons hopen
  have hclose := (List.suffix_append params _).trans hinside
  have hbrace := suffix_of_cons hclose
  -- The indices of the opening parenthesis, of what follows it, and of the last two tokens.
  have hplace₀ : i + place body (t :: (params ++ closer :: opener :: left)) = i := by
    simp [place, ← hbody]
  have hplace₁ : i + place body (params ++ closer :: opener :: left) = i + 1 := by
    simp [place, ← hbody]
  have hplace₂ : i + place body (closer :: opener :: left) = i + 1 + params.length := by
    simp [place, ← hbody]
    omega
  have hplace₃ : i + place body (opener :: left) = i + params.length + 2 := by
    simp [place, ← hbody]
    omega
  have hplace₄ : i + place body left = i + params.length + 3 := by
    simp [place, ← hbody]
    omega
  have hlook := lookAhead_at hholds hi hlt hparams hbegins.closer hopen
  have htake := takeParams_at hholds hi hparams hbegins.closer hinside
  have hfirst := advance_at hholds hi hopen
  have hcloser := advance_at hholds hi hclose
  have hopener := advance_at hholds hi hbrace
  rw [hparams.eq_namesOf] at htake
  simp only [hplace₀, hplace₁, hplace₂, hplace₃, hplace₄] at hlook htake hfirst hcloser hopener
  refine ⟨hlook, htake, hcloser, hopener, fun inner groups => ?_⟩
  simp only [func, hfirst, htake, hcloser, hopener, ok_bind]

/-- The look-ahead at an opening parenthesis finds exactly the function literals, and the reader of
function literals agrees with it about their parameters and brackets. The parser does the same with
the tokens before the next end mark. -/
theorem opensFunc_agrees (h : tape.Whole) (ht : tape.tokens[i]? = some t)
    (hparen : t.kind = .lparen) :
    opensFunc tape i = .ok (Parse.opensFunc (beforeMark (tape.tokens.drop (i + 1)))) ∧
    (opensFunc tape i = .ok true ↔
      ∃ params closer opener rest, Begins tape.tokens i params closer opener rest) ∧
    ∀ {params closer opener rest}, Begins tape.tokens i params closer opener rest →
      Agrees tape i params closer opener ∧
      Parse.takeParams (beforeMark (tape.tokens.drop (i + 1))) =
        (namesOf params, opener :: beforeMark rest) := by
  have hopens := opensFunc_at h ht hparen
  refine ⟨hopens, ?_, fun hbegins => ⟨hbegins.agrees h ht hparen, ?_⟩⟩
  · rw [hopens, Except.ok.injEq, opensFunc_beforeMark]
  · obtain ⟨names, hparams⟩ := hbegins.params
    rw [hbegins.beforeMark_eq, Parse.takeParams_append hparams hbegins.closer, hparams.eq_namesOf]

/-- A function literal with two parameters behind an end mark: the loop, which would take any token
for a parameter, takes the two names. -/
theorem opensFunc_agrees_behind_mark :
    let tokens : List Token :=
      [⟨.eof, "", 0⟩, ⟨.lparen, "(", 0⟩, ⟨.ident, "a", 1⟩, ⟨.comma, ",", 2⟩, ⟨.ident, "b", 3⟩,
        ⟨.rparen, ")", 4⟩, ⟨.lbrace, "\x7b", 5⟩, ⟨.eof, "", 6⟩]
    let tape : Tape := ⟨tokens, 7, 8⟩
    tape.Whole ∧ tape.tokens[1]? = some ⟨.lparen, "(", 0⟩ ∧ opensFunc tape 1 = .ok true ∧
      takeParams tape 8 2 = .ok (["a", "b"], 5) := by
  intro tokens tape
  have h : tape.Whole := ⟨⟨⟨.eof, "", 6⟩, rfl, rfl⟩, Nat.le_refl 8, Nat.le_refl 8⟩
  have ht : tape.tokens[1]? = some ⟨.lparen, "(", 0⟩ := rfl
  have hbegins : Begins tape.tokens 1 [⟨.ident, "a", 1⟩, ⟨.comma, ",", 2⟩, ⟨.ident, "b", 3⟩]
      ⟨.rparen, ")", 4⟩ ⟨.lbrace, "\x7b", 5⟩ [⟨.eof, "", 6⟩] :=
    ⟨rfl, ⟨_, .some (.more rfl rfl (.one rfl))⟩, rfl, rfl⟩
  obtain ⟨_, hiff, hagrees⟩ := opensFunc_agrees h ht rfl
  exact ⟨h, ht, hiff.mpr ⟨_, _, _, _, hbegins⟩, (hagrees hbegins).1.takeParams_eq⟩

end DebugExpr.Cursor
