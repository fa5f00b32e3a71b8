import DebugExpr.Proofs.WellFormed

/-!
# The tokens of a canonical text

The canonical text of a well-formed tree is read as the lexemes that it is put together from.
Brackets around arguments and semicolons between statements are no tokens of the language.
-/

namespace DebugExpr

open Token

/-- The kind of token that the operator is written as. -/
def UnaryOp.kind : UnaryOp → Kind
  | not => .bang
  | neg => .minus

def BinaryOp.kind : BinaryOp → Kind
  | add => .plus
  | sub => .minus
  | mul => .star
  | div => .slash
  | concat => .concat
  | and => .and
  | or => .or

theorem UnaryOp.mem_operators (op : UnaryOp) : (op.symbol.toList, op.kind) ∈ Kind.operators := by
  cases op <;> simp [symbol, UnaryOp.kind, Kind.operators]

theorem BinaryOp.mem_operators (op : BinaryOp) :
    (op.symbol.toList, op.kind) ∈ Kind.operators := by
  cases op <;> simp [symbol, BinaryOp.kind, Kind.operators]

namespace Expr

/-! ## Lexemes -/

def lparen : Lexeme := (.lparen, ['('])

def rparen : Lexeme := (.rparen, [')'])

def lbrace : Lexeme := (.lbrace, ['\x7b'])

def rbrace : Lexeme := (.rbrace, ['\x7d'])

def comma : Lexeme := (.comma, [','])

def equals : Lexeme := (.assign, ['='])

def lbracket : Lexeme := (.unknown, ['['])

def rbracket : Lexeme := (.unknown, [']'])

def semicolon : Lexeme := (.unknown, [';'])

theorem lparen_mem : (['('], Kind.lparen) ∈ Kind.operators := by
  simp [Kind.operators]

theorem rparen_mem : ([')'], Kind.rparen) ∈ Kind.operators := by
  simp [Kind.operators]

theorem lbrace_mem : (['\x7b'], Kind.lbrace) ∈ Kind.operators := by
  simp [Kind.operators]

theorem rbrace_mem : (['\x7d'], Kind.rbrace) ∈ Kind.operators := by
  simp [Kind.operators]

theorem comma_mem : ([','], Kind.comma) ∈ Kind.operators := by
  simp [Kind.operators]

theorem equals_mem : (['='], Kind.assign) ∈ Kind.operators := by
  simp [Kind.operators]

def name (s : String) : Lexeme := (.ident, s.toList)

def moreNames (xs : List String) : List Lexeme :=
  xs.flatMap fun x => [comma, name x]

def names : List String → List Lexeme
  | [] => []
  | x :: xs => name x :: moreNames xs

mutual

/-- The lexemes of the canonical text. -/
def lexemes : Expr → List Lexeme
  | .number r s => [(r.kind, s.toList)]
  | .string s => [(.string, s.toList)]
  | .var x => [name x]
  | .unary op e => lparen :: (op.kind, op.symbol.toList) :: (e.lexemes ++ [rparen])
  | .binary op l r =>
    lparen :: (l.lexemes ++ (op.kind, op.symbol.toList) :: (r.lexemes ++ [rparen]))
  | .bareCall f => [name f, lparen, rparen]
  | .call f es => name f :: lparen :: lbracket :: (joined comma es ++ [rbracket, rparen])
  | .assign x e => lparen :: name x :: equals :: (e.lexemes ++ [rparen])
  | .func xs es =>
    name "fn" :: lparen :: (names xs ++ rparen :: lbrace :: (joined semicolon es ++ [rbrace]))

/-- The lexemes of a list with separators between its members. -/
def joined (sep : Lexeme) : List Expr → List Lexeme
  | [] => []
  | e :: es => e.lexemes ++ following sep es

def following (sep : Lexeme) : List Expr → List Lexeme
  | [] => []
  | e :: es => sep :: (e.lexemes ++ following sep es)

end

/-! ## What may come next -/

variable {extended : Bool}

/-- The marks after which every lexeme ends. -/
def closers : List Char := [' ', '(', ')', ',', '[', ']', ';', '\x7b', '\x7d']

theorem ends_closer {c : Char} (h : closers.contains c = true) (k : Kind) (rest : List Char) :
    Ends k (c :: rest) := by
  have hall : closers.all (fun c => Kind.all.all fun k => !goesOn k c) = true := rfl
  rintro d ⟨⟩
  have hends := List.all_eq_true.mp
    (List.all_eq_true.mp hall c (List.contains_iff_mem.mp h)) k (Kind.mem_all k)
  simpa using hends

theorem ends_nil (k : Kind) : Ends k [] := by
  rintro d ⟨⟩

/-- A canonical text does not begin with a character that goes on with an operator. -/
theorem goesOn_eq_false {c : Char} (h : isIdentRest c = true) : goesOn .unknown c = false := by
  have hne : ∀ d, isIdentRest d = false → c ≠ d := by
    rintro d hd rfl
    rw [hd] at h
    cases h
  simp [goesOn, hne '+' rfl, hne '=' rfl, hne '&' rfl, hne '|' rfl]

theorem name_eq_cons {s : String} (h : IsName s) :
    ∃ c cs, s.toList = c :: cs ∧ isIdentRest c = true := by
  unfold IsName at h
  generalize s.toList = v at h
  cases h with
  | @ident c v hc hv => exact ⟨c, v, rfl, by simp [isIdentRest, hc]⟩
  | operator hop => simp [Kind.operators] at hop

theorem ends_name {s : String} (h : IsName s) (rest : List Char) :
    Ends .unknown (s.toList ++ rest) := by
  obtain ⟨c, cs, hcs, hc⟩ := name_eq_cons h
  rw [hcs]
  rintro d ⟨⟩
  exact goesOn_eq_false hc

theorem ends_render {e : Expr} (h : e.WellFormed extended) (rest : List Char) :
    Ends .unknown (e.render.toList ++ rest) := by
  have hnode : e.NodeOk extended := h e (by cases e <;> simp [walk])
  cases e with
  | number r s =>
      cases r with
      | dec =>
          obtain ⟨hne, hdigits⟩ := digits_of_valid hnode
          obtain ⟨c, cs, hcs⟩ := List.exists_cons_of_ne_nil hne
          have hc := hdigits c (by rw [hcs]; exact List.mem_cons_self)
          rintro d hd
          simp only [render, Radix.mark, String.toList_append, hcs] at hd
          cases hd
          exact goesOn_eq_false (isIdentRest_of_isDecimal hc)
      | hex | bin =>
          rintro d hd
          simp only [render, Radix.mark, String.toList_append] at hd
          cases hd
          rfl
  | var x =>
      exact ends_name hnode rest
  | bareCall f =>
      simp only [render, String.toList_append, List.append_assoc]
      exact ends_name hnode _
  | call f es =>
      simp only [render, String.toList_append, List.append_assoc]
      exact ends_name hnode.1 _
  | string | unary | binary | assign | func =>
      rintro d hd
      simp only [render, String.toList_append, List.append_assoc] at hd
      cases hd
      rfl

/-! ## Reading a canonical text -/

theorem reads_valid {k : Kind} {v w rest : List Char} {ls : List Lexeme}
    (h : Valid extended k v) (hends : Ends k (w ++ rest)) (h' : Reads extended w ls rest) :
    Reads extended (k.spell v ++ w) ((k, v) :: ls) rest :=
  (h.reads hends).append h'

theorem reads_operator {k : Kind} {v w rest : List Char} {ls : List Lexeme}
    (h : (v, k) ∈ Kind.operators) (hends : Ends k (w ++ rest)) (h' : Reads extended w ls rest) :
    Reads extended (v ++ w) ((k, v) :: ls) rest := by
  have hread : Reads extended (k.spell v ++ w) ((k, v) :: ls) rest :=
    reads_valid (.operator h) hends h'
  rwa [spell_operator h] at hread

theorem reads_name {s : String} {w rest : List Char} {ls : List Lexeme} (h : IsName s)
    (hends : Ends .ident (w ++ rest)) (h' : Reads extended w ls rest) :
    Reads extended (s.toList ++ w) (name s :: ls) rest := by
  have hvalid : Valid extended .ident s.toList := by
    unfold IsName at h
    generalize s.toList = v at h
    cases h with
    | ident hc hv => exact .ident hc hv
    | operator hop => simp [Kind.operators] at hop
  exact reads_valid hvalid hends h'

theorem reads_space {w rest : List Char} {ls : List Lexeme} (h : Reads extended w ls rest) :
    Reads extended (' ' :: w) ls rest :=
  (reads_blank (c := ' ') rfl _).append h

theorem reads_closing {k : Kind} {c : Char} {rest : List Char} (h : ([c], k) ∈ Kind.operators)
    (hrest : Ends k rest) : Reads extended [c] [(k, [c])] rest :=
  reads_operator h hrest (reads_nil rest)

theorem valid_unknown {c : Char} (h : c ∈ ['[', ']', ';']) : Valid extended .unknown [c] := by
  simp only [List.mem_cons, List.not_mem_nil, or_false] at h
  rcases h with rfl | rfl | rfl
  · exact .unknown rfl (by simp) rfl (by simp [Kind.operators])
  · exact .unknown rfl (by simp) rfl (by simp [Kind.operators])
  · exact .unknown rfl (by simp) rfl (by simp [Kind.operators])

theorem reads_unknown {c : Char} {w rest : List Char} {ls : List Lexeme}
    (h : c ∈ ['[', ']', ';']) (hends : Ends .unknown (w ++ rest)) (h' : Reads extended w ls rest) :
    Reads extended (c :: w) ((.unknown, [c]) :: ls) rest := by
  exact reads_valid (valid_unknown h) hends h'

def textAfter (sep : String) (texts : List String) : List Char :=
  texts.flatMap fun s => sep.toList ++ s.toList

theorem textAfter_cons (sep s : String) (texts : List String) :
    textAfter sep (s :: texts) = sep.toList ++ (s.toList ++ textAfter sep texts) := by
  simp [textAfter]

theorem toList_intercalate_cons (sep s : String) (texts : List String) :
    (sep.intercalate (s :: texts)).toList = s.toList ++ textAfter sep texts := by
  rw [String.toList_intercalate]
  induction texts generalizing s with
  | nil => simp [textAfter]
  | cons s' texts ih =>
      simp only [List.map_cons] at ih ⊢
      rw [List.intercalate_cons_cons, ih, textAfter_cons, List.append_assoc]

theorem ends_textAfter {sep : String} {c : Char} {cs : List Char} (hsep : sep.toList = c :: cs)
    (hc : closers.contains c = true) (texts : List String) {rest : List Char} (hrest : ∀ k, Ends k rest)
    (k : Kind) : Ends k (textAfter sep texts ++ rest) := by
  cases texts with
  | nil => exact hrest k
  | cons s texts =>
      rw [textAfter_cons, hsep]
      exact ends_closer hc _ _

theorem reads_moreNames {xs : List String} {rest : List Char} (hxs : ∀ x ∈ xs, IsName x)
    (hrest : ∀ k, Ends k rest) : Reads extended (textAfter ", " xs) (moreNames xs) rest := by
  induction xs with
  | nil => exact reads_nil rest
  | cons x xs ih =>
      obtain ⟨hx, hxs⟩ := List.forall_mem_cons.mp hxs
      have hname := reads_name hx (ends_textAfter rfl rfl xs hrest .ident) (ih hxs)
      rw [textAfter_cons]
      exact reads_operator comma_mem
        (ends_closer rfl _ _) (reads_space hname)

theorem reads_names {xs : List String} {rest : List Char} (hxs : ∀ x ∈ xs, IsName x)
    (hrest : ∀ k, Ends k rest) :
    Reads extended (", ".intercalate xs).toList (names xs) rest := by
  cases xs with
  | nil => exact reads_nil rest
  | cons x xs =>
      obtain ⟨hx, hxs⟩ := List.forall_mem_cons.mp hxs
      rw [toList_intercalate_cons]
      exact reads_name hx (ends_textAfter rfl rfl xs hrest .ident)
        (reads_moreNames hxs hrest)

/-- The text is read as the lexemes, whatever comes next, as long as every lexeme ends there. -/
def Reading (extended : Bool) (e : Expr) : Prop :=
  ∀ rest, (∀ k, Ends k rest) → Reads extended e.render.toList e.lexemes rest

theorem reads_parens {w rest : List Char} {ls : List Lexeme}
    (hends : Ends .lparen (w ++ [')'] ++ rest)) (h : Reads extended w ls ([')'] ++ rest))
    (hrest : Ends .rparen rest) :
    Reads extended (['('] ++ (w ++ [')'])) (lparen :: (ls ++ [rparen])) rest :=
  reads_operator lparen_mem hends (h.append (reads_closing rparen_mem hrest))

theorem ends_rparen (rest : List Char) (k : Kind) : Ends k ([')'] ++ rest) :=
  ends_closer rfl k rest

theorem reads_unary {op : UnaryOp} {e : Expr} (h : e.WellFormed extended)
    (hread : Reading extended e) : Reading extended (.unary op e) := by
  intro rest hrest
  have happ : (Expr.unary op e).render.toList =
      ['('] ++ (op.symbol.toList ++ e.render.toList ++ [')']) := by
    simp [render, String.toList_append]
  have hopends : Ends op.kind (e.render.toList ++ ([')'] ++ rest)) := by
    cases op <;> exact ends_render h _
  have hlexemes : (Expr.unary op e).lexemes =
      lparen :: ((op.kind, op.symbol.toList) :: e.lexemes ++ [rparen]) := by
    simp [lexemes]
  rw [happ, hlexemes]
  refine reads_parens ?_ ?_ (hrest .rparen)
  · cases op <;> (rintro c ⟨⟩; rfl)
  · exact reads_operator op.mem_operators hopends (hread _ (ends_rparen rest))

theorem reads_binary {op : BinaryOp} {l r : Expr} (h : l.WellFormed extended)
    (hl : Reading extended l) (hr : Reading extended r) : Reading extended (.binary op l r) := by
  intro rest hrest
  have happ : (Expr.binary op l r).render.toList = ['('] ++ (l.render.toList ++
      (' ' :: (op.symbol.toList ++ (' ' :: r.render.toList))) ++ [')']) := by
    simp [render, String.toList_append]
  have hlexemes : (Expr.binary op l r).lexemes =
      lparen :: (l.lexemes ++ (op.kind, op.symbol.toList) :: r.lexemes ++ [rparen]) := by
    simp [lexemes]
  have hright := reads_space (hr _ (ends_rparen rest))
  have hop := reads_space (reads_operator op.mem_operators (ends_closer rfl _ _) hright)
  rw [happ, hlexemes]
  refine reads_parens ?_ ?_ (hrest .rparen)
  · rw [List.append_assoc, List.append_assoc]
    exact ends_render h _
  · exact (hl _ fun k => ends_closer rfl k _).append hop

theorem reads_assign {x : String} {e : Expr} (hx : IsName x) (hread : Reading extended e) :
    Reading extended (.assign x e) := by
  intro rest hrest
  have happ : (Expr.assign x e).render.toList = ['('] ++ (x.toList ++
      (' ' :: (['='] ++ (' ' :: e.render.toList))) ++ [')']) := by
    simp [render, String.toList_append]
  have hvalue := reads_space (hread _ (ends_rparen rest))
  have hsign := reads_space (reads_operator equals_mem (ends_closer rfl _ _) hvalue)
  have hlexemes : (Expr.assign x e).lexemes =
      lparen :: (name x :: equals :: e.lexemes ++ [rparen]) := by
    simp [lexemes]
  rw [happ, hlexemes]
  refine reads_parens ?_ ?_ (hrest .rparen)
  · rw [List.append_assoc, List.append_assoc]
    exact ends_name hx _
  · exact reads_name hx (ends_closer rfl _ _) hsign

theorem reads_bareCall {f : String} (hf : IsName f) : Reading extended (.bareCall f) := by
  intro rest hrest
  have happ : (Expr.bareCall f).render.toList = f.toList ++ (['('] ++ [')']) := by
    simp [render, String.toList_append]
  rw [happ]
  exact reads_name hf (ends_closer rfl _ _)
    (reads_operator lparen_mem (ends_closer rfl _ _)
      (reads_closing rparen_mem (hrest .rparen)))

/-! ## Lists -/

/-- The text between two members of a list is read as one lexeme. -/
structure Separates (extended : Bool) (sep : String) (l : Lexeme) : Prop where
  begins : ∃ c cs, sep.toList = c :: cs ∧ closers.contains c = true
  reads {w : List Char} {ls : List Lexeme} {rest : List Char} :
    Reads extended w ls rest → Reads extended (sep.toList ++ w) (l :: ls) rest

theorem separates_comma : Separates extended ", " comma where
  begins := ⟨',', [' '], rfl, rfl⟩
  reads h := reads_operator comma_mem
    (ends_closer rfl _ _) (reads_space h)

theorem separates_semicolon : Separates extended "; " semicolon where
  begins := ⟨';', [' '], rfl, rfl⟩
  reads h := reads_unknown (c := ';') (by simp) (ends_closer rfl _ _) (reads_space h)

theorem reads_following_cons {sep : String} {l : Lexeme} {e : Expr} {es : List Expr}
    {rest : List Char} (hsep : Separates extended sep l) (h : Reading extended e)
    (hrest : ∀ k, Ends k rest)
    (hes : Reads extended (textAfter sep (renderList es)) (following l es) rest) :
    Reads extended (textAfter sep (renderList (e :: es))) (following l (e :: es)) rest := by
  obtain ⟨c, cs, hcs, hc⟩ := hsep.begins
  rw [renderList, textAfter_cons]
  exact hsep.reads ((h _ (ends_textAfter hcs hc _ hrest)).append hes)

theorem reads_joined_cons {sep : String} {l : Lexeme} {e : Expr} {es : List Expr}
    {rest : List Char} (hsep : Separates extended sep l) (h : Reading extended e)
    (hrest : ∀ k, Ends k rest)
    (hes : Reads extended (textAfter sep (renderList es)) (following l es) rest) :
    Reads extended (sep.intercalate (renderList (e :: es))).toList (joined l (e :: es)) rest := by
  obtain ⟨c, cs, hcs, hc⟩ := hsep.begins
  rw [renderList, toList_intercalate_cons]
  exact (h _ (ends_textAfter hcs hc _ hrest)).append hes

theorem ends_joined {sep : String} {es : List Expr} (hes : ∀ e ∈ es, e.WellFormed extended)
    {rest : List Char} (hrest : Ends .unknown rest) :
    Ends .unknown ((sep.intercalate (renderList es)).toList ++ rest) := by
  cases es with
  | nil => exact hrest
  | cons e es =>
      rw [renderList, toList_intercalate_cons, List.append_assoc]
      exact ends_render (hes e List.mem_cons_self) _

/-- All members of a list, with separators between them, are read as their lexemes. -/
def ReadingList (extended : Bool) (sep : String) (l : Lexeme) (es : List Expr) : Prop :=
  ∀ rest, (∀ k, Ends k rest) →
    Reads extended (sep.intercalate (renderList es)).toList (joined l es) rest

theorem reads_call {f : String} {es : List Expr} (hf : IsName f)
    (hes : ∀ e ∈ es, e.WellFormed extended) (hread : ReadingList extended ", " comma es) :
    Reading extended (.call f es) := by
  intro rest hrest
  have hend : ∀ k, Ends k ([']'] ++ [')'] ++ rest) := fun k => ends_closer rfl k _
  have happ : (Expr.call f es).render.toList =
      f.toList ++ (['('] ++ ('[' :: ((", ".intercalate (renderList es)).toList ++
        (']' :: [')'])))) := by
    simp [render, showArgs, String.toList_append]
  have hclose : Reads extended (']' :: [')']) [rbracket, rparen] rest :=
    reads_unknown (by simp) (ends_closer rfl _ _)
      (reads_closing rparen_mem (hrest .rparen))
  have hopen : Ends .unknown ((", ".intercalate (renderList es)).toList ++ [']', ')'] ++ rest) := by
    rw [List.append_assoc]
    exact ends_joined hes (hend .unknown)
  have hargs := reads_unknown (c := '[') (by simp) hopen ((hread _ hend).append hclose)
  rw [happ]
  exact reads_name hf (ends_closer rfl _ _)
    (reads_operator lparen_mem (ends_closer rfl _ _) hargs)

theorem reads_func {xs : List String} {es : List Expr} (hxs : ∀ x ∈ xs, IsName x)
    (hes : ∀ e ∈ es, e.WellFormed extended) (hread : ReadingList extended "; " semicolon es) :
    Reading extended (.func xs es) := by
  intro rest hrest
  have hend : ∀ k, Ends k (['}'] ++ rest) := fun k => ends_closer rfl k rest
  have happ : (Expr.func xs es).render.toList =
      "fn".toList ++ (['('] ++ ((", ".intercalate xs).toList ++ ([')'] ++ (' ' ::
        (['{'] ++ ((("; ".intercalate (renderList es)).toList) ++ ['}'])))))) := by
    simp [render, String.toList_append]
  have hclose : Reads extended ['}'] [rbrace] rest := reads_closing rbrace_mem (hrest .rbrace)
  have hopen : Ends .lbrace ((("; ".intercalate (renderList es)).toList) ++ ['}'] ++ rest) := by
    rw [List.append_assoc]
    exact ends_joined hes (hend .lbrace)
  have hbody := reads_operator lbrace_mem hopen
    ((hread _ hend).append hclose)
  have hparen := reads_operator rparen_mem
    (ends_closer rfl _ _) (reads_space hbody)
  have hfn : IsName "fn" := .ident rfl (List.forall_mem_singleton.mpr rfl)
  rw [happ]
  refine reads_name hfn (ends_closer rfl _ _) (reads_operator lparen_mem ?_
    ((reads_names hxs fun k => ends_closer rfl k _).append hparen))
  cases xs with
  | nil => rintro c ⟨⟩; rfl
  | cons x xs =>
      rw [toList_intercalate_cons, List.append_assoc, List.append_assoc]
      exact ends_name (hxs x List.mem_cons_self) _

/-! ## Trees -/

theorem reads_number {r : Radix} {s : String} (h : Valid extended r.kind s.toList) :
    Reading extended (.number r s) := by
  intro rest hrest
  have happ : (Expr.number r s).render.toList = r.kind.spell s.toList := by
    rw [render, String.toList_append]
    cases r <;> rfl
  rw [happ]
  exact h.reads (hrest r.kind)

theorem reads_string {s : String} (h : Valid extended .string s.toList) :
    Reading extended (.string s) := by
  intro rest hrest
  have happ : (Expr.string s).render.toList = Kind.string.spell s.toList := by
    simp [render, Kind.spell, String.toList_append]
  rw [happ]
  exact h.reads (hrest .string)

theorem reads_var {x : String} (h : IsName x) : Reading extended (.var x) := by
  intro rest hrest
  have hread : Reads extended (x.toList ++ []) [name x] rest :=
    reads_name h (hrest .ident) (reads_nil rest)
  rwa [List.append_nil] at hread

mutual

theorem reading : (e : Expr) → e.WellFormed extended → Reading extended e
  | .number _ _, h => reads_number (h _ List.mem_cons_self)
  | .string _, h => reads_string (h _ List.mem_cons_self)
  | .var _, h => reads_var (h _ List.mem_cons_self)
  | .unary _ e, h =>
      have he := wellFormed_unary.mp h
      reads_unary he (reading e he)
  | .binary _ l r, h =>
      have ⟨hl, hr⟩ := wellFormed_binary.mp h
      reads_binary hl (reading l hl) (reading r hr)
  | .bareCall _, h => reads_bareCall (h _ List.mem_cons_self)
  | .call _ es, h =>
      have ⟨hf, hes⟩ := wellFormed_call.mp h
      reads_call hf.1 hes (reading_joined separates_comma es hes)
  | .assign _ e, h =>
      have ⟨hx, he⟩ := wellFormed_assign.mp h
      reads_assign hx (reading e he)
  | .func _ es, h =>
      have ⟨hxs, hes⟩ := wellFormed_func.mp h
      reads_func hxs hes (reading_joined separates_semicolon es hes)

theorem reading_joined {sep : String} {l : Lexeme} (hsep : Separates extended sep l) :
    (es : List Expr) → (∀ e ∈ es, e.WellFormed extended) → ReadingList extended sep l es
  | [], _ => fun rest _ => reads_nil rest
  | e :: es, hes => fun rest hrest =>
      have ⟨he, hes⟩ := List.forall_mem_cons.mp hes
      reads_joined_cons hsep (reading e he) hrest (reading_following hsep es hes rest hrest)

theorem reading_following {sep : String} {l : Lexeme} (hsep : Separates extended sep l) :
    (es : List Expr) → (∀ e ∈ es, e.WellFormed extended) → ∀ rest, (∀ k, Ends k rest) →
      Reads extended (textAfter sep (renderList es)) (following l es) rest
  | [], _, rest, _ => reads_nil rest
  | e :: es, hes, rest, hrest =>
      have ⟨he, hes⟩ := List.forall_mem_cons.mp hes
      reads_following_cons hsep (reading e he) hrest (reading_following hsep es hes rest hrest)

end

theorem ofSource_render {settings : Settings} {e : Expr} (h : e.WellFormed settings.extended) :
    ∃ ts mark, Token.ofSource settings e.render = .ok (ts ++ [mark]) ∧ mark.kind = .eof ∧
      ts.map lexeme = e.lexemes := by
  obtain ⟨ts, hscan, hts⟩ := (reading e h [] ends_nil).scan_eq
  exact ⟨ts, _, hscan, rfl, hts⟩

end Expr

end DebugExpr
