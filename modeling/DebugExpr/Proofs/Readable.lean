import DebugExpr.Proofs.Rendering

/-!
# Unique readability

The lexemes of a canonical text begin with ones that tell the form of the tree, and so no two trees
have the same canonical text.
-/

namespace DebugExpr

open Token

theorem UnaryOp.kind_injective {op op' : UnaryOp} (h : op.kind = op'.kind) : op = op' := by
  cases op <;> cases op' <;> first | rfl | cases h

theorem BinaryOp.kind_injective {op op' : BinaryOp} (h : op.kind = op'.kind) : op = op' := by
  cases op <;> cases op' <;> first | rfl | cases h

theorem Radix.kind_injective {r r' : Radix} (h : r.kind = r'.kind) : r = r' := by
  cases r <;> cases r' <;> first | rfl | cases h

namespace Expr

/-! ## Forms -/

/-- The constructor of a tree. -/
inductive Form where
  | number | string | var | unary | binary | bareCall | call | assign | func

def form : Expr → Form
  | .number .. => .number
  | .string .. => .string
  | .var .. => .var
  | .unary .. => .unary
  | .binary .. => .binary
  | .bareCall .. => .bareCall
  | .call .. => .call
  | .assign .. => .assign
  | .func .. => .func

/-- The form of the tree whose canonical text begins with lexemes of these kinds. -/
def formOf : List Kind → Form
  | .string :: _ => .string
  | .ident :: .lparen :: .unknown :: _ => .call
  | .ident :: .lparen :: .rparen :: .lbrace :: _ => .func
  | .ident :: .lparen :: .rparen :: _ => .bareCall
  | .ident :: .lparen :: _ => .func
  | .ident :: _ => .var
  | .lparen :: .bang :: _ => .unary
  | .lparen :: .minus :: _ => .unary
  | .lparen :: .ident :: .assign :: _ => .assign
  | .lparen :: _ => .binary
  | _ => .number

/-- No bracket opens at the front, so that a name there is not called. -/
def NoOpening (k : List Lexeme) : Prop :=
  ∀ l ∈ k.head?, l.1 ≠ .lparen ∧ l.1 ≠ .lbrace

theorem noOpening_cons {l : Lexeme} (h : l.1 ≠ .lparen ∧ l.1 ≠ .lbrace) (k : List Lexeme) :
    NoOpening (l :: k) := by
  rintro l' ⟨⟩
  exact h

theorem formOf_binary (op : BinaryOp) (l : Expr) (k : List Lexeme) :
    formOf (((lparen :: (l.lexemes ++ (op.kind, op.symbol.toList) :: k)).map Prod.fst)) =
      .binary := by
  cases l with
  | number r s => cases r <;> rfl
  | var x => cases op <;> rfl
  | _ => rfl

theorem formOf_lexemes (e : Expr) {k : List Lexeme} (hk : NoOpening k) :
    formOf ((e.lexemes ++ k).map Prod.fst) = e.form := by
  cases e with
  | number r s => cases r <;> rfl
  | var x =>
      cases k with
      | nil => rfl
      | cons l k =>
          have := hk l rfl
          simp [lexemes, name, formOf, form, this]
  | bareCall f =>
      cases k with
      | nil => rfl
      | cons l k =>
          have := hk l rfl
          simp [lexemes, name, lparen, rparen, formOf, form, this]
  | unary op e => cases op <;> rfl
  | binary op l r =>
      have happ : (Expr.binary op l r).lexemes ++ k =
          lparen :: (l.lexemes ++ (op.kind, op.symbol.toList) :: (r.lexemes ++ [rparen] ++ k)) := by
        simp [lexemes]
      rw [happ]
      exact formOf_binary op l _
  | func xs es => cases xs <;> rfl
  | string | call | assign => rfl

/-! ## Names -/

theorem toList_injective {s s' : String} (h : s.toList = s'.toList) : s = s' :=
  String.toList_inj.mp h

theorem name_injective {s s' : String} (h : name s = name s') : s = s' :=
  toList_injective (congrArg Prod.snd h)

theorem moreNames_append_inj {xs xs' : List String} {k k' : List Lexeme}
    (h : moreNames xs ++ rparen :: k = moreNames xs' ++ rparen :: k') : xs = xs' ∧ k = k' := by
  induction xs generalizing xs' with
  | nil =>
      cases xs' with
      | nil => exact ⟨rfl, (List.cons.inj h).2⟩
      | cons x xs' => cases (List.cons.inj h).1
  | cons x xs ih =>
      cases xs' with
      | nil => cases (List.cons.inj h).1
      | cons x' xs' =>
          obtain ⟨hname, hrest⟩ := List.cons.inj (List.cons.inj h).2
          obtain ⟨rfl, rfl⟩ := ih hrest
          exact ⟨by rw [name_injective hname], rfl⟩

theorem names_append_inj {xs xs' : List String} {k k' : List Lexeme}
    (h : names xs ++ rparen :: k = names xs' ++ rparen :: k') : xs = xs' ∧ k = k' := by
  cases xs with
  | nil =>
      cases xs' with
      | nil => exact ⟨rfl, (List.cons.inj h).2⟩
      | cons x xs' => cases (List.cons.inj h).1
  | cons x xs =>
      cases xs' with
      | nil => cases (List.cons.inj h).1
      | cons x' xs' =>
          obtain ⟨hname, hrest⟩ := List.cons.inj h
          obtain ⟨rfl, rfl⟩ := moreNames_append_inj hrest
          exact ⟨by rw [name_injective hname], rfl⟩

/-! ## Trees -/

/-- The lexemes tell the tree and where they end. -/
def Readable (e : Expr) : Prop :=
  ∀ e' k k', NoOpening k → NoOpening k' → e.lexemes ++ k = e'.lexemes ++ k' → e = e' ∧ k = k'

theorem form_eq {e e' : Expr} {k k' : List Lexeme} (hk : NoOpening k) (hk' : NoOpening k')
    (h : e.lexemes ++ k = e'.lexemes ++ k') : e.form = e'.form := by
  rw [← formOf_lexemes e hk, h, formOf_lexemes e' hk']

theorem noOpening_rparen (k : List Lexeme) : NoOpening (rparen :: k) :=
  noOpening_cons (by simp [rparen]) k

theorem readable_number (r : Radix) (s : String) : (Expr.number r s).Readable := by
  intro e' k k' hk hk' h
  have hform := form_eq hk hk' h
  cases e' with
  | number r' s' =>
      obtain ⟨hlexeme, hrest⟩ := List.cons.inj h
      obtain ⟨hkind, htext⟩ := Prod.mk.inj hlexeme
      exact ⟨by rw [Radix.kind_injective hkind, toList_injective htext], hrest⟩
  | _ => cases hform

theorem readable_string (s : String) : (Expr.string s).Readable := by
  intro e' k k' hk hk' h
  have hform := form_eq hk hk' h
  cases e' with
  | string s' =>
      obtain ⟨hlexeme, hrest⟩ := List.cons.inj h
      exact ⟨by rw [toList_injective (Prod.mk.inj hlexeme).2], hrest⟩
  | _ => cases hform

theorem readable_var (x : String) : (Expr.var x).Readable := by
  intro e' k k' hk hk' h
  have hform := form_eq hk hk' h
  cases e' with
  | var x' =>
      obtain ⟨hname, hrest⟩ := List.cons.inj h
      exact ⟨by rw [name_injective hname], hrest⟩
  | _ => cases hform

theorem readable_bareCall (f : String) : (Expr.bareCall f).Readable := by
  intro e' k k' hk hk' h
  have hform := form_eq hk hk' h
  cases e' with
  | bareCall f' =>
      obtain ⟨hname, hrest⟩ := List.cons.inj h
      exact ⟨by rw [name_injective hname], (List.cons.inj (List.cons.inj hrest).2).2⟩
  | _ => cases hform

theorem Readable.unary {op : UnaryOp} {e : Expr} (he : e.Readable) :
    (Expr.unary op e).Readable := by
  intro e' k k' hk hk' h
  have hform := form_eq hk hk' h
  cases e' with
  | unary op' e' =>
      simp only [lexemes, List.cons_append, List.append_assoc, List.cons.injEq, true_and,
        Prod.mk.injEq] at h
      obtain ⟨⟨hop, _⟩, h⟩ := h
      obtain ⟨rfl, hrest⟩ := he e' _ _ (noOpening_rparen k) (noOpening_rparen k') h
      exact ⟨by rw [UnaryOp.kind_injective hop], (List.cons.inj hrest).2⟩
  | _ => cases hform

theorem Readable.binary {op : BinaryOp} {l r : Expr} (hl : l.Readable) (hr : r.Readable) :
    (Expr.binary op l r).Readable := by
  intro e' k k' hk hk' h
  have hform := form_eq hk hk' h
  have hop : ∀ (op : BinaryOp) k, NoOpening ((op.kind, op.symbol.toList) :: k) :=
    fun op k => noOpening_cons (by cases op <;> simp [BinaryOp.kind]) k
  cases e' with
  | binary op' l' r' =>
      simp only [lexemes, List.cons_append, List.append_assoc, List.cons.injEq, true_and] at h
      obtain ⟨rfl, hright⟩ := hl l' _ _ (hop op _) (hop op' _) h
      obtain ⟨hsign, hright⟩ := List.cons.inj hright
      obtain ⟨rfl, hrest⟩ := hr r' _ _ (noOpening_rparen k) (noOpening_rparen k') hright
      exact ⟨by rw [BinaryOp.kind_injective (Prod.mk.inj hsign).1], (List.cons.inj hrest).2⟩
  | _ => cases hform

theorem Readable.assign {x : String} {e : Expr} (he : e.Readable) :
    (Expr.assign x e).Readable := by
  intro e' k k' hk hk' h
  have hform := form_eq hk hk' h
  cases e' with
  | assign x' e' =>
      simp only [lexemes, List.cons_append, List.append_assoc, List.cons.injEq, true_and] at h
      obtain ⟨hname, h⟩ := h
      obtain ⟨rfl, hrest⟩ := he e' _ _ (noOpening_rparen k) (noOpening_rparen k') h
      exact ⟨by rw [name_injective hname], (List.cons.inj hrest).2⟩
  | _ => cases hform

/-! ## Lists -/

/-- A separator or a closing bracket, after which no name is called. -/
def isStop (l : Lexeme) : Bool :=
  l.1 == .comma || l.1 == .rbrace || l.1 == .unknown

theorem noOpening_stop {l : Lexeme} (h : isStop l = true) (k : List Lexeme) :
    NoOpening (l :: k) := by
  refine noOpening_cons ?_ k
  simp only [isStop, Bool.or_eq_true, beq_iff_eq] at h
  rcases h with (h | h) | h <;> simp [h]

theorem lexemes_ne_stop {e : Expr} {l : Lexeme} {k k' : List Lexeme} (h : isStop l = true) :
    e.lexemes ++ k ≠ l :: k' := by
  intro heq
  have hstart : ∃ l' ls, e.lexemes = l' :: ls ∧ isStop l' = false := by
    cases e with
    | number r s => cases r <;> exact ⟨_, _, rfl, rfl⟩
    | _ => exact ⟨_, _, rfl, rfl⟩
  obtain ⟨l', ls, hls, hl'⟩ := hstart
  rw [hls] at heq
  obtain ⟨rfl, _⟩ := List.cons.inj heq
  rw [h] at hl'
  cases hl'

/-- The lexemes of more members, each after a separator, tell the members and where they end. -/
def ReadableFollowing (es : List Expr) : Prop :=
  ∀ sep stop : Lexeme, isStop sep = true → isStop stop = true → sep ≠ stop → ∀ es' k k',
    following sep es ++ stop :: k = following sep es' ++ stop :: k' → es = es' ∧ k = k'

theorem readableFollowing_nil : ReadableFollowing [] := by
  intro sep stop _ _ hne es' k k' h
  cases es' with
  | nil => exact ⟨rfl, (List.cons.inj h).2⟩
  | cons e' es' => exact absurd (List.cons.inj h).1.symm hne

theorem following_begins {sep stop : Lexeme} (hsep : isStop sep = true) (hstop : isStop stop = true)
    (es : List Expr) (k : List Lexeme) : NoOpening (following sep es ++ stop :: k) := by
  cases es with
  | nil => exact noOpening_stop hstop k
  | cons e es => exact noOpening_stop hsep _

theorem ReadableFollowing.cons {e : Expr} {es : List Expr} (he : e.Readable)
    (hes : ReadableFollowing es) : ReadableFollowing (e :: es) := by
  intro sep stop hsep hstop hne es' k k' h
  cases es' with
  | nil => exact absurd (List.cons.inj h).1 hne
  | cons e' es' =>
      simp only [following, List.cons_append, List.append_assoc, List.cons.injEq, true_and] at h
      obtain ⟨rfl, hrest⟩ := he e' _ _ (following_begins hsep hstop es k)
        (following_begins hsep hstop es' k') h
      obtain ⟨rfl, rfl⟩ := hes sep stop hsep hstop hne es' k k' hrest
      exact ⟨rfl, rfl⟩

/-- The lexemes of a list tell its members and where it ends. -/
def ReadableList (es : List Expr) : Prop :=
  ∀ sep stop : Lexeme, isStop sep = true → isStop stop = true → sep ≠ stop → ∀ es' k k',
    joined sep es ++ stop :: k = joined sep es' ++ stop :: k' → es = es' ∧ k = k'

theorem readableList_nil : ReadableList [] := by
  intro sep stop _ hstop _ es' k k' h
  cases es' with
  | nil => exact ⟨rfl, (List.cons.inj h).2⟩
  | cons e' es' =>
      rw [joined, joined, List.append_assoc] at h
      exact absurd h.symm (lexemes_ne_stop hstop)

theorem ReadableFollowing.list {e : Expr} {es : List Expr} (he : e.Readable)
    (hes : ReadableFollowing es) : ReadableList (e :: es) := by
  intro sep stop hsep hstop hne es' k k' h
  cases es' with
  | nil =>
      rw [joined, joined, List.append_assoc] at h
      exact absurd h (lexemes_ne_stop hstop)
  | cons e' es' =>
      rw [joined, joined, List.append_assoc, List.append_assoc] at h
      obtain ⟨rfl, hrest⟩ := he e' _ _ (following_begins hsep hstop es k)
        (following_begins hsep hstop es' k') h
      obtain ⟨rfl, rfl⟩ := hes sep stop hsep hstop hne es' k k' hrest
      exact ⟨rfl, rfl⟩

theorem ReadableList.call {f : String} {es : List Expr} (hes : ReadableList es) :
    (Expr.call f es).Readable := by
  intro e' k k' hk hk' h
  have hform := form_eq hk hk' h
  have hne : comma ≠ rbracket := by simp [comma, rbracket]
  cases e' with
  | call f' es' =>
      simp only [lexemes, List.cons_append, List.append_assoc, List.cons.injEq, true_and] at h
      obtain ⟨hname, h⟩ := h
      obtain ⟨rfl, hrest⟩ := hes comma rbracket rfl rfl hne es' _ _ h
      exact ⟨by rw [name_injective hname], (List.cons.inj hrest).2⟩
  | _ => cases hform

theorem ReadableList.func {xs : List String} {es : List Expr} (hes : ReadableList es) :
    (Expr.func xs es).Readable := by
  intro e' k k' hk hk' h
  have hform := form_eq hk hk' h
  have hne : semicolon ≠ rbrace := by simp [semicolon, rbrace]
  cases e' with
  | func xs' es' =>
      simp only [lexemes, List.cons_append, List.append_assoc, List.cons.injEq, true_and] at h
      obtain ⟨rfl, hbody⟩ := names_append_inj h
      obtain ⟨rfl, hrest⟩ :=
        hes semicolon rbrace rfl rfl hne es' _ _ (List.cons.inj hbody).2
      exact ⟨rfl, hrest⟩
  | _ => cases hform

mutual

theorem readable : (e : Expr) → e.Readable
  | .number r s => readable_number r s
  | .string s => readable_string s
  | .var x => readable_var x
  | .unary _ e => (readable e).unary
  | .binary _ l r => (readable l).binary (readable r)
  | .bareCall f => readable_bareCall f
  | .call _ es => (readable_list es).call
  | .assign _ e => (readable e).assign
  | .func _ es => (readable_list es).func

theorem readable_list : (es : List Expr) → ReadableList es
  | [] => readableList_nil
  | e :: es => (readable_following es).list (readable e)

theorem readable_following : (es : List Expr) → ReadableFollowing es
  | [] => readableFollowing_nil
  | e :: es => (readable_following es).cons (readable e)

end

theorem lexemes_injective {e e' : Expr} (h : e.lexemes = e'.lexemes) : e = e' := by
  have hnil : NoOpening [] := by rintro l ⟨⟩
  exact (readable e e' [] [] hnil hnil (by rw [h])).1

/-! ## Canonical texts -/

theorem wellFormed_mono {extended : Bool} {e : Expr} (h : e.WellFormed extended) :
    e.WellFormed true := by
  have hvalid : ∀ {k v}, Valid extended k v → Valid true k v := by
    intro k v hv
    cases hv with
    | number hne hv => exact .number hne hv
    | hex hv => exact .hex hv
    | bin _ hv => exact .bin rfl hv
    | string hv => exact .string hv
    | ident hc hv => exact .ident hc hv
    | operator hop => exact .operator hop
    | unknown hblank hquote hc hop => exact .unknown hblank hquote hc hop
  intro n hn
  have hnode := h n hn
  cases n with
  | number | string => exact hvalid hnode
  | _ => exact hnode

theorem render_injective {e e' : Expr} (h : e.WellFormed true) (h' : e'.WellFormed true)
    (heq : e.render = e'.render) : e = e' := by
  obtain ⟨ts, hscan, hts⟩ := (reading e h [] ends_nil).scan_eq
  obtain ⟨ts', hscan', hts'⟩ := (reading e' h' [] ends_nil).scan_eq
  rw [heq, hscan'] at hscan
  obtain ⟨rfl, _⟩ := List.append_inj' (Except.ok.inj hscan) rfl
  exact lexemes_injective (hts.symm.trans hts')

end Expr

/-- Two accepted sources have the same canonical text exactly when they have the same tree. -/
theorem parse_render_eq_iff {settings settings' : Settings} {source source' : String}
    {e e' : Expr} (h : (parse settings source).result = .ok e)
    (h' : (parse settings' source').result = .ok e') : e.render = e'.render ↔ e = e' := by
  constructor
  · have hwell := Expr.wellFormed_mono (wellFormed_of_parse h).1
    have hwell' := Expr.wellFormed_mono (wellFormed_of_parse h').1
    exact Expr.render_injective hwell hwell'
  · intro heq
    rw [heq]

/-- A call of a function named like the mark of function literals is not taken for a literal. -/
theorem render_call_ne_func :
    (parse {} "fn()").result = .ok (.bareCall "fn") ∧
    (parse { extended := true } "(){}").result = .ok (.func [] []) ∧
    ((Expr.bareCall "fn").render = (Expr.func [] []).render ↔
      Expr.bareCall "fn" = Expr.func [] []) := by
  have h : (parse {} "fn()").result = .ok (.bareCall "fn") := rfl
  have h' : (parse { extended := true } "(){}").result = .ok (.func [] []) := rfl
  exact ⟨h, h', parse_render_eq_iff h h'⟩

end DebugExpr
