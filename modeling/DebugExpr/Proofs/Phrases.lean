import DebugExpr.Proofs.Joining
import DebugExpr.Proofs.Positions
import DebugExpr.Proofs.Reparse

/-!
# Phrases

A source that is accepted alone is the same unit wherever it is written: its tokens derive the same
tree there, with the same levels of nesting. Phrases are put together as the grammar puts together
their trees.
-/

namespace DebugExpr

open Grammar Token DebugExpr.Expr Parse

/-! ## Derivations elsewhere -/

theorem Token.Alike.eq_moved {t u : Token} (h : t.Alike u) : ∃ pos, u = { t with pos } := by
  obtain ⟨kind, value, pos⟩ := u
  obtain ⟨rfl, rfl⟩ := h
  exact ⟨pos, rfl⟩

namespace Grammar

variable {extended : Bool}

theorem Leaf.relocate {t u : Token} {e : Expr} (h : Leaf extended t e) (hu : t.Alike u) :
    Leaf extended u e := by
  have hkind := hu.kind_eq
  cases h with
  | number h => exact hu.value_eq ▸ .number (hkind ▸ h)
  | hex h => exact hu.value_eq ▸ .hex (hkind ▸ h)
  | bin hext h => exact hu.value_eq ▸ .bin hext (hkind ▸ h)
  | string h => exact hu.value_eq ▸ .string (hkind ▸ h)
  | var h => exact hu.value_eq ▸ .var (hkind ▸ h)

theorem Target.relocate {ts us : List Token} {x : String} (target : Target ts x)
    (h : Alike ts us) : ∃ target' : Target us x, target'.depth = target.depth := by
  match target with
  | .name ht =>
      obtain _ | ⟨hu, ⟨⟩⟩ := h
      obtain ⟨pos, rfl⟩ := hu.eq_moved
      exact ⟨.name ht, rfl⟩
  | .group ht target hu =>
      obtain _ | ⟨ht', h⟩ := h
      obtain ⟨inside, u', _, rfl, hinside, hu', ⟨⟩⟩ := alike_split h
      obtain ⟨target', hdepth⟩ := target.relocate hinside
      exact ⟨.group (ht'.kind_eq ▸ ht) target' (hu'.kind_eq ▸ hu), congrArg (· + 1) hdepth⟩

theorem Names.relocate {ts us : List Token} {xs : List String} (hnames : Names ts xs)
    (h : Alike ts us) : Names us xs := by
  induction hnames generalizing us with
  | one ht =>
      obtain _ | ⟨hu, ⟨⟩⟩ := h
      exact hu.value_eq ▸ .one (hu.kind_eq ▸ ht)
  | more ht hc _ ih =>
      obtain _ | ⟨ht', _ | ⟨hc', h⟩⟩ := h
      exact ht'.value_eq ▸ .more (ht'.kind_eq ▸ ht) (hc'.kind_eq ▸ hc) (ih h)

theorem Params.relocate {ts us : List Token} {xs : List String} (hparams : Params ts xs)
    (h : Alike ts us) : Params us xs := by
  cases hparams with
  | none =>
      cases h
      exact .none
  | some hnames => exact .some (hnames.relocate h)

mutual

/-- Tokens that are alike have the same derivations. -/
theorem Derivation.relocate {s ts us e} (d : Derivation extended s ts e) (h : Alike ts us) :
    ∃ d' : Derivation extended s us e, ∀ lift, d'.levels lift = d.levels lift := by
  match d with
  | .assign target hop d =>
      obtain ⟨ts', t', us, rfl, hts, ht, hus⟩ := alike_split h
      obtain ⟨target', hdepth⟩ := target.relocate hts
      obtain ⟨d', hd⟩ := d.relocate hus
      exact ⟨.assign target' (ht.kind_eq ▸ hop) d',
        fun _ => by simp [Derivation.levels, hdepth, hd]⟩
  | .chain l hop r =>
      obtain ⟨ts', t', us, rfl, hts, ht, hus⟩ := alike_split h
      obtain ⟨l', hl⟩ := l.relocate hts
      obtain ⟨r', hr⟩ := r.relocate hus
      exact ⟨.chain l' (ht.kind_eq ▸ hop) r', fun _ => by simp [Derivation.levels, hl, hr]⟩
  | .sum l hplus r =>
      obtain ⟨ts', t', us, rfl, hts, ht, hus⟩ := alike_split h
      obtain ⟨l', hl⟩ := l.relocate hts
      obtain ⟨r', hr⟩ := r.relocate hus
      exact ⟨.sum l' (ht.kind_eq ▸ hplus) r', fun _ => by simp [Derivation.levels, hl, hr]⟩
  | .unary hop d =>
      obtain _ | ⟨ht, h⟩ := h
      obtain ⟨d', hd⟩ := d.relocate h
      exact ⟨.unary (ht.kind_eq ▸ hop) d', fun _ => by simp [Derivation.levels, hd]⟩
  | .leaf hleaf =>
      obtain _ | ⟨ht, ⟨⟩⟩ := h
      exact ⟨.leaf (hleaf.relocate ht), fun _ => by simp [Derivation.levels]⟩
  | .bareCall ht hu hv =>
      obtain _ | ⟨ht', _ | ⟨hu', _ | ⟨hv', ⟨⟩⟩⟩⟩ := h
      obtain ⟨pos, rfl⟩ := ht'.eq_moved
      exact ⟨.bareCall ht (hu'.kind_eq ▸ hu) (hv'.kind_eq ▸ hv),
        fun _ => by simp [Derivation.levels]⟩
  | .call ht hu ds hv =>
      obtain _ | ⟨ht', _ | ⟨hu', h⟩⟩ := h
      obtain ⟨inside, v', _, rfl, hinside, hv', ⟨⟩⟩ := alike_split h
      obtain ⟨ds', hds⟩ := ds.relocate hinside
      obtain ⟨pos, rfl⟩ := ht'.eq_moved
      exact ⟨.call ht (hu'.kind_eq ▸ hu) ds' (hv'.kind_eq ▸ hv),
        fun _ => by simp [Derivation.levels, hds]⟩
  | .group ht d hu =>
      obtain _ | ⟨ht', h⟩ := h
      obtain ⟨inside, u', _, rfl, hinside, hu', ⟨⟩⟩ := alike_split h
      obtain ⟨d', hd⟩ := d.relocate hinside
      exact ⟨.group (ht'.kind_eq ▸ ht) d' (hu'.kind_eq ▸ hu),
        fun _ => by simp [Derivation.levels, hd]⟩
  | .bareFunc ht hps hu hv hw =>
      obtain _ | ⟨ht', h⟩ := h
      obtain ⟨ps', u', _, rfl, hps', hu', _ | ⟨hv', _ | ⟨hw', ⟨⟩⟩⟩⟩ := alike_split h
      exact ⟨.bareFunc (ht'.kind_eq ▸ ht) (hps.relocate hps') (hu'.kind_eq ▸ hu)
        (hv'.kind_eq ▸ hv) (hw'.kind_eq ▸ hw), fun _ => by simp [Derivation.levels]⟩
  | .func ht hps hu hv ds hw =>
      obtain _ | ⟨ht', h⟩ := h
      obtain ⟨ps', u', _, rfl, hps', hu', _ | ⟨hv', hbody⟩⟩ := alike_split h
      obtain ⟨inside, w', _, rfl, hinside, hw', ⟨⟩⟩ := alike_split hbody
      obtain ⟨ds', hds⟩ := ds.relocate hinside
      exact ⟨.func (ht'.kind_eq ▸ ht) (hps.relocate hps') (hu'.kind_eq ▸ hu)
        (hv'.kind_eq ▸ hv) ds' (hw'.kind_eq ▸ hw), fun _ => by simp [Derivation.levels, hds]⟩
  | .tighter hs d =>
      obtain ⟨d', hd⟩ := d.relocate h
      exact ⟨.tighter hs d', fun _ => by simp [Derivation.levels, hd]⟩

theorem Items.relocate {ts us es} (ds : Items extended ts es) (h : Alike ts us) :
    ∃ ds' : Items extended us es, ds'.levels = ds.levels := by
  match ds with
  | .one d =>
      obtain ⟨d', hd⟩ := d.relocate h
      exact ⟨.one d', by simp [Items.levels, hd]⟩
  | .more d hc ds =>
      obtain ⟨ts', c', us, rfl, hts, hc', hus⟩ := alike_split h
      obtain ⟨d', hd⟩ := d.relocate hts
      obtain ⟨ds', hds⟩ := ds.relocate hus
      exact ⟨.more d' (hc'.kind_eq ▸ hc) ds', by simp [Items.levels, hd, hds]⟩

end

end Grammar

theorem alike_of_lexemes {ts us : List Token} (h : us.map lexeme = ts.map lexeme) :
    Alike ts us := by
  induction ts generalizing us with
  | nil =>
      cases List.map_eq_nil_iff.mp h
      exact .nil
  | cons t ts ih =>
      obtain ⟨u, us, rfl, hu, hus⟩ := cons_of_lexemes h
      exact .cons ⟨(kind_of_lexeme hu).symm, (value_of_lexeme hu).symm⟩ (ih hus)

/-! ## Phrases of an expression -/

/-- Wherever lexemes end after it, the text is read as tokens that derive the tree in the stratum,
with this many levels of nesting. -/
def Phrase (extended : Bool) (s : Stratum) (w : List Char) (e : Expr) (levels : Nat) : Prop :=
  ∃ ls, (∀ rest, (∀ k, Ends k rest) → Reads extended w ls rest) ∧
    ∀ ts, ts.map lexeme = ls → Derives extended s ts e levels

/-- The same for expressions with commas between them. -/
def ItemsPhrase (extended : Bool) (w : List Char) (es : List Expr) (levels : Nat) : Prop :=
  ∃ ls, (∀ rest, (∀ k, Ends k rest) → Reads extended w ls rest) ∧
    ∀ ts, ts.map lexeme = ls → ∃ ds : Items extended ts es, ds.levels = levels

variable {settings : Settings} {source : String} {e : Expr}

/-- An accepted source is a phrase. -/
theorem phrase_of_parse (h : (parse settings source).result = .ok e) :
    ∃ levels, Phrase settings.extended .expression source.toList e levels := by
  obtain ⟨ts, htokenize, hread⟩ := tokens_of_parse h
  obtain ⟨ts', heq, hcut⟩ := cuts_of_tokenize htokenize
  obtain ⟨rfl, _⟩ := List.append_inj' heq rfl
  obtain ⟨d⟩ := derivation_of_ofTokens hread
  refine ⟨d.levels 0, ts.map lexeme, fun rest hrest => hcut.reads hrest, fun us hus => ?_⟩
  obtain ⟨d', hd⟩ := d.relocate (alike_of_lexemes hus)
  exact ⟨d', hd 0⟩

/-- A phrase alone has its tree, unless it is beyond the limits. -/
theorem parse_of_phrase {levels : Nat}
    (h : Phrase settings.extended .expression source.toList e levels) :
    (levels + 1 ≤ maxDepth ∧ e.height ≤ maxHeight → (parse settings source).result = .ok e) ∧
    (¬ (levels + 1 ≤ maxDepth ∧ e.height ≤ maxHeight) →
      TooDeep (parse settings source).result) := by
  obtain ⟨ls, hreads, hderives⟩ := h
  obtain ⟨ts, hscan, hts⟩ := (hreads [] ends_nil).scan_eq
  obtain ⟨d, hd⟩ := hderives ts hts
  have hsource : ofSource settings source = .ok (ts ++ [endMark ↑source.toList.length]) := hscan
  have hmark : (endMark ↑source.toList.length).kind = .eof := rfl
  obtain ⟨hfits, hdeep⟩ := treeify_within (some source) d hmark
  rw [Derivation.nesting, hd] at hfits hdeep
  rw [parse_result hsource]
  exact ⟨hfits, hdeep⟩

variable {extended : Bool} {w w' : List Char} {l r : Expr} {levels levels' : Nat}

theorem Phrase.loosen {s s' : Stratum} (h : Phrase extended s' w e levels)
    (hs : s.level ≤ s'.level) : Phrase extended s w e levels := by
  obtain ⟨ls, hreads, hderives⟩ := h
  exact ⟨ls, hreads, fun ts hts => (hderives ts hts).loosen hs⟩

theorem phrase_var {x : String} (hx : IsName x) : Phrase extended .operand x.toList (.var x) 0 := by
  refine ⟨[name x], reads_var hx, fun ts hts => ?_⟩
  obtain ⟨t, rfl, ht⟩ := singleton_of_lexemes hts
  obtain rfl := value_of_lexeme ht
  exact derives_leaf (.var (kind_of_lexeme ht))

/-- No operator goes on after an opening parenthesis, whatever comes next. -/
theorem reads_lparen {ls : List Lexeme} {rest : List Char} (h : Reads extended w ls rest) :
    Reads extended ('(' :: w) (lparen :: ls) rest := by
  have hone : Reads extended ['('] [lparen] (w ++ rest) := fun pos _ hus =>
    ⟨[⟨.lparen, String.ofList ['('], pos⟩], by simp [lexeme, lparen], .token rfl rfl rfl hus⟩
  exact hone.append h

theorem Phrase.group (h : Phrase extended .expression w e levels) :
    Phrase extended .operand ('(' :: (w ++ [')'])) e (levels + 1) := by
  obtain ⟨ls, hreads, hderives⟩ := h
  refine ⟨lparen :: (ls ++ [rparen]), fun rest hrest => ?_, fun ts hts => ?_⟩
  · exact reads_lparen ((hreads _ (ends_rparen rest)).append (reads_closing rparen_mem (hrest _)))
  · obtain ⟨t, us, rfl, ht, hus⟩ := cons_of_lexemes hts
    obtain ⟨inside, close, rfl, hinside, hclose⟩ := append_of_lexemes hus
    obtain ⟨u, rfl, hu⟩ := singleton_of_lexemes hclose
    exact (hderives inside hinside).group (kind_of_lexeme ht) (kind_of_lexeme hu)

theorem Phrase.unary (op : UnaryOp) (hends : ∀ rest, Ends op.kind (w ++ rest))
    (h : Phrase extended .operand w e levels) :
    Phrase extended .operand (op.symbol.toList ++ w) (.unary op e) (levels + 1) := by
  obtain ⟨ls, hreads, hderives⟩ := h
  refine ⟨(op.kind, op.symbol.toList) :: ls, fun rest hrest => ?_, fun ts hts => ?_⟩
  · exact reads_operator op.mem_operators (hends rest) (hreads rest hrest)
  · obtain ⟨t, us, rfl, ht, hus⟩ := cons_of_lexemes hts
    exact (hderives us hus).unary (kind_of_lexeme ht)

theorem Phrase.binary (op : BinaryOp) (hl : Phrase extended .operand w l levels)
    (hr : Phrase extended .operand w' r levels') :
    Phrase extended .expression (w ++ ' ' :: (op.symbol.toList ++ ' ' :: w')) (.binary op l r)
      (max levels (levels' + 1)) := by
  obtain ⟨ls, hreads, hderives⟩ := hl
  obtain ⟨ls', hreads', hderives'⟩ := hr
  refine ⟨ls ++ (op.kind, op.symbol.toList) :: ls', fun rest hrest => ?_, fun ts hts => ?_⟩
  · refine (hreads _ fun k => ends_closer rfl k _).append (reads_space ?_)
    exact reads_operator op.mem_operators (ends_closer rfl _ _) (reads_space (hreads' rest hrest))
  · obtain ⟨left, us, rfl, hleft, hus⟩ := append_of_lexemes hts
    obtain ⟨t, right, rfl, ht, hright⟩ := cons_of_lexemes hus
    exact (hderives left hleft).binary (kind_of_lexeme ht) (hderives' right hright)

theorem Phrase.assign {x : String} {v : Expr} {sign : List Char} {k : Kind} (hx : IsName x)
    (hsign : (sign, k) ∈ Kind.operators) (hop : AssignOp x e k v)
    (h : Phrase extended .expression w e levels) :
    Phrase extended .expression (x.toList ++ ' ' :: (sign ++ ' ' :: w)) (.assign x v)
      (levels + 1) := by
  obtain ⟨ls, hreads, hderives⟩ := h
  refine ⟨name x :: (k, sign) :: ls, fun rest hrest => ?_, fun ts hts => ?_⟩
  · refine reads_name hx (ends_closer rfl _ _) (reads_space ?_)
    exact reads_operator hsign (ends_closer rfl _ _) (reads_space (hreads rest hrest))
  · obtain ⟨t, us, rfl, ht, hus⟩ := cons_of_lexemes hts
    obtain ⟨u, vs, rfl, hu, hvs⟩ := cons_of_lexemes hus
    obtain ⟨d, hd⟩ := hderives vs hvs
    obtain rfl := value_of_lexeme ht
    obtain rfl := kind_of_lexeme hu
    exact ⟨.assign (.name (kind_of_lexeme ht)) hop d, by simp [Derivation.levels, Target.depth, hd]⟩

/-! ## Phrases of lists -/

theorem Phrase.one (h : Phrase extended .expression w e levels) :
    ItemsPhrase extended w [e] (levels + 1) := by
  obtain ⟨ls, hreads, hderives⟩ := h
  refine ⟨ls, hreads, fun ts hts => ?_⟩
  obtain ⟨d, hd⟩ := hderives ts hts
  exact ⟨.one d, by rw [Items.levels, hd]⟩

theorem Phrase.more {es : List Expr} (h : Phrase extended .expression w e levels)
    (hes : ItemsPhrase extended w' es levels') :
    ItemsPhrase extended (w ++ ',' :: ' ' :: w') (e :: es) (max (levels + 1) levels') := by
  obtain ⟨ls, hreads, hderives⟩ := h
  obtain ⟨ls', hreads', hderives'⟩ := hes
  refine ⟨ls ++ comma :: ls', fun rest hrest => ?_, fun ts hts => ?_⟩
  · refine (hreads _ fun k => ends_closer rfl k _).append ?_
    exact reads_operator comma_mem (ends_closer rfl _ _) (reads_space (hreads' rest hrest))
  · obtain ⟨first, us, rfl, hfirst, hus⟩ := append_of_lexemes hts
    obtain ⟨t, others, rfl, ht, hothers⟩ := cons_of_lexemes hus
    obtain ⟨d, hd⟩ := hderives first hfirst
    obtain ⟨ds, hds⟩ := hderives' others hothers
    exact ⟨.more d (kind_of_lexeme ht) ds, by rw [Items.levels, hd, hds]⟩

/-- Accepted sources with commas between them are a phrase. -/
theorem itemsPhrase_of_parse {sources : List String} {es : List Expr}
    (h : List.Forall₂ (fun source e => (parse settings source).result = .ok e) sources es)
    (hne : sources ≠ []) :
    ∃ levels, ItemsPhrase settings.extended (", ".intercalate sources).toList es levels := by
  induction h with
  | nil => exact absurd rfl hne
  | @cons source e sources es hsource hsources ih =>
      obtain ⟨levels, hphrase⟩ := phrase_of_parse hsource
      rw [toList_intercalate_cons]
      cases hsources with
      | nil =>
          rw [textAfter, List.flatMap_nil, List.append_nil]
          exact ⟨_, hphrase.one⟩
      | cons _ _ =>
          obtain ⟨levels', hothers⟩ := ih (List.cons_ne_nil _ _)
          rw [toList_intercalate_cons] at hothers
          exact ⟨_, hphrase.more hothers⟩

theorem ItemsPhrase.call {f : String} {es : List Expr} (hf : IsName f)
    (h : ItemsPhrase extended w es levels) :
    Phrase extended .operand (f.toList ++ '(' :: (w ++ [')'])) (.call f es) levels := by
  obtain ⟨ls, hreads, hderives⟩ := h
  refine ⟨name f :: lparen :: (ls ++ [rparen]), fun rest hrest => ?_, fun ts hts => ?_⟩
  · refine reads_name hf (ends_closer rfl _ _) (reads_lparen ?_)
    exact (hreads _ (ends_rparen rest)).append (reads_closing rparen_mem (hrest _))
  · obtain ⟨t, us, rfl, ht, hus⟩ := cons_of_lexemes hts
    obtain ⟨u, vs, rfl, hu, hvs⟩ := cons_of_lexemes hus
    obtain ⟨inside, close, rfl, hinside, hclose⟩ := append_of_lexemes hvs
    obtain ⟨v, rfl, hv⟩ := singleton_of_lexemes hclose
    obtain ⟨ds, hds⟩ := hderives inside hinside
    obtain rfl := value_of_lexeme ht
    exact ⟨.call (kind_of_lexeme ht) (kind_of_lexeme hu) ds (kind_of_lexeme hv),
      by rw [Derivation.levels, hds, Nat.add_zero]⟩

theorem names_of_lexemes {xs : List String} {x : String} {ts : List Token}
    (h : ts.map lexeme = names (x :: xs)) : Names ts (x :: xs) := by
  induction xs generalizing x ts with
  | nil =>
      obtain ⟨t, rfl, ht⟩ := singleton_of_lexemes h
      obtain rfl := value_of_lexeme ht
      exact .one (kind_of_lexeme ht)
  | cons y xs ih =>
      obtain ⟨t, us, rfl, ht, hus⟩ := cons_of_lexemes h
      obtain ⟨u, vs, rfl, hu, hvs⟩ := cons_of_lexemes hus
      obtain rfl := value_of_lexeme ht
      exact .more (kind_of_lexeme ht) (kind_of_lexeme hu) (ih hvs)

theorem params_of_lexemes {xs : List String} {ts : List Token}
    (h : ts.map lexeme = names xs) : Params ts xs := by
  cases xs with
  | nil =>
      cases List.map_eq_nil_iff.mp h
      exact .none
  | cons x xs => exact .some (names_of_lexemes h)

theorem ItemsPhrase.func {xs : List String} {es : List Expr} (hxs : ∀ x ∈ xs, IsName x)
    (h : ItemsPhrase extended w es levels) :
    Phrase extended .operand
      ('(' :: ((", ".intercalate xs).toList ++
        ')' :: ' ' :: '\x7b' :: ' ' :: (w ++ [' ', '\x7d'])))
      (.func xs es) levels := by
  obtain ⟨ls, hreads, hderives⟩ := h
  refine ⟨lparen :: (names xs ++ rparen :: lbrace :: (ls ++ [rbrace])), fun rest hrest => ?_,
    fun ts hts => ?_⟩
  · have hclose : Reads extended [' ', '\x7d'] [rbrace] rest :=
      reads_space (reads_closing rbrace_mem (hrest .rbrace))
    have hbody := (hreads _ fun k => ends_closer rfl k _).append hclose
    have hbrace := reads_operator lbrace_mem (ends_closer rfl _ _) (reads_space hbody)
    have hparen := reads_operator rparen_mem (ends_closer rfl _ _) (reads_space hbrace)
    exact reads_lparen ((reads_names hxs fun k => ends_closer rfl k _).append hparen)
  · obtain ⟨t, us, rfl, ht, hus⟩ := cons_of_lexemes hts
    obtain ⟨ps, vs, rfl, hps, hvs⟩ := append_of_lexemes hus
    obtain ⟨u, vs, rfl, hu, hvs⟩ := cons_of_lexemes hvs
    obtain ⟨v, ws, rfl, hv, hws⟩ := cons_of_lexemes hvs
    obtain ⟨inside, close, rfl, hinside, hclose⟩ := append_of_lexemes hws
    obtain ⟨x, rfl, hx⟩ := singleton_of_lexemes hclose
    obtain ⟨ds, hds⟩ := hderives inside hinside
    exact ⟨.func (kind_of_lexeme ht) (params_of_lexemes hps) (kind_of_lexeme hu)
      (kind_of_lexeme hv) ds (kind_of_lexeme hx), by rw [Derivation.levels, hds, Nat.add_zero]⟩

end DebugExpr
