import DebugExpr.Proofs.Watch

/-!
# Reading a canonical text again

The canonical text of a tree without arguments and function literals has that tree, and takes a
number of levels of nesting that depends on the tree alone.
-/

namespace DebugExpr

open Grammar Token

namespace Expr

/-- The levels of nesting that the canonical text takes below the expression that it is. -/
def need : Expr → Nat
  | .number .. | .string .. | .var .. | .bareCall .. | .call .. | .func .. => 0
  | .unary _ e => 2 + e.need
  | .binary _ l r => max (1 + l.need) (2 + r.need)
  | .assign _ e => 2 + e.need

variable {extended : Bool}

/-! ## Tokens of a canonical text -/

theorem kind_of_lexeme {t : Token} {k : Kind} {v : List Char} (h : lexeme t = (k, v)) :
    t.kind = k :=
  congrArg Prod.fst h

theorem value_of_lexeme {t : Token} {k : Kind} {s : String} (h : lexeme t = (k, s.toList)) :
    t.value = s :=
  String.toList_inj.mp (congrArg Prod.snd h)

theorem cons_of_lexemes {ts : List Token} {l : Lexeme} {ls : List Lexeme}
    (h : ts.map lexeme = l :: ls) : ∃ t us, ts = t :: us ∧ lexeme t = l ∧ us.map lexeme = ls :=
  List.map_eq_cons_iff.mp h

theorem append_of_lexemes {ts : List Token} {ls ls' : List Lexeme}
    (h : ts.map lexeme = ls ++ ls') :
    ∃ us vs, ts = us ++ vs ∧ us.map lexeme = ls ∧ vs.map lexeme = ls' :=
  List.map_eq_append_iff.mp h

theorem singleton_of_lexemes {ts : List Token} {l : Lexeme} (h : ts.map lexeme = [l]) :
    ∃ t, ts = [t] ∧ lexeme t = l :=
  List.map_eq_singleton_iff.mp h

/-! ## The derivation of a canonical text -/

/-- The tokens derive the tree, and need this many levels for it. -/
def Derives (extended : Bool) (s : Stratum) (ts : List Token) (e : Expr) (levels : Nat) : Prop :=
  ∃ d : Derivation extended s ts e, d.levels 0 = levels

theorem Derives.loosen {s s' : Stratum} {ts : List Token} {e : Expr} {levels : Nat}
    (h : Derives extended s' ts e levels) (hs : s.level ≤ s'.level) :
    Derives extended s ts e levels := by
  obtain ⟨d, hd⟩ := h
  exact ⟨d.loosen hs, by rw [Derivation.levels_loosen, hd]⟩

theorem Derives.group {ts : List Token} {e : Expr} {levels : Nat} {t u : Token}
    (ht : t.kind = .lparen) (h : Derives extended .expression ts e levels) (hu : u.kind = .rparen) :
    Derives extended .operand (t :: (ts ++ [u])) e (levels + 1) := by
  obtain ⟨d, hd⟩ := h
  exact ⟨.group ht d hu, by simp [Derivation.levels, hd]⟩

theorem Derives.unary {op : UnaryOp} {ts : List Token} {e : Expr} {levels : Nat} {t : Token}
    (ht : t.kind = op.kind) (h : Derives extended .operand ts e levels) :
    Derives extended .operand (t :: ts) (.unary op e) (levels + 1) := by
  obtain ⟨d, hd⟩ := h
  have hop : PrefixOp t.kind op := by
    rw [ht]
    cases op <;> constructor
  exact ⟨.unary hop d, by simp [Derivation.levels, hd]⟩

theorem Derives.binary {op : BinaryOp} {ts us : List Token} {l r : Expr} {levels levels' : Nat}
    {t : Token} (hl : Derives extended .operand ts l levels) (ht : t.kind = op.kind)
    (hr : Derives extended .operand us r levels') :
    Derives extended .expression (ts ++ t :: us) (.binary op l r) (max levels (levels' + 1)) := by
  by_cases hop : op = .add
  · subst hop
    obtain ⟨d, hd⟩ := hl.loosen (s := .difference) (Stratum.level_le_operand _)
    obtain ⟨d', hd'⟩ := hr
    have hsum : Derives extended .sum (ts ++ t :: us) (.binary .add l r)
        (max levels (levels' + 1)) :=
      ⟨.sum d ht (.tighter (by decide) d'), by simp [Derivation.levels, hd, hd']⟩
    exact hsum.loosen (Stratum.expression_level_le _)
  · have hleft : LeftOp (leftStratum op) t.kind op :=
      leftOp_of_binaryOp? (by rw [ht]; cases op <;> rfl) hop
    obtain ⟨d, hd⟩ := hl.loosen (s := leftStratum op) (Stratum.level_le_operand _)
    obtain ⟨d', hd'⟩ := hr.loosen (s := (leftStratum op).next) (Stratum.level_le_operand _)
    have hchain : Derives extended (leftStratum op) (ts ++ t :: us) (.binary op l r)
        (max levels (levels' + 1)) :=
      ⟨.chain d hleft d', by simp [Derivation.levels, hd, hd']⟩
    exact hchain.loosen (Stratum.expression_level_le _)

theorem Derives.assign {ts : List Token} {e : Expr} {levels : Nat} {t u : Token}
    (ht : t.kind = .ident) (hu : u.kind = .assign)
    (h : Derives extended .expression ts e levels) :
    Derives extended .expression (t :: u :: ts) (.assign t.value e) (levels + 1) := by
  obtain ⟨d, hd⟩ := h
  have hop : AssignOp t.value e u.kind e := by
    rw [hu]
    exact .plain
  exact ⟨.assign (.name ht) hop d, by simp [Derivation.levels, Target.depth, hd]⟩

theorem derives_leaf {t : Token} {e : Expr} (h : Leaf extended t e) :
    Derives extended .operand [t] e 0 :=
  ⟨.leaf h, rfl⟩

theorem derives_number {r : Radix} {s : String} {t : Token}
    (h : Valid extended r.kind s.toList) (ht : lexeme t = (r.kind, s.toList)) :
    Derives extended .operand [t] (.number r s) 0 := by
  obtain rfl := value_of_lexeme ht
  have hkind := kind_of_lexeme ht
  cases r with
  | dec => exact derives_leaf (.number hkind)
  | hex => exact derives_leaf (.hex hkind)
  | bin =>
      have hext : extended = true := by
        generalize t.value.toList = v at h
        cases h with
        | bin hext _ => exact hext
        | operator hop => simp [Kind.operators, Radix.kind] at hop
      exact derives_leaf (.bin hext hkind)

/-- The canonical text of a plain tree derives the tree. -/
theorem derives_lexemes {e : Expr} {ts : List Token} (hplain : e.Plain)
    (hwell : e.WellFormed extended) (hts : ts.map lexeme = e.lexemes) :
    Derives extended .operand ts e e.need := by
  match e with
  | .number r s =>
      obtain ⟨t, rfl, ht⟩ := singleton_of_lexemes hts
      exact derives_number (hwell _ List.mem_cons_self) ht
  | .string s =>
      obtain ⟨t, rfl, ht⟩ := singleton_of_lexemes hts
      obtain rfl := value_of_lexeme ht
      exact derives_leaf (.string (kind_of_lexeme ht))
  | .var x =>
      obtain ⟨t, rfl, ht⟩ := singleton_of_lexemes hts
      obtain rfl := value_of_lexeme ht
      exact derives_leaf (.var (kind_of_lexeme ht))
  | .bareCall f =>
      obtain ⟨t, us, rfl, ht, hus⟩ := cons_of_lexemes hts
      obtain ⟨u, vs, rfl, hu, hvs⟩ := cons_of_lexemes hus
      obtain ⟨v, rfl, hv⟩ := singleton_of_lexemes hvs
      obtain rfl := value_of_lexeme ht
      exact ⟨.bareCall (kind_of_lexeme ht) (kind_of_lexeme hu) (kind_of_lexeme hv), rfl⟩
  | .unary op e =>
      obtain ⟨t, us, rfl, ht, hus⟩ := cons_of_lexemes hts
      obtain ⟨u, vs, rfl, hu, hvs⟩ := cons_of_lexemes hus
      obtain ⟨inside, close, rfl, hinside, hclose⟩ := append_of_lexemes hvs
      obtain ⟨v, rfl, hv⟩ := singleton_of_lexemes hclose
      have he := derives_lexemes (e := e) hplain (wellFormed_unary.mp hwell) hinside
      have hunary := (he.unary (kind_of_lexeme hu)).loosen (Stratum.expression_level_le _)
      rw [need, Nat.add_comm]
      exact hunary.group (kind_of_lexeme ht) (kind_of_lexeme hv)
  | .binary op l r =>
      obtain ⟨hwl, hwr⟩ := wellFormed_binary.mp hwell
      obtain ⟨t, us, rfl, ht, hus⟩ := cons_of_lexemes hts
      obtain ⟨left, vs, rfl, hleft, hvs⟩ := append_of_lexemes hus
      obtain ⟨u, ws, rfl, hu, hws⟩ := cons_of_lexemes hvs
      obtain ⟨right, close, rfl, hright, hclose⟩ := append_of_lexemes hws
      obtain ⟨v, rfl, hv⟩ := singleton_of_lexemes hclose
      have hl := derives_lexemes hplain.1 hwl hleft
      have hr := derives_lexemes hplain.2 hwr hright
      have hgroup := (hl.binary (kind_of_lexeme hu) hr).group (kind_of_lexeme ht)
        (kind_of_lexeme hv)
      have hneed : (Expr.binary op l r).need = max l.need (r.need + 1) + 1 := by
        simp only [need]
        omega
      have happ : t :: (left ++ u :: (right ++ [v])) = t :: (left ++ u :: right ++ [v]) := by simp
      rw [hneed, happ]
      exact hgroup
  | .assign x e =>
      obtain ⟨_, hwe⟩ := wellFormed_assign.mp hwell
      obtain ⟨t, us, rfl, ht, hus⟩ := cons_of_lexemes hts
      obtain ⟨u, vs, rfl, hu, hvs⟩ := cons_of_lexemes hus
      obtain ⟨v, ws, rfl, hv, hws⟩ := cons_of_lexemes hvs
      obtain ⟨inside, close, rfl, hinside, hclose⟩ := append_of_lexemes hws
      obtain ⟨w, rfl, hw⟩ := singleton_of_lexemes hclose
      have he := (derives_lexemes (e := e) hplain hwe hinside).loosen (Stratum.expression_level_le _)
      have hassign := he.assign (kind_of_lexeme hu) (kind_of_lexeme hv)
      rw [value_of_lexeme hu] at hassign
      rw [need, Nat.add_comm]
      exact hassign.group (kind_of_lexeme ht) (kind_of_lexeme hw)

end Expr

/-! ## Sources -/

/-- The canonical text of an accepted source has the same tree, if the levels of nesting that it
needs are allowed and there are no arguments and function literals in it. Otherwise it is
rejected. -/
theorem parse_render {settings : Settings} {source : String} {e : Expr}
    (h : (parse settings source).result = .ok e) :
    (e.Plain →
      (e.need ≤ 99 → (parse settings e.render).result = .ok e) ∧
      (99 < e.need → TooDeep (parse settings e.render).result)) ∧
    (¬ e.Plain → Rejected (parse settings e.render).result) := by
  obtain ⟨hwell, hheight⟩ := wellFormed_of_parse h
  obtain ⟨ts, mark, hsource, hmark, hts⟩ := Expr.ofSource_render hwell
  rw [parse_of_ofSource hsource]
  constructor
  · intro hplain
    obtain ⟨d, hd⟩ := (Expr.derives_lexemes hplain hwell hts).loosen (Stratum.expression_level_le _)
    have hnesting : d.nesting = e.need + 1 := by rw [Derivation.nesting, hd]
    obtain ⟨hfits, hdeep⟩ := treeify_within (some e.render) d hmark
    rw [hnesting, maxDepth] at hfits hdeep
    constructor
    · intro hneed
      exact lint_result_of_ok (hfits ⟨by omega, hheight⟩) hwell
    · intro hneed
      obtain ⟨diagnostic, hresult, hreason⟩ := hdeep (by omega)
      exact ⟨diagnostic, lint_result_of_error hresult, hreason⟩
  · intro hplain
    obtain ⟨us, mark', heq, hmark', hus⟩ := ofSource_eq_ok hsource
    obtain ⟨rfl, _⟩ := List.append_inj' heq rfl
    have hnone : ¬ ∃ e', Nonempty (Derivation settings.extended .expression ts e') := by
      rintro ⟨e', hd⟩
      exact Expr.no_derivation_of_not_plain hplain hts hd
    obtain ⟨diagnostic, hresult, hsubject⟩ :=
      treeify_rejected (some e.render) (noMark_of_validTokens hus) hmark hnone
    exact ⟨diagnostic, lint_result_of_error hresult, hsubject⟩

/-- The canonical text of a difference is read again, that of a call with arguments is not. -/
theorem parse_render_difference :
    (parse {} "a - -b").result = .ok (.binary .sub (.var "a") (.unary .neg (.var "b"))) ∧
    (parse {} (Expr.binary .sub (.var "a") (.unary .neg (.var "b"))).render).result =
      .ok (.binary .sub (.var "a") (.unary .neg (.var "b"))) ∧
    (parse {} "f(x)").result = .ok (.call "f" [.var "x"]) ∧
    Rejected (parse {} (Expr.call "f" [.var "x"]).render).result := by
  have h : (parse {} "a - -b").result = .ok (.binary .sub (.var "a") (.unary .neg (.var "b"))) :=
    rfl
  have h' : (parse {} "f(x)").result = .ok (.call "f" [.var "x"]) := rfl
  have hplain : (Expr.binary .sub (.var "a") (.unary .neg (.var "b"))).Plain :=
    ⟨trivial, trivial⟩
  exact ⟨h, ((parse_render h).1 hplain).1 (by decide), h', (parse_render h').2 id⟩

end DebugExpr
