import DebugExpr.Proofs.Acceptance
import DebugExpr.Proofs.Scanning
import DebugExpr.Proofs.Warnings

/-!
# Well-formed trees

A derivation from valid tokens has a tree whose texts are valid, and the check of literals, which
reads them as integers, cannot fail on such a tree.
-/

namespace DebugExpr

open Grammar

def Radix.kind : Radix → Token.Kind
  | dec => .number
  | hex => .hex
  | bin => .bin

/-- The text can be an identifier. -/
def IsName (s : String) : Prop :=
  Token.Valid false .ident s.toList

namespace Expr

/-- The texts of the node itself are valid, and its list of arguments is not empty. -/
def NodeOk (extended : Bool) : Expr → Prop
  | .number r s => Token.Valid extended r.kind s.toList
  | .string s => Token.Valid extended .string s.toList
  | .var x | .bareCall x | .assign x _ => IsName x
  | .call f es => IsName f ∧ es ≠ []
  | .func xs _ => ∀ x ∈ xs, IsName x
  | .unary .. | .binary .. => True

/-- All nodes of the tree are valid. -/
def WellFormed (extended : Bool) (e : Expr) : Prop :=
  ∀ n ∈ e.walk, n.NodeOk extended

variable {extended : Bool}

theorem wellFormed_unary {op : UnaryOp} {e : Expr} :
    WellFormed extended (.unary op e) ↔ WellFormed extended e := by
  simp [WellFormed, walk, NodeOk]

theorem wellFormed_binary {op : BinaryOp} {l r : Expr} :
    WellFormed extended (.binary op l r) ↔ WellFormed extended l ∧ WellFormed extended r := by
  simp [WellFormed, walk, NodeOk, or_imp, forall_and]

theorem wellFormed_assign {x : String} {e : Expr} :
    WellFormed extended (.assign x e) ↔ IsName x ∧ WellFormed extended e := by
  simp [WellFormed, walk, NodeOk]

theorem wellFormed_walkList {es : List Expr} :
    (∀ n ∈ walkList es, n.NodeOk extended) ↔ ∀ e ∈ es, WellFormed extended e := by
  simp only [walkList_eq_flatMap, List.mem_flatMap, WellFormed]
  constructor
  · intro h e he n hn
    exact h n ⟨e, he, hn⟩
  · rintro h n ⟨e, he, hn⟩
    exact h e he n hn

theorem wellFormed_call {f : String} {es : List Expr} :
    WellFormed extended (.call f es) ↔
      (IsName f ∧ es ≠ []) ∧ ∀ e ∈ es, WellFormed extended e := by
  rw [← wellFormed_walkList]
  simp only [WellFormed, walk, List.forall_mem_cons, NodeOk]

theorem wellFormed_func {xs : List String} {es : List Expr} :
    WellFormed extended (.func xs es) ↔
      (∀ x ∈ xs, IsName x) ∧ ∀ e ∈ es, WellFormed extended e := by
  rw [← wellFormed_walkList]
  simp only [WellFormed, walk, List.forall_mem_cons, NodeOk]

end Expr

/-! ## Derived trees -/

/-- The tokens are such as the scanner reads. -/
def ValidTokens (extended : Bool) (ts : List Token) : Prop :=
  ∀ t ∈ ts, Token.Valid extended t.kind t.value.toList

variable {extended : Bool}

theorem validTokens_cons {t : Token} {ts : List Token} :
    ValidTokens extended (t :: ts) ↔
      Token.Valid extended t.kind t.value.toList ∧ ValidTokens extended ts :=
  List.forall_mem_cons

theorem validTokens_append {ts us : List Token} :
    ValidTokens extended (ts ++ us) ↔ ValidTokens extended ts ∧ ValidTokens extended us :=
  List.forall_mem_append

theorem isName_of_valid {t : Token} (ht : t.kind = .ident)
    (h : Token.Valid extended t.kind t.value.toList) : IsName t.value := by
  rw [ht] at h
  unfold IsName
  generalize t.value.toList = v at h
  cases h with
  | ident hc hv => exact .ident hc hv
  | operator hop => simp [Token.Kind.operators] at hop

theorem Grammar.Target.isName {ts : List Token} {x : String} (target : Target ts x)
    (h : ValidTokens extended ts) : IsName x := by
  match target with
  | .name ht => exact isName_of_valid ht (validTokens_cons.mp h).1
  | .group _ target _ =>
      exact target.isName (validTokens_append.mp (validTokens_cons.mp h).2).1

theorem Grammar.Names.isName {ts : List Token} {xs : List String} (h : Names ts xs)
    (hts : ValidTokens extended ts) : ∀ x ∈ xs, IsName x := by
  induction h with
  | one ht => simpa using isName_of_valid ht (validTokens_cons.mp hts).1
  | more ht _ _ ih =>
      obtain ⟨h, hts⟩ := validTokens_cons.mp hts
      exact List.forall_mem_cons.mpr ⟨isName_of_valid ht h, ih (validTokens_cons.mp hts).2⟩

theorem Grammar.Params.isName {ts : List Token} {xs : List String} (h : Params ts xs)
    (hts : ValidTokens extended ts) : ∀ x ∈ xs, IsName x := by
  cases h with
  | none => exact fun x hx => absurd hx List.not_mem_nil
  | some h => exact h.isName hts

theorem Grammar.Leaf.wellFormed {t : Token} {e : Expr} (h : Leaf extended t e)
    (ht : Token.Valid extended t.kind t.value.toList) : e.WellFormed extended := by
  intro n hn
  cases h with
  | var h =>
      cases List.mem_singleton.mp hn
      exact isName_of_valid h ht
  | number h | hex h | bin _ h | string h =>
      cases List.mem_singleton.mp hn
      rw [h] at ht
      exact ht

theorem Grammar.AssignOp.wellFormed {x : String} {v e : Expr} {k : Token.Kind}
    (h : AssignOp x v k e) (hx : IsName x) (hv : v.WellFormed extended) :
    e.WellFormed extended := by
  have hvar : (Expr.var x).WellFormed extended := fun n hn => by
    cases List.mem_singleton.mp hn
    exact hx
  cases h with
  | plain => exact hv
  | _ => exact Expr.wellFormed_binary.mpr ⟨hvar, hv⟩

theorem Grammar.Items.ne_nil {ts : List Token} {es : List Expr} (ds : Items extended ts es) :
    es ≠ [] := by
  cases ds <;> exact List.cons_ne_nil _ _

mutual

theorem Grammar.Derivation.wellFormed {s : Stratum} {ts : List Token} {e : Expr}
    (d : Derivation extended s ts e) (h : ValidTokens extended ts) : e.WellFormed extended := by
  match d with
  | .assign target hop d =>
      obtain ⟨hts, hus⟩ := validTokens_append.mp h
      have hx := target.isName hts
      exact Expr.wellFormed_assign.mpr
        ⟨hx, hop.wellFormed hx (d.wellFormed (validTokens_cons.mp hus).2)⟩
  | .chain d _ d' | .sum d _ d' =>
      obtain ⟨hts, hus⟩ := validTokens_append.mp h
      exact Expr.wellFormed_binary.mpr
        ⟨d.wellFormed hts, d'.wellFormed (validTokens_cons.mp hus).2⟩
  | .unary _ d => exact Expr.wellFormed_unary.mpr (d.wellFormed (validTokens_cons.mp h).2)
  | .leaf hleaf => exact hleaf.wellFormed (validTokens_cons.mp h).1
  | .bareCall ht _ _ =>
      intro n hn
      cases List.mem_singleton.mp hn
      exact isName_of_valid ht (validTokens_cons.mp h).1
  | .call ht _ ds _ =>
      obtain ⟨hname, h⟩ := validTokens_cons.mp h
      obtain ⟨hts, _⟩ := validTokens_append.mp (validTokens_cons.mp h).2
      exact Expr.wellFormed_call.mpr
        ⟨⟨isName_of_valid ht hname, ds.ne_nil⟩, ds.wellFormed hts⟩
  | .group _ d _ =>
      exact d.wellFormed (validTokens_append.mp (validTokens_cons.mp h).2).1
  | .bareFunc _ hps _ _ _ =>
      obtain ⟨hnames, _⟩ := validTokens_append.mp (validTokens_cons.mp h).2
      exact Expr.wellFormed_func.mpr ⟨hps.isName hnames, fun e he => absurd he List.not_mem_nil⟩
  | .func _ hps _ _ ds _ =>
      obtain ⟨hnames, h⟩ := validTokens_append.mp (validTokens_cons.mp h).2
      obtain ⟨hts, _⟩ := validTokens_append.mp (validTokens_cons.mp (validTokens_cons.mp h).2).2
      exact Expr.wellFormed_func.mpr ⟨hps.isName hnames, ds.wellFormed hts⟩
  | .tighter _ d => exact d.wellFormed h

theorem Grammar.Items.wellFormed {ts : List Token} {es : List Expr} (ds : Items extended ts es)
    (h : ValidTokens extended ts) : ∀ e ∈ es, e.WellFormed extended := by
  match ds with
  | .one d =>
      intro e he
      cases List.mem_singleton.mp he
      exact d.wellFormed h
  | .more d _ ds =>
      obtain ⟨hts, hus⟩ := validTokens_append.mp h
      exact List.forall_mem_cons.mpr
        ⟨d.wellFormed hts, ds.wellFormed (validTokens_cons.mp hus).2⟩

end

/-! ## The check of literals -/

theorem digits_of_valid {v : List Char} (h : Token.Valid extended .number v) :
    v ≠ [] ∧ ∀ c ∈ v, Text.isDecimal c = true := by
  cases h with
  | number hne hv => exact ⟨hne, hv⟩
  | operator hop => simp [Token.Kind.operators] at hop

theorem isDigits_of_valid {s : String} (h : Token.Valid extended .number s.toList) :
    IsDigits s := by
  obtain ⟨hne, hdigits⟩ := digits_of_valid h
  exact ⟨by simpa using hne, hdigits⟩

theorem warnings_of_wellFormed {e : Expr} (h : e.WellFormed extended) :
    ∃ messages, e.warnings = .ok messages :=
  ⟨_, e.warnings_eq fun _ htext => isDigits_of_valid (h _ htext)⟩

theorem lint_of_wellFormed (settings : Settings) {e : Expr} (h : e.WellFormed extended) :
    (lint settings e).result = .ok e := by
  obtain ⟨messages, hmessages⟩ := warnings_of_wellFormed h
  unfold lint
  split
  · rw [hmessages]
  · rfl

theorem lint_result_of_ok {settings : Settings} {x : Logged Fault Expr} {e : Expr}
    (h : x.result = .ok e) (hwell : e.WellFormed settings.extended) :
    (x.andThen (lint settings)).result = .ok e := by
  simp only [Logged.andThen, h]
  exact lint_of_wellFormed settings hwell

theorem lint_result_of_error {settings : Settings} {x : Logged Fault Expr} {f : Fault}
    (h : x.result = .error f) : (x.andThen (lint settings)).result = .error f := by
  simp only [Logged.andThen, h]

/-! ## Sources -/

theorem ofSource_eq_ok {settings : Settings} {source : String} {tokens : List Token}
    (h : Token.ofSource settings source = .ok tokens) :
    ∃ ts mark, tokens = ts ++ [mark] ∧ mark.kind = .eof ∧ ValidTokens settings.extended ts := by
  obtain ⟨ts, rfl, hcut⟩ := Token.scan_eq_ok_iff.mp h
  exact ⟨ts, _, rfl, rfl, hcut.valid⟩

theorem parse_of_ofSource {settings : Settings} {source : String} {tokens : List Token}
    (h : Token.ofSource settings source = .ok tokens) :
    (parse settings source).result =
      ((treeify settings (some source) tokens).andThen (lint settings)).result := by
  simp only [parse, tokenize, h, Logged.andThen]

theorem andThen_lint {settings : Settings} {x : Logged Fault Expr} {e : Expr}
    (h : (x.andThen (lint settings)).result = .ok e) : x.result = .ok e := by
  cases hx : x.result with
  | error f => simp [Logged.andThen, hx] at h
  | ok e' =>
      simp only [Logged.andThen, hx] at h
      unfold lint at h
      split at h
      · split at h
        · exact h
        · cases h
      · exact h

theorem parse_eq_ok {settings : Settings} {source : String} {e : Expr}
    (h : (parse settings source).result = .ok e) :
    ∃ ts mark, mark.kind = .eof ∧ ValidTokens settings.extended ts ∧
      (treeify settings (some source) (ts ++ [mark])).result = .ok e := by
  cases hsource : Token.ofSource settings source with
  | error u => simp [parse, tokenize, hsource, Logged.andThen] at h
  | ok tokens =>
      obtain ⟨ts, mark, rfl, hmark, hts⟩ := ofSource_eq_ok hsource
      rw [parse_of_ofSource hsource] at h
      exact ⟨ts, mark, hmark, hts, andThen_lint h⟩

theorem noMark_of_validTokens {ts : List Token} (h : ValidTokens extended ts) :
    ∀ t ∈ ts, t.kind ≠ .eof :=
  fun t ht => (h t ht).ne_eof

/-- The tree of valid tokens is well-formed and within the limit on height. -/
theorem wellFormed_of_treeify {settings : Settings} {source : Option String} {ts : List Token}
    {mark : Token} {e : Expr} (hts : ValidTokens settings.extended ts) (hmark : mark.kind = .eof)
    (h : (treeify settings source (ts ++ [mark])).result = .ok e) :
    e.WellFormed settings.extended ∧ e.height ≤ maxHeight := by
  obtain ⟨d⟩ := derivation_of_ofTokens ((treeify_ok (noMark_of_validTokens hts) hmark).mp h)
  refine ⟨d.wellFormed hts, ?_⟩
  by_cases hfits : d.nesting ≤ maxDepth ∧ e.height ≤ maxHeight
  · exact hfits.2
  · obtain ⟨diagnostic, hdeep, _⟩ := (treeify_within source d hmark).2 hfits
    rw [h] at hdeep
    cases hdeep

theorem wellFormed_of_parse {settings : Settings} {source : String} {e : Expr}
    (h : (parse settings source).result = .ok e) :
    e.WellFormed settings.extended ∧ e.height ≤ maxHeight := by
  obtain ⟨ts, mark, hmark, hts, htree⟩ := parse_eq_ok h
  exact wellFormed_of_treeify hts hmark htree

/-- The check of literals changes no outcome. -/
theorem parse_result {settings : Settings} {source : String} {tokens : List Token}
    (h : Token.ofSource settings source = .ok tokens) :
    (parse settings source).result = (treeify settings (some source) tokens).result := by
  obtain ⟨ts, mark, rfl, hmark, hts⟩ := ofSource_eq_ok h
  rw [parse_of_ofSource h]
  cases htree : (treeify settings (some source) (ts ++ [mark])).result with
  | error f => exact lint_result_of_error htree
  | ok e => exact lint_result_of_ok htree (wellFormed_of_treeify hts hmark htree).1

/-! ## What the nodes hold -/

/-- A letter or underscore, with letters, digits and underscores after it. -/
def IsIdentifier (s : String) : Prop :=
  ∃ c cs, s.toList = c :: cs ∧ Token.isIdentStart c = true ∧ ∀ d ∈ cs, Token.isIdentRest d = true

/-- The texts of the node are digits of its radix, characters other than quotes, or identifiers. A
binary literal occurs in extended mode only, and a list of arguments has at least one item. -/
def Expr.Lexical (extended : Bool) : Expr → Prop
  | .number .dec s => s ≠ "" ∧ ∀ c ∈ s.toList, Text.isDecimal c = true
  | .number .hex s => ∀ c ∈ s.toList, Text.isHexadecimal c = true
  | .number .bin s => extended = true ∧ ∀ c ∈ s.toList, Text.isBinary c = true
  | .string s => '"' ∉ s.toList
  | .var x | .bareCall x | .assign x _ => IsIdentifier x
  | .call f es => IsIdentifier f ∧ es ≠ []
  | .func xs _ => ∀ x ∈ xs, IsIdentifier x
  | .unary .. | .binary .. => True

theorem isName_iff {s : String} : IsName s ↔ IsIdentifier s := by
  unfold IsName
  constructor
  · intro h
    generalize hs : s.toList = v at h
    cases h with
    | ident hc hv => exact ⟨_, _, hs, hc, hv⟩
    | operator hop => simp [Token.Kind.operators] at hop
  · rintro ⟨c, cs, hs, hc, hcs⟩
    rw [hs]
    exact .ident hc hcs

theorem valid_hex_iff {v : List Char} :
    Token.Valid extended .hex v ↔ ∀ c ∈ v, Text.isHexadecimal c = true := by
  refine ⟨fun h => ?_, .hex⟩
  cases h with
  | hex hv => exact hv
  | operator hop => simp [Token.Kind.operators] at hop

theorem valid_bin_iff {v : List Char} :
    Token.Valid extended .bin v ↔ extended = true ∧ ∀ c ∈ v, Text.isBinary c = true := by
  refine ⟨fun h => ?_, fun h => .bin h.1 h.2⟩
  cases h with
  | bin hext hv => exact ⟨hext, hv⟩
  | operator hop => simp [Token.Kind.operators] at hop

theorem valid_string_iff {v : List Char} : Token.Valid extended .string v ↔ '"' ∉ v := by
  refine ⟨fun h => ?_, .string⟩
  cases h with
  | string hv => exact hv
  | operator hop => simp [Token.Kind.operators] at hop

theorem valid_number_iff {s : String} :
    Token.Valid extended .number s.toList ↔ s ≠ "" ∧ ∀ c ∈ s.toList, Text.isDecimal c = true := by
  have hempty : s.toList ≠ [] ↔ s ≠ "" := by simp
  rw [← hempty]
  exact ⟨digits_of_valid, fun h => .number h.1 h.2⟩

/-- A node is valid exactly if it holds texts that the lexical grammar has for it. -/
theorem nodeOk_iff {n : Expr} : n.NodeOk extended ↔ n.Lexical extended := by
  match n with
  | .number .dec _ => exact valid_number_iff
  | .number .hex _ => exact valid_hex_iff
  | .number .bin _ => exact valid_bin_iff
  | .string _ => exact valid_string_iff
  | .var _ | .bareCall _ | .assign _ _ => exact isName_iff
  | .call _ _ => exact and_congr_left' isName_iff
  | .func _ _ => exact forall₂_congr fun _ _ => isName_iff
  | .unary .. | .binary .. => exact Iff.rfl

/-- Every node of the tree of a source holds texts of the lexical grammar. -/
theorem lexical_of_parse {settings : Settings} {source : String} {e : Expr}
    (h : (parse settings source).result = .ok e) : ∀ n ∈ e.walk, n.Lexical settings.extended := by
  obtain ⟨hwell, _⟩ := wellFormed_of_parse h
  intro n hn
  exact nodeOk_iff.mp (hwell n hn)

/-- Literals of all kinds, and names that are assigned to and called. -/
theorem lexical_of_call :
    ∃ e, (parse { extended := true } "x = f(0b1, 0x, -\"?\", 12, g())").result = .ok e ∧
      Expr.call "f" [.number .bin "1", .number .hex "", .unary .neg (.string "?"),
        .number .dec "12", .bareCall "g"] ∈ e.walk ∧
      ∀ n ∈ e.walk, n.Lexical true := by
  have h : (parse { extended := true } "x = f(0b1, 0x, -\"?\", 12, g())").result =
      .ok (.assign "x" (.call "f" [.number .bin "1", .number .hex "", .unary .neg (.string "?"),
        .number .dec "12", .bareCall "g"])) := rfl
  exact ⟨_, h, by simp [Expr.walk], lexical_of_parse h⟩

end DebugExpr
