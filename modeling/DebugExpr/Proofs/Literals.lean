import DebugExpr.Proofs.Outcome

/-!
# Literals

The literals of a tree, in the order of the walk, are those of its tokens, in the order of the
source: none is lost, added or moved. So the check of literals sees the numbers of the source, each
once and in their order.
-/

namespace DebugExpr

open Grammar

/-! ## Literals of tokens and of trees -/

/-- The leaf that a token of a literal stands for. -/
def Token.literal? (t : Token) : Option Expr :=
  match t.kind with
  | .number => some (.number .dec t.value)
  | .hex => some (.number .hex t.value)
  | .bin => some (.number .bin t.value)
  | .string => some (.string t.value)
  | _ => none

namespace Expr

def isLiteral : Expr → Bool
  | .number .. | .string .. => true
  | _ => false

/-- The literals of a tree in the order of the walk. -/
def literals (e : Expr) : List Expr :=
  e.walk.filter isLiteral

def literalsList (es : List Expr) : List Expr :=
  (walkList es).filter isLiteral

@[simp] theorem literals_var (x : String) : literals (.var x) = [] := rfl

@[simp] theorem literals_bareCall (f : String) : literals (.bareCall f) = [] := rfl

@[simp] theorem literals_unary (op : UnaryOp) (e : Expr) :
    literals (.unary op e) = e.literals := rfl

@[simp] theorem literals_binary (op : BinaryOp) (l r : Expr) :
    literals (.binary op l r) = l.literals ++ r.literals := by
  simp [literals, walk, isLiteral]

@[simp] theorem literals_assign (x : String) (e : Expr) :
    literals (.assign x e) = e.literals := rfl

@[simp] theorem literals_call (f : String) (es : List Expr) :
    literals (.call f es) = literalsList es := rfl

@[simp] theorem literals_func (xs : List String) (es : List Expr) :
    literals (.func xs es) = literalsList es := rfl

@[simp] theorem literalsList_nil : literalsList [] = [] := rfl

@[simp] theorem literalsList_cons (e : Expr) (es : List Expr) :
    literalsList (e :: es) = e.literals ++ literalsList es := by
  simp [literalsList, literals, walkList]

end Expr

/-! ## Derived trees -/

/-- The literals of tokens in their order. -/
def literalsOf (ts : List Token) : List Expr :=
  ts.filterMap Token.literal?

@[simp] theorem literalsOf_nil : literalsOf [] = [] := rfl

@[simp] theorem literalsOf_cons (t : Token) (ts : List Token) :
    literalsOf (t :: ts) = t.literal?.toList ++ literalsOf ts := by
  simp only [literalsOf, List.filterMap_cons]
  cases t.literal? <;> rfl

@[simp] theorem literalsOf_append (ts us : List Token) :
    literalsOf (ts ++ us) = literalsOf ts ++ literalsOf us :=
  List.filterMap_append

theorem Token.literal?_of_binaryOp? {t : Token} {op : BinaryOp}
    (h : t.kind.binaryOp? = some op) : t.literal? = none := by
  unfold literal?
  split <;> simp_all [Kind.binaryOp?]

theorem Token.literal?_of_assignOp? {t : Token} {op : Option BinaryOp}
    (h : t.kind.assignOp? = some op) : t.literal? = none := by
  unfold literal?
  split <;> simp_all [Kind.assignOp?]

theorem Token.literal?_of_unaryOp? {t : Token} {op : UnaryOp}
    (h : t.kind.unaryOp? = some op) : t.literal? = none := by
  unfold literal?
  split <;> simp_all [Kind.unaryOp?]

namespace Grammar

theorem Leaf.literals_eq {extended : Bool} {t : Token} {e : Expr} (h : Leaf extended t e) :
    e.literals = t.literal?.toList := by
  cases h <;> simp_all [Token.literal?] <;> rfl

theorem Target.literalsOf_eq {ts x} : Target ts x → literalsOf ts = []
  | .name ht => by simp [Token.literal?, ht]
  | .group ht target hu => by simp [Token.literal?, ht, target.literalsOf_eq, hu]

theorem Names.literalsOf_eq {ts xs} (h : Names ts xs) : literalsOf ts = [] := by
  induction h with
  | one ht => simp [Token.literal?, ht]
  | more ht hc _ ih => simp [Token.literal?, ht, hc, ih]

theorem Params.literalsOf_eq {ts xs} : Params ts xs → literalsOf ts = []
  | .none => rfl
  | .some h => h.literalsOf_eq

/-- A compound assignment repeats its target, which is no literal. -/
theorem literals_stored (x : String) (v : Expr) (op : Option BinaryOp) :
    (stored x v op).literals = v.literals := by
  cases op <;> simp [stored]

variable {extended : Bool}

mutual

/-- However the operands are grouped, the literals stand in the tree as they do in the tokens. -/
theorem Derivation.literals_eq {s ts e} :
    Derivation extended s ts e → e.literals = literalsOf ts
  | .assign target hop d => by
      obtain ⟨op, hkind, rfl⟩ := assignOp_iff.mp hop
      simp [literals_stored, d.literals_eq, target.literalsOf_eq,
        Token.literal?_of_assignOp? hkind]
  | .chain d hop d' => by
      simp [d.literals_eq, d'.literals_eq, Token.literal?_of_binaryOp? hop.binaryOp?_eq]
  | .sum d hplus d' => by simp [d.literals_eq, d'.literals_eq, Token.literal?, hplus]
  | .unary hop d => by
      simp [d.literals_eq, Token.literal?_of_unaryOp? (prefixOp_iff.mp hop)]
  | .leaf hleaf => by simp [hleaf.literals_eq]
  | .bareCall ht hu hv => by simp [Token.literal?, ht, hu, hv]
  | .call ht hu ds hv => by simp [ds.literals_eq, Token.literal?, ht, hu, hv]
  | .group ht d hu => by simp [d.literals_eq, Token.literal?, ht, hu]
  | .bareFunc ht hps hu hv hw => by
      simp [hps.literalsOf_eq, Token.literal?, ht, hu, hv, hw]
  | .func ht hps hu hv ds hw => by
      simp [hps.literalsOf_eq, ds.literals_eq, Token.literal?, ht, hu, hv, hw]
  | .tighter _ d => d.literals_eq

theorem Items.literals_eq {ts es} :
    Items extended ts es → Expr.literalsList es = literalsOf ts
  | .one d => by simp [d.literals_eq]
  | .more d hc ds => by simp [d.literals_eq, ds.literals_eq, Token.literal?, hc]

end

end Grammar

/-! ## The check of literals -/

namespace Expr

def isDecimal : Expr → Bool
  | .number .dec _ => true
  | _ => false

/-- Only decimal literals have warnings. -/
theorem ofNode_of_not_isDecimal {n : Expr} (h : n.isDecimal = false) :
    Ambiguity.ofNode n = .ok [] := by
  unfold Ambiguity.ofNode
  split
  · cases h
  · rfl

theorem filter_literals (e : Expr) : e.literals.filter isDecimal = e.walk.filter isDecimal := by
  have hdecimal : ∀ n : Expr, (n.isDecimal && n.isLiteral) = n.isDecimal := by
    rintro (⟨⟨⟩, _⟩ | _) <;> rfl
  simp only [literals, List.filter_filter, hdecimal]

end Expr

/-- What gives an empty list can be left out before the lists are joined. -/
theorem flatten_mapM_filter {ε α β : Type} {f : α → Except ε (List β)} {p : α → Bool}
    (hp : ∀ a, p a = false → f a = .ok []) {as : List α} {bs : List (List β)}
    (h : as.mapM f = .ok bs) : ∃ cs, (as.filter p).mapM f = .ok cs ∧ cs.flatten = bs.flatten := by
  induction as generalizing bs with
  | nil => exact ⟨bs, h, rfl⟩
  | cons a as ih =>
      rw [List.mapM_cons] at h
      obtain ⟨b, hb, h⟩ := Parse.bind_eq_ok.mp h
      obtain ⟨bs, hbs, h⟩ := Parse.bind_eq_ok.mp h
      cases h
      obtain ⟨cs, hcs, hflat⟩ := ih hbs
      cases ha : p a with
      | false =>
          rw [hp a ha] at hb
          cases hb
          exact ⟨cs, by rw [List.filter_cons_of_neg (by simp [ha]), hcs], by simp [hflat]⟩
      | true =>
          refine ⟨b :: cs, ?_, by simp [hflat]⟩
          rw [List.filter_cons_of_pos ha, List.mapM_cons, hb, hcs]
          rfl

theorem decimals_of_tokens (ts : List Token) :
    (literalsOf ts).filter Expr.isDecimal =
      (ts.filter (·.kind = .number)).map fun t => .number .dec t.value := by
  induction ts with
  | nil => rfl
  | cons t ts ih =>
      rw [literalsOf_cons, List.filter_append, ih]
      by_cases ht : t.kind = .number
      · have hone : t.literal?.toList.filter Expr.isDecimal = [.number .dec t.value] := by
          simp only [Token.literal?, ht]
          rfl
        simp [hone, ht]
      · have hnone : t.literal?.toList.filter Expr.isDecimal = [] := by
          unfold Token.literal?
          split <;> simp_all [Expr.isDecimal]
        simp [hnone, ht]

/-- The warnings for a tree are those for the numbers of its tokens. -/
theorem warnings_of_numbers {e : Expr} {ts : List Token} {messages : List String}
    (hliterals : e.literals = literalsOf ts) (h : e.warnings = .ok messages) :
    ∃ lists, (ts.filter (·.kind = .number)).mapM (fun t => Ambiguity.ofText t.value) = .ok lists ∧
      messages = lists.flatten := by
  obtain ⟨all, hall, hmessages⟩ := Parse.bind_eq_ok.mp h
  cases hmessages
  obtain ⟨lists, hlists, hflat⟩ := flatten_mapM_filter (fun _ => Expr.ofNode_of_not_isDecimal) hall
  rw [← Expr.filter_literals, hliterals, decimals_of_tokens, List.mapM_map] at hlists
  exact ⟨lists, hlists, hflat.symm⟩

variable {settings : Settings} {source : String}

/-- The numbers and strings in the walk of a tree are the literals of the source in their order, and
the warnings for the tree are those for the numbers of the source, one after the other. -/
theorem literals_of_parse {e : Expr} (h : (parse settings source).result = .ok e) :
    ∃ tokens, (tokenize settings source).result = .ok tokens ∧
      e.walk.filter Expr.isLiteral = tokens.filterMap Token.literal? ∧
      ∃ lists, (tokens.filter (·.kind = .number)).mapM (fun t => Ambiguity.ofText t.value) =
          .ok lists ∧ e.warnings = .ok lists.flatten := by
  obtain ⟨ts, htokenize, hread⟩ := tokens_of_parse h
  obtain ⟨d⟩ := derivation_of_ofTokens hread
  have hliterals : e.literals = literalsOf (ts ++ [Token.endMark source.length]) := by
    simp [d.literals_eq, Token.literal?, Token.endMark]
  obtain ⟨messages, hmessages⟩ := warnings_of_wellFormed (wellFormed_of_parse h).1
  obtain ⟨lists, hlists, rfl⟩ := warnings_of_numbers hliterals hmessages
  exact ⟨_, htokenize, hliterals, lists, hlists, hmessages⟩

/-- The sum groups from the right and the target of the assignment is repeated, and yet the literals
keep their order. -/
theorem literals_of_sum :
    ∃ e tokens, (parse {} "x *= 12 + f(\"8\", 0x4) + 7").result = .ok e ∧
      (tokenize {} "x *= 12 + f(\"8\", 0x4) + 7").result = .ok tokens ∧
      [.number .dec "12", .string "8", .number .hex "4", .number .dec "7"] =
        tokens.filterMap Token.literal? ∧
      ∃ lists, (tokens.filter (·.kind = .number)).mapM (fun t => Ambiguity.ofText t.value) =
          .ok lists ∧ e.warnings = .ok lists.flatten := by
  have h : (parse {} "x *= 12 + f(\"8\", 0x4) + 7").result =
      .ok (.assign "x" (.binary .mul (.var "x") (.binary .add (.number .dec "12")
        (.binary .add (.call "f" [.string "8", .number .hex "4"]) (.number .dec "7"))))) := rfl
  obtain ⟨tokens, htokens, hliterals, hwarnings⟩ := literals_of_parse h
  exact ⟨_, tokens, h, htokens, hliterals, hwarnings⟩

end DebugExpr
