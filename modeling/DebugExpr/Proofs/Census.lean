import DebugExpr.Expr.Walk
import DebugExpr.Proofs.Acceptance

/-!
# A census of nodes

Every operator token becomes one node of the tree, and so does every call and every function
literal; a compound assignment becomes two. Whether a minus is a prefix or an infix operator is
decided by the token before it alone.
-/

namespace DebugExpr

open Grammar

/-! ## Marks of nodes -/

/-- What a node is, operands aside. -/
inductive Mark where
  | unary (op : UnaryOp)
  | binary (op : BinaryOp)
  | assign
  | call
  | func
  deriving DecidableEq

namespace Expr

def mark? : Expr → Option Mark
  | .unary op _ => some (.unary op)
  | .binary op _ _ => some (.binary op)
  | .assign _ _ => some .assign
  | .bareCall _ | .call _ _ => some .call
  | .func _ _ => some .func
  | .number _ _ | .string _ | .var _ => none

/-- How many nodes in the walk of the tree have the mark. -/
def count (m : Mark) (e : Expr) : Nat :=
  e.walk.countP (·.mark? = some m)

def marks (e : Expr) : List Mark :=
  e.walk.filterMap mark?

def marksList (es : List Expr) : List Mark :=
  (walkList es).filterMap mark?

theorem count_marks (m : Mark) (e : Expr) : e.marks.count m = e.count m := by
  rw [marks, count, List.count_filterMap]
  exact List.countP_congr (by simp)

@[simp] theorem marks_var (x : String) : marks (.var x) = [] := rfl

@[simp] theorem marks_bareCall (f : String) : marks (.bareCall f) = [.call] := rfl

@[simp] theorem marks_unary (op : UnaryOp) (e : Expr) :
    marks (.unary op e) = .unary op :: e.marks := rfl

@[simp] theorem marks_binary (op : BinaryOp) (l r : Expr) :
    marks (.binary op l r) = .binary op :: (l.marks ++ r.marks) := by
  simp [marks, walk, mark?]

@[simp] theorem marks_assign (x : String) (e : Expr) :
    marks (.assign x e) = .assign :: e.marks := rfl

@[simp] theorem marks_call (f : String) (es : List Expr) :
    marks (.call f es) = .call :: marksList es := rfl

@[simp] theorem marks_func (xs : List String) (es : List Expr) :
    marks (.func xs es) = .func :: marksList es := rfl

@[simp] theorem marksList_nil : marksList [] = [] := rfl

@[simp] theorem marksList_cons (e : Expr) (es : List Expr) :
    marksList (e :: es) = e.marks ++ marksList es := by
  simp [marksList, marks, walkList]

end Expr

/-! ## Places -/

/-- The infix operators, the `!`, the assignments, the opening brackets and the comma. -/
def Token.Kind.precedesOperand : Kind → Bool
  | plus | minus | star | slash | concat | and | or | bang
  | assign | starAssign | slashAssign | plusAssign | minusAssign | concatAssign
  | lparen | comma | lbrace => true
  | _ => false

/-- A token with the token before it; the first token has none. -/
abbrev Place := Option Token × Token

def placesAfter (before : Option Token) : List Token → List Place
  | [] => []
  | t :: ts => (before, t) :: placesAfter (some t) ts

def places (ts : List Token) : List Place :=
  placesAfter none ts

/-! ## Where an operand is due -/

/-- An operand is due after the token: there is none, or it is one that precedes an operand. -/
def operandDue (before : Option Token) : Bool :=
  before.all (·.kind.precedesOperand)

def afterName (before : Option Token) : Bool :=
  before.any (·.kind = .ident)

/-- A name is no place for an operand, so a parenthesis where one is due begins no call. -/
theorem afterName_eq_false {before : Option Token} (h : operandDue before = true) :
    afterName before = false := by
  cases before with
  | none => rfl
  | some t =>
      rw [afterName, Option.any_some, decide_eq_false_iff_not]
      intro ht
      simp [operandDue, ht, Token.Kind.precedesOperand] at h

theorem operandDue_of_binaryOp? {t : Token} {op : BinaryOp} (h : t.kind.binaryOp? = some op) :
    operandDue (some t) = true := by
  cases hk : t.kind <;>
    simp_all [operandDue, Token.Kind.precedesOperand, Token.Kind.binaryOp?]

theorem operandDue_of_unaryOp? {t : Token} {op : UnaryOp} (h : t.kind.unaryOp? = some op) :
    operandDue (some t) = true := by
  cases hk : t.kind <;>
    simp_all [operandDue, Token.Kind.precedesOperand, Token.Kind.unaryOp?]

theorem operandDue_of_assignOp? {t : Token} {op : Option BinaryOp}
    (h : t.kind.assignOp? = some op) : operandDue (some t) = true := by
  cases hk : t.kind <;>
    simp_all [operandDue, Token.Kind.precedesOperand, Token.Kind.assignOp?]

theorem operandDue_of_opening {t : Token}
    (h : t.kind = .lparen ∨ t.kind = .comma ∨ t.kind = .lbrace) :
    operandDue (some t) = true := by
  rcases h with h | h | h <;> simp [operandDue, h, Token.Kind.precedesOperand]

theorem operandDue_of_closing {t : Token} (h : t.kind = .rparen ∨ t.kind = .rbrace) :
    operandDue (some t) = false := by
  rcases h with h | h <;> simp [operandDue, h, Token.Kind.precedesOperand]

/-! ## Nodes of tokens -/

/-- The nodes that a token stands for, by its kind and the token before it. -/
def Token.marks (before : Option Token) (t : Token) : List Mark :=
  match t.kind with
  | .plus => [.binary .add]
  | .minus => if operandDue before then [.unary .neg] else [.binary .sub]
  | .star => [.binary .mul]
  | .slash => [.binary .div]
  | .concat => [.binary .concat]
  | .bang => [.unary .not]
  | .and => [.binary .and]
  | .or => [.binary .or]
  | .assign => [.assign]
  | .starAssign => [.assign, .binary .mul]
  | .slashAssign => [.assign, .binary .div]
  | .plusAssign => [.assign, .binary .add]
  | .minusAssign => [.assign, .binary .sub]
  | .concatAssign => [.assign, .binary .concat]
  | .lparen => if afterName before then [.call] else []
  | .lbrace => [.func]
  | _ => []

def marksAfter (before : Option Token) (ts : List Token) : List Mark :=
  (placesAfter before ts).flatMap fun p => p.2.marks p.1

/-- The last of the tokens, or the one before all of them. -/
def lastAfter (before : Option Token) : List Token → Option Token
  | [] => before
  | t :: ts => lastAfter (some t) ts

@[simp] theorem lastAfter_append (before : Option Token) (ts us : List Token) :
    lastAfter before (ts ++ us) = lastAfter (lastAfter before ts) us := by
  induction ts generalizing before with
  | nil => rfl
  | cons t ts ih => exact ih (some t)

@[simp] theorem marksAfter_nil (before : Option Token) : marksAfter before [] = [] := rfl

@[simp] theorem marksAfter_cons (before : Option Token) (t : Token) (ts : List Token) :
    marksAfter before (t :: ts) = t.marks before ++ marksAfter (some t) ts := by
  simp [marksAfter, placesAfter]

@[simp] theorem marksAfter_append (before : Option Token) (ts us : List Token) :
    marksAfter before (ts ++ us) = marksAfter before ts ++ marksAfter (lastAfter before ts) us := by
  induction ts generalizing before with
  | nil => rfl
  | cons t ts ih => simp [ih, lastAfter]

namespace Token

variable {t : Token} {before : Option Token}

/-- Where no operand is due, a token of an infix operator is one. -/
theorem marks_of_binaryOp? {op : BinaryOp} (h : t.kind.binaryOp? = some op)
    (hdue : operandDue before = false) : t.marks before = [.binary op] := by
  unfold marks
  split <;> simp_all [Kind.binaryOp?]

theorem marks_of_unaryOp? {op : UnaryOp} (h : t.kind.unaryOp? = some op)
    (hdue : operandDue before = true) : t.marks before = [.unary op] := by
  unfold marks
  split <;> simp_all [Kind.unaryOp?]

theorem marks_of_assignOp? {op : Option BinaryOp} (h : t.kind.assignOp? = some op) :
    t.marks before = .assign :: (op.map Mark.binary).toList := by
  unfold marks
  split <;> simp_all [Kind.assignOp?] <;> subst h <;> rfl

end Token

/-! ## Derived trees -/

namespace Grammar

theorem Leaf.marks_eq {extended : Bool} {t : Token} {e : Expr} (h : Leaf extended t e)
    (before : Option Token) : t.marks before = [] ∧ e.marks = [] := by
  cases h <;> simp_all [Token.marks] <;> rfl

theorem Target.marks_eq {ts x} : Target ts x → ∀ {before}, operandDue before = true →
    marksAfter before ts = []
  | .name ht, before, _ => by simp [Token.marks, ht]
  | .group ht target hu, before, hdue => by
      have hinside := target.marks_eq (operandDue_of_opening (.inl ht))
      simp [Token.marks, ht, afterName_eq_false hdue, hinside, hu]

theorem Names.marks_eq {ts xs} (h : Names ts xs) (before : Option Token) :
    marksAfter before ts = [] := by
  induction h generalizing before with
  | one ht => simp [Token.marks, ht]
  | more ht hc _ ih => simp [Token.marks, ht, hc, ih]

theorem Params.marks_eq {ts xs} (h : Params ts xs) (before : Option Token) :
    marksAfter before ts = [] := by
  cases h with
  | none => rfl
  | some h => exact h.marks_eq before

theorem Leaf.ends {extended : Bool} {t : Token} {e : Expr} (h : Leaf extended t e) :
    operandDue (some t) = false := by
  cases h <;> simp_all [operandDue, Token.Kind.precedesOperand]

variable {extended : Bool}

/-- No operand is due after an expression. -/
theorem Derivation.ends {s ts e} : Derivation extended s ts e → ∀ before,
    operandDue (lastAfter before ts) = false
  | .assign _ _ d, before => by simp [lastAfter, d.ends]
  | .chain _ _ d, before => by simp [lastAfter, d.ends]
  | .sum _ _ d, before => by simp [lastAfter, d.ends]
  | .unary _ d, before => by simp [lastAfter, d.ends]
  | .leaf hleaf, before => by simp [lastAfter, hleaf.ends]
  | .bareCall _ _ hv, _ => operandDue_of_closing (.inl hv)
  | .call _ _ _ hv, before => by simp [lastAfter, operandDue_of_closing (.inl hv)]
  | .group _ _ hu, before => by simp [lastAfter, operandDue_of_closing (.inl hu)]
  | .bareFunc _ _ _ _ hw, before => by simp [lastAfter, operandDue_of_closing (.inr hw)]
  | .func _ _ _ _ _ hw, before => by simp [lastAfter, operandDue_of_closing (.inr hw)]
  | .tighter _ d, before => d.ends before

theorem marks_stored (x : String) (v : Expr) (op : Option BinaryOp) :
    (stored x v op).marks = (op.map Mark.binary).toList ++ v.marks := by
  cases op <;> simp [stored]

mutual

/-- Where an operand is due, the tokens of an expression stand for the nodes of its tree. -/
theorem Derivation.marks_perm {s ts e} : Derivation extended s ts e → ∀ {before},
    operandDue before = true → (marksAfter before ts).Perm e.marks
  | .assign target hop d, before, hdue => by
      obtain ⟨op, hkind, rfl⟩ := assignOp_iff.mp hop
      have hvalue := d.marks_perm (operandDue_of_assignOp? hkind)
      simpa [target.marks_eq hdue, Token.marks_of_assignOp? hkind, marks_stored] using
        hvalue.append_left (op.map Mark.binary).toList
  | .chain d hop d', before, hdue => by
      have hleft := d.marks_perm hdue
      have hright := d'.marks_perm (operandDue_of_binaryOp? hop.binaryOp?_eq)
      have hmark := Token.marks_of_binaryOp? hop.binaryOp?_eq (d.ends before)
      simpa [hmark] using (hleft.append (hright.cons _)).trans List.perm_middle
  | .sum d hplus d', before, hdue => by
      have hop := Parse.binaryOp?_plus hplus
      have hleft := d.marks_perm hdue
      have hright := d'.marks_perm (operandDue_of_binaryOp? hop)
      have hmark := Token.marks_of_binaryOp? hop (d.ends before)
      simpa [hmark] using (hleft.append (hright.cons _)).trans List.perm_middle
  | .unary hop d, before, hdue => by
      have hkind := prefixOp_iff.mp hop
      have hoperand := d.marks_perm (operandDue_of_unaryOp? hkind)
      simpa [Token.marks_of_unaryOp? hkind hdue] using hoperand
  | .leaf hleaf, before, _ => by simp [hleaf.marks_eq before]
  | .bareCall ht hu hv, before, _ => by simp [Token.marks, ht, hu, hv, afterName]
  | .call ht hu ds hv, before, _ => by
      have hargs := ds.marks_perm (operandDue_of_opening (.inl hu))
      simpa [Token.marks, ht, hu, hv, afterName] using hargs
  | .group ht d hu, before, hdue => by
      have hinside := d.marks_perm (operandDue_of_opening (.inl ht))
      simpa [Token.marks, ht, hu, afterName_eq_false hdue] using hinside
  | .bareFunc ht hps hu hv hw, before, hdue => by
      simp [Token.marks, ht, hps.marks_eq, hu, hv, hw, afterName_eq_false hdue]
  | .func ht hps hu hv ds hw, before, hdue => by
      have hbody := ds.marks_perm (operandDue_of_opening (.inr (.inr hv)))
      simpa [Token.marks, ht, hps.marks_eq, hu, hv, hw, afterName_eq_false hdue] using hbody
  | .tighter _ d, before, hdue => d.marks_perm hdue

theorem Items.marks_perm {ts es} : Items extended ts es → ∀ {before},
    operandDue before = true → (marksAfter before ts).Perm (Expr.marksList es)
  | .one d, before, hdue => by simpa using d.marks_perm hdue
  | .more d hc ds, before, hdue => by
      have hfirst := d.marks_perm hdue
      have hrest := ds.marks_perm (operandDue_of_opening (.inr (.inl hc)))
      simpa [Token.marks, hc] using hfirst.append hrest

end

end Grammar

/-! ## Counts -/

/-- How many of the tokens are of the kind. -/
def countKind (k : Token.Kind) (ts : List Token) : Nat :=
  ts.countP (·.kind = k)

/-- The nodes of a tree and the tokens that they come from, sort by sort. -/
structure Census (tokens : List Token) (e : Expr) : Prop where
  neg : e.count (.unary .neg) =
    (places tokens).countP fun p => p.2.kind = .minus ∧ operandDue p.1 = true
  not : e.count (.unary .not) = countKind .bang tokens
  sub : e.count (.binary .sub) =
    ((places tokens).countP fun p => p.2.kind = .minus ∧ operandDue p.1 = false) +
      countKind .minusAssign tokens
  add : e.count (.binary .add) = countKind .plus tokens + countKind .plusAssign tokens
  mul : e.count (.binary .mul) = countKind .star tokens + countKind .starAssign tokens
  div : e.count (.binary .div) = countKind .slash tokens + countKind .slashAssign tokens
  concat : e.count (.binary .concat) = countKind .concat tokens + countKind .concatAssign tokens
  and : e.count (.binary .and) = countKind .and tokens
  or : e.count (.binary .or) = countKind .or tokens
  assign : e.count .assign = tokens.countP fun t =>
    t.kind ∈ [.assign, .starAssign, .slashAssign, .plusAssign, .minusAssign, .concatAssign]
  call : e.count .call =
    (places tokens).countP fun p => afterName p.1 = true ∧ p.2.kind = .lparen
  func : e.count .func = countKind .lbrace tokens

section

variable {m : Mark} {P : Place → Bool} {Q Q' : Token → Bool}

theorem countP_placesAfter (Q : Token → Bool) (before : Option Token) (ts : List Token) :
    (placesAfter before ts).countP (fun p => Q p.2) = ts.countP Q := by
  induction ts generalizing before with
  | nil => rfl
  | cons t ts ih => simp only [placesAfter, List.countP_cons, ih]

/-- The tokens that stand for a node of a sort are counted one by one. -/
theorem count_marksAfter
    (h : ∀ before t, (t.marks before).count m = (P (before, t)).toNat + (Q t).toNat)
    (before : Option Token) (ts : List Token) :
    (marksAfter before ts).count m = (placesAfter before ts).countP P + ts.countP Q := by
  induction ts generalizing before with
  | nil => rfl
  | cons t ts ih =>
      rw [marksAfter_cons, List.count_append, h, ih, placesAfter, List.countP_cons,
        List.countP_cons]
      cases P (before, t) <;> cases Q t <;> simp <;> omega

theorem count_places (h : ∀ before t, (t.marks before).count m = (P (before, t)).toNat)
    (ts : List Token) : (marksAfter none ts).count m = (places ts).countP P := by
  simpa [places] using count_marksAfter (Q := fun _ => false) h none ts

theorem count_tokens (h : ∀ before t, (t.marks before).count m = (Q t).toNat) (ts : List Token) :
    (marksAfter none ts).count m = ts.countP Q :=
  (count_places h ts).trans (countP_placesAfter Q none ts)

/-- An infix operator and its compound assignment are tokens of two kinds. -/
theorem count_tokens_add
    (h : ∀ before t, (t.marks before).count m = (Q t).toNat + (Q' t).toNat) (ts : List Token) :
    (marksAfter none ts).count m = ts.countP Q + ts.countP Q' := by
  rw [← countP_placesAfter Q none ts]
  exact count_marksAfter h none ts

end

theorem census_of_perm {tokens : List Token} {e : Expr}
    (h : (marksAfter none tokens).Perm e.marks) : Census tokens e := by
  have hcount (m : Mark) : e.count m = (marksAfter none tokens).count m := by
    rw [← Expr.count_marks, h.count_eq]
  -- What is left for each sort is what one token counts.
  refine
    { neg := (hcount _).trans (count_places ?_ tokens)
      not := (hcount _).trans (count_tokens ?_ tokens)
      sub := (hcount _).trans (count_marksAfter ?_ none tokens)
      add := (hcount _).trans (count_tokens_add ?_ tokens)
      mul := (hcount _).trans (count_tokens_add ?_ tokens)
      div := (hcount _).trans (count_tokens_add ?_ tokens)
      concat := (hcount _).trans (count_tokens_add ?_ tokens)
      and := (hcount _).trans (count_tokens ?_ tokens)
      or := (hcount _).trans (count_tokens ?_ tokens)
      assign := (hcount _).trans (count_tokens ?_ tokens)
      call := (hcount _).trans (count_places ?_ tokens)
      func := (hcount _).trans (count_tokens ?_ tokens) }
  all_goals
    intro before t
    cases hk : t.kind <;> simp [Token.marks, hk] <;> split <;> simp_all

/-- The tokens of an accepted expression and the nodes in the walk of its tree agree sort by sort. A
minus is a prefix operator where an operand is due after the token before it, and else it is an
infix operator. -/
theorem census_of_treeify (settings : Settings) (source : Option String) {ts : List Token}
    {mark : Token} {e : Expr} (hts : ∀ t ∈ ts, t.kind ≠ .eof) (hmark : mark.kind = .eof)
    (h : (treeify settings source (ts ++ [mark])).result = .ok e) : Census (ts ++ [mark]) e := by
  obtain ⟨d⟩ := derivation_of_ofTokens ((treeify_ok hts hmark).mp h)
  have hperm : (marksAfter none ts).Perm e.marks := d.marks_perm rfl
  have hend : marksAfter none (ts ++ [mark]) = marksAfter none ts := by simp [Token.marks, hmark]
  exact census_of_perm (hend ▸ hperm)

/-- Of four minuses two are prefix operators, and with the assignment three make differences. -/
theorem census_of_minuses :
    let ts : List Token := [⟨.ident, "x", 0⟩, ⟨.minusAssign, "-=", 1⟩, ⟨.minus, "-", 3⟩,
      ⟨.ident, "a", 4⟩, ⟨.minus, "-", 5⟩, ⟨.ident, "f", 6⟩, ⟨.lparen, "(", 7⟩, ⟨.minus, "-", 8⟩,
      ⟨.ident, "b", 9⟩, ⟨.rparen, ")", 10⟩, ⟨.minus, "-", 11⟩, ⟨.number, "1", 12⟩]
    let e : Expr := .assign "x" (.binary .sub (.var "x") (.binary .sub
      (.binary .sub (.unary .neg (.var "a")) (.call "f" [.unary .neg (.var "b")]))
      (.number .dec "1")))
    (∀ t ∈ ts, t.kind ≠ .eof) ∧ (Token.endMark 13).kind = .eof ∧
      (treeify {} none (ts ++ [Token.endMark 13])).result = .ok e ∧
      Census (ts ++ [Token.endMark 13]) e ∧
      e.count (.unary .neg) = 2 ∧ e.count (.binary .sub) = 3 := by
  intro ts e
  have hts : ∀ t ∈ ts, t.kind ≠ .eof := by decide
  have hmark : (Token.endMark 13).kind = .eof := rfl
  have h : (treeify {} none (ts ++ [Token.endMark 13])).result = .ok e := rfl
  exact ⟨hts, hmark, h, census_of_treeify {} none hts hmark h, rfl, rfl⟩

end DebugExpr
