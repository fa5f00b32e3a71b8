import DebugExpr.Expr.Operators
import DebugExpr.Token.Basic

/-!
# The grammar

The strata of the language and the derivation of a tree from tokens.

    expression   → target assign_op expression | disjunction
    disjunction  → conjunction ("||" conjunction)*
    conjunction  → sum ("&&" sum)*
    sum          → difference ("+" sum)?
    difference   → product (("-" | "++") product)*
    product      → operand (("*" | "/") operand)*
    operand      → ("!" | "-") operand | literal | name | call | function | "(" expression ")"

A derivation is data, so that the levels of nesting that it takes can be counted.
-/

namespace DebugExpr.Grammar

open Token (Kind)

/-! ## Strata and operators -/

/-- The strata, from the loosest to the tightest. -/
inductive Stratum where
  | expression | disjunction | conjunction | sum | difference | product | operand
  deriving DecidableEq

namespace Stratum

/-- The place of a stratum; a tighter one has a greater place. -/
def level : Stratum → Nat
  | expression => 1
  | disjunction => 2
  | conjunction => 3
  | sum => 4
  | difference => 5
  | product => 6
  | operand => 7

def next : Stratum → Stratum
  | expression => disjunction
  | disjunction => conjunction
  | conjunction => sum
  | sum => difference
  | difference => product
  | product | operand => operand

theorem level_le_operand (s : Stratum) : s.level ≤ operand.level := by
  cases s <;> simp [level]

theorem expression_level_le (s : Stratum) : expression.level ≤ s.level := by
  cases s <;> simp [level]

theorem eq_of_level_eq {s s' : Stratum} (h : s.level = s'.level) : s = s' := by
  cases s <;> cases s' <;> simp_all [level]

end Stratum

/-- The operators of each stratum that group from the left. -/
inductive LeftOp : Stratum → Kind → BinaryOp → Prop
  | or : LeftOp .disjunction .or .or
  | and : LeftOp .conjunction .and .and
  | sub : LeftOp .difference .minus .sub
  | concat : LeftOp .difference .concat .concat
  | mul : LeftOp .product .star .mul
  | div : LeftOp .product .slash .div

inductive PrefixOp : Kind → UnaryOp → Prop
  | not : PrefixOp .bang .not
  | neg : PrefixOp .minus .neg

/-- What an assignment to a name stores for a value: a compound one applies its operator. -/
inductive AssignOp (x : String) (v : Expr) : Kind → Expr → Prop
  | plain : AssignOp x v .assign v
  | mul : AssignOp x v .starAssign (.binary .mul (.var x) v)
  | div : AssignOp x v .slashAssign (.binary .div (.var x) v)
  | add : AssignOp x v .plusAssign (.binary .add (.var x) v)
  | sub : AssignOp x v .minusAssign (.binary .sub (.var x) v)
  | concat : AssignOp x v .concatAssign (.binary .concat (.var x) v)

inductive Leaf (extended : Bool) : Token → Expr → Prop
  | number {t} : t.kind = .number → Leaf extended t (.number .dec t.value)
  | hex {t} : t.kind = .hex → Leaf extended t (.number .hex t.value)
  | bin {t} : extended = true → t.kind = .bin → Leaf extended t (.number .bin t.value)
  | string {t} : t.kind = .string → Leaf extended t (.string t.value)
  | var {t} : t.kind = .ident → Leaf extended t (.var t.value)

/-! ## Derivations -/

/-- A name in any number of parentheses. -/
inductive Target : List Token → String → Type
  | name {t : Token} : t.kind = .ident → Target [t] t.value
  | group {t u : Token} {ts x} :
      t.kind = .lparen → Target ts x → u.kind = .rparen → Target (t :: (ts ++ [u])) x

inductive Names : List Token → List String → Prop
  | one {t : Token} : t.kind = .ident → Names [t] [t.value]
  | more {t u : Token} {ts xs} :
      t.kind = .ident → u.kind = .comma → Names ts xs → Names (t :: u :: ts) (t.value :: xs)

inductive Params : List Token → List String → Prop
  | none : Params [] []
  | some {ts xs} : Names ts xs → Params ts xs

mutual

/-- The derivation of a tree from all of the tokens, in a stratum. -/
inductive Derivation (extended : Bool) : Stratum → List Token → Expr → Type
  | assign {ts us x v e} {t : Token} :
      Target ts x → AssignOp x v t.kind e → Derivation extended .expression us v →
      Derivation extended .expression (ts ++ t :: us) (.assign x e)
  | chain {s ts us op l r} {t : Token} :
      Derivation extended s ts l → LeftOp s t.kind op → Derivation extended s.next us r →
      Derivation extended s (ts ++ t :: us) (.binary op l r)
  | sum {ts us l r} {t : Token} :
      Derivation extended .difference ts l → t.kind = .plus → Derivation extended .sum us r →
      Derivation extended .sum (ts ++ t :: us) (.binary .add l r)
  | unary {ts op e} {t : Token} :
      PrefixOp t.kind op → Derivation extended .operand ts e →
      Derivation extended .operand (t :: ts) (.unary op e)
  | leaf {t e} : Leaf extended t e → Derivation extended .operand [t] e
  | bareCall {t u v : Token} :
      t.kind = .ident → u.kind = .lparen → v.kind = .rparen →
      Derivation extended .operand [t, u, v] (.bareCall t.value)
  | call {t u v : Token} {ts es} :
      t.kind = .ident → u.kind = .lparen → Items extended ts es → v.kind = .rparen →
      Derivation extended .operand (t :: u :: (ts ++ [v])) (.call t.value es)
  | group {t u : Token} {ts e} :
      t.kind = .lparen → Derivation extended .expression ts e → u.kind = .rparen →
      Derivation extended .operand (t :: (ts ++ [u])) e
  | bareFunc {t u v w : Token} {ps xs} :
      t.kind = .lparen → Params ps xs → u.kind = .rparen → v.kind = .lbrace → w.kind = .rbrace →
      Derivation extended .operand (t :: (ps ++ [u, v, w])) (.func xs [])
  | func {t u v w : Token} {ps xs ts es} :
      t.kind = .lparen → Params ps xs → u.kind = .rparen → v.kind = .lbrace →
      Items extended ts es → w.kind = .rbrace →
      Derivation extended .operand (t :: (ps ++ u :: v :: (ts ++ [w]))) (.func xs es)
  | tighter {s s' ts e} :
      s.level < s'.level → Derivation extended s' ts e → Derivation extended s ts e

/-- Expressions with commas between them, at least one. -/
inductive Items (extended : Bool) : List Token → List Expr → Type
  | one {ts e} : Derivation extended .expression ts e → Items extended ts [e]
  | more {ts us e es} {t : Token} :
      Derivation extended .expression ts e → t.kind = .comma → Items extended us es →
      Items extended (ts ++ t :: us) (e :: es)

end

/-! ## Levels of nesting -/

/-- The parentheses around a name. -/
def Target.depth {ts x} : Target ts x → Nat
  | .name _ => 0
  | .group _ t _ => t.depth + 1

variable {extended : Bool}

mutual

/-- The levels of nesting that a derivation takes below the expression it belongs to. A group, an
argument, a statement, the right operand of an operator, an assigned value and the operand of a
prefix operator are each one level down. `lift` is what the first summand of a sum lies below the
expression: nothing, or one to the right of a plus, since the summands of a chain lie side by
side. -/
def Derivation.levels {s ts e} : Derivation extended s ts e → (lift : Nat) → Nat
  | .assign t _ d, lift => max t.depth (d.levels 0 + 1) + lift
  | .chain l _ r, lift => max (l.levels 0) (r.levels 0 + 1) + lift
  | .sum l _ r, lift => max (l.levels 0 + lift) (r.levels 1)
  | .unary _ d, lift => d.levels 0 + 1 + lift
  | .leaf _, lift => lift
  | .bareCall .., lift => lift
  | .call _ _ ds _, lift => ds.levels + lift
  | .group _ d _, lift => d.levels 0 + 1 + lift
  | .bareFunc .., lift => lift
  | .func _ _ _ _ ds _, lift => ds.levels + lift
  | .tighter _ d, lift => d.levels 0 + lift

/-- The levels of nesting that items take; each is an expression one level down. -/
def Items.levels {ts es} : Items extended ts es → Nat
  | .one d => d.levels 0 + 1
  | .more d _ ds => max (d.levels 0 + 1) ds.levels

end

/-- The levels of nesting of a whole expression, its own included. -/
def Derivation.nesting {s ts e} (d : Derivation extended s ts e) : Nat :=
  d.levels 0 + 1

/-- A derivation in a stratum is one in every looser stratum. -/
def Derivation.loosen {s s' : Stratum} {ts e} (h : s.level ≤ s'.level)
    (d : Derivation extended s' ts e) : Derivation extended s ts e :=
  if h' : s.level < s'.level then .tighter h' d
  else Stratum.eq_of_level_eq (show s.level = s'.level by omega) ▸ d

/-- A difference alone is a sum. -/
theorem Derivation.alone {ts e} (d : Derivation extended .difference ts e) :
    Nonempty (Derivation extended .sum (ts ++ []) e) := by
  have hlevel : Stratum.sum.level < Stratum.difference.level := by simp [Stratum.level]
  rw [List.append_nil]
  exact ⟨.tighter hlevel d⟩

@[simp] theorem Derivation.levels_loosen {s s' : Stratum} {ts e} (h : s.level ≤ s'.level)
    (d : Derivation extended s' ts e) : (d.loosen h).levels 0 = d.levels 0 := by
  by_cases h' : s.level < s'.level
  · simp [Derivation.loosen, h', Derivation.levels]
  · obtain rfl : s = s' := Stratum.eq_of_level_eq (by omega)
    simp [Derivation.loosen]

/-! ## The grammar and the tables of operators -/

def leftStratum : BinaryOp → Stratum
  | .or => .disjunction
  | .and => .conjunction
  | .add | .sub | .concat => .difference
  | .mul | .div => .product

/-- The stratum of an application of the operator. -/
def stratum : BinaryOp → Stratum
  | .add => .sum
  | op => leftStratum op

/-- The stratum of the right operand. -/
def rightStratum : BinaryOp → Stratum
  | .add => .sum
  | op => (leftStratum op).next

theorem level_stratum (op : BinaryOp) : (stratum op).level = op.precedence := by
  cases op <;> rfl

theorem precedence_le_leftStratum (op : BinaryOp) : op.precedence ≤ (leftStratum op).level := by
  cases op <;> simp [BinaryOp.precedence, leftStratum, Stratum.level]

theorem LeftOp.binaryOp?_eq {s : Stratum} {k : Kind} {op : BinaryOp} (h : LeftOp s k op) :
    k.binaryOp? = some op := by
  cases h <;> rfl

theorem LeftOp.level_eq {s : Stratum} {k : Kind} {op : BinaryOp} (h : LeftOp s k op) :
    s.level = op.precedence ∧ s.next.level = op.precedence + 1 ∧ leftStratum op = s := by
  cases h <;> exact ⟨rfl, rfl, rfl⟩

theorem LeftOp.ne_add {s : Stratum} {k : Kind} {op : BinaryOp} (h : LeftOp s k op) :
    op ≠ .add := by
  cases h <;> simp

theorem prefixOp_iff {k : Kind} {op : UnaryOp} : PrefixOp k op ↔ k.unaryOp? = some op := by
  constructor
  · intro h
    cases h <;> rfl
  · intro h
    cases k <;> simp [Kind.unaryOp?] at h <;> subst h <;> constructor

/-- What an assignment stores, by the operator that it applies. -/
def stored (x : String) (v : Expr) : Option BinaryOp → Expr
  | none => v
  | some op => .binary op (.var x) v

theorem assignOp_iff {x : String} {v e : Expr} {k : Kind} :
    AssignOp x v k e ↔ ∃ op, k.assignOp? = some op ∧ e = stored x v op := by
  constructor
  · intro h
    cases h <;> exact ⟨_, rfl, rfl⟩
  · rintro ⟨op, h, rfl⟩
    cases k <;> simp [Kind.assignOp?] at h <;> subst h <;> constructor

theorem leftOp_of_binaryOp? {k : Kind} {op : BinaryOp} (h : k.binaryOp? = some op)
    (hop : op ≠ .add) : LeftOp (leftStratum op) k op := by
  cases k <;> simp [Kind.binaryOp?] at h <;> subst h <;> first | constructor | exact absurd rfl hop

theorem eq_plus_of_binaryOp? {k : Kind} (h : k.binaryOp? = some .add) : k = .plus := by
  cases k with
  | plus => rfl
  | _ => simp [Kind.binaryOp?] at h

/-- Two operands around an operator between them. -/
theorem Derivation.binary {op : BinaryOp} {t : Token} {ts us l r} (h : t.kind.binaryOp? = some op)
    (d : Derivation extended (leftStratum op) ts l)
    (d' : Derivation extended (rightStratum op) us r) :
    Nonempty (Derivation extended (stratum op) (ts ++ t :: us) (.binary op l r)) := by
  cases op with
  | add => exact ⟨.sum d (eq_plus_of_binaryOp? h) d'⟩
  | sub | mul | div | concat | and | or =>
      exact ⟨.chain d (leftOp_of_binaryOp? h (by decide)) d'⟩

/-! ## Names in parentheses -/

/-- Only a name in parentheses has a variable as its tree. -/
theorem Derivation.target {s ts x} : Derivation extended s ts (.var x) → Nonempty (Target ts x)
  | .leaf (.var h) => ⟨.name h⟩
  | .group h d h' => let ⟨t⟩ := d.target; ⟨.group h t h'⟩
  | .tighter _ d => d.target

end DebugExpr.Grammar
