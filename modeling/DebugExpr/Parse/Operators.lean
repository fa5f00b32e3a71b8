import DebugExpr.Parse.Basic

/-!
# Operators between operands

A sum takes all further summands to its right; the other operators group from the left, and
an assignment from the right.
-/

namespace DebugExpr.Parse

def sumRight (rest : List Token) : Expr → List Expr → Except Failure Expr
  | e, [] => .ok e
  | e, e' :: es => do
    let right ← sumRight rest e' es
    let (sum, _) ← build (.binary .add e right) rest
    return sum

/-- The right operand of an operator. That of a sum takes all further summands. -/
def rightOperand (inner : Level) (groups : List Bracket) (op : BinaryOp) (ts : List Token) :
    Except Failure (Front Expr) := do
  let item := inner.expr groups (op.precedence + 1)
  let (e, rest) ← item ts
  if op = .add then
    let (es, rest) ← separated .plus item rest.length rest
    let right ← sumRight rest e es
    return (right, rest)
  else return (e, rest)

/-- An assignment to the expression already read; its sign is read as well. -/
def assignment (inner : Level) (groups : List Bracket) (target : Expr) (op : Option BinaryOp)
    (sign : Token) (ts : List Token) : Except Failure (Front Expr) :=
  match target with
  | .var name => do
    let (value, rest) ← inner.expr groups assignPrecedence ts
    let (value, rest) ← match op with
      | some op => build (.binary op (.var name) value) rest
      | none => .ok (value, rest)
    build (.assign name value) rest
  | _ => fail (.notAssignable target) (sign :: ts)

/-- The operators after an operand, from left to right, as far as they bind tightly enough.
The bound is at least the number of tokens. -/
def operators (inner : Level) (groups : List Bracket) (least : Nat) :
    (bound : Nat) → Expr → List Token → Except Failure (Front Expr)
  | bound + 1, left, t :: rest =>
    match t.kind.assignOp?, t.kind.binaryOp? with
    | some op, _ =>
      if least > assignPrecedence then .ok (left, t :: rest)
      else do
        let (e, rest) ← assignment inner groups left op t rest
        operators inner groups least bound e rest
    | none, some op =>
      if op.precedence < least then .ok (left, t :: rest)
      else do
        let (right, rest) ← rightOperand inner groups op rest
        let (e, rest) ← build (.binary op left right) rest
        operators inner groups least bound e rest
    | none, none => .ok (left, t :: rest)
  | _, left, ts => .ok (left, ts)

end DebugExpr.Parse
