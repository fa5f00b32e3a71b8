import DebugExpr.Parse.Function

/-!
# Operands

Literals, variables, calls, function literals and groups, with the prefix operators before them.
-/

namespace DebugExpr.Parse

/-- A call; the name and the opening parenthesis are already read. -/
def call (inner : Level) (groups : List Bracket) (name : String) (opener : Token)
    (inside : List Token) : Except Failure (Front Expr) :=
  if nextIs .rparen inside then .ok (.bareCall name, inside.tail)
  else do
    let (args, rest) ← exprs inner (.paren :: groups) inside
    let rest ← closeGroup .paren opener inside rest
    build (.call name args) rest

/-- What an opening parenthesis begins: a function literal or a group. -/
def parens (inner : Level) (groups : List Bracket) (opener : Token) (inside : List Token) :
    Except Failure (Front Expr) :=
  if opensFunc inside then
    match takeParams inside with
    | (params, brace :: body) => funcBody inner groups params brace body
    | (_, []) => fail .missing []
  else if nextIs .rparen inside then fail .emptyParens (opener :: inside)
  else do
    let (e, rest) ← inner.expr (.paren :: groups) assignPrecedence inside
    let rest ← closeGroup .paren opener inside rest
    return (e, rest)

def noOperand (groups : List Bracket) (t : Token) : Cause :=
  match Bracket.ofClosing? t.kind with
  | some bracket => if bracket ∈ groups then .closedEarly t.value else .unmatched t.value
  | none => if t.kind = .unknown then .stray t.value else .misplaced t.kind t.value

def primary (extended : Bool) (inner : Level) (groups : List Bracket) :
    List Token → Except Failure (Front Expr)
  | [] => fail .missing []
  | t :: rest =>
    match t.kind with
    | .number => .ok (.number .dec t.value, rest)
    | .hex => .ok (.number .hex t.value, rest)
    | .bin => if extended then .ok (.number .bin t.value, rest) else fail .binaryLiteral (t :: rest)
    | .string => .ok (.string t.value, rest)
    | .ident =>
      match rest with
      | u :: inside =>
        if u.kind = .lparen then call inner groups t.value u inside
        else .ok (.var t.value, u :: inside)
      | [] => .ok (.var t.value, [])
    | .lparen => parens inner groups t rest
    | _ => fail (noOperand groups t) (t :: rest)

def unary (extended : Bool) (inner : Level) (groups : List Bracket) :
    List Token → Except Failure (Front Expr)
  | [] => fail .missing []
  | t :: rest =>
    match t.kind.unaryOp? with
    | some op => do
      let (e, rest) ← inner.operand groups rest
      build (.unary op e) rest
    | none => primary extended inner groups (t :: rest)

end DebugExpr.Parse
