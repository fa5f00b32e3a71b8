import DebugExpr.Parse.Basic

/-!
# Function literals

Names in parentheses and a body in braces. The tokens up to the opening brace tell a function
literal from a group.
-/

namespace DebugExpr.Parse

def endsParams : List Token → Bool
  | t :: u :: _ => t.kind = .rparen && u.kind = .lbrace
  | _ => false

/-- Whether commas with a name each follow, up to the end of the parameters. -/
def moreParams : List Token → Bool
  | t :: u :: rest =>
    if t.kind = .comma ∧ u.kind = .ident then moreParams rest else endsParams (t :: u :: rest)
  | _ => false

/-- Whether the tokens after an opening parenthesis go on as those of a function literal. -/
def opensFunc : List Token → Bool
  | [] => false
  | t :: rest => if t.kind = .ident then moreParams rest else endsParams (t :: rest)

def takeParams : List Token → List String × List Token
  | [] => ([], [])
  | t :: rest =>
    if t.kind = .rparen then ([], rest)
    else
      let (params, after) := match rest with
        | [] => ([], [])
        | u :: rest => if u.kind = .comma then takeParams rest else takeParams (u :: rest)
      (t.value :: params, after)

/-- The body of a function literal; the opening brace is already read. -/
def funcBody (inner : Level) (groups : List Bracket) (params : List String) (opener : Token)
    (inside : List Token) : Except Failure (Front Expr) := do
  let (body, rest) ←
    if nextIs .rbrace inside then .ok ([], inside) else exprs inner (.brace :: groups) inside
  let rest ← closeGroup .brace opener inside rest
  build (.func params body) rest

end DebugExpr.Parse
