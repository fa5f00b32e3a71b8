import DebugExpr.Settings.Basic
import DebugExpr.Parse.Operand
import DebugExpr.Parse.Operators

/-!
# Expressions of tokens

The levels of nesting, and the expression that all tokens of an input form.
-/

namespace DebugExpr

namespace Parse

namespace Level

/-- No level left: nothing can be read. -/
def bottom : Level where
  expr _ _ ts := fail .tooDeep ts
  operand _ ts := fail .tooDeep ts

def above (extended : Bool) (inner : Level) : Level where
  expr groups least ts := do
    let (e, rest) ← unary extended inner groups ts
    operators inner groups least rest.length e rest
  operand groups ts := unary extended inner groups ts

def ofDepth (extended : Bool) : Nat → Level
  | 0 => bottom
  | n + 1 => above extended (ofDepth extended n)

end Level

/-- Why no token may follow a whole expression. -/
def leftOver (t : Token) : Cause :=
  match Bracket.ofClosing? t.kind with
  | some _ => .unmatched t.value
  | none => if t.kind = .unknown then .stray t.value else .leftOver t.value

end Parse

namespace Expr

/-- The one expression that all the tokens form. -/
def ofTokens (extended : Bool) (ts : List Token) : Except Failure Expr := do
  let (e, rest) ← (Parse.Level.ofDepth extended maxDepth).expr [] assignPrecedence ts
  match rest with
  | [] => return e
  | t :: rest => Parse.fail (Parse.leftOver t) (t :: rest)

def ofInput (settings : Settings) (input : Token.Input) : Except Failure Expr :=
  ofTokens settings.extended input.tokens

end Expr

end DebugExpr
