import DebugExpr.Token.Input
import DebugExpr.Expr.Operators
import DebugExpr.Expr.Render

/-!
# Failures of the parser

A failure names its cause and the token to blame. It keeps the tokens from that one on, so
that it depends on no positions; at the end of the input none are left.
-/

namespace DebugExpr

inductive Cause where
  /-- Too many levels of nesting, or too high a tree. -/
  | tooDeep
  /-- Something other than a variable stands before an assignment. -/
  | notAssignable (target : Expr)
  /-- A binary literal, which the settings do not allow. -/
  | binaryLiteral
  | emptyParens
  /-- The input ends where an expression should begin. -/
  | missing
  /-- A closing bracket stands where an expression should begin. -/
  | closedEarly (value : String)
  /-- A closing bracket of which no group is open. -/
  | unmatched (value : String)
  | stray (value : String)
  /-- Another token stands where an expression should begin. -/
  | misplaced (kind : Token.Kind) (value : String)
  | unclosed (bracket : Bracket) (opener : String)
  /-- Another token stands where a group should be closed. -/
  | notClosed (bracket : Bracket) (kind : Token.Kind) (value : String)
  | leftOver (value : String)

def Cause.message : Cause → String
  | tooDeep => "Expression nested too deeply"
  | notAssignable target => "Cannot assign to " ++ target.render ++ ": target must be a variable"
  | binaryLiteral => "Binary literals require extended mode"
  | emptyParens => "Empty parentheses: expected an expression"
  | missing => "Unexpected end of input: expected an expression"
  | closedEarly value => "Expected an expression, got " ++ Text.quoted value
  | unmatched value => "Unmatched " ++ Text.quoted value
  | stray value => "Unexpected character: " ++ Text.quoted value
  | misplaced kind value => "Expected an expression, got " ++ kind.describe value
  | unclosed bracket opener =>
    "Unmatched " ++ Text.quoted opener ++ ": expected " ++ Text.quoted bracket.closingText
  | notClosed bracket kind value =>
    "Expected " ++ Text.quoted bracket.closingText ++ ", got " ++ kind.describe value
  | leftOver value => "Unexpected token after expression: " ++ Text.quoted value

/-- A cause with the tokens from the blamed one on. -/
structure Failure where
  cause : Cause
  rest : List Token

/-- The offset of the blamed token, or of the end of the input. -/
def Failure.pos (input : Token.Input) (f : Failure) : Int :=
  match f.rest with
  | [] => input.stop
  | t :: _ => t.pos

end DebugExpr
