import DebugExpr.Token.Kind
import DebugExpr.Expr.Basic

/-!
# Operators and brackets

What the tokens mean to an expression: the operator each one stands for, how tightly the
operators bind, and the brackets that open and close groups.
-/

namespace DebugExpr

/-- How tightly an assignment binds: less than every operator. -/
def assignPrecedence : Nat := 1

def BinaryOp.precedence : BinaryOp → Nat
  | .or => 2
  | .and => 3
  | .add => 4
  | .sub | .concat => 5
  | .mul | .div => 6

inductive Bracket where
  | paren | brace
  deriving DecidableEq

namespace Bracket

def closing : Bracket → Token.Kind
  | paren => .rparen
  | brace => .rbrace

def closingText : Bracket → String
  | paren => ")"
  | brace => "\x7d"

def ofClosing? : Token.Kind → Option Bracket
  | .rparen => some paren
  | .rbrace => some brace
  | _ => none

end Bracket

namespace Token.Kind

def unaryOp? : Kind → Option UnaryOp
  | bang => some .not
  | minus => some .neg
  | _ => none

def binaryOp? : Kind → Option BinaryOp
  | or => some .or
  | and => some .and
  | plus => some .add
  | minus => some .sub
  | concat => some .concat
  | star => some .mul
  | slash => some .div
  | _ => none

/-- For an assignment token, the operator that it applies before assigning, if any. -/
def assignOp? : Kind → Option (Option BinaryOp)
  | assign => some none
  | starAssign => some (some .mul)
  | slashAssign => some (some .div)
  | plusAssign => some (some .add)
  | minusAssign => some (some .sub)
  | concatAssign => some (some .concat)
  | _ => none

end Token.Kind

end DebugExpr
