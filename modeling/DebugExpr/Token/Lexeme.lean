import DebugExpr.Text.Blank
import DebugExpr.Text.Digit
import DebugExpr.Token.Basic

/-!
# Lexemes

The lexeme at the front of a text. Its class follows from its first characters alone:
a double quote opens a string, a digit a number, a letter or underscore an identifier, and of
the operators the longest that fits is taken.
-/

namespace DebugExpr.Token

def isIdentStart (c : Char) : Bool :=
  ('a' ≤ c && c ≤ 'z') || ('A' ≤ c && c ≤ 'Z') || c == '_'

def isIdentRest (c : Char) : Bool :=
  isIdentStart c || Text.isDecimal c

/-- A lexeme without its place: the kind and the value. -/
abbrev Lexeme := Kind × List Char

/-- A string literal up to its closing quote; the opening quote is already read. -/
def stringLexeme? (cs : List Char) : Option Lexeme :=
  if cs.contains '"' then some (.string, cs.takeWhile (· != '"')) else none

/-- A literal that begins with a digit. A radix mark may have no digits after it. -/
def numberLexeme (extended : Bool) (c : Char) (cs : List Char) : Lexeme :=
  match c, cs with
  | '0', 'x' :: digits => (.hex, digits.takeWhile Text.isHexadecimal)
  | '0', 'b' :: digits =>
    if extended then (.bin, digits.takeWhile Text.isBinary)
    else (.number, '0' :: cs.takeWhile Text.isDecimal)
  | _, _ => (.number, c :: cs.takeWhile Text.isDecimal)

/-- The first operator that the text begins with, if any does. -/
def operatorLexeme? (cs : List Char) : Option Lexeme :=
  (Kind.operators.find? fun op => op.1.isPrefixOf cs).map fun op => (op.2, op.1)

/-- The lexeme at the front of a text that begins with `c`, which is no blank; none when a
string is not closed. -/
def lexeme? (extended : Bool) (c : Char) (cs : List Char) : Option Lexeme :=
  if c == '"' then stringLexeme? cs
  else if Text.isDecimal c then some (numberLexeme extended c cs)
  else if isIdentStart c then some (.ident, c :: cs.takeWhile isIdentRest)
  else some ((operatorLexeme? (c :: cs)).getD (.unknown, [c]))

end DebugExpr.Token
