import DebugExpr.Token.Kind
import DebugExpr.Text.Quoted

/-!
# Tokens

A token has a kind, a value and a position. The value of a literal lacks its radix mark or
its quotes; the spelling puts them back.
-/

namespace DebugExpr

/-- A lexeme with its place, an offset in characters. -/
structure Token where
  kind : Token.Kind
  value : String
  pos : Int
  deriving DecidableEq

namespace Token

/-- How a value of a kind is written in the source. -/
def Kind.spell : Kind → List Char → List Char
  | .hex, value => '0' :: 'x' :: value
  | .bin, value => '0' :: 'b' :: value
  | .string, value => '"' :: (value ++ ['"'])
  | _, value => value

def spelling (t : Token) : List Char :=
  t.kind.spell t.value.toList

def endMark (pos : Int) : Token :=
  ⟨.eof, "", pos⟩

/-- The offset just after the value, counted from the position. -/
def stop (t : Token) : Int :=
  t.pos + t.value.length

def Kind.unknownName (name : String) : String :=
  Text.quoted name ++ " is not a valid TokenKind"

/-- A token as diagnostics name it: kind and quoted value. -/
def Kind.describe (kind : Kind) (value : String) : String :=
  kind.name ++ " (" ++ Text.quoted value ++ ")"

def inspect (t : Token) : String :=
  "Token(" ++ t.kind.name ++ ", " ++ Text.quoted t.value ++ ", pos=" ++ toString t.pos ++ ")"

end Token

end DebugExpr
