import DebugExpr.Settings.Basic
import DebugExpr.Token.Lexeme

/-!
# Tokens of a source

A source is read from left to right: blanks are passed over, and each lexeme becomes a token.
The list ends with the mark at the end of the input.
-/

namespace DebugExpr.Token

/-- A string literal without a closing quote; the place is that of its opening quote. -/
structure Unclosed where
  pos : Nat
  deriving DecidableEq

def Unclosed.message : String :=
  "Unterminated string literal"

/-- The tokens of a text that stands at an offset. The first `inside` characters belong to the
lexeme read last and are passed over. -/
def scan (extended : Bool) (inside pos : Nat) : List Char → Except Unclosed (List Token)
  | [] => .ok [endMark pos]
  | c :: cs =>
    match inside with
    | n + 1 => scan extended n (pos + 1) cs
    | 0 =>
      if Text.isBlank c then scan extended 0 (pos + 1) cs
      else match lexeme? extended c cs with
        | none => .error ⟨pos⟩
        | some (kind, value) => do
          let rest ← scan extended ((kind.spell value).length - 1) (pos + 1) cs
          return ⟨kind, String.ofList value, pos⟩ :: rest

def ofSource (settings : Settings) (source : String) : Except Unclosed (List Token) :=
  scan settings.extended 0 0 source.toList

end DebugExpr.Token
