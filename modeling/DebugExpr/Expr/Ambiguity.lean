import DebugExpr.Expr.Walk
import DebugExpr.Text.Numeral

/-!
# Ambiguous literals

A bare decimal literal is a number, but its digits may have been meant as hexadecimal data,
which has an even number of digits, or as the number of an opcode, which is at most 16.
-/

namespace DebugExpr

namespace Ambiguity

def int64Max : Int := 0x7FFFFFFFFFFFFFFF

def int64Digits : Nat := 19

def opening (text : String) : String :=
  "ambiguous input " ++ text ++ " is interpreted as a numeric value; use "

def hexWarning (text : String) : String :=
  opening text ++ "0x" ++ text ++ " to force into hexadecimal interpretation"

def opcodeWarning (text : String) : String :=
  opening text ++ "OP_" ++ text ++ " to force into opcode"

/-- The warnings for a text that stands for a value; none unless it is the plain text of a
value of 64 bits. -/
def ofValue (text : String) (value : Int) : List String :=
  if toString value ≠ text ∨ value > int64Max then []
  else
    (if text.length % 2 = 0 then [hexWarning text] else []) ++
      (if 1 ≤ value ∧ value ≤ 16 then [opcodeWarning text] else [])

/-- The warnings for the text of a decimal literal, which is read as an integer. -/
def ofAnyLength (text : String) : Except BadNumeral (List String) :=
  (Text.readInt text).map (ofValue text)

/-- The warnings for the text of a decimal literal. One of more digits than a value of 64 bits
is not read at all. -/
def ofText (text : String) : Except BadNumeral (List String) :=
  if text.length > int64Digits then .ok [] else ofAnyLength text

def ofNode : Expr → Except BadNumeral (List String)
  | .number .dec text => ofText text
  | _ => .ok []

end Ambiguity

/-- The warnings for all literals of an expression, in the order of the walk. -/
def Expr.warnings (e : Expr) : Except BadNumeral (List String) := do
  return (← e.walk.mapM Ambiguity.ofNode).flatten

end DebugExpr
