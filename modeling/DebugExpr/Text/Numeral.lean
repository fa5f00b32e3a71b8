import DebugExpr.Text.Blank
import DebugExpr.Text.Digit
import DebugExpr.Text.Limit
import DebugExpr.Text.Quoted

/-!
# Numerals

Reading an integer: white space around it, one sign, and digits of any script that may have
single underscores between them. Too many digits are not read.
-/

namespace DebugExpr

/-- Why a text is not read as an integer. -/
inductive BadNumeral where
  | notInteger (text : String)
  | tooManyDigits (digits : Nat)
  deriving DecidableEq

def BadNumeral.message : BadNumeral → String
  | notInteger text => "invalid literal for int() with base 10: " ++ Text.quoted text
  | tooManyDigits digits => Text.longIntegerMessage digits

namespace Text

/-- The number that digits continue, after how many digits there are with those before. The flag
tells whether a digit stands just before. -/
def readDigits (count value : Nat) (afterDigit : Bool) : List Char → Option (Nat × Nat)
  | [] => if afterDigit then some (count, value) else none
  | c :: cs =>
    if c == '_' then
      if afterDigit then readDigits count value false cs else none
    else
      match digitValue? c with
      | some d => readDigits (count + 1) (10 * value + d) true cs
      | none => none

/-- The number of digits of an integer, and the integer. -/
def readNumeral? (s : String) : Option (Nat × Int) :=
  match stripWith isNumeralSpace s.toList with
  | '-' :: cs => (readDigits 0 0 false cs).map fun (count, n) => (count, -(n : Int))
  | '+' :: cs => (readDigits 0 0 false cs).map fun (count, n) => (count, (n : Int))
  | cs => (readDigits 0 0 false cs).map fun (count, n) => (count, (n : Int))

/-- The integer that a text stands for. Zeros in front count as digits. -/
def readInt (s : String) : Except BadNumeral Int :=
  match readNumeral? s with
  | none => .error (.notInteger s)
  | some (digits, value) =>
    if maxDigits < digits then .error (.tooManyDigits digits) else .ok value

end Text

end DebugExpr
