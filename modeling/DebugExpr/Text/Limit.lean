import DebugExpr.Text.Lines

/-!
# Limits of what is written

An integer of too many digits is neither read nor written, and a run of spaces is no longer than an
index can count. Memory is taken to be sufficient.
-/

namespace DebugExpr.Text

/-- The most digits of an integer that is read or written. -/
def maxDigits : Nat := 4300

def digitCount (n : Int) : Nat :=
  (Nat.toDigits 10 n.natAbs).length

/-- Whether an integer of 64 bits can hold a number, as it must hold an index. -/
def isIndex (n : Int) : Bool :=
  -0x8000000000000000 ≤ n && n < 0x8000000000000000

def limitMessage : String :=
  "Exceeds the limit (" ++ toString maxDigits ++ " digits) for integer string conversion"

def limitAdvice : String :=
  "; use sys.set_int_max_str_digits() to increase the limit"

/-- What is said of an integer that is not read for its digits. -/
def longIntegerMessage (digits : Nat) : String :=
  limitMessage ++ ": value has " ++ toString digits ++ " digits" ++ limitAdvice

/-- Why a text cannot be written. -/
inductive Unwritable where
  | tooManyDigits
  /-- The number of spaces is no index. -/
  | tooWide
  /-- The line to be shown is not in the source. -/
  | noLine
  deriving DecidableEq

def Unwritable.message : Unwritable → String
  | tooManyDigits => limitMessage ++ limitAdvice
  | tooWide => "cannot fit 'int' into an index-sized integer"
  | noLine => "list index out of range"

def writeInt (n : Int) : Except Unwritable String :=
  if maxDigits < digitCount n then .error .tooManyDigits else .ok (toString n)

/-- So many spaces; none for a negative number. -/
def writeSpaces (n : Int) : Except Unwritable String :=
  if isIndex n then .ok (spaces n.toNat) else .error .tooWide

end DebugExpr.Text
