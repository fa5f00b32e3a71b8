import DebugExpr.Text.Digit

/-!
# Decimal numbers

From the digits of a number to its value: exact for integers, the nearest floating-point
number for those with a fraction or an exponent.
-/

namespace DebugExpr.Document

/-- The natural number written in digits of a base. -/
def natOfDigits (base : Nat) (digits : List Char) : Nat :=
  digits.foldl (fun n c => base * n + digitOf c) 0
where
  /-- The value of a digit; letters stand for ten and above. -/
  digitOf (c : Char) : Nat :=
    if Text.isDecimal c then c.toNat - '0'.toNat
    else if 'a' ≤ c then c.toNat - 'a'.toNat + 10
    else c.toNat - 'A'.toNat + 10

def signed (negative : Bool) (n : Nat) : Int :=
  if negative then -n else n

/-- The floating-point number nearest to `mantissa` times ten to the `exponent`. An exponent
far outside the range of such numbers is not computed with. -/
def floatOfDecimal (negative : Bool) (mantissa : Nat) (exponent : Int) : Float :=
  let magnitude := (Nat.toDigits 10 mantissa).length + exponent
  let x : Float :=
    if mantissa = 0 ∨ magnitude < -400 then 0.0
    else if magnitude > 400 then 1.0 / 0.0
    else Float.ofScientific mantissa (exponent < 0) exponent.natAbs
  if negative then -x else x

/-- The floating-point number written with whole digits, fraction digits and an exponent. -/
def floatOfDigits (negative : Bool) (whole fraction : List Char) (exponent : Int) : Float :=
  floatOfDecimal negative (natOfDigits 10 (whole ++ fraction)) (exponent - fraction.length)

end DebugExpr.Document
