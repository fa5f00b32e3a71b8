import DebugExpr.Document.Value
import DebugExpr.Document.Decimal
import DebugExpr.Toml.Basic

/-!
# Numbers

Each reader takes the longest part of the text that has its form. Digits may have single
underscores between them.
-/

namespace DebugExpr.Toml

open Document

/-- Digits that go on after a first one, without their underscores. -/
def moreDigits (p : Char → Bool) : List Char → Front (List Char)
  | '_' :: c :: cs =>
    if p c then
      let (digits, rest) := moreDigits p cs
      (c :: digits, rest)
    else ([], '_' :: c :: cs)
  | c :: cs =>
    if p c then
      let (digits, rest) := moreDigits p cs
      (c :: digits, rest)
    else ([], c :: cs)
  | [] => ([], [])

def digits? (p : Char → Bool) : List Char → Option (Front (List Char))
  | c :: cs =>
    if p c then
      let (digits, rest) := moreDigits p cs
      some (c :: digits, rest)
    else none
  | [] => none

def basedInt? : List Char → Option (Front Value)
  | '0' :: 'x' :: cs => read 16 Text.isHexadecimal cs
  | '0' :: 'b' :: cs => read 2 Text.isBinary cs
  | '0' :: 'o' :: cs => read 8 (fun c => '0' ≤ c && c ≤ '7') cs
  | _ => none
where
  read (base : Nat) (p : Char → Bool) (cs : List Char) : Option (Front Value) :=
    (digits? p cs).map fun (digits, rest) => (.int (natOfDigits base digits), rest)

/-- A sign, if there is one, as whether it is a minus. -/
def sign : List Char → Front Bool
  | '-' :: cs => (true, cs)
  | '+' :: cs => (false, cs)
  | cs => (false, cs)

/-- The digits of a decimal integer: a zero, or digits that do not begin with one. -/
def wholeDigits? : List Char → Option (Front (List Char))
  | '0' :: cs => some (['0'], cs)
  | cs => digits? Text.isDecimal cs

def fraction? : List Char → Option (Front (List Char))
  | '.' :: cs => digits? Text.isDecimal cs
  | _ => none

def exponent? : List Char → Option (Front Int)
  | 'e' :: cs | 'E' :: cs =>
    let (negative, cs) := sign cs
    (digits? Text.isDecimal cs).map fun (digits, rest) =>
      (signed negative (natOfDigits 10 digits), rest)
  | _ => none

def decimalInt (negative : Bool) (digits rest : List Char) : Except Failure (Front Value) :=
  if Text.maxDigits < digits.length then fail (.longInteger digits.length) rest
  else .ok (.int (signed negative (natOfDigits 10 digits)), rest)

/-- A decimal number: an integer unless a fraction or an exponent follows. -/
def decimal? (cs : List Char) : Option (Except Failure (Front Value)) := do
  let (negative, cs) := sign cs
  let (whole, cs) ← wholeDigits? cs
  match fraction? cs with
  | some (fraction, cs) =>
    let (exponent, cs) := (exponent? cs).getD (0, cs)
    return .ok (.float (floatOfDigits negative whole fraction exponent), cs)
  | none =>
    match exponent? cs with
    | some (exponent, cs) => return .ok (.float (floatOfDigits negative whole [] exponent), cs)
    | none => return decimalInt negative whole cs

def special? (cs : List Char) : Option (Front Value) :=
  let (negative, cs) := sign cs
  match cs with
  | 'i' :: 'n' :: 'f' :: cs => some (.float (if negative then -1.0 / 0.0 else 1.0 / 0.0), cs)
  | 'n' :: 'a' :: 'n' :: cs => some (.float (0.0 / 0.0), cs)
  | _ => none

def number? (cs : List Char) : Option (Except Failure (Front Value)) :=
  (basedInt? cs).map .ok <|> decimal? cs <|> (special? cs).map .ok

end DebugExpr.Toml
