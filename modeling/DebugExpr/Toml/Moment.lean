import DebugExpr.Document.Decimal
import DebugExpr.Document.Value
import DebugExpr.Toml.Basic

/-!
# Dates and times

A date in figures, a time of day, or both. Each reader takes the longest part of the text that
has its form; a date that no calendar has is a failure.
-/

namespace DebugExpr.Toml

open Document

def twoDigits? (least most : Nat) : List Char → Option (Front Nat)
  | a :: b :: cs =>
    let n := natOfDigits 10 [a, b]
    if Text.isDecimal a && Text.isDecimal b && least ≤ n && n ≤ most then some (n, cs) else none
  | _ => none

def after? (c : Char) : List Char → Option (List Char)
  | d :: cs => if c = d then some cs else none
  | [] => none

def skipFraction (cs : List Char) : List Char :=
  match cs with
  | '.' :: c :: rest => if Text.isDecimal c then rest.dropWhile Text.isDecimal else cs
  | _ => cs

def time? (cs : List Char) : Option (List Char) := do
  let (_, cs) ← twoDigits? 0 23 cs
  let cs ← after? ':' cs
  let (_, cs) ← twoDigits? 0 59 cs
  let cs ← after? ':' cs
  let (_, cs) ← twoDigits? 0 59 cs
  return skipFraction cs

def skipOffset (cs : List Char) : List Char :=
  (offset? cs).getD cs
where
  offset? : List Char → Option (List Char)
    | 'Z' :: cs | 'z' :: cs => some cs
    | '+' :: cs | '-' :: cs => do
      let (_, cs) ← twoDigits? 0 23 cs
      let cs ← after? ':' cs
      let (_, cs) ← twoDigits? 0 59 cs
      return cs
    | _ => none

def skipTime (cs : List Char) : List Char :=
  match cs with
  | 'T' :: rest | 't' :: rest | ' ' :: rest => ((time? rest).map skipOffset).getD cs
  | _ => cs

def monthDays (year month : Nat) : Nat :=
  if month = 2 then
    if year % 4 = 0 ∧ (year % 100 ≠ 0 ∨ year % 400 = 0) then 29 else 28
  else if month = 4 ∨ month = 6 ∨ month = 9 ∨ month = 11 then 30
  else 31

/-- A date in figures, its time if one follows, and whether the calendar has the date. -/
def date? (cs : List Char) : Option (Front Bool) := do
  let (century, cs) ← twoDigits? 0 99 cs
  let (year, cs) ← twoDigits? 0 99 cs
  let cs ← after? '-' cs
  let (month, cs) ← twoDigits? 1 12 cs
  let cs ← after? '-' cs
  let (day, cs) ← twoDigits? 1 31 cs
  let year := 100 * century + year
  return (1 ≤ year && day ≤ monthDays year month, skipTime cs)

def moment? (cs : List Char) : Option (Except Failure (Front Value)) :=
  match date? cs with
  | some (inCalendar, rest) =>
    some (if inCalendar then .ok (.moment, rest) else fail .invalidMoment cs)
  | none => (time? cs).map fun rest => .ok (.moment, rest)

end DebugExpr.Toml
