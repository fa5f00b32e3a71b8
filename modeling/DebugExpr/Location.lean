import DebugExpr.Text.Limit

/-!
# Locations

A place in a source, shown as a line and a column with the line itself and a caret below it.
A place may lie outside the source: its line is that of the nearest prefix, where a negative
place counts from the end, and its column is counted from the place itself. A place so far outside
that its numbers or the spaces before the caret exceed the limits cannot be shown.
-/

namespace DebugExpr

/-- An offset in a source, with the name the source is shown by. -/
structure Location where
  source : String
  pos : Int
  origin : String := "<input>"

namespace Location

def before (l : Location) : List Char :=
  let n := l.source.length
  let stop := if l.pos < 0 then l.pos + n else l.pos
  l.source.toList.take stop.toNat

/-- The number of the line, from one. -/
def line (l : Location) : Nat :=
  l.before.count '\n' + 1

def lineStart (l : Location) : Nat :=
  l.before.length - (l.before.reverse.takeWhile (· != '\n')).length

/-- The number of the column, from one for a place inside the source. -/
def column (l : Location) : Int :=
  l.pos - l.lineStart + 1

def lineText (l : Location) : List Char :=
  (Text.lines l.source.toList).getD (l.line - 1) []

/-- What stands before the text of the line: its number, filled up to four places. -/
def margin (l : Location) : String :=
  let number := toString l.line
  Text.spaces (4 - number.length) ++ number ++ " | "

def snippet (l : Location) : String :=
  l.margin ++ String.ofList l.lineText ++ "\n" ++
    Text.spaces (l.margin.length + l.column - 1).toNat ++ "^"

/-- The place in full: origin, line and column, and the snippet. -/
def format (l : Location) : String :=
  l.origin ++ ":" ++ toString l.line ++ ":" ++ toString l.column ++ "\n" ++ l.snippet

def snippet? (l : Location) : Except Text.Unwritable String := do
  match (Text.lines l.source.toList)[l.line - 1]? with
  | none => throw .noLine
  | some text =>
    let caret ← Text.writeSpaces (l.margin.length + l.column - 1)
    return l.margin ++ String.ofList text ++ "\n" ++ caret ++ "^"

/-- The place in full, or why it cannot be shown. -/
def format? (l : Location) : Except Text.Unwritable String := do
  let line ← Text.writeInt l.line
  let column ← Text.writeInt l.column
  return l.origin ++ ":" ++ line ++ ":" ++ column ++ "\n" ++ (← l.snippet?)

end Location

end DebugExpr
