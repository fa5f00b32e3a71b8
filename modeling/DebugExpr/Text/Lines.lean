/-!
# Lines

Texts cut into lines, and padding.
-/

namespace DebugExpr.Text

/-- The lines of a text; a line ends at a line feed only, and the last one may be empty. -/
def lines : List Char → List (List Char)
  | [] => [[]]
  | c :: cs =>
    match lines cs with
    | [] => [[]]
    | line :: rest => if c == '\n' then [] :: line :: rest else (c :: line) :: rest

/-- The text with each of the three line ends written as a line feed. -/
def unifyLineEnds : List Char → List Char
  | '\r' :: '\n' :: cs => '\n' :: unifyLineEnds cs
  | '\r' :: cs => '\n' :: unifyLineEnds cs
  | c :: cs => c :: unifyLineEnds cs
  | [] => []

/-- The lines of an input, each ended by one of the three line ends; nothing after the last
end is no line. -/
def inputLines (cs : List Char) : List (List Char) :=
  let ls := lines (unifyLineEnds cs)
  if ls.getLast? = some [] then ls.dropLast else ls

def spaces (n : Nat) : String :=
  String.ofList (List.replicate n ' ')

end DebugExpr.Text
