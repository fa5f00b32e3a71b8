/-!
# Brackets

A name in brackets is kept as it stands. A backslash only keeps a bracket from being taken for
the beginning of a name, so one that stands before any other bracket is dropped.
-/

namespace DebugExpr.CommandLine

/-- Whether a name in brackets can begin with a character. -/
def beginsName (c : Char) : Bool :=
  ('a' ≤ c && c ≤ 'z') || c == '#' || c == '/' || c == '@'

/-- The number of characters up to the first closing bracket, with that bracket, if no other
opening bracket comes before it. -/
def closing? : List Char → Option Nat
  | [] => none
  | c :: cs =>
    if c == ']' then some 1
    else if c == '[' then none
    else (closing? cs).map (· + 1)

/-- The length of the name at the front of a text, with its brackets. -/
def nameLength? : List Char → Option Nat
  | '[' :: c :: cs => if beginsName c then (closing? cs).map (· + 2) else none
  | _ => none

def extendFirst (c : Char) : List (List Char) → List (List Char)
  | [] => [[c]]
  | piece :: rest => (c :: piece) :: rest

/-- The text cut into the names in brackets and what stands between them. The first `inside`
characters belong to a name. -/
def pieces (inside : Nat) : List Char → List (List Char)
  | [] => [[]]
  | c :: cs =>
    match inside with
    | 0 =>
      match nameLength? (c :: cs) with
      | some n => [] :: extendFirst c (pieces (n - 1) cs)
      | none => extendFirst c (pieces 0 cs)
    | 1 => [c] :: pieces 0 cs
    | n + 1 => extendFirst c (pieces n cs)

/-- A piece without the backslashes before its brackets. In a name no bracket has one before it. -/
def dropBackslashes : List Char → List Char
  | '\\' :: '[' :: cs => '[' :: dropBackslashes cs
  | c :: cs => c :: dropBackslashes cs
  | [] => []

theorem flatten_extendFirst (c : Char) (ps : List (List Char)) :
    (extendFirst c ps).flatten = c :: ps.flatten := by
  cases ps <;> simp [extendFirst]

/-- Nothing is lost between the pieces. -/
theorem flatten_pieces (inside : Nat) (cs : List Char) : (pieces inside cs).flatten = cs := by
  fun_induction pieces inside cs <;> simp_all [flatten_extendFirst]

end DebugExpr.CommandLine
