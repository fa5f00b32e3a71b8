import DebugExpr.CommandLine.Bracket
import DebugExpr.Text.Blank
import DebugExpr.Text.Lines
import DebugExpr.Text.Width

/-!
# Display

What becomes of a text on its way to the terminal: backslashes before brackets are dropped, names
of pictures between colons are replaced, some control characters are dropped, and tabs are filled
up with spaces. This is the display of rich 14.3; versions before it also cut blanks at the end of a
line that is wider than the terminal.
-/

namespace DebugExpr.CommandLine

/-- The names of pictures that stand in the heading of a diagnostic, where a line number does. The
names made of letters, which only a quoted source can hold, are left out. -/
def pictures : List (List Char × Char) :=
  [(['1', '0', '0'], Char.ofNat 0x1F4AF), (['1', '2', '3', '4'], Char.ofNat 0x1F522)]

/-- The name that the first colon of a text closes, if no white space comes before it; the
opening colon is already read. -/
def pictureName? : List Char → Option (List Char)
  | [] => none
  | c :: cs =>
    if c == ':' then some []
    else if Text.isSpace c then none
    else (pictureName? cs).map (c :: ·)

/-- The text with its pictures. The first `inside` characters belong to a name that was read and
are kept, or dropped if the name was that of a picture. -/
def drawPictures (inside : Nat) (dropping : Bool) : List Char → List Char
  | [] => []
  | c :: cs =>
    match inside with
    | n + 1 => if dropping then drawPictures n true cs else c :: drawPictures n false cs
    | 0 =>
      match c, pictureName? cs with
      | ':', some name =>
        match pictures.lookup name with
        | some picture => picture :: drawPictures (name.length + 1) true cs
        | none => ':' :: drawPictures (name.length + 1) false cs
      | _, _ => c :: drawPictures 0 false cs

/-- The control characters that are dropped: bell, backspace, vertical tab, form feed and
carriage return. -/
def isDropped (c : Char) : Bool :=
  c == '\x07' || c == '\x08' || c == '\x0b' || c == '\x0c' || c == '\r'

def tabStop : Nat := 8

/-- The rest of a text after a part of a line that is measured, its tabs filled up to the next tab
stop. A tab counts as a space, and what follows it is measured by itself. -/
def expandTabs (m : Text.Measure) : List Char → List Char
  | [] => []
  | c :: cs =>
    if c == '\n' then c :: expandTabs {} cs
    else if c == '\t' then
      let column := (m.add ' ').cells
      let gap := (tabStop - column % tabStop) % tabStop
      ' ' :: (List.replicate gap ' ' ++ expandTabs { cells := column + gap } cs)
    else c :: expandTabs (m.add c) cs

def displayPiece (piece : List Char) : List Char :=
  drawPictures 0 false (dropBackslashes piece)

def display (s : String) : String :=
  let drawn := (pieces 0 s.toList).flatMap displayPiece
  String.ofList (expandTabs {} (drawn.filter (!isDropped ·)))

end DebugExpr.CommandLine
