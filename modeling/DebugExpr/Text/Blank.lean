/-!
# Blank characters

Three sets: the blanks between tokens, the blanks cut from the ends of a line, and the
blanks cut from the ends of a numeral.
-/

namespace DebugExpr.Text

def isBlank (c : Char) : Bool :=
  c == ' ' || c == '\t' || c == '\n' || c == '\r' || c == '\x0c' || c == '\x0b'

def isWideSpace (c : Char) : Bool :=
  c == '\x85' || c == '\xa0' || c == '\u1680' || ('\u2000' ≤ c && c ≤ '\u200a') ||
    c == '\u2028' || c == '\u2029' || c == '\u202f' || c == '\u205f' || c == '\u3000'

/-- The white space cut from the ends of a numeral. -/
def isNumeralSpace (c : Char) : Bool :=
  isBlank c || isWideSpace c

/-- The white space cut from the ends of a line: the separators U+001C to U+001F count. -/
def isSpace (c : Char) : Bool :=
  isNumeralSpace c || ('\x1c' ≤ c && c ≤ '\x1f')

/-- A list without the members of a class at either end. -/
def stripWith (p : Char → Bool) (cs : List Char) : List Char :=
  ((cs.dropWhile p).reverse.dropWhile p).reverse

def strip (s : String) : String :=
  String.ofList (stripWith isSpace s.toList)

end DebugExpr.Text
