import DebugExpr.Location
import DebugExpr.Text.Digit
import DebugExpr.Text.Limit
import DebugExpr.Text.Quoted

/-!
# Reading configuration text

Failures, and the small readers that all parts of the format share.
-/

namespace DebugExpr.Toml

abbrev Key := List String

/-- A path as messages show it: quoted names in parentheses. -/
def showKey : Key → String
  | [name] => "(" ++ Text.quoted name ++ ",)"
  | names => "(" ++ ", ".intercalate (names.map Text.quoted) ++ ")"

inductive Cause where
  | invalidStatement | trailingText | invalidKey | missingEquals | invalidValue
  | unterminatedString | invalidEscape | invalidHex | notScalar | invalidMoment
  | unclosedArray | unclosedTable | unclosedHeader | unclosedItemHeader | overwrittenValue
  | illegalCharacter (c : Char)
  /-- A control character in a literal string or a comment. -/
  | foundCharacter (c : Char)
  /-- A literal string without its closing quotes. -/
  | expected (quotes : String)
  | repeatedTable (k : Key)
  | fixedNamespace (k : Key)
  | redefinedNamespace (k : Key)
  | repeatedKey (name : String)
  | longInteger (digits : Nat)

def Cause.message : Cause → String
  | invalidStatement => "Invalid statement"
  | trailingText => "Expected newline or end of document after a statement"
  | invalidKey => "Invalid initial character for a key part"
  | missingEquals => "Expected '=' after a key in a key/value pair"
  | invalidValue => "Invalid value"
  | unterminatedString => "Unterminated string"
  | invalidEscape => "Unescaped '\\' in a string"
  | invalidHex => "Invalid hex value"
  | notScalar => "Escaped character is not a Unicode scalar value"
  | invalidMoment => "Invalid date or datetime"
  | unclosedArray => "Unclosed array"
  | unclosedTable => "Unclosed inline table"
  | unclosedHeader => "Expected ']' at the end of a table declaration"
  | unclosedItemHeader => "Expected ']]' at the end of an array declaration"
  | overwrittenValue => "Cannot overwrite a value"
  | illegalCharacter c => "Illegal character " ++ Text.quoted c.toString
  | foundCharacter c => "Found invalid character " ++ Text.quoted c.toString
  | expected quotes => "Expected " ++ Text.quoted quotes
  | repeatedTable k => "Cannot declare " ++ showKey k ++ " twice"
  | fixedNamespace k => "Cannot mutate immutable namespace " ++ showKey k
  | redefinedNamespace k => "Cannot redefine namespace " ++ showKey k
  | repeatedKey name => "Duplicate inline table key " ++ Text.quoted name
  | longInteger digits => Text.longIntegerMessage digits

structure Failure where
  cause : Cause
  rest : List Char

/-- The failure in full, with the line and the column of its place in the text. -/
def Failure.message (text : List Char) (f : Failure) : String :=
  let place : Location :=
    { source := String.ofList text, pos := text.length - f.rest.length }
  let shown := if f.rest = [] then "end of document"
    else "line " ++ toString place.line ++ ", column " ++ toString place.column
  f.cause.message ++ " (at " ++ shown ++ ")"

inductive Refusal where
  /-- The text is none; what is wrong, and where. -/
  | malformed (reason : String)
  /-- An integer has too many digits. Such a text may be a document. -/
  | longInteger (digits : Nat)

def Failure.refusal (text : List Char) (f : Failure) : Refusal :=
  match f.cause with
  | .longInteger digits => .longInteger digits
  | _ => .malformed (f.message text)

/-- What is read from the front of a text, and the text after it. -/
abbrev Front (α : Type) := α × List Char

def fail {α : Type} (cause : Cause) (cs : List Char) : Except Failure α :=
  .error ⟨cause, cs⟩

def isSpace (c : Char) : Bool :=
  c == ' ' || c == '\t'

def isSpaceOrNewline (c : Char) : Bool :=
  isSpace c || c == '\n'

/-- A control character other than the tab: it may stand nowhere in a line. -/
def isForbidden (c : Char) : Bool :=
  (c < ' ' && c != '\t') || c == '\x7f'

/-- A control character other than the tab and the line feed. -/
def isForbiddenInLines (c : Char) : Bool :=
  isForbidden c && c != '\n'

def skipSpaces (cs : List Char) : List Char :=
  cs.dropWhile isSpace

/-- The text after a part that holds no forbidden character. -/
def skipClean (forbidden : Char → Bool) (part rest : List Char) :
    Except Failure (List Char) :=
  match part.dropWhile (!forbidden ·) with
  | [] => .ok rest
  | c :: cs => fail (.foundCharacter c) (c :: cs ++ rest)

def skipComment (cs : List Char) : Except Failure (List Char) :=
  match cs with
  | '#' :: cs => skipClean isForbidden (cs.takeWhile (· != '\n')) (cs.dropWhile (· != '\n'))
  | cs => .ok cs

/-- The text after blanks, line ends and comments. The bound is at least its length. -/
def skipFiller : (bound : Nat) → List Char → Except Failure (List Char)
  | 0, cs => .ok cs
  | bound + 1, cs =>
    match cs.dropWhile isSpaceOrNewline with
    | '#' :: cs => do skipFiller bound (← skipComment ('#' :: cs))
    | cs => .ok cs

end DebugExpr.Toml
