import DebugExpr.Document.Decimal
import DebugExpr.Toml.Basic

/-!
# Strings

Basic strings with escapes and literal strings without, each on one line or, between three
quotes, on several.
-/

namespace DebugExpr.Toml

def codePoint (length : Nat) (cs : List Char) : Except Failure (Front Char) :=
  let digits := cs.take length
  let n := Document.natOfDigits 16 digits
  if ¬(digits.length = length ∧ digits.all Text.isHexadecimal) then fail .invalidHex cs
  else if n.isValidChar then .ok (Char.ofNat n, cs.drop length)
  else fail .notScalar (cs.drop length)

def escapedChar? : Char → Option Char
  | 'b' => some '\x08'
  | 't' => some '\t'
  | 'n' => some '\n'
  | 'f' => some '\x0c'
  | 'r' => some '\r'
  | '"' => some '"'
  | '\\' => some '\\'
  | _ => none

/-- What an escape stands for; the backslash is already read. In a string on several lines a
backslash at the end of a line hides all blanks and line ends up to the next character. -/
def escape (multiline : Bool) : List Char → Except Failure (Front (List Char))
  | [] => fail .invalidEscape []
  | 'u' :: cs => do let (c, rest) ← codePoint 4 cs; return ([c], rest)
  | 'U' :: cs => do let (c, rest) ← codePoint 8 cs; return ([c], rest)
  | c :: cs =>
    if multiline && isSpaceOrNewline c then
      match skipSpaces (c :: cs) with
      | [] => .ok ([], [])
      | '\n' :: rest => .ok ([], rest.dropWhile isSpaceOrNewline)
      | rest => fail .invalidEscape rest
    else
      match escapedChar? c with
      | some c => .ok ([c], cs)
      | none => fail .invalidEscape cs

def basicLine : (bound : Nat) → List Char → Except Failure (Front (List Char))
  | 0, cs => fail .unterminatedString cs
  | _, [] => fail .unterminatedString []
  | _, '"' :: rest => .ok ([], rest)
  | bound + 1, '\\' :: cs => do
    let (part, cs) ← escape false cs
    let (text, rest) ← basicLine bound cs
    return (part ++ text, rest)
  | bound + 1, c :: cs =>
    if isForbidden c then fail (.illegalCharacter c) (c :: cs)
    else do
      let (text, rest) ← basicLine bound cs
      return (c :: text, rest)

/-- A basic string on several lines, up to its three closing quotes. -/
def basicLines : (bound : Nat) → List Char → Except Failure (Front (List Char))
  | 0, cs => fail .unterminatedString cs
  | _, [] => fail .unterminatedString []
  | _, '"' :: '"' :: '"' :: rest => .ok ([], rest)
  | bound + 1, '\\' :: cs => do
    let (part, cs) ← escape true cs
    let (text, rest) ← basicLines bound cs
    return (part ++ text, rest)
  | bound + 1, c :: cs =>
    if isForbiddenInLines c then fail (.illegalCharacter c) (c :: cs)
    else do
      let (text, rest) ← basicLines bound cs
      return (c :: text, rest)

def literalLine (cs : List Char) : Except Failure (Front (List Char)) :=
  let text := cs.takeWhile (· != '\x27')
  match cs.dropWhile (· != '\x27') with
  | [] => fail (.expected "'") []
  | _ :: rest => do
    let _ ← skipClean isForbidden text ('\x27' :: rest)
    return (text, rest)

def beforeQuotes? : List Char → Option (Front (List Char))
  | [] => none
  | '\x27' :: '\x27' :: '\x27' :: rest => some ([], rest)
  | c :: cs => (beforeQuotes? cs).map fun (text, rest) => (c :: text, rest)

/-- A literal string on several lines, up to its three closing quotes. -/
def literalLines (cs : List Char) : Except Failure (Front (List Char)) :=
  match beforeQuotes? cs with
  | none => fail (.expected "'''") []
  | some (text, rest) => do
    let _ ← skipClean isForbiddenInLines text ('\x27' :: '\x27' :: '\x27' :: rest)
    return (text, rest)

/-- A string on several lines with the quotes that stand before its three closing ones: two
at most. -/
def withExtraQuotes (quote : Char) (text rest : List Char) : Front (List Char) :=
  let extra := (rest.takeWhile (· == quote)).take 2
  (text ++ extra, rest.drop extra.length)

def dropNewline : List Char → List Char
  | '\n' :: cs => cs
  | cs => cs

def string? (cs : List Char) : Option (Except Failure (Front (List Char))) :=
  match cs with
  | '"' :: '"' :: '"' :: cs => some do
    let cs := dropNewline cs
    let (text, rest) ← basicLines (cs.length + 1) cs
    return withExtraQuotes '"' text rest
  | '"' :: cs => some (basicLine (cs.length + 1) cs)
  | '\x27' :: '\x27' :: '\x27' :: cs => some do
    let (text, rest) ← literalLines (dropNewline cs)
    return withExtraQuotes '\x27' text rest
  | '\x27' :: cs => some (literalLine cs)
  | _ => none

end DebugExpr.Toml
