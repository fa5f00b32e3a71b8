import DebugExpr.Toml.Text

/-!
# Keys

A key is a path of parts with dots between them; a part is bare or a string on one line.
-/

namespace DebugExpr.Toml

def isBareKey (c : Char) : Bool :=
  ('a' ≤ c && c ≤ 'z') || ('A' ≤ c && c ≤ 'Z') || Text.isDecimal c || c == '-' || c == '_'

def beginsKey (c : Char) : Bool :=
  isBareKey c || c == '"' || c == '\x27'

def keyPart : List Char → Except Failure (Front String)
  | '"' :: cs => do
    let (text, rest) ← basicLine (cs.length + 1) cs
    return (String.ofList text, rest)
  | '\x27' :: cs => do
    let (text, rest) ← literalLine cs
    return (String.ofList text, rest)
  | cs =>
    match cs.takeWhile isBareKey with
    | [] => fail .invalidKey cs
    | part => .ok (String.ofList part, cs.dropWhile isBareKey)

/-- A key and the blanks after it. The bound is at least the length of the text. -/
def key : (bound : Nat) → List Char → Except Failure (Front Key)
  | 0, cs => fail .invalidKey cs
  | bound + 1, cs => do
    let (part, rest) ← keyPart cs
    match skipSpaces rest with
    | '.' :: rest => do
      let (parts, rest) ← key bound (skipSpaces rest)
      return (part :: parts, rest)
    | rest => return ([part], rest)

end DebugExpr.Toml
