import DebugExpr.Toml.Value

/-!
# Documents

A document is a list of statements: entries, table headers and headers of lists of tables.
What a statement may still change is kept beside the tables read so far.
-/

namespace DebugExpr.Toml

open Document

structure Draft where
  root : Table := []
  header : Key := []
  /-- The namespaces of arrays and inline tables: nothing can be added to them. -/
  frozen : List Key := []
  /-- The tables that no header can declare any more. -/
  declared : List Key := []
  /-- The tables made by dotted keys: declared as soon as the next header comes. -/
  dotted : List Key := []

namespace Draft

/-- The draft at a new header: tables made by dotted keys are declared from now on. -/
def settle (d : Draft) : Draft :=
  { d with declared := d.dotted ++ d.declared, dotted := [] }

def openTable (d : Draft) (k : Key) (rest : List Char) : Except Failure Draft :=
  if k ∈ d.declared ∨ inNamespace d.frozen k then fail (.repeatedTable k) rest
  else
    match changeAt true some k d.root with
    | some root => .ok { d with root, header := k, declared := k :: d.declared }
    | none => fail .overwrittenValue rest

/-- A header that adds a table to a list of tables. What was known of the namespace is true of
the table before it only. -/
def openItem (d : Draft) (k : Key) (rest : List Char) : Except Failure Draft :=
  if inNamespace d.frozen k then fail (.fixedNamespace k) rest
  else
    match changeAt true (appendTable (k.getLast?.getD "")) k.dropLast d.root with
    | some root => .ok
        { d with
          root
          header := k
          frozen := d.frozen.filter (!k.isPrefixOf ·)
          declared := k :: d.declared.filter (!k.isPrefixOf ·) }
    | none => fail .overwrittenValue rest

def passed (header k : Key) : List Key :=
  (List.range (k.length - 1)).map fun i => header ++ k.take (i + 1)

def addEntry (d : Draft) (k : Key) (v : Value) (rest : List Char) : Except Failure Draft :=
  let through := passed d.header k
  let parent := d.header ++ k.dropLast
  match through.find? (· ∈ d.declared) with
  | some table => fail (.redefinedNamespace table) rest
  | none =>
    if inNamespace d.frozen parent then fail (.fixedNamespace parent) rest
    else
      match changeAt true (Toml.addEntry (k.getLast?.getD "") v) parent d.root with
      | some root => .ok
          { d with
            root
            frozen := if isContainer v then (d.header ++ k) :: d.frozen else d.frozen
            dotted := through ++ d.dotted }
      | none => fail .overwrittenValue rest

def statement (d : Draft) (cs : List Char) : Except Failure (Front Draft) :=
  match cs with
  | '[' :: '[' :: cs => do
    let (k, rest) ← key (cs.length + 1) (skipSpaces cs)
    let d ← d.settle.openItem k rest
    match rest with
    | ']' :: ']' :: rest => return (d, rest)
    | _ => fail .unclosedItemHeader rest
  | '[' :: cs => do
    let (k, rest) ← key (cs.length + 1) (skipSpaces cs)
    let d ← d.settle.openTable k rest
    match rest with
    | ']' :: rest => return (d, rest)
    | _ => fail .unclosedHeader rest
  | '#' :: _ => .ok (d, cs)
  | c :: _ =>
    if beginsKey c then do
      let (k, v, rest) ← keyValue (2 * cs.length + 2) cs
      let d ← d.addEntry k v rest
      return (d, rest)
    else fail .invalidStatement cs
  | [] => .ok (d, [])

/-- The draft after all statements of a text. The bound is at least its length. -/
def statements : (bound : Nat) → Draft → List Char → Except Failure Draft
  | 0, d, _ => .ok d
  | bound + 1, d, cs =>
    match skipSpaces cs with
    | [] => .ok d
    | '\n' :: rest => statements bound d rest
    | cs => do
      let (d, rest) ← d.statement cs
      match ← skipComment (skipSpaces rest) with
      | [] => return d
      | '\n' :: rest => statements bound d rest
      | rest => fail .trailingText rest

end Draft

/-- The text with a line feed alone at the end of each line. -/
def plainLineEnds : List Char → List Char
  | '\r' :: '\n' :: cs => '\n' :: plainLineEnds cs
  | c :: cs => c :: plainLineEnds cs
  | [] => []

/-- The document that a text stands for, or why none is read. -/
def read (text : String) : Except Refusal Table :=
  let cs := plainLineEnds text.toList
  match Draft.statements (cs.length + 1) {} cs with
  | .ok d => .ok d.root
  | .error f => .error (f.refusal cs)

end DebugExpr.Toml
