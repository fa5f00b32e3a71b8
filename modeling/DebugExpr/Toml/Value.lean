import DebugExpr.Toml.Moment
import DebugExpr.Toml.Nest
import DebugExpr.Toml.Number

/-!
# Values

Strings, booleans, numbers, dates, arrays and inline tables. The text left to read bounds the
recursion.
-/

namespace DebugExpr.Toml

open Document

/-- Whether a value is an array or a table, which nothing can be added to later. -/
def isContainer : Value → Bool
  | .list _ | .table _ => true
  | _ => false

/-- The entry of an inline table added to those before it. -/
def addInline (frozen : List Key) (k : Key) (v : Value) (t : Table) (rest : List Char) :
    Except Failure Table :=
  let name := k.getLast?.getD ""
  if inNamespace frozen k then fail (.fixedNamespace k) rest
  else
    match changeAt false some k.dropLast t, changeAt false (addEntry name v) k.dropLast t with
    | none, _ => fail .overwrittenValue rest
    | some _, none => fail (.repeatedKey name) rest
    | some _, some t => .ok t

mutual

def value (bound : Nat) (cs : List Char) : Except Failure (Front Value) :=
  match bound with
  | 0 => fail .invalidValue cs
  | bound + 1 =>
    match string? cs with
    | some text => do let (s, rest) ← text; return (.string (String.ofList s), rest)
    | none =>
      match cs with
      | 't' :: 'r' :: 'u' :: 'e' :: rest => .ok (.bool true, rest)
      | 'f' :: 'a' :: 'l' :: 's' :: 'e' :: rest => .ok (.bool false, rest)
      | '[' :: rest => do
        let (items, rest) ← array bound (← skipFiller rest.length rest)
        return (.list items, rest)
      | '\x7b' :: rest =>
        match skipSpaces rest with
        | '\x7d' :: rest => .ok (.table [], rest)
        | rest => do
          let (t, rest) ← inlineTable bound [] [] rest
          return (.table t, rest)
      | cs =>
        match moment? cs, number? cs with
        | some moment, _ => moment
        | none, some number => number
        | none, none => fail .invalidValue cs

def array (bound : Nat) (cs : List Char) : Except Failure (Front (List Value)) :=
  match bound, cs with
  | 0, _ => fail .unclosedArray cs
  | _ + 1, ']' :: rest => .ok ([], rest)
  | bound + 1, cs => do
    let (v, rest) ← value bound cs
    match ← skipFiller rest.length rest with
    | ']' :: rest => return ([v], rest)
    | ',' :: rest => do
      let (vs, rest) ← array bound (← skipFiller rest.length rest)
      return (v :: vs, rest)
    | rest => fail .unclosedArray rest

/-- The rest of an inline table, up to its closing brace; its entries so far are given, and
the keys of those that are arrays or tables. -/
def inlineTable (bound : Nat) (frozen : List Key) (t : Table) (cs : List Char) :
    Except Failure (Front Table) :=
  match bound with
  | 0 => fail .unclosedTable cs
  | bound + 1 => do
    let (k, v, rest) ← keyValue bound cs
    let t ← addInline frozen k v t rest
    match skipSpaces rest with
    | '\x7d' :: rest => return (t, rest)
    | ',' :: rest =>
      inlineTable bound (if isContainer v then k :: frozen else frozen) t (skipSpaces rest)
    | rest => fail .unclosedTable rest

def keyValue (bound : Nat) (cs : List Char) : Except Failure (Key × Value × List Char) :=
  match bound with
  | 0 => fail .invalidKey cs
  | bound + 1 => do
    let (k, rest) ← key (cs.length + 1) cs
    match rest with
    | '=' :: rest => do
      let (v, rest) ← value bound (skipSpaces rest)
      return (k, v, rest)
    | rest => fail .missingEquals rest

end

end DebugExpr.Toml
