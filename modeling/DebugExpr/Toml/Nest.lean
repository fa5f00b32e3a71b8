import DebugExpr.Document.Value
import DebugExpr.Toml.Key

/-!
# Nested tables

Reaching a table through a path of keys. Tables that are missing on the way are made; on the
way through a list of tables its last one is taken.
-/

namespace DebugExpr.Toml

open Document

/-- A table changed at the end of a path; none when something else than a table is in the
way. Lists are entered only if `enterLists` is set. -/
def changeAt (enterLists : Bool) (change : Table → Option Table) :
    Key → Table → Option Table
  | [], t => change t
  | k :: ks, t =>
    match t.get? k with
    | none => (changeAt enterLists change ks []).map fun inner => t.set k (.table inner)
    | some (.table inner) =>
      (changeAt enterLists change ks inner).map fun inner => t.set k (.table inner)
    | some (.list items) =>
      match enterLists, items.getLast? with
      | true, some (.table inner) =>
        (changeAt enterLists change ks inner).map fun inner =>
          t.set k (.list (items.dropLast ++ [.table inner]))
      | _, _ => none
    | some _ => none

def addEntry (k : String) (v : Value) (t : Table) : Option Table :=
  if t.has k then none else some (t.set k v)

/-- The table with an empty table more in the list of a key; none when the key has another
value. -/
def appendTable (k : String) (t : Table) : Option Table :=
  match t.get? k with
  | none => some (t.set k (.list [.table []]))
  | some (.list items) => some (t.set k (.list (items ++ [.table []])))
  | some _ => none

def inNamespace (namespaces : List Key) (k : Key) : Bool :=
  namespaces.any (·.isPrefixOf k)

end DebugExpr.Toml
