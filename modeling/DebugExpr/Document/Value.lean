/-!
# Documents

The values that configuration files and written trees consist of.
-/

namespace DebugExpr.Document

inductive Value where
  | null
  | bool (b : Bool)
  | int (n : Int)
  | float (x : Float)
  | string (s : String)
  /-- A date, a time of day, or both. -/
  | moment
  | list (items : List Value)
  | table (entries : List (String × Value))

/-- The entries of a table, each key once. -/
abbrev Table := List (String × Value)

namespace Table

def get? (t : Table) (key : String) : Option Value :=
  t.lookup key

def has (t : Table) (key : String) : Bool :=
  (t.get? key).isSome

/-- The table with a value for a key; a new key comes last. -/
def set (key : String) (v : Value) : Table → Table
  | [] => [(key, v)]
  | (k, w) :: rest => if k == key then (key, v) :: rest else (k, w) :: set key v rest

theorem get?_set_self (key : String) (v : Value) (t : Table) :
    (t.set key v).get? key = some v := by
  induction t with
  | nil => simp [set, get?]
  | cons e rest ih =>
    obtain ⟨k, w⟩ := e
    by_cases h : k = key
    · simp [set, get?, h]
    · have h' : ¬key = k := fun e => h e.symm
      simpa [set, get?, List.lookup_cons, h, h', beq_eq_false_iff_ne.mpr h'] using ih

theorem get?_set_of_ne {key other : String} (h : other ≠ key) (v : Value) (t : Table) :
    (t.set key v).get? other = t.get? other := by
  induction t with
  | nil => simp [set, get?, List.lookup_cons, beq_eq_false_iff_ne.mpr h]
  | cons e rest ih =>
    obtain ⟨k, w⟩ := e
    by_cases hk : k = key
    · subst hk
      simp [set, get?, List.lookup_cons, beq_eq_false_iff_ne.mpr h]
    · by_cases ho : other = k
      · subst ho
        simp [set, get?, hk]
      · simpa [set, get?, List.lookup_cons, hk, beq_eq_false_iff_ne.mpr ho] using ih

end Table

end DebugExpr.Document
