import DebugExpr.Document.Value
import DebugExpr.Settings.Basic

/-!
# Settings of a document

A table of fields read as settings. A field that is missing has its default; a number or a
word may stand for a switch; other fields are not allowed.
-/

namespace DebugExpr.Settings

open Document

inductive Field where
  | extended | warn
  deriving DecidableEq

namespace Field

def name : Field → String
  | extended => "extended"
  | warn => "warn"

def all : List Field := [extended, warn]

def default : Field → Bool
  | extended => false
  | warn => true

end Field

def get (s : Settings) : Field → Bool
  | .extended => s.extended
  | .warn => s.warn

def ofFields (value : Field → Bool) : Settings :=
  { extended := value .extended, warn := value .warn }

theorem get_ofFields (value : Field → Bool) (f : Field) : (ofFields value).get f = value f := by
  cases f <;> rfl

inductive Problem where
  | notSwitch
  /-- A number or a word that stands for no switch. -/
  | unknownSwitch
  | unknownField
  | notTable
  deriving DecidableEq

def Problem.name : Problem → String
  | notSwitch => "bool_type"
  | unknownSwitch => "bool_parsing"
  | unknownField => "extra_forbidden"
  | notTable => "model_type"

structure Issue where
  field : String
  problem : Problem
  deriving DecidableEq

def onWords : List String := ["1", "t", "true", "y", "yes", "on"]

def offWords : List String := ["0", "f", "false", "n", "no", "off"]

/-- The switch that a word stands for, whatever the case of its ASCII letters. -/
def switchOfWord (s : String) : Except Problem Bool :=
  if s.toLower ∈ onWords then .ok true
  else if s.toLower ∈ offWords then .ok false
  else .error .unknownSwitch

/-- The switch that an integer stands for. Only integers of 64 bits count as numbers here. -/
def switchOfInt (n : Int) : Except Problem Bool :=
  if n = 0 then .ok false
  else if n = 1 then .ok true
  else if -0x8000000000000000 ≤ n ∧ n < 0x8000000000000000 then .error .unknownSwitch
  else .error .notSwitch

/-- The switch that a floating-point number stands for. Only integral ones of less than 64 bits
count as numbers here. -/
def switchOfFloat (x : Float) : Except Problem Bool :=
  if x == 0.0 then .ok false
  else if x == 1.0 then .ok true
  else if x.floor == x && x.abs < 9223372036854775808.0 then .error .unknownSwitch
  else .error .notSwitch

def switchOfValue : Value → Except Problem Bool
  | .bool b => .ok b
  | .string s => switchOfWord s
  | .int n => switchOfInt n
  | .float x => switchOfFloat x
  | _ => .error .notSwitch

def fieldOfTable (t : Table) (f : Field) : Except Problem Bool :=
  match t.get? f.name with
  | some v => switchOfValue v
  | none => .ok f.default

def fieldIssue? (t : Table) (f : Field) : Option Issue :=
  match fieldOfTable t f with
  | .ok _ => none
  | .error p => some ⟨f.name, p⟩

def isField (name : String) : Bool :=
  Field.all.any (·.name == name)

def unknownFields (t : Table) : List Issue :=
  (t.filter fun e => !isField e.1).map fun e => ⟨e.1, .unknownField⟩

def issues (t : Table) : List Issue :=
  (Field.all.filterMap (fieldIssue? t) ++ unknownFields t).mergeSort fun a b =>
    a.field ≤ b.field

def ofTable (t : Table) : Except (List Issue) Settings :=
  match fieldOfTable t .extended, fieldOfTable t .warn, unknownFields t with
  | .ok extended, .ok warn, [] => .ok { extended, warn }
  | _, _, _ => .error (issues t)

def ofValue : Value → Except (List Issue) Settings
  | .table t => ofTable t
  | _ => .error [⟨"", .notTable⟩]

end DebugExpr.Settings
