import DebugExpr.Journal
import DebugExpr.Settings.Files
import DebugExpr.Settings.Validate
import DebugExpr.Text.Blank
import DebugExpr.Toml.Document

/-!
# Loading the settings

Settings come in layers: the defaults, the section of a configuration file, and the variables
of the environment, each field by itself.
-/

namespace DebugExpr

structure Surroundings where
  directory : String
  read : Path → Except ReadFailure ByteArray
  /-- The value of a variable of the environment. -/
  env : String → Option String

namespace Settings

open Document

/-- The name of the configuration file that is looked for in the current directory. -/
def fileName : String := "tinyexpr.toml"

def sectionName : String := "tinyexpr"

def Field.variableName : Field → String
  | .extended => "TINYEXPR_EXTENDED"
  | .warn => "TINYEXPR_WARN"

inductive LoadFailure where
  | unreadable (path : String) (reason : ReadFailure)
  | notText (path : String)
  /-- A path holds a zero character: no file can have it. -/
  | badPath
  | notDocument (path reason : String)
  /-- An integer in the document has too many digits. -/
  | longInteger (digits : Nat)
  /-- The section in the file at a path is no table. -/
  | notTable (path : String)
  | badVariable (field : Field) (value : String)
  | invalid (issues : List Issue)

/-- Whether a failure to load is reported as a fault of the settings. -/
def LoadFailure.isReported : LoadFailure → Bool
  | notText _ | badPath | longInteger _ => false
  | _ => true

/-- The text of a failure. What is wrong with a value is told by a validator with a text of its own;
here the fields stand for it, each with the name of its problem. -/
def LoadFailure.message : LoadFailure → String
  | unreadable path reason =>
    "Cannot read " ++ path ++ ": " ++ reason.message ++ ": " ++ Text.quoted path
  | notText path => path ++ " is not valid UTF-8"
  | badPath => "embedded null byte"
  | notDocument path reason => "Invalid TOML in " ++ path ++ ": " ++ reason
  | longInteger digits => Text.longIntegerMessage digits
  | notTable path => "[" ++ sectionName ++ "] in " ++ path ++ " must be a table"
  | badVariable field value =>
    "Invalid boolean for " ++ field.variableName ++ ": " ++ Text.quoted value
  | invalid issues =>
    "Invalid parser configuration: " ++
      ", ".intercalate (issues.map fun i => i.field ++ " " ++ i.problem.name)

/-- The section of a document; one that is missing is empty. -/
def sectionOf (path : String) (document : Table) : Except LoadFailure Table :=
  match document.get? sectionName with
  | none => .ok []
  | some (.table t) => .ok t
  | some _ => .error (.notTable path)

def readSection (path : String) (contents : Except ReadFailure ByteArray) :
    Except LoadFailure Table :=
  match contents with
  | .error reason => .error (.unreadable path reason)
  | .ok bytes =>
    match String.fromUTF8? bytes with
    | none => .error (.notText path)
    | some text =>
      match Toml.read text with
      | .error (.malformed reason) => .error (.notDocument path reason)
      | .error (.longInteger digits) => .error (.longInteger digits)
      | .ok document => sectionOf path document

/-- The file that settings are read from, by the path it is shown as, with its contents. Without
a given path it is that of the current directory, if there is one. A file that cannot even be looked
for, such as one with too long a path, is not told apart here from one that cannot be read. -/
def chosenFile (around : Surroundings) (path : Option String) :
    Option (String × Except ReadFailure ByteArray) :=
  match path with
  | some path => let path := Path.ofString path; some (path.toString, around.read path)
  | none =>
    let contents := around.read (.ofString fileName)
    match contents with
    | .error .missing => none
    | .error .notDirectory => none
    | contents => some (around.directory ++ "/" ++ fileName, contents)

def switchOfVariable? (text : String) : Option Bool :=
  let word := (Text.strip text).toLower
  if word ∈ ["1", "true", "yes", "on"] then some true
  else if word ∈ ["0", "false", "no", "off"] then some false
  else none

/-- The table with the switch of a field's variable, if that is set. -/
def overrideField (around : Surroundings) (t : Table) (f : Field) : Except LoadFailure Table :=
  match around.env f.variableName with
  | none => .ok t
  | some text =>
    match switchOfVariable? text with
    | some b => .ok (t.set f.name (.bool b))
    | none => .error (.badVariable f text)

def ofSection (around : Surroundings) (t : Table) : Except LoadFailure Settings := do
  let t ← Field.all.foldlM (overrideField around) t
  match ofTable t with
  | .ok settings => return settings
  | .error issues => .error (.invalid issues)

def load (around : Surroundings) (path : Option String) : Logged LoadFailure Settings :=
  if path.any (!Path.isUsable ·) then ⟨[], .error .badPath⟩
  else
    match chosenFile around path with
    | none => ⟨[], ofSection around []⟩
    | some (path, contents) =>
      match readSection path contents with
      | .error e => ⟨[], .error e⟩
      | .ok t => ⟨[⟨.debug, .settings, "Loaded parser config from " ++ path⟩], ofSection around t⟩

end Settings

end DebugExpr
