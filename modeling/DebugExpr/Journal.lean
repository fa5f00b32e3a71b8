/-!
# Journal

The records that the parts of the program leave, in order.
-/

namespace DebugExpr

inductive Severity where
  | debug | warning
  deriving DecidableEq

def Severity.name : Severity → String
  | debug => "DEBUG"
  | warning => "WARNING"

/-- The parts of the program that leave records. -/
inductive Part where
  | lexer | parser | lint | settings
  deriving DecidableEq

def Part.name : Part → String
  | lexer => "tinyexpr.core.expression_lang.tokenizer"
  | parser => "tinyexpr.core.expression_lang.parser"
  | lint => "tinyexpr.core.expression_lang.lint"
  | settings => "tinyexpr.core.config"

structure Record where
  severity : Severity
  part : Part
  message : String
  deriving DecidableEq

def Record.line (r : Record) : String :=
  "[" ++ r.severity.name ++ "] " ++ r.part.name ++ ": " ++ r.message

/-- The records shown: all of them, or the warnings only. -/
def shownRecords (verbose : Bool) (records : List Record) : List Record :=
  records.filter fun r => verbose || r.severity == .warning

/-- A result, and the records left on the way to it. -/
structure Logged (ε α : Type) where
  records : List Record
  result : Except ε α

namespace Logged

/-- Goes on with a good result; the records are joined. -/
def andThen {ε α β : Type} (x : Logged ε α) (f : α → Logged ε β) : Logged ε β :=
  match x.result with
  | .ok a => let y := f a; ⟨x.records ++ y.records, y.result⟩
  | .error e => ⟨x.records, .error e⟩

end Logged

end DebugExpr
