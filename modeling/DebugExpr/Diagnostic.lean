import DebugExpr.Location
import DebugExpr.Token.Source
import DebugExpr.Expr.Failure

/-!
# Diagnostics

What is reported to the user: the reason, and the place if it is known. The text is made of them
when it is asked for. Of a place beyond all limits there is none; no diagnostic about a source is at
such a place, but one about tokens is wherever they are said to be, and what is stated about
diagnostics of tokens, their reason and place, holds whether or not they have a text.
-/

namespace DebugExpr

inductive Subject where
  | general
  | lexical
  | expression
  | settings
  deriving DecidableEq

/-- A reason, with the place in the source or, when the source is unknown, an offset. -/
structure Diagnostic where
  subject : Subject
  reason : String
  location : Option Location := none
  offset : Option Int := none

namespace Diagnostic

/-- The offset of the fault: the one given, or else that of the location. -/
def pos (d : Diagnostic) : Option Int :=
  d.offset <|> d.location.map (·.pos)

/-- The text of a diagnostic at a place that can be shown. -/
def text (d : Diagnostic) : String :=
  match d.location, d.offset with
  | some l, _ => l.format ++ "\n" ++ d.reason
  | none, some pos => d.reason ++ " (at position " ++ toString pos ++ ")"
  | none, none => d.reason

/-- The text of a diagnostic, or why its place cannot be shown. -/
def text? (d : Diagnostic) : Except Text.Unwritable String :=
  match d.location, d.offset with
  | some l, _ => do return (← l.format?) ++ "\n" ++ d.reason
  | none, some pos => do return d.reason ++ " (at position " ++ (← Text.writeInt pos) ++ ")"
  | none, none => .ok d.reason

def lexical (reason source : String) (pos : Int) : Diagnostic :=
  { subject := .lexical, reason, location := some { source, pos } }

/-- A diagnostic about tokens. Without the source it has an offset only. -/
def expression (reason : String) (source : Option String) (pos : Int) : Diagnostic :=
  match source with
  | some source => { subject := .expression, reason, location := some { source, pos } }
  | none => { subject := .expression, reason, offset := some pos }

def ofUnclosed (source : String) (u : Token.Unclosed) : Diagnostic :=
  lexical Token.Unclosed.message source u.pos

def ofFailure (source : Option String) (input : Token.Input) (f : Failure) : Diagnostic :=
  expression f.cause.message source (f.pos input)

end Diagnostic

end DebugExpr
