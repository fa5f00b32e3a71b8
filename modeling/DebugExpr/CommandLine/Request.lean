import DebugExpr.CommandLine.Options
import DebugExpr.Settings.Files

/-!
# Requests

The arguments are read twice: first the options of the program up to the name of a command,
then the options and arguments of the command, which may be mixed.
-/

namespace DebugExpr.CommandLine

def programOptions : Vocabulary where
  long? name :=
    if name = "--version" then some .version else if name = "--help" then some .help else none
  short? c := if c = 'v' then some .version else none
  mixed := false

def commandOptions : Vocabulary where
  long? name :=
    if name = "--extended" then some .extended
    else if name = "--config" then some .config
    else if name = "--verbose" then some .verbose
    else if name = "--help" then some .help
    else none
  short? c := if c = 'x' then some .extended else if c = 'c' then some .config else none
  mixed := true

inductive Task where
  | parse (expression : String)
  | tokens (expression : String)
  | repl

structure Options where
  extended : Bool
  config : Option String
  verbose : Bool

inductive Request where
  /-- Nothing: the arguments are misused. -/
  | misuse
  | help
  | version
  | task (options : Options) (task : Task)

/-- The options of a command from its arguments; of several values the last one counts. -/
def Options.ofArguments (a : Arguments) : Options where
  extended := .extended ∈ a.switches
  config := a.values.getLast?
  verbose := .verbose ∈ a.switches

def Options.isUsable (o : Options) : Bool :=
  o.config.all Path.isUsable

/-- The request of a command with its arguments. Help goes before a wrong value or a wrong number
of arguments. -/
def commandRequest (name : String) (args : List String) : Request :=
  match read? commandOptions args with
  | none => .misuse
  | some a =>
    if .help ∈ a.switches then .help
    else if !(Options.ofArguments a).isUsable then .misuse
    else
      match name, a.positional with
      | "parse", [e] => .task (.ofArguments a) (.parse e)
      | "tokens", [e] => .task (.ofArguments a) (.tokens e)
      | "repl", [] => .task (.ofArguments a) .repl
      | _, _ => .misuse

def commandNames : List String := ["parse", "tokens", "repl"]

/-- The request that the options of the program make before any command: the first one counts. -/
def Request.ofSwitches? : List Switch → Option Request
  | .help :: _ => some .help
  | .version :: _ => some .version
  | _ => none

/-- What arguments ask for that begin with something else than a command: only options of the
program can be meant. -/
def Request.withoutCommand (args : List String) : Request :=
  ((read? programOptions args).bind (ofSwitches? ·.switches)).getD .misuse

/-- What all the arguments ask for. The name of a command may follow two dashes; what follows them
and is no command is read once more. -/
def Request.ofArguments (args : List String) : Request :=
  match read? programOptions args with
  | none => .misuse
  | some a =>
    match Request.ofSwitches? a.switches, a.positional with
    | some request, _ => request
    | none, name :: args =>
      if name ∈ commandNames then commandRequest name args else .withoutCommand (name :: args)
    | none, [] => .misuse

end DebugExpr.CommandLine
