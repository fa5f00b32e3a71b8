import DebugExpr.Analysis
import DebugExpr.CommandLine.Request
import DebugExpr.CommandLine.TokenTable
import DebugExpr.Settings.Load

/-!
# Running the program

The three commands: `parse` shows the tree of an expression, `tokens` its tokens, and `repl` the
trees of the lines of the standard input. The log goes to the standard error stream, all else to
the standard output. The texts of a usage error and of the help stand in for longer ones, and the
version is shown without that of the system under it: what is stated about all three is their exit
code.
-/

namespace DebugExpr.CommandLine

def version : String := "0.1.0"

structure Output where
  stdout : String := ""
  stderr : String := ""
  exitCode : Nat := 0

/-- A fault that no command reports: it ends the run. What the run has put out before is left
open. -/
inductive Escape where
  /-- A failure to load the settings that is not reported. -/
  | settings (e : Settings.LoadFailure)
  | numeral (b : BadNumeral)
  /-- The stack has no room for the text of a tree. -/
  | overflow
  /-- Bytes in the standard input are no text. -/
  | undecodable

def Escape.message : Escape → String
  | settings e => e.message
  | numeral b => b.message
  | overflow => "maximum recursion depth exceeded"
  | undecodable => "the standard input is not valid UTF-8"

structure Console where
  stdin : String
  /-- A person types the input. -/
  interactive : Bool

/-- What a run depends on beside what it is asked and given. Where nothing is said of it, nothing is
in the way of the run. -/
structure Host where
  stack : Stack := .ample
  /-- After the lines that can be read, bytes that are no text follow in the standard input. -/
  garbled : Bool := false

/-- Nothing is in the way of a run: the input is a text, and the stack has room for the trees that
the parser builds. -/
structure Host.Suffices (h : Host) : Prop where
  holdsTrees : h.stack.HoldsTrees
  readable : h.garbled = false

theorem Host.suffices_default : Host.Suffices {} where
  holdsTrees := Stack.holdsTrees_ample
  readable := rfl

def say (s : String) : String :=
  display s ++ "\n"

def logLines (verbose : Bool) (records : List Record) : String :=
  String.join ((shownRecords verbose records).map fun r => r.line ++ "\n")

/-- The output of an analysis: what is shown of its result, or the diagnostic. -/
def report {α : Type} (verbose : Bool) (shown : α → Except Escape String) (x : Logged Fault α) :
    Except Escape Output :=
  let stderr := logLines verbose x.records
  match x.result with
  | .ok a => do return { stdout := ← shown a, stderr }
  | .error (.diagnostic d) => .ok { stdout := say d.text, stderr, exitCode := 1 }
  | .error (.numeral b) => .error (.numeral b)
  | .error .overflow => .error .overflow

def sayTree (stack : Stack) (e : Expr) : Except Escape String :=
  if stack.shows e then .ok (say e.render) else .error .overflow

def parseOutput (settings : Settings) (verbose : Bool) (source : String)
    (stack : Stack := .ample) : Except Escape Output :=
  report verbose (sayTree stack) (parse settings source stack)

def tokensOutput (settings : Settings) (verbose : Bool) (source : String) :
    Except Escape Output :=
  report verbose
    (fun tokens =>
      .ok (String.join ((tableLines (tokens.filter (·.kind ≠ .eof))).map (· ++ "\n"))))
    (tokenize settings source)

def prompt (interactive : Bool) : String :=
  if interactive then "> " else ""

/-- The output for one line of input; none if the line ends the input. A blank line has none of
its own, and after a diagnostic the input goes on. -/
def lineOutput (settings : Settings) (verbose : Bool) (line : String)
    (stack : Stack := .ample) : Except Escape (Option Output) :=
  let line := Text.strip line
  if line = "" then .ok (some {})
  else if line = "quit" ∨ line = "exit" then .ok none
  else
    let x := parse settings line stack
    let stderr := logLines verbose x.records
    match x.result with
    | .error (.diagnostic d) => .ok (some { stdout := say d.text, stderr })
    | .error (.numeral b) => .error (.numeral b)
    | .error .overflow => .error .overflow
    | .ok e => do return some { stdout := ← sayTree stack e, stderr }

/-- The output for lines of input, up to one that ends the input. A fault in a line does not end
it, but bytes after the lines that are no text do. -/
def replOutput (settings : Settings) (verbose interactive : Bool) (lines : List (List Char))
    (host : Host := {}) : Except Escape Output :=
  match lines with
  | [] => if host.garbled then .error .undecodable else .ok { stdout := prompt interactive }
  | line :: rest => do
    match ← lineOutput settings verbose (String.ofList line) host.stack with
    | none => return { stdout := prompt interactive }
    | some first =>
      let others ← replOutput settings verbose interactive rest host
      return {
        stdout := prompt interactive ++ first.stdout ++ others.stdout
        stderr := first.stderr ++ others.stderr }

/-- The settings of a run: those loaded, with extended literals if an option asks for them. -/
def Options.settings (o : Options) (around : Surroundings) :
    Logged Settings.LoadFailure Settings :=
  let loaded := Settings.load around o.config
  { loaded with
    result := loaded.result.map fun s => { s with extended := s.extended || o.extended } }

def taskOutput (settings : Settings) (verbose : Bool) (console : Console) (task : Task)
    (host : Host := {}) : Except Escape Output :=
  match task with
  | .parse e => parseOutput settings verbose e host.stack
  | .tokens e => tokensOutput settings verbose e
  | .repl =>
    replOutput settings verbose console.interactive (Text.inputLines console.stdin.toList) host

def runTask (around : Surroundings) (console : Console) (o : Options) (task : Task)
    (host : Host := {}) : Except Escape Output :=
  let loaded := o.settings around
  let log := logLines o.verbose loaded.records
  match loaded.result with
  | .ok settings => do
    let output ← taskOutput settings o.verbose console task host
    return { output with stderr := log ++ output.stderr }
  | .error e =>
    if e.isReported then .ok { stdout := say e.message, stderr := log, exitCode := 1 }
    else .error (.settings e)

def usage : String :=
  "Usage: tinyexpr [--version] [--help] (parse | tokens) EXPRESSION [OPTIONS]\n" ++
  "       tinyexpr repl [OPTIONS]\n" ++
  "Options: -x, --extended   -c, --config PATH   --verbose   --help\n"

def run (around : Surroundings) (console : Console) (args : List String) (host : Host := {}) :
    Except Escape Output :=
  match Request.ofArguments args with
  | .misuse => .ok { stderr := usage, exitCode := 2 }
  | .help => .ok { stdout := usage }
  | .version => .ok { stdout := "tinyexpr " ++ version ++ "\n" }
  | .task o task => runTask around console o task host

end DebugExpr.CommandLine
