import DebugExpr.CommandLine.Run

/-!
# The program

Gathers what the program needs to know of its surroundings, runs it, and writes its output.
-/

namespace DebugExpr.CommandLine

/-- Why a file could not be read, by the number of the reason, which some calls give negated. -/
def reasonOfCode (code : UInt32) (text : String) : ReadFailure :=
  match min code.toNat (UInt32.size - code.toNat) with
  | 2 => .missing
  | 13 => .other 13 "Permission denied"
  | 20 => .notDirectory
  | 21 => .isDirectory
  | 36 => .nameTooLong
  | code => .other code text

/-- The failures that a system meets with when it opens or reads a file have a number. -/
def readFailure : IO.Error → ReadFailure
  | .noFileOrDirectory _ code text | .inappropriateType _ code text
  | .invalidArgument _ code text | .permissionDenied _ code text
  | .resourceExhausted _ code text | .resourceBusy code text | .hardwareFault code text
  | .otherError code text => reasonOfCode code text
  | e => .other 0 e.toString

def readContents (path : String) : IO (Except ReadFailure ByteArray) := do
  try
    return .ok (← IO.FS.readBinFile path)
  catch e =>
    return .error (readFailure e)

/-- The surroundings of a request, with the one file that it reads. -/
def surroundings (request : Request) : IO Surroundings := do
  let path := match request with
    | .task o _ => o.config.getD Settings.fileName
    | _ => Settings.fileName
  let contents ← readContents (Path.ofString path).toString
  let extended ← IO.getEnv (Settings.Field.variableName .extended)
  let warn ← IO.getEnv (Settings.Field.variableName .warn)
  return {
    directory := (← IO.currentDir).toString
    read := fun _ => contents
    env := fun name =>
      if name = Settings.Field.variableName .extended then extended
      else if name = Settings.Field.variableName .warn then warn
      else none }

def write (output : Output) : IO Unit := do
  IO.print output.stdout
  IO.eprint output.stderr
  (← IO.getStdout).flush

/-- Reads and answers lines one by one. -/
partial def converse (settings : Settings) (verbose : Bool) : IO UInt32 := do
  IO.print (prompt true)
  (← IO.getStdout).flush
  let line ← (← IO.getStdin).getLine
  if line = "" then return 0
  match lineOutput settings verbose line with
  | .ok (some output) => write output; converse settings verbose
  | .ok none => return 0
  | .error e =>
    IO.eprintln e.message
    return 1

def interact (around : Surroundings) (o : Options) : IO UInt32 := do
  let loaded := o.settings around
  IO.eprint (logLines o.verbose loaded.records)
  match loaded.result with
  | .ok settings => converse settings o.verbose
  | .error e =>
    if e.isReported then IO.print (say e.message) else IO.eprintln e.message
    return 1

def execute (around : Surroundings) (args : List String) (stdin : String) (host : Host) :
    IO UInt32 := do
  match run around { stdin, interactive := false } args host with
  | .ok output =>
    write output
    return output.exitCode.toUInt32
  | .error e =>
    IO.eprintln e.message
    return 1

end DebugExpr.CommandLine

open DebugExpr.CommandLine in
def main (args : List String) : IO UInt32 := do
  let request := Request.ofArguments args
  let around ← surroundings request
  match request with
  | .task o .repl =>
    let stdin ← IO.getStdin
    if ← stdin.isTty then interact around o
    else
      -- Bytes that are no text are met with before any line of the part they stand in is read.
      let input := String.fromUTF8? (← stdin.readBinToEnd)
      execute around args (input.getD "") { garbled := input.isNone }
  | _ => execute around args "" {}
