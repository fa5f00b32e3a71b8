/-!
# Options

Options begin with a dash. They have long names, which may be joined with a value, and short
ones of a letter, which may stand together; after two dashes alone all are plain arguments.
-/

namespace DebugExpr.CommandLine

inductive Switch where
  | version | help | extended | verbose | config
  deriving DecidableEq

def Switch.takesValue : Switch → Bool
  | config => true
  | _ => false

/-- The names that options have in one place, and whether arguments may stand between them. -/
structure Vocabulary where
  long? : String → Option Switch
  short? : Char → Option Switch
  mixed : Bool

/-- What follows the options in one argument. -/
inductive Tail where
  | done
  | value (s : String)
  /-- Nothing, but the last option takes a value. -/
  | wantsValue

/-- The options of one letter each in an argument; the dash is already read. -/
def letters? (v : Vocabulary) : List Char → Option (List Switch × Tail)
  | [] => some ([], .done)
  | c :: cs =>
    match v.short? c with
    | none => none
    | some s =>
      if s.takesValue then
        some ([s], if cs = [] then .wantsValue else .value (String.ofList cs))
      else (letters? v cs).map fun (switches, tail) => (s :: switches, tail)

/-- The options in an argument that begins with a dash. A name may be joined with a value by an
equals sign. -/
def options? (v : Vocabulary) (arg : String) : Option (List Switch × Tail) :=
  let cs := arg.toList
  let name := String.ofList (cs.takeWhile (· != '='))
  let joined := cs.dropWhile (· != '=')
  match v.long? name with
  | some s =>
    match s.takesValue, joined with
    | true, [] => some ([s], .wantsValue)
    | true, _ :: value => some ([s], .value (String.ofList value))
    | false, [] => some ([s], .done)
    | false, _ => none
  | none => if ['-', '-'].isPrefixOf cs then none else letters? v cs.tail

structure Arguments where
  switches : List Switch := []
  values : List String := []
  positional : List String := []

def Arguments.after (switches : List Switch) (values : List String) (a : Arguments) : Arguments :=
  { a with switches := switches ++ a.switches, values := values ++ a.values }

/-- Whether an argument is read as options: a dash alone is not. -/
def isOption (arg : String) : Bool :=
  match arg.toList with
  | '-' :: _ :: _ => true
  | _ => false

def read? (v : Vocabulary) : List String → Option Arguments
  | [] => some {}
  | arg :: rest =>
    if arg = "--" then some { positional := rest }
    else if isOption arg then
      match options? v arg with
      | none => none
      | some (switches, .done) => (read? v rest).map (.after switches [])
      | some (switches, .value s) => (read? v rest).map (.after switches [s])
      | some (switches, .wantsValue) =>
        match rest with
        | [] => none
        | s :: rest => (read? v rest).map (.after switches [s])
    else if v.mixed then
      (read? v rest).map fun a => { a with positional := arg :: a.positional }
    else some { positional := arg :: rest }

end DebugExpr.CommandLine
