import DebugExpr.Diagnostic
import DebugExpr.Journal
import DebugExpr.Stack
import DebugExpr.Expr.Ambiguity
import DebugExpr.Parse.Expression

/-!
# Analysis of a source

From a source to its tokens, from tokens to their expression, and both at once, with the
records left in the journal. Where nothing is said of the stack, it has room for every tree.
-/

namespace DebugExpr

inductive Fault where
  | diagnostic (d : Diagnostic)
  | numeral (b : BadNumeral)
  /-- The stack has no room for the text of a tree. -/
  | overflow

/-- What a failure to read tokens comes to: a diagnostic, if its message can be written. -/
def Fault.ofFailure (stack : Stack) (source : Option String) (input : Token.Input) (f : Failure) :
    Fault :=
  if stack.writes input.tokens f.cause then .diagnostic (.ofFailure source input f) else .overflow

@[simp] theorem Fault.ofFailure_ample (source : Option String) (input : Token.Input) (f : Failure) :
    ofFailure .ample source input f = .diagnostic (.ofFailure source input f) := by
  simp [ofFailure]

def tokenize (settings : Settings) (source : String) : Logged Fault (List Token) :=
  match Token.ofSource settings source with
  | .ok tokens =>
    let message := "Tokenized " ++ Text.quoted source ++ " into " ++
      toString (tokens.length - 1) ++ " tokens"
    ⟨[⟨.debug, .lexer, message⟩], .ok tokens⟩
  | .error u => ⟨[], .error (.diagnostic (.ofUnclosed source u))⟩

/-- The expression of a list of tokens. The source, if known, is quoted by diagnostics. -/
def treeify (settings : Settings) (source : Option String) (tokens : List Token)
    (stack : Stack := .ample) : Logged Fault Expr :=
  let input := Token.Input.ofList tokens
  match Expr.ofInput settings input with
  | .ok e =>
    let message := "Treeified " ++ toString ((Token.withEndMark tokens).length - 1) ++
      " tokens into " ++ e.render
    ⟨[⟨.debug, .parser, message⟩], .ok e⟩
  | .error f => ⟨[], .error (.ofFailure stack source input f)⟩

/-- The expression again, with its warnings left in the journal if the settings ask for them. -/
def lint (settings : Settings) (e : Expr) : Logged Fault Expr :=
  if settings.warn then
    match e.warnings with
    | .ok messages => ⟨messages.map fun m => ⟨.warning, .lint, m⟩, .ok e⟩
    | .error b => ⟨[], .error (.numeral b)⟩
  else ⟨[], .ok e⟩

def parse (settings : Settings) (source : String) (stack : Stack := .ample) :
    Logged Fault Expr :=
  (tokenize settings source).andThen fun tokens =>
    (treeify settings (some source) tokens stack).andThen (lint settings)

end DebugExpr
