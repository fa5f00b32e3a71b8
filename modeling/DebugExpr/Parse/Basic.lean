import DebugExpr.Expr.Failure
import DebugExpr.Expr.Height

/-!
# Readings

A parser by precedence. Every expression and every prefix operator takes one level of nesting;
what can be read with the levels left is a `Level`, built from the level below it.
-/

namespace DebugExpr

def maxDepth : Nat := 100

def maxHeight : Nat := 256

namespace Parse

/-- What is read from the front of a list of tokens, and the tokens after it. -/
abbrev Front (α : Type) := α × List Token

/-- The readings of one level of nesting. The groups open around it are listed innermost first. -/
structure Level where
  /-- An expression whose operators bind at least as tightly as the given precedence. -/
  expr : List Bracket → Nat → List Token → Except Failure (Front Expr)
  operand : List Bracket → List Token → Except Failure (Front Expr)

def fail {α : Type} (cause : Cause) (ts : List Token) : Except Failure α :=
  .error ⟨cause, ts⟩

/-- A new tree, unless it is too high; the blame is on the tokens after it. -/
def build (e : Expr) (rest : List Token) : Except Failure (Front Expr) :=
  if e.height > maxHeight then fail .tooDeep rest else .ok (e, rest)

def nextIs (kind : Token.Kind) : List Token → Bool
  | [] => false
  | t :: _ => t.kind = kind

/-- Items that each follow a separator. The bound is at least the number of tokens. -/
def separated (sep : Token.Kind) (item : List Token → Except Failure (Front Expr)) :
    (bound : Nat) → List Token → Except Failure (Front (List Expr))
  | bound + 1, t :: rest =>
    if t.kind = sep then do
      let (e, rest) ← item rest
      let (es, rest) ← separated sep item bound rest
      return (e :: es, rest)
    else .ok ([], t :: rest)
  | _, ts => .ok ([], ts)

/-- Expressions with commas between them, at least one. -/
def exprs (inner : Level) (groups : List Bracket) (ts : List Token) :
    Except Failure (Front (List Expr)) := do
  let item := inner.expr groups assignPrecedence
  let (e, rest) ← item ts
  let (es, rest) ← separated .comma item rest.length rest
  return (e :: es, rest)

def closeGroup (bracket : Bracket) (opener : Token) (inside : List Token) :
    List Token → Except Failure (List Token)
  | [] => fail (.unclosed bracket opener.value) (opener :: inside)
  | t :: rest =>
    if t.kind = bracket.closing then .ok rest
    else fail (.notClosed bracket t.kind t.value) (t :: rest)

end Parse

end DebugExpr
