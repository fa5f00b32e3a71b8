import DebugExpr.Expr.Failure
import DebugExpr.Expr.Height
import DebugExpr.Parse.Basic

/-!
# The stack

The text of a tree is written by recursion, so a machine can write it only as far as its stack goes.
How much of the stack a level of a tree takes, and how much is left where the text is asked for,
differs from one machine to another. The limit on the height of trees is there so that the texts of
those that are built can be written and their nodes walked through.
-/

namespace DebugExpr

/-- What the stack of a machine has room for. -/
structure Stack where
  /-- Whether the text of a tree can be written for the message that an assignment to the tree is
  refused, where the reading of the tokens has come to it. -/
  quotes : List Token → Expr → Bool
  /-- Whether the text of a tree can be written when no tokens are being read. -/
  shows : Expr → Bool

namespace Stack

/-- A stack with room for every tree. -/
def ample : Stack where
  quotes _ _ := true
  shows _ := true

/-- A stack with room for trees of so many levels, wherever their texts are asked for. -/
def ofLevels (n : Nat) : Stack where
  quotes _ e := e.height ≤ n
  shows e := e.height ≤ n

/-- The stack has room for every tree within the limit on the height. -/
structure HoldsTrees (s : Stack) : Prop where
  quotes : ∀ ts e, e.height ≤ maxHeight → s.quotes ts e = true
  shows : ∀ e, e.height ≤ maxHeight → s.shows e = true

theorem holdsTrees_ample : ample.HoldsTrees where
  quotes _ _ _ := rfl
  shows _ _ := rfl

theorem holdsTrees_ofLevels {n : Nat} (h : maxHeight ≤ n) : (ofLevels n).HoldsTrees where
  quotes _ _ he := decide_eq_true (Nat.le_trans he h)
  shows _ he := decide_eq_true (Nat.le_trans he h)

/-- Whether the message of a cause can be written: only that of a refused assignment has the text of
a tree in it. -/
def writes (s : Stack) (ts : List Token) : Cause → Bool
  | .notAssignable target => s.quotes ts target
  | _ => true

@[simp] theorem writes_ample (ts : List Token) (cause : Cause) : ample.writes ts cause = true := by
  cases cause <;> rfl

end Stack

end DebugExpr
