import DebugExpr.Expr.Basic

/-!
# Walking an expression

The nodes of a tree in pre-order: a node, then the nodes of its children from left to right.
-/

namespace DebugExpr.Expr

mutual

/-- The expression and all expressions below it. -/
def walk : Expr → List Expr
  | .number r s => [.number r s]
  | .string s => [.string s]
  | .var x => [.var x]
  | .unary op e => .unary op e :: e.walk
  | .binary op l r => .binary op l r :: (l.walk ++ r.walk)
  | .bareCall f => [.bareCall f]
  | .call f es => .call f es :: walkList es
  | .assign x e => .assign x e :: e.walk
  | .func ps es => .func ps es :: walkList es

def walkList : List Expr → List Expr
  | [] => []
  | e :: es => e.walk ++ walkList es

end

theorem walkList_eq_flatMap (es : List Expr) : walkList es = es.flatMap walk := by
  induction es with
  | nil => rfl
  | cons e es ih => simp [walkList, ih]

end DebugExpr.Expr
