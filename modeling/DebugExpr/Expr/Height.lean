import DebugExpr.Expr.Basic

/-!
# The height of an expression
-/

namespace DebugExpr.Expr

mutual

/-- The number of levels of a tree. A function literal has two even when its body is empty. -/
def height : Expr → Nat
  | .number .. | .string .. | .var .. | .bareCall .. => 1
  | .unary _ e => e.height + 1
  | .binary _ l r => max l.height r.height + 1
  | .call _ es => max 1 (heightList es) + 1
  | .assign _ e => e.height + 1
  | .func _ es => max 1 (heightList es) + 1

def heightList : List Expr → Nat
  | [] => 0
  | e :: es => max e.height (heightList es)

end

end DebugExpr.Expr
