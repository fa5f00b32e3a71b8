import DebugExpr.Expr.Basic

/-!
# The canonical text of an expression

Every operator stands in parentheses, so that the text shows the tree. The texts of strings
and numbers are shown as they were written.
-/

namespace DebugExpr

namespace Expr

def showArgs (texts : List String) : String :=
  "[" ++ ", ".intercalate texts ++ "]"

mutual

def render : Expr → String
  | .number radix text => radix.mark ++ text
  | .string text => "\"" ++ text ++ "\""
  | .var name => name
  | .unary op e => "(" ++ op.symbol ++ e.render ++ ")"
  | .binary op l r => "(" ++ l.render ++ " " ++ op.symbol ++ " " ++ r.render ++ ")"
  | .bareCall name => name ++ "()"
  | .call name args => name ++ "(" ++ showArgs (renderList args) ++ ")"
  | .assign name value => "(" ++ name ++ " = " ++ value.render ++ ")"
  | .func params body =>
    "fn(" ++ ", ".intercalate params ++ ") \x7b" ++ "; ".intercalate (renderList body) ++ "\x7d"

def renderList : List Expr → List String
  | [] => []
  | e :: es => e.render :: renderList es

end

theorem renderList_eq_map (es : List Expr) : renderList es = es.map render := by
  induction es with
  | nil => rfl
  | cons e es ih => simp [renderList, ih]

end Expr

end DebugExpr
