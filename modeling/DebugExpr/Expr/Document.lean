import DebugExpr.Document.Value
import DebugExpr.Expr.Render
import DebugExpr.Expr.Walk

/-!
# Trees as documents

A tree written as a document: a table for each node, whose entry `t` names the form of the node.
A list of arguments is a node of its own there, though it is no expression.
-/

namespace DebugExpr

inductive Node where
  | expr (e : Expr)
  | args (items : List Expr)

namespace Node

inductive Form where
  | number | string | var | unary | binary | args | call | assign | func
  deriving DecidableEq

def Form.name : Form → String
  | number => "NumberLiteral"
  | string => "StringLiteral"
  | var => "Variable"
  | unary => "UnaryExpr"
  | binary => "BinaryExpr"
  | args => "ArgList"
  | call => "FuncCall"
  | assign => "Assign"
  | func => "FuncLiteral"

def Form.all : List Form := [number, string, var, unary, binary, args, call, assign, func]

def Form.ofName? (s : String) : Option Form :=
  all.find? fun f => f.name == s

def Form.ofExpr : Expr → Form
  | .number .. => number
  | .string .. => string
  | .var .. => var
  | .unary .. => unary
  | .binary .. => binary
  | .bareCall .. | .call .. => call
  | .assign .. => assign
  | .func .. => func

/-- A field of a node, with the nodes in it already read. -/
inductive Part where
  | null
  | text (s : String)
  | node (n : Node)
  | items (ps : List Part)
  | other

namespace Part

def text? : Part → Option String
  | text s => some s
  | _ => none

def expr? : Part → Option Expr
  | node (.expr e) => some e
  | _ => none

def items? : Part → Option (List Part)
  | items ps => some ps
  | _ => none

def texts? (p : Part) : Option (List String) := do
  (← p.items?).mapM text?

def exprs? (p : Part) : Option (List Expr) := do
  (← p.items?).mapM expr?

end Part

abbrev Fields := List (String × Part)

def required? {α : Type} (fields : Fields) (name : String) (read : Part → Option α) :
    Option α := do
  read (← fields.lookup name)

def optional? {α : Type} (fields : Fields) (name : String) (default : α)
    (read : Part → Option α) : Option α :=
  match fields.lookup name with
  | some p => read p
  | none => some default

def callOf? (name : String) : Part → Option Expr
  | .null => some (.bareCall name)
  | .node (.args items) => some (.call name items)
  | _ => none

/-- The node of a form with its fields. Other fields than those of the form do not count. -/
def ofFields? (fields : Fields) : Form → Option Node
  | .number => do
    let text ← required? fields "text" Part.text?
    let radix ← optional? fields "base" .dec fun p => p.text?.bind Radix.ofName?
    return .expr (.number radix text)
  | .string => do return .expr (.string (← required? fields "text" Part.text?))
  | .var => do return .expr (.var (← required? fields "name" Part.text?))
  | .unary => do
    let op ← required? fields "op" fun p => p.text?.bind UnaryOp.ofSymbol?
    return .expr (.unary op (← required? fields "operand" Part.expr?))
  | .binary => do
    let op ← required? fields "op" fun p => p.text?.bind BinaryOp.ofSymbol?
    let left ← required? fields "left" Part.expr?
    return .expr (.binary op left (← required? fields "right" Part.expr?))
  | .args => do return .args (← optional? fields "items" [] Part.exprs?)
  | .call => do
    let name ← required? fields "name" Part.text?
    return .expr (← callOf? name ((fields.lookup "args").getD .null))
  | .assign => do
    let name ← required? fields "name" Part.text?
    return .expr (.assign name (← required? fields "value" Part.expr?))
  | .func => do
    let params ← optional? fields "params" [] Part.texts?
    return .expr (.func params (← optional? fields "body" [] Part.exprs?))

def ofTable? (fields : Fields) : Option Node := do
  let form ← (← required? fields "t" Part.text?) |> Form.ofName?
  ofFields? fields form

open Document

mutual

def partOfValue : Value → Part
  | .null => .null
  | .string s => .text s
  | .list vs => .items (partsOfList vs)
  | .table entries => ((ofTable? (partsOfEntries entries)).map Part.node).getD .other
  | .bool _ | .int _ | .float _ | .moment => .other

def partsOfList : List Value → List Part
  | [] => []
  | v :: vs => partOfValue v :: partsOfList vs

def partsOfEntries : List (String × Value) → Fields
  | [] => []
  | e :: es => fieldOfEntry e :: partsOfEntries es

def fieldOfEntry : String × Value → String × Part
  | (k, v) => (k, partOfValue v)

end

def ofValue? (v : Value) : Option Node :=
  match partOfValue v with
  | .node n => some n
  | _ => none

def render : Node → String
  | expr e => e.render
  | args items => Expr.showArgs (Expr.renderList items)

def notExpression : String :=
  "Unknown expression node: " ++ Form.args.name

def toExpr : Node → Except String Expr
  | expr e => .ok e
  | args _ => .error notExpression

end Node

end DebugExpr
