/-!
# Expressions

The trees of the language and their operators.
-/

namespace DebugExpr

inductive Radix where
  | dec | hex | bin
  deriving DecidableEq

inductive UnaryOp where
  | not | neg
  deriving DecidableEq

inductive BinaryOp where
  | add | sub | mul | div | concat | and | or
  deriving DecidableEq

/-- An expression. Literals keep their digits or characters as written. -/
inductive Expr where
  | number (radix : Radix) (text : String)
  | string (text : String)
  | var (name : String)
  | unary (op : UnaryOp) (operand : Expr)
  | binary (op : BinaryOp) (left right : Expr)
  /-- A call with nothing between its parentheses; no list of arguments belongs to it. -/
  | bareCall (name : String)
  | call (name : String) (args : List Expr)
  | assign (name : String) (value : Expr)
  | func (params : List String) (body : List Expr)

namespace UnaryOp

def symbol : UnaryOp → String
  | not => "!"
  | neg => "-"

def all : List UnaryOp := [not, neg]

def ofSymbol? (s : String) : Option UnaryOp :=
  all.find? fun op => op.symbol == s

theorem ofSymbol?_symbol (op : UnaryOp) : ofSymbol? op.symbol = some op := by
  cases op <;> decide

end UnaryOp

namespace BinaryOp

def symbol : BinaryOp → String
  | add => "+"
  | sub => "-"
  | mul => "*"
  | div => "/"
  | concat => "++"
  | and => "&&"
  | or => "||"

def all : List BinaryOp := [add, sub, mul, div, concat, and, or]

def ofSymbol? (s : String) : Option BinaryOp :=
  all.find? fun op => op.symbol == s

theorem ofSymbol?_symbol (op : BinaryOp) : ofSymbol? op.symbol = some op := by
  cases op <;> decide

end BinaryOp

namespace Radix

def name : Radix → String
  | dec => "dec"
  | hex => "hex"
  | bin => "bin"

def all : List Radix := [dec, hex, bin]

def ofName? (s : String) : Option Radix :=
  all.find? fun r => r.name == s

theorem ofName?_name (r : Radix) : ofName? r.name = some r := by
  cases r <;> decide

def mark : Radix → String
  | dec => ""
  | hex => "0x"
  | bin => "0b"

end Radix

end DebugExpr
