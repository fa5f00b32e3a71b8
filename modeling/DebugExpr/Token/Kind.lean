/-!
# Kinds of token

The kinds, the names they are shown by, and the operators with their spellings.
-/

namespace DebugExpr.Token

inductive Kind where
  | number | hex | bin | string | ident
  | plus | minus | star | slash | concat | bang | and | or
  | assign | starAssign | slashAssign | plusAssign | minusAssign | concatAssign
  | lparen | rparen | comma | lbrace | rbrace
  /-- A character that begins no other lexeme. -/
  | unknown
  | eof
  deriving DecidableEq

namespace Kind

def name : Kind → String
  | number => "number"
  | hex => "hex"
  | bin => "bin"
  | string => "string"
  | ident => "ident"
  | plus => "plus"
  | minus => "minus"
  | star => "star"
  | slash => "slash"
  | concat => "concat"
  | bang => "bang"
  | and => "and"
  | or => "or"
  | assign => "assign"
  | starAssign => "star_assign"
  | slashAssign => "slash_assign"
  | plusAssign => "plus_assign"
  | minusAssign => "minus_assign"
  | concatAssign => "concat_assign"
  | lparen => "lparen"
  | rparen => "rparen"
  | comma => "comma"
  | lbrace => "lbrace"
  | rbrace => "rbrace"
  | unknown => "unknown"
  | eof => "eof"

def all : List Kind :=
  [number, hex, bin, string, ident, plus, minus, star, slash, concat, bang, and, or,
    assign, starAssign, slashAssign, plusAssign, minusAssign, concatAssign,
    lparen, rparen, comma, lbrace, rbrace, unknown, eof]

theorem mem_all (k : Kind) : k ∈ all := by
  cases k <;> decide

def ofName? (s : String) : Option Kind :=
  all.find? fun k => k.name == s

theorem ofName?_name (k : Kind) : ofName? k.name = some k := by
  cases k <;> decide

/-- The operators and punctuation marks; one that begins with another stands before it. -/
def operators : List (List Char × Kind) :=
  [(['+', '+', '='], concatAssign), (['+', '+'], concat),
    (['*', '='], starAssign), (['/', '='], slashAssign),
    (['+', '='], plusAssign), (['-', '='], minusAssign),
    (['&', '&'], and), (['|', '|'], or),
    (['+'], plus), (['-'], minus), (['*'], star), (['/'], slash),
    (['!'], bang), (['='], assign),
    (['('], lparen), ([')'], rparen), ([','], comma), (['{'], lbrace), (['}'], rbrace)]

end Kind

end DebugExpr.Token
