import DebugExpr.CommandLine.Display
import DebugExpr.Token.Basic

/-!
# The table of tokens

A titled table in a box: a token a row, with its position, its kind and its quoted value.
-/

namespace DebugExpr.CommandLine

structure Row where
  pos : String
  kind : String
  lexeme : String

def headings : Row := ⟨"Pos", "Kind", "Lexeme"⟩

def Row.ofToken (t : Token) : Row :=
  ⟨toString t.pos, t.kind.name, display (Text.quoted t.value)⟩

structure Widths where
  pos : Nat
  kind : Nat
  lexeme : Nat

/-- Each column is as wide as its widest cell. -/
def Widths.ofRows (rows : List Row) : Widths where
  pos := (rows.map (Text.width ·.pos)).foldl max 0
  kind := (rows.map (Text.width ·.kind)).foldl max 0
  lexeme := (rows.map (Text.width ·.lexeme)).foldl max 0

def fill (width : Nat) (s : String) : String :=
  Text.spaces (width - Text.width s)

/-- A row between bars; positions stand on the right of their column. -/
def Row.line (bar : String) (w : Widths) (r : Row) : String :=
  bar ++ " " ++ fill w.pos r.pos ++ r.pos ++ " " ++ bar ++ " " ++ r.kind ++ fill w.kind r.kind ++
    " " ++ bar ++ " " ++ r.lexeme ++ fill w.lexeme r.lexeme ++ " " ++ bar

/-- A rule of the box from its left end, its line, its crossings and its right end. -/
def Widths.rule (w : Widths) (left line cross right : String) : String :=
  let part (n : Nat) := String.join (List.replicate (n + 2) line)
  left ++ part w.pos ++ cross ++ part w.kind ++ cross ++ part w.lexeme ++ right

def Widths.title (w : Widths) (s : String) : String :=
  let free := w.pos + w.kind + w.lexeme + 10 - s.length
  Text.spaces (free / 2) ++ s ++ Text.spaces (free - free / 2)

def tableLines (tokens : List Token) : List String :=
  let rows := tokens.map Row.ofToken
  let w := Widths.ofRows (headings :: rows)
  [w.title "Tokens", w.rule "┏" "━" "┳" "┓", headings.line "┃" w, w.rule "┡" "━" "╇" "┩"] ++
    rows.map (Row.line "│" w) ++ [w.rule "└" "─" "┴" "┘"]

end DebugExpr.CommandLine
