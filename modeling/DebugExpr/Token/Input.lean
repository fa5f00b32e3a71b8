import DebugExpr.Token.Basic

/-!
# Input of the parser

The parser reads the tokens before the first end mark. A list without a last end mark gets
one, just after its last token.
-/

namespace DebugExpr.Token

def withEndMark (ts : List Token) : List Token :=
  match ts.getLast? with
  | none => [endMark 0]
  | some t => if t.kind = .eof then ts else ts ++ [endMark t.stop]

/-- The tokens before the end of the input, and its offset. -/
structure Input where
  tokens : List Token
  stop : Int

def Input.ofList (ts : List Token) : Input :=
  let ts := withEndMark ts
  { tokens := ts.takeWhile fun t => t.kind ≠ .eof
    stop := ((ts.find? fun t => t.kind = .eof).map pos).getD 0 }

end DebugExpr.Token
