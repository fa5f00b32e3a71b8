import DebugExpr.Analysis

/-!
# Reading at a cursor

The parser once more, on all tokens of a list and with an index into them. Every token is looked at
through this index, which only `advance` moves. A look at what is not there, or beyond a given
index, ends the run, and so does a loop that takes too many rounds.
-/

namespace DebugExpr.Cursor

open Token (Kind)

/-- How a run ends without a tree. -/
inductive Stop where
  /-- A failure of the input, with the position of the blamed token. -/
  | blame (cause : Cause) (pos : Int)
  /-- A look beyond the tokens, or beyond those that may be looked at. -/
  | outside
  /-- A loop with more rounds than it may take. -/
  | endless

/-- The tokens of a run, the last index that may be looked at, and the rounds that a loop may
take. -/
structure Tape where
  tokens : List Token
  reach : Nat
  rounds : Nat

/-- The readings of one level of nesting, from an index on. -/
structure Level where
  expr : List Bracket → Nat → Nat → Except Stop (Expr × Nat)
  operand : List Bracket → Nat → Except Stop (Expr × Nat)

variable (tape : Tape)

/-! ## Looking and moving -/

def look (i : Nat) : Except Stop Token :=
  match tape.tokens[i]? with
  | none => .error .outside
  | some t => if i ≤ tape.reach then .ok t else .error .outside

/-- A look ahead: behind the last token there is the last token again. -/
def peek (i : Nat) : Except Stop Token :=
  look tape (min i (tape.tokens.length - 1))

/-- The token at the cursor, and the cursor on the next token. It stays on the last one. -/
def advance (i : Nat) : Except Stop (Token × Nat) := do
  let t ← look tape i
  let next := if i + 1 < tape.tokens.length then i + 1 else i
  let _ ← look tape next
  return (t, next)

def fail {α : Type} (cause : Cause) (i : Nat) : Except Stop α := do
  let t ← look tape i
  .error (.blame cause t.pos)

def build (e : Expr) (i : Nat) : Except Stop (Expr × Nat) :=
  if e.height > maxHeight then fail tape .tooDeep i else .ok (e, i)

def closeGroup (b : Bracket) (opener : Token) (i : Nat) : Except Stop Nat := do
  let t ← look tape i
  if t.kind = b.closing then do
    let (_, i) ← advance tape i
    return i
  else if t.kind = .eof then .error (.blame (.unclosed b opener.value) opener.pos)
  else .error (.blame (.notClosed b t.kind t.value) t.pos)

/-! ## Lists of expressions -/

def separated (sep : Kind) (item : Nat → Except Stop (Expr × Nat)) :
    (rounds : Nat) → Nat → Except Stop (List Expr × Nat)
  | 0, _ => .error .endless
  | rounds + 1, i => do
    let t ← look tape i
    if t.kind = sep then do
      let (_, i) ← advance tape i
      let (e, i) ← item i
      let (es, i) ← separated sep item rounds i
      return (e :: es, i)
    else .ok ([], i)

def exprs (inner : Level) (groups : List Bracket) (i : Nat) : Except Stop (List Expr × Nat) := do
  let item := inner.expr groups assignPrecedence
  let (e, i) ← item i
  let (es, i) ← separated tape .comma item tape.rounds i
  return (e :: es, i)

/-! ## Function literals -/

/-- The index after the names that commas and names go on with. -/
def skipNames : (rounds : Nat) → Nat → Except Stop Nat
  | 0, _ => .error .endless
  | rounds + 1, i => do
    let t ← peek tape i
    if t.kind = .comma then do
      let u ← peek tape (i + 1)
      if u.kind = .ident then skipNames rounds (i + 2) else .ok i
    else .ok i

def endsParams (i : Nat) : Except Stop Bool := do
  let t ← peek tape i
  if t.kind = .rparen then do
    let u ← peek tape (i + 1)
    return u.kind = .lbrace
  else .ok false

/-- Whether the parenthesis at the cursor begins a function literal. -/
def opensFunc (i : Nat) : Except Stop Bool := do
  let t ← peek tape (i + 1)
  if t.kind = .ident then do
    let i ← skipNames tape tape.rounds (i + 2)
    endsParams tape i
  else endsParams tape (i + 1)

/-- Names up to the closing parenthesis. Any other token is taken for a name. -/
def takeParams : (rounds : Nat) → Nat → Except Stop (List String × Nat)
  | 0, _ => .error .endless
  | rounds + 1, i => do
    let t ← look tape i
    if t.kind = .rparen then .ok ([], i)
    else do
      let (t, i) ← advance tape i
      let u ← look tape i
      if u.kind = .comma then do
        let (_, i) ← advance tape i
        let (xs, i) ← takeParams rounds i
        return (t.value :: xs, i)
      else do
        let (xs, i) ← takeParams rounds i
        return (t.value :: xs, i)

def funcItems (inner : Level) (groups : List Bracket) (i : Nat) :
    Except Stop (List Expr × Nat) := do
  let t ← look tape i
  if t.kind = .rbrace then .ok ([], i) else exprs tape inner (.brace :: groups) i

def func (inner : Level) (groups : List Bracket) (i : Nat) : Except Stop (Expr × Nat) := do
  let (_, i) ← advance tape i
  let (params, i) ← takeParams tape tape.rounds i
  let (_, i) ← advance tape i
  let (opener, i) ← advance tape i
  let (body, i) ← funcItems tape inner groups i
  let i ← closeGroup tape .brace opener i
  build tape (.func params body) i

/-! ## Operands -/

def call (inner : Level) (groups : List Bracket) (i : Nat) : Except Stop (Expr × Nat) := do
  let (name, i) ← advance tape i
  let (opener, i) ← advance tape i
  let t ← look tape i
  if t.kind = .rparen then do
    let (_, i) ← advance tape i
    return (.bareCall name.value, i)
  else do
    let (args, i) ← exprs tape inner (.paren :: groups) i
    let i ← closeGroup tape .paren opener i
    build tape (.call name.value args) i

def parens (inner : Level) (groups : List Bracket) (i : Nat) : Except Stop (Expr × Nat) := do
  let isFunc ← opensFunc tape i
  if isFunc then func tape inner groups i
  else do
    let t ← peek tape (i + 1)
    if t.kind = .rparen then fail tape .emptyParens i
    else do
      let (opener, i) ← advance tape i
      let (e, i) ← inner.expr (.paren :: groups) assignPrecedence i
      let i ← closeGroup tape .paren opener i
      return (e, i)

def leaf (e : Expr) (i : Nat) : Except Stop (Expr × Nat) := do
  let (_, i) ← advance tape i
  return (e, i)

def primary (extended : Bool) (inner : Level) (groups : List Bracket) (i : Nat) :
    Except Stop (Expr × Nat) := do
  let t ← look tape i
  match t.kind with
  | .number => leaf tape (.number .dec t.value) i
  | .hex => leaf tape (.number .hex t.value) i
  | .bin =>
    if extended then leaf tape (.number .bin t.value) i else fail tape .binaryLiteral i
  | .string => leaf tape (.string t.value) i
  | .ident => do
    let u ← peek tape (i + 1)
    if u.kind = .lparen then call tape inner groups i else leaf tape (.var t.value) i
  | .lparen => parens tape inner groups i
  | .eof => fail tape .missing i
  | _ => fail tape (Parse.noOperand groups t) i

def unary (extended : Bool) (inner : Level) (groups : List Bracket) (i : Nat) :
    Except Stop (Expr × Nat) := do
  let t ← look tape i
  match t.kind.unaryOp? with
  | some op => do
    let (_, i) ← advance tape i
    let (e, i) ← inner.operand groups i
    build tape (.unary op e) i
  | none => primary tape extended inner groups i

/-! ## Operators -/

def sumRight (i : Nat) : Expr → List Expr → Except Stop Expr
  | e, [] => .ok e
  | e, e' :: es => do
    let right ← sumRight i e' es
    let (sum, _) ← build tape (.binary .add e right) i
    return sum

def rightOperand (inner : Level) (groups : List Bracket) (op : BinaryOp) (i : Nat) :
    Except Stop (Expr × Nat) := do
  let item := inner.expr groups (op.precedence + 1)
  let (e, i) ← item i
  if op = .add then do
    let (es, i) ← separated tape .plus item tape.rounds i
    let right ← sumRight tape i e es
    return (right, i)
  else return (e, i)

/-- What an assignment with an operator stores. -/
def stored (name : String) (op : Option BinaryOp) (value : Expr) (i : Nat) :
    Except Stop (Expr × Nat) :=
  match op with
  | some op => build tape (.binary op (.var name) value) i
  | none => .ok (value, i)

def assignment (inner : Level) (groups : List Bracket) (target : Expr) (op : Option BinaryOp)
    (sign : Token) (i : Nat) : Except Stop (Expr × Nat) :=
  match target with
  | .var name => do
    let (_, i) ← advance tape i
    let (value, i) ← inner.expr groups assignPrecedence i
    let (value, i) ← stored tape name op value i
    build tape (.assign name value) i
  | _ => .error (.blame (.notAssignable target) sign.pos)

def operators (inner : Level) (groups : List Bracket) (least : Nat) :
    (rounds : Nat) → Expr → Nat → Except Stop (Expr × Nat)
  | 0, _, _ => .error .endless
  | rounds + 1, left, i => do
    let t ← look tape i
    match t.kind.assignOp?, t.kind.binaryOp? with
    | some op, _ =>
      if least > assignPrecedence then .ok (left, i)
      else do
        let (e, i) ← assignment tape inner groups left op t i
        operators inner groups least rounds e i
    | none, some op =>
      if op.precedence < least then .ok (left, i)
      else do
        let (_, i) ← advance tape i
        let (right, i) ← rightOperand tape inner groups op i
        let (e, i) ← build tape (.binary op left right) i
        operators inner groups least rounds e i
    | none, none => .ok (left, i)

/-! ## Runs -/

namespace Level

def bottom : Level where
  expr _ _ i := fail tape .tooDeep i
  operand _ i := fail tape .tooDeep i

def above (extended : Bool) (inner : Level) : Level where
  expr groups least i := do
    let (e, i) ← unary tape extended inner groups i
    operators tape inner groups least tape.rounds e i
  operand groups i := unary tape extended inner groups i

def ofDepth (extended : Bool) : Nat → Level
  | 0 => bottom tape
  | n + 1 => above tape extended (ofDepth extended n)

end Level

/-- The expression before the first token that belongs to none, which has to be an end mark. -/
def expression (extended : Bool) : Except Stop Expr := do
  let (e, i) ← (Level.ofDepth tape extended maxDepth).expr [] assignPrecedence 0
  let t ← look tape i
  if t.kind = .eof then return e else .error (.blame (Parse.leftOver t) t.pos)

/-- The index of the first end mark. -/
def firstMark (tokens : List Token) : Nat :=
  (Token.withEndMark tokens).findIdx fun t => t.kind = .eof

/-- A run over tokens, with an end mark added if there is none at their end. It comes to nothing if
it looks beyond its reach or takes more rounds than it may. -/
def run (settings : Settings) (source : Option String) (tokens : List Token)
    (reach rounds : Nat) : Option (Except Fault Expr) :=
  match expression ⟨Token.withEndMark tokens, reach, rounds⟩ settings.extended with
  | .ok e => some (.ok e)
  | .error (.blame cause pos) =>
    some (.error (.diagnostic (.expression cause.message source pos)))
  | .error .outside | .error .endless => none

-- The end mark behind a number has to be looked at.
example : (run {} none [⟨.number, "1", 0⟩] 0 2).isNone = true := rfl

end DebugExpr.Cursor
