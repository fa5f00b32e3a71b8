import DebugExpr.Proofs.Acceptance

/-!
# Sums by recursion

The reader takes the summands of a sum one after another and groups them from the right afterwards.
The grammar says it by recursion: what stands to the right of a plus is again a sum. Tokens that are
read that way have the same outcome, unless the recursion runs out of levels.
-/

namespace DebugExpr

open Grammar

namespace Parse

/-! ## Other readings of the right operand -/

/-- A reading of the right operand of an operator, from the level below. -/
abbrev RightReading :=
  Level → List Bracket → BinaryOp → List Token → Except Failure (Front Expr)

/-- The right operand by recursion: that of a sum is a sum, that of any other operator is an
expression of tighter operators. -/
def recursiveOperand : RightReading := fun inner groups op ts =>
  inner.expr groups (if op = .add then op.precedence else op.precedence + 1) ts

/-- The loop over operators, with the reading of right operands left open. -/
def operatorsBy (right : RightReading) (inner : Level) (groups : List Bracket) (least : Nat) :
    (bound : Nat) → Expr → List Token → Except Failure (Front Expr)
  | bound + 1, left, t :: rest =>
    match t.kind.assignOp?, t.kind.binaryOp? with
    | some op, _ =>
      if least > assignPrecedence then .ok (left, t :: rest)
      else do
        let (e, rest) ← assignment inner groups left op t rest
        operatorsBy right inner groups least bound e rest
    | none, some op =>
      if op.precedence < least then .ok (left, t :: rest)
      else do
        let (r, rest) ← right inner groups op rest
        let (e, rest) ← build (.binary op left r) rest
        operatorsBy right inner groups least bound e rest
    | none, none => .ok (left, t :: rest)
  | _, left, ts => .ok (left, ts)

def Level.aboveBy (right : RightReading) (extended : Bool) (inner : Level) : Level where
  expr groups least ts := do
    let (e, rest) ← unary extended inner groups ts
    operatorsBy right inner groups least rest.length e rest
  operand groups ts := unary extended inner groups ts

def Level.ofDepthBy (right : RightReading) (extended : Bool) : Nat → Level
  | 0 => bottom
  | n + 1 => aboveBy right extended (ofDepthBy right extended n)

/-- The readings themselves are those with the further summands taken in a row. -/
theorem operatorsBy_rightOperand : operatorsBy rightOperand = operators := by
  funext inner groups least bound left ts
  induction bound generalizing left ts with
  | zero => rfl
  | succ bound ih =>
      cases ts with
      | nil => rfl
      | cons t ts =>
          have hloop : operatorsBy rightOperand inner groups least bound =
              operators inner groups least bound := by
            funext left ts
            exact ih left ts
          rw [operatorsBy, hloop]
          rfl

theorem Level.aboveBy_rightOperand (extended : Bool) (inner : Level) :
    Level.aboveBy rightOperand extended inner = Level.above extended inner := by
  rw [Level.aboveBy, Level.above, operatorsBy_rightOperand]

/-! ## Up to the depth -/

/-- Both results are the same, unless the first one is too deep. -/
def UpToDepth {α : Type} (x y : Except Failure α) : Prop :=
  x = y ∨ ∃ ts, x = .error ⟨.tooDeep, ts⟩

namespace UpToDepth

variable {α β : Type} {x y z : Except Failure α}

theorem refl (x : Except Failure α) : UpToDepth x x :=
  .inl rfl

theorem trans (h : UpToDepth x y) (h' : UpToDepth y z) : UpToDepth x z := by
  rcases h with rfl | h
  · exact h'
  · exact .inr h

theorem bind {f g : α → Except Failure β} (h : UpToDepth x y)
    (hf : ∀ a, y = .ok a → UpToDepth (f a) (g a)) : UpToDepth (x >>= f) (y >>= g) := by
  rcases h with rfl | ⟨ts, rfl⟩
  · cases x with
    | error => exact refl _
    | ok a => exact hf a rfl
  · exact .inr ⟨ts, rfl⟩

end UpToDepth

/-- What the first level reads, the second one reads in the same way, unless the first one finds it
too deep. -/
structure Level.Below (inner inner' : Level) : Prop where
  expr (groups : List Bracket) (least : Nat) (ts : List Token) :
    UpToDepth (inner.expr groups least ts) (inner'.expr groups least ts)
  operand (groups : List Bracket) (ts : List Token) :
    UpToDepth (inner.operand groups ts) (inner'.operand groups ts)

variable {inner inner' : Level} {groups : List Bracket}

theorem upToDepth_separated (h : inner.Below inner') (sep : Token.Kind) (least bound : Nat)
    (ts : List Token) :
    UpToDepth (separated sep (inner.expr groups least) bound ts)
      (separated sep (inner'.expr groups least) bound ts) := by
  induction bound generalizing ts with
  | zero => exact .refl _
  | succ bound ih =>
      cases ts with
      | nil => exact .refl _
      | cons t ts =>
          rw [separated, separated]
          split
          · refine (h.expr groups least ts).bind fun p _ => ?_
            exact (ih p.2).bind fun _ _ => .refl _
          · exact .refl _

theorem upToDepth_exprs (h : inner.Below inner') (ts : List Token) :
    UpToDepth (exprs inner groups ts) (exprs inner' groups ts) := by
  refine (h.expr groups assignPrecedence ts).bind fun p _ => ?_
  exact (upToDepth_separated h .comma assignPrecedence p.2.length p.2).bind fun _ _ => .refl _

/-! ## Operands -/

theorem upToDepth_call (h : inner.Below inner') (name : String) (opener : Token)
    (inside : List Token) :
    UpToDepth (call inner groups name opener inside) (call inner' groups name opener inside) := by
  unfold call
  split
  · exact .refl _
  · exact (upToDepth_exprs h inside).bind fun _ _ => .refl _

theorem upToDepth_funcBody (h : inner.Below inner') (params : List String) (opener : Token)
    (inside : List Token) :
    UpToDepth (funcBody inner groups params opener inside)
      (funcBody inner' groups params opener inside) := by
  have hbody : UpToDepth
      (if nextIs .rbrace inside then .ok ([], inside) else exprs inner (.brace :: groups) inside)
      (if nextIs .rbrace inside then .ok ([], inside)
        else exprs inner' (.brace :: groups) inside) := by
    split
    · exact .refl _
    · exact upToDepth_exprs h inside
  rw [funcBody_eq, funcBody_eq]
  exact hbody.bind fun _ _ => .refl _

theorem upToDepth_parens (h : inner.Below inner') (opener : Token) (inside : List Token) :
    UpToDepth (parens inner groups opener inside) (parens inner' groups opener inside) := by
  unfold parens
  split
  · split
    · exact upToDepth_funcBody h _ _ _
    · exact .refl _
  · split
    · exact .refl _
    · exact (h.expr _ assignPrecedence inside).bind fun _ _ => .refl _

theorem upToDepth_unary (extended : Bool) (h : inner.Below inner') (ts : List Token) :
    UpToDepth (unary extended inner groups ts) (unary extended inner' groups ts) := by
  cases ts with
  | nil => exact .refl _
  | cons t rest =>
      rw [unary, unary]
      split
      · exact (h.operand groups rest).bind fun _ _ => .refl _
      · simp only [primary]
        split
        · exact .refl _
        · exact .refl _
        · exact .refl _
        · exact .refl _
        · split
          · split
            · exact upToDepth_call h _ _ _
            · exact .refl _
          · exact .refl _
        · exact upToDepth_parens h t rest
        · exact .refl _

/-! ## Operators -/

theorem upToDepth_rightOperand (h : inner.Below inner') (op : BinaryOp) (ts : List Token) :
    UpToDepth (rightOperand inner groups op ts) (rightOperand inner' groups op ts) := by
  refine (h.expr groups (op.precedence + 1) ts).bind fun p _ => ?_
  dsimp only
  split
  · exact (upToDepth_separated h .plus _ _ p.2).bind fun _ _ => .refl _
  · exact .refl _

theorem upToDepth_assignment (h : inner.Below inner') (target : Expr) (op : Option BinaryOp)
    (sign : Token) (ts : List Token) :
    UpToDepth (assignment inner groups target op sign ts)
      (assignment inner' groups target op sign ts) := by
  cases target with
  | var x => exact (h.expr groups assignPrecedence ts).bind fun _ _ => .refl _
  | _ => exact .refl _

theorem upToDepth_operatorsBy {right right' : RightReading} (h : inner.Below inner')
    (hright : ∀ op ts, UpToDepth (right inner groups op ts) (right' inner' groups op ts))
    (least bound : Nat) (left : Expr) (ts : List Token) :
    UpToDepth (operatorsBy right inner groups least bound left ts)
      (operatorsBy right' inner' groups least bound left ts) := by
  induction bound generalizing left ts with
  | zero => exact .refl _
  | succ bound ih =>
      cases ts with
      | nil => exact .refl _
      | cons t ts =>
          rw [operatorsBy, operatorsBy]
          split
          · split
            · exact .refl _
            · exact (upToDepth_assignment h left _ t ts).bind fun p _ => ih p.1 p.2
          · split
            · exact .refl _
            · refine (hright _ ts).bind fun p _ => ?_
              exact (UpToDepth.refl (build (.binary _ left p.1) p.2)).bind fun q _ => ih q.1 q.2
          · exact .refl _

/-! ## Levels -/

variable {extended : Bool}

theorem Level.below_of_bottom (inner : Level) : Level.bottom.Below inner where
  expr _ _ ts := .inr ⟨ts, rfl⟩
  operand _ ts := .inr ⟨ts, rfl⟩

theorem Level.Below.aboveBy {right right' : RightReading} (h : inner.Below inner')
    (hright : ∀ groups op ts, UpToDepth (right inner groups op ts) (right' inner' groups op ts)) :
    (Level.aboveBy right extended inner).Below (Level.aboveBy right' extended inner') where
  expr groups least ts := by
    refine (upToDepth_unary extended h ts).bind fun p _ => ?_
    exact upToDepth_operatorsBy h (hright groups) least p.2.length p.1 p.2
  operand _ ts := upToDepth_unary extended h ts

/-- One more level changes nothing but what was too deep. -/
theorem Level.below_succ (extended : Bool) (n : Nat) :
    (Level.ofDepth extended n).Below (Level.ofDepth extended (n + 1)) := by
  induction n with
  | zero => exact below_of_bottom _
  | succ n ih =>
      rw [Level.ofDepth, Level.ofDepth, ← Level.aboveBy_rightOperand,
        ← Level.aboveBy_rightOperand]
      exact ih.aboveBy fun _ => upToDepth_rightOperand ih

/-! ## A sum to the right of a plus -/

theorem Stops.mono {least least' : Nat} {ts : List Token} (h : Stops least ts)
    (hle : least ≤ least') : Stops least' ts := by
  cases ts with
  | nil => trivial
  | cons t ts =>
      exact ⟨h.1.imp_right fun hlt => Nat.lt_of_lt_of_le hlt hle,
        fun op hop => Nat.lt_of_lt_of_le (h.2 op hop) hle⟩

/-- Where a loop over sums stops, no further summand comes. -/
theorem Stops.noPlus {ts : List Token} (h : Stops BinaryOp.add.precedence ts) :
    nextIs .plus ts = false := by
  cases ts with
  | nil => rfl
  | cons t ts =>
      by_cases ht : t.kind = .plus
      · exact absurd (h.2 .add (binaryOp?_plus ht)) (Nat.lt_irrefl _)
      · simp [nextIs, ht]

/-- Where a loop over sums goes on, an operator comes that binds at least as tightly as a plus. -/
theorem binaryOp_of_not_stops {t : Token} {ts : List Token}
    (h : ¬ Stops BinaryOp.add.precedence (t :: ts)) :
    ∃ op, t.kind.binaryOp? = some op ∧ BinaryOp.add.precedence ≤ op.precedence := by
  cases hop : t.kind.binaryOp? with
  | none => exact absurd ⟨.inr (by decide), fun op hop' => by simp [hop] at hop'⟩ h
  | some op =>
      refine ⟨op, rfl, Nat.le_of_not_lt fun hlt => h ⟨.inr (by decide), fun op' hop' => ?_⟩⟩
      cases hop.symm.trans hop'
      exact hlt

/-- The right operand of a sum ends where a loop over sums stops. -/
theorem Follows.stops_sum {ts : List Token} (h : Follows .sum ts) :
    Stops BinaryOp.add.precedence ts := by
  cases ts with
  | nil => trivial
  | cons t ts =>
      refine ⟨.inr (by decide), fun op hop => ?_⟩
      have := h op hop
      cases op <;> simp_all [leftStratum, Stratum.level, BinaryOp.precedence]

section

variable {right : RightReading} {least bound : Nat} {left : Expr}

theorem operatorsBy_stops {rest : List Token} (h : Stops least rest) :
    operatorsBy right inner groups least bound left rest = .ok (left, rest) := by
  cases bound with
  | zero => rfl
  | succ bound =>
      cases rest with
      | nil => rfl
      | cons t rest =>
          rw [operatorsBy]
          split
          · rename_i op hop
            rw [if_pos (h.1.resolve_left (by simp [hop]))]
          · rename_i op _ hop
            rw [if_pos (h.2 op hop)]
          · rfl

theorem operatorsBy_cons {op : BinaryOp} {t : Token} {ts : List Token}
    (hop : t.kind.binaryOp? = some op) (hleast : least ≤ op.precedence) :
    operatorsBy right inner groups least (bound + 1) left (t :: ts) = (do
      let (r, rest) ← right inner groups op ts
      let (e, rest) ← build (.binary op left r) rest
      operatorsBy right inner groups least bound e rest) := by
  rw [operatorsBy, assignOp?_of_binaryOp? hop, hop]
  simp only [if_neg (Nat.not_lt.mpr hleast)]

end

theorem rightOperand_of_ne {op : BinaryOp} (hop : op ≠ .add) (ts : List Token) :
    rightOperand inner groups op ts = inner.expr groups (op.precedence + 1) ts := by
  rw [rightOperand]
  cases inner.expr groups (op.precedence + 1) ts with
  | error => rfl
  | ok p => simp [bind, Except.bind, hop, pure, Except.pure]

/-- A loop over sums reads a difference and then the further summands. A plus is where the readings
differ: the loop reads a sum to the right of it and stops. -/
theorem upToDepth_summands {upper : Level}
    (hright : ∀ op ts, UpToDepth (recursiveOperand inner groups op ts)
      (rightOperand inner' groups op ts))
    (hsound : inner'.Sound extended) (hupper : inner'.Below upper)
    (hsound' : upper.Sound extended) (bound : Nat) (left : Expr) {ts : List Token}
    (hb : ts.length ≤ bound) :
    UpToDepth (operatorsBy recursiveOperand inner groups BinaryOp.add.precedence bound left ts)
      (do
        let (l, rest) ←
          operatorsBy rightOperand inner' groups Stratum.difference.level bound left ts
        moreSummands upper groups l rest) := by
  induction bound generalizing left ts with
  | zero =>
      cases List.length_eq_zero_iff.mp (Nat.le_zero.mp hb)
      exact .refl _
  | succ bound ih =>
      cases ts with
      | nil => exact .refl _
      | cons t ts =>
          simp only [List.length_cons, Nat.add_le_add_iff_right] at hb
          by_cases hstop : Stops BinaryOp.add.precedence (t :: ts)
          · rw [operatorsBy_stops hstop, operatorsBy_stops (hstop.mono (by decide))]
            exact .inl (moreSummands_last hstop.noPlus).symm
          · obtain ⟨op, hop, hle⟩ := binaryOp_of_not_stops hstop
            rw [operatorsBy_cons hop hle]
            by_cases hadd : op = .add
            · -- The loop over differences stops at the plus; the sum is read by the upper level.
              subst hadd
              have ht := eq_plus_of_binaryOp? hop
              rw [operatorsBy_stops (stops_plus ht ts)]
              refine .trans ?_ (.inl (moreSummands_more hsound' ht).symm)
              refine ((hright .add ts).trans (upToDepth_rightOperand hupper .add ts)).bind ?_
              rintro ⟨r, rest⟩ hr
              have hstops := (rightOperand_takes hsound' hr).2.stops_sum
              dsimp only
              cases hbuild : build (.binary .add left r) rest with
              | error => exact .refl _
              | ok p =>
                  obtain ⟨_, _, hrest⟩ := build_eq_ok.mp hbuild
                  exact .inl (operatorsBy_stops (hrest ▸ hstops))
            · have hlevel : Stratum.difference.level ≤ op.precedence := by
                cases op <;> simp_all [BinaryOp.precedence, Stratum.level]
              rw [operatorsBy_cons hop hlevel]
              simp only [bind_assoc]
              refine (hright op ts).bind ?_
              rintro ⟨r, rest⟩ hr
              have hlength := (rightOperand_takes hsound hr).1.length_le
              dsimp only
              refine (UpToDepth.refl (build (.binary op left r) rest)).bind ?_
              rintro ⟨e, rest'⟩ hbuild
              obtain ⟨_, rfl, rfl⟩ := build_eq_ok.mp hbuild
              exact ih _ (Nat.le_trans hlength hb)

theorem upToDepth_sum (hbelow : inner.Below inner')
    (hright : ∀ groups op ts, UpToDepth (recursiveOperand inner groups op ts)
      (rightOperand inner' groups op ts))
    (hsound : inner'.Sound extended) (hupper : inner'.Below (Level.above extended inner'))
    (groups : List Bracket) (ts : List Token) :
    UpToDepth ((Level.aboveBy recursiveOperand extended inner).expr groups
        BinaryOp.add.precedence ts)
      (rightOperand (Level.above extended inner') groups .add ts) := by
  have hread : (Level.above extended inner').expr groups Stratum.difference.level ts = (do
      let (e, rest) ← unary extended inner' groups ts
      operatorsBy rightOperand inner' groups Stratum.difference.level rest.length e rest) := by
    rw [operatorsBy_rightOperand]
    rfl
  rw [rightOperand_add, hread]
  simp only [bind_assoc]
  refine (upToDepth_unary extended hbelow ts).bind ?_
  rintro ⟨e, rest⟩ _
  exact upToDepth_summands (hright groups) hsound hupper hsound.above rest.length e (Nat.le_refl _)

/-- The readings by recursion are those of the same level, and so are the right operands. -/
theorem Level.recursive_below (extended : Bool) (n : Nat) :
    (Level.ofDepthBy recursiveOperand extended n).Below (Level.ofDepth extended n) ∧
      ∀ groups op ts, UpToDepth
        (recursiveOperand (Level.ofDepthBy recursiveOperand extended n) groups op ts)
        (rightOperand (Level.ofDepth extended n) groups op ts) := by
  induction n with
  | zero => exact ⟨below_of_bottom _, fun _ _ ts => .inr ⟨ts, rfl⟩⟩
  | succ n ih =>
      obtain ⟨hbelow, hright⟩ := ih
      have habove : (Level.ofDepthBy recursiveOperand extended (n + 1)).Below
          (Level.ofDepth extended (n + 1)) := by
        rw [Level.ofDepthBy, Level.ofDepth, ← Level.aboveBy_rightOperand]
        exact hbelow.aboveBy hright
      refine ⟨habove, fun groups op ts => ?_⟩
      by_cases hop : op = .add
      · subst hop
        exact upToDepth_sum hbelow hright (Level.sound extended n) (Level.below_succ extended n)
          groups ts
      · rw [rightOperand_of_ne hop, recursiveOperand, if_neg hop]
        exact habove.expr groups (op.precedence + 1) ts

end Parse

/-! ## All tokens -/

open Parse

def Expr.ofTokensBy (right : RightReading) (extended : Bool) (ts : List Token) :
    Except Failure Expr := do
  let (e, rest) ← (Level.ofDepthBy right extended maxDepth).expr [] assignPrecedence ts
  match rest with
  | [] => return e
  | t :: rest => fail (leftOver t) (t :: rest)

/-- The analysis of tokens, with the reading of right operands left open. -/
def treeifyBy (right : RightReading) (settings : Settings) (source : Option String)
    (tokens : List Token) : Except Fault Expr :=
  let input := Token.Input.ofList tokens
  match Expr.ofTokensBy right settings.extended input.tokens with
  | .ok e => .ok e
  | .error f => .error (.diagnostic (.ofFailure source input f))

theorem ofTokens_recursive (extended : Bool) (ts : List Token) :
    UpToDepth (Expr.ofTokensBy recursiveOperand extended ts) (Expr.ofTokens extended ts) :=
  ((Level.recursive_below extended maxDepth).1.expr [] assignPrecedence ts).bind fun _ _ => .refl _

theorem ofTokensBy_rightOperand (extended : Bool) (ts : List Token) :
    Expr.ofTokensBy rightOperand extended ts = Expr.ofTokens extended ts := by
  have hlevel (n : Nat) : Level.ofDepthBy rightOperand extended n = Level.ofDepth extended n := by
    induction n with
    | zero => rfl
    | succ n ih => rw [Level.ofDepthBy, ih, Level.aboveBy_rightOperand, Level.ofDepth]
  rw [Expr.ofTokensBy, hlevel]
  rfl

/-- With the reading that takes the summands in a row, it is the analysis itself. -/
theorem treeifyBy_rightOperand (settings : Settings) (source : Option String)
    (tokens : List Token) :
    treeifyBy rightOperand settings source tokens = (treeify settings source tokens).result := by
  simp only [treeifyBy, treeify, Expr.ofInput, Fault.ofFailure_ample, ofTokensBy_rightOperand]
  cases Expr.ofTokens settings.extended (Token.Input.ofList tokens).tokens <;> rfl

/-- Summands taken in a row give the tree, or the diagnostic, that the recursion of the grammar
gives, unless the recursion is too deep. -/
theorem treeify_eq_recursive (settings : Settings) (source : Option String) {tokens : List Token}
    (h : ¬ TooDeep (treeifyBy recursiveOperand settings source tokens)) :
    (treeify settings source tokens).result =
      treeifyBy recursiveOperand settings source tokens := by
  rw [← treeifyBy_rightOperand]
  simp only [treeifyBy, ofTokensBy_rightOperand] at h ⊢
  rcases ofTokens_recursive settings.extended (Token.Input.ofList tokens).tokens with hsame | hdeep
  · rw [hsame]
  · obtain ⟨ts, hts⟩ := hdeep
    rw [hts] at h
    exact absurd ⟨_, rfl, by cases source <;> rfl, by cases source <;> rfl⟩ h

/-- Pluses between a difference and a product give one tree, and a sum without its last term one
diagnostic, either way. -/
theorem treeify_eq_recursive_mixed :
    let sum : List Token := [⟨.ident, "a", 0⟩, ⟨.plus, "+", 1⟩, ⟨.ident, "b", 2⟩, ⟨.minus, "-", 3⟩,
      ⟨.ident, "c", 4⟩, ⟨.plus, "+", 5⟩, ⟨.ident, "d", 6⟩, ⟨.star, "*", 7⟩, ⟨.number, "2", 8⟩,
      .endMark 9]
    let broken : List Token := [⟨.ident, "a", 0⟩, ⟨.plus, "+", 1⟩, ⟨.ident, "b", 2⟩,
      ⟨.plus, "+", 3⟩, .endMark 4]
    ¬ TooDeep (treeifyBy recursiveOperand {} none sum) ∧
    (treeify {} none sum).result = treeifyBy recursiveOperand {} none sum ∧
    ¬ TooDeep (treeifyBy recursiveOperand {} (some "a+b+") broken) ∧
    (treeify {} (some "a+b+") broken).result =
      treeifyBy recursiveOperand {} (some "a+b+") broken := by
  intro sum broken
  have hsum : treeifyBy recursiveOperand {} none sum =
      .ok (.binary .add (.var "a") (.binary .add (.binary .sub (.var "b") (.var "c"))
        (.binary .mul (.var "d") (.number .dec "2")))) := rfl
  have hbroken : treeifyBy recursiveOperand {} (some "a+b+") broken =
      .error (.diagnostic (.ofFailure (some "a+b+") (.ofList broken) ⟨.missing, []⟩)) := rfl
  have hdeep : ¬ TooDeep (treeifyBy recursiveOperand {} none sum) := by
    rintro ⟨d, hd, _⟩
    cases hsum.symm.trans hd
  have hdeep' : ¬ TooDeep (treeifyBy recursiveOperand {} (some "a+b+") broken) := by
    rintro ⟨d, hd, _, hreason⟩
    cases hbroken.symm.trans hd
    exact absurd hreason (by decide)
  exact ⟨hdeep, treeify_eq_recursive {} none hdeep, hdeep',
    treeify_eq_recursive {} (some "a+b+") hdeep'⟩

end DebugExpr
