import DebugExpr.Proofs.Limits

/-!
# Every derivation is run

The reader of expressions, started on derived tokens, comes to the loop over operators with the
derived tree as its left operand. This is shown along the derivation, and the levels that the
reader takes are those of the derivation.
-/

namespace DebugExpr.Parse

open Grammar

variable {extended : Bool} {inner : Level} {groups : List Bracket}

/-! ## What may come next -/

/-- The tokens may stand after an expression of the stratum: an operator at their front takes all
of it, and no bracket there makes a call or a function literal of it. -/
structure After (s : Stratum) (rest : List Token) : Prop where
  follows : Follows s rest
  stops : s = .expression → Stops assignPrecedence rest
  noParen : nextIs .lparen rest = false
  noBrace : nextIs .lbrace rest = false

theorem After.mono {s s' : Stratum} {rest : List Token} (h : After s rest)
    (hs : s.level ≤ s'.level) : After s' rest where
  follows := by
    cases rest with
    | nil => trivial
    | cons t rest => exact fun op hop => Nat.le_trans (h.follows op hop) hs
  stops hexpr := by
    subst hexpr
    exact h.stops (by cases s <;> simp_all [Stratum.level])
  noParen := h.noParen
  noBrace := h.noBrace

theorem after_nil (s : Stratum) : After s [] :=
  ⟨trivial, fun _ => trivial, rfl, rfl⟩

/-- An operator may stand after its left operand. -/
theorem after_op {op : BinaryOp} {t : Token} {rest : List Token} (h : t.kind.binaryOp? = some op) :
    After (leftStratum op) (t :: rest) where
  follows op' hop' := by
    cases h.symm.trans hop'
    exact Nat.le_refl _
  stops hexpr := by cases op <;> cases hexpr
  noParen := by
    cases hk : t.kind <;> simp_all [nextIs, Token.Kind.binaryOp?]
  noBrace := by
    cases hk : t.kind <;> simp_all [nextIs, Token.Kind.binaryOp?]

/-- A token that is no operator and opens no group. -/
def isEnd (k : Token.Kind) : Bool :=
  k == .rparen || k == .rbrace || k == .comma

theorem stops_end {t : Token} (h : isEnd t.kind = true) (least : Nat) (rest : List Token) :
    Stops least (t :: rest) := by
  constructor
  · left
    cases hk : t.kind <;> simp_all [isEnd, Token.Kind.assignOp?]
  · intro op hop
    cases hk : t.kind <;> simp_all [isEnd, Token.Kind.binaryOp?]

theorem after_end {t : Token} (h : isEnd t.kind = true) (s : Stratum) (rest : List Token) :
    After s (t :: rest) where
  follows op hop := by
    cases hk : t.kind <;> simp_all [isEnd, Token.Kind.binaryOp?]
  stops _ := stops_end h _ rest
  noParen := by
    cases hk : t.kind <;> simp_all [nextIs, isEnd]
  noBrace := by
    cases hk : t.kind <;> simp_all [nextIs, isEnd]

theorem after_assignOp {op : Option BinaryOp} {t : Token} {rest : List Token}
    (h : t.kind.assignOp? = some op) : After .operand (t :: rest) where
  follows := follows_operand _
  stops := nofun
  noParen := by
    cases hk : t.kind <;> simp_all [nextIs, Token.Kind.assignOp?]
  noBrace := by
    cases hk : t.kind <;> simp_all [nextIs, Token.Kind.assignOp?]

theorem stops_operand (rest : List Token) : Stops Stratum.operand.level rest := by
  cases rest with
  | nil => trivial
  | cons t rest => exact ⟨.inr (by decide), fun op _ => by
      cases op <;> simp [BinaryOp.precedence, Stratum.level]⟩

/-- What may come after an application of an operator stops its right operand. -/
theorem After.stops_right {s : Stratum} {rest : List Token} (h : After s rest) {least : Nat}
    (hs : s.level < least) (hassign : assignPrecedence < least) : Stops least rest := by
  cases rest with
  | nil => trivial
  | cons t rest =>
      refine ⟨.inr hassign, fun op hop => ?_⟩
      have := h.follows op hop
      have := precedence_le_leftStratum op
      omega

theorem operators_stops {least bound : Nat} {left : Expr} {rest : List Token}
    (h : Stops least rest) : operators inner groups least bound left rest = .ok (left, rest) := by
  cases bound with
  | zero => rfl
  | succ bound =>
      cases rest with
      | nil => rfl
      | cons t rest =>
          rw [operators]
          split
          · rename_i op hop
            rw [if_pos (h.1.resolve_left (by simp [hop]))]
          · rename_i op _ hop
            rw [if_pos (h.2 op hop)]
          · rfl

/-! ## Running -/

theorem expr_succ {n least : Nat} {ts : List Token} :
    (Level.ofDepth extended (n + 1)).expr groups least ts = (do
      let (e, rest) ← unary extended (Level.ofDepth extended n) groups ts
      operators (Level.ofDepth extended n) groups least rest.length e rest) :=
  rfl

/-- The reader takes the tokens as a left operand, if the limits allow its levels and height. -/
def Runs (extended : Bool) (s : Stratum) (ts : List Token) (e : Expr) (levels : Nat) : Prop :=
  ∀ (n least : Nat) (groups : List Bracket) (rest : List Token),
    least ≤ s.level → After s rest →
    Within (levels ≤ n ∧ e.height ≤ maxHeight)
      ((Level.ofDepth extended (n + 1)).expr groups least (ts ++ rest))
      (operators (Level.ofDepth extended n) groups least rest.length e rest)

theorem Runs.expr {s : Stratum} {ts : List Token} {e : Expr} {levels : Nat}
    (h : Runs extended s ts e levels) (n least : Nat) (groups : List Bracket)
    (rest : List Token) (hs : least ≤ s.level) (ha : After s rest)
    (hstop : Stops least rest) :
    Within (levels + 1 ≤ n ∧ e.height ≤ maxHeight)
      ((Level.ofDepth extended n).expr groups least (ts ++ rest)) (.ok (e, rest)) := by
  cases n with
  | zero => exact ⟨fun hfits => absurd hfits.1 (by omega), fun _ => ⟨ts ++ rest, rfl⟩⟩
  | succ n =>
      have hrun := h n least groups rest hs ha
      rw [operators_stops hstop] at hrun
      exact hrun.congr (by omega)

theorem operand_eq_expr {n : Nat} {ts : List Token} :
    (Level.ofDepth extended n).operand groups ts =
      (Level.ofDepth extended n).expr groups Stratum.operand.level ts := by
  cases n with
  | zero => rfl
  | succ n =>
      rw [expr_succ]
      cases hu : unary extended (Level.ofDepth extended n) groups ts with
      | error f => simpa [bind, Except.bind, Level.ofDepth, Level.above] using hu
      | ok p =>
          simp only [bind, Except.bind, operators_stops (stops_operand p.2)]
          exact hu

theorem Runs.of_unary {ts : List Token} {e : Expr} {levels : Nat}
    (h : ∀ (n : Nat) (groups : List Bracket) (rest : List Token),
      nextIs .lparen rest = false → nextIs .lbrace rest = false →
      Within (levels ≤ n ∧ e.height ≤ maxHeight)
        (unary extended (Level.ofDepth extended n) groups (ts ++ rest)) (.ok (e, rest))) :
    Runs extended .operand ts e levels := by
  intro n least groups rest _ ha
  rw [expr_succ]
  exact (h n groups rest ha.noParen ha.noBrace).bind _

theorem unary_eq_primary {t : Token} {ts : List Token} (h : t.kind.unaryOp? = none) :
    unary extended inner groups (t :: ts) = primary extended inner groups (t :: ts) := by
  rw [unary, h]

/-! ## Operands -/

theorem runs_leaf {t : Token} {e : Expr} (h : Leaf extended t e) :
    Runs extended .operand [t] e 0 := by
  apply Runs.of_unary
  intro n groups rest hparen _
  refine .of_eq ⟨Nat.zero_le n, ?_⟩ ?_
  · cases h <;> simp [Expr.height, maxHeight]
  · cases h with
    | number h => simp [unary_eq_primary, Token.Kind.unaryOp?, h, primary]
    | hex h => simp [unary_eq_primary, Token.Kind.unaryOp?, h, primary]
    | bin hext h => simp [unary_eq_primary, Token.Kind.unaryOp?, h, primary, hext]
    | string h => simp [unary_eq_primary, Token.Kind.unaryOp?, h, primary]
    | var h =>
        cases rest with
        | nil => simp [unary_eq_primary, Token.Kind.unaryOp?, h, primary]
        | cons u rest =>
            have hu : u.kind ≠ .lparen := by simpa [nextIs] using hparen
            simp [unary_eq_primary, Token.Kind.unaryOp?, h, primary, hu]

theorem unary_ident {t u : Token} {ts : List Token} (ht : t.kind = .ident) (hu : u.kind = .lparen) :
    unary extended inner groups (t :: u :: ts) = call inner groups t.value u ts := by
  simp [unary_eq_primary, Token.Kind.unaryOp?, ht, primary, hu]

theorem unary_lparen {t : Token} {ts : List Token} (ht : t.kind = .lparen) :
    unary extended inner groups (t :: ts) = parens inner groups t ts := by
  simp [unary_eq_primary, Token.Kind.unaryOp?, ht, primary]

theorem closeGroup_cons {b : Bracket} {opener t : Token} {inside rest : List Token}
    (h : t.kind = b.closing) : closeGroup b opener inside (t :: rest) = .ok rest := by
  simp [closeGroup, h]

theorem runs_unary {op : UnaryOp} {t : Token} {ts : List Token} {e : Expr} {levels : Nat}
    (hop : PrefixOp t.kind op) (h : Runs extended .operand ts e levels) :
    Runs extended .operand (t :: ts) (.unary op e) (levels + 1) := by
  apply Runs.of_unary
  intro n groups rest hparen hbrace
  have hread : Within (levels + 1 ≤ n ∧ e.height ≤ maxHeight)
      ((Level.ofDepth extended n).operand groups (ts ++ rest)) (.ok (e, rest)) := by
    rw [operand_eq_expr]
    exact h.expr n _ groups rest (Nat.le_refl _) ⟨follows_operand rest, nofun, hparen, hbrace⟩ (stops_operand rest)
  rw [List.cons_append, unary, prefixOp_iff.mp hop]
  refine (hread.andThen (build_within (.unary op e) rest)).congr ?_
  simp only [Expr.height]
  omega

theorem runs_bareCall {t u v : Token} (ht : t.kind = .ident) (hu : u.kind = .lparen)
    (hv : v.kind = .rparen) : Runs extended .operand [t, u, v] (.bareCall t.value) 0 := by
  apply Runs.of_unary
  intro n groups rest _ _
  refine .of_eq ⟨Nat.zero_le n, by simp [Expr.height, maxHeight]⟩ ?_
  simp [unary_ident ht hu, call, nextIs, hv]

theorem runs_group {t u : Token} {ts : List Token} {e : Expr} {levels : Nat} {s : Stratum}
    (ht : t.kind = .lparen) (h : Runs extended s ts e levels) (hts : NoParams ts) (hstart : Starts ts)
    (hu : u.kind = .rparen) : Runs extended .operand (t :: (ts ++ [u])) e (levels + 1) := by
  apply Runs.of_unary
  intro n groups rest _ hbrace
  have hend : isEnd u.kind = true := by simp [isEnd, hu]
  have hread := h.expr n assignPrecedence (.paren :: groups) (u :: rest)
    (Stratum.expression_level_le s) (after_end hend s rest) (stops_end hend _ rest)
  have happ : t :: (ts ++ [u]) ++ rest = t :: (ts ++ u :: rest) := by simp
  rw [happ, unary_lparen ht, parens, if_neg (by simp [hts.opensFunc_eq_false hu hbrace]),
    if_neg (by simp [(hstart.append _).nextIs_rparen])]
  refine (hread.andThen (q := True) (.of_eq trivial ?_)).congr (and_iff_left trivial)
  dsimp only
  rw [closeGroup_cons (b := .paren) hu]
  rfl

/-! ## Lists -/

/-- Items are read up to the bracket that ends them. -/
def ItemsRun (extended : Bool) (ts : List Token) (es : List Expr) (levels : Nat) : Prop :=
  ∀ (n : Nat) (groups : List Bracket) (t : Token) (rest : List Token),
    t.kind = .rparen ∨ t.kind = .rbrace →
    Within (levels ≤ n ∧ Expr.heightList es ≤ maxHeight)
      (exprs (Level.ofDepth extended n) groups (ts ++ t :: rest)) (.ok (es, t :: rest))

theorem separated_cons (h : inner.Sound extended) {t : Token} {ts : List Token}
    (ht : t.kind = .comma) :
    separated .comma (inner.expr groups assignPrecedence) (t :: ts).length (t :: ts) =
      exprs inner groups ts := by
  rw [List.length_cons, separated, if_pos ht, exprs]
  cases he : inner.expr groups assignPrecedence ts with
  | error => rfl
  | ok p =>
      have hle := (h.expr (s := .expression) he).1.length_le
      have hbound : separated .comma (inner.expr groups assignPrecedence) ts.length p.2 =
          separated .comma (inner.expr groups assignPrecedence) p.2.length p.2 :=
        separated_bound groups h .expression .comma hle (Nat.le_refl _)
      simp only [bind, Except.bind, hbound]

theorem separated_of_ne {sep : Token.Kind} {item : List Token → Except Failure (Front Expr)}
    {bound : Nat} {rest : List Token} (h : nextIs sep rest = false) :
    separated sep item bound rest = .ok ([], rest) := by
  cases bound with
  | zero => rfl
  | succ bound =>
      cases rest with
      | nil => rfl
      | cons t rest =>
          have ht : t.kind ≠ sep := by simpa [nextIs] using h
          rw [separated, if_neg ht]

theorem isEnd_of_closing {t : Token} (h : t.kind = .rparen ∨ t.kind = .rbrace) :
    isEnd t.kind = true := by
  rcases h with h | h <;> simp [isEnd, h]

theorem items_one {ts : List Token} {e : Expr} {levels : Nat}
    (h : Runs extended .expression ts e levels) : ItemsRun extended ts [e] (levels + 1) := by
  intro n groups t rest ht
  have hend := isEnd_of_closing ht
  have hread := h.expr n assignPrecedence groups (t :: rest) (Nat.le_refl _) (after_end hend _ rest)
    (stops_end hend _ rest)
  have hcomma : nextIs .comma (t :: rest) = false := by
    rcases ht with ht | ht <;> simp [nextIs, ht]
  rw [exprs]
  refine (hread.andThen (q := True) (.of_eq trivial ?_)).congr ?_
  · dsimp only
    rw [separated_of_ne hcomma]
    rfl
  · simp [Expr.heightList]

theorem items_more {ts us : List Token} {e : Expr} {es : List Expr} {levels levels' : Nat}
    {c : Token} (h : Runs extended .expression ts e levels) (hc : c.kind = .comma)
    (h' : ItemsRun extended us es levels') :
    ItemsRun extended (ts ++ c :: us) (e :: es) (max (levels + 1) levels') := by
  intro n groups t rest ht
  have hend : isEnd c.kind = true := by simp [isEnd, hc]
  have hread := h.expr n assignPrecedence groups (c :: (us ++ t :: rest)) (Nat.le_refl _)
    (after_end hend _ _) (stops_end hend _ _)
  rw [List.append_assoc, List.cons_append, exprs]
  refine (hread.andThen (q := levels' ≤ n ∧ Expr.heightList es ≤ maxHeight) ?_).congr ?_
  · dsimp only
    rw [separated_cons (Level.sound extended n) hc]
    exact (h' n groups t rest ht).bind _
  · simp only [Expr.heightList]
    omega

/-! ## Calls and function literals -/

theorem runs_call {t u v : Token} {ts : List Token} {es : List Expr} {levels : Nat}
    (ht : t.kind = .ident) (hu : u.kind = .lparen) (h : ItemsRun extended ts es levels)
    (hstart : Starts ts) (hv : v.kind = .rparen) :
    Runs extended .operand (t :: u :: (ts ++ [v])) (.call t.value es) levels := by
  apply Runs.of_unary
  intro n groups rest _ _
  have happ : t :: u :: (ts ++ [v]) ++ rest = t :: u :: (ts ++ v :: rest) := by simp
  rw [happ, unary_ident ht hu, call, if_neg (by simp [(hstart.append _).nextIs_rparen])]
  refine ((h n _ v rest (.inl hv)).andThen (q := (Expr.call t.value es).height ≤ maxHeight) ?_).congr ?_
  · dsimp only
    rw [closeGroup_cons (b := .paren) hv]
    exact build_within _ rest
  · simp only [Expr.height]
    omega

theorem unary_func {t u v : Token} {ps inside : List Token} {xs : List String}
    (ht : t.kind = .lparen) (hps : Params ps xs) (hu : u.kind = .rparen) (hv : v.kind = .lbrace) :
    unary extended inner groups (t :: (ps ++ u :: v :: inside)) =
      funcBody inner groups xs v inside := by
  have hopens : opensFunc (ps ++ u :: v :: inside) = true :=
    opensFunc_iff.mpr ⟨ps, xs, u, v, inside, rfl, hps, hu, hv⟩
  rw [unary_lparen ht, parens, if_pos hopens, takeParams_append hps hu]

theorem runs_bareFunc {t u v w : Token} {ps : List Token} {xs : List String}
    (ht : t.kind = .lparen) (hps : Params ps xs) (hu : u.kind = .rparen) (hv : v.kind = .lbrace)
    (hw : w.kind = .rbrace) :
    Runs extended .operand (t :: (ps ++ [u, v, w])) (.func xs []) 0 := by
  apply Runs.of_unary
  intro n groups rest _ _
  have happ : t :: (ps ++ [u, v, w]) ++ rest = t :: (ps ++ u :: v :: w :: rest) := by simp
  refine .of_eq ⟨Nat.zero_le n, by simp [Expr.height, Expr.heightList, maxHeight]⟩ ?_
  rw [happ, unary_func ht hps hu hv, funcBody_eq, if_pos (by simp [nextIs, hw])]
  simp only [bind, Except.bind]
  rw [closeGroup_cons (b := .brace) hw]
  exact build_eq_ok.mpr ⟨by simp [Expr.height, Expr.heightList, maxHeight], rfl, rfl⟩

theorem runs_func {t u v w : Token} {ps ts : List Token} {xs : List String} {es : List Expr}
    {levels : Nat} (ht : t.kind = .lparen) (hps : Params ps xs) (hu : u.kind = .rparen)
    (hv : v.kind = .lbrace) (h : ItemsRun extended ts es levels)
    (hstart : Starts ts) (hw : w.kind = .rbrace) :
    Runs extended .operand (t :: (ps ++ u :: v :: (ts ++ [w]))) (.func xs es) levels := by
  apply Runs.of_unary
  intro n groups rest _ _
  have happ : t :: (ps ++ u :: v :: (ts ++ [w])) ++ rest =
      t :: (ps ++ u :: v :: (ts ++ w :: rest)) := by simp
  rw [happ, unary_func ht hps hu hv, funcBody_eq,
    if_neg (by simp [(hstart.append _).nextIs_rbrace])]
  refine ((h n _ w rest (.inr hw)).andThen (q := (Expr.func xs es).height ≤ maxHeight) ?_).congr ?_
  · dsimp only
    rw [closeGroup_cons (b := .brace) hw]
    exact build_within _ rest
  · simp only [Expr.height]
    omega

/-! ## Sums -/

/-- The summands after the first one, all grouped from the right. -/
def moreSummands (inner : Level) (groups : List Bracket) (l : Expr) (rest : List Token) :
    Except Failure (Front Expr) := do
  let (es, rest) ← separated .plus (inner.expr groups Stratum.difference.level) rest.length rest
  let right ← sumRight rest l es
  return (right, rest)

theorem rightOperand_add {ts : List Token} :
    rightOperand inner groups .add ts = (do
      let (l, rest) ← inner.expr groups Stratum.difference.level ts
      moreSummands inner groups l rest) :=
  rfl

theorem moreSummands_last {l : Expr} {rest : List Token} (h : nextIs .plus rest = false) :
    moreSummands inner groups l rest = .ok (l, rest) := by
  rw [moreSummands, separated_of_ne h]
  rfl

theorem moreSummands_more (h : inner.Sound extended) {l : Expr} {t : Token} {rest : List Token}
    (ht : t.kind = .plus) :
    moreSummands inner groups l (t :: rest) = (do
      let (r, rest) ← rightOperand inner groups .add rest
      build (.binary .add l r) rest) := by
  rw [moreSummands, rightOperand_add, List.length_cons, separated, if_pos ht]
  cases he : inner.expr groups Stratum.difference.level rest with
  | error => rfl
  | ok p =>
      have hle := (h.expr he).1.length_le
      have hbound := separated_bound groups h .difference .plus hle (Nat.le_refl _)
      simp only [moreSummands, bind, Except.bind, hbound]
      cases separated .plus (inner.expr groups Stratum.difference.level) p.2.length p.2 with
      | error => rfl
      | ok q =>
          simp only [pure, Except.pure, sumRight, bind, Except.bind]
          cases sumRight q.2 p.1 q.1 with
          | error => rfl
          | ok right =>
              by_cases hh : (Expr.binary .add l right).height > maxHeight
              · simp [build, fail, hh]
              · simp [build, hh]

/-- The right operand of a plus is read up to the end of the sum. -/
def SumRuns (extended : Bool) (ts : List Token) (e : Expr) (levels : Nat) : Prop :=
  ∀ (n : Nat) (groups : List Bracket) (rest : List Token), After .sum rest →
    Within (levels ≤ n ∧ e.height ≤ maxHeight)
      (rightOperand (Level.ofDepth extended n) groups .add (ts ++ rest)) (.ok (e, rest))

theorem After.noPlus {rest : List Token} (h : After .sum rest) : nextIs .plus rest = false := by
  cases rest with
  | nil => rfl
  | cons t rest =>
      by_cases ht : t.kind = .plus
      · have := h.follows .add (by simp [ht, Token.Kind.binaryOp?])
        simp [leftStratum, Stratum.level] at this
      · simp [nextIs, ht]

theorem sumRuns_last {s : Stratum} {ts : List Token} {e : Expr} {levels : Nat}
    (h : Runs extended s ts e levels) (hs : Stratum.sum.level < s.level) :
    SumRuns extended ts e (levels + 1) := by
  intro n groups rest ha
  have hread := h.expr n Stratum.difference.level groups rest hs
    (ha.mono (Nat.le_of_lt hs)) (ha.stops_right (by decide) (by decide))
  rw [rightOperand_add]
  exact (hread.andThen (q := True) (.of_eq trivial (moreSummands_last ha.noPlus))).congr
    (and_iff_left trivial)

theorem binaryOp?_plus {t : Token} (ht : t.kind = .plus) : t.kind.binaryOp? = some .add := by
  rw [ht]
  rfl

theorem stops_plus {t : Token} (ht : t.kind = .plus) (rest : List Token) :
    Stops Stratum.difference.level (t :: rest) := by
  refine ⟨.inr (by decide), fun op hop => ?_⟩
  cases (binaryOp?_plus ht).symm.trans hop
  decide

theorem sumRuns_more {ts us : List Token} {t : Token} {l r : Expr} {levels levels' : Nat}
    (h : Runs extended .difference ts l levels) (ht : t.kind = .plus)
    (h' : SumRuns extended us r levels') :
    SumRuns extended (ts ++ t :: us) (.binary .add l r) (max (levels + 1) levels') := by
  intro n groups rest ha
  have hread := h.expr n Stratum.difference.level groups (t :: (us ++ rest)) (Nat.le_refl _)
    (after_op (binaryOp?_plus ht)) (stops_plus ht _)
  rw [List.append_assoc, List.cons_append, rightOperand_add]
  refine (hread.andThen ?_).congr (p := (levels + 1 ≤ n ∧ l.height ≤ maxHeight) ∧
    (levels' ≤ n ∧ r.height ≤ maxHeight) ∧ (Expr.binary .add l r).height ≤ maxHeight) ?_
  · dsimp only
    rw [moreSummands_more (Level.sound extended n) ht]
    exact (h' n groups rest ha).andThen (build_within _ rest)
  · simp only [Expr.height]
    omega

/-! ## Operators -/

theorem operators_cons (h : inner.Sound extended) {op : BinaryOp} {t : Token} {least : Nat}
    {left : Expr} {ts : List Token} (hop : t.kind.binaryOp? = some op)
    (hleast : least ≤ op.precedence) :
    operators inner groups least (t :: ts).length left (t :: ts) = (do
      let (r, rest) ← rightOperand inner groups op ts
      let (e, rest) ← build (.binary op left r) rest
      operators inner groups least rest.length e rest) := by
  rw [List.length_cons, operators, assignOp?_of_binaryOp? hop, hop]
  simp only [if_neg (Nat.not_lt.mpr hleast)]
  cases hr : rightOperand inner groups op ts with
  | error => rfl
  | ok p =>
      have hle := (rightOperand_takes h hr).1.length_le
      simp only [bind, Except.bind]
      cases hbuild : build (.binary op left p.1) p.2 with
      | error => rfl
      | ok q =>
          obtain ⟨_, _, hrest⟩ := build_eq_ok.mp hbuild
          rw [← hrest] at hle
          exact operators_bound h hle (Nat.le_refl _)

theorem runs_binary {op : BinaryOp} {t : Token} {ts us : List Token} {l r : Expr}
    {levels levels' : Nat} (hop : t.kind.binaryOp? = some op)
    (h : Runs extended (leftStratum op) ts l levels)
    (h' : ∀ (n : Nat) (groups : List Bracket) (rest : List Token), After (stratum op) rest →
      Within (levels' ≤ n ∧ r.height ≤ maxHeight)
        (rightOperand (Level.ofDepth extended n) groups op (us ++ rest)) (.ok (r, rest))) :
    Runs extended (stratum op) (ts ++ t :: us) (.binary op l r) (max levels levels') := by
  intro n least groups rest hs ha
  rw [level_stratum] at hs
  have hread := h n least groups (t :: (us ++ rest))
    (Nat.le_trans hs (precedence_le_leftStratum op)) (after_op hop)
  rw [operators_cons (Level.sound extended n) hop hs] at hread
  rw [List.append_assoc, List.cons_append]
  refine (hread.trans ((h' n groups rest ha).andThen ((build_within (.binary op l r) rest).bind _))).congr ?_
  simp only [Expr.height]
  omega

theorem runs_chain {s : Stratum} {op : BinaryOp} {t : Token} {ts us : List Token} {l r : Expr}
    {levels levels' : Nat} (hop : LeftOp s t.kind op) (h : Runs extended s ts l levels)
    (h' : Runs extended s.next us r levels') :
    Runs extended s (ts ++ t :: us) (.binary op l r) (max levels (levels' + 1)) := by
  obtain ⟨hs, hnext, hleft⟩ := hop.level_eq
  have hstratum : stratum op = s := by
    rw [← hleft]
    cases op <;> first | rfl | exact absurd rfl hop.ne_add
  rw [← hstratum]
  refine runs_binary hop.binaryOp?_eq (hleft ▸ h) fun n groups rest ha => ?_
  rw [hstratum] at ha
  have hlt : s.level < op.precedence + 1 := by omega
  have hread := h'.expr n (op.precedence + 1) groups rest (by omega)
    (ha.mono (by omega)) (ha.stops_right hlt (by cases op <;> decide))
  rw [rightOperand]
  refine (hread.andThen (q := True) (.of_eq trivial ?_)).congr (and_iff_left trivial)
  dsimp only
  rw [if_neg hop.ne_add]
  rfl

theorem runs_sum {t : Token} {ts us : List Token} {l r : Expr} {levels levels' : Nat}
    (ht : t.kind = .plus) (h : Runs extended .difference ts l levels)
    (h' : SumRuns extended us r levels') :
    Runs extended .sum (ts ++ t :: us) (.binary .add l r) (max levels levels') :=
  runs_binary (binaryOp?_plus ht) h h'

/-! ## Assignments -/

theorem runs_target {ts : List Token} {x : String} :
    (target : Target ts x) → Runs extended .operand ts (.var x) target.depth
  | .name h => runs_leaf (.var h)
  | .group h target h' =>
      runs_group h (runs_target target) target.noParams target.starts h'

theorem assignment_within {n levels : Nat} {x : String} {v e : Expr} {t : Token}
    {us rest : List Token} {op : Option BinaryOp} (h : Runs extended .expression us v levels)
    (he : e = stored x v op) (ha : After .expression rest) (hstop : Stops assignPrecedence rest) :
    Within (levels + 1 ≤ n ∧ (Expr.assign x e).height ≤ maxHeight)
      (assignment (Level.ofDepth extended n) groups (.var x) op t (us ++ rest))
      (.ok (.assign x e, rest)) := by
  have hread := h.expr n assignPrecedence groups rest (Nat.le_refl _) ha hstop
  rw [assignment_var]
  subst he
  have hstore : Within ((stored x v op).height ≤ maxHeight ∨ op = none)
      (if op.isSome then build (stored x v op) rest else .ok (v, rest))
      (.ok (stored x v op, rest)) := by
    cases op with
    | none => exact .of_eq (.inr rfl) rfl
    | some op => exact (build_within _ rest).congr (by simp)
  refine (hread.andThen (hstore.andThen (build_within _ rest))).congr ?_
  cases op with
  | none => simp only [stored, Expr.height]; omega
  | some op => simp [stored, Expr.height]; omega

theorem runs_assign {t : Token} {ts us : List Token} {x : String} {v e : Expr} {levels : Nat}
    (target : Target ts x) (hop : AssignOp x v t.kind e)
    (h : Runs extended .expression us v levels) :
    Runs extended .expression (ts ++ t :: us) (.assign x e) (max target.depth (levels + 1)) := by
  intro n least groups rest hs ha
  obtain ⟨op, hkind, he⟩ := assignOp_iff.mp hop
  have htarget : Runs extended .operand ts (.var x) target.depth := runs_target target
  have hread := htarget n least groups (t :: (us ++ rest)) (Nat.le_trans hs (Stratum.level_le_operand _))
    (after_assignOp hkind)
  have hvalue : Within (levels + 1 ≤ n ∧ (Expr.assign x e).height ≤ maxHeight)
      (assignment (Level.ofDepth extended n) groups (.var x) op t (us ++ rest))
      (.ok (.assign x e, rest)) :=
    assignment_within h he ha (ha.stops rfl)
  have hleast : ¬ least > assignPrecedence := Nat.not_lt.mpr hs
  rw [List.length_cons, operators, hkind] at hread
  simp only [if_neg hleast] at hread
  rw [List.append_assoc, List.cons_append]
  refine (hread.trans (hvalue.andThen (q := True) (.of_eq trivial ?_))).congr ?_
  · exact operators_bound (Level.sound extended n) (by simp) (Nat.le_refl _)
  · simp only [Expr.height, maxHeight, and_true]
    omega

theorem Runs.tighter {s s' : Stratum} {ts : List Token} {e : Expr} {levels : Nat}
    (hs : s.level < s'.level) (h : Runs extended s' ts e levels) : Runs extended s ts e levels :=
  fun n least groups rest hle ha =>
    h n least groups rest (Nat.le_trans hle (Nat.le_of_lt hs)) (ha.mono (Nat.le_of_lt hs))

/-! ## Derivations -/

mutual

theorem runs_derivation {s : Stratum} {ts : List Token} {e : Expr}
    (d : Derivation extended s ts e) : Runs extended s ts e (d.levels 0) := by
  match d with
  | .assign target hop d =>
      rw [Derivation.levels]
      exact runs_assign target hop (runs_derivation d)
  | .chain d hop d' =>
      rw [Derivation.levels]
      exact runs_chain hop (runs_derivation d) (runs_derivation d')
  | .sum d hplus d' =>
      rw [Derivation.levels]
      exact runs_sum hplus (runs_derivation d) (runs_summands d' rfl)
  | .unary hop d =>
      rw [Derivation.levels]
      exact runs_unary hop (runs_derivation d)
  | .leaf hleaf =>
      rw [Derivation.levels]
      exact runs_leaf hleaf
  | .bareCall ht hu hv =>
      rw [Derivation.levels]
      exact runs_bareCall ht hu hv
  | .call ht hu ds hv =>
      rw [Derivation.levels]
      exact runs_call ht hu (runs_items ds) ds.starts hv
  | .group ht d hu =>
      rw [Derivation.levels]
      exact runs_group ht (runs_derivation d) d.noParams d.starts hu
  | .bareFunc ht hps hu hv hw =>
      rw [Derivation.levels]
      exact runs_bareFunc ht hps hu hv hw
  | .func ht hps hu hv ds hw =>
      rw [Derivation.levels]
      exact runs_func ht hps hu hv (runs_items ds) ds.starts hw
  | .tighter hs d =>
      rw [Derivation.levels]
      exact (runs_derivation d).tighter hs

theorem runs_summands {s : Stratum} {ts : List Token} {e : Expr} (d : Derivation extended s ts e)
    (hs : s = .sum) : SumRuns extended ts e (d.levels 1) := by
  match d with
  | .sum d hplus d' =>
      rw [Derivation.levels]
      exact sumRuns_more (runs_derivation d) hplus (runs_summands d' rfl)
  | .tighter hlt d =>
      rw [Derivation.levels]
      subst hs
      exact sumRuns_last (runs_derivation d) hlt
  | .chain _ hop _ =>
      subst hs
      cases hop
  | .assign .. | .unary .. | .leaf .. | .bareCall .. | .call .. | .group .. | .bareFunc ..
  | .func .. => cases hs

theorem runs_items {ts : List Token} {es : List Expr} (ds : Items extended ts es) :
    ItemsRun extended ts es ds.levels := by
  match ds with
  | .one d =>
      rw [Items.levels]
      exact items_one (runs_derivation d)
  | .more d hc ds =>
      rw [Items.levels]
      exact items_more (runs_derivation d) hc (runs_items ds)

end

end DebugExpr.Parse
