import DebugExpr.Proofs.Rendering

/-!
# Canonical texts that are no expressions

A watch over kinds of tokens stops at a character that belongs to no lexeme, and at a brace that
opens after the parenthesis of a call with nothing but names in it. It never stops on the tokens of
an expression, and always stops on the canonical text of a tree with arguments or a function literal.
-/

namespace DebugExpr

open Grammar Token

/-- What the tokens just before are: nothing in particular, a name, a call with nothing but names so
far, such a call with a name last, or such a call as a whole. -/
inductive Watch where
  | plain | word | call | callWord | closed

namespace Watch

def step : Watch → Kind → Option Watch
  | _, .unknown => none
  | .closed, .lbrace => none
  | .word, .lparen | .callWord, .lparen => some .call
  | .call, .ident | .callWord, .ident => some .callWord
  | .call, .comma | .callWord, .comma => some .call
  | .call, .rparen | .callWord, .rparen => some .closed
  | _, .ident => some .word
  | _, _ => some .plain

def run (w : Watch) (ks : List Kind) : Option Watch :=
  ks.foldlM step w

@[simp] theorem run_nil (w : Watch) : w.run [] = some w :=
  rfl

@[simp] theorem run_cons (w : Watch) (k : Kind) (ks : List Kind) :
    w.run (k :: ks) = (w.step k).bind fun w => w.run ks :=
  rfl

@[simp] theorem run_append (w : Watch) (ks ls : List Kind) :
    w.run (ks ++ ls) = (w.run ks).bind fun w => w.run ls :=
  List.foldlM_append ..

/-- An expression may begin here: a parenthesis that opens next belongs to no call. -/
def Begins (w : Watch) : Prop :=
  w = .plain ∨ w = .call

/-- The watch lets the tokens pass wherever an expression may begin. -/
def Passes (ts : List Token) : Prop :=
  ∀ w : Watch, w.Begins → ∃ w', w.run (ts.map kind) = some w'

/-- The watch stops on the tokens wherever they stand. -/
def Stopped (ks : List Kind) : Prop :=
  ∀ w : Watch, w.run ks = none

/-! ## Expressions pass -/

theorem step_lparen {w : Watch} (h : w.Begins) : w.step .lparen = some .plain := by
  rcases h with rfl | rfl <;> rfl

theorem step_rparen (w : Watch) : ∃ w', w.step .rparen = some w' := by
  cases w <;> exact ⟨_, rfl⟩

theorem step_rbrace (w : Watch) : w.step .rbrace = some .plain := by
  cases w <;> rfl

theorem step_comma (w : Watch) : ∃ w', w.step .comma = some w' ∧ w'.Begins := by
  cases w
  · exact ⟨_, rfl, .inl rfl⟩
  · exact ⟨_, rfl, .inl rfl⟩
  · exact ⟨_, rfl, .inr rfl⟩
  · exact ⟨_, rfl, .inr rfl⟩
  · exact ⟨_, rfl, .inl rfl⟩

theorem step_call {w : Watch} (h : w.Begins) :
    ∃ w', w.step .ident = some w' ∧ w'.step .lparen = some .call := by
  rcases h with rfl | rfl <;> exact ⟨_, rfl, rfl⟩

theorem step_binary {op : BinaryOp} {k : Kind} (h : k.binaryOp? = some op) (w : Watch) :
    w.step k = some .plain := by
  cases k <;> simp [Kind.binaryOp?] at h <;> cases w <;> rfl

theorem step_assign {op : Option BinaryOp} {k : Kind} (h : k.assignOp? = some op) (w : Watch) :
    w.step k = some .plain := by
  cases k <;> simp [Kind.assignOp?] at h <;> cases w <;> rfl

theorem step_unary {op : UnaryOp} {k : Kind} (h : PrefixOp k op) (w : Watch) :
    w.step k = some .plain := by
  cases h <;> cases w <;> rfl

/-- Between two operands stands a token after which the second one may begin. -/
theorem Passes.operator {ts us : List Token} {t : Token} (hts : Passes ts)
    (ht : ∀ w : Watch, w.step t.kind = some .plain) (hus : Passes us) : Passes (ts ++ t :: us) := by
  intro w hw
  obtain ⟨w₁, h₁⟩ := hts w hw
  obtain ⟨w₂, h₂⟩ := hus .plain (.inl rfl)
  exact ⟨w₂, by simp [h₁, ht, h₂]⟩

theorem Passes.group {ts : List Token} {t u : Token} (ht : t.kind = .lparen) (hts : Passes ts)
    (hu : u.kind = .rparen) : Passes (t :: (ts ++ [u])) := by
  intro w hw
  obtain ⟨w₁, h₁⟩ := hts .plain (.inl rfl)
  obtain ⟨w₂, h₂⟩ := step_rparen w₁
  exact ⟨w₂, by simp [ht, step_lparen hw, h₁, hu, h₂]⟩

theorem passes_target {ts : List Token} {x : String} (target : Target ts x) : Passes ts := by
  match target with
  | .name ht =>
      rintro w (rfl | rfl)
      · exact ⟨.word, by simp [ht, step]⟩
      · exact ⟨.callWord, by simp [ht, step]⟩
  | .group ht target hu => exact .group ht (passes_target target) hu

theorem passes_leaf {extended : Bool} {t : Token} {e : Expr} (h : Leaf extended t e) :
    Passes [t] := by
  rintro w (rfl | rfl)
  · cases h <;> exact ⟨_, by simp [*, step]; rfl⟩
  · cases h <;> exact ⟨_, by simp [*, step]; rfl⟩

/-- Outside of a call, names with commas between them are followed by no call. -/
theorem run_names {ts : List Token} {xs : List String} (h : Names ts xs) :
    Watch.plain.run (ts.map kind) = some .word := by
  induction h with
  | one ht => simp [ht, step]
  | more ht hc _ ih => simpa [ht, hc, step] using ih

theorem run_params {ts : List Token} {xs : List String} (h : Params ts xs) {t u v : Token}
    (ht : t.kind = .lparen) (hu : u.kind = .rparen) (hv : v.kind = .lbrace) {w : Watch}
    (hw : w.Begins) (us : List Token) :
    w.run ((t :: (ts ++ u :: v :: us)).map kind) = Watch.plain.run (us.map kind) := by
  cases h with
  | none => rcases hw with rfl | rfl <;> simp [ht, hu, hv, step]
  | some h => rcases hw with rfl | rfl <;> simp [ht, run_names h, hu, hv, step]

mutual

theorem passes_derivation {extended : Bool} {s : Stratum} {ts : List Token} {e : Expr}
    (d : Derivation extended s ts e) : Passes ts := by
  match d with
  | .assign target hop d =>
      obtain ⟨op, hkind, _⟩ := assignOp_iff.mp hop
      exact (passes_target target).operator (step_assign hkind) (passes_derivation d)
  | .chain d hop d' =>
      exact (passes_derivation d).operator (step_binary hop.binaryOp?_eq) (passes_derivation d')
  | .sum d hplus d' =>
      refine (passes_derivation d).operator (fun w => ?_) (passes_derivation d')
      rw [hplus]
      cases w <;> rfl
  | .unary hop d =>
      intro w _
      obtain ⟨w₁, h₁⟩ := passes_derivation d .plain (.inl rfl)
      exact ⟨w₁, by simp [step_unary hop, h₁]⟩
  | .leaf hleaf => exact passes_leaf hleaf
  | .bareCall ht hu hv =>
      intro w hw
      obtain ⟨w₁, h₁, h₂⟩ := step_call hw
      have hclose : Watch.call.step .rparen = some .closed := rfl
      exact ⟨.closed, by simp [ht, h₁, hu, h₂, hv, hclose]⟩
  | .call ht hu ds hv =>
      intro w hw
      obtain ⟨w₁, h₁, h₂⟩ := step_call hw
      obtain ⟨w₃, h₃⟩ := passes_items ds .call (.inr rfl)
      obtain ⟨w₄, h₄⟩ := step_rparen w₃
      exact ⟨w₄, by simp [ht, h₁, hu, h₂, h₃, hv, h₄]⟩
  | .group ht d hu => exact .group ht (passes_derivation d) hu
  | .bareFunc ht hps hu hv hw =>
      intro w hbegins
      refine ⟨.plain, ?_⟩
      rw [run_params hps ht hu hv hbegins]
      simp [hw, step]
  | .func ht hps hu hv ds hw =>
      intro w hbegins
      obtain ⟨w₁, h₁⟩ := passes_items ds .plain (.inl rfl)
      refine ⟨.plain, ?_⟩
      rw [run_params hps ht hu hv hbegins]
      simp [h₁, hw, step_rbrace]
  | .tighter _ d => exact passes_derivation d

theorem passes_items {extended : Bool} {ts : List Token} {es : List Expr}
    (ds : Items extended ts es) : Passes ts := by
  match ds with
  | .one d => exact passes_derivation d
  | .more d hc ds =>
      intro w hw
      obtain ⟨w₁, h₁⟩ := passes_derivation d w hw
      obtain ⟨w₂, h₂, hw₂⟩ := step_comma w₁
      obtain ⟨w₃, h₃⟩ := passes_items ds w₂ hw₂
      exact ⟨w₃, by simp [h₁, hc, h₂, h₃]⟩

end

/-! ## Arguments and function literals are stopped -/

theorem Stopped.cons {ks : List Kind} (h : Stopped ks) (k : Kind) : Stopped (k :: ks) := by
  intro w
  rw [run_cons]
  cases w.step k with
  | none => rfl
  | some w' => exact h w'

theorem Stopped.append_left {ks : List Kind} (h : Stopped ks) (ls : List Kind) :
    Stopped (ls ++ ks) := by
  intro w
  rw [run_append]
  cases w.run ls with
  | none => rfl
  | some w' => exact h w'

theorem Stopped.append_right {ks : List Kind} (h : Stopped ks) (ls : List Kind) :
    Stopped (ks ++ ls) := by
  intro w
  rw [run_append, h w]
  rfl

theorem stopped_unknown (ks : List Kind) : Stopped (.unknown :: ks) := by
  intro w
  cases w <;> rfl

theorem run_moreNames (xs : List String) :
    Watch.callWord.run ((Expr.moreNames xs).map Prod.fst) = some .callWord := by
  induction xs with
  | nil => rfl
  | cons x xs ih => exact ih

theorem run_call_names (xs : List String) :
    ∃ w, Watch.call.run ((Expr.names xs).map Prod.fst) = some w ∧ w.step .rparen = some .closed := by
  cases xs with
  | nil => exact ⟨.call, rfl, rfl⟩
  | cons x xs => exact ⟨.callWord, run_moreNames xs, rfl⟩

/-- After a name and a parenthesis, names alone lead to no brace. -/
theorem stopped_func (xs : List String) (ks : List Kind) :
    Stopped (.ident :: .lparen :: ((Expr.names xs).map Prod.fst ++ .rparen :: .lbrace :: ks)) := by
  intro w
  have hopen : ∃ w', w.step .ident = some w' ∧ w'.step .lparen = some .call := by
    cases w <;> exact ⟨_, rfl, rfl⟩
  obtain ⟨w₁, h₁, h₂⟩ := hopen
  obtain ⟨w₃, h₃, h₄⟩ := run_call_names xs
  have hbrace : Watch.closed.step .lbrace = none := rfl
  simp [h₁, h₂, h₃, h₄, hbrace]

end Watch

/-! ## Trees -/

namespace Expr

/-- The tree has no call with arguments and no function literal in it. -/
def Plain : Expr → Prop
  | .number .. | .string .. | .var .. | .bareCall .. => True
  | .unary _ e | .assign _ e => e.Plain
  | .binary _ l r => l.Plain ∧ r.Plain
  | .call .. | .func .. => False

theorem stopped_lexemes {e : Expr} (h : ¬ e.Plain) : Watch.Stopped (e.lexemes.map Prod.fst) := by
  match e with
  | .number .. | .string .. | .var .. | .bareCall .. => exact absurd trivial h
  | .unary op e =>
      simp only [lexemes, List.map_cons, List.map_append]
      exact (((stopped_lexemes (e := e) h).append_right _).cons _).cons _
  | .assign x e =>
      simp only [lexemes, List.map_cons, List.map_append]
      exact ((((stopped_lexemes (e := e) h).append_right _).cons _).cons _).cons _
  | .binary op l r =>
      simp only [lexemes, List.map_cons, List.map_append]
      by_cases hl : l.Plain
      · have hr : ¬ r.Plain := fun hr => h ⟨hl, hr⟩
        exact ((((stopped_lexemes hr).append_right _).cons _).append_left _).cons _
      · exact ((stopped_lexemes hl).append_right _).cons _
  | .call f es =>
      simp only [lexemes, List.map_cons]
      exact ((Watch.stopped_unknown _).cons _).cons _
  | .func xs es =>
      simp only [lexemes, List.map_cons, List.map_append]
      exact Watch.stopped_func xs _

/-- No expression is written as the canonical text of a tree with arguments or a function literal
in it. -/
theorem no_derivation_of_not_plain {extended : Bool} {e e' : Expr} {s : Stratum} {ts : List Token}
    (h : ¬ e.Plain) (hts : ts.map lexeme = e.lexemes) : ¬ Nonempty (Derivation extended s ts e') := by
  rintro ⟨d⟩
  obtain ⟨w, hw⟩ := Watch.passes_derivation d .plain (.inl rfl)
  have hkinds : ts.map kind = e.lexemes.map Prod.fst := by
    rw [← hts, List.map_map]
    rfl
  rw [hkinds, stopped_lexemes h] at hw
  cases hw

end Expr

end DebugExpr
