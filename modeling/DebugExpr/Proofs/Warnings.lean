import DebugExpr.Expr.Ambiguity
import DebugExpr.Proofs.Numerals

/-!
# Warnings by number

A decimal literal is ambiguous by the number that it stands for: the warnings for its digits are
those that a comparison of numbers gives. Digits that are too many for a value of 64 bits have none.
They are not even read, which could fail if they are very many.
-/

namespace DebugExpr

/-- A text of at least one decimal digit. -/
def IsDigits (text : String) : Prop :=
  text ≠ "" ∧ ∀ c ∈ text.toList, Text.isDecimal c = true

theorem IsDigits.toList_ne_nil {text : String} (h : IsDigits text) : text.toList ≠ [] := by
  simpa using h.1

namespace Ambiguity

/-- The number that digits stand for. -/
def number (text : String) : Nat :=
  Nat.ofDigitChars 10 text.toList 0

/-- The warnings for digits by their number. -/
def ofDigits (text : String) : List String :=
  (if text.length % 2 = 0 ∧ text.toList.head? ≠ some '0' ∧ number text ≤ 2 ^ 63 - 1 then
      [hexWarning text]
    else []) ++
  (if text.toList.head? ≠ some '0' ∧ 1 ≤ number text ∧ number text ≤ 16 then
      [opcodeWarning text]
    else [])

variable {text : String}

/-! ## The text of a number -/

theorem toString_toList (n : Nat) : (toString (n : Int)).toList = Nat.toDigits 10 n := by
  simp [Int.repr_eq_if]

theorem toString_number (h : IsDigits text) (hzero : text.toList.head? ≠ some '0') :
    toString (number text : Int) = text := by
  apply String.toList_injective
  rw [toString_toList]
  exact Text.toDigits_ofDigitChars h.2 h.toList_ne_nil hzero

/-- No warning is for a zero, alone or before other digits. -/
theorem ofValue_of_zero (h : IsDigits text) (hzero : text.toList.head? = some '0') :
    ofValue text (number text) = [] := by
  obtain ⟨cs, hcs⟩ := List.head?_eq_some_iff.mp hzero
  cases cs with
  | nil =>
      have htext : text = "0" := String.toList_injective hcs
      subst htext
      decide
  | cons c cs =>
      have hdigits := h.2
      rw [hcs] at hdigits
      have hne := Text.toDigits_ne_of_zero (List.forall_mem_cons.mp hdigits).2
        (List.cons_ne_nil c cs)
      have hplain : toString (number text : Int) ≠ text := by
        intro heq
        have hlist := congrArg String.toList heq
        rw [toString_toList, number, hcs] at hlist
        exact hne hlist
      simp only [ofValue, hplain, ne_eq, not_false_eq_true, true_or, if_true]

theorem ofDigits_of_zero (hzero : text.toList.head? = some '0') : ofDigits text = [] := by
  simp [ofDigits, hzero]

theorem ofDigits_of_large (h : 2 ^ 63 - 1 < number text) : ofDigits text = [] := by
  have hint64 : ¬ number text ≤ 2 ^ 63 - 1 := Nat.not_le_of_lt h
  have hopcode : ¬ number text ≤ 16 := by omega
  simp only [ofDigits, hint64, hopcode, and_false, if_false, List.append_nil]

/-- The warnings for the value of digits are those for their number. -/
theorem ofValue_number (h : IsDigits text) : ofValue text (number text) = ofDigits text := by
  by_cases hzero : text.toList.head? = some '0'
  · rw [ofValue_of_zero h hzero, ofDigits_of_zero hzero]
  · have hplain := toString_number h hzero
    by_cases hlarge : 2 ^ 63 - 1 < number text
    · have hint64 : (number text : Int) > int64Max := by
        simp only [int64Max]
        omega
      rw [ofDigits_of_large hlarge, ofValue, if_pos (.inr hint64)]
    · have hint64 : ¬ (number text : Int) > int64Max := by
        simp only [int64Max]
        omega
      have hsmall : number text ≤ 2 ^ 63 - 1 := Nat.le_of_not_lt hlarge
      have hopcode : (1 ≤ (number text : Int) ∧ (number text : Int) ≤ 16) ↔
          (1 ≤ number text ∧ number text ≤ 16) := by omega
      have hvalue : ¬ (toString (number text : Int) ≠ text ∨ (number text : Int) > int64Max) := by
        simp only [hplain, hint64, ne_eq, not_true_eq_false, or_self, not_false_eq_true]
      rw [ofValue, if_neg hvalue, ofDigits]
      simp only [hopcode, hsmall, hzero, ne_eq, not_false_eq_true, and_true, true_and]

/-! ## The length of a text -/

/-- Digits of which the length is not looked at first have the same warnings, but are refused where
they are too many to be read. -/
theorem ofAnyLength_eq (h : IsDigits text) :
    ofAnyLength text =
      if Text.maxDigits < text.length then .error (.tooManyDigits text.length)
      else .ok (ofDigits text) := by
  rw [ofAnyLength, Text.readInt_of_isDecimal h.toList_ne_nil h.2]
  split
  · rfl
  · exact congrArg Except.ok (ofValue_number h)

/-- More than 19 digits are a number beyond 64 bits, or a zero stands before them. -/
theorem ofDigits_of_long (h : IsDigits text) (hlength : text.length > int64Digits) :
    ofDigits text = [] := by
  by_cases hzero : text.toList.head? = some '0'
  · exact ofDigits_of_zero hzero
  · have hpow : 10 ^ 19 ≤ number text :=
      Text.pow_le_ofDigitChars h.2 hzero (by decide) (by rwa [String.length_toList])
    exact ofDigits_of_large (Nat.lt_of_lt_of_le (by decide) hpow)

theorem ofText_eq (h : IsDigits text) : ofText text = .ok (ofDigits text) := by
  rw [ofText]
  split
  · rename_i hlength
    rw [ofDigits_of_long h hlength]
  · rename_i hlength
    have hread : ¬ Text.maxDigits < text.length := by
      simp only [int64Digits] at hlength
      simp only [Text.maxDigits]
      omega
    rw [ofAnyLength_eq h, if_neg hread]

end Ambiguity

/-! ## Trees -/

theorem mapM_eq_map {α β ε : Type} {f : α → Except ε β} {g : α → β} {as : List α}
    (h : ∀ a ∈ as, f a = .ok (g a)) : as.mapM f = .ok (as.map g) := by
  induction as with
  | nil => rfl
  | cons a as ih =>
      obtain ⟨ha, has⟩ := List.forall_mem_cons.mp h
      rw [List.mapM_cons, ha, ih has]
      rfl

namespace Expr

/-- The text of a decimal literal. -/
def decimal? : Expr → Option String
  | .number .dec text => some text
  | _ => none

/-- The warnings for one node. -/
def nodeWarnings (n : Expr) : List String :=
  n.decimal?.toList.flatMap Ambiguity.ofDigits

theorem decimal?_eq_some {n : Expr} {text : String} (h : n.decimal? = some text) :
    n = .number .dec text := by
  unfold decimal? at h
  split at h
  · rw [Option.some.inj h]
  · cases h

theorem ofNode_eq {n : Expr} (h : ∀ text, n.decimal? = some text → IsDigits text) :
    Ambiguity.ofNode n = .ok n.nodeWarnings := by
  cases hn : n.decimal? with
  | some text =>
      obtain rfl := decimal?_eq_some hn
      rw [Ambiguity.ofNode, Ambiguity.ofText_eq (h text hn)]
      simp [nodeWarnings, decimal?]
  | none =>
      unfold Ambiguity.ofNode
      split
      · cases hn
      · simp [nodeWarnings, hn]

theorem flatMap_nodeWarnings (ns : List Expr) :
    ns.flatMap nodeWarnings = (ns.filterMap decimal?).flatMap Ambiguity.ofDigits := by
  induction ns with
  | nil => rfl
  | cons n ns ih =>
      rw [List.flatMap_cons, ih, List.filterMap_cons, nodeWarnings]
      cases n.decimal? <;> simp

/-- If the decimal literals of a tree are digits, its warnings are those for their numbers. -/
theorem warnings_eq {e : Expr} (h : ∀ text, .number .dec text ∈ e.walk → IsDigits text) :
    e.warnings = .ok ((e.walk.filterMap decimal?).flatMap Ambiguity.ofDigits) := by
  have hnodes : ∀ n ∈ e.walk, Ambiguity.ofNode n = .ok n.nodeWarnings := by
    intro n hn
    apply ofNode_eq
    intro text htext
    rw [decimal?_eq_some htext] at hn
    exact h text hn
  rw [warnings, mapM_eq_map hnodes, ← flatMap_nodeWarnings]
  rfl

end Expr

/-- The warnings for digits are those for their number: one about hexadecimal data if the number of
64 bits has an even number of digits, and then one about opcodes if it is from 1 to 16, each if no
zero stands in front. Not to look at the length first would change nothing for digits that can be
read at all; more of them would be refused. The warnings for a tree are those for its decimal literals
in the order of the walk. -/
theorem warnings_of_digits :
    (∀ text, IsDigits text →
      Ambiguity.ofText text = .ok (Ambiguity.ofDigits text) ∧
        (text.length ≤ Text.maxDigits → Ambiguity.ofText text = Ambiguity.ofAnyLength text) ∧
        (Text.maxDigits < text.length →
          Ambiguity.ofAnyLength text = .error (.tooManyDigits text.length))) ∧
    ∀ e : Expr, (∀ text, .number .dec text ∈ e.walk → IsDigits text) →
      e.warnings = .ok ((e.walk.filterMap Expr.decimal?).flatMap Ambiguity.ofDigits) := by
  constructor
  · intro text h
    rw [Ambiguity.ofText_eq h, Ambiguity.ofAnyLength_eq h]
    exact ⟨rfl, fun hfew => (if_neg (Nat.not_lt.mpr hfew)).symm, fun hmany => if_pos hmany⟩
  · intro e h
    exact e.warnings_eq h

/-- A number of ones, each a digit. -/
theorem isDigits_ones {n : Nat} (h : n ≠ 0) : IsDigits (String.ofList (List.replicate n '1')) := by
  refine ⟨?_, fun c hc => ?_⟩
  · rw [ne_eq, ← String.toList_eq_nil_iff, String.toList_ofList, List.replicate_eq_nil_iff]
    exact h
  · rw [String.toList_ofList] at hc
    rw [List.eq_of_mem_replicate hc]
    rfl

/-- One digit more than can be read: no warnings, and a refusal if the length is not looked at. -/
theorem warnings_of_many_digits :
    let text := String.ofList (List.replicate 4301 '1')
    IsDigits text ∧ Ambiguity.ofText text = .ok [] ∧
      Ambiguity.ofAnyLength text = .error (.tooManyDigits 4301) ∧
      Ambiguity.ofText text ≠ Ambiguity.ofAnyLength text := by
  intro text
  have hlength : text.length = 4301 := by
    rw [String.length_ofList, List.length_replicate]
  have hdigits : IsDigits text := isDigits_ones (by decide)
  have hnone : Ambiguity.ofText text = .ok [] := by
    rw [Ambiguity.ofText, if_pos (by rw [hlength]; decide)]
  have hrefused : Ambiguity.ofAnyLength text = .error (.tooManyDigits 4301) := by
    rw [Ambiguity.ofAnyLength_eq hdigits, if_pos (by rw [hlength]; decide), hlength]
  refine ⟨hdigits, hnone, hrefused, ?_⟩
  rw [hnone, hrefused]
  nofun

/-- Both warnings, the one about hexadecimal data first; none for zeros before twenty digits, and
none for the even number of digits that a number beyond 64 bits has. Five thousand ones are refused
if their length is not looked at. -/
theorem warnings_of_digits_of_call :
    let ones := String.ofList (List.replicate 5000 '1')
    (IsDigits "00000000000000000016" ∧
      Ambiguity.ofText "00000000000000000016" = .ok [] ∧
      Ambiguity.ofText "00000000000000000016" = Ambiguity.ofAnyLength "00000000000000000016") ∧
    (Text.maxDigits < ones.length ∧
      Ambiguity.ofAnyLength ones = .error (.tooManyDigits ones.length)) ∧
    let e : Expr := .call "f" [.number .dec "16", .number .hex "16",
      .binary .add (.number .dec "92233720368547758070") (.number .dec "1")]
    (∀ text, .number .dec text ∈ e.walk → IsDigits text) ∧
      e.warnings = .ok [Ambiguity.hexWarning "16", Ambiguity.opcodeWarning "16",
        Ambiguity.opcodeWarning "1"] := by
  intro ones
  have hzeros : IsDigits "00000000000000000016" := ⟨by decide, List.all_eq_true.mp rfl⟩
  obtain ⟨hnumber, hread, _⟩ := warnings_of_digits.1 _ hzeros
  have hones : IsDigits ones := isDigits_ones (by decide)
  have hmany : Text.maxDigits < ones.length := by
    rw [String.length_ofList, List.length_replicate]
    decide
  refine ⟨⟨hzeros, hnumber.trans rfl, hread (by decide)⟩,
    ⟨hmany, (warnings_of_digits.1 ones hones).2.2 hmany⟩, ?_⟩
  intro e
  have hdigits : ∀ text, .number .dec text ∈ e.walk → IsDigits text := by
    intro text htext
    simp only [e, Expr.walk, Expr.walkList] at htext
    simp at htext
    rcases htext with rfl | rfl | rfl <;> exact ⟨by decide, List.all_eq_true.mp rfl⟩
  exact ⟨hdigits, (warnings_of_digits.2 e hdigits).trans rfl⟩

end DebugExpr
