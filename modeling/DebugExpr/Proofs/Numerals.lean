import Mathlib.Algebra.Ring.Nat
import DebugExpr.Text.Numeral
import DebugExpr.Proofs.Lexing

/-!
# Decimal numerals

Decimal digits are read as the number that they stand for. Written again, the number has the same
digits exactly if no zero stands before others.
-/

namespace DebugExpr.Text

/-! ## Reading -/

theorem toNat_of_isDecimal {c : Char} (h : isDecimal c = true) :
    '0'.toNat ≤ c.toNat ∧ c.toNat < '0'.toNat + 10 := by
  simp only [isDecimal, Bool.and_eq_true, decide_eq_true_eq, Char.le_def,
    UInt32.le_iff_toNat_le] at h
  exact ⟨h.1, Nat.lt_succ_of_le h.2⟩

theorem digit_lt_ten {c : Char} (h : isDecimal c = true) : c.toNat - '0'.toNat < 10 := by
  obtain ⟨_, hhigh⟩ := toNat_of_isDecimal h
  omega

theorem digitValue?_of_isDecimal {c : Char} (h : isDecimal c = true) :
    digitValue? c = some (c.toNat - '0'.toNat) := by
  have hlow : 0x30 ≤ c.toNat := (toNat_of_isDecimal h).1
  have hhigh : c.toNat < 0x30 + 10 := (toNat_of_isDecimal h).2
  rw [digitValue?, scriptZeros, List.find?_cons_of_pos (by simp [hlow, hhigh])]
  rfl

theorem readDigits_of_isDecimal {cs : List Char} (hcs : ∀ c ∈ cs, isDecimal c = true)
    (count value : Nat) (afterDigit : Bool) (h : afterDigit = true ∨ cs ≠ []) :
    readDigits count value afterDigit cs =
      some (count + cs.length, Nat.ofDigitChars 10 cs value) := by
  induction cs generalizing count value afterDigit with
  | nil =>
      rw [readDigits, if_pos (h.resolve_right fun h => h rfl)]
      rfl
  | cons c cs ih =>
      have hc := hcs c List.mem_cons_self
      have hunder : c ≠ '_' := by rintro rfl; cases hc
      rw [readDigits, if_neg (by simpa using hunder), digitValue?_of_isDecimal hc,
        Nat.ofDigitChars_cons, List.length_cons, Nat.add_comm cs.length 1, ← Nat.add_assoc]
      exact ih (fun d hd => hcs d (List.mem_cons_of_mem c hd)) _ _ true (.inl rfl)

theorem dropWhile_eq_self {p : Char → Bool} {cs : List Char} (h : ∀ c ∈ cs, p c = false) :
    cs.dropWhile p = cs := by
  cases cs with
  | nil => rfl
  | cons c cs => rw [List.dropWhile_cons_of_neg (by simp [h c List.mem_cons_self])]

theorem stripWith_eq_self {p : Char → Bool} {cs : List Char} (h : ∀ c ∈ cs, p c = false) :
    stripWith p cs = cs := by
  have hrev : ∀ c ∈ cs.reverse, p c = false := fun c hc => h c (List.mem_reverse.mp hc)
  rw [stripWith, dropWhile_eq_self h, dropWhile_eq_self hrev, List.reverse_reverse]

theorem isNumeralSpace_of_isDecimal {c : Char} (h : isDecimal c = true) :
    isNumeralSpace c = false := by
  have hblank : isBlank c = false := Token.isBlank_eq_false h rfl
  simp only [isDecimal, Bool.and_eq_true, decide_eq_true_eq] at h
  have hne : ∀ d : Char, ¬ d ≤ '9' → c ≠ d := by
    rintro d hd rfl
    exact hd h.2
  have hlow : ¬ '\u2000' ≤ c := fun hlow => absurd (Char.le_trans hlow h.2) (by simp)
  have hwide : isWideSpace c = false := by
    simp [isWideSpace, hne, hlow]
  simp [isNumeralSpace, hblank, hwide]

/-- Digits are an integer, which is the number that they stand for. -/
theorem readNumeral?_of_isDecimal {s : String} (hne : s.toList ≠ [])
    (hdigits : ∀ c ∈ s.toList, isDecimal c = true) :
    readNumeral? s = some (s.length, ↑(Nat.ofDigitChars 10 s.toList 0)) := by
  have hread := readDigits_of_isDecimal hdigits 0 0 false (.inr hne)
  rw [Nat.zero_add, String.length_toList] at hread
  rw [readNumeral?, stripWith_eq_self fun c hc => isNumeralSpace_of_isDecimal (hdigits c hc)]
  split
  · rename_i cs hcs
    exact absurd (hdigits '-' (by rw [hcs]; exact List.mem_cons_self)) (by decide)
  · rename_i cs hcs
    exact absurd (hdigits '+' (by rw [hcs]; exact List.mem_cons_self)) (by decide)
  · rw [hread]
    rfl

/-- Digits are read as their number unless they are too many. -/
theorem readInt_of_isDecimal {s : String} (hne : s.toList ≠ [])
    (hdigits : ∀ c ∈ s.toList, isDecimal c = true) :
    readInt s =
      if maxDigits < s.length then .error (.tooManyDigits s.length)
      else .ok ↑(Nat.ofDigitChars 10 s.toList 0) := by
  rw [readInt, readNumeral?_of_isDecimal hne hdigits]

/-! ## Writing -/

theorem digitChar_of_isDecimal {c : Char} (h : isDecimal c = true) :
    Nat.digitChar (c.toNat - '0'.toNat) = c := by
  obtain ⟨hlow, _⟩ := toNat_of_isDecimal h
  rw [← Char.toNat_inj, Nat.toNat_digitChar_of_lt_ten (digit_lt_ten h)]
  exact Nat.add_sub_cancel' hlow

/-- Digits that are read after a number are written after it. -/
theorem toDigits_append {cs : List Char} (hcs : ∀ c ∈ cs, isDecimal c = true) {n : Nat}
    (hn : 0 < n) : Nat.toDigits 10 n ++ cs = Nat.toDigits 10 (Nat.ofDigitChars 10 cs n) := by
  induction cs generalizing n with
  | nil => simp
  | cons c cs ih =>
      obtain ⟨hc, hcs⟩ := List.forall_mem_cons.mp hcs
      have hdigit := digit_lt_ten hc
      have hone : Nat.toDigits 10 n ++ [c] = Nat.toDigits 10 (10 * n + (c.toNat - '0'.toNat)) := by
        rw [← Nat.toDigits_append_toDigits (by decide) hn hdigit, Nat.toDigits_of_lt_base hdigit,
          digitChar_of_isDecimal hc]
      rw [Nat.ofDigitChars_cons, ← ih hcs (by omega), ← hone, List.append_assoc]
      rfl

/-- Without a zero in front, digits are those with which their number is written. -/
theorem toDigits_ofDigitChars {cs : List Char} (hcs : ∀ c ∈ cs, isDecimal c = true)
    (hne : cs ≠ []) (hzero : cs.head? ≠ some '0') :
    Nat.toDigits 10 (Nat.ofDigitChars 10 cs 0) = cs := by
  obtain ⟨c, cs, rfl⟩ := List.exists_cons_of_ne_nil hne
  obtain ⟨hc, hcs⟩ := List.forall_mem_cons.mp hcs
  obtain ⟨hlow, _⟩ := toNat_of_isDecimal hc
  have hpos : 0 < c.toNat - '0'.toNat := by
    have hne : c.toNat ≠ '0'.toNat := fun h => hzero (congrArg some (Char.toNat_inj.mp h))
    omega
  have hdigit := digit_lt_ten hc
  rw [Nat.ofDigitChars_cons, Nat.mul_zero, Nat.zero_add, ← toDigits_append hcs hpos,
    Nat.toDigits_of_lt_base hdigit, digitChar_of_isDecimal hc]
  rfl

/-- A number of so many digits is below the power of ten. -/
theorem ofDigitChars_lt {cs : List Char} (hcs : ∀ c ∈ cs, isDecimal c = true) :
    Nat.ofDigitChars 10 cs 0 < 10 ^ cs.length := by
  induction cs with
  | nil => simp
  | cons c cs ih =>
      obtain ⟨hc, hcs⟩ := List.forall_mem_cons.mp hcs
      have hrest := ih hcs
      have hdigit : c.toNat - '0'.toNat ≤ 9 := Nat.le_of_lt_succ (digit_lt_ten hc)
      have hmul := Nat.mul_le_mul_left (10 ^ cs.length) hdigit
      rw [Nat.ofDigitChars_cons, Nat.ofDigitChars_eq_ofDigitChars_zero, Nat.mul_zero, Nat.zero_add,
        List.length_cons, Nat.pow_succ]
      omega

/-- A zero before other digits is not written again. -/
theorem toDigits_ne_of_zero {cs : List Char} (hcs : ∀ c ∈ cs, isDecimal c = true)
    (hne : cs ≠ []) :
    Nat.toDigits 10 (Nat.ofDigitChars 10 ('0' :: cs) 0) ≠ '0' :: cs := by
  intro h
  have hlength : (Nat.toDigits 10 (Nat.ofDigitChars 10 cs 0)).length ≤ cs.length :=
    (Nat.length_toDigits_le_iff (by decide) (List.length_pos_iff.mpr hne)).mpr
      (ofDigitChars_lt hcs)
  have hvalue : Nat.ofDigitChars 10 ('0' :: cs) 0 = Nat.ofDigitChars 10 cs 0 := by
    rw [Nat.ofDigitChars_cons]
    rfl
  rw [← hvalue, h, List.length_cons] at hlength
  omega

/-- A number with more digits than a power of ten has zeros is not below it. -/
theorem pow_le_ofDigitChars {cs : List Char} (hcs : ∀ c ∈ cs, isDecimal c = true)
    (hzero : cs.head? ≠ some '0') {k : Nat} (hk : 0 < k) (hlength : k < cs.length) :
    10 ^ k ≤ Nat.ofDigitChars 10 cs 0 := by
  have hne : cs ≠ [] := by
    rintro rfl
    exact absurd hlength (Nat.not_lt_zero k)
  apply Nat.le_of_not_lt
  intro hlt
  have hle := (Nat.length_toDigits_le_iff (by decide) hk).mpr hlt
  rw [toDigits_ofDigitChars hcs hne hzero] at hle
  omega

end DebugExpr.Text
