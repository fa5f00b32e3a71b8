import DebugExpr.Token.Source

/-!
# Lexemes and their spellings

What the scanner reads are valid lexemes with their spellings, and a spelled lexeme is read back
whenever the text after it cannot go on with it. A text is cut into lexemes in one way only.
-/

namespace DebugExpr.Token

open Text

/-! ## Classes of characters -/

def blanks : List Char := [' ', '\t', '\n', '\r', '\x0c', '\x0b']

theorem mem_blanks_iff {c : Char} : c ∈ blanks ↔ isBlank c = true := by
  simp [isBlank, blanks, or_assoc]

theorem isBlank_eq_false {c : Char} {p : Char → Bool} (hc : p c = true)
    (hp : blanks.any p = false) : isBlank c = false := by
  rw [Bool.eq_false_iff]
  intro hblank
  have := List.any_eq_false.mp hp c (mem_blanks_iff.mpr hblank)
  exact this hc

theorem isDecimal_of_isBinary {c : Char} (h : isBinary c = true) : isDecimal c = true := by
  simp only [isBinary, Bool.or_eq_true, beq_iff_eq] at h
  rcases h with rfl | rfl <;> rfl

theorem isDecimal_eq_false {c : Char} (h : isIdentStart c = true) : isDecimal c = false := by
  simp only [isIdentStart, Bool.or_eq_true, Bool.and_eq_true, decide_eq_true_eq, beq_iff_eq,
    Char.le_def, UInt32.le_iff_toNat_le] at h
  simp only [isDecimal, Bool.and_eq_false_iff, decide_eq_false_iff_not, Char.le_def,
    UInt32.le_iff_toNat_le]
  rcases h with (⟨h, _⟩ | ⟨h, _⟩) | rfl
  · right
    exact fun h' => absurd (Nat.le_trans h h') (by decide)
  · right
    exact fun h' => absurd (Nat.le_trans h h') (by decide)
  · right
    decide

theorem isIdentRest_of_isHexadecimal {c : Char} (h : isHexadecimal c = true) :
    isIdentRest c = true := by
  simp only [isHexadecimal, Bool.or_eq_true, Bool.and_eq_true, decide_eq_true_eq] at h
  simp only [isIdentRest, isIdentStart, Bool.or_eq_true, Bool.and_eq_true, decide_eq_true_eq]
  rcases h with (h | ⟨h, h'⟩) | ⟨h, h'⟩
  · exact .inr h
  · exact .inl (.inl (.inl ⟨h, Char.le_trans h' (by decide)⟩))
  · exact .inl (.inl (.inr ⟨h, Char.le_trans h' (by decide)⟩))

theorem isIdentRest_of_isDecimal {c : Char} (h : isDecimal c = true) : isIdentRest c = true := by
  simp [isIdentRest, h]

/-! ## Valid lexemes -/

/-- The lexemes that the scanner can read: each kind has its values. -/
inductive Valid (extended : Bool) : Kind → List Char → Prop
  | number {v} : v ≠ [] → (∀ c ∈ v, isDecimal c = true) → Valid extended .number v
  | hex {v} : (∀ c ∈ v, isHexadecimal c = true) → Valid extended .hex v
  | bin {v} : extended = true → (∀ c ∈ v, isBinary c = true) → Valid extended .bin v
  | string {v} : '"' ∉ v → Valid extended .string v
  | ident {c v} :
      isIdentStart c = true → (∀ c ∈ v, isIdentRest c = true) → Valid extended .ident (c :: v)
  | operator {k v} : (v, k) ∈ Kind.operators → Valid extended k v
  | unknown {c} :
      isBlank c = false → c ≠ '"' → isIdentRest c = false → (∀ k, ([c], k) ∉ Kind.operators) →
      Valid extended .unknown [c]

theorem Valid.ne_eof {extended : Bool} {k : Kind} {v : List Char} (h : Valid extended k v) :
    k ≠ .eof := by
  cases h with
  | operator h => rintro rfl; simp [Kind.operators] at h
  | _ => nofun

/-! ## What is read is valid -/

variable {extended : Bool}

theorem mem_takeWhile {p : Char → Bool} {c : Char} {cs : List Char} (h : c ∈ cs.takeWhile p) :
    p c = true :=
  List.all_eq_true.mp List.all_takeWhile c h

theorem takeWhile_split (p : Char → Bool) (cs : List Char) : ∃ tail, cs = cs.takeWhile p ++ tail :=
  ⟨cs.dropWhile p, List.takeWhile_append_dropWhile.symm⟩

theorem closed_split {cs : List Char} (h : '"' ∈ cs) :
    ∃ tail, cs = cs.takeWhile (· != '"') ++ '"' :: tail := by
  induction cs with
  | nil => cases h
  | cons c cs ih =>
      by_cases hc : c = '"'
      · subst hc
        exact ⟨cs, by simp⟩
      · obtain ⟨tail, htail⟩ := ih ((List.mem_cons.mp h).resolve_left (Ne.symm hc))
        exact ⟨tail, by simpa [hc] using htail⟩

theorem stringLexeme?_valid {cs v : List Char} {k : Kind} (h : stringLexeme? cs = some (k, v)) :
    Valid extended k v ∧ ∃ tail, '"' :: cs = k.spell v ++ tail := by
  unfold stringLexeme? at h
  split at h
  · rename_i hmem
    cases h
    have hvalid : '"' ∉ cs.takeWhile (· != '"') := by
      intro hin
      simpa using mem_takeWhile hin
    obtain ⟨tail, htail⟩ := closed_split (List.contains_iff_mem.mp hmem)
    refine ⟨.string hvalid, tail, ?_⟩
    simpa [Kind.spell] using htail
  · cases h

theorem numberLexeme_valid {c : Char} {cs v : List Char} {k : Kind} (hc : isDecimal c = true)
    (h : numberLexeme extended c cs = (k, v)) :
    Valid extended k v ∧ ∃ tail, c :: cs = k.spell v ++ tail := by
  have hnumber : ∀ {c : Char}, isDecimal c = true → ∀ cs : List Char,
      Valid extended .number (c :: cs.takeWhile isDecimal) ∧
        ∃ tail, c :: cs = Kind.number.spell (c :: cs.takeWhile isDecimal) ++ tail := by
    intro c hc cs
    refine ⟨.number (by simp) ?_, ?_⟩
    · intro d hd
      rcases List.mem_cons.mp hd with rfl | hd
      · exact hc
      · exact mem_takeWhile hd
    · obtain ⟨tail, htail⟩ := takeWhile_split isDecimal cs
      exact ⟨tail, congrArg (c :: ·) htail⟩
  unfold numberLexeme at h
  split at h
  · rename_i digits
    cases h
    obtain ⟨tail, htail⟩ := takeWhile_split isHexadecimal digits
    exact ⟨.hex fun d hd => mem_takeWhile hd, tail, congrArg ('0' :: 'x' :: ·) htail⟩
  · rename_i digits
    split at h
    · rename_i hext
      cases h
      obtain ⟨tail, htail⟩ := takeWhile_split isBinary digits
      exact ⟨.bin hext fun d hd => mem_takeWhile hd, tail, congrArg ('0' :: 'b' :: ·) htail⟩
    · cases h
      exact hnumber hc _
  · cases h
    exact hnumber hc cs

theorem operatorLexeme?_eq_some {cs v : List Char} {k : Kind}
    (h : operatorLexeme? cs = some (k, v)) : (v, k) ∈ Kind.operators ∧ v <+: cs := by
  obtain ⟨op, hop, heq⟩ := Option.map_eq_some_iff.mp h
  cases heq
  exact ⟨List.mem_of_find?_eq_some hop, List.isPrefixOf_iff_prefix.mp (List.find?_some hop :)⟩

theorem operatorLexeme?_eq_none {cs v : List Char} {k : Kind} (h : operatorLexeme? cs = none)
    (hop : (v, k) ∈ Kind.operators) : ¬ v <+: cs := by
  rw [operatorLexeme?, Option.map_eq_none_iff, List.find?_eq_none] at h
  intro hprefix
  exact h (v, k) hop (List.isPrefixOf_iff_prefix.mpr hprefix)

theorem spell_operator {v : List Char} {k : Kind} (h : (v, k) ∈ Kind.operators) :
    k.spell v = v := by
  cases k <;> first | rfl | simp [Kind.operators] at h

theorem lexeme?_valid {c : Char} {cs v : List Char} {k : Kind} (hc : isBlank c = false)
    (h : lexeme? extended c cs = some (k, v)) :
    Valid extended k v ∧ ∃ tail, c :: cs = k.spell v ++ tail := by
  unfold lexeme? at h
  split at h
  · rename_i hquote
    rw [beq_iff_eq] at hquote
    subst hquote
    exact stringLexeme?_valid h
  · rename_i hquote
    split at h
    · rename_i hdec
      exact numberLexeme_valid hdec (Option.some.inj h)
    · rename_i hdec
      split at h
      · rename_i hident
        cases h
        obtain ⟨tail, htail⟩ := takeWhile_split isIdentRest cs
        exact ⟨.ident hident fun d hd => mem_takeWhile hd, tail, congrArg (c :: ·) htail⟩
      · rename_i hident
        cases hop : operatorLexeme? (c :: cs) with
        | some l =>
            rw [hop] at h
            cases h
            obtain ⟨hmem, tail, htail⟩ := operatorLexeme?_eq_some hop
            exact ⟨.operator hmem, tail, by rw [spell_operator hmem, htail]⟩
        | none =>
            rw [hop] at h
            cases h
            refine ⟨.unknown hc (by simpa using hquote) (by simp_all [isIdentRest]) ?_, cs, rfl⟩
            intro k hmem
            exact operatorLexeme?_eq_none hop hmem ⟨cs, rfl⟩

/-! ## A spelling is read back -/

/-- Whether a lexeme of the kind could go on with the character. -/
def goesOn : Kind → Char → Bool
  | .number, c | .hex, c | .bin, c | .ident, c => isIdentRest c
  | .string, _ => false
  | _, c => c == '+' || c == '=' || c == '&' || c == '|'

/-- The text after a lexeme does not go on with it. -/
def Ends (k : Kind) (rest : List Char) : Prop :=
  ∀ c ∈ rest.head?, goesOn k c = false

theorem takeWhile_spelled {p : Char → Bool} {v rest : List Char} (hv : ∀ c ∈ v, p c = true)
    (hrest : ∀ c ∈ rest.head?, p c = false) : (v ++ rest).takeWhile p = v := by
  rw [List.takeWhile_append_of_pos hv]
  cases rest with
  | nil => simp
  | cons c cs => simp [hrest c rfl]

theorem eq_false_of_imp {p q : Char → Bool} {c : Char} (h : p c = true → q c = true)
    (hq : q c = false) : p c = false := by
  rw [Bool.eq_false_iff] at hq ⊢
  exact fun hp => hq (h hp)

/-- The lexeme is read from the front of its spelling and the text after it. -/
def ReadsBack (extended : Bool) (k : Kind) (v rest : List Char) : Prop :=
  ∃ c cs, k.spell v ++ rest = c :: cs ∧ isBlank c = false ∧ lexeme? extended c cs = some (k, v)

theorem lexeme?_of_isDecimal (extended : Bool) {c : Char} (hc : isDecimal c = true)
    (cs : List Char) :
    isBlank c = false ∧ lexeme? extended c cs = some (numberLexeme extended c cs) := by
  have hquote : c ≠ '"' := by rintro rfl; cases hc
  refine ⟨isBlank_eq_false hc rfl, ?_⟩
  simp [lexeme?, hc, hquote]

theorem readsBack_hex {v rest : List Char} (hv : ∀ c ∈ v, isHexadecimal c = true)
    (hrest : ∀ c ∈ rest.head?, isIdentRest c = false) : ReadsBack extended .hex v rest := by
  obtain ⟨hblank, hlex⟩ :=
    lexeme?_of_isDecimal extended (c := '0') rfl ('x' :: (v ++ rest))
  have htake := takeWhile_spelled hv fun c hc =>
    eq_false_of_imp isIdentRest_of_isHexadecimal (hrest c hc)
  refine ⟨'0', 'x' :: (v ++ rest), rfl, hblank, hlex.trans ?_⟩
  simp only [numberLexeme, htake]

theorem readsBack_bin {v rest : List Char} (hext : extended = true)
    (hv : ∀ c ∈ v, isBinary c = true) (hrest : ∀ c ∈ rest.head?, isIdentRest c = false) :
    ReadsBack extended .bin v rest := by
  obtain ⟨hblank, hlex⟩ :=
    lexeme?_of_isDecimal extended (c := '0') rfl ('b' :: (v ++ rest))
  have htake := takeWhile_spelled hv fun c hc =>
    eq_false_of_imp (isIdentRest_of_isDecimal ∘ isDecimal_of_isBinary) (hrest c hc)
  refine ⟨'0', 'b' :: (v ++ rest), rfl, hblank, hlex.trans ?_⟩
  simp only [numberLexeme, hext, if_true, htake]

theorem numberLexeme_of_ne {c : Char} {cs : List Char}
    (h : ∀ d ∈ cs.head?, d ≠ 'x' ∧ d ≠ 'b') :
    numberLexeme extended c cs = (.number, c :: cs.takeWhile isDecimal) := by
  unfold numberLexeme
  split
  · exact absurd rfl (h 'x' rfl).1
  · exact absurd rfl (h 'b' rfl).2
  · rfl

theorem readsBack_number {v rest : List Char} (hne : v ≠ []) (hv : ∀ c ∈ v, isDecimal c = true)
    (hrest : ∀ c ∈ rest.head?, isIdentRest c = false) : ReadsBack extended .number v rest := by
  obtain ⟨c, v, rfl⟩ := List.exists_cons_of_ne_nil hne
  obtain ⟨hblank, hlex⟩ :=
    lexeme?_of_isDecimal extended (hv c List.mem_cons_self) (v ++ rest)
  have hv' : ∀ d ∈ v, isDecimal d = true := fun d hd => hv d (List.mem_cons_of_mem c hd)
  have htake := takeWhile_spelled hv' fun c hc =>
    eq_false_of_imp isIdentRest_of_isDecimal (hrest c hc)
  have hmark : ∀ d ∈ (v ++ rest).head?, d ≠ 'x' ∧ d ≠ 'b' := by
    intro d hd
    cases v with
    | nil =>
        have := hrest d hd
        constructor <;> (rintro rfl; cases this)
    | cons e v =>
        cases hd
        have := hv' d List.mem_cons_self
        constructor <;> (rintro rfl; cases this)
  refine ⟨c, v ++ rest, rfl, hblank, hlex.trans ?_⟩
  rw [numberLexeme_of_ne hmark, htake]

theorem readsBack_string {v rest : List Char} (hv : '"' ∉ v) :
    ReadsBack extended .string v rest := by
  have htake : (v ++ '"' :: rest).takeWhile (· != '"') = v := by
    refine takeWhile_spelled (fun c hc => ?_) (by simp)
    simpa using fun h : c = '"' => hv (h ▸ hc)
  refine ⟨'"', v ++ '"' :: rest, by simp [Kind.spell], rfl, ?_⟩
  simp [lexeme?, stringLexeme?, htake]

theorem lexeme?_of_isIdentStart {c : Char} {cs : List Char} (hc : isIdentStart c = true) :
    lexeme? extended c cs = some (.ident, c :: cs.takeWhile isIdentRest) := by
  have hquote : c ≠ '"' := by rintro rfl; cases hc
  simp [lexeme?, hquote, isDecimal_eq_false hc, hc]

theorem readsBack_ident {c : Char} {v rest : List Char} (hc : isIdentStart c = true)
    (hv : ∀ c ∈ v, isIdentRest c = true) (hrest : ∀ c ∈ rest.head?, isIdentRest c = false) :
    ReadsBack extended .ident (c :: v) rest := by
  refine ⟨c, v ++ rest, rfl, isBlank_eq_false hc rfl, ?_⟩
  rw [lexeme?_of_isIdentStart hc, takeWhile_spelled hv hrest]

theorem operatorLexeme?_single {c : Char} {rest : List Char} (hrest : Ends .unknown rest)
    (hc : ∀ k, ([c], k) ∉ Kind.operators) : operatorLexeme? (c :: rest) = none := by
  -- The second character of a longer operator is one that `Ends` excludes.
  have hlong : ∀ op ∈ Kind.operators, ∀ d ds e, op.1 = d :: e :: ds → goesOn .unknown e = true := by
    simp [Kind.operators, goesOn]
  rw [operatorLexeme?, Option.map_eq_none_iff, List.find?_eq_none]
  rintro ⟨v, k⟩ hop hv
  obtain ⟨tail, htail⟩ := List.isPrefixOf_iff_prefix.mp hv
  dsimp only at htail
  match v, htail with
  | [], _ => simp [Kind.operators] at hop
  | [d], htail =>
      obtain ⟨rfl, _⟩ := List.cons.inj htail
      exact hc k hop
  | d :: e :: ds, htail =>
      obtain ⟨rfl, hrest'⟩ := List.cons.inj htail
      have := hlong _ hop d ds e rfl
      rw [hrest e (by rw [← hrest']; rfl)] at this
      cases this

theorem operatorLexeme?_spelled {k : Kind} {v rest : List Char} (hop : (v, k) ∈ Kind.operators)
    (hrest : Ends .unknown rest) : operatorLexeme? (v ++ rest) = some (k, v) := by
  cases rest with
  | nil => cases k <;> simp [Kind.operators] at hop <;> subst hop <;> rfl
  | cons c cs =>
      have hc := hrest c rfl
      simp only [goesOn, Bool.or_eq_false_iff] at hc
      have hplus : ('+' == c) = false := by rw [BEq.comm]; exact hc.1.1.1
      have hequal : ('=' == c) = false := by rw [BEq.comm]; exact hc.1.1.2
      cases k <;> simp [Kind.operators] at hop <;> subst hop <;>
        simp [operatorLexeme?, Kind.operators, List.find?, List.isPrefixOf, hplus, hequal]

theorem lexeme?_of_operatorLexeme {c : Char} {cs : List Char} (hquote : c ≠ '"')
    (hc : isIdentRest c = false) :
    lexeme? extended c cs = some ((operatorLexeme? (c :: cs)).getD (.unknown, [c])) := by
  simp only [isIdentRest, Bool.or_eq_false_iff] at hc
  simp [lexeme?, hquote, hc]

/-- The first characters of operators begin nothing else. -/
theorem operator_cons {k : Kind} {v : List Char} (hop : (v, k) ∈ Kind.operators) :
    ∃ c cs, v = c :: cs ∧ isBlank c = false ∧ c ≠ '"' ∧ isIdentRest c = false := by
  have hall : ∀ op ∈ Kind.operators, ∃ c cs, op.1 = c :: cs ∧ isBlank c = false ∧ c ≠ '"' ∧
      isIdentRest c = false := by
    intro op hop
    simp only [Kind.operators, List.mem_cons, List.not_mem_nil, or_false] at hop
    rcases hop with rfl | rfl | rfl | rfl | rfl | rfl | rfl | rfl | rfl | rfl | rfl | rfl | rfl |
      rfl | rfl | rfl | rfl | rfl | rfl <;> exact ⟨_, _, rfl, rfl, by simp, rfl⟩
  exact hall (v, k) hop

theorem Ends.of_operator {k : Kind} {v rest : List Char} (hop : (v, k) ∈ Kind.operators)
    (h : Ends k rest) : Ends .unknown rest := by
  cases k <;> first | exact h | simp [Kind.operators] at hop

/-- A valid lexeme is read back from its spelling. -/
theorem Valid.readsBack {k : Kind} {v rest : List Char} (h : Valid extended k v)
    (hrest : Ends k rest) : ReadsBack extended k v rest := by
  cases h with
  | number hne hv => exact readsBack_number hne hv hrest
  | hex hv => exact readsBack_hex hv hrest
  | bin hext hv => exact readsBack_bin hext hv hrest
  | string hv => exact readsBack_string hv
  | ident hc hv => exact readsBack_ident hc hv hrest
  | operator hop =>
      obtain ⟨c, cs, rfl, hblank, hquote, hc⟩ := operator_cons hop
      refine ⟨c, cs ++ rest, by rw [spell_operator hop]; rfl, hblank, ?_⟩
      have hread := operatorLexeme?_spelled hop (hrest.of_operator hop)
      rw [lexeme?_of_operatorLexeme hquote hc, ← List.cons_append, hread]
      rfl
  | @unknown c hblank hquote hc hop =>
      refine ⟨c, rest, rfl, hblank, ?_⟩
      rw [lexeme?_of_operatorLexeme hquote hc, operatorLexeme?_single hrest hop]
      rfl

end DebugExpr.Token
