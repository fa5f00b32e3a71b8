import DebugExpr.Proofs.Tiling

/-!
# The longest match

The lexical grammar: the classes of words, each with its spellings. The scanner compares no
lengths, and yet every token is the longest word that begins where it stands; where no word begins,
a single character is read that belongs to no word.
-/

namespace DebugExpr

namespace Token

open Text

/-- The words of the lexical grammar by their classes, each as it is spelled. -/
inductive Word (extended : Bool) : Kind → List Char → Prop
  | hex {v} : (∀ c ∈ v, isHexadecimal c = true) → Word extended .hex ('0' :: 'x' :: v)
  | bin {v} :
      extended = true → (∀ c ∈ v, isBinary c = true) → Word extended .bin ('0' :: 'b' :: v)
  | number {w} : w ≠ [] → (∀ c ∈ w, isDecimal c = true) → Word extended .number w
  | ident {c w} :
      isIdentStart c = true → (∀ d ∈ w, isIdentRest d = true) → Word extended .ident (c :: w)
  | string {v} : '"' ∉ v → Word extended .string ('"' :: (v ++ ['"']))
  | operator {k w} : (w, k) ∈ Kind.operators → Word extended k w

/-- Of the words at the front of a text, none is longer than this one, which has one class only. -/
structure LongestWord (extended : Bool) (cs : List Char) (k : Kind) (w : List Char) : Prop where
  word : Word extended k w
  front : w <+: cs
  length_le : ∀ k' w', Word extended k' w' → w' <+: cs → w'.length ≤ w.length
  kind_eq : ∀ k', Word extended k' w → k' = k

/-- Some word begins at the front of a text. -/
def BeginsWord (extended : Bool) (cs : List Char) : Prop :=
  ∃ k w, Word extended k w ∧ w <+: cs

variable {extended : Bool}

/-! ## Words and valid lexemes -/

theorem Word.valid {k : Kind} {w : List Char} (h : Word extended k w) :
    ∃ v, w = k.spell v ∧ Valid extended k v := by
  cases h with
  | hex hv => exact ⟨_, rfl, .hex hv⟩
  | bin hext hv => exact ⟨_, rfl, .bin hext hv⟩
  | number hne hw => exact ⟨_, rfl, .number hne hw⟩
  | ident hc hw => exact ⟨_, rfl, .ident hc hw⟩
  | string hv => exact ⟨_, rfl, .string hv⟩
  | operator hop => exact ⟨w, (spell_operator hop).symm, .operator hop⟩

theorem Valid.word {k : Kind} {v : List Char} (h : Valid extended k v) (hk : k ≠ .unknown) :
    Word extended k (k.spell v) := by
  cases h with
  | hex hv => exact .hex hv
  | bin hext hv => exact .bin hext hv
  | number hne hw => exact .number hne hw
  | ident hc hw => exact .ident hc hw
  | string hv => exact .string hv
  | operator hop =>
      rw [spell_operator hop]
      exact .operator hop
  | unknown => exact absurd rfl hk

/-- A word has one class: alone it is read as a lexeme of that class. -/
theorem Word.kind_eq {k k' : Kind} {w : List Char} (h : Word extended k w)
    (h' : Word extended k' w) : k' = k := by
  have hends : ∀ k, Ends k [] := fun k c hc => by cases hc
  obtain ⟨v, rfl, hv⟩ := h.valid
  obtain ⟨v', hspell, hv'⟩ := h'.valid
  obtain ⟨c, cs, hcs, _, hread⟩ := hv.readsBack (hends k)
  obtain ⟨d, ds, hds, _, hread'⟩ := hv'.readsBack (hends k')
  rw [← hspell, hcs] at hds
  obtain ⟨rfl, rfl⟩ := List.cons.inj hds
  exact congrArg Prod.fst (Option.some.inj (hread'.symm.trans hread))

/-! ## Operators -/

/-- No operator of the table begins with one that stands before it. -/
theorem operators_sorted : Kind.operators.Pairwise fun a b => ¬ a.1 <+: b.1 := by
  decide

theorem find?_eq_or_related {α : Type} {p : α → Bool} {R : α → α → Prop} {l : List α} {a b : α}
    (hl : l.Pairwise R) (ha : l.find? p = some a) (hb : b ∈ l) (hp : p b = true) :
    b = a ∨ R a b := by
  obtain ⟨_, before, after, rfl, hbefore⟩ := List.find?_eq_some_iff_append.mp ha
  rcases List.mem_append.mp hb with hb | hb
  · have := hbefore b hb
    simp [hp] at this
  · rcases List.mem_cons.mp hb with rfl | hb
    · exact .inl rfl
    · obtain ⟨_, hafter, _⟩ := List.pairwise_append.mp hl
      exact .inr ((List.pairwise_cons.mp hafter).1 b hb)

/-- The first operator of the table that fits is the longest one. -/
theorem operatorLexeme?_longest {cs v w : List Char} {k k' : Kind}
    (h : operatorLexeme? cs = some (k, v)) (hop : (w, k') ∈ Kind.operators) (hw : w <+: cs) :
    w.length ≤ v.length := by
  obtain ⟨op, hfind, heq⟩ := Option.map_eq_some_iff.mp h
  cases heq
  obtain ⟨_, hv⟩ := operatorLexeme?_eq_some h
  rcases find?_eq_or_related operators_sorted hfind hop (List.isPrefixOf_iff_prefix.mpr hw) with
    rfl | hsorted
  · exact Nat.le_refl _
  · -- A longer one that fits would begin with this one, and so stand before it.
    apply Nat.le_of_not_lt
    intro hlt
    exact hsorted (List.prefix_of_prefix_length_le hv hw (Nat.le_of_lt hlt))

/-! ## Runs of characters -/

theorem length_le_takeWhile {p : Char → Bool} {w cs : List Char} (hw : ∀ c ∈ w, p c = true)
    (h : w <+: cs) : w.length ≤ (cs.takeWhile p).length := by
  obtain ⟨tail, rfl⟩ := h
  rw [List.takeWhile_append_of_pos hw, List.length_append]
  exact Nat.le_add_right _ _

/-- A number goes on as far as the digits do, if no radix mark follows its first digit; a literal
with a radix mark is longer than the digit before the mark. -/
theorem length_le_numberLexeme {c : Char} {cs v : List Char} {k : Kind} (hc : isDecimal c = true)
    (h : numberLexeme extended c cs = (k, v)) :
    ((c :: cs).takeWhile isDecimal).length ≤ (k.spell v).length ∧ k ≠ .unknown := by
  have hx : isDecimal 'x' = false := rfl
  have hb : isDecimal 'b' = false := rfl
  unfold numberLexeme at h
  split at h
  · cases h
    simp [Kind.spell, hc, hx]
  · split at h
    · cases h
      simp [Kind.spell, hc, hb]
    · cases h
      simp [Kind.spell, hc]
  · cases h
    simp [Kind.spell, hc]

/-! ## The lexeme at the front -/

theorem lexeme?_eq_number {c : Char} {cs v : List Char} {k : Kind} (hc : isDecimal c = true)
    (h : lexeme? extended c cs = some (k, v)) : numberLexeme extended c cs = (k, v) :=
  Option.some.inj ((lexeme?_of_isDecimal extended hc cs).2.symm.trans h)

/-- No word at the front of a text is longer than the lexeme that is read there. -/
theorem Word.length_le {c : Char} {cs v w : List Char} {k k' : Kind} (hword : Word extended k' w)
    (hw : w <+: c :: cs) (h : lexeme? extended c cs = some (k, v)) :
    w.length ≤ (k.spell v).length ∧ k ≠ .unknown := by
  cases hword with
  | hex hv =>
      obtain ⟨tail, ⟨⟩⟩ := hw
      cases lexeme?_eq_number rfl h
      have hle := length_le_takeWhile hv (List.prefix_append _ tail)
      exact ⟨Nat.add_le_add_right hle 2, nofun⟩
  | bin hext hv =>
      subst hext
      obtain ⟨tail, ⟨⟩⟩ := hw
      cases lexeme?_eq_number rfl h
      have hle := length_le_takeWhile hv (List.prefix_append _ tail)
      exact ⟨Nat.add_le_add_right hle 2, nofun⟩
  | number hne hdigits =>
      have hrun := length_le_takeWhile hdigits hw
      obtain ⟨d, w, rfl⟩ := List.exists_cons_of_ne_nil hne
      obtain ⟨tail, ⟨⟩⟩ := hw
      have hc := hdigits c List.mem_cons_self
      obtain ⟨hlexeme, hk⟩ := length_le_numberLexeme hc (lexeme?_eq_number hc h)
      exact ⟨Nat.le_trans hrun hlexeme, hk⟩
  | @ident d w hd hrest =>
      obtain ⟨rfl, htail⟩ := List.cons_prefix_cons.mp hw
      rw [lexeme?_of_isIdentStart hd] at h
      cases h
      exact ⟨Nat.succ_le_succ (length_le_takeWhile hrest htail), nofun⟩
  | string hv =>
      obtain ⟨tail, htail⟩ := hw
      have hback : ReadsBack extended .string _ tail := readsBack_string hv
      obtain ⟨d, ds, hds, _, hread⟩ := hback
      cases htail.symm.trans hds
      cases h.symm.trans hread
      exact ⟨Nat.le_refl _, nofun⟩
  | operator hop =>
      obtain ⟨d, w, rfl, _, hquote, hd⟩ := operator_cons hop
      obtain ⟨rfl, _⟩ := List.cons_prefix_cons.mp hw
      rw [lexeme?_of_operatorLexeme hquote hd] at h
      cases hread : operatorLexeme? (d :: cs) with
      | none => exact absurd hw (operatorLexeme?_eq_none hread hop)
      | some l =>
          rw [hread] at h
          cases h
          obtain ⟨hmem, _⟩ := operatorLexeme?_eq_some hread
          rw [spell_operator hmem]
          refine ⟨operatorLexeme?_longest hread hop hw, ?_⟩
          rintro rfl
          simp [Kind.operators] at hmem

theorem lexeme?_longest {c : Char} {cs v : List Char} {k : Kind} (hblank : isBlank c = false)
    (h : lexeme? extended c cs = some (k, v)) (hbegins : BeginsWord extended (c :: cs)) :
    LongestWord extended (c :: cs) k (k.spell v) := by
  obtain ⟨k', w, hword, hw⟩ := hbegins
  obtain ⟨hvalid, tail, htail⟩ := lexeme?_valid hblank h
  have hself := hvalid.word (hword.length_le hw h).2
  exact {
    word := hself
    front := ⟨tail, htail.symm⟩
    length_le := fun _ _ hword' hw' => (hword'.length_le hw' h).1
    kind_eq := fun _ => hself.kind_eq }

theorem lexeme?_unknown {c : Char} {cs v : List Char} {k : Kind} (hblank : isBlank c = false)
    (h : lexeme? extended c cs = some (k, v)) (hbegins : ¬ BeginsWord extended (c :: cs)) :
    k = .unknown ∧ v = [c] := by
  obtain ⟨hvalid, tail, htail⟩ := lexeme?_valid hblank h
  have hk : k = .unknown := by
    by_cases hk : k = .unknown
    · exact hk
    · exact absurd ⟨k, _, hvalid.word hk, tail, htail.symm⟩ hbegins
  subst hk
  cases hvalid with
  | operator hop => simp [Kind.operators] at hop
  | unknown =>
      cases htail
      exact ⟨rfl, rfl⟩

/-! ## ASCII -/

theorem operators_ascii : ∀ op ∈ Kind.operators, ∀ c ∈ op.1, c.toNat < 128 := by
  simp [Kind.operators]

/-- Every word begins with a character of ASCII. -/
theorem Word.ascii {k : Kind} {w : List Char} (h : Word extended k w) :
    ∃ c cs, w = c :: cs ∧ c.toNat < 128 := by
  cases h with
  | hex | bin | string => exact ⟨_, _, rfl, by decide⟩
  | number hne hdigits =>
      obtain ⟨c, cs, rfl⟩ := List.exists_cons_of_ne_nil hne
      have hc := hdigits c List.mem_cons_self
      simp only [isDecimal, Bool.and_eq_true, decide_eq_true_eq] at hc
      have hle : c.toNat ≤ '9'.toNat := hc.2
      exact ⟨c, cs, rfl, Nat.lt_of_le_of_lt hle (by decide)⟩
  | @ident c cs hc _ =>
      refine ⟨c, cs, rfl, ?_⟩
      simp only [isIdentStart, Bool.or_eq_true, Bool.and_eq_true, decide_eq_true_eq,
        beq_iff_eq] at hc
      rcases hc with (⟨_, hc⟩ | ⟨_, hc⟩) | rfl
      · have hle : c.toNat ≤ 'z'.toNat := hc
        exact Nat.lt_of_le_of_lt hle (by decide)
      · have hle : c.toNat ≤ 'Z'.toNat := hc
        exact Nat.lt_of_le_of_lt hle (by decide)
      · decide
  | operator hop =>
      obtain ⟨c, cs, rfl, _⟩ := operator_cons hop
      exact ⟨c, cs, rfl, operators_ascii _ hop c List.mem_cons_self⟩

end Token

/-! ## Sources -/

open Token

/-- Every token before the end mark is the longest word that begins at its position. Where no word
begins, it is a single character, which is no blank, and so is every token that begins with a
character outside of ASCII. -/
theorem longest_of_tokenize {settings : Settings} {source : String} {tokens : List Token}
    (h : (tokenize settings source).result = .ok tokens) {t : Token} (ht : t ∈ tokens)
    (hkind : t.kind ≠ .eof) :
    ∃ (p : Nat) (c : Char) (cs : List Char), t.pos = p ∧ source.toList.drop p = c :: cs ∧
      (BeginsWord settings.extended (c :: cs) →
        LongestWord settings.extended (c :: cs) t.kind t.spelling) ∧
      (¬ BeginsWord settings.extended (c :: cs) →
        t.kind = .unknown ∧ t.value.toList = [c] ∧ c ∉ blanks) ∧
      (128 ≤ c.toNat → t.kind = .unknown) := by
  obtain ⟨ts, rfl, hcut⟩ := cuts_of_tokenize h
  have hts : t ∈ ts := by
    rcases List.mem_append.mp ht with ht | ht
    · exact ht
    · cases List.mem_singleton.mp ht
      exact absurd rfl hkind
  obtain ⟨p, c, cs, hpos, hdrop, hblank, hlex⟩ := hcut.readIn t hts
  rw [Nat.zero_add] at hpos
  refine ⟨p, c, cs, hpos, hdrop, lexeme?_longest hblank hlex, ?_, ?_⟩
  · intro hbegins
    obtain ⟨hunknown, hvalue⟩ := lexeme?_unknown hblank hlex hbegins
    exact ⟨hunknown, hvalue, by rw [mem_blanks_iff, hblank]; exact Bool.false_ne_true⟩
  · intro hascii
    refine (lexeme?_unknown hblank hlex ?_).1
    rintro ⟨k, w, hword, hw⟩
    obtain ⟨d, ds, rfl, hd⟩ := hword.ascii
    obtain ⟨rfl, _⟩ := List.cons_prefix_cons.mp hw
    exact absurd hd (Nat.not_lt.mpr hascii)

/-- Of the four operators that begin with a plus, the one that is read is the longest that fits. -/
theorem longest_of_pluses :
    (tokenize {} "a++=1").result =
      .ok [⟨.ident, "a", 0⟩, ⟨.concatAssign, "++=", 1⟩, ⟨.number, "1", 4⟩, endMark 5] ∧
    LongestWord false ['+', '+', '=', '1'] .concatAssign ['+', '+', '='] := by
  have h : (tokenize {} "a++=1").result =
      .ok [⟨.ident, "a", 0⟩, ⟨.concatAssign, "++=", 1⟩, ⟨.number, "1", 4⟩, endMark 5] := rfl
  obtain ⟨p, c, cs, hpos, hdrop, hlongest, _⟩ :=
    longest_of_tokenize h (t := ⟨.concatAssign, "++=", 1⟩) (by simp) nofun
  cases Int.ofNat.inj hpos
  cases hdrop
  exact ⟨h, hlongest ⟨.plus, ['+'], .operator (by simp [Kind.operators]), ['+', '=', '1'], rfl⟩⟩

end DebugExpr
