import Mathlib.Algebra.Ring.Parity
import DebugExpr.Proofs.Tiling

/-!
# Quotes

A source is refused by the scanner exactly if the number of its quotes is odd, and the last of them
is blamed. For a lexeme holds both of its quotes or none, so quotes pair off from the left.
-/

namespace DebugExpr

namespace Token

open Text

variable {extended : Bool}

/-! ## Quotes of one lexeme -/

theorem count_quote_eq_zero {p : Char → Bool} {v : List Char} (hp : p '"' = false)
    (hv : ∀ c ∈ v, p c = true) : v.count '"' = 0 := by
  apply List.count_eq_zero_of_not_mem
  intro hmem
  have := hv '"' hmem
  simp [hp] at this

theorem operators_noQuote : ∀ op ∈ Kind.operators, op.1.count '"' = 0 := by
  decide

/-- The quotes of a spelling are the two around a string, or none. -/
theorem Valid.even_quotes {k : Kind} {v : List Char} (h : Valid extended k v) :
    Even ((k.spell v).count '"') := by
  cases h with
  | number _ hv => simp [Kind.spell, count_quote_eq_zero rfl hv]
  | hex hv => simp [Kind.spell, count_quote_eq_zero rfl hv]
  | bin _ hv => simp [Kind.spell, count_quote_eq_zero rfl hv]
  | string hv => simp [Kind.spell, List.count_eq_zero_of_not_mem hv]
  | @ident c v hc hv =>
      have hquote : c ≠ '"' := by rintro rfl; cases hc
      simp [Kind.spell, count_quote_eq_zero rfl hv, hquote]
  | operator hop => simp [spell_operator hop, operators_noQuote _ hop]
  | unknown _ hquote => simp [Kind.spell, hquote]

theorem lexeme?_eq_none {c : Char} {cs : List Char} (h : lexeme? extended c cs = none) :
    c = '"' ∧ '"' ∉ cs := by
  unfold lexeme? at h
  split at h
  · rename_i hc
    refine ⟨by simpa using hc, ?_⟩
    simpa [stringLexeme?] using h
  · split at h
    · cases h
    · split at h <;> cases h

theorem lexeme?_unclosed {cs : List Char} (h : '"' ∉ cs) : lexeme? extended '"' cs = none := by
  simp [lexeme?, stringLexeme?, h]

/-! ## Texts without all of their tokens -/

/-- Lexemes and blanks of the text at an offset come to a quote that is not closed, which stands at
the place. -/
inductive Breaks (extended : Bool) : Nat → List Char → Nat → Prop
  | quote {pos cs} : '"' ∉ cs → Breaks extended pos ('"' :: cs) pos
  | blank {pos c cs p} :
      isBlank c = true → Breaks extended (pos + 1) cs p → Breaks extended pos (c :: cs) p
  | token {pos c cs k v tail p} :
      isBlank c = false → lexeme? extended c cs = some (k, v) → c :: cs = k.spell v ++ tail →
      Breaks extended (pos + (k.spell v).length) tail p → Breaks extended pos (c :: cs) p

theorem scan_of_breaks {pos p : Nat} {cs : List Char} (h : Breaks extended pos cs p) :
    scan extended 0 pos cs = .error ⟨p⟩ := by
  induction h with
  | quote hcs =>
      rw [scan, lexeme?_unclosed hcs]
      rfl
  | blank hblank _ ih => rw [scan, if_pos hblank, ih]
  | token hblank hlex hcs _ ih =>
      rw [scan_lexeme hblank hlex hcs, ih]
      rfl

/-- A text has its tokens, or it comes to a quote that is not closed. -/
theorem cuts_or_breaks (extended : Bool) (pos : Nat) (cs : List Char) :
    (∃ ts, Cuts extended pos cs ts) ∨ ∃ p, Breaks extended pos cs p := by
  match cs with
  | [] => exact .inl ⟨[], .done⟩
  | c :: cs =>
      cases hblank : isBlank c with
      | true =>
          rcases cuts_or_breaks extended (pos + 1) cs with ⟨ts, hts⟩ | ⟨p, hp⟩
          · exact .inl ⟨ts, .blank hblank hts⟩
          · exact .inr ⟨p, .blank hblank hp⟩
      | false =>
          cases hlex : lexeme? extended c cs with
          | none =>
              obtain ⟨rfl, hcs⟩ := lexeme?_eq_none hlex
              exact .inr ⟨pos, .quote hcs⟩
          | some l =>
              obtain ⟨k, v⟩ := l
              obtain ⟨hvalid, tail, htail⟩ := lexeme?_valid hblank hlex
              have hshorter : tail.length < (c :: cs).length := by
                have hne := List.length_pos_iff.mpr hvalid.spell_ne_nil
                rw [htail, List.length_append]
                omega
              rcases cuts_or_breaks extended (pos + (k.spell v).length) tail with ⟨ts, hts⟩ | ⟨p, hp⟩
              · exact .inl ⟨_, .token hblank hlex htail hts⟩
              · exact .inr ⟨p, .token hblank hlex htail hp⟩
termination_by cs.length
decreasing_by
  · exact hshorter
  · exact Nat.lt_succ_self _

/-! ## Counting quotes -/

theorem count_quote_blank {c : Char} (hc : isBlank c = true) (cs : List Char) :
    (c :: cs).count '"' = cs.count '"' := by
  have hquote : c ≠ '"' := by rintro rfl; cases hc
  simp [hquote]

theorem Cuts.even_quotes {pos : Nat} {cs : List Char} {ts : List Token}
    (h : Cuts extended pos cs ts) : Even (cs.count '"') := by
  induction h with
  | done => simp
  | blank hblank _ ih => rwa [count_quote_blank hblank]
  | token hblank hlex hcs _ ih =>
      rw [hcs, List.count_append]
      exact (lexeme?_valid hblank hlex).1.even_quotes.add ih

theorem Breaks.odd_quotes {pos p : Nat} {cs : List Char} (h : Breaks extended pos cs p) :
    Odd (cs.count '"') := by
  induction h with
  | quote hcs => simp [List.count_eq_zero_of_not_mem hcs]
  | blank hblank _ ih => rwa [count_quote_blank hblank]
  | token hblank hlex hcs _ ih =>
      rw [hcs, List.count_append]
      exact (lexeme?_valid hblank hlex).1.even_quotes.add_odd ih

/-- The last quote of a text stands at the place. -/
def LastQuote (cs : List Char) (i : Nat) : Prop :=
  cs[i]? = some '"' ∧ ∀ j, i < j → cs[j]? ≠ some '"'

theorem LastQuote.append_left {cs : List Char} {i : Nat} (w : List Char) (h : LastQuote cs i) :
    LastQuote (w ++ cs) (w.length + i) := by
  obtain ⟨hquote, hlater⟩ := h
  constructor
  · simpa [List.getElem?_append_right] using hquote
  · intro j hj
    rw [List.getElem?_append_right (by omega)]
    exact hlater (j - w.length) (by omega)

theorem Breaks.lastQuote {pos p : Nat} {cs : List Char} (h : Breaks extended pos cs p) :
    ∃ i, p = pos + i ∧ LastQuote cs i := by
  induction h with
  | @quote pos cs hcs =>
      refine ⟨0, rfl, rfl, ?_⟩
      intro j hj hquote
      obtain ⟨j, rfl⟩ := Nat.exists_eq_succ_of_ne_zero (Nat.ne_of_gt hj)
      exact hcs (List.mem_of_getElem? hquote)
  | @blank pos c cs p _ _ ih =>
      obtain ⟨i, rfl, hi⟩ := ih
      exact ⟨1 + i, Nat.add_assoc .., hi.append_left [c]⟩
  | @token pos c cs k v tail p _ _ hcs _ ih =>
      obtain ⟨i, rfl, hi⟩ := ih
      rw [hcs]
      exact ⟨(k.spell v).length + i, Nat.add_assoc .., hi.append_left (k.spell v)⟩

theorem cuts_of_even_quotes (extended : Bool) {cs : List Char} (h : Even (cs.count '"'))
    (pos : Nat) : ∃ ts, Cuts extended pos cs ts := by
  rcases cuts_or_breaks extended pos cs with hcut | ⟨p, hp⟩
  · exact hcut
  · exact absurd h (Nat.not_even_iff_odd.mpr hp.odd_quotes)

end Token

/-! ## Sources -/

open Token

/-- A source with an odd number of quotes is refused, and the last of its quotes is blamed. Every
other source has its tokens. -/
theorem tokenize_quotes (settings : Settings) (source : String) :
    ((∃ fault, (tokenize settings source).result = .error fault) ↔
      Odd (source.toList.count '"')) ∧
    ((∃ tokens, (tokenize settings source).result = .ok tokens) ↔
      Even (source.toList.count '"')) ∧
    ∀ fault, (tokenize settings source).result = .error fault →
      ∃ i, LastQuote source.toList i ∧
        fault = .diagnostic (.lexical Unclosed.message source i) := by
  rcases cuts_or_breaks settings.extended 0 source.toList with ⟨ts, hts⟩ | ⟨p, hp⟩
  · have hok := tokenize_of_cuts hts
    have heven := hts.even_quotes
    simp [hok, heven]
  · have herror := tokenize_eq_error.mpr ⟨⟨p⟩, scan_of_breaks hp, rfl⟩
    have hodd := hp.odd_quotes
    obtain ⟨i, hi, hlast⟩ := hp.lastQuote
    rw [Nat.zero_add] at hi
    subst hi
    refine ⟨by simp [herror, hodd], by simp [herror, hodd], ?_⟩
    intro fault hfault
    cases herror.symm.trans hfault
    exact ⟨p, hlast, rfl⟩

/-- Of three quotes the last one is blamed: the string before it is closed, whatever it holds. -/
theorem tokenize_quotes_of_three :
    (tokenize {} "f(\" 1 +\"0x\"").result =
      .error (.diagnostic (.lexical Unclosed.message "f(\" 1 +\"0x\"" 10)) ∧
    Odd (("f(\" 1 +\"0x\"" : String).toList.count '"') ∧
    LastQuote ("f(\" 1 +\"0x\"" : String).toList 10 := by
  have h : (tokenize {} "f(\" 1 +\"0x\"").result =
      .error (.diagnostic (.lexical Unclosed.message "f(\" 1 +\"0x\"" 10)) := rfl
  obtain ⟨hodd, _, hlast⟩ := tokenize_quotes {} "f(\" 1 +\"0x\""
  obtain ⟨i, hi, hfault⟩ := hlast _ h
  cases hfault
  exact ⟨h, hodd.mp ⟨_, h⟩, hi⟩

end DebugExpr
