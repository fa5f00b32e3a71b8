import Mathlib.Data.List.Find
import DebugExpr.Proofs.Scanning

/-!
# Texts side by side

A text that is cut into tokens is read as the same lexemes wherever it stands, as long as the text
after it goes on with no lexeme. The scan of both texts finds the tokens of the first one in their
places.
-/

namespace DebugExpr.Token

open Text

variable {extended : Bool}

/-! ## One lexeme -/

theorem takeWhile_append_ends {p : Char → Bool} {cs rest : List Char}
    (hrest : ∀ c ∈ rest.head?, p c = false) : (cs ++ rest).takeWhile p = cs.takeWhile p := by
  have hnone : rest.takeWhile p = [] := by
    simpa using takeWhile_spelled (v := []) (by simp) hrest
  rw [List.takeWhile_append]
  split
  · rename_i hall
    have hself := (List.takeWhile_prefix (l := cs) p).eq_of_length hall
    rw [hnone, List.append_nil, hself]
  · rfl

theorem stringLexeme?_append {cs : List Char} {l : Lexeme} (h : stringLexeme? cs = some l)
    (rest : List Char) : stringLexeme? (cs ++ rest) = some l := by
  unfold stringLexeme? at h ⊢
  split at h
  · rename_i hquote
    -- The value ends at a quote of the text itself.
    obtain ⟨tail, htail⟩ := closed_split (List.contains_iff_mem.mp hquote)
    have hstop : ∀ c ∈ ('"' :: (tail ++ rest)).head?, (c != '"') = false := by simp
    have hsame : (cs ++ rest).takeWhile (· != '"') = cs.takeWhile (· != '"') := by
      rw [htail, List.append_assoc, List.cons_append, takeWhile_append_ends hstop,
        takeWhile_append_ends (by simp)]
    rw [if_pos (by simp [List.contains_iff_mem.mp hquote]), hsame, h]
  · cases h

theorem numberLexeme_append (extended : Bool) (c : Char) (cs : List Char) {rest : List Char}
    (hrest : ∀ d ∈ rest.head?, isIdentRest d = false) :
    numberLexeme extended c (cs ++ rest) = numberLexeme extended c cs := by
  have htake : ∀ {p : Char → Bool} (cs : List Char), (∀ d, p d = true → isIdentRest d = true) →
      (cs ++ rest).takeWhile p = cs.takeWhile p := fun _ hp =>
    takeWhile_append_ends fun d hd => eq_false_of_imp (hp d) (hrest d hd)
  have hdecimal := htake (p := isDecimal) cs fun _ => isIdentRest_of_isDecimal
  have hmark : ∀ {d digits}, isIdentRest d = true → cs ++ rest = d :: digits →
      ∃ ds, cs = d :: ds := by
    intro d digits hd heq
    cases cs with
    | nil =>
        have hno := hrest d (by rw [← List.nil_append rest, heq]; rfl)
        rw [hd] at hno
        cases hno
    | cons e ds => exact ⟨ds, congrArg (· :: ds) (List.cons.inj heq).1⟩
  unfold numberLexeme
  split
  · rename_i digits heq
    obtain ⟨ds, rfl⟩ := hmark rfl heq
    rw [List.cons_append] at heq
    obtain rfl := (List.cons.inj heq).2
    simp only [htake ds fun _ => isIdentRest_of_isHexadecimal]
  · rename_i digits heq
    obtain ⟨ds, rfl⟩ := hmark rfl heq
    rw [List.cons_append] at heq
    obtain rfl := (List.cons.inj heq).2
    simp only [hdecimal, htake ds fun _ => isIdentRest_of_isDecimal ∘ isDecimal_of_isBinary]
  · rename_i hhex hbin
    rw [hdecimal]
    split
    · exact absurd rfl (hhex _ rfl)
    · exact absurd rfl (hbin _ rfl)
    · rfl

/-- Every character of an operator but the first goes on with an operator. -/
theorem goesOn_of_mem_tail {op : List Char × Kind} {c : Char} (hop : op ∈ Kind.operators)
    (hc : c ∈ op.1.tail) : goesOn .unknown c = true := by
  have hall : (Kind.operators.all fun op => op.1.tail.all (goesOn .unknown)) = true := rfl
  exact List.all_eq_true.mp (List.all_eq_true.mp hall op hop) c hc

theorem operatorLexeme?_append (c : Char) (cs : List Char) {rest : List Char}
    (hrest : Ends .unknown rest) :
    operatorLexeme? (c :: cs ++ rest) = operatorLexeme? (c :: cs) := by
  have hfits : ∀ op ∈ Kind.operators,
      op.1.isPrefixOf (c :: cs ++ rest) = op.1.isPrefixOf (c :: cs) := by
    intro op hop
    rw [Bool.eq_iff_iff, List.isPrefixOf_iff_prefix, List.isPrefixOf_iff_prefix]
    have hself := List.prefix_append (c :: cs) rest
    constructor
    · intro hlong
      by_cases hlen : op.1.length ≤ (c :: cs).length
      · exact List.prefix_of_prefix_length_le hlong hself hlen
      · -- A longer operator would go on with the first character of the rest.
        obtain ⟨more, hmore⟩ := List.prefix_of_prefix_length_le hself hlong (by omega)
        rw [← hmore, List.prefix_append_right_inj] at hlong
        cases more with
        | nil => exact absurd (Nat.le_of_eq (by rw [← hmore, List.append_nil])) hlen
        | cons d more =>
            obtain ⟨tail, rfl⟩ := hlong
            have hgoes := goesOn_of_mem_tail hop (c := d) (by simp [← hmore])
            rw [hrest d rfl] at hgoes
            cases hgoes
    · exact fun hshort => hshort.trans hself
  unfold operatorLexeme?
  rw [List.find?_congr hfits]

theorem lexeme?_append {c : Char} {cs rest : List Char} {l : Lexeme}
    (h : lexeme? extended c cs = some l) (hrest : ∀ k, Ends k rest) :
    lexeme? extended c (cs ++ rest) = some l := by
  unfold lexeme? at h ⊢
  split at h
  · rename_i hquote
    rw [if_pos hquote]
    exact stringLexeme?_append h rest
  · rename_i hquote
    rw [if_neg hquote]
    split at h
    · rename_i hdecimal
      rw [if_pos hdecimal, numberLexeme_append extended c cs (hrest .ident), h]
    · rename_i hdecimal
      rw [if_neg hdecimal]
      split at h
      · rename_i hident
        rw [if_pos hident, takeWhile_append_ends (p := isIdentRest) (hrest .ident), h]
      · rename_i hident
        rw [if_neg hident, ← List.cons_append, operatorLexeme?_append c cs (hrest .unknown), h]

/-! ## All lexemes -/

/-- The lexemes of a text are read from it in every place where lexemes end after it. -/
theorem Cuts.reads {pos : Nat} {cs : List Char} {ts : List Token} (h : Cuts extended pos cs ts)
    {rest : List Char} (hrest : ∀ k, Ends k rest) :
    Reads extended cs (ts.map lexeme) rest := by
  induction h with
  | done => exact reads_nil rest
  | blank hblank _ ih => exact (reads_blank hblank _).append ih
  | @token pos c cs k v tail ts hblank hlex hcs _ ih =>
      have hone : ∀ start, lexeme ⟨k, String.ofList v, start⟩ = (k, v) := by simp [lexeme]
      have hfirst : Reads extended (k.spell v) [(k, v)] (tail ++ rest) := by
        intro start us hus
        refine ⟨[⟨k, String.ofList v, start⟩], by rw [List.map_singleton, hone], ?_⟩
        rw [← List.append_assoc, ← hcs]
        have hrest' : (c :: cs) ++ rest = k.spell v ++ (tail ++ rest) := by
          rw [← List.append_assoc, ← hcs]
        exact .token hblank (lexeme?_append hlex hrest) hrest' hus
      rw [hcs, List.map_cons, hone]
      exact hfirst.append ih

/-- The scan of a text with a text after it finds the tokens of the first one, and goes on where the
second one begins. -/
theorem Cuts.scan_append {pos : Nat} {cs : List Char} {ts : List Token}
    (h : Cuts extended pos cs ts) {rest : List Char} (hrest : ∀ k, Ends k rest) :
    scan extended 0 pos (cs ++ rest) =
      (scan extended 0 (pos + cs.length) rest).map (ts ++ ·) := by
  induction h with
  | @done pos => cases hscan : scan extended 0 pos rest <;> simp [hscan, Except.map]
  | @blank pos c cs ts hblank _ ih =>
      rw [List.cons_append, scan, if_pos hblank, ih, List.length_cons, Nat.add_assoc,
        Nat.add_comm 1]
  | @token pos c cs k v tail ts hblank hlex hcs _ ih =>
      have hcs' : c :: (cs ++ rest) = k.spell v ++ (tail ++ rest) := by
        rw [← List.cons_append, hcs, List.append_assoc]
      have hstop : pos + (k.spell v).length + tail.length = pos + (c :: cs).length := by
        rw [hcs, List.length_append, Nat.add_assoc]
      rw [List.cons_append, scan_lexeme hblank (lexeme?_append hlex hrest) hcs', ih, hstop]
      cases scan extended 0 (pos + (c :: cs).length) rest <;> rfl

end DebugExpr.Token
