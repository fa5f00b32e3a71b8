import DebugExpr.Proofs.Lexing

/-!
# The tokens of a text

The scanner cuts a text into lexemes with blanks between them, each lexeme at its offset, and every
such cut is what the scanner returns.
-/

namespace DebugExpr.Token

open Text

variable {extended : Bool}

/-- The text at an offset is cut into tokens, with blanks between them. -/
inductive Cuts (extended : Bool) : Nat → List Char → List Token → Prop
  | done {pos} : Cuts extended pos [] []
  | blank {pos c cs ts} :
      isBlank c = true → Cuts extended (pos + 1) cs ts → Cuts extended pos (c :: cs) ts
  | token {pos c cs k v tail ts} :
      isBlank c = false → lexeme? extended c cs = some (k, v) → c :: cs = k.spell v ++ tail →
      Cuts extended (pos + (k.spell v).length) tail ts →
      Cuts extended pos (c :: cs) (⟨k, String.ofList v, pos⟩ :: ts)

theorem Valid.spell_ne_nil {k : Kind} {v : List Char} (h : Valid extended k v) :
    k.spell v ≠ [] := by
  cases h with
  | number hne _ => exact hne
  | operator hop =>
      obtain ⟨c, cs, rfl, _⟩ := operator_cons hop
      rw [spell_operator hop]
      exact List.cons_ne_nil c cs
  | _ => exact List.cons_ne_nil _ _

theorem spell_eq_cons {c : Char} {cs tail v : List Char} {k : Kind} (h : Valid extended k v)
    (hcs : c :: cs = k.spell v ++ tail) : ∃ w, k.spell v = c :: w ∧ cs = w ++ tail := by
  obtain ⟨d, w, hw⟩ := List.exists_cons_of_ne_nil h.spell_ne_nil
  rw [hw] at hcs
  obtain ⟨rfl, htail⟩ := List.cons.inj hcs
  exact ⟨w, hw, htail⟩

theorem scan_inside (w cs : List Char) (pos : Nat) :
    scan extended w.length pos (w ++ cs) = scan extended 0 (pos + w.length) cs := by
  induction w generalizing pos with
  | nil => rfl
  | cons c w ih =>
      rw [List.cons_append, List.length_cons, scan, ih, Nat.add_right_comm, Nat.add_assoc]

/-- After a lexeme the scan goes on where its spelling ends. -/
theorem scan_lexeme {pos : Nat} {c : Char} {cs v tail : List Char} {k : Kind}
    (hblank : isBlank c = false) (hlex : lexeme? extended c cs = some (k, v))
    (hcs : c :: cs = k.spell v ++ tail) :
    scan extended 0 pos (c :: cs) =
      (scan extended 0 (pos + (k.spell v).length) tail).map (⟨k, String.ofList v, pos⟩ :: ·) := by
  obtain ⟨w, hw, rfl⟩ := spell_eq_cons (lexeme?_valid hblank hlex).1 hcs
  have hpos : pos + 1 + w.length = pos + (k.spell v).length := by
    rw [hw, List.length_cons, Nat.add_right_comm, Nat.add_assoc]
  rw [scan, if_neg (by simp [hblank]), hlex, ← hpos]
  simp only [hw, List.length_cons, Nat.add_sub_cancel, scan_inside]
  cases scan extended 0 (pos + 1 + w.length) tail <;> rfl

theorem scan_of_cuts {pos : Nat} {cs : List Char} {ts : List Token}
    (h : Cuts extended pos cs ts) :
    scan extended 0 pos cs = .ok (ts ++ [endMark ↑(pos + cs.length)]) := by
  induction h with
  | done => rfl
  | blank hblank _ ih =>
      rw [scan, if_pos hblank, ih, List.length_cons, Nat.add_right_comm, Nat.add_assoc]
  | @token pos c cs k v tail ts hblank hlex hcs _ ih =>
      have hstop : pos + (k.spell v).length + tail.length = pos + (c :: cs).length := by
        rw [hcs, List.length_append, Nat.add_assoc]
      rw [scan_lexeme hblank hlex hcs, ih, hstop]
      rfl

theorem cuts_of_scan {cs : List Char} {inside pos : Nat} {ts : List Token}
    (hinside : inside ≤ cs.length) (h : scan extended inside pos cs = .ok ts) :
    ∃ us, ts = us ++ [endMark ↑(pos + cs.length)] ∧
      Cuts extended (pos + inside) (cs.drop inside) us := by
  induction cs generalizing inside pos ts with
  | nil =>
      cases h
      exact ⟨[], rfl, by rw [List.drop_nil]; exact .done⟩
  | cons c cs ih =>
      have hstop : pos + 1 + cs.length = pos + (c :: cs).length := by
        rw [List.length_cons]
        omega
      cases inside with
      | succ inside =>
          rw [scan] at h
          obtain ⟨us, rfl, hus⟩ := ih (Nat.le_of_succ_le_succ hinside) h
          rw [Nat.add_right_comm, Nat.add_assoc] at hus
          exact ⟨us, by rw [hstop], hus⟩
      | zero =>
          rw [scan] at h
          split at h
          · rename_i hblank
            obtain ⟨us, rfl, hus⟩ := ih (Nat.zero_le _) h
            exact ⟨us, by rw [hstop], .blank hblank hus⟩
          · rename_i hblank
            rw [Bool.not_eq_true] at hblank
            split at h
            · cases h
            · rename_i k v hlex
              obtain ⟨hvalid, tail, hcs⟩ := lexeme?_valid hblank hlex
              obtain ⟨w, hw, rfl⟩ := spell_eq_cons hvalid hcs
              have hlen : (k.spell v).length = w.length + 1 := by rw [hw]; rfl
              rw [hlen, Nat.add_sub_cancel] at h
              cases hrest : scan extended w.length (pos + 1) (w ++ tail) with
              | error => rw [hrest] at h; cases h
              | ok us =>
                  rw [hrest] at h
                  cases h
                  obtain ⟨us, rfl, hus⟩ := ih (by simp) hrest
                  rw [List.drop_left, Nat.add_assoc, Nat.add_comm 1, ← hlen] at hus
                  exact ⟨_ :: us, by rw [hstop]; rfl, .token hblank hlex hcs hus⟩

/-- The tokens of a text are its one cut, with the end mark after them. -/
theorem scan_eq_ok_iff {pos : Nat} {cs : List Char} {ts : List Token} :
    scan extended 0 pos cs = .ok ts ↔
      ∃ us, ts = us ++ [endMark ↑(pos + cs.length)] ∧ Cuts extended pos cs us := by
  constructor
  · intro h
    exact cuts_of_scan (Nat.zero_le _) h
  · rintro ⟨us, rfl, h⟩
    exact scan_of_cuts h

/-! ## Spelled lexemes -/

def lexeme (t : Token) : Lexeme :=
  (t.kind, t.value.toList)

/-- Before the rest, the text is cut into tokens with these kinds and values. -/
def Reads (extended : Bool) (w : List Char) (ls : List Lexeme) (rest : List Char) : Prop :=
  ∀ pos us, Cuts extended (pos + w.length) rest us →
    ∃ ts, ts.map lexeme = ls ∧ Cuts extended pos (w ++ rest) (ts ++ us)

theorem reads_nil (rest : List Char) : Reads extended [] [] rest :=
  fun _ _ h => ⟨[], rfl, h⟩

theorem Reads.append {w w' rest : List Char} {ls ls' : List Lexeme}
    (h : Reads extended w ls (w' ++ rest)) (h' : Reads extended w' ls' rest) :
    Reads extended (w ++ w') (ls ++ ls') rest := by
  intro pos us hus
  rw [List.length_append, ← Nat.add_assoc] at hus
  obtain ⟨ts', hts', hcut'⟩ := h' _ us hus
  obtain ⟨ts, hts, hcut⟩ := h pos (ts' ++ us) hcut'
  refine ⟨ts ++ ts', by rw [List.map_append, hts, hts'], ?_⟩
  rw [List.append_assoc, List.append_assoc]
  exact hcut

theorem reads_blank {c : Char} (hc : isBlank c = true) (rest : List Char) :
    Reads extended [c] [] rest :=
  fun _ _ h => ⟨[], rfl, .blank hc h⟩

theorem Valid.reads {k : Kind} {v rest : List Char} (h : Valid extended k v)
    (hrest : Ends k rest) : Reads extended (k.spell v) [(k, v)] rest := by
  intro pos us hus
  obtain ⟨c, cs, hcs, hblank, hlex⟩ := h.readsBack hrest
  refine ⟨[⟨k, String.ofList v, pos⟩], by simp [lexeme], ?_⟩
  rw [hcs]
  exact .token hblank hlex hcs.symm hus

/-- A text that is read as lexemes has tokens with their kinds and values. -/
theorem Reads.scan_eq {cs : List Char} {ls : List Lexeme} (h : Reads extended cs ls []) :
    ∃ ts, scan extended 0 0 cs = .ok (ts ++ [endMark ↑cs.length]) ∧ ts.map lexeme = ls := by
  obtain ⟨ts, hts, hcut⟩ := h 0 [] .done
  rw [List.append_nil, List.append_nil] at hcut
  refine ⟨ts, ?_, hts⟩
  rw [scan_of_cuts hcut, Nat.zero_add]

theorem Cuts.valid {pos : Nat} {cs : List Char} {ts : List Token} (h : Cuts extended pos cs ts) :
    ∀ t ∈ ts, Valid extended t.kind t.value.toList := by
  induction h with
  | done => intro t ht; cases ht
  | blank _ _ ih => exact ih
  | token hblank hlex _ _ ih =>
      intro t ht
      rcases List.mem_cons.mp ht with rfl | ht
      · simpa using (lexeme?_valid hblank hlex).1
      · exact ih t ht

end DebugExpr.Token
