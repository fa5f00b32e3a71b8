import DebugExpr.Proofs.Tiling

/-!
# Spelled lexemes

Valid lexemes that are written out one after the other, with blanks between them, are read back:
the scanner returns them with the offsets at which they are written.
-/

namespace DebugExpr

namespace Token

open Text

/-- A lexeme as it is written: some blanks, and then its spelling. -/
structure Written where
  gap : List Char
  kind : Kind
  value : List Char

namespace Written

/-- The lexeme is valid, and nothing but blanks stands before it. -/
structure Ok (extended : Bool) (w : Written) : Prop where
  blank : ∀ c ∈ w.gap, c ∈ blanks
  valid : Valid extended w.kind w.value

def text (w : Written) : List Char :=
  w.gap ++ w.kind.spell w.value

/-- The lexemes one after the other. -/
def textOf (ws : List Written) : List Char :=
  ws.flatMap text

/-- The tokens of lexemes that are written from an offset on. A token stands where its spelling
begins, after the blanks. -/
def tokensFrom : Nat → List Written → List Token
  | _, [] => []
  | pos, w :: ws =>
    ⟨w.kind, String.ofList w.value, ↑(pos + w.gap.length)⟩ :: tokensFrom (pos + w.text.length) ws

end Written

variable {extended : Bool}

/-! ## Blanks -/

theorem goesOn_blank (k : Kind) {c : Char} (hc : c ∈ blanks) : goesOn k c = false := by
  have hall : blanks.all (fun c => Kind.all.all fun k => !goesOn k c) = true := rfl
  have hk := List.all_eq_true.mp (List.all_eq_true.mp hall c hc) k (Kind.mem_all k)
  simpa using hk

/-- No lexeme goes on with a text that begins with a blank or is empty. -/
theorem ends_of_blank (k : Kind) {rest : List Char} (h : ∀ c ∈ rest.head?, c ∈ blanks) :
    Ends k rest :=
  fun c hc => goesOn_blank k (h c hc)

theorem cuts_blanks {gap : List Char} (hgap : ∀ c ∈ gap, c ∈ blanks) {pos : Nat} {cs : List Char}
    {ts : List Token} (h : Cuts extended (pos + gap.length) cs ts) :
    Cuts extended pos (gap ++ cs) ts := by
  induction gap generalizing pos with
  | nil => exact h
  | cons c gap ih =>
      obtain ⟨hc, hgap⟩ := List.forall_mem_cons.mp hgap
      refine .blank (mem_blanks_iff.mp hc) (ih hgap ?_)
      rwa [List.length_cons, Nat.add_comm gap.length, ← Nat.add_assoc] at h

/-! ## Lexemes with blanks between them -/

/-- A valid lexeme is cut off the front of a text in which lexemes end after it. -/
theorem Valid.cuts {k : Kind} {v rest : List Char} (h : Valid extended k v) (hrest : Ends k rest)
    {pos : Nat} {ts : List Token} (hts : Cuts extended (pos + (k.spell v).length) rest ts) :
    Cuts extended pos (k.spell v ++ rest) (⟨k, String.ofList v, pos⟩ :: ts) := by
  obtain ⟨c, cs, hcs, hblank, hlex⟩ := h.readsBack hrest
  rw [hcs]
  exact .token hblank hlex hcs.symm hts

namespace Written

/-- Where blanks are written before the next lexeme, all lexemes end. -/
theorem blank_head {ws : List Written} {trail : List Char} (hok : ∀ w ∈ ws, w.Ok extended)
    (hgaps : ∀ w ∈ ws, w.gap ≠ []) (htrail : ∀ c ∈ trail, c ∈ blanks) :
    ∀ c ∈ (textOf ws ++ trail).head?, c ∈ blanks := by
  cases ws with
  | nil => exact fun c hc => htrail c (List.mem_of_head? hc)
  | cons w ws =>
      obtain ⟨d, gap, hgap⟩ := List.exists_cons_of_ne_nil (hgaps w List.mem_cons_self)
      intro c hc
      simp only [textOf, List.flatMap_cons, text, hgap, List.cons_append, List.head?_cons,
        Option.mem_some_iff] at hc
      subst hc
      exact (hok w List.mem_cons_self).blank d (by rw [hgap]; exact List.mem_cons_self)

theorem cuts {ws : List Written} {trail : List Char} (hok : ∀ w ∈ ws, w.Ok extended)
    (hgaps : ∀ w ∈ ws.tail, w.gap ≠ []) (htrail : ∀ c ∈ trail, c ∈ blanks) (pos : Nat) :
    Cuts extended pos (textOf ws ++ trail) (tokensFrom pos ws) := by
  induction ws generalizing pos with
  | nil =>
      have hend : Cuts extended (pos + trail.length) [] [] := .done
      have hcut := cuts_blanks htrail hend
      rwa [List.append_nil] at hcut
  | cons w ws ih =>
      obtain ⟨hw, hws⟩ := List.forall_mem_cons.mp hok
      have htail : ∀ w' ∈ ws.tail, w'.gap ≠ [] := fun w' hw' => hgaps w' (List.mem_of_mem_tail hw')
      have hends : Ends w.kind (textOf ws ++ trail) :=
        ends_of_blank w.kind (blank_head hws hgaps htrail)
      have hlen : pos + w.text.length =
          pos + w.gap.length + (w.kind.spell w.value).length := by
        rw [text, List.length_append, Nat.add_assoc]
      have hrest := ih hws htail (pos + w.text.length)
      rw [hlen] at hrest
      rw [textOf, List.flatMap_cons, text, List.append_assoc, List.append_assoc, tokensFrom, hlen]
      exact cuts_blanks hw.blank (hw.valid.cuts hends hrest)

end Written

end Token

/-! ## Sources -/

open Token Written

/-- Lexemes that are written out with blanks between them are the tokens of the text, each at the
offset of its spelling. Blanks may also stand before the first lexeme and after the last one. -/
theorem tokenize_written (settings : Settings) {ws : List Written} {trail : List Char}
    (hok : ∀ w ∈ ws, w.Ok settings.extended) (hgaps : ∀ w ∈ ws.tail, w.gap ≠ [])
    (htrail : ∀ c ∈ trail, c ∈ blanks) :
    (tokenize settings (String.ofList (textOf ws ++ trail))).result =
      .ok (tokensFrom 0 ws ++ [endMark (textOf ws ++ trail).length]) := by
  have hscan := scan_of_cuts (cuts hok hgaps htrail 0)
  rw [Nat.zero_add] at hscan
  rw [tokenize_eq_ok, ofSource, String.toList_ofList, hscan]

/-- A radix mark without digits, half an operator and a blank in quotes are read as they were
written. -/
theorem tokenize_written_marks :
    ∃ ws : List Written, (∀ w ∈ ws, w.Ok true) ∧ (∀ w ∈ ws.tail, w.gap ≠ []) ∧
      (∀ c ∈ [' '], c ∈ blanks) ∧
      textOf ws ++ [' '] = ("0 0b\n& \" \"\t++= " : String).toList ∧
      (tokenize { extended := true } "0 0b\n& \" \"\t++= ").result =
        .ok [⟨.number, "0", 0⟩, ⟨.bin, "", 2⟩, ⟨.unknown, "&", 5⟩, ⟨.string, " ", 7⟩,
          ⟨.concatAssign, "++=", 11⟩, endMark 15] := by
  have hzero : Ok true ⟨[], .number, ['0']⟩ :=
    ⟨by simp, .number (by simp) (by simp [Text.isDecimal])⟩
  have hbin : Ok true ⟨[' '], .bin, []⟩ := ⟨by simp [blanks], .bin rfl (by simp)⟩
  have hand : Ok true ⟨['\n'], .unknown, ['&']⟩ :=
    ⟨by simp [blanks], .unknown rfl (by simp) rfl (by simp [Kind.operators])⟩
  have hstring : Ok true ⟨[' '], .string, [' ']⟩ := ⟨by simp [blanks], .string (by simp)⟩
  have hassign : Ok true ⟨['\t'], .concatAssign, ['+', '+', '=']⟩ :=
    ⟨by simp [blanks], .operator (by simp [Kind.operators])⟩
  have hok := List.forall_mem_cons.mpr ⟨hzero, List.forall_mem_cons.mpr ⟨hbin,
    List.forall_mem_cons.mpr ⟨hand, List.forall_mem_cons.mpr ⟨hstring,
    List.forall_mem_singleton.mpr hassign⟩⟩⟩⟩
  have hblank : ∀ c ∈ [' '], c ∈ blanks := by simp [blanks]
  exact ⟨_, hok, by simp, hblank, rfl, tokenize_written { extended := true } hok (by simp) hblank⟩

end DebugExpr
