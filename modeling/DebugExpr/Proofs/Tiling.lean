import DebugExpr.Analysis
import DebugExpr.Proofs.Scanning

/-!
# The tokens tile the source

Every token stands in the source where its position says, spelled out. The tokens follow one
another without overlap, and nothing but blanks lies outside of them.
-/

namespace DebugExpr

namespace Token

open Text

variable {extended : Bool}

/-- The offset just after the spelling. -/
def finish (t : Token) : Int :=
  t.pos + t.spelling.length

/-- The spelling lies over the character at an offset. -/
def Covers (t : Token) (i : Nat) : Prop :=
  t.pos ≤ i ∧ i < t.finish

/-! ## Where a token is read -/

/-- The token is read in a text that stands at an offset: its position is that of a place in the
text, and it is the lexeme at the front of what follows there. -/
def ReadIn (extended : Bool) (start : Nat) (cs : List Char) (t : Token) : Prop :=
  ∃ n c tail, t.pos = ↑(start + n) ∧ cs.drop n = c :: tail ∧ isBlank c = false ∧
    lexeme? extended c tail = some (t.kind, t.value.toList)

theorem ReadIn.append_left {start : Nat} {cs : List Char} {t : Token} (w : List Char)
    (h : ReadIn extended (start + w.length) cs t) : ReadIn extended start (w ++ cs) t := by
  obtain ⟨n, c, tail, hpos, hdrop, hc⟩ := h
  refine ⟨w.length + n, c, tail, ?_, ?_, hc⟩
  · rw [hpos, Nat.add_assoc]
  · rw [List.drop_length_add_append, hdrop]

theorem ReadIn.le_pos {start : Nat} {cs : List Char} {t : Token} (h : ReadIn extended start cs t) :
    ↑start ≤ t.pos := by
  obtain ⟨n, _, _, hpos, _⟩ := h
  omega

theorem ReadIn.pos_le {start : Nat} {cs : List Char} {t : Token} (h : ReadIn extended start cs t) :
    t.pos ≤ ↑(start + cs.length) := by
  obtain ⟨n, c, tail, hpos, hdrop, _⟩ := h
  have hlen := congrArg List.length hdrop
  simp only [List.length_drop, List.length_cons] at hlen
  omega

theorem Cuts.readIn {start : Nat} {cs : List Char} {ts : List Token}
    (h : Cuts extended start cs ts) : ∀ t ∈ ts, ReadIn extended start cs t := by
  induction h with
  | done => exact fun t ht => absurd ht List.not_mem_nil
  | @blank _ c _ _ _ _ ih => exact fun t ht => (ih t ht).append_left [c]
  | @token pos c cs k v tail ts hblank hlex hcs _ ih =>
      intro t ht
      rcases List.mem_cons.mp ht with rfl | ht
      · exact ⟨0, c, cs, rfl, rfl, hblank, by simpa using hlex⟩
      · rw [hcs]
        exact (ih t ht).append_left (k.spell v)

/-! ## Tilings -/

/-- The tokens tile a text that stands at an offset. -/
structure Tiles (start : Nat) (cs : List Char) (ts : List Token) : Prop where
  /-- Every token has a spelling, which the text has at the position of the token. -/
  spelled : ∀ t ∈ ts, t.spelling ≠ [] ∧ ∃ n : Nat, t.pos = ↑(start + n) ∧ t.spelling <+: cs.drop n
  /-- Every token ends before the later ones begin. -/
  ordered : ts.Pairwise fun t u => t.finish ≤ u.pos
  /-- What no token covers is blank. -/
  blank : ∀ i c, cs[i]? = some c → (∀ t ∈ ts, ¬ t.Covers (start + i)) → c ∈ blanks

theorem ReadIn.spelled {start : Nat} {cs : List Char} {t : Token} (h : ReadIn extended start cs t) :
    t.spelling ≠ [] ∧ ∃ n : Nat, t.pos = ↑(start + n) ∧ t.spelling <+: cs.drop n := by
  obtain ⟨n, c, tail, hpos, hdrop, hblank, hlex⟩ := h
  obtain ⟨hvalid, rest, hrest⟩ := lexeme?_valid hblank hlex
  refine ⟨hvalid.spell_ne_nil, n, hpos, rest, ?_⟩
  rw [hdrop, hrest]
  rfl

theorem Cuts.ordered {start : Nat} {cs : List Char} {ts : List Token}
    (h : Cuts extended start cs ts) : ts.Pairwise fun t u => t.finish ≤ u.pos := by
  induction h with
  | done => exact .nil
  | blank _ _ ih => exact ih
  | @token pos c cs k v tail ts _ _ _ hcut ih =>
      refine List.pairwise_cons.mpr ⟨fun u hu => ?_, ih⟩
      have hle := (hcut.readIn u hu).le_pos
      simpa [finish, spelling] using hle

theorem Cuts.blank_of_not_covers {start : Nat} {cs : List Char} {ts : List Token}
    (h : Cuts extended start cs ts) {i : Nat} {c : Char} (hi : cs[i]? = some c)
    (hfree : ∀ t ∈ ts, ¬ t.Covers (start + i)) : c ∈ blanks := by
  induction h generalizing i with
  | done => cases hi
  | @blank pos d cs ts hblank _ ih =>
      cases i with
      | zero =>
          cases hi
          exact mem_blanks_iff.mpr hblank
      | succ i =>
          refine ih hi fun t ht => ?_
          rw [Nat.add_assoc, Nat.add_comm 1]
          exact hfree t ht
  | @token pos d cs k v tail ts _ _ hcs _ ih =>
      -- The place is outside of the first token, so it is in what follows its spelling.
      have hhead := hfree _ List.mem_cons_self
      simp only [Covers, finish, spelling, String.toList_ofList] at hhead
      have hle : (k.spell v).length ≤ i := by omega
      rw [hcs, List.getElem?_append_right hle] at hi
      refine ih hi fun t ht => ?_
      rw [Nat.add_assoc, Nat.add_sub_cancel' hle]
      exact hfree t (List.mem_cons_of_mem _ ht)

theorem Cuts.tiles {start : Nat} {cs : List Char} {ts : List Token}
    (h : Cuts extended start cs ts) : Tiles start cs ts where
  spelled t ht := (h.readIn t ht).spelled
  ordered := h.ordered
  blank _ _ hi hfree := h.blank_of_not_covers hi hfree

end Token

/-! ## Sources -/

open Token

variable {settings : Settings} {source : String} {tokens : List Token}

theorem tokenize_eq_ok :
    (tokenize settings source).result = .ok tokens ↔ ofSource settings source = .ok tokens := by
  unfold tokenize
  split
  · rename_i ts hts
    rw [hts]
    simp
  · rename_i u hu
    rw [hu]
    simp

theorem tokenize_eq_error {fault : Fault} :
    (tokenize settings source).result = .error fault ↔
      ∃ u, ofSource settings source = .error u ∧ fault = .diagnostic (.ofUnclosed source u) := by
  unfold tokenize
  split
  · rename_i ts hts
    simp [hts]
  · rename_i u hu
    simp [hu, eq_comm]

theorem tokenize_of_cuts {ts : List Token} (h : Cuts settings.extended 0 source.toList ts) :
    (tokenize settings source).result = .ok (ts ++ [endMark source.length]) := by
  rw [tokenize_eq_ok, ofSource, scan_of_cuts h, Nat.zero_add, String.length_toList]

theorem cuts_of_tokenize (h : (tokenize settings source).result = .ok tokens) :
    ∃ ts, tokens = ts ++ [endMark source.length] ∧
      Cuts settings.extended 0 source.toList ts := by
  obtain ⟨ts, rfl, hcut⟩ := scan_eq_ok_iff.mp (tokenize_eq_ok.mp h)
  exact ⟨ts, by rw [Nat.zero_add, String.length_toList], hcut⟩

/-- The tokens of a source tile it, and one end mark stands after them, at its end. -/
theorem tiles_of_tokenize (h : (tokenize settings source).result = .ok tokens) :
    ∃ ts, tokens = ts ++ [endMark source.length] ∧ (∀ t ∈ ts, t.kind ≠ .eof) ∧
      Tiles 0 source.toList ts := by
  obtain ⟨ts, htokens, hcut⟩ := cuts_of_tokenize h
  exact ⟨ts, htokens, fun t ht => (hcut.valid t ht).ne_eof, hcut.tiles⟩

/-- Marks and quotes are no part of the values, and yet the tokens tile the source. -/
theorem tiles_of_marks :
    (tokenize { extended := true } "0b11++=\t\" \"?").result =
      .ok [⟨.bin, "11", 0⟩, ⟨.concatAssign, "++=", 4⟩, ⟨.string, " ", 8⟩, ⟨.unknown, "?", 11⟩,
        endMark 12] ∧
    ∃ ts, [⟨.bin, "11", 0⟩, ⟨.concatAssign, "++=", 4⟩, ⟨.string, " ", 8⟩, ⟨.unknown, "?", 11⟩,
        endMark 12] = ts ++ [endMark ("0b11++=\t\" \"?" : String).length] ∧
      (∀ t ∈ ts, t.kind ≠ .eof) ∧ Tiles 0 ("0b11++=\t\" \"?" : String).toList ts := by
  have h : (tokenize { extended := true } "0b11++=\t\" \"?").result =
      .ok [⟨.bin, "11", 0⟩, ⟨.concatAssign, "++=", 4⟩, ⟨.string, " ", 8⟩, ⟨.unknown, "?", 11⟩,
        endMark 12] := rfl
  exact ⟨h, tiles_of_tokenize h⟩

end DebugExpr
