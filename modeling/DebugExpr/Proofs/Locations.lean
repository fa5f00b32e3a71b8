import Mathlib.Algebra.Ring.Nat
import DebugExpr.Location
import DebugExpr.Proofs.Lines

/-!
# Locations are exact

The line and the column of a location lead back to its place, and the caret of its snippet stands
below the character there. The line is one of the source wherever the place may lie, so that a
location can be shown unless its numbers or the spaces before the caret exceed the limits.
-/

namespace DebugExpr

namespace Text

/-! ## Texts by their lines -/

/-- Whole lines, each with its line feed. -/
def ended (ls : List (List Char)) : List Char :=
  ls.flatMap (· ++ ['\n'])

/-- Every text is some whole lines and the beginning of one more. -/
theorem exists_ended (cs : List Char) :
    ∃ above left, cs = ended above ++ left ∧ (∀ l ∈ above, '\n' ∉ l) ∧ '\n' ∉ left := by
  induction cs with
  | nil => exact ⟨[], [], rfl, by simp, by simp⟩
  | cons c cs ih =>
      obtain ⟨above, left, rfl, habove, hleft⟩ := ih
      by_cases hc : c = '\n'
      · subst hc
        exact ⟨[] :: above, left, rfl, by simpa using habove, hleft⟩
      · cases above with
        | nil => exact ⟨[], c :: left, rfl, by simp, by simp [hleft, Ne.symm hc]⟩
        | cons l above =>
            obtain ⟨hl, habove⟩ := List.forall_mem_cons.mp habove
            refine ⟨(c :: l) :: above, left, rfl, ?_, hleft⟩
            exact List.forall_mem_cons.mpr ⟨by simp [hl, Ne.symm hc], habove⟩

theorem lines_ended {above : List (List Char)} (h : ∀ l ∈ above, '\n' ∉ l) (cs : List Char) :
    lines (ended above ++ cs) = above ++ lines cs := by
  induction above with
  | nil => rfl
  | cons l above ih =>
      obtain ⟨hl, habove⟩ := List.forall_mem_cons.mp h
      have hcons : ended (l :: above) ++ cs = l ++ '\n' :: (ended above ++ cs) := by
        simp [ended]
      rw [hcons, lines_append_feed, lines_of_noFeed hl, ih habove]
      rfl

theorem length_ended (above : List (List Char)) :
    (ended above).length = (above.map fun l => l.length + 1).sum := by
  simp [ended, List.length_flatMap]

theorem count_ended {above : List (List Char)} (h : ∀ l ∈ above, '\n' ∉ l) :
    (ended above).count '\n' = above.length := by
  induction above with
  | nil => rfl
  | cons l above ih =>
      obtain ⟨hl, habove⟩ := List.forall_mem_cons.mp h
      have hcons : ended (l :: above) = l ++ '\n' :: ended above := by simp [ended]
      simp [hcons, List.count_eq_zero_of_not_mem hl, ih habove]

/-- The run of characters at the end of a text that are no line feeds is the line begun there. -/
theorem takeWhile_reverse_ended (above : List (List Char)) {left : List Char}
    (hleft : '\n' ∉ left) :
    (ended above ++ left).reverse.takeWhile (· != '\n') = left.reverse := by
  have hrun : ∀ c ∈ left.reverse, (c != '\n') = true := by
    intro c hc
    have : c ≠ '\n' := by
      rintro rfl
      exact hleft (List.mem_reverse.mp hc)
    simpa using this
  rw [List.reverse_append, List.takeWhile_append_of_pos hrun]
  have hstop : (ended above).reverse.takeWhile (· != '\n') = [] := by
    rcases List.eq_nil_or_concat above with rfl | ⟨above, l, rfl⟩
    · rfl
    · simp [ended]
  rw [hstop, List.append_nil]

end Text

namespace Location

open Text

/-! ## Where a location lies -/

/-- A location cuts its source in two: before it stand whole lines and the beginning of its own
line, and after it the rest of that line and the lines below. -/
structure Splits (l : Location) (above : List (List Char)) (left right : List Char)
    (below : List (List Char)) : Prop where
  before_eq : l.before = ended above ++ left
  rest_eq : lines (l.source.toList.drop l.before.length) = right :: below
  noFeed_above : ∀ text ∈ above, '\n' ∉ text
  noFeed_left : '\n' ∉ left

theorem before_append (l : Location) :
    l.before ++ l.source.toList.drop l.before.length = l.source.toList :=
  List.prefix_iff_eq_append.mp (List.take_prefix _ _)

theorem exists_splits (l : Location) : ∃ above left right below, l.Splits above left right below := by
  obtain ⟨above, left, hbefore, habove, hleft⟩ := exists_ended l.before
  obtain ⟨right, below, hrest⟩ :=
    List.exists_cons_of_ne_nil (lines_ne_nil (l.source.toList.drop l.before.length))
  exact ⟨above, left, right, below, hbefore, hrest, habove, hleft⟩

namespace Splits

variable {l : Location} {above below : List (List Char)} {left right : List Char}

theorem lines_eq (h : l.Splits above left right below) :
    lines l.source.toList = above ++ (left ++ right) :: below := by
  rw [← l.before_append, h.before_eq, List.append_assoc, lines_ended h.noFeed_above, ← h.before_eq,
    lines_append_left h.noFeed_left h.rest_eq]

theorem line_eq (h : l.Splits above left right below) : l.line = above.length + 1 := by
  rw [line, h.before_eq, List.count_append, count_ended h.noFeed_above,
    List.count_eq_zero_of_not_mem h.noFeed_left, Nat.add_zero]

theorem lineStart_eq (h : l.Splits above left right below) :
    l.lineStart = (ended above).length := by
  rw [lineStart, h.before_eq, takeWhile_reverse_ended above h.noFeed_left, List.length_reverse,
    List.length_append, Nat.add_sub_cancel]

theorem getElem?_line (h : l.Splits above left right below) :
    (lines l.source.toList)[l.line - 1]? = some (left ++ right) := by
  rw [h.lines_eq, h.line_eq]
  simp

theorem lineText_eq (h : l.Splits above left right below) : l.lineText = left ++ right := by
  rw [lineText, List.getD_eq_getElem?_getD, h.getElem?_line]
  rfl

/-! ## Places in the source -/

theorem pos_eq (h : l.Splits above left right below) (hlow : 0 ≤ l.pos)
    (hhigh : l.pos ≤ l.source.length) : l.pos = (ended above).length + left.length := by
  have hlength : l.before.length = l.pos.toNat := by
    rw [before, if_neg (by omega), List.length_take, String.length_toList]
    omega
  rw [h.before_eq, List.length_append] at hlength
  omega

theorem toNat_pos (h : l.Splits above left right below) (hlow : 0 ≤ l.pos)
    (hhigh : l.pos ≤ l.source.length) : l.pos.toNat = l.before.length := by
  rw [h.pos_eq hlow hhigh, h.before_eq, List.length_append]
  omega

theorem column_eq (h : l.Splits above left right below) (hlow : 0 ≤ l.pos)
    (hhigh : l.pos ≤ l.source.length) : l.column = left.length + 1 := by
  have hpos := h.pos_eq hlow hhigh
  rw [column, h.lineStart_eq]
  omega

/-- The character at the place is on the line of the place, unless it ends that line. -/
theorem right_eq_cons (h : l.Splits above left right below) (hlow : 0 ≤ l.pos)
    (hhigh : l.pos ≤ l.source.length) {c : Char} (hc : l.source.toList[l.pos.toNat]? = some c)
    (hfeed : c ≠ '\n') : ∃ more, right = c :: more := by
  have hlength := h.toNat_pos hlow hhigh
  have hrest := h.rest_eq
  rw [hlength] at hc
  obtain ⟨hlt, hget⟩ := List.getElem?_eq_some_iff.mp hc
  rw [List.drop_eq_getElem_cons hlt, hget] at hrest
  obtain ⟨more, rest, hmore⟩ :=
    List.exists_cons_of_ne_nil (lines_ne_nil (l.source.toList.drop (l.before.length + 1)))
  rw [lines_cons hfeed hmore] at hrest
  exact ⟨more, (List.cons.inj hrest).1.symm⟩

end Splits

/-! ## The parts of the format -/

def heading (l : Location) : String :=
  l.origin ++ ":" ++ toString l.line ++ ":" ++ toString l.column

/-- The line of the source as the snippet shows it. -/
def row (l : Location) : List Char :=
  l.margin.toList ++ l.lineText

/-- A caret so many characters to the right. -/
def caretAfter (n : Nat) : List Char :=
  List.replicate n ' ' ++ ['^']

/-- The line of the snippet that holds the caret. -/
def marker (l : Location) : List Char :=
  caretAfter (l.margin.length + l.column - 1).toNat

theorem getElem?_lines (l : Location) :
    (lines l.source.toList)[l.line - 1]? = some l.lineText := by
  obtain ⟨above, left, right, below, h⟩ := l.exists_splits
  rw [h.getElem?_line, h.lineText_eq]

theorem noFeed_margin (l : Location) : '\n' ∉ l.margin.toList := by
  have hnumber : '\n' ∉ Nat.toDigits 10 l.line := by
    intro hmem
    have := Nat.isDigit_of_mem_toDigits (by decide) (by decide) hmem
    cases this
  simp [margin, Text.spaces, hnumber]

theorem noFeed_row (l : Location) : '\n' ∉ l.row := by
  have htext := noFeed_of_mem_lines (List.mem_of_getElem? l.getElem?_lines)
  simp [row, l.noFeed_margin, htext]

theorem toList_spaces_caret (n : Nat) : (Text.spaces n ++ "^").toList = caretAfter n := by
  simp [Text.spaces, caretAfter]

theorem noFeed_caretAfter (n : Nat) : '\n' ∉ caretAfter n := by
  simp [caretAfter]

theorem caret_mem_caretAfter (n : Nat) : '^' ∈ caretAfter n := by
  simp [caretAfter]

theorem idxOf_caretAfter (n : Nat) : (caretAfter n).idxOf '^' = n := by
  simp [caretAfter, List.idxOf_append]

theorem toList_format (l : Location) :
    l.format.toList = l.heading.toList ++ '\n' :: (l.row ++ '\n' :: l.marker) := by
  have hfeed : ("\n" : String).toList = ['\n'] := rfl
  rw [marker, ← toList_spaces_caret]
  simp only [format, snippet, heading, row, String.toList_append, String.toList_ofList,
    List.append_assoc, hfeed, List.cons_append, List.nil_append]

theorem lines_format (l : Location) :
    lines l.format.toList = lines l.heading.toList ++ [l.row, l.marker] := by
  have hmarker : '\n' ∉ l.marker := noFeed_caretAfter _
  rw [toList_format, lines_append_feed, lines_append_feed, lines_of_noFeed l.noFeed_row,
    lines_of_noFeed hmarker, List.singleton_append]

theorem Splits.idxOf_marker {l : Location} {above below : List (List Char)} {left right : List Char}
    (h : l.Splits above left right below) (hlow : 0 ≤ l.pos) (hhigh : l.pos ≤ l.source.length) :
    l.marker.idxOf '^' = l.margin.toList.length + left.length := by
  rw [marker, idxOf_caretAfter, h.column_eq hlow hhigh, String.length_toList]
  omega

/-- The caret stands below the character at the place. -/
theorem Splits.row_caret {l : Location} {above below : List (List Char)} {left right : List Char}
    (h : l.Splits above left right below) (hlow : 0 ≤ l.pos) (hhigh : l.pos ≤ l.source.length)
    {c : Char} (hc : l.source.toList[l.pos.toNat]? = some c) (hfeed : c ≠ '\n') :
    l.row[l.marker.idxOf '^']? = some c := by
  obtain ⟨more, rfl⟩ := h.right_eq_cons hlow hhigh hc hfeed
  rw [h.idxOf_marker hlow hhigh, row, h.lineText_eq]
  simp

/-! ## The limits -/

theorem snippet?_eq (l : Location) :
    l.snippet? =
      if isIndex (l.margin.length + l.column - 1) then .ok l.snippet else .error .tooWide := by
  simp only [snippet?, getElem?_lines, writeSpaces]
  split <;> rfl

/-- A location is shown as it is, unless a number has too many digits or the caret is too far away. -/
theorem format?_eq (l : Location) :
    l.format? =
      if maxDigits < digitCount l.line ∨ maxDigits < digitCount l.column then
        .error .tooManyDigits
      else if isIndex (l.margin.length + l.column - 1) then .ok l.format
      else .error .tooWide := by
  simp only [format?, snippet?_eq, writeInt]
  by_cases hline : maxDigits < digitCount l.line
  · simp only [hline, true_or, if_true]
    rfl
  by_cases hcolumn : maxDigits < digitCount l.column
  · simp only [hline, hcolumn, or_true, if_true, if_false]
    rfl
  · simp only [hline, hcolumn, or_self, if_false]
    split <;> rfl

theorem digitCount_le {n : Int} (h : n.natAbs < 2 ^ 63) : digitCount n ≤ maxDigits := by
  have hpow : 2 ^ 63 ≤ 10 ^ maxDigits :=
    calc 2 ^ 63 ≤ 10 ^ 63 := Nat.pow_le_pow_left (by decide) 63
      _ ≤ 10 ^ maxDigits := Nat.pow_le_pow_right (by decide) (by decide)
  exact (Nat.length_toDigits_le_iff (by decide) (by decide)).mpr (Nat.lt_of_lt_of_le h hpow)

theorem length_before_le (l : Location) : l.before.length ≤ l.source.length := by
  rw [← String.length_toList]
  exact List.length_take_le' _ _

theorem lineStart_le (l : Location) : l.lineStart ≤ l.source.length :=
  Nat.le_trans (Nat.sub_le _ _) l.length_before_le

theorem line_le_length (l : Location) : l.line ≤ l.source.length + 1 :=
  Nat.succ_le_succ (Nat.le_trans List.count_le_length l.length_before_le)

theorem length_margin (l : Location) : l.margin.length = max 4 (digitCount l.line) + 3 := by
  have hnumber : (toString l.line).length = digitCount l.line := by
    rw [← String.length_toList, Nat.toString_eq_repr, Nat.toList_repr]
    rfl
  simp only [margin, String.length_append, Text.spaces, String.length_ofList,
    List.length_replicate, hnumber]
  show 4 - digitCount l.line + digitCount l.line + 3 = _
  omega

/-- Every location can be shown that is not too far outside a source of any real length. -/
theorem format?_of_near {l : Location} (h : l.source.length + l.pos.natAbs < 2 ^ 62) :
    l.format? = .ok l.format := by
  have hstart := l.lineStart_le
  have hline := l.line_le_length
  have hlineDigits : digitCount l.line ≤ maxDigits := digitCount_le (by omega)
  have hcolumnDigits : digitCount l.column ≤ maxDigits := by
    apply digitCount_le
    rw [column]
    omega
  have hmargin : l.margin.length ≤ maxDigits + 3 := by
    have hmin : 4 ≤ maxDigits := by decide
    rw [length_margin]
    omega
  have hindex : isIndex (l.margin.length + l.column - 1) = true := by
    have hdigits : maxDigits = 4300 := rfl
    rw [isIndex, Bool.and_eq_true, decide_eq_true_eq, decide_eq_true_eq, column]
    omega
  rw [format?_eq, if_neg (by omega), if_pos hindex]

/-! ## From the line and the column to the place -/

theorem line_le (l : Location) : l.line ≤ (lines l.source.toList).length := by
  obtain ⟨above, left, right, below, h⟩ := l.exists_splits
  rw [h.line_eq, h.lines_eq, List.length_append, List.length_cons]
  omega

theorem column_bounds {l : Location} (hlow : 0 ≤ l.pos) (hhigh : l.pos ≤ l.source.length) :
    1 ≤ l.column ∧ l.column ≤ l.lineText.length + 1 := by
  obtain ⟨above, left, right, below, h⟩ := l.exists_splits
  rw [h.column_eq hlow hhigh, h.lineText_eq, List.length_append]
  omega

/-- As many characters stand before a place as the lines above it have, their line feeds counted,
and before its column. -/
theorem pos_eq_sum {l : Location} (hlow : 0 ≤ l.pos) (hhigh : l.pos ≤ l.source.length) :
    l.pos = ((((lines l.source.toList).take (l.line - 1)).map fun text =>
      text.length + 1).sum : Nat) + l.column - 1 := by
  obtain ⟨above, left, right, below, h⟩ := l.exists_splits
  have habove : (lines l.source.toList).take (l.line - 1) = above := by
    rw [h.lines_eq, h.line_eq]
    simp
  rw [habove, ← length_ended, h.column_eq hlow hhigh, h.pos_eq hlow hhigh]
  omega

end Location

/-- The line of a location is one of the source, so it is shown unless a number has too many digits
or the number of spaces before the caret is no index, which takes a place or a source beyond all
measure. Within the source the line and the column are those of the place and lead back to it, and
the caret stands below the character there. -/
theorem location_exact (l : Location) :
    (1 ≤ l.line ∧ l.line ≤ (Text.lines l.source.toList).length) ∧
    (l.format? =
      if Text.maxDigits < Text.digitCount l.line ∨ Text.maxDigits < Text.digitCount l.column then
        .error .tooManyDigits
      else if Text.isIndex (l.margin.length + l.column - 1) then .ok l.format
      else .error .tooWide) ∧
    (l.source.length + l.pos.natAbs < 2 ^ 62 → l.format? = .ok l.format) ∧
    (0 ≤ l.pos → l.pos ≤ l.source.length →
      1 ≤ l.column ∧ l.column ≤ l.lineText.length + 1 ∧
      (Text.lines l.source.toList)[l.line - 1]? = some l.lineText ∧
      l.pos = ((((Text.lines l.source.toList).take (l.line - 1)).map fun text =>
        text.length + 1).sum : Nat) + l.column - 1 ∧
      (∀ m : Location, m.source = l.source → 0 ≤ m.pos → m.pos ≤ m.source.length →
        m.pos ≠ l.pos → (m.line, m.column) ≠ (l.line, l.column)) ∧
      ∀ c, l.source.toList[l.pos.toNat]? = some c → c ≠ '\n' →
        ∃ row marker, Text.lines l.format.toList = Text.lines l.heading.toList ++ [row, marker] ∧
          '^' ∈ marker ∧ row[marker.idxOf '^']? = some c) := by
  refine ⟨⟨Nat.le_add_left 1 _, l.line_le⟩, l.format?_eq, Location.format?_of_near, ?_⟩
  intro hlow hhigh
  obtain ⟨hleft, hright⟩ := Location.column_bounds hlow hhigh
  have hpos := Location.pos_eq_sum hlow hhigh
  refine ⟨hleft, hright, l.getElem?_lines, hpos, ?_, ?_⟩
  · intro m hsource hmlow hmhigh hne heq
    obtain ⟨hline, hcolumn⟩ := Prod.mk.inj heq
    have hmpos := Location.pos_eq_sum hmlow hmhigh
    rw [hsource, hline, hcolumn, ← hpos] at hmpos
    exact hne hmpos
  · intro c hc hfeed
    obtain ⟨_, _, _, _, hsplits⟩ := l.exists_splits
    exact ⟨l.row, l.marker, l.lines_format, Location.caret_mem_caretAfter _,
      hsplits.row_caret hlow hhigh hc hfeed⟩

/-- A place so far before its source that the negative number of spaces is no index: it cannot be
shown, although its line is one of the source. -/
theorem location_out_of_range :
    let l : Location := { source := "a", pos := -1000000000000000000000000000000 }
    l.line = 1 ∧ l.format? = .error .tooWide ∧ ¬ ∃ text, l.format? = .ok text := by
  intro l
  have hformat : l.format? = .error .tooWide := by
    rw [Location.format?_eq, if_neg (by decide), if_neg (by decide)]
  refine ⟨by decide, hformat, ?_⟩
  rintro ⟨text, h⟩
  cases hformat.symm.trans h

/-- The number of the line is wider than its place in the margin, and the caret still stands below
the question mark; the place before it, which is on the same line, has another column. -/
theorem location_exact_of_wide_margin :
    let source := String.ofList (List.replicate 12345 '\n' ++ ['+', '?'])
    let l : Location := { source, pos := 12346 }
    let m : Location := { source, pos := 12345 }
    (0 ≤ l.pos ∧ l.pos ≤ l.source.length ∧ l.source.toList[l.pos.toNat]? = some '?') ∧
      l.format? = .ok l.format ∧ (m.line, m.column) ≠ (l.line, l.column) ∧
      ∃ row marker, Text.lines l.format.toList = Text.lines l.heading.toList ++ [row, marker] ∧
        '^' ∈ marker ∧ row[marker.idxOf '^']? = some '?' := by
  intro source l m
  have hlength : source.length = 12347 := by
    rw [String.length_ofList, List.length_append, List.length_replicate]
    rfl
  have hlow : 0 ≤ l.pos := by decide
  have hhigh : l.pos ≤ l.source.length := by rw [hlength]; decide
  have hmhigh : m.pos ≤ m.source.length := by rw [hlength]; decide
  have hc : source.toList[12346]? = some '?' := by
    rw [String.toList_ofList, List.getElem?_append_right (by rw [List.length_replicate]; decide),
      List.length_replicate]
    rfl
  obtain ⟨_, _, hnear, hinside⟩ := location_exact l
  have hformat : l.format? = .ok l.format := hnear (by rw [hlength]; decide)
  obtain ⟨_, _, _, _, hother, hcaret⟩ := hinside hlow hhigh
  exact ⟨⟨hlow, hhigh, hc⟩, hformat, hother m rfl (by decide) hmhigh (by decide), hcaret '?' hc (by decide)⟩

end DebugExpr
