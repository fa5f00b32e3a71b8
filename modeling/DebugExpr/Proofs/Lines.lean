import DebugExpr.Text.Lines

/-!
# Lines of an input

An input is cut at its line ends, of which there are three: a line feed, a carriage return, and
both together. A text after the last line end is a line too, unless it is empty.
-/

namespace DebugExpr.Text

/-! ## What the lines are -/

def Unbroken (cs : List Char) : Prop :=
  ∀ c ∈ cs, c ≠ '\n' ∧ c ≠ '\r'

/-- A line end and what follows it: a line feed after a carriage return belongs to the line end. -/
inductive LineEnd : List Char → List Char → Prop
  | feed (rest : List Char) : LineEnd ['\n'] rest
  | both (rest : List Char) : LineEnd ['\r', '\n'] rest
  | carriage {rest : List Char} : rest.head? ≠ some '\n' → LineEnd ['\r'] rest

/-- The lines that an input consists of. -/
inductive Lined : List Char → List (List Char) → Prop
  | nil : Lined [] []
  | last {line} : line ≠ [] → Unbroken line → Lined line [line]
  | cons {line stop rest ls} : Unbroken line → LineEnd stop rest → Lined rest ls →
      Lined (line ++ (stop ++ rest)) (line :: ls)

theorem unbroken_nil : Unbroken [] :=
  fun _ h => absurd h List.not_mem_nil

theorem Unbroken.noFeed {cs : List Char} (h : Unbroken cs) : '\n' ∉ cs :=
  fun hmem => (h '\n' hmem).1 rfl

theorem Unbroken.cons {c : Char} {cs : List Char} (hfeed : c ≠ '\n') (hcarriage : c ≠ '\r')
    (h : Unbroken cs) : Unbroken (c :: cs) :=
  List.forall_mem_cons.mpr ⟨⟨hfeed, hcarriage⟩, h⟩

/-! ## Line feeds alone -/

theorem lines_ne_nil (cs : List Char) : lines cs ≠ [] := by
  cases cs with
  | nil => exact List.cons_ne_nil _ _
  | cons c cs =>
      rw [lines]
      split
      · exact List.cons_ne_nil _ _
      · split <;> exact List.cons_ne_nil _ _

theorem lines_feed (cs : List Char) : lines ('\n' :: cs) = [] :: lines cs := by
  rw [lines]
  cases h : lines cs with
  | nil => exact absurd h (lines_ne_nil cs)
  | cons line rest => rfl

theorem lines_cons {c : Char} {cs line : List Char} {rest : List (List Char)} (hc : c ≠ '\n')
    (h : lines cs = line :: rest) : lines (c :: cs) = (c :: line) :: rest := by
  simp [lines, h, hc]

theorem lines_of_noFeed {line : List Char} (h : '\n' ∉ line) : lines line = [line] := by
  induction line with
  | nil => rfl
  | cons c line ih =>
      have hc : c ≠ '\n' := (List.ne_of_not_mem_cons h).symm
      exact lines_cons hc (ih (List.not_mem_of_not_mem_cons h))

/-- A line feed ends the last line of the text before it. -/
theorem lines_append_feed (cs ds : List Char) :
    lines (cs ++ '\n' :: ds) = lines cs ++ lines ds := by
  induction cs with
  | nil => exact lines_feed ds
  | cons c cs ih =>
      by_cases hc : c = '\n'
      · subst hc
        rw [List.cons_append, lines_feed, lines_feed, ih, List.cons_append]
      · obtain ⟨line, rest, hlines⟩ := List.exists_cons_of_ne_nil (lines_ne_nil cs)
        rw [hlines] at ih
        rw [List.cons_append, lines_cons hc hlines, lines_cons hc ih]
        rfl

/-- What stands before a text on its first line belongs to that line. -/
theorem lines_append_left {left cs right : List Char} {below : List (List Char)}
    (hleft : '\n' ∉ left) (h : lines cs = right :: below) :
    lines (left ++ cs) = (left ++ right) :: below := by
  induction left with
  | nil => exact h
  | cons c left ih =>
      have hc : c ≠ '\n' := (List.ne_of_not_mem_cons hleft).symm
      exact lines_cons hc (ih (List.not_mem_of_not_mem_cons hleft))

theorem noFeed_of_mem_lines {cs line : List Char} (h : line ∈ lines cs) : '\n' ∉ line := by
  induction cs generalizing line with
  | nil =>
      cases List.mem_singleton.mp h
      exact List.not_mem_nil
  | cons c cs ih =>
      by_cases hc : c = '\n'
      · subst hc
        rw [lines_feed] at h
        rcases List.mem_cons.mp h with rfl | h
        · exact List.not_mem_nil
        · exact ih h
      · obtain ⟨first, rest, hlines⟩ := List.exists_cons_of_ne_nil (lines_ne_nil cs)
        rw [lines_cons hc hlines] at h
        rw [hlines] at ih
        rcases List.mem_cons.mp h with rfl | h
        · exact List.not_mem_cons_of_ne_of_not_mem (Ne.symm hc) (ih List.mem_cons_self)
        · exact ih (List.mem_cons_of_mem first h)

/-! ## All line ends -/

theorem unifyLineEnds_cons {c : Char} (hc : c ≠ '\r') (cs : List Char) :
    unifyLineEnds (c :: cs) = c :: unifyLineEnds cs := by
  rw [unifyLineEnds]
  · rintro _ rfl
    exact absurd rfl hc
  · rintro rfl
    exact absurd rfl hc

theorem unifyLineEnds_append {line : List Char} (h : Unbroken line) (cs : List Char) :
    unifyLineEnds (line ++ cs) = line ++ unifyLineEnds cs := by
  induction line with
  | nil => rfl
  | cons c line ih =>
      obtain ⟨hc, hline⟩ := List.forall_mem_cons.mp h
      rw [List.cons_append, unifyLineEnds_cons hc.2, ih hline, List.cons_append]

theorem unifyLineEnds_lineEnd {stop rest : List Char} (h : LineEnd stop rest) :
    unifyLineEnds (stop ++ rest) = '\n' :: unifyLineEnds rest := by
  cases h with
  | feed => exact unifyLineEnds_cons (by decide) rest
  | both => rfl
  | carriage hrest =>
      cases rest with
      | nil => rfl
      | cons c rest =>
          have hc : c ≠ '\n' := by simpa using hrest
          show unifyLineEnds ('\r' :: c :: rest) = _
          rw [unifyLineEnds]
          rintro _ ⟨⟩
          exact absurd rfl hc

theorem inputLines_append {line stop rest : List Char} (hline : Unbroken line)
    (hstop : LineEnd stop rest) :
    inputLines (line ++ (stop ++ rest)) = line :: inputLines rest := by
  have hne := lines_ne_nil (unifyLineEnds rest)
  simp only [inputLines, unifyLineEnds_append hline, unifyLineEnds_lineEnd hstop,
    lines_append_feed, lines_of_noFeed hline.noFeed, List.singleton_append,
    List.getLast?_cons_of_ne_nil hne, List.dropLast_cons_of_ne_nil hne]
  split <;> rfl

theorem inputLines_of_lined {cs : List Char} {ls : List (List Char)} (h : Lined cs ls) :
    inputLines cs = ls := by
  induction h with
  | nil => rfl
  | @last line hne hline =>
      have hunify : unifyLineEnds line = line := by
        simpa [unifyLineEnds] using unifyLineEnds_append hline []
      simp [inputLines, hunify, lines_of_noFeed hline.noFeed, hne]
  | cons hline hstop _ ih => rw [inputLines_append hline hstop, ih]

theorem Lined.extend {c : Char} {cs : List Char} {ls : List (List Char)} (hfeed : c ≠ '\n')
    (hcarriage : c ≠ '\r') (h : Lined cs ls) : ∃ ls', Lined (c :: cs) ls' := by
  cases h with
  | nil => exact ⟨_, .last (List.cons_ne_nil c []) (unbroken_nil.cons hfeed hcarriage)⟩
  | last _ hline => exact ⟨_, .last (List.cons_ne_nil c _) (hline.cons hfeed hcarriage)⟩
  | cons hline hstop hrest => exact ⟨_, .cons (hline.cons hfeed hcarriage) hstop hrest⟩

theorem exists_lined (cs : List Char) : ∃ ls, Lined cs ls := by
  fun_induction unifyLineEnds cs with
  | case1 cs ih =>
      obtain ⟨ls, h⟩ := ih
      exact ⟨_, .cons unbroken_nil (.both cs) h⟩
  | case2 cs hfeed ih =>
      obtain ⟨ls, h⟩ := ih
      refine ⟨_, .cons unbroken_nil (.carriage fun hhead => ?_) h⟩
      obtain ⟨rest, rfl⟩ := List.head?_eq_some_iff.mp hhead
      exact hfeed rest rfl
  | case3 c cs hboth hcarriage ih =>
      obtain ⟨ls, h⟩ := ih
      by_cases hc : c = '\n'
      · subst hc
        exact ⟨_, .cons unbroken_nil (.feed cs) h⟩
      · exact h.extend hc hcarriage
  | case4 => exact ⟨_, .nil⟩

/-- Every input has its lines, and only one list of them. -/
theorem lined_iff {cs : List Char} {ls : List (List Char)} : Lined cs ls ↔ inputLines cs = ls := by
  refine ⟨inputLines_of_lined, ?_⟩
  rintro rfl
  obtain ⟨ls, h⟩ := exists_lined cs
  rwa [inputLines_of_lined h]

end DebugExpr.Text
