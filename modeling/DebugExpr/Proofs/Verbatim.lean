import DebugExpr.CommandLine.Display
import DebugExpr.Text.Digit
import Mathlib.Tactic.Tauto

/-!
# Texts displayed as they stand

The display keeps a text as it stands exactly if there is nothing in it that the display changes:
tabs, some control characters, names of pictures between colons, and backslashes before brackets
that begin no name.
-/

namespace DebugExpr.CommandLine

/-! ## Backslashes -/

theorem dropBackslashes_sublist (cs : List Char) : (dropBackslashes cs).Sublist cs := by
  fun_induction dropBackslashes cs with
  | case1 cs ih => exact (ih.cons_cons '[').cons '\\'
  | case2 c cs _ ih => exact ih.cons_cons c
  | case3 => exact .slnil

theorem dropBackslashes_eq_self {cs : List Char} (h : ¬ ['\\', '['] <:+: cs) :
    dropBackslashes cs = cs := by
  fun_induction dropBackslashes cs with
  | case1 cs _ => exact absurd (List.infix_append [] ['\\', '['] cs) h
  | case2 c cs _ ih => rw [ih fun hcs => h (List.infix_cons hcs)]
  | case3 => rfl

/-- Where a backslash stands before a bracket, the text gets shorter. -/
theorem length_dropBackslashes_lt {cs : List Char} (h : ['\\', '['] <:+: cs) :
    (dropBackslashes cs).length < cs.length := by
  fun_induction dropBackslashes cs with
  | case1 cs _ =>
      have := (dropBackslashes_sublist cs).length_le
      simp only [List.length_cons]
      omega
  | case2 c cs hother ih =>
      rcases List.infix_cons_iff.mp h with ⟨rest, hrest⟩ | hcs
      · obtain ⟨rfl, rfl⟩ := List.cons.inj hrest
        exact absurd rfl (hother rest rfl)
      · exact Nat.succ_lt_succ (ih hcs)
  | case3 => simp at h

/-! ## Pictures -/

/-- The names between colons in a text. The first `inside` characters belong to a name that was
read, with its closing colon. -/
def codes (inside : Nat) : List Char → List (List Char)
  | [] => []
  | c :: cs =>
    match inside with
    | n + 1 => codes n cs
    | 0 =>
      match c, pictureName? cs with
      | ':', some name => name :: codes (name.length + 1) cs
      | _, _ => codes 0 cs

theorem drawPictures_eq_self {inside : Nat} {cs : List Char}
    (h : ∀ name ∈ codes inside cs, pictures.lookup name = none) :
    drawPictures inside false cs = cs := by
  fun_induction codes inside cs with
  | case1 => rfl
  | case2 c cs n ih => rw [drawPictures, if_neg Bool.false_ne_true, ih h]
  | case3 cs name hname ih =>
      obtain ⟨hnone, hrest⟩ := List.forall_mem_cons.mp h
      simp only [drawPictures, hname, hnone, ih hrest]
  | case4 c cs hother ih =>
      rw [drawPictures]
      · rw [ih h]
      · exact hother

theorem length_drawPictures_le (inside : Nat) (dropping : Bool) (cs : List Char) :
    (drawPictures inside dropping cs).length ≤ cs.length := by
  fun_induction drawPictures inside dropping cs with
  | case1 => exact Nat.le_refl 0
  | case2 c cs n ih => exact Nat.le_succ_of_le ih
  | case3 _ c cs n _ ih | case4 _ cs name _ picture _ ih | case5 _ cs name _ _ ih
  | case6 _ c cs _ ih => exact Nat.succ_le_succ ih

/-- Where a name is that of a picture, the text gets shorter: the picture is one character. -/
theorem length_drawPictures_lt {inside : Nat} {cs name : List Char} (hname : name ∈ codes inside cs)
    (hpicture : pictures.lookup name ≠ none) :
    (drawPictures inside false cs).length < cs.length := by
  fun_induction codes inside cs with
  | case1 => cases hname
  | case2 c cs n ih =>
      rw [drawPictures, if_neg Bool.false_ne_true]
      exact Nat.succ_lt_succ (ih hname)
  | case3 cs first hfirst ih =>
      cases hlookup : pictures.lookup first with
      | some picture =>
          obtain ⟨d, ds, rfl⟩ : ∃ d ds, cs = d :: ds := by
            cases cs with
            | nil => cases hfirst
            | cons d ds => exact ⟨d, ds, rfl⟩
          have := length_drawPictures_le first.length true ds
          simp only [drawPictures, hfirst, hlookup, if_true, List.length_cons]
          omega
      | none =>
          rcases List.mem_cons.mp hname with rfl | hname
          · exact absurd hlookup hpicture
          · simp only [drawPictures, hfirst, hlookup]
            exact Nat.succ_lt_succ (ih hname)
  | case4 c cs hother ih =>
      rw [drawPictures]
      · exact Nat.succ_lt_succ (ih hname)
      · exact hother

theorem mem_drawPictures {inside : Nat} {dropping : Bool} {cs : List Char} {c : Char}
    (h : c ∈ drawPictures inside dropping cs) : c ∈ cs ∨ c ∈ pictures.map (·.2) := by
  fun_induction drawPictures inside dropping cs with
  | case1 => exact .inl h
  | case2 d cs n ih => exact (ih h).imp_left (List.mem_cons_of_mem d)
  | case3 _ d cs n _ ih | case6 _ d cs _ ih =>
      rcases List.mem_cons.mp h with rfl | h
      · exact .inl List.mem_cons_self
      · exact (ih h).imp_left (List.mem_cons_of_mem d)
  | case5 _ cs name _ _ ih =>
      rcases List.mem_cons.mp h with rfl | h
      · exact .inl List.mem_cons_self
      · exact (ih h).imp_left (List.mem_cons_of_mem ':')
  | case4 _ cs name _ picture hlookup ih =>
      rcases List.mem_cons.mp h with rfl | h
      · obtain ⟨before, after, heq, -⟩ := List.lookup_eq_some_iff.mp hlookup
        exact .inr (heq ▸ by simp)
      · exact (ih h).imp_left (List.mem_cons_of_mem ':')

/-! ## Tabs -/

theorem expandTabs_eq_self (m : Text.Measure) {cs : List Char} (h : '\t' ∉ cs) :
    expandTabs m cs = cs := by
  induction cs generalizing m with
  | nil => rfl
  | cons c cs ih =>
      obtain ⟨hc, hcs⟩ := List.ne_and_not_mem_of_not_mem_cons h
      have hne : (c == '\t') = false := beq_eq_false_iff_ne.mpr hc.symm
      rw [expandTabs, ih _ hcs, hne]
      simp only [Bool.false_eq_true, if_false, ih _ hcs, ite_self]

theorem tab_not_mem_expandTabs (m : Text.Measure) (cs : List Char) : '\t' ∉ expandTabs m cs := by
  fun_induction expandTabs m cs with
  | case1 => exact List.not_mem_nil
  | case2 _ c cs hfeed ih =>
      rw [beq_iff_eq] at hfeed
      simpa [hfeed] using ih
  | case3 _ c cs _ _ column gap ih => simpa using ih
  | case4 _ c cs _ htab ih =>
      rw [beq_iff_eq] at htab
      exact List.not_mem_cons_of_ne_of_not_mem (Ne.symm htab) ih

/-! ## All of a text -/

theorem mem_of_mem_piece {cs piece : List Char} {c : Char} (h : piece ∈ pieces 0 cs)
    (hc : c ∈ piece) : c ∈ cs := by
  rw [← flatten_pieces 0 cs]
  exact List.mem_flatten_of_mem h hc

theorem mem_displayPiece {piece : List Char} {c : Char} (h : c ∈ displayPiece piece) :
    c ∈ piece ∨ c ∈ pictures.map (·.2) :=
  (mem_drawPictures h).imp_left fun hc => (dropBackslashes_sublist piece).mem hc

theorem length_displayPiece_le (piece : List Char) :
    (displayPiece piece).length ≤ piece.length :=
  Nat.le_trans (length_drawPictures_le 0 false _) (dropBackslashes_sublist piece).length_le

/-- A piece of a text holds nothing that the display changes. -/
structure PlainPiece (piece : List Char) : Prop where
  noBackslash : ¬ ['\\', '['] <:+: piece
  noPicture : ∀ name ∈ codes 0 piece, pictures.lookup name = none

theorem PlainPiece.displayPiece_eq {piece : List Char} (h : PlainPiece piece) :
    displayPiece piece = piece := by
  rw [displayPiece, dropBackslashes_eq_self h.noBackslash, drawPictures_eq_self h.noPicture]

theorem plainPiece_of_length {piece : List Char}
    (h : (displayPiece piece).length = piece.length) : PlainPiece piece := by
  have hdrawn := length_drawPictures_le 0 false (dropBackslashes piece)
  have hdropped : ¬ ['\\', '['] <:+: piece := by
    intro hbackslash
    have := length_dropBackslashes_lt hbackslash
    rw [displayPiece] at h
    omega
  refine ⟨hdropped, fun name hname => ?_⟩
  cases hpicture : pictures.lookup name with
  | none => rfl
  | some picture =>
      have := length_drawPictures_lt hname (hpicture ▸ Option.some_ne_none picture)
      rw [displayPiece, dropBackslashes_eq_self hdropped] at h
      omega

/-- A text holds nothing that the display changes. -/
structure Plain (s : String) : Prop where
  noTab : '\t' ∉ s.toList
  noControl : ∀ c ∈ s.toList, isDropped c = false
  pieces : ∀ piece ∈ pieces 0 s.toList, PlainPiece piece

theorem flatMap_displayPiece {ps : List (List Char)} (h : ∀ p ∈ ps, PlainPiece p) :
    ps.flatMap displayPiece = ps.flatten := by
  rw [List.flatMap_def, List.map_congr_left fun p hp => (h p hp).displayPiece_eq, List.map_id']

theorem length_flatMap_displayPiece_le (ps : List (List Char)) :
    (ps.flatMap displayPiece).length ≤ ps.flatten.length := by
  induction ps with
  | nil => exact Nat.le_refl 0
  | cons p ps ih =>
      have := length_displayPiece_le p
      simp only [List.flatMap_cons, List.flatten_cons, List.length_append]
      omega

theorem plainPieces_of_length {ps : List (List Char)}
    (h : (ps.flatMap displayPiece).length = ps.flatten.length) : ∀ p ∈ ps, PlainPiece p := by
  induction ps with
  | nil => exact nofun
  | cons p ps ih =>
      have hp := length_displayPiece_le p
      have hps := length_flatMap_displayPiece_le ps
      simp only [List.flatMap_cons, List.flatten_cons, List.length_append] at h
      exact List.forall_mem_cons.mpr ⟨plainPiece_of_length (by omega), ih (by omega)⟩

theorem Plain.display_eq {s : String} (h : Plain s) : display s = s := by
  have hkept : s.toList.filter (!isDropped ·) = s.toList :=
    List.filter_eq_self.mpr fun c hc => by rw [h.noControl c hc]; rfl
  simp only [display, flatMap_displayPiece h.pieces, flatten_pieces, hkept,
    expandTabs_eq_self {} h.noTab, String.ofList_toList]

theorem tab_not_mem_drawn {cs : List Char} (h : '\t' ∉ cs) :
    '\t' ∉ (pieces 0 cs).flatMap displayPiece := by
  intro hmem
  obtain ⟨piece, hpiece, hmem⟩ := List.mem_flatMap.mp hmem
  rcases mem_displayPiece hmem with hmem | hmem
  · exact h (mem_of_mem_piece hpiece hmem)
  · exact absurd hmem (by decide)

theorem plain_of_display {s : String} (h : display s = s) : Plain s := by
  have hlist : expandTabs {} (((pieces 0 s.toList).flatMap displayPiece).filter (!isDropped ·)) =
      s.toList := by
    have hdisplay := congrArg String.toList h
    rwa [display, String.toList_ofList] at hdisplay
  have htab : '\t' ∉ s.toList := hlist ▸ tab_not_mem_expandTabs {} _
  -- There are no tabs to fill up, so every step could only shorten the text, and none did.
  rw [expandTabs_eq_self {} fun hmem => tab_not_mem_drawn htab (List.mem_filter.mp hmem).1] at hlist
  have hpieces : ∀ piece ∈ pieces 0 s.toList, PlainPiece piece := by
    refine plainPieces_of_length ?_
    have hfilter := List.length_filter_le (!isDropped ·) ((pieces 0 s.toList).flatMap displayPiece)
    have hdrawn := length_flatMap_displayPiece_le (pieces 0 s.toList)
    rw [hlist] at hfilter
    rw [flatten_pieces] at hdrawn ⊢
    omega
  rw [flatMap_displayPiece hpieces, flatten_pieces, List.filter_eq_self] at hlist
  exact ⟨htab, fun c hc => by simpa using hlist c hc, hpieces⟩

/-- A text is displayed as it stands exactly if it is plain. -/
theorem display_eq_self_iff {s : String} : display s = s ↔ Plain s :=
  ⟨plain_of_display, Plain.display_eq⟩

/-! ## Texts that stay as they are whatever the pictures -/

/-- A plain text in which all names between colons are numerals. Pictures that have other names are
not listed here, so a text with such names may be plain and still be changed. -/
structure Verbatim (s : String) : Prop extends Plain s where
  numerals : ∀ piece ∈ CommandLine.pieces 0 s.toList, ∀ name ∈ codes 0 piece,
    name.all Text.isDecimal = true

/-- The characters that the display changes, or that begin what it changes. -/
def active : List Char :=
  ['\t', '\x07', '\x08', '\x0b', '\x0c', '\r', '\\', ':']

/-- None of the characters of a text is active. -/
def Inert (s : String) : Prop :=
  ∀ c ∈ s.toList, c ∉ active

instance (s : String) : Decidable (Inert s) :=
  decidable_of_iff (s.toList.all (!active.contains ·) = true) (by simp [Inert])

theorem inert_append {s s' : String} : Inert (s ++ s') ↔ Inert s ∧ Inert s' := by
  rw [Inert, String.toList_append]
  exact List.forall_mem_append

theorem codes_of_noColon {cs : List Char} (h : ':' ∉ cs) (inside : Nat) : codes inside cs = [] := by
  fun_induction codes inside cs with
  | case1 => rfl
  | case2 c cs n ih => exact ih (List.not_mem_of_not_mem_cons h)
  | case3 cs name hname ih => exact absurd List.mem_cons_self h
  | case4 c cs hother ih => exact ih (List.not_mem_of_not_mem_cons h)

theorem isDropped_mem_active {c : Char} (h : isDropped c = true) : c ∈ active := by
  simp only [isDropped, Bool.or_eq_true, beq_iff_eq] at h
  simp only [active, List.mem_cons]
  tauto

theorem Inert.verbatim {s : String} (h : Inert s) : Verbatim s := by
  have hpiece {piece : List Char} (hmem : piece ∈ pieces 0 s.toList) : ∀ c ∈ piece, c ∉ active :=
    fun c hc => h c (mem_of_mem_piece hmem hc)
  have hcodes {piece : List Char} (hmem : piece ∈ pieces 0 s.toList) : codes 0 piece = [] :=
    codes_of_noColon (fun hc => hpiece hmem ':' hc (by decide)) 0
  exact {
    noTab := fun hc => h _ hc (by decide)
    noControl := fun c hc => by
      rw [Bool.eq_false_iff]
      exact fun hdropped => h c hc (isDropped_mem_active hdropped)
    pieces := fun piece hmem => {
      noBackslash := fun hbackslash =>
        hpiece hmem '\\' (hbackslash.subset List.mem_cons_self) (by decide)
      noPicture := by rw [hcodes hmem]; exact nofun }
    numerals := fun piece hmem => by rw [hcodes hmem]; exact nofun }

end DebugExpr.CommandLine
