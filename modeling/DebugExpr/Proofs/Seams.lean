import DebugExpr.Proofs.Joining
import DebugExpr.Proofs.Quotes
import DebugExpr.Proofs.Spelling

/-!
# Sources that meet at a blank

A blank outside of strings parts a source in two that are read apart from each other: the tokens of
the first part come before those of the second, which are the same as ever but for their places.
-/

namespace DebugExpr

namespace Token

/-! ## Texts at other offsets -/

/-- The token as many characters further on. -/
def shift (d : Nat) (t : Token) : Token :=
  { t with pos := t.pos + d }

def Unclosed.shift (d : Nat) (u : Unclosed) : Unclosed :=
  ⟨u.pos + d⟩

/-- What a scan finds does not depend on the offset of its text, but for the places. -/
theorem scan_shift (extended : Bool) (d inside pos : Nat) (cs : List Char) :
    scan extended inside (pos + d) cs =
      ((scan extended inside pos cs).map (List.map (shift d))).mapError (Unclosed.shift d) := by
  induction cs generalizing inside pos with
  | nil => simp [scan, Except.map, Except.mapError, shift, endMark]
  | cons c cs ih =>
      have hnext : pos + d + 1 = pos + 1 + d := Nat.add_right_comm pos d 1
      cases inside with
      | succ inside => rw [scan, scan, hnext, ih]
      | zero =>
          rw [scan, scan, hnext]
          split
          · exact ih 0 (pos + 1)
          · cases lexeme? extended c cs with
            | none => rfl
            | some l =>
                dsimp only
                rw [ih]
                cases scan extended ((l.1.spell l.2).length - 1) (pos + 1) cs with
                | error u => rfl
                | ok ts =>
                    simp [Except.map, Except.mapError, bind, Except.bind, pure, Except.pure, shift]

/-- A blank is passed over, and the text after it is read by itself. -/
theorem Cuts.scan_blank {extended : Bool} {cs : List Char} {ts : List Token} {w : Char}
    (h : Cuts extended 0 cs ts) (hw : w ∈ blanks) (rest : List Char) :
    scan extended 0 0 (cs ++ w :: rest) =
      ((scan extended 0 0 rest).map fun us => ts ++ us.map (shift (cs.length + 1))).mapError
        (Unclosed.shift (cs.length + 1)) := by
  have hends : ∀ k, Ends k (w :: rest) := fun k => ends_of_blank k (by simpa using hw)
  rw [h.scan_append hends, scan, if_pos (mem_blanks_iff.mp hw), Nat.zero_add,
    ← Nat.zero_add (cs.length + 1), scan_shift]
  cases scan extended 0 0 rest <;> simp [Except.map, Except.mapError]

end Token

/-! ## Sources -/

open Token

/-- If a blank stands between two sources, of which the first has an even number of quotes, the
tokens are those of the first without the end mark, and then those of the second further on by the
length before it. If the second has an unclosed quote, so has the whole, further on as well. -/
theorem tokenize_append_blank (settings : Settings) {s t : String} {w : Char}
    (hquotes : Even (s.toList.count '"')) (hw : w ∈ blanks) :
    ∃ ts, (tokenize settings s).result = .ok (ts ++ [endMark s.length]) ∧
      (∀ us, (tokenize settings t).result = .ok us →
        (tokenize settings (s ++ String.singleton w ++ t)).result =
          .ok (ts ++ us.map (shift (s.length + 1)))) ∧
      (∀ fault, (tokenize settings t).result = .error fault →
        ∃ p : Nat, fault = .diagnostic (.lexical Unclosed.message t p) ∧
          (tokenize settings (s ++ String.singleton w ++ t)).result =
            .error (.diagnostic (.lexical Unclosed.message (s ++ String.singleton w ++ t)
              (s.length + 1 + p)))) := by
  obtain ⟨ts, hcut⟩ := cuts_of_even_quotes settings.extended hquotes 0
  have hscan := hcut.scan_blank hw t.toList
  have hlist : (s ++ String.singleton w ++ t).toList = s.toList ++ w :: t.toList := by simp
  rw [← hlist, String.length_toList] at hscan
  refine ⟨ts, tokenize_of_cuts hcut, ?_, ?_⟩
  · intro us hus
    have hrest : scan settings.extended 0 0 t.toList = .ok us := tokenize_eq_ok.mp hus
    rw [hrest] at hscan
    exact tokenize_eq_ok.mpr hscan
  · intro fault hfault
    obtain ⟨u, hu, rfl⟩ := tokenize_eq_error.mp hfault
    have hrest : scan settings.extended 0 0 t.toList = .error u := hu
    rw [hrest] at hscan
    refine ⟨u.pos, rfl, ?_⟩
    have hplace : ((u.pos + (s.length + 1) : Nat) : Int) = s.length + 1 + u.pos := by omega
    refine tokenize_eq_error.mpr ⟨_, hscan, ?_⟩
    rw [Diagnostic.ofUnclosed, Unclosed.shift, hplace]

/-- A blank and a plus in a string part nothing, and the line feed after the string does: neither
`+` nor the quote that is not closed is read together with what stands before. -/
theorem tokenize_append_blank_of_string :
    Even (("f \" +\"" : String).toList.count '"') ∧ '\n' ∈ blanks ∧
      (tokenize {} "f \" +\"").result =
        .ok [⟨.ident, "f", 0⟩, ⟨.string, " +", 2⟩, endMark 6] ∧
      (tokenize {} "+=1").result =
        .ok [⟨.plusAssign, "+=", 0⟩, ⟨.number, "1", 2⟩, endMark 3] ∧
      (tokenize {} ("f \" +\"" ++ String.singleton '\n' ++ "+=1")).result =
        .ok [⟨.ident, "f", 0⟩, ⟨.string, " +", 2⟩, ⟨.plusAssign, "+=", 7⟩, ⟨.number, "1", 9⟩,
          endMark 10] ∧
      (tokenize {} "=\"").result =
        .error (.diagnostic (.lexical Unclosed.message "=\"" 1)) ∧
      (tokenize {} ("f \" +\"" ++ String.singleton '\n' ++ "=\"")).result =
        .error (.diagnostic (.lexical Unclosed.message
          ("f \" +\"" ++ String.singleton '\n' ++ "=\"") 8)) := by
  have hquotes : Even (("f \" +\"" : String).toList.count '"') := by decide
  have hblank : '\n' ∈ blanks := by simp [blanks]
  have hfirst : (tokenize {} "f \" +\"").result =
      .ok ([⟨.ident, "f", 0⟩, ⟨.string, " +", 2⟩] ++ [endMark 6]) := rfl
  have hsecond : (tokenize {} "+=1").result =
      .ok [⟨.plusAssign, "+=", 0⟩, ⟨.number, "1", 2⟩, endMark 3] := rfl
  have hfault : (tokenize {} "=\"").result =
      .error (.diagnostic (.lexical Unclosed.message "=\"" 1)) := rfl
  obtain ⟨ts, hts, hok, _⟩ := tokenize_append_blank {} (t := "+=1") hquotes hblank
  obtain rfl := List.append_cancel_right (Except.ok.inj (hts.symm.trans hfirst))
  obtain ⟨_, _, _, herror⟩ := tokenize_append_blank {} (t := "=\"") hquotes hblank
  obtain ⟨p, hp, hwhole⟩ := herror _ hfault
  cases hp
  exact ⟨hquotes, hblank, hfirst, hsecond, hok _ hsecond, hfault, hwhole⟩

end DebugExpr
