import DebugExpr.Proofs.Phrases

/-!
# Composition

An accepted source keeps its tree as a part of a larger source: in a group, after a prefix operator,
on either side of an operator, among arguments and statements, and on the right of an assignment.
All that the whole can add is too many levels of nesting.
-/

namespace DebugExpr

open Grammar Token DebugExpr.Expr

/-- The source has the tree, or else it is refused for its nesting or height. -/
def ParsesTo (settings : Settings) (source : String) (e : Expr) : Prop :=
  (parse settings source).result = .ok e ∨ TooDeep (parse settings source).result

variable {settings : Settings}

theorem Phrase.parsesTo {source : String} {w : List Char} {s : Stratum} {e : Expr} {levels : Nat}
    (h : Phrase settings.extended s w e levels) (hw : source.toList = w) :
    ParsesTo settings source e := by
  rw [← hw] at h
  have hparse := parse_of_phrase (h.loosen (Stratum.expression_level_le s))
  by_cases hfits : levels + 1 ≤ maxDepth ∧ e.height ≤ maxHeight
  · exact .inl (hparse.1 hfits)
  · exact .inr (hparse.2 hfits)

/-! ## Parts in brackets -/

/-- Parts in brackets keep their trees, whatever stands around the brackets. -/
theorem parse_composition (settings : Settings) :
    (∀ {source e}, (parse settings source).result = .ok e →
      ParsesTo settings ("(" ++ source ++ ")") e) ∧
    (∀ (op : UnaryOp) {source e}, (parse settings source).result = .ok e →
      ParsesTo settings (op.symbol ++ "(" ++ source ++ ")") (.unary op e)) ∧
    (∀ (op : BinaryOp) {left right l r}, (parse settings left).result = .ok l →
      (parse settings right).result = .ok r →
      ParsesTo settings ("(" ++ left ++ ") " ++ op.symbol ++ " (" ++ right ++ ")")
        (.binary op l r)) ∧
    (∀ {f sources es}, IsName f → sources ≠ [] →
      List.Forall₂ (fun source e => (parse settings source).result = .ok e) sources es →
      ParsesTo settings (f ++ "(" ++ ", ".intercalate sources ++ ")") (.call f es)) ∧
    (∀ {xs sources es}, (∀ x ∈ xs, IsName x) → sources ≠ [] →
      List.Forall₂ (fun source e => (parse settings source).result = .ok e) sources es →
      ParsesTo settings
        ("(" ++ ", ".intercalate xs ++ ") \x7b " ++ ", ".intercalate sources ++ " \x7d")
        (.func xs es)) := by
  refine ⟨fun h => ?_, fun op _ _ h => ?_, fun op _ _ _ _ hl hr => ?_, fun hf hne h => ?_,
    fun hxs hne h => ?_⟩
  · obtain ⟨_, hphrase⟩ := phrase_of_parse h
    exact hphrase.group.parsesTo (by simp)
  · obtain ⟨_, hphrase⟩ := phrase_of_parse h
    exact (hphrase.group.unary op fun _ => ends_closer rfl _ _).parsesTo (by simp)
  · obtain ⟨_, hleft⟩ := phrase_of_parse hl
    obtain ⟨_, hright⟩ := phrase_of_parse hr
    exact (hleft.group.binary op hright.group).parsesTo (by simp)
  · obtain ⟨_, hitems⟩ := itemsPhrase_of_parse h hne
    exact (hitems.call hf).parsesTo (by simp)
  · obtain ⟨_, hitems⟩ := itemsPhrase_of_parse h hne
    exact (hitems.func hxs).parsesTo (by simp)

/-- An assignment and a disjunction keep their trees, where without the brackets neither could stand
beside a tighter operator. -/
theorem parse_composition_assignment :
    let assigned : Expr := .assign "x" (.unary .neg (.var "y"))
    let either : Expr := .binary .or (.var "a") (.string ")")
    (parse {} "x = -y").result = .ok assigned ∧ (parse {} "a||\")\"").result = .ok either ∧
    ParsesTo {} "(x = -y)" assigned ∧
    ParsesTo {} "-(x = -y)" (.unary .neg assigned) ∧
    ParsesTo {} "(x = -y) - (a||\")\")" (.binary .sub assigned either) ∧
    IsName "f" ∧ ParsesTo {} "f(x = -y, a||\")\")" (.call "f" [assigned, either]) ∧
    ParsesTo {} "(f) \x7b x = -y, a||\")\" \x7d" (.func ["f"] [assigned, either]) := by
  intro assigned either
  have hassigned : (parse {} "x = -y").result = .ok assigned := rfl
  have heither : (parse {} "a||\")\"").result = .ok either := rfl
  have hf : IsName "f" := .ident rfl fun _ h => absurd h List.not_mem_nil
  obtain ⟨hgroup, hunary, hbinary, hcall, hfunc⟩ := parse_composition {}
  have hboth : List.Forall₂ (fun source e => (parse {} source).result = .ok e)
      ["x = -y", "a||\")\""] [assigned, either] := .cons hassigned (.cons heither .nil)
  have hfs : ∀ x ∈ ["f"], IsName x := List.forall_mem_singleton.mpr hf
  refine ⟨hassigned, heither, ?_, ?_, ?_, hf, ?_, ?_⟩
  · simpa using hgroup hassigned
  · simpa [UnaryOp.symbol] using hunary .neg hassigned
  · simpa [BinaryOp.symbol] using hbinary .sub hassigned heither
  · simpa using hcall hf (List.cons_ne_nil _ _) hboth
  · simpa using hfunc hfs (List.cons_ne_nil _ _) hboth

/-! ## Compound assignments -/

/-- The sign of a compound assignment is that of its operator and an equals sign. -/
theorem compound_sign {op : BinaryOp} (h : op ∈ [.mul, .div, .add, .sub, .concat]) :
    ∃ k, (op.symbol.toList ++ ['='], k) ∈ Kind.operators ∧
      ∀ x v, AssignOp x v k (.binary op (.var x) v) := by
  cases op with
  | mul => exact ⟨.starAssign, by simp [BinaryOp.symbol, Kind.operators], fun _ _ => .mul⟩
  | div => exact ⟨.slashAssign, by simp [BinaryOp.symbol, Kind.operators], fun _ _ => .div⟩
  | add => exact ⟨.plusAssign, by simp [BinaryOp.symbol, Kind.operators], fun _ _ => .add⟩
  | sub => exact ⟨.minusAssign, by simp [BinaryOp.symbol, Kind.operators], fun _ _ => .sub⟩
  | concat => exact ⟨.concatAssign, by simp [BinaryOp.symbol, Kind.operators], fun _ _ => .concat⟩
  | and | or => simp at h

/-- A compound assignment has the tree of the assignment that it is short for, whatever stands on
its right; and it takes fewer levels of nesting. -/
theorem parse_compound {x source : String} {v : Expr} {op : BinaryOp} (hx : IsName x)
    (hop : op ∈ [.mul, .div, .add, .sub, .concat]) (h : (parse settings source).result = .ok v) :
    let short := x ++ " " ++ op.symbol ++ "= " ++ source
    let long := x ++ " = " ++ x ++ " " ++ op.symbol ++ " (" ++ source ++ ")"
    ParsesTo settings short (.assign x (.binary op (.var x) v)) ∧
    ParsesTo settings long (.assign x (.binary op (.var x) v)) ∧
    ∀ e, (parse settings long).result = .ok e → (parse settings short).result = .ok e := by
  intro short long
  obtain ⟨levels, hphrase⟩ := phrase_of_parse h
  obtain ⟨k, hk, hassign⟩ := compound_sign hop
  have hshort : Phrase settings.extended .expression short.toList
      (.assign x (.binary op (.var x) v)) (levels + 1) := by
    have happ : short.toList =
        x.toList ++ ' ' :: (op.symbol.toList ++ ['='] ++ ' ' :: source.toList) := by
      simp [short]
    rw [happ]
    exact hphrase.assign hx hk (hassign x v)
  have hlong : Phrase settings.extended .expression long.toList
      (.assign x (.binary op (.var x) v)) (levels + 3) := by
    have happ : long.toList = x.toList ++ ' ' :: (['='] ++ ' ' :: (x.toList ++ ' ' ::
        (op.symbol.toList ++ ' ' :: ('(' :: (source.toList ++ [')']))))) := by
      simp [long]
    have hright := (phrase_var hx).binary op hphrase.group
    rw [Nat.zero_max] at hright
    rw [happ]
    exact hright.assign hx equals_mem .plain
  refine ⟨hshort.parsesTo rfl, hlong.parsesTo rfl, fun e he => ?_⟩
  obtain ⟨hfits, hdeep⟩ := parse_of_phrase hlong
  by_cases hlimits : levels + 3 + 1 ≤ maxDepth ∧
      (Expr.assign x (.binary op (.var x) v)).height ≤ maxHeight
  · cases he.symm.trans (hfits hlimits)
    exact (parse_of_phrase hshort).1 ⟨by omega, hlimits.2⟩
  · obtain ⟨d, hd, _⟩ := hdeep hlimits
    cases he.symm.trans hd

/-- What is assigned can itself be an assignment. -/
theorem parse_compound_assignment :
    let e : Expr := .assign "n" (.binary .concat (.var "n")
      (.assign "m" (.binary .or (.var "a") (.var "b"))))
    IsName "n" ∧ BinaryOp.concat ∈ [.mul, .div, .add, .sub, .concat] ∧
    (parse {} "m = a || b").result = .ok (.assign "m" (.binary .or (.var "a") (.var "b"))) ∧
    ParsesTo {} "n ++= m = a || b" e ∧ ParsesTo {} "n = n ++ (m = a || b)" e ∧
    ∀ e, (parse {} "n = n ++ (m = a || b)").result = .ok e →
      (parse {} "n ++= m = a || b").result = .ok e := by
  intro e
  have hn : IsName "n" := .ident rfl fun _ h => absurd h List.not_mem_nil
  have hop : BinaryOp.concat ∈ [.mul, .div, .add, .sub, .concat] := by decide
  have h : (parse {} "m = a || b").result =
      .ok (.assign "m" (.binary .or (.var "a") (.var "b"))) := rfl
  refine ⟨hn, hop, h, ?_⟩
  simpa [BinaryOp.symbol] using parse_compound hn hop h

end DebugExpr
