import Mathlib.Data.List.Chain
import DebugExpr.Proofs.Layers
import DebugExpr.Proofs.Outcome

/-!
# Extended literals

Extended literals change the tokens of a source only where a name follows a number directly, and no
expression has such tokens. So a source that is accepted without them has the same tree and leaves
the same records with them.
-/

namespace DebugExpr

/-! ## Derivations -/

namespace Grammar

theorem Leaf.extend {extended : Bool} {t : Token} {e : Expr} (h : Leaf extended t e) :
    Leaf true t e := by
  cases h with
  | number h => exact .number h
  | hex h => exact .hex h
  | bin _ h => exact .bin rfl h
  | string h => exact .string h
  | var h => exact .var h

variable {extended : Bool}

mutual

/-- A derivation is one with extended literals too. -/
def Derivation.extend {s ts e} : Derivation extended s ts e → Derivation true s ts e
  | .assign target hop d => .assign target hop d.extend
  | .chain d hop d' => .chain d.extend hop d'.extend
  | .sum d hplus d' => .sum d.extend hplus d'.extend
  | .unary hop d => .unary hop d.extend
  | .leaf hleaf => .leaf hleaf.extend
  | .bareCall ht hu hv => .bareCall ht hu hv
  | .call ht hu ds hv => .call ht hu ds.extend hv
  | .group ht d hu => .group ht d.extend hu
  | .bareFunc ht hps hu hv hw => .bareFunc ht hps hu hv hw
  | .func ht hps hu hv ds hw => .func ht hps hu hv ds.extend hw
  | .tighter hs d => .tighter hs d.extend

def Items.extend {ts es} : Items extended ts es → Items true ts es
  | .one d => .one d.extend
  | .more d hc ds => .more d.extend hc ds.extend

end

mutual

theorem Derivation.levels_extend {s ts e} (lift : Nat) :
    (d : Derivation extended s ts e) → d.extend.levels lift = d.levels lift
  | .assign _ _ d => by simp [Derivation.extend, Derivation.levels, d.levels_extend]
  | .chain d _ d' => by
      simp [Derivation.extend, Derivation.levels, d.levels_extend, d'.levels_extend]
  | .sum d _ d' => by
      simp [Derivation.extend, Derivation.levels, d.levels_extend, d'.levels_extend]
  | .unary _ d => by simp [Derivation.extend, Derivation.levels, d.levels_extend]
  | .leaf _ => by simp [Derivation.extend, Derivation.levels]
  | .bareCall .. => by simp [Derivation.extend, Derivation.levels]
  | .call _ _ ds _ => by simp [Derivation.extend, Derivation.levels, ds.levels_extend]
  | .group _ d _ => by simp [Derivation.extend, Derivation.levels, d.levels_extend]
  | .bareFunc .. => by simp [Derivation.extend, Derivation.levels]
  | .func _ _ _ _ ds _ => by simp [Derivation.extend, Derivation.levels, ds.levels_extend]
  | .tighter _ d => by simp [Derivation.extend, Derivation.levels, d.levels_extend]

theorem Items.levels_extend {ts es} : (ds : Items extended ts es) → ds.extend.levels = ds.levels
  | .one d => by simp [Items.extend, Items.levels, d.levels_extend]
  | .more d _ ds => by simp [Items.extend, Items.levels, d.levels_extend, ds.levels_extend]

end

/-! ## Names and numbers -/

/-- The second token is no name if the first one is a number. -/
def Apart (t u : Token) : Prop :=
  t.kind = .number → u.kind ≠ .ident

/-- No name follows a number directly. -/
def Spaced (ts : List Token) : Prop :=
  ts.IsChain Apart

theorem spaced_nil : Spaced [] :=
  .nil

theorem spaced_one (t : Token) : Spaced [t] :=
  .singleton t

theorem Spaced.cons {t : Token} {ts : List Token} (ht : t.kind ≠ .number) (h : Spaced ts) :
    Spaced (t :: ts) :=
  List.isChain_cons.mpr ⟨fun _ _ hnumber => absurd hnumber ht, h⟩

/-- Between two parts stands a token that is neither a number nor a name. -/
theorem Spaced.append {t : Token} {ts us : List Token} (hts : Spaced ts)
    (ht : t.kind ≠ .number ∧ t.kind ≠ .ident) (hus : Spaced us) : Spaced (ts ++ t :: us) := by
  refine List.IsChain.append hts (hus.cons ht.1) ?_
  rintro u _ v ⟨⟩ _
  exact ht.2

theorem Target.spaced {ts x} : Target ts x → Spaced ts
  | .name _ => spaced_one _
  | .group ht target hu => (target.spaced.append (by simp [hu]) spaced_nil).cons (by simp [ht])

theorem Names.spaced {ts xs} (h : Names ts xs) : Spaced ts := by
  induction h with
  | one _ => exact spaced_one _
  | more ht hc _ ih => exact (ih.cons (by simp [hc])).cons (by simp [ht])

theorem Params.spaced {ts xs} : Params ts xs → Spaced ts
  | .none => spaced_nil
  | .some h => h.spaced

theorem LeftOp.apart {s : Stratum} {k : Token.Kind} {op : BinaryOp} (h : LeftOp s k op) :
    k ≠ .number ∧ k ≠ .ident := by
  cases h <;> simp

theorem PrefixOp.ne_number {k : Token.Kind} {op : UnaryOp} (h : PrefixOp k op) : k ≠ .number := by
  cases h <;> simp

theorem AssignOp.apart {x : String} {v e : Expr} {k : Token.Kind} (h : AssignOp x v k e) :
    k ≠ .number ∧ k ≠ .ident := by
  cases h <;> simp

mutual

/-- In an expression no name follows a number directly. -/
theorem Derivation.spaced {s ts e} : Derivation extended s ts e → Spaced ts
  | .assign target hop d => target.spaced.append hop.apart d.spaced
  | .chain d hop d' => d.spaced.append hop.apart d'.spaced
  | .sum d hplus d' => d.spaced.append (by simp [hplus]) d'.spaced
  | .unary hop d => d.spaced.cons hop.ne_number
  | .leaf _ => spaced_one _
  | .bareCall ht hu _ => ((spaced_one _).cons (by simp [hu])).cons (by simp [ht])
  | .call ht hu ds hv =>
      ((ds.spaced.append (by simp [hv]) spaced_nil).cons (by simp [hu])).cons (by simp [ht])
  | .group ht d hu => (d.spaced.append (by simp [hu]) spaced_nil).cons (by simp [ht])
  | .bareFunc ht hps hu hv _ =>
      (hps.spaced.append (by simp [hu])
        ((spaced_one _).cons (by simp [hv]))).cons (by simp [ht])
  | .func ht hps hu hv ds hw =>
      (hps.spaced.append (by simp [hu])
        ((ds.spaced.append (by simp [hw]) spaced_nil).cons (by simp [hv]))).cons (by simp [ht])
  | .tighter _ d => d.spaced

theorem Items.spaced {ts es} : Items extended ts es → Spaced ts
  | .one d => d.spaced
  | .more d hc ds => d.spaced.append (by simp [hc]) ds.spaced

end

end Grammar

open Grammar

theorem ofTokens_extended {ts : List Token} {e : Expr} (h : Expr.ofTokens false ts = .ok e) :
    Expr.ofTokens true ts = .ok e := by
  obtain ⟨d⟩ := derivation_of_ofTokens h
  by_cases hfits : d.nesting ≤ maxDepth ∧ e.height ≤ maxHeight
  · refine (ofTokens_within d.extend).1 ?_
    rwa [Derivation.nesting, d.levels_extend]
  · obtain ⟨us, hus⟩ := (ofTokens_within d).2 hfits
    rw [h] at hus
    cases hus

/-! ## Tokens -/

namespace Token

open Text

/-- Where no binary literal begins, the lexeme is the same. -/
theorem lexeme?_extended {c : Char} {cs : List Char}
    (h : ¬ (c = '0' ∧ ∃ digits, cs = 'b' :: digits)) :
    lexeme? true c cs = lexeme? false c cs := by
  have hnumber : numberLexeme true c cs = numberLexeme false c cs := by
    unfold numberLexeme
    split
    · rfl
    · exact absurd ⟨rfl, _, rfl⟩ h
    · rfl
  simp only [lexeme?, hnumber]

theorem Cuts.head_of_isIdentStart {extended : Bool} {pos : Nat} {c : Char} {cs : List Char}
    {ts : List Token} (h : Cuts extended pos (c :: cs) ts) (hc : isIdentStart c = true) :
    ∃ t us, ts = t :: us ∧ t.kind = .ident := by
  cases h with
  | blank hblank _ =>
      rw [isBlank_eq_false hc rfl] at hblank
      cases hblank
  | token _ hlex _ _ =>
      rw [lexeme?_of_isIdentStart hc] at hlex
      cases hlex
      exact ⟨_, _, rfl, rfl⟩

/-- The tokens of a text are the same with extended literals, if no name follows a number. -/
theorem Cuts.extend {pos : Nat} {cs : List Char} {ts : List Token} (h : Cuts false pos cs ts)
    (hts : Spaced ts) : Cuts true pos cs ts := by
  induction h with
  | done => exact .done
  | blank hblank _ ih => exact .blank hblank (ih hts)
  | @token pos c cs k v tail ts hblank hlex hcs hcut ih =>
      by_cases hmark : c = '0' ∧ ∃ digits, cs = 'b' :: digits
      · -- A zero is read as a number here, and the mark after it as the begin of a name.
        obtain ⟨rfl, digits, rfl⟩ := hmark
        cases hlex
        cases hcs
        obtain ⟨t, us, rfl, ht⟩ := hcut.head_of_isIdentStart rfl
        exact absurd ht ((List.isChain_cons_cons.mp hts).1 rfl)
      · exact .token hblank ((lexeme?_extended hmark).trans hlex) hcs (ih hts.tail)

theorem ofSource_extended {warn : Bool} {source : String} {ts : List Token}
    (h : ofSource { extended := false, warn } source = .ok (ts ++ [endMark source.length]))
    (hts : Spaced ts) :
    ofSource { extended := true, warn } source = .ok (ts ++ [endMark source.length]) := by
  obtain ⟨us, heq, hcut⟩ := scan_eq_ok_iff.mp h
  obtain ⟨rfl, hmark⟩ := List.append_inj' heq rfl
  exact scan_eq_ok_iff.mpr ⟨ts, by rw [hmark], hcut.extend hts⟩

end Token

/-! ## Sources -/

open Token

theorem parse_extended_eq {warn : Bool} {source : String} {e : Expr}
    (h : (parse { extended := false, warn } source).result = .ok e) :
    parse { extended := true, warn } source = parse { extended := false, warn } source := by
  cases hsource : ofSource { extended := false, warn } source with
  | error u =>
      rw [(parse_of_unclosed hsource).2] at h
      cases h
  | ok tokens =>
      obtain ⟨ts, rfl, hcut⟩ := cuts_of_tokenize (tokenize_eq_ok.mpr hsource)
      have hts : ∀ t ∈ ts, t.kind ≠ .eof := noMark_of_validTokens hcut.valid
      have hmark : (endMark source.length).kind = .eof := rfl
      rw [parse_result hsource, treeify_ok hts hmark] at h
      have hread : Expr.ofTokens false ts = .ok e := h
      obtain ⟨d⟩ := derivation_of_ofTokens hread
      have hsource' := ofSource_extended hsource d.spaced
      have htree :
          treeify { extended := true, warn } (some source) (ts ++ [endMark source.length]) =
            treeify { extended := false, warn } (some source) (ts ++ [endMark source.length]) := by
        simp only [treeify, Expr.ofInput, tokens_ofList hts hmark, hread, ofTokens_extended hread]
      simp only [parse, tokenize, hsource, hsource', Logged.andThen, htree]
      rfl

theorem parse_eq_of_widens {s s' : Settings} {source : String} {e : Expr} (hwidens : s.Widens s')
    (h : (parse s source).result = .ok e) : parse s' source = parse s source := by
  obtain ⟨extended, warn⟩ := s
  obtain ⟨extended', warn'⟩ := s'
  obtain rfl : warn' = warn := hwidens.warn_eq
  cases extended with
  | true =>
      obtain rfl : extended' = true := hwidens.extended rfl
      rfl
  | false =>
      cases extended' with
      | true => exact parse_extended_eq h
      | false => rfl

open CommandLine in
/-- A source that is accepted without extended literals has the same tree with them, and leaves the
same records. So it is when they are switched on for a run, in whatever layer of the settings. -/
theorem parse_extended (source : String) :
    (∀ {warn e}, (parse { extended := false, warn } source).result = .ok e →
      (parse { extended := true, warn } source).result = .ok e ∧
        (parse { extended := true, warn } source).records =
          (parse { extended := false, warn } source).records) ∧
    (∀ {o o' around around' s e}, SwitchesOn o around o' around' →
      (o.settings around).result = .ok s → (parse s source).result = .ok e →
      ∃ s', (o'.settings around').result = .ok s' ∧ parse s' source = parse s source) := by
  constructor
  · intro warn e h
    rw [parse_extended_eq h]
    exact ⟨h, rfl⟩
  · intro o o' around around' s e hswitch hs h
    obtain ⟨s', hs', hwidens⟩ := hswitch.widens hs
    exact ⟨s', hs', parse_eq_of_widens hwidens h⟩

open CommandLine in
/-- A name that looks like a binary literal is still a name, also in a run with the variable set. -/
theorem parse_extended_name :
    (parse { extended := false } "12 + b101").result =
      .ok (.binary .add (.number .dec "12") (.var "b101")) ∧
    (parse { extended := true } "12 + b101").result =
      .ok (.binary .add (.number .dec "12") (.var "b101")) ∧
    ∃ s', (Options.settings ⟨false, none, false⟩ (Surroundings.withVariable
        ⟨"/", fun _ => .error .missing, fun _ => none⟩ .extended "1")).result = .ok s' ∧
      parse s' "12 + b101" = parse {} "12 + b101" := by
  have h : (parse { extended := false } "12 + b101").result =
      .ok (.binary .add (.number .dec "12") (.var "b101")) := rfl
  have hs : (Options.settings ⟨false, none, false⟩
      ⟨"/", fun _ => .error .missing, fun _ => none⟩).result = .ok {} := rfl
  have htext : Settings.switchOfVariable? "1" = some true := by decide +kernel
  exact ⟨h, ((parse_extended _).1 h).1, (parse_extended _).2 (.byVariable htext) hs h⟩

end DebugExpr
