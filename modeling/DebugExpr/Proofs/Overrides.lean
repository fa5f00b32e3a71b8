import DebugExpr.Proofs.Reports

/-!
# Overridden settings

Where the configuration file reads as a document, or there is none, it is the section and the
variables alone that decide about the settings, each field by itself. A variable hides the entry of
its own field, whatever it is, and nothing else.
-/

namespace DebugExpr

namespace Settings

open Document

variable {around around' : Surroundings} {path path' : Option String} {found : Option Value}
  {t t' : Table} {s s' : Settings} {f g : Field} {text : String} {v : Value} {b : Bool}

/-! ## The value of a field -/

/-- The text of a variable stands for a switch. -/
inductive IsSwitch (text : String) : Bool → Prop
  | on : (Text.strip text).toLower ∈ ["1", "true", "yes", "on"] → IsSwitch text true
  | off : (Text.strip text).toLower ∈ ["0", "false", "no", "off"] → IsSwitch text false

theorem switchOfVariable?_eq_some : switchOfVariable? text = some b ↔ IsSwitch text b := by
  unfold switchOfVariable?
  dsimp only
  constructor
  · intro h
    split at h
    · rename_i hon
      cases h
      exact .on hon
    · split at h
      · rename_i hoff
        cases h
        exact .off hoff
      · cases h
  · rintro (hon | hoff)
    · rw [if_pos hon]
    · -- No word stands for both switches.
      have hnot : (Text.strip text).toLower ∉ ["1", "true", "yes", "on"] := by
        intro hon
        simp only [List.mem_cons, List.not_mem_nil, or_false] at hon hoff
        rcases hon with h | h | h | h <;> simp [h] at hoff
      rw [if_neg hnot, if_pos hoff]

/-- A field has the value of its variable, if that is set, or else that of its entry in the section,
if there is one, or else its default. -/
inductive FieldValue (around : Surroundings) (t : Table) (f : Field) : Bool → Prop
  | ofVariable {text : String} {b : Bool} :
      around.env f.variableName = some text → IsSwitch text b → FieldValue around t f b
  | ofEntry {v : Value} {b : Bool} :
      around.env f.variableName = none → t.get? f.name = some v → switchOfValue v = .ok b →
      FieldValue around t f b
  | ofDefault :
      around.env f.variableName = none → t.get? f.name = none → FieldValue around t f f.default

theorem layered_eq_some : layered around t f = some b ↔ FieldValue around t f b := by
  unfold layered
  constructor
  · intro h
    split at h
    · rename_i text htext
      exact .ofVariable htext (switchOfVariable?_eq_some.mp h)
    · rename_i hunset
      rw [toOption_eq_some, fieldOfTable] at h
      split at h
      · rename_i v hv
        exact .ofEntry hunset hv h
      · rename_i hmissing
        cases h
        exact .ofDefault hunset hmissing
  · intro h
    cases h with
    | ofVariable htext hswitch =>
        rw [htext]
        exact switchOfVariable?_eq_some.mpr hswitch
    | ofEntry hunset hv hb =>
        rw [hunset]
        simp only [fieldOfTable, hv, hb, Except.toOption]
    | ofDefault hunset hmissing =>
        rw [hunset]
        simp only [fieldOfTable, hmissing, Except.toOption]

theorem FieldValue.isSwitch (h : FieldValue around t f b)
    (htext : around.env f.variableName = some text) : IsSwitch text b := by
  cases h with
  | ofVariable htext' hswitch =>
      cases htext.symm.trans htext'
      exact hswitch
  | ofEntry hunset => cases htext.symm.trans hunset
  | ofDefault hunset => cases htext.symm.trans hunset

theorem FieldValue.switchOfValue (h : FieldValue around t f b)
    (hunset : around.env f.variableName = none) (hv : t.get? f.name = some v) :
    switchOfValue v = .ok b := by
  cases h with
  | ofVariable htext => cases htext.symm.trans hunset
  | ofEntry _ hv' hb =>
      cases hv.symm.trans hv'
      exact hb
  | ofDefault _ hmissing => cases hv.symm.trans hmissing

theorem FieldValue.unique {b' : Bool} (h : FieldValue around t f b)
    (h' : FieldValue around t f b') : b = b' :=
  Option.some.inj ((layered_eq_some.mpr h).symm.trans (layered_eq_some.mpr h'))

/-- The value of a field depends on its own variable only and, where that is not set, on its own
entry only. -/
theorem FieldValue.congr (h : FieldValue around t f b)
    (hvariable : around'.env f.variableName = around.env f.variableName)
    (hentry : around.env f.variableName = none → t'.get? f.name = t.get? f.name) :
    FieldValue around' t' f b := by
  cases h with
  | ofVariable htext hswitch => exact .ofVariable (hvariable.trans htext) hswitch
  | ofEntry hunset hv hb => exact .ofEntry (hvariable.trans hunset) ((hentry hunset).trans hv) hb
  | ofDefault hunset hmissing =>
      exact .ofDefault (hvariable.trans hunset) ((hentry hunset).trans hmissing)

/-! ## Sections -/

def OnlyFields (t : Table) : Prop :=
  ∀ e ∈ t, ∃ f : Field, e.1 = f.name

theorem isField_iff {key : String} : isField key = true ↔ ∃ f : Field, key = f.name := by
  constructor
  · intro h
    obtain ⟨f, -, hf⟩ := List.any_eq_true.mp h
    exact ⟨f, (beq_iff_eq.mp hf).symm⟩
  · rintro ⟨f, rfl⟩
    exact isField_name f

theorem unknownFields_eq_nil : unknownFields t = [] ↔ OnlyFields t := by
  simp [unknownFields, OnlyFields, List.filter_eq_nil_iff, isField_iff]

theorem onlyFields_set : OnlyFields (t.set f.name v) ↔ OnlyFields t := by
  rw [← unknownFields_eq_nil, unknownFields_set, unknownFields_eq_nil]

/-- Settings can be made of a section under the variables. -/
structure Acceptable (around : Surroundings) (t : Table) : Prop where
  switches : ∀ (f : Field) text, around.env f.variableName = some text → ∃ b, IsSwitch text b
  keys : OnlyFields t
  /-- The entries that no variable hides. -/
  entries : ∀ (f : Field) v, around.env f.variableName = none → t.get? f.name = some v →
    ∃ b, switchOfValue v = .ok b

theorem ofSection_eq_ok_iff_value :
    ofSection around t = .ok s ↔ (∀ f, FieldValue around t f (s.get f)) ∧ OnlyFields t := by
  simp only [ofSection_eq_ok_iff, layered_eq_some, unknownFields_eq_nil]

theorem Acceptable.value (h : Acceptable around t) (f : Field) : ∃ b, FieldValue around t f b := by
  cases hvariable : around.env f.variableName with
  | some text =>
      obtain ⟨b, hb⟩ := h.switches f text hvariable
      exact ⟨b, .ofVariable hvariable hb⟩
  | none =>
      cases hentry : t.get? f.name with
      | some v =>
          obtain ⟨b, hb⟩ := h.entries f v hvariable hentry
          exact ⟨b, .ofEntry hvariable hentry hb⟩
      | none => exact ⟨f.default, .ofDefault hvariable hentry⟩

theorem exists_ofSection_iff : (∃ s, ofSection around t = .ok s) ↔ Acceptable around t := by
  simp only [ofSection_eq_ok_iff_value]
  constructor
  · rintro ⟨s, hvalues, hkeys⟩
    exact ⟨fun f _ htext => ⟨_, (hvalues f).isSwitch htext⟩, hkeys,
      fun f _ hunset hv => ⟨_, (hvalues f).switchOfValue hunset hv⟩⟩
  · intro h
    choose value hvalue using h.value
    refine ⟨ofFields value, fun f => ?_, h.keys⟩
    rw [get_ofFields]
    exact hvalue f

/-- What the entry of a field is does not matter where its variable is set. -/
theorem ofSection_set_of_variable (henv : around'.env = around.env)
    (htext : around.env f.variableName = some text) :
    ofSection around' (t.set f.name v) = .ok s ↔ ofSection around t = .ok s := by
  simp only [ofSection_eq_ok_iff_value, onlyFields_set]
  have hentry (g : Field) (hunset : around.env g.variableName = none) :
      Table.get? (t.set f.name v) g.name = t.get? g.name := by
    refine Table.get?_set_of_ne (fun hname => ?_) v t
    cases name_injective hname
    cases htext.symm.trans hunset
  refine and_congr_left fun _ => forall_congr' fun g => ⟨fun h => ?_, fun h => ?_⟩
  · refine h.congr (by rw [henv]) fun hunset => ?_
    rw [henv] at hunset
    exact (hentry g hunset).symm
  · exact h.congr (by rw [henv]) (hentry g)

/-! ## Documents -/

/-- There is no file, and so no section, or the file reads as a document with this section. -/
inductive Reads (around : Surroundings) : Option String → Option Value → Prop
  | noFile : around.read (.ofString fileName) = .error .missing → Reads around none none
  | file {path : Option String} {shown text : String} {bytes : ByteArray} {document : Table} :
      path.all Path.isUsable = true → chosenFile around path = some (shown, .ok bytes) →
      String.fromUTF8? bytes = some text → Toml.read text = .ok document →
      Reads around path (document.get? sectionName)

/-- The section is missing, which is as good as an empty one, or a table. -/
inductive SectionTable : Option Value → Table → Prop
  | missing : SectionTable none []
  | table (t : Table) : SectionTable (some (.table t)) t

theorem sectionOf_eq_ok {shown : String} {document : Table} :
    sectionOf shown document = .ok t ↔ SectionTable (document.get? sectionName) t := by
  unfold sectionOf
  split
  · rename_i hmissing
    rw [hmissing]
    exact ⟨fun h => by cases h; exact .missing, fun h => by cases h; rfl⟩
  · rename_i htable
    rw [htable]
    exact ⟨fun h => by cases h; exact .table _, fun h => by cases h; rfl⟩
  · rename_i v hne hother
    rw [hother]
    refine ⟨nofun, fun h => ?_⟩
    cases h with
    | table => exact absurd rfl (hne t)

theorem fromUTF8?_toUTF8 (s : String) : String.fromUTF8? s.toUTF8 = some s := by
  simp [String.fromUTF8?, String.fromUTF8, s.isValidUTF8]

theorem not_any_unusable (h : path.all Path.isUsable = true) :
    ¬ path.any (!Path.isUsable ·) = true := by
  cases path <;> simp_all

theorem Reads.chosenSection_eq_ok (h : Reads around path found) :
    chosenSection around path = .ok t ↔ SectionTable found t := by
  cases h with
  | noFile hmissing =>
      simp only [chosenSection, chosenFile, hmissing, Option.any_none, Bool.false_eq_true,
        if_false]
      exact ⟨fun h => by cases h; exact .missing, fun h => by cases h; rfl⟩
  | file husable hfile htext hread =>
      rw [chosenSection, if_neg (not_any_unusable husable), hfile]
      simp only [readSection, htext, hread, sectionOf_eq_ok]

theorem Reads.load_eq_ok_iff (h : Reads around path found) :
    (load around path).result = .ok s ↔ ∃ t, SectionTable found t ∧ ofSection around t = .ok s := by
  simp only [load_eq_ok, h.chosenSection_eq_ok]

theorem Reads.checkable (h : Reads around path found) : Checkable around path := by
  cases h with
  | noFile hmissing =>
      refine ⟨nofun, fun shown bytes hfile => ?_⟩
      simp [chosenFile, hmissing] at hfile
  | file husable hfile htext hread =>
      refine ⟨?_, fun shown bytes hfile' => ?_⟩
      · rintro p rfl
        simpa using husable
      · cases hfile.symm.trans hfile'
        exact ⟨_, htext, by simp [hread]⟩

/-- Variables do not change what is read from files. -/
theorem Reads.withVariable (h : Reads around path found) (f : Field) (text : String) :
    Reads (around.withVariable f text) path found := by
  cases h with
  | noFile hmissing => exact .noFile hmissing
  | file husable hfile htext hread => exact .file husable hfile htext hread

theorem SectionTable.unique (h : SectionTable found t) (h' : SectionTable found t') :
    t' = t := by
  cases h <;> cases h' <;> rfl

theorem Reads.exists_load_iff (h : Reads around path found) :
    (∃ s, (load around path).result = .ok s) ↔
      ∃ t, SectionTable found t ∧ Acceptable around t := by
  simp only [h.load_eq_ok_iff, ← exists_ofSection_iff]
  exact ⟨fun ⟨s, t, ht, hs⟩ => ⟨t, ht, s, hs⟩, fun ⟨t, ht, s, hs⟩ => ⟨s, t, ht, hs⟩⟩

theorem Reads.value (h : Reads around path found) (hs : (load around path).result = .ok s)
    (ht : SectionTable found t) (f : Field) : FieldValue around t f (s.get f) := by
  obtain ⟨t', ht', hs⟩ := h.load_eq_ok_iff.mp hs
  cases ht.unique ht'
  exact (ofSection_eq_ok_iff_value.mp hs).1 f

/-- The variable of a field does not change the other one. -/
theorem Reads.get_withVariable (h : Reads around path found)
    (hs : (load around path).result = .ok s)
    (hs' : (load (around.withVariable f text) path).result = .ok s') (hne : g ≠ f) :
    s'.get g = s.get g := by
  obtain ⟨t, ht, -⟩ := h.load_eq_ok_iff.mp hs
  have hvariable : (around.withVariable f text).env g.variableName = around.env g.variableName := by
    cases f <;> cases g <;> simp_all [Surroundings.withVariable, Field.variableName]
  have hvalue := (h.value hs ht g).congr hvariable fun _ => rfl
  exact ((h.withVariable f text).value hs' ht g).unique hvalue

theorem Reads.load_set (h : Reads around path (some (.table t)))
    (h' : Reads around' path' (some (.table (t.set f.name v)))) (henv : around'.env = around.env)
    (htext : around.env f.variableName = some text) :
    (load around' path').result = .ok s ↔ (load around path).result = .ok s := by
  have htable (t : Table) (around : Surroundings) :
      (∃ t', SectionTable (some (.table t)) t' ∧ ofSection around t' = .ok s) ↔
        ofSection around t = .ok s := by
    refine ⟨?_, fun hs => ⟨t, .table t, hs⟩⟩
    rintro ⟨t', ht', hs⟩
    rwa [SectionTable.unique (.table t) ht'] at hs
  rw [h.load_eq_ok_iff, h'.load_eq_ok_iff, htable, htable, ofSection_set_of_variable henv htext]

end Settings

namespace CommandLine

open Document Settings

variable {around : Surroundings} {path : Option String} {found : Option Value}
  {o : Options}

/-- The option for extended literals forces that field and leaves the other one alone. -/
theorem settings_of_load {s : Settings} (h : (load around o.config).result = .ok s) :
    (o.settings around).result = .ok (if o.extended then { s with extended := true } else s) := by
  rw [settings_eq_ok]
  refine ⟨s, h, ?_⟩
  cases o.extended <;> simp

/-- Settings are loaded exactly if the section, under the variables, is acceptable, and each field
has the value of its layers. Where the variable of a field is set, its entry does not matter, and
no variable changes the other field. The option forces extended literals on settings that are
loaded; if none are, the command reports it. -/
theorem load_layers (h : Reads around path found) :
    ((∃ s, (load around path).result = .ok s) ↔
      ∃ t, SectionTable found t ∧ Acceptable around t) ∧
    (∀ s t, (load around path).result = .ok s → SectionTable found t →
      ∀ f, FieldValue around t f (s.get f)) ∧
    (∀ (f : Field) text (t : Table) v around' path', around.env f.variableName = some text →
      found = some (.table t) → around'.env = around.env →
      Reads around' path' (some (.table (t.set f.name v))) →
      ∀ s, (load around' path').result = .ok s ↔ (load around path).result = .ok s) ∧
    (∀ f text s s', (load around path).result = .ok s →
      (load (around.withVariable f text) path).result = .ok s' → ∀ g ≠ f, s'.get g = s.get g) ∧
    ∀ o : Options, o.config = path →
      (∀ s, (load around path).result = .ok s →
        (o.settings around).result =
          .ok (if o.extended then { s with extended := true } else s)) ∧
      ∀ e, (load around path).result = .error e →
        (o.settings around).result = .error e ∧
        ∀ console args task, Request.ofArguments args = .task o task →
          ∃ stderr, run around console args =
            .ok { stdout := say e.message, stderr, exitCode := 1 } := by
  refine ⟨h.exists_load_iff, fun s t hs ht => h.value hs ht, ?_, ?_, ?_⟩
  · rintro f text t v around' path' htext rfl henv h' s
    exact h.load_set h' henv htext
  · intro f text s s' hs hs' g hne
    exact h.get_withVariable hs hs' hne
  · rintro o rfl
    refine ⟨fun s hs => settings_of_load hs, fun e he => ⟨settings_eq_error he, ?_⟩⟩
    intro console args task hargs
    have hrun := run_of_failure console hargs he
    rw [if_pos ((checkable_of_failure he).mp h.checkable)] at hrun
    exact ⟨_, hrun⟩

/-- An entry that stands for no switch is hidden by the variable of its field; the other entry
counts. -/
theorem load_layers_of_hidden_entry :
    let text := "[tinyexpr]\nextended = 7\nwarn = \"No\"\n"
    let around : Surroundings := ⟨"/home", fun _ => .ok text.toUTF8,
      fun name => if name = "TINYEXPR_EXTENDED" then some " Yes " else none⟩
    ∃ found t, Reads around none found ∧ SectionTable found t ∧
      (fieldOfTable t .extended).toOption = none ∧
      (load around none).result = .ok { extended := true, warn := false } := by
  intro text around
  have hcheck : ((Toml.read text).toOption.bind (sectionOf "" · |>.toOption)).any (fun t =>
      (fieldOfTable t .extended).toOption = none ∧ (fieldOfTable t .warn).toOption = some false ∧
        unknownFields t = []) = true := by
    decide +kernel
  obtain ⟨t, hsection, ht⟩ := (Option.any_eq_true _ _).mp hcheck
  obtain ⟨hbad, hwarn, hkeys⟩ := of_decide_eq_true ht
  obtain ⟨document, hread, hsection⟩ := Option.bind_eq_some_iff.mp hsection
  rw [toOption_eq_some] at hread hsection
  have htable := sectionOf_eq_ok.mp hsection
  have hreads : Reads around none (document.get? sectionName) :=
    .file rfl rfl (fromUTF8?_toUTF8 text) hread
  have hext : FieldValue around t .extended true := .ofVariable rfl (.on (by decide +kernel))
  have hwarn : FieldValue around t .warn false := layered_eq_some.mp hwarn
  have hacceptable : Acceptable around t := by
    refine exists_ofSection_iff.mp ⟨{ extended := true, warn := false }, ?_⟩
    refine ofSection_eq_ok_iff_value.mpr ⟨fun f => ?_, unknownFields_eq_nil.mp hkeys⟩
    cases f with
    | extended => exact hext
    | warn => exact hwarn
  obtain ⟨hloads, hvalue, -⟩ := load_layers hreads
  obtain ⟨s, hs⟩ := hloads.mpr ⟨t, htable, hacceptable⟩
  refine ⟨_, t, hreads, htable, hbad, ?_⟩
  rw [hs]
  obtain ⟨extended, warn⟩ := s
  cases (hvalue _ t hs htable .extended).unique hext
  cases (hvalue _ t hs htable .warn).unique hwarn
  rfl

end CommandLine

end DebugExpr
