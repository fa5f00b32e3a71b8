import DebugExpr.CommandLine.Run

/-!
# The layers of settings

A field has the value of its variable, or else that of the section of the file, or else its
default. Extended literals can be switched on in each of the layers, and by the option.
-/

namespace DebugExpr

namespace Settings

open Document

variable {around : Surroundings} {t : Table} {s : Settings}

/-! ## Sections -/

theorem ofTable_eq_ok :
    ofTable t = .ok s ↔ (∀ f, fieldOfTable t f = .ok (s.get f)) ∧ unknownFields t = [] := by
  obtain ⟨extended, warn⟩ := s
  have hall : (∀ f, fieldOfTable t f = .ok (get ⟨extended, warn⟩ f)) ↔
      fieldOfTable t .extended = .ok extended ∧ fieldOfTable t .warn = .ok warn :=
    ⟨fun h => ⟨h .extended, h .warn⟩, fun h f => by cases f <;> simp [get, h.1, h.2]⟩
  rw [hall]
  unfold ofTable
  split
  · rename_i hext hwarn hnone
    simp [hext, hwarn, hnone]
  · rename_i hother
    simp only [reduceCtorEq, false_iff]
    rintro ⟨⟨hext, hwarn⟩, hnone⟩
    exact hother _ _ hext hwarn hnone

theorem isField_name (f : Field) : isField f.name = true := by
  cases f <;> rfl

theorem name_injective {f g : Field} (h : f.name = g.name) : f = g := by
  cases f <;> cases g <;> simp_all [Field.name]

theorem unknownFields_set (f : Field) (v : Value) (t : Table) :
    unknownFields (t.set f.name v) = unknownFields t := by
  induction t with
  | nil => simp [Table.set, unknownFields, isField_name]
  | cons e rest ih =>
      obtain ⟨key, w⟩ := e
      rw [Table.set]
      split
      · rename_i hkey
        rw [beq_iff_eq] at hkey
        subst hkey
        simp [unknownFields, isField_name]
      · simp only [unknownFields, List.filter_cons] at ih ⊢
        split <;> simp [ih]

theorem fieldOfTable_set_self (f : Field) (b : Bool) (t : Table) :
    fieldOfTable (t.set f.name (.bool b)) f = .ok b := by
  rw [fieldOfTable, Table.get?_set_self]
  rfl

theorem fieldOfTable_set_of_ne {f g : Field} (h : g ≠ f) (v : Value) (t : Table) :
    fieldOfTable (t.set f.name v) g = fieldOfTable t g := by
  have hname : g.name ≠ f.name := fun hname => h (name_injective hname)
  simp only [fieldOfTable, Table.get?_set_of_ne hname]

/-! ## Layers -/

/-- The value of a field by its layers: the variable goes before the section, and the section
before the default. -/
def layered (around : Surroundings) (t : Table) (f : Field) : Option Bool :=
  match around.env f.variableName with
  | some text => switchOfVariable? text
  | none => (fieldOfTable t f).toOption

/-- What the variable of a field does to a section: it sets this field only. -/
theorem overrideField_eq_ok {f : Field} {t' : Table} (h : overrideField around t f = .ok t') :
    layered around t f = (fieldOfTable t' f).toOption ∧
      (∀ g, g ≠ f → fieldOfTable t' g = fieldOfTable t g) ∧ unknownFields t' = unknownFields t := by
  unfold overrideField at h
  unfold layered
  split at h
  · rename_i hnone
    cases h
    simp [hnone]
  · rename_i text htext
    split at h
    · rename_i b hb
      cases h
      rw [htext, fieldOfTable_set_self]
      exact ⟨hb, fun g hg => fieldOfTable_set_of_ne hg _ t, unknownFields_set f _ t⟩
    · cases h

theorem overrideField_of_layered {f : Field} {b : Bool} (h : layered around t f = some b) :
    ∃ t', overrideField around t f = .ok t' := by
  unfold layered at h
  unfold overrideField
  split at h
  · rename_i text htext
    exact ⟨t.set f.name (.bool b), by rw [htext]; simp only [h]⟩
  · rename_i hnone
    exact ⟨t, by rw [hnone]⟩

theorem ofSection_eq_ok :
    ofSection around t = .ok s ↔ ∃ t₁ t₂, overrideField around t .extended = .ok t₁ ∧
      overrideField around t₁ .warn = .ok t₂ ∧ ofTable t₂ = .ok s := by
  simp only [ofSection, Field.all, List.foldlM, bind, Except.bind]
  cases overrideField around t .extended with
  | error e => simp
  | ok t₁ =>
      dsimp only
      cases hwarn : overrideField around t₁ .warn with
      | error e => simp [hwarn]
      | ok t₂ => cases htable : ofTable t₂ <;> simp [hwarn, htable, pure, Except.pure]

theorem toOption_eq_some {ε α : Type} {x : Except ε α} {a : α} :
    x.toOption = some a ↔ x = .ok a := by
  cases x <;> simp [Except.toOption]

theorem layered_congr {f : Field} {t' : Table} (h : fieldOfTable t' f = fieldOfTable t f) :
    layered around t' f = layered around t f := by
  simp only [layered, h]

/-- The settings of a section are those that its layers have, if it has no other fields. -/
theorem ofSection_eq_ok_iff :
    ofSection around t = .ok s ↔
      (∀ f, layered around t f = some (s.get f)) ∧ unknownFields t = [] := by
  rw [ofSection_eq_ok]
  -- The variables change the section one after the other, and each leaves the other field alone.
  constructor
  · rintro ⟨t₁, t₂, hext, hwarn, htable⟩
    obtain ⟨hfields, hnone⟩ := ofTable_eq_ok.mp htable
    obtain ⟨hext, hother₁, hunknown₁⟩ := overrideField_eq_ok hext
    obtain ⟨hwarn, hother₂, hunknown₂⟩ := overrideField_eq_ok hwarn
    refine ⟨fun f => ?_, by rw [← hunknown₁, ← hunknown₂, hnone]⟩
    cases f with
    | extended =>
        rw [hext, ← hother₂ .extended nofun, hfields]
        rfl
    | warn =>
        rw [← layered_congr (hother₁ .warn nofun), hwarn, hfields]
        rfl
  · rintro ⟨hlayers, hnone⟩
    obtain ⟨t₁, ht₁⟩ := overrideField_of_layered (hlayers .extended)
    obtain ⟨hext, hother₁, hunknown₁⟩ := overrideField_eq_ok ht₁
    have hlayer : layered around t₁ .warn = some s.warn := by
      rw [layered_congr (hother₁ .warn nofun), hlayers]
      rfl
    obtain ⟨t₂, ht₂⟩ := overrideField_of_layered hlayer
    obtain ⟨hwarn, hother₂, hunknown₂⟩ := overrideField_eq_ok ht₂
    refine ⟨t₁, t₂, ht₁, ht₂, ofTable_eq_ok.mpr ⟨fun f => ?_, by rw [hunknown₂, hunknown₁, hnone]⟩⟩
    cases f with
    | extended =>
        rw [hother₂ .extended nofun, ← toOption_eq_some, ← hext, hlayers]
    | warn =>
        rw [← toOption_eq_some, ← hwarn, hlayer]
        rfl

/-! ## Files -/

/-- The section that settings are read from; it is empty if no file is read. -/
def chosenSection (around : Surroundings) (path : Option String) : Except LoadFailure Table :=
  if path.any (!Path.isUsable ·) then .error .badPath
  else
    match chosenFile around path with
    | none => .ok []
    | some (path, contents) => readSection path contents

theorem load_eq_ok {path : Option String} :
    (load around path).result = .ok s ↔
      ∃ t, chosenSection around path = .ok t ∧ ofSection around t = .ok s := by
  unfold load chosenSection
  split
  · simp
  · cases chosenFile around path with
    | none => simp
    | some file =>
        dsimp only
        cases readSection file.1 file.2 <;> simp

/-! ## Extended literals switched on -/

/-- The settings differ at most in that the second ones read extended literals. -/
structure Widens (s s' : Settings) : Prop where
  warn_eq : s'.warn = s.warn
  extended : s.extended = true → s'.extended = true

theorem ofSection_widens {around' : Surroundings} {t' : Table} {b : Bool}
    (h : ofSection around t = .ok s) (hunknown : unknownFields t' = unknownFields t)
    (hwarn : layered around' t' .warn = layered around t .warn)
    (hext : layered around' t' .extended = some b) (hb : s.extended = true → b = true) :
    ∃ s', ofSection around' t' = .ok s' ∧ s.Widens s' := by
  obtain ⟨hlayers, hnone⟩ := ofSection_eq_ok_iff.mp h
  refine ⟨{ s with extended := b }, ofSection_eq_ok_iff.mpr ⟨fun f => ?_, hunknown.trans hnone⟩,
    rfl, hb⟩
  cases f with
  | extended => exact hext
  | warn => exact hwarn.trans (hlayers .warn)

end Settings

/-- The surroundings with a value for the variable of a field. -/
def Surroundings.withVariable (around : Surroundings) (f : Settings.Field) (text : String) :
    Surroundings :=
  { around with env := fun name => if name = f.variableName then some text else around.env name }

namespace Settings

theorem ofSection_withVariable {text : String} (htext : switchOfVariable? text = some true)
    (h : ofSection around t = .ok s) :
    ∃ s', ofSection (around.withVariable .extended text) t = .ok s' ∧ s.Widens s' := by
  have hwarn : layered (around.withVariable .extended text) t .warn = layered around t .warn := by
    simp [layered, Surroundings.withVariable, Field.variableName]
  have hext : layered (around.withVariable .extended text) t .extended = some true := by
    simpa [layered, Surroundings.withVariable] using htext
  exact ofSection_widens h rfl hwarn hext fun _ => rfl

/-- A section that switches extended literals on does so unless the variable goes before it. -/
theorem ofSection_set {around' : Surroundings} (henv : around'.env = around.env)
    (h : ofSection around t = .ok s) :
    ∃ s', ofSection around' (t.set Field.extended.name (.bool true)) = .ok s' ∧ s.Widens s' := by
  have hne : Field.warn ≠ .extended := nofun
  have hwarn : layered around' (t.set Field.extended.name (.bool true)) .warn =
      layered around t .warn := by
    simp only [layered, henv, fieldOfTable_set_of_ne hne]
  have hunknown := unknownFields_set .extended (.bool true) t
  have hlayer : layered around t .extended = some s.extended :=
    (ofSection_eq_ok_iff.mp h).1 .extended
  cases hvariable : around.env Field.extended.variableName with
  | none =>
      refine ofSection_widens h hunknown hwarn (b := true) ?_ fun _ => rfl
      simp [layered, henv, hvariable, fieldOfTable_set_self, Except.toOption]
  | some text =>
      -- The variable goes before the section, so the field keeps its value.
      refine ofSection_widens h hunknown hwarn ?_ id
      simpa [layered, henv, hvariable] using hlayer

end Settings

namespace CommandLine

open Settings

/-- A run with extended literals switched on: by the option, by the variable of the environment, or
in the section of the file. -/
inductive SwitchesOn (o : Options) (around : Surroundings) : Options → Surroundings → Prop
  | byOption : SwitchesOn o around { o with extended := true } around
  | byVariable {text} :
      switchOfVariable? text = some true →
      SwitchesOn o around o (around.withVariable .extended text)
  | byFile {around' config t} :
      around'.env = around.env → chosenSection around o.config = .ok t →
      chosenSection around' config = .ok (t.set Field.extended.name (.bool true)) →
      SwitchesOn o around { o with config } around'

variable {o o' : Options} {around around' : Surroundings} {s : Settings}

theorem settings_eq_ok :
    (o.settings around).result = .ok s ↔
      ∃ loaded, (load around o.config).result = .ok loaded ∧
        { loaded with extended := loaded.extended || o.extended } = s := by
  simp only [Options.settings]
  cases (load around o.config).result <;> simp [Except.map]

theorem widens_or {s s' : Settings} (h : s.Widens s') (extended : Bool) :
    Widens { s with extended := s.extended || extended }
      { s' with extended := s'.extended || extended } where
  warn_eq := h.warn_eq
  extended hext := by
    rw [Bool.or_eq_true] at hext ⊢
    exact hext.imp_left h.extended

/-- With extended literals switched on, the settings are the same but for them. -/
theorem SwitchesOn.widens (h : SwitchesOn o around o' around')
    (hs : (o.settings around).result = .ok s) :
    ∃ s', (o'.settings around').result = .ok s' ∧ s.Widens s' := by
  obtain ⟨loaded, hload, rfl⟩ := settings_eq_ok.mp hs
  obtain ⟨t, hsection, ht⟩ := load_eq_ok.mp hload
  cases h with
  | byOption =>
      exact ⟨_, settings_eq_ok.mpr ⟨loaded, hload, rfl⟩, rfl, fun _ => Bool.or_true _⟩
  | byVariable htext =>
      obtain ⟨s', hs', hwidens⟩ := ofSection_withVariable htext ht
      exact ⟨_, settings_eq_ok.mpr ⟨s', load_eq_ok.mpr ⟨t, hsection, hs'⟩, rfl⟩,
        widens_or hwidens o.extended⟩
  | byFile henv hsection' hset =>
      cases hsection.symm.trans hsection'
      obtain ⟨s', hs', hwidens⟩ := ofSection_set henv ht
      exact ⟨_, settings_eq_ok.mpr ⟨s', load_eq_ok.mpr ⟨_, hset, hs'⟩, rfl⟩,
        widens_or hwidens o.extended⟩

end CommandLine

end DebugExpr
