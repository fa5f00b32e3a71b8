import DebugExpr.Proofs.Layers
import DebugExpr.Proofs.Session

/-!
# Settings that cannot be loaded

Most failures to load the settings are reported: a command ends with their message and the exit
code 1. Three are not, and they end the run without an output: a path that no file can have, a file
that is no text, and an integer with too many digits.

This is so as far as the surroundings go: the directory is there, a file that is looked for is found
or not and gives its bytes or the reason why they cannot be read, and the document in it is read
however deep its values are nested. What else a system can do to a run is left out, and the message
about values that are not allowed has a text that stands in for the validator's.
-/

namespace DebugExpr

namespace Settings

open Document

variable {around : Surroundings} {path : Option String}

/-! ## Reported failures -/

/-- All the failures that can come of it are reported. -/
def Reports {α : Type} (x : Except LoadFailure α) : Prop :=
  ∀ e, x = .error e → e.isReported = true

theorem reports_ok {α : Type} (a : α) : Reports (.ok a) :=
  nofun

theorem reports_error {α : Type} {e : LoadFailure} :
    Reports (.error e : Except LoadFailure α) ↔ e.isReported = true := by
  refine ⟨fun h => h e rfl, ?_⟩
  rintro h _ ⟨⟩
  exact h

theorem reports_bind {α β : Type} {x : Except LoadFailure α} {f : α → Except LoadFailure β}
    (hf : ∀ a, Reports (f a)) : Reports (x >>= f) ↔ Reports x := by
  cases x with
  | ok a => exact iff_of_true (hf a) (reports_ok a)
  | error e => exact reports_error.trans reports_error.symm

theorem overrideField_reports (around : Surroundings) (t : Table) (f : Field) :
    Reports (overrideField around t f) := by
  unfold overrideField
  split
  · exact reports_ok _
  · split
    · exact reports_ok _
    · exact reports_error.mpr rfl

/-- What is wrong with a section or a variable is always reported. -/
theorem ofSection_reports (around : Surroundings) (t : Table) : Reports (ofSection around t) := by
  have hfields : Reports (Field.all.foldlM (overrideField around) t) := by
    refine (reports_bind fun t₁ => ?_).mpr (overrideField_reports around t .extended)
    exact (reports_bind reports_ok).mpr (overrideField_reports around t₁ .warn)
  refine (reports_bind fun t => ?_).mpr hfields
  split
  · exact reports_ok _
  · exact reports_error.mpr rfl

/-! ## Files and paths -/

/-- The contents of a file are a text, and no integer in it has too many digits. -/
def Legible (bytes : ByteArray) : Prop :=
  ∃ text, String.fromUTF8? bytes = some text ∧
    ∀ digits, Toml.read text ≠ .error (.longInteger digits)

theorem sectionOf_reports (shown : String) (document : Table) :
    Reports (sectionOf shown document) := by
  unfold sectionOf
  split
  · exact reports_ok _
  · exact reports_ok _
  · exact reports_error.mpr rfl

theorem readSection_reports {shown : String} {contents : Except ReadFailure ByteArray} :
    Reports (readSection shown contents) ↔ ∀ bytes, contents = .ok bytes → Legible bytes := by
  cases contents with
  | error reason => exact iff_of_true (reports_error.mpr rfl) nofun
  | ok bytes =>
      simp only [Except.ok.injEq, forall_eq', Legible, readSection]
      cases String.fromUTF8? bytes with
      | none => simp [reports_error, LoadFailure.isReported]
      | some text =>
          cases hread : Toml.read text with
          | ok document => simp [hread, sectionOf_reports]
          | error f => cases f <;> simp [hread, reports_error, LoadFailure.isReported]

/-- The path of the settings can be that of a file, and the file, if it can be read, is legible. -/
structure Checkable (around : Surroundings) (path : Option String) : Prop where
  usable : ∀ p, path = some p → Path.isUsable p = true
  legible : ∀ shown bytes, chosenFile around path = some (shown, .ok bytes) → Legible bytes

theorem chosenSection_reports : Reports (chosenSection around path) ↔ Checkable around path := by
  unfold chosenSection
  split
  · rename_i hpath
    refine iff_of_false (fun h => absurd (reports_error.mp h) nofun) fun h => ?_
    obtain ⟨p, hp, hunusable⟩ := (Option.any_eq_true _ _).mp hpath
    simp [h.usable p hp] at hunusable
  · rename_i hpath
    have husable : ∀ p, path = some p → Path.isUsable p = true := by
      rintro p rfl
      simpa using hpath
    cases hfile : chosenFile around path with
    | none => exact iff_of_true (reports_ok []) ⟨husable, fun _ _ h => nomatch hfile.symm.trans h⟩
    | some file =>
        refine readSection_reports.trans ⟨fun h => ⟨husable, ?_⟩, fun h bytes hbytes => ?_⟩
        · intro shown bytes hshown
          cases hfile.symm.trans hshown
          exact h bytes rfl
        · exact h.legible file.1 bytes (by rw [hfile, ← hbytes])

theorem load_result :
    (load around path).result = chosenSection around path >>= ofSection around := by
  unfold load chosenSection
  split
  · rfl
  · cases chosenFile around path with
    | none => rfl
    | some file =>
        dsimp only
        cases readSection file.1 file.2 <;> rfl

theorem load_reports : Reports (load around path).result ↔ Checkable around path := by
  rw [load_result, reports_bind (ofSection_reports around), chosenSection_reports]

theorem checkable_of_failure {e : LoadFailure} (h : (load around path).result = .error e) :
    Checkable around path ↔ e.isReported = true := by
  rw [← load_reports, h, reports_error]

end Settings

namespace CommandLine

open Settings

variable {around : Surroundings} {o : Options} {settings : Settings} {args : List String}
  {task : Task} {host : Host}

/-! ## Runs -/

theorem tokensOutput_total (settings : Settings) (verbose : Bool) (source : String) :
    ∃ output, tokensOutput settings verbose source = .ok output := by
  unfold tokensOutput report tokenize
  cases Token.ofSource settings source with
  | ok tokens => exact ⟨_, rfl⟩
  | error u => exact ⟨_, rfl⟩

theorem lineOutput_total (h : host.stack.HoldsTrees) (settings : Settings) (verbose : Bool)
    (line : String) : ∃ output, lineOutput settings verbose line host.stack = .ok output := by
  by_cases hblank : Text.strip line = ""
  · exact ⟨_, by rw [lineOutput, if_pos hblank]⟩
  by_cases hend : endsSession (Text.strip line) = true
  · exact ⟨_, by rw [lineOutput, if_neg hblank, if_pos (endsSession_iff.mp hend)]⟩
  · obtain ⟨output, houtput⟩ := parseOutput_total h settings verbose (Text.strip line)
    rw [lineOutput_eq hblank hend, houtput]
    exact ⟨_, rfl⟩

theorem replOutput_total (h : host.Suffices) (settings : Settings) (verbose interactive : Bool)
    (lines : List (List Char)) :
    ∃ output, replOutput settings verbose interactive lines host = .ok output := by
  induction lines with
  | nil => exact ⟨_, by rw [replOutput, h.readable]; rfl⟩
  | cons line rest ih =>
      obtain ⟨first, hfirst⟩ :=
        lineOutput_total h.holdsTrees settings verbose (String.ofList line)
      obtain ⟨others, hothers⟩ := ih
      rw [replOutput, hfirst]
      cases first with
      | none => exact ⟨_, rfl⟩
      | some first => exact ⟨_, by rw [hothers]; rfl⟩

theorem taskOutput_total (h : host.Suffices) (settings : Settings) (verbose : Bool)
    (console : Console) (task : Task) :
    ∃ output, taskOutput settings verbose console task host = .ok output := by
  cases task with
  | parse e => exact parseOutput_total h.holdsTrees settings verbose e
  | tokens e => exact tokensOutput_total settings verbose e
  | repl => exact replOutput_total h settings verbose console.interactive _

theorem settings_eq_error {e : LoadFailure} (h : (load around o.config).result = .error e) :
    (o.settings around).result = .error e := by
  simp [Options.settings, h, Except.map]

theorem run_of_loaded (console : Console) (hargs : Request.ofArguments args = .task o task)
    (h : (load around o.config).result = .ok settings) :
    ∃ output, run around console args = .ok output := by
  have hsettings := settings_eq_ok.mpr ⟨settings, h, rfl⟩
  simp only [run, hargs, runTask, hsettings]
  obtain ⟨output, houtput⟩ := taskOutput_total Host.suffices_default _ o.verbose console task
  exact ⟨_, by rw [houtput]; rfl⟩

theorem run_of_failure {e : LoadFailure} (console : Console)
    (hargs : Request.ofArguments args = .task o task)
    (h : (load around o.config).result = .error e) :
    run around console args =
      if e.isReported then
        .ok {
          stdout := say e.message
          stderr := logLines o.verbose (load around o.config).records
          exitCode := 1 }
      else .error (.settings e) := by
  simp only [run, hargs, runTask, settings_eq_error h]
  rfl

/-- Loading comes to settings or to a reported failure exactly if the settings are checkable. Then
every run has an output, where nothing but the settings is in its way, which is the message of the
failure if there is one; otherwise no run has any. -/
theorem load_reports_iff (around : Surroundings) (path : Option String) :
    (Reports (load around path).result ↔ Checkable around path) ∧
    ∀ console args o task, Request.ofArguments args = .task o task → o.config = path →
      ((∃ output, run around console args = .ok output) ↔ Checkable around path) ∧
      ∀ e, (load around path).result = .error e → Checkable around path →
        run around console args = .ok {
          stdout := say e.message
          stderr := logLines o.verbose (load around path).records
          exitCode := 1 } := by
  refine ⟨load_reports, ?_⟩
  rintro console args o task hargs rfl
  cases hload : (load around o.config).result with
  | ok settings =>
      have hcheck : Checkable around o.config := load_reports.mp (hload ▸ reports_ok settings)
      exact ⟨iff_of_true (run_of_loaded console hargs hload) hcheck, nofun⟩
  | error e =>
      have hrun := run_of_failure console hargs hload
      rw [checkable_of_failure hload]
      cases he : e.isReported with
      | true =>
          rw [he, if_pos rfl] at hrun
          refine ⟨iff_of_true ⟨_, hrun⟩ rfl, ?_⟩
          rintro _ ⟨⟩ _
          exact hrun
      | false =>
          rw [he, if_neg nofun] at hrun
          refine ⟨iff_of_false ?_ nofun, nofun⟩
          rintro ⟨output, h⟩
          cases hrun.symm.trans h

/-- A file that is no text: the failure is not reported, and a command ends without an output. -/
theorem load_of_bytes :
    let around : Surroundings := ⟨"/home", fun _ => .ok ⟨#[0xff]⟩, fun _ => none⟩
    ¬ Reports (load around none).result ∧
      run around ⟨"", false⟩ ["parse", "1"] =
        .error (.settings (.notText "/home/tinyexpr.toml")) := by
  intro around
  have hload : (load around none).result = .error (.notText "/home/tinyexpr.toml") := rfl
  refine ⟨?_, rfl⟩
  rw [hload, reports_error]
  exact Bool.false_ne_true

/-- A directory in the place of the file: the failure is reported. -/
theorem load_of_directory :
    let around : Surroundings := ⟨"/home", fun _ => .error .isDirectory, fun _ => none⟩
    let e : LoadFailure := .unreadable "/home/tinyexpr.toml" .isDirectory
    Checkable around none ∧
      run around ⟨"", false⟩ ["parse", "1"] =
        .ok { stdout := say e.message, stderr := "", exitCode := 1 } := by
  intro around e
  have hload : (load around none).result = .error e := rfl
  have hreports : Reports (load around none).result := by
    rw [hload, reports_error]
    rfl
  obtain ⟨hcheck, hrun⟩ := load_reports_iff around none
  exact ⟨hcheck.mp hreports,
    (hrun _ _ ⟨false, none, false⟩ (.parse "1") rfl rfl).2 e hload (hcheck.mp hreports)⟩

end CommandLine

end DebugExpr
