import DebugExpr.CommandLine.Run
import DebugExpr.Proofs.Endings
import DebugExpr.Proofs.Lines
import Mathlib.Data.List.Forall2

/-!
# Sessions

A session analyses the lines of the standard input one by one. What it puts out is what separate
runs put out, each for one line as its expression: no line leaves anything behind for the next one,
and a line that is no expression does not end the session. A session can come to nothing only where
one of those runs does, or where the input is no text.
-/

namespace DebugExpr.CommandLine

variable {around : Surroundings} {console : Console} {o : Options} {settings : Settings}
  {args : List String} {host : Host} {stack : Stack} {result : Except Escape Output}

/-! ## Arguments that stand for options -/

def Options.arguments (o : Options) : List String :=
  (if o.extended then ["--extended"] else []) ++
    (match o.config with
    | some path => ["--config", path]
    | none => []) ++
    if o.verbose then ["--verbose"] else []

theorem read_dashes (v : Vocabulary) (rest : List String) :
    read? v ("--" :: rest) = some { positional := rest } := by
  simp [read?]

theorem read_extended (rest : List String) :
    read? commandOptions ("--extended" :: rest) =
      (read? commandOptions rest).map (.after [.extended] []) :=
  rfl

theorem read_config (path : String) (rest : List String) :
    read? commandOptions ("--config" :: path :: rest) =
      (read? commandOptions rest).map (.after [.config] [path]) :=
  rfl

theorem read_verbose (rest : List String) :
    read? commandOptions ("--verbose" :: rest) =
      (read? commandOptions rest).map (.after [.verbose] []) :=
  rfl

/-- The options of a command come first here, and two dashes keep the expression from being read as
one of them. -/
theorem ofArguments_parse (h : o.isUsable = true) (expression : String) :
    Request.ofArguments ("parse" :: (o.arguments ++ ["--", expression])) =
      .task o (.parse expression) := by
  show commandRequest "parse" (o.arguments ++ ["--", expression]) = _
  obtain ⟨extended, config, verbose⟩ := o
  cases extended <;> cases config <;> cases verbose <;>
    simp_all [commandRequest, Options.arguments, read_extended, read_config, read_verbose,
      read_dashes, Arguments.after, Options.ofArguments]

/-! ## One line -/

theorem isUsable_of_settings (h : (o.settings around).result = .ok settings) :
    o.isUsable = true := by
  unfold Options.settings Settings.load at h
  split at h
  · cases h
  · rename_i husable
    rw [Options.isUsable]
    cases hconfig : o.config <;> simp_all

/-- Nothing is shown of the records left while the settings are loaded, unless all are asked for. -/
theorem logLines_settings (around : Surroundings) (o : Options) :
    logLines false (o.settings around).records = "" := by
  unfold Options.settings Settings.load
  split
  · rfl
  · split
    · rfl
    · split <;> rfl

theorem run_of_settings {task : Task} (hargs : Request.ofArguments args = .task o task)
    (hsettings : (o.settings around).result = .ok settings) (hverbose : o.verbose = false)
    (h : taskOutput settings false console task host = result) :
    run around console args host = result := by
  simp only [run, hargs, runTask, hsettings, hverbose, h, logLines_settings]
  cases result with
  | error _ => rfl
  | ok output => simp only [bind, Except.bind, pure, Except.pure, String.empty_append]

/-- An expression has an output, whatever becomes of its analysis. -/
theorem parseOutput_total (h : stack.HoldsTrees) (settings : Settings) (verbose : Bool)
    (source : String) : ∃ output, parseOutput settings verbose source stack = .ok output := by
  have hparse := parse_of_not_overflows (h.not_overflows settings source)
  have houtcome := outcome_of_parse settings source
  simp only [parseOutput, report, hparse]
  cases hresult : (parse settings source).result with
  | ok e =>
      have hshows : stack.shows e = true := h.shows e (wellFormed_of_parse hresult).2
      exact ⟨_, by simp only [sayTree, hshows, if_true]; rfl⟩
  | error fault =>
      rw [hresult] at houtcome
      cases houtcome with
      | lexical _ _ => exact ⟨_, rfl⟩
      | located _ _ _ _ _ _ => exact ⟨_, rfl⟩

/-- What comes of the program for an expression by itself: it can be asked to analyse it with the
same options, and however it is asked to, this comes of it. -/
structure Parses (around : Surroundings) (o : Options) (host : Host) (expression : String)
    (result : Except Escape Output) : Prop where
  asked : ∃ args, Request.ofArguments args = .task o (.parse expression)
  run_eq : ∀ console args, Request.ofArguments args = .task o (.parse expression) →
    run around console args host = result

theorem parses_parseOutput (hsettings : (o.settings around).result = .ok settings)
    (hverbose : o.verbose = false) (host : Host) (expression : String) :
    Parses around o host expression (parseOutput settings false expression host.stack) where
  asked := ⟨_, ofArguments_parse (isUsable_of_settings hsettings) expression⟩
  run_eq _ _ hargs := run_of_settings hargs hsettings hverbose rfl

def endsSession (line : String) : Bool :=
  line == "quit" || line == "exit"

theorem endsSession_iff {line : String} :
    endsSession line = true ↔ line = "quit" ∨ line = "exit" := by
  simp [endsSession]

/-- For a line that is read as an expression a session and a run for that expression do the same,
but for the exit code. -/
theorem lineOutput_eq {line : String} (hblank : Text.strip line ≠ "")
    (hend : ¬ endsSession (Text.strip line) = true) (settings : Settings) (verbose : Bool)
    (stack : Stack) :
    lineOutput settings verbose line stack =
      (parseOutput settings verbose (Text.strip line) stack).map
        fun output => some { output with exitCode := 0 } := by
  simp only [lineOutput, parseOutput, report, if_neg hblank, if_neg (mt endsSession_iff.mpr hend)]
  generalize parse settings (Text.strip line) stack = x
  obtain ⟨records, result⟩ := x
  cases result with
  | error fault => cases fault <;> rfl
  | ok e =>
      dsimp only
      cases sayTree stack e <;> rfl

/-! ## All lines -/

/-- The expressions of a session: the lines without the white space around them, up to one that
ends the session, and without the blank ones. -/
def expressions (lines : List (List Char)) : List String :=
  ((lines.map fun line => Text.strip (String.ofList line)).takeWhile (!endsSession ·)).filter
    (· ≠ "")

/-- Whether one of the lines ends the session, so that nothing after it is read. -/
def isCutShort (lines : List (List Char)) : Bool :=
  lines.any fun line => endsSession (Text.strip (String.ofList line))

theorem isCutShort_cons (line : List Char) (rest : List (List Char)) :
    isCutShort (line :: rest) =
      (endsSession (Text.strip (String.ofList line)) || isCutShort rest) :=
  rfl

theorem expressions_cons (line : List Char) (rest : List (List Char)) :
    expressions (line :: rest) =
      let e := Text.strip (String.ofList line)
      if e = "" then expressions rest
      else if endsSession e then []
      else e :: expressions rest := by
  have hblank : endsSession "" = false := rfl
  simp only [expressions, List.map_cons, List.takeWhile_cons]
  generalize Text.strip (String.ofList line) = e
  by_cases he : e = ""
  · simp [he, hblank]
  · cases hend : endsSession e <;> simp [he]

/-- Outputs one after the other. -/
def Output.together (outputs : List Output) : Output where
  stdout := String.join (outputs.map (·.stdout))
  stderr := String.join (outputs.map (·.stderr))
  exitCode := 0

theorem Output.together_cons (output : Output) (outputs : List Output) :
    together (output :: outputs) =
      { stdout := output.stdout ++ (together outputs).stdout
        stderr := output.stderr ++ (together outputs).stderr } := by
  simp [together]

/-- What comes of a session if these results come of its expressions: their outputs one after the
other, or the first fault among them and, if the input is read to where it is no text, that one. -/
def session (garbled : Bool) (results : List (Except Escape Output)) : Except Escape Output := do
  let outputs ← results.mapM id
  if garbled then .error .undecodable else .ok (.together outputs)

theorem session_cons (garbled : Bool) (result : Except Escape Output)
    (results : List (Except Escape Output)) :
    session garbled (result :: results) = do
      let output ← result
      let others ← session garbled results
      return { stdout := output.stdout ++ others.stdout, stderr := output.stderr ++ others.stderr } := by
  simp only [session, List.mapM_cons, id]
  cases result with
  | error _ => rfl
  | ok output =>
      cases results.mapM id with
      | error _ => rfl
      | ok outputs => cases garbled <;> simp [Output.together_cons, bind, Except.bind, pure, Except.pure]

/-- Without an output before it a session is as it was: it ends well. -/
theorem session_alone (garbled : Bool) (results : List (Except Escape Output)) :
    (do
      let others ← session garbled results
      return { stdout := others.stdout, stderr := others.stderr }) = session garbled results := by
  unfold session
  cases results.mapM id with
  | error _ => rfl
  | ok outputs => cases garbled <;> rfl

/-- Nothing is lost or added where every expression has an output. -/
theorem session_of_outputs (outputs : List Output) :
    session false (outputs.map .ok) = .ok (.together outputs) := by
  induction outputs with
  | nil => rfl
  | cons output outputs ih =>
      rw [List.map_cons, session_cons, ih, Output.together_cons]
      rfl

/-- A session without prompts puts the outputs of its expressions one after the other. -/
theorem replOutput_eq (settings : Settings) (verbose : Bool) (host : Host)
    (lines : List (List Char)) :
    replOutput settings verbose false lines host =
      session (host.garbled && !isCutShort lines)
        ((expressions lines).map (parseOutput settings verbose · host.stack)) := by
  induction lines with
  | nil => cases h : host.garbled <;> simp [replOutput, h] <;> rfl
  | cons line rest ih =>
      rw [expressions_cons, replOutput, isCutShort_cons]
      -- A blank line adds no output of its own, and one that ends the session hides the rest.
      by_cases hblank : Text.strip (String.ofList line) = ""
      · have hline : lineOutput settings verbose (String.ofList line) host.stack = .ok (some {}) := by
          rw [lineOutput, if_pos hblank]
        have hgoes : endsSession "" = false := rfl
        rw [hline, ih, if_pos hblank, hblank, hgoes, Bool.false_or]
        refine Eq.trans ?_ (session_alone _ _)
        simp only [prompt, bind, Except.bind, String.empty_append, Bool.false_eq_true, if_false]
      by_cases hend : endsSession (Text.strip (String.ofList line)) = true
      · have hline : lineOutput settings verbose (String.ofList line) host.stack = .ok none := by
          rw [lineOutput, if_neg hblank, if_pos (endsSession_iff.mp hend)]
        rw [hline, if_neg hblank, if_pos hend, hend, Bool.true_or, Bool.not_true, Bool.and_false]
        rfl
      · rw [lineOutput_eq hblank hend, ih, if_neg hblank, if_neg hend, eq_false_of_ne_true hend,
          Bool.false_or, List.map_cons, session_cons]
        cases parseOutput settings verbose (Text.strip (String.ofList line)) host.stack <;> rfl

end DebugExpr.CommandLine
