import DebugExpr.Proofs.Places
import DebugExpr.Proofs.Readable
import DebugExpr.Proofs.Session
import DebugExpr.Proofs.Traversal
import DebugExpr.Proofs.Verbatim

/-!
# What the parse command prints

The command prints the canonical text of the tree, or the diagnostic, and nothing else, where that
text is displayed as it stands. Then different trees print differently, and the caret stands below
the character to blame. Otherwise the display changes the text, and neither need be so.
-/

namespace DebugExpr

open CommandLine

/-! ## Trees with inert texts -/

namespace Expr

/-- The texts of the node itself are inert. -/
def InertNode : Expr → Prop
  | .number _ s | .string s | .var s | .bareCall s | .call s _ | .assign s _ => Inert s
  | .func xs _ => ∀ x ∈ xs, Inert x
  | .unary .. | .binary .. => True

theorem inert_intercalate (sep : String) (hsep : Inert sep) {texts : List String}
    (h : ∀ s ∈ texts, Inert s) : Inert (sep.intercalate texts) := by
  cases texts with
  | nil => exact nofun
  | cons s texts =>
      obtain ⟨hs, htexts⟩ := List.forall_mem_cons.mp h
      rw [Inert, toList_intercalate_cons, List.forall_mem_append]
      refine ⟨hs, fun c hc => ?_⟩
      obtain ⟨s', hs', hc⟩ := List.mem_flatMap.mp hc
      exact (List.mem_append.mp hc).elim (hsep c) (htexts s' hs' c)

theorem inert_renderList {es : List Expr} (h : ∀ e ∈ es, Inert e.render) :
    ∀ s ∈ renderList es, Inert s := by
  simpa [renderList_eq_map] using h

theorem inert_render {e : Expr} (h : ∀ n ∈ e.walk, InertNode n) : Inert e.render := by
  induction e using childInduction with
  | node e ih =>
      rw [walk_eq, walkList_eq_flatMap] at h
      obtain ⟨hnode, hwalk⟩ := List.forall_mem_cons.mp h
      have hchild : ∀ c ∈ e.children, Inert c.render := fun c hc =>
        ih c hc fun n hn => hwalk n (List.mem_flatMap.mpr ⟨c, hc, hn⟩)
      cases e with
      | number r s =>
          refine inert_append.mpr ⟨?_, hnode⟩
          cases r <;> decide
      | string s => exact inert_append.mpr ⟨inert_append.mpr ⟨by decide, hnode⟩, by decide⟩
      | var x => exact hnode
      | unary op e =>
          have he := hchild e List.mem_cons_self
          have hop : Inert op.symbol := by cases op <;> decide
          simp only [render, inert_append]
          exact ⟨⟨⟨by decide, hop⟩, he⟩, by decide⟩
      | binary op l r =>
          obtain ⟨hl, hrest⟩ := List.forall_mem_cons.mp hchild
          have hr := hrest r List.mem_cons_self
          have hop : Inert op.symbol := by cases op <;> decide
          simp only [render, inert_append]
          exact ⟨⟨⟨⟨⟨⟨by decide, hl⟩, by decide⟩, hop⟩, by decide⟩, hr⟩, by decide⟩
      | bareCall f => exact inert_append.mpr ⟨hnode, by decide⟩
      | call f es =>
          have hargs := inert_intercalate ", " (by decide) (inert_renderList hchild)
          simp only [render, showArgs, inert_append]
          exact ⟨⟨⟨hnode, by decide⟩, ⟨⟨by decide, hargs⟩, by decide⟩⟩, by decide⟩
      | assign x e =>
          have he := hchild e List.mem_cons_self
          simp only [render, inert_append]
          exact ⟨⟨⟨⟨by decide, hnode⟩, by decide⟩, he⟩, by decide⟩
      | func xs es =>
          have hparams := inert_intercalate ", " (by decide) hnode
          have hbody := inert_intercalate "; " (by decide) (inert_renderList hchild)
          simp only [render, inert_append]
          exact ⟨⟨⟨⟨by decide, hparams⟩, by decide⟩, hbody⟩, by decide⟩

theorem inert_of_active {p : Char → Bool} (hp : active.any p = false) {s : String}
    (h : ∀ c ∈ s.toList, p c = true) : Inert s :=
  fun c hc hactive => List.any_eq_false.mp hp c hactive (h c hc)

theorem IsIdentifier.inert {s : String} (h : IsIdentifier s) : Inert s := by
  obtain ⟨c, cs, hs, hc, hcs⟩ := h
  refine inert_of_active (p := Token.isIdentRest) (by decide) ?_
  rw [hs]
  refine List.forall_mem_cons.mpr ⟨?_, hcs⟩
  rw [Token.isIdentRest, hc, Bool.true_or]

/-- The nodes of a well-formed tree that are no strings have inert texts. -/
theorem Lexical.inertNode {extended : Bool} {n : Expr} (h : n.Lexical extended)
    (hstring : ∀ s, n = .string s → Inert s) : n.InertNode := by
  match n with
  | .number .dec _ => exact inert_of_active (p := Text.isDecimal) (by decide) h.2
  | .number .hex _ => exact inert_of_active (p := Text.isHexadecimal) (by decide) h
  | .number .bin _ => exact inert_of_active (p := Text.isBinary) (by decide) h.2
  | .string s => exact hstring s rfl
  | .var _ | .bareCall _ | .assign _ _ => exact IsIdentifier.inert h
  | .call _ _ => exact IsIdentifier.inert h.1
  | .func _ _ => exact fun x hx => IsIdentifier.inert (h x hx)
  | .unary .. | .binary .. => trivial

/-- Only the texts of strings can keep a canonical text from being inert. -/
theorem WellFormed.inert_render {extended : Bool} {e : Expr} (h : e.WellFormed extended)
    (hstrings : ∀ s, .string s ∈ e.walk → Inert s) : Inert e.render := by
  refine Expr.inert_render fun n hn => Lexical.inertNode (nodeOk_iff.mp (h n hn)) ?_
  rintro s rfl
  exact hstrings s hn

end Expr

/-! ## The text of a diagnostic -/

/-- The diagnostic as lines: its place, the line of the source, the caret, and the reason. -/
theorem Diagnostic.lines_text {d : Diagnostic} {l : Location} (h : d.location = some l) :
    Text.lines (d.text ++ "\n").toList =
      Text.lines l.heading.toList ++ [l.row, l.marker] ++ Text.lines (d.reason ++ "\n").toList := by
  have htext : (d.text ++ "\n").toList = l.format.toList ++ '\n' :: (d.reason ++ "\n").toList := by
    simp [text, h]
  rw [htext, Text.lines_append_feed, l.lines_format]

namespace CommandLine

variable {around : Surroundings} {console : Console} {o : Options} {args : List String}
  {settings : Settings} {expression : String}

/-! ## Runs -/

/-- What an expression is answered with: a text, and the exit code. -/
inductive Answer (settings : Settings) (expression : String) : String → Nat → Prop
  | tree {e : Expr} :
      (parse settings expression).result = .ok e → Answer settings expression e.render 0
  | diagnostic {d : Diagnostic} :
      (parse settings expression).result = .error (.diagnostic d) →
      Answer settings expression d.text 1

/-- An answer with a tree has the text of this tree. -/
theorem Answer.text_of_tree {text : String} {exitCode : Nat} {e : Expr}
    (h : Answer settings expression text exitCode)
    (he : (parse settings expression).result = .ok e) : text = e.render ∧ exitCode = 0 := by
  cases h with
  | tree he' =>
      cases he.symm.trans he'
      exact ⟨rfl, rfl⟩
  | diagnostic hd => cases he.symm.trans hd

theorem Answer.text_of_diagnostic {text : String} {exitCode : Nat} {d : Diagnostic}
    (h : Answer settings expression text exitCode)
    (hd : (parse settings expression).result = .error (.diagnostic d)) :
    text = d.text ∧ exitCode = 1 := by
  cases h with
  | tree he => cases hd.symm.trans he
  | diagnostic hd' =>
      cases hd.symm.trans hd'
      exact ⟨rfl, rfl⟩

/-- A run that parses an expression under settings that are loaded, and its output. -/
structure ParseRun (around : Surroundings) (console : Console) (args : List String)
    (settings : Settings) (expression : String) (output : Output) : Prop where
  asked : ∃ o, Request.ofArguments args = .task o (.parse expression) ∧
    (o.settings around).result = .ok settings
  run_eq : run around console args = .ok output

theorem run_of_parse (console : Console)
    (hargs : Request.ofArguments args = .task o (.parse expression))
    (hsettings : (o.settings around).result = .ok settings) :
    ∃ text exitCode stderr, Answer settings expression text exitCode ∧
      run around console args = .ok { stdout := say text, stderr, exitCode } := by
  simp only [run, hargs, runTask, hsettings, taskOutput, parseOutput, report]
  have houtcome := outcome_of_parse settings expression
  generalize hresult : (parse settings expression).result = result at houtcome
  cases houtcome with
  | tree _ => exact ⟨_, _, _, .tree hresult, rfl⟩
  | lexical _ _ | located _ _ _ _ _ _ => exact ⟨_, _, _, .diagnostic hresult, rfl⟩

theorem ParseRun.answer {output : Output}
    (h : ParseRun around console args settings expression output) :
    ∃ text, Answer settings expression text output.exitCode ∧ output.stdout = say text := by
  obtain ⟨o, hargs, hsettings⟩ := h.asked
  obtain ⟨text, exitCode, stderr, hanswer, hrun⟩ := run_of_parse console hargs hsettings
  cases hrun.symm.trans h.run_eq
  exact ⟨text, hanswer, rfl⟩

theorem say_of_verbatim {text : String} (h : Verbatim text) : say text = text ++ "\n" := by
  rw [say, display_eq_self_iff.mpr h.toPlain]

theorem plain_of_say {text : String} (h : say text = text ++ "\n") : Plain text :=
  display_eq_self_iff.mp ((String.append_left_inj "\n").mp h)

theorem ParseRun.stdout_of_tree {output : Output} {e : Expr}
    (h : ParseRun around console args settings expression output)
    (he : (parse settings expression).result = .ok e) : output.stdout = say e.render := by
  obtain ⟨text, hanswer, hstdout⟩ := h.answer
  rw [hstdout, (hanswer.text_of_tree he).1]

/-- Trees of sources print differently where their canonical texts are displayed as they stand. -/
theorem say_render_eq_iff {settings' : Settings} {expression' : String} {e e' : Expr}
    (h : (parse settings expression).result = .ok e) (hverbatim : Verbatim e.render)
    (h' : (parse settings' expression').result = .ok e') (hverbatim' : Verbatim e'.render) :
    say e.render = say e'.render ↔ e = e' := by
  refine ⟨fun heq => ?_, fun heq => heq ▸ rfl⟩
  rw [say_of_verbatim hverbatim, say_of_verbatim hverbatim', String.append_left_inj] at heq
  have hwell := Expr.wellFormed_mono (wellFormed_of_parse h).1
  have hwell' := Expr.wellFormed_mono (wellFormed_of_parse h').1
  exact Expr.render_injective hwell hwell' heq

/-- A run has an output and the exit code of its answer. It prints the text of the answer where this
is displayed as it stands, and only where it is plain; so it prints every tree whose strings are
inert. Trees that are displayed as they stand are printed differently, and below the line of such a
diagnostic the caret stands at the place. -/
theorem parse_prints (console : Console)
    (hargs : Request.ofArguments args = .task o (.parse expression))
    (hsettings : (o.settings around).result = .ok settings) :
    ∃ text output, run around console args = .ok output ∧
      Answer settings expression text output.exitCode ∧
      (Verbatim text → output.stdout = text ++ "\n") ∧
      (output.stdout = text ++ "\n" → Plain text) ∧
      (∀ e, (parse settings expression).result = .ok e →
        (∀ s, .string s ∈ e.walk → Inert s) → output.stdout = e.render ++ "\n") ∧
      (∀ e around' console' args' settings' expression' output' e',
        (parse settings expression).result = .ok e → Verbatim e.render →
        ParseRun around' console' args' settings' expression' output' →
        (parse settings' expression').result = .ok e' → Verbatim e'.render →
        (output.stdout = output'.stdout ↔ e = e')) ∧
      ∀ d, (parse settings expression).result = .error (.diagnostic d) → Verbatim d.text →
        ∃ l row marker, d.location = some l ∧ AtLexeme expression l.pos ∧
          Text.lines output.stdout.toList =
            Text.lines l.heading.toList ++ [row, marker] ++ Text.lines (d.reason ++ "\n").toList ∧
          '^' ∈ marker ∧ row[marker.idxOf '^']? = expression.toList[l.pos.toNat]? := by
  obtain ⟨text, exitCode, stderr, hanswer, hrun⟩ := run_of_parse console hargs hsettings
  refine ⟨text, _, hrun, hanswer, say_of_verbatim, plain_of_say, ?_, ?_, ?_⟩
  · intro e he hstrings
    obtain ⟨rfl, -⟩ := hanswer.text_of_tree he
    exact say_of_verbatim ((wellFormed_of_parse he).1.inert_render hstrings).verbatim
  · intro e around' console' args' settings' expression' output' e' he hverbatim h' he' hverbatim'
    obtain ⟨rfl, -⟩ := hanswer.text_of_tree he
    rw [h'.stdout_of_tree he']
    exact say_render_eq_iff he hverbatim he' hverbatim'
  · intro d hd hverbatim
    obtain ⟨rfl, -⟩ := hanswer.text_of_diagnostic hd
    obtain ⟨l, hl, rfl, hat⟩ := location_of_parse hd
    refine ⟨l, l.row, l.marker, hl, hat, ?_, Location.caret_mem_caretAfter _, hat.row_caret⟩
    dsimp only
    rw [say_of_verbatim hverbatim, Diagnostic.lines_text hl]

/-- A name in brackets is no obstacle, and neither is the place of a diagnostic. -/
theorem parse_prints_brackets :
    let around : Surroundings := ⟨"/", fun _ => .error .missing, fun _ => none⟩
    let console : Console := ⟨"", false⟩
    (∃ output, run around console ["parse", "f(\"[b]\")+1"] = .ok output ∧
      output.stdout = "(f([\"[b]\"]) + 1)\n") ∧
    ∃ output above row marker below, run around console ["parse", "f(\n ?"] = .ok output ∧
      Text.lines output.stdout.toList = above ++ [row, marker] ++ below ∧
      row[marker.idxOf '^']? = some '?' := by
  intro around console
  let o : Options := ⟨false, none, false⟩
  have hsettings : (o.settings around).result = .ok {} := rfl
  constructor
  · have htree : (parse {} "f(\"[b]\")+1").result =
        .ok (.binary .add (.call "f" [.string "[b]"]) (.number .dec "1")) := rfl
    have hstrings : ∀ s, .string s ∈ (Expr.binary .add (.call "f" [.string "[b]"])
        (.number .dec "1")).walk → Inert s := by
      intro s hs
      have : s = "[b]" := by simpa [Expr.walk, Expr.walkList] using hs
      subst this
      decide
    have hargs : Request.ofArguments ["parse", "f(\"[b]\")+1"] =
        .task o (.parse "f(\"[b]\")+1") := rfl
    obtain ⟨_, output, hrun, _, _, _, hinert, _⟩ := parse_prints console hargs hsettings
    exact ⟨output, hrun, hinert _ htree hstrings⟩
  · let d : Diagnostic := .expression (Cause.stray "?").message (some "f(\n ?") 4
    have hd : (parse {} "f(\n ?").result = .error (.diagnostic d) := rfl
    have hverbatim : Verbatim d.text :=
      ⟨plain_of_display (by decide +kernel), by decide +kernel⟩
    have hargs : Request.ofArguments ["parse", "f(\n ?"] = .task o (.parse "f(\n ?") := rfl
    obtain ⟨_, output, hrun, _, _, _, _, _, hcaret⟩ := parse_prints console hargs hsettings
    obtain ⟨l, row, marker, hl, _, hlines, _, hrow⟩ := hcaret d hd hverbatim
    cases hl
    exact ⟨output, _, row, marker, _, hrun, hlines, hrow⟩

/-- A tab in a string is filled up with spaces, so that its tree prints like another one; tabs
before a character that is blamed move it away from the caret. -/
theorem parse_prints_tab :
    let around : Surroundings := ⟨"/", fun _ => .error .missing, fun _ => none⟩
    let console : Console := ⟨"", false⟩
    ((parse {} "\"\t\"").result = .ok (.string "\t") ∧
      (parse {} "\"       \"").result = .ok (.string "       ") ∧
      run around console ["parse", "\"\t\""] = run around console ["parse", "\"       \""] ∧
      ∃ output, run around console ["parse", "\"\t\""] = .ok output ∧
        output.stdout ≠ (Expr.string "\t").render ++ "\n") ∧
    ∃ output above row marker below, run around console ["parse", "\t\t?"] = .ok output ∧
      Text.lines output.stdout.toList = above ++ [row, marker] ++ below ∧ '^' ∈ marker ∧
      row[marker.idxOf '^']? ≠ some '?' := by
  intro around console
  have hrun : run around console ["parse", "\"\t\""] = .ok { stdout := "\"       \"\n" } := rfl
  have hrun' : run around console ["parse", "\"       \""] = .ok { stdout := "\"       \"\n" } :=
    rfl
  refine ⟨⟨rfl, rfl, hrun.trans hrun'.symm, _, hrun, by decide⟩, ?_⟩
  let d : Diagnostic := .expression (Cause.stray "?").message (some "\t\t?") 2
  have hd : (parse {} "\t\t?").result = .error (.diagnostic d) := rfl
  have hargs : Request.ofArguments ["parse", "\t\t?"] =
      .task ⟨false, none, false⟩ (.parse "\t\t?") := rfl
  have hsettings : (Options.settings ⟨false, none, false⟩ around).result = .ok {} := rfl
  obtain ⟨_, _, _, hanswer, hcaret⟩ := run_of_parse console hargs hsettings
  obtain ⟨rfl, -⟩ := hanswer.text_of_diagnostic hd
  have hlines : Text.lines (say d.text).toList = ["<input>:1:3".toList] ++
      ["   1 |          ?".toList, "         ^".toList] ++
      ["Unexpected character: '?'".toList, []] := by
    decide +kernel
  exact ⟨_, _, _, _, _, hcaret, hlines, by decide, by decide⟩

end CommandLine

end DebugExpr
