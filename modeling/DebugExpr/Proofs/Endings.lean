import DebugExpr.Proofs.Heights
import DebugExpr.Proofs.Places

/-!
# How an analysis ends

The analysis of a source ends in a tree, in a lexical diagnostic, or in a diagnostic about one of the
tokens. Only the stack of the machine could bring it to another end, and only where the message is
written that an assignment to a tree is refused. A stack that holds the trees within the limit on
the height does not.
-/

namespace DebugExpr

variable {stack : Stack} {settings : Settings} {source : String}

/-- The analysis refuses an assignment to a tree, and the stack does not hold the text of that tree,
which the message needs. -/
def Overflows (stack : Stack) (settings : Settings) (source : String) : Prop :=
  ∃ ts target rest, (tokenize settings source).result = .ok (ts ++ [Token.endMark source.length]) ∧
    Expr.ofTokens settings.extended ts = .error ⟨.notAssignable target, rest⟩ ∧
    stack.quotes ts target = false

/-! ## Messages -/

theorem Stack.writes_eq_false {ts : List Token} {cause : Cause} :
    stack.writes ts cause = false ↔
      ∃ target, cause = .notAssignable target ∧ stack.quotes ts target = false := by
  cases cause <;> simp [writes]

/-- The parser asks for no text that is too much for a stack on which its trees have room. -/
theorem Stack.HoldsTrees.not_overflows (h : stack.HoldsTrees) (settings : Settings)
    (source : String) : ¬ Overflows stack settings source := by
  rintro ⟨ts, target, rest, -, hread, hquotes⟩
  have hbounded := Parse.bounded_ofTokens settings.extended ts
  rw [hread] at hbounded
  rw [h.quotes ts target (hbounded target rfl)] at hquotes
  cases hquotes

/-! ## Sources -/

theorem noMark_of_tokenize {ts : List Token}
    (h : (tokenize settings source).result = .ok (ts ++ [Token.endMark source.length])) :
    ∀ t ∈ ts, t.kind ≠ .eof := by
  obtain ⟨ts', heq, hcut⟩ := cuts_of_tokenize h
  obtain rfl := List.append_cancel_right heq
  exact noMark_of_validTokens hcut.valid

theorem parse_of_overflows (h : Overflows stack settings source) :
    (parse settings source stack).result = .error .overflow := by
  obtain ⟨ts, target, rest, htokens, hread, hquotes⟩ := h
  have hinput := tokens_ofList (noMark_of_tokenize htokens)
    (rfl : (Token.endMark source.length).kind = .eof)
  have hmessage : stack.writes ts (.notAssignable target) = false := hquotes
  simp only [parse, tokenize, tokenize_eq_ok.mp htokens, Logged.andThen, treeify, Expr.ofInput,
    hinput, hread, Fault.ofFailure, hmessage]
  rfl

/-- On a stack that holds what it has to, the analysis is the one that has all the room it asks
for. -/
theorem parse_of_not_overflows (h : ¬ Overflows stack settings source) :
    parse settings source stack = parse settings source := by
  cases hsource : Token.ofSource settings source with
  | error u => simp only [parse, tokenize, hsource, Logged.andThen]
  | ok tokens =>
      have htokens := tokenize_eq_ok.mpr hsource
      obtain ⟨ts, rfl, -⟩ := cuts_of_tokenize htokens
      have hinput := tokens_ofList (noMark_of_tokenize htokens)
        (rfl : (Token.endMark source.length).kind = .eof)
      simp only [parse, tokenize, hsource, Logged.andThen, treeify, Expr.ofInput, hinput]
      cases hread : Expr.ofTokens settings.extended ts with
      | ok e => rfl
      | error f =>
          obtain ⟨cause, rest⟩ := f
          have hmessage : stack.writes ts cause = true := by
            rw [← Bool.not_eq_false, Stack.writes_eq_false]
            rintro ⟨target, rfl, hquotes⟩
            exact h ⟨ts, target, rest, htokens, hread, hquotes⟩
          simp only [Fault.ofFailure_ample]
          simp only [Fault.ofFailure, hinput, hmessage, if_true]

/-- What an analysis comes to if the stack does not stand in its way. -/
theorem outcome_of_not_overflows (h : ¬ Overflows stack settings source) :
    Outcome settings source (parse settings source stack).result := by
  rw [parse_of_not_overflows h]
  exact outcome_of_parse settings source

theorem overflow_iff :
    (parse settings source stack).result = .error .overflow ↔ Overflows stack settings source := by
  refine ⟨fun h => ?_, parse_of_overflows⟩
  apply Classical.byContradiction
  intro hfits
  have houtcome := outcome_of_not_overflows hfits
  rw [h] at houtcome
  cases houtcome

/-- Whether warnings are asked for makes no difference to what there is to be written. -/
theorem overflows_of_warn {extended warn warn' : Bool}
    (h : Overflows stack { extended, warn } source) :
    Overflows stack { extended, warn := warn' } source := by
  obtain ⟨ts, target, rest, htokens, hread, hquotes⟩ := h
  exact ⟨ts, target, rest, tokenize_eq_ok.mpr (tokenize_eq_ok.mp htokens), hread, hquotes⟩

theorem parse_warn (extended : Bool) (source : String) :
    (parse { extended, warn := true } source).result =
      (parse { extended, warn := false } source).result := by
  cases h : Token.scan extended 0 0 source.toList with
  | error u =>
      have hsource : ∀ warn, Token.ofSource { extended, warn } source = .error u := fun _ => h
      rw [(parse_of_unclosed (hsource true)).2, (parse_of_unclosed (hsource false)).2]
  | ok tokens =>
      have hsource : ∀ warn, Token.ofSource { extended, warn } source = .ok tokens := fun _ => h
      rw [parse_result (hsource true), parse_result (hsource false)]
      rfl

/-- On a stack with room for one level only, the target of the assignment is too high. -/
example : (parse {} "-a = 1" (.ofLevels 1)).result = .error .overflow := by
  rfl

end DebugExpr
