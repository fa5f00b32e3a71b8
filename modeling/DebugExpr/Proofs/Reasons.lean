import Mathlib.Data.List.Nodup
import DebugExpr.Proofs.Groups
import DebugExpr.Proofs.Positions

/-!
# Brackets in reasons

The reason of a diagnostic tells which bracket it is about. What it says of the groups that are
open at the blamed token, or at the end of the source, is so.
-/

namespace DebugExpr

open Token (Kind)

/-! ## The reasons of failures -/

/-- The causes that name a bracket, with the values that valid tokens have. -/
def Bracket.causes (b : Bracket) : List Cause :=
  [.closedEarly b.closingText, .unmatched b.closingText, .unclosed b b.openingText]

/-- The first characters of a text. -/
def lead (s : String) : List Char :=
  s.toList.take 10

theorem lead_append {p : String} (h : 10 ≤ p.length) (s : String) : lead (p ++ s) = lead p := by
  rw [← String.length_toList] at h
  rw [lead, lead, String.toList_append, List.take_append_of_le_length h]

theorem head?_describe (k : Kind) (value : String) :
    (k.describe value).toList.head? ≠ some '\x27' := by
  have hname : k.name.toList ≠ [] ∧ k.name.toList.head? ≠ some '\x27' := by
    cases k <;> decide
  rw [Kind.describe, String.append_assoc, String.append_assoc, String.toList_append,
    List.head?_append_of_ne_nil _ hname.1]
  exact hname.2

/-- How reasons begin that name a bracket. -/
def bracketLeads : List (List Char) :=
  [lead "Unmatched ", lead "Expected an expression, got "]

theorem lead_mem {cause : Cause} {b : Bracket} (h : cause ∈ b.causes) :
    lead cause.message ∈ bracketLeads := by
  simp only [Bracket.causes, List.mem_cons, List.not_mem_nil, or_false] at h
  rcases h with rfl | rfl | rfl
  · cases b <;> decide
  · cases b <;> decide
  · cases b <;> decide

theorem lead_notMem_of_append {cause : Cause} {p s : String} (hmessage : cause.message = p ++ s)
    (hlength : 10 ≤ p.length) (hp : lead p ∉ bracketLeads) :
    lead cause.message ∉ bracketLeads := by
  rw [hmessage, lead_append hlength]
  exact hp

/-- Apart from a misplaced token, no other failure has a reason that begins so. -/
theorem lead_notMem {cause : Cause} (h : cause.namesBracket = false)
    (hplaced : ∀ k v, cause ≠ .misplaced k v) : lead cause.message ∉ bracketLeads := by
  cases cause with
  | closedEarly | unmatched | unclosed => cases h
  | tooDeep | binaryLiteral | emptyParens | missing => decide
  | misplaced k v => exact absurd rfl (hplaced k v)
  | notAssignable target =>
      have hmessage : (Cause.notAssignable target).message =
          "Cannot assign to " ++ (target.render ++ ": target must be a variable") :=
        String.append_assoc
      exact lead_notMem_of_append hmessage (by decide) (by decide)
  | notClosed b k v =>
      have hmessage : (Cause.notClosed b k v).message =
          "Expected " ++ Text.quoted b.closingText ++ ", got " ++ k.describe v := rfl
      cases b <;> exact lead_notMem_of_append hmessage (by decide) (by decide)
  | stray v =>
      have hmessage : (Cause.stray v).message = "Unexpected character: " ++ Text.quoted v := rfl
      exact lead_notMem_of_append hmessage (by decide) (by decide)
  | leftOver v =>
      have hmessage : (Cause.leftOver v).message =
          "Unexpected token after expression: " ++ Text.quoted v := rfl
      exact lead_notMem_of_append hmessage (by decide) (by decide)

/-- A misplaced token is described by its kind, and a bracket in quotes. -/
theorem describe_ne_quoted (k : Kind) (value : String) (b : Bracket) :
    k.describe value ≠ Text.quoted b.closingText := by
  intro heq
  have hquote : (Text.quoted b.closingText).toList.head? = some '\x27' := by
    cases b <;> decide
  exact head?_describe k value (heq ▸ hquote)

theorem misplaced_ne {cause : Cause} {b : Bracket} (k : Kind) (v : String) (h : cause ∈ b.causes) :
    (Cause.misplaced k v).message ≠ cause.message := by
  intro heq
  have hlead : lead cause.message = lead "Expected an expression, got " := by
    rw [← heq]
    change lead ("Expected an expression, got " ++ k.describe v) = _
    exact lead_append (by decide) _
  simp only [Bracket.causes, List.mem_cons, List.not_mem_nil, or_false] at h
  rcases h with rfl | rfl | rfl
  · have htail : "Expected an expression, got " ++ k.describe v =
        "Expected an expression, got " ++ Text.quoted b.closingText := heq
    rw [← String.toList_inj, String.toList_append, String.toList_append,
      List.append_cancel_left_eq, String.toList_inj] at htail
    exact describe_ne_quoted k v b htail
  · revert hlead
    cases b <;> decide
  · revert hlead
    cases b <;> decide

/-- No other failure has the reason of one that names a bracket. -/
theorem message_ne {cause cause' : Cause} {b : Bracket} (h : cause.namesBracket = false)
    (h' : cause' ∈ b.causes) : cause.message ≠ cause'.message := by
  by_cases hplaced : ∃ k v, cause = .misplaced k v
  · obtain ⟨k, v, rfl⟩ := hplaced
    exact misplaced_ne k v h'
  · intro heq
    simp only [not_exists] at hplaced
    exact lead_notMem h hplaced (heq ▸ lead_mem h')

theorem messages_nodup :
    ((Bracket.paren.causes ++ Bracket.brace.causes).map Cause.message).Nodup := by
  decide

theorem message_injective {cause cause' : Cause} {b b' : Bracket} (h : cause ∈ b.causes)
    (h' : cause' ∈ b'.causes) (heq : cause.message = cause'.message) : cause = cause' := by
  have hall : ∀ {c : Cause} {b : Bracket}, c ∈ b.causes →
      c ∈ Bracket.paren.causes ++ Bracket.brace.causes := by
    intro c b hc
    cases b with
    | paren => exact List.mem_append_left _ hc
    | brace => exact List.mem_append_right _ hc
  exact List.inj_on_of_nodup_map messages_nodup (hall h) (hall h') heq

/-! ## Valid tokens -/

theorem value_of_closing {extended : Bool} {t : Token} {b : Bracket} (ht : t.kind = b.closing)
    (h : Token.Valid extended t.kind t.value.toList) : t.value = b.closingText := by
  rw [ht] at h
  rw [← String.toList_inj]
  generalize t.value.toList = v at h
  cases b <;> cases h <;> simp_all [Kind.operators, Bracket.closing, Bracket.closingText]

theorem value_of_opening {extended : Bool} {t : Token} {b : Bracket} (ht : t.kind = b.opening)
    (h : Token.Valid extended t.kind t.value.toList) : t.value = b.openingText := by
  rw [ht] at h
  rw [← String.toList_inj]
  generalize t.value.toList = v at h
  cases b <;> cases h <;> simp_all [Kind.operators, Bracket.opening, Bracket.openingText]

/-- Every group that is open was open before, or it is opened by one of the tokens. -/
theorem mem_groupsAfter {opened around : List OpenGroup} {ts : List Token}
    (h : groupsAfter opened ts = some around) :
    ∀ g ∈ around, g ∈ opened ∨ (g.2 ∈ ts ∧ g.2.kind = g.1.opening) := by
  induction ts generalizing opened with
  | nil =>
      cases h
      exact fun g hg => .inl hg
  | cons t ts ih =>
      obtain ⟨mid, hmid, hrest⟩ := Option.bind_eq_some_iff.mp h
      intro g hg
      rcases ih hrest g hg with hg | ⟨hmem, hkind⟩
      · rcases mem_groupsAfterToken hmid hg with hg | ⟨rfl, hkind⟩
        · exact .inl hg
        · exact .inr ⟨List.mem_cons_self, hkind⟩
      · exact .inr ⟨List.mem_cons_of_mem t hmem, hkind⟩

/-- A justified failure on valid tokens names no bracket, or it has one of the causes for them. -/
theorem Justified.cause_eq {extended : Bool} {ts : List Token} {f : Failure}
    (h : Justified [] ts f) (hts : ValidTokens extended ts) :
    f.cause.namesBracket = false ∨ ∃ b : Bracket, f.cause ∈ b.causes := by
  cases h with
  | @closer b read t rest around heq ht _ =>
      have hvalue := value_of_closing ht (hts t (by simp [heq]))
      refine .inr ⟨b, ?_⟩
      dsimp only
      split <;> simp [Bracket.causes, hvalue]
  | @unclosed b opener inside outer hafter =>
      rcases mem_groupsAfter hafter _ List.mem_cons_self with hmem | ⟨hmem, hkind⟩
      · cases hmem
      · have hvalue := value_of_opening hkind (hts opener hmem)
        dsimp only at hvalue
        exact .inr ⟨b, by simp [Bracket.causes, hvalue]⟩
  | other hcause => exact .inl hcause

theorem Justified.eq_of_message {extended : Bool} {ts : List Token} {f : Failure}
    (h : Justified [] ts f) (hts : ValidTokens extended ts) {cause : Cause} {b : Bracket}
    (hcause : cause ∈ b.causes) (hmessage : f.cause.message = cause.message) : f.cause = cause := by
  rcases h.cause_eq hts with hother | ⟨b', hmem⟩
  · exact absurd hmessage (message_ne hother hcause)
  · exact message_injective hmem hcause hmessage

theorem closingText_injective {b b' : Bracket} (h : b.closingText = b'.closingText) : b = b' := by
  revert h
  cases b <;> cases b' <;> decide

/-! ## The place of a failure -/

variable {settings : Settings} {source : String} {tokens : List Token}

theorem pos_lt_of_tokenize (h : (tokenize settings source).result = .ok tokens) :
    tokens.Pairwise fun t u => t.pos < u.pos := by
  obtain ⟨ts, rfl, hcut⟩ := cuts_of_tokenize h
  have hspelling : ∀ t ∈ ts, t.pos < t.finish := by
    intro t ht
    have hne := List.length_pos_iff.mpr (hcut.tiles.spelled t ht).1
    simp only [Token.finish]
    omega
  refine List.pairwise_append.mpr ⟨?_, List.pairwise_singleton _ _, ?_⟩
  · refine hcut.ordered.imp_of_mem ?_
    intro t u ht _ htu
    exact Int.lt_of_lt_of_le (hspelling t ht) htu
  · intro t ht mark hmark
    cases List.mem_singleton.mp hmark
    obtain ⟨n, c, tail, hpos, hdrop, _⟩ := hcut.readIn t ht
    have hlength := congrArg List.length hdrop
    simp only [List.length_drop, List.length_cons, String.length_toList] at hlength
    simp only [hpos, Token.endMark]
    omega

/-- No two tokens of a source have the same position. -/
theorem index_of_pos (h : (tokenize settings source).result = .ok tokens) {j k : Nat} {t u : Token}
    (hj : tokens[j]? = some t) (hk : tokens[k]? = some u) (hpos : t.pos = u.pos) : j = k := by
  have hlt := List.pairwise_iff_getElem.mp (pos_lt_of_tokenize h)
  obtain ⟨hj', rfl⟩ := List.getElem?_eq_some_iff.mp hj
  obtain ⟨hk', rfl⟩ := List.getElem?_eq_some_iff.mp hk
  rcases Nat.lt_trichotomy j k with hjk | hjk | hjk
  · exact absurd hpos (Int.ne_of_lt (hlt j k hj' hk' hjk))
  · exact hjk
  · exact absurd hpos.symm (Int.ne_of_lt (hlt k j hk' hj' hjk))

/-- The failure behind a diagnostic, and the token that it blames. -/
theorem failure_of_parse {d : Diagnostic} (htokens : (tokenize settings source).result = .ok tokens)
    (h : (parse settings source).result = .error (.diagnostic d)) :
    ∃ ts f, tokens = ts ++ [Token.endMark source.length] ∧ ValidTokens settings.extended ts ∧
      Expr.ofTokens settings.extended ts = .error f ∧ d.reason = f.cause.message ∧
      ∃ t, tokens[ts.length - f.rest.length]? = some t ∧ d.pos = some t.pos := by
  rw [parse_result (tokenize_eq_ok.mp htokens)] at h
  obtain ⟨ts, rfl, hcut⟩ := cuts_of_tokenize htokens
  have hinput : Token.Input.ofList (ts ++ [Token.endMark source.length]) = ⟨ts, source.length⟩ :=
    ofList_split (noMark_of_validTokens hcut.valid) rfl
  simp only [treeify, Expr.ofInput, Fault.ofFailure_ample, hinput] at h
  cases hread : Expr.ofTokens settings.extended ts with
  | ok e =>
      rw [hread] at h
      cases h
  | error f =>
      rw [hread] at h
      cases h
      obtain ⟨t, ht, hpos⟩ := blamed_token (Parse.blame_suffix hread)
        (Token.endMark source.length) []
      obtain ⟨_, hreason, hplace⟩ := ofFailure_eq (some source) ⟨ts, source.length⟩ f
      exact ⟨ts, f, rfl, hcut.valid, hread, hreason, t, ht, by rw [← hpos]; exact hplace⟩

/-! ## Diagnostics -/

theorem Justified.of_closer {opened : List OpenGroup} {ts : List Token} {f : Failure} {v : String}
    (h : Justified opened ts f) (hcause : f.cause = .closedEarly v ∨ f.cause = .unmatched v) :
    ∃ (b : Bracket) (read : List Token) (t : Token) (rest : List Token) (around : List OpenGroup),
      f.rest = t :: rest ∧ ts = read ++ t :: rest ∧ t.kind = b.closing ∧ t.value = v ∧
      groupsAfter opened read = some around ∧
      (f.cause = .closedEarly v ↔ b ∈ around.map Prod.fst) := by
  cases h with
  | @closer b read t rest around hts ht hafter =>
      refine ⟨b, read, t, rest, around, rfl, hts, ht, ?_, hafter, ?_⟩
      · dsimp only at hcause
        split at hcause <;> rcases hcause with ⟨⟨⟩⟩ | ⟨⟨⟩⟩ <;> rfl
      · dsimp only at hcause ⊢
        split at hcause <;> rcases hcause with ⟨⟨⟩⟩ | ⟨⟨⟩⟩ <;> simp_all
  | unclosed => rcases hcause with hcause | hcause <;> cases hcause
  | other hother => rcases hcause with hcause | hcause <;> cases hcause <;> cases hother

theorem Justified.of_unclosed {opened : List OpenGroup} {ts : List Token} {f : Failure}
    {b : Bracket} {v : String} (h : Justified opened ts f) (hcause : f.cause = .unclosed b v) :
    ∃ opener inside outer, f.rest = opener :: inside ∧
      groupsAfter opened ts = some ((b, opener) :: outer) := by
  cases h with
  | closer =>
      dsimp only at hcause
      split at hcause <;> cases hcause
  | unclosed hafter =>
      cases hcause
      exact ⟨_, _, _, rfl, hafter⟩
  | other hother =>
      cases hcause
      cases hother

/-- The blamed token, when the tokens before it are known. -/
theorem blamed_eq {read rest us : List Token} {t u : Token}
    (hu : (read ++ t :: rest ++ us)[(read ++ t :: rest).length - (t :: rest).length]? = some u) :
    u = t ∧ (read ++ t :: rest ++ us).take ((read ++ t :: rest).length - (t :: rest).length) =
      read := by
  rw [List.length_append, Nat.add_sub_cancel] at hu ⊢
  simpa [eq_comm] using hu

/-- A diagnostic about a bracket blames the right one. An unmatched closing bracket stands inside of
no group of its kind, one where an operand should be stands inside of such a group, and an opening
bracket is blamed if its group is the innermost one that the source leaves open. -/
theorem brackets_of_parse {d : Diagnostic} {k : Nat} {t : Token}
    (htokens : (tokenize settings source).result = .ok tokens)
    (h : (parse settings source).result = .error (.diagnostic d))
    (hk : tokens[k]? = some t) (hpos : d.pos = some t.pos) (b : Bracket) :
    (d.reason = "Unmatched " ++ Text.quoted b.closingText →
      t.kind = b.closing ∧
        ∃ opened, groupsAfter [] (tokens.take k) = some opened ∧ b ∉ opened.map Prod.fst) ∧
    (d.reason = "Expected an expression, got " ++ Text.quoted b.closingText →
      t.kind = b.closing ∧
        ∃ opened, groupsAfter [] (tokens.take k) = some opened ∧ b ∈ opened.map Prod.fst) ∧
    (d.reason = "Unmatched " ++ Text.quoted b.openingText ++ ": expected " ++
        Text.quoted b.closingText →
      ∃ outer, groupsAfter [] tokens = some ((b, t) :: outer)) := by
  obtain ⟨ts, f, rfl, hts, hread, hreason, u, hu, hplace⟩ := failure_of_parse htokens h
  obtain rfl := index_of_pos htokens hk hu (Option.some.inj (hpos.symm.trans hplace))
  have hjust := Parse.justified_of_ofTokens hread
  have hcause : ∀ cause, cause ∈ b.causes → d.reason = cause.message → f.cause = cause :=
    fun _ hmem heq => hjust.eq_of_message hts hmem (hreason.symm.trans heq)
  -- Both kinds of closing brackets are blamed where they stand.
  have hcloser : f.cause = .closedEarly b.closingText ∨ f.cause = .unmatched b.closingText →
      t.kind = b.closing ∧ ∃ opened,
        groupsAfter [] ((ts ++ [Token.endMark source.length]).take (ts.length - f.rest.length)) =
          some opened ∧
        (f.cause = .closedEarly b.closingText ↔ b ∈ opened.map Prod.fst) := by
    intro hcloses
    obtain ⟨b', read, t', rest, opened, hrest, rfl, hkind, hvalue, hafter, hb⟩ :=
      hjust.of_closer hcloses
    have hvalid := value_of_closing hkind (hts t' (by simp))
    obtain rfl := closingText_injective (hvalid.symm.trans hvalue)
    rw [hrest] at hk ⊢
    obtain ⟨rfl, htake⟩ := blamed_eq hk
    exact ⟨hkind, opened, by rw [htake, hafter], hb⟩
  refine ⟨fun htext => ?_, fun htext => ?_, fun htext => ?_⟩
  · have hunmatched := hcause (.unmatched b.closingText) (by simp [Bracket.causes]) htext
    obtain ⟨hkind, opened, hafter, hb⟩ := hcloser (.inr hunmatched)
    refine ⟨hkind, opened, hafter, fun hmem => ?_⟩
    have hearly := hb.mpr hmem
    rw [hunmatched] at hearly
    cases hearly
  · have hearly := hcause (.closedEarly b.closingText) (by simp [Bracket.causes]) htext
    obtain ⟨hkind, opened, hafter, hb⟩ := hcloser (.inl hearly)
    exact ⟨hkind, opened, hafter, hb.mp hearly⟩
  · have hunclosed := hcause (.unclosed b b.openingText) (by simp [Bracket.causes]) htext
    obtain ⟨opener, inside, outer, hrest, hafter⟩ := hjust.of_unclosed hunclosed
    obtain ⟨read, rfl⟩ := Parse.blame_suffix hread
    rw [hrest] at hk hafter ⊢
    obtain ⟨rfl, _⟩ := blamed_eq hk
    exact ⟨outer, by rw [groupsAfter_append, hafter]; rfl⟩

/-- Of two groups that are not closed the inner one is blamed, and a brace is unmatched inside of
parentheses. -/
theorem brackets_of_call :
    let tokens : List Token := [⟨.ident, "f", 0⟩, ⟨.lparen, "(", 1⟩, ⟨.lparen, "(", 2⟩,
      ⟨.ident, "a", 3⟩, .endMark 4]
    let d : Diagnostic := .expression "Unmatched '(': expected ')'" (some "f((a") 2
    let tokens' : List Token := [⟨.lparen, "(", 0⟩, ⟨.rbrace, "\x7d", 1⟩, .endMark 2]
    let d' : Diagnostic := .expression "Unmatched '\x7d'" (some "(\x7d") 1
    ((tokenize {} "f((a").result = .ok tokens ∧ (parse {} "f((a").result = .error (.diagnostic d) ∧
      ∃ outer, groupsAfter [] tokens = some ((.paren, ⟨.lparen, "(", 2⟩) :: outer)) ∧
    (tokenize {} "(\x7d").result = .ok tokens' ∧
      (parse {} "(\x7d").result = .error (.diagnostic d') ∧
      ∃ opened, groupsAfter [] (tokens'.take 1) = some opened ∧ .brace ∉ opened.map Prod.fst := by
  intro tokens d tokens' d'
  have htokens : (tokenize {} "f((a").result = .ok tokens := rfl
  have hparse : (parse {} "f((a").result = .error (.diagnostic d) := rfl
  have htokens' : (tokenize {} "(\x7d").result = .ok tokens' := rfl
  have hparse' : (parse {} "(\x7d").result = .error (.diagnostic d') := rfl
  obtain ⟨_, _, hunclosed⟩ := brackets_of_parse htokens hparse (k := 2) rfl rfl .paren
  obtain ⟨hunmatched, _⟩ := brackets_of_parse htokens' hparse' (k := 1) rfl rfl .brace
  exact ⟨⟨htokens, hparse, hunclosed (by decide)⟩, htokens', hparse', (hunmatched (by decide)).2⟩

end DebugExpr
