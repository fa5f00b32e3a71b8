import DebugExpr.Proofs.Grammar
import DebugExpr.Parse.Function

/-!
# Parameters of function literals

The look-ahead after an opening parenthesis finds a list of parameters with a closing parenthesis
and an opening brace after it, and nothing else; what is then taken are these parameters.
-/

namespace DebugExpr.Parse

open Grammar

theorem endsParams_iff {ts : List Token} :
    endsParams ts = true ↔
      ∃ u v rest, ts = u :: v :: rest ∧ u.kind = .rparen ∧ v.kind = .lbrace := by
  match ts with
  | [] | [_] => simp [endsParams]
  | u :: v :: rest =>
      simp only [endsParams, Bool.and_eq_true, decide_eq_true_eq]
      constructor
      · rintro ⟨hu, hv⟩
        exact ⟨u, v, rest, rfl, hu, hv⟩
      · rintro ⟨_, _, _, ⟨⟩, hu, hv⟩
        exact ⟨hu, hv⟩

/-- The look-ahead after a name, as long as names follow. -/
theorem moreParams_cons {t u : Token} {ts : List Token} (ht : t.kind = .comma)
    (hu : u.kind = .ident) : moreParams (t :: u :: ts) = moreParams ts := by
  simp [moreParams, ht, hu]

theorem moreParams_eq_endsParams {ts : List Token} (h : ∀ t us, ts = t :: us → t.kind ≠ .comma) :
    moreParams ts = endsParams ts := by
  match ts with
  | [] | [_] => simp [moreParams, endsParams]
  | t :: u :: us => simp [moreParams, h t (u :: us) rfl]

theorem names_of_moreParams {t : Token} {ts : List Token} (ht : t.kind = .ident)
    (h : moreParams ts = true) :
    ∃ ps xs u v rest, t :: ts = ps ++ u :: v :: rest ∧ Names ps xs ∧
      u.kind = .rparen ∧ v.kind = .lbrace := by
  fun_induction moreParams ts generalizing t with
  | case1 c u rest hcu ih =>
      obtain ⟨ps, xs, v, w, rest', he, hps, hv, hw⟩ := ih hcu.2 h
      exact ⟨t :: c :: ps, t.value :: xs, v, w, rest', by simp [he], .more ht hcu.1 hps, hv, hw⟩
  | case2 c u rest _ =>
      obtain ⟨v, w, rest', he, hv, hw⟩ := endsParams_iff.mp h
      exact ⟨[t], [t.value], v, w, rest', by simp [he], .one ht, hv, hw⟩
  | case3 => cases h

theorem opensFunc_of_names {ps : List Token} {xs : List String} (h : Names ps xs) {u v : Token}
    (hu : u.kind = .rparen) (hv : v.kind = .lbrace) (rest : List Token) :
    ∃ t ts, ps ++ u :: v :: rest = t :: ts ∧ t.kind = .ident ∧ moreParams ts = true := by
  induction h with
  | @one t ht =>
      refine ⟨t, u :: v :: rest, rfl, ht, ?_⟩
      rw [moreParams_eq_endsParams (by rintro _ _ ⟨⟩; simp [hu])]
      exact endsParams_iff.mpr ⟨u, v, rest, rfl, hu, hv⟩
  | @more t c ps xs ht hc _ ih =>
      obtain ⟨t', ts, he, ht', hts⟩ := ih
      exact ⟨t, c :: t' :: ts, by simp [he], ht, by rw [moreParams_cons hc ht']; exact hts⟩

theorem opensFunc_iff {ts : List Token} :
    opensFunc ts = true ↔ ∃ ps xs u v rest, ts = ps ++ u :: v :: rest ∧ Params ps xs ∧
      u.kind = .rparen ∧ v.kind = .lbrace := by
  constructor
  · intro h
    cases ts with
    | nil => simp [opensFunc] at h
    | cons t ts =>
        by_cases ht : t.kind = .ident
        · obtain ⟨ps, xs, u, v, rest, he, hps, hu, hv⟩ :=
            names_of_moreParams ht (by simpa [opensFunc, ht] using h)
          exact ⟨ps, xs, u, v, rest, he, .some hps, hu, hv⟩
        · obtain ⟨u, v, rest, he, hu, hv⟩ := endsParams_iff.mp (by simpa [opensFunc, ht] using h)
          exact ⟨[], [], u, v, rest, he, .none, hu, hv⟩
  · rintro ⟨ps, xs, u, v, rest, rfl, hps, hu, hv⟩
    cases hps with
    | none =>
        have : endsParams (u :: v :: rest) = true := endsParams_iff.mpr ⟨u, v, rest, rfl, hu, hv⟩
        simpa [opensFunc, hu] using this
    | some hps =>
        obtain ⟨t, ts, he, ht, hts⟩ := opensFunc_of_names hps hu hv rest
        simpa [he, opensFunc, ht] using hts

theorem takeParams_rparen {u : Token} (hu : u.kind = .rparen) (rest : List Token) :
    takeParams (u :: rest) = ([], rest) := by
  cases rest with
  | nil => rw [takeParams, if_pos hu]
  | cons v rest => rw [takeParams, if_pos hu]

theorem takeParams_names {ps : List Token} {xs : List String} (h : Names ps xs) {u : Token}
    (hu : u.kind = .rparen) (rest : List Token) : takeParams (ps ++ u :: rest) = (xs, rest) := by
  induction h with
  | @one t ht =>
      have hc : u.kind ≠ .comma := by simp [hu]
      rw [List.singleton_append, takeParams, if_neg (by simp [ht])]
      simp only [if_neg hc, takeParams_rparen hu]
  | @more t c ps xs ht hc _ ih =>
      show takeParams (t :: c :: (ps ++ u :: rest)) = _
      rw [takeParams, if_neg (by simp [ht])]
      simp only [if_pos hc, ih]

theorem takeParams_append {ps : List Token} {xs : List String} (h : Params ps xs) {u : Token}
    (hu : u.kind = .rparen) (rest : List Token) : takeParams (ps ++ u :: rest) = (xs, rest) := by
  cases h with
  | none => exact takeParams_rparen hu rest
  | some h => exact takeParams_names h hu rest

/-! ## An expression in parentheses is no list of parameters -/

/-- The tokens of which lists of parameters are made. -/
def isParam (t : Token) : Bool :=
  t.kind == .ident || t.kind == .comma

/-- The first token that could not stand in a list of parameters does not close the list. -/
def NoParams (ts : List Token) : Prop :=
  ∀ t us, ts.dropWhile isParam = t :: us → t.kind ≠ .rparen

theorem NoParams.cons {t : Token} (ht : isParam t = false) (hne : t.kind ≠ .rparen)
    (us : List Token) : NoParams (t :: us) := by
  intro t' us' h
  rw [List.dropWhile_cons, ht] at h
  cases h
  exact hne

theorem NoParams.param {t : Token} (ht : isParam t = true) {us : List Token} (h : NoParams us) :
    NoParams (t :: us) := by
  intro t' us' h'
  rw [List.dropWhile_cons, ht] at h'
  exact h t' us' h'

theorem noParams_nil : NoParams [] := by
  intro t us h
  cases h

theorem NoParams.append {ts : List Token} (h : NoParams ts) {t : Token} (ht : isParam t = false)
    (hne : t.kind ≠ .rparen) (us : List Token) : NoParams (ts ++ t :: us) := by
  induction ts with
  | nil => exact .cons ht hne us
  | cons t' ts ih =>
      by_cases ht' : isParam t' = true
      · refine .param ht' (ih ?_)
        intro x xs hx
        exact h x xs (by rw [List.dropWhile_cons, ht']; exact hx)
      · have hne' : t'.kind ≠ .rparen := h t' ts (by simp [ht'])
        exact .cons (by simpa using ht') hne' _

theorem params_dropWhile {ps : List Token} {xs : List String} (h : Params ps xs)
    (rest : List Token) : (ps ++ rest).dropWhile isParam = rest.dropWhile isParam := by
  cases h with
  | none => rfl
  | some h =>
      induction h with
      | one ht => simp [isParam, ht]
      | more ht hc _ ih => simpa [List.dropWhile_cons, isParam, ht, hc] using ih

theorem NoParams.opensFunc_eq_false {ts : List Token} (h : NoParams ts) {u : Token}
    (hu : u.kind = .rparen) {rest : List Token} (hrest : nextIs .lbrace rest = false) :
    opensFunc (ts ++ u :: rest) = false := by
  rw [Bool.eq_false_iff]
  intro hopens
  obtain ⟨ps, xs, u', v, rest', he, hps, hu', hv⟩ := opensFunc_iff.mp hopens
  have hdrop := congrArg (List.dropWhile isParam) he
  rw [params_dropWhile hps, List.dropWhile_append] at hdrop
  split at hdrop
  · simp only [List.dropWhile_cons, isParam, hu, hu'] at hdrop
    cases hdrop
    simp [nextIs, hv] at hrest
  · rename_i hne
    cases hts : ts.dropWhile isParam with
    | nil => simp [hts] at hne
    | cons t us =>
        simp only [hts, List.cons_append, List.dropWhile_cons, isParam, hu'] at hdrop
        obtain ⟨rfl, _⟩ := List.cons.inj hdrop
        exact h t us hts hu'

/-- The tokens begin with one that closes no group. -/
def Starts (ts : List Token) : Prop :=
  ∃ t us, ts = t :: us ∧ t.kind ≠ .rparen ∧ t.kind ≠ .rbrace

theorem Starts.append {ts : List Token} (h : Starts ts) (us : List Token) : Starts (ts ++ us) := by
  obtain ⟨t, ts, rfl, ht⟩ := h
  exact ⟨t, ts ++ us, rfl, ht⟩

theorem Starts.nextIs_rparen {ts : List Token} (h : Starts ts) : nextIs .rparen ts = false := by
  obtain ⟨t, ts, rfl, ht, _⟩ := h
  simp [nextIs, ht]

theorem Starts.nextIs_rbrace {ts : List Token} (h : Starts ts) : nextIs .rbrace ts = false := by
  obtain ⟨t, ts, rfl, _, ht⟩ := h
  simp [nextIs, ht]

end DebugExpr.Parse

namespace DebugExpr.Grammar

open Parse

theorem Target.noParams {ts x} : Target ts x → NoParams ts
  | .name h => .param (by simp [isParam, h]) noParams_nil
  | .group h _ _ => .cons (by simp [isParam, h]) (by simp [h]) _

theorem LeftOp.isParam_eq_false {s : Stratum} {op : BinaryOp} {t : Token}
    (h : LeftOp s t.kind op) : isParam t = false ∧ t.kind ≠ .rparen := by
  generalize hk : t.kind = k at h
  cases h <;> simp [isParam, hk]

theorem AssignOp.isParam_eq_false {x : String} {v e : Expr} {t : Token}
    (h : AssignOp x v t.kind e) : isParam t = false ∧ t.kind ≠ .rparen := by
  generalize hk : t.kind = k at h
  cases h <;> simp [isParam, hk]

theorem PrefixOp.isParam_eq_false {op : UnaryOp} {t : Token} (h : PrefixOp t.kind op) :
    isParam t = false ∧ t.kind ≠ .rparen := by
  generalize hk : t.kind = k at h
  cases h <;> simp [isParam, hk]

theorem Leaf.noParams {extended : Bool} {t : Token} {e : Expr} (h : Leaf extended t e) :
    NoParams [t] := by
  cases h with
  | var h => exact .param (by simp [isParam, h]) noParams_nil
  | number h | hex h | bin _ h | string h => exact .cons (by simp [isParam, h]) (by simp [h]) _

theorem Derivation.noParams {extended : Bool} {s ts e} : Derivation extended s ts e → NoParams ts
  | .assign t h _ => t.noParams.append h.isParam_eq_false.1 h.isParam_eq_false.2 _
  | .chain d h _ => d.noParams.append h.isParam_eq_false.1 h.isParam_eq_false.2 _
  | .sum d h _ => d.noParams.append (by simp [isParam, h]) (by simp [h]) _
  | .unary h _ => .cons h.isParam_eq_false.1 h.isParam_eq_false.2 _
  | .leaf h => h.noParams
  | .bareCall h h' _ | .call h h' _ _ =>
      .param (by simp [isParam, h]) (.cons (by simp [isParam, h']) (by simp [h']) _)
  | .group h _ _ | .bareFunc h .. | .func h .. => .cons (by simp [isParam, h]) (by simp [h]) _
  | .tighter _ d => d.noParams

theorem Target.starts {ts x} : Target ts x → Starts ts
  | .name h | .group h _ _ => ⟨_, _, rfl, by simp [h], by simp [h]⟩

theorem Derivation.starts {extended : Bool} {s ts e} : Derivation extended s ts e → Starts ts
  | .assign t _ _ => t.starts.append _
  | .chain d _ _ | .sum d _ _ => d.starts.append _
  | .unary h _ => ⟨_, _, rfl, by generalize hk : Token.kind _ = k at h; cases h <;> simp⟩
  | .leaf h => ⟨_, _, rfl, by cases h <;> simp_all⟩
  | .bareCall h _ _ | .call h _ _ _ | .group h _ _ | .bareFunc h .. | .func h .. =>
      ⟨_, _, rfl, by simp [h], by simp [h]⟩
  | .tighter _ d => d.starts

theorem Items.starts {extended : Bool} {ts es} : Items extended ts es → Starts ts
  | .one d => d.starts
  | .more d _ _ => d.starts.append _

end DebugExpr.Grammar
