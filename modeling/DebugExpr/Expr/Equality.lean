import DebugExpr.Expr.Basic

/-!
# Equality of expressions

Expressions are compared node by node, and the comparison decides their equality.
-/

namespace DebugExpr

namespace Expr

mutual

/-- Whether two expressions are the same tree. -/
def beq : Expr → Expr → Bool
  | .number r s, .number r' s' => r == r' && s == s'
  | .string s, .string s' => s == s'
  | .var x, .var x' => x == x'
  | .unary o e, .unary o' e' => o == o' && e.beq e'
  | .binary o l r, .binary o' l' r' => o == o' && l.beq l' && r.beq r'
  | .bareCall f, .bareCall f' => f == f'
  | .call f es, .call f' es' => f == f' && beqList es es'
  | .assign x e, .assign x' e' => x == x' && e.beq e'
  | .func ps es, .func ps' es' => ps == ps' && beqList es es'
  | _, _ => false

def beqList : List Expr → List Expr → Bool
  | [], [] => true
  | e :: es, e' :: es' => e.beq e' && beqList es es'
  | _, _ => false

end

instance : BEq Expr := ⟨beq⟩

mutual

theorem eq_of_beq : (a b : Expr) → a.beq b = true → a = b
  | .number .., b, h | .string .., b, h | .var .., b, h | .bareCall .., b, h => by
    cases b <;> simp_all [beq]
  | .unary _ e, b, h => by
    cases b <;> simp_all [beq]
    exact eq_of_beq e _ h.2
  | .binary _ l r, b, h => by
    cases b <;> simp_all [beq]
    exact ⟨eq_of_beq l _ h.1.2, eq_of_beq r _ h.2⟩
  | .call _ es, b, h => by
    cases b <;> simp_all [beq]
    exact eq_of_beqList es _ h.2
  | .assign _ e, b, h => by
    cases b <;> simp_all [beq]
    exact eq_of_beq e _ h.2
  | .func _ es, b, h => by
    cases b <;> simp_all [beq]
    exact eq_of_beqList es _ h.2

theorem eq_of_beqList : (as bs : List Expr) → beqList as bs = true → as = bs
  | [], bs, h => by cases bs <;> simp_all [beqList]
  | a :: as, bs, h => by
    cases bs with
    | nil => simp [beqList] at h
    | cons b bs =>
      simp only [beqList, Bool.and_eq_true] at h
      rw [eq_of_beq a b h.1, eq_of_beqList as bs h.2]

end

mutual

theorem beq_self : (a : Expr) → a.beq a = true
  | .number .. | .string .. | .var .. | .bareCall .. => by simp [beq]
  | .unary _ e => by simp [beq, beq_self e]
  | .binary _ l r => by simp [beq, beq_self l, beq_self r]
  | .call _ es => by simp [beq, beqList_self es]
  | .assign _ e => by simp [beq, beq_self e]
  | .func _ es => by simp [beq, beqList_self es]

theorem beqList_self : (as : List Expr) → beqList as as = true
  | [] => rfl
  | a :: as => by simp [beqList, beq_self a, beqList_self as]

end

instance : LawfulBEq Expr where
  eq_of_beq h := eq_of_beq _ _ h
  rfl := beq_self _

instance : DecidableEq Expr := fun a b =>
  decidable_of_iff (a.beq b = true) ⟨eq_of_beq a b, fun h => h ▸ beq_self a⟩

end Expr

end DebugExpr
