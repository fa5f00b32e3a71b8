import DebugExpr.Expr.Walk

/-!
# The order of a walk

A node has a place in its tree: the numbers of the children that lead to it from the root. A walk
passes each place once, a node before those below it, and these before the later children of the
same parent. So the walk of a node is a part of every walk that passes it, and begins there.
-/

namespace DebugExpr.Expr

/-! ## Children -/

/-- The expressions directly below an expression, from left to right. -/
def children : Expr → List Expr
  | .number .. | .string .. | .var .. | .bareCall .. => []
  | .unary _ e => [e]
  | .binary _ l r => [l, r]
  | .call _ es => es
  | .assign _ e => [e]
  | .func _ es => es

mutual

/-- What holds of an expression if it holds of all its children holds of every expression. -/
@[elab_as_elim]
theorem childInduction {motive : Expr → Prop}
    (node : ∀ e, (∀ c ∈ e.children, motive c) → motive e) : ∀ e, motive e
  | .number .. | .string .. | .var .. | .bareCall .. => node _ nofun
  | .unary _ e | .assign _ e => node _ (List.forall_mem_singleton.mpr (childInduction node e))
  | .binary _ l r =>
      node _ (List.forall_mem_cons.mpr
        ⟨childInduction node l, List.forall_mem_singleton.mpr (childInduction node r)⟩)
  | .call _ es | .func _ es => node _ (childInductionList node es)

theorem childInductionList {motive : Expr → Prop}
    (node : ∀ e, (∀ c ∈ e.children, motive c) → motive e) : ∀ es : List Expr, ∀ c ∈ es, motive c
  | [] => nofun
  | e :: es => List.forall_mem_cons.mpr ⟨childInduction node e, childInductionList node es⟩

end

theorem walk_eq (e : Expr) : e.walk = e :: walkList e.children := by
  cases e <;> simp [walk, children, walkList]

/-! ## The number of nodes -/

mutual

/-- The number of nodes. Lists of arguments and names of parameters are no nodes. -/
def size : Expr → Nat
  | .number .. | .string .. | .var .. | .bareCall .. => 1
  | .unary _ e => e.size + 1
  | .binary _ l r => l.size + r.size + 1
  | .call _ es => sizeList es + 1
  | .assign _ e => e.size + 1
  | .func _ es => sizeList es + 1

def sizeList : List Expr → Nat
  | [] => 0
  | e :: es => e.size + sizeList es

end

theorem size_eq (e : Expr) : e.size = sizeList e.children + 1 := by
  cases e <;> simp [size, sizeList, children]

theorem length_walkList {es : List Expr} (h : ∀ e ∈ es, e.walk.length = e.size) :
    (walkList es).length = sizeList es := by
  induction es with
  | nil => rfl
  | cons e es ih =>
      obtain ⟨he, hes⟩ := List.forall_mem_cons.mp h
      rw [walkList, sizeList, List.length_append, he, ih hes]

theorem length_walk (e : Expr) : e.walk.length = e.size := by
  induction e using childInduction with
  | node e ih => rw [walk_eq, size_eq, List.length_cons, length_walkList ih]

/-! ## Walks in a walk -/

/-- Wherever a list comes to a node it goes on with the walk of the node. -/
def Contiguous (nodes : List Expr) : Prop :=
  ∀ i n, nodes[i]? = some n → n.walk <+: nodes.drop i

theorem Contiguous.append {ns ms : List Expr} (hns : Contiguous ns) (hms : Contiguous ms) :
    Contiguous (ns ++ ms) := by
  intro i n hi
  rcases Nat.lt_or_ge i ns.length with hlt | hge
  · rw [List.getElem?_append_left hlt] at hi
    rw [List.drop_append_of_le_length (Nat.le_of_lt hlt)]
    exact (hns i n hi).trans (List.prefix_append _ _)
  · rw [List.getElem?_append_right hge] at hi
    rw [List.drop_append, List.drop_eq_nil_of_le hge, List.nil_append]
    exact hms _ n hi

theorem contiguous_walkList {es : List Expr} (h : ∀ e ∈ es, Contiguous e.walk) :
    Contiguous (walkList es) := by
  induction es with
  | nil => exact fun _ _ hi => nomatch hi
  | cons e es ih =>
      obtain ⟨he, hes⟩ := List.forall_mem_cons.mp h
      exact he.append (ih hes)

theorem contiguous_walk (e : Expr) : Contiguous e.walk := by
  induction e using childInduction with
  | node e ih =>
      have hwalk := walk_eq e
      rw [hwalk]
      intro i n hi
      cases i with
      | zero =>
          cases hi
          rw [hwalk]
          exact List.prefix_refl _
      | succ i => exact contiguous_walkList ih i n hi

/-! ## Places -/

/-- The node at a place: the numbers of the children on the way to it from the root. -/
def at? (e : Expr) : List Nat → Option Expr
  | [] => some e
  | i :: place => e.children[i]?.bind fun c => c.at? place

mutual

/-- The places of a tree in the order of its walk. -/
def places : Expr → List (List Nat)
  | .number .. | .string .. | .var .. | .bareCall .. => [[]]
  | .unary _ e => [] :: e.places.map (0 :: ·)
  | .binary _ l r => [] :: (l.places.map (0 :: ·) ++ r.places.map (1 :: ·))
  | .call _ es => [] :: placesFrom 0 es
  | .assign _ e => [] :: e.places.map (0 :: ·)
  | .func _ es => [] :: placesFrom 0 es

/-- The places of trees that are children from a number on. -/
def placesFrom (i : Nat) : List Expr → List (List Nat)
  | [] => []
  | e :: es => e.places.map (i :: ·) ++ placesFrom (i + 1) es

end

theorem places_eq (e : Expr) : e.places = [] :: placesFrom 0 e.children := by
  cases e <;> simp [places, children, placesFrom]

theorem mem_placesFrom {i : Nat} {es : List Expr} {place : List Nat} :
    place ∈ placesFrom i es ↔
      ∃ j e below, es[j]? = some e ∧ below ∈ e.places ∧ place = (i + j) :: below := by
  induction es generalizing i with
  | nil => simp [placesFrom]
  | cons e es ih =>
      rw [placesFrom, List.mem_append, List.mem_map, ih]
      constructor
      · rintro (⟨below, hbelow, rfl⟩ | ⟨j, c, below, hc, hbelow, rfl⟩)
        · exact ⟨0, e, below, rfl, hbelow, rfl⟩
        · exact ⟨j + 1, c, below, hc, hbelow, by rw [Nat.add_assoc, Nat.add_comm 1]⟩
      · rintro ⟨j, c, below, hc, hbelow, rfl⟩
        cases j with
        | zero =>
            cases hc
            exact .inl ⟨below, hbelow, rfl⟩
        | succ j => exact .inr ⟨j, c, below, hc, hbelow, by rw [Nat.add_assoc, Nat.add_comm 1]⟩

/-- The places of a tree are those at which it has a node. -/
theorem mem_places {e : Expr} {place : List Nat} : place ∈ e.places ↔ (e.at? place).isSome := by
  induction e using childInduction generalizing place with
  | node e ih =>
      rw [places_eq, List.mem_cons, mem_placesFrom]
      cases place with
      | nil => simp [at?]
      | cons i place =>
          simp only [at?, Nat.zero_add, reduceCtorEq, false_or, List.cons.injEq]
          cases hc : e.children[i]? with
          | none =>
              refine iff_of_false ?_ nofun
              rintro ⟨j, c, below, hj, _, rfl, rfl⟩
              cases hc.symm.trans hj
          | some c =>
              rw [Option.bind_some, ← ih c (List.mem_of_getElem? hc)]
              constructor
              · rintro ⟨j, c', below, hj, hbelow, rfl, rfl⟩
                cases hc.symm.trans hj
                exact hbelow
              · exact fun h => ⟨i, c, place, hc, h, rfl, rfl⟩

/-- The nodes at the places of some of the children. -/
theorem map_placesFrom {parent : Expr} {before es : List Expr}
    (hparent : parent.children = before ++ es)
    (h : ∀ e ∈ es, e.places.map e.at? = e.walk.map some) :
    (placesFrom before.length es).map parent.at? = (walkList es).map some := by
  induction es generalizing before with
  | nil => rfl
  | cons e es ih =>
      obtain ⟨he, hes⟩ := List.forall_mem_cons.mp h
      have hchild : parent.at? ∘ (before.length :: ·) = e.at? := by
        funext place
        simp [at?, hparent]
      have hrest : (placesFrom (before ++ [e]).length es).map parent.at? = (walkList es).map some :=
        ih (by rw [hparent, List.append_cons]) hes
      rw [List.length_append, List.length_singleton] at hrest
      rw [placesFrom, walkList, List.map_append, List.map_append, List.map_map, hchild, he, hrest]

theorem map_places (e : Expr) : e.places.map e.at? = e.walk.map some := by
  induction e using childInduction with
  | node e ih =>
      rw [places_eq, walk_eq, List.map_cons, List.map_cons]
      exact congrArg (some e :: ·) (map_placesFrom (List.nil_append _).symm ih)

/-- A place goes before those below it, and all that is below a child before the later children. -/
inductive Before : List Nat → List Nat → Prop
  | below (place : List Nat) (i : Nat) (rest : List Nat) : Before place (place ++ i :: rest)
  | later (place : List Nat) {i j : Nat} (rest rest' : List Nat) :
      i < j → Before (place ++ i :: rest) (place ++ j :: rest')

theorem Before.cons {p q : List Nat} (i : Nat) (h : Before p q) : Before (i :: p) (i :: q) := by
  cases h with
  | below _ j rest => exact .below (i :: p) j rest
  | later place rest rest' hlt => exact .later (i :: place) rest rest' hlt

theorem Before.ne {p q : List Nat} (h : Before p q) : p ≠ q := by
  cases h with
  | below _ i rest => simp
  | later place rest rest' hlt =>
      intro heq
      exact Nat.ne_of_lt hlt (List.cons.inj (List.append_cancel_left heq)).1

theorem pairwise_placesFrom {es : List Expr} (i : Nat)
    (h : ∀ e ∈ es, e.places.Pairwise Before) : (placesFrom i es).Pairwise Before := by
  induction es generalizing i with
  | nil => exact .nil
  | cons e es ih =>
      obtain ⟨he, hes⟩ := List.forall_mem_cons.mp h
      rw [placesFrom, List.pairwise_append]
      refine ⟨List.pairwise_map.mpr (he.imp (Before.cons i)), ih (i + 1) hes, ?_⟩
      intro p hp q hq
      obtain ⟨below, _, rfl⟩ := List.mem_map.mp hp
      obtain ⟨j, _, below', _, _, rfl⟩ := mem_placesFrom.mp hq
      exact .later [] below below' (by omega)

theorem pairwise_places (e : Expr) : e.places.Pairwise Before := by
  induction e using childInduction with
  | node e ih =>
      rw [places_eq, List.pairwise_cons]
      refine ⟨?_, pairwise_placesFrom 0 ih⟩
      intro place hplace
      obtain ⟨j, _, below, _, _, rfl⟩ := mem_placesFrom.mp hplace
      exact .below [] _ below

/-- A walk has as many nodes as the tree, and from each of its nodes on the walk of that node. It
passes the places of the tree, each one once: a place before those below it, and these before the
later children of the same parent. -/
theorem walk_preorder (e : Expr) :
    e.walk.length = e.size ∧
    (∀ i n, e.walk[i]? = some n → (e.walk.drop i).take n.walk.length = n.walk) ∧
    e.walk.map some = e.places.map e.at? ∧
    (∀ place, place ∈ e.places ↔ (e.at? place).isSome) ∧
    e.places.Nodup ∧ e.places.Pairwise Before := by
  refine ⟨length_walk e, fun i n hi => ?_, (map_places e).symm, fun _ => mem_places,
    (pairwise_places e).imp Before.ne, pairwise_places e⟩
  exact (List.prefix_iff_eq_take.mp (contiguous_walk e i n hi)).symm

/-- A function literal as an argument: its walk is the part of four nodes that begins at it. -/
theorem walk_preorder_of_call :
    let n : Expr := .func ["a", "b"] [.unary .neg (.var "a"), .bareCall "f"]
    let e : Expr := .assign "x" (.call "f" [.number .dec "1", n, .var "a"])
    e.walk[3]? = some n ∧ n.walk.length = 4 ∧ (e.walk.drop 3).take n.walk.length = n.walk := by
  intro n e
  have hn : e.walk[3]? = some n := rfl
  exact ⟨hn, rfl, (walk_preorder e).2.1 3 n hn⟩

end DebugExpr.Expr
