/-
Finite directed graphs given by a vertex list and an edge relation, and the
orders that run such a graph.

Nothing here mentions a scheduler. `Precedes` compares first positions in a
list, `LinearExtension` is a listing of the vertices that puts every edge
forward, and `AcyclicOn` forbids closed walks that stay inside the vertex list.
The two facts a scheduler needs are `LinearExtension.precedes_of_transGen` (a
walk is respected by every linear extension) and `AcyclicOn.exists_source`
(a nonempty part of an acyclic graph has a vertex that nothing in the part
points at).
-/

import Mathlib.Data.Set.Finite.List

namespace Digraph

open Relation

variable {V : Type}

/-! ### Positions in a list -/

section Precedes

variable [DecidableEq V]

/-- The first occurrence of `x` in `l` is strictly before the first occurrence
of `y`, which does occur. -/
def Precedes (l : List V) (x y : V) : Prop :=
  y ∈ l ∧ l.idxOf x < l.idxOf y

variable {l : List V}

theorem Precedes.mem_left {x y : V} (h : Precedes l x y) : x ∈ l := by
  have hy : l.idxOf y < l.length := List.idxOf_lt_length_of_mem h.1
  exact List.idxOf_lt_length_iff.mp (h.2.trans hy)

theorem Precedes.trans {x y z : V} (h₁ : Precedes l x y) (h₂ : Precedes l y z) : Precedes l x z :=
  ⟨h₂.1, h₁.2.trans h₂.2⟩

theorem not_precedes_self (l : List V) (x : V) : ¬ Precedes l x x :=
  fun h => Nat.lt_irrefl _ h.2

/-- Appending never disturbs the order of what was already listed. -/
theorem Precedes.append_right {x y : V} (h : Precedes l x y) (r : List V) :
    Precedes (l ++ r) x y := by
  refine ⟨List.mem_append_left _ h.1, ?_⟩
  rw [List.idxOf_append_of_mem h.mem_left, List.idxOf_append_of_mem h.1]
  exact h.2

/-- A vertex listed in the first part precedes one that only the second part
lists. -/
theorem precedes_append {r : List V} {x y : V} (hx : x ∈ l) (hy : y ∈ r) (hyl : y ∉ l) :
    Precedes (l ++ r) x y := by
  refine ⟨List.mem_append_right _ hy, ?_⟩
  rw [List.idxOf_append_of_mem hx, List.idxOf_append_of_notMem hyl]
  exact (List.idxOf_lt_length_of_mem hx).trans_le (Nat.le_add_right _ _)

/-- A prefix that lists neither endpoint is invisible to `Precedes`. -/
theorem Precedes.append_left {r : List V} {x y : V} (h : Precedes r x y) (hx : x ∉ l) (hy : y ∉ l) :
    Precedes (l ++ r) x y := by
  refine ⟨List.mem_append_right _ h.1, ?_⟩
  rw [List.idxOf_append_of_notMem hx, List.idxOf_append_of_notMem hy]
  exact Nat.add_lt_add_left h.2 _

/-! Blocks listed one after another, `f` giving the block of each label. -/

variable {L : Type} {labels : List L} {f : L → List V} {x y : V} {t : L} {j : Nat}

omit [DecidableEq V] in
private theorem flatMap_split (hj : labels[j]? = some t) :
    labels.flatMap f = (labels.take j).flatMap f ++ (f t ++ (labels.drop (j + 1)).flatMap f) := by
  obtain ⟨hlt, rfl⟩ := List.getElem?_eq_some_iff.mp hj
  conv_lhs => rw [← List.take_append_drop j labels, List.drop_eq_getElem_cons hlt]
  rw [List.flatMap_append, List.flatMap_cons]

/-- A vertex of an earlier block precedes one that no block before its own
lists. -/
theorem precedes_flatMap_of_lt {s : L} {i : Nat} (hi : labels[i]? = some s)
    (hj : labels[j]? = some t) (hij : i < j) (hx : x ∈ f s) (hy : y ∈ f t)
    (hfirst : ∀ u ∈ labels.take j, y ∉ f u) : Precedes (labels.flatMap f) x y := by
  rw [flatMap_split hj]
  refine precedes_append ?_ (List.mem_append_left _ hy) ?_
  · have hs : s ∈ labels.take j :=
      List.mem_of_getElem? (by rw [List.getElem?_take_of_lt hij]; exact hi)
    exact List.mem_flatMap.mpr ⟨s, hs, hx⟩
  · intro hmem
    obtain ⟨u, hu, hyu⟩ := List.mem_flatMap.mp hmem
    exact hfirst u hu hyu

/-- The order inside a block is the order of the whole listing, for vertices
that no earlier block lists. -/
theorem Precedes.flatMap (hj : labels[j]? = some t) (h : Precedes (f t) x y)
    (hx : ∀ u ∈ labels.take j, x ∉ f u) (hy : ∀ u ∈ labels.take j, y ∉ f u) :
    Precedes (labels.flatMap f) x y := by
  rw [flatMap_split hj]
  refine (h.append_right _).append_left ?_ ?_
  · intro hmem
    obtain ⟨u, hu, hxu⟩ := List.mem_flatMap.mp hmem
    exact hx u hu hxu
  · intro hmem
    obtain ⟨u, hu, hyu⟩ := List.mem_flatMap.mp hmem
    exact hy u hu hyu

end Precedes

/-! ### Graphs over a vertex list -/

/-- The edge relation `E` restricted to listed endpoints. -/
def On (nodes : List V) (E : V → V → Prop) (u v : V) : Prop :=
  u ∈ nodes ∧ v ∈ nodes ∧ E u v

/-- No closed walk stays inside the listed vertices. -/
def AcyclicOn (nodes : List V) (E : V → V → Prop) : Prop :=
  ∀ v, ¬ TransGen (On nodes E) v v

/-- `l` lists exactly the vertices, each as often as `nodes` does, and puts
every edge between them forward. -/
structure LinearExtension [DecidableEq V] (nodes : List V) (E : V → V → Prop)
    (l : List V) : Prop where
  perm : l.Perm nodes
  forward : ∀ u v, On nodes E u v → Precedes l u v

section Orders

variable [DecidableEq V] {nodes : List V} {E : V → V → Prop}

/-- Every linear extension respects walks, not only single edges. -/
theorem LinearExtension.precedes_of_transGen {l : List V}
    (h : LinearExtension nodes E l) {u v : V} (walk : TransGen (On nodes E) u v) :
    Precedes l u v := by
  induction walk with
  | single edge => exact h.forward _ _ edge
  | tail _ edge ih => exact ih.trans (h.forward _ _ edge)

theorem LinearExtension.acyclicOn {l : List V} (h : LinearExtension nodes E l) :
    AcyclicOn nodes E :=
  fun v cycle => not_precedes_self l v (h.precedes_of_transGen cycle)

end Orders

variable {E : V → V → Prop} {nodes : List V}

/-- A graph whose edges all go up has no cycle. -/
theorem acyclicOn_of_rank {R : Type} [Preorder R] (rank : V → R)
    (hup : ∀ u ∈ nodes, ∀ v ∈ nodes, E u v → rank u < rank v) : AcyclicOn nodes E := by
  have hwalk : ∀ u v, TransGen (On nodes E) u v → rank u < rank v := by
    intro u v walk
    induction walk with
    | single edge => exact hup _ edge.1 _ edge.2.1 edge.2.2
    | tail _ edge ih => exact ih.trans (hup _ edge.1 _ edge.2.1 edge.2.2)
  exact fun v cycle => lt_irrefl _ (hwalk v v cycle)

/-- Walks only leave from listed vertices. -/
theorem mem_of_transGen_on {u v : V} (walk : TransGen (On nodes E) u v) :
    u ∈ nodes ∧ v ∈ nodes := by
  induction walk with
  | single edge => exact ⟨edge.1, edge.2.1⟩
  | tail _ edge ih => exact ⟨ih.1, edge.2.1⟩

/-- In an acyclic graph every nonempty set of listed vertices has a source: a
vertex of the set that no edge from the set enters. -/
theorem AcyclicOn.exists_source (acyclic : AcyclicOn nodes E) {s : Set V} (hs : ∀ v ∈ s, v ∈ nodes)
    (nonempty : s.Nonempty) : ∃ v ∈ s, ∀ u ∈ s, ¬ E u v := by
  classical
  -- Walks inside the finite carrier `{v // v ∈ nodes}` form a strict order.
  let below : {v // v ∈ nodes} → {v // v ∈ nodes} → Prop :=
    fun a b => TransGen (On nodes E) a.1 b.1
  have : IsTrans _ below := ⟨fun _ _ _ h₁ h₂ => h₁.trans h₂⟩
  have : Std.Irrefl below := ⟨fun a h => acyclic a.1 h⟩
  have : Finite {v // v ∈ nodes} := (List.finite_toSet nodes).to_subtype
  have wf : WellFounded below := Finite.wellFounded_of_trans_of_irrefl _
  obtain ⟨v, hv⟩ := nonempty
  obtain ⟨m, hm, least⟩ :=
    wf.has_min {a | a.1 ∈ s} ⟨⟨v, hs v hv⟩, hv⟩
  refine ⟨m.1, hm, fun u hu edge => least ⟨u, hs u hu⟩ hu ?_⟩
  exact TransGen.single ⟨hs u hu, m.2, edge⟩

end Digraph
