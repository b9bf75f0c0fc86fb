/-
Walks that use up the edges of a multigraph.

A multigraph is the list of its edges, each a pair of ends in no particular order. A
walk takes an edge at the vertex it has reached and goes on from the other end. Where
every degree is even, a walk that finds no edge any more is back at its start, and the
degrees of what it leaves are even again.
-/

import Mathlib.Algebra.Group.Nat.Even
import Mathlib.Data.List.Count

variable {V : Type} [DecidableEq V]

namespace Multigraph

/-- How many of the two ends are the vertex. -/
def ends (a b v : V) : Nat :=
  (if a = v then 1 else 0) + if b = v then 1 else 0

/-- The ends of edges at the vertex; a loop has two. -/
def degree (edges : List (V × V)) (v : V) : Nat :=
  edges.countP (·.1 = v) + edges.countP (·.2 = v)

@[simp] theorem degree_nil (v : V) : degree [] v = 0 := rfl

@[simp] theorem degree_cons (edge : V × V) (edges : List (V × V)) (v : V) :
    degree (edge :: edges) v = ends edge.1 edge.2 v + degree edges v := by
  simp only [degree, ends, List.countP_cons, decide_eq_true_eq]
  omega

variable {edges rest : List (V × V)} {s : V}

theorem degree_perm {edges' : List (V × V)} (h : edges.Perm edges') (v : V) :
    degree edges v = degree edges' v := by
  rw [degree, degree, h.countP_eq, h.countP_eq]

theorem ends_comm (a b v : V) : ends a b v = ends b a v :=
  Nat.add_comm _ _

/-- A vertex that is no end of an edge has no degree. -/
theorem degree_eq_zero {v : V} (h : ∀ edge ∈ edges, edge.1 ≠ v ∧ edge.2 ≠ v) :
    degree edges v = 0 := by
  rw [degree, List.countP_eq_zero.mpr fun edge hedge => by simpa using (h edge hedge).1,
    List.countP_eq_zero.mpr fun edge hedge => by simpa using (h edge hedge).2]

/-- `Walks edges s rest t`: a walk from `s` to `t` that leaves the edges `rest`. -/
inductive Walks : List (V × V) → V → List (V × V) → V → Prop where
  | nil (edges v) : Walks edges v edges v
  | cons {edges a b edges' rest t} : edges.Perm ((a, b) :: edges') →
      Walks edges' b rest t → Walks edges a rest t
  | consRev {edges a b edges' rest t} : edges.Perm ((b, a) :: edges') →
      Walks edges' b rest t → Walks edges a rest t

theorem Walks.parity {t : V} (h : Walks edges s rest t) (v : V) :
    degree edges v % 2 = (degree rest v + ends s t v) % 2 := by
  induction h with
  | nil edges w =>
    rw [ends]
    split <;> omega
  | @cons edges a b edges' rest t hperm _ ih =>
    rw [degree_perm hperm v, degree_cons]
    simp only [ends] at ih ⊢
    omega
  | @consRev edges a b edges' rest t hperm _ ih =>
    rw [degree_perm hperm v, degree_cons, ends_comm]
    simp only [ends] at ih ⊢
    omega

/-- A walk that is stuck is back at its start if all degrees were even. -/
theorem Walks.back_of_even {t : V} (h : Walks edges s rest t) (heven : ∀ v, Even (degree edges v))
    (hstuck : degree rest t = 0) : s = t := by
  have hparity := h.parity t
  rw [Nat.even_iff.mp (heven t), hstuck, ends, if_pos rfl] at hparity
  by_contra hne
  rw [if_neg hne] at hparity
  omega

/-- What a closed walk leaves has even degrees if all degrees were even. -/
theorem Walks.even_rest (h : Walks edges s rest s) (heven : ∀ v, Even (degree edges v)) (v : V) :
    Even (degree rest v) := by
  have hparity := h.parity v
  rw [Nat.even_iff.mp (heven v), ends] at hparity
  rw [Nat.even_iff]
  split at hparity <;> omega

end Multigraph
