/-
Kahn's algorithm over an arbitrary frontier.

The loop keeps an in-degree map, a frontier of vertices whose in-degree is
zero, and the list emitted so far. It pops a vertex, emits it, and lowers the
in-degree of each of its successors, pushing those that reach zero. Which ready
vertex is popped is left to a `Frontier`: a queue and an ordered set are both
instances, so one proof serves every selection rule.

`Inv` is the loop invariant: the in-degree of a vertex counts the edges from
vertices not yet emitted, and the emitted and ready vertices are exactly those
with in-degree zero. `drain_spec` says what holds when the loop stops, and
`drain_complete_iff` that it emits everything exactly on acyclic graphs.
-/

import PinchNPrint.Lib.Collections
import PinchNPrint.Lib.Digraph

namespace Kahn

open Std Relation Digraph

/-- A collection of ready vertices. `elems` is what it holds, up to order. -/
structure Frontier (V R : Type) where
  elems : R → List V
  pop : R → Option (V × R)
  push : R → V → R
  pop_none : ∀ {r}, pop r = none → elems r = []
  pop_some : ∀ {r v r'}, pop r = some (v, r') → (elems r).Perm (v :: elems r')
  push_perm : ∀ {r v}, v ∉ elems r → (elems (push r v)).Perm (v :: elems r)

/-- First in, first out. -/
def queue (V : Type) : Frontier V (List V) where
  elems := id
  pop
    | [] => none
    | v :: rest => some (v, rest)
  push r v := r ++ [v]
  pop_none := by
    intro r h
    cases r with
    | nil => rfl
    | cons v rest => cases h
  pop_some := by
    intro r v r' h
    cases r with
    | nil => cases h
    | cons w rest =>
      cases h
      exact List.Perm.refl _
  push_perm := fun {r v} _ => List.perm_append_singleton v r

/-! ### Edges still to be released -/

section Pending

variable {V : Type} [DecidableEq V]

/-- The edges into `v` from listed vertices that are not in `done`. -/
def pending (nodes : List V) (succ : V → List V) (done : List V) (v : V) : Nat :=
  ((nodes.filter (· ∉ done)).map fun u => (succ u).count v).sum

variable {done nodes : List V}

/-- Emitting a vertex moves its edges out of the pending count. -/
theorem pending_snoc (hnodes : nodes.Nodup) (succ : V → List V) {u : V} (hu : u ∈ nodes)
    (hdone : u ∉ done) (v : V) :
    pending nodes succ done v = (succ u).count v + pending nodes succ (done ++ [u]) v := by
  have hperm : (nodes.filter (· ∉ done)).Perm
      (u :: nodes.filter (· ∉ done ++ [u])) := by
    rw [List.perm_ext_iff_of_nodup (hnodes.filter _)]
    · intro a
      by_cases ha : a = u
      · subst ha
        simp [hu, hdone]
      · simp [ha]
    · exact List.nodup_cons.mpr ⟨by simp, hnodes.filter _⟩
  rw [pending, (hperm.map _).sum_eq]
  rfl

/-- A vertex with no pending edge has every listed predecessor emitted. -/
theorem mem_done_of_pending_eq_zero {succ : V → List V} {u v : V}
    (h : pending nodes succ done v = 0) (hu : u ∈ nodes) (edge : v ∈ succ u) : u ∈ done := by
  by_contra hdone
  have hzero : ∀ n ∈ (nodes.filter (· ∉ done)).map fun w => (succ w).count v, n = 0 :=
    List.sum_eq_zero_iff.mp h
  have hcount := hzero ((succ u).count v)
    (List.mem_map.mpr ⟨u, List.mem_filter.mpr ⟨hu, by simpa using hdone⟩, rfl⟩)
  exact (List.count_pos_iff.mpr edge).ne' hcount

/-- A vertex with a pending edge has a listed predecessor outside `done`. -/
theorem exists_of_pending_ne_zero {succ : V → List V} {v : V} (h : pending nodes succ done v ≠ 0) :
    ∃ u ∈ nodes, u ∉ done ∧ v ∈ succ u := by
  by_contra hnone
  apply h
  refine List.sum_eq_zero_iff.mpr fun n hn => ?_
  obtain ⟨u, hu, rfl⟩ := List.mem_map.mp hn
  obtain ⟨hu, hdone⟩ := List.mem_filter.mp hu
  refine List.count_eq_zero.mpr fun edge => hnone ⟨u, hu, ?_, edge⟩
  simpa using hdone

end Pending

/-! ### The loop -/

variable {V R : Type} [Ord V] [TransOrd V] [LawfulEqOrd V]

/-- Least vertex first. -/
def leastFirst : Frontier V (BTreeSet V) where
  elems s := s.toList
  pop := BTreeSet.popFirst
  push s v := s.insert v
  pop_none := BTreeSet.popFirst_none
  pop_some := BTreeSet.popFirst_some
  push_perm := BTreeSet.toList_insert_perm

/-- What the loop carries. -/
structure State (V R : Type) [Ord V] where
  degree : BTreeMap V Nat
  ready : R
  sorted : List V

/-- One outgoing edge of the popped vertex: an unlisted target is ignored, a
listed one loses one in-degree and becomes ready at zero. -/
def relax (F : Frontier V R) (s : BTreeMap V Nat × R) (target : V) : BTreeMap V Nat × R :=
  match s.1[target]? with
  | none => s
  | some d =>
      (s.1.insert target (d - 1), if d - 1 = 0 then F.push s.2 target else s.2)

/-- The loop, for at most `fuel` pops. -/
def drain (F : Frontier V R) (succ : V → List V) : Nat → State V R → State V R
  | 0, s => s
  | fuel + 1, s =>
      match F.pop s.ready with
      | none => s
      | some (v, rest) =>
          let next := (succ v).foldl (relax F) (s.degree, rest)
          drain F succ fuel ⟨next.1, next.2, s.sorted ++ [v]⟩

/-- Count one incoming edge of a listed target. -/
def bump (degree : BTreeMap V Nat) (target : V) : BTreeMap V Nat :=
  degree.modify target (· + 1)

theorem getElem?_foldl_bump [DecidableEq V] (edges : List V) (degree : BTreeMap V Nat) (v : V) :
    (edges.foldl bump degree)[v]? = degree[v]?.map (· + edges.count v) := by
  induction edges generalizing degree with
  | nil => simp
  | cons e rest ih =>
    rw [List.foldl_cons, ih, bump, ExtTreeMap.getElem?_modify]
    by_cases hev : e = v
    · subst hev
      cases degree[e]? with
      | none => simp
      | some d => simp; omega
    · simp [hev]

/-- The vertices of in-degree zero, in ascending order. -/
def zeros (degree : BTreeMap V Nat) : List V :=
  (degree.toList.filter fun entry => entry.2 == 0).map Prod.fst

theorem mem_zeros {degree : BTreeMap V Nat} {v : V} : v ∈ zeros degree ↔ degree[v]? = some 0 := by
  rw [zeros, List.mem_map]
  constructor
  · rintro ⟨⟨w, d⟩, hmem, rfl⟩
    obtain ⟨hmem, hd⟩ := List.mem_filter.mp hmem
    have hlookup := ExtTreeMap.mem_toList_iff_getElem?_eq_some.mp hmem
    have hzero : d = 0 := by simpa using hd
    exact hzero ▸ hlookup
  · intro h
    exact ⟨(v, 0), List.mem_filter.mpr
      ⟨ExtTreeMap.mem_toList_iff_getElem?_eq_some.mpr h, rfl⟩, rfl⟩

omit [LawfulEqOrd V] in
theorem nodup_zeros (degree : BTreeMap V Nat) : (zeros degree).Nodup := by
  have hsub : (zeros degree).Sublist degree.keys := by
    rw [zeros, ← ExtTreeMap.map_fst_toList_eq_keys]
    exact List.filter_sublist.map _
  exact ExtTreeMap.nodup_keys.sublist hsub

section Invariant

variable [DecidableEq V]

/-- The degree map and frontier while the edges `rest` of the popped vertex are
still to be relaxed, `base` being the in-degrees once they all are. -/
structure Relaxing (F : Frontier V R) (nodes done : List V) (base : V → Nat) (rest : List V)
    (s : BTreeMap V Nat × R) : Prop where
  nodup : (done ++ F.elems s.2).Nodup
  listed : ∀ v ∈ done ++ F.elems s.2, v ∈ nodes
  absent : ∀ v, v ∉ nodes → s.1[v]? = none
  count : ∀ v ∈ nodes, s.1[v]? = some (base v + rest.count v)
  zero : ∀ v ∈ nodes, v ∈ done ++ F.elems s.2 ↔ base v + rest.count v = 0

variable {F : Frontier V R} {done nodes : List V} {v : V} {succ : V → List V} {s : State V R}

omit [Ord V] [TransOrd V] [LawfulEqOrd V] [DecidableEq V] in
private theorem append_push {r : R} (hv : v ∉ F.elems r) :
    (done ++ F.elems (F.push r v)).Perm (v :: (done ++ F.elems r)) :=
  ((F.push_perm hv).append_left done).trans List.perm_middle

theorem Relaxing.step {base : V → Nat} {e : V} {rest : List V} {s : BTreeMap V Nat × R}
    (h : Relaxing F nodes done base (e :: rest) s) :
    Relaxing F nodes done base rest (relax F s e) := by
  by_cases he : e ∈ nodes
  · have hdeg := h.count e he
    rw [List.count_cons_self] at hdeg
    -- The target still counts this edge, so it was neither emitted nor ready.
    have hfresh : e ∉ done ++ F.elems s.2 := by
      rw [h.zero e he, List.count_cons_self]
      omega
    have hready : e ∉ F.elems s.2 := fun hmem => hfresh (List.mem_append_right _ hmem)
    have hpred : base e + (rest.count e + 1) - 1 = base e + rest.count e := by omega
    have hcount : ∀ v ∈ nodes, v ≠ e → base v + (e :: rest).count v = base v + rest.count v := by
      intro v _ hve
      rw [List.count_cons_of_ne (Ne.symm hve)]
    simp only [relax, hdeg, hpred]
    refine ⟨?_, ?_, ?_, ?_, ?_⟩
    · split
      · exact (append_push hready).nodup_iff.mpr (List.nodup_cons.mpr ⟨hfresh, h.nodup⟩)
      · exact h.nodup
    · split
      · intro v hv
        rcases List.mem_cons.mp ((append_push hready).mem_iff.mp hv) with rfl | hv
        · exact he
        · exact h.listed v hv
      · exact h.listed
    · intro v hv
      rw [BTreeMap.getElem?_insert_of_ne (a := v) (by rintro rfl; exact hv he)]
      exact h.absent v hv
    · intro v hv
      by_cases hve : v = e
      · subst hve
        exact ExtTreeMap.getElem?_insert_self
      · rw [BTreeMap.getElem?_insert_of_ne (Ne.symm hve), h.count v hv, hcount v hv hve]
    · intro v hv
      by_cases hve : v = e
      · subst hve
        split
        · rename_i hz
          simp [(append_push hready).mem_iff, hz]
        · rename_i hz
          exact ⟨fun hmem => absurd hmem hfresh, fun hz' => absurd hz' hz⟩
      · rw [← hcount v hv hve, ← h.zero v hv]
        split
        · rw [(append_push hready).mem_iff, List.mem_cons]
          exact ⟨fun hmem => hmem.resolve_left hve, Or.inr⟩
        · rfl
  · have hnone := h.absent e he
    simp only [relax, hnone]
    have hcount : ∀ v ∈ nodes, (e :: rest).count v = rest.count v := fun v hv =>
      List.count_cons_of_ne (by rintro rfl; exact he hv)
    exact ⟨h.nodup, h.listed, h.absent, fun v hv => hcount v hv ▸ h.count v hv,
      fun v hv => hcount v hv ▸ h.zero v hv⟩

theorem Relaxing.foldl {base : V → Nat} (rest : List V) {s : BTreeMap V Nat × R}
    (h : Relaxing F nodes done base rest s) :
    Relaxing F nodes done base [] (rest.foldl (relax F) s) := by
  induction rest generalizing s with
  | nil => exact h
  | cons e rest ih => exact ih h.step

/-- The loop invariant. -/
structure Inv (F : Frontier V R) (nodes : List V) (succ : V → List V) (s : State V R) :
    Prop where
  nodup : (s.sorted ++ F.elems s.ready).Nodup
  listed : ∀ v ∈ s.sorted ++ F.elems s.ready, v ∈ nodes
  absent : ∀ v, v ∉ nodes → s.degree[v]? = none
  count : ∀ v ∈ nodes, s.degree[v]? = some (pending nodes succ s.sorted v)
  zero : ∀ v ∈ nodes, v ∈ s.sorted ++ F.elems s.ready ↔ pending nodes succ s.sorted v = 0
  forward : ∀ u ∈ nodes, ∀ v ∈ s.sorted, v ∈ succ u → Precedes s.sorted u v

omit [LawfulEqOrd V] in
/-- A loop starts well when its in-degrees count all edges and its frontier
holds the vertices of in-degree zero. -/
theorem inv_initial {degree : BTreeMap V Nat} {ready : R}
    (habsent : ∀ v, v ∉ nodes → degree[v]? = none)
    (hcount : ∀ v ∈ nodes, degree[v]? = some (pending nodes succ [] v))
    (hnodup : (F.elems ready).Nodup) (hready : ∀ v, v ∈ F.elems ready ↔ degree[v]? = some 0) :
    Inv F nodes succ ⟨degree, ready, []⟩ := by
  refine ⟨hnodup, ?_, habsent, hcount, ?_, ?_⟩
  · intro v hv
    by_contra hnot
    rw [List.nil_append, hready v, habsent v hnot] at hv
    cases hv
  · intro v hv
    rw [List.nil_append, hready v, hcount v hv, Option.some_inj]
  · intro u _ v hv
    cases hv

omit [LawfulEqOrd V] in
/-- The popped state before relaxing: all edges of `v` are still counted. -/
theorem Inv.relaxing_pop (hnodes : nodes.Nodup) {rest : R} (h : Inv F nodes succ s)
    (hpop : F.pop s.ready = some (v, rest)) :
    Relaxing F nodes (s.sorted ++ [v])
      (pending nodes succ (s.sorted ++ [v])) (succ v) (s.degree, rest) := by
  have hperm : (s.sorted ++ [v] ++ F.elems rest).Perm (s.sorted ++ F.elems s.ready) := by
    simpa using (F.pop_some hpop).symm.append_left s.sorted
  have hv : v ∈ nodes := h.listed v (hperm.mem_iff.mp (by simp))
  have hdone : v ∉ s.sorted := by
    have hready : v ∈ F.elems s.ready := (F.pop_some hpop).mem_iff.mpr (by simp)
    exact fun hmem => (List.nodup_append.mp h.nodup).2.2 v hmem v hready rfl
  have hpending : ∀ w, pending nodes succ (s.sorted ++ [v]) w + (succ v).count w =
      pending nodes succ s.sorted w := by
    intro w
    rw [pending_snoc hnodes succ hv hdone w]
    omega
  refine ⟨hperm.nodup_iff.mpr h.nodup, fun w hw => h.listed w (hperm.mem_iff.mp hw),
    h.absent, fun w hw => ?_, fun w hw => ?_⟩
  · rw [hpending w]; exact h.count w hw
  · rw [hpending w, hperm.mem_iff]; exact h.zero w hw

/-- One pop preserves the invariant. -/
theorem Inv.step (hnodes : nodes.Nodup) {rest : R} (h : Inv F nodes succ s)
    (hpop : F.pop s.ready = some (v, rest)) :
    Inv F nodes succ
      ⟨((succ v).foldl (relax F) (s.degree, rest)).1,
        ((succ v).foldl (relax F) (s.degree, rest)).2, s.sorted ++ [v]⟩ := by
  have hstart := h.relaxing_pop hnodes hpop
  have hend := hstart.foldl
  have hvReady : v ∈ F.elems s.ready := (F.pop_some hpop).mem_iff.mpr (by simp)
  have hv : v ∈ nodes := h.listed v (List.mem_append_right _ hvReady)
  have hdone : v ∉ s.sorted := fun hmem =>
    (List.nodup_append.mp h.nodup).2.2 v hmem v hvReady rfl
  refine ⟨hend.nodup, hend.listed, hend.absent, fun w hw => ?_, fun w hw => ?_, ?_⟩
  · simpa using hend.count w hw
  · simpa using hend.zero w hw
  · intro u hu w hw edge
    rcases List.mem_append.mp hw with hw | hw
    · exact (h.forward u hu w hw edge).append_right _
    · obtain rfl := List.mem_singleton.mp hw
      -- `w` was ready, so nothing outside the emitted prefix points at it.
      have hzero := (h.zero w hv).mp (List.mem_append_right _ hvReady)
      have hu' : u ∈ s.sorted := mem_done_of_pending_eq_zero hzero hu edge
      exact precedes_append hu' (by simp) hdone

omit [LawfulEqOrd V] in
/-- Emitted vertices are distinct and listed, so there are at most
`nodes.length` pops. -/
private theorem length_le (h : Inv F nodes succ s) :
    (s.sorted ++ F.elems s.ready).length ≤ nodes.length :=
  (h.nodup.subperm fun v hv => h.listed v hv).length_le

/-- With enough fuel the loop stops on an empty frontier and keeps the
invariant. -/
theorem drain_spec (hnodes : nodes.Nodup) (fuel : Nat) (h : Inv F nodes succ s)
    (hfuel : nodes.length ≤ s.sorted.length + fuel) :
    Inv F nodes succ (drain F succ fuel s) ∧ F.elems (drain F succ fuel s).ready = [] := by
  induction fuel generalizing s with
  | zero =>
    have hlen := length_le h
    rw [List.length_append] at hlen
    refine ⟨h, List.length_eq_zero_iff.mp ?_⟩
    show (F.elems s.ready).length = 0
    omega
  | succ fuel ih =>
    cases hpop : F.pop s.ready with
    | none =>
      simp only [drain, hpop]
      exact ⟨h, F.pop_none hpop⟩
    | some p =>
      obtain ⟨v, rest⟩ := p
      simp only [drain, hpop]
      refine ih (h.step hnodes hpop) ?_
      simp only [List.length_append, List.length_singleton]
      omega

omit [LawfulEqOrd V] in
/-- A finished loop that emitted as many vertices as there are emitted a linear
extension. -/
theorem Inv.linearExtension (h : Inv F nodes succ s) (hlen : s.sorted.length = nodes.length) :
    LinearExtension nodes (fun u v => v ∈ succ u) s.sorted := by
  have hnd : s.sorted.Nodup := (List.nodup_append.mp h.nodup).1
  have hsub : s.sorted.Subperm nodes :=
    hnd.subperm fun v hv => h.listed v (List.mem_append_left _ hv)
  have hperm : s.sorted.Perm nodes := hsub.perm_of_length_le hlen.ge
  refine ⟨hperm, fun u v edge => ?_⟩
  exact h.forward u edge.1 v (hperm.mem_iff.mpr edge.2.1) edge.2.2

omit [LawfulEqOrd V] in
/-- A finished loop emits every vertex of an acyclic graph. -/
theorem Inv.length_eq_of_acyclicOn (hnodes : nodes.Nodup) (h : Inv F nodes succ s)
    (hready : F.elems s.ready = []) (acyclic : AcyclicOn nodes (fun u v => v ∈ succ u)) :
    s.sorted.length = nodes.length := by
  have hnd : s.sorted.Nodup := (List.nodup_append.mp h.nodup).1
  have hall : ∀ v ∈ nodes, v ∈ s.sorted := by
    by_contra hmissing
    push Not at hmissing
    obtain ⟨v, hv, hvs⟩ := hmissing
    -- The vertices left over all have a predecessor left over: a cycle.
    obtain ⟨m, ⟨hm, hms⟩, least⟩ := acyclic.exists_source
      (s := {w | w ∈ nodes ∧ w ∉ s.sorted}) (fun w hw => hw.1) ⟨v, hv, hvs⟩
    have hne : pending nodes succ s.sorted m ≠ 0 := by
      intro hz
      have := (h.zero m hm).mpr hz
      rw [hready, List.append_nil] at this
      exact hms this
    obtain ⟨u, hu, hus, edge⟩ := exists_of_pending_ne_zero hne
    exact least u ⟨hu, hus⟩ edge
  have hperm : s.sorted.Perm nodes :=
    (List.perm_ext_iff_of_nodup hnd hnodes).mpr fun v =>
      ⟨fun hv => h.listed v (List.mem_append_left _ hv), hall v⟩
  exact hperm.length_eq

/-- **Correctness.** The loop emits as many vertices as there are exactly when
the graph is acyclic. -/
theorem drain_complete_iff (hnodes : nodes.Nodup) (fuel : Nat) (h : Inv F nodes succ s)
    (hfuel : nodes.length ≤ s.sorted.length + fuel) :
    (drain F succ fuel s).sorted.length = nodes.length ↔
      AcyclicOn nodes (fun u v => v ∈ succ u) := by
  obtain ⟨hinv, hready⟩ := drain_spec hnodes fuel h hfuel
  exact ⟨fun hlen => (hinv.linearExtension hlen).acyclicOn,
    fun acyclic => hinv.length_eq_of_acyclicOn hnodes hready acyclic⟩

end Invariant

end Kahn
