/-
The planner's sort is canonical, and the validator's sort agrees with it.

The two sorts differ in their frontier, in how they count parallel edges and in
how they name what a cycle leaves over. With distinct ids both are instances of
Kahn's invariant over the relation `Points`, so both succeed exactly on acyclic
stages and both leave over the ids on a cycle or below one. With repeated ids
neither can emit as many ids as there are nodes, so neither succeeds.
-/

import PinchNPrint.Scheduler.Soundness
import PinchNPrint.Lib.KahnOrder

namespace PinchNPrint.Scheduler

open Std Relation Digraph

variable {nodes : List ModuleNode}

/-! ### Repeated ids -/

/-- The listed ids, each once. -/
def distinctIds (nodes : List ModuleNode) : List ModuleId :=
  (zeroDegrees nodes).keys

theorem nodup_distinctIds (nodes : List ModuleNode) : (distinctIds nodes).Nodup :=
  ExtTreeMap.nodup_keys

theorem mem_distinctIds {id : ModuleId} : id ∈ distinctIds nodes ↔ id ∈ nodeIds nodes := by
  rw [distinctIds, ExtTreeMap.mem_keys, zeroDegrees, BTreeMap.mem_ofList_iff, List.map_map]
  rfl

/-- Repeated ids leave fewer distinct ids than nodes. -/
theorem length_distinctIds_lt (hids : ¬ (nodeIds nodes).Nodup) :
    (distinctIds nodes).length < nodes.length := by
  have hsub : (distinctIds nodes).Subperm (nodeIds nodes) :=
    (nodup_distinctIds nodes).subperm fun id hid => mem_distinctIds.mp hid
  have hlen : (nodeIds nodes).length = nodes.length := List.length_map _
  rw [← hlen]
  by_contra hge
  exact hids ((hsub.perm_of_length_le (Nat.le_of_not_lt hge)).nodup_iff.mp
    (nodup_distinctIds nodes))

/-- A loop whose in-degrees count at least the edges it releases, and whose
frontier starts with ids of in-degree zero, emits each id at most once. -/
theorem length_sorted_le {R : Type} {F : Kahn.Frontier ModuleId R} {succ : ModuleId → List ModuleId}
    {edges : List ModuleId} {ready : R} (hnodup : (F.elems ready).Nodup)
    (hzero : ∀ id ∈ F.elems ready, (edges.foldl Kahn.bump (zeroDegrees nodes))[id]? = some 0)
    (hcount : ∀ id, ((distinctIds nodes).flatMap succ).count id ≤ edges.count id) (fuel : Nat) :
    (Kahn.drain F succ fuel
      ⟨edges.foldl Kahn.bump (zeroDegrees nodes), ready, []⟩).sorted.length ≤
        (distinctIds nodes).length := by
  refine Kahn.length_drain_le (nodup_distinctIds nodes) fuel ⟨hnodup, hzero, ?_, ?_⟩
  all_goals
    intro id d hd
    rw [Kahn.getElem?_foldl_bump] at hd
    obtain ⟨z, hz, rfl⟩ := Option.map_eq_some_iff.mp hd
  · rw [distinctIds, ExtTreeMap.mem_keys]
    exact BTreeMap.mem_iff_getElem?_isSome.mpr ⟨z, hz⟩
  · have hle := hcount id
    rw [List.count_flatMap] at hle
    simp only [Kahn.pending, List.not_mem_nil, not_false_eq_true, decide_true, List.filter_true,
      List.count_nil]
    exact (Nat.add_zero _).le.trans (hle.trans (Nat.le_add_left _ _))

namespace Topology

theorem length_sorted_le_distinct (nodes : List ModuleNode) :
    (final nodes).sorted.length ≤ (distinctIds nodes).length := by
  have hkeys : (distinctIds nodes).Perm (adjacency nodes).keys := by
    rw [List.perm_ext_iff_of_nodup (nodup_distinctIds nodes) ExtTreeMap.nodup_keys]
    intro id
    rw [mem_distinctIds, mem_keys_adjacency]
  refine length_sorted_le (F := Kahn.leastFirst) (BTreeSet.nodup_toList _) ?_ ?_ nodes.length
  · intro id hid
    exact Kahn.mem_zeros.mp (BTreeSet.mem_ofList_iff.mp (ExtTreeSet.mem_toList.mp hid))
  · intro id
    rw [vals_flatMap_toList]
    exact ((hkeys.flatMap_right _).count_eq id).le

/-- The error lists the ids the loop never emitted. -/
theorem mem_of_topologicalSort_eq_error (hids : (nodeIds nodes).Nodup) {stuck : List ModuleId}
    (h : topologicalSort nodes = .error stuck) {id : ModuleId} :
    id ∈ stuck ↔ BelowCycle (nodeIds nodes) (Points nodes) id := by
  obtain ⟨hinv, hready⟩ := final_spec hids
  have hstuck : id ∈ stuck ↔ ∃ d, (final nodes).degree[id]? = some d ∧ 0 < d := by
    unfold topologicalSort at h
    split at h
    · cases h
    · cases h
      simp [ExtTreeMap.mem_toList_iff_getElem?_eq_some]
  rw [hstuck, hinv.degree_pos_iff hready, ← downstream_eq_points hids]
  exact hinv.unsorted_iff hready

theorem nodup_of_topologicalSort_eq_error {stuck : List ModuleId}
    (h : topologicalSort nodes = .error stuck) : stuck.Nodup := by
  unfold topologicalSort at h
  split at h
  · cases h
  · cases h
    have hsub : (((final nodes).degree.toList.filter fun entry => 0 < entry.2).map
        Prod.fst).Sublist (final nodes).degree.keys := by
      rw [← ExtTreeMap.map_fst_toList_eq_keys]
      exact List.filter_sublist.map _
    exact ExtTreeMap.nodup_keys.sublist hsub

/-- Undercutting is the lexicographic order on ids. -/
theorem lex_of_undercuts {l r : List ModuleId} (h : Kahn.Undercuts l r) :
    List.Lex (· < ·) l r := by
  induction h with
  | head h l r => exact .rel (compareOfLessAndEq_eq_lt.mp h)
  | tail v _ ih => exact .cons ih

/-- No linear extension of the stage is lexicographically before the sort. -/
theorem topologicalSort_least (hids : (nodeIds nodes).Nodup) {order other : List ModuleId}
    (h : topologicalSort nodes = .ok order)
    (ext : LinearExtension (nodeIds nodes) (Points nodes) other) :
    order = other ∨ List.Lex (· < ·) order other := by
  have hperm := (topologicalSort_linearExtension hids h).perm
  have hsorted : order = (final nodes).sorted := by
    unfold topologicalSort at h
    split at h
    · cases h
      rfl
    · cases h
  rw [← downstream_eq_points hids] at ext
  have hleads := Kahn.drain_leads hids nodes.length (inv_initial hids) ext (.inl List.nil_prefix)
  rcases hleads with hbegins | hless
  · left
    rw [hsorted]
    refine hbegins.eq_of_length ?_
    change (final nodes).sorted.length = other.length
    rw [← hsorted, hperm.length_eq, ext.perm.length_eq]
  · right
    rw [hsorted]
    exact lex_of_undercuts hless

end Topology

/-- **The sort is correct and canonical.** With distinct ids it succeeds exactly
when the listed ids have no cycle, returns the lexicographically least listing
that puts every edge forward, and otherwise returns the ids on a cycle or below
one. With repeated ids it never succeeds. -/
theorem topologicalSort_canonical (nodes : List ModuleNode) :
    ((nodeIds nodes).Nodup →
      ((∃ order, Topology.topologicalSort nodes = .ok order) ↔
        AcyclicOn (nodeIds nodes) (Points nodes)) ∧
      (∀ order, Topology.topologicalSort nodes = .ok order →
        LinearExtension (nodeIds nodes) (Points nodes) order ∧
          ∀ other, LinearExtension (nodeIds nodes) (Points nodes) other →
            order = other ∨ List.Lex (· < ·) order other) ∧
      ∀ stuck, Topology.topologicalSort nodes = .error stuck →
        stuck.Nodup ∧ ∀ id, id ∈ stuck ↔ BelowCycle (nodeIds nodes) (Points nodes) id) ∧
    (¬ (nodeIds nodes).Nodup → ∀ order, Topology.topologicalSort nodes ≠ .ok order) := by
  constructor
  · intro hids
    refine ⟨Topology.topologicalSort_isOk_iff hids, fun order h => ?_, fun stuck h => ?_⟩
    · exact ⟨Topology.topologicalSort_linearExtension hids h,
        fun other ext => Topology.topologicalSort_least hids h ext⟩
    · exact ⟨Topology.nodup_of_topologicalSort_eq_error h,
        fun id => Topology.mem_of_topologicalSort_eq_error hids h⟩
  · intro hids order h
    have hshort := (Topology.length_sorted_le_distinct nodes).trans_lt (length_distinctIds_lt hids)
    unfold Topology.topologicalSort at h
    rw [if_neg hshort.ne] at h
    cases h

/-- A stage with a parallel edge, an edge out of the list and a module below a
cycle. -/
def tangledStage : List ModuleNode :=
  [ ⟨"m.c", [], [], [⟨"m.a", []⟩]⟩,
    ⟨"m.b", [], [], [⟨"m.c", []⟩, ⟨"m.c", []⟩, ⟨"m.x", []⟩]⟩,
    ⟨"m.a", [], [], [⟨"m.b", []⟩, ⟨"m.d", []⟩]⟩,
    ⟨"m.d", [], [], []⟩,
    ⟨"m.e", [], [], [⟨"m.a", []⟩]⟩ ]

theorem topologicalSort_canonical_tangled :
    ∃ stuck, Topology.topologicalSort tangledStage = .error stuck ∧ "m.d" ∈ stuck := by
  obtain ⟨hacyclic, -, hexact⟩ := (topologicalSort_canonical tangledStage).1 (by decide)
  have hedge : ∀ u v, u ∈ nodeIds tangledStage → v ∈ Validation.edgesOf tangledStage u →
      v ∈ nodeIds tangledStage → On (nodeIds tangledStage) (Points tangledStage) u v :=
    fun u v hu huv hv => ⟨hu, hv, (Validation.mem_edgesOf (by decide)).mp huv⟩
  have cycle : TransGen (On (nodeIds tangledStage) (Points tangledStage)) "m.a" "m.a" :=
    .tail (.tail (.single (hedge "m.a" "m.b" (by decide) (by decide) (by decide)))
      (hedge "m.b" "m.c" (by decide) (by decide) (by decide)))
      (hedge "m.c" "m.a" (by decide) (by decide) (by decide))
  cases h : Topology.topologicalSort tangledStage with
  | ok order => exact absurd cycle (hacyclic.mp ⟨order, h⟩ "m.a")
  | error stuck =>
    refine ⟨stuck, rfl, ((hexact stuck h).2 "m.d").mpr ⟨"m.a", cycle, ?_⟩⟩
    exact .single (hedge "m.a" "m.d" (by decide) (by decide) (by decide))

/-! ### The validator's sort -/

namespace Validation

/-- The first node with each id: what the queue loop releases edges of. -/
theorem count_edgesOf_le (id : ModuleId) :
    ((distinctIds nodes).flatMap (edgesOf nodes)).count id ≤
      (nodes.flatMap fun node => node.edgesTo.map EdgeTo.dst).count id := by
  let first := fun u => nodes.find? fun node => node.moduleId == u
  have hfirst : ∀ {u node}, first u = some node → node.moduleId = u := fun h => by
    simpa using List.find?_some h
  have hedges : (distinctIds nodes).flatMap (edgesOf nodes) =
      ((distinctIds nodes).filterMap first).flatMap fun node => node.edgesTo.map EdgeTo.dst := by
    induction distinctIds nodes with
    | nil => rfl
    | cons u rest ih =>
      rw [List.flatMap_cons, ih, List.filterMap_cons, edgesOf]
      cases hu : first u with
      | none => simp [show (nodes.find? fun node => node.moduleId == u) = none from hu]
      | some node =>
        rw [show (nodes.find? fun node => node.moduleId == u) = some node from hu]
        rfl
  -- Distinct ids have distinct first nodes, so these are part of the nodes.
  have hnodup : ((distinctIds nodes).filterMap first).Nodup := by
    refine (nodup_distinctIds nodes).filterMap fun u v node hu hv => ?_
    exact (hfirst hu).symm.trans (hfirst hv)
  have hsub : ((distinctIds nodes).filterMap first).Subperm nodes := by
    refine hnodup.subperm fun node hnode => ?_
    obtain ⟨u, -, hu⟩ := List.mem_filterMap.mp hnode
    exact List.mem_of_find?_eq_some hu
  obtain ⟨part, hperm, hpart⟩ := hsub
  rw [hedges, ← (hperm.flatMap_right _).count_eq id]
  exact (hpart.flatMap _).count_le id

theorem length_sorted_le_distinct (nodes : List ModuleNode) :
    (final nodes).sorted.length ≤ (distinctIds nodes).length := by
  refine length_sorted_le (F := Kahn.queue ModuleId) (Kahn.nodup_zeros _) ?_ ?_ nodes.length
  · intro id hid
    exact Kahn.mem_zeros.mp hid
  · exact count_edgesOf_le

/-- The validator's error lists the ids its loop never emitted. -/
theorem mem_of_topologicalSort_eq_error (hids : (nodeIds nodes).Nodup) {stuck : List ModuleId}
    (h : topologicalSort nodes = .error stuck) {id : ModuleId} :
    id ∈ stuck ↔ BelowCycle (nodeIds nodes) (Points nodes) id := by
  have hpoints : (fun u v => v ∈ edgesOf nodes u) = Points nodes := by
    funext u v
    exact propext (mem_edgesOf hids)
  obtain ⟨hinv, hready⟩ := Kahn.drain_spec hids nodes.length (inv_initial hids)
    (by simp [nodeIds, initial])
  have hstuck : id ∈ stuck ↔ id ∈ nodeIds nodes ∧ id ∉ (final nodes).sorted := by
    unfold topologicalSort at h
    simp only at h
    split at h
    · cases h
    · cases h
      rw [List.mem_filter, Bool.not_eq_true', ← Bool.not_eq_true, ← ExtTreeSet.mem_iff_contains,
        BTreeSet.mem_ofList_iff]
  rw [hstuck, ← hpoints]
  exact hinv.unsorted_iff hready

end Validation

/-- **The cycle check and the planner's sort never disagree.** They succeed on
the same node lists, repeated ids and parallel edges included, and with distinct
ids they name the same modules when they fail. -/
theorem sorts_agree (nodes : List ModuleNode) :
    ((∃ order, Validation.topologicalSort nodes = .ok order) ↔
      ∃ order, Topology.topologicalSort nodes = .ok order) ∧
    ((nodeIds nodes).Nodup → ∀ cycle stuck,
      Validation.topologicalSort nodes = .error cycle →
      Topology.topologicalSort nodes = .error stuck → ∀ id, id ∈ cycle ↔ id ∈ stuck) := by
  constructor
  · by_cases hids : (nodeIds nodes).Nodup
    · rw [Validation.topologicalSort_isOk_iff hids, Topology.topologicalSort_isOk_iff hids]
    · have hshort := length_distinctIds_lt hids
      have hvalidation := (Validation.length_sorted_le_distinct nodes).trans_lt hshort
      have hplanner := (Topology.length_sorted_le_distinct nodes).trans_lt hshort
      simp only [Validation.topologicalSort, Topology.topologicalSort, if_neg hvalidation.ne,
        if_neg hplanner.ne, reduceCtorEq, exists_false]
  · intro hids cycle stuck hcycle hstuck id
    rw [Validation.mem_of_topologicalSort_eq_error hids hcycle,
      Topology.mem_of_topologicalSort_eq_error hids hstuck]

end PinchNPrint.Scheduler
