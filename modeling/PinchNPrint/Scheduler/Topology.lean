/-
Deterministic in-stage ordering (`slicer-scheduler/src/topology.rs`).

`topologicalSort` is Kahn's algorithm with an ordered ready set: among the
modules whose upstream modules have all run, the least id runs next. Parallel
edges are collapsed by the per-node target set before in-degrees are counted.
The loop is `Kahn.drain` at the least-first frontier, and its specification is
`topologicalSort_eq_ok_iff` and `topologicalSort_linearExtension`.
-/

import PinchNPrint.Scheduler.Dag
import PinchNPrint.Lib.Kahn

namespace PinchNPrint.Scheduler

open Std Digraph

/-- `nodes` points from `u` at `v`: the node with id `u` has an edge to `v`. -/
def Points (nodes : List ModuleNode) (u v : ModuleId) : Prop :=
  ∃ node ∈ nodes, node.moduleId = u ∧ v ∈ node.edgesTo.map EdgeTo.dst

/-- The ids of the nodes. -/
def nodeIds (nodes : List ModuleNode) : List ModuleId :=
  nodes.map ModuleNode.moduleId

/-- Listed ids, each with in-degree zero. -/
def zeroDegrees (nodes : List ModuleNode) : BTreeMap ModuleId Nat :=
  ExtTreeMap.ofList (nodes.map fun node => (node.moduleId, 0)) compare

theorem getElem?_zeroDegrees_of_mem {nodes : List ModuleNode} (hids : (nodeIds nodes).Nodup)
    {id : ModuleId} (h : id ∈ nodeIds nodes) : (zeroDegrees nodes)[id]? = some 0 := by
  obtain ⟨node, hnode, rfl⟩ := List.mem_map.mp h
  refine BTreeMap.getElem?_ofList_of_nodup ?_ (List.mem_map.mpr ⟨node, hnode, rfl⟩)
  rw [List.map_map]
  exact hids

theorem getElem?_zeroDegrees_of_notMem {nodes : List ModuleNode} {id : ModuleId}
    (h : id ∉ nodeIds nodes) : (zeroDegrees nodes)[id]? = none := by
  by_contra hne
  obtain ⟨d, hd⟩ := Option.ne_none_iff_exists'.mp hne
  have hmem := BTreeMap.mem_ofList_iff.mp (BTreeMap.mem_iff_getElem?_isSome.mpr ⟨d, hd⟩)
  rw [List.map_map] at hmem
  exact h hmem

namespace Topology

/-- Each node's downstream ids as a set. -/
def adjacency (nodes : List ModuleNode) : BTreeMap ModuleId (BTreeSet ModuleId) :=
  ExtTreeMap.ofList (nodes.map fun node =>
    (node.moduleId, ExtTreeSet.ofList (node.edgesTo.map EdgeTo.dst) compare)) compare

/-- The downstream ids of `id` in ascending order; none when it is unlisted. -/
def downstream (nodes : List ModuleNode) (id : ModuleId) : List ModuleId :=
  match (adjacency nodes)[id]? with
  | some ids => ids.toList
  | none => []

/-- In-degrees over the collapsed adjacency. -/
def inDegree (nodes : List ModuleNode) : BTreeMap ModuleId Nat :=
  ((BTreeMap.vals (adjacency nodes)).flatMap fun ids => ids.toList).foldl Kahn.bump
    (zeroDegrees nodes)

/-- The state the loop starts from. -/
def initial (nodes : List ModuleNode) : Kahn.State ModuleId (BTreeSet ModuleId) where
  degree := inDegree nodes
  ready := ExtTreeSet.ofList (Kahn.zeros (inDegree nodes)) compare
  sorted := []

/-- The state when the loop stops. Each id becomes ready at most once, so
`nodes.length` pops are enough. -/
def final (nodes : List ModuleNode) : Kahn.State ModuleId (BTreeSet ModuleId) :=
  Kahn.drain Kahn.leastFirst (downstream nodes) nodes.length (initial nodes)

/-- `topology::topological_sort`. -/
def topologicalSort (nodes : List ModuleNode) : Except (List ModuleId) (List ModuleId) :=
  if (final nodes).sorted.length = nodes.length then
    .ok (final nodes).sorted
  else
    .error (((final nodes).degree.toList.filter fun entry => 0 < entry.2).map Prod.fst)

/-! ### The loop meets Kahn's invariant -/

theorem mem_keys_adjacency {nodes : List ModuleNode} {id : ModuleId} :
    id ∈ (adjacency nodes).keys ↔ id ∈ nodeIds nodes := by
  rw [ExtTreeMap.mem_keys, adjacency, BTreeMap.mem_ofList_iff, List.map_map]
  rfl

/-- The edges the in-degrees count are the downstream ids of the keys. -/
theorem vals_flatMap_toList (nodes : List ModuleNode) :
    (BTreeMap.vals (adjacency nodes)).flatMap (fun ids => ids.toList) =
      (adjacency nodes).keys.flatMap (downstream nodes) := by
  rw [BTreeMap.vals, ← ExtTreeMap.map_fst_toList_eq_keys, List.flatMap_map, List.flatMap_map]
  refine List.flatMap_congr fun entry hentry => ?_
  have hlookup := ExtTreeMap.mem_toList_iff_getElem?_eq_some.mp hentry
  simp [downstream, hlookup]

section Distinct

variable {nodes : List ModuleNode} (hids : (nodeIds nodes).Nodup)

include hids

theorem getElem?_adjacency {node : ModuleNode} (h : node ∈ nodes) :
    (adjacency nodes)[node.moduleId]? =
      some (ExtTreeSet.ofList (node.edgesTo.map EdgeTo.dst) compare) := by
  refine BTreeMap.getElem?_ofList_of_nodup ?_ (List.mem_map.mpr ⟨node, h, rfl⟩)
  rw [List.map_map]
  exact hids

theorem mem_downstream {u v : ModuleId} : v ∈ downstream nodes u ↔ Points nodes u v := by
  unfold downstream
  constructor
  · intro h
    cases hu : (adjacency nodes)[u]? with
    | none => simp [hu] at h
    | some ids =>
      have hmem := BTreeMap.mem_ofList_iff.mp (BTreeMap.mem_iff_getElem?_isSome.mpr ⟨ids, hu⟩)
      rw [List.map_map] at hmem
      obtain ⟨node, hnode, rfl⟩ := List.mem_map.mp hmem
      change (adjacency nodes)[node.moduleId]? = some ids at hu
      have hlookup := getElem?_adjacency hids hnode
      refine ⟨node, hnode, rfl, ?_⟩
      simp only [Function.comp_apply, hlookup, ExtTreeSet.mem_toList] at h
      exact BTreeSet.mem_ofList_iff.mp h
  · rintro ⟨node, hnode, rfl, hv⟩
    rw [getElem?_adjacency hids hnode]
    exact ExtTreeSet.mem_toList.mpr (BTreeSet.mem_ofList_iff.mpr hv)

/-- Counting over the adjacency map is counting over the nodes. -/
theorem perm_edges : ((BTreeMap.vals (adjacency nodes)).flatMap fun ids => ids.toList).Perm
    ((nodeIds nodes).flatMap (downstream nodes)) := by
  have hkeys : (adjacency nodes).keys.Perm (nodeIds nodes) := by
    rw [List.perm_ext_iff_of_nodup ExtTreeMap.nodup_keys hids]
    intro id
    exact mem_keys_adjacency
  rw [vals_flatMap_toList]
  exact hkeys.flatMap_right _

theorem getElem?_inDegree {id : ModuleId} (h : id ∈ nodeIds nodes) :
    (inDegree nodes)[id]? = some (Kahn.pending (nodeIds nodes) (downstream nodes) [] id) := by
  rw [inDegree, Kahn.getElem?_foldl_bump, getElem?_zeroDegrees_of_mem hids h,
    (perm_edges hids).count_eq, List.count_flatMap]
  simp [Kahn.pending, Function.comp_def]

theorem inv_initial :
    Kahn.Inv Kahn.leastFirst (nodeIds nodes) (downstream nodes) (initial nodes) := by
  refine Kahn.inv_initial ?_ (fun id h => getElem?_inDegree hids h) ?_ ?_
  · intro id h
    rw [inDegree, Kahn.getElem?_foldl_bump, getElem?_zeroDegrees_of_notMem h]
    rfl
  · exact BTreeSet.nodup_toList (initial nodes).ready
  · intro id
    rw [← Kahn.mem_zeros]
    exact ExtTreeSet.mem_toList.trans BTreeSet.mem_ofList_iff

/-- The final state satisfies the invariant with nothing left ready. -/
theorem final_spec :
    Kahn.Inv Kahn.leastFirst (nodeIds nodes) (downstream nodes) (final nodes) ∧
      Kahn.leastFirst.elems (final nodes).ready = [] :=
  Kahn.drain_spec hids nodes.length (inv_initial hids) (by simp [nodeIds, initial])

theorem downstream_eq_points :
    (fun u v => v ∈ downstream nodes u) = Points nodes := by
  funext u v
  exact propext (mem_downstream hids)

/-- **The sort succeeds exactly on acyclic stages.** -/
theorem topologicalSort_isOk_iff :
    (∃ order, topologicalSort nodes = .ok order) ↔ AcyclicOn (nodeIds nodes) (Points nodes) := by
  have hlen : (nodeIds nodes).length = nodes.length := by simp [nodeIds]
  have hiff := Kahn.drain_complete_iff hids nodes.length (inv_initial hids)
    (by simp [nodeIds, initial])
  rw [downstream_eq_points hids, hlen] at hiff
  rw [← hiff]
  unfold topologicalSort
  constructor
  · rintro ⟨order, h⟩
    by_contra hne
    rw [if_neg (show ¬ (final nodes).sorted.length = nodes.length from hne)] at h
    cases h
  · intro h
    exact ⟨_, if_pos h⟩

/-- A successful sort is a linear extension of the stage DAG. -/
theorem topologicalSort_linearExtension {order : List ModuleId}
    (h : topologicalSort nodes = .ok order) :
    LinearExtension (nodeIds nodes) (Points nodes) order := by
  unfold topologicalSort at h
  split at h
  · rename_i hlen
    cases h
    have hext := (final_spec hids).1.linearExtension (by rw [hlen]; simp [nodeIds])
    rwa [downstream_eq_points hids] at hext
  · cases h

end Distinct

end Topology

end PinchNPrint.Scheduler
