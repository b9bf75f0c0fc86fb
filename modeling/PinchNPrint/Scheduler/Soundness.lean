/-
What a clean validation report guarantees about the schedule that is then run.

The validator and the plan builder share no graph code: the validator sorts with
a queue and decides reachability with its own breadth-first closure, the plan is
ordered by `Topology.topologicalSort`. The specifications below bring both to
one vocabulary, walks of the relation `Points`: the validator's sort succeeds
exactly on acyclic stages, `canReach` is the existence of a walk, and the field
index lists exactly the nodes that declare a field.

The two results are about whole requests: with stage DAGs built from modules
with distinct ids, an empty error list implies that no module reads a path
before another one wrote it (`validated_reads_follow_writes`) and that two
writers of one path are ordered by the stage DAG itself
(`validated_writes_are_ordered`).
-/

import PinchNPrint.Scheduler.Validation

namespace PinchNPrint.Scheduler

open Std Relation Digraph

/-! ### The validator's graph algorithms -/

namespace Validation

section Distinct

variable {nodes : List ModuleNode} (hids : (nodeIds nodes).Nodup)

include hids

theorem edgesOf_moduleId {node : ModuleNode} (h : node ∈ nodes) :
    edgesOf nodes node.moduleId = node.edgesTo.map EdgeTo.dst := by
  simp only [edgesOf, List.find?_key_eq_some hids h]

variable {u v : ModuleId}

theorem mem_edgesOf : v ∈ edgesOf nodes u ↔ Points nodes u v := by
  constructor
  · intro h
    cases hfind : nodes.find? fun node => node.moduleId == u with
    | none => simp [edgesOf, hfind] at h
    | some node =>
      have hid : node.moduleId = u := by simpa using List.find?_some hfind
      simp only [edgesOf, hfind] at h
      exact ⟨node, List.mem_of_find?_eq_some hfind, hid, h⟩
  · rintro ⟨node, hnode, rfl, hv⟩
    rw [edgesOf_moduleId hids hnode]
    exact hv

theorem getElem?_inDegree {id : ModuleId} (h : id ∈ nodeIds nodes) :
    (inDegree nodes)[id]? = some (Kahn.pending (nodeIds nodes) (edgesOf nodes) [] id) := by
  have hedges : (nodes.flatMap fun node => node.edgesTo.map EdgeTo.dst) =
      (nodeIds nodes).flatMap (edgesOf nodes) := by
    rw [nodeIds, List.flatMap_map]
    exact List.flatMap_congr fun node hnode => (edgesOf_moduleId hids hnode).symm
  rw [inDegree, Kahn.getElem?_foldl_bump, getElem?_zeroDegrees_of_mem hids h, hedges,
    List.count_flatMap]
  simp [Kahn.pending, Function.comp_def]

theorem inv_initial :
    Kahn.Inv (Kahn.queue ModuleId) (nodeIds nodes) (edgesOf nodes) (initial nodes) := by
  refine Kahn.inv_initial ?_ (fun id h => getElem?_inDegree hids h) ?_ ?_
  · intro id h
    rw [inDegree, Kahn.getElem?_foldl_bump, getElem?_zeroDegrees_of_notMem h]
    rfl
  · exact Kahn.nodup_zeros _
  · intro id
    exact Kahn.mem_zeros

/-- The validator's sort succeeds exactly on acyclic stages. -/
theorem topologicalSort_isOk_iff :
    (∃ order, topologicalSort nodes = .ok order) ↔ AcyclicOn (nodeIds nodes) (Points nodes) := by
  have hpoints : (fun u v => v ∈ edgesOf nodes u) = Points nodes := by
    funext u v
    exact propext (mem_edgesOf hids)
  have hlen : (nodeIds nodes).length = nodes.length := by simp [nodeIds]
  have hiff := Kahn.drain_complete_iff hids nodes.length (inv_initial hids)
    (by simp [nodeIds, initial])
  rw [hpoints, hlen] at hiff
  rw [← hiff]
  simp only [topologicalSort]
  constructor
  · rintro ⟨order, h⟩
    by_contra hne
    rw [if_neg (show ¬ (final nodes).sorted.length = nodes.length from hne)] at h
    cases h
  · intro h
    exact ⟨_, if_pos h⟩

theorem mem_adjacent : v ∈ adjacent nodes u ↔ Points nodes u v := by
  have hkeys : ((nodes.map fun node => (node.moduleId, node.edgesTo.map EdgeTo.dst)).map
      Prod.fst).Nodup := by
    rw [List.map_map]
    exact hids
  constructor
  · intro h
    cases hu : (adjacency nodes)[u]? with
    | none => simp [adjacent, hu] at h
    | some targets =>
      have hmem := BTreeMap.mem_ofList_iff.mp (BTreeMap.mem_iff_getElem?_isSome.mpr ⟨targets, hu⟩)
      rw [List.map_map] at hmem
      obtain ⟨node, hnode, rfl⟩ := List.mem_map.mp hmem
      have hlookup := BTreeMap.getElem?_ofList_of_nodup hkeys (List.mem_map.mpr ⟨node, hnode, rfl⟩)
      have heq : node.edgesTo.map EdgeTo.dst = targets := Option.some.inj (hlookup.symm.trans hu)
      simp only [adjacent, hu, Option.getD_some] at h
      exact ⟨node, hnode, rfl, heq ▸ h⟩
  · rintro ⟨node, hnode, rfl, hv⟩
    have hlookup := BTreeMap.getElem?_ofList_of_nodup hkeys (List.mem_map.mpr ⟨node, hnode, rfl⟩)
    rw [adjacent, adjacency, hlookup]
    exact hv

theorem mem_reachableFrom : v ∈ reachableFrom nodes u ↔ TransGen (Points nodes) u v := by
  have hpoints : (fun a b => b ∈ adjacent nodes a) = Points nodes := by
    funext a b
    exact propext (mem_adjacent hids)
  have hoff : ∀ id, id ∉ nodeIds nodes → adjacent nodes id = [] := by
    intro id hid
    refine List.eq_nil_iff_forall_not_mem.mpr fun v hv => hid ?_
    obtain ⟨node, hnode, rfl, _⟩ := (mem_adjacent hids).mp hv
    exact List.mem_map.mpr ⟨node, hnode, rfl⟩
  rw [reachableFrom, Worklist.mem_closure_iff hids hoff (Nat.le_refl _), hpoints]

omit hids in
/-- A walk that ends at a listed node stays among the listed nodes. -/
theorem transGen_on_of_transGen (hv : v ∈ nodeIds nodes) (walk : TransGen (Points nodes) u v) :
    TransGen (On (nodeIds nodes) (Points nodes)) u v := by
  have hsource : ∀ {a b}, Points nodes a b → a ∈ nodeIds nodes := by
    rintro a b ⟨node, hnode, rfl, _⟩
    exact List.mem_map.mpr ⟨node, hnode, rfl⟩
  induction walk using TransGen.head_induction_on with
  | single edge => exact TransGen.single ⟨hsource edge, hv, edge⟩
  | head edge _ ih => exact TransGen.head ⟨hsource edge, (mem_of_transGen_on ih).1, edge⟩ ih

/-- `can_reach` answers whether the stage DAG has a walk between two nodes. -/
theorem canReach_iff (hu : u ∈ nodeIds nodes) (hv : v ∈ nodeIds nodes) :
    canReach (computeReachability nodes) u v = true ↔
      TransGen (On (nodeIds nodes) (Points nodes)) u v := by
  obtain ⟨node, hnode, rfl⟩ := List.mem_map.mp hu
  have hkeys : ((nodes.map fun node => (node.moduleId, reachableFrom nodes node.moduleId)).map
      Prod.fst).Nodup := by
    rw [List.map_map]
    exact hids
  have hlookup := BTreeMap.getElem?_ofList_of_nodup hkeys (List.mem_map.mpr ⟨node, hnode, rfl⟩)
  simp only [canReach, computeReachability, hlookup]
  rw [← ExtTreeSet.mem_iff_contains, mem_reachableFrom hids]
  constructor
  · intro walk
    exact transGen_on_of_transGen hv walk
  · intro walk
    exact TransGen.mono (fun a b (edge : On _ _ a b) => edge.2.2) _ _ walk

end Distinct

theorem mem_indexByField {fields : ModuleNode → List String} {stageDags : List StageDag}
    {field : String} {entry : StageId × ModuleId} :
    entry ∈ ((indexByField fields stageDags)[field]?).getD [] ↔
      ∃ dag ∈ stageDags, ∃ node ∈ dag.nodes, field ∈ fields node ∧
        entry = (dag.stage, node.moduleId) := by
  let Has := fun index : BTreeMap String (List (StageId × ModuleId)) =>
    entry ∈ (index[field]?).getD []
  -- One insertion, then one fold for each loop of the source.
  have hfield : ∀ (dag : StageDag) (node : ModuleNode) index key,
      Has (index.alter key fun entries => some (entries.getD [] ++ [(dag.stage, node.moduleId)])) ↔
        Has index ∨ (key = field ∧ entry = (dag.stage, node.moduleId)) := by
    intro dag node index key
    simp only [Has, ExtTreeMap.getElem?_alter]
    by_cases hkey : key = field
    · subst hkey
      simp
    · simp [hkey]
  have hnode := fun (dag : StageDag) (node : ModuleNode) index =>
    List.foldl_collects (hfield dag node) (fields node) index
  have hdag := fun (dag : StageDag) index =>
    List.foldl_collects (fun index node => hnode dag node index) dag.nodes index
  have hall := List.foldl_collects (fun index dag => hdag dag index) (sortedStageDags stageDags) ∅
  have hempty : ¬ Has ∅ := by simp [Has]
  refine hall.trans ?_
  simp only [hempty, false_or, sortedStageDags, List.mem_insertionSort]
  constructor
  · rintro ⟨dag, hd, node, hn, key, hkey, rfl, rfl⟩
    exact ⟨dag, hd, node, hn, hkey, rfl⟩
  · rintro ⟨dag, hd, node, hn, hkey, rfl⟩
    exact ⟨dag, hd, node, hn, field, hkey, rfl, rfl⟩

end Validation

/-! ### Requests built from the modules -/

/-- The stage DAGs are those of the loaded modules: one per stage, each built by
`buildIntraStageDag`, and every module's stage has one. -/
structure BuiltFrom (modules : List LoadedModule) (stageDags : List StageDag) : Prop where
  distinct : (stageDags.map StageDag.stage).Nodup
  built : ∀ dag ∈ stageDags,
    dag.nodes = buildIntraStageDag dag.stage (modules.map LoadedModule.producer)
  covers : ∀ module ∈ modules, module.stage ∈ stageDags.map StageDag.stage

/-- The order in which the modules of one stage run. -/
def stageRun (stageDags : List StageDag) (stage : StageId) : List ModuleId :=
  match stageDags.find? fun dag => dag.stage == stage with
  | none => []
  | some dag =>
      match Topology.topologicalSort dag.nodes with
      | .ok order => order
      | .error _ => []

/-- The whole run: stages in `STAGE_ORDER`, modules of a stage in sorted order. -/
def scheduledRun (stageDags : List StageDag) : List ModuleId :=
  STAGE_ORDER.flatMap (stageRun stageDags)

/-- What a run owes its reads: another module that writes the path ran before. -/
def ReadsFollowWrites (modules : List LoadedModule) (run : List ModuleId) : Prop :=
  ∀ m ∈ modules, ∀ path ∈ m.irReads,
    ∃ writer ∈ modules, writer.id ≠ m.id ∧ path ∈ writer.irWrites ∧ Precedes run writer.id m.id

/-- `first` runs before `later` in every order the stage DAG admits. -/
def AlwaysPrecedes (nodes : List ModuleNode) (first later : ModuleId) : Prop :=
  ∀ order, LinearExtension (nodeIds nodes) (Points nodes) order → Precedes order first later

/-- The passes whose silence the results below use. -/
theorem validateStartupDag_clean {request : DagValidationRequest}
    (h : (validateStartupDag request).errors = []) :
    validateStageIds request = [] ∧ validateCycles request = [] ∧
      validateWriteConflicts request = [] ∧ validateUnfulfilledReads request = [] := by
  simp only [validateStartupDag, List.append_eq_nil_iff] at h
  tauto

section Built

variable {modules : List LoadedModule} {stageDags : List StageDag}
  (hids : (modules.map LoadedModule.id).Nodup) (hbuilt : BuiltFrom modules stageDags)

include hids

variable {m : LoadedModule} {dag : StageDag} {id : ModuleId} {stage : StageId}

omit hbuilt in
theorem module_eq_of_id_eq {m' : LoadedModule} (hm : m ∈ modules) (hm' : m' ∈ modules)
    (h : m.id = m'.id) : m = m' :=
  List.inj_on_of_nodup_map hids hm hm' h

include hbuilt

theorem nodup_nodeIds (hdag : dag ∈ stageDags) : (nodeIds dag.nodes).Nodup := by
  rw [hbuilt.built dag hdag]
  refine (buildIntraStageDag_nodes ?_ dag.stage).1
  rw [List.map_map]
  exact hids

theorem exists_module_of_node (hdag : dag ∈ stageDags) {node : ModuleNode}
    (hnode : node ∈ dag.nodes) :
    ∃ m ∈ modules, m.stage = dag.stage ∧ node.Describes m.producer := by
  rw [hbuilt.built dag hdag] at hnode
  have hids' : ((modules.map LoadedModule.producer).map Producer.id).Nodup := by
    rw [List.map_map]
    exact hids
  obtain ⟨p, hp, hstage, hdesc⟩ := (buildIntraStageDag_nodes hids' dag.stage).2.1 node hnode
  obtain ⟨m, hm, rfl⟩ := List.mem_map.mp hp
  exact ⟨m, hm, hstage, hdesc⟩

theorem exists_node_of_module (hm : m ∈ modules) (hdag : dag ∈ stageDags)
    (hstage : m.stage = dag.stage) : ∃ node ∈ dag.nodes, node.Describes m.producer := by
  have hids' : ((modules.map LoadedModule.producer).map Producer.id).Nodup := by
    rw [List.map_map]
    exact hids
  rw [hbuilt.built dag hdag]
  exact (buildIntraStageDag_nodes hids' dag.stage).2.2 m.producer
    (List.mem_map.mpr ⟨m, hm, rfl⟩) hstage

omit hids in
theorem exists_dag_of_module (hm : m ∈ modules) : ∃ dag ∈ stageDags, dag.stage = m.stage := by
  obtain ⟨dag, hdag, hstage⟩ := List.mem_map.mp (hbuilt.covers m hm)
  exact ⟨dag, hdag, hstage⟩

theorem mem_nodeIds_iff (hdag : dag ∈ stageDags) :
    id ∈ nodeIds dag.nodes ↔ ∃ m ∈ modules, m.stage = dag.stage ∧ m.id = id := by
  constructor
  · intro h
    obtain ⟨node, hnode, rfl⟩ := List.mem_map.mp h
    obtain ⟨m, hm, hstage, hdesc⟩ := exists_module_of_node hids hbuilt hdag hnode
    exact ⟨m, hm, hstage, hdesc.1.symm⟩
  · rintro ⟨m, hm, hstage, rfl⟩
    obtain ⟨node, hnode, hdesc⟩ := exists_node_of_module hids hbuilt hm hdag hstage
    exact List.mem_map.mpr ⟨node, hnode, hdesc.1⟩

omit hids in
theorem stageRun_eq (hdag : dag ∈ stageDags) {order : List ModuleId}
    (h : Topology.topologicalSort dag.nodes = .ok order) :
    stageRun stageDags dag.stage = order := by
  simp only [stageRun, List.find?_key_eq_some hbuilt.distinct hdag, h]

/-- A nonempty stage run is the sorted order of that stage's DAG. -/
theorem linearExtension_of_mem_stageRun (h : id ∈ stageRun stageDags stage) :
    ∃ dag ∈ stageDags, dag.stage = stage ∧
      LinearExtension (nodeIds dag.nodes) (Points dag.nodes) (stageRun stageDags stage) := by
  cases hfind : stageDags.find? fun dag => dag.stage == stage with
  | none => simp [stageRun, hfind] at h
  | some dag =>
    have hdag := List.mem_of_find?_eq_some hfind
    have hstage : dag.stage = stage := by simpa using List.find?_some hfind
    cases hsort : Topology.topologicalSort dag.nodes with
    | error cycle => simp [stageRun, hfind, hsort] at h
    | ok order =>
      have hrun : stageRun stageDags stage = order := by simp only [stageRun, hfind, hsort]
      rw [hrun]
      exact ⟨dag, hdag, hstage,
        Topology.topologicalSort_linearExtension (nodup_nodeIds hids hbuilt hdag) hsort⟩

theorem exists_module_of_mem_stageRun (h : id ∈ stageRun stageDags stage) :
    ∃ m ∈ modules, m.stage = stage ∧ m.id = id := by
  obtain ⟨dag, hdag, rfl, hext⟩ := linearExtension_of_mem_stageRun hids hbuilt h
  exact (mem_nodeIds_iff hids hbuilt hdag).mp (hext.perm.mem_iff.mp h)

theorem stage_of_mem_stageRun (hm : m ∈ modules) (h : m.id ∈ stageRun stageDags stage) :
    m.stage = stage := by
  obtain ⟨m', hm', hstage, hid⟩ := exists_module_of_mem_stageRun hids hbuilt h
  rw [← module_eq_of_id_eq hids hm' hm hid]
  exact hstage

theorem nodup_stageRun (stage : StageId) : (stageRun stageDags stage).Nodup := by
  rcases List.eq_nil_or_concat (stageRun stageDags stage) with hnil | ⟨front, id, hrun⟩
  · rw [hnil]
    exact List.nodup_nil
  · have hmem : id ∈ stageRun stageDags stage := by simp [hrun]
    obtain ⟨dag, hdag, _, hext⟩ := linearExtension_of_mem_stageRun hids hbuilt hmem
    exact hext.perm.nodup_iff.mpr (nodup_nodeIds hids hbuilt hdag)

theorem mem_stageRun_of_module (hsorts : ∀ dag ∈ stageDags,
      ∃ order, Topology.topologicalSort dag.nodes = .ok order) (hm : m ∈ modules) :
    m.id ∈ stageRun stageDags m.stage := by
  obtain ⟨dag, hdag, hstage⟩ := exists_dag_of_module hbuilt hm
  obtain ⟨order, hsort⟩ := hsorts dag hdag
  have hext := Topology.topologicalSort_linearExtension (nodup_nodeIds hids hbuilt hdag) hsort
  rw [← hstage, stageRun_eq hbuilt hdag hsort, hext.perm.mem_iff, mem_nodeIds_iff hids hbuilt hdag]
  exact ⟨m, hm, hstage.symm, rfl⟩

/-- **Every module runs exactly once.** -/
theorem scheduledRun_perm (hsorts : ∀ dag ∈ stageDags,
      ∃ order, Topology.topologicalSort dag.nodes = .ok order)
    (hknown : ∀ m ∈ modules, m.stage ∈ STAGE_ORDER) :
    (scheduledRun stageDags).Perm (modules.map LoadedModule.id) := by
  have hnodup : (scheduledRun stageDags).Nodup := by
    refine List.nodup_flatMap.mpr ⟨fun stage _ => nodup_stageRun hids hbuilt stage, ?_⟩
    refine stage_order_nodup.imp fun {s t} hst id hs ht => ?_
    obtain ⟨m, hm, hstage, rfl⟩ := exists_module_of_mem_stageRun hids hbuilt hs
    exact hst (hstage.symm.trans (stage_of_mem_stageRun hids hbuilt hm ht))
  rw [List.perm_ext_iff_of_nodup hnodup hids]
  intro id
  rw [scheduledRun, List.mem_flatMap, List.mem_map]
  constructor
  · rintro ⟨stage, _, h⟩
    obtain ⟨m, hm, _, hid⟩ := exists_module_of_mem_stageRun hids hbuilt h
    exact ⟨m, hm, hid⟩
  · rintro ⟨m, hm, rfl⟩
    exact ⟨m.stage, hknown m hm, mem_stageRun_of_module hids hbuilt hsorts hm⟩

/-- Stages listed before the module's own do not run it. -/
theorem notMem_stageRun_of_mem_take (hm : m ∈ modules) {index : Nat}
    (hindex : STAGE_ORDER[index]? = some m.stage) :
    ∀ stage ∈ STAGE_ORDER.take index, m.id ∉ stageRun stageDags stage := by
  intro stage hstage hmem
  obtain rfl := stage_of_mem_stageRun hids hbuilt hm hmem
  obtain ⟨earlier, hlt, hget⟩ := List.mem_take_iff_getElem.mp hstage
  obtain ⟨hbound, hget'⟩ := List.getElem?_eq_some_iff.mp hindex
  have heq := (stage_order_nodup.getElem_inj_iff).mp (hget.trans hget'.symm)
  omega

end Built

/-- A slicer, a filler and a pass that rewrites the fill, with one holder for
each fill role. -/
def infillRequest : DagValidationRequest :=
  let version : SemVer := ⟨1, 0, 0⟩
  let module := fun id stage irReads irWrites claims =>
    (⟨id, stage, irReads, irWrites, claims, [], [], [], version, version, ⟨2, 0, 0⟩⟩ : LoadedModule)
  let modules :=
    [module "org.smooth" "Layer::Infill" ["InfillIR.paths"] ["InfillIR.paths"] [],
      module "org.rectilinear" "Layer::Infill" ["SliceIR.regions"] ["InfillIR.paths"]
        FILL_CLAIM_IDS,
      module "org.slicer" "PrePass::Slice" [] ["SliceIR.regions"] []]
  { modules
    stageDags := ["PrePass::Slice", "Layer::Infill"].map fun stage =>
      ⟨stage, buildIntraStageDag stage (modules.map LoadedModule.producer)⟩
    hostIrSchemaVersion := version
    hostVersion := version
    claimHolders := FILL_CLAIM_IDS.map fun claim => ⟨claim, "org.rectilinear", .global⟩
    accessAudits := [] }

theorem infillRequest_builtFrom : BuiltFrom infillRequest.modules infillRequest.stageDags := by
  refine ⟨by decide, ?_, by decide⟩
  intro dag hdag
  obtain ⟨stage, _, rfl⟩ := List.mem_map.mp hdag
  rfl

/-! ### Reads follow writes -/

section Valid

variable {request : DagValidationRequest}
  (hids : (request.modules.map LoadedModule.id).Nodup)
  (hbuilt : BuiltFrom request.modules request.stageDags)

include hids hbuilt

theorem acyclicOn_of_validateCycles (h : validateCycles request = []) {dag : StageDag}
    (hdag : dag ∈ request.stageDags) : AcyclicOn (nodeIds dag.nodes) (Points dag.nodes) := by
  rw [← Validation.topologicalSort_isOk_iff (nodup_nodeIds hids hbuilt hdag)]
  have hnone := List.filterMap_eq_nil_iff.mp h dag hdag
  cases hsort : Validation.topologicalSort dag.nodes with
  | ok order => exact ⟨order, rfl⟩
  | error cycle =>
    rw [hsort] at hnone
    cases hnone

omit hids hbuilt in
theorem stages_known (h : validateStageIds request = []) :
    ∀ m ∈ request.modules, m.stage ∈ STAGE_ORDER := by
  intro m hm
  have hnone := List.filterMap_eq_nil_iff.mp (List.append_eq_nil_iff.mp h).1 m hm
  by_contra hunknown
  rw [if_neg (mt mem_stageOrderIndex.mp hunknown)] at hnone
  cases hnone

theorem stages_sort (h : validateCycles request = []) :
    ∀ dag ∈ request.stageDags, ∃ order, Topology.topologicalSort dag.nodes = .ok order :=
  fun _ hdag => (Topology.topologicalSort_isOk_iff (nodup_nodeIds hids hbuilt hdag)).mpr
    (acyclicOn_of_validateCycles hids hbuilt h hdag)

/-- A silent read pass found, for each read, a writer in an earlier stage or
upstream in the same stage. -/
theorem exists_writer_of_validateUnfulfilledReads (h : validateUnfulfilledReads request = [])
    {m : LoadedModule} (hm : m ∈ request.modules) {path : String} (hpath : path ∈ m.irReads) :
    ∃ writer ∈ request.modules, writer.id ≠ m.id ∧ path ∈ writer.irWrites ∧
      ∃ i j : Nat, STAGE_ORDER[i]? = some writer.stage ∧ STAGE_ORDER[j]? = some m.stage ∧
        (i < j ∨ ∃ dag ∈ request.stageDags, dag.stage = m.stage ∧ writer.stage = m.stage ∧
          TransGen (On (nodeIds dag.nodes) (Points dag.nodes)) writer.id m.id) := by
  obtain ⟨dag, hdag, hstage⟩ := exists_dag_of_module hbuilt hm
  obtain ⟨node, hnode, hdesc⟩ := exists_node_of_module hids hbuilt hm hdag hstage.symm
  have hid : node.moduleId = m.id := hdesc.1
  -- Read the diagnostic of this node and path off the pass.
  have hread := List.flatMap_eq_nil_iff.mp (List.flatMap_eq_nil_iff.mp h dag hdag) node hnode
  simp only [hid, (getElem?_modulesById hids).mpr ⟨hm, rfl⟩] at hread
  have hsat := List.filterMap_eq_nil_iff.mp hread path hpath
  cases hwriters : (Validation.writersByField request.stageDags)[path]? with
  | none => simp [hwriters] at hsat
  | some writers =>
    simp only [hwriters, ite_eq_left_iff, reduceCtorEq, imp_false, Bool.not_eq_true,
      Bool.not_eq_false] at hsat
    obtain ⟨entry, hentry, hok⟩ := List.any_eq_true.mp hsat
    have hindexed : entry ∈ ((Validation.writersByField request.stageDags)[path]?).getD [] := by
      rw [hwriters]
      exact hentry
    obtain ⟨dag', hdag', node', hnode', hwrites, rfl⟩ := Validation.mem_indexByField.mp hindexed
    obtain ⟨writer, hwriter, hstage', hdesc'⟩ := exists_module_of_node hids hbuilt hdag' hnode'
    have hid' : node'.moduleId = writer.id := hdesc'.1
    have hpath' : path ∈ writer.irWrites := by
      have : node'.irWrites = writer.irWrites := hdesc'.2.2
      rwa [← this]
    simp only [writerSatisfies, hid', ← hstage', hstage] at hok
    split at hok
    · cases hok
    · rename_i hne
      refine ⟨writer, hwriter, hne, hpath', ?_⟩
      split at hok
      · rename_i j i hj hi
        refine ⟨i, j, stageOrderIndex_eq_some_iff.mp hi, stageOrderIndex_eq_some_iff.mp hj, ?_⟩
        split at hok
        · rename_i hlt
          exact Or.inl hlt
        · split at hok
          · rename_i hsame
            have hu : writer.id ∈ nodeIds dag.nodes :=
              (mem_nodeIds_iff hids hbuilt hdag).mpr ⟨writer, hwriter, hsame.trans hstage.symm, rfl⟩
            have hv : m.id ∈ nodeIds dag.nodes :=
              (mem_nodeIds_iff hids hbuilt hdag).mpr ⟨m, hm, hstage.symm, rfl⟩
            exact Or.inr ⟨dag, hdag, hstage, hsame,
              (Validation.canReach_iff (nodup_nodeIds hids hbuilt hdag) hu hv).mp hok⟩
          · cases hok
      · cases hok

/-- **Validated schedules never read before a write.** Every stage sorts, every
module runs exactly once, and each path a module reads was written by another
module that ran strictly earlier. -/
theorem validated_reads_follow_writes (hvalid : (validateStartupDag request).errors = []) :
    (∀ dag ∈ request.stageDags, ∃ order, Topology.topologicalSort dag.nodes = .ok order) ∧
      (scheduledRun request.stageDags).Perm (request.modules.map LoadedModule.id) ∧
      ReadsFollowWrites request.modules (scheduledRun request.stageDags) := by
  obtain ⟨hstages, hcycles, _, hreads⟩ := validateStartupDag_clean hvalid
  have hsorts := stages_sort hids hbuilt hcycles
  refine ⟨hsorts, scheduledRun_perm hids hbuilt hsorts (stages_known hstages), ?_⟩
  intro m hm path hpath
  obtain ⟨writer, hwriter, hne, hwrites, i, j, hi, hj, hbefore⟩ :=
    exists_writer_of_validateUnfulfilledReads hids hbuilt hreads hm hpath
  refine ⟨writer, hwriter, hne, hwrites, ?_⟩
  have hlate := notMem_stageRun_of_mem_take hids hbuilt hm hj
  rcases hbefore with hlt | ⟨dag, hdag, hstage, hsame, walk⟩
  · exact precedes_flatMap_of_lt hi hj hlt (mem_stageRun_of_module hids hbuilt hsorts hwriter)
      (mem_stageRun_of_module hids hbuilt hsorts hm) hlate
  · obtain ⟨order, hsort⟩ := hsorts dag hdag
    have hext := Topology.topologicalSort_linearExtension (nodup_nodeIds hids hbuilt hdag) hsort
    have hinside : Precedes (stageRun request.stageDags m.stage) writer.id m.id := by
      rw [← hstage, stageRun_eq hbuilt hdag hsort]
      exact hext.precedes_of_transGen walk
    refine hinside.flatMap hj ?_ hlate
    exact notMem_stageRun_of_mem_take hids hbuilt hwriter (hsame ▸ hj)

omit hids hbuilt in
theorem validated_reads_follow_writes_infill :
    (validateStartupDag infillRequest).errors = [] ∧
      ReadsFollowWrites infillRequest.modules (scheduledRun infillRequest.stageDags) :=
  ⟨by decide, (validated_reads_follow_writes (by decide) infillRequest_builtFrom (by decide)).2.2⟩

/-! ### Writers are ordered -/

/-- A silent write pass found, for two nodes that write one path, a walk to the
one that also reads it. -/
theorem walk_of_validateWriteConflicts (h : validateWriteConflicts request = []) {dag : StageDag}
    (hdag : dag ∈ request.stageDags) {left right : ModuleNode} {path : String}
    (hpair : (left, right) ∈ orderedPairs dag.nodes) (hleft : left ∈ dag.nodes)
    (hright : right ∈ dag.nodes) (hwl : path ∈ left.irWrites) (hwr : path ∈ right.irWrites)
    (haggregated : ¬ (isSupportPath path = true ∧
      left.moduleId ∈ familySupportModules request ∧
        right.moduleId ∈ familySupportModules request)) :
    (path ∈ right.irReads ∧
        TransGen (On (nodeIds dag.nodes) (Points dag.nodes)) left.moduleId right.moduleId) ∨
      (path ∈ left.irReads ∧
        TransGen (On (nodeIds dag.nodes) (Points dag.nodes)) right.moduleId left.moduleId) := by
  have hshared : path ∈ Validation.sharedPaths left.irWrites right.irWrites := by
    rw [Validation.sharedPaths, sortDedup, ExtTreeSet.mem_toList, BTreeSet.mem_ofList_iff,
      List.mem_filter]
    exact ⟨hwl, by simpa using hwr⟩
  have hnone := List.filterMap_eq_nil_iff.mp (List.flatMap_eq_nil_iff.mp
    (List.flatMap_eq_nil_iff.mp h dag hdag) (left, right) hpair) path hshared
  have horder : writeOrderable request (Validation.computeReachability dag.nodes) left right path =
      true := by
    by_contra hfalse
    rw [if_neg hfalse] at hnone
    cases hnone
  have hl : left.moduleId ∈ nodeIds dag.nodes := List.mem_map.mpr ⟨left, hleft, rfl⟩
  have hr : right.moduleId ∈ nodeIds dag.nodes := List.mem_map.mpr ⟨right, hright, rfl⟩
  have hnodes := nodup_nodeIds hids hbuilt hdag
  simp only [writeOrderable, Bool.or_eq_true, Bool.and_eq_true, List.contains_iff_mem,
    Validation.canReach_iff hnodes hl hr, Validation.canReach_iff hnodes hr hl] at horder
  rcases horder with (h | h) | ⟨⟨hfl, hfr⟩, hsupport⟩
  · exact Or.inl h
  · exact Or.inr h
  · exact absurd ⟨hsupport, hfl, hfr⟩ haggregated

/-- **No write-write race inside a stage.** The stage DAG admits an order, and
of two distinct modules of the stage that write one path, one runs first in
every admitted order and the other also reads the path. The only exception is
the output of support families, which is aggregated. -/
theorem validated_writes_are_ordered (hvalid : (validateStartupDag request).errors = [])
    {a b : LoadedModule} (ha : a ∈ request.modules) (hb : b ∈ request.modules) (hne : a ≠ b)
    (hstage : a.stage = b.stage) {path : String} (hwa : path ∈ a.irWrites)
    (hwb : path ∈ b.irWrites)
    (haggregated : ¬ (isSupportPath path = true ∧ a.id ∈ familySupportModules request ∧
      b.id ∈ familySupportModules request)) :
    let nodes := buildIntraStageDag a.stage (request.modules.map LoadedModule.producer)
    (∃ order, LinearExtension (nodeIds nodes) (Points nodes) order) ∧
      ((AlwaysPrecedes nodes a.id b.id ∧ path ∈ b.irReads) ∨
        (AlwaysPrecedes nodes b.id a.id ∧ path ∈ a.irReads)) := by
  intro nodes
  obtain ⟨_, hcycles, hwrites, _⟩ := validateStartupDag_clean hvalid
  obtain ⟨dag, hdag, hdagStage⟩ := exists_dag_of_module hbuilt ha
  have hnodes : nodes = dag.nodes := by
    rw [hbuilt.built dag hdag, hdagStage]
  rw [hnodes]
  obtain ⟨order, hsort⟩ := stages_sort hids hbuilt hcycles dag hdag
  refine ⟨⟨order, Topology.topologicalSort_linearExtension
    (nodup_nodeIds hids hbuilt hdag) hsort⟩, ?_⟩
  obtain ⟨na, hna, hida, hra, hwa'⟩ := exists_node_of_module hids hbuilt ha hdag hdagStage.symm
  obtain ⟨nb, hnb, hidb, hrb, hwb'⟩ :=
    exists_node_of_module hids hbuilt hb hdag (hstage ▸ hdagStage.symm)
  have hnodeNe : na ≠ nb := by
    rintro rfl
    exact hne (module_eq_of_id_eq hids ha hb (hida.symm.trans hidb))
  have hpathA : path ∈ na.irWrites := hwa' ▸ hwa
  have hpathB : path ∈ nb.irWrites := hwb' ▸ hwb
  rw [← show na.moduleId = a.id from hida, ← show nb.moduleId = b.id from hidb] at haggregated ⊢
  rw [← show na.irReads = a.irReads from hra, ← show nb.irReads = b.irReads from hrb]
  -- The pass visits the pair in one of the two orders.
  have hwalk : (path ∈ nb.irReads ∧
        TransGen (On (nodeIds dag.nodes) (Points dag.nodes)) na.moduleId nb.moduleId) ∨
      (path ∈ na.irReads ∧
        TransGen (On (nodeIds dag.nodes) (Points dag.nodes)) nb.moduleId na.moduleId) := by
    rcases mem_orderedPairs hna hnb hnodeNe with hpair | hpair
    · exact walk_of_validateWriteConflicts hids hbuilt hwrites hdag hpair hna hnb hpathA hpathB
        haggregated
    · refine (walk_of_validateWriteConflicts hids hbuilt hwrites hdag hpair hnb hna hpathB hpathA
        ?_).symm
      rintro ⟨hsupport, hfb, hfa⟩
      exact haggregated ⟨hsupport, hfa, hfb⟩
  rcases hwalk with ⟨hread, walk⟩ | ⟨hread, walk⟩
  · exact Or.inl ⟨fun order hext => hext.precedes_of_transGen walk, hread⟩
  · exact Or.inr ⟨fun order hext => hext.precedes_of_transGen walk, hread⟩

end Valid

theorem validated_writes_are_ordered_infill :
    ∃ a ∈ infillRequest.modules, ∃ b ∈ infillRequest.modules, a ≠ b ∧
      "InfillIR.paths" ∈ a.irWrites ∧ "InfillIR.paths" ∈ b.irWrites ∧
      ((AlwaysPrecedes (buildIntraStageDag a.stage
            (infillRequest.modules.map LoadedModule.producer)) a.id b.id ∧
          "InfillIR.paths" ∈ b.irReads) ∨
        (AlwaysPrecedes (buildIntraStageDag a.stage
            (infillRequest.modules.map LoadedModule.producer)) b.id a.id ∧
          "InfillIR.paths" ∈ a.irReads)) := by
  have hsmooth : infillRequest.modules[0] ∈ infillRequest.modules := List.getElem_mem _
  have hfiller : infillRequest.modules[1] ∈ infillRequest.modules := List.getElem_mem _
  exact ⟨_, hsmooth, _, hfiller, by decide, by decide, by decide,
    (validated_writes_are_ordered (by decide) infillRequest_builtFrom (by decide) hsmooth hfiller
      (by decide) (by decide) (by decide) (by decide) (by decide)).2⟩

end PinchNPrint.Scheduler
