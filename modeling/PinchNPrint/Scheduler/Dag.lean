/-
The scheduler's data model and intra-stage DAG construction
(`slicer-scheduler`: `manifest.rs`, `stage_order.rs`, `dag.rs`).

`buildIntraStageDag` filters the producers of one stage, makes one node per
producer id, and adds an edge for every IR path one producer writes and another
reads and for every explicit `requires_modules` entry inside the stage. Reasons
accumulate per `(from, to)` pair without duplicates.

Only the fields of a loaded module that scheduling reads are modelled.
`buildIntraStageDag_nodes` is the specification the validator's proofs use: the
nodes are exactly the stage's producers, one per id, in id order.
-/

import PinchNPrint.Lib.Collections

namespace PinchNPrint.Scheduler

open Std

/-- Reverse-domain module identifier. -/
abbrev ModuleId := String

/-- Scheduler stage identifier, such as `Layer::Infill`. -/
abbrev StageId := String

/-- Semantic version. Only comparisons are made, so components are naturals. -/
structure SemVer where
  major : Nat
  minor : Nat
  patch : Nat
deriving DecidableEq

/-- `semver_lt`: lexicographic on the three components. -/
def SemVer.lt (left right : SemVer) : Bool :=
  left.major < right.major ||
    (left.major == right.major && (left.minor < right.minor ||
      (left.minor == right.minor && left.patch < right.patch)))

/-- The part of a module manifest that scheduling reads. -/
structure LoadedModule where
  id : ModuleId
  stage : StageId
  irReads : List String
  irWrites : List String
  claims : List String
  requiresClaims : List String
  incompatibleWith : List String
  requiresModules : List ModuleId
  minHostVersion : SemVer
  minIrSchema : SemVer
  maxIrSchema : SemVer
deriving DecidableEq

/-- Uniform projection over anything that behaves like a scheduled module. -/
structure Producer where
  id : String
  stage : String
  irWrites : List String
  irReads : List String
  claimsHolds : List String
  claimsRequires : List String
  requiresModules : List String
  minIrSchema : SemVer
  maxIrSchema : SemVer
deriving DecidableEq

/-- `impl Producer for LoadedModule`. -/
def LoadedModule.producer (module : LoadedModule) : Producer where
  id := module.id
  stage := module.stage
  irWrites := module.irWrites
  irReads := module.irReads
  claimsHolds := module.claims
  claimsRequires := module.requiresClaims
  requiresModules := module.requiresModules
  minIrSchema := module.minIrSchema
  maxIrSchema := module.maxIrSchema

/-! ### Stage order -/

/-- The authoritative ordered stage list. -/
def STAGE_ORDER : List StageId :=
  [ "PrePass::MeshAnalysis",
    "PrePass::LayerPlanning",
    "PrePass::SeamPlanning",
    "PrePass::PaintSegmentation",
    "PrePass::RegionMapping",
    "PrePass::Slice",
    "PrePass::OverhangAnnotation",
    "PrePass::ShellClassification",
    "PrePass::SupportAnalysis",
    "PrePass::SupportGeometry",
    "Layer::PaintRegionAnnotation",
    "Layer::SlicePostProcess",
    "Layer::Perimeters",
    "Layer::PerimetersPostProcess",
    "Layer::Infill",
    "Layer::InfillPostProcess",
    "Layer::Support",
    "Layer::SupportPostProcess",
    "Layer::AnchoredEvents",
    "Layer::PathOptimization",
    "PostPass::LayerFinalization",
    "PostPass::GCodeEmit",
    "PostPass::GCodePostProcess",
    "PostPass::TextPostProcess" ]

/-- `stage_order_index`: stage id to its position in `STAGE_ORDER`. -/
def stageOrderIndex : BTreeMap StageId Nat :=
  ExtTreeMap.ofList STAGE_ORDER.zipIdx compare

theorem stage_order_nodup : STAGE_ORDER.Nodup := by decide

theorem stageOrderIndex_eq_some_iff {stage : StageId} {index : Nat} :
    stageOrderIndex[stage]? = some index ↔ STAGE_ORDER[index]? = some stage := by
  have hnodup : (STAGE_ORDER.zipIdx.map Prod.fst).Nodup := by
    rw [List.zipIdx_map_fst]
    exact stage_order_nodup
  constructor
  · intro h
    have hmem : stage ∈ STAGE_ORDER.zipIdx.map Prod.fst :=
      BTreeMap.mem_ofList_iff.mp (BTreeMap.mem_iff_getElem?_isSome.mpr ⟨index, h⟩)
    obtain ⟨⟨stage', index'⟩, hpair, rfl⟩ := List.mem_map.mp hmem
    have hsome := BTreeMap.getElem?_ofList_of_nodup hnodup hpair
    have heq : index' = index := Option.some.inj (hsome.symm.trans h)
    exact heq ▸ List.mem_zipIdx_iff_getElem?.mp hpair
  · intro h
    exact BTreeMap.getElem?_ofList_of_nodup hnodup (List.mem_zipIdx_iff_getElem?.mpr h)

theorem mem_stageOrderIndex {stage : StageId} : stage ∈ stageOrderIndex ↔ stage ∈ STAGE_ORDER := by
  rw [stageOrderIndex, BTreeMap.mem_ofList_iff, List.zipIdx_map_fst]

/-! ### Nodes and edges -/

/-- Why one module is placed before another. -/
inductive EdgeReason where
  | irWriteRead (writerPath : String)
  | explicitRequires
deriving DecidableEq

/-- One outgoing edge with every reason it exists. -/
structure EdgeTo where
  dst : ModuleId
  reasons : List EdgeReason
deriving DecidableEq

/-- One module node in an intra-stage dependency graph. -/
structure ModuleNode where
  moduleId : ModuleId
  irReads : List String
  irWrites : List String
  edgesTo : List EdgeTo
deriving DecidableEq

/-- Per-source adjacency keyed by downstream module. -/
abbrev EdgesBySource := BTreeMap ModuleId (BTreeMap ModuleId (List EdgeReason))

/-- Record one reason on the edge `source → target`. A source outside the stage
is ignored; a reason already recorded is not repeated. -/
def EdgesBySource.add (edges : EdgesBySource) (source target : ModuleId) (reason : EdgeReason) :
    EdgesBySource :=
  edges.modify source fun byDst =>
    byDst.alter target fun reasons =>
      let reasons := reasons.getD []
      some (if reasons.contains reason then reasons else reasons ++ [reason])

/-- Edges from IR paths that one producer of the stage writes and another
reads. -/
def writeReadEdges (stageProducers : List Producer) (edges : EdgesBySource) : EdgesBySource :=
  stageProducers.foldl (fun edges writer =>
    stageProducers.foldl (fun edges reader =>
      if writer.id = reader.id then edges
      else writer.irWrites.foldl (fun edges writtenPath =>
        if reader.irReads.contains writtenPath then
          edges.add writer.id reader.id (.irWriteRead writtenPath)
        else edges) edges) edges) edges

/-- Edges from `requires_modules` entries that name a producer of the stage. -/
def requiresEdges (stageProducers : List Producer) (edges : EdgesBySource) : EdgesBySource :=
  stageProducers.foldl (fun edges producer =>
    producer.requiresModules.foldl (fun edges required =>
      edges.add required producer.id .explicitRequires) edges) edges

/-- A node before its edges are known. -/
def ModuleNode.ofProducer (producer : Producer) : ModuleNode where
  moduleId := producer.id
  irReads := producer.irReads
  irWrites := producer.irWrites
  edgesTo := []

/-- The nodes of one stage by id; a repeated id keeps the last producer. -/
def stageNodes (stageProducers : List Producer) : BTreeMap ModuleId ModuleNode :=
  ExtTreeMap.ofList (stageProducers.map fun p => (p.id, ModuleNode.ofProducer p)) compare

/-- Write the collected adjacency into the nodes. -/
def attachEdges (nodes : BTreeMap ModuleId ModuleNode) (edges : EdgesBySource) :
    BTreeMap ModuleId ModuleNode :=
  edges.toList.foldl (fun nodes entry =>
    nodes.modify entry.1 fun node =>
      { node with edgesTo := entry.2.toList.map fun e => ⟨e.1, e.2⟩ }) nodes

/-- `build_intra_stage_dag`. The source's `Result` is never an error, so the
nodes are returned directly. -/
def buildIntraStageDag (stage : StageId) (producers : List Producer) : List ModuleNode :=
  let stageProducers := producers.filter fun p => p.stage == stage
  let nodes := stageNodes stageProducers
  let edgesBySource : EdgesBySource :=
    ExtTreeMap.ofList (nodes.keys.map fun id => (id, ∅)) compare
  let edgesBySource := writeReadEdges stageProducers edgesBySource
  let edgesBySource := requiresEdges stageProducers edgesBySource
  BTreeMap.vals (attachEdges nodes edgesBySource)

/-! ### What the nodes are -/

/-- A node describes a producer when it carries its id and access lists. -/
def ModuleNode.Describes (node : ModuleNode) (producer : Producer) : Prop :=
  node.moduleId = producer.id ∧ node.irReads = producer.irReads ∧
    node.irWrites = producer.irWrites

/-- Attaching edges changes nothing but `edgesTo`. -/
theorem getElem?_attachEdges (nodes : BTreeMap ModuleId ModuleNode) (edges : EdgesBySource)
    (id : ModuleId) :
    ∃ edgesTo : ModuleNode → List EdgeTo,
      (attachEdges nodes edges)[id]? = nodes[id]?.map fun node =>
        { node with edgesTo := edgesTo node } := by
  unfold attachEdges
  induction edges.toList generalizing nodes with
  | nil =>
    refine ⟨ModuleNode.edgesTo, ?_⟩
    rw [List.foldl_nil]
    cases nodes[id]? <;> rfl
  | cons entry rest ih =>
    obtain ⟨f, hf⟩ := ih (nodes.modify entry.1 fun node =>
      { node with edgesTo := entry.2.toList.map fun e => ⟨e.1, e.2⟩ })
    rw [List.foldl_cons, hf, ExtTreeMap.getElem?_modify]
    by_cases hid : entry.1 = id
    · subst hid
      refine ⟨fun node => f { node with edgesTo := entry.2.toList.map fun e => ⟨e.1, e.2⟩ }, ?_⟩
      cases nodes[entry.1]? <;> simp
    · exact ⟨f, by simp [hid]⟩

/-- The nodes of a stage, looked up by id, when producer ids are distinct. -/
theorem getElem?_stageNodes {producers : List Producer}
    (hids : (producers.map Producer.id).Nodup) {id : ModuleId} {node : ModuleNode} :
    (stageNodes producers)[id]? = some node ↔
      ∃ p ∈ producers, p.id = id ∧ node = ModuleNode.ofProducer p := by
  have hnodup : ((producers.map fun p => (p.id, ModuleNode.ofProducer p)).map Prod.fst).Nodup := by
    simpa [List.map_map, Function.comp_def] using hids
  have hlookup : ∀ p ∈ producers,
      (stageNodes producers)[p.id]? = some (ModuleNode.ofProducer p) := fun p hp =>
    BTreeMap.getElem?_ofList_of_nodup hnodup (List.mem_map.mpr ⟨p, hp, rfl⟩)
  constructor
  · intro h
    have hmem : id ∈ (producers.map fun p => (p.id, ModuleNode.ofProducer p)).map Prod.fst :=
      BTreeMap.mem_ofList_iff.mp (BTreeMap.mem_iff_getElem?_isSome.mpr ⟨node, h⟩)
    rw [List.map_map] at hmem
    obtain ⟨p, hp, rfl⟩ := List.mem_map.mp hmem
    exact ⟨p, hp, rfl, Option.some.inj (h.symm.trans (hlookup p hp))⟩
  · rintro ⟨p, hp, rfl, rfl⟩
    exact hlookup p hp

/-- Looking a built node up by id finds it, and only it. -/
theorem getElem?_attachEdges_stageNodes {producers : List Producer}
    (hids : (producers.map Producer.id).Nodup) (edges : EdgesBySource) {id : ModuleId}
    {node : ModuleNode} (h : (attachEdges (stageNodes producers) edges)[id]? = some node) :
    ∃ p ∈ producers, p.id = id ∧ node.Describes p := by
  obtain ⟨f, hf⟩ := getElem?_attachEdges (stageNodes producers) edges id
  rw [h] at hf
  obtain ⟨node', hnode', heq⟩ := Option.map_eq_some_iff.mp hf.symm
  obtain ⟨p, hp, hid, rfl⟩ := (getElem?_stageNodes hids).mp hnode'
  subst heq
  exact ⟨p, hp, hid, rfl, rfl, rfl⟩

/-- **The nodes of a stage DAG.** With distinct producer ids, the nodes have
distinct ids, each describes a producer of the stage, and each producer of the
stage has a node. -/
theorem buildIntraStageDag_nodes {producers : List Producer}
    (hids : (producers.map Producer.id).Nodup) (stage : StageId) :
    ((buildIntraStageDag stage producers).map ModuleNode.moduleId).Nodup ∧
      (∀ node ∈ buildIntraStageDag stage producers,
        ∃ p ∈ producers, p.stage = stage ∧ node.Describes p) ∧
      ∀ p ∈ producers, p.stage = stage →
        ∃ node ∈ buildIntraStageDag stage producers, node.Describes p := by
  have hids' : ((producers.filter fun p => p.stage == stage).map Producer.id).Nodup :=
    hids.sublist (List.filter_sublist.map _)
  obtain ⟨edges, hdag⟩ : ∃ edges, buildIntraStageDag stage producers = BTreeMap.vals
      (attachEdges (stageNodes (producers.filter fun p => p.stage == stage)) edges) := ⟨_, rfl⟩
  rw [hdag]
  generalize hnodes : attachEdges _ edges = nodes
  have hnode : ∀ (id : ModuleId) (node : ModuleNode), nodes[id]? = some node →
      ∃ p ∈ producers, p.stage = stage ∧ p.id = id ∧ node.Describes p := by
    intro id node h
    rw [← hnodes] at h
    obtain ⟨p, hp, hid, hdesc⟩ := getElem?_attachEdges_stageNodes hids' edges h
    obtain ⟨hp, hstage⟩ := List.mem_filter.mp hp
    exact ⟨p, hp, by simpa using hstage, hid, hdesc⟩
  refine ⟨?_, ?_, ?_⟩
  · -- The node at key `id` carries `moduleId = id`, so ids are the map's keys.
    have hkeys : (BTreeMap.vals nodes).map ModuleNode.moduleId = nodes.keys := by
      rw [BTreeMap.vals, List.map_map, ← ExtTreeMap.map_fst_toList_eq_keys]
      refine List.map_congr_left fun entry hentry => ?_
      obtain ⟨p, _, _, hid, hdesc⟩ := hnode entry.1 entry.2
        (ExtTreeMap.mem_toList_iff_getElem?_eq_some.mp hentry)
      exact hdesc.1.trans hid
    rw [hkeys]
    exact ExtTreeMap.nodup_keys
  · intro node hmem
    obtain ⟨id, h⟩ := BTreeMap.mem_vals.mp hmem
    obtain ⟨p, hp, hstage, _, hdesc⟩ := hnode id node h
    exact ⟨p, hp, hstage, hdesc⟩
  · intro p hp hstage
    have hp' : p ∈ producers.filter fun p => p.stage == stage :=
      List.mem_filter.mpr ⟨hp, by simpa using hstage⟩
    have hsome := (getElem?_stageNodes hids').mpr ⟨p, hp', rfl, rfl⟩
    obtain ⟨f, hf⟩ := getElem?_attachEdges (stageNodes (producers.filter fun p => p.stage == stage))
      edges p.id
    rw [hsome, hnodes] at hf
    exact ⟨_, BTreeMap.mem_vals.mpr ⟨p.id, hf⟩, rfl, rfl, rfl⟩

end PinchNPrint.Scheduler
