/-
The three builders of serial edges (`slicer-scheduler`: `dag.rs`,
`instrumentation.rs`).

The write/read rule and the explicit-requires rule are written three times: for
the DAG of one stage, for the edges of all producers, and for the edges a report
shows for the modules of one stage. `Serial` states the two rules once, as a
relation, and each builder carries exactly the triples it relates
(`dag_carries_iff`, `globalEdges_iff`, `serialEdges_iff`).
-/

import PinchNPrint.Scheduler.Dag
import Mathlib.Data.List.Sort

namespace PinchNPrint.Scheduler

open Std

/-! ### The other two builders -/

structure GlobalEdge where
  src : ModuleId
  srcStage : StageId
  dst : ModuleId
  dstStage : StageId
  reason : EdgeReason
deriving DecidableEq

structure SerialEdge where
  src : ModuleId
  dst : ModuleId
  reason : EdgeReason
deriving DecidableEq

def reasonTag : EdgeReason → Nat
  | .irWriteRead _ => 0
  | .explicitRequires => 1

/-- The order both edge lists are sorted by: source, target, tag, written path. -/
def edgeCmp (left right : ModuleId × ModuleId × EdgeReason) : Ordering :=
  (compare left.1 right.1).then <|
    (compare left.2.1 right.2.1).then <|
      (compare (reasonTag left.2.2) (reasonTag right.2.2)).then <|
        match left.2.2, right.2.2 with
        | .irWriteRead leftPath, .irWriteRead rightPath => compare leftPath rightPath
        | _, _ => .eq

def buildGlobalDag (producers : List Producer) : List GlobalEdge :=
  let writeRead := producers.flatMap fun writer => producers.flatMap fun reader =>
    if writer.id = reader.id then []
    else writer.irWrites.filterMap fun writtenPath =>
      if reader.irReads.contains writtenPath then
        some ⟨writer.id, writer.stage, reader.id, reader.stage, .irWriteRead writtenPath⟩
      else none
  let requires := producers.flatMap fun producer =>
    producer.requiresModules.filterMap fun required =>
      (producers.find? fun p => p.id == required).map fun req =>
        ⟨req.id, req.stage, producer.id, producer.stage, .explicitRequires⟩
  (writeRead ++ requires).insertionSort fun a b =>
    (edgeCmp (a.src, a.dst, a.reason) (b.src, b.dst, b.reason)).isLE = true

def computeSerialEdgesForStage (modules : List LoadedModule) : List SerialEdge :=
  let writeRead := modules.flatMap fun writer => modules.flatMap fun reader =>
    if writer.id = reader.id then []
    else writer.irWrites.filterMap fun writtenPath =>
      if reader.irReads.contains writtenPath then
        some ⟨writer.id, reader.id, .irWriteRead writtenPath⟩
      else none
  let requires := modules.flatMap fun module =>
    module.requiresModules.filterMap fun required =>
      if modules.any fun m => m.id == required then
        some ⟨required, module.id, .explicitRequires⟩
      else none
  (writeRead ++ requires).insertionSort fun a b =>
    (edgeCmp (a.src, a.dst, a.reason) (b.src, b.dst, b.reason)).isLE = true

/-! ### The rules -/

/-- One of the two rules puts `src` before `dst`, for the given reason. -/
inductive Serial (producers : List Producer) : ModuleId → ModuleId → EdgeReason → Prop
  | writeRead {writer reader : Producer} (hwriter : writer ∈ producers)
      (hreader : reader ∈ producers) (hne : writer.id ≠ reader.id) {path : String}
      (hwrites : path ∈ writer.irWrites) (hreads : path ∈ reader.irReads) :
      Serial producers writer.id reader.id (.irWriteRead path)
  | requires {required producer : Producer} (hrequired : required ∈ producers)
      (hproducer : producer ∈ producers) (hrequires : required.id ∈ producer.requiresModules) :
      Serial producers required.id producer.id .explicitRequires

variable {dst src : ModuleId} {reason : EdgeReason} {producers : List Producer} {stage : StageId}
  {edges : EdgesBySource}

/-- The loops of the write/read rule, over whatever a builder walks. -/
theorem mem_writeRead_iff {α E : Type} {items : List α} {id : α → ModuleId}
    {writes reads : α → List String} {edge : α → α → String → E} {e : E} :
    e ∈ items.flatMap (fun writer => items.flatMap fun reader =>
      if id writer = id reader then []
      else (writes writer).filterMap fun path =>
        if (reads reader).contains path then some (edge writer reader path) else none) ↔
      ∃ writer ∈ items, ∃ reader ∈ items, id writer ≠ id reader ∧
        ∃ path ∈ writes writer, path ∈ reads reader ∧ edge writer reader path = e := by
  simp only [List.mem_flatMap]
  refine exists_congr fun writer => and_congr_right fun _ => exists_congr fun reader =>
    and_congr_right fun _ => ?_
  split <;> simp [*]

theorem serialEdges_iff {modules : List LoadedModule} :
    ⟨src, dst, reason⟩ ∈ computeSerialEdgesForStage modules ↔
      Serial (modules.map LoadedModule.producer) src dst reason := by
  rw [computeSerialEdgesForStage, List.mem_insertionSort, List.mem_append, mem_writeRead_iff]
  constructor
  · rintro (⟨writer, hwriter, reader, hreader, hne, path, hpath, hreads, hedge⟩ | h)
    · cases hedge
      exact .writeRead (List.mem_map_of_mem hwriter) (List.mem_map_of_mem hreader) hne hpath hreads
    · obtain ⟨module, hmodule, h⟩ := List.mem_flatMap.mp h
      obtain ⟨required, hrequired, h⟩ := List.mem_filterMap.mp h
      split at h
      · rename_i hany
        cases h
        obtain ⟨found, hfound, hid⟩ := List.any_eq_true.mp hany
        obtain rfl := beq_iff_eq.mp hid
        have hin : found.producer ∈ modules.map LoadedModule.producer :=
          List.mem_map_of_mem hfound
        exact .requires hin (List.mem_map_of_mem hmodule) hrequired
      · cases h
  · intro h
    cases h with
    | @writeRead _ _ hinWriter hinReader hne path hwrites hreads =>
      obtain ⟨writer, hwriter, rfl⟩ := List.mem_map.mp hinWriter
      obtain ⟨reader, hreader, rfl⟩ := List.mem_map.mp hinReader
      exact .inl ⟨writer, hwriter, reader, hreader, hne, path, hwrites, hreads, rfl⟩
    | requires hinRequired hinProducer hrequires =>
      obtain ⟨required, hrequired, rfl⟩ := List.mem_map.mp hinRequired
      obtain ⟨module, hmodule, rfl⟩ := List.mem_map.mp hinProducer
      have hany : (modules.any fun m => m.id == required.id) = true :=
        List.any_eq_true.mpr ⟨required, hrequired, beq_self_eq_true _⟩
      refine .inr (List.mem_flatMap.mpr ⟨module, hmodule, List.mem_filterMap.mpr
        ⟨required.id, hrequires, ?_⟩⟩)
      rw [if_pos hany]
      rfl

/-- The edges of the whole set that stay inside one stage are the edges of the
stage's producers. -/
theorem globalEdges_iff (hids : (producers.map Producer.id).Nodup) :
    ⟨src, stage, dst, stage, reason⟩ ∈ buildGlobalDag producers ↔
      Serial (producers.filter fun p => p.stage == stage) src dst reason := by
  have hstage : ∀ {p : Producer}, p ∈ producers.filter (fun p => p.stage == stage) ↔
      p ∈ producers ∧ p.stage = stage := by
    intro p
    simp
  rw [buildGlobalDag, List.mem_insertionSort, List.mem_append, mem_writeRead_iff]
  constructor
  · rintro (⟨writer, hwriter, reader, hreader, hne, path, hpath, hreads, hedge⟩ | h)
    · obtain ⟨rfl, hwriterStage, rfl, hreaderStage, rfl⟩ := GlobalEdge.mk.inj hedge
      exact .writeRead (hstage.mpr ⟨hwriter, hwriterStage⟩)
        (hstage.mpr ⟨hreader, hreaderStage⟩) hne hpath hreads
    · obtain ⟨producer, hproducer, h⟩ := List.mem_flatMap.mp h
      obtain ⟨required, hrequired, h⟩ := List.mem_filterMap.mp h
      obtain ⟨found, hfind, h⟩ := Option.map_eq_some_iff.mp h
      obtain ⟨rfl, hfoundStage, rfl, hproducerStage, rfl⟩ := GlobalEdge.mk.inj h
      have hid : found.id = required := by simpa using List.find?_some hfind
      exact .requires (hstage.mpr ⟨List.mem_of_find?_eq_some hfind, hfoundStage⟩)
        (hstage.mpr ⟨hproducer, hproducerStage⟩) (hid ▸ hrequired)
  · intro h
    cases h with
    | @writeRead writer reader hwriter hreader hne path hwrites hreads =>
      obtain ⟨hwriter, hwriterStage⟩ := hstage.mp hwriter
      obtain ⟨hreader, hreaderStage⟩ := hstage.mp hreader
      refine .inl ⟨writer, hwriter, reader, hreader, hne, path, hwrites, hreads, ?_⟩
      rw [hwriterStage, hreaderStage]
    | @requires required producer hrequired hproducer hrequires =>
      obtain ⟨hrequired, hrequiredStage⟩ := hstage.mp hrequired
      obtain ⟨hproducer, hproducerStage⟩ := hstage.mp hproducer
      refine .inr (List.mem_flatMap.mpr ⟨producer, hproducer, List.mem_filterMap.mpr
        ⟨required.id, hrequires, ?_⟩⟩)
      rw [List.find?_key_eq_some hids hrequired, Option.map_some, hrequiredStage, hproducerStage]

/-! ### The DAG of a stage -/

/-- The adjacency records a reason on an edge. -/
def EdgesBySource.Has (edges : EdgesBySource) (src dst : ModuleId) (reason : EdgeReason) : Prop :=
  ∃ byDst, edges[src]? = some byDst ∧ reason ∈ (byDst[dst]?).getD []

/-- No edge of the adjacency records a reason twice, or no reason at all. -/
def EdgesBySource.Distinct (edges : EdgesBySource) : Prop :=
  ∀ (src dst : ModuleId) byDst reasons, edges[src]? = some byDst → byDst[dst]? = some reasons →
    reasons.Nodup ∧ reasons ≠ []

/-- The two rules as a list of triples, in the order in which they are recorded. -/
def serialTriples (producers : List Producer) : List (ModuleId × ModuleId × EdgeReason) :=
  (producers.flatMap fun writer => producers.flatMap fun reader =>
    if writer.id = reader.id then []
    else writer.irWrites.filterMap fun writtenPath =>
      if reader.irReads.contains writtenPath then
        some (writer.id, reader.id, EdgeReason.irWriteRead writtenPath)
      else none) ++
  producers.flatMap fun producer => producer.requiresModules.map fun required =>
    (required, producer.id, EdgeReason.explicitRequires)

/-- Record one triple. -/
def EdgesBySource.addTriple (edges : EdgesBySource) (triple : ModuleId × ModuleId × EdgeReason) :
    EdgesBySource :=
  edges.add triple.1 triple.2.1 triple.2.2

theorem recordedEdges_eq (producers : List Producer) (edges : EdgesBySource) :
    requiresEdges producers (writeReadEdges producers edges) =
      (serialTriples producers).foldl EdgesBySource.addTriple edges := by
  have hpaths : ∀ (writer reader : Producer) (edges : EdgesBySource),
      (writer.irWrites.foldl (fun edges writtenPath =>
        if reader.irReads.contains writtenPath then
          edges.add writer.id reader.id (.irWriteRead writtenPath)
        else edges) edges) =
      (writer.irWrites.filterMap fun writtenPath =>
        if reader.irReads.contains writtenPath then
          some (writer.id, reader.id, EdgeReason.irWriteRead writtenPath)
        else none).foldl EdgesBySource.addTriple edges := by
    intro writer reader edges
    rw [List.foldl_filterMap]
    congr 1
    funext edges writtenPath
    split <;> rfl
  rw [serialTriples, List.foldl_append, List.foldl_flatMap, List.foldl_flatMap]
  simp only [List.foldl_flatMap, List.foldl_map]
  unfold requiresEdges writeReadEdges
  congr 1
  congr 1
  funext edges writer
  congr 1
  funext edges reader
  split
  · rfl
  · exact hpaths writer reader edges

/-- What recording a triple leaves under a source. -/
theorem getElem?_add (edges : EdgesBySource) (source target : ModuleId) (reason : EdgeReason)
    (src : ModuleId) :
    (edges.add source target reason)[src]? =
      if source = src then
        edges[src]?.map fun byDst => byDst.alter target fun reasons =>
          some (if (reasons.getD []).contains reason then reasons.getD []
            else reasons.getD [] ++ [reason])
      else edges[src]? := by
  rw [EdgesBySource.add, ExtTreeMap.getElem?_modify]
  by_cases hsource : source = src
  · subst hsource
    simp
  · simp [hsource]

theorem mem_add_iff {source target id : ModuleId} :
    id ∈ edges.add source target reason ↔ id ∈ edges := by
  rw [BTreeMap.mem_iff_getElem?_isSome, BTreeMap.mem_iff_getElem?_isSome, getElem?_add]
  split
  · cases edges[id]? <;> simp
  · rfl

/-- Recording a triple of a listed source adds exactly that triple. -/
theorem has_add_iff {source target : ModuleId} {added : EdgeReason} :
    (edges.add source target added).Has src dst reason ↔
      edges.Has src dst reason ∨
        (source ∈ edges ∧ source = src ∧ target = dst ∧ added = reason) := by
  unfold EdgesBySource.Has
  rw [getElem?_add, BTreeMap.mem_iff_getElem?_isSome]
  by_cases hsource : source = src
  · subst hsource
    rw [if_pos rfl]
    cases edges[source]? with
    | none => simp
    | some byDst =>
      simp only [Option.map_some, Option.some_inj, exists_eq_left', ExtTreeMap.getElem?_alter]
      by_cases htarget : target = dst
      · subst htarget
        simp only [compare_self, if_true, Option.getD_some, exists_eq', true_and]
        split
        · rename_i hmem
          have hmem := List.contains_iff_mem.mp hmem
          constructor
          · exact .inl
          · rintro (h | rfl)
            · exact h
            · exact hmem
        · rw [List.mem_append, List.mem_singleton, eq_comm (a := reason)]
      · simp [htarget]
  · simp [hsource]

theorem distinct_add (h : edges.Distinct) (source target : ModuleId) (reason : EdgeReason) :
    (edges.add source target reason).Distinct := by
  intro src dst byDst reasons hsrc hdst
  rw [getElem?_add] at hsrc
  split at hsrc
  · obtain ⟨old, hold, rfl⟩ := Option.map_eq_some_iff.mp hsrc
    rw [ExtTreeMap.getElem?_alter] at hdst
    by_cases htarget : target = dst
    · subst htarget
      simp only [compare_self, if_true, Option.some_inj] at hdst
      subst hdst
      have hnodup : ((old[target]?).getD []).Nodup := by
        cases hreasons : old[target]? with
        | none => simp
        | some reasons => exact (h src target old reasons hold hreasons).1
      split
      · rename_i hmem
        exact ⟨hnodup, List.ne_nil_of_mem (List.contains_iff_mem.mp hmem)⟩
      · rename_i hfresh
        rw [← List.concat_eq_append]
        exact ⟨hnodup.concat fun hmem => hfresh (List.contains_iff_mem.mpr hmem), by simp⟩
    · simp only [Std.compare_eq_iff_eq, htarget, if_false] at hdst
      exact h src dst old reasons hold hdst
  · exact h src dst byDst reasons hsrc hdst

/-- Recording a list of triples: the sources stay, the reasons stay distinct, and
exactly the triples of listed sources are added. -/
theorem foldl_addTriple (triples : List (ModuleId × ModuleId × EdgeReason))
    (edges : EdgesBySource) :
    (∀ id, id ∈ triples.foldl EdgesBySource.addTriple edges ↔ id ∈ edges) ∧
      (edges.Distinct → (triples.foldl EdgesBySource.addTriple edges).Distinct) ∧
      ∀ src dst reason, (triples.foldl EdgesBySource.addTriple edges).Has src dst reason ↔
        edges.Has src dst reason ∨ (src ∈ edges ∧ (src, dst, reason) ∈ triples) := by
  induction triples generalizing edges with
  | nil => exact ⟨fun id => .rfl, id, fun src dst reason => by simp⟩
  | cons triple rest ih =>
    obtain ⟨source, target, added⟩ := triple
    obtain ⟨hsources, hdistinct, hhas⟩ := ih (edges.addTriple (source, target, added))
    refine ⟨fun id => (hsources id).trans mem_add_iff,
      fun h => hdistinct (distinct_add h source target added), fun src dst reason => ?_⟩
    rw [List.foldl_cons, hhas, EdgesBySource.addTriple, has_add_iff, mem_add_iff, List.mem_cons,
      Prod.mk.injEq, Prod.mk.injEq, or_assoc]
    refine or_congr_right ?_
    constructor
    · rintro (⟨hmem, rfl, rfl, rfl⟩ | ⟨hmem, hrest⟩)
      · exact ⟨hmem, .inl ⟨rfl, rfl, rfl⟩⟩
      · exact ⟨hmem, .inr hrest⟩
    · rintro ⟨hmem, ⟨rfl, rfl, rfl⟩ | hrest⟩
      · exact .inl ⟨hmem, rfl, rfl, rfl⟩
      · exact .inr ⟨hmem, hrest⟩

theorem mem_serialTriples (hsrc : src ∈ producers.map Producer.id) :
    (src, dst, reason) ∈ serialTriples producers ↔ Serial producers src dst reason := by
  rw [serialTriples, List.mem_append, mem_writeRead_iff]
  constructor
  · rintro (⟨writer, hwriter, reader, hreader, hne, path, hpath, hreads, hedge⟩ | h)
    · cases hedge
      exact .writeRead hwriter hreader hne hpath hreads
    · obtain ⟨producer, hproducer, h⟩ := List.mem_flatMap.mp h
      obtain ⟨required, hrequired, heq⟩ := List.mem_map.mp h
      cases heq
      obtain ⟨found, hfound, rfl⟩ := List.mem_map.mp hsrc
      exact .requires hfound hproducer hrequired
  · intro h
    cases h with
    | @writeRead writer reader hwriter hreader hne path hwrites hreads =>
      exact .inl ⟨writer, hwriter, reader, hreader, hne, path, hwrites, hreads, rfl⟩
    | @requires required producer hrequired hproducer hrequires =>
      exact .inr (List.mem_flatMap.mpr ⟨producer, hproducer,
        List.mem_map.mpr ⟨required.id, hrequires, rfl⟩⟩)

/-- The outgoing edges a node gets. -/
def edgesToOf (edges : EdgesBySource) (id : ModuleId) : List EdgeTo :=
  ((edges[id]?).getD ∅).toList.map fun entry => ⟨entry.1, entry.2⟩

theorem getElem?_attachEdges_of_mem (nodes : BTreeMap ModuleId ModuleNode) {id : ModuleId}
    (hid : id ∈ edges) :
    (attachEdges nodes edges)[id]? = nodes[id]?.map fun node =>
      { node with edgesTo := edgesToOf edges id } := by
  obtain ⟨byDst, hbyDst⟩ := BTreeMap.mem_iff_getElem?_isSome.mp hid
  have hentry := ExtTreeMap.mem_toList_iff_getElem?_eq_some.mpr hbyDst
  have hkeys : (edges.toList.map Prod.fst).Nodup := by
    rw [ExtTreeMap.map_fst_toList_eq_keys]
    exact ExtTreeMap.nodup_keys
  have hedges : edgesToOf edges id = byDst.toList.map fun entry => ⟨entry.1, entry.2⟩ := by
    rw [edgesToOf, hbyDst, Option.getD_some]
  rw [hedges, attachEdges]
  -- The entries of other ids change nothing here, before or after the one of `id`.
  have hother : ∀ (entries : List (ModuleId × BTreeMap ModuleId (List EdgeReason)))
      (nodes : BTreeMap ModuleId ModuleNode), id ∉ entries.map Prod.fst →
      (entries.foldl (fun nodes entry => nodes.modify entry.1 fun node =>
        { node with edgesTo := entry.2.toList.map fun e => ⟨e.1, e.2⟩ }) nodes)[id]? =
        nodes[id]? := by
    intro entries
    induction entries with
    | nil =>
      intro nodes _
      rfl
    | cons entry rest ih =>
      intro nodes hnot
      rw [List.map_cons, List.mem_cons, not_or] at hnot
      rw [List.foldl_cons, ih _ hnot.2, ExtTreeMap.getElem?_modify]
      simp [Ne.symm hnot.1]
  obtain ⟨before, after, hsplit⟩ := List.append_of_mem hentry
  rw [hsplit] at hkeys ⊢
  rw [List.map_append, List.map_cons, List.nodup_append, List.nodup_cons] at hkeys
  rw [List.foldl_append, List.foldl_cons, hother after _ hkeys.2.1.1, ExtTreeMap.getElem?_modify]
  have hbefore : id ∉ before.map Prod.fst := fun hmem =>
    hkeys.2.2 id hmem id List.mem_cons_self rfl
  simp only [compare_self, if_true]
  rw [hother before nodes hbefore]

/-- A DAG carries a triple: one of its nodes has an edge with that reason. -/
def DagCarries (nodes : List ModuleNode) (src dst : ModuleId) (reason : EdgeReason) : Prop :=
  ∃ node ∈ nodes, node.moduleId = src ∧ ∃ edge ∈ node.edgesTo, edge.dst = dst ∧
    reason ∈ edge.reasons

/-- The adjacency a stage DAG is built from. -/
def stageEdges (stageProducers : List Producer) : EdgesBySource :=
  requiresEdges stageProducers (writeReadEdges stageProducers
    (ExtTreeMap.ofList ((stageNodes stageProducers).keys.map fun id => (id, ∅)) compare))

theorem buildIntraStageDag_eq (stage : StageId) (producers : List Producer) :
    buildIntraStageDag stage producers =
      BTreeMap.vals (attachEdges (stageNodes (producers.filter fun p => p.stage == stage))
        (stageEdges (producers.filter fun p => p.stage == stage))) :=
  rfl

/-- The adjacency of a stage: its sources are the stage's producers, it records the
triples of the two rules, and each of them once. -/
theorem stageEdges_spec (stageProducers : List Producer) :
    (∀ id, id ∈ stageEdges stageProducers ↔ id ∈ stageProducers.map Producer.id) ∧
      (stageEdges stageProducers).Distinct ∧
      ∀ src dst reason, (stageEdges stageProducers).Has src dst reason ↔
        Serial stageProducers src dst reason := by
  let start : EdgesBySource :=
    ExtTreeMap.ofList ((stageNodes stageProducers).keys.map fun id => (id, ∅)) compare
  have hstart : ∀ id, id ∈ start ↔ id ∈ stageProducers.map Producer.id := by
    intro id
    rw [BTreeMap.mem_ofList_iff, List.map_map, Function.comp_def, List.map_id', ExtTreeMap.mem_keys,
      stageNodes, BTreeMap.mem_ofList_iff, List.map_map]
    rfl
  have hblank : ∀ {id : ModuleId} {byDst : BTreeMap ModuleId (List EdgeReason)},
      start[id]? = some byDst → byDst = ∅ := by
    intro id byDst h
    obtain ⟨id', -, heq⟩ := List.mem_map.mp (BTreeMap.mem_of_getElem?_ofList h)
    exact (Prod.mk.inj heq).2.symm
  have hdistinct : start.Distinct := by
    intro src dst byDst reasons hsrc hdst
    rw [hblank hsrc] at hdst
    simp at hdst
  have hnothing : ∀ src dst reason, ¬ start.Has src dst reason := by
    rintro src dst reason ⟨byDst, hsrc, hreason⟩
    rw [hblank hsrc] at hreason
    simp at hreason
  obtain ⟨hsources, hkeeps, hhas⟩ := foldl_addTriple (serialTriples stageProducers) start
  have hedges : stageEdges stageProducers =
      (serialTriples stageProducers).foldl EdgesBySource.addTriple start :=
    recordedEdges_eq stageProducers start
  rw [hedges]
  refine ⟨fun id => (hsources id).trans (hstart id), hkeeps hdistinct, fun src dst reason => ?_⟩
  rw [hhas, or_iff_right (hnothing src dst reason), hstart]
  constructor
  · rintro ⟨hsrc, hmem⟩
    exact (mem_serialTriples hsrc).mp hmem
  · intro h
    have hsrc : src ∈ stageProducers.map Producer.id := by
      cases h with
      | writeRead hwriter => exact List.mem_map_of_mem hwriter
      | requires hrequired => exact List.mem_map_of_mem hrequired
    exact ⟨hsrc, (mem_serialTriples hsrc).mpr h⟩

theorem edgesTo_of_mem (hids : (producers.map Producer.id).Nodup) {node : ModuleNode}
    (h : node ∈ buildIntraStageDag stage producers) :
    node.edgesTo = edgesToOf (stageEdges (producers.filter fun p => p.stage == stage))
      node.moduleId := by
  have hids' : ((producers.filter fun p => p.stage == stage).map Producer.id).Nodup :=
    hids.sublist (List.filter_sublist.map _)
  rw [buildIntraStageDag_eq] at h
  obtain ⟨id, hlookup⟩ := BTreeMap.mem_vals.mp h
  obtain ⟨p, hp, rfl, hdescribes⟩ := getElem?_attachEdges_stageNodes hids' _ hlookup
  have hmem := ((stageEdges_spec (producers.filter fun p => p.stage == stage)).1 p.id).mpr
    (List.mem_map_of_mem hp)
  rw [getElem?_attachEdges_of_mem _ hmem] at hlookup
  obtain ⟨blank, -, rfl⟩ := Option.map_eq_some_iff.mp hlookup
  rw [hdescribes.1]

/-- The edges of one node go to distinct modules, each with distinct reasons. -/
theorem edgesToOf_distinct (h : edges.Distinct) (id : ModuleId) :
    ((edgesToOf edges id).map EdgeTo.dst).Nodup ∧
      ∀ edge ∈ edgesToOf edges id, edge.reasons.Nodup ∧ edge.reasons ≠ [] := by
  constructor
  · rw [edgesToOf, List.map_map]
    have hkeys := ExtTreeMap.nodup_keys (t := (edges[id]?).getD ∅)
    rwa [← ExtTreeMap.map_fst_toList_eq_keys] at hkeys
  · intro edge hedge
    obtain ⟨⟨dst, reasons⟩, hentry, rfl⟩ := List.mem_map.mp hedge
    have hdst := ExtTreeMap.mem_toList_iff_getElem?_eq_some.mp hentry
    cases hid : edges[id]? with
    | none =>
      rw [hid] at hdst
      simp at hdst
    | some byDst =>
      rw [hid] at hdst
      exact h id dst byDst reasons hid hdst

theorem mem_edgesToOf :
    (∃ edge ∈ edgesToOf edges src, edge.dst = dst ∧ reason ∈ edge.reasons) ↔
      edges.Has src dst reason := by
  simp only [edgesToOf, EdgesBySource.Has, List.mem_map]
  constructor
  · rintro ⟨edge, ⟨⟨dst', reasons⟩, hentry, rfl⟩, rfl, hreason⟩
    have hdst := ExtTreeMap.mem_toList_iff_getElem?_eq_some.mp hentry
    cases hsrc : edges[src]? with
    | none =>
      rw [hsrc] at hdst
      simp at hdst
    | some byDst =>
      rw [hsrc, Option.getD_some] at hdst
      exact ⟨byDst, rfl, by simpa [hdst] using hreason⟩
  · rintro ⟨byDst, hsrc, hreason⟩
    cases hdst : byDst[dst]? with
    | none =>
      rw [hdst] at hreason
      cases hreason
    | some reasons =>
      rw [hdst, Option.getD_some] at hreason
      refine ⟨⟨dst, reasons⟩, ⟨(dst, reasons), ?_, rfl⟩, rfl, hreason⟩
      rw [hsrc]
      exact ExtTreeMap.mem_toList_iff_getElem?_eq_some.mpr hdst

/-- A stage DAG carries exactly the triples of the two rules. -/
theorem dag_carries_iff (hids : (producers.map Producer.id).Nodup) :
    DagCarries (buildIntraStageDag stage producers) src dst reason ↔
      Serial (producers.filter fun p => p.stage == stage) src dst reason := by
  obtain ⟨hsources, -, hserial⟩ := stageEdges_spec (producers.filter fun p => p.stage == stage)
  rw [← hserial, ← mem_edgesToOf]
  constructor
  · rintro ⟨node, hnode, rfl, hedge⟩
    rwa [edgesTo_of_mem hids hnode] at hedge
  · intro hedge
    obtain ⟨byDst, hbyDst, -⟩ := mem_edgesToOf.mp hedge
    have hsrc := (hsources src).mp (BTreeMap.mem_iff_getElem?_isSome.mpr ⟨byDst, hbyDst⟩)
    obtain ⟨p, hp, rfl⟩ := List.mem_map.mp hsrc
    obtain ⟨hp, hstage⟩ := List.mem_filter.mp hp
    obtain ⟨node, hnode, hid, -⟩ :=
      (buildIntraStageDag_nodes hids stage).2.2 p hp (by simpa using hstage)
    refine ⟨node, hnode, hid, ?_⟩
    rwa [edgesTo_of_mem hids hnode, hid]

/-- **The three edge builders agree.** For producers with distinct ids, the DAG of a
stage, the edges of all producers that stay in the stage and the serial edges of the
stage's modules are the same triples; in the DAG a pair of modules has one edge, with
distinct reasons. -/
theorem edge_builders_agree (producers : List Producer) (hids : (producers.map Producer.id).Nodup)
    (stage : StageId) (modules : List LoadedModule)
    (hmodules : modules.map LoadedModule.producer = producers.filter fun p => p.stage == stage) :
    (∀ src dst reason,
      (DagCarries (buildIntraStageDag stage producers) src dst reason ↔
        ⟨src, stage, dst, stage, reason⟩ ∈ buildGlobalDag producers) ∧
      (DagCarries (buildIntraStageDag stage producers) src dst reason ↔
        ⟨src, dst, reason⟩ ∈ computeSerialEdgesForStage modules)) ∧
    ((buildIntraStageDag stage producers).map ModuleNode.moduleId).Nodup ∧
    ∀ node ∈ buildIntraStageDag stage producers, (node.edgesTo.map EdgeTo.dst).Nodup ∧
      ∀ edge ∈ node.edgesTo, edge.reasons.Nodup := by
  refine ⟨fun src dst reason => ⟨?_, ?_⟩, (buildIntraStageDag_nodes hids stage).1, ?_⟩
  · rw [dag_carries_iff hids, globalEdges_iff hids]
  · rw [dag_carries_iff hids, serialEdges_iff, hmodules]
  · intro node hnode
    rw [edgesTo_of_mem hids hnode]
    obtain ⟨-, hdistinct, -⟩ := stageEdges_spec (producers.filter fun p => p.stage == stage)
    obtain ⟨hdst, hreasons⟩ := edgesToOf_distinct hdistinct node.moduleId
    exact ⟨hdst, fun edge hedge => (hreasons edge hedge).1⟩

/-- Two modules ordered for two reasons, one of which requires itself, and one of
another stage. -/
def orderedModules : List LoadedModule :=
  [ { id := "m.walls", stage := "Layer::Perimeters", irReads := [], irWrites := ["PerimeterIR"]
      claims := [], requiresClaims := [], incompatibleWith := [], requiresModules := []
      minHostVersion := ⟨0, 1, 0⟩, minIrSchema := ⟨1, 0, 0⟩, maxIrSchema := ⟨2, 0, 0⟩ },
    { id := "m.smooth", stage := "Layer::Perimeters", irReads := ["PerimeterIR"], irWrites := []
      claims := [], requiresClaims := [], incompatibleWith := []
      requiresModules := ["m.walls", "m.smooth", "m.absent"]
      minHostVersion := ⟨0, 1, 0⟩, minIrSchema := ⟨1, 0, 0⟩, maxIrSchema := ⟨2, 0, 0⟩ },
    { id := "m.infill", stage := "Layer::Infill", irReads := ["PerimeterIR"], irWrites := []
      claims := [], requiresClaims := [], incompatibleWith := [], requiresModules := ["m.walls"]
      minHostVersion := ⟨0, 1, 0⟩, minIrSchema := ⟨1, 0, 0⟩, maxIrSchema := ⟨2, 0, 0⟩ } ]

theorem edge_builders_agree_perimeters :
    DagCarries (buildIntraStageDag "Layer::Perimeters"
        (orderedModules.map LoadedModule.producer)) "m.smooth" "m.smooth" .explicitRequires ∧
      DagCarries (buildIntraStageDag "Layer::Perimeters"
        (orderedModules.map LoadedModule.producer)) "m.walls" "m.smooth"
          (.irWriteRead "PerimeterIR") := by
  obtain ⟨hagree, -⟩ := edge_builders_agree (orderedModules.map LoadedModule.producer) (by decide)
    "Layer::Perimeters" (orderedModules.take 2) (by decide)
  exact ⟨(hagree _ _ _).2.mpr (by decide), (hagree _ _ _).2.mpr (by decide)⟩

end PinchNPrint.Scheduler
