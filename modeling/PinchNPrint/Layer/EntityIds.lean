/-
A whole run of the layers, and the ids of its rows (`slicer-runtime`:
`layer_executor.rs`, `anchored_rows.rs`; `slicer-ir`: `entity_id.rs`).

Ordinary entities get their ids from a counter of their layer; anchored entities
bring the ids their producers gave them. The two meet in the rows.

`entity_ids_distinct_iff`: ordinary ids are a permutation of `1..n` in every
completed run, so a row has distinct ids exactly when the local ids of the
anchored entities routed to it are distinct and keep out of `1..n`.
-/

import PinchNPrint.Layer.AnchoredRows
import PinchNPrint.Layer.OrderLock

namespace PinchNPrint.Layer

variable {F : Type}

/-! ### One layer -/

instance : ToString LayerStageError where
  toString
    | .FatalModule stageId moduleId message =>
        s!"fatal layer stage module failure in {stageId} for {moduleId}: {message}"
    | .OrderLockViolation message => s!"order-lock violation: {message}"

/-- What the modules commit on one layer. Without a path optimization stage
nothing is staged. -/
structure LayerRun (F : Type) where
  input : LayerInput F
  infillCommits : List (InfillIR F) := []
  pathCommits : Option (List (StageApplyContext × PathOptimizationCommit F)) := none
  supportCommits : List (StageApplyContext × LayerStageCommit F) := []

/-- The end of `execute_single_layer_inner`: the staged collection or a fresh one,
with what was deferred. Travel moves name the entity at their position. -/
def finishLayer (layer : LayerInput F) (arena : LayerArena F) : LayerCollectionIR F :=
  let output := arena.layerCollection.getD
    { globalLayerIndex := layer.index
      z := layer.z
      orderedEntities := assembleOrderedEntities layer arena.stagedRegions }
  { output with
    toolChanges := output.toolChanges ++ arena.deferredToolChanges
    annotations := output.annotations ++ arena.deferredAnnotations
    zHops := output.zHops ++ arena.deferredZHops
    retracts := output.retracts ++ arena.deferredRetracts
    travelMoves := output.travelMoves ++ arena.deferredTravelMoves.map fun move =>
      { entityId := (output.orderedEntities[move.afterEntityIndex]?.map (·.entityId)).getD 0
        x := move.dest.x
        y := move.dest.y
        z := move.dest.z
        f := move.dest.f } }

section Run

variable [Field F] [LinearOrder F] [FloorRing F] [ToString F]
  (overlap : SupportEntry F → SupportEntry F → Bool)

/-- The path optimization stage: the collection is staged, then committed to. -/
def runPathOptimization (layer : LayerInput F) (arena : LayerArena F) :
    Option (List (StageApplyContext × PathOptimizationCommit F)) →
      Except LayerStageError (LayerArena F)
  | none => .ok arena
  | some commits => applyPathCommits (prestageLayerCollection layer arena) commits

/-- `execute_single_layer`: the stages in order, each commit applied. -/
def executeSingleLayer (run : LayerRun F) :
    Except LayerExecutionError (LayerCollectionIR F × List (OrderedEventCollection F)) :=
  Except.mapError (.FatalLayer run.input.index) do
    let arena ← applyInfillCommits run.infillCommits
    let support ← applyAll overlap {} run.supportCommits
    let arena ← runPathOptimization run.input arena run.pathCommits
    .ok (finishLayer run.input arena, support.anchoredEventCollections.getD [])

/-! ### Routes of anchored entities -/

inductive AnchoredRoute where
  | SameZLayerEntity
  | AnchoredCollection
deriving DecidableEq

/-- `GlobalLayer`, as far as it is read here. -/
structure GlobalLayer (F : Type) where
  index : Nat
  z : F
  isRaft : Bool
deriving DecidableEq

omit [ToString F] in
def routeOf (entity : AnchoredEntity F) (plan : List (GlobalLayer F)) : AnchoredRoute :=
  if entity.provenance.requestingFeature ≠ "same-z-support" then .AnchoredCollection
  else match plan.find? (·.index == entity.anchorGlobalLayerIndex) with
    | none => .AnchoredCollection
    | some anchor =>
      match entity.geometry with
      | .Planar z =>
          if |z - mmToUnits anchor.z| ≤ COORDINATE_TOLERANCE_UNITS then .SameZLayerEntity
          else .AnchoredCollection
      | .ZSpanning _ _ => .AnchoredCollection

def globalLayerIsRaft (plan : List (GlobalLayer F)) (globalLayerIndex : Nat) : Bool :=
  plan.any fun layer => layer.index == globalLayerIndex && layer.isRaft

/-- `validate_anchored_entity` with the error of the executor. -/
def checkAnchoredEntity (entity : AnchoredEntity F) : Except LayerExecutionError Unit :=
  (validateAnchoredEntity entity).mapError (.AnchoredGeometry entity.localId)

/-- The entity is appended to the first layer with its anchor, if there is one. -/
def appendToAnchor (layers : List (RowDraft F)) (entity : AnchoredEntity F) : List (RowDraft F) :=
  match layers.findIdx? (·.row.globalLayerIndex == entity.anchorGlobalLayerIndex) with
  | none => layers
  | some i => layers.modify i (·.append [entity])

def appendSameZEntities (layers : List (RowDraft F)) (plan : List (GlobalLayer F))
    (entities : List (AnchoredEntity F)) : Except LayerExecutionError (List (RowDraft F)) :=
  ((entities.filter (routeOf · plan == .SameZLayerEntity)).filter
    (!globalLayerIsRaft plan ·.anchorGlobalLayerIndex)).foldlM
      (fun layers entity => do
        checkAnchoredEntity entity
        .ok (appendToAnchor layers entity)) layers

/-- Whether the capabilities of the entity ask for path optimization. -/
def optimizesPaths (entity : AnchoredEntity F) : Bool :=
  (entity.inputCapabilities ++ entity.outputCapabilities).any (· == "Layer::PathOptimization")

/-- The entity joins the collection of its anchor, or opens one. -/
def joinCollection (collections : List (OrderedEventCollection F)) (entity : AnchoredEntity F) :
    List (OrderedEventCollection F) :=
  match collections.findIdx? (·.anchorGlobalLayerIndex == entity.anchorGlobalLayerIndex) with
  | none => collections ++
      [{ anchorGlobalLayerIndex := entity.anchorGlobalLayerIndex
         events := [entity]
         runtimeHooks := { optimizePaths := optimizesPaths entity } }]
  | some i => collections.modify i fun collection =>
      { collection with
        events := collection.events ++ [entity]
        runtimeHooks := { collection.runtimeHooks with
          optimizePaths := collection.runtimeHooks.optimizePaths || optimizesPaths entity } }

/-- The order of collections. -/
def anchorLE (a b : OrderedEventCollection F) : Prop :=
  a.anchorGlobalLayerIndex ≤ b.anchorGlobalLayerIndex

instance : DecidableRel (anchorLE (F := F)) :=
  fun a b => inferInstanceAs (Decidable (a.anchorGlobalLayerIndex ≤ b.anchorGlobalLayerIndex))

/-- `execute_anchored_event_collections`: validated, routed, gathered by anchor and
committed by the host. -/
def executeAnchoredEventCollections (plan : List (GlobalLayer F))
    (entities : List (AnchoredEntity F)) :
    Except LayerExecutionError (List (OrderedEventCollection F)) := do
  let anchored := entities.filter (!globalLayerIsRaft plan ·.anchorGlobalLayerIndex)
  anchored.forM checkAnchoredEntity
  let routed := anchored.filter (routeOf · plan == .AnchoredCollection)
  let collections := (routed.foldl joinCollection []).insertionSort anchorLE
  let arena ← (applyAnchoredEvents ⟨"Anchored::Event", "host:anchored-events"⟩ {}
    collections).mapError fun error =>
      .AnchoredGeometry ((entities.head?.map (·.localId)).getD 0) (toString error)
  .ok (arena.anchoredEventCollections.getD [])

/-! ### The stream -/

/-- Collections come before the layer with their anchor, those that find no layer
at the end. -/
def commitStream : List (RowDraft F) → List (OrderedEventCollection F) →
    List (CommittedLayerEvent F)
  | [], collections => collections.map .Anchored
  | layer :: layers, collections =>
      let here := fun collection : OrderedEventCollection F =>
        collection.anchorGlobalLayerIndex == layer.row.globalLayerIndex
      (collections.takeWhile here).map .Anchored ++
        .Model layer :: commitStream layers (collections.dropWhile here)

/-- The layers of the execution plan. -/
def planOf (runs : List (LayerRun F)) : List (GlobalLayer F) :=
  runs.map fun run => ⟨run.input.index, run.input.z, run.input.isRaft⟩

/-- `execute_per_layer_with_committed_anchored_events_instrumented`. -/
def executePerLayer (runs : List (LayerRun F)) (anchoredEntities : List (AnchoredEntity F)) :
    Except LayerExecutionError (List (CommittedLayerEvent F)) := do
  let results ← runs.mapM (executeSingleLayer overlap)
  let layers ← appendSameZEntities (results.map fun result => { row := result.1 }) (planOf runs)
    anchoredEntities
  let collections ← executeAnchoredEventCollections (planOf runs) anchoredEntities
  let produced := (results.flatMap Prod.snd).filter
    (!globalLayerIsRaft (planOf runs) ·.anchorGlobalLayerIndex)
  .ok (commitStream layers ((collections ++ produced).insertionSort anchorLE))

/-- The rows of a run, as drafts: what the pipeline hands on. -/
def runDrafts (runs : List (LayerRun F)) (anchoredEntities : List (AnchoredEntity F)) :
    Except LayerExecutionError (List (RowDraft F)) := do
  let committed ← executePerLayer overlap runs anchoredEntities
  synthesizeDrafts committed

end Run

/-! ### Ordinary ids -/

/-- The ids of a row's entities. -/
def entityIds (entities : List (PrintEntity F)) : List Nat :=
  entities.map (·.entityId)

/-- The ids are those a counter gave out, in some order. -/
def Counted (entities : List (PrintEntity F)) : Prop :=
  (entityIds entities).Perm (List.range' 1 entities.length)

theorem counted_pushParts (parts : List (Part F)) : Counted (pushParts parts) := by
  rw [Counted, entityIds, pushParts, List.length_mapIdx]
  refine .of_eq (List.ext_getElem? fun i => ?_)
  rw [List.getElem?_map, List.getElem?_mapIdx, Option.map_map]
  by_cases hi : i < parts.length
  · rw [List.getElem?_eq_getElem hi, List.getElem?_range' hi]
    exact congrArg some (by dsimp; omega)
  · rw [List.getElem?_eq_none (Nat.le_of_not_lt hi),
      List.getElem?_eq_none (by rw [List.length_range']; exact Nat.le_of_not_lt hi)]
    rfl

theorem counted_assembleOrderedEntities (layer : LayerInput F)
    (infill : Option (List (InfillRegion F (ExtrusionPath3D F)))) :
    Counted (assembleOrderedEntities layer infill) := by
  unfold assembleOrderedEntities
  split
  · exact counted_pushParts _
  · exact counted_pushParts _

theorem nodup_of_firstDuplicate {indices : List Nat} (h : firstDuplicate indices = none) :
    indices.Nodup := by
  rw [firstDuplicate, List.findSome?_eq_none_iff] at h
  rw [List.nodup_iff_getElem?_ne_getElem?]
  intro i j hij hj heq
  obtain ⟨index, hindex⟩ : ∃ index, indices[j]? = some index :=
    ⟨_, List.getElem?_eq_getElem hj⟩
  have hfree := h (index, j) (List.mk_mem_zipIdx_iff_getElem?.mpr hindex)
  dsimp only at hfree
  split at hfree
  · cases hfree
  · rename_i hnot
    refine hnot (List.mem_of_getElem? (i := i) ?_)
    rw [List.getElem?_take_of_lt hij, heq, hindex]

/-- The indices of an accepted proposal are all positions, each once. -/
theorem perm_range_of_checkProposal {n : Nat} {proposal : List (Nat × Bool)}
    (h : checkProposal n proposal = .ok ()) : (proposal.map Prod.fst).Perm (List.range n) := by
  unfold checkProposal at h
  split at h
  · cases h
  case isFalse hlength =>
    split at h
    · cases h
    case h_2 hfind =>
      split at h
      · cases h
      case h_2 hduplicate =>
        have hlt : ∀ entry ∈ proposal, entry.1 < n := by
          intro entry hentry
          have := List.find?_eq_none.mp hfind entry hentry
          simpa using this
        refine (List.subperm_of_subset (nodup_of_firstDuplicate hduplicate) ?_).perm_of_length_le ?_
        · intro index hindex
          obtain ⟨entry, hentry, rfl⟩ := List.mem_map.mp hindex
          exact List.mem_range.mpr (hlt entry hentry)
        · rw [List.length_range, List.length_map, not_ne_iff.mp hlength]

/-- An accepted proposal permutes the ids. -/
theorem applyOrderProposal_ids {entities entities' : List (PrintEntity F)}
    {proposal : List (Nat × Bool)} (h : applyOrderProposal entities proposal = .ok entities') :
    (entityIds entities').Perm (entityIds entities) := by
  obtain ⟨⟨⟩, hcheck, h⟩ := Except.of_bind_eq_ok h
  let idAt : Nat → Option Nat := fun i => entities[i]?.map (·.entityId)
  have hplaced : (entityIds entities').map some = (proposal.map Prod.fst).map idAt := by
    refine List.ext_getElem? fun slot => ?_
    rw [List.getElem?_map, List.getElem?_map, List.getElem?_map, entityIds, List.getElem?_map]
    cases hentry : proposal[slot]? with
    | none =>
      have hlength := (Except.forall₂_of_mapM_eq_ok h).length_eq
      rw [List.length_zipIdx] at hlength
      rw [List.getElem?_eq_none (hlength ▸ List.getElem?_eq_none_iff.mp hentry)]
      rfl
    | some entry =>
      have hzip : proposal.zipIdx[slot]? = some (entry, slot) := by
        rw [List.getElem?_zipIdx, hentry, Nat.zero_add]
        rfl
      obtain ⟨placed, hplaced, hplace⟩ := Except.getElem?_of_mapM_eq_ok h hzip
      obtain ⟨e, he, hid, -⟩ := placeEntity_spec hplace
      rw [hplaced]
      simp only [Option.map_some, idAt, he, hid]
  have hall : (List.range entities.length).map idAt = (entityIds entities).map some := by
    refine List.ext_getElem? fun i => ?_
    rw [List.getElem?_map, List.getElem?_map, entityIds, List.getElem?_map]
    by_cases hi : i < entities.length
    · rw [List.getElem?_range hi, List.getElem?_eq_getElem hi]
      simp only [Option.map_some, idAt, List.getElem?_eq_getElem hi]
    · rw [List.getElem?_eq_none (Nat.le_of_not_lt hi),
        List.getElem?_eq_none (by rw [List.length_range]; exact Nat.le_of_not_lt hi)]
      rfl
  have hperm := (perm_range_of_checkProposal hcheck).map idAt
  rw [hall, ← hplaced] at hperm
  exact (List.map_perm_map_iff (Option.some_injective _)).mp hperm

/-- Path optimization keeps the ids counted. -/
theorem Counted.of_proposal {entities entities' : List (PrintEntity F)}
    {proposal : List (Nat × Bool)} (h : Counted entities)
    (hproposal : applyOrderProposal entities proposal = .ok entities') : Counted entities' := by
  have hids := applyOrderProposal_ids hproposal
  have hlength : entities'.length = entities.length := by
    have := hids.length_eq
    rwa [entityIds, entityIds, List.length_map, List.length_map] at this
  rw [Counted, hlength]
  exact hids.trans h

section Layers

variable [Field F] [LinearOrder F] [FloorRing F] [ToString F]
  {overlap : SupportEntry F → SupportEntry F → Bool}

omit [Field F] [LinearOrder F] [FloorRing F] [ToString F] in
theorem finishLayer_entities {layer : LayerInput F} {arena : LayerArena F}
    (h : ∀ collection ∈ arena.layerCollection, Counted collection.orderedEntities) :
    Counted (finishLayer layer arena).orderedEntities := by
  unfold finishLayer
  cases hcollection : arena.layerCollection with
  | none => exact counted_assembleOrderedEntities layer _
  | some collection => exact h collection hcollection

/-- The ordinary ids of a layer are counted. -/
theorem counted_of_executeSingleLayer {run : LayerRun F}
    {result : LayerCollectionIR F × List (OrderedEventCollection F)}
    (h : executeSingleLayer overlap run = .ok result) : Counted result.1.orderedEntities := by
  obtain ⟨arena, hinfill, h⟩ := Except.of_bind_eq_ok (Except.of_mapError_eq_ok h)
  obtain ⟨support, -, h⟩ := Except.of_bind_eq_ok h
  have hempty : arena.layerCollection = none := by
    refine Except.foldlM_invariant (P := fun arena : LayerArena F => arena.layerCollection = none)
      ?_ rfl hinfill
    intro ir _ before after hbefore happly
    obtain ⟨regions, -, happly⟩ := Except.of_bind_eq_ok happly
    cases happly
    exact hbefore
  obtain ⟨last, hpath, h⟩ := Except.of_bind_eq_ok h
  cases h
  refine finishLayer_entities fun collection hcollection => ?_
  cases hcommits : run.pathCommits with
  | none =>
    rw [hcommits] at hpath
    cases hpath
    rw [hempty] at hcollection
    cases hcollection
  | some commits =>
    rw [hcommits] at hpath
    obtain ⟨collection', hcollection', hcounted⟩ := applyPathCommits_invariant (P := Counted)
      (fun _ _ _ hcounted _ hproposal => hcounted.of_proposal hproposal) hpath (by
        rw [prestageLayerCollection, hempty]
        exact ⟨_, rfl, counted_assembleOrderedEntities run.input _⟩)
    rw [hcollection'] at hcollection
    cases hcollection
    exact hcounted

/-! ### Rows -/

section

omit [ToString F] [FloorRing F] [LinearOrder F] [Field F]

theorem row?_commitStream (layers : List (RowDraft F))
    (collections : List (OrderedEventCollection F)) :
    (commitStream layers collections).filterMap (·.row?) = layers := by
  have hanchored : ∀ collections : List (OrderedEventCollection F),
      (collections.map CommittedLayerEvent.Anchored).filterMap (·.row?) = [] := by
    intro collections
    rw [List.filterMap_map]
    exact List.filterMap_eq_nil_iff.mpr fun _ _ => rfl
  induction layers generalizing collections with
  | nil => exact hanchored collections
  | cons layer layers ih =>
    rw [commitStream, List.filterMap_append, hanchored, List.nil_append, List.filterMap_cons]
    exact congrArg (layer :: ·) (ih _)

theorem appendToAnchor_continues (layers : List (RowDraft F)) (entity : AnchoredEntity F) :
    List.Forall₂ Continues layers (appendToAnchor layers entity) := by
  unfold appendToAnchor
  split
  · exact List.forall₂_same.mpr fun row _ => .refl row
  · exact continues_modify ..

end

theorem appendSameZEntities_continues {layers layers' : List (RowDraft F)}
    {plan : List (GlobalLayer F)} {entities : List (AnchoredEntity F)}
    (h : appendSameZEntities layers plan entities = .ok layers') :
    List.Forall₂ Continues layers layers' := by
  refine Except.foldlM_invariant (P := List.Forall₂ Continues layers) ?_
    (List.forall₂_same.mpr fun row _ => .refl row) h
  intro entity _ before after hbefore hstep
  obtain ⟨_, -, hstep⟩ := Except.of_bind_eq_ok hstep
  cases hstep
  exact hbefore.trans_of (fun _ _ _ => .trans) (appendToAnchor_continues before entity)

omit [ToString F] in
theorem mem_mergeWalk_row {last : Option Nat} {rows : List (RowDraft F)}
    {planes : List (AnchoredPlane F)} {draft : RowDraft F}
    (h : draft ∈ mergeWalk last rows planes) :
    (∃ row ∈ rows, draft.row = row.row) ∨ draft.row.orderedEntities = [] := by
  induction rows, planes using mergeWalk_induction with
  | rowsOnly rows =>
    rw [mergeWalk_nil_planes] at h
    exact .inl ⟨draft, h, rfl⟩
  | planesOnly plane planes ih =>
    rw [mergeWalk, List.mem_cons] at h
    rcases h with rfl | h
    · exact .inr rfl
    · exact ih h
  | solo row rows plane planes hbelow ih =>
    rw [mergeWalk_cons, if_pos hbelow, List.mem_cons] at h
    rcases h with rfl | h
    · exact .inr rfl
    · exact ih h
  | alone row rows plane planes habove ih =>
    have := mergeEpsilon_pos
    rw [mergeWalk_cons, if_neg (by omega), if_pos habove, List.mem_cons] at h
    rcases h with rfl | h
    · exact .inl ⟨draft, List.mem_cons_self .., rfl⟩
    · rcases ih h with ⟨r, hr, heq⟩ | hempty
      · exact .inl ⟨r, List.mem_cons_of_mem _ hr, heq⟩
      · exact .inr hempty
  | merged row rows plane planes hbelow habove ih =>
    rw [mergeWalk_cons, if_neg (not_lt.mpr hbelow), if_neg (not_lt.mpr habove), List.mem_cons] at h
    rcases h with rfl | h
    · exact .inl ⟨row, List.mem_cons_self .., rfl⟩
    · rcases ih h with ⟨r, hr, heq⟩ | hempty
      · exact .inl ⟨r, List.mem_cons_of_mem _ hr, heq⟩
      · exact .inr hempty

omit [Field F] [LinearOrder F] [FloorRing F] [ToString F] in
theorem Continues.forall_row {P : LayerCollectionIR F → Prop} {rows rows' : List (RowDraft F)}
    (h : List.Forall₂ Continues rows rows') (hrows : ∀ row ∈ rows, P row.row) :
    ∀ row ∈ rows', P row.row := by
  induction h with
  | nil => exact hrows
  | cons hcontinues _ ih =>
    obtain ⟨entities, rfl⟩ := hcontinues
    obtain ⟨hrow, hrest⟩ := List.forall_mem_cons.mp hrows
    exact List.forall_mem_cons.mpr ⟨hrow, ih hrest⟩

/-- In every row of a completed run the ordinary ids are counted. -/
theorem counted_of_runDrafts {runs : List (LayerRun F)}
    {anchoredEntities : List (AnchoredEntity F)} {drafts : List (RowDraft F)}
    (h : runDrafts overlap runs anchoredEntities = .ok drafts) :
    ∀ draft ∈ drafts, Counted draft.row.orderedEntities := by
  obtain ⟨committed, hcommitted, hdrafts⟩ := Except.of_bind_eq_ok h
  obtain ⟨results, hresults, hcommitted⟩ := Except.of_bind_eq_ok hcommitted
  obtain ⟨layers, hlayers, hcommitted⟩ := Except.of_bind_eq_ok hcommitted
  obtain ⟨collections, -, hcommitted⟩ := Except.of_bind_eq_ok hcommitted
  cases hcommitted
  obtain ⟨rows, last, hroute, rfl⟩ := synthesizeDrafts_ok hdrafts
  rw [row?_commitStream] at hroute
  have hstart : ∀ row ∈ results.map fun result => ({ row := result.1 } : RowDraft F),
      Counted row.row.orderedEntities := by
    intro row hrow
    obtain ⟨result, hresult, rfl⟩ := List.mem_map.mp hrow
    obtain ⟨run, -, hrun⟩ := Except.of_mapM_eq_ok hresults hresult
    exact counted_of_executeSingleLayer hrun
  have hlayersCounted := Continues.forall_row (P := fun row => Counted row.orderedEntities)
    (appendSameZEntities_continues hlayers) hstart
  have hrows := Continues.forall_row (P := fun row => Counted row.orderedEntities)
    (foldlM_routeSpanning contents_append hroute).1 hlayersCounted
  intro draft hdraft
  rcases mem_mergeWalk_row hdraft with ⟨row, hrow, heq⟩ | heq
  · rw [heq]
    exact hrows row hrow
  · rw [heq]
    exact .refl _

end Layers

/-! ### Distinct ids -/

/-- The local ids routed to a row are distinct, and none was given to one of the
`n` ordinary entities. -/
def LocalIdsApart (draft : RowDraft F) : Prop :=
  (draft.added.map (·.localId)).Nodup ∧
    ∀ entity ∈ draft.added, entity.localId = 0 ∨ draft.row.orderedEntities.length < entity.localId

theorem entityIds_build [One F] (draft : RowDraft F) :
    entityIds draft.build.orderedEntities =
      entityIds draft.row.orderedEntities ++ draft.added.map (·.localId) := by
  rw [entityIds, RowDraft.build, appendEntities, List.map_append, entityIds]
  refine congrArg _ (List.ext_getElem? fun k => ?_)
  rw [List.getElem?_map, List.getElem?_mapIdx, List.getElem?_map, Option.map_map]
  rfl

theorem nodup_build_iff [One F] {draft : RowDraft F} (h : Counted draft.row.orderedEntities) :
    (entityIds draft.build.orderedEntities).Nodup ↔ LocalIdsApart draft := by
  rw [entityIds_build, (h.append_right _).nodup_iff, List.nodup_append', LocalIdsApart,
    and_iff_right (List.nodup_range' ..)]
  refine and_congr_right' ?_
  constructor
  · intro hdisjoint entity hentity
    by_contra hinside
    refine hdisjoint (a := entity.localId) (List.mem_range'_1.mpr ?_) (List.mem_map_of_mem hentity)
    omega
  · intro houtside id hordinary hlocal
    obtain ⟨entity, hentity, rfl⟩ := List.mem_map.mp hlocal
    have := houtside entity hentity
    have := List.mem_range'_1.mp hordinary
    omega

/-- In a completed run the ids of every row are distinct exactly when the local
ids routed to each row keep apart. -/
theorem entity_ids_distinct_iff [Field F] [LinearOrder F] [FloorRing F] [ToString F]
    (overlap : SupportEntry F → SupportEntry F → Bool) (runs : List (LayerRun F))
    (anchoredEntities : List (AnchoredEntity F)) (drafts : List (RowDraft F))
    (h : runDrafts overlap runs anchoredEntities = .ok drafts) :
    (∀ row ∈ drafts.map RowDraft.build, (entityIds row.orderedEntities).Nodup) ↔
      ∀ draft ∈ drafts, LocalIdsApart draft := by
  rw [List.forall_mem_map]
  exact forall₂_congr fun draft hdraft => nodup_build_iff (counted_of_runDrafts h draft hdraft)

/-- A layer with one wall. -/
def wallInput : LayerInput ℚ where
  index := 1
  z := 1 / 5
  isRaft := false
  perimeterParts := [⟨{ points := [], role := .OuterWall, speedFactor := 1 }, 0, {}⟩]
  raftParts := []
  supportParts := []
  variantToolByRegion := fun _ => none
  lookupToolByPointMm := fun _ _ => none
  toolCount := 1

/-- The wall and a same-plane support entity behind it. -/
def wallDraft (localId : Nat) : RowDraft ℚ where
  row :=
    { globalLayerIndex := 1
      z := 1 / 5
      orderedEntities := assembleOrderedEntities wallInput none }
  added := [emptyEntity localId 2000]

/-- A local id behind those of the layer. -/
theorem entity_ids_distinct_two :
    (entityIds (wallDraft 2).build.orderedEntities).Nodup := by
  refine (entity_ids_distinct_iff noOverlap [{ input := wallInput }] [emptyEntity 2 2000]
    [wallDraft 2] (by decide +kernel)).mpr ?_ _ (List.mem_singleton.mpr rfl)
  intro draft hdraft
  cases List.mem_singleton.mp hdraft
  exact ⟨by decide, by decide⟩

/-- The first local id of a producer is that of the first wall. -/
theorem local_id_is_taken :
    runDrafts noOverlap [{ input := wallInput }] [emptyEntity 1 2000] = .ok [wallDraft 1] ∧
      ¬ (entityIds (wallDraft 1).build.orderedEntities).Nodup := by
  decide +kernel

end PinchNPrint.Layer
