/-
The finalization merge (`slicer-sdk`: `traits.rs`, `FinalizationOutputBuilder`).

A finalization module records pushes, deferred operations and annotations;
`applyTo` merges them into the layers. Tool changes, z-hops, retracts and
annotations name the entity they follow by its position in the layer, so every
operation that moves entities has to move those positions too.

A panic of the source is an error here; its stable sorts are insertion sorts. The legacy lists the builder keeps beside
its pushes, and the set that guards against a second permutation while recording,
are not read by the merge and are left out.
-/

import PinchNPrint.Layer.Commit

namespace PinchNPrint.Layer

variable {F : Type}

/-! ### Recorded operations -/

inductive EntityMutation (F : Type) where
  | SetSpeedFactor (v : F)
  | SetFlowFactor (v : F)
  | SetPathPoints (v : List (Point3WithWidth F))
  | SetPointSpeedFactors (v : List F)
deriving DecidableEq

inductive SortKey where
  | ByPriorityAndEntityId
  | ByEntityId
  | ByObjectIdThenPriority
deriving DecidableEq

structure SyntheticLayerData (F : Type) where
  z : F
  paths : List (ExtrusionPath3D F)
deriving DecidableEq

inductive MergeOp (F : Type) where
  | ModifyEntity (layer entityId : Nat) (mutation : EntityMutation F)
  | SortLayer (layer : Nat) (key : SortKey)
  | InsertSynthLayer (idx : Nat) (data : SyntheticLayerData F)
  | InsertEntityAt (layer position : Nat) (path : ExtrusionPath3D F) (toolIndex : Nat)
      (regionKey : RegionKey F)
  | SetEntityOrder (layer : Nat) (items : List (Nat × Bool))
deriving DecidableEq

structure PriorityPush (F : Type) where
  layerIndex : Nat
  path : ExtrusionPath3D F
  toolIndex : Nat
  regionKey : RegionKey F
  priority : Nat
deriving DecidableEq

structure FinalizationOutputBuilder (F : Type) where
  priorityPushes : List (PriorityPush F) := []
  mergeOps : List (MergeOp F) := []
  annotations : List (Nat × LayerAnnotation) := []
deriving DecidableEq

/-! ### Layers by index -/

/-- The position of the first layer with a global index. -/
def findLayer (layers : List (LayerCollectionIR F)) (index : Nat) :
    Option (Nat × LayerCollectionIR F) :=
  (layers.findIdx? (·.globalLayerIndex = index)).bind fun p => layers[p]?.map fun layer => (p, layer)

/-- Update the first layer with a global index, or do what a missing layer calls
for. -/
def updateLayer (layers : List (LayerCollectionIR F)) (index : Nat)
    (missing : Except String (List (LayerCollectionIR F)))
    (update : LayerCollectionIR F → Except String (LayerCollectionIR F)) :
    Except String (List (LayerCollectionIR F)) :=
  match findLayer layers index with
  | none => missing
  | some (p, layer) => do
    let layer ← update layer
    .ok (layers.set p layer)

/-- One more than the largest entity id, or one. -/
def nextEntityId (entities : List (PrintEntity F)) : Nat :=
  match (entities.map (·.entityId)).max? with
  | none => 1
  | some max => max + 1

/-! ### Pushes and the priority sort -/

/-- The entity of a push, at the end of its layer. -/
def pushEntity (layer : LayerCollectionIR F) (push : PriorityPush F) : LayerCollectionIR F :=
  { layer with
    orderedEntities := layer.orderedEntities ++
      [{ entityId := nextEntityId layer.orderedEntities
         path := push.path
         role := push.path.role
         regionKey := push.regionKey
         topoOrder := layer.orderedEntities.length
         toolIndex := push.toolIndex }] }

/-- The first phase of `apply_to`; a push to a missing layer is skipped. -/
def pushEntities (layers : List (LayerCollectionIR F)) (pushes : List (PriorityPush F)) :
    Except String (List (LayerCollectionIR F)) :=
  pushes.foldlM
    (fun layers push =>
      updateLayer layers push.layerIndex (.ok layers) fun layer => .ok (pushEntity layer push))
    layers

/-- `push_counts`: the priorities pushed to a layer, in push order. -/
def pushPriorities (pushes : List (PriorityPush F)) (index : Nat) : List Nat :=
  (pushes.filter (·.layerIndex = index)).map (·.priority)

/-- The effective priorities of a layer: those of the last entities were pushed. -/
def effectivePriorities (entities : List (PrintEntity F)) (pushed : List Nat) : List Nat :=
  (entities.take (entities.length - pushed.length)).map (·.role.defaultPriority) ++ pushed

/-- The second phase of `apply_to` on one layer: sort by priority, then by
position. Taking an index past the entities panics. -/
def sortPushed (pushes : List (PriorityPush F)) (layer : LayerCollectionIR F) :
    Except String (LayerCollectionIR F) :=
  match pushPriorities pushes layer.globalLayerIndex with
  | [] => .ok layer
  | pushed => do
    let indexed := (effectivePriorities layer.orderedEntities pushed).zipIdx.insertionSort
      fun a b => a.1 < b.1 ∨ a.1 = b.1 ∧ a.2 ≤ b.2
    let entities ← indexed.mapM fun entry =>
      match layer.orderedEntities[entry.2]? with
      | none => .error "index out of bounds"
      | some entity => .ok entity
    .ok { layer with orderedEntities := entities }

/-! ### Deferred operations -/

/-- The check of a `SetPathPoints` mutation. -/
def checkPathPoints [DecidableEq F] (layer entityId : Nat) (e : PrintEntity F)
    (v : List (Point3WithWidth F)) : Except String Unit :=
  if v.isEmpty then
    .error s!"modify_entity: SetPathPoints cannot use an empty point list for entity_id {entityId} in layer {layer}"
  else if e.path.role.isLoop && !({ e.path with points := v } : ExtrusionPath3D F).isClosed then
    .error s!"modify_entity: SetPathPoints rejected an unclosed loop for entity_id {entityId} in layer {layer}: a wall mutator dropped the closing repeat"
  else if e.path.orderLock.isSome && e.path.points ≠ v then
    .error s!"modify_entity: locked entity_id {entityId} geometry cannot change"
  else .ok ()

/-- Upsert of a speed profile: at most one row for an entity. -/
def upsertProfile (profiles : List (EntitySpeedProfile F)) (entityId : Nat) (factors : List F) :
    List (EntitySpeedProfile F) :=
  match profiles with
  | [] => [⟨entityId, factors⟩]
  | profile :: rest =>
    if profile.entityId = entityId then { profile with factors := factors } :: rest
    else profile :: upsertProfile rest entityId factors

/-- Replace the path of an entity. -/
def setPath (layer : LayerCollectionIR F) (position : Nat) (e : PrintEntity F)
    (path : ExtrusionPath3D F) : LayerCollectionIR F :=
  { layer with orderedEntities := layer.orderedEntities.set position { e with path := path } }

/-- The mutation of the entity at a position of its layer. -/
def mutateEntity [DecidableEq F] (layer : LayerCollectionIR F) (position : Nat)
    (e : PrintEntity F) (layerIdx entityId : Nat) (mutation : EntityMutation F) :
    Except String (LayerCollectionIR F) :=
  match mutation with
  | .SetSpeedFactor v => .ok (setPath layer position e { e.path with speedFactor := v })
  | .SetFlowFactor v =>
    .ok (setPath layer position e
      { e.path with points := e.path.points.map fun p => { p with flowFactor := v } })
  | .SetPathPoints v => do
    checkPathPoints layerIdx entityId e v
    .ok (setPath layer position e { e.path with points := v })
  | .SetPointSpeedFactors v =>
    if v.length ≠ e.path.points.length then
      .error s!"modify_entity: SetPointSpeedFactors length mismatch for entity_id {entityId} in layer {layerIdx}: got {v.length} factors but the entity has {e.path.points.length} points"
    else .ok { layer with speedProfiles := upsertProfile layer.speedProfiles entityId v }

/-- The `ModifyEntity` arm on the layer it names. -/
def modifyEntity [DecidableEq F] (layerIdx entityId : Nat) (mutation : EntityMutation F)
    (layer : LayerCollectionIR F) : Except String (LayerCollectionIR F) :=
  match layer.orderedEntities.findIdx? (·.entityId = entityId) with
  | none => .error s!"modify_entity: entity_id {entityId} not found in layer {layerIdx}"
  | some position =>
    match layer.orderedEntities[position]? with
    | none => .error s!"modify_entity: entity_id {entityId} not found in layer {layerIdx}"
    | some e => mutateEntity layer position e layerIdx entityId mutation

/-- The order of a `SortKey`. -/
def SortKey.le (key : SortKey) (a b : PrintEntity F) : Bool :=
  match key with
  | .ByPriorityAndEntityId =>
    a.role.defaultPriority < b.role.defaultPriority ||
      a.role.defaultPriority = b.role.defaultPriority && a.entityId ≤ b.entityId
  | .ByEntityId => a.entityId ≤ b.entityId
  | .ByObjectIdThenPriority =>
    a.regionKey.objectId < b.regionKey.objectId ||
      a.regionKey.objectId = b.regionKey.objectId && a.role.defaultPriority ≤ b.role.defaultPriority

/-- The check of `validate_locked_entity_order` on the block of `tag` at `start`. -/
def validateLockedBlock (before after : List (PrintEntity F)) (tag start : Nat) :
    Except String Unit :=
  let ids := ((before.drop start).take (blockEnd before tag start - start)).map (·.entityId)
  let found := after.zipIdx.filter fun entry => ids.contains entry.1.entityId
  let positions := found.map (·.2)
  if found.length ≠ ids.length ||
      !(positions.zip positions.tail).all (fun pair => pair.2 = pair.1 + 1) ||
      !(found.map (·.1.entityId) = ids) then
    .error s!"locked entity block {tag} was split or reordered"
  else .ok ()

def validateLockedEntityOrder (before after : List (PrintEntity F)) : Except String Unit :=
  (List.range before.length).forM fun start =>
    match lockAt before start with
    | none => .ok ()
    | some tag =>
      if 0 < start ∧ lockAt before (start - 1) = some tag then .ok ()
      else validateLockedBlock before after tag start

/-- The `SortLayer` arm on the layer it names. -/
def sortLayer (key : SortKey) (layer : LayerCollectionIR F) :
    Except String (LayerCollectionIR F) := do
  let sorted := layer.orderedEntities.insertionSort fun a b => key.le a b = true
  validateLockedEntityOrder layer.orderedEntities sorted
  .ok { layer with orderedEntities := sorted }

/-- The layer of an `InsertSynthLayer`. -/
def synthLayer (layers : List (LayerCollectionIR F)) (idx : Nat) (data : SyntheticLayerData F) :
    LayerCollectionIR F :=
  let nextSynthId := ((layers.flatMap (·.orderedEntities)).map (·.entityId)).max?.getD 0 + 1
  { globalLayerIndex := idx + 1
    z := data.z
    orderedEntities := data.paths.mapIdx fun topoOrder path =>
      { entityId := nextSynthId + topoOrder
        path := path
        role := path.role
        regionKey := { globalLayerIndex := idx + 1 }
        topoOrder := topoOrder
        toolIndex := 0 } }

/-- The `InsertSynthLayer` arm. -/
def insertSynthLayer (layers : List (LayerCollectionIR F)) (idx : Nat)
    (data : SyntheticLayerData F) : Except String (List (LayerCollectionIR F)) :=
  if layers.length ≤ idx then
    .error s!"insert_synthetic_layer: synthetic layer insert idx {idx} out of bounds (layers.len() = {layers.length})"
  else .ok (layers.insertIdx (idx + 1) (synthLayer layers idx data))

/-- An index behind an insertion point moves up. -/
def shiftFrom (position index : Nat) : Nat :=
  if position ≤ index then index + 1 else index

/-- The entity of an `InsertEntityAt`. -/
def insertedEntity (position : Nat) (path : ExtrusionPath3D F) (toolIndex : Nat)
    (regionKey : RegionKey F) (layer : LayerCollectionIR F) : PrintEntity F :=
  { entityId := nextEntityId layer.orderedEntities
    path := path
    role := path.role
    regionKey := regionKey
    topoOrder := position
    toolIndex := toolIndex }

/-- The `InsertEntityAt` arm on the layer it names. -/
def insertEntityAt (position : Nat) (path : ExtrusionPath3D F) (toolIndex : Nat)
    (regionKey : RegionKey F) (layer : LayerCollectionIR F) :
    Except String (LayerCollectionIR F) :=
  if layer.orderedEntities.length < position then
    .error s!"position {position} out of bounds; layer has {layer.orderedEntities.length} entities"
  else .ok
    { layer with
      orderedEntities := layer.orderedEntities.insertIdx position
        (insertedEntity position path toolIndex regionKey layer)
      toolChanges := layer.toolChanges.map fun tc =>
        { tc with afterEntityIndex := shiftFrom position tc.afterEntityIndex }
      zHops := layer.zHops.map fun zh =>
        { zh with afterEntityIndex := shiftFrom position zh.afterEntityIndex }
      retracts := layer.retracts.map fun tr =>
        { tr with afterEntityIndex := shiftFrom position tr.afterEntityIndex } }

/-- The permutation check of `SetEntityOrder`: the first index that is out of
range or was seen before. -/
def checkPermutation (n : Nat) (items seen : List Nat) : Except String Unit :=
  match items with
  | [] => .ok ()
  | index :: rest =>
    if n ≤ index then
      .error s!"invalid permutation: index {index} out of range (layer has {n} entities)"
    else if index ∈ seen then
      .error s!"invalid permutation: index {index} appears more than once"
    else checkPermutation n rest (index :: seen)

/-- Where a permutation puts an index: the last slot that names it. -/
def inverseAt (items : List Nat) (old : Nat) : Nat :=
  match (items.zipIdx.filter (·.1 = old)).getLast? with
  | none => 0
  | some entry => entry.2

/-- An index through the inverse permutation. -/
def remapIndex (items : List Nat) (n index : Nat) : Nat :=
  if index < n then inverseAt items index else index

/-- The `SetEntityOrder` arm on the layer it names. Reversal does nothing. -/
def setEntityOrder (items : List (Nat × Bool)) (layer : LayerCollectionIR F) :
    Except String (LayerCollectionIR F) :=
  let n := layer.orderedEntities.length
  let indices := items.map Prod.fst
  if items.length ≠ n then
    .error s!"invalid permutation: expected {n} items, got {items.length}"
  else do
    checkPermutation n indices []
    let entities ← indices.mapM fun old =>
      match layer.orderedEntities[old]? with
      | none => .error "index out of bounds"
      | some e => .ok e
    .ok { layer with
      orderedEntities := entities
      toolChanges := layer.toolChanges.map fun tc =>
        { tc with afterEntityIndex := remapIndex indices n tc.afterEntityIndex }
      zHops := layer.zHops.map fun zh =>
        { zh with afterEntityIndex := remapIndex indices n zh.afterEntityIndex }
      retracts := layer.retracts.map fun tr =>
        { tr with afterEntityIndex := remapIndex indices n tr.afterEntityIndex } }

/-- One `MergeOp` of `apply_to`. -/
def applyMergeOp [DecidableEq F] (layers : List (LayerCollectionIR F)) (op : MergeOp F) :
    Except String (List (LayerCollectionIR F)) :=
  match op with
  | .ModifyEntity layer entityId mutation =>
    updateLayer layers layer
      (.error s!"modify_entity: entity_id {entityId} not found in layer {layer}")
      (modifyEntity layer entityId mutation)
  | .SortLayer layer key => updateLayer layers layer (.ok layers) (sortLayer key)
  | .InsertSynthLayer idx data => insertSynthLayer layers idx data
  | .InsertEntityAt layer position path toolIndex regionKey =>
    updateLayer layers layer (.error s!"insert_entity_at: layer {layer} not found")
      (insertEntityAt position path toolIndex regionKey)
  | .SetEntityOrder layer items =>
    updateLayer layers layer (.error s!"set_entity_order: layer {layer} not found")
      (setEntityOrder items)

/-! ### The merge -/

/-- The annotations of the builder, each on the layer it names. -/
def pushAnnotations (layers : List (LayerCollectionIR F)) (annotations : List (Nat × LayerAnnotation)) :
    Except String (List (LayerCollectionIR F)) :=
  annotations.foldlM
    (fun layers entry =>
      updateLayer layers entry.1 (.error s!"annotation references unknown layer {entry.1}")
        fun layer => .ok { layer with annotations := layer.annotations ++ [entry.2] })
    layers

/-- One more than the largest global tag of the layers. -/
def nextGlobalEntityTag (layers : List (LayerCollectionIR F)) : Nat :=
  let tags := ((layers.flatMap (·.orderedEntities)).filterMap (·.path.orderLock)).filter
    (¬ IsLocal ·)
  match (tags.map (· &&& (globalBit - 1))).max? with
  | none => 0
  | some max => max + 1

/-- The remap of the entities of a layer, path by path. -/
def remapEntities (entities : List (PrintEntity F)) (next : Nat) :
    Except String (List (PrintEntity F) × Nat) :=
  match entities with
  | [] => .ok ([], next)
  | e :: rest => do
    let (paths, next) ← remapOrderLocksToGlobal [e.path] next
    let (rest, next) ← remapEntities rest next
    .ok ({ e with path := paths.headD e.path } :: rest, next)

/-- The remap of all layers. -/
def remapLayers (layers : List (LayerCollectionIR F)) (next : Nat) :
    Except String (List (LayerCollectionIR F)) :=
  match layers with
  | [] => .ok []
  | layer :: rest => do
    let (entities, next) ← remapEntities layer.orderedEntities next
    let rest ← remapLayers rest next
    .ok ({ layer with orderedEntities := entities } :: rest)

/-- `FinalizationOutputBuilder::apply_to`. -/
def applyTo [DecidableEq F] (builder : FinalizationOutputBuilder F)
    (layers : List (LayerCollectionIR F)) : Except String (List (LayerCollectionIR F)) := do
  let layers ← pushEntities layers builder.priorityPushes
  let layers ← layers.mapM (sortPushed builder.priorityPushes)
  let layers ← builder.mergeOps.foldlM applyMergeOp layers
  let layers ← pushAnnotations layers builder.annotations
  remapLayers layers (nextGlobalEntityTag layers)

end PinchNPrint.Layer
