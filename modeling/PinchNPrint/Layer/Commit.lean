/-
Per-layer stage commits
(`slicer-runtime`: `layer_executor.rs`; `slicer-sdk`: `order_lock.rs`).

A layer's `LayerArena` takes one commit per module invocation. `Infill` commits
rewrite the order locks of their sparse paths and merge, region by region, into
the staged infill. Before path optimization the arena's paths are drained into
print entities; `PathOptimization` commits then permute those.

`InfillRegion` is generic in the type of its paths, so that the merge can also be
run on names of paths. What perimeters, raft fill and supports drain to is given
as lists of parts, and the lookups into the slice as functions. The raft polygons
an infill commit carries go to the slice, not to the staged infill, and are left
out.
-/

import PinchNPrint.Lib.Collections
import PinchNPrint.Layer.Ir

namespace PinchNPrint.Layer

variable {F α β : Type}

/-! ### Infill -/

structure InfillRegion (F α : Type) where
  objectId : ObjectId := ""
  regionId : Nat := 0
  variantChain : List (String × PaintValue F) := []
  sparseInfill : List α := []
  solidInfill : List α := []
  ironing : List α := []
  internalBridgeInfill : List α := []
deriving DecidableEq

structure InfillIR (F : Type) where
  globalLayerIndex : Nat := 0
  regions : List (InfillRegion F (ExtrusionPath3D F)) := []
deriving DecidableEq

namespace InfillRegion

/-- What regions are joined by: object, region and ordered variant chain. -/
def source (region : InfillRegion F α) : ObjectId × Nat × List (String × PaintValue F) :=
  (region.objectId, region.regionId, region.variantChain)

/-- Append the paths of another region, list by list. -/
def extend (target new : InfillRegion F α) : InfillRegion F α :=
  { target with
    sparseInfill := target.sparseInfill ++ new.sparseInfill
    solidInfill := target.solidInfill ++ new.solidInfill
    ironing := target.ironing ++ new.ironing
    internalBridgeInfill := target.internalBridgeInfill ++ new.internalBridgeInfill }

/-- The paths in the order they are drained. -/
def drain (region : InfillRegion F α) : List α :=
  region.sparseInfill ++ region.solidInfill ++ region.ironing ++ region.internalBridgeInfill

end InfillRegion

/-- One round of `merge_infill_ir`: extend the first region of the same source,
or push the region as it is. -/
def mergeRegion [DecidableEq F] (regions : List (InfillRegion F α)) (new : InfillRegion F α) :
    List (InfillRegion F α) :=
  match regions with
  | [] => [new]
  | region :: rest =>
    if region.source = new.source then region.extend new :: rest
    else region :: mergeRegion rest new

/-- `merge_infill_ir` on the regions. -/
def mergeInfillIr [DecidableEq F] (existing incoming : List (InfillRegion F α)) :
    List (InfillRegion F α) :=
  incoming.foldl mergeRegion existing

/-- The staged regions after a commit: the first commit is staged as it is. -/
def stageRegions [DecidableEq F] (staged : Option (List (InfillRegion F α)))
    (incoming : List (InfillRegion F α)) : List (InfillRegion F α) :=
  match staged with
  | none => incoming
  | some existing => mergeInfillIr existing incoming

/-! ### Order locks -/

def globalBit : Nat := 2 ^ 63

/-- A tag allocated by a module: the global bit is clear. -/
def IsLocal (tag : Nat) : Prop :=
  tag &&& globalBit = 0

instance (tag : Nat) : Decidable (IsLocal tag) :=
  inferInstanceAs (Decidable (_ = _))

/-- One round of `remap_order_locks_to_global`, for a path with a tag. -/
def remapTag (tag nextGlobal : Nat) : Except String (Nat × Nat) :=
  if IsLocal tag then
    if tag = 0 then .error "order-lock tag 0 is invalid"
    else .ok (globalBit ||| nextGlobal, nextGlobal + 1)
  else if tag ≥ globalBit ||| nextGlobal then .error s!"unknown global tag {tag}"
  else .ok (tag, nextGlobal)

/-- `remap_order_locks_to_global`, with the counter after it. -/
def remapOrderLocksToGlobal (paths : List (ExtrusionPath3D F)) (nextGlobal : Nat) :
    Except String (List (ExtrusionPath3D F) × Nat) :=
  match paths with
  | [] => .ok ([], nextGlobal)
  | path :: rest =>
    match path.orderLock with
    | none => do
      let (rest, next) ← remapOrderLocksToGlobal rest nextGlobal
      .ok (path :: rest, next)
    | some tag => do
      let (tag, next) ← remapTag tag nextGlobal
      let (rest, next) ← remapOrderLocksToGlobal rest next
      .ok ({ path with orderLock := some tag } :: rest, next)

/-- `remap_infill_order_locks_from`: only sparse paths are rewritten. -/
def remapInfillOrderLocksFrom (regions : List (InfillRegion F (ExtrusionPath3D F))) (next : Nat) :
    Except String (List (InfillRegion F (ExtrusionPath3D F))) :=
  match regions with
  | [] => .ok []
  | region :: rest => do
    let (sparse, next) ← remapOrderLocksToGlobal region.sparseInfill next
    let rest ← remapInfillOrderLocksFrom rest next
    .ok ({ region with sparseInfill := sparse } :: rest)

/-- `next_global_infill_tag`: one more than the largest global tag, without its
global bit. -/
def nextGlobalInfillTag (regions : List (InfillRegion F (ExtrusionPath3D F))) : Nat :=
  let tags := ((regions.flatMap (·.sparseInfill)).filterMap (·.orderLock)).filter (¬ IsLocal ·)
  match (tags.map (· &&& (globalBit - 1))).max? with
  | none => 0
  | some max => max + 1

/-! ### Entities -/

/-- What one push of the drain receives: a path, its tool and its region key. -/
structure Part (F : Type) where
  path : ExtrusionPath3D F
  toolIndex : Nat
  regionKey : RegionKey F
deriving DecidableEq

/-- The layer, and what the drain reads beside the staged infill. -/
structure LayerInput (F : Type) where
  index : Nat
  z : F
  isRaft : Bool
  perimeterParts : List (Part F)
  raftParts : List (Part F)
  supportParts : List (Part F)
  variantToolByRegion : RegionKey F → Option Nat
  lookupToolByPointMm : F → F → Option Nat
  toolCount : Nat

def defaultTool : Nat := 0

/-- `material_tool`: the first tool a material paint of the chain names. -/
def materialTool (chain : List (String × PaintValue F)) : Option Nat :=
  chain.findSome? fun (semantic, value) =>
    match value with
    | .ToolIndex n => if semantic = "material" then some n else none
    | _ => none

/-- `infill_push`: the tool of an infill path. -/
def infillPart (layer : LayerInput F) (region : InfillRegion F (ExtrusionPath3D F))
    (path : ExtrusionPath3D F) : Part F :=
  let key : RegionKey F := ⟨layer.index, region.objectId, region.regionId, region.variantChain⟩
  let variantTool := (layer.variantToolByRegion key).or (materialTool region.variantChain)
  let spatialTool := path.points.head?.bind fun p => layer.lookupToolByPointMm p.x p.y
  let authoredTool := path.toolIndex.filter (· < layer.toolCount)
  let resolvedTool :=
    (authoredTool.or variantTool).or (if variantTool.isSome then none else spatialTool)
  ⟨path, resolvedTool.getD defaultTool, key⟩

/-- The parts the infill drains to, region by region. -/
def infillParts (layer : LayerInput F)
    (infill : Option (List (InfillRegion F (ExtrusionPath3D F)))) : List (Part F) :=
  (infill.getD []).flatMap fun region => region.drain.map (infillPart layer region)

/-- The pushes of the drain: ids count from one, `topo_order` is the position. -/
def pushParts (parts : List (Part F)) : List (PrintEntity F) :=
  parts.mapIdx fun position part =>
    { entityId := position + 1
      path := part.path
      role := part.path.role
      regionKey := part.regionKey
      topoOrder := position
      toolIndex := part.toolIndex }

/-- `assemble_ordered_entities_with_support_identities`. -/
def assembleOrderedEntities (layer : LayerInput F)
    (infill : Option (List (InfillRegion F (ExtrusionPath3D F)))) : List (PrintEntity F) :=
  if layer.isRaft then pushParts layer.raftParts
  else pushParts
    (layer.perimeterParts ++ infillParts layer infill ++ layer.raftParts ++ layer.supportParts)

/-! ### Order proposals -/

/-- The lock of the entity at an index. -/
def lockAt (entities : List (PrintEntity F)) (i : Nat) : Option Nat :=
  entities[i]?.bind (·.path.orderLock)

/-- The end of the run of one tag that starts at `start`. -/
def blockEnd (entities : List (PrintEntity F)) (tag start : Nat) : Nat :=
  start + 1 + ((entities.drop (start + 1)).takeWhile (·.path.orderLock = some tag)).length

/-- The proposal's entries for the indices from `start` up to `stop`, each with
its slot. -/
def blockEntries (proposal : List (Nat × Bool)) (start stop : Nat) : List ((Nat × Bool) × Nat) :=
  proposal.zipIdx.filter fun entry => start ≤ entry.1.1 && entry.1.1 < stop

/-- The check of `validate_entity_order_locks` on the block of `tag` at `start`. -/
def validateBlock (entities : List (PrintEntity F)) (proposal : List (Nat × Bool))
    (tag start : Nat) : Except String Unit :=
  let stop := blockEnd entities tag start
  let entries := blockEntries proposal start stop
  let slots := entries.map (·.2)
  if entries.any (·.1.2) then
    .error s!"set-entity-order: locked block {tag} was reversed"
  else if entries.length ≠ stop - start then
    .error s!"set-entity-order: locked block {tag} was split"
  else if (slots.zip slots.tail).all (fun pair => pair.2 = pair.1 + 1) &&
      entries.zipIdx.all (fun entry => entry.1.1.1 = start + entry.2) then
    .ok ()
  else .error s!"set-entity-order: locked block {tag} was interleaved or reordered"

/-- One round of `validate_entity_order_locks`: an index that starts no block is
skipped. -/
def validateStart (entities : List (PrintEntity F)) (proposal : List (Nat × Bool)) (start : Nat) :
    Except String Unit :=
  match lockAt entities start with
  | none => .ok ()
  | some tag =>
    if 0 < start ∧ lockAt entities (start - 1) = some tag then .ok ()
    else validateBlock entities proposal tag start

def validateEntityOrderLocks (entities : List (PrintEntity F)) (proposal : List (Nat × Bool)) :
    Except String Unit :=
  (List.range entities.length).forM (validateStart entities proposal)

/-- The first index that repeats an earlier one, if any. -/
def firstDuplicate (indices : List Nat) : Option Nat :=
  indices.zipIdx.findSome? fun (index, slot) =>
    if index ∈ indices.take slot then some index else none

/-- The three checks of `apply_order_proposal`. -/
def checkProposal (n : Nat) (proposal : List (Nat × Bool)) : Except String Unit :=
  if proposal.length ≠ n then
    .error s!"set-entity-order: expected {n} indices, got {proposal.length}"
  else match proposal.find? (fun entry => entry.1 ≥ n) with
    | some entry => .error s!"set-entity-order: index {entry.1} out of range [0, {n})"
    | none =>
      match firstDuplicate (proposal.map Prod.fst) with
      | some index => .error s!"set-entity-order: duplicate index {index}"
      | none => .ok ()

/-- The entity a proposal's entry puts in a slot. -/
def placeEntity (entities : List (PrintEntity F)) (entry : (Nat × Bool) × Nat) :
    Except String (PrintEntity F) :=
  match entities[entry.1.1]? with
  | none => .error "uniqueness validated above"
  | some entity =>
    if entry.1.2 then
      .ok { entity with
        path := { entity.path with points := entity.path.points.reverse }
        topoOrder := entry.2 }
    else .ok { entity with topoOrder := entry.2 }

def applyOrderProposal (entities : List (PrintEntity F)) (proposal : List (Nat × Bool)) :
    Except String (List (PrintEntity F)) := do
  checkProposal entities.length proposal
  proposal.zipIdx.mapM (placeEntity entities)

/-! ### The arena -/

structure RetractSpec (F : Type) where
  length : F
  speed : F
  isUnretract : Bool
  mode : RetractMode
deriving DecidableEq

structure TravelMoveDest (F : Type) where
  x : Option F
  y : Option F
  z : Option F
  f : Option F
deriving DecidableEq

structure DeferredTravelMove (F : Type) where
  afterEntityIndex : Nat
  dest : TravelMoveDest F
deriving DecidableEq

structure PathOptimizationCommit (F : Type) where
  toolChanges : List ToolChange := []
  zHops : List F := []
  annotations : List LayerAnnotationKind := []
  retracts : List (RetractSpec F) := []
  travelMoves : List (TravelMoveDest F) := []
  orderProposal : Option (List (Nat × Bool)) := none
deriving DecidableEq

/-- `LayerArena`, without the slots of the stages before infill. -/
structure LayerArena (F : Type) where
  infill : Option (InfillIR F) := none
  layerCollection : Option (LayerCollectionIR F) := none
  deferredToolChanges : List ToolChange := []
  deferredAnnotations : List LayerAnnotation := []
  deferredZHops : List (ZHop F) := []
  deferredRetracts : List (TravelRetract F) := []
  deferredTravelMoves : List (DeferredTravelMove F) := []
deriving DecidableEq

/-- `LayerStageError`, of which these two are raised here. -/
inductive LayerStageError where
  | FatalModule (stageId moduleId message : String)
  | OrderLockViolation (message : String)
deriving DecidableEq

/-- `StageApplyContext`, as far as it is read here. -/
structure StageApplyContext where
  stageId : String
  moduleId : String
deriving DecidableEq

def applyEntityOrderProposal (arena : LayerArena F) (proposal : List (Nat × Bool)) :
    Except String (LayerArena F) :=
  match arena.layerCollection with
  | none => .error "set-entity-order: no LayerCollectionIR staged on arena"
  | some collection => do
    validateEntityOrderLocks collection.orderedEntities proposal
    let entities ← applyOrderProposal collection.orderedEntities proposal
    .ok { arena with layerCollection := some { collection with orderedEntities := entities } }

/-- `apply`, the `Infill` arm. -/
def applyInfill [DecidableEq F] (arena : LayerArena F) (ir : InfillIR F) :
    Except LayerStageError (LayerArena F) := do
  let next := (arena.infill.map fun staged => nextGlobalInfillTag staged.regions).getD 0
  let regions ← (remapInfillOrderLocksFrom ir.regions next).mapError .OrderLockViolation
  .ok { arena with
    infill := some
      { globalLayerIndex :=
          (arena.infill.map fun staged => staged.globalLayerIndex).getD ir.globalLayerIndex
        regions := stageRegions (arena.infill.map fun staged => staged.regions) regions } }

/-- The order proposal of a commit, if it has one. -/
def applyProposal (ctx : StageApplyContext) (arena : LayerArena F) (c : PathOptimizationCommit F) :
    Except LayerStageError (LayerArena F) :=
  match c.orderProposal with
  | none => .ok arena
  | some proposal =>
    (applyEntityOrderProposal arena proposal).mapError (.FatalModule ctx.stageId ctx.moduleId)

/-- A z-hop is pushed only when its height is positive. -/
def pushZHop [LT F] [DecidableLT F] [Zero F] [ToString F] (ctx : StageApplyContext) (anchor : Nat)
    (hops : List (ZHop F)) (hopHeight : F) : Except LayerStageError (List (ZHop F)) :=
  if 0 < hopHeight then .ok (hops ++ [⟨anchor, hopHeight⟩])
  else .error (.FatalModule ctx.stageId ctx.moduleId
    s!"Layer::PathOptimization push-z-hop rejected: hop-height={hopHeight} is not finite and strictly positive")

/-- `apply`, the `PathOptimization` arm: the proposal first, then what is
deferred, anchored after the last entity. -/
def applyPathOptimization [LT F] [DecidableLT F] [Zero F] [ToString F] (ctx : StageApplyContext)
    (arena : LayerArena F) (c : PathOptimizationCommit F) :
    Except LayerStageError (LayerArena F) := do
  let arena ← applyProposal ctx arena c
  let anchor := (arena.layerCollection.map fun staged => staged.orderedEntities.length - 1).getD 0
  let hops ← c.zHops.foldlM (pushZHop ctx anchor) arena.deferredZHops
  .ok { arena with
    deferredToolChanges := arena.deferredToolChanges ++ c.toolChanges
    deferredZHops := hops
    deferredAnnotations := arena.deferredAnnotations ++ c.annotations.map fun kind => ⟨anchor, kind⟩
    deferredRetracts := arena.deferredRetracts ++
      c.retracts.map fun r => ⟨anchor, r.length, r.speed, r.isUnretract, r.mode⟩
    deferredTravelMoves := arena.deferredTravelMoves ++
      c.travelMoves.map fun dest => ⟨anchor, dest⟩ }

/-- `prestage_layer_collection_if_path_optimization`. -/
def prestageLayerCollection (layer : LayerInput F) (arena : LayerArena F) : LayerArena F :=
  match arena.layerCollection with
  | some _ => arena
  | none =>
    { arena with
      layerCollection := some
        { globalLayerIndex := layer.index
          z := layer.z
          orderedEntities :=
            assembleOrderedEntities layer (arena.infill.map fun staged => staged.regions) } }

end PinchNPrint.Layer
