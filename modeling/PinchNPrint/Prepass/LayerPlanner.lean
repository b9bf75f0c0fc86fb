/-
The default layer planner (`layer-planner-default`: `lib.rs`).

Every object brings the planes it wants to print at: a schedule of its own, or the uniform ones
`first_layer_height + n * layer_height`. Objects with one pair of heights share one sequence of
planes; otherwise the planes of all objects are united, and an object that has no plane of its own
where another one prints bridges the way from its last layer with a catch-up layer.

Heights are numbers of an ordered field, so the conversions between `f64` and `f32` change nothing.
The counter of a uniform sequence is a `u32`, and running past its end is a failure here.
-/

import Mathlib.Algebra.Order.Field.Basic
import PinchNPrint.Layer.Ir
import PinchNPrint.Lib.Deduplication
import PinchNPrint.Lib.Numerals

namespace PinchNPrint.Prepass

open Layer (ObjectId)

variable {F : Type} [Field F] [LinearOrder F]

/-! ### Plans and proposals -/

structure RegionLayerProposal (F : Type) where
  objectId : ObjectId
  regionId : String
  effectiveLayerHeight : F
  isCatchup : Bool
  catchupZBottom : F
deriving DecidableEq

structure ObjectPlan (F : Type) where
  objectId : ObjectId
  height : F
  layerHeight : F
  firstLayerHeight : F
  raftLayers : Nat
  layerZs : List F := []
deriving DecidableEq

/-- `ObjectPlan::has_explicit_schedule`. -/
def ObjectPlan.hasExplicitSchedule (plan : ObjectPlan F) : Bool :=
  !plan.layerZs.isEmpty

structure MergedLayer (F : Type) where
  z : F
  regions : List (RegionLayerProposal F)
deriving DecidableEq

/-- The tolerance of every comparison between heights. -/
def tolerance : F := 1 / 1000000

/-- Whether two heights count as one. -/
def sameHeight (a b : F) : Bool :=
  decide (|a - b| < tolerance)

/-- A region of the plan that is printed at one of its own planes. -/
def ObjectPlan.nativeRegion (plan : ObjectPlan F) (effectiveLayerHeight : F) :
    RegionLayerProposal F :=
  ⟨plan.objectId, "0", effectiveLayerHeight, false, 0⟩

/-- A region of the plan that bridges the way from its last layer. -/
def ObjectPlan.catchupRegion (plan : ObjectPlan F) (z bottomZ : F) : RegionLayerProposal F :=
  ⟨plan.objectId, "0", z - bottomZ, true, bottomZ⟩

/-! ### The raft -/

def raftTop (plans : List (ObjectPlan F)) : F :=
  ((plans.filter fun plan => decide (0 < plan.raftLayers)).map fun plan =>
    plan.firstLayerHeight + ((plan.raftLayers : F) - 1) * plan.layerHeight).foldl max 0

/-! ### Planes of one object -/

/-- Plane `n` of a uniform sequence. -/
def uniformZ (first step : F) (n : Nat) : F :=
  first + (n : F) * step

/-- How many numbers the layer counter has, a `u32`. -/
def layerNumbers : Nat := 2 ^ 32

/-- The planes from number `n` on up to the height, with so many numbers left in the counter. -/
def uniformZsFrom (first step height : F) : Nat → Nat → Option (List F)
  | 0, _ => none
  | left + 1, n =>
    let z := uniformZ first step n
    if z > height + tolerance then some []
    else (uniformZsFrom first step height left (n + 1)).map (z :: ·)

def generateObjectLayersF64 (plan : ObjectPlan F) : Option (List F) :=
  if plan.hasExplicitSchedule then some plan.layerZs
  else uniformZsFrom plan.firstLayerHeight plan.layerHeight plan.height layerNumbers 0

def generateObjectLayers (plan : ObjectPlan F) (raftTop : F) : Option (List F) :=
  (generateObjectLayersF64 plan).map fun zs => zs.map (raftTop + ·)

/-- `explicit_schedule_step`; the index is one of the schedule's. -/
def explicitScheduleStep (plan : ObjectPlan F) (index : Nat) : F :=
  if index = 0 then plan.firstLayerHeight
  else plan.layerZs.getD index 0 - plan.layerZs.getD (index - 1) 0

/-! ### Merging -/

/-- The loop of `merge_same_height`: the layers from number `n` on, above the ones there are. -/
def sameHeightFrom (plans : List (ObjectPlan F)) (raftTop first step maxHeight : F) :
    Nat → Nat → List (MergedLayer F) → Option (List (MergedLayer F))
  | 0, _, _ => none
  | left + 1, n, layers =>
    let baseZ := uniformZ first step n
    if baseZ > maxHeight + tolerance then some layers
    else
      let regions := (plans.filter fun plan => decide (baseZ ≤ plan.height + tolerance)).map
        fun plan => plan.nativeRegion
          (if layers.isEmpty then plan.firstLayerHeight else plan.layerHeight)
      sameHeightFrom plans raftTop first step maxHeight left (n + 1)
        (if regions.isEmpty then layers else layers ++ [⟨raftTop + baseZ, regions⟩])

/-- `merge_same_height`; of no plans there are no layers (the code is never asked). -/
def mergeSameHeight (plans : List (ObjectPlan F)) (raftTop : F) :
    Option (List (MergedLayer F)) :=
  match plans with
  | [] => some []
  | first :: _ =>
    sameHeightFrom plans raftTop first.firstLayerHeight first.layerHeight
      ((plans.map (·.height)).foldl max 0) layerNumbers 0 []

/-- An object on its way through the united planes: its planes and `last_z`. -/
structure Track (F : Type) where
  plan : ObjectPlan F
  objectZs : List F
  lastZ : F
deriving DecidableEq

/-- What the object prints at a plane of the union, if it takes part. -/
def Track.region (raftTop z : F) (track : Track F) : Option (RegionLayerProposal F) :=
  if z - raftTop > track.plan.height + tolerance then none
  else match track.objectZs.findIdx? fun objectZ => sameHeight objectZ z with
    | some nativeIndex =>
      some (track.plan.nativeRegion
        (if track.plan.hasExplicitSchedule then explicitScheduleStep track.plan nativeIndex
        else if sameHeight track.lastZ 0 then track.plan.firstLayerHeight
        else track.plan.layerHeight))
    | none =>
      if z - track.lastZ > tolerance then some (track.plan.catchupRegion z track.lastZ) else none

/-- The object after the plane: where it took part, that is its last. -/
def Track.advance (raftTop z : F) (track : Track F) : Track F :=
  if (track.region raftTop z).isSome then { track with lastZ := z } else track

/-- The loop of `merge_different_heights` over the united planes. -/
def mergeTracks (raftTop : F) : List (Track F) → List F → List (MergedLayer F)
  | _, [] => []
  | tracks, z :: rest =>
    let regions := tracks.filterMap (Track.region raftTop z)
    let layers := mergeTracks raftTop (tracks.map (Track.advance raftTop z)) rest
    if regions.isEmpty then layers else ⟨z, regions⟩ :: layers

def mergeDifferentHeights (plans : List (ObjectPlan F)) (raftTop : F) :
    Option (List (MergedLayer F)) := do
  let objectZs ← plans.mapM fun plan => generateObjectLayers plan raftTop
  let tracks := plans.zipWith (fun plan zs => ⟨plan, zs, 0⟩) objectZs
  return mergeTracks raftTop tracks (List.sortedUnion sameHeight objectZs.flatten)

/-- `all_same_height` of `merge_layer_sequences`. -/
def allSameHeight (first : ObjectPlan F) (plans : List (ObjectPlan F)) : Bool :=
  plans.all fun plan =>
    !plan.hasExplicitSchedule && sameHeight plan.layerHeight first.layerHeight &&
      sameHeight plan.firstLayerHeight first.firstLayerHeight

def mergeLayerSequences (plans : List (ObjectPlan F)) (raftTop : F) :
    Option (List (MergedLayer F)) :=
  match plans with
  | [] => some []
  | first :: _ =>
    if allSameHeight first plans then mergeSameHeight plans raftTop
    else mergeDifferentHeights plans raftTop

end PinchNPrint.Prepass
