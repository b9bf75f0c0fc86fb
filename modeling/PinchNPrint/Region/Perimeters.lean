/-
Perimeters of a layer (`slicer-ir`: `slice_ir.rs`), and the fill roles the host derives from
them (`slicer-runtime`: `region_partition.rs`).

Modules return wall loops and the area inside the walls. When they are committed, the areas
that prepass found for bridges, bottoms and tops are clipped to the area inside the walls of
their region, in this precedence, and the rest of it becomes sparse infill. Modifier children
have no perimeters and borrow those of their parent. The polygon booleans are parameters.
-/

import PinchNPrint.Region.Cutting

namespace PinchNPrint.Region

open Config
open Layer (Point3WithWidth ExtrusionPath3D)

variable {F : Type}

/-! ### Data -/

/-- `WallFeatureFlags`, of which the tool is read. -/
structure WallFeatureFlags where
  toolIndex : Option Nat := none
deriving DecidableEq

/-- `WallLoop`, as far as it is read. -/
structure WallLoop (F : Type) where
  path : ExtrusionPath3D F
  featureFlags : List WallFeatureFlags := []
deriving DecidableEq

inductive SeamReason where
  | Concave
  | Aligned
  | UserForced
  | Sharp
deriving DecidableEq

structure SeamCandidate (F : Type) where
  position : Point3WithWidth F
  score : F
  reason : SeamReason
deriving DecidableEq

structure SeamPosition (F : Type) where
  point : Point3WithWidth F
  wallIndex : Nat
deriving DecidableEq

structure PerimeterRegion (F : Type) where
  objectId : ObjectId
  regionId : Nat
  variantChain : VariantChain F := []
  walls : List (WallLoop F) := []
  infillAreas : List ExPolygon := []
  seamCandidates : List (SeamCandidate F) := []
  resolvedSeam : Option (SeamPosition F) := none
deriving DecidableEq

structure PerimeterIR (F : Type) where
  globalLayerIndex : Nat := 0
  regions : List (PerimeterRegion F) := []
deriving DecidableEq

/-- `polygon_ops`, with the union. -/
structure PolygonOps extends Booleans where
  union : List ExPolygon → List ExPolygon → List ExPolygon

/-! ### Fill roles -/

/-- The region whose perimeters a region has: a modifier child borrows those of its parent. -/
def SlicedRegion.perimeterRegionId (region : SlicedRegion F) : Nat :=
  (modifierBaseRegionId region.regionId).getD region.regionId

/-- The perimeters of an identity. The index is collected from all entries, so of several the
last one counts. -/
def PerimeterIR.find [DecidableEq F] (perimeter : PerimeterIR F) (identity : Identity F) :
    Option (PerimeterRegion F) :=
  perimeter.regions.reverse.find? fun perim =>
    (perim.objectId, perim.regionId, perim.variantChain) = identity

/-- The perimeters that a region is filled within. -/
def PerimeterIR.donor [DecidableEq F] (perimeter : PerimeterIR F) (region : SlicedRegion F) :
    Option (PerimeterRegion F) :=
  perimeter.find (region.objectId, region.perimeterRegionId, region.variantChain)

section Roles

variable (ops : PolygonOps) (perim : PerimeterRegion F) (region : SlicedRegion F)

/-- The wall inset of a region: a parent is clipped to its own polygons, which its modifier
children have left. -/
def wallInset : List ExPolygon :=
  ops.intersection perim.infillAreas region.polygons

/-- There are walls, and nothing inside them. -/
def wallsConsumedRegion : Bool :=
  (wallInset ops perim region).isEmpty && !perim.walls.isEmpty

/-- The bridges. A child whose bridges lie in the inset keeps them as they are. -/
def bridgeRole : List ExPolygon :=
  let inset := wallInset ops perim region
  if wallsConsumedRegion ops perim region then []
  else if inset.isEmpty then region.bridgeAreas
  else if isModifierNamespaceId region.regionId &&
      (ops.difference region.bridgeAreas inset).isEmpty then region.bridgeAreas
  else ops.intersection region.bridgeAreas inset

/-- The bottoms, without the bridges. -/
def bottomRole : List ExPolygon :=
  let inset := wallInset ops perim region
  if inset.isEmpty then []
  else ops.difference (ops.intersection region.bottomSolidFill inset) (bridgeRole ops perim region)

/-- The tops, without the bridges and the bottoms. A region without walls or inset keeps the
tops that prepass found, for ironing. -/
def topRole : List ExPolygon :=
  let inset := wallInset ops perim region
  let bridgeOrBottom := ops.union (bridgeRole ops perim region) (bottomRole ops perim region)
  if wallsConsumedRegion ops perim region then []
  else if inset.isEmpty then ops.difference region.topSolidFill bridgeOrBottom
  else ops.difference (ops.intersection region.topSolidFill inset) bridgeOrBottom

/-- The rest of the inset. -/
def sparseRole : List ExPolygon :=
  ops.difference (wallInset ops perim region)
    (ops.union (ops.union (bridgeRole ops perim region) (bottomRole ops perim region))
      (topRole ops perim region))

/-- The region with its roles. -/
def assignRoles : SlicedRegion F :=
  { region with
    bridgeAreas := bridgeRole ops perim region
    bottomSolidFill := bottomRole ops perim region
    topSolidFill := topRole ops perim region
    sparseInfillArea := sparseRole ops perim region }

end Roles

section Sync

variable [DecidableEq F] (ops : PolygonOps)

/-- One round of `sync_perimeter_infill_areas_into_slice`: staged footprints and regions
without perimeters are passed over. -/
def syncRegion (perimeter : PerimeterIR F) (region : SlicedRegion F) : SlicedRegion F :=
  if region.regionId = MODIFIER_FOOTPRINT_REGION_ID then region
  else
    match perimeter.donor region with
    | none => region
    | some perim => assignRoles ops perim region

/-- The footprints staged on a slice. -/
def stagedFootprints (slice : SliceIR F) : List (ObjectId × List ExPolygon) :=
  (slice.regions.filter (·.regionId = MODIFIER_FOOTPRINT_REGION_ID)).map fun region =>
    (region.objectId, region.polygons)

def splitModifierFootprints (booleans : Booleans) (slice : SliceIR F) :
    Except (SplitError F) (SliceIR F) :=
  if (stagedFootprints slice).isEmpty then .ok slice
  else splitRegionsByModifierFootprints booleans { slice with regions := retainedRegions slice }
    (stagedFootprints slice)

/-- The slice that `sync_perimeter_infill_areas_into_slice` puts back. -/
def syncSlice (perimeter : PerimeterIR F) (slice : SliceIR F) :
    Except (SplitError F) (SliceIR F) :=
  splitModifierFootprints ops.toBooleans
    { slice with regions := slice.regions.map (syncRegion ops perimeter) }

variable {ops} {perimeter : PerimeterIR F} {region : SlicedRegion F} {slice result : SliceIR F}

@[simp] theorem identity_syncRegion :
    (syncRegion ops perimeter region).identity = region.identity := by
  unfold syncRegion
  split
  · rfl
  · split <;> rfl

@[simp] theorem polygons_syncRegion :
    (syncRegion ops perimeter region).polygons = region.polygons := by
  unfold syncRegion
  split
  · rfl
  · split <;> rfl

@[simp] theorem regionId_syncRegion :
    (syncRegion ops perimeter region).regionId = region.regionId :=
  congrArg (fun identity : Identity F => identity.2.1) identity_syncRegion

@[simp] theorem objectId_syncRegion :
    (syncRegion ops perimeter region).objectId = region.objectId :=
  congrArg (fun identity : Identity F => identity.1) identity_syncRegion

/-- The roles change neither the footprints nor which regions are kept. -/
theorem stagedFootprints_sync : stagedFootprints
    { slice with regions := slice.regions.map (syncRegion ops perimeter) } =
      stagedFootprints slice := by
  unfold stagedFootprints
  rw [List.filter_map, List.map_map]
  simp only [Function.comp_def, regionId_syncRegion, objectId_syncRegion, polygons_syncRegion]

theorem retainedRegions_sync : retainedRegions
    { slice with regions := slice.regions.map (syncRegion ops perimeter) } =
      (retainedRegions slice).map (syncRegion ops perimeter) := by
  unfold retainedRegions
  rw [List.filter_map]
  simp only [Function.comp_def, regionId_syncRegion]

/-- Splitting at the staged footprints: where there are none, there is nothing to do. -/
theorem splitModifierFootprints_eq_ok_iff {booleans : Booleans} :
    splitModifierFootprints booleans slice = .ok result ↔
      HaveRoom booleans (retainedRegions slice) (stagedFootprints slice) ∧
      Fresh ((retainedRegions slice).map (·.identity))
        ((mintedBy booleans (retainedRegions slice) (stagedFootprints slice)).map (·.identity)) ∧
      result = { slice with
        regions := (retainedRegions slice).map (·.remainder booleans (stagedFootprints slice)) ++
          mintedBy booleans (retainedRegions slice) (stagedFootprints slice) } := by
  unfold splitModifierFootprints
  split
  case isFalse => exact splitRegions_eq_ok_iff
  case isTrue hempty =>
    have hstaged := List.isEmpty_iff.mp hempty
    have hretained : retainedRegions slice = slice.regions := by
      refine List.filter_eq_self.mpr fun region hregion => ?_
      have hnone := List.filter_eq_nil_iff.mp (List.map_eq_nil_iff.mp hstaged) region hregion
      simpa using hnone
    have hroom : HaveRoom booleans slice.regions [] := fun _ _ h => absurd rfl h
    have hsame : slice.regions.map (·.remainder booleans []) = slice.regions := List.map_id _
    rw [hstaged, hretained, mintedBy, hsame, List.append_nil, List.map_nil]
    constructor
    · intro h
      cases h
      exact ⟨hroom, fresh_nil, rfl⟩
    · rintro ⟨_, _, rfl⟩
      rfl

end Sync

end PinchNPrint.Region
