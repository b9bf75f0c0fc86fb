/-
Commits that change the staged slice (`slicer-runtime`: `layer_executor.rs`,
`region_partition.rs`, `blackboard.rs`).

Perimeters and slice updates take the slice out of the layer arena, change it and put it back.
What fails in between returns without it: an update that names no region or vertex, or a
footprint that cannot be split off. Only where perimeters are missing the slice is put back
before the error.

`slice_survives_iff`: a failed commit leaves the slice in place exactly when there was none, or
when nothing of this kind can fail.
-/

import PinchNPrint.Layer.Commit
import PinchNPrint.Region.Perimeters

namespace PinchNPrint.Region

open Config
open Layer (RegionKey)

variable {F : Type}

/-! ### The arena -/

/-- `LayerArenaSlot`, of the slots below. -/
inductive LayerArenaSlot where
  | Slice
  | Perimeter
deriving DecidableEq

/-- The slots of `LayerArena` that these commits use. -/
structure SliceArena (F : Type) where
  slice : Option (SliceIR F) := none
  perimeter : Option (PerimeterIR F) := none
deriving DecidableEq

/-- `LayerStageError`, of which these are raised here. The error of splitting stands for its
text in a `FatalModule`. -/
inductive LayerStageError (F : Type) where
  | FatalModule (stageId moduleId message : String)
  | FatalSplit (stageId moduleId : String) (error : SplitError F)
  | ArenaCommit (slot : LayerArenaSlot)

/-- What a commit leaves and returns. -/
abbrev Outcome (F : Type) := SliceArena F × Except (LayerStageError F) Unit

namespace SliceArena

def takeSlice (arena : SliceArena F) : Option (SliceIR F) × SliceArena F :=
  (arena.slice, { arena with slice := none })

/-- `set_slice`: an occupied slot is not overwritten. -/
def setSlice (arena : SliceArena F) (ir : SliceIR F) : Outcome F :=
  if arena.slice.isSome then (arena, .error (.ArenaCommit .Slice))
  else ({ arena with slice := some ir }, .ok ())

def takePerimeter (arena : SliceArena F) : Option (PerimeterIR F) × SliceArena F :=
  (arena.perimeter, { arena with perimeter := none })

def setPerimeter (arena : SliceArena F) (ir : PerimeterIR F) : Outcome F :=
  if arena.perimeter.isSome then (arena, .error (.ArenaCommit .Perimeter))
  else ({ arena with perimeter := some ir }, .ok ())

end SliceArena

/-- The operator `?` between two steps on the arena. -/
def andThen (outcome : Outcome F) (next : SliceArena F → Outcome F) : Outcome F :=
  match outcome with
  | (arena, .error error) => (arena, .error error)
  | (arena, .ok ()) => next arena

/-! ### Seams -/

/-- `SeamPlanEntry`, as far as it is read. -/
structure SeamPlanEntry (F : Type) where
  regionKey : RegionKey F
  chosenCandidate : SeamPosition F

/-- `StageApplyContext`, with what perimeters need. -/
structure SliceApplyContext (F : Type) extends Layer.StageApplyContext where
  layerIndex : Nat
  seamPlan : Option (List (SeamPlanEntry F)) := none

section Seams

variable [DecidableEq F]

/-- The planned seam of a region; the full key counts. -/
def plannedSeam (seamPlan : List (SeamPlanEntry F)) (layerIndex : Nat)
    (region : PerimeterRegion F) : Option (SeamPosition F) :=
  (seamPlan.find? fun entry =>
    entry.regionKey = ⟨layerIndex, region.objectId, region.regionId, region.variantChain⟩).map
      (·.chosenCandidate)

/-- `backfill_resolved_seam`: a region keeps the seam it has. -/
def backfillResolvedSeam (seamPlan : List (SeamPlanEntry F)) (layerIndex : Nat)
    (perim : PerimeterIR F) : PerimeterIR F :=
  { perim with
    regions := perim.regions.map fun region =>
      { region with
        resolvedSeam := region.resolvedSeam.or (plannedSeam seamPlan layerIndex region) } }

/-- The seams of perimeters filled in from the plan, if there is one. -/
def backfill (ctx : SliceApplyContext F) (perim : PerimeterIR F) : PerimeterIR F :=
  match ctx.seamPlan with
  | none => perim
  | some seamPlan => backfillResolvedSeam seamPlan ctx.layerIndex perim

/-- What a region of a post-process keeps of the one it replaces. -/
def preserveFields (original : PerimeterIR F) (region : PerimeterRegion F) : PerimeterRegion F :=
  match original.regions.find? fun r =>
      r.objectId = region.objectId ∧ r.regionId = region.regionId ∧
        r.variantChain = region.variantChain with
  | none => region
  | some orig =>
      { region with
        resolvedSeam := region.resolvedSeam.or orig.resolvedSeam
        infillAreas := if region.infillAreas.isEmpty then orig.infillAreas else region.infillAreas
        seamCandidates := if region.seamCandidates.isEmpty then orig.seamCandidates
          else region.seamCandidates }

end Seams

/-! ### Updates of a slice -/

/-- The identity that a key names. -/
def keyIdentity (key : RegionKey F) : Identity F :=
  (key.objectId, key.regionId, key.variantChain)

/-- A polygon update: a region and its new polygons. -/
abbrev PolygonUpdate (F : Type) := RegionKey F × List ExPolygon

/-- A path update: a region, a polygon, a vertex and its height. -/
structure PathZUpdate (F : Type) where
  key : RegionKey F
  pathIdx : Nat
  vertexIdx : Nat
  z : F

/-- `mk_validation_err`. -/
def validationError (ctx : SliceApplyContext F) (what reason : String) : LayerStageError F :=
  .FatalModule ctx.stageId ctx.moduleId s!"invalid {what} output: {reason}"

section Updates

variable [DecidableEq F]

/-- The first region of an identity. -/
def regionIndex (slice : SliceIR F) (key : RegionKey F) : Option Nat :=
  slice.regions.findIdx? fun region => region.identity = keyIdentity key

/-- One polygon update. -/
def applyPolygonUpdate (ctx : SliceApplyContext F) (existing : SliceIR F)
    (entry : PolygonUpdate F × Nat) : Except (LayerStageError F) (SliceIR F) :=
  match regionIndex existing entry.1.1 with
  | none => .error (validationError ctx "slice postprocess"
      s!"polygon_update[{entry.2}] targets unknown region (object_id='{entry.1.1.objectId}', region_id='{entry.1.1.regionId}')")
  | some index => .ok { existing with
      regions := existing.regions.modify index fun region =>
        { region with polygons := entry.1.2 } }

/-- One path update is checked; its height is not used. -/
def checkPathZUpdate (ctx : SliceApplyContext F) (existing : SliceIR F)
    (entry : PathZUpdate F × Nat) : Except (LayerStageError F) Unit :=
  let key := entry.1.key
  match (regionIndex existing key).bind fun index => existing.regions[index]? with
  | none => .error (validationError ctx "slice postprocess"
      s!"path_z_update[{entry.2}] targets unknown region (object_id='{key.objectId}', region_id='{key.regionId}')")
  | some region =>
      match region.polygons[entry.1.pathIdx]? with
      | none => .error (validationError ctx "slice postprocess"
          s!"path_z_update[{entry.2}]: polygon index {entry.1.pathIdx} out of range for region ({key.objectId}, {key.regionId}) with {region.polygons.length} polygons")
      | some polygon =>
          if polygon.contour.length ≤ entry.1.vertexIdx then
            .error (validationError ctx "slice postprocess"
              s!"path_z_update[{entry.2}]: vertex index {entry.1.vertexIdx} out of range for contour with {polygon.contour.length} points")
          else .ok ()

/-- The updates of a commit, one after the other. -/
def updateSlice (ctx : SliceApplyContext F) (existing : SliceIR F)
    (polygonUpdates : List (PolygonUpdate F)) (pathZUpdates : List (PathZUpdate F)) :
    Except (LayerStageError F) (SliceIR F) := do
  let existing ← polygonUpdates.zipIdx.foldlM (applyPolygonUpdate ctx) existing
  pathZUpdates.zipIdx.forM (checkPathZUpdate ctx existing)
  .ok existing

end Updates

/-! ### Commits -/

/-- `LayerStageCommit`: the arms that change the staged slice. -/
inductive SliceCommit (F : Type) where
  | Perimeters (ir : PerimeterIR F)
  | PerimetersPostProcess (ir : Option (PerimeterIR F))
  | SlicePostProcess (polygonUpdates : List (PolygonUpdate F))
      (pathZUpdates : List (PathZUpdate F))

section Apply

variable [DecidableEq F] (ops : PolygonOps)

def syncPerimeterInfillAreasIntoSlice (layerIndex : Nat) (arena : SliceArena F) : Outcome F :=
  match arena.takeSlice with
  | (none, arena) => (arena, .error (.FatalModule "Layer::Perimeters" "host:region_partition"
      s!"region_partition at layer {layerIndex}: no staged SliceIR (host built-in PrePass::Slice must commit before Layer::Perimeters runs)"))
  | (some slice, arena) =>
      match arena.perimeter with
      | none => ((arena.setSlice slice).1, .error
          (.FatalModule "Layer::Perimeters" "host:region_partition"
            s!"region_partition at layer {layerIndex}: no staged PerimeterIR (Layer::Perimeters must commit before this hook fires)"))
      | some perimeter =>
          match syncSlice ops perimeter slice with
          | .error error =>
              (arena, .error (.FatalSplit "Layer::Perimeters" "host:region_partition" error))
          | .ok slice => arena.setSlice slice

/-- `apply`, the `Perimeters` arm. -/
def applyPerimeters (ctx : SliceApplyContext F) (arena : SliceArena F) (ir : PerimeterIR F) :
    Outcome F :=
  andThen (arena.takePerimeter.2.setPerimeter (backfill ctx ir))
    (syncPerimeterInfillAreasIntoSlice ops ctx.layerIndex)

/-- The perimeters that a post-process leaves: its own, with the fields that it preserves, or
those that were there. -/
def postProcessed (ctx : SliceApplyContext F) (incoming original : Option (PerimeterIR F)) :
    Option (PerimeterIR F) :=
  match incoming, original.map (backfill ctx) with
  | some ir, some original => some { ir with regions := ir.regions.map (preserveFields original) }
  | some ir, none => some ir
  | none, original => original

/-- `apply`, the `PerimetersPostProcess` arm. -/
def applyPerimetersPostProcess (ctx : SliceApplyContext F) (arena : SliceArena F)
    (incoming : Option (PerimeterIR F)) : Outcome F :=
  let (original, arena) := arena.takePerimeter
  let staged := match postProcessed ctx incoming original with
    | none => (arena, .ok ())
    | some ir => arena.setPerimeter ir
  andThen staged fun arena =>
    if arena.perimeter.isSome then syncPerimeterInfillAreasIntoSlice ops ctx.layerIndex arena
    else (arena, .ok ())

/-- `apply`, the `SlicePostProcess` arm. -/
def applySlicePostProcess (ctx : SliceApplyContext F) (arena : SliceArena F)
    (polygonUpdates : List (PolygonUpdate F)) (pathZUpdates : List (PathZUpdate F)) : Outcome F :=
  match arena.takeSlice with
  | (none, arena) => (arena, .error (.FatalModule ctx.stageId ctx.moduleId
      "Layer::SlicePostProcess has no staged SliceIR to merge into; Layer::Slice must commit per-region slice output first"))
  | (some existing, arena) =>
      match updateSlice ctx existing polygonUpdates pathZUpdates with
      | .error error => (arena, .error error)
      | .ok existing => arena.setSlice existing

/-- `apply`, on these arms. -/
def applySliceCommit (ctx : SliceApplyContext F) (arena : SliceArena F) :
    SliceCommit F → Outcome F
  | .Perimeters ir => applyPerimeters ops ctx arena ir
  | .PerimetersPostProcess ir => applyPerimetersPostProcess ops ctx arena ir
  | .SlicePostProcess polygonUpdates pathZUpdates =>
      applySlicePostProcess ctx arena polygonUpdates pathZUpdates

end Apply

/-! ### What resolves -/

section Resolves

variable [DecidableEq F] {ctx : SliceApplyContext F} {slice slice' : SliceIR F}
  {polygonUpdates : List (PolygonUpdate F)} {pathZUpdates : List (PathZUpdate F)}

/-- The polygons of the first region of an identity. -/
def SliceIR.polygonsOf (slice : SliceIR F) (identity : Identity F) : Option (List ExPolygon) :=
  (slice.regions.find? (·.identity = identity)).map (·.polygons)

/-- What polygon updates make of the polygons of an identity: the last one counts. -/
def polygonsAfter (slice : SliceIR F) (polygonUpdates : List (PolygonUpdate F))
    (identity : Identity F) : Option (List ExPolygon) :=
  polygonUpdates.foldl
    (fun polygons update => if keyIdentity update.1 = identity then some update.2 else polygons)
    (slice.polygonsOf identity)

/-- Every polygon update names a region, and every path update a vertex. -/
structure UpdatesResolve (slice : SliceIR F) (polygonUpdates : List (PolygonUpdate F))
    (pathZUpdates : List (PathZUpdate F)) : Prop where
  regions : ∀ update ∈ polygonUpdates, ∃ region ∈ slice.regions,
    region.identity = keyIdentity update.1
  vertices : ∀ update ∈ pathZUpdates,
    ∃ polygons, polygonsAfter slice polygonUpdates (keyIdentity update.key) = some polygons ∧
      ∃ polygon, polygons[update.pathIdx]? = some polygon ∧
        update.vertexIdx < polygon.contour.length

theorem isSome_polygonsOf {identity : Identity F} :
    (slice.polygonsOf identity).isSome = true ↔
      ∃ region ∈ slice.regions, region.identity = identity := by
  simp [SliceIR.polygonsOf]

/-- The polygons of the first region of an identity, replaced. -/
theorem polygonsOf_modify {regions : List (SlicedRegion F)} {identity : Identity F} {index : Nat}
    (h : regions.findIdx? (·.identity = identity) = some index) (polygons : List ExPolygon)
    (other : Identity F) :
    ((regions.modify index fun region => { region with polygons }).find?
        (·.identity = other)).map (·.polygons) =
      if identity = other then some polygons
      else (regions.find? (·.identity = other)).map (·.polygons) := by
  induction regions generalizing index with
  | nil => simp at h
  | cons region rest ih =>
    rw [List.findIdx?_cons] at h
    by_cases hregion : region.identity = identity
    · rw [if_pos (decide_eq_true hregion)] at h
      obtain rfl := Option.some.inj h
      rw [List.modify_zero_cons, List.find?_cons, List.find?_cons, hregion,
        show SlicedRegion.identity { region with polygons } = identity from hregion]
      by_cases hother : identity = other <;> simp [hother]
    · rw [if_neg (by simpa using hregion)] at h
      obtain ⟨before, hbefore, rfl⟩ := Option.map_eq_some_iff.mp h
      rw [List.modify_succ_cons, List.find?_cons, List.find?_cons]
      by_cases hother : region.identity = other
      · have hne : identity ≠ other := fun heq => hregion (hother.trans heq.symm)
        simp [hother, hne]
      · simp only [hother, decide_false]
        exact ih hbefore

/-- One polygon update: it needs its region, and then replaces its polygons. -/
theorem applyPolygonUpdate_ok (ctx : SliceApplyContext F) {update : PolygonUpdate F} (n : Nat)
    (h : (slice.polygonsOf (keyIdentity update.1)).isSome = true) :
    ∃ slice', applyPolygonUpdate ctx slice (update, n) = .ok slice' ∧
      ∀ identity, slice'.polygonsOf identity =
        if keyIdentity update.1 = identity then some update.2 else slice.polygonsOf identity := by
  obtain ⟨index, hindex⟩ : ∃ index, regionIndex slice update.1 = some index := by
    rw [← Option.isSome_iff_exists, regionIndex, List.findIdx?_isSome, List.any_eq_true]
    simpa using isSome_polygonsOf.mp h
  refine ⟨_, by rw [applyPolygonUpdate, hindex], fun identity => ?_⟩
  exact polygonsOf_modify hindex update.2 identity

theorem applyPolygonUpdate_error (ctx : SliceApplyContext F) {update : PolygonUpdate F} (n : Nat)
    (h : (slice.polygonsOf (keyIdentity update.1)).isSome = false) :
    ∃ error, applyPolygonUpdate ctx slice (update, n) = .error error := by
  have hnone : regionIndex slice update.1 = none := by
    rw [← Option.not_isSome_iff_eq_none, regionIndex, List.findIdx?_isSome, List.any_eq_true]
    intro hsome
    refine Bool.eq_false_iff.mp h (isSome_polygonsOf.mpr ?_)
    simpa using hsome
  exact ⟨_, by rw [applyPolygonUpdate, hnone]⟩

/-- All polygon updates, when each names a region. -/
theorem foldlM_applyPolygonUpdate_ok (ctx : SliceApplyContext F) (n : Nat)
    (h : ∀ update ∈ polygonUpdates, (slice.polygonsOf (keyIdentity update.1)).isSome = true) :
    ∃ slice', (polygonUpdates.zipIdx n).foldlM (applyPolygonUpdate ctx) slice = .ok slice' ∧
      ∀ identity, slice'.polygonsOf identity = polygonsAfter slice polygonUpdates identity := by
  induction polygonUpdates generalizing slice n with
  | nil => exact ⟨slice, rfl, fun _ => rfl⟩
  | cons update rest ih =>
    obtain ⟨next, hnext, hpolygons⟩ :=
      applyPolygonUpdate_ok ctx n (h update List.mem_cons_self)
    have hrest : ∀ other ∈ rest, (next.polygonsOf (keyIdentity other.1)).isSome = true := by
      intro other hother
      rw [hpolygons]
      split
      · rfl
      · exact h other (List.mem_cons_of_mem _ hother)
    obtain ⟨slice', hslice', hafter⟩ := ih (n + 1) hrest
    refine ⟨slice', ?_, fun identity => ?_⟩
    · rw [List.zipIdx_cons, List.foldlM_cons, hnext]
      exact hslice'
    · rw [hafter, polygonsAfter, polygonsAfter, hpolygons, List.foldl_cons]

theorem foldlM_applyPolygonUpdate_error (ctx : SliceApplyContext F) (n : Nat)
    (h : ¬ ∀ update ∈ polygonUpdates, (slice.polygonsOf (keyIdentity update.1)).isSome = true) :
    ∃ error, (polygonUpdates.zipIdx n).foldlM (applyPolygonUpdate ctx) slice = .error error := by
  induction polygonUpdates generalizing slice n with
  | nil => exact absurd (fun _ h => nomatch h) h
  | cons update rest ih =>
    rw [List.zipIdx_cons, List.foldlM_cons]
    cases hfirst : (slice.polygonsOf (keyIdentity update.1)).isSome with
    | false =>
      obtain ⟨error, herror⟩ := applyPolygonUpdate_error ctx n hfirst
      exact ⟨error, by rw [herror]; rfl⟩
    | true =>
      obtain ⟨next, hnext, hpolygons⟩ := applyPolygonUpdate_ok ctx n hfirst
      rw [hnext]
      refine ih (n + 1) fun hrest => h fun other hother => ?_
      rcases List.mem_cons.mp hother with rfl | hother
      · exact hfirst
      · have hsome := hrest other hother
        rw [hpolygons] at hsome
        split at hsome
        · next heq => rw [← heq]; exact hfirst
        · exact hsome

theorem checkPathZUpdate_eq_ok_iff {update : PathZUpdate F} {n : Nat} :
    checkPathZUpdate ctx slice (update, n) = .ok () ↔
      ∃ polygons, slice.polygonsOf (keyIdentity update.key) = some polygons ∧
        ∃ polygon, polygons[update.pathIdx]? = some polygon ∧
          update.vertexIdx < polygon.contour.length := by
  have hfirst : (regionIndex slice update.key).bind (fun index => slice.regions[index]?) =
      slice.regions.find? (·.identity = keyIdentity update.key) :=
    List.find?_eq_bind_findIdx?_getElem?.symm
  unfold checkPathZUpdate
  simp only [hfirst, SliceIR.polygonsOf, Option.map_eq_some_iff]
  cases slice.regions.find? (·.identity = keyIdentity update.key) with
  | none => simp
  | some region =>
    cases hpolygon : region.polygons[update.pathIdx]? with
    | none => simp [hpolygon]
    | some polygon =>
      simp only [hpolygon, Option.some.injEq, exists_eq_left', ← Nat.not_le]
      split <;> simp_all

theorem forM_checkPathZUpdate_iff
    (hafter : ∀ identity, slice'.polygonsOf identity = polygonsAfter slice polygonUpdates identity) :
    pathZUpdates.zipIdx.forM (checkPathZUpdate ctx slice') = .ok () ↔
      ∀ update ∈ pathZUpdates,
        ∃ polygons, polygonsAfter slice polygonUpdates (keyIdentity update.key) = some polygons ∧
          ∃ polygon, polygons[update.pathIdx]? = some polygon ∧
            update.vertexIdx < polygon.contour.length := by
  rw [Except.forM_eq_ok_iff]
  constructor
  · intro h update hupdate
    obtain ⟨n, hn⟩ := List.getElem?_of_mem hupdate
    have hcheck := h (update, n) (List.mem_zipIdx_iff_getElem?.mpr hn)
    rw [← hafter]
    exact checkPathZUpdate_eq_ok_iff.mp hcheck
  · rintro h ⟨update, n⟩ hentry
    have hvertex := h update (List.mem_of_getElem? (List.mem_zipIdx_iff_getElem?.mp hentry))
    rw [← hafter] at hvertex
    exact checkPathZUpdate_eq_ok_iff.mpr hvertex

/-- The updates go through exactly when all of them resolve. -/
theorem exists_updateSlice_iff (ctx : SliceApplyContext F) :
    (∃ slice', updateSlice ctx slice polygonUpdates pathZUpdates = .ok slice') ↔
      UpdatesResolve slice polygonUpdates pathZUpdates := by
  have hregions : (∀ update ∈ polygonUpdates,
      (slice.polygonsOf (keyIdentity update.1)).isSome = true) ↔
        ∀ update ∈ polygonUpdates, ∃ region ∈ slice.regions,
          region.identity = keyIdentity update.1 := by
    simp only [isSome_polygonsOf]
  constructor
  · rintro ⟨slice', h⟩
    obtain ⟨updated, hupdated, hchecks⟩ := Except.bind_eq_ok_iff.mp h
    obtain ⟨_, hchecks, -⟩ := Except.bind_eq_ok_iff.mp hchecks
    by_cases hknown : ∀ update ∈ polygonUpdates,
        (slice.polygonsOf (keyIdentity update.1)).isSome = true
    · obtain ⟨_, hfold, hafter⟩ := foldlM_applyPolygonUpdate_ok ctx 0 hknown
      obtain rfl := Except.ok.inj (hupdated.symm.trans hfold)
      exact ⟨hregions.mp hknown, (forM_checkPathZUpdate_iff hafter).mp hchecks⟩
    · obtain ⟨error, herror⟩ := foldlM_applyPolygonUpdate_error ctx 0 hknown
      exact nomatch hupdated.symm.trans herror
  · rintro ⟨hknown, hvertices⟩
    obtain ⟨updated, hfold, hafter⟩ :=
      foldlM_applyPolygonUpdate_ok ctx 0 (hregions.mpr hknown)
    exact ⟨updated, Except.bind_eq_ok_iff.mpr ⟨updated, hfold, Except.bind_eq_ok_iff.mpr
      ⟨(), (forM_checkPathZUpdate_iff hafter).mpr hvertices, rfl⟩⟩⟩

end Resolves

/-! ### What fits -/

section Fits

variable {booleans : Booleans} {ops : PolygonOps} {perimeter : PerimeterIR F} {slice : SliceIR F}
  {regions : List (SlicedRegion F)} {cuts : List (ObjectId × List ExPolygon)}

/-- The footprints staged on a slice can be split off: the regions they cut have room for the
ids of their children, and these are new. -/
def FootprintsFit (booleans : Booleans) (slice : SliceIR F) : Prop :=
  HaveRoom booleans (retainedRegions slice) (stagedFootprints slice) ∧
    Fresh ((retainedRegions slice).map (·.identity))
      ((mintedBy booleans (retainedRegions slice) (stagedFootprints slice)).map (·.identity))

theorem identities_mintedBy_perm :
    ((mintedBy booleans regions cuts).map (·.identity)).Perm
      (regions.flatMap fun region =>
        ((region.stages booleans cuts).map fun stage => (stage.1.identity, stage.2)).map
          fun stage : Identity F × List ExPolygon =>
            (stage.1.1, (modifierSubRegionId stage.1.2.1 stage.1.1 stage.2).getD 0, stage.1.2.2)) := by
  refine ((mintedBy_perm regions cuts).map _).trans (.of_eq ?_)
  rw [List.map_flatMap]
  refine List.flatMap_congr fun region _ => ?_
  rw [List.map_map, List.map_map]
  refine List.map_congr_left fun stage _ => ?_
  exact identity_stageChild stage

variable [DecidableEq F]

/-- The roles change nothing about what fits. -/
theorem footprintsFit_sync (ops : PolygonOps) (perimeter : PerimeterIR F) : FootprintsFit booleans
    { slice with regions := slice.regions.map (syncRegion ops perimeter) } ↔
      FootprintsFit booleans slice := by
  have hstages : ∀ region : SlicedRegion F,
      ((syncRegion ops perimeter region).stages booleans (stagedFootprints slice)).map
          (fun stage => (stage.1.identity, stage.2)) =
        (region.stages booleans (stagedFootprints slice)).map
          (fun stage => (stage.1.identity, stage.2)) :=
    fun region => stages_congr identity_syncRegion polygons_syncRegion
  have hnil : ∀ region : SlicedRegion F,
      (syncRegion ops perimeter region).stages booleans (stagedFootprints slice) = [] ↔
        region.stages booleans (stagedFootprints slice) = [] := by
    intro region
    rw [← List.map_eq_nil_iff (f := fun stage => (stage.1.identity, stage.2)), hstages,
      List.map_eq_nil_iff]
  have hminted : ((mintedBy booleans ((retainedRegions slice).map (syncRegion ops perimeter))
      (stagedFootprints slice)).map (·.identity)).Perm
        ((mintedBy booleans (retainedRegions slice) (stagedFootprints slice)).map (·.identity)) := by
    refine identities_mintedBy_perm.trans (.trans (.of_eq ?_) identities_mintedBy_perm.symm)
    rw [List.flatMap_map]
    refine List.flatMap_congr fun region _ => ?_
    rw [hstages]
  rw [FootprintsFit, FootprintsFit, retainedRegions_sync, stagedFootprints_sync, List.map_map]
  refine and_congr ?_ ?_
  · simp only [HaveRoom, List.forall_mem_map, regionId_syncRegion, ne_eq, hnil]
  · simp only [Function.comp_def, identity_syncRegion]
    exact ⟨fun h => h.perm hminted, fun h => h.perm hminted.symm⟩

theorem exists_syncSlice_iff (ops : PolygonOps) (perimeter : PerimeterIR F) :
    (∃ slice', syncSlice ops perimeter slice = .ok slice') ↔
      FootprintsFit ops.toBooleans slice := by
  rw [← footprintsFit_sync ops perimeter]
  constructor
  · rintro ⟨slice', h⟩
    obtain ⟨hroom, hfresh, -⟩ := splitModifierFootprints_eq_ok_iff.mp h
    exact ⟨hroom, hfresh⟩
  · rintro ⟨hroom, hfresh⟩
    exact ⟨_, splitModifierFootprints_eq_ok_iff.mpr ⟨hroom, hfresh, rfl⟩⟩

end Fits

/-! ### The staged slice -/

section Survives

variable [DecidableEq F] {ops : PolygonOps} {ctx : SliceApplyContext F} {arena : SliceArena F}

/-- An outcome that is an error leaves this slice. -/
def LeavesOnError (outcome : Outcome F) (slice : Option (SliceIR F)) : Prop :=
  ∀ error, outcome.2 = .error error → outcome.1.slice = slice

/-- What the commit needs of the staged slice. -/
def CommitFits (ops : PolygonOps) (arena : SliceArena F) : SliceCommit F → Prop
  | .Perimeters _ => ∀ slice, arena.slice = some slice → FootprintsFit ops.toBooleans slice
  | .PerimetersPostProcess incoming =>
      incoming = none ∧ arena.perimeter = none ∨
        ∀ slice, arena.slice = some slice → FootprintsFit ops.toBooleans slice
  | .SlicePostProcess polygonUpdates pathZUpdates =>
      ∀ slice, arena.slice = some slice → UpdatesResolve slice polygonUpdates pathZUpdates

omit [DecidableEq F] in
theorem leavesOnError_ok (arena : SliceArena F) (slice : Option (SliceIR F)) :
    LeavesOnError (arena, .ok ()) slice :=
  fun _ h => nomatch h

/-- The step from perimeters to the slice, once perimeters are staged. -/
theorem sync_leaves_iff (layerIndex : Nat) (arena : SliceArena F)
    (hperimeter : arena.perimeter.isSome = true) :
    LeavesOnError (syncPerimeterInfillAreasIntoSlice ops layerIndex arena) arena.slice ↔
      ∀ slice, arena.slice = some slice → FootprintsFit ops.toBooleans slice := by
  obtain ⟨staged, perimeter⟩ := arena
  obtain ⟨perimeter, rfl⟩ := Option.isSome_iff_exists.mp hperimeter
  cases staged with
  | none => exact ⟨fun _ _ h => (nomatch h), fun _ _ _ => rfl⟩
  | some slice =>
    simp only [Option.some.injEq, forall_eq']
    rw [← exists_syncSlice_iff ops perimeter]
    simp only [syncPerimeterInfillAreasIntoSlice, SliceArena.takeSlice]
    cases hsync : syncSlice ops perimeter slice with
    | error error =>
      constructor
      · intro h
        exact nomatch h (.FatalSplit _ _ error) rfl
      · rintro ⟨_, h⟩
        exact nomatch h
    | ok slice' => exact ⟨fun _ => ⟨slice', rfl⟩, fun _ => leavesOnError_ok _ _⟩

theorem slicePostProcess_leaves_iff {polygonUpdates : List (PolygonUpdate F)}
    {pathZUpdates : List (PathZUpdate F)} :
    LeavesOnError (applySlicePostProcess ctx arena polygonUpdates pathZUpdates) arena.slice ↔
      ∀ slice, arena.slice = some slice → UpdatesResolve slice polygonUpdates pathZUpdates := by
  obtain ⟨staged, perimeter⟩ := arena
  cases staged with
  | none => exact ⟨fun _ _ h => (nomatch h), fun _ _ _ => rfl⟩
  | some slice =>
    simp only [Option.some.injEq, forall_eq']
    rw [← exists_updateSlice_iff ctx]
    simp only [applySlicePostProcess, SliceArena.takeSlice]
    cases hupdate : updateSlice ctx slice polygonUpdates pathZUpdates with
    | error error =>
      constructor
      · intro h
        exact nomatch h error rfl
      · rintro ⟨_, h⟩
        exact nomatch h
    | ok slice' => exact ⟨fun _ => ⟨slice', rfl⟩, fun _ => leavesOnError_ok _ _⟩

/-- Perimeters that a post-process returns or keeps. -/
theorem isSome_postProcessed (ctx : SliceApplyContext F)
    (incoming original : Option (PerimeterIR F)) :
    (postProcessed ctx incoming original).isSome = (incoming.isSome || original.isSome) := by
  cases incoming <;> cases original <;> rfl

/-- A failed commit leaves the staged slice in place exactly when there was none, or when
nothing can fail once it is taken out. -/
theorem slice_survives_iff (ops : PolygonOps) (ctx : SliceApplyContext F) (arena : SliceArena F)
    (commit : SliceCommit F) :
    LeavesOnError (applySliceCommit ops ctx arena commit) arena.slice ↔
      CommitFits ops arena commit := by
  cases commit with
  | Perimeters ir =>
    exact sync_leaves_iff _ { arena with perimeter := some (backfill ctx ir) } rfl
  | SlicePostProcess polygonUpdates pathZUpdates => exact slicePostProcess_leaves_iff
  | PerimetersPostProcess incoming =>
    have hsome := isSome_postProcessed ctx incoming arena.perimeter
    simp only [applySliceCommit, applyPerimetersPostProcess, SliceArena.takePerimeter, CommitFits]
    cases hprocessed : postProcessed ctx incoming arena.perimeter with
    | none =>
      rw [hprocessed, Option.isSome_none, eq_comm, Bool.or_eq_false_iff,
        Option.isSome_eq_false_iff, Option.isSome_eq_false_iff, Option.isNone_iff_eq_none,
        Option.isNone_iff_eq_none] at hsome
      exact ⟨fun _ => .inl hsome, fun _ => leavesOnError_ok _ _⟩
    | some ir =>
      rw [hprocessed, Option.isSome_some, eq_comm] at hsome
      have hnot : ¬ (incoming = none ∧ arena.perimeter = none) := by
        rintro ⟨rfl, hnone⟩
        simp [hnone] at hsome
      rw [or_iff_right hnot]
      exact sync_leaves_iff _ { arena with perimeter := some ir } rfl

/-- A slice with one region, which has no polygons. -/
def bareSlice : SliceIR ℚ :=
  { globalLayerIndex := 0, z := 0
    regions := [{ objectId := "bare", regionId := 0, bridgeOrientationDeg := 0 }] }

/-- An update that is taken, followed by one whose polygon does not exist: the slice is lost. -/
theorem slice_lost_after_update :
    ¬ ∀ (ops : PolygonOps) (ctx : SliceApplyContext ℚ) (arena : SliceArena ℚ)
      (commit : SliceCommit ℚ),
      LeavesOnError (applySliceCommit ops ctx arena commit) arena.slice := by
  intro h
  let key : RegionKey ℚ := { objectId := "bare" }
  let ops : PolygonOps :=
    { intersection := fun a _ => a, difference := fun a _ => a, union := fun a b => a ++ b }
  have hleaves := h ops { stageId := "Layer::SlicePostProcess", moduleId := "update", layerIndex := 0 }
    { slice := some bareSlice } (.SlicePostProcess [(key, [])] [⟨key, 0, 0, 0⟩])
  obtain ⟨-, hvertices⟩ := slicePostProcess_leaves_iff.mp hleaves bareSlice rfl
  obtain ⟨polygons, hafter, polygon, hpolygon, -⟩ := hvertices _ (List.mem_singleton.mpr rfl)
  have hempty : polygonsAfter bareSlice [(key, [])] (keyIdentity key) = some [] := by
    rw [polygonsAfter, List.foldl_cons, if_pos rfl, List.foldl_nil]
  obtain rfl := Option.some.inj (hafter.symm.trans hempty)
  cases hpolygon

end Survives

end PinchNPrint.Region
