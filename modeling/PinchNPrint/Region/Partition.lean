/-
Splitting regions at modifier footprints (`slicer-runtime`:
`region_partition.rs`), and how the identities it gives meet the region map.

Every modifier with a footprint at the height of the slice takes, in the order
of priorities, what is left of the regions of its object; the part it takes
becomes a region of its own. The polygon booleans are parameters.

`region_identities_decode_iff` says when the address of a base, painted or modifier region is
the key under which the map has it: segmentation gives a region the id of its base and its
chain where it rebuilds a layer, and the id of another region where it adds one for a
projection.
-/

import PinchNPrint.Region.Keys

namespace PinchNPrint.Region

open Config
open Layer (PaintValue RegionKey)

variable {F : Type}

/-! ### Cutting a region -/

/-- `polygon_ops`. -/
structure Booleans where
  intersection : List ExPolygon → List ExPolygon → List ExPolygon
  difference : List ExPolygon → List ExPolygon → List ExPolygon

/-- The object, the id and the chain of a region. -/
abbrev Identity (F : Type) := ObjectId × Nat × VariantChain F

/-- The errors of splitting; a panic of the id function is one of its own. -/
inductive SplitError (F : Type) where
  | parentCannotBeEncoded (parent : Identity F)
  | identityCollision (identity : Identity F)
  | panicked (message : String)

namespace SlicedRegion

def identity (region : SlicedRegion F) : Identity F :=
  (region.objectId, region.regionId, region.variantChain)

def internalBridgeAngleDeg (region : SlicedRegion F) (index : Nat) : F :=
  region.internalBridgeAnglesDeg[index]?.getD region.bridgeOrientationDeg

/-- Before a region is cut, an empty fill domain is the whole region. -/
def restoreInfill (region : SlicedRegion F) : SlicedRegion F :=
  if region.infillAreas.isEmpty then { region with infillAreas := region.polygons } else region

/-- The internal bridges are cut one at a time, so that each piece keeps its angle. -/
def bridgePieces (op : List ExPolygon → List ExPolygon → List ExPolygon) (region : SlicedRegion F)
    (footprint : List ExPolygon) : List (ExPolygon × F) :=
  region.internalBridgeAreas.zipIdx.flatMap fun (polygon, index) =>
    (op [polygon] footprint).map fun piece => (piece, region.internalBridgeAngleDeg index)

/-- All polygons of a region under one of the booleans. -/
def clip (op : List ExPolygon → List ExPolygon → List ExPolygon) (region : SlicedRegion F)
    (footprint : List ExPolygon) : SlicedRegion F :=
  { region with
    polygons := op region.polygons footprint
    infillAreas := op region.infillAreas footprint
    bridgeAreas := op region.bridgeAreas footprint
    bottomSolidFill := op region.bottomSolidFill footprint
    topSolidFill := op region.topSolidFill footprint
    sparseInfillArea := op region.sparseInfillArea footprint
    internalSolidFill := op region.internalSolidFill footprint
    internalBridgeAreas := (region.bridgePieces op footprint).map Prod.fst
    internalBridgeAnglesDeg := if region.internalBridgeAnglesDeg.isEmpty then []
      else (region.bridgePieces op footprint).map Prod.snd
    raftFill := op region.raftFill footprint }

end SlicedRegion

/-- The part of a region that a footprint takes. -/
def modifierChild (booleans : Booleans) (parent : SlicedRegion F) (footprint : List ExPolygon)
    (subId : Nat) : SlicedRegion F :=
  { parent.restoreInfill.clip booleans.intersection footprint with
    regionId := subId
    segmentAnnotations := [] }

/-! ### Splitting a slice -/

/-- The state of `split_regions_by_modifier_footprints`. -/
structure Splitting (F : Type) where
  regions : List (SlicedRegion F)
  minted : List (SlicedRegion F) := []
  identities : List (Identity F)

/-- The regions that a footprint of an object can cut: neither a staged footprint
nor a modifier child. -/
def parentIndices (objectId : ObjectId) (regions : List (SlicedRegion F)) : List Nat :=
  regions.zipIdx.filterMap fun (region, index) =>
    if region.objectId = objectId ∧ region.regionId ≠ MODIFIER_FOOTPRINT_REGION_ID ∧
        isModifierNamespaceId region.regionId = false then some index
    else none

section Split

variable [DecidableEq F] (booleans : Booleans)

/-- One region under one footprint. -/
def splitParent (objectId : ObjectId) (footprint : List ExPolygon) (state : Splitting F)
    (index : Nat) : Except (SplitError F) (Splitting F) :=
  match state.regions[index]? with
  | none => .ok state
  | some parent =>
      if (booleans.intersection parent.polygons footprint).isEmpty then .ok state
      else if !modifierSubRegionIdFits parent.regionId then
        .error (.parentCannotBeEncoded (objectId, parent.regionId, parent.variantChain))
      else do
        let subId ← orPanic (.panicked "modifier sub-region id payload overflow")
          (modifierSubRegionId parent.regionId objectId footprint)
        let identity := (objectId, subId, parent.variantChain)
        if identity ∈ state.identities then .error (.identityCollision identity)
        else .ok {
          regions := state.regions.set index
            (parent.restoreInfill.clip booleans.difference footprint)
          minted := state.minted ++ [modifierChild booleans parent footprint subId]
          identities := state.identities ++ [identity] }

/-- All regions of an object under one footprint. -/
def splitFootprint (state : Splitting F) (cut : ObjectId × List ExPolygon) :
    Except (SplitError F) (Splitting F) :=
  if cut.2.isEmpty then .ok state
  else (parentIndices cut.1 state.regions).foldlM (splitParent booleans cut.1 cut.2) state

/-- `split_regions_by_modifier_footprints`; what is minted goes to the end. -/
def splitRegionsByModifierFootprints (slice : SliceIR F)
    (cuts : List (ObjectId × List ExPolygon)) : Except (SplitError F) (SliceIR F) := do
  let state ← cuts.foldlM (splitFootprint booleans)
    { regions := slice.regions, identities := slice.regions.map (·.identity) }
  .ok { slice with regions := state.regions ++ state.minted }

/-- Modifiers by descending priority, the earlier of two with the same first. -/
def cuttingOrder (modifierVolumes : List (ModifierVolume F)) : List (ModifierVolume F) :=
  (modifierVolumes.zipIdx.insertionSort fun a b =>
    b.1.priority < a.1.priority ∨ (a.1.priority = b.1.priority ∧ a.2 ≤ b.2)).map Prod.fst

/-- The cuts of a mesh at a height. -/
def modifierCuts (sliceMeshEx : IndexedTriangleSet F → List F → List (List ExPolygon))
    (objects : List (ObjectMesh F)) (z : F) : List (ObjectId × List ExPolygon) :=
  objects.flatMap fun object => (cuttingOrder object.modifierVolumes).filterMap fun modifier =>
    (modifierFootprint sliceMeshEx z modifier).map fun footprint => (object.id, footprint)

/-- The regions that are no staged footprints. -/
def retainedRegions (slice : SliceIR F) : List (SlicedRegion F) :=
  slice.regions.filter (·.regionId != MODIFIER_FOOTPRINT_REGION_ID)

def splitModifierSubRegionsForPrepass
    (sliceMeshEx : IndexedTriangleSet F → List F → List (List ExPolygon))
    (objects : List (ObjectMesh F)) (slice : SliceIR F) : Except (SplitError F) (SliceIR F) :=
  splitRegionsByModifierFootprints booleans { slice with regions := retainedRegions slice }
    (modifierCuts sliceMeshEx objects slice.z)

/-! ### What splitting mints -/

omit [DecidableEq F] in
theorem of_orPanic_eq_ok {ε : Type} {panic : ε} {id : Option Nat} {i : Nat}
    (h : orPanic panic id = .ok i) : id = some i := by
  cases id with
  | none => cases h
  | some j =>
    cases h
    rfl

variable {booleans} {start : List (SlicedRegion F)} {cuts : List (ObjectId × List ExPolygon)}

section

omit [DecidableEq F]

theorem identity_clip (op : List ExPolygon → List ExPolygon → List ExPolygon)
    (region : SlicedRegion F) (footprint : List ExPolygon) :
    (region.restoreInfill.clip op footprint).identity = region.identity := by
  unfold SlicedRegion.restoreInfill
  split <;> rfl

theorem polygons_clip (op : List ExPolygon → List ExPolygon → List ExPolygon)
    (region : SlicedRegion F) (footprint : List ExPolygon) :
    (region.restoreInfill.clip op footprint).polygons = op region.polygons footprint := by
  unfold SlicedRegion.restoreInfill
  split <;> rfl

theorem identity_modifierChild (booleans : Booleans) (parent : SlicedRegion F)
    (footprint : List ExPolygon) (subId : Nat) :
    (modifierChild booleans parent footprint subId).identity =
      (parent.objectId, subId, parent.variantChain) := by
  unfold modifierChild SlicedRegion.restoreInfill
  split <;> rfl

end

variable (booleans start cuts)

/-- A region that was cut from one of the regions by one of the footprints. -/
structure CutFrom (parent : SlicedRegion F) (footprint : List ExPolygon) (sub : SlicedRegion F) :
    Prop where
  parent_mem : parent ∈ start
  cut_mem : (parent.objectId, footprint) ∈ cuts
  not_modifier : isModifierNamespaceId parent.regionId = false
  objectId : sub.objectId = parent.objectId
  variantChain : sub.variantChain = parent.variantChain
  regionId : modifierSubRegionId parent.regionId parent.objectId footprint = some sub.regionId
  polygons : ∃ remaining, sub.polygons = booleans.intersection remaining footprint

/-- Splitting changes no identity, and what it minted was cut from the regions it
started with. -/
structure Split (state : Splitting F) : Prop where
  identities : state.regions.map (·.identity) = start.map (·.identity)
  minted : ∀ sub ∈ state.minted, ∃ parent footprint, CutFrom booleans start cuts parent footprint sub

variable {booleans start cuts}

omit [DecidableEq F] in
theorem map_identity_set {regions : List (SlicedRegion F)} {index : Nat}
    {region region' : SlicedRegion F} (h : regions[index]? = some region)
    (hidentity : region'.identity = region.identity) :
    (regions.set index region').map (·.identity) = regions.map (·.identity) := by
  refine List.ext_getElem? fun i => ?_
  rw [List.getElem?_map, List.getElem?_map, List.getElem?_set]
  split
  case isTrue heq =>
    rw [← heq, h, if_pos (List.getElem?_eq_some_iff.mp h).1, Option.map_some, Option.map_some,
      hidentity]
  case isFalse => rfl

omit [DecidableEq F] in
/-- An index at which a footprint of the object may cut. -/
theorem mem_parentIndices {objectId : ObjectId} {regions : List (SlicedRegion F)} {index : Nat}
    (h : index ∈ parentIndices objectId regions) : ∃ identity,
      (regions.map (·.identity))[index]? = some identity ∧ identity.1 = objectId ∧
      isModifierNamespaceId identity.2.1 = false := by
  obtain ⟨⟨region, i⟩, hmem, hsome⟩ := List.mem_filterMap.mp h
  dsimp only at hsome
  split at hsome
  case isTrue hparent =>
    cases hsome
    refine ⟨region.identity, ?_, hparent.1, hparent.2.2⟩
    rw [List.getElem?_map, List.mem_zipIdx_iff_getElem?.mp hmem, Option.map_some]
  case isFalse => cases hsome

theorem Split.splitParent {state state' : Splitting F} (h : Split booleans start cuts state)
    {objectId : ObjectId} {footprint : List ExPolygon} {index : Nat} {identity : Identity F}
    (hcut : (objectId, footprint) ∈ cuts)
    (hindex : (start.map (·.identity))[index]? = some identity) (hobject : identity.1 = objectId)
    (hmodifier : isModifierNamespaceId identity.2.1 = false)
    (hstep : splitParent booleans objectId footprint state index = .ok state') :
    Split booleans start cuts state' := by
  unfold Region.splitParent at hstep
  split at hstep
  case h_1 =>
    cases hstep
    exact h
  case h_2 region hregion =>
    split at hstep
    case isTrue =>
      cases hstep
      exact h
    case isFalse =>
      split at hstep
      case isTrue => cases hstep
      case isFalse =>
        obtain ⟨subId, hsub, hstep⟩ := Except.of_bind_eq_ok hstep
        have hid := of_orPanic_eq_ok hsub
        dsimp only at hstep
        split at hstep
        case isTrue => cases hstep
        case isFalse =>
          cases hstep
          refine ⟨(map_identity_set hregion (identity_clip ..)).trans h.identities, ?_⟩
          intro sub hsub
          rcases List.mem_append.mp hsub with hold | hnew
          · exact h.minted sub hold
          · -- the region that is cut has the identity of one at the start
            obtain ⟨parent, hparent, hsame⟩ := List.mem_map.mp (List.mem_of_getElem? hindex)
            have hidentity : region.identity = identity := by
              rw [← h.identities, List.getElem?_map, hregion] at hindex
              exact Option.some.inj hindex
            have hboth := hsame.trans hidentity.symm
            simp only [SlicedRegion.identity, Prod.mk.injEq] at hboth
            obtain ⟨hobject', hregionId, hchain⟩ := hboth
            subst hidentity
            subst hobject
            rw [List.mem_singleton.mp hnew]
            refine ⟨parent, footprint, hparent, ?_, ?_, ?_, ?_, ?_, ?_⟩
            · rw [hobject']
              exact hcut
            · rw [hregionId]
              exact hmodifier
            · rw [hobject']
              exact congrArg Prod.fst (identity_modifierChild booleans region footprint subId)
            · rw [hchain]
              exact congrArg (·.2.2) (identity_modifierChild booleans region footprint subId)
            · rw [hregionId, hobject']
              refine hid.trans (congrArg some ?_)
              exact (congrArg (·.2.1)
                (identity_modifierChild booleans region footprint subId)).symm
            · exact ⟨region.polygons, polygons_clip booleans.intersection region footprint⟩

theorem Split.splitFootprint {state state' : Splitting F} (h : Split booleans start cuts state)
    {cut : ObjectId × List ExPolygon} (hcut : cut ∈ cuts)
    (hstep : splitFootprint booleans state cut = .ok state') :
    Split booleans start cuts state' := by
  unfold Region.splitFootprint at hstep
  split at hstep
  case isTrue =>
    cases hstep
    exact h
  case isFalse =>
    refine Except.foldlM_invariant (P := Split booleans start cuts) ?_ h hstep
    intro index hindex s s' hs hstep'
    obtain ⟨identity, hidentity, hobject, hmodifier⟩ := mem_parentIndices hindex
    rw [h.identities] at hidentity
    exact hs.splitParent hcut hidentity hobject hmodifier hstep'

/-- The regions after splitting: those before it, and behind them what was cut
from them. -/
theorem splitRegions_spec {slice result : SliceIR F}
    (h : splitRegionsByModifierFootprints booleans slice cuts = .ok result) :
    result.globalLayerIndex = slice.globalLayerIndex ∧
      ∃ kept minted, result.regions = kept ++ minted ∧
        kept.map (·.identity) = slice.regions.map (·.identity) ∧
        ∀ sub ∈ minted, ∃ parent footprint,
          CutFrom booleans slice.regions cuts parent footprint sub := by
  unfold splitRegionsByModifierFootprints at h
  obtain ⟨state, hstate, h⟩ := Except.of_bind_eq_ok h
  cases h
  have hsplit : Split booleans slice.regions cuts state := by
    refine Except.foldlM_invariant (P := Split booleans slice.regions cuts) ?_ ⟨rfl, ?_⟩ hstate
    · intro cut hcut s s' hs hstep
      exact hs.splitFootprint hcut hstep
    · intro sub hsub
      cases hsub
  exact ⟨rfl, state.regions, state.minted, rfl, hsplit.identities, hsplit.minted⟩

end Split

/-! ### Addresses of what is minted -/

section Addresses

variable [Floats F] [FloatBits F] [DecidableEq F] {input : RegionMappingInput F}
  {map : RegionMapIR F} {layer : GlobalLayer F} {region : ActiveRegion F}

/-- The region that paint segmentation makes for a chain when it rebuilds a layer; for the
empty chain the base region. The base id is that of the map's key, or of the first region of
the layer where no key has the chain. -/
def segmentedRegion (objectId : ObjectId) (baseRegionId : Nat) (chain : VariantChain F)
    (polygons : List ExPolygon) : Option (SlicedRegion F) :=
  (paintVariantRegionId baseRegionId chain).map fun regionId =>
    { objectId := objectId, regionId := regionId, variantChain := chain, polygons := polygons,
      bridgeOrientationDeg := Floats.ofInt32 0 }

/-- The region that the merge of the top and bottom projections adds for a chain without one.
It takes the id of the first region of its object as it is. -/
def missingRegion (regions : List (SlicedRegion F)) (objectId : ObjectId) (chain : VariantChain F)
    (polygons topClip bottomClip : List ExPolygon) : SlicedRegion F where
  objectId := objectId
  regionId := ((regions.find? (·.objectId = objectId)).map (·.regionId)).getD 0
  polygons := polygons
  variantChain := chain
  topSolidFill := topClip
  bottomSolidFill := bottomClip
  bridgeOrientationDeg := Floats.ofInt32 0

/-- A region of an active region and a chain, as either place of segmentation makes it. -/
inductive SegmentedFrom (base : ActiveRegion F) (chain : VariantChain F) : SlicedRegion F → Prop
  | rebuilt {polygons : List ExPolygon} {sliced : SlicedRegion F}
      (h : segmentedRegion base.objectId base.regionId chain polygons = some sliced) :
      SegmentedFrom base chain sliced
  | missing {regions : List (SlicedRegion F)} {polygons topClip bottomClip : List ExPolygon}
      (hnone : ∀ sliced ∈ regions, sliced.objectId = base.objectId → sliced.variantChain ≠ chain)
      (hbase : ∀ sibling, regions.find? (·.objectId = base.objectId) = some sibling →
        mapSpaceRegionId sibling.regionId sibling.variantChain = base.regionId) :
      SegmentedFrom base chain
        (missingRegion regions base.objectId chain polygons topClip bottomClip)

section

omit [Floats F] [DecidableEq F]

theorem mapSpaceRegionId_paintVariant {base id : Nat} {chain : VariantChain F}
    (h : paintVariantRegionId base chain = some id) : mapSpaceRegionId id chain = base := by
  by_cases hchain : chain = []
  · subst hchain
    cases h
    unfold mapSpaceRegionId
    rw [if_pos (by simp)]
  · exact mapSpaceRegionId_paint hchain h

theorem isModifierNamespaceId_base {base id : Nat} {chain : VariantChain F}
    (h : paintVariantRegionId base chain = some id) (hid : isModifierNamespaceId id = false) :
    isModifierNamespaceId base = false := by
  by_cases hchain : chain = []
  · subst hchain
    cases h
    exact hid
  · obtain ⟨hash, -, -, hsum, hlt⟩ := paintVariantRegionId_spec hchain h
    refine isModifierNamespaceId_of_lt (lt_of_le_of_lt ?_ hlt)
    rw [hsum]
    unfold PAINT_VARIANT_REGION_ID_STRIDE
    omega

end

omit [Floats F] [FloatBits F] [DecidableEq F] in
/-- The address of a modifier child. -/
theorem regionMapKey_of_sub {parent : Nat} {objectId : ObjectId} {footprint : List ExPolygon}
    {sliced : SlicedRegion F} (hobject : sliced.objectId = region.objectId)
    (hid : modifierSubRegionId parent objectId footprint = some sliced.regionId) :
    regionMapKeyForSlicedRegion layer.index sliced =
      entryKey layer region sliced.regionId sliced.variantChain := by
  unfold regionMapKeyForSlicedRegion entryKey
  rw [hobject, mapSpaceRegionId_modifier (modifierBaseRegionId_sub hid).1]

variable (input map layer) in
/-- The address of a region is the key that the map has for its base and chain, and the
addresses of its modifier children are those that it has for their footprints. -/
structure Addressed (base : ActiveRegion F) (chain : VariantChain F) (sliced : SlicedRegion F) :
    Prop where
  own : regionMapKeyForSlicedRegion layer.index sliced = entryKey layer base base.regionId chain
  own_mem : entryKey layer base base.regionId chain ∈ map.entries.map Prod.fst
  children : ∀ parent, parent.identity = sliced.identity →
    ∀ footprint ∈ regionFootprints input layer base, ∀ booleans subId,
    modifierSubRegionId parent.regionId parent.objectId footprint = some subId →
      childRegionId base chain footprint = some subId ∧
      regionMapKeyForSlicedRegion layer.index (modifierChild booleans parent footprint subId) =
        entryKey layer base subId chain ∧
      entryKey layer base subId chain ∈ map.entries.map Prod.fst

variable (input layer) in
/-- The id of a region decodes to its base, and where a footprint can cut the region it is
the id of the base and the chain. -/
structure IdOfBase (base : ActiveRegion F) (chain : VariantChain F) (regionId : Nat) : Prop where
  decodes : mapSpaceRegionId regionId chain = base.regionId
  encodes : regionFootprints input layer base ≠ [] → modifierSubRegionIdFits regionId = true →
    paintVariantRegionId base.regionId chain = some regionId

omit [Floats F] [DecidableEq F] in
theorem idOfBase_of_paintVariant {chain : VariantChain F} {id : Nat}
    (h : paintVariantRegionId region.regionId chain = some id) :
    IdOfBase input layer region chain id :=
  ⟨mapSpaceRegionId_paintVariant h, fun _ _ => h⟩

omit [DecidableEq F] in
/-- Where a layer is rebuilt the id is that of the base. -/
theorem idOfBase_segmentedRegion {chain : VariantChain F} {polygons : List ExPolygon}
    {sliced : SlicedRegion F}
    (h : segmentedRegion region.objectId region.regionId chain polygons = some sliced) :
    IdOfBase input layer region chain sliced.regionId := by
  obtain ⟨regionId, hregionId, rfl⟩ := Option.map_eq_some_iff.mp h
  exact idOfBase_of_paintVariant hregionId

omit [Floats F] [FloatBits F] [DecidableEq F] in
theorem regionMapKey_eq_entryKey {chain : VariantChain F} {sliced : SlicedRegion F}
    (hobject : sliced.objectId = region.objectId) (hchain : sliced.variantChain = chain) :
    regionMapKeyForSlicedRegion layer.index sliced = entryKey layer region region.regionId chain ↔
      mapSpaceRegionId sliced.regionId chain = region.regionId := by
  simp [regionMapKeyForSlicedRegion, entryKey, hobject, hchain]

theorem addressed_iff {chain : VariantChain F} {sliced : SlicedRegion F}
    (hmap : executeRegionMapping input = .ok map) (hlayer : layer ∈ input.globalLayers)
    (hregion : region ∈ layer.activeRegions) (hchain : CanonicalChain input region.objectId chain)
    (hobject : sliced.objectId = region.objectId) (hsame : sliced.variantChain = chain) :
    Addressed input map layer region chain sliced ↔
      IdOfBase input layer region chain sliced.regionId := by
  constructor
  · intro h
    refine ⟨(regionMapKey_eq_entryKey hobject hsame).mp h.own, fun hfootprints hfits => ?_⟩
    obtain ⟨footprint, hfootprint⟩ := List.exists_mem_of_ne_nil _ hfootprints
    obtain ⟨subId, hsub⟩ := exists_modifierSubRegionId hfits sliced.objectId footprint
    have hchild := (h.children sliced rfl footprint hfootprint ⟨fun a _ => a, fun a _ => a⟩ subId
      hsub).1
    -- the id of a child has the id of its parent in it
    obtain ⟨parent, hparent, hsub'⟩ := Option.bind_eq_some_iff.mp hchild
    have hrecovered := (modifierBaseRegionId_sub hsub).2.2
    rw [(modifierBaseRegionId_sub hsub').2.2] at hrecovered
    rw [hparent, hrecovered]
  · intro h
    obtain ⟨entry, hentry, hkey, -⟩ := exists_chain_entry hmap hlayer hregion hchain
    refine ⟨(regionMapKey_eq_entryKey hobject hsame).mpr h.decodes,
      List.mem_map.mpr ⟨entry, hentry, hkey⟩, ?_⟩
    intro parent hparent footprint hfootprint booleans subId hsub
    simp only [SlicedRegion.identity, Prod.mk.injEq] at hparent
    obtain ⟨hparentObject, hparentId, hparentChain⟩ := hparent
    have hfits : modifierSubRegionIdFits sliced.regionId = true := by
      rw [← hparentId]
      unfold modifierSubRegionId at hsub
      split at hsub
      case isTrue hfits => exact hfits
      case isFalse => cases hsub
    have hchild : childRegionId region chain footprint = some subId := by
      rw [childRegionId, h.encodes (List.ne_nil_of_mem hfootprint) hfits, Option.bind_some,
        ← hparentId, ← hobject, ← hparentObject, hsub]
    have hidentity := identity_modifierChild booleans parent footprint subId
    simp only [SlicedRegion.identity, Prod.mk.injEq] at hidentity
    obtain ⟨hsubObject, hsubId, hsubChain⟩ := hidentity
    refine ⟨hchild, ?_, ?_⟩
    · rw [regionMapKey_of_sub (hsubObject.trans (hparentObject.trans hobject))
        (hsub.trans (congrArg some hsubId.symm)), hsubId, hsubChain, hparentChain, hsame]
    · obtain ⟨group, hgroup, rfl⟩ :=
        List.mem_map.mp ((grouped_regionGroups.2 footprint).mpr hfootprint)
      obtain ⟨entry, hentry, id, hid, hkey, -⟩ := exists_child_entry hmap hlayer hregion hchain hgroup
      rw [hchild] at hid
      cases hid
      exact List.mem_map.mpr ⟨entry, hentry, hkey⟩

/-- The ids of regions decode to what they were made of. The address of a region that
segmentation makes is the key under which region mapping inserted it, and so are those of its
modifier children, exactly when its id is that of its base and its chain. -/
theorem region_identities_decode_iff (input : RegionMappingInput F) :
    (∀ base id (chain : VariantChain F), chain ≠ [] → paintVariantRegionId base chain = some id →
      id < 2 ^ 63 ∧ mapSpaceRegionId id chain = base) ∧
    (∀ parent, modifierSubRegionIdFits parent = true → ∀ objectId footprint, ∃ id,
      modifierSubRegionId parent objectId footprint = some id ∧ isModifierNamespaceId id = true ∧
      id ≠ MODIFIER_FOOTPRINT_REGION_ID ∧ modifierBaseRegionId id = some parent) ∧
    ∀ map, executeRegionMapping input = .ok map →
      ∀ layer ∈ input.globalLayers, ∀ base ∈ layer.activeRegions,
      ∀ chain, CanonicalChain input base.objectId chain →
      ∀ sliced, SegmentedFrom base chain sliced →
        (Addressed input map layer base chain sliced ↔
          IdOfBase input layer base chain sliced.regionId) := by
  refine ⟨fun base id chain hchain h => ?_, fun parent hfits objectId footprint => ?_, ?_⟩
  · obtain ⟨-, -, -, -, hlt⟩ := paintVariantRegionId_spec hchain h
    exact ⟨hlt, mapSpaceRegionId_paint hchain h⟩
  · obtain ⟨id, hid⟩ := exists_modifierSubRegionId hfits objectId footprint
    exact ⟨id, hid, modifierBaseRegionId_sub hid⟩
  · intro map hmap layer hlayer base hbase chain hchain sliced hsliced
    cases hsliced with
    | rebuilt h =>
      obtain ⟨regionId, -, rfl⟩ := Option.map_eq_some_iff.mp h
      exact addressed_iff hmap hlayer hbase hchain rfl rfl
    | missing => exact addressed_iff hmap hlayer hbase hchain rfl rfl

/-- The largest parent that fits. -/
example : modifierSubRegionIdFits 9223344366820 = true ∧
    modifierSubRegionIdFits 9223344366821 = false := by decide

variable (map layer) in
/-- A base or painted region of a slice whose address is a key of the map. -/
structure MappedIdentity (base : ActiveRegion F) (sliced : SlicedRegion F) : Prop where
  base_mem : base ∈ layer.activeRegions
  objectId : sliced.objectId = base.objectId
  regionId : mapSpaceRegionId sliced.regionId sliced.variantChain = base.regionId
  key_mem : regionMapKeyForSlicedRegion layer.index sliced ∈ map.entries.map Prod.fst

variable (input map layer) in
/-- The config of an entry was resolved for a child of the base under the chain,
with these modifiers. -/
def ResolvedFor (base : ActiveRegion F) (chain : VariantChain F)
    (modifiers : List (ModifierVolume F)) (plan : RegionPlan F) : Prop :=
  ∃ config, childConfig input layer base modifiers chain (lastChainTool chain) = .ok config ∧
    Pooled map.configs plan.config config

theorem canonicalChain_of_mem {key : RegionKey F} (hmap : executeRegionMapping input = .ok map)
    (hkey : key ∈ map.entries.map Prod.fst) : CanonicalChain input key.objectId key.variantChain := by
  obtain ⟨_, -, region, -, -, hobject, hchain, -⟩ := (mem_keys_iff_planned hmap key).mp hkey
  rwa [hobject]

omit [Floats F] [FloatBits F] [DecidableEq F] in
theorem mem_modifierCuts {sliceMeshEx : IndexedTriangleSet F → List F → List (List ExPolygon)}
    {objects : List (ObjectMesh F)} {z : F} {objectId : ObjectId} {footprint : List ExPolygon}
    (h : (objectId, footprint) ∈ modifierCuts sliceMeshEx objects z) :
    ∃ object ∈ objects, object.id = objectId ∧ ∃ modifier ∈ object.modifierVolumes,
      modifierFootprint sliceMeshEx z modifier = some footprint := by
  obtain ⟨object, hobject, h⟩ := List.mem_flatMap.mp h
  obtain ⟨modifier, hmodifier, h⟩ := List.mem_filterMap.mp h
  obtain ⟨footprint', hfootprint, heq⟩ := Option.map_eq_some_iff.mp h
  cases heq
  refine ⟨object, hobject, rfl, modifier, ?_, hfootprint⟩
  obtain ⟨⟨modifier', i⟩, hmem, rfl⟩ := List.mem_map.mp hmodifier
  exact (List.mem_zipIdx ((List.perm_insertionSort _ _).mem_iff.mp hmem)).2.2 ▸ List.getElem_mem _

end Addresses

/-! ### The tile, split -/

/-- The base region of the tile, or its painted part. -/
def tileSliced (regionId : Nat) (chain : VariantChain ℚ) : SlicedRegion ℚ where
  objectId := "tile"
  regionId := regionId
  variantChain := chain
  polygons := tileFootprint
  bridgeOrientationDeg := 0

def tileSlice : SliceIR ℚ where
  globalLayerIndex := 3
  z := 1 / 5
  regions := [tileSliced 7 [], tileSliced 7000002 [("material", .ToolIndex 1)]]

/-- Everything is covered by a footprint. -/
def covering : Booleans where
  intersection a _ := a
  difference _ _ := []

theorem exists_tileMap : ∃ map, executeRegionMapping tileInput = .ok map ∧
    ∀ sliced ∈ tileSlice.regions, MappedIdentity map tileLayer tileRegion sliced := by
  have hmapped : ((executeRegionMapping tileInput).toOption.any fun map =>
      tileSlice.regions.all fun sliced =>
        (map.entries.map Prod.fst).contains (regionMapKeyForSlicedRegion 3 sliced)) = true := by
    decide +kernel
  obtain ⟨map, hmap, hkeys⟩ := (Option.any_eq_true ..).mp hmapped
  refine ⟨map, Except.of_toOption_eq_some hmap, fun sliced hsliced => ?_⟩
  have hkey := List.all_eq_true.mp hkeys sliced hsliced
  have hregions : ∀ sliced ∈ tileSlice.regions, sliced.objectId = tileRegion.objectId ∧
      paintVariantRegionId tileRegion.regionId sliced.variantChain = some sliced.regionId := by
    decide +kernel
  obtain ⟨hobject, hid⟩ := hregions sliced hsliced
  exact ⟨List.mem_singleton.mpr rfl, hobject, mapSpaceRegionId_paintVariant hid,
    List.contains_iff_mem.mp hkey⟩

/-- The painted part of the tile is addressed by its base and its chain. -/
theorem region_identities_decode_tile : ∃ map, executeRegionMapping tileInput = .ok map ∧
    Addressed tileInput map tileLayer tileRegion [("material", .ToolIndex 1)]
      (tileSliced 7000002 [("material", .ToolIndex 1)]) := by
  obtain ⟨map, hmap, hmapped⟩ := exists_tileMap
  have hpainted : tileSliced 7000002 [("material", .ToolIndex 1)] ∈ tileSlice.regions :=
    List.mem_cons_of_mem _ (List.mem_singleton.mpr rfl)
  have hchain := canonicalChain_of_mem hmap (hmapped _ hpainted).key_mem
  have hsegmented : segmentedRegion tileRegion.objectId tileRegion.regionId
      [("material", .ToolIndex 1)] tileFootprint =
        some (tileSliced 7000002 [("material", .ToolIndex 1)]) := by decide +kernel
  exact ⟨map, hmap, ((region_identities_decode_iff tileInput).2.2 map hmap tileLayer
    (List.mem_singleton.mpr rfl) tileRegion (List.mem_singleton.mpr rfl) _ hchain
    (tileSliced 7000002 [("material", .ToolIndex 1)]) (.rebuilt hsegmented)).mpr
      (idOfBase_segmentedRegion hsegmented)⟩

/-- A projection onto a tile without a painted part: the region it gets has the id of the
base region, and its address is not a key of the map. -/
theorem missing_region_has_no_entry : ∃ map, executeRegionMapping tileInput = .ok map ∧
    (⟨3, "tile", 7, [("material", .ToolIndex 1)]⟩ : RegionKey ℚ) ∈ map.entries.map Prod.fst ∧
    SegmentedFrom tileRegion [("material", .ToolIndex 1)] (missingRegion [tileSliced 7 []] "tile"
      [("material", .ToolIndex 1)] tileFootprint [] []) ∧
    regionMapKeyForSlicedRegion 3 (missingRegion [tileSliced 7 []] "tile"
      [("material", .ToolIndex 1)] tileFootprint [] []) ∉ map.entries.map Prod.fst := by
  have hkeys : ((executeRegionMapping tileInput).toOption.any fun map =>
      (map.entries.map Prod.fst).contains ⟨3, "tile", 7, [("material", .ToolIndex 1)]⟩ &&
        !(map.entries.map Prod.fst).contains (regionMapKeyForSlicedRegion 3
          (missingRegion [tileSliced 7 []] "tile" [("material", .ToolIndex 1)] tileFootprint
            [] []))) = true := by
    decide +kernel
  obtain ⟨map, hmap, hkeys⟩ := (Option.any_eq_true ..).mp hkeys
  rw [Bool.and_eq_true, List.contains_iff_mem, Bool.not_eq_true', Bool.eq_false_iff, ne_eq,
    List.contains_iff_mem] at hkeys
  refine ⟨map, Except.of_toOption_eq_some hmap, hkeys.1, .missing ?_ ?_, hkeys.2⟩
  · decide
  · intro sibling hsibling
    cases hsibling
    rfl

end PinchNPrint.Region
