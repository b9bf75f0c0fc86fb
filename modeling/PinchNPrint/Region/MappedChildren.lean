/-
Modifier children and the region map (`slicer-runtime`: `region_partition.rs`;
`slicer-core`: `region_mapping.rs`; `slicer-wasm-host`: `selection.rs`).

Splitting makes the id of a child of the id that the cut region has, mapping makes it of the
id that the base and the chain of the region give. `split_children_are_mapped_iff`: what is
minted of regions whose addresses are mapped is in the map, under the modifiers that it was
cut with, exactly when every region that is cut has the id of its base and its chain.
-/

import PinchNPrint.Region.Cutting

namespace PinchNPrint.Region

open Config
open Layer (RegionKey)

variable {F : Type} [Floats F] [FloatBits F] [DecidableEq F] {input : RegionMappingInput F}
  {map : RegionMapIR F} {layer : GlobalLayer F} {slice result : SliceIR F}

variable (input map layer) in
/-- Splitting keeps the identities of the regions, and each child it mints has an entry under
its address, whose config was resolved for exactly the modifiers of the object with the
footprint that the child was cut with. -/
def ChildrenMapped (booleans : Booleans) (slice result : SliceIR F) : Prop :=
  ∃ kept minted, result.regions = kept ++ minted ∧
    kept.map (·.identity) = (retainedRegions slice).map (·.identity) ∧
    ∀ sub ∈ minted, ∃ entry ∈ map.entries,
      entry.1 = regionMapKeyForSlicedRegion result.globalLayerIndex sub ∧
      ∃ object ∈ input.objects, object.id = sub.objectId ∧
      ∃ base ∈ layer.activeRegions, ∃ remaining footprint,
        sub.polygons = booleans.intersection remaining footprint ∧
        (∃ modifier ∈ object.modifierVolumes,
          modifierFootprint input.sliceMeshEx layer.z modifier = some footprint) ∧
        ResolvedFor input map layer base sub.variantChain (object.modifierVolumes.filter
          fun modifier => modifierFootprint input.sliceMeshEx layer.z modifier == some footprint)
          entry.2

omit [Floats F] [DecidableEq F] in
/-- Every region that a footprint takes a part of has the id that paint segmentation gives the
base that the id decodes to. -/
def CutRegionsEncoded (booleans : Booleans) (cuts : List (ObjectId × List ExPolygon))
    (regions : List (SlicedRegion F)) : Prop :=
  ∀ sliced ∈ regions, sliced.stages booleans cuts ≠ [] →
    paintVariantRegionId (mapSpaceRegionId sliced.regionId sliced.variantChain)
      sliced.variantChain = some sliced.regionId

omit [Floats F] [FloatBits F] in
/-- What splitting mints are the children of the stages. -/
theorem mem_minted_iff {booleans : Booleans} {kept minted : List (SlicedRegion F)}
    (hsplit : splitModifierSubRegionsForPrepass booleans input.sliceMeshEx input.objects slice =
      .ok result)
    (hregions : result.regions = kept ++ minted)
    (hkept : kept.map (·.identity) = (retainedRegions slice).map (·.identity))
    (sub : SlicedRegion F) : sub ∈ minted ↔ ∃ sliced ∈ retainedRegions slice,
      ∃ stage ∈ sliced.stages booleans (modifierCuts input.sliceMeshEx input.objects slice.z),
        stageChild booleans stage = sub := by
  obtain ⟨-, -, rfl⟩ := splitRegions_eq_ok_iff.mp hsplit
  have hlength : kept.length = ((retainedRegions slice).map (·.remainder booleans
      (modifierCuts input.sliceMeshEx input.objects slice.z))).length := by
    rw [List.length_map]
    simpa using congrArg List.length hkept
  rw [← (List.append_inj hregions hlength.symm).2, (mintedBy_perm _ _).mem_iff]
  simp only [List.mem_flatMap, List.mem_map]

/-- A child is in the map when the region it was cut from has the id of its base. -/
theorem entry_of_stage {sliced sub : SlicedRegion F} {stage : SlicedRegion F × List ExPolygon}
    {base : ActiveRegion F} (hmap : executeRegionMapping input = .ok map)
    (hunique : (input.objects.map (·.id)).Nodup) (hlayer : layer ∈ input.globalLayers)
    (hbase : MappedIdentity map layer base sliced)
    (hordinary : isModifierNamespaceId sliced.regionId = false)
    (hencoded : paintVariantRegionId base.regionId sliced.variantChain = some sliced.regionId)
    (hobject : sub.objectId = sliced.objectId) (hchain : sub.variantChain = sliced.variantChain)
    (hid : modifierSubRegionId sliced.regionId sliced.objectId stage.2 = some sub.regionId)
    (hcuts : (sliced.objectId, stage.2) ∈ modifierCuts input.sliceMeshEx input.objects layer.z) :
    ∃ entry ∈ map.entries, entry.1 = regionMapKeyForSlicedRegion layer.index sub ∧
      ∃ object ∈ input.objects, object.id = sub.objectId ∧
      (∃ modifier ∈ object.modifierVolumes,
        modifierFootprint input.sliceMeshEx layer.z modifier = some stage.2) ∧
      ResolvedFor input map layer base sub.variantChain (object.modifierVolumes.filter
        fun modifier => modifierFootprint input.sliceMeshEx layer.z modifier == some stage.2)
        entry.2 := by
  have hcanonical : CanonicalChain input base.objectId sub.variantChain := by
    rw [hchain, ← hbase.objectId]
    exact canonicalChain_of_mem hmap hbase.key_mem
  -- the object of the cut is the one that region mapping finds
  obtain ⟨object, hmem, hobjectId, modifier, hmodifier, hfootprint⟩ := mem_modifierCuts hcuts
  have hfind : input.objects.find? (·.id == base.objectId) = some object := by
    rw [← hbase.objectId, ← hobjectId]
    exact List.find?_key_eq_some hunique hmem
  have hgroups : regionGroups input layer base =
      modifierFootprintGroups input.sliceMeshEx object layer.z := by
    rw [regionGroups, isModifierNamespaceId_base hencoded hordinary, if_neg Bool.false_ne_true,
      hfind]
  have hgrouped := @grouped_modifierFootprintGroups _ input.sliceMeshEx layer.z object
  obtain ⟨group, hgroup, hsame⟩ :=
    List.mem_map.mp ((hgrouped.mem stage.2).mpr ⟨modifier, hmodifier, hfootprint⟩)
  obtain ⟨entry, hentry, id, hid', hkey, hconfig⟩ :=
    exists_child_entry hmap hlayer hbase.base_mem hcanonical (hgroups ▸ hgroup)
  have hidSame : id = sub.regionId := by
    rw [childRegionId, hchain, hencoded, Option.bind_some, ← hbase.objectId, hsame, hid] at hid'
    exact (Option.some.inj hid').symm
  refine ⟨entry, hentry, ?_, object, hmem, hobjectId.trans hobject.symm,
    ⟨modifier, hmodifier, hfootprint⟩, ?_⟩
  · rw [hkey, hidSame]
    exact (regionMapKey_of_sub (hobject.trans hbase.objectId) hid).symm
  · rw [← hsame, ← hgrouped.members group hgroup]
    exact hconfig

/-- A child that is in the map was cut from a region with the id of its base. -/
theorem encoded_of_entry {sliced sub : SlicedRegion F} {footprint : List ExPolygon}
    (hmap : executeRegionMapping input = .ok map)
    (hactive : ∀ layer ∈ input.globalLayers, ∀ region ∈ layer.activeRegions,
      isModifierNamespaceId region.regionId = false)
    (hchain : sub.variantChain = sliced.variantChain)
    (hid : modifierSubRegionId sliced.regionId sliced.objectId footprint = some sub.regionId)
    (hkey : regionMapKeyForSlicedRegion layer.index sub ∈ map.entries.map Prod.fst) :
    paintVariantRegionId (mapSpaceRegionId sliced.regionId sliced.variantChain)
      sliced.variantChain = some sliced.regionId := by
  obtain ⟨hnamespace, -, hparent⟩ := modifierBaseRegionId_sub hid
  obtain ⟨layer', hlayer', region, hregion, -, -, -, hregionId⟩ :=
    (mem_keys_iff_planned hmap _).mp hkey
  simp only [regionMapKeyForSlicedRegion, mapSpaceRegionId_modifier hnamespace, hchain] at hregionId
  rcases hregionId with hregionId | ⟨footprint', -, hchild⟩
  · rw [hregionId, hactive layer' hlayer' region hregion] at hnamespace
    cases hnamespace
  · obtain ⟨parent, hencoded, hsub⟩ := Option.bind_eq_some_iff.mp hchild
    have hsame := (modifierBaseRegionId_sub hsub).2.2
    rw [hparent] at hsame
    obtain rfl := Option.some.inj hsame
    rw [mapSpaceRegionId_paintVariant hencoded, hencoded]

/-- Splitting and mapping agree on modifier children where every region that is cut has the
id of its base and its chain; and where no active region has an id of the modifier namespace
they agree nowhere else. -/
theorem split_children_are_mapped_iff (booleans : Booleans)
    (hmap : executeRegionMapping input = .ok map) (hunique : (input.objects.map (·.id)).Nodup)
    (hlayer : layer ∈ input.globalLayers) (hindex : slice.globalLayerIndex = layer.index)
    (hz : slice.z = layer.z)
    (hslice : ∀ sliced ∈ slice.regions, sliced.regionId ≠ MODIFIER_FOOTPRINT_REGION_ID →
      isModifierNamespaceId sliced.regionId = false → ∃ base, MappedIdentity map layer base sliced)
    (hsplit : splitModifierSubRegionsForPrepass booleans input.sliceMeshEx input.objects slice =
      .ok result) :
    (CutRegionsEncoded booleans (modifierCuts input.sliceMeshEx input.objects slice.z)
        (retainedRegions slice) → ChildrenMapped input map layer booleans slice result) ∧
      ((∀ layer ∈ input.globalLayers, ∀ region ∈ layer.activeRegions,
          isModifierNamespaceId region.regionId = false) →
        ChildrenMapped input map layer booleans slice result →
        CutRegionsEncoded booleans (modifierCuts input.sliceMeshEx input.objects slice.z)
          (retainedRegions slice)) := by
  obtain ⟨hroom, -, hresult⟩ := splitRegions_eq_ok_iff.mp hsplit
  have hresultIndex : result.globalLayerIndex = layer.index := by rw [hresult, ← hindex]
  have hordinary : ∀ sliced : SlicedRegion F, sliced.stages booleans
      (modifierCuts input.sliceMeshEx input.objects slice.z) ≠ [] → IsOrdinary sliced.regionId := by
    intro sliced hstages
    by_contra hnot
    exact hstages (stages_of_not_ordinary hnot)
  constructor
  · intro hencoded
    obtain ⟨-, kept, minted, hregions, hkept, -⟩ := splitRegions_spec hsplit
    refine ⟨kept, minted, hregions, hkept, fun sub hsub => ?_⟩
    obtain ⟨sliced, hsliced, stage, hstage, rfl⟩ :=
      (mem_minted_iff hsplit hregions hkept sub).mp hsub
    have hstages := List.ne_nil_of_mem hstage
    obtain ⟨hstaged, hnamespace⟩ := hordinary sliced hstages
    obtain ⟨base, hbase⟩ := hslice sliced (List.mem_of_mem_filter hsliced) hstaged hnamespace
    obtain ⟨hobject, hchain, hid, -⟩ := child_of_stage hroom hsliced hstage
    have hcut := cut_of_stage hstage
    rw [hz] at hcut
    obtain ⟨entry, hentry, hkey, object, hmem, hobjectId, hmodifier, hconfig⟩ :=
      entry_of_stage hmap hunique hlayer hbase hnamespace
        (hbase.regionId ▸ hencoded sliced hsliced hstages) hobject hchain hid hcut
    refine ⟨entry, hentry, hresultIndex ▸ hkey, object, hmem, hobjectId, base, hbase.base_mem,
      stage.1.restoreInfill.polygons, stage.2, ?_, hmodifier, hconfig⟩
    rw [stageChild, modifierChild]
    rfl
  · rintro hactive ⟨kept, minted, hregions, hkept, hmapped⟩ sliced hsliced hstages
    obtain ⟨stage, hstage⟩ := List.exists_mem_of_ne_nil _ hstages
    obtain ⟨-, hchain, hid, -⟩ := child_of_stage hroom hsliced hstage
    obtain ⟨entry, hentry, hkey, -⟩ := hmapped _
      ((mem_minted_iff hsplit hregions hkept _).mpr ⟨sliced, hsliced, stage, hstage, rfl⟩)
    rw [hresultIndex] at hkey
    have hmem : regionMapKeyForSlicedRegion layer.index (stageChild booleans stage) ∈
        map.entries.map Prod.fst := by
      rw [← hkey]
      exact List.mem_map_of_mem hentry
    exact encoded_of_entry hmap hactive hchain hid hmem

/-- Both regions of the tile are cut, and both children are in the map. -/
theorem split_children_are_mapped_tile : ∃ map result, executeRegionMapping tileInput = .ok map ∧
    splitModifierSubRegionsForPrepass covering tileInput.sliceMeshEx tileInput.objects tileSlice =
      .ok result ∧ result.regions.length = 4 ∧
    ChildrenMapped tileInput map tileLayer covering tileSlice result := by
  obtain ⟨map, hmap, hmapped⟩ := exists_tileMap
  have hsplit : ((splitModifierSubRegionsForPrepass covering tileInput.sliceMeshEx
      tileInput.objects tileSlice).toOption.any fun result => result.regions.length == 4) =
      true := by
    decide +kernel
  obtain ⟨result, hresult, hcount⟩ := (Option.any_eq_true ..).mp hsplit
  have hencoded : ∀ sliced ∈ retainedRegions tileSlice,
      paintVariantRegionId (mapSpaceRegionId sliced.regionId sliced.variantChain)
        sliced.variantChain = some sliced.regionId := by
    decide +kernel
  exact ⟨map, result, hmap, Except.of_toOption_eq_some hresult, beq_iff_eq.mp hcount,
    (split_children_are_mapped_iff covering hmap (by decide) (List.mem_singleton.mpr rfl) rfl rfl
      (fun sliced hsliced _ _ => ⟨tileRegion, hmapped sliced hsliced⟩)
      (Except.of_toOption_eq_some hresult)).1 fun sliced hsliced _ => hencoded sliced hsliced⟩

/-- The tile with the region id zero. -/
def originLayer : GlobalLayer ℚ :=
  { tileLayer with activeRegions := [{ tileRegion with regionId := 0 }] }

def originInput : RegionMappingInput ℚ :=
  { tileInput with globalLayers := [originLayer] }

/-- The base region, and a painted region that a projection added with the id of the base. -/
def projectedSlice : SliceIR ℚ :=
  { tileSlice with
    regions := [tileSliced 0 [], missingRegion [tileSliced 0 []] "tile"
      [("material", .ToolIndex 1)] tileFootprint [] []] }

/-- Zero is the base that zero decodes to, so both regions are mapped; the child of the
projection has an id of its own and no entry. -/
theorem projected_child_has_no_entry : ∃ map result,
    executeRegionMapping originInput = .ok map ∧
    (∀ sliced ∈ projectedSlice.regions, ∃ base, MappedIdentity map originLayer base sliced) ∧
    splitModifierSubRegionsForPrepass covering originInput.sliceMeshEx originInput.objects
      projectedSlice = .ok result ∧
    ¬ ChildrenMapped originInput map originLayer covering projectedSlice result := by
  have hrun : ((executeRegionMapping originInput).toOption.any fun map =>
      (splitModifierSubRegionsForPrepass covering originInput.sliceMeshEx originInput.objects
        projectedSlice).toOption.any fun result =>
          (projectedSlice.regions.all fun sliced =>
            (map.entries.map Prod.fst).contains (regionMapKeyForSlicedRegion 3 sliced)) &&
          (result.regions.drop 2).any fun sub =>
            !(map.entries.map Prod.fst).contains
              (regionMapKeyForSlicedRegion result.globalLayerIndex sub)) = true := by
    decide +kernel
  obtain ⟨map, hmap, hrun⟩ := (Option.any_eq_true ..).mp hrun
  obtain ⟨result, hresult, hrun⟩ := (Option.any_eq_true ..).mp hrun
  rw [Bool.and_eq_true, List.all_eq_true, List.any_eq_true] at hrun
  obtain ⟨hkeys, sub, hsub, hmissing⟩ := hrun
  refine ⟨map, result, Except.of_toOption_eq_some hmap, fun sliced hsliced => ?_,
    Except.of_toOption_eq_some hresult, ?_⟩
  · have hdecodes : ∀ sliced ∈ projectedSlice.regions, sliced.objectId = tileRegion.objectId ∧
        mapSpaceRegionId sliced.regionId sliced.variantChain = 0 := by
      decide
    exact ⟨_, List.mem_singleton.mpr rfl, (hdecodes sliced hsliced).1, (hdecodes sliced hsliced).2,
      List.contains_iff_mem.mp (hkeys sliced hsliced)⟩
  · rintro ⟨kept, minted, hregions, hkept, hmapped⟩
    have hlength : kept.length = 2 := by
      have htwo : (retainedRegions projectedSlice).length = 2 := by decide
      rw [← htwo]
      simpa using congrArg List.length hkept
    rw [hregions, ← hlength, List.drop_left] at hsub
    obtain ⟨entry, hentry, hkey, -⟩ := hmapped sub hsub
    have hmem := List.mem_map_of_mem (f := Prod.fst) hentry
    rw [hkey, ← List.contains_iff_mem] at hmem
    rw [hmem] at hmissing
    cases hmissing

end PinchNPrint.Region
