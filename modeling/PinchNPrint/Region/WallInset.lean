/-
Fill roles partition the wall inset.

Under exact booleans the bridges, bottoms, tops and sparse infill of a region are disjoint
and make up the infill area of its perimeters within the region (`fillsInset_assignRoles`),
and the footprints that are split off in the same call keep this (`FillsInset.restrict`): the
regions that share perimeters fill them together.

`roles_partition_inset` states it for all regions whose inset has points. A region whose
inset is empty has no roles if its perimeters have walls; without walls it keeps the bridges
and tops that prepass found, and these may reach into other regions
(`kept_bridge_overlaps`).
-/

import PinchNPrint.Region.Perimeters
import PinchNPrint.Region.SplitConservation

namespace PinchNPrint.Region

open Carving Config

variable {F P : Type}

/-! ### Roles within an inset -/

/-- The union is the one on sets, too. -/
structure ExactOps (points : ExPolygon → Set P) (ops : PolygonOps) : Prop extends
    ExactBooleans points ops.toBooleans where
  union : ∀ a b, covered points (ops.union a b) = covered points a ∪ covered points b

/-- The fields that hold the fill roles. -/
def roleFields : List FillField :=
  [.bridgeAreas, .bottomSolidFill, .topSolidFill, .sparseInfillArea]

/-- The points that the roles of a region cover. -/
def fillAreas (points : ExPolygon → Set P) (region : SlicedRegion F) : Set P :=
  {x | ∃ role ∈ roleFields, x ∈ covered points (region.field role)}

/-- The roles of a region partition the inset. -/
structure FillsInset (points : ExPolygon → Set P) (region : SlicedRegion F) (inset : Set P) :
    Prop where
  disjoint : roleFields.Pairwise fun a b =>
    Disjoint (covered points (region.field a)) (covered points (region.field b))
  union : fillAreas points region = inset

theorem mem_fillAreas {points : ExPolygon → Set P} {region : SlicedRegion F} {x : P} :
    x ∈ fillAreas points region ↔ x ∈ covered points region.bridgeAreas ∨
      x ∈ covered points region.bottomSolidFill ∨ x ∈ covered points region.topSolidFill ∨
      x ∈ covered points region.sparseInfillArea := by
  simp [fillAreas, roleFields, SlicedRegion.field]

theorem FillsInset.restrict {points : ExPolygon → Set P} {region part : SlicedRegion F}
    {inset within : Set P} (h : FillsInset points region inset)
    (hroles : ∀ role ∈ roleFields,
      covered points (part.field role) = covered points (region.field role) ∩ within) :
    FillsInset points part (inset ∩ within) where
  disjoint := by
    refine h.disjoint.imp_of_mem fun {a b} ha hb hab => ?_
    rw [hroles a ha, hroles b hb]
    exact hab.mono Set.inter_subset_left Set.inter_subset_left
  union := by
    ext x
    rw [← h.union]
    constructor
    · rintro ⟨role, hrole, hx⟩
      rw [hroles role hrole] at hx
      exact ⟨⟨role, hrole, hx.1⟩, hx.2⟩
    · rintro ⟨⟨role, hrole, hx⟩, hwithin⟩
      refine ⟨role, hrole, ?_⟩
      rw [hroles role hrole]
      exact ⟨hx, hwithin⟩

section Roles

variable {points : ExPolygon → Set P} {ops : PolygonOps} (hexact : ExactOps points ops)
  {perim : PerimeterRegion F} {region : SlicedRegion F}

/-- The infill area of the perimeters within a region. -/
def insetPoints (points : ExPolygon → Set P) (perim : PerimeterRegion F)
    (region : SlicedRegion F) : Set P :=
  covered points perim.infillAreas ∩ covered points region.polygons

include hexact

theorem covered_wallInset :
    covered points (wallInset ops perim region) = insetPoints points perim region :=
  hexact.intersection.covered_op _ _

theorem isEmpty_wallInset_iff :
    (wallInset ops perim region).isEmpty = true ↔ insetPoints points perim region = ∅ :=
  hexact.intersection.isEmpty_iff _ _

theorem isEmpty_wallInset (h : (insetPoints points perim region).Nonempty) :
    (wallInset ops perim region).isEmpty = false := by
  rw [← Bool.not_eq_true, isEmpty_wallInset_iff hexact]
  exact h.ne_empty

/-- The bridges that a region has in its inset, whether they were clipped or kept. -/
theorem covered_bridgeRole (h : (insetPoints points perim region).Nonempty) :
    covered points (bridgeRole ops perim region) =
      covered points region.bridgeAreas ∩ insetPoints points perim region := by
  unfold bridgeRole wallsConsumedRegion
  dsimp only
  rw [isEmpty_wallInset hexact h, Bool.false_and]
  simp only [Bool.false_eq_true, if_false]
  split
  case isTrue hkept =>
    rw [Bool.and_eq_true] at hkept
    have hinside := (hexact.difference.isEmpty_iff _ _).mp hkept.2
    rw [covered_wallInset hexact] at hinside
    exact (Set.inter_eq_self_of_subset_left (Set.sdiff_eq_empty.mp hinside)).symm
  case isFalse => rw [hexact.intersection.covered_op, covered_wallInset hexact]

theorem covered_bottomRole (h : (insetPoints points perim region).Nonempty) :
    covered points (bottomRole ops perim region) =
      (covered points region.bottomSolidFill ∩ insetPoints points perim region) \
        covered points (bridgeRole ops perim region) := by
  unfold bottomRole
  dsimp only
  rw [isEmpty_wallInset hexact h]
  simp only [Bool.false_eq_true, if_false]
  rw [hexact.difference.covered_op, hexact.intersection.covered_op, covered_wallInset hexact]

theorem covered_topRole (h : (insetPoints points perim region).Nonempty) :
    covered points (topRole ops perim region) =
      (covered points region.topSolidFill ∩ insetPoints points perim region) \
        (covered points (bridgeRole ops perim region) ∪
          covered points (bottomRole ops perim region)) := by
  unfold topRole wallsConsumedRegion
  dsimp only
  rw [isEmpty_wallInset hexact h, Bool.false_and]
  simp only [Bool.false_eq_true, if_false]
  rw [hexact.difference.covered_op, hexact.intersection.covered_op, covered_wallInset hexact,
    hexact.union]

theorem covered_sparseRole (perim : PerimeterRegion F) (region : SlicedRegion F) :
    covered points (sparseRole ops perim region) = insetPoints points perim region \
      (covered points (bridgeRole ops perim region) ∪ covered points (bottomRole ops perim region) ∪
        covered points (topRole ops perim region)) := by
  rw [sparseRole, hexact.difference.covered_op, covered_wallInset hexact, hexact.union,
    hexact.union]

/-- Roles are assigned by precedence and partition the inset. -/
theorem fillsInset_assignRoles (h : (insetPoints points perim region).Nonempty) :
    FillsInset points (assignRoles ops perim region) (insetPoints points perim region) := by
  have hbridge := covered_bridgeRole hexact h
  have hbottom := covered_bottomRole hexact h
  have htop := covered_topRole hexact h
  have hsparse := covered_sparseRole hexact perim region
  constructor
  · simp only [roleFields, List.pairwise_cons, List.forall_mem_cons, List.not_mem_nil,
      IsEmpty.forall_iff, implies_true, List.Pairwise.nil, and_true, SlicedRegion.field, assignRoles,
      Set.disjoint_left]
    refine ⟨⟨?_, ?_, ?_⟩, ⟨?_, ?_⟩, ?_⟩ <;> intro x hx hother
    · rw [hbottom] at hother
      exact hother.2 hx
    · rw [htop] at hother
      exact hother.2 (.inl hx)
    · rw [hsparse] at hother
      exact hother.2 (.inl (.inl hx))
    · rw [htop] at hother
      exact hother.2 (.inr hx)
    · rw [hsparse] at hother
      exact hother.2 (.inl (.inr hx))
    · rw [hsparse] at hother
      exact hother.2 (.inr hx)
  · ext x
    rw [mem_fillAreas]
    change x ∈ covered points (bridgeRole ops perim region) ∨
      x ∈ covered points (bottomRole ops perim region) ∨
      x ∈ covered points (topRole ops perim region) ∨
      x ∈ covered points (sparseRole ops perim region) ↔ _
    constructor
    · rintro (hx | hx | hx | hx)
      · exact (hbridge ▸ hx).2
      · exact (hbottom ▸ hx).1.2
      · exact (htop ▸ hx).1.2
      · exact (hsparse ▸ hx).1
    · intro hx
      by_cases htaken : x ∈ covered points (bridgeRole ops perim region) ∪
          covered points (bottomRole ops perim region) ∪ covered points (topRole ops perim region)
      · rcases htaken with (hx | hx) | hx
        · exact .inl hx
        · exact .inr (.inl hx)
        · exact .inr (.inr (.inl hx))
      · exact .inr (.inr (.inr (hsparse ▸ ⟨hx, htaken⟩)))

/-- Without an inset there is neither bottom nor sparse infill. -/
theorem fillAreas_kept (h : insetPoints points perim region = ∅) :
    fillAreas points (assignRoles ops perim region) =
      covered points (bridgeRole ops perim region) ∪ covered points (topRole ops perim region) := by
  have hbottom : bottomRole ops perim region = [] := by
    rw [bottomRole, (isEmpty_wallInset_iff hexact).mpr h, if_pos rfl]
  have hsparse := covered_sparseRole hexact perim region
  rw [h, Set.empty_sdiff] at hsparse
  ext x
  rw [mem_fillAreas]
  simp [assignRoles, hbottom, hsparse]

/-- Where the walls leave nothing there are no roles. -/
theorem fillAreas_consumed (h : insetPoints points perim region = ∅) (hwalls : perim.walls ≠ []) :
    fillAreas points (assignRoles ops perim region) = ∅ := by
  have hconsumed : wallsConsumedRegion ops perim region = true := by
    rw [wallsConsumedRegion, (isEmpty_wallInset_iff hexact).mpr h, Bool.true_and,
      Bool.not_eq_true', List.isEmpty_eq_false_iff]
    exact hwalls
  have hbridge : bridgeRole ops perim region = [] := by
    rw [bridgeRole, hconsumed, if_pos rfl]
  have htop : topRole ops perim region = [] := by
    rw [topRole, hconsumed, if_pos rfl]
  rw [fillAreas_kept hexact h, hbridge, htop, covered_nil, Set.union_empty]

end Roles

/-! ### Parts of a region -/

section Parts

variable {points : ExPolygon → Set P} {booleans : Booleans}
  (hexact : ExactBooleans points booleans) {region : SlicedRegion F}
  {cuts : List (ObjectId × List ExPolygon)}

/-- What becomes of a region: what stays of it, and its children. -/
def SlicedRegion.partsOf (booleans : Booleans) (region : SlicedRegion F)
    (cuts : List (ObjectId × List ExPolygon)) : List (SlicedRegion F) :=
  region.remainder booleans cuts :: (region.stages booleans cuts).map (stageChild booleans)

include hexact

/-- Every part has the same part of all fields but the fill domain. -/
theorem exists_within {part : SlicedRegion F} (hpart : part ∈ region.partsOf booleans cuts) :
    ∃ within, ∀ field, field ≠ .infillAreas →
      covered points (part.field field) = covered points (region.field field) ∩ within := by
  rcases List.mem_cons.mp hpart with rfl | hpart
  · refine ⟨leftover (covered points) Set.univ ((region.stages booleans cuts).map Prod.snd),
      fun field hfield => ?_⟩
    rw [covered_remainder hexact fun stage _ => SlicedRegion.given_of_ne hfield]
    ext x
    simp [leftover]
  · obtain ⟨stage, hstage, rfl⟩ := List.mem_map.mp hpart
    obtain ⟨before, after, hstages⟩ := List.append_of_mem hstage
    refine ⟨leftover (covered points) Set.univ (before.map Prod.snd) ∩ covered points stage.2,
      fun field hfield => ?_⟩
    have hchild : covered points ((stageChild booleans stage).field field) = _ :=
      covered_stageChild hexact (SlicedRegion.given_of_ne hfield)
    have hregion : covered points (stage.1.field field) = _ :=
      covered_stage hexact hstages fun _ _ => SlicedRegion.given_of_ne hfield
    rw [hchild, hregion, ← Set.inter_assoc]
    congr 1
    ext x
    simp [leftover]

theorem parts_polygons_disjoint : (region.partsOf booleans cuts).Pairwise fun a b =>
    Disjoint (covered points a.polygons) (covered points b.polygons) := by
  have hgiven : ∀ stage ∈ region.stages booleans cuts, stage.1.Given .polygons :=
    fun stage _ => SlicedRegion.given_of_ne (by decide)
  have hdisjoint := parts_disjoint (covered points) (covered points (region.field .polygons))
    ((region.stages booleans cuts).map Prod.snd)
  rw [← covered_remainder hexact hgiven, ← covered_children hexact hgiven,
    ← List.map_cons (f := fun part : SlicedRegion F => covered points (part.field .polygons))]
    at hdisjoint
  exact List.pairwise_map.mp hdisjoint

theorem parts_polygons_subset {part : SlicedRegion F} (hpart : part ∈ region.partsOf booleans cuts) :
    covered points part.polygons ⊆ covered points region.polygons := by
  obtain ⟨within, hwithin⟩ := exists_within hexact hpart
  have hpolygons : covered points part.polygons = _ := hwithin .polygons (by decide)
  rw [hpolygons]
  exact Set.inter_subset_left

end Parts

/-! ### The whole slice -/

section Slices

variable [DecidableEq F] {points : ExPolygon → Set P} {ops : PolygonOps}
  {perimeter : PerimeterIR F} {slice result : SliceIR F} {region part : SlicedRegion F}
  {perim : PerimeterRegion F} {cuts : List (ObjectId × List ExPolygon)}

theorem donor_congr (perimeter : PerimeterIR F) (h : part.identity = region.identity) :
    perimeter.donor part = perimeter.donor region := by
  simp only [SlicedRegion.identity, Prod.mk.injEq] at h
  rw [PerimeterIR.donor, PerimeterIR.donor, SlicedRegion.perimeterRegionId,
    SlicedRegion.perimeterRegionId, h.1, h.2.1, h.2.2]

theorem donor_objectId (h : perimeter.donor part = some perim) : part.objectId = perim.objectId := by
  have hkey := List.find?_some h
  rw [decide_eq_true_eq] at hkey
  exact (congrArg Prod.fst hkey).symm

variable (perimeter) in
theorem donor_part {regions : List (SlicedRegion F)}
    (hroom : HaveRoom ops.toBooleans regions cuts) (hregion : region ∈ regions)
    (hpart : part ∈ region.partsOf ops.toBooleans cuts) :
    part.objectId = region.objectId ∧ perimeter.donor part = perimeter.donor region := by
  rcases List.mem_cons.mp hpart with rfl | hpart
  · have hidentity : (region.remainder ops.toBooleans cuts).identity = region.identity :=
      identity_remainder
    exact ⟨congrArg (fun identity : Identity F => identity.1) hidentity,
      donor_congr perimeter hidentity⟩
  · obtain ⟨stage, hstage, rfl⟩ := List.mem_map.mp hpart
    obtain ⟨hobject, hchain, -, hbase⟩ := child_of_stage hroom hregion hstage
    have hordinary : IsOrdinary region.regionId := by
      by_contra hnot
      rw [stages_of_not_ordinary hnot] at hstage
      cases hstage
    have hown : modifierBaseRegionId region.regionId = none := by
      rw [modifierBaseRegionId, hordinary.2, if_neg Bool.false_ne_true]
    refine ⟨hobject, ?_⟩
    rw [PerimeterIR.donor, PerimeterIR.donor, SlicedRegion.perimeterRegionId,
      SlicedRegion.perimeterRegionId, hobject, hchain, hbase, hown, Option.getD_some,
      Option.getD_none]

/-- The regions after the roles were assigned and the staged footprints were split off. -/
theorem syncSlice_regions (h : syncSlice ops perimeter slice = .ok result) :
    HaveRoom ops.toBooleans ((retainedRegions slice).map (syncRegion ops perimeter))
        (stagedFootprints slice) ∧
      result.regions.Perm ((retainedRegions slice).flatMap fun region =>
        (syncRegion ops perimeter region).partsOf ops.toBooleans (stagedFootprints slice)) := by
  obtain ⟨hroom, -, rfl⟩ := splitModifierFootprints_eq_ok_iff.mp h
  rw [stagedFootprints_sync, retainedRegions_sync] at hroom
  refine ⟨hroom, ?_⟩
  dsimp only
  rw [stagedFootprints_sync, retainedRegions_sync]
  refine ((mintedBy_perm _ _).append_left _).trans ?_
  rw [List.map_eq_flatMap, List.flatMap_map, List.flatMap_map]
  exact List.flatMap_append_perm (retainedRegions slice) _ _

theorem exists_region_of_part (h : syncSlice ops perimeter slice = .ok result)
    (hpart : part ∈ result.regions) : ∃ region ∈ retainedRegions slice,
      part ∈ (syncRegion ops perimeter region).partsOf ops.toBooleans (stagedFootprints slice) ∧
      part.objectId = region.objectId ∧ perimeter.donor part = perimeter.donor region := by
  obtain ⟨hroom, hperm⟩ := syncSlice_regions h
  obtain ⟨region, hregion, hpart⟩ := List.mem_flatMap.mp (hperm.mem_iff.mp hpart)
  obtain ⟨hobject, hdonor⟩ := donor_part perimeter hroom (List.mem_map_of_mem hregion) hpart
  refine ⟨region, hregion, hpart, by rw [hobject, objectId_syncRegion], ?_⟩
  exact hdonor.trans (donor_congr perimeter identity_syncRegion)

theorem syncRegion_eq (hregion : region ∈ retainedRegions slice)
    (hdonor : perimeter.donor region = some perim) :
    syncRegion ops perimeter region = assignRoles ops perim region := by
  have hfootprint : region.regionId ≠ MODIFIER_FOOTPRINT_REGION_ID := by
    simpa [retainedRegions] using (List.mem_filter.mp hregion).2
  rw [syncRegion, if_neg hfootprint, hdonor]

/-- The areas of a region stay within it if its inset has points, if its perimeters have walls,
or if prepass found its bridges and tops there. -/
def TakesPart (points : ExPolygon → Set P) (perim : PerimeterRegion F) (part : SlicedRegion F) :
    Prop :=
  (insetPoints points perim part).Nonempty ∨ perim.walls ≠ [] ∨
    covered points part.bridgeAreas ∪ covered points part.topSolidFill ⊆ covered points part.polygons

variable (hexact : ExactOps points ops)

include hexact

theorem fillsInset_part (hregion : region ∈ retainedRegions slice)
    (hdonor : perimeter.donor region = some perim)
    (hpart : part ∈ (syncRegion ops perimeter region).partsOf ops.toBooleans cuts)
    (hinset : (insetPoints points perim region).Nonempty) :
    FillsInset points part (insetPoints points perim part) := by
  rw [syncRegion_eq hregion hdonor] at hpart
  obtain ⟨within, hwithin⟩ := exists_within hexact.toExactBooleans hpart
  have hpolygons : covered points part.polygons = covered points region.polygons ∩ within :=
    hwithin .polygons (by decide)
  have hpoints : insetPoints points perim part = insetPoints points perim region ∩ within := by
    rw [insetPoints, insetPoints, hpolygons, Set.inter_assoc]
  rw [hpoints]
  refine (fillsInset_assignRoles hexact hinset).restrict fun role hrole => hwithin role ?_
  rintro rfl
  exact absurd hrole (by decide)

theorem fillAreas_subset (hregion : region ∈ retainedRegions slice)
    (hdonor : perimeter.donor region = some perim)
    (hpart : part ∈ (syncRegion ops perimeter region).partsOf ops.toBooleans cuts)
    (htakes : TakesPart points perim part) :
    fillAreas points part ⊆ covered points part.polygons := by
  by_cases hinset : (insetPoints points perim region).Nonempty
  · rw [(fillsInset_part hexact hregion hdonor hpart hinset).union]
    exact Set.inter_subset_right
  · rw [Set.not_nonempty_iff_eq_empty] at hinset
    rw [syncRegion_eq hregion hdonor] at hpart
    obtain ⟨within, hwithin⟩ := exists_within hexact.toExactBooleans hpart
    have hroles : ∀ role ∈ roleFields, covered points (part.field role) ⊆
        covered points ((assignRoles ops perim region).field role) := by
      intro role hrole
      rw [hwithin role (by rintro rfl; exact absurd hrole (by decide))]
      exact Set.inter_subset_left
    have hareas : fillAreas points part ⊆ fillAreas points (assignRoles ops perim region) :=
      fun x ⟨role, hrole, hx⟩ => ⟨role, hrole, hroles role hrole hx⟩
    rcases htakes with hnonempty | hwalls | hinside
    · -- the inset of a part is part of the inset
      obtain ⟨x, hinfill, hpolygons⟩ := hnonempty
      have hx : x ∈ insetPoints points perim region :=
        ⟨hinfill, parts_polygons_subset hexact.toExactBooleans hpart hpolygons⟩
      rw [hinset] at hx
      exact absurd hx (Set.notMem_empty x)
    · rw [fillAreas_consumed hexact hinset hwalls] at hareas
      exact hareas.trans (Set.empty_subset _)
    · intro x hx
      have hnone := fun role hrole (hmem : x ∈ covered points (part.field role)) =>
        hroles role hrole hmem
      have hbottom : covered points (bottomRole ops perim region) = ∅ := by
        rw [bottomRole, (isEmpty_wallInset_iff hexact).mpr hinset, if_pos rfl, covered_nil]
      have hsparse := covered_sparseRole hexact perim region
      rw [hinset, Set.empty_sdiff] at hsparse
      rcases mem_fillAreas.mp hx with hx | hx | hx | hx
      · exact hinside (.inl hx)
      · exact absurd (hbottom ▸ hnone .bottomSolidFill (by decide) hx) (Set.notMem_empty x)
      · exact hinside (.inr hx)
      · exact absurd (hsparse ▸ hnone .sparseInfillArea (by decide) hx) (Set.notMem_empty x)

theorem polygons_disjoint (h : syncSlice ops perimeter slice = .ok result)
    (hdisjoint : (retainedRegions slice).Pairwise fun a b => a.objectId = b.objectId →
      Disjoint (covered points a.polygons) (covered points b.polygons)) :
    result.regions.Pairwise fun a b => a.objectId = b.objectId →
      Disjoint (covered points a.polygons) (covered points b.polygons) := by
  obtain ⟨hroom, hperm⟩ := syncSlice_regions h
  have hsymm : ∀ {a b : SlicedRegion F}, (a.objectId = b.objectId →
      Disjoint (covered points a.polygons) (covered points b.polygons)) →
      b.objectId = a.objectId → Disjoint (covered points b.polygons) (covered points a.polygons) :=
    fun hab hobject => (hab hobject.symm).symm
  refine (hperm.pairwise_iff hsymm).mpr (List.pairwise_flatMap.mpr ⟨fun region hregion => ?_, ?_⟩)
  · refine (parts_polygons_disjoint hexact.toExactBooleans).imp ?_
    intro a b hab _
    exact hab
  · refine hdisjoint.imp_of_mem fun {a b} ha hb hab part hpart other hother hobject => ?_
    obtain ⟨hobjectA, -⟩ := donor_part perimeter hroom (List.mem_map_of_mem ha) hpart
    obtain ⟨hobjectB, -⟩ := donor_part perimeter hroom (List.mem_map_of_mem hb) hother
    rw [objectId_syncRegion] at hobjectA hobjectB
    have hpolygons := hab (hobjectA.symm.trans (hobject.trans hobjectB))
    refine hpolygons.mono ?_ ?_
    · exact (parts_polygons_subset hexact.toExactBooleans hpart).trans_eq (by rw [polygons_syncRegion])
    · exact (parts_polygons_subset hexact.toExactBooleans hother).trans_eq (by rw [polygons_syncRegion])

/-- After the sync every region whose inset has points fills it, and the regions that share
perimeters and take part fill the infill area of these together. -/
theorem roles_partition_inset (hdisjoint : (retainedRegions slice).Pairwise fun a b =>
      a.objectId = b.objectId → Disjoint (covered points a.polygons) (covered points b.polygons))
    (h : syncSlice ops perimeter slice = .ok result) :
    (∀ part ∈ result.regions, ∀ perim, perimeter.donor part = some perim →
      (insetPoints points perim part).Nonempty →
        FillsInset points part (insetPoints points perim part)) ∧
      (result.regions.Pairwise fun a b => ∀ perim, perimeter.donor a = some perim →
        perimeter.donor b = some perim → TakesPart points perim a → TakesPart points perim b →
          Disjoint (fillAreas points a) (fillAreas points b)) ∧
      ∀ perim, ∀ x ∈ covered points perim.infillAreas,
        (∃ part ∈ result.regions, perimeter.donor part = some perim ∧
          x ∈ covered points part.polygons) →
        ∃ part ∈ result.regions, perimeter.donor part = some perim ∧
          x ∈ fillAreas points part := by
  have hfills : ∀ part ∈ result.regions, ∀ perim, perimeter.donor part = some perim →
      (insetPoints points perim part).Nonempty →
        FillsInset points part (insetPoints points perim part) := by
    intro part hpart perim hdonor hinset
    obtain ⟨region, hregion, hmem, -, hsame⟩ := exists_region_of_part h hpart
    obtain ⟨x, hinfill, hpolygons⟩ := hinset
    have hsubset := parts_polygons_subset hexact.toExactBooleans hmem
    rw [polygons_syncRegion] at hsubset
    exact fillsInset_part hexact hregion (hsame ▸ hdonor) hmem ⟨x, hinfill, hsubset hpolygons⟩
  refine ⟨hfills, ?_, ?_⟩
  · refine (polygons_disjoint hexact h hdisjoint).imp_of_mem fun {a b} ha hb hab => ?_
    intro perim hdonorA hdonorB htakesA htakesB
    obtain ⟨regionA, hregionA, hmemA, hobjectA, hsameA⟩ := exists_region_of_part h ha
    obtain ⟨regionB, hregionB, hmemB, hobjectB, hsameB⟩ := exists_region_of_part h hb
    have hobject : a.objectId = b.objectId := (donor_objectId hdonorA).trans (donor_objectId hdonorB).symm
    exact (hab hobject).mono
      (fillAreas_subset hexact hregionA (hsameA ▸ hdonorA) hmemA htakesA)
      (fillAreas_subset hexact hregionB (hsameB ▸ hdonorB) hmemB htakesB)
  · rintro perim x hx ⟨part, hpart, hdonor, hpolygons⟩
    refine ⟨part, hpart, hdonor, ?_⟩
    rw [(hfills part hpart perim hdonor ⟨x, hx, hpolygons⟩).union]
    exact ⟨hx, hpolygons⟩

end Slices

/-! ### A strip within walls -/

/-- The booleans on vertices, with the union. -/
def vertexOps : PolygonOps where
  toBooleans := vertexBooleans
  union a b := a ++ b

theorem exact_vertexOps : ExactOps vertexPoints vertexOps where
  toExactBooleans := exact_vertexBooleans
  union _ b := covered_append b

/-- Perimeters without walls, with an infill area of two points. -/
def stripPerimeters : PerimeterIR ℚ where
  regions := [{ objectId := "strip", regionId := 7, infillAreas := strip [1, 2] }]

/-- The strip with a staged footprint. -/
def stagedSlice : SliceIR ℚ where
  globalLayerIndex := 0
  z := 1 / 5
  regions := [{ stripRegion with bridgeAreas := strip [2] },
    { stripRegion with regionId := MODIFIER_FOOTPRINT_REGION_ID, polygons := strip [1] }]

/-- The strip and its child fill their insets. -/
theorem roles_partition_inset_strip :
    ∃ result, syncSlice vertexOps stripPerimeters stagedSlice = .ok result ∧
      ∀ part ∈ result.regions, ∀ perim, stripPerimeters.donor part = some perim →
        (insetPoints vertexPoints perim part).Nonempty →
          FillsInset vertexPoints part (insetPoints vertexPoints perim part) := by
  have hok : (syncSlice vertexOps stripPerimeters stagedSlice).toOption.isSome = true := by
    decide +kernel
  obtain ⟨result, hresult⟩ := Option.isSome_iff_exists.mp hok
  have hsync := Except.of_toOption_eq_some hresult
  refine ⟨result, hsync, (roles_partition_inset exact_vertexOps ?_ hsync).1⟩
  have hone : retainedRegions stagedSlice = [{ stripRegion with bridgeAreas := strip [2] }] := by
    decide +kernel
  rw [hone]
  exact List.pairwise_singleton ..

/-- The strip next to a child of it, whose bridge reaches into the strip. -/
def reachingSlice : SliceIR ℚ where
  globalLayerIndex := 0
  z := 1 / 5
  regions := [{ stripRegion with polygons := strip [1, 2] },
    { stripRegion with
      regionId := 2 ^ 63 + (7 * 1000003 + 5)
      polygons := strip [3]
      bridgeAreas := strip [2] }]

/-- Both regions are for the same walls, the first has sparse infill and the second a bridge at
the point the strip and the bridge have in common. -/
def sharePoint (result : SliceIR ℚ) : Bool :=
  match result.regions with
  | [a, b] => stripPerimeters.donor a = stripPerimeters.regions.head? ∧
      stripPerimeters.donor b = stripPerimeters.regions.head? ∧
      ⟨2, 0⟩ ∈ verticesOf a.sparseInfillArea ∧ ⟨2, 0⟩ ∈ verticesOf b.bridgeAreas
  | _ => false

/-- Without walls the child keeps the bridge, though its inset is empty, and the strip has
sparse infill there. -/
theorem kept_bridge_overlaps :
    ((retainedRegions reachingSlice).Pairwise fun a b => a.objectId = b.objectId →
      Disjoint (covered vertexPoints a.polygons) (covered vertexPoints b.polygons)) ∧
      ∃ result, syncSlice vertexOps stripPerimeters reachingSlice = .ok result ∧
        ¬ result.regions.Pairwise fun a b => ∀ perim, stripPerimeters.donor a = some perim →
          stripPerimeters.donor b = some perim →
            Disjoint (fillAreas vertexPoints a) (fillAreas vertexPoints b) := by
  constructor
  · have htwo : retainedRegions reachingSlice = reachingSlice.regions := by decide +kernel
    rw [htwo, reachingSlice, List.pairwise_pair]
    intro _
    refine Set.disjoint_left.mpr fun p hp hp' => ?_
    have hx := (mem_covered_strip.mp hp).1
    rw [List.mem_singleton.mp (mem_covered_strip.mp hp').1] at hx
    exact absurd hx (by decide)
  · have hshared : (syncSlice vertexOps stripPerimeters reachingSlice).toOption.any sharePoint =
        true := by
      decide +kernel
    obtain ⟨result, hresult, hregions⟩ := (Option.any_eq_true ..).mp hshared
    refine ⟨result, Except.of_toOption_eq_some hresult, fun hpairwise => ?_⟩
    rw [sharePoint] at hregions
    split at hregions
    case h_1 a b heq =>
      obtain ⟨hdonorA, hdonorB, hsparse, hbridge⟩ := of_decide_eq_true hregions
      rw [heq, List.pairwise_pair] at hpairwise
      have hinA : (⟨2, 0⟩ : Point2) ∈ fillAreas vertexPoints a :=
        mem_fillAreas.mpr (.inr (.inr (.inr (mem_covered_vertexPoints.mpr hsparse))))
      have hinB : (⟨2, 0⟩ : Point2) ∈ fillAreas vertexPoints b :=
        mem_fillAreas.mpr (.inl (mem_covered_vertexPoints.mpr hbridge))
      exact Set.disjoint_left.mp (hpairwise _ hdonorA hdonorB) hinA hinB
    case h_2 => simp at hregions

end PinchNPrint.Region
