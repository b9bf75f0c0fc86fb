/-
Splitting conserves geometry (`slicer-runtime`: `region_partition.rs`).

What stays of a region and its children are disjoint and make up the region, field by field,
and a point that several footprints cover goes to the first of them.

There are two exceptions. Where the footprints so far took all of the fill domain and a later
one finds polygons left, the region gets a fill domain back, and its child one outside the
domain there was (`fill_domain_comes_back`). And a footprint that finds no polygons takes
nothing, though it may cover points of another field.

`split_conserves_iff`: apart from these, and from slices that have two regions of one
identity, splitting conserves.
-/

import PinchNPrint.Region.Carving

namespace PinchNPrint.Region

open Carving Config

variable {F P : Type}

/-! ### In place -/

/-- `split_regions_by_modifier_footprints` as the source has it: the slice is replaced once
the copy is complete. -/
def splitInPlace [DecidableEq F] (booleans : Booleans) (slice : SliceIR F)
    (cuts : List (ObjectId × List ExPolygon)) : SliceIR F × Except (SplitError F) Unit :=
  match splitRegionsByModifierFootprints booleans slice cuts with
  | .ok working => (working, .ok ())
  | .error error => (slice, .error error)

/-! ### What is conserved -/

/-- The internal bridges of the part are pieces of those of the original, each under the
angle of the one it is a piece of. -/
structure AnglesFollow (points : ExPolygon → Set P) (original part : SlicedRegion F) : Prop where
  angle : ∀ i piece, part.internalBridgeAreas[i]? = some piece →
    ∃ j source, original.internalBridgeAreas[j]? = some source ∧ points piece ⊆ points source ∧
      part.internalBridgeAngleDeg i = original.internalBridgeAngleDeg j
  aligned : original.internalBridgeAnglesDeg.length = original.internalBridgeAreas.length →
    part.internalBridgeAnglesDeg.length = part.internalBridgeAreas.length

/-- The child was cut from the region with the footprint. -/
structure TakenBy (points : ExPolygon → Set P) (original : SlicedRegion F)
    (footprint : List ExPolygon) (child : SlicedRegion F) : Prop where
  regionId : modifierSubRegionId original.regionId original.objectId footprint =
    some child.regionId
  polygons : covered points child.polygons ⊆ covered points footprint

/-- What stays of a region and its children make it up. -/
structure RegionConserved (points : ExPolygon → Set P) (footprints : List (List ExPolygon))
    (original rest : SlicedRegion F) (children : List (SlicedRegion F)) : Prop where
  disjoint : ∀ field, original.Given field → (rest :: children).Pairwise fun a b =>
    Disjoint (covered points (a.field field)) (covered points (b.field field))
  union : ∀ field, original.Given field → ∀ x, x ∈ covered points (original.field field) ↔
    ∃ part ∈ rest :: children, x ∈ covered points (part.field field)
  priority : ∀ field, original.Given field → ∀ x ∈ covered points (original.field field),
    ∀ before footprint after, footprints = before ++ footprint :: after →
      (∀ earlier ∈ before, x ∉ covered points earlier) → x ∈ covered points footprint →
      (∃ later ∈ after, x ∈ covered points later) →
      ∃ child ∈ children, TakenBy points original footprint child ∧
        x ∈ covered points (child.field field)
  angles : ∀ part ∈ rest :: children, AnglesFollow points original part

/-- The children of a region among what was minted. -/
def childrenOf [DecidableEq F] (region : SlicedRegion F) (minted : List (SlicedRegion F)) :
    List (SlicedRegion F) :=
  minted.filter fun child => child.objectId = region.objectId ∧
    modifierBaseRegionId child.regionId = some region.regionId ∧
    child.variantChain = region.variantChain

/-- Splitting conserves the regions of a slice; what it minted comes behind them. -/
structure SplitConserves [DecidableEq F] (points : ExPolygon → Set P)
    (cuts : List (ObjectId × List ExPolygon)) (slice result : SliceIR F) : Prop where
  distinct : (result.regions.map (·.identity)).Nodup
  conserved : ∀ (i : Nat) original, slice.regions[i]? = some original → IsOrdinary original.regionId →
    ∃ rest, result.regions[i]? = some rest ∧ rest.identity = original.identity ∧
      RegionConserved points (footprintsOf cuts original.objectId) original rest
        (childrenOf original (result.regions.drop slice.regions.length))

/-- A region that is split cleanly: something is left of the fill domain whenever a footprint
but the first cuts the region, and the first footprint that covers a point of a field covers
some of the polygons that the footprints before it leave, if another one covers the point,
too. -/
structure CutCleanly (points : ExPolygon → Set P) (footprints : List (List ExPolygon))
    (original : SlicedRegion F) : Prop where
  infill : original.infillAreas ≠ [] → ∀ before footprint after,
    takers (covered points) (covered points original.polygons) footprints =
      before ++ footprint :: after → before ≠ [] →
    (leftover (covered points) (covered points original.infillAreas) before).Nonempty
  meets : ∀ field, original.Given field → ∀ x ∈ covered points (original.field field),
    ∀ before footprint after, footprints = before ++ footprint :: after →
      (∀ earlier ∈ before, x ∉ covered points earlier) → x ∈ covered points footprint →
      (∃ later ∈ after, x ∈ covered points later) →
      (leftover (covered points) (covered points original.polygons) before ∩
        covered points footprint).Nonempty

/-- All identities are distinct, and all regions are split cleanly. -/
structure SplitsCleanly (points : ExPolygon → Set P) (cuts : List (ObjectId × List ExPolygon))
    (slice : SliceIR F) : Prop where
  distinct : (slice.regions.map (·.identity)).Nodup
  clean : ∀ original ∈ slice.regions, IsOrdinary original.regionId →
    CutCleanly points (footprintsOf cuts original.objectId) original

/-! ### Angles -/

section Angles

variable {points : ExPolygon → Set P} {original region : SlicedRegion F}

theorem AnglesFollow.refl (points : ExPolygon → Set P) (region : SlicedRegion F) :
    AnglesFollow points region region where
  angle i piece h := ⟨i, piece, h, subset_rfl, rfl⟩
  aligned h := h

theorem bridge_clip {op : List ExPolygon → List ExPolygon → List ExPolygon}
    {footprint : List ExPolygon} {i : Nat} {piece : ExPolygon}
    (h : (region.clip op footprint).internalBridgeAreas[i]? = some piece) :
    ∃ j source, region.internalBridgeAreas[j]? = some source ∧ piece ∈ op [source] footprint ∧
      (region.clip op footprint).internalBridgeAngleDeg i = region.internalBridgeAngleDeg j := by
  obtain ⟨entry, hentry, rfl⟩ := Option.map_eq_some_iff.mp (List.getElem?_map .. ▸ h :
    (region.bridgePieces op footprint)[i]?.map Prod.fst = some piece)
  obtain ⟨⟨source, j⟩, hsource, hpiece⟩ := List.mem_flatMap.mp (List.mem_of_getElem? hentry)
  obtain ⟨piece, hmem, rfl⟩ := List.mem_map.mp hpiece
  refine ⟨j, source, List.mem_zipIdx_iff_getElem?.mp hsource, hmem, ?_⟩
  unfold SlicedRegion.internalBridgeAngleDeg SlicedRegion.clip
  dsimp only
  cases hangles : region.internalBridgeAnglesDeg with
  | nil => rfl
  | cons angle angles =>
    rw [List.isEmpty_cons, if_neg Bool.false_ne_true, List.getElem?_map, hentry, Option.map_some,
      Option.getD_some, SlicedRegion.internalBridgeAngleDeg, hangles]

theorem AnglesFollow.clip (h : AnglesFollow points original region)
    {op : List ExPolygon → List ExPolygon → List ExPolygon} {footprint : List ExPolygon}
    (hop : ∀ source, ∀ piece ∈ op [source] footprint, points piece ⊆ points source) :
    AnglesFollow points original (region.restoreInfill.clip op footprint) := by
  have hrestored : AnglesFollow points original region.restoreInfill := by
    unfold SlicedRegion.restoreInfill
    split
    · exact ⟨h.angle, h.aligned⟩
    · exact h
  refine ⟨fun i piece hpiece => ?_, fun haligned => ?_⟩
  · obtain ⟨j, source, hsource, hmem, hangle⟩ := bridge_clip hpiece
    obtain ⟨k, origin, horigin, hsubset, hangle'⟩ := hrestored.angle j source hsource
    exact ⟨k, origin, horigin, (hop source piece hmem).trans hsubset, hangle.trans hangle'⟩
  · have hlength := hrestored.aligned haligned
    unfold SlicedRegion.clip
    dsimp only
    cases hangles : region.restoreInfill.internalBridgeAnglesDeg with
    | nil =>
      rw [hangles, List.length_nil, eq_comm, List.length_eq_zero_iff] at hlength
      simp [SlicedRegion.bridgePieces, hlength]
    | cons angle angles =>
      rw [List.isEmpty_cons, if_neg Bool.false_ne_true, List.length_map, List.length_map]

variable {booleans : Booleans} (hexact : ExactBooleans points booleans)
  {cuts : List (ObjectId × List ExPolygon)}

include hexact

theorem difference_subset (footprint : List ExPolygon) (source : ExPolygon) :
    ∀ piece ∈ booleans.difference [source] footprint, points piece ⊆ points source := by
  intro piece hpiece x hx
  have hmem : x ∈ covered points (booleans.difference [source] footprint) := ⟨piece, hpiece, hx⟩
  rw [hexact.difference.covered_op, covered_singleton] at hmem
  exact hmem.1

theorem intersection_subset (footprint : List ExPolygon) (source : ExPolygon) :
    ∀ piece ∈ booleans.intersection [source] footprint, points piece ⊆ points source := by
  intro piece hpiece x hx
  have hmem : x ∈ covered points (booleans.intersection [source] footprint) := ⟨piece, hpiece, hx⟩
  rw [hexact.intersection.covered_op, covered_singleton] at hmem
  exact hmem.1

theorem AnglesFollow.cutBy (h : AnglesFollow points original region)
    (cut : ObjectId × List ExPolygon) :
    AnglesFollow points original (region.cutBy booleans cut) := by
  unfold SlicedRegion.cutBy
  split
  · exact h.clip (difference_subset hexact cut.2)
  · exact h

theorem AnglesFollow.remainder (h : AnglesFollow points original region) :
    AnglesFollow points original (region.remainder booleans cuts) := by
  unfold SlicedRegion.remainder
  induction cuts generalizing region with
  | nil => exact h
  | cons cut rest ih => exact ih (h.cutBy hexact cut)

theorem AnglesFollow.stage (h : AnglesFollow points original region)
    {stage : SlicedRegion F × List ExPolygon} (hstage : stage ∈ region.stages booleans cuts) :
    AnglesFollow points original stage.1 := by
  induction cuts generalizing region with
  | nil => cases hstage
  | cons cut rest ih =>
    rcases List.mem_append.mp hstage with hstage | hstage
    · split at hstage
      · rw [List.mem_singleton.mp hstage]
        exact h
      · cases hstage
    · exact ih (h.cutBy hexact cut) hstage

theorem AnglesFollow.modifierChild (h : AnglesFollow points original region)
    (footprint : List ExPolygon) (subId : Nat) :
    AnglesFollow points original (modifierChild booleans region footprint subId) := by
  obtain ⟨hangle, haligned⟩ := h.clip (intersection_subset hexact footprint)
  exact ⟨hangle, haligned⟩

theorem AnglesFollow.stageChild {stage : SlicedRegion F × List ExPolygon}
    (h : AnglesFollow points original stage.1) :
    AnglesFollow points original (stageChild booleans stage) :=
  h.modifierChild hexact stage.2 _

end Angles

/-! ### Children -/

section Children

variable [DecidableEq F] {booleans : Booleans} {regions : List (SlicedRegion F)}
  {region : SlicedRegion F} {cuts : List (ObjectId × List ExPolygon)}

theorem childrenOf_perm (hroom : HaveRoom booleans regions cuts)
    (hdistinct : (regions.map (·.identity)).Nodup) (hregion : region ∈ regions) :
    (childrenOf region (mintedBy booleans regions cuts)).Perm
      ((region.stages booleans cuts).map (stageChild booleans)) := by
  refine ((mintedBy_perm regions cuts).filter _).trans (.of_eq ?_)
  have hown : ∀ child ∈ (region.stages booleans cuts).map (stageChild booleans),
      decide (child.objectId = region.objectId ∧
        modifierBaseRegionId child.regionId = some region.regionId ∧
        child.variantChain = region.variantChain) = true := by
    intro child hchild
    obtain ⟨stage, hstage, rfl⟩ := List.mem_map.mp hchild
    obtain ⟨hobject, hchain, -, hbase⟩ := child_of_stage hroom hregion hstage
    exact decide_eq_true ⟨hobject, hbase, hchain⟩
  have hother : ∀ other ∈ regions, other.identity ≠ region.identity →
      ∀ child ∈ (other.stages booleans cuts).map (stageChild booleans),
        ¬ (decide (child.objectId = region.objectId ∧
          modifierBaseRegionId child.regionId = some region.regionId ∧
          child.variantChain = region.variantChain) = true) := by
    intro other hmem hne child hchild hsame
    obtain ⟨stage, hstage, rfl⟩ := List.mem_map.mp hchild
    obtain ⟨hobject, hchain, -, hbase⟩ := child_of_stage hroom hmem hstage
    obtain ⟨hobject', hbase', hchain'⟩ := of_decide_eq_true hsame
    rw [hobject] at hobject'
    rw [hchain] at hchain'
    rw [hbase] at hbase'
    apply hne
    rw [SlicedRegion.identity, SlicedRegion.identity, hobject', hchain', Option.some.inj hbase']
  obtain ⟨before, after, rfl⟩ := List.append_of_mem hregion
  have hunlike : ∀ other ∈ before ++ after, other.identity ≠ region.identity := by
    rw [List.map_append, List.map_cons, List.nodup_middle, List.nodup_cons, ← List.map_append]
      at hdistinct
    intro other hmem heq
    exact hdistinct.1 (heq ▸ List.mem_map_of_mem hmem)
  have hnone : ∀ others : List (SlicedRegion F), (∀ other ∈ others, other ∈ before ++ after) →
      (others.flatMap fun other => (other.stages booleans cuts).map (stageChild booleans)).filter
        (fun child => decide (child.objectId = region.objectId ∧
          modifierBaseRegionId child.regionId = some region.regionId ∧
          child.variantChain = region.variantChain)) = [] := by
    intro others hothers
    refine List.filter_eq_nil_iff.mpr fun child hchild => ?_
    obtain ⟨other, hmem, hchild⟩ := List.mem_flatMap.mp hchild
    have hmem' := hothers other hmem
    refine hother other ?_ (hunlike other hmem') child hchild
    rcases List.mem_append.mp hmem' with h | h <;> simp [h]
  rw [List.flatMap_append, List.flatMap_cons, List.filter_append, List.filter_append,
    hnone before fun other h => List.mem_append_left _ h,
    hnone after fun other h => List.mem_append_right _ h, List.nil_append, List.append_nil]
  exact List.filter_eq_self.mpr hown

end Children

/-! ### Stages without a fill domain -/

section Stages

variable {points : ExPolygon → Set P} {booleans : Booleans}
  (hexact : ExactBooleans points booleans) {original : SlicedRegion F}
  {cuts : List (ObjectId × List ExPolygon)}

include hexact

/-- The stages behind a number of footprints, with the footprints before them. -/
theorem stages_of_takers (hordinary : IsOrdinary original.regionId)
    {before after : List (List ExPolygon)} {footprint : List ExPolygon}
    (htakers : takers (covered points) (covered points original.polygons)
      (footprintsOf cuts original.objectId) = before ++ footprint :: after) :
    ∃ earlier region later, original.stages booleans cuts = earlier ++ (region, footprint) :: later ∧
      earlier.map Prod.snd = before := by
  rw [← map_snd_stages hexact hordinary] at htakers
  obtain ⟨earlier, rest, hstages, hearlier, hrest⟩ := List.map_eq_append_iff.mp htakers
  obtain ⟨stage, later, rfl, rfl, -⟩ := List.map_eq_cons_iff.mp hrest
  exact ⟨earlier, stage.1, later, hstages, hearlier⟩

variable {field : FillField}

/-- A fill domain that is not used up so far is there. -/
theorem given_of_leftover (hgiven : original.Given field)
    {before after : List (SlicedRegion F × List ExPolygon)}
    {stage : SlicedRegion F × List ExPolygon}
    (hstages : original.stages booleans cuts = before ++ stage :: after)
    (hleft : ∀ earlier ∈ before.inits, earlier ≠ [] →
      (leftover (covered points) (covered points original.infillAreas)
        (earlier.map Prod.snd)).Nonempty) : stage.1.Given field := by
  rintro rfl
  generalize hlength : before.length = n
  induction n using Nat.strong_induction_on generalizing before stage after with
  | _ n ih =>
    -- the stages before this one have a fill domain, too
    have hearlier : ∀ earlier ∈ before, earlier.1.Given .infillAreas := by
      rintro earlier hmem -
      obtain ⟨before', after', rfl⟩ := List.append_of_mem hmem
      have hsplit : original.stages booleans cuts =
          before' ++ earlier :: (after' ++ stage :: after) := by
        rw [hstages, List.append_assoc, List.cons_append]
      refine ih before'.length ?_ hsplit ?_ rfl
      · rw [← hlength, List.length_append, List.length_cons]
        omega
      · intro prior hprior
        refine hleft prior ((List.mem_inits ..).mpr ?_)
        exact ((List.mem_inits ..).mp hprior).trans (List.prefix_append ..)
    cases before with
    | nil => rw [first_stage hstages]; exact hgiven rfl
    | cons first before =>
      intro hnil
      obtain ⟨x, hx⟩ := hleft (first :: before) ((List.mem_inits ..).mpr List.prefix_rfl) (by simp)
      have hcovered : covered points stage.1.infillAreas = _ :=
        covered_stage hexact hstages hearlier
      rw [hnil, covered_nil] at hcovered
      have hmem : x ∈ (∅ : Set P) := hcovered ▸ hx
      exact hmem

/-- A fill domain that is not used up is there at every stage. -/
theorem given_of_clean (hordinary : IsOrdinary original.regionId)
    (hclean : CutCleanly points (footprintsOf cuts original.objectId) original)
    (hgiven : original.Given field) :
    ∀ stage ∈ original.stages booleans cuts, stage.1.Given field := by
  rintro stage hstage rfl
  obtain ⟨before, after, hstages⟩ := List.append_of_mem hstage
  refine given_of_leftover hexact hgiven hstages (fun earlier hearlier hne => ?_) rfl
  obtain ⟨others, rfl⟩ := (List.mem_inits ..).mp hearlier
  obtain ⟨next, rest, hrest⟩ : ∃ next rest, others ++ stage :: after = next :: rest :=
    List.exists_cons_of_ne_nil (by simp)
  have htakers := congrArg (List.map Prod.snd) hstages
  rw [map_snd_stages hexact hordinary, List.append_assoc, hrest, List.map_append,
    List.map_cons] at htakers
  exact hclean.infill (hgiven rfl) _ _ _ htakers (by simpa using hne)

/-- The points of a child, in any of its fields, lie under the footprint it was cut with. -/
theorem covered_child_subset (region : SlicedRegion F) (footprint : List ExPolygon)
    (field : FillField) :
    covered points ((stageChild booleans (region, footprint)).field field) ⊆
      covered points footprint := by
  rw [covered_stageChild_restored hexact]
  exact Set.inter_subset_right

theorem covered_child_polygons {before after : List (SlicedRegion F × List ExPolygon)}
    {stage : SlicedRegion F × List ExPolygon}
    (hstages : original.stages booleans cuts = before ++ stage :: after) :
    covered points (stageChild booleans stage).polygons =
      leftover (covered points) (covered points original.polygons) (before.map Prod.snd) ∩
        covered points stage.2 := by
  have hgiven : ∀ region : SlicedRegion F, region.Given .polygons :=
    fun region => SlicedRegion.given_of_ne (by decide)
  have hchild : covered points (stageChild booleans stage).polygons = _ :=
    covered_stageChild hexact (hgiven stage.1)
  have hstage : covered points stage.1.polygons = _ :=
    covered_stage hexact hstages fun earlier _ => hgiven earlier.1
  rw [hchild]
  exact congrArg (· ∩ _) hstage

theorem regionConserved_of_clean (hordinary : IsOrdinary original.regionId)
    (hids : ∀ stage ∈ original.stages booleans cuts,
      modifierSubRegionId original.regionId original.objectId stage.2 =
        some (stageChild booleans stage).regionId)
    (hclean : CutCleanly points (footprintsOf cuts original.objectId) original) :
    RegionConserved points (footprintsOf cuts original.objectId) original
      (original.remainder booleans cuts)
      ((original.stages booleans cuts).map (stageChild booleans)) := by
  have hparts : ∀ field, original.Given field →
      ((original.remainder booleans cuts ::
          (original.stages booleans cuts).map (stageChild booleans)).map fun part =>
            covered points (part.field field)) =
        leftover (covered points) (covered points (original.field field))
            ((original.stages booleans cuts).map Prod.snd) ::
          parts (covered points) (covered points (original.field field))
            ((original.stages booleans cuts).map Prod.snd) := by
    intro field hgiven
    have hstages := given_of_clean hexact hordinary hclean hgiven
    rw [List.map_cons, covered_remainder hexact hstages, covered_children hexact hstages]
  refine ⟨fun field hgiven => ?_, fun field hgiven x => ?_, ?_, fun part hpart => ?_⟩
  · have hdisjoint := parts_disjoint (covered points) (covered points (original.field field))
      ((original.stages booleans cuts).map Prod.snd)
    rw [← hparts field hgiven] at hdisjoint
    exact List.pairwise_map.mp hdisjoint
  · rw [mem_iff_mem_parts (covered points) _ ((original.stages booleans cuts).map Prod.snd),
      ← hparts field hgiven]
    simp only [List.mem_map, exists_exists_and_eq_and]
  · intro field hgiven x hx before footprint after hsplit hbefore hfootprint hlater
    have htakes := takers_append_cons
      (hclean.meets field hgiven x hx before footprint after hsplit hbefore hfootprint hlater) after
    rw [← hsplit] at htakes
    obtain ⟨earlier, region, later, hstages, hearlier⟩ :=
      stages_of_takers hexact hordinary htakes
    have hmem : (region, footprint) ∈ original.stages booleans cuts := by simp [hstages]
    have hgivenStages := given_of_clean hexact hordinary hclean hgiven
    refine ⟨_, List.mem_map_of_mem hmem, ⟨hids _ hmem, ?_⟩, ?_⟩
    · exact covered_child_subset hexact region footprint .polygons
    · rw [covered_stageChild hexact (hgivenStages _ hmem)]
      refine ⟨?_, hfootprint⟩
      have hregion : covered points (region.field field) = _ :=
        covered_stage hexact hstages fun stage h => hgivenStages stage (by simp [hstages, h])
      rw [hregion, hearlier]
      exact ⟨hx, fun taker htaker => hbefore taker ((takers_sublist _ _ _).subset htaker)⟩
  · rcases List.mem_cons.mp hpart with rfl | hpart
    · exact (AnglesFollow.refl points original).remainder hexact
    · obtain ⟨stage, hstage, rfl⟩ := List.mem_map.mp hpart
      exact ((AnglesFollow.refl points original).stage hexact hstage).stageChild hexact

/-- A region is not conserved if a footprint cuts it after its fill domain was used up. -/
theorem infill_of_conserved (hordinary : IsOrdinary original.regionId) {rest : SlicedRegion F}
    (hconserved : RegionConserved points (footprintsOf cuts original.objectId) original rest
      ((original.stages booleans cuts).map (stageChild booleans)))
    (hinfill : original.infillAreas ≠ []) : ∀ before footprint after,
      takers (covered points) (covered points original.polygons)
        (footprintsOf cuts original.objectId) = before ++ footprint :: after → before ≠ [] →
      (leftover (covered points) (covered points original.infillAreas) before).Nonempty := by
  intro before
  generalize hlength : before.length = n
  induction n using Nat.strong_induction_on generalizing before with
  | _ n ih =>
    intro footprint after htakers hbefore
    by_contra hempty
    rw [Set.not_nonempty_iff_eq_empty] at hempty
    obtain ⟨earlier, region, later, hstages, rfl⟩ := stages_of_takers hexact hordinary htakers
    -- so far the fill domain never came back
    have hgiven : ∀ stage ∈ earlier, stage.1.Given .infillAreas := by
      intro stage hstage
      obtain ⟨first, others, rfl⟩ := List.append_of_mem hstage
      have hsplit : original.stages booleans cuts =
          first ++ stage :: (others ++ (region, footprint) :: later) := by
        rw [hstages, List.append_assoc, List.cons_append]
      refine given_of_leftover hexact (fun _ => hinfill) hsplit fun prior hprior hne => ?_
      obtain ⟨between, rfl⟩ := (List.mem_inits ..).mp hprior
      obtain ⟨next, rest, hrest⟩ : ∃ next rest,
          between ++ stage :: (others ++ (region, footprint) :: later) = next :: rest :=
        List.exists_cons_of_ne_nil (by simp)
      have htakers' := congrArg (List.map Prod.snd) hsplit
      rw [map_snd_stages hexact hordinary, List.append_assoc, hrest, List.map_append,
        List.map_cons] at htakers'
      refine ih (prior.map Prod.snd).length ?_ _ rfl _ _ htakers' (by simpa using hne)
      simp only [List.length_map, List.length_append, List.length_cons] at hlength ⊢
      omega
    have hcovered : covered points region.infillAreas = _ := covered_stage hexact hstages hgiven
    have hnil := infillAreas_eq_nil hexact hstages (by simpa using hbefore)
      (hcovered.trans hempty)
    -- the child has all of the polygons it covers as its fill domain
    obtain ⟨x, hx⟩ := nonempty_of_takers htakers
    have hchild : x ∈ covered points (stageChild booleans (region, footprint)).infillAreas := by
      have hrestored : (stageChild booleans (region, footprint)).infillAreas =
          booleans.intersection region.polygons footprint := by
        change booleans.intersection region.restoreInfill.infillAreas footprint = _
        rw [SlicedRegion.restoreInfill, hnil]
        rfl
      have hpolygons : ∀ stage ∈ earlier, stage.1.Given .polygons :=
        fun stage _ => SlicedRegion.given_of_ne (by decide)
      have hregion : covered points region.polygons = _ := covered_stage hexact hstages hpolygons
      rw [hrestored, hexact.intersection.covered_op, hregion]
      exact hx
    have hmem : (region, footprint) ∈ original.stages booleans cuts := by simp [hstages]
    have hinside : x ∈ covered points original.infillAreas :=
      (hconserved.union .infillAreas (fun _ => hinfill) x).mpr
        ⟨_, List.mem_cons_of_mem _ (List.mem_map_of_mem hmem), hchild⟩
    have hnone : x ∈ leftover (covered points) (covered points original.infillAreas)
        (earlier.map Prod.snd) := ⟨hinside, hx.1.2⟩
    rw [hempty] at hnone
    exact hnone

theorem meets_of_conserved (hordinary : IsOrdinary original.regionId) {rest : SlicedRegion F}
    (hconserved : RegionConserved points (footprintsOf cuts original.objectId) original rest
      ((original.stages booleans cuts).map (stageChild booleans))) (hgiven : original.Given field)
    {x : P} (hx : x ∈ covered points (original.field field)) {before after : List (List ExPolygon)}
    {footprint : List ExPolygon}
    (hsplit : footprintsOf cuts original.objectId = before ++ footprint :: after)
    (hbefore : ∀ earlier ∈ before, x ∉ covered points earlier)
    (hfootprint : x ∈ covered points footprint) (hlater : ∃ later ∈ after, x ∈ covered points later)
    :
    (leftover (covered points) (covered points original.polygons) before ∩
      covered points footprint).Nonempty := by
  obtain ⟨child, hchild, htaken, hin⟩ := hconserved.priority field hgiven x hx before footprint
    after hsplit hbefore hfootprint hlater
  obtain ⟨⟨region, other⟩, hstage, rfl⟩ := List.mem_map.mp hchild
  obtain ⟨earlier, later, hstages⟩ := List.append_of_mem hstage
  have htakers := congrArg (List.map Prod.snd) hstages
  rw [map_snd_stages hexact hordinary, List.map_append, List.map_cons, hsplit] at htakers
  -- the child has points, and they lie under the first footprint
  obtain ⟨y, hy⟩ := nonempty_of_takers htakers
  have hpolygons := covered_child_polygons hexact hstages
  have hcovers : y ∈ covered points footprint := htaken.polygons (hpolygons ▸ hy)
  -- the footprint of the child is none of those before, since it covers the point
  have hnotmem : other ∉ before := fun hmem =>
    hbefore other hmem (covered_child_subset hexact region other field hin)
  exact ⟨y, leftover_subset_of_takers htakers hnotmem hy.1, hcovers⟩

end Stages

/-! ### Slices -/

section Slices

variable {points : ExPolygon → Set P} {booleans : Booleans}

theorem RegionConserved.perm {footprints : List (List ExPolygon)} {original rest : SlicedRegion F}
    {children children' : List (SlicedRegion F)}
    (h : RegionConserved points footprints original rest children)
    (hperm : children.Perm children') :
    RegionConserved points footprints original rest children' where
  disjoint field hgiven :=
    ((hperm.cons rest).pairwise_iff fun hab => hab.symm).mp (h.disjoint field hgiven)
  union field hgiven x := by
    simp only [h.union field hgiven x, (hperm.cons rest).mem_iff]
  priority field hgiven x hx before footprint after hsplit hbefore hfootprint hlater := by
    obtain ⟨child, hchild, htaken⟩ :=
      h.priority field hgiven x hx before footprint after hsplit hbefore hfootprint hlater
    exact ⟨child, hperm.mem_iff.mp hchild, htaken⟩
  angles part hpart := h.angles part ((hperm.cons rest).mem_iff.mpr hpart)

variable [DecidableEq F] {cuts : List (ObjectId × List ExPolygon)} {slice result : SliceIR F}

theorem splitInPlace_of_ok (h : splitRegionsByModifierFootprints booleans slice cuts = .ok result) :
    splitInPlace booleans slice cuts = (result, .ok ()) := by
  rw [splitInPlace, h]

omit [DecidableEq F] in
/-- A region among the results, and its children among what was minted. -/
theorem getElem?_split (hresult : result.regions = slice.regions.map (·.remainder booleans cuts) ++
      mintedBy booleans slice.regions cuts) :
    (∀ (i : Nat) original, slice.regions[i]? = some original →
      result.regions[i]? = some (original.remainder booleans cuts)) ∧
      result.regions.drop slice.regions.length = mintedBy booleans slice.regions cuts := by
  constructor
  · intro i original h
    obtain ⟨hlt, -⟩ := List.getElem?_eq_some_iff.mp h
    rw [hresult, List.getElem?_append_left (by rwa [List.length_map]), List.getElem?_map, h,
      Option.map_some]
  · rw [hresult, List.drop_append_of_le_length (by rw [List.length_map]),
      List.drop_eq_nil_of_le (by rw [List.length_map]), List.nil_append]

theorem splitRegions_conserves_iff (hexact : ExactBooleans points booleans)
    (h : splitRegionsByModifierFootprints booleans slice cuts = .ok result) :
    SplitConserves points cuts slice result ↔ SplitsCleanly points cuts slice := by
  obtain ⟨hroom, hfresh, hresult⟩ := splitRegions_eq_ok_iff.mp h
  have hregions : result.regions = slice.regions.map (·.remainder booleans cuts) ++
      mintedBy booleans slice.regions cuts := by rw [hresult]
  obtain ⟨hget, hdrop⟩ := getElem?_split hregions
  have hkept : (slice.regions.map (·.remainder booleans cuts)).map (·.identity) =
      slice.regions.map (·.identity) := by
    rw [List.map_map]
    exact List.map_congr_left fun region _ => identity_remainder
  have hidentities : result.regions.map (·.identity) = slice.regions.map (·.identity) ++
      (mintedBy booleans slice.regions cuts).map (·.identity) := by
    rw [hregions, List.map_append, hkept]
  constructor
  · rintro ⟨hdistinct, hconserved⟩
    rw [hidentities] at hdistinct
    have hdistinct' := (List.nodup_append.mp hdistinct).1
    refine ⟨hdistinct', fun original horiginal hordinary => ?_⟩
    obtain ⟨i, hi⟩ := List.getElem?_of_mem horiginal
    obtain ⟨rest, -, -, hregion⟩ := hconserved i original hi hordinary
    rw [hdrop] at hregion
    have hparts := hregion.perm (childrenOf_perm hroom hdistinct' horiginal)
    refine ⟨infill_of_conserved hexact hordinary hparts, ?_⟩
    intro field hgiven x hx before footprint after hsplit hbefore hfootprint hlater
    exact meets_of_conserved hexact hordinary hparts hgiven hx hsplit hbefore hfootprint hlater
  · rintro ⟨hdistinct, hclean⟩
    refine ⟨?_, fun i original hi hordinary => ?_⟩
    · rw [hidentities]
      exact hfresh.nodup_append hdistinct
    · have horiginal := List.mem_of_getElem? hi
      refine ⟨_, hget i original hi, identity_remainder, ?_⟩
      rw [hdrop]
      have hids : ∀ stage ∈ original.stages booleans cuts, modifierSubRegionId original.regionId
          original.objectId stage.2 = some (stageChild booleans stage).regionId :=
        fun stage hstage => (child_of_stage hroom horiginal hstage).2.2.1
      exact (regionConserved_of_clean hexact hordinary hids (hclean original horiginal hordinary)).perm
        (childrenOf_perm hroom hdistinct horiginal).symm

/-- Splitting that succeeds conserves the regions exactly if it is clean, and splitting that
fails leaves the slice alone. -/
theorem split_conserves_iff (hexact : ExactBooleans points booleans) (slice : SliceIR F)
    (cuts : List (ObjectId × List ExPolygon)) :
    (∀ result, splitInPlace booleans slice cuts = (result, .ok ()) →
      (SplitConserves points cuts slice result ↔ SplitsCleanly points cuts slice)) ∧
      ∀ result error, splitInPlace booleans slice cuts = (result, .error error) →
        result = slice := by
  unfold splitInPlace
  constructor
  · intro result h
    cases hsplit : splitRegionsByModifierFootprints booleans slice cuts with
    | error error =>
      rw [hsplit] at h
      cases h
    | ok working =>
      rw [hsplit] at h
      cases h
      exact splitRegions_conserves_iff hexact hsplit
  · intro result error h
    cases hsplit : splitRegionsByModifierFootprints booleans slice cuts with
    | error error =>
      rw [hsplit] at h
      cases h
      rfl
    | ok working =>
      rw [hsplit] at h
      cases h

end Slices

/-! ### Grid points -/

/-- The polygon that stands for its vertices alone. -/
def vertexPoints (polygon : ExPolygon) : Set Point2 :=
  {p | p ∈ polygon.contour}

/-- The vertices of polygons. -/
def verticesOf (polygons : List ExPolygon) : List Point2 :=
  polygons.flatMap (·.contour)

/-- The vertices that pass, each a polygon of its own. -/
def keepVertices (keeps : Point2 → Bool) (polygons : List ExPolygon) : List ExPolygon :=
  ((verticesOf polygons).filter keeps).map fun p => { contour := [p] }

/-- The booleans on vertices. -/
def vertexBooleans : Booleans where
  intersection a b := keepVertices (fun p => p ∈ verticesOf b) a
  difference a b := keepVertices (fun p => p ∉ verticesOf b) a

variable {p : Point2} {polygons : List ExPolygon}

theorem mem_covered_vertexPoints : p ∈ covered vertexPoints polygons ↔ p ∈ verticesOf polygons := by
  simp [covered, vertexPoints, verticesOf]

theorem mem_covered_keepVertices {keeps : Point2 → Bool} :
    p ∈ covered vertexPoints (keepVertices keeps polygons) ↔
      p ∈ covered vertexPoints polygons ∧ keeps p = true := by
  rw [mem_covered_vertexPoints, mem_covered_vertexPoints, keepVertices, verticesOf]
  simp

theorem nonempty_of_mem_keepVertices {keeps : Point2 → Bool} {shape : ExPolygon}
    (h : shape ∈ keepVertices keeps polygons) : (vertexPoints shape).Nonempty := by
  obtain ⟨p, -, rfl⟩ := List.mem_map.mp h
  exact ⟨p, by simp [vertexPoints]⟩

theorem exact_vertexBooleans : ExactBooleans vertexPoints vertexBooleans where
  intersection := by
    refine ⟨fun a b => Set.ext fun p => ?_, fun a b shape h => nonempty_of_mem_keepVertices h⟩
    rw [vertexBooleans, mem_covered_keepVertices, decide_eq_true_eq, ← mem_covered_vertexPoints]
    rfl
  difference := by
    refine ⟨fun a b => Set.ext fun p => ?_, fun a b shape h => nonempty_of_mem_keepVertices h⟩
    rw [vertexBooleans, mem_covered_keepVertices, decide_eq_true_eq, ← mem_covered_vertexPoints]
    rfl

/-! ### A strip of three points -/

/-- The polygons of some points of a line. -/
def strip (xs : List ℤ) : List ExPolygon :=
  xs.map fun x => { contour := [⟨x, 0⟩] }

theorem mem_covered_strip {xs : List ℤ} :
    p ∈ covered vertexPoints (strip xs) ↔ p.x ∈ xs ∧ p.y = 0 := by
  obtain ⟨x, y⟩ := p
  simp [covered, vertexPoints, strip, and_comm]

/-- A region of three points, with a fill domain of the first. -/
def stripRegion : SlicedRegion ℚ where
  objectId := "strip"
  regionId := 7
  polygons := strip [1, 2, 3]
  infillAreas := strip [1]
  bridgeOrientationDeg := 0

def stripSlice : SliceIR ℚ where
  globalLayerIndex := 0
  z := 1 / 5
  regions := [stripRegion]

theorem exists_split {slice : SliceIR ℚ} {cuts : List (ObjectId × List ExPolygon)}
    (h : (splitRegionsByModifierFootprints vertexBooleans slice cuts).toOption.isSome = true) :
    ∃ result, splitRegionsByModifierFootprints vertexBooleans slice cuts = .ok result := by
  obtain ⟨result, hresult⟩ := Option.isSome_iff_exists.mp h
  exact ⟨result, Except.of_toOption_eq_some hresult⟩

/-- The strip with a fill domain of all its points. -/
def filledRegion : SlicedRegion ℚ :=
  { stripRegion with infillAreas := strip [1, 2, 3] }

def filledSlice : SliceIR ℚ :=
  { stripSlice with regions := [filledRegion] }

/-- Two footprints that both cover the point in the middle. -/
def stripCuts : List (ObjectId × List ExPolygon) :=
  [("strip", strip [1, 2]), ("strip", strip [2, 3])]

/-- Two footprints split the filled strip cleanly. -/
theorem split_conserves_strip :
    ∃ result, splitInPlace vertexBooleans filledSlice stripCuts = (result, .ok ()) ∧
      SplitConserves vertexPoints stripCuts filledSlice result := by
  obtain ⟨result, hresult⟩ := @exists_split filledSlice stripCuts (by decide +kernel)
  have hsplit := splitInPlace_of_ok hresult
  refine ⟨result, hsplit, ((split_conserves_iff exact_vertexBooleans filledSlice stripCuts).1 _
    hsplit).mpr ⟨by simp [filledSlice], ?_⟩⟩
  intro original horiginal _
  cases List.mem_singleton.mp horiginal
  have htwo : footprintsOf stripCuts filledRegion.objectId = [strip [1, 2], strip [2, 3]] := by
    decide
  rw [htwo]
  constructor
  · intro _ before footprint after htakers hbefore
    have hsublist := takers_sublist (covered vertexPoints) (covered vertexPoints
      filledRegion.polygons) [strip [1, 2], strip [2, 3]]
    obtain ⟨first, others, rfl⟩ := List.exists_cons_of_ne_nil hbefore
    rw [htakers, List.cons_append] at hsublist
    have hall := hsublist.eq_of_length_le (by simp; omega)
    obtain ⟨rfl, hothers⟩ := List.cons.inj hall
    obtain rfl : others = [] := by
      have hlength := congrArg List.length hothers
      rw [List.length_append, List.length_cons, List.length_singleton] at hlength
      exact List.length_eq_zero_iff.mp (by omega)
    exact ⟨⟨3, 0⟩, mem_covered_strip.mpr (by simp), by simp [mem_covered_strip]⟩
  · rintro field _ x _ before footprint after hfootprints _ _ ⟨later, hlater, _⟩
    obtain rfl : before = [] := by
      have hlength := congrArg List.length hfootprints
      have := List.length_pos_of_mem hlater
      simp only [List.length_append, List.length_cons, List.length_nil] at hlength
      exact List.length_eq_zero_iff.mp (by omega)
    obtain ⟨rfl, -⟩ := List.cons.inj hfootprints
    exact ⟨⟨1, 0⟩, ⟨mem_covered_strip.mpr (by simp), by simp⟩, mem_covered_strip.mpr (by simp)⟩

/-- The second footprint cuts the strip after the first took its fill domain: the child has
point 2 as its fill domain, which was not in the one of the strip. -/
theorem fill_domain_comes_back :
    ∃ result, splitInPlace vertexBooleans stripSlice [("strip", strip [1]), ("strip", strip [2])] =
        (result, .ok ()) ∧
      ¬ SplitConserves vertexPoints [("strip", strip [1]), ("strip", strip [2])] stripSlice
        result := by
  obtain ⟨result, hresult⟩ := @exists_split stripSlice [("strip", strip [1]), ("strip", strip [2])]
    (by decide +kernel)
  refine ⟨result, splitInPlace_of_ok hresult, fun hconserves => ?_⟩
  have hclean := ((splitRegions_conserves_iff exact_vertexBooleans hresult).mp hconserves).clean
    stripRegion (List.mem_singleton.mpr rfl) (by decide)
  have htwo : footprintsOf [("strip", strip [1]), ("strip", strip [2])] stripRegion.objectId =
      [strip [1]] ++ strip [2] :: [] := by decide
  have hsecond : (leftover (covered vertexPoints) (covered vertexPoints stripRegion.polygons)
      [strip [1]] ∩ covered vertexPoints (strip [2])).Nonempty := by
    refine ⟨⟨2, 0⟩, ⟨mem_covered_strip.mpr (by simp), ?_⟩, mem_covered_strip.mpr (by simp)⟩
    simp [mem_covered_strip]
  have htakers := takers_append_cons hsecond []
  have hfirst : takers (covered vertexPoints) (covered vertexPoints stripRegion.polygons)
      [strip [1]] = [strip [1]] := by
    rw [takers, if_pos ⟨⟨1, 0⟩, mem_covered_strip.mpr (by simp), mem_covered_strip.mpr (by simp)⟩]
    rfl
  rw [hfirst, ← htwo] at htakers
  obtain ⟨p, hp, hnot⟩ := hclean.infill (by decide) _ _ _ htakers (by simp)
  exact hnot (strip [1]) (by simp) hp

end PinchNPrint.Region
