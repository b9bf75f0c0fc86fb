/-
The geometry of splitting one region (`slicer-runtime`: `region_partition.rs`).

Polygons stand for the points they cover, and the polygon booleans for the operations on
sets of points. Then the footprints of an object carve each of its regions: the footprints
that take a part are those that find some of the polygons left (`map_snd_stages`), and the
fields of the region are carved by these, at every stage (`covered_stage`) and in the end
(`covered_remainder`, `covered_children`).

The fill domain is an exception. A region without one gets its polygons as the fill domain
before it is cut, and this is tested again under each footprint, so that the lemmas ask for
a fill domain at the stages before.
-/

import PinchNPrint.Lib.Carving
import PinchNPrint.Region.Cutting

namespace PinchNPrint.Region

open Carving Config

variable {F P : Type}

/-! ### Fields -/

/-- The fields of a region that splitting divides. -/
inductive FillField where
  | polygons
  | infillAreas
  | bridgeAreas
  | bottomSolidFill
  | topSolidFill
  | sparseInfillArea
  | internalSolidFill
  | internalBridgeAreas
  | raftFill
deriving DecidableEq

namespace SlicedRegion

def field (region : SlicedRegion F) : FillField → List ExPolygon
  | .polygons => region.polygons
  | .infillAreas => region.infillAreas
  | .bridgeAreas => region.bridgeAreas
  | .bottomSolidFill => region.bottomSolidFill
  | .topSolidFill => region.topSolidFill
  | .sparseInfillArea => region.sparseInfillArea
  | .internalSolidFill => region.internalSolidFill
  | .internalBridgeAreas => region.internalBridgeAreas
  | .raftFill => region.raftFill

/-- The field is not a fill domain that the region lacks. -/
def Given (region : SlicedRegion F) (field : FillField) : Prop :=
  field = .infillAreas → region.infillAreas ≠ []

theorem given_of_ne {region : SlicedRegion F} {field : FillField} (h : field ≠ .infillAreas) :
    region.Given field :=
  fun heq => absurd heq h

theorem field_restoreInfill {region : SlicedRegion F} {field : FillField}
    (h : region.Given field) : region.restoreInfill.field field = region.field field := by
  unfold restoreInfill
  split
  case isTrue hempty =>
    cases field with
    | infillAreas => exact absurd (List.isEmpty_iff.mp hempty) (h rfl)
    | _ => rfl
  case isFalse => rfl

end SlicedRegion

theorem field_modifierChild (booleans : Booleans) (parent : SlicedRegion F)
    (footprint : List ExPolygon) (subId : Nat) (field : FillField) :
    (modifierChild booleans parent footprint subId).field field =
      (parent.restoreInfill.clip booleans.intersection footprint).field field := by
  cases field <;> rfl

/-- The booleans are the operations on sets of points. -/
structure ExactBooleans (points : ExPolygon → Set P) (booleans : Booleans) : Prop where
  intersection : ExactOp points booleans.intersection (· ∩ ·)
  difference : ExactOp points booleans.difference (· \ ·)

/-- The footprints of an object, in order. -/
def footprintsOf (cuts : List (ObjectId × List ExPolygon)) (objectId : ObjectId) :
    List (List ExPolygon) :=
  (cuts.filter (·.1 = objectId)).map Prod.snd

section Exact

variable {points : ExPolygon → Set P} {booleans : Booleans} {region : SlicedRegion F}
  {cut : ObjectId × List ExPolygon} {cuts : List (ObjectId × List ExPolygon)}
  {footprint : List ExPolygon} {field : FillField}

/-- Cutting the internal bridges one at a time cuts them all. -/
theorem covered_bridgePieces {op : List ExPolygon → List ExPolygon → List ExPolygon}
    {setOp : Set P → Set P → Set P} {keeps : Set P → P → Prop} (hop : ExactOp points op setOp)
    (hkeeps : ∀ S c x, x ∈ setOp S c ↔ x ∈ S ∧ keeps c x) (region : SlicedRegion F)
    (footprint : List ExPolygon) :
    covered points ((region.bridgePieces op footprint).map Prod.fst) =
      setOp (covered points region.internalBridgeAreas) (covered points footprint) := by
  have hpieces : (region.bridgePieces op footprint).map Prod.fst =
      region.internalBridgeAreas.flatMap fun polygon => op [polygon] footprint := by
    unfold SlicedRegion.bridgePieces
    rw [List.map_flatMap]
    simp only [List.map_map, Function.comp_def, List.map_id']
    conv_rhs => rw [← List.zipIdx_map_fst 0 region.internalBridgeAreas, List.flatMap_map]
  ext x
  rw [hpieces, hkeeps]
  constructor
  · rintro ⟨piece, hpiece, hx⟩
    obtain ⟨polygon, hpolygon, hpiece⟩ := List.mem_flatMap.mp hpiece
    have hmem : x ∈ covered points (op [polygon] footprint) := ⟨piece, hpiece, hx⟩
    rw [hop.covered_op, hkeeps, covered_singleton] at hmem
    exact ⟨⟨polygon, hpolygon, hmem.1⟩, hmem.2⟩
  · rintro ⟨⟨polygon, hpolygon, hx⟩, hkept⟩
    have hmem : x ∈ covered points (op [polygon] footprint) := by
      rw [hop.covered_op, hkeeps, covered_singleton]
      exact ⟨hx, hkept⟩
    obtain ⟨piece, hpiece, hx⟩ := hmem
    exact ⟨piece, List.mem_flatMap.mpr ⟨polygon, hpolygon, hpiece⟩, hx⟩

theorem covered_clip {op : List ExPolygon → List ExPolygon → List ExPolygon}
    {setOp : Set P → Set P → Set P} {keeps : Set P → P → Prop} (hop : ExactOp points op setOp)
    (hkeeps : ∀ S c x, x ∈ setOp S c ↔ x ∈ S ∧ keeps c x) (region : SlicedRegion F)
    (footprint : List ExPolygon) (field : FillField) :
    covered points ((region.clip op footprint).field field) =
      setOp (covered points (region.field field)) (covered points footprint) := by
  cases field with
  | internalBridgeAreas => exact covered_bridgePieces hop hkeeps region footprint
  | _ => exact hop.covered_op _ _

variable (hexact : ExactBooleans points booleans)

include hexact

/-- What a footprint leaves of a region that it cuts. -/
theorem covered_cutBy (hcut : region.isCut booleans cut = true) (hgiven : region.Given field) :
    covered points ((region.cutBy booleans cut).field field) =
      covered points (region.field field) \ covered points cut.2 := by
  have hkeeps : ∀ (S c : Set P) x, x ∈ S \ c ↔ x ∈ S ∧ (fun (c : Set P) x => x ∉ c) c x :=
    fun _ _ _ => Iff.rfl
  rw [SlicedRegion.cutBy, if_pos hcut, covered_clip hexact.difference hkeeps,
    SlicedRegion.field_restoreInfill hgiven]

/-- A child has the points that its region has under the footprint. -/
theorem covered_stageChild_restored (region : SlicedRegion F) (footprint : List ExPolygon)
    (field : FillField) :
    covered points ((stageChild booleans (region, footprint)).field field) =
      covered points (region.restoreInfill.field field) ∩ covered points footprint := by
  have hfield : (stageChild booleans (region, footprint)).field field =
      (region.restoreInfill.clip booleans.intersection footprint).field field :=
    field_modifierChild booleans region footprint _ field
  have hkeeps : ∀ (S c : Set P) x, x ∈ S ∩ c ↔ x ∈ S ∧ (fun (c : Set P) x => x ∈ c) c x :=
    fun _ _ _ => Iff.rfl
  rw [hfield, covered_clip hexact.intersection hkeeps]

theorem covered_stageChild (hgiven : region.Given field) :
    covered points ((stageChild booleans (region, footprint)).field field) =
      covered points (region.field field) ∩ covered points footprint := by
  rw [covered_stageChild_restored hexact, SlicedRegion.field_restoreInfill hgiven]

variable {after : List (SlicedRegion F × List ExPolygon)} {stage : SlicedRegion F × List ExPolygon}

theorem covered_stage {before : List (SlicedRegion F × List ExPolygon)}
    (hstages : region.stages booleans cuts = before ++ stage :: after)
    (hgiven : ∀ earlier ∈ before, earlier.1.Given field) :
    covered points (stage.1.field field) =
      leftover (covered points) (covered points (region.field field)) (before.map Prod.snd) := by
  induction cuts generalizing region before with
  | nil => simp [SlicedRegion.stages] at hstages
  | cons cut rest ih =>
    cases hcut : region.isCut booleans cut with
    | false =>
      rw [stages_of_not_isCut hcut] at hstages
      exact ih hstages hgiven
    | true =>
      rw [stages_of_isCut hcut] at hstages
      cases before with
      | nil =>
        cases hstages
        rw [List.map_nil, leftover_nil]
      | cons first before =>
        obtain ⟨rfl, hrest⟩ := List.cons.inj hstages
        obtain ⟨hfirst, hgiven⟩ := List.forall_mem_cons.mp hgiven
        rw [ih hrest hgiven, covered_cutBy hexact hcut hfirst, List.map_cons, leftover_cons]

/-- What stays of a field. -/
theorem covered_remainder (hgiven : ∀ stage ∈ region.stages booleans cuts, stage.1.Given field) :
    covered points ((region.remainder booleans cuts).field field) =
      leftover (covered points) (covered points (region.field field))
        ((region.stages booleans cuts).map Prod.snd) := by
  induction cuts generalizing region with
  | nil => rw [SlicedRegion.stages, List.map_nil, leftover_nil]; rfl
  | cons cut rest ih =>
    have hremainder : region.remainder booleans (cut :: rest) =
        (region.cutBy booleans cut).remainder booleans rest := rfl
    rw [hremainder]
    cases hcut : region.isCut booleans cut with
    | false =>
      rw [stages_of_not_isCut hcut] at hgiven ⊢
      rw [cutBy_of_not_isCut hcut, ih hgiven]
    | true =>
      rw [stages_of_isCut hcut] at hgiven ⊢
      obtain ⟨hfirst, hgiven⟩ := List.forall_mem_cons.mp hgiven
      rw [ih hgiven, covered_cutBy hexact hcut hfirst, List.map_cons, leftover_cons]

theorem covered_children (hgiven : ∀ stage ∈ region.stages booleans cuts, stage.1.Given field) :
    (((region.stages booleans cuts).map (stageChild booleans)).map fun child =>
        covered points (child.field field)) =
      parts (covered points) (covered points (region.field field))
        ((region.stages booleans cuts).map Prod.snd) := by
  induction cuts generalizing region with
  | nil => rfl
  | cons cut rest ih =>
    cases hcut : region.isCut booleans cut with
    | false =>
      rw [stages_of_not_isCut hcut] at hgiven ⊢
      exact ih hgiven
    | true =>
      rw [stages_of_isCut hcut] at hgiven ⊢
      obtain ⟨hfirst, hgiven⟩ := List.forall_mem_cons.mp hgiven
      rw [List.map_cons, List.map_cons, List.map_cons, parts, ih hgiven,
        covered_cutBy hexact hcut hfirst, covered_stageChild hexact hfirst]

/-- A footprint cuts the region if it finds polygons. -/
theorem isCut_iff (hordinary : IsOrdinary region.regionId) :
    region.isCut booleans cut = true ↔ cut.1 = region.objectId ∧
      (covered points region.polygons ∩ covered points cut.2).Nonempty := by
  rw [SlicedRegion.isCut, Bool.and_eq_true, Bool.and_eq_true, decide_eq_true_eq,
    Bool.not_eq_true', Bool.not_eq_true', hexact.intersection.isEmpty_eq_false_iff, and_assoc]
  constructor
  · rintro ⟨⟨hobject, -⟩, -, hmeets⟩
    exact ⟨hobject.symm, hmeets⟩
  · rintro ⟨hobject, hmeets⟩
    refine ⟨⟨hobject.symm, hordinary⟩, ?_, hmeets⟩
    rw [List.isEmpty_eq_false_iff]
    rintro hnil
    rw [hnil, covered_nil, Set.inter_empty] at hmeets
    exact Set.not_nonempty_empty hmeets

/-- The footprints that take a part of a region are those that find polygons left. -/
theorem map_snd_stages (hordinary : IsOrdinary region.regionId) :
    (region.stages booleans cuts).map Prod.snd =
      takers (covered points) (covered points region.polygons)
        (footprintsOf cuts region.objectId) := by
  induction cuts generalizing region with
  | nil => rfl
  | cons cut rest ih =>
    have hidentity : (region.cutBy booleans cut).identity = region.identity := identity_cutBy
    simp only [SlicedRegion.identity, Prod.mk.injEq] at hidentity
    have hordinary' : IsOrdinary (region.cutBy booleans cut).regionId := by rwa [hidentity.2.1]
    have hrest := ih hordinary'
    rw [hidentity.1] at hrest
    rw [SlicedRegion.stages, List.map_append, hrest]
    unfold footprintsOf
    rw [List.filter_cons]
    by_cases hobject : cut.1 = region.objectId
    · rw [if_pos (decide_eq_true hobject), List.map_cons, takers]
      cases hcut : region.isCut booleans cut with
      | false =>
        have hmiss : ¬ (covered points region.polygons ∩ covered points cut.2).Nonempty := by
          intro hmeets
          rw [(isCut_iff hexact hordinary).mpr ⟨hobject, hmeets⟩] at hcut
          cases hcut
        rw [if_neg hmiss, cutBy_of_not_isCut hcut]
        rfl
      | true =>
        rw [if_pos ((isCut_iff hexact hordinary).mp hcut).2]
        have hgiven : region.Given .polygons := SlicedRegion.given_of_ne (by decide)
        have hpolygons : covered points (region.cutBy booleans cut).polygons =
            covered points region.polygons \ covered points cut.2 :=
          covered_cutBy hexact hcut hgiven
        rw [hpolygons]
        rfl
    · have hcut : region.isCut booleans cut = false := by
        rw [← Bool.not_eq_true]
        exact fun h => hobject ((isCut_iff hexact hordinary).mp h).1
      rw [hcut, cutBy_of_not_isCut hcut, if_neg Bool.false_ne_true,
        if_neg (by simpa only [decide_eq_true_eq] using hobject)]
      rfl

omit hexact in
theorem first_stage (hstages : region.stages booleans cuts = stage :: after) :
    stage.1 = region := by
  induction cuts with
  | nil => cases hstages
  | cons cut rest ih =>
    cases hcut : region.isCut booleans cut with
    | false =>
      rw [stages_of_not_isCut hcut] at hstages
      exact ih hstages
    | true =>
      rw [stages_of_isCut hcut] at hstages
      cases hstages
      rfl

/-- After a cut the fill domain has no shape without a point. -/
theorem nonempty_of_mem_cutBy (hcut : region.isCut booleans cut = true) {shape : ExPolygon}
    (h : shape ∈ (region.cutBy booleans cut).infillAreas) : (points shape).Nonempty := by
  rw [SlicedRegion.cutBy, if_pos hcut] at h
  exact hexact.difference.nonempty _ _ shape h

theorem nonempty_of_mem_stage (hregion : ∀ shape ∈ region.infillAreas, (points shape).Nonempty)
    (h : stage ∈ region.stages booleans cuts) {shape : ExPolygon}
    (hshape : shape ∈ stage.1.infillAreas) : (points shape).Nonempty := by
  induction cuts generalizing region with
  | nil => cases h
  | cons cut rest ih =>
    cases hcut : region.isCut booleans cut with
    | false =>
      rw [stages_of_not_isCut hcut] at h
      exact ih hregion h
    | true =>
      rw [stages_of_isCut hcut] at h
      rcases List.mem_cons.mp h with rfl | h
      · exact hregion shape hshape
      · exact ih (fun _ hmem => nonempty_of_mem_cutBy hexact hcut hmem) h

/-- A region that was cut lacks a fill domain if none of its points is left. -/
theorem infillAreas_eq_nil {before : List (SlicedRegion F × List ExPolygon)}
    (hstages : region.stages booleans cuts = before ++ stage :: after) (hbefore : before ≠ [])
    (hempty : covered points stage.1.infillAreas = ∅) : stage.1.infillAreas = [] := by
  by_contra hne
  obtain ⟨shape, hshape⟩ := List.exists_mem_of_ne_nil _ hne
  suffices hpoints : (points shape).Nonempty by
    obtain ⟨x, hx⟩ := hpoints
    have hmem : x ∈ covered points stage.1.infillAreas := ⟨shape, hshape, hx⟩
    rw [hempty] at hmem
    exact hmem
  induction cuts generalizing region with
  | nil => simp [SlicedRegion.stages] at hstages
  | cons cut rest ih =>
    cases hcut : region.isCut booleans cut with
    | false =>
      rw [stages_of_not_isCut hcut] at hstages
      exact ih hstages
    | true =>
      rw [stages_of_isCut hcut] at hstages
      cases before with
      | nil => exact absurd rfl hbefore
      | cons first before =>
        obtain ⟨-, hrest⟩ := List.cons.inj hstages
        have hmem : stage ∈ (region.cutBy booleans cut).stages booleans rest := by simp [hrest]
        exact nonempty_of_mem_stage hexact (fun _ h => nonempty_of_mem_cutBy hexact hcut h) hmem
          hshape

end Exact

end PinchNPrint.Region
