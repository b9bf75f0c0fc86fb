/-
What splitting does to one region.

`split_regions_by_modifier_footprints` runs over the footprints and, under each, over the
regions. No region looks at another one, except that an id may be minted only once. So
splitting is a run over the footprints for each region: `SlicedRegion.remainder` is what
stays of it, and `stages` lists the footprints that took a part, each with the region as it
was then.

`splitRegions_eq_ok_iff`: splitting succeeds exactly when the regions that are cut have room
for the ids of their children and no identity is minted twice, and then it leaves the
remainders and, behind them, the children.
-/

import PinchNPrint.Region.Partition

namespace PinchNPrint.Region

open Config

variable {F : Type}

/-! ### New identities -/

section Fresh

variable {α : Type} {known new more : List α}

/-- The new values are distinct and none is known. -/
def Fresh (known new : List α) : Prop :=
  new.Nodup ∧ ∀ a ∈ new, a ∉ known

theorem fresh_nil : Fresh known [] :=
  ⟨List.nodup_nil, fun _ h => nomatch h⟩

theorem fresh_append :
    Fresh known (new ++ more) ↔ Fresh known new ∧ Fresh (known ++ new) more := by
  simp only [Fresh, List.nodup_append, List.mem_append, not_or]
  constructor
  · rintro ⟨⟨hnew, hmore, hdisjoint⟩, hknown⟩
    refine ⟨⟨hnew, fun a ha => hknown a (.inl ha)⟩, hmore, fun a ha => ⟨hknown a (.inr ha), ?_⟩⟩
    exact fun hmem => hdisjoint a hmem a ha rfl
  · rintro ⟨⟨hnew, hknown⟩, hmore, hknown'⟩
    refine ⟨⟨hnew, hmore, ?_⟩, ?_⟩
    · rintro a ha b hb rfl
      exact (hknown' a hb).2 ha
    · rintro a (ha | ha)
      · exact hknown a ha
      · exact (hknown' a ha).1

theorem fresh_singleton {a : α} : Fresh known [a] ↔ a ∉ known := by
  simp [Fresh]

theorem Fresh.perm (h : Fresh known new) (hperm : new.Perm more) : Fresh known more :=
  ⟨hperm.nodup_iff.mp h.1, fun a ha => h.2 a (hperm.mem_iff.mpr ha)⟩

theorem Fresh.nodup_append (h : Fresh known new) (hknown : known.Nodup) : (known ++ new).Nodup :=
  List.nodup_append.mpr ⟨hknown, h.1, fun _ ha _ hb heq => h.2 _ hb (heq ▸ ha)⟩

end Fresh

/-! ### One region under one footprint -/

/-- Neither a staged footprint nor a modifier child. -/
def IsOrdinary (regionId : Nat) : Prop :=
  regionId ≠ MODIFIER_FOOTPRINT_REGION_ID ∧ isModifierNamespaceId regionId = false

instance (regionId : Nat) : Decidable (IsOrdinary regionId) :=
  inferInstanceAs (Decidable (_ ∧ _))

section Cut

variable (booleans : Booleans)

/-- The footprint takes a part of the region. -/
def SlicedRegion.isCut (region : SlicedRegion F) (cut : ObjectId × List ExPolygon) : Bool :=
  decide (region.objectId = cut.1 ∧ IsOrdinary region.regionId) && !cut.2.isEmpty &&
    !(booleans.intersection region.polygons cut.2).isEmpty

/-- What a footprint leaves of the region. -/
def SlicedRegion.cutBy (region : SlicedRegion F) (cut : ObjectId × List ExPolygon) :
    SlicedRegion F :=
  if region.isCut booleans cut then region.restoreInfill.clip booleans.difference cut.2 else region

/-- The footprints that take a part of the region, each with the region as it is then. -/
def SlicedRegion.stages :
    SlicedRegion F → List (ObjectId × List ExPolygon) → List (SlicedRegion F × List ExPolygon)
  | _, [] => []
  | region, cut :: rest =>
      (if region.isCut booleans cut then [(region, cut.2)] else []) ++
        (region.cutBy booleans cut).stages rest

/-- What the footprints leave of the region. -/
def SlicedRegion.remainder (region : SlicedRegion F) (cuts : List (ObjectId × List ExPolygon)) :
    SlicedRegion F :=
  cuts.foldl (SlicedRegion.cutBy booleans) region

/-- The child of a stage; its id is the one the id function has for the footprint. -/
def stageChild (stage : SlicedRegion F × List ExPolygon) : SlicedRegion F :=
  modifierChild booleans stage.1 stage.2
    ((modifierSubRegionId stage.1.regionId stage.1.objectId stage.2).getD 0)

/-- What is minted of the regions, in the order of the footprints. -/
def mintedBy : List (SlicedRegion F) → List (ObjectId × List ExPolygon) → List (SlicedRegion F)
  | _, [] => []
  | regions, cut :: rest =>
      (regions.filter (·.isCut booleans cut)).map (fun region => stageChild booleans (region, cut.2)) ++
        mintedBy (regions.map (·.cutBy booleans cut)) rest

variable {booleans} {region region' : SlicedRegion F} {cut : ObjectId × List ExPolygon}
  {cuts : List (ObjectId × List ExPolygon)} {regions : List (SlicedRegion F)}

@[simp] theorem identity_cutBy : (region.cutBy booleans cut).identity = region.identity := by
  unfold SlicedRegion.cutBy
  split
  · exact identity_clip ..
  · rfl

@[simp] theorem identity_remainder :
    (region.remainder booleans cuts).identity = region.identity := by
  unfold SlicedRegion.remainder
  induction cuts generalizing region with
  | nil => rfl
  | cons cut rest ih => rw [List.foldl_cons, ih, identity_cutBy]

theorem identity_stageChild (stage : SlicedRegion F × List ExPolygon) :
    (stageChild booleans stage).identity =
      (stage.1.objectId, (modifierSubRegionId stage.1.regionId stage.1.objectId stage.2).getD 0,
        stage.1.variantChain) :=
  identity_modifierChild ..

/-- A stage is of the region itself, as far as its identity goes. -/
theorem identity_of_mem_stages {stage : SlicedRegion F × List ExPolygon}
    (h : stage ∈ region.stages booleans cuts) : stage.1.identity = region.identity := by
  induction cuts generalizing region with
  | nil => cases h
  | cons cut rest ih =>
    rcases List.mem_append.mp h with h | h
    · split at h
      · rw [List.mem_singleton.mp h]
      · cases h
    · exact (ih h).trans identity_cutBy

theorem isCut_congr (hidentity : region.identity = region'.identity)
    (hpolygons : region.polygons = region'.polygons) :
    region.isCut booleans cut = region'.isCut booleans cut := by
  simp only [SlicedRegion.identity, Prod.mk.injEq] at hidentity
  rw [SlicedRegion.isCut, SlicedRegion.isCut, hidentity.1, hidentity.2.1, hpolygons]

theorem polygons_cutBy_congr (hidentity : region.identity = region'.identity)
    (hpolygons : region.polygons = region'.polygons) :
    (region.cutBy booleans cut).polygons = (region'.cutBy booleans cut).polygons := by
  rw [SlicedRegion.cutBy, SlicedRegion.cutBy, isCut_congr hidentity hpolygons]
  split
  · rw [polygons_clip, polygons_clip, hpolygons]
  · exact hpolygons

/-- Which footprints take a part depends on the identity and the polygons of a region. -/
theorem stages_congr (hidentity : region.identity = region'.identity)
    (hpolygons : region.polygons = region'.polygons) :
    (region.stages booleans cuts).map (fun stage => (stage.1.identity, stage.2)) =
      (region'.stages booleans cuts).map (fun stage => (stage.1.identity, stage.2)) := by
  induction cuts generalizing region region' with
  | nil => rfl
  | cons cut rest ih =>
    have hidentity' : (region.cutBy booleans cut).identity = (region'.cutBy booleans cut).identity := by
      rw [identity_cutBy, identity_cutBy, hidentity]
    have hrest := ih hidentity' (polygons_cutBy_congr hidentity hpolygons)
    rw [SlicedRegion.stages, SlicedRegion.stages, List.map_append, List.map_append, hrest,
      isCut_congr hidentity hpolygons]
    congr 1
    split
    · rw [List.map_singleton, List.map_singleton, hidentity]
    · rfl

theorem mintedBy_perm (regions : List (SlicedRegion F)) (cuts : List (ObjectId × List ExPolygon)) :
    (mintedBy booleans regions cuts).Perm
      (regions.flatMap fun region => (region.stages booleans cuts).map (stageChild booleans)) := by
  induction cuts generalizing regions with
  | nil => simp [mintedBy, SlicedRegion.stages]
  | cons cut rest ih =>
    have hfirst : (regions.filter (·.isCut booleans cut)).map
        (fun region => stageChild booleans (region, cut.2)) =
        regions.flatMap fun region => (if region.isCut booleans cut then [(region, cut.2)] else []).map
          (stageChild booleans) := by
      induction regions with
      | nil => rfl
      | cons region others ihRegions =>
        rw [List.flatMap_cons, ← ihRegions, List.filter_cons]
        split <;> simp
    rw [mintedBy, hfirst]
    refine ((ih _).append_left _).trans ?_
    rw [List.flatMap_map]
    refine (List.flatMap_append_perm regions _ _).trans (.of_eq ?_)
    refine List.flatMap_congr fun region _ => ?_
    rw [SlicedRegion.stages, List.map_append]

end Cut

/-! ### The loops -/

section Loops

variable [DecidableEq F] {booleans : Booleans} {cut : ObjectId × List ExPolygon}
  {cuts : List (ObjectId × List ExPolygon)} {state state' : Splitting F}

/-- The regions that are cut have room for the ids of their children. -/
def HaveRoom (booleans : Booleans) (regions : List (SlicedRegion F))
    (cuts : List (ObjectId × List ExPolygon)) : Prop :=
  ∀ region ∈ regions, region.stages booleans cuts ≠ [] →
    modifierSubRegionIdFits region.regionId = true

/-- The state after the regions were cut. -/
def Splitting.mint (state : Splitting F) (regions minted : List (SlicedRegion F)) : Splitting F where
  regions := regions
  minted := state.minted ++ minted
  identities := state.identities ++ minted.map (·.identity)

/-- One region that the footprint may cut. -/
theorem splitParent_eq_ok_iff {index : Nat} {parent : SlicedRegion F}
    (hparent : state.regions[index]? = some parent) (hobject : parent.objectId = cut.1)
    (hordinary : IsOrdinary parent.regionId) (hcut : cut.2.isEmpty = false) :
    splitParent booleans cut.1 cut.2 state index = .ok state' ↔
      if parent.isCut booleans cut then
        modifierSubRegionIdFits parent.regionId = true ∧
          (stageChild booleans (parent, cut.2)).identity ∉ state.identities ∧
          state' = state.mint (state.regions.set index (parent.cutBy booleans cut))
            [stageChild booleans (parent, cut.2)]
      else state' = state := by
  have hiscut : parent.isCut booleans cut =
      !(booleans.intersection parent.polygons cut.2).isEmpty := by
    rw [SlicedRegion.isCut, decide_eq_true ⟨hobject, hordinary⟩, hcut]
    rfl
  unfold splitParent
  rw [hparent]
  dsimp only
  rw [hiscut]
  cases hmeets : (booleans.intersection parent.polygons cut.2).isEmpty with
  | true => simp [eq_comm]
  | false =>
    rw [hmeets] at hiscut
    simp only [Bool.false_eq_true, if_false, Bool.not_false, if_true]
    cases hfits : modifierSubRegionIdFits parent.regionId with
    | false => simp
    | true =>
      obtain ⟨subId, hsub⟩ := exists_modifierSubRegionId hfits cut.1 cut.2
      have hchild : stageChild booleans (parent, cut.2) =
          modifierChild booleans parent cut.2 subId := by
        rw [stageChild, hobject, hsub, Option.getD_some]
      have hremains : parent.cutBy booleans cut =
          parent.restoreInfill.clip booleans.difference cut.2 := by
        rw [SlicedRegion.cutBy, if_pos (by rw [hiscut]; rfl)]
      simp only [Bool.not_true, Bool.false_eq_true, if_false, true_and, hsub, orPanic_some,
        Except.ok_bind, hchild, identity_modifierChild, hobject, hremains, Splitting.mint,
        List.map_singleton]
      split <;> simp [*, eq_comm]

section

omit [DecidableEq F]

/-- A region that the footprint cannot cut. -/
theorem isCut_eq_false {region : SlicedRegion F}
    (h : ¬ (region.objectId = cut.1 ∧ IsOrdinary region.regionId)) :
    region.isCut booleans cut = false := by
  rw [SlicedRegion.isCut, decide_eq_false h, Bool.false_and, Bool.false_and]

theorem cutBy_of_not_isCut {region : SlicedRegion F} (h : region.isCut booleans cut = false) :
    region.cutBy booleans cut = region := by
  rw [SlicedRegion.cutBy, h, if_neg Bool.false_ne_true]

/-- A footprint that does not cut gives no stage. -/
theorem stages_of_not_isCut {region : SlicedRegion F} (h : region.isCut booleans cut = false) :
    region.stages booleans (cut :: cuts) = region.stages booleans cuts := by
  rw [SlicedRegion.stages, h, if_neg Bool.false_ne_true, List.nil_append, cutBy_of_not_isCut h]

theorem stages_of_isCut {region : SlicedRegion F} (h : region.isCut booleans cut = true) :
    region.stages booleans (cut :: cuts) =
      (region, cut.2) :: (region.cutBy booleans cut).stages booleans cuts := by
  rw [SlicedRegion.stages, h, if_pos rfl, List.singleton_append]

theorem Splitting.mint_mint (state : Splitting F) (regions minted regions' minted' : List _) :
    (state.mint regions minted).mint regions' minted' = state.mint regions' (minted ++ minted') := by
  simp only [Splitting.mint, List.append_assoc, List.map_append]

theorem Splitting.mint_nil (state : Splitting F) : state.mint state.regions [] = state := by
  simp only [Splitting.mint, List.append_nil, List.map_nil]

end

theorem splitParents_eq_ok_iff {done todo : List (SlicedRegion F)}
    (hregions : state.regions = done ++ todo) (hcut : cut.2.isEmpty = false) :
    ((todo.zipIdx done.length).filterMap fun (region, index) =>
        if region.objectId = cut.1 ∧ region.regionId ≠ MODIFIER_FOOTPRINT_REGION_ID ∧
          isModifierNamespaceId region.regionId = false then some index else none).foldlM
        (splitParent booleans cut.1 cut.2) state = .ok state' ↔
      (∀ region ∈ todo.filter (·.isCut booleans cut),
        modifierSubRegionIdFits region.regionId = true) ∧
      Fresh state.identities (((todo.filter (·.isCut booleans cut)).map fun region =>
        stageChild booleans (region, cut.2)).map (·.identity)) ∧
      state' = state.mint (done ++ todo.map (·.cutBy booleans cut))
        ((todo.filter (·.isCut booleans cut)).map fun region =>
          stageChild booleans (region, cut.2)) := by
  induction todo generalizing done state with
  | nil =>
    simp only [List.zipIdx_nil, List.filterMap_nil, List.foldlM_nil, List.filter_nil, List.map_nil,
      ← hregions, Splitting.mint_nil]
    constructor
    · intro h
      cases h
      exact ⟨fun _ h => (nomatch h), fresh_nil, rfl⟩
    · rintro ⟨_, _, rfl⟩
      rfl
  | cons region rest ih =>
    rw [List.zipIdx_cons, List.filterMap_cons, List.filter_cons, List.map_cons]
    have hpassed : state.regions = (done ++ [region]) ++ rest := by
      rw [hregions, List.append_assoc, List.singleton_append]
    have hwhole := ih hpassed
    rw [List.length_append, List.length_singleton, List.append_assoc, List.singleton_append]
      at hwhole
    by_cases hparent : region.objectId = cut.1 ∧ IsOrdinary region.regionId
    · have hindex : state.regions[done.length]? = some region := by
        rw [hregions, List.getElem?_append_right (Nat.le_refl _), Nat.sub_self,
          List.getElem?_cons_zero]
      have hset : state.regions.set done.length (region.cutBy booleans cut) =
          done ++ region.cutBy booleans cut :: rest := by
        rw [hregions, List.set_append_right _ _ (Nat.le_refl _), Nat.sub_self, List.set_cons_zero]
      dsimp only
      rw [if_pos ⟨hparent.1, hparent.2.1, hparent.2.2⟩]
      dsimp only
      rw [List.foldlM_cons]
      have hstep : ∀ next, splitParent booleans cut.1 cut.2 state done.length = .ok next ↔ _ :=
        fun next => splitParent_eq_ok_iff hindex hparent.1 hparent.2 hcut
      rw [Except.bind_eq_ok_iff]
      simp only [hstep, hset]
      cases hiscut : region.isCut booleans cut with
      | false =>
        simp only [Bool.false_eq_true, if_false, exists_eq_left, cutBy_of_not_isCut hiscut]
        exact hwhole
      | true =>
        have hregions' : (state.mint (done ++ region.cutBy booleans cut :: rest)
            [stageChild booleans (region, cut.2)]).regions =
              (done ++ [region.cutBy booleans cut]) ++ rest := by
          rw [List.append_assoc, List.singleton_append]
          rfl
        have hrest := ih hregions'
        rw [List.length_append, List.length_singleton, Splitting.mint_mint, List.append_assoc,
          List.singleton_append, List.singleton_append] at hrest
        have hfresh : ∀ others : List (Identity F),
            Fresh state.identities ((stageChild booleans (region, cut.2)).identity :: others) ↔
              (stageChild booleans (region, cut.2)).identity ∉ state.identities ∧
                Fresh (state.identities ++ [(stageChild booleans (region, cut.2)).identity]) others :=
          fun others => by rw [← List.singleton_append, fresh_append, fresh_singleton]
        rw [if_pos rfl, List.map_cons, List.map_cons, List.forall_mem_cons, hfresh]
        constructor
        · rintro ⟨next, ⟨hfits, hnew, rfl⟩, hfold⟩
          obtain ⟨hfitsRest, hfreshRest, rfl⟩ := hrest.mp hfold
          exact ⟨⟨hfits, hfitsRest⟩, ⟨hnew, hfreshRest⟩, rfl⟩
        · rintro ⟨⟨hfits, hfitsRest⟩, ⟨hnew, hfreshRest⟩, rfl⟩
          exact ⟨_, ⟨hfits, hnew, rfl⟩, hrest.mpr ⟨hfitsRest, hfreshRest, rfl⟩⟩
    · have hnot : ¬ (region.objectId = cut.1 ∧ region.regionId ≠ MODIFIER_FOOTPRINT_REGION_ID ∧
          isModifierNamespaceId region.regionId = false) := hparent
      have hiscut : region.isCut booleans cut = false := isCut_eq_false hparent
      dsimp only
      rw [if_neg hnot]
      dsimp only
      rw [hiscut, if_neg Bool.false_ne_true, cutBy_of_not_isCut hiscut]
      exact hwhole

omit [DecidableEq F] in
theorem isCut_of_isEmpty (h : cut.2.isEmpty = true) (region : SlicedRegion F) :
    region.isCut booleans cut = false := by
  rw [SlicedRegion.isCut, h, Bool.not_true, Bool.and_false, Bool.false_and]

theorem splitFootprint_eq_ok_iff :
    splitFootprint booleans state cut = .ok state' ↔
      (∀ region ∈ state.regions.filter (·.isCut booleans cut),
        modifierSubRegionIdFits region.regionId = true) ∧
      Fresh state.identities (((state.regions.filter (·.isCut booleans cut)).map fun region =>
        stageChild booleans (region, cut.2)).map (·.identity)) ∧
      state' = state.mint (state.regions.map (·.cutBy booleans cut))
        ((state.regions.filter (·.isCut booleans cut)).map fun region =>
          stageChild booleans (region, cut.2)) := by
  unfold splitFootprint
  cases hcut : cut.2.isEmpty with
  | false =>
    rw [if_neg Bool.false_ne_true]
    have hregions : state.regions = [] ++ state.regions := rfl
    exact splitParents_eq_ok_iff hregions hcut
  | true =>
    have hnone : state.regions.filter (·.isCut booleans cut) = [] :=
      List.filter_eq_nil_iff.mpr fun region _ => by simp [isCut_of_isEmpty hcut region]
    have hsame : state.regions.map (·.cutBy booleans cut) = state.regions :=
      (List.map_congr_left fun region _ =>
        cutBy_of_not_isCut (isCut_of_isEmpty hcut region)).trans (List.map_id _)
    rw [hnone, hsame, if_pos rfl, List.map_nil, Splitting.mint_nil]
    constructor
    · intro h
      cases h
      exact ⟨fun _ h => (nomatch h), fresh_nil, rfl⟩
    · rintro ⟨_, _, rfl⟩
      rfl

omit [DecidableEq F] in
/-- Room for the children of the first footprint and of the others. -/
theorem haveRoom_cons {regions : List (SlicedRegion F)} :
    HaveRoom booleans regions (cut :: cuts) ↔
      (∀ region ∈ regions.filter (·.isCut booleans cut),
        modifierSubRegionIdFits region.regionId = true) ∧
      HaveRoom booleans (regions.map (·.cutBy booleans cut)) cuts := by
  have hid : ∀ region : SlicedRegion F, (region.cutBy booleans cut).regionId = region.regionId :=
    fun region => congrArg (fun identity : Identity F => identity.2.1) identity_cutBy
  simp only [HaveRoom, SlicedRegion.stages, List.forall_mem_map, hid, List.mem_filter, and_imp,
    ← forall_and, ne_eq, List.append_eq_nil_iff, not_and_or, ite_eq_right_iff,
    imp_false, not_not, List.cons_ne_nil, or_imp]

theorem splitFootprints_eq_ok_iff :
    cuts.foldlM (splitFootprint booleans) state = .ok state' ↔
      HaveRoom booleans state.regions cuts ∧
      Fresh state.identities ((mintedBy booleans state.regions cuts).map (·.identity)) ∧
      state' = state.mint (state.regions.map (·.remainder booleans cuts))
        (mintedBy booleans state.regions cuts) := by
  induction cuts generalizing state with
  | nil =>
    have hroom : HaveRoom booleans state.regions [] := fun _ _ h => absurd rfl h
    have hsame : state.regions.map (·.remainder booleans []) = state.regions := List.map_id _
    rw [mintedBy, hsame, List.map_nil, Splitting.mint_nil]
    constructor
    · intro h
      cases h
      exact ⟨hroom, fresh_nil, rfl⟩
    · rintro ⟨_, _, rfl⟩
      rfl
  | cons cut rest ih =>
    have hremainder : (state.regions.map (·.cutBy booleans cut)).map (·.remainder booleans rest) =
        state.regions.map (·.remainder booleans (cut :: rest)) := by
      rw [List.map_map]
      rfl
    rw [List.foldlM_cons, Except.bind_eq_ok_iff, haveRoom_cons, mintedBy, List.map_append,
      fresh_append]
    constructor
    · rintro ⟨next, hnext, hrest⟩
      obtain ⟨hroom, hfresh, rfl⟩ := splitFootprint_eq_ok_iff.mp hnext
      obtain ⟨hroomRest, hfreshRest, rfl⟩ := ih.mp hrest
      refine ⟨⟨hroom, hroomRest⟩, ⟨hfresh, hfreshRest⟩, ?_⟩
      rw [Splitting.mint_mint, ← hremainder]
      rfl
    · rintro ⟨⟨hroom, hroomRest⟩, ⟨hfresh, hfreshRest⟩, rfl⟩
      refine ⟨_, splitFootprint_eq_ok_iff.mpr ⟨hroom, hfresh, rfl⟩,
        ih.mpr ⟨hroomRest, hfreshRest, ?_⟩⟩
      rw [Splitting.mint_mint, ← hremainder]
      rfl

/-- Splitting succeeds exactly when there is room for the ids of the children and all
identities it mints are new. -/
theorem splitRegions_eq_ok_iff {slice result : SliceIR F} :
    splitRegionsByModifierFootprints booleans slice cuts = .ok result ↔
      HaveRoom booleans slice.regions cuts ∧
      Fresh (slice.regions.map (·.identity))
        ((mintedBy booleans slice.regions cuts).map (·.identity)) ∧
      result = { slice with
        regions := slice.regions.map (·.remainder booleans cuts) ++
          mintedBy booleans slice.regions cuts } := by
  unfold splitRegionsByModifierFootprints
  rw [Except.bind_eq_ok_iff]
  constructor
  · rintro ⟨state, hstate, hresult⟩
    obtain ⟨hroom, hfresh, rfl⟩ := splitFootprints_eq_ok_iff.mp hstate
    cases hresult
    exact ⟨hroom, hfresh, rfl⟩
  · rintro ⟨hroom, hfresh, rfl⟩
    exact ⟨_, splitFootprints_eq_ok_iff.mpr ⟨hroom, hfresh, rfl⟩, rfl⟩

section

omit [DecidableEq F]

theorem stages_of_not_ordinary {region : SlicedRegion F} (h : ¬ IsOrdinary region.regionId) :
    region.stages booleans cuts = [] := by
  induction cuts with
  | nil => rfl
  | cons cut rest ih =>
    have hcut : region.isCut booleans cut = false := isCut_eq_false fun hparent => h hparent.2
    rw [stages_of_not_isCut hcut, ih]

theorem child_of_stage {regions : List (SlicedRegion F)} {region : SlicedRegion F}
    (hroom : HaveRoom booleans regions cuts) (hregion : region ∈ regions)
    {stage : SlicedRegion F × List ExPolygon} (hstage : stage ∈ region.stages booleans cuts) :
    (stageChild booleans stage).objectId = region.objectId ∧
      (stageChild booleans stage).variantChain = region.variantChain ∧
      modifierSubRegionId region.regionId region.objectId stage.2 =
        some (stageChild booleans stage).regionId ∧
      modifierBaseRegionId (stageChild booleans stage).regionId = some region.regionId := by
  have hidentity := identity_of_mem_stages hstage
  have hchild : (stageChild booleans stage).identity = _ := identity_stageChild stage
  simp only [SlicedRegion.identity, Prod.mk.injEq] at hidentity hchild
  obtain ⟨id, hid⟩ := exists_modifierSubRegionId
    (hroom region hregion (List.ne_nil_of_mem hstage)) region.objectId stage.2
  rw [hidentity.1, hidentity.2.1, hid, Option.getD_some, hidentity.2.2] at hchild
  rw [hchild.1, hchild.2.2, hchild.2.1]
  exact ⟨rfl, rfl, hid, (modifierBaseRegionId_sub hid).2.2⟩

/-- A stage is one of the cuts of the object of the region. -/
theorem cut_of_stage {region : SlicedRegion F} {stage : SlicedRegion F × List ExPolygon}
    (hstage : stage ∈ region.stages booleans cuts) : (region.objectId, stage.2) ∈ cuts := by
  induction cuts generalizing region with
  | nil => cases hstage
  | cons cut rest ih =>
    rcases List.mem_append.mp hstage with hstage | hstage
    · split at hstage
      case isTrue hcut =>
        rw [List.mem_singleton.mp hstage]
        unfold SlicedRegion.isCut at hcut
        rw [Bool.and_eq_true, Bool.and_eq_true, decide_eq_true_eq] at hcut
        rw [hcut.1.1.1]
        exact List.mem_cons_self
      case isFalse => cases hstage
    · have hobject : (region.cutBy booleans cut).objectId = region.objectId :=
        congrArg Prod.fst identity_cutBy
      rw [← hobject]
      exact List.mem_cons_of_mem _ (ih hstage)

end

end Loops

end PinchNPrint.Region
