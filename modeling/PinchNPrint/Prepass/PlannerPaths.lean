/-
The two paths of the layer planner (`layer-planner-default`: `lib.rs`).

For objects without a schedule and with one pair of heights, `merge_same_height` counts up to the
tallest object, and `merge_different_heights` unites the planes of all objects and asks of each
object whether a plane is one of its own. Both come to the planes of the counter that reach up to
the tallest object, each with the objects that are as tall (`sharedLayers`):
`mergeSameHeight_eq_mergeDifferentHeights`.
-/

import Mathlib.Tactic.Linarith
import Mathlib.Tactic.Positivity
import PinchNPrint.Prepass.LayerPlanner

namespace PinchNPrint.Prepass

variable {F : Type} [Field F] [LinearOrder F]

/-! ### The planes of the counter -/

/-- The planes with the numbers that are left in the counter. -/
def uniformZs (first step : F) (n left : Nat) : List F :=
  (List.range' n left).map (uniformZ first step)

/-- What an object prints at a shared plane it reaches; `started` when there are layers below. -/
def sharedCell (started : Bool) (baseZ : F) (plan : ObjectPlan F) :
    Option (RegionLayerProposal F) :=
  if baseZ ≤ plan.height + tolerance then
    some (plan.nativeRegion (if started then plan.layerHeight else plan.firstLayerHeight))
  else none

/-- The regions at a shared plane. -/
def sharedRegions (plans : List (ObjectPlan F)) (started : Bool) (baseZ : F) :
    List (RegionLayerProposal F) :=
  plans.filterMap (sharedCell started baseZ)

/-- The layers of the objects over shared planes. -/
def sharedLayers (plans : List (ObjectPlan F)) (raftTop : F) (started : Bool) :
    List F → List (MergedLayer F)
  | [] => []
  | baseZ :: rest =>
    if (sharedRegions plans started baseZ).isEmpty then sharedLayers plans raftTop started rest
    else ⟨raftTop + baseZ, sharedRegions plans started baseZ⟩ ::
      sharedLayers plans raftTop true rest

variable {first step height raftTop : F} {left n : Nat}

omit [LinearOrder F] in
theorem uniformZs_succ :
    uniformZs first step n (left + 1) =
      uniformZ first step n :: uniformZs first step (n + 1) left := by
  rw [uniformZs, List.range'_succ, List.map_cons, uniformZs]

section Ordered

variable [IsStrictOrderedRing F]

theorem tolerance_pos : (0 : F) < tolerance := by
  unfold tolerance
  positivity

@[simp]
theorem sameHeight_self (z : F) : sameHeight z z = true := by
  simp [sameHeight, tolerance_pos]

section

omit [IsStrictOrderedRing F]

theorem sameHeight_eq_true {a b : F} : sameHeight a b = true ↔ |a - b| < tolerance := by
  rw [sameHeight, decide_eq_true_iff]

theorem sameHeight_eq_false {a b : F} : sameHeight a b = false ↔ tolerance ≤ |a - b| := by
  rw [sameHeight, decide_eq_false_iff_not, not_lt]

end

theorem uniformZ_lt_uniformZ (first : F) (hstep : 0 < step) {i j : Nat} (hij : i < j) :
    uniformZ first step i < uniformZ first step j := by
  have hcast : (i : F) < j := Nat.cast_lt.mpr hij
  rw [uniformZ, uniformZ]
  nlinarith

/-- Planes with different numbers are a step apart. -/
theorem uniformZ_add_step_le (first : F) (hstep : 0 < step) {i j : Nat} (hij : i < j) :
    uniformZ first step i + step ≤ uniformZ first step j := by
  have hcast : ((i + 1 : Nat) : F) ≤ j := Nat.cast_le.mpr hij
  rw [uniformZ, uniformZ]
  push_cast at hcast
  nlinarith

theorem pairwise_uniformZs (hstep : 0 < step) : (uniformZs first step n left).Pairwise (· < ·) :=
  List.pairwise_map.mpr
    ((List.pairwise_lt_range' _).imp fun hij => uniformZ_lt_uniformZ _ hstep hij)

variable {z bound baseZ : F} {started : Bool}

theorem first_le_of_mem_uniformZs (hstep : 0 < step) (hz : z ∈ uniformZs first step n left) :
    first ≤ z := by
  obtain ⟨j, -, rfl⟩ := List.mem_map.mp hz
  have hcast : (0 : F) ≤ j := Nat.cast_nonneg j
  rw [uniformZ]
  nlinarith

/-- Shared planes that are not too far apart to tell are equal. -/
theorem eq_of_mem_uniformZs (hstep : tolerance < step) {z' : F}
    (hz : z ∈ uniformZs first step n left) (hz' : z' ∈ uniformZs first step n left)
    (hsame : |z - z'| < tolerance) : z = z' := by
  obtain ⟨i, -, rfl⟩ := List.mem_map.mp hz
  obtain ⟨j, -, rfl⟩ := List.mem_map.mp hz'
  have hpos : (0 : F) < step := tolerance_pos.trans hstep
  obtain ⟨hlower, hupper⟩ := abs_lt.mp hsame
  rcases lt_trichotomy i j with hij | rfl | hij
  · have hle := uniformZ_add_step_le first hpos hij
    linarith
  · rfl
  · have hle := uniformZ_add_step_le first hpos hij
    linarith

/-- Above a plane that is out of reach all are. -/
theorem filter_uniformZs_eq_nil (hstep : 0 < step) (hz : bound < uniformZ first step n) :
    (uniformZs first step (n + 1) left).filter (fun z => decide (z ≤ bound)) = [] := by
  refine List.filter_eq_nil_iff.mpr fun z hmem => ?_
  obtain ⟨j, hj, rfl⟩ := List.mem_map.mp hmem
  have hlt := uniformZ_lt_uniformZ first hstep
    (show n < j by have := (List.mem_range'_1.mp hj).1; omega)
  simpa using hz.trans hlt

/-- A sequence ends with the last plane up to the height, if the counter gets beyond it. -/
theorem uniformZsFrom_eq (hstep : 0 < step) :
    uniformZsFrom first step height left n =
      if ∀ z ∈ uniformZs first step n left, z ≤ height + tolerance then none
      else some ((uniformZs first step n left).filter fun z => decide (z ≤ height + tolerance)) := by
  induction left generalizing n with
  | zero => simp [uniformZsFrom, uniformZs]
  | succ left ih =>
    rw [uniformZs_succ, uniformZsFrom]
    by_cases hz : uniformZ first step n > height + tolerance
    · simp [hz, not_le.mpr hz, filter_uniformZs_eq_nil hstep hz]
    · have hle := not_lt.mp hz
      simp only [hz, if_false, ih, List.forall_mem_cons, hle, true_and, List.filter_cons,
        decide_true, if_true]
      split_ifs <;> rfl

section

omit [IsStrictOrderedRing F]

theorem sharedRegions_ne_nil {plans : List (ObjectPlan F)} {plan : ObjectPlan F}
    (hplan : plan ∈ plans) (hreach : baseZ ≤ plan.height + tolerance) :
    ¬(sharedRegions plans started baseZ).isEmpty = true := by
  rw [List.isEmpty_iff]
  exact List.ne_nil_of_mem (List.mem_filterMap.mpr ⟨plan, hplan, if_pos hreach⟩)

theorem map_filter_eq_sharedRegions {plans : List (ObjectPlan F)} :
    ((plans.filter fun plan => decide (baseZ ≤ plan.height + tolerance)).map fun plan =>
      plan.nativeRegion (if started then plan.layerHeight else plan.firstLayerHeight)) =
        sharedRegions plans started baseZ := by
  induction plans with
  | nil => rfl
  | cons plan plans ih =>
    rw [sharedRegions, List.filterMap_cons, sharedCell, ← sharedRegions, ← ih, List.filter_cons]
    by_cases hreach : baseZ ≤ plan.height + tolerance <;> simp [hreach]

/-- A layer is the first one exactly when there is none below it. -/
theorem sameHeightFrom_succ {plans : List (ObjectPlan F)} {maxHeight : F}
    {layers : List (MergedLayer F)} (hz : uniformZ first step n ≤ maxHeight + tolerance) :
    sameHeightFrom plans raftTop first step maxHeight (left + 1) n layers =
      sameHeightFrom plans raftTop first step maxHeight left (n + 1)
        (if (sharedRegions plans (!layers.isEmpty) (uniformZ first step n)).isEmpty then layers
        else layers ++ [⟨raftTop + uniformZ first step n,
          sharedRegions plans (!layers.isEmpty) (uniformZ first step n)⟩]) := by
  rw [sameHeightFrom, if_neg (not_lt.mpr hz), ← map_filter_eq_sharedRegions]
  cases hempty : layers.isEmpty <;> rfl

end

theorem sameHeightFrom_eq (hstep : 0 < step) {plans : List (ObjectPlan F)} {maxHeight : F}
    {layers : List (MergedLayer F)} :
    sameHeightFrom plans raftTop first step maxHeight left n layers =
      if ∀ z ∈ uniformZs first step n left, z ≤ maxHeight + tolerance then none
      else some (layers ++ sharedLayers plans raftTop (!layers.isEmpty)
        ((uniformZs first step n left).filter fun z => decide (z ≤ maxHeight + tolerance))) := by
  induction left generalizing n layers with
  | zero => simp [sameHeightFrom, uniformZs]
  | succ left ih =>
    rw [uniformZs_succ]
    by_cases hz : uniformZ first step n > maxHeight + tolerance
    · simp [sameHeightFrom, hz, not_le.mpr hz, filter_uniformZs_eq_nil hstep hz, sharedLayers]
    · have hle := not_lt.mp hz
      simp only [sameHeightFrom_succ hle, ih, List.forall_mem_cons, hle, true_and,
        List.filter_cons, decide_true, if_true, sharedLayers]
      split_ifs
      · rfl
      · rfl
      · rw [List.append_assoc, List.isEmpty_eq_false_iff.mpr (List.concat_ne_nil _ layers)]
        rfl

/-! ### The shared path -/

omit [IsStrictOrderedRing F] in
theorem le_foldl_max {start : F} {l : List F} :
    bound ≤ l.foldl max start ↔ bound ≤ start ∨ ∃ a ∈ l, bound ≤ a := by
  induction l generalizing start with
  | nil => simp
  | cons a l ih =>
    rw [List.foldl_cons, ih, le_max_iff, or_assoc, List.exists_mem_cons_iff]

variable {plans : List (ObjectPlan F)}

omit [IsStrictOrderedRing F] in
/-- A raft does not end below the plate. -/
theorem raftTop_nonneg (plans : List (ObjectPlan F)) : 0 ≤ Prepass.raftTop plans :=
  le_foldl_max.mpr (.inl le_rfl)

/-- Up to the tallest object some object reaches. -/
theorem le_maxHeight (hfirst : tolerance < first) (hz : first ≤ z) :
    z ≤ (plans.map (·.height)).foldl max 0 + tolerance ↔
      ∃ plan ∈ plans, z ≤ plan.height + tolerance := by
  rw [← sub_le_iff_le_add, le_foldl_max, or_iff_right (by linarith)]
  simp only [List.mem_map, exists_exists_and_eq_and, sub_le_iff_le_add]

/-- Objects of one pair of heights, none with a schedule of its own. -/
structure SharedHeights (first step : F) (plans : List (ObjectPlan F)) : Prop where
  unscheduled : ∀ plan ∈ plans, plan.layerZs = []
  firstLayerHeight : ∀ plan ∈ plans, plan.firstLayerHeight = first
  layerHeight : ∀ plan ∈ plans, plan.layerHeight = step

/-- The shared planes that some object reaches. -/
def reachedZs (first step : F) (plans : List (ObjectPlan F)) (left : Nat) : List F :=
  (uniformZs first step 0 left).filter fun z =>
    decide (∃ plan ∈ plans, z ≤ plan.height + tolerance)

/-! ### The united path -/

/-- The planes of one object of the shared sequence. -/
def ownZs (first step : F) (left : Nat) (plan : ObjectPlan F) : List F :=
  (uniformZs first step 0 left).filter fun z => decide (z ≤ plan.height + tolerance)

variable {track : Track F}

section

omit [IsStrictOrderedRing F]

@[simp]
theorem Track.advance_plan : (track.advance raftTop z).plan = track.plan := by
  rw [Track.advance]
  split_ifs <;> rfl

@[simp]
theorem Track.advance_objectZs : (track.advance raftTop z).objectZs = track.objectZs := by
  rw [Track.advance]
  split_ifs <;> rfl

end

/-- Where an object reaches one of its own planes, it prints there as it is told to start. -/
theorem Track.region_shared (hunscheduled : track.plan.layerZs = [])
    (hown : baseZ ≤ track.plan.height + tolerance → raftTop + baseZ ∈ track.objectZs)
    (hlast : baseZ ≤ track.plan.height + tolerance → sameHeight track.lastZ 0 = !started) :
    track.region raftTop (raftTop + baseZ) = sharedCell started baseZ track.plan := by
  rw [Track.region, add_sub_cancel_left, sharedCell]
  by_cases hreach : baseZ ≤ track.plan.height + tolerance
  · have hfind : (track.objectZs.findIdx? fun objectZ =>
        sameHeight objectZ (raftTop + baseZ)).isSome := by
      rw [List.findIdx?_isSome, List.any_eq_true]
      exact ⟨_, hown hreach, sameHeight_self _⟩
    obtain ⟨index, hindex⟩ := Option.isSome_iff_exists.mp hfind
    rw [if_neg (not_lt.mpr hreach), hindex, if_pos hreach]
    simp only [ObjectPlan.hasExplicitSchedule, hunscheduled, hlast hreach]
    cases started <;> rfl
  · rw [if_pos (not_le.mp hreach), if_neg hreach]

theorem mergeTracks_eq_sharedLayers (started : Bool) (hraft : 0 ≤ raftTop) {planes : List F}
    (hplanes : planes.Pairwise (· < ·)) (hpos : ∀ z ∈ planes, tolerance ≤ z)
    {tracks : List (Track F)} (hunscheduled : ∀ track ∈ tracks, track.plan.layerZs = [])
    (hown : ∀ track ∈ tracks, ∀ z ∈ planes, z ≤ track.plan.height + tolerance →
      raftTop + z ∈ track.objectZs)
    (hlast : ∀ track ∈ tracks, ∀ z ∈ planes, z ≤ track.plan.height + tolerance →
      sameHeight track.lastZ 0 = !started) :
    mergeTracks raftTop tracks (planes.map (raftTop + ·)) =
      sharedLayers (tracks.map (·.plan)) raftTop started planes := by
  induction planes generalizing tracks started with
  | nil => rfl
  | cons baseZ rest ih =>
    obtain ⟨hbaseZ, hrest⟩ := List.pairwise_cons.mp hplanes
    have hregion : ∀ track ∈ tracks, track.region raftTop (raftTop + baseZ) =
        sharedCell started baseZ track.plan := fun track htrack =>
      Track.region_shared (hunscheduled track htrack) (hown track htrack baseZ List.mem_cons_self)
        (hlast track htrack baseZ List.mem_cons_self)
    have hregions : tracks.filterMap (Track.region raftTop (raftTop + baseZ)) =
        sharedRegions (tracks.map (·.plan)) started baseZ := by
      rw [List.filterMap_congr hregion, sharedRegions, List.filterMap_map]
      rfl
    rw [List.map_cons, mergeTracks, hregions, sharedLayers,
      ih (if (sharedRegions (tracks.map (·.plan)) started baseZ).isEmpty then started else true)
        hrest fun z hz => hpos z (List.mem_cons_of_mem _ hz)]
    · simp only [List.map_map, Function.comp_def, Track.advance_plan]
      split_ifs <;> rfl
    · simpa using hunscheduled
    · simpa using fun track htrack z hz => hown track htrack z (List.mem_cons_of_mem _ hz)
    · simp only [List.forall_mem_map, Track.advance_plan]
      intro track htrack z hz hreach
      -- a plane further up is reached only through this one
      have hbelow : baseZ ≤ track.plan.height + tolerance := (hbaseZ z hz).le.trans hreach
      have hlastZ : (track.advance raftTop (raftTop + baseZ)).lastZ = raftTop + baseZ := by
        rw [Track.advance, hregion track htrack, sharedCell, if_pos hbelow]
        rfl
      have hlow := hpos baseZ List.mem_cons_self
      rw [if_neg (sharedRegions_ne_nil (List.mem_map_of_mem htrack) hbelow), hlastZ,
        sameHeight_eq_false.mpr]
      · rfl
      · rw [sub_zero]
        exact (hlow.trans (le_add_of_nonneg_left hraft)).trans (le_abs_self _)

/-- The united planes are the shared ones that some object reaches. -/
theorem sortedUnion_ownZs (hstep : 2 * tolerance < step) :
    List.sortedUnion sameHeight
        (plans.map fun plan => (ownZs first step left plan).map (raftTop + ·)).flatten =
      (reachedZs first step plans left).map (raftTop + ·) := by
  have htol : (0 : F) < tolerance := tolerance_pos
  have hmem : ∀ z, z ∈ (plans.map fun plan => (ownZs first step left plan).map
      (raftTop + ·)).flatten ↔ z ∈ (reachedZs first step plans left).map (raftTop + ·) := by
    intro z
    simp only [List.mem_flatten, List.mem_map, exists_exists_and_eq_and, ownZs, reachedZs,
      List.mem_filter, decide_eq_true_eq]
    constructor
    · rintro ⟨plan, hplan, baseZ, ⟨hbaseZ, hreach⟩, rfl⟩
      exact ⟨baseZ, ⟨hbaseZ, plan, hplan, hreach⟩, rfl⟩
    · rintro ⟨baseZ, ⟨hbaseZ, plan, hplan, hreach⟩, rfl⟩
      exact ⟨plan, hplan, baseZ, ⟨hbaseZ, hreach⟩, rfl⟩
  refine List.Pairwise.eq_of_mem_iff (List.pairwise_sortedUnion sameHeight_self) ?_ fun z => ?_
  · refine List.pairwise_map.mpr (List.Pairwise.filter _ ?_)
    exact (pairwise_uniformZs (by linarith)).imp fun h => add_lt_add_right h raftTop
  · rw [List.mem_sortedUnion, hmem]
    intro a ha b hb hsame
    obtain ⟨baseA, hbaseA, rfl⟩ := List.mem_map.mp ((hmem a).mp ha)
    obtain ⟨baseB, hbaseB, rfl⟩ := List.mem_map.mp ((hmem b).mp hb)
    rw [sameHeight_eq_true, add_sub_add_left_eq_sub] at hsame
    rw [eq_of_mem_uniformZs (by linarith) (List.mem_of_mem_filter hbaseA)
      (List.mem_of_mem_filter hbaseB) hsame]

omit [Field F] [LinearOrder F] [IsStrictOrderedRing F] in
theorem mapM_eq_ite {α β : Type} {f : α → Option β} {p : α → Prop} [DecidablePred p] {g : α → β}
    {l : List α} (hf : ∀ a ∈ l, f a = if p a then none else some (g a)) :
    l.mapM f = if ∃ a ∈ l, p a then none else some (l.map g) := by
  induction l with
  | nil => simp
  | cons a l ih =>
    rw [List.mapM_cons, hf a List.mem_cons_self,
      ih fun b hb => hf b (List.mem_cons_of_mem _ hb)]
    by_cases ha : p a
    · simp [ha]
    · by_cases hl : ∃ b ∈ l, p b
      · simp [ha, hl]
      · simp [ha, hl]

omit [LinearOrder F] [IsStrictOrderedRing F] in
theorem last_mem_uniformZs :
    uniformZ first step (layerNumbers - 1) ∈ uniformZs first step 0 layerNumbers :=
  List.mem_map_of_mem (List.mem_range'_1.mpr ⟨Nat.zero_le _, by decide⟩)

theorem forall_le_maxHeight (hfirst : tolerance < first) (hstep : 0 < step) :
    (∀ z ∈ uniformZs first step 0 layerNumbers,
        z ≤ (plans.map (·.height)).foldl max 0 + tolerance) ↔
      ∃ plan ∈ plans, ∀ z ∈ uniformZs first step 0 layerNumbers, z ≤ plan.height + tolerance := by
  constructor
  · intro hall
    -- who reaches the last plane reaches all of them
    obtain ⟨plan, hplan, hreach⟩ := (le_maxHeight hfirst
      (first_le_of_mem_uniformZs hstep last_mem_uniformZs)).mp (hall _ last_mem_uniformZs)
    refine ⟨plan, hplan, fun z hz => ?_⟩
    obtain ⟨j, hj, rfl⟩ := List.mem_map.mp hz
    have hj' : j ≤ layerNumbers - 1 := by have := (List.mem_range'_1.mp hj).2; omega
    rcases hj'.eq_or_lt with rfl | hlt
    · exact hreach
    · exact (uniformZ_lt_uniformZ _ hstep hlt).le.trans hreach
  · rintro ⟨plan, hplan, hreach⟩ z hz
    exact (le_maxHeight hfirst (first_le_of_mem_uniformZs hstep hz)).mpr
      ⟨plan, hplan, hreach z hz⟩

section Shared

variable (hshared : SharedHeights first step plans)

include hshared

theorem generateObjectLayers_shared (hstep : 0 < step) {plan : ObjectPlan F} (hplan : plan ∈ plans) :
    generateObjectLayers plan raftTop =
      if ∀ z ∈ uniformZs first step 0 layerNumbers, z ≤ plan.height + tolerance then none
      else some ((ownZs first step layerNumbers plan).map (raftTop + ·)) := by
  rw [generateObjectLayers, generateObjectLayersF64, ObjectPlan.hasExplicitSchedule,
    hshared.unscheduled plan hplan, hshared.firstLayerHeight plan hplan,
    hshared.layerHeight plan hplan]
  simp only [List.isEmpty_nil, Bool.not_true, Bool.false_eq_true, if_false,
    uniformZsFrom_eq hstep]
  split_ifs <;> rfl


/-- Uniting the planes gives the shared layers. -/
theorem mergeDifferentHeights_shared (hfirst : 2 * tolerance < first)
    (hstep : 2 * tolerance < step) (hraft : 0 ≤ raftTop) :
    mergeDifferentHeights plans raftTop =
      if ∃ plan ∈ plans, ∀ z ∈ uniformZs first step 0 layerNumbers, z ≤ plan.height + tolerance
      then none
      else some (sharedLayers plans raftTop false (reachedZs first step plans layerNumbers)) := by
  have htol : (0 : F) < tolerance := tolerance_pos
  have hpos : 0 < step := by linarith
  rw [mergeDifferentHeights,
    mapM_eq_ite fun plan hplan => generateObjectLayers_shared hshared hpos hplan]
  split_ifs
  · rfl
  · have htracks : plans.zipWith (fun plan zs => (⟨plan, zs, 0⟩ : Track F))
        (plans.map fun plan => (ownZs first step layerNumbers plan).map (raftTop + ·)) =
          plans.map fun plan =>
            ⟨plan, (ownZs first step layerNumbers plan).map (raftTop + ·), 0⟩ := by
      rw [List.zipWith_map_right, List.zipWith_self]
    simp only [Option.bind_eq_bind, Option.bind_some, Option.pure_def, htracks,
      sortedUnion_ownZs hstep]
    rw [mergeTracks_eq_sharedLayers false hraft]
    · simp [Function.comp_def]
    · exact List.Pairwise.filter _ (pairwise_uniformZs hpos)
    · intro z hz
      have hle := first_le_of_mem_uniformZs hpos (List.mem_of_mem_filter hz)
      linarith
    · simpa using hshared.unscheduled
    · simp only [List.forall_mem_map]
      intro plan _ z hz hreach
      exact List.mem_map_of_mem
        (List.mem_filter.mpr ⟨List.mem_of_mem_filter hz, decide_eq_true hreach⟩)
    · simp

/-- Counting gives the shared layers. -/
theorem mergeSameHeight_shared (raftTop : F) (hfirst : tolerance < first) (hstep : 0 < step) :
    mergeSameHeight plans raftTop =
      if ∃ plan ∈ plans, ∀ z ∈ uniformZs first step 0 layerNumbers, z ≤ plan.height + tolerance
      then none
      else some (sharedLayers plans raftTop false (reachedZs first step plans layerNumbers)) := by
  cases hplans : plans with
  | nil => simp [mergeSameHeight, reachedZs, sharedLayers]
  | cons plan rest =>
    have hplan : plan ∈ plans := hplans ▸ List.mem_cons_self
    have hreached : (uniformZs first step 0 layerNumbers).filter
        (fun z => decide (z ≤ (plans.map (·.height)).foldl max 0 + tolerance)) =
          reachedZs first step plans layerNumbers :=
      List.filter_congr fun z hz => decide_eq_decide.mpr
        (le_maxHeight hfirst (first_le_of_mem_uniformZs hstep hz))
    rw [mergeSameHeight, hshared.firstLayerHeight plan hplan, hshared.layerHeight plan hplan,
      ← hplans, sameHeightFrom_eq hstep, hreached]
    simp only [forall_le_maxHeight hfirst hstep]
    rfl

end Shared

omit [IsStrictOrderedRing F] in
/-- Whichever way `merge_layer_sequences` takes, it merges as the general one does. -/
theorem mergeLayerSequences_eq (hagree : mergeSameHeight plans raftTop =
    mergeDifferentHeights plans raftTop) :
    mergeLayerSequences plans raftTop = mergeDifferentHeights plans raftTop := by
  cases plans with
  | nil => exact hagree
  | cons plan rest =>
    rw [mergeLayerSequences]
    split_ifs
    · exact hagree
    · rfl

/-- The two ways of merging agree, whatever the heights of the objects, so it does not matter which
is taken; and they come to an end when the counter gets beyond every object. -/
theorem mergeSameHeight_eq_mergeDifferentHeights (hshared : SharedHeights first step plans)
    (hfirst : 2 * tolerance < first) (hstep : 2 * tolerance < step) (hraft : 0 ≤ raftTop) :
    mergeSameHeight plans raftTop = mergeDifferentHeights plans raftTop ∧
      mergeLayerSequences plans raftTop = mergeDifferentHeights plans raftTop ∧
      ((∀ plan ∈ plans, plan.height + tolerance < uniformZ first step (layerNumbers - 1)) →
        (mergeSameHeight plans raftTop).isSome) := by
  have htol : (0 : F) < tolerance := tolerance_pos
  have hcounted := mergeSameHeight_shared hshared raftTop (by linarith) (by linarith)
  have hagree : mergeSameHeight plans raftTop = mergeDifferentHeights plans raftTop := by
    rw [mergeDifferentHeights_shared hshared hfirst hstep hraft, hcounted]
  refine ⟨hagree, mergeLayerSequences_eq hagree, fun hend => ?_⟩
  rw [hcounted, if_neg]
  · rfl
  · rintro ⟨plan, hplan, hreach⟩
    exact absurd (hreach _ last_mem_uniformZs) (not_le.mpr (hend plan hplan))

end Ordered

/-! ### An example -/

/-- Objects that end below the first layer, between two planes and on one. -/
def threeHeights : List (ObjectPlan ℚ) :=
  [⟨"flat", 1 / 10, 1 / 5, 3 / 10, 0, []⟩, ⟨"stub", 3 / 5, 1 / 5, 3 / 10, 2, []⟩,
    ⟨"post", 9 / 10, 1 / 5, 3 / 10, 0, []⟩]

theorem mergeSameHeight_eq_mergeDifferentHeights_threeHeights :
    mergeSameHeight threeHeights (Prepass.raftTop threeHeights) =
        mergeDifferentHeights threeHeights (Prepass.raftTop threeHeights) ∧
      mergeLayerSequences threeHeights (Prepass.raftTop threeHeights) =
        mergeDifferentHeights threeHeights (Prepass.raftTop threeHeights) ∧
      (mergeSameHeight threeHeights (Prepass.raftTop threeHeights)).isSome := by
  have hshared : SharedHeights (3 / 10 : ℚ) (1 / 5) threeHeights :=
    ⟨by decide, by decide +kernel, by decide +kernel⟩
  have hagree := mergeSameHeight_eq_mergeDifferentHeights hshared (by norm_num [tolerance])
    (by norm_num [tolerance]) (raftTop_nonneg threeHeights)
  exact ⟨hagree.1, hagree.2.1, hagree.2.2 (by decide +kernel)⟩

end PinchNPrint.Prepass
