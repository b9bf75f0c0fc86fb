/-
What the linker does to locked runs.

The host takes a maximal run of tagged sparse paths for one block, whatever the roles of
its paths; the linker emits a region role by role. `linker_passes_lock_check_iff` says for
which staged infill every run of the linker passes the host's check: those where each
tagged run still stands in one piece after its region's paths were regrouped by role
(`RunsStayTogether`). A run of one role always does (`runsStayTogether_of_single_role`); a
run of two roles may not, and `mixed_run_is_rejected` is one that does not.

What linking makes of the unlocked paths never matters: it stays untagged, and it only
appears where a region has unlocked paths (`Regapped`).
-/

import PinchNPrint.Layer.InfillLocks
import PinchNPrint.Linker.Buckets

namespace PinchNPrint.Linker

open Layer

variable {F P : Type}

/-! ### What the linker emits when nothing is clipped -/

/-- The sources that have a view. -/
def hasView [LinearOrder F] (views : List (PerimeterRegionView F P)) (source : Source F) : Bool :=
  (views.find? fun view => view.source = source).isSome

/-- The roles of the sparse paths of the regions that have a view, each where it first
appears. -/
def viewedRoles (viewed : Source F → Bool) (regions : List (InfillRegion F (ExtrusionPath3D F))) :
    List ExtrusionRole :=
  rolesOf ((regions.filter fun region => viewed region.source).flatMap (·.sparseInfill))

/-- The sparse paths of a region in the order the linker takes them. -/
def emittedOrder (viewed : Source F → Bool) (regions : List (InfillRegion F (ExtrusionPath3D F)))
    (region : InfillRegion F (ExtrusionPath3D F)) : List (ExtrusionPath3D F) :=
  if viewed region.source then regrouped (viewedRoles viewed regions) region.sparseInfill
  else region.sparseInfill

/-- The sparse paths of a source in that order. -/
def emittedAt [LinearOrder F] (viewed : Source F → Bool)
    (regions : List (InfillRegion F (ExtrusionPath3D F))) (source : Source F) :
    List (ExtrusionPath3D F) :=
  (regions.filter fun region => region.source = source).flatMap (emittedOrder viewed regions)

/-- Whichever regions have a view, every tagged run still stands in one piece when the paths
of each of these regions are regrouped by role. -/
def RunsStayTogether [LinearOrder F] (staged : InfillIR F) : Prop :=
  ∀ viewed : Source F → Bool, ∀ region ∈ staged.regions, ∀ start stop,
    TaggedRun region.sparseInfill start stop →
      Reappears (slice region.sparseInfill start stop)
        (emittedAt viewed staged.regions region.source)

/-! ### The records -/

section Records

variable [LinearOrder F] {views : List (PerimeterRegionView F P)}
  {prior : List (InfillRegion F (ExtrusionPath3D F))} {records : List (RegionRecord F P)}

theorem map_fst_joined {α β : Type} (f : α → Option β) (l : List α) :
    (l.filterMap fun a => (f a).map fun b => (a, b)).map Prod.fst =
      l.filter fun a => (f a).isSome := by
  induction l with
  | nil => rfl
  | cons a rest ih =>
    cases ha : f a with
    | none => simpa [ha] using ih
    | some b => simpa [ha] using ih

/-- What a record has of its region and its view. -/
structure RecordOf (joined : (InfillRegion F (ExtrusionPath3D F) × Nat) × PerimeterRegionView F P)
    (record : RegionRecord F P) : Prop where
  priorIndex : record.priorIndex = joined.1.2
  sparsePaths : record.sparsePaths = joined.1.1.sparseInfill
  boundaries : record.boundaries = joined.2.areas

theorem recordsOf (h : regionRecords views prior = .ok records) :
    List.Forall₂ RecordOf (prior.zipIdx.filterMap fun entry =>
      (viewOf views entry.1).map fun view => (entry, view)) records := by
  apply (Except.forall₂_of_mapM_eq_ok h).imp
  rintro joined record hrecord
  obtain ⟨config, _, hpure⟩ := Except.of_bind_eq_ok hrecord
  cases hpure
  exact ⟨rfl, rfl, rfl⟩

theorem map_records (h : regionRecords views prior = .ok records) :
    records.map (fun record => (record.priorIndex, record.sparsePaths)) =
      (prior.zipIdx.filter fun entry => hasView views entry.1.source).map
        fun entry => (entry.2, entry.1.sparseInfill) := by
  have hjoined : ∀ {joined : List ((InfillRegion F (ExtrusionPath3D F) × Nat) ×
      PerimeterRegionView F P)} {records : List (RegionRecord F P)},
      List.Forall₂ RecordOf joined records →
        records.map (fun record => (record.priorIndex, record.sparsePaths)) =
          (joined.map Prod.fst).map fun entry => (entry.2, entry.1.sparseInfill) := by
    intro joined records hrecords
    induction hrecords with
    | nil => rfl
    | cons hrecord _ ih =>
      simp only [List.map_cons, ih, hrecord.priorIndex, hrecord.sparsePaths]
  rw [hjoined (recordsOf h), map_fst_joined]
  rfl

theorem rolesForBucket_records (h : regionRecords views prior = .ok records) :
    rolesForBucket records .Sparse = viewedRoles (hasView views) prior := by
  have hpaths : records.flatMap (·.sparsePaths) =
      (prior.filter fun region => hasView views region.source).flatMap (·.sparseInfill) := by
    have hsnd := congrArg (fun pairs => pairs.flatMap Prod.snd) (map_records h)
    simp only [List.flatMap_map] at hsnd
    rw [hsnd]
    conv_rhs => rw [← List.zipIdx_map_fst 0 prior, List.filter_map, List.flatMap_map]
    rfl
  rw [rolesForBucket, viewedRoles, ← hpaths]
  rfl

theorem filter_zipIdx_snd {α : Type} (l : List α) (n i : Nat) :
    (l.zipIdx n).filter (fun entry => entry.2 = n + i) =
      (l[i]?.toList).map fun a => (a, n + i) := by
  induction l generalizing n i with
  | nil => rfl
  | cons a rest ih =>
    rw [List.zipIdx_cons]
    cases i with
    | zero =>
      have hlater : (rest.zipIdx (n + 1)).filter (fun entry => entry.2 = n) = [] := by
        rw [List.filter_eq_nil_iff]
        intro entry hentry
        have hle := List.le_snd_of_mem_zipIdx hentry
        simp only [decide_eq_true_eq]
        omega
      simp [hlater]
    | succ i =>
      have hrest := ih (n + 1) i
      rw [Nat.add_right_comm, Nat.add_assoc] at hrest
      simpa using hrest

variable {i : Nat} {region : InfillRegion F (ExtrusionPath3D F)}

theorem pathsAt_records (h : regionRecords views prior = .ok records)
    (hregion : prior[i]? = some region) :
    pathsAt records i = if hasView views region.source then region.sparseInfill else [] := by
  have hpairs : pathsAt records i =
      ((records.map fun record => (record.priorIndex, record.sparsePaths)).filter
        fun pair => pair.1 = i).flatMap Prod.snd := by
    rw [pathsAt, List.filter_map, List.flatMap_map]
    rfl
  have hone := filter_zipIdx_snd prior 0 i
  simp only [Nat.zero_add] at hone
  rw [hpairs, map_records h, List.filter_map, List.flatMap_map, List.filter_filter]
  have hcomm : (fun entry : InfillRegion F (ExtrusionPath3D F) × Nat =>
      ((fun pair : Nat × List (ExtrusionPath3D F) => decide (pair.1 = i)) ∘
        fun entry : InfillRegion F (ExtrusionPath3D F) × Nat => (entry.2, entry.1.sparseInfill))
          entry && hasView views entry.1.source) =
      fun entry => hasView views entry.1.source && decide (entry.2 = i) := by
    funext entry
    exact Bool.and_comm _ _
  rw [hcomm, ← List.filter_filter, hone, hregion]
  cases hview : hasView views region.source <;> simp [hview]

theorem sparseAt_start (hregion : prior[i]? = some region) :
    sparseAt (prior.map (startBucket views)) i =
      if hasView views region.source then [] else region.sparseInfill := by
  have hstart : sparseAt (prior.map (startBucket views)) i =
      (startBucket views region).sparse := by
    rw [sparseAt, List.getElem?_map, hregion]
    rfl
  have hview : hasView views region.source = (viewOf views region).isSome := rfl
  rw [hstart, startBucket, hview]
  cases viewOf views region <;> rfl

theorem emittedOrder_eq (h : regionRecords views prior = .ok records)
    (hregion : prior[i]? = some region) :
    emittedOrder (hasView views) prior region =
      sparseAt (prior.map (startBucket views)) i ++
        regrouped (rolesForBucket records .Sparse) (pathsAt records i) := by
  rw [sparseAt_start hregion, pathsAt_records h hregion, rolesForBucket_records h, emittedOrder]
  cases hasView views region.source with
  | true => rfl
  | false =>
    have hnil : regrouped (viewedRoles (hasView views) prior)
        ([] : List (ExtrusionPath3D F)) = [] := by
      simp [regrouped, lockedOf, unlockedOf]
    rw [if_neg Bool.false_ne_true, if_neg Bool.false_ne_true, if_neg Bool.false_ne_true, hnil,
      List.append_nil]

end Records

/-! ### The buckets of a run -/

section Run

variable [Field F] [LinearOrder F] {geometry : LinkGeometry F P} {infillOverlap : F}
  {views : List (PerimeterRegionView F P)} {prior : List (InfillRegion F (ExtrusionPath3D F))}
  {buckets : List (BucketPaths F)}

theorem of_orchestrateInfill_ok
    (h : orchestrateInfill geometry infillOverlap prior views = some (.ok buckets)) :
    ∃ records sparse, regionRecords views prior = .ok records ∧
      processBucket geometry infillOverlap records .Sparse (prior.map (startBucket views)) =
        some sparse ∧
      processBucket geometry infillOverlap records .Solid sparse = some buckets := by
  unfold orchestrateInfill at h
  split at h
  · cases h
  · rename_i records hrecords
    simp only [Option.bind_eq_bind, Option.bind_eq_some_iff] at h
    obtain ⟨sparse, hsparse, solid, hsolid, heq⟩ := h
    cases heq
    exact ⟨records, sparse, hrecords, hsparse, hsolid⟩

/-- A run's sparse buckets, from what linking added to them. -/
theorem forall₂_buckets {R : List (ExtrusionPath3D F) → List (ExtrusionPath3D F) → Prop}
    {records : List (RegionRecord F P)} {sparse : List (BucketPaths F)}
    (hsparse : processBucket geometry infillOverlap records .Sparse
      (prior.map (startBucket views)) = some sparse)
    (hsolid : processBucket geometry infillOverlap records .Solid sparse = some buckets)
    (hR : ∀ i region, prior[i]? = some region →
      R (emittedOrder (hasView views) prior region) (sparseAt sparse i)) :
    List.Forall₂ (fun region bucket =>
      R (emittedOrder (hasView views) prior region) bucket.sparse) prior buckets := by
  apply List.forall₂_of_getElem?
  · rw [length_processBucket hsolid, length_processBucket hsparse, List.length_map]
  · intro i region bucket hregion hbucket
    have hat : sparseAt buckets i = bucket.sparse := by
      rw [sparseAt, hbucket]
      rfl
    rw [← hat, processBucket_solid hsolid]
    exact hR i region hregion

/-- Every run emits the sparse paths of a region in `emittedOrder`, except for gaps. -/
theorem buckets_regapped
    (h : orchestrateInfill geometry infillOverlap prior views = some (.ok buckets)) :
    List.Forall₂ (fun region bucket =>
      Regapped locked (emittedOrder (hasView views) prior region) bucket.sparse) prior buckets := by
  obtain ⟨records, sparse, hrecords, hsparse, hsolid⟩ := of_orchestrateInfill_ok h
  apply forall₂_buckets (R := Regapped locked) hsparse hsolid
  intro i region hregion
  have hi : i < (prior.map (startBucket views)).length := by
    rw [List.length_map]
    exact (List.getElem?_eq_some_iff.mp hregion).1
  obtain ⟨added, hadded, hregapped⟩ := processBucket_sparse hi hsparse
  rw [emittedOrder_eq hrecords hregion, hadded]
  exact (Regapped.refl locked _).append hregapped

/-- Views that know no areas. -/
def Blank (views : List (PerimeterRegionView F P)) : Prop :=
  ∀ view ∈ views, view.areas = {} ∧ ∃ config, view.config = .ok config

/-- With blank views nothing is linked, and the run emits `emittedOrder` itself. -/
theorem exists_buckets_of_blank (hblank : Blank views) :
    ∃ buckets, orchestrateInfill geometry infillOverlap prior views = some (.ok buckets) ∧
      List.Forall₂ (fun region bucket =>
        emittedOrder (hasView views) prior region = bucket.sparse) prior buckets := by
  obtain ⟨records, hrecords⟩ : ∃ records, regionRecords views prior = .ok records := by
    apply List.exists_mapM_eq_ok
    intro joined hjoined
    obtain ⟨entry, _, hview⟩ := List.mem_filterMap.mp hjoined
    obtain ⟨view, hfound, rfl⟩ := Option.map_eq_some_iff.mp hview
    obtain ⟨_, config, hconfig⟩ := hblank view (List.mem_of_find?_eq_some hfound)
    exact ⟨_, by rw [regionRecord, hconfig]; rfl⟩
  have hnone : ∀ role, ∀ record ∈ records,
      record.boundaries.forRole geometry role = none := by
    intro role record hrecord
    obtain ⟨joined, hjoined, hof⟩ := (recordsOf hrecords).exists_of_mem_right hrecord
    obtain ⟨entry, _, hview⟩ := List.mem_filterMap.mp hjoined
    obtain ⟨view, hfound, rfl⟩ := Option.map_eq_some_iff.mp hview
    rw [hof.boundaries, (hblank view (List.mem_of_find?_eq_some hfound)).1]
    cases role <;> rfl
  obtain ⟨sparse, hsparse⟩ : ∃ sparse, processBucket geometry infillOverlap records .Sparse
      (prior.map (startBucket views)) = some sparse := exists_processBucket_of_none hnone
  obtain ⟨solid, hsolid⟩ : ∃ solid,
      processBucket geometry infillOverlap records .Solid sparse = some solid :=
    exists_processBucket_of_none hnone
  refine ⟨solid, ?_, ?_⟩
  · simp only [orchestrateInfill, hrecords, hsparse, hsolid, Option.bind_eq_bind, Option.bind_some]
    rfl
  · apply forall₂_buckets hsparse hsolid
    intro i region hregion
    have hi : i < (prior.map (startBucket views)).length := by
      rw [List.length_map]
      exact (List.getElem?_eq_some_iff.mp hregion).1
    rw [emittedOrder_eq hrecords hregion]
    exact (processBucket_sparse_of_none hnone hi hsparse).symm

end Run

/-! ### Grouping by source -/

section Output

variable [LinearOrder F] {regions news : List (InfillRegion F (ExtrusionPath3D F))}
  {new : InfillRegion F (ExtrusionPath3D F)} {source : Source F}

/-- The sparse paths of the regions of a source. -/
def sparseOf (regions : List (InfillRegion F (ExtrusionPath3D F))) (source : Source F) :
    List (ExtrusionPath3D F) :=
  (regions.filter fun region => region.source = source).flatMap (·.sparseInfill)

theorem sparseOf_eq_nil (h : source ∉ regions.map InfillRegion.source) :
    sparseOf regions source = [] := by
  have hnone : (regions.filter fun region => region.source = source) = [] := by
    rw [List.filter_eq_nil_iff]
    intro region hregion heq
    exact h (List.mem_map.mpr ⟨region, hregion, by simpa using heq⟩)
  rw [sparseOf, hnone]
  rfl

theorem mem_sources_mergeRegion {other : Source F}
    (h : other ∈ (mergeRegion regions new).map InfillRegion.source) :
    other = new.source ∨ other ∈ regions.map InfillRegion.source := by
  induction regions with
  | nil => exact .inl (by simpa [mergeRegion] using h)
  | cons region rest ih =>
    rw [mergeRegion] at h
    split at h
    · exact .inr (by simpa [InfillRegion.source, InfillRegion.extend] using h)
    · rcases List.mem_cons.mp h with rfl | h
      · exact .inr List.mem_cons_self
      · exact (ih h).imp_right (List.mem_cons_of_mem _)

/-- Merging keeps the sources apart. -/
theorem nodup_mergeRegion (h : (regions.map InfillRegion.source).Nodup) :
    ((mergeRegion regions new).map InfillRegion.source).Nodup := by
  induction regions with
  | nil => simp [mergeRegion]
  | cons region rest ih =>
    obtain ⟨hfirst, hrest⟩ := List.nodup_cons.mp h
    rw [mergeRegion]
    split
    · exact h
    · rename_i hne
      refine List.nodup_cons.mpr ⟨fun hmem => ?_, ih hrest⟩
      rcases mem_sources_mergeRegion hmem with heq | hmem
      · exact hne heq
      · exact hfirst hmem

theorem sparseOf_cons (region : InfillRegion F (ExtrusionPath3D F))
    (rest : List (InfillRegion F (ExtrusionPath3D F))) (source : Source F) :
    sparseOf (region :: rest) source =
      (if region.source = source then region.sparseInfill else []) ++ sparseOf rest source := by
  unfold sparseOf
  by_cases hsource : region.source = source
  · rw [List.filter_cons_of_pos (by simpa using hsource), List.flatMap_cons, if_pos hsource]
  · rw [List.filter_cons_of_neg (by simpa using hsource), if_neg hsource, List.nil_append]

theorem sparseOf_mergeRegion (h : (regions.map InfillRegion.source).Nodup) :
    sparseOf (mergeRegion regions new) source =
      sparseOf regions source ++ (if new.source = source then new.sparseInfill else []) := by
  induction regions with
  | nil =>
    rw [mergeRegion, sparseOf_cons]
    exact List.append_nil _
  | cons region rest ih =>
    obtain ⟨hfirst, hrest⟩ := List.nodup_cons.mp h
    rw [mergeRegion]
    split
    · rename_i heq
      have hextended : (region.extend new).source = region.source := rfl
      rw [sparseOf_cons, sparseOf_cons, hextended, ← heq]
      by_cases hsource : region.source = source
      · -- The source is the first region's alone, so its paths end where the new ones go.
        rw [if_pos hsource, if_pos hsource, if_pos hsource, sparseOf_eq_nil (hsource ▸ hfirst)]
        simp [InfillRegion.extend]
      · simp [hsource]
    · rw [sparseOf_cons, ih hrest, sparseOf_cons, List.append_assoc]

theorem nodup_mergeInfillIr (h : (regions.map InfillRegion.source).Nodup) :
    ((mergeInfillIr regions news).map InfillRegion.source).Nodup := by
  induction news generalizing regions with
  | nil => exact h
  | cons new rest ih => exact ih (nodup_mergeRegion h)

theorem sparseOf_mergeInfillIr (h : (regions.map InfillRegion.source).Nodup) :
    sparseOf (mergeInfillIr regions news) source =
      sparseOf regions source ++ sparseOf news source := by
  induction news generalizing regions with
  | nil => exact (List.append_nil _).symm
  | cons new rest ih =>
    calc sparseOf (mergeInfillIr (mergeRegion regions new) rest) source
        = sparseOf (mergeRegion regions new) source ++ sparseOf rest source :=
          ih (nodup_mergeRegion h)
      _ = sparseOf regions source ++ sparseOf (new :: rest) source := by
          rw [sparseOf_mergeRegion h, sparseOf_cons, List.append_assoc]

theorem sparseOf_singles (paths : List (Source F × ExtrusionPath3D F)) :
    sparseOf (paths.map fun entry =>
      { mintInfillRegion entry.1 with sparseInfill := [entry.2] }) source =
        (paths.filter fun entry => entry.1 = source).map Prod.snd := by
  induction paths with
  | nil => rfl
  | cons entry rest ih =>
    have hminted : ({ mintInfillRegion entry.1 with sparseInfill := [entry.2] } :
        InfillRegion F (ExtrusionPath3D F)).source = entry.1 := rfl
    rw [List.map_cons, sparseOf_cons, ih, hminted]
    by_cases hsource : entry.1 = source
    · rw [if_pos hsource, List.filter_cons_of_pos (by simpa using hsource)]
      rfl
    · rw [if_neg hsource, List.filter_cons_of_neg (by simpa using hsource)]
      rfl

theorem sparseOf_eq_nil_of_forall (h : ∀ region ∈ news, region.sparseInfill = []) :
    sparseOf news source = [] := by
  rw [sparseOf, List.flatMap_eq_nil_iff]
  exact fun region hregion => h region (List.mem_of_mem_filter hregion)

theorem find?_source (h : (regions.map InfillRegion.source).Nodup) (source : Source F) :
    (regions.find? fun region => region.source = source) = none ∧ sparseOf regions source = [] ∨
      ∃ region, (regions.find? fun region => region.source = source) = some region ∧
        region.sparseInfill = sparseOf regions source := by
  induction regions with
  | nil => exact .inl ⟨rfl, rfl⟩
  | cons region rest ih =>
    obtain ⟨hfirst, hrest⟩ := List.nodup_cons.mp h
    rw [sparseOf_cons]
    by_cases hsource : region.source = source
    · refine .inr ⟨region, List.find?_cons_of_pos (by simpa using hsource), ?_⟩
      rw [if_pos hsource, sparseOf_eq_nil (hsource ▸ hfirst), List.append_nil]
    · rw [List.find?_cons_of_neg (by simpa using hsource), if_neg hsource, List.nil_append]
      exact ih hrest

theorem groupByOrigin_sparse (collected : InfillOutputCollected F) (source : Source F) :
    ((groupByOrigin collected).map InfillRegion.source).Nodup ∧
      sparseOf (groupByOrigin collected) source =
        (collected.sparsePaths.filter fun entry => entry.1 = source).map Prod.snd := by
  have hnil : (([] : List (InfillRegion F (ExtrusionPath3D F))).map InfillRegion.source).Nodup :=
    List.nodup_nil
  have hfirst : ((mergeInfillIr [] (collected.sparsePaths.map fun entry =>
      { mintInfillRegion entry.1 with sparseInfill := [entry.2] })).map
        InfillRegion.source).Nodup := nodup_mergeInfillIr hnil
  refine ⟨nodup_mergeInfillIr (nodup_mergeInfillIr hfirst), ?_⟩
  rw [groupByOrigin, sparseOf_mergeInfillIr (nodup_mergeInfillIr hfirst),
    sparseOf_mergeInfillIr hfirst, sparseOf_mergeInfillIr hnil, sparseOf_singles]
  have hsolid : sparseOf (collected.solidPaths.map fun entry =>
      { mintInfillRegion entry.1 with solidInfill := [entry.2] }) source = [] := by
    apply sparseOf_eq_nil_of_forall
    intro region hregion
    obtain ⟨entry, _, rfl⟩ := List.mem_map.mp hregion
    rfl
  have hironing : sparseOf (collected.ironingPaths.map fun entry =>
      { mintInfillRegion entry.1 with ironing := [entry.2] }) source = [] := by
    apply sparseOf_eq_nil_of_forall
    intro region hregion
    obtain ⟨entry, _, rfl⟩ := List.mem_map.mp hregion
    rfl
  rw [hsolid, hironing, List.append_nil, List.append_nil]
  rfl

theorem regionFor_convert {authored : Option (AuthoredColoringContext F)} {layerIndex : Nat}
    {collected : InfillOutputCollected F} {region : InfillRegion F (ExtrusionPath3D F)}
    {paths : List (ExtrusionPath3D F)}
    (hpaths : (collected.sparsePaths.filter fun entry => entry.1 = region.source).map Prod.snd =
      paths) :
    (convertInfillOutput authored layerIndex collected).regionFor region = none ∧ paths = [] ∨
      ∃ new, (convertInfillOutput authored layerIndex collected).regionFor region = some new ∧
        new.sparseInfill = paths.map (recolor authored region.source) := by
  obtain ⟨hnodup, hsparse⟩ := groupByOrigin_sparse collected region.source
  have hfind : (convertInfillOutput authored layerIndex collected).regionFor region =
      ((groupByOrigin collected).find? fun new => new.source = region.source).map
        (enforceAuthoredColoring authored) := by
    rw [InfillIR.regionFor, convertInfillOutput, List.find?_map]
    rfl
  rw [hpaths] at hsparse
  rw [hfind]
  rcases find?_source hnodup region.source with ⟨hnone, hempty⟩ | ⟨new, hnew, hpaths'⟩
  · exact .inl ⟨by rw [hnone]; rfl, hsparse.symm.trans hempty⟩
  · have hsource : new.source = region.source := by
      simpa using List.find?_some hnew
    refine .inr ⟨_, by rw [hnew]; rfl, ?_⟩
    rw [← hsparse, ← hpaths', ← hsource]
    rfl

/-- What a run emits for a source. -/
def emittedSparse (prior : List (InfillRegion F (ExtrusionPath3D F)))
    (buckets : List (BucketPaths F)) (source : Source F) : List (ExtrusionPath3D F) :=
  ((prior.zip buckets).filter fun entry => entry.1.source = source).flatMap fun entry =>
    entry.2.sparse

theorem filter_emit (prior : List (InfillRegion F (ExtrusionPath3D F)))
    (buckets : List (BucketPaths F)) (source : Source F) :
    ((emit prior buckets).sparsePaths.filter fun entry => entry.1 = source).map Prod.snd =
      emittedSparse prior buckets source := by
  unfold emit emittedSparse
  simp only
  induction prior.zip buckets with
  | nil => rfl
  | cons entry rest ih =>
    rw [List.flatMap_cons, List.filter_append, List.map_append, ih]
    by_cases hsource : entry.1.source = source
    · rw [List.filter_cons_of_pos (by simpa using hsource), List.flatMap_cons]
      congr 1
      simp [List.filter_map, Function.comp_def, hsource]
    · rw [List.filter_cons_of_neg (by simpa using hsource)]
      simp [List.filter_map, Function.comp_def, hsource]

/-- A relation between the buckets, for the paths of a source. -/
theorem rel_emittedSparse {R : List (ExtrusionPath3D F) → List (ExtrusionPath3D F) → Prop}
    (hnil : R [] []) (happend : ∀ {a a' b b'}, R a a' → R b b' → R (a ++ b) (a' ++ b'))
    {order : InfillRegion F (ExtrusionPath3D F) → List (ExtrusionPath3D F)}
    {prior : List (InfillRegion F (ExtrusionPath3D F))} {buckets : List (BucketPaths F)}
    (h : List.Forall₂ (fun region bucket => R (order region) bucket.sparse) prior buckets)
    (source : Source F) :
    R ((prior.filter fun region => region.source = source).flatMap order)
      (emittedSparse prior buckets source) := by
  unfold emittedSparse
  induction h with
  | nil => exact hnil
  | @cons region bucket _ _ hfirst _ ih =>
    rw [List.zip_cons_cons]
    by_cases hsource : region.source = source
    · rw [List.filter_cons_of_pos (by simpa using hsource),
        List.filter_cons_of_pos (by simpa using hsource), List.flatMap_cons, List.flatMap_cons]
      exact happend hfirst ih
    · rw [List.filter_cons_of_neg (by simpa using hsource),
        List.filter_cons_of_neg (by simpa using hsource)]
      exact ih

end Output

/-! ### Runs of locked paths -/

section Runs

variable {paths new block : List (ExtrusionPath3D F)}

theorem Reappears.regapped (h : Reappears block paths) (hregapped : Regapped locked paths new) :
    Reappears block new := by
  obtain ⟨window, hwindow, hkept⟩ := h
  refine ⟨window, hregapped.isInfix (fun path hpath => ?_) hwindow, hkept⟩
  obtain ⟨old, _, hold⟩ := hkept.exists_of_mem_right hpath
  exact hold.2

/-- A tool change keeps what a block is looked up by. -/
theorem reappears_map_recolor [LinearOrder F] {authored : Option (AuthoredColoringContext F)}
    {source : Source F} :
    Reappears block (paths.map (recolor authored source)) ↔ Reappears block paths := by
  constructor
  · rintro ⟨window, hwindow, hkept⟩
    obtain ⟨window', hinfix, rfl⟩ := List.infix_map_iff.mp hwindow
    exact ⟨window', hinfix, (List.forall₂_map_right_iff.mp hkept).imp fun _ _ h => h⟩
  · rintro ⟨window, hwindow, hkept⟩
    exact ⟨_, hwindow.map _, List.forall₂_map_right_iff.mpr (hkept.imp fun _ _ h => h)⟩

theorem mem_rolesOf {path : ExtrusionPath3D F} (h : path ∈ paths) : path.role ∈ rolesOf paths := by
  induction paths using List.reverseRecOn with
  | nil => cases h
  | append_singleton before last ih =>
    have hstep : rolesOf (before ++ [last]) =
        if last.role ∈ rolesOf before then rolesOf before
        else rolesOf before ++ [last.role] := List.foldl_concat _ _ _ _
    rw [hstep]
    rcases List.mem_append.mp h with h | h
    · split
      · exact ih h
      · exact List.mem_append_left _ (ih h)
    · cases List.mem_singleton.mp h
      split
      · assumption
      · exact List.mem_append_right _ List.mem_cons_self

/-- Regrouping keeps the locked paths. -/
theorem mem_emittedOrder {viewed : Source F → Bool}
    {regions : List (InfillRegion F (ExtrusionPath3D F))}
    {region : InfillRegion F (ExtrusionPath3D F)} (hregion : region ∈ regions)
    {path : ExtrusionPath3D F} (hpath : path ∈ region.sparseInfill) (hlocked : locked path = true) :
    path ∈ emittedOrder viewed regions region := by
  unfold emittedOrder
  split
  · rename_i hviewed
    refine List.mem_flatMap.mpr ⟨path.role, ?_, List.mem_append_left _ ?_⟩
    · apply mem_rolesOf
      exact List.mem_flatMap.mpr ⟨region, List.mem_filter.mpr ⟨hregion, hviewed⟩, hpath⟩
    · apply List.mem_filter.mpr ⟨hpath, _⟩
      simpa [locked] using hlocked
  · exact hpath

end Runs

/-! ### The lock check of a run -/

section Check

variable [Field F] [LinearOrder F] {geometry : LinkGeometry F P} {infillOverlap : F}
  {views : List (PerimeterRegionView F P)} {authored : Option (AuthoredColoringContext F)}
  {staged out : InfillIR F}

theorem infillLinker_ok_iff :
    infillLinker geometry infillOverlap views authored staged = some (.ok out) ↔
      ∃ buckets, orchestrateInfill geometry infillOverlap staged.regions views =
          some (.ok buckets) ∧
        convertInfillOutput authored staged.globalLayerIndex (emit staged.regions buckets) = out := by
  simp only [infillLinker, Option.bind_eq_bind, Option.bind_eq_some_iff]
  constructor
  · rintro ⟨result, hresult, hout⟩
    cases result with
    | error error => cases hout
    | ok buckets =>
      cases hout
      exact ⟨buckets, hresult, rfl⟩
  · rintro ⟨buckets, hbuckets, rfl⟩
    exact ⟨_, hbuckets, rfl⟩

theorem regionFor_run (h : infillLinker geometry infillOverlap views authored staged =
    some (.ok out)) :
    ∃ buckets, orchestrateInfill geometry infillOverlap staged.regions views =
        some (.ok buckets) ∧
      ∀ region : InfillRegion F (ExtrusionPath3D F),
        (out.regionFor region = none ∧ emittedSparse staged.regions buckets region.source = []) ∨
          ∃ new, out.regionFor region = some new ∧ new.sparseInfill =
            (emittedSparse staged.regions buckets region.source).map
              (recolor authored region.source) := by
  obtain ⟨buckets, hbuckets, rfl⟩ := infillLinker_ok_iff.mp h
  exact ⟨buckets, hbuckets, fun region => regionFor_convert (filter_emit _ _ _)⟩

theorem regionKept_of_together (htogether : RunsStayTogether staged)
    (h : infillLinker geometry infillOverlap views authored staged = some (.ok out))
    {region : InfillRegion F (ExtrusionPath3D F)} (hregion : region ∈ staged.regions) :
    RegionKept out region := by
  obtain ⟨buckets, hbuckets, hout⟩ := regionFor_run h
  have hregapped : Regapped locked (emittedAt (hasView views) staged.regions region.source)
      (emittedSparse staged.regions buckets region.source) :=
    rel_emittedSparse (R := Regapped locked) .nil (fun h h' => h.append h')
      (buckets_regapped hbuckets) region.source
  unfold RegionKept
  rcases hout region with ⟨hnone, hempty⟩ | ⟨new, hnew, hsparse⟩
  · rw [hnone]
    intro path hpath
    by_contra hlock
    have hlocked : locked path = true := Option.isSome_iff_ne_none.mpr hlock
    have hmem : path ∈ emittedAt (hasView views) staged.regions region.source :=
      List.mem_flatMap.mpr ⟨region, List.mem_filter.mpr ⟨hregion, by simp⟩,
        mem_emittedOrder hregion hpath hlocked⟩
    obtain ⟨before, after, hsplit⟩ := List.append_of_mem hmem
    have hpath_in : [path] <:+: emittedAt (hasView views) staged.regions region.source :=
      ⟨before, after, by simp [hsplit]⟩
    have hkept := hregapped.isInfix (by simpa using hlocked) hpath_in
    rw [hempty] at hkept
    cases List.infix_nil.mp hkept
  · rw [hnew]
    intro start stop run
    rw [hsparse, reappears_map_recolor]
    exact Reappears.regapped (htogether (hasView views) region hregion start stop run) hregapped

/-- One view without areas for each of the chosen regions. -/
def blankViews (P : Type) (viewed : Source F → Bool)
    (regions : List (InfillRegion F (ExtrusionPath3D F))) : List (PerimeterRegionView F P) :=
  (regions.filter fun region => viewed region.source).map fun region =>
    { source := region.source, config := .ok ⟨1, 1, 1, 1⟩ }

omit [LinearOrder F] in
theorem blank_blankViews (viewed : Source F → Bool)
    (regions : List (InfillRegion F (ExtrusionPath3D F))) :
    Blank (blankViews P viewed regions) := by
  intro view hview
  obtain ⟨region, _, rfl⟩ := List.mem_map.mp hview
  exact ⟨rfl, _, rfl⟩

theorem hasView_blankViews {viewed : Source F → Bool}
    {regions : List (InfillRegion F (ExtrusionPath3D F))}
    {region : InfillRegion F (ExtrusionPath3D F)} (hregion : region ∈ regions) :
    hasView (blankViews P viewed regions) region.source = viewed region.source := by
  rw [Bool.eq_iff_iff, hasView, List.find?_isSome]
  constructor
  · rintro ⟨view, hview, hsource⟩
    obtain ⟨other, hother, rfl⟩ := List.mem_map.mp hview
    have hsame : other.source = region.source := of_decide_eq_true hsource
    rw [← hsame]
    exact (List.mem_filter.mp hother).2
  · intro hviewed
    refine ⟨_, List.mem_map_of_mem (List.mem_filter.mpr ⟨hregion, hviewed⟩), ?_⟩
    exact decide_eq_true rfl

omit [Field F] in
/-- Only the views of the staged regions matter. -/
theorem emittedAt_congr {viewed viewed' : Source F → Bool}
    {regions : List (InfillRegion F (ExtrusionPath3D F))}
    (h : ∀ region ∈ regions, viewed region.source = viewed' region.source) (source : Source F) :
    emittedAt viewed regions source = emittedAt viewed' regions source := by
  have hroles : viewedRoles viewed regions = viewedRoles viewed' regions := by
    rw [viewedRoles, viewedRoles, List.filter_congr h]
  unfold emittedAt
  apply List.flatMap_congr
  intro region hregion
  rw [emittedOrder, emittedOrder, hroles, h region (List.mem_of_mem_filter hregion)]

/-- Operations on polygons that leave everything alone. -/
def passiveGeometry (F P : Type) [Field F] : LinkGeometry F P where
  contour := {
    remEuclid := fun value _ => value
    mmToUnits := id
    boundaryPosition := fun _ _ => none
    contourConnector := fun _ _ _ _ _ => []
    contourStub := fun _ _ _ _ _ => [] }
  rings := fun _ => []
  unionEx := id
  differenceEx := fun boundary _ => boundary
  sweptFootprintPolygons := fun _ => []
  polygonsOuter := fun boundary _ _ => boundary
  replaceShared := fun outer _ _ => outer
  clip := fun _ _ path => [path.points]
  ownedLength := fun _ _ _ => 0

/-- If every run passes, the runs stay together: a run without boundaries emits
`emittedOrder` itself. -/
theorem together_of_passes (hpasses : ∀ (geometry : LinkGeometry F P) (infillOverlap : F)
    (views : List (PerimeterRegionView F P)) (authored : Option (AuthoredColoringContext F))
    (out : InfillIR F),
    infillLinker geometry infillOverlap views authored staged = some (.ok out) →
      validateInfillOrderLocks staged out = some (.ok ())) : RunsStayTogether staged := by
  intro viewed region hregion start stop run
  obtain ⟨buckets, hbuckets, hexact⟩ : ∃ buckets,
      orchestrateInfill (passiveGeometry F P) 0 staged.regions
          (blankViews P viewed staged.regions) = some (.ok buckets) ∧
        List.Forall₂ (fun region bucket =>
          emittedOrder (hasView (blankViews P viewed staged.regions)) staged.regions region =
            bucket.sparse) staged.regions buckets :=
    exists_buckets_of_blank (blank_blankViews viewed staged.regions)
  have hemitted : emittedAt viewed staged.regions region.source =
      emittedSparse staged.regions buckets region.source := by
    have hviewed : ∀ region ∈ staged.regions,
        viewed region.source = hasView (blankViews P viewed staged.regions) region.source :=
      fun region hregion => (hasView_blankViews hregion).symm
    rw [emittedAt_congr hviewed]
    exact rel_emittedSparse rfl (fun h h' => by rw [h, h']) hexact region.source
  have hrun : infillLinker (passiveGeometry F P) 0 (blankViews P viewed staged.regions) none
      staged = some (.ok (convertInfillOutput none staged.globalLayerIndex
        (emit staged.regions buckets))) := infillLinker_ok_iff.mpr ⟨buckets, hbuckets, rfl⟩
  have hkept := validateInfillOrderLocks_ok_iff.mp (hpasses _ _ _ none _ hrun) region hregion
  unfold RegionKept at hkept
  obtain ⟨buckets', hbuckets', hout⟩ := regionFor_run hrun
  cases hbuckets.symm.trans hbuckets'
  rcases hout region with ⟨hnone, _⟩ | ⟨new, hnew, hsparse⟩
  · rw [hnone] at hkept
    obtain ⟨path, hpath, htagged⟩ := run.tagged start le_rfl run.lt
    rw [hkept path (List.mem_of_getElem? hpath)] at htagged
    cases htagged
  · rw [hnew] at hkept
    have hreappears := hkept start stop run
    rw [hsparse, reappears_map_recolor] at hreappears
    rw [hemitted]
    exact hreappears

/-- The linker's output passes the host's lock check on every run exactly if every tagged
run stays together. -/
theorem linker_passes_lock_check_iff (staged : InfillIR F) :
    (∀ (geometry : LinkGeometry F P) (infillOverlap : F)
      (views : List (PerimeterRegionView F P)) (authored : Option (AuthoredColoringContext F))
      (out : InfillIR F),
      infillLinker geometry infillOverlap views authored staged = some (.ok out) →
        validateInfillOrderLocks staged out = some (.ok ())) ↔ RunsStayTogether staged := by
  refine ⟨together_of_passes, fun htogether geometry infillOverlap views authored out h => ?_⟩
  rw [validateInfillOrderLocks_ok_iff]
  exact fun region hregion => regionKept_of_together htogether h hregion

end Check

/-! ### A run that is torn apart -/

/-- Three locked paths in a row, of two roles. -/
def mixedInfill : InfillIR ℚ where
  regions := [{ sparseInfill := [stagedPath 1 (some 1),
    { stagedPath 2 (some 2) with role := .BridgeInfill }, stagedPath 3 (some 3)] }]

/-- The linker takes the paths of the first role together, and the host refuses its
output. -/
theorem mixed_run_is_rejected :
    ∃ out, infillLinker (passiveGeometry ℚ Unit) 0
        [{ source := ("", 0, []), config := .ok ⟨1, 1, 1, 1⟩ }] none mixedInfill =
          some (.ok out) ∧
      validateInfillOrderLocks mixedInfill out =
        some (.error "locked infill block 1 was dropped, reordered, or changed") := by
  refine ⟨_, rfl, ?_⟩
  decide +kernel

end PinchNPrint.Linker
