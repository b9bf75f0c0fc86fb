/-
What linking adds to the buckets.

Whatever becomes of the unlocked paths of a role (they are clipped, joined, turned around
and handed to another region), it stays untagged (`chainOrConnectInfill_untagged`), and it
only appears in the buckets of regions that have unlocked paths of the role
(`processBucketRole_onlyLinked`). So a sparse bucket ends up with its region's paths
regrouped by role, except for its gaps between locked paths (`processBucket_sparse`).
-/

import PinchNPrint.Lib.Gaps
import PinchNPrint.Linker.Conservation
import PinchNPrint.Linker.Orchestrate

namespace PinchNPrint.Linker

open Layer

variable {F P : Type}

/-! ### Linking tags nothing -/

/-- None of the paths is locked. -/
def Untagged (paths : List (ExtrusionPath3D F)) : Prop :=
  ∀ path ∈ paths, path.orderLock = none

theorem Untagged.append {paths more : List (ExtrusionPath3D F)} (h : Untagged paths)
    (h' : Untagged more) : Untagged (paths ++ more) := by
  intro path hpath
  rcases List.mem_append.mp hpath with hpath | hpath
  · exact h path hpath
  · exact h' path hpath

theorem Turned.orderLock {path turned : ExtrusionPath3D F} (h : Turned path turned) :
    turned.orderLock = path.orderLock := by
  rcases h with rfl | rfl <;> rfl

theorem Extended.orderLock {path extended : ExtrusionPath3D F} (h : Extended path extended) :
    extended.orderLock = path.orderLock := by
  obtain ⟨turned, lead, trail, hturned, rfl⟩ := h
  exact hturned.orderLock

/-- The paths in the slots are not locked. -/
def UntaggedSlots (active : List (Option (ExtrusionPath3D F))) : Prop :=
  ∀ path, some path ∈ active → path.orderLock = none

theorem UntaggedSlots.set {active : List (Option (ExtrusionPath3D F))} (h : UntaggedSlots active)
    {path : ExtrusionPath3D F} (hpath : path.orderLock = none) (i : Nat) :
    UntaggedSlots (active.set i (some path)) := by
  intro other hother
  rcases List.mem_or_eq_of_mem_set hother with hother | hother
  · exact h other hother
  · cases hother
    exact hpath

theorem UntaggedSlots.empty {active : List (Option (ExtrusionPath3D F))} (h : UntaggedSlots active)
    (i : Nat) : UntaggedSlots (active.set i none) := by
  intro other hother
  rcases List.mem_or_eq_of_mem_set hother with hother | hother
  · exact h other hother
  · cases hother

theorem UntaggedSlots.step {st st' : LinkState F} {candidate : Candidate F}
    (h : UntaggedSlots st.active) (hstep : LinkStep st candidate st') :
    UntaggedSlots st'.active := by
  cases hstep with
  | pass _ _ => exact h
  | hold _ _ hlocated _ hfirst hsecond =>
    have hfree := h _ (List.mem_of_getElem? hlocated.first)
    have hfree' := h _ (List.mem_of_getElem? hlocated.second)
    exact (h.set (hfirst.orderLock.trans hfree) _).set (hsecond.orderLock.trans hfree') _
  | @join _ _ _ _ first _ first' second' connector _ _ hlocated _ hfirst _ =>
    have hfree : first'.orderLock = none :=
      hfirst.orderLock.trans (h first (List.mem_of_getElem? hlocated.first))
    apply UntaggedSlots.set
    · exact (h.empty _).empty _
    · exact hfree

section Linking

variable [Field F] [LinearOrder F] {contour : Contour F} {rings : List (BoundaryRing F)}
  {anchor : AnchorParams F} {paths out : List (ExtrusionPath3D F)}

theorem linkPaths_untagged (hpaths : Untagged paths) {st : LinkState F}
    (h : linkPaths contour rings anchor paths = some st) : UntaggedSlots st.active := by
  have hrun : ∃ st, linkPaths contour rings anchor paths = some st ∧
      Linked paths (activePaths paths) st ∧ UntaggedSlots st.active := by
    apply List.foldlM_total (P := fun st =>
      Linked paths (activePaths paths) st ∧ UntaggedSlots st.active)
    · rintro candidate hmem st ⟨hlinked, huntagged⟩
      obtain ⟨st', hst', hstep, hlinked'⟩ := linked_candidate hmem hlinked
      exact ⟨st', hst', hlinked', huntagged.step hstep⟩
    · refine ⟨linked_start rfl rfl, ?_⟩
      intro path hpath
      obtain ⟨kept, hkept, hsome⟩ := List.mem_map.mp hpath
      cases hsome
      exact hpaths path (List.mem_of_mem_filter hkept)
  obtain ⟨st', hst', _, huntagged⟩ := hrun
  cases h.symm.trans hst'
  exact huntagged

theorem connectInfill_untagged (hpaths : Untagged paths)
    (h : connectInfill contour rings anchor paths = some out) : Untagged out := by
  unfold connectInfill at h
  split at h
  · cases h
    exact hpaths
  · obtain ⟨st, hst, rfl⟩ := Option.map_eq_some_iff.mp h
    intro path hpath
    obtain ⟨slot, hslot, hsome⟩ := List.mem_filterMap.mp hpath
    cases hsome
    exact linkPaths_untagged hpaths hst path hslot

theorem swapRemove_mem {α : Type} {l rest : List α} {index : Nat} {removed : α}
    (h : swapRemove l index = some (removed, rest)) :
    removed ∈ l ∧ ∀ a ∈ rest, a ∈ l := by
  simp only [swapRemove, Option.bind_eq_bind, Option.bind_eq_some_iff] at h
  obtain ⟨a, ha, last, hlast, heq⟩ := h
  cases heq
  refine ⟨List.mem_of_getElem? ha, fun b hb => ?_⟩
  rcases List.mem_or_eq_of_mem_set (List.mem_of_mem_dropLast hb) with hb | rfl
  · exact hb
  · exact List.mem_of_getLast? hlast

omit [Field F] [LinearOrder F] in
theorem reverseIf_orderLock (path : ExtrusionPath3D F) (b : Bool) :
    (if b then reversePoints path else path).orderLock = path.orderLock := by
  cases b <;> rfl

theorem orderFrom_untagged {ordered : List (ExtrusionPath3D F)} {fuel : Nat}
    (hordered : Untagged ordered) (hpaths : Untagged paths)
    (h : orderFrom ordered fuel paths = some out) : Untagged out := by
  induction fuel generalizing ordered paths with
  | zero =>
    cases paths with
    | nil =>
      cases h
      exact hordered
    | cons _ _ => cases h
  | succ fuel ih =>
    cases paths with
    | nil =>
      cases h
      exact hordered
    | cons path rest =>
      simp only [orderFrom, Option.bind_eq_bind, Option.bind_eq_some_iff] at h
      obtain ⟨_, _, ⟨index, reverse⟩, _, ⟨next, rest'⟩, hremoved, hlater⟩ := h
      obtain ⟨hnext, hrest⟩ := swapRemove_mem hremoved
      apply ih _ (fun a ha => hpaths a (hrest a ha)) hlater
      apply hordered.append
      intro a ha
      cases List.mem_singleton.mp ha
      rw [reverseIf_orderLock]
      exact hpaths next hnext

theorem orderPaths_untagged (hpaths : Untagged paths) (h : orderPaths paths = some out) :
    Untagged out := by
  unfold orderPaths at h
  split at h
  · cases h
    exact hpaths
  · simp only [Option.bind_eq_bind, Option.bind_eq_some_iff] at h
    obtain ⟨_, _, first, hfirst, head, hhead, h⟩ := h
    apply orderFrom_untagged _ _ h
    · intro path hpath
      cases List.mem_singleton.mp hpath
      have hfree := hpaths first (List.mem_of_getElem? hfirst)
      split <;> exact hfree
    · intro path hpath
      rcases List.mem_or_eq_of_mem_set (List.mem_of_mem_tail hpath) with hpath | rfl
      · exact hpaths path hpath
      · exact hpaths path (List.mem_of_mem_head? hhead)

theorem chainOrConnectInfill_untagged (hpaths : Untagged paths)
    (h : chainOrConnectInfill contour rings anchor paths = some out) : Untagged out := by
  obtain ⟨connected, hconnected, h⟩ := Option.bind_eq_some_iff.mp h
  apply orderPaths_untagged _ h
  split at hconnected
  · cases hconnected
    exact hpaths
  · exact connectInfill_untagged hpaths hconnected

variable {geometry : LinkGeometry F P} {tagged : List (Nat × ExtrusionPath3D F)}
  {boundary rawBoundary : List P} {spacing : F}

theorem linkPathsWithoutOffset_untagged (htagged : Untagged (tagged.map Prod.snd))
    (h : linkPathsWithoutOffset geometry tagged boundary spacing anchor = some out) :
    Untagged out := by
  apply chainOrConnectInfill_untagged _ h
  intro path hpath
  obtain ⟨entry, hentry, hclipped⟩ := List.mem_flatMap.mp hpath
  split at hclipped
  · cases hclipped
  · obtain ⟨points, _, rfl⟩ := List.mem_map.mp hclipped
    exact htagged entry.2 (List.mem_map_of_mem hentry)

theorem linkPathsAgainst_untagged (htagged : Untagged (tagged.map Prod.snd))
    (h : linkPathsAgainst geometry tagged boundary rawBoundary spacing anchor = some out) :
    Untagged out := by
  simp only [linkPathsAgainst, Option.bind_eq_bind, Option.bind_eq_some_iff] at h
  obtain ⟨linked, hlinked, h⟩ := h
  split at h
  · cases h
    exact linkPathsWithoutOffset_untagged htagged hlinked
  · exact linkPathsWithoutOffset_untagged htagged h

end Linking

/-! ### Buckets -/

section Buckets

variable {buckets buckets' : List (BucketPaths F)} {more : List (ExtrusionPath3D F)} {i j : Nat}
  {bucket : PathBucket}

/-- The sparse paths of a bucket. -/
def sparseAt (buckets : List (BucketPaths F)) (i : Nat) : List (ExtrusionPath3D F) :=
  (buckets[i]?.map (·.sparse)).getD []

theorem length_appendPaths : (appendPaths buckets j bucket more).length = buckets.length :=
  List.length_modify _ _ _

theorem sparseAt_appendPaths_of_ne (hne : j ≠ i) :
    sparseAt (appendPaths buckets j bucket more) i = sparseAt buckets i := by
  rw [sparseAt, appendPaths, List.getElem?_modify_ne _ _ hne]
  rfl

theorem sparseAt_appendPaths_sparse (hi : i < buckets.length) :
    sparseAt (appendPaths buckets i .Sparse more) i = sparseAt buckets i ++ more := by
  rw [sparseAt, appendPaths, List.getElem?_modify_eq, sparseAt, List.getElem?_eq_getElem hi]
  rfl

theorem sparseAt_appendPaths_solid :
    sparseAt (appendPaths buckets j .Solid more) i = sparseAt buckets i := by
  by_cases hne : j = i
  · subst hne
    rw [sparseAt, appendPaths, List.getElem?_modify_eq, sparseAt]
    cases buckets[j]? <;> rfl
  · exact sparseAt_appendPaths_of_ne hne

/-- Between two states of the buckets, only untagged sparse paths were added, and only to
the buckets that may take linked paths. -/
structure OnlyLinked (mayLink : Nat → Prop) (buckets buckets' : List (BucketPaths F)) : Prop where
  length : buckets'.length = buckets.length
  added : ∀ i, ∃ more, sparseAt buckets' i = sparseAt buckets i ++ more ∧ Untagged more ∧
    (¬ mayLink i → more = [])

variable {mayLink : Nat → Prop}

theorem OnlyLinked.refl (buckets : List (BucketPaths F)) : OnlyLinked mayLink buckets buckets where
  length := rfl
  added i := ⟨[], by simp, by simp [Untagged], fun _ => rfl⟩

theorem OnlyLinked.trans {buckets'' : List (BucketPaths F)}
    (h : OnlyLinked mayLink buckets buckets') (h' : OnlyLinked mayLink buckets' buckets'') :
    OnlyLinked mayLink buckets buckets'' where
  length := h'.length.trans h.length
  added i := by
    obtain ⟨more, hmore, huntagged, hclosed⟩ := h.added i
    obtain ⟨more', hmore', huntagged', hclosed'⟩ := h'.added i
    refine ⟨more ++ more', ?_, huntagged.append huntagged', fun hnot => ?_⟩
    · rw [hmore', hmore, List.append_assoc]
    · rw [hclosed hnot, hclosed' hnot, List.append_nil]

theorem OnlyLinked.append (h : OnlyLinked mayLink buckets buckets') (hmore : Untagged more)
    (hopen : bucket = .Sparse → more ≠ [] → mayLink j) :
    OnlyLinked mayLink buckets (appendPaths buckets' j bucket more) where
  length := length_appendPaths.trans h.length
  added i := by
    obtain ⟨before, hbefore, huntagged, hclosed⟩ := h.added i
    by_cases hne : j = i
    · subst hne
      cases bucket with
      | Solid => exact ⟨before, sparseAt_appendPaths_solid.trans hbefore, huntagged, hclosed⟩
      | Sparse =>
        by_cases hj : j < buckets'.length
        · refine ⟨before ++ more, ?_, huntagged.append hmore, fun hnot => ?_⟩
          · rw [sparseAt_appendPaths_sparse hj, hbefore, List.append_assoc]
          · have hnil : more = [] := by
              by_contra hne
              exact hnot (hopen rfl hne)
            rw [hclosed hnot, hnil, List.append_nil]
        · refine ⟨before, ?_, huntagged, hclosed⟩
          rw [appendPaths, List.modify_eq_self (by omega)]
          exact hbefore
    · exact ⟨before, (sparseAt_appendPaths_of_ne hne).trans hbefore, huntagged, hclosed⟩

theorem sparseAt_foldl_append {α : Type} {l : List α} {index : α → Nat}
    {pieces : α → List (ExtrusionPath3D F)} (hi : i < buckets.length) :
    sparseAt (l.foldl (fun buckets a => appendPaths buckets (index a) .Sparse (pieces a)) buckets) i =
      sparseAt buckets i ++ (l.filter fun a => index a = i).flatMap pieces := by
  induction l generalizing buckets with
  | nil => simp
  | cons a rest ih =>
    rw [List.foldl_cons, ih (by rw [length_appendPaths]; exact hi)]
    by_cases hindex : index a = i
    · rw [hindex, sparseAt_appendPaths_sparse hi, List.filter_cons_of_pos (by simpa using hindex),
        List.flatMap_cons, List.append_assoc]
    · rw [sparseAt_appendPaths_of_ne hindex, List.filter_cons_of_neg (by simpa using hindex)]

theorem length_foldl_append {α : Type} {l : List α} {index : α → Nat}
    {pieces : α → List (ExtrusionPath3D F)} :
    (l.foldl (fun buckets a => appendPaths buckets (index a) bucket (pieces a)) buckets).length =
      buckets.length := by
  induction l generalizing buckets with
  | nil => rfl
  | cons a rest ih => rw [List.foldl_cons, ih, length_appendPaths]

theorem sparseAt_foldl_solid {α : Type} {l : List α} {index : α → Nat}
    {pieces : α → List (ExtrusionPath3D F)} :
    sparseAt (l.foldl (fun buckets a => appendPaths buckets (index a) .Solid (pieces a)) buckets) i =
      sparseAt buckets i := by
  induction l generalizing buckets with
  | nil => rfl
  | cons a rest ih => rw [List.foldl_cons, ih, sparseAt_appendPaths_solid]

end Buckets

/-! ### Groups -/

section Groups

variable [Field F] [LinearOrder F] {records : List (RegionRecord F P)}
  {boundaries : List (Option (List P))} {active sharedSources group : List Nat}
  {bucket : PathBucket} {role : ExtrusionRole} {index : Nat}

section

omit [Field F]

theorem mem_addToGroup {key : WallGroupKey F} {member : Nat}
    {groups : List (WallGroupKey F × List Nat)} {entry : WallGroupKey F × List Nat}
    (hentry : entry ∈ addToGroup key index groups) (hmember : member ∈ entry.2) :
    member = index ∨ ∃ before ∈ groups, member ∈ before.2 := by
  induction groups with
  | nil =>
    cases List.mem_singleton.mp hentry
    exact .inl (List.mem_singleton.mp hmember)
  | cons first rest ih =>
    rw [addToGroup] at hentry
    split at hentry
    · rcases List.mem_cons.mp hentry with rfl | hentry
      · rcases List.mem_append.mp hmember with hmember | hmember
        · exact .inr ⟨first, List.mem_cons_self, hmember⟩
        · exact .inl (List.mem_singleton.mp hmember)
      · exact .inr ⟨entry, List.mem_cons_of_mem _ hentry, hmember⟩
    · rcases List.mem_cons.mp hentry with rfl | hentry
      · exact .inr ⟨entry, List.mem_cons_self, hmember⟩
      · rcases ih hentry with heq | ⟨before, hbefore, hmem⟩
        · exact .inl heq
        · exact .inr ⟨before, List.mem_cons_of_mem _ hbefore, hmem⟩

theorem mem_active_of_mem_keyedGroups {entry : WallGroupKey F × List Nat}
    (hentry : entry ∈ keyedGroups records active sharedSources) (hindex : index ∈ entry.2) :
    index ∈ active := by
  induction active using List.reverseRecOn generalizing entry with
  | nil => cases hentry
  | append_singleton before last ih =>
    rw [keyedGroups, List.foldl_concat] at hentry
    split at hentry
    · exact List.mem_append_left _ (ih hentry hindex)
    · rcases mem_addToGroup hentry hindex with rfl | ⟨older, holder, hmem⟩
      · exact List.mem_append_right _ List.mem_cons_self
      · exact List.mem_append_left _ (ih holder hmem)

theorem mem_active_of_mem_wallGroups (hgroup : group ∈ wallGroups records active sharedSources)
    (hindex : index ∈ group) : index ∈ active := by
  obtain ⟨entry, hentry, rfl⟩ := List.mem_map.mp hgroup
  exact mem_active_of_mem_keyedGroups hentry hindex

end

/-- The region at the index has paths of the role. -/
def Selects (records : List (RegionRecord F P)) (bucket : PathBucket) (role : ExtrusionRole)
    (index : Nat) : Prop :=
  ∃ record, records[index]? = some record ∧ record.selectedPaths bucket role ≠ []

omit [Field F] [LinearOrder F] in
theorem selects_of_mem_active (h : index ∈ activeRegions records boundaries bucket role) :
    Selects records bucket role index := by
  obtain ⟨entry, hentry, rfl⟩ := List.mem_map.mp h
  obtain ⟨hzip, hactive⟩ := List.mem_filter.mp hentry
  obtain ⟨hrecord, _⟩ := List.getElem?_zip_eq_some.mp (List.mk_mem_zipIdx_iff_getElem?.mp hzip)
  simp only [Bool.and_eq_true, Bool.not_eq_true', List.isEmpty_eq_false_iff] at hactive
  exact ⟨entry.1.1, hrecord, hactive.1⟩

/-- The buckets that linking may add sparse paths to: those of the regions that have paths
of the role. -/
def MayLink (records : List (RegionRecord F P)) (bucket : PathBucket) (role : ExtrusionRole)
    (i : Nat) : Prop :=
  bucket = .Sparse ∧
    ∃ record ∈ records, record.priorIndex = i ∧ record.selectedPaths .Sparse role ≠ []

omit [Field F] [LinearOrder F] in
theorem Selects.mayLink (h : Selects records bucket role index) {record : RegionRecord F P}
    (hrecord : records[index]? = some record) (hbucket : bucket = .Sparse) :
    MayLink records bucket role record.priorIndex := by
  obtain ⟨record', hrecord', hselects⟩ := h
  cases hrecord.symm.trans hrecord'
  exact ⟨hbucket, record, List.mem_of_getElem? hrecord, rfl, hbucket ▸ hselects⟩

variable {geometry : LinkGeometry F P} {infillOverlap : F} {buckets out : List (BucketPaths F)}

omit [Field F] [LinearOrder F] in
theorem taggedPaths_untagged
    (hrecords : ∀ record ∈ records, Untagged (record.selectedPaths bucket role)) :
    Untagged ((taggedPaths records bucket role group).map Prod.snd) := by
  intro path hpath
  obtain ⟨entry, hentry, rfl⟩ := List.mem_map.mp hpath
  obtain ⟨index, _, hselected⟩ := List.mem_flatMap.mp hentry
  split at hselected
  · cases hselected
  · rename_i record hrecord
    obtain ⟨selected, hmem, rfl⟩ := List.mem_map.mp hselected
    exact hrecords record (List.mem_of_getElem? hrecord) selected hmem

theorem linkUnionGroup_onlyLinked
    (hrecords : ∀ record ∈ records, Untagged (record.selectedPaths bucket role))
    (hgroup : ∀ index ∈ group, Selects records bucket role index)
    (h : linkUnionGroup geometry infillOverlap records boundaries group bucket role buckets =
      some out) : OnlyLinked (MayLink records bucket role) buckets out := by
  simp only [linkUnionGroup, Option.bind_eq_bind, Option.bind_eq_some_iff] at h
  obtain ⟨_, _, linked, hlinked, hout⟩ := h
  have huntagged := linkPathsAgainst_untagged (taggedPaths_untagged hrecords) hlinked
  refine List.foldlM_keeps ?_ (OnlyLinked.refl buckets) hout
  intro path hpath buckets' after hstep hkept
  simp only [Option.bind_eq_some_iff] at hstep
  obtain ⟨owner, howner, record, hrecord, hafter⟩ := hstep
  cases hafter
  apply hkept.append
  · intro added hadded
    cases List.mem_singleton.mp hadded
    exact huntagged path hpath
  · exact fun hbucket _ => (hgroup owner (mem_of_minBy howner)).mayLink hrecord hbucket

theorem linkRegionGroup_onlyLinked
    (hrecords : ∀ record ∈ records, Untagged (record.selectedPaths bucket role))
    (hgroup : ∀ index ∈ group, Selects records bucket role index)
    (h : linkRegionGroup geometry infillOverlap records boundaries group bucket role buckets =
      some out) : OnlyLinked (MayLink records bucket role) buckets out := by
  refine List.foldlM_keeps ?_ (OnlyLinked.refl buckets) h
  intro index hindex buckets' after hstep hkept
  simp only [Option.bind_eq_bind, Option.bind_eq_some_iff] at hstep
  obtain ⟨record, hrecord, linked, hlinked, hafter⟩ := hstep
  cases hafter
  apply hkept.append
  · unfold linkRegion at hlinked
    split at hlinked
    · exact linkPathsAgainst_untagged (taggedPaths_untagged hrecords) hlinked
    · exact linkPathsWithoutOffset_untagged (taggedPaths_untagged hrecords) hlinked
  · exact fun hbucket _ => (hgroup index hindex).mayLink hrecord hbucket

end Groups

/-! ### One role -/

section Role

variable [Field F] [LinearOrder F] {records : List (RegionRecord F P)}
  {boundaries : List (Option (List P))} {bucket : PathBucket} {role : ExtrusionRole}
  {geometry : LinkGeometry F P} {infillOverlap : F} {buckets out : List (BucketPaths F)}

omit [Field F] [LinearOrder F]

/-- The locked and the unlocked paths of a role. -/
def lockedOf (role : ExtrusionRole) (paths : List (ExtrusionPath3D F)) :
    List (ExtrusionPath3D F) :=
  paths.filter fun path => path.role = role && path.orderLock.isSome

def unlockedOf (role : ExtrusionRole) (paths : List (ExtrusionPath3D F)) :
    List (ExtrusionPath3D F) :=
  paths.filter fun path => path.role = role && path.orderLock.isNone

theorem selectedPaths_locked (record : RegionRecord F P) :
    (record.selectedPaths bucket role).filter (fun path => path.orderLock.isSome) =
      lockedOf role (record.allPaths bucket) := by
  rw [RegionRecord.selectedPaths, List.filter_filter, lockedOf]
  congr 1
  funext path
  exact Bool.and_comm _ _

theorem selectedPaths_unlocked (record : RegionRecord F P) :
    record.unlocked.selectedPaths bucket role = unlockedOf role (record.allPaths bucket) := by
  cases bucket <;> exact List.filter_filter

theorem untagged_unlockedOf (role : ExtrusionRole) (paths : List (ExtrusionPath3D F)) :
    Untagged (unlockedOf role paths) := by
  intro path hpath
  have hfree := (List.mem_filter.mp hpath).2
  simp only [Bool.and_eq_true, Option.isNone_iff_eq_none] at hfree
  exact hfree.2

theorem untagged_selectedPaths :
    ∀ record ∈ records.map (·.unlocked), Untagged (record.selectedPaths bucket role) := by
  intro record hrecord
  obtain ⟨locked, _, rfl⟩ := List.mem_map.mp hrecord
  rw [selectedPaths_unlocked]
  exact untagged_unlockedOf role _

theorem passUnbounded_onlyLinked
    (hrecords : ∀ record ∈ records, Untagged (record.selectedPaths bucket role)) :
    OnlyLinked (MayLink records bucket role) buckets
      (passUnbounded records boundaries bucket role buckets) := by
  unfold passUnbounded
  refine List.foldlRecOn (motive := OnlyLinked (MayLink records bucket role) buckets) _ _
    (OnlyLinked.refl buckets) ?_
  intro buckets' hkept entry hentry
  have hrecord : entry.1 ∈ records := (List.of_mem_zip hentry).1
  dsimp only
  split
  · apply hkept.append (hrecords entry.1 hrecord)
    rintro rfl hne
    exact ⟨rfl, entry.1, hrecord, rfl, hne⟩
  · exact hkept

/-- After the locked paths of a role, only untagged paths are added. -/
theorem processBucketRole_onlyLinked [Field F] [LinearOrder F]
    (h : processBucketRole geometry infillOverlap records bucket role buckets = some out) :
    OnlyLinked (MayLink (records.map (·.unlocked)) bucket role)
      (appendLocked records bucket role buckets) out := by
  have hrecords : ∀ record ∈ records.map (·.unlocked),
      Untagged (record.selectedPaths bucket role) := untagged_selectedPaths
  refine List.foldlM_keeps ?_ (passUnbounded_onlyLinked hrecords) h
  intro group hgroup buckets' after hstep hkept
  have hselects : ∀ index ∈ group,
      Selects (records.map (·.unlocked)) bucket role index := fun index hindex =>
    selects_of_mem_active (mem_active_of_mem_wallGroups hgroup hindex)
  split at hstep
  · exact hkept.trans (linkUnionGroup_onlyLinked hrecords hselects hstep)
  · exact hkept.trans (linkRegionGroup_onlyLinked hrecords hselects hstep)

/-- The sparse paths of the records of a bucket. -/
def pathsAt (records : List (RegionRecord F P)) (i : Nat) : List (ExtrusionPath3D F) :=
  (records.filter fun record => record.priorIndex = i).flatMap (·.sparsePaths)

/-- The paths role by role, the locked paths of a role before its unlocked ones. -/
def regrouped (roles : List ExtrusionRole) (paths : List (ExtrusionPath3D F)) :
    List (ExtrusionPath3D F) :=
  roles.flatMap fun role => lockedOf role paths ++ unlockedOf role paths

theorem length_appendLocked : (appendLocked records bucket role buckets).length = buckets.length :=
  length_foldl_append

theorem sparseAt_appendLocked {i : Nat} (hi : i < buckets.length) :
    sparseAt (appendLocked records .Sparse role buckets) i =
      sparseAt buckets i ++ lockedOf role (pathsAt records i) := by
  have hpieces : (fun record : RegionRecord F P =>
      (record.selectedPaths .Sparse role).filter fun path => path.orderLock.isSome) =
        fun record => lockedOf role record.sparsePaths := by
    funext record
    exact selectedPaths_locked record
  rw [appendLocked, sparseAt_foldl_append hi, hpieces, pathsAt, lockedOf, List.filter_flatMap]
  rfl

/-- Whether a path is locked. -/
def locked (path : ExtrusionPath3D F) : Bool :=
  path.orderLock.isSome

theorem processBucketRole_sparse [Field F] [LinearOrder F] {i : Nat} (hi : i < buckets.length)
    (h : processBucketRole geometry infillOverlap records .Sparse role buckets = some out) :
    ∃ added, sparseAt out i = sparseAt buckets i ++ added ∧
      Regapped locked (lockedOf role (pathsAt records i) ++ unlockedOf role (pathsAt records i))
        added := by
  obtain ⟨extra, hextra, huntagged, hclosed⟩ := (processBucketRole_onlyLinked h).added i
  refine ⟨lockedOf role (pathsAt records i) ++ extra, ?_, ?_⟩
  · rw [hextra, sparseAt_appendLocked hi, List.append_assoc]
  · apply Regapped.append
    · apply Regapped.of_forall
      intro path hpath
      have hlocked := (List.mem_filter.mp hpath).2
      simp only [Bool.and_eq_true] at hlocked
      exact hlocked.2
    · apply Regapped.of_gap
      · intro path hpath
        rw [locked, untagged_unlockedOf role _ path hpath]
        rfl
      · intro path hpath
        rw [locked, huntagged path hpath]
        rfl
      · intro hnone
        apply hclosed
        rintro ⟨_, record, hrecord, hindex, hselected⟩
        obtain ⟨original, horiginal, rfl⟩ := List.mem_map.mp hrecord
        rw [selectedPaths_unlocked] at hselected
        apply hselected
        apply List.eq_nil_iff_forall_not_mem.mpr
        intro path hpath
        obtain ⟨hmem, hrole⟩ := List.mem_filter.mp hpath
        have hmine : original ∈ records.filter fun record => record.priorIndex = i :=
          List.mem_filter.mpr ⟨horiginal, decide_eq_true hindex⟩
        have hat : path ∈ pathsAt records i := List.mem_flatMap.mpr ⟨original, hmine, hmem⟩
        have hfound : path ∈ unlockedOf role (pathsAt records i) :=
          List.mem_filter.mpr ⟨hat, hrole⟩
        rw [hnone] at hfound
        cases hfound

theorem length_processBucketRole [Field F] [LinearOrder F]
    (h : processBucketRole geometry infillOverlap records bucket role buckets = some out) :
    out.length = buckets.length :=
  (processBucketRole_onlyLinked h).length.trans length_appendLocked

/-- Linking the solid buckets leaves the sparse ones alone. -/
theorem processBucketRole_solid [Field F] [LinearOrder F] {i : Nat}
    (h : processBucketRole geometry infillOverlap records .Solid role buckets = some out) :
    sparseAt out i = sparseAt buckets i := by
  obtain ⟨extra, hextra, _, hclosed⟩ := (processBucketRole_onlyLinked h).added i
  have hnil : extra = [] := hclosed fun hlink => nomatch hlink.1
  rw [hextra, hnil, List.append_nil]
  exact sparseAt_foldl_solid

theorem processBucket_sparse [Field F] [LinearOrder F] {i : Nat} (hi : i < buckets.length)
    (h : processBucket geometry infillOverlap records .Sparse buckets = some out) :
    ∃ added, sparseAt out i = sparseAt buckets i ++ added ∧
      Regapped locked (regrouped (rolesForBucket records .Sparse) (pathsAt records i)) added := by
  unfold processBucket at h
  generalize rolesForBucket records .Sparse = roles at h
  induction roles generalizing buckets with
  | nil =>
    cases h
    exact ⟨[], by simp, .nil⟩
  | cons role rest ih =>
    rw [List.foldlM_cons] at h
    obtain ⟨middle, hmiddle, hlater⟩ := Option.bind_eq_some_iff.mp h
    obtain ⟨added, hadded, hregapped⟩ := processBucketRole_sparse hi hmiddle
    obtain ⟨added', hadded', hregapped'⟩ :=
      ih (by rw [length_processBucketRole hmiddle]; exact hi) hlater
    refine ⟨added ++ added', ?_, ?_⟩
    · rw [hadded', hadded, List.append_assoc]
    · rw [regrouped, List.flatMap_cons]
      exact hregapped.append hregapped'

theorem length_processBucket [Field F] [LinearOrder F]
    (h : processBucket geometry infillOverlap records bucket buckets = some out) :
    out.length = buckets.length :=
  List.foldlM_keeps (P := fun after => after.length = buckets.length)
    (fun _ _ _ _ hstep hlength => (length_processBucketRole hstep).trans hlength) rfl h

theorem processBucket_solid [Field F] [LinearOrder F] {i : Nat}
    (h : processBucket geometry infillOverlap records .Solid buckets = some out) :
    sparseAt out i = sparseAt buckets i :=
  List.foldlM_keeps (P := fun after => sparseAt after i = sparseAt buckets i)
    (fun _ _ _ _ hstep hsame => (processBucketRole_solid hstep).trans hsame) rfl h

/-! ### Regions without a boundary -/

section Unbounded

variable [Field F] [LinearOrder F]
  (hnone : ∀ record ∈ records, record.boundaries.forRole geometry role = none)

include hnone

section

omit [Field F] [LinearOrder F]

theorem roleBoundaries_of_none {boundary : Option (List P)}
    (h : boundary ∈ roleBoundaries geometry records role) : boundary = none := by
  obtain ⟨record, hrecord, rfl⟩ := List.mem_map.mp h
  rw [hnone record hrecord]
  rfl

theorem activeRegions_of_none {others : List (RegionRecord F P)} :
    activeRegions others (roleBoundaries geometry records role) bucket role = [] := by
  rw [activeRegions, List.map_eq_nil_iff, List.filter_eq_nil_iff]
  intro entry hentry
  have hmem : entry.1.2 ∈ roleBoundaries geometry records role :=
    (List.of_mem_zip (List.fst_mem_of_mem_zipIdx hentry)).2
  simp [roleBoundaries_of_none hnone hmem]

end

/-- Without boundaries nothing is linked: the role's paths are passed through. -/
theorem processBucketRole_of_none :
    processBucketRole geometry infillOverlap records bucket role buckets =
      some ((records.map (·.unlocked)).foldl (fun buckets record =>
        appendPaths buckets record.priorIndex bucket (record.selectedPaths bucket role))
          (appendLocked records bucket role buckets)) := by
  have hpass : passUnbounded (records.map (·.unlocked)) (roleBoundaries geometry records role)
      bucket role (appendLocked records bucket role buckets) =
        (records.map (·.unlocked)).foldl (fun buckets record =>
          appendPaths buckets record.priorIndex bucket (record.selectedPaths bucket role))
            (appendLocked records bucket role buckets) := by
    have hfst : ((records.map (·.unlocked)).zip (roleBoundaries geometry records role)).map
        Prod.fst = records.map (·.unlocked) := by
      apply List.map_fst_zip
      simp [roleBoundaries]
    conv_rhs => rw [← hfst, List.foldl_map]
    apply List.foldl_ext
    intro buckets entry hentry
    have hbound := roleBoundaries_of_none hnone (List.of_mem_zip hentry).2
    simp [hbound]
  simp only [processBucketRole, hpass, activeRegions_of_none hnone]
  rfl

end Unbounded

theorem sparseAt_foldl_unlocked {i : Nat} (hi : i < buckets.length) :
    sparseAt ((records.map (·.unlocked)).foldl (fun buckets record =>
      appendPaths buckets record.priorIndex .Sparse (record.selectedPaths .Sparse role)) buckets) i =
        sparseAt buckets i ++ unlockedOf role (pathsAt records i) := by
  have hstep : (fun (buckets : List (BucketPaths F)) (record : RegionRecord F P) =>
      appendPaths buckets record.unlocked.priorIndex .Sparse
        (record.unlocked.selectedPaths .Sparse role)) =
      fun buckets record => appendPaths buckets record.priorIndex .Sparse
        (unlockedOf role record.sparsePaths) := by
    funext buckets record
    rw [selectedPaths_unlocked]
    rfl
  rw [List.foldl_map, hstep, sparseAt_foldl_append hi, pathsAt, unlockedOf, List.filter_flatMap]
  rfl

theorem exists_processBucket_of_none [Field F] [LinearOrder F]
    (hnone : ∀ role, ∀ record ∈ records, record.boundaries.forRole geometry role = none) :
    ∃ out, processBucket geometry infillOverlap records bucket buckets = some out := by
  have hrun : ∃ out, processBucket geometry infillOverlap records bucket buckets = some out ∧
      True := by
    apply List.foldlM_total (P := fun _ => True)
    · exact fun role _ buckets _ => ⟨_, processBucketRole_of_none (hnone role), trivial⟩
    · trivial
  obtain ⟨out, hout, _⟩ := hrun
  exact ⟨out, hout⟩

/-- Without boundaries every sparse bucket gets its region's paths, regrouped. -/
theorem processBucket_sparse_of_none [Field F] [LinearOrder F] {i : Nat}
    (hnone : ∀ role, ∀ record ∈ records, record.boundaries.forRole geometry role = none)
    (hi : i < buckets.length)
    (h : processBucket geometry infillOverlap records .Sparse buckets = some out) :
    sparseAt out i = sparseAt buckets i ++
      regrouped (rolesForBucket records .Sparse) (pathsAt records i) := by
  unfold processBucket at h
  generalize rolesForBucket records .Sparse = roles at h
  induction roles generalizing buckets with
  | nil =>
    cases h
    simp [regrouped]
  | cons role rest ih =>
    rw [List.foldlM_cons, processBucketRole_of_none (hnone role)] at h
    have hlength : i < (appendLocked records .Sparse role buckets).length := by
      rw [length_appendLocked]
      exact hi
    rw [ih (by rw [length_foldl_append]; exact hlength) h, sparseAt_foldl_unlocked hlength,
      sparseAt_appendLocked hi]
    simp [regrouped]

end Role

end PinchNPrint.Linker
