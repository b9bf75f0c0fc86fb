/-
The lock check of an infill replacement
(`slicer-runtime`: `layer_executor.rs`, `validate_infill_order_locks`).

`Layer::InfillPostProcess` replaces the staged infill as a whole. The host looks for
every maximal run of tagged sparse paths of a staged region in the replacement's
region of the same source, by the points of the paths. The search window is cut to
the replacement with a saturating subtraction, so a replacement shorter than the run
still leaves one window, and that window is read past its end.

`infill_lock_check_exact_iff` says for which inputs the check is total and exact:
those where no run that is reached overruns the replacement.
-/

import PinchNPrint.Layer.Proposals
import PinchNPrint.Lib.Checked

namespace PinchNPrint.Layer

variable {F : Type} [DecidableEq F]

/-! ### The check -/

/-- The run of tagged paths from `start` on. -/
def taggedFrom (paths : List (ExtrusionPath3D F)) (start : Nat) : List (ExtrusionPath3D F) :=
  (paths.drop start).takeWhile (·.orderLock.isSome)

/-- One round of the search: the window of the replacement at `i`. The two tests index
the replacement, and both are made. -/
def windowMatches (old new : List (ExtrusionPath3D F)) (start blockLen i : Nat) : Option Bool := do
  let pointsMatch ← (List.range blockLen).allM fun j => do
    let newPath ← new[i + j]?
    let oldPath ← old[start + j]?
    return decide (newPath.points = oldPath.points)
  let allTagged ← (List.range blockLen).allM fun j => do
    let newPath ← new[i + j]?
    return newPath.orderLock.isSome
  return pointsMatch && allTagged

/-- The body of the loop over the old paths: an index that starts no run is skipped.
`new.length - blockLen` saturates at zero. -/
def validateRunAt (old new : List (ExtrusionPath3D F)) (start : Nat) : Checked String :=
  match old[start]? with
  | none => none
  | some path =>
    match path.orderLock with
    | none => some (.ok ())
    | some tag =>
      if 0 < start ∧ (old[start - 1]?.bind (·.orderLock)).isSome then some (.ok ())
      else
        let blockLen := (taggedFrom old start).length
        match (List.range (new.length - blockLen + 1)).anyM
            (windowMatches old new start blockLen) with
        | none => none
        | some true => some (.ok ())
        | some false =>
          some (.error s!"locked infill block {tag} was dropped, reordered, or changed")

/-- The replacement's region of the same source. -/
def InfillIR.regionFor (replacement : InfillIR F)
    (region : InfillRegion F (ExtrusionPath3D F)) :
    Option (InfillRegion F (ExtrusionPath3D F)) :=
  replacement.regions.find? fun new => decide (new.source = region.source)

/-- The body of the loop over the staged regions. -/
def validateInfillRegion (replacement : InfillIR F)
    (region : InfillRegion F (ExtrusionPath3D F)) : Checked String :=
  match replacement.regionFor region with
  | none =>
    if region.sparseInfill.any (·.orderLock.isSome) then
      some (.error "locked infill region was dropped")
    else some (.ok ())
  | some new =>
    Checked.all (validateRunAt region.sparseInfill new.sparseInfill)
      (List.range region.sparseInfill.length)

/-- `validate_infill_order_locks`; `none` is an index out of bounds. -/
def validateInfillOrderLocks (previous replacement : InfillIR F) : Checked String :=
  Checked.all (validateInfillRegion replacement) previous.regions

/-! ### What it is to check -/

/-- A maximal run of tagged paths. -/
structure TaggedRun (paths : List (ExtrusionPath3D F)) (start stop : Nat) : Prop where
  lt : start < stop
  tagged : ∀ i, start ≤ i → i < stop → ∃ path, paths[i]? = some path ∧ path.orderLock.isSome
  first : ∀ i path, i + 1 = start → paths[i]? = some path → path.orderLock = none
  last : ∀ path, paths[stop]? = some path → path.orderLock = none

/-- What a replacement may make of a locked path: its points stay, and it is tagged. -/
def Kept (old new : ExtrusionPath3D F) : Prop :=
  new.points = old.points ∧ new.orderLock.isSome

/-- The paths of a block occur in a row, all kept. -/
def Reappears (block new : List (ExtrusionPath3D F)) : Prop :=
  ∃ window, window <:+: new ∧ List.Forall₂ Kept block window

/-- The paths from `start` up to `stop`. -/
def slice (paths : List (ExtrusionPath3D F)) (start stop : Nat) : List (ExtrusionPath3D F) :=
  (paths.drop start).take (stop - start)

/-- Every locked run of a region reappears. -/
def RegionKept (replacement : InfillIR F) (region : InfillRegion F (ExtrusionPath3D F)) : Prop :=
  match replacement.regionFor region with
  | none => ∀ path ∈ region.sparseInfill, path.orderLock = none
  | some new => ∀ start stop, TaggedRun region.sparseInfill start stop →
      Reappears (slice region.sparseInfill start stop) new.sparseInfill

/-- The search for a block reads past the end of the replacement: it is shorter than
the block, and either all its points agree or all its paths are tagged. -/
def Overruns (block new : List (ExtrusionPath3D F)) : Prop :=
  new.length < block.length ∧
    ((∀ (j : Nat) (newPath oldPath : ExtrusionPath3D F), new[j]? = some newPath →
        block[j]? = some oldPath → newPath.points = oldPath.points) ∨
      ∀ path ∈ new, path.orderLock.isSome)

/-! ### Runs -/

section Runs

variable {paths : List (ExtrusionPath3D F)} {start stop : Nat}

section

omit [DecidableEq F]

theorem getElem?_taggedFrom {j : Nat} (hj : j < (taggedFrom paths start).length) :
    ∃ path, (taggedFrom paths start)[j]? = some path ∧ paths[start + j]? = some path ∧
      path.orderLock.isSome := by
  obtain ⟨rest, hrest⟩ := List.takeWhile_prefix (l := paths.drop start)
    fun path => path.orderLock.isSome
  have hat : (taggedFrom paths start)[j]? = some (taggedFrom paths start)[j] :=
    List.getElem?_eq_getElem hj
  refine ⟨_, hat, ?_, ?_⟩
  · rw [← List.getElem?_drop, ← hrest]
    exact (List.getElem?_append_left hj).trans hat
  · have hmem : (taggedFrom paths start)[j] ∈ (paths.drop start).takeWhile
        (fun path => path.orderLock.isSome) := List.getElem_mem hj
    exact List.mem_takeWhile_imp (p := fun path : ExtrusionPath3D F => path.orderLock.isSome) hmem

theorem orderLock_after_taggedFrom {path : ExtrusionPath3D F}
    (h : paths[start + (taggedFrom paths start).length]? = some path) : path.orderLock = none := by
  by_contra hlock
  have hlonger : (taggedFrom paths start).length + 1 ≤ (taggedFrom paths start).length := by
    refine List.le_length_takeWhile fun j hj => ?_
    rw [List.getElem?_drop]
    rcases Nat.lt_succ_iff_lt_or_eq.mp hj with hj | rfl
    · obtain ⟨path, _, hpath, htagged⟩ := getElem?_taggedFrom hj
      exact ⟨path, hpath, htagged⟩
    · exact ⟨path, h, Option.isSome_iff_ne_none.mpr hlock⟩
  omega

theorem TaggedRun.stop_eq (run : TaggedRun paths start stop) :
    stop = start + (taggedFrom paths start).length := by
  have hlt := run.lt
  have hle : stop - start ≤ (taggedFrom paths start).length := by
    refine List.le_length_takeWhile fun j hj => ?_
    rw [List.getElem?_drop]
    exact run.tagged (start + j) (by omega) (by omega)
  by_contra hne
  obtain ⟨path, _, hpath, htagged⟩ :=
    getElem?_taggedFrom (show stop - start < (taggedFrom paths start).length by omega)
  rw [Nat.add_sub_cancel' (le_of_lt hlt)] at hpath
  rw [run.last path hpath] at htagged
  cases htagged

theorem TaggedRun.slice_eq (run : TaggedRun paths start stop) :
    slice paths start stop = taggedFrom paths start := by
  have hlength : stop - start = (taggedFrom paths start).length := by
    have := run.stop_eq
    omega
  rw [slice, hlength]
  exact (List.prefix_iff_eq_take.mp (List.takeWhile_prefix _)).symm

theorem taggedRun_taggedFrom {path : ExtrusionPath3D F} (hpath : paths[start]? = some path)
    (htagged : path.orderLock.isSome)
    (hfirst : ¬ (0 < start ∧ (paths[start - 1]?.bind (·.orderLock)).isSome)) :
    TaggedRun paths start (start + (taggedFrom paths start).length) where
  lt := by
    have hpos : 1 ≤ (taggedFrom paths start).length := by
      refine List.le_length_takeWhile fun j hj => ?_
      obtain rfl : j = 0 := by omega
      rw [List.getElem?_drop]
      exact ⟨path, hpath, htagged⟩
    omega
  tagged i hi hstop := by
    obtain ⟨path, _, hpath, htagged⟩ :=
      getElem?_taggedFrom (show i - start < (taggedFrom paths start).length by omega)
    rw [Nat.add_sub_cancel' hi] at hpath
    exact ⟨path, hpath, htagged⟩
  first i previous hi hprevious := by
    subst hi
    by_contra hlock
    refine hfirst ⟨Nat.succ_pos i, ?_⟩
    rw [Nat.add_sub_cancel, hprevious]
    exact Option.isSome_iff_ne_none.mpr hlock
  last path hpath := orderLock_after_taggedFrom hpath

end

end Runs

/-! ### The search -/

section Search

variable {old new : List (ExtrusionPath3D F)} {start : Nat}

/-- The two tests on a window inside the replacement. -/
def windowKept (old new : List (ExtrusionPath3D F)) (start blockLen i : Nat) : Bool :=
  (List.range blockLen).all (fun j =>
      decide (new[i + j]?.map (·.points) = old[start + j]?.map (·.points))) &&
    (List.range blockLen).all (fun j => (new[i + j]?.bind (·.orderLock)).isSome)

theorem pointsTest_eq {i j : Nat} (hj : j < (taggedFrom old start).length) (hnew : i + j < new.length) :
    (do let newPath ← new[i + j]?
        let oldPath ← old[start + j]?
        return decide (newPath.points = oldPath.points) : Option Bool) =
      some (decide (new[i + j]?.map (·.points) = old[start + j]?.map (·.points))) := by
  obtain ⟨oldPath, _, hold, _⟩ := getElem?_taggedFrom hj
  rw [hold, List.getElem?_eq_getElem hnew]
  simp

omit [DecidableEq F] in
theorem tagTest_eq {i j : Nat} (hnew : i + j < new.length) :
    (do let newPath ← new[i + j]?
        return newPath.orderLock.isSome : Option Bool) =
      some (new[i + j]?.bind (·.orderLock)).isSome := by
  rw [List.getElem?_eq_getElem hnew]
  simp

theorem windowMatches_of_fits {i : Nat}
    (hfits : i + (taggedFrom old start).length ≤ new.length) :
    windowMatches old new start (taggedFrom old start).length i =
      some (windowKept old new start (taggedFrom old start).length i) := by
  have hbound : ∀ j ∈ List.range (taggedFrom old start).length,
      j < (taggedFrom old start).length ∧ i + j < new.length := by
    intro j hj
    have := List.mem_range.mp hj
    omega
  rw [windowMatches,
    List.allM_of_some fun j hj => pointsTest_eq (hbound j hj).1 (hbound j hj).2,
    List.allM_of_some fun j hj => tagTest_eq (hbound j hj).2]
  rfl

theorem windowKept_iff {i : Nat} (hfits : i + (taggedFrom old start).length ≤ new.length) :
    windowKept old new start (taggedFrom old start).length i = true ↔
      List.Forall₂ Kept (taggedFrom old start)
        (slice new i (i + (taggedFrom old start).length)) := by
  have hlength : (slice new i (i + (taggedFrom old start).length)).length =
      (taggedFrom old start).length := by
    simp only [slice, List.length_take, List.length_drop]
    omega
  have hslice : ∀ j < (taggedFrom old start).length,
      (slice new i (i + (taggedFrom old start).length))[j]? = new[i + j]? := by
    intro j hj
    rw [slice, Nat.add_sub_cancel_left, List.getElem?_take_of_lt hj, List.getElem?_drop]
  simp only [windowKept, Bool.and_eq_true, List.all_eq_true, List.mem_range, decide_eq_true_eq]
  constructor
  · rintro ⟨hpoints, htags⟩
    refine List.forall₂_of_getElem? hlength.symm fun j oldPath newPath hold hnew => ?_
    have hj := (List.getElem?_eq_some_iff.mp hold).1
    obtain ⟨oldPath', hold', hat, _⟩ := getElem?_taggedFrom hj
    rw [hold] at hold'
    cases hold'
    rw [hslice j hj] at hnew
    have hpoint := hpoints j hj
    have htag := htags j hj
    rw [hnew, hat] at hpoint
    rw [hnew] at htag
    exact ⟨by simpa using hpoint, by simpa using htag⟩
  · intro hkept
    have hpair : ∀ j < (taggedFrom old start).length, ∃ oldPath newPath : ExtrusionPath3D F,
        old[start + j]? = some oldPath ∧ new[i + j]? = some newPath ∧ Kept oldPath newPath := by
      intro j hj
      obtain ⟨oldPath, hold, hat, _⟩ := getElem?_taggedFrom hj
      obtain ⟨newPath, hnew, hkept⟩ := hkept.getElem?_some hold
      rw [hslice j hj] at hnew
      exact ⟨oldPath, newPath, hat, hnew, hkept⟩
    constructor
    · intro j hj
      obtain ⟨oldPath, newPath, hold, hnew, hpoints, _⟩ := hpair j hj
      simp [hold, hnew, hpoints]
    · intro j hj
      obtain ⟨oldPath, newPath, _, hnew, _, htag⟩ := hpair j hj
      simpa [hnew] using htag

/-- With room for the block, the search finds it exactly when it reappears. -/
theorem search_of_fits (hfits : (taggedFrom old start).length ≤ new.length) :
    ∃ found, (List.range (new.length - (taggedFrom old start).length + 1)).anyM
        (windowMatches old new start (taggedFrom old start).length) = some found ∧
      (found = true ↔ Reappears (taggedFrom old start) new) := by
  have hwindows : ∀ i ∈ List.range (new.length - (taggedFrom old start).length + 1),
      i + (taggedFrom old start).length ≤ new.length := by
    intro i hi
    have := List.mem_range.mp hi
    omega
  refine ⟨_, List.anyM_of_some fun i hi => windowMatches_of_fits (hwindows i hi), ?_⟩
  rw [List.any_eq_true]
  constructor
  · rintro ⟨i, hi, hkept⟩
    refine ⟨_, ?_, (windowKept_iff (hwindows i hi)).mp hkept⟩
    exact (List.take_prefix _ _).isInfix.trans (List.drop_suffix _ _).isInfix
  · rintro ⟨window, ⟨before, after, rfl⟩, hkept⟩
    have hlength := hkept.length_eq
    have hi : before.length ∈ List.range
        ((before ++ window ++ after).length - (taggedFrom old start).length + 1) := by
      simp only [List.mem_range, List.length_append]
      omega
    refine ⟨before.length, hi, (windowKept_iff (hwindows _ hi)).mpr ?_⟩
    rw [slice, Nat.add_sub_cancel_left, List.append_assoc, List.drop_left, hlength, List.take_left]
    exact hkept

/-- A replacement shorter than the block leaves one window, which is read past its end
when one of the two tests gets that far. -/
theorem search_of_short (hshort : new.length < (taggedFrom old start).length) :
    (List.range (new.length - (taggedFrom old start).length + 1)).anyM
        (windowMatches old new start (taggedFrom old start).length) =
      if (List.range new.length).all (fun j =>
          decide (new[0 + j]?.map (·.points) = old[start + j]?.map (·.points))) ||
        (List.range new.length).all (fun j => (new[0 + j]?.bind (·.orderLock)).isSome)
      then none else some false := by
  have hrange : List.range (taggedFrom old start).length = List.range new.length ++
      new.length :: List.range' (new.length + 1) ((taggedFrom old start).length - new.length - 1) :=
    List.range_eq_append_cons_iff.mpr ⟨hshort, rfl, rfl⟩
  have hzero : new.length - (taggedFrom old start).length + 1 = 1 := by omega
  have hlast : new[0 + new.length]? = none := by simp
  have hbound : ∀ j ∈ List.range new.length,
      j < (taggedFrom old start).length ∧ 0 + j < new.length := by
    intro j hj
    have := List.mem_range.mp hj
    omega
  have hpoints := List.allM_append_none
    (fun j hj => pointsTest_eq (hbound j hj).1 (hbound j hj).2)
    (show (do let newPath ← new[0 + new.length]?
              let oldPath ← old[start + new.length]?
              return decide (newPath.points = oldPath.points) : Option Bool) = none by
      rw [hlast]
      rfl)
    (List.range' (new.length + 1) ((taggedFrom old start).length - new.length - 1))
  have htags := List.allM_append_none
    (fun j hj => tagTest_eq (hbound j hj).2)
    (show (do let newPath ← new[0 + new.length]?
              return newPath.orderLock.isSome : Option Bool) = none by
      rw [hlast]
      rfl)
    (List.range' (new.length + 1) ((taggedFrom old start).length - new.length - 1))
  rw [← hrange] at hpoints htags
  rw [hzero, List.range_one, List.anyM_cons, windowMatches, hpoints, htags]
  generalize (List.range new.length).all (fun j =>
    decide (new[0 + j]?.map (·.points) = old[start + j]?.map (·.points))) = samePoints
  generalize (List.range new.length).all (fun j =>
    (new[0 + j]?.bind (·.orderLock)).isSome) = allTagged
  cases samePoints <;> cases allTagged <;> rfl

theorem search_eq_none_iff :
    (List.range (new.length - (taggedFrom old start).length + 1)).anyM
        (windowMatches old new start (taggedFrom old start).length) = none ↔
      Overruns (taggedFrom old start) new := by
  by_cases hfits : (taggedFrom old start).length ≤ new.length
  · obtain ⟨found, hfound, _⟩ := search_of_fits hfits
    rw [hfound]
    exact iff_of_false (by simp) fun h => absurd h.1 (by omega)
  · have hshort : new.length < (taggedFrom old start).length := by omega
    have hpoints : (List.range new.length).all (fun j =>
          decide (new[0 + j]?.map (·.points) = old[start + j]?.map (·.points))) = true ↔
        ∀ (j : Nat) (newPath oldPath : ExtrusionPath3D F), new[j]? = some newPath →
          (taggedFrom old start)[j]? = some oldPath → newPath.points = oldPath.points := by
      simp only [List.all_eq_true, List.mem_range, decide_eq_true_eq, Nat.zero_add]
      constructor
      · intro h j newPath oldPath hnew hold
        obtain ⟨oldPath', hold', hat, _⟩ :=
          getElem?_taggedFrom (List.getElem?_eq_some_iff.mp hold).1
        rw [hold] at hold'
        cases hold'
        simpa [hnew, hat] using h j (List.getElem?_eq_some_iff.mp hnew).1
      · intro h j hj
        obtain ⟨oldPath, hold, hat, _⟩ := getElem?_taggedFrom (Nat.lt_trans hj hshort)
        have hnew := List.getElem?_eq_getElem hj
        simp [hnew, hat, h j _ _ hnew hold]
    have htags : (List.range new.length).all (fun j =>
          (new[0 + j]?.bind (·.orderLock)).isSome) = true ↔
        ∀ path ∈ new, path.orderLock.isSome := by
      simp only [List.all_eq_true, List.mem_range, Nat.zero_add]
      constructor
      · intro h path hpath
        obtain ⟨j, hj, rfl⟩ := List.mem_iff_getElem.mp hpath
        simpa [List.getElem?_eq_getElem hj] using h j hj
      · intro h j hj
        simpa [List.getElem?_eq_getElem hj] using h _ (List.getElem_mem hj)
    rw [search_of_short hshort, Overruns, and_iff_right hshort, ← hpoints, ← htags, ← Bool.or_eq_true]
    split
    · rename_i h
      exact iff_of_true rfl h
    · rename_i h
      exact iff_of_false (by simp) h

theorem search_eq_true_iff :
    (List.range (new.length - (taggedFrom old start).length + 1)).anyM
        (windowMatches old new start (taggedFrom old start).length) = some true ↔
      Reappears (taggedFrom old start) new := by
  by_cases hfits : (taggedFrom old start).length ≤ new.length
  · obtain ⟨found, hfound, hiff⟩ := search_of_fits hfits
    rw [hfound, ← hiff, Option.some_inj]
  · rw [search_of_short (by omega)]
    refine iff_of_false (by split <;> simp) ?_
    rintro ⟨window, hinfix, hkept⟩
    have hlength := hkept.length_eq
    have hle := hinfix.length_le
    omega

/-- What the round at an index decides: only the start of a run is looked at. -/
theorem validateRunAt_cases (hstart : start < old.length) :
    ((∀ stop, ¬ TaggedRun old start stop) ∧ validateRunAt old new start = some (.ok ())) ∨
      (TaggedRun old start (start + (taggedFrom old start).length) ∧
        (validateRunAt old new start = none ↔ Overruns (taggedFrom old start) new) ∧
        (validateRunAt old new start = some (.ok ()) ↔ Reappears (taggedFrom old start) new)) := by
  unfold validateRunAt
  rw [List.getElem?_eq_getElem hstart]
  simp only
  cases hlock : old[start].orderLock with
  | none =>
    refine .inl ⟨fun stop run => ?_, rfl⟩
    obtain ⟨path, hpath, htagged⟩ := run.tagged start le_rfl run.lt
    rw [List.getElem?_eq_getElem hstart] at hpath
    cases hpath
    simp [hlock] at htagged
  | some tag =>
    simp only
    split
    · rename_i hinside
      obtain ⟨hpos, htagged⟩ := hinside
      refine .inl ⟨fun stop run => ?_, rfl⟩
      obtain ⟨lock, hlock⟩ := Option.isSome_iff_exists.mp htagged
      obtain ⟨path, hpath, hpathLock⟩ := Option.bind_eq_some_iff.mp hlock
      have hnone := run.first (start - 1) path (by omega) hpath
      rw [hnone] at hpathLock
      cases hpathLock
    · rename_i hfirst
      have hpath := List.getElem?_eq_getElem hstart
      refine .inr ⟨taggedRun_taggedFrom hpath (by simp [hlock]) hfirst, ?_, ?_⟩
      · rw [← search_eq_none_iff]
        split <;> simp_all
      · rw [← search_eq_true_iff]
        split <;> simp_all

end Search

/-! ### The check as a whole -/

section Check

variable {previous replacement : InfillIR F} {region new : InfillRegion F (ExtrusionPath3D F)}

omit [DecidableEq F] in
theorem TaggedRun.start_lt {paths : List (ExtrusionPath3D F)} {start stop : Nat}
    (run : TaggedRun paths start stop) : start < paths.length := by
  obtain ⟨path, hpath, _⟩ := run.tagged start le_rfl run.lt
  exact (List.getElem?_eq_some_iff.mp hpath).1

theorem validateRunAt_ok_iff {old new : List (ExtrusionPath3D F)} {start : Nat}
    (hstart : start < old.length) :
    validateRunAt old new start = some (.ok ()) ↔
      ∀ stop, TaggedRun old start stop → Reappears (slice old start stop) new := by
  rcases @validateRunAt_cases F _ old new start hstart with ⟨hnone, hok⟩ | ⟨hrun, _, hok⟩
  · exact iff_of_true hok fun stop run => absurd run (hnone stop)
  · rw [hok]
    constructor
    · intro h stop run
      rwa [run.slice_eq]
    · intro h
      simpa [hrun.slice_eq] using h _ hrun

theorem validateInfillRegion_ok_iff :
    validateInfillRegion replacement region = some (.ok ()) ↔ RegionKept replacement region := by
  unfold validateInfillRegion RegionKept
  cases hregion : replacement.regionFor region with
  | none =>
    simp only
    split
    · rename_i hany
      obtain ⟨path, hpath, htagged⟩ := List.any_eq_true.mp hany
      refine iff_of_false (by simp) fun h => ?_
      rw [h path hpath] at htagged
      cases htagged
    · rename_i hany
      refine iff_of_true rfl fun path hpath => ?_
      by_contra hlock
      exact hany (List.any_eq_true.mpr ⟨path, hpath, Option.isSome_iff_ne_none.mpr hlock⟩)
  | some new =>
    simp only
    rw [Checked.all_eq_ok_iff]
    constructor
    · intro h start stop run
      exact (validateRunAt_ok_iff run.start_lt).mp
        (h start (List.mem_range.mpr run.start_lt)) stop run
    · intro h start hstart
      exact (validateRunAt_ok_iff (List.mem_range.mp hstart)).mpr (h start)

/-- The check passes exactly when every run of every region reappears. -/
theorem validateInfillOrderLocks_ok_iff :
    validateInfillOrderLocks previous replacement = some (.ok ()) ↔
      ∀ region ∈ previous.regions, RegionKept replacement region := by
  rw [validateInfillOrderLocks, Checked.all_eq_ok_iff]
  simp only [validateInfillRegion_ok_iff]

/-- A region's check panics exactly when a run overruns that all earlier ones let be
reached. -/
theorem validateInfillRegion_eq_none_iff :
    validateInfillRegion replacement region = none ↔
      ∃ new start stop, replacement.regionFor region = some new ∧
        TaggedRun region.sparseInfill start stop ∧
        (∀ start' stop', start' < start → TaggedRun region.sparseInfill start' stop' →
          Reappears (slice region.sparseInfill start' stop') new.sparseInfill) ∧
        Overruns (slice region.sparseInfill start stop) new.sparseInfill := by
  unfold validateInfillRegion
  cases hregion : replacement.regionFor region with
  | none =>
    simp only
    refine iff_of_false (by split <;> simp) ?_
    rintro ⟨new, start, stop, hnew, _⟩
    cases hnew
  | some new =>
    simp only
    rw [Checked.all_eq_none_iff]
    constructor
    · rintro ⟨before, start, after, hsplit, hbefore, hnone⟩
      obtain ⟨hlt, rfl, _⟩ := List.range_eq_append_cons_iff.mp hsplit
      rcases @validateRunAt_cases F _ region.sparseInfill new.sparseInfill start hlt with
        ⟨_, hok⟩ | ⟨hrun, hpanic, _⟩
      · rw [hnone] at hok
        cases hok
      · refine ⟨new, start, _, rfl, hrun, fun start' stop' hstart' run => ?_, ?_⟩
        · have hpassed := hbefore start' (List.mem_range.mpr hstart')
          exact (validateRunAt_ok_iff run.start_lt).mp hpassed stop' run
        · rw [hrun.slice_eq]
          exact hpanic.mp hnone
    · rintro ⟨new', start, stop, hnew, hrun, hearlier, hoverruns⟩
      cases hnew
      have hlt := hrun.start_lt
      refine ⟨_, start, _, List.range_eq_append_cons_iff.mpr ⟨hlt, rfl, rfl⟩, ?_, ?_⟩
      · intro start' hstart'
        have hlt' := List.mem_range.mp hstart'
        exact (validateRunAt_ok_iff (Nat.lt_trans hlt' hlt)).mpr fun stop' =>
          hearlier start' stop' hlt'
      · rcases @validateRunAt_cases F _ region.sparseInfill new.sparseInfill start hlt with
          ⟨hnone, _⟩ | ⟨_, hpanic, _⟩
        · exact absurd hrun (hnone stop)
        · rw [hrun.slice_eq] at hoverruns
          exact hpanic.mpr hoverruns

/-- When the infill lock check is total and exact: it answers, and with success exactly
when every locked run reappears, if and only if no run overruns the replacement that is
reached, the runs before it in its region and in the regions before all reappearing. -/
theorem infill_lock_check_exact_iff (previous replacement : InfillIR F) :
    (∃ result, validateInfillOrderLocks previous replacement = some result ∧
      (result = .ok () ↔ ∀ region ∈ previous.regions, RegionKept replacement region)) ↔
      ∀ before region after new start stop, previous.regions = before ++ region :: after →
        (∀ earlier ∈ before, RegionKept replacement earlier) →
        replacement.regionFor region = some new → TaggedRun region.sparseInfill start stop →
        (∀ start' stop', start' < start → TaggedRun region.sparseInfill start' stop' →
          Reappears (slice region.sparseInfill start' stop') new.sparseInfill) →
        ¬ Overruns (slice region.sparseInfill start stop) new.sparseInfill := by
  have hpanic : validateInfillOrderLocks previous replacement = none ↔
      ∃ before region after, previous.regions = before ++ region :: after ∧
        (∀ earlier ∈ before, RegionKept replacement earlier) ∧
        validateInfillRegion replacement region = none := by
    rw [validateInfillOrderLocks, Checked.all_eq_none_iff]
    simp only [validateInfillRegion_ok_iff]
  constructor
  · rintro ⟨result, hresult, _⟩ before region after new start stop hsplit hbefore hnew hrun
      hearlier hoverruns
    have hnone := hpanic.mpr ⟨before, region, after, hsplit, hbefore,
      validateInfillRegion_eq_none_iff.mpr ⟨new, start, stop, hnew, hrun, hearlier, hoverruns⟩⟩
    rw [hresult] at hnone
    cases hnone
  · intro hreached
    cases hresult : validateInfillOrderLocks previous replacement with
    | none =>
      obtain ⟨before, region, after, hsplit, hbefore, hnone⟩ := hpanic.mp hresult
      obtain ⟨new, start, stop, hnew, hrun, hearlier, hoverruns⟩ :=
        validateInfillRegion_eq_none_iff.mp hnone
      exact absurd hoverruns
        (hreached before region after new start stop hsplit hbefore hnew hrun hearlier)
    | some result =>
      refine ⟨result, rfl, ?_⟩
      rw [← validateInfillOrderLocks_ok_iff, hresult, Option.some_inj]

end Check

/-- A staged layer of one region with two locked paths. -/
def lockedInfill : InfillIR ℚ where
  regions := [{ sparseInfill := [stagedPath 1 (some 7), stagedPath 2 (some 7)] }]

/-- The replacement drops the second locked path. -/
def shortInfill : InfillIR ℚ where
  regions := [{ sparseInfill := [stagedPath 1 (some 7)] }]

/-- A replacement that drops the last path of a block is not refused: the search reads
past its end. -/
theorem short_replacement_panics :
    ¬ ∃ result, validateInfillOrderLocks lockedInfill shortInfill = some result ∧
      (result = .ok () ↔ ∀ region ∈ lockedInfill.regions, RegionKept shortInfill region) := by
  rintro ⟨result, hresult, _⟩
  have hpanic : validateInfillOrderLocks lockedInfill shortInfill = none := by decide +kernel
  rw [hresult] at hpanic
  cases hpanic

end PinchNPrint.Layer
