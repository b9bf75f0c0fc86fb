/-
Order proposals: what the host takes, and what it makes of it
(`slicer-runtime`: `layer_executor.rs`).

`validate_entity_order_locks` runs first, on a proposal nothing has checked yet;
`apply_order_proposal` then checks that the proposal is a permutation and carries
it out. `validateBlock_ok_iff` says what the first check asks of one block once the
indices are distinct, `checkProposal_ok_iff` what the second asks.

The functions here return the arena only on success. `applyEntityOrderProposalInPlace`
is the same call with the arena threaded through it, as the source has it: the
collection is taken off, changed in place and put back, and `none` is a panic. It
refines the other one (`applyEntityOrderProposalInPlace_eq`).
-/

import PinchNPrint.Layer.Commit
import PinchNPrint.Lib.Grouping

namespace PinchNPrint.Layer

variable {F : Type}

/-! ### Blocks -/

section Blocks

variable {entities : List (PrintEntity F)} {tag start : Nat}

theorem exists_blockStart {entities : List (PrintEntity F)} {tag i : Nat}
    (h : lockAt entities i = some tag) : ∃ start ≤ i,
      (∀ k, start ≤ k → k ≤ i → lockAt entities k = some tag) ∧
      ¬ (0 < start ∧ lockAt entities (start - 1) = some tag) := by
  induction i with
  | zero =>
    refine ⟨0, le_rfl, fun k _ hk => ?_, fun hstart => absurd hstart.1 (Nat.lt_irrefl 0)⟩
    rw [Nat.le_zero.mp hk]
    exact h
  | succ i ih =>
    by_cases hprev : lockAt entities i = some tag
    · obtain ⟨start, hle, hblock, hstart⟩ := ih hprev
      refine ⟨start, by omega, fun k hk hk' => ?_, hstart⟩
      rcases Nat.le_succ_iff.mp hk' with hk' | rfl
      · exact hblock k hk hk'
      · exact h
    · refine ⟨i + 1, le_rfl, fun k hk hk' => ?_, fun hstart => hprev hstart.2⟩
      rw [Nat.le_antisymm hk' hk]
      exact h

variable {stop : Nat}

theorem lt_blockEnd {entities : List (PrintEntity F)} {tag start : Nat} (hle : start ≤ stop)
    (h : ∀ k, start ≤ k → k ≤ stop → lockAt entities k = some tag) :
    stop < blockEnd entities tag start := by
  have hrun : stop - start ≤
      ((entities.drop (start + 1)).takeWhile (·.path.orderLock = some tag)).length := by
    apply List.le_length_takeWhile
    intro i hi
    obtain ⟨e, he, hlock⟩ := Option.bind_eq_some_iff.mp (h (start + 1 + i) (by omega) (by omega))
    exact ⟨e, by rwa [List.getElem?_drop], by simpa using hlock⟩
  unfold blockEnd
  omega

theorem lockAt_of_lt_blockEnd {tag start i : Nat} (hlock : lockAt entities start = some tag)
    (hi : start ≤ i) (hend : i < blockEnd entities tag start) : lockAt entities i = some tag := by
  rcases Nat.eq_or_lt_of_le hi with rfl | hi
  · exact hlock
  · have hk : i - (start + 1) <
        ((entities.drop (start + 1)).takeWhile (·.path.orderLock = some tag)).length := by
      unfold blockEnd at hend
      omega
    obtain ⟨after, hafter⟩ := List.takeWhile_prefix (l := entities.drop (start + 1))
      fun entity => decide (entity.path.orderLock = some tag)
    have hentity : entities[i]? = ((entities.drop (start + 1)).takeWhile
        (·.path.orderLock = some tag))[i - (start + 1)]? := by
      have hindex : start + 1 + (i - (start + 1)) = i := by omega
      rw [← @List.getElem?_append_left _ _ after _ hk, hafter, List.getElem?_drop, hindex]
    rw [lockAt, hentity, List.getElem?_eq_getElem hk, Option.bind_some]
    simpa using List.mem_takeWhile_imp (List.getElem_mem hk)

theorem blockEnd_le_length {tag start : Nat} (hlock : lockAt entities start = some tag) :
    blockEnd entities tag start ≤ entities.length := by
  obtain ⟨entity, hentity, _⟩ := Option.bind_eq_some_iff.mp hlock
  have hstart := (List.getElem?_eq_some_iff.mp hentity).1
  have hbegins := (List.takeWhile_prefix (l := entities.drop (start + 1))
    (·.path.orderLock = some tag)).length_le
  rw [List.length_drop] at hbegins
  unfold blockEnd
  omega

/-- A maximal run of one tag. -/
structure LockedRun (entities : List (PrintEntity F)) (tag start stop : Nat) : Prop where
  lt : start < stop
  tagged : ∀ i, start ≤ i → i < stop → lockAt entities i = some tag
  first : ¬ (0 < start ∧ lockAt entities (start - 1) = some tag)
  last : lockAt entities stop ≠ some tag

theorem LockedRun.stop_eq (run : LockedRun entities tag start stop) :
    stop = blockEnd entities tag start := by
  have hlock := run.tagged start le_rfl run.lt
  have hend : start < blockEnd entities tag start := by
    unfold blockEnd
    omega
  apply Nat.le_antisymm
  · have hle : stop - 1 < blockEnd entities tag start :=
      lt_blockEnd (Nat.le_sub_one_of_lt run.lt) fun k hk hk' =>
        run.tagged k hk (by have := run.lt; omega)
    omega
  · by_contra hlt
    exact run.last (lockAt_of_lt_blockEnd hlock (le_of_lt run.lt) (Nat.lt_of_not_le hlt))

/-- The block that starts at an index is the maximal run from there. -/
theorem lockedRun_blockEnd (hlock : lockAt entities start = some tag)
    (hfirst : ¬ (0 < start ∧ lockAt entities (start - 1) = some tag)) :
    LockedRun entities tag start (blockEnd entities tag start) where
  lt := by
    unfold blockEnd
    omega
  tagged _ hi hend := lockAt_of_lt_blockEnd hlock hi hend
  first := hfirst
  last hstop := by
    have hlt : start < blockEnd entities tag start := by
      unfold blockEnd
      omega
    refine Nat.lt_irrefl _ (lt_blockEnd (le_of_lt hlt) fun k hk hk' => ?_)
    rcases Nat.eq_or_lt_of_le hk' with rfl | hk'
    · exact hstop
    · exact lockAt_of_lt_blockEnd hlock hk hk'

/-! ### The lock check -/

/-- The entries a proposal has to hold in a row for a block. -/
def runEntries (start stop : Nat) : List (Nat × Bool) :=
  (List.range' start (stop - start)).map (·, false)

@[simp] theorem length_runEntries (start stop : Nat) :
    (runEntries start stop).length = stop - start := by
  simp [runEntries]

variable {proposal : List (Nat × Bool)}

/-- What an accepted proposal does with a block: its entries come in order, slot
after slot, and none is reversed. -/
theorem runEntries_infix_of_validateBlock
    (h : validateBlock entities proposal tag start = .ok ()) :
    runEntries start (blockEnd entities tag start) <:+: proposal := by
  unfold validateBlock at h
  simp only at h
  generalize hentries : blockEntries proposal start (blockEnd entities tag start) = entries at h
  split at h
  · cases h
  rename_i hreversed
  split at h
  · cases h
  rename_i hlength
  split at h
  swap
  · cases h
  rename_i hordered
  rw [Bool.and_eq_true, List.all_eq_true, List.all_eq_true] at hordered
  obtain ⟨hcontiguous, hindices⟩ := hordered
  -- the entry of the `k`-th entity of the block
  have hentry : ∀ k < entries.length, ∃ slot : Nat,
      entries[k]? = some ((start + k, false), slot) ∧ proposal[slot]? = some (start + k, false) := by
    intro k hk
    obtain ⟨⟨⟨index, reverse⟩, slot⟩, hk'⟩ : ∃ entry, entries[k]? = some entry :=
      ⟨_, List.getElem?_eq_getElem hk⟩
    have hindex := hindices (((index, reverse), slot), k) (List.mk_mem_zipIdx_iff_getElem?.mpr hk')
    have hmem := List.mem_of_getElem? hk'
    have hforward : reverse = false := by
      cases reverse with
      | false => rfl
      | true => exact absurd (List.any_eq_true.mpr ⟨_, hmem, rfl⟩) hreversed
    have hslot : ((index, reverse), slot) ∈ proposal.zipIdx := by
      rw [← hentries] at hmem
      exact (List.mem_filter.mp hmem).1
    have hslot' := List.mk_mem_zipIdx_iff_getElem?.mp hslot
    have hindex' : index = start + k := by simpa using hindex
    subst hforward hindex'
    exact ⟨slot, hk', hslot'⟩
  have hlength' : entries.length = blockEnd entities tag start - start := not_not.mp hlength
  have hpos : 0 < entries.length := by
    unfold blockEnd at hlength'
    omega
  obtain ⟨first, hfirst, _⟩ := hentry 0 hpos
  -- the slots count up from the first one
  have hslots : ∀ k < entries.length, entries[k]? = some ((start + k, false), first + k) := by
    intro k hk
    induction k with
    | zero => exact hfirst
    | succ k ih =>
      obtain ⟨slot, hk', _⟩ := hentry (k + 1) hk
      have hpair : (first + k, slot) ∈ (entries.map (·.2)).zip (entries.map (·.2)).tail := by
        apply List.mem_of_getElem? (i := k)
        rw [List.getElem?_zip_eq_some, List.getElem?_tail, List.getElem?_map, List.getElem?_map,
          ih (by omega), hk']
        exact ⟨rfl, rfl⟩
      have hnext : slot = first + k + 1 := by simpa using hcontiguous _ hpair
      rw [hk', hnext, Nat.add_assoc]
  have hproposal : ∀ k < entries.length, proposal[first + k]? = some (start + k, false) := by
    intro k hk
    obtain ⟨slot, hk', hslot⟩ := hentry k hk
    rw [hslots k hk] at hk'
    cases hk'
    exact hslot
  rw [List.infix_iff_getElem?]
  refine ⟨first, ?_, fun k hk => ?_⟩
  · have hlast := hproposal (entries.length - 1) (by omega)
    have hbound := (List.getElem?_eq_some_iff.mp hlast).1
    rw [length_runEntries]
    omega
  · rw [length_runEntries, ← hlength'] at hk
    rw [Nat.add_comm, hproposal k hk]
    simp [runEntries]

/-- The entries of a block that stands in one piece. -/
theorem blockEntries_eq {before after : List (Nat × Bool)}
    (hnodup : ((before ++ runEntries start stop ++ after).map Prod.fst).Nodup) :
    blockEntries (before ++ runEntries start stop ++ after) start stop =
      (runEntries start stop).zipIdx before.length := by
  have hinside : ∀ index : Nat, (start ≤ index && index < stop) = true ↔
      index ∈ (runEntries start stop).map Prod.fst := by
    intro index
    simp only [runEntries, List.map_map, Function.comp_def, List.map_id', List.mem_range'_1,
      Bool.and_eq_true, decide_eq_true_eq]
    omega
  have houtside : ∀ (l : List (Nat × Bool)) (offset : Nat),
      List.Disjoint (l.map Prod.fst) ((runEntries start stop).map Prod.fst) →
      (l.zipIdx offset).filter (fun entry => start ≤ entry.1.1 && entry.1.1 < stop) = [] := by
    intro l offset hdisjoint
    refine List.filter_eq_nil_iff.mpr fun entry hentry hkept => ?_
    have hmem := List.mem_map_of_mem (f := Prod.fst) (List.fst_mem_of_mem_zipIdx hentry)
    exact hdisjoint hmem ((hinside _).mp hkept)
  have hblock : ∀ offset, ((runEntries start stop).zipIdx offset).filter
      (fun entry => start ≤ entry.1.1 && entry.1.1 < stop) = (runEntries start stop).zipIdx offset := by
    refine fun offset => List.filter_eq_self.mpr fun entry hentry => (hinside _).mpr ?_
    exact List.mem_map_of_mem (f := Prod.fst) (List.fst_mem_of_mem_zipIdx hentry)
  rw [List.map_append, List.map_append] at hnodup
  have hfront := List.disjoint_of_nodup_append (List.nodup_append.mp hnodup).1
  have hback : List.Disjoint (after.map Prod.fst) ((runEntries start stop).map Prod.fst) :=
    fun index hafter hrun =>
      List.disjoint_of_nodup_append hnodup (List.mem_append_right _ hrun) hafter
  simp only [blockEntries, List.zipIdx_append, List.filter_append, hblock,
    houtside before _ hfront, houtside after _ hback]
  simp

theorem zip_tail_range' (start count : Nat) :
    ((List.range' start count).zip (List.range' start count).tail).all
      (fun pair => pair.2 = pair.1 + 1) = true := by
  rw [List.all_eq_true]
  intro pair hpair
  obtain ⟨k, hk, rfl⟩ := List.mem_iff_getElem.mp hpair
  rw [List.getElem_zip, List.getElem_tail, List.getElem_range', List.getElem_range',
    decide_eq_true_eq]
  omega

/-- Of a proposal without repeated indices, the check of a block asks that the block
stands in one piece, in order and unreversed. -/
theorem validateBlock_ok_iff (hnodup : (proposal.map Prod.fst).Nodup) :
    validateBlock entities proposal tag start = .ok () ↔
      runEntries start (blockEnd entities tag start) <:+: proposal := by
  refine ⟨runEntries_infix_of_validateBlock, ?_⟩
  rintro ⟨before, after, rfl⟩
  have hforward : ((runEntries start (blockEnd entities tag start)).zipIdx before.length).any
      (·.1.2) = false := by
    rw [List.any_eq_false]
    intro entry hentry
    obtain ⟨i, _, hfst⟩ := List.mem_map.mp (List.fst_mem_of_mem_zipIdx hentry)
    simp [← hfst]
  have hindices : ((runEntries start (blockEnd entities tag start)).zipIdx
      before.length).zipIdx.all (fun entry => entry.1.1.1 = start + entry.2) = true := by
    rw [List.all_eq_true]
    intro entry hentry
    obtain ⟨k, hk, rfl⟩ := List.mem_iff_getElem.mp hentry
    simp [runEntries]
  unfold validateBlock
  simp only [blockEntries_eq hnodup, List.zipIdx_map_snd, List.length_zipIdx, length_runEntries,
    zip_tail_range', hforward, hindices]
  simp

/-- Every maximal run stands in one piece in a proposal that passes. -/
theorem LockedRun.runEntries_infix (run : LockedRun entities tag start stop)
    (h : validateEntityOrderLocks entities proposal = .ok ()) :
    runEntries start stop <:+: proposal := by
  have hlock := run.tagged start le_rfl run.lt
  obtain ⟨entity, hentity, _⟩ := Option.bind_eq_some_iff.mp hlock
  have hstart := List.mem_range.mpr (List.getElem?_eq_some_iff.mp hentity).1
  have hcheck := Except.of_forM_eq_ok h hstart
  rw [validateStart, hlock] at hcheck
  simp only [if_neg run.first] at hcheck
  rw [run.stop_eq]
  exact runEntries_infix_of_validateBlock hcheck

/-- The lock check takes a proposal without repeated indices exactly when every
maximal run stands in it in one piece. -/
theorem validateEntityOrderLocks_ok_iff (hnodup : (proposal.map Prod.fst).Nodup) :
    validateEntityOrderLocks entities proposal = .ok () ↔
      ∀ tag start stop, LockedRun entities tag start stop →
        runEntries start stop <:+: proposal := by
  refine ⟨fun h tag start stop run => run.runEntries_infix h, fun h => ?_⟩
  refine Except.forM_eq_ok_iff.mpr fun start _ => ?_
  unfold validateStart
  cases hlock : lockAt entities start with
  | none => rfl
  | some tag =>
    simp only
    split
    · rfl
    · rename_i hfirst
      exact (validateBlock_ok_iff hnodup).mpr (h _ _ _ (lockedRun_blockEnd hlock hfirst))

end Blocks

/-! ### Permutations -/

theorem firstDuplicate_eq_none_iff {indices : List Nat} :
    firstDuplicate indices = none ↔ indices.Nodup := by
  rw [firstDuplicate, List.findSome?_eq_none_iff]
  constructor
  · intro h
    refine List.pairwise_iff_getElem.mpr fun i j hi hj hlt heq => ?_
    have hmem : (indices[j], j) ∈ indices.zipIdx :=
      List.mk_mem_zipIdx_iff_getElem?.mpr (List.getElem?_eq_getElem hj)
    have hearlier : indices[j] ∈ indices.take j := by
      rw [← heq]
      exact List.mem_take_iff_getElem.mpr ⟨i, by omega, rfl⟩
    simpa [hearlier] using h _ hmem
  · intro hnodup entry hentry
    refine if_neg fun hearlier => ?_
    have hlater : entry.1 ∈ indices.drop entry.2 := by
      refine List.mem_of_getElem? (i := 0) ?_
      rw [List.getElem?_drop]
      exact List.mk_mem_zipIdx_iff_getElem?.mp hentry
    rw [← List.take_append_drop entry.2 indices] at hnodup
    exact List.disjoint_of_nodup_append hnodup hearlier hlater

variable {proposal : List (Nat × Bool)} {entities : List (PrintEntity F)}

/-- The three checks together ask for a permutation. -/
theorem checkProposal_ok_iff {n : Nat} :
    checkProposal n proposal = .ok () ↔ (proposal.map Prod.fst).Perm (List.range n) := by
  unfold checkProposal
  constructor
  · intro h
    split at h
    · cases h
    rename_i hlength
    split at h
    · cases h
    rename_i hrange
    split at h
    · cases h
    rename_i hduplicate
    have hnodup := firstDuplicate_eq_none_iff.mp hduplicate
    have hsubset : proposal.map Prod.fst ⊆ List.range n := by
      intro index hindex
      obtain ⟨entry, hentry, rfl⟩ := List.mem_map.mp hindex
      have hbound := List.find?_eq_none.mp hrange entry hentry
      rw [List.mem_range]
      simpa using hbound
    refine (List.subperm_of_subset hnodup hsubset).perm_of_length_le ?_
    rw [List.length_map, List.length_range, not_not.mp hlength]
  · intro hperm
    have hlength : proposal.length = n := by simpa using hperm.length_eq
    have hrange : proposal.find? (fun entry => entry.1 ≥ n) = none := by
      rw [List.find?_eq_none]
      intro entry hentry
      have hmem := hperm.mem_iff.mp (List.mem_map_of_mem hentry)
      simpa using hmem
    have hduplicate := firstDuplicate_eq_none_iff.mpr (hperm.nodup_iff.mpr List.nodup_range)
    simp [hlength, hrange, hduplicate]

/-! ### Placing the entities -/

theorem validateEntityOrderLocks_neighbours
    (h : validateEntityOrderLocks entities proposal = .ok ()) {tag i : Nat}
    (hi : lockAt entities i = some tag) (hi' : lockAt entities (i + 1) = some tag) :
    ∃ slot : Nat, proposal[slot]? = some (i, false) ∧ proposal[slot + 1]? = some (i + 1, false) := by
  obtain ⟨start, hle, hblock, hstart⟩ := exists_blockStart hi
  have hend : i + 1 < blockEnd entities tag start := by
    refine lt_blockEnd (by omega) fun k hk hk' => ?_
    rcases Nat.le_succ_iff.mp hk' with hk' | rfl
    · exact hblock k hk hk'
    · exact hi'
  have hrun := lockedRun_blockEnd (hblock start le_rfl hle) hstart
  obtain ⟨slot, _, hslots⟩ := List.infix_iff_getElem?.mp (hrun.runEntries_infix h)
  have hslot : ∀ k, start ≤ k → k ≤ i + 1 → proposal[k - start + slot]? = some (k, false) := by
    intro k hk hk'
    have hlt : k - start < blockEnd entities tag start - start := by omega
    rw [hslots (k - start) (by simpa using hlt)]
    simp only [runEntries, List.getElem_map, List.getElem_range', one_mul]
    rw [Nat.add_sub_cancel' hk]
  refine ⟨i - start + slot, hslot i hle (by omega), ?_⟩
  have hnext : i - start + slot + 1 = i + 1 - start + slot := by omega
  rw [hnext]
  exact hslot (i + 1) (by omega) le_rfl

theorem placeEntity_spec {index slot : Nat} {reverse : Bool} {placed : PrintEntity F}
    (h : placeEntity entities ((index, reverse), slot) = .ok placed) :
    ∃ e, entities[index]? = some e ∧ placed.entityId = e.entityId ∧
      placed.path.orderLock = e.path.orderLock ∧
      (reverse = false → placed = { e with topoOrder := slot }) := by
  unfold placeEntity at h
  cases he : entities[index]? with
  | none =>
    simp only [he] at h
    cases h
  | some e =>
    simp only [he] at h
    cases reverse with
    | true =>
      cases h
      exact ⟨e, rfl, rfl, rfl, fun hfalse => by cases hfalse⟩
    | false =>
      cases h
      exact ⟨e, rfl, rfl, rfl, fun _ => rfl⟩

/-- An accepted proposal only moves, turns and renumbers entities. -/
theorem applyOrderProposal_mem {entities' : List (PrintEntity F)}
    (h : applyOrderProposal entities proposal = .ok entities') {placed : PrintEntity F}
    (hplaced : placed ∈ entities') :
    ∃ e ∈ entities, placed.entityId = e.entityId ∧ placed.path.orderLock = e.path.orderLock := by
  obtain ⟨_, -, h⟩ := Except.of_bind_eq_ok h
  obtain ⟨⟨⟨index, reverse⟩, slot⟩, -, hplace⟩ := Except.of_mapM_eq_ok h hplaced
  obtain ⟨e, he, hid, hlock, -⟩ := placeEntity_spec hplace
  exact ⟨e, List.mem_of_getElem? he, hid, hlock⟩

/-- An accepted proposal keeps neighbours of one tag in a row, and does not turn
them around. -/
theorem applyOrderProposal_neighbours {entities' : List (PrintEntity F)}
    (hlocks : validateEntityOrderLocks entities proposal = .ok ())
    (h : applyOrderProposal entities proposal = .ok entities') {i tag : Nat} {a b : PrintEntity F}
    (ha : entities[i]? = some a) (hb : entities[i + 1]? = some b)
    (htag : a.path.orderLock = some tag) (htag' : b.path.orderLock = some tag) :
    ∃ j : Nat, entities'[j]? = some { a with topoOrder := j } ∧
      entities'[j + 1]? = some { b with topoOrder := j + 1 } := by
  have hi : lockAt entities i = some tag := by rw [lockAt, ha]; exact htag
  have hi' : lockAt entities (i + 1) = some tag := by rw [lockAt, hb]; exact htag'
  obtain ⟨slot, hslot, hslot'⟩ := validateEntityOrderLocks_neighbours hlocks hi hi'
  obtain ⟨_, -, h⟩ := Except.of_bind_eq_ok h
  have hput : ∀ {index slot : Nat} {e : PrintEntity F}, proposal[slot]? = some (index, false) →
      entities[index]? = some e → entities'[slot]? = some { e with topoOrder := slot } := by
    intro index slot e hentry he
    have hzip : proposal.zipIdx[slot]? = some ((index, false), slot) := by
      rw [List.getElem?_zipIdx, hentry, Nat.zero_add]
      rfl
    obtain ⟨placed, hplaced, hplace⟩ := Except.getElem?_of_mapM_eq_ok h hzip
    obtain ⟨e', he', -, -, hkeep⟩ := placeEntity_spec hplace
    rw [he] at he'
    cases he'
    rw [hplaced, hkeep rfl]
  exact ⟨slot, hput hslot ha, hput hslot' hb⟩

/-- The entity as it is put in a slot: turned around if asked, and renumbered. -/
def PrintEntity.placedAt (entity : PrintEntity F) (reverse : Bool) (slot : Nat) : PrintEntity F :=
  { entity with
    path := { entity.path with
      points := if reverse then entity.path.points.reverse else entity.path.points }
    topoOrder := slot }

/-- The entities after a proposal is carried out: each slot holds the proposed
entity, and nothing but its direction and its number changed. -/
structure Reordered (entities : List (PrintEntity F)) (proposal : List (Nat × Bool))
    (entities' : List (PrintEntity F)) : Prop where
  length_eq : entities'.length = proposal.length
  placed : ∀ (slot index : Nat) (reverse : Bool), proposal[slot]? = some (index, reverse) →
    ∃ entity, entities[index]? = some entity ∧
      entities'[slot]? = some (entity.placedAt reverse slot)

theorem Reordered.unique {first second : List (PrintEntity F)}
    (h : Reordered entities proposal first) (h' : Reordered entities proposal second) :
    first = second := by
  refine List.ext_getElem? fun slot => ?_
  cases hentry : proposal[slot]? with
  | none =>
    rw [List.getElem?_eq_none_iff] at hentry
    rw [List.getElem?_eq_none_iff.mpr (h.length_eq ▸ hentry),
      List.getElem?_eq_none_iff.mpr (h'.length_eq ▸ hentry)]
  | some entry =>
    obtain ⟨entity, hentity, hslot⟩ := h.placed slot entry.1 entry.2 hentry
    obtain ⟨entity', hentity', hslot'⟩ := h'.placed slot entry.1 entry.2 hentry
    rw [hentity] at hentity'
    cases hentity'
    rw [hslot, hslot']

theorem placeEntity_eq {entity : PrintEntity F} {index : Nat} (h : entities[index]? = some entity)
    (reverse : Bool) (slot : Nat) :
    placeEntity entities ((index, reverse), slot) = .ok (entity.placedAt reverse slot) := by
  cases reverse <;> simp [placeEntity, h, PrintEntity.placedAt]

/-- A permutation is carried out. -/
theorem applyOrderProposal_ok (hperm : (proposal.map Prod.fst).Perm (List.range entities.length)) :
    ∃ entities', applyOrderProposal entities proposal = .ok entities' ∧
      Reordered entities proposal entities' := by
  have hentity : ∀ index reverse, (index, reverse) ∈ proposal →
      ∃ entity, entities[index]? = some entity := by
    intro index reverse hentry
    have hmem := hperm.mem_iff.mp (List.mem_map_of_mem hentry)
    exact ⟨_, List.getElem?_eq_getElem (List.mem_range.mp hmem)⟩
  obtain ⟨entities', hplaced⟩ := List.exists_mapM_eq_ok (f := placeEntity entities)
    (l := proposal.zipIdx) fun entry hentry => by
      obtain ⟨⟨index, reverse⟩, slot⟩ := entry
      obtain ⟨entity, hat⟩ := hentity index reverse (List.fst_mem_of_mem_zipIdx hentry)
      exact ⟨_, placeEntity_eq hat reverse slot⟩
  have hforall := Except.forall₂_of_mapM_eq_ok hplaced
  refine ⟨entities', ?_, ?_, ?_⟩
  · rw [applyOrderProposal, checkProposal_ok_iff.mpr hperm]
    exact hplaced
  · simpa using hforall.length_eq.symm
  · intro slot index reverse hentry
    obtain ⟨entity, hat⟩ := hentity index reverse (List.mem_of_getElem? hentry)
    have hzip : proposal.zipIdx[slot]? = some ((index, reverse), slot) := by
      simp [List.getElem?_zipIdx, hentry]
    obtain ⟨placed, hslot, hplace⟩ := hforall.getElem?_some hzip
    rw [placeEntity_eq hat] at hplace
    cases hplace
    exact ⟨entity, hat, hslot⟩

/-- When the host takes a proposal. -/
theorem applyEntityOrderProposal_ok_iff {arena : LayerArena F} {collection : LayerCollectionIR F}
    (hstaged : arena.layerCollection = some collection) (proposal : List (Nat × Bool)) :
    (∃ arena', applyEntityOrderProposal arena proposal = .ok arena') ↔
      (proposal.map Prod.fst).Perm (List.range collection.orderedEntities.length) ∧
        ∀ tag start stop, LockedRun collection.orderedEntities tag start stop →
          runEntries start stop <:+: proposal := by
  simp only [applyEntityOrderProposal, hstaged]
  constructor
  · rintro ⟨arena', h⟩
    obtain ⟨_, hlocks, h⟩ := Except.of_bind_eq_ok h
    obtain ⟨entities', happly, _⟩ := Except.of_bind_eq_ok h
    obtain ⟨_, hcheck, _⟩ := Except.of_bind_eq_ok happly
    exact ⟨checkProposal_ok_iff.mp hcheck, fun tag start stop run => run.runEntries_infix hlocks⟩
  · rintro ⟨hperm, hruns⟩
    have hnodup := hperm.nodup_iff.mpr List.nodup_range
    obtain ⟨entities', happly, _⟩ := applyOrderProposal_ok hperm
    rw [(validateEntityOrderLocks_ok_iff hnodup).mpr hruns, happly]
    exact ⟨_, rfl⟩

/-! ### In place -/

section InPlace

variable {T : Type}

/-- The loop of `apply_order_proposal` over `seen`. -/
def markSeen (seen : List Bool) : List (Nat × Bool) → Option (Except String Unit)
  | [] => some (.ok ())
  | (index, _) :: rest =>
    match seen[index]? with
    | none => none
    | some true => some (.error s!"set-entity-order: duplicate index {index}")
    | some false => markSeen (seen.set index true) rest

/-- The loop of `apply_order_proposal` that takes the items out of their buckets. -/
def takeItems (reverseItem : T → T) (setTopoOrder : T → Nat → T) (buckets : List (Option T))
    (newSlot : Nat) : List (Nat × Bool) → Option (List T)
  | [] => some []
  | (index, reverse) :: rest => do
    let bucket ← buckets[index]?
    let item ← bucket
    let item := if reverse then reverseItem item else item
    let others ← takeItems reverseItem setTopoOrder (buckets.set index none) (newSlot + 1) rest
    return setTopoOrder item newSlot :: others

/-- `apply_order_proposal` with the items after it; `none` is a panic. A `u32` index
names at most `2 ^ 32` items, so the number of a slot is not cut. -/
def applyOrderProposalInPlace (reverseItem : T → T) (setTopoOrder : T → Nat → T) (items : List T)
    (proposal : List (Nat × Bool)) : Option (Except String Unit × List T) :=
  let n := items.length
  if proposal.length ≠ n then
    some (.error s!"set-entity-order: expected {n} indices, got {proposal.length}", items)
  else match proposal.find? (fun entry => entry.1 ≥ n) with
    | some entry =>
      some (.error s!"set-entity-order: index {entry.1} out of range [0, {n})", items)
    | none =>
      match markSeen (List.replicate n false) proposal with
      | none => none
      | some (.error message) => some (.error message, items)
      | some (.ok ()) =>
        (takeItems reverseItem setTopoOrder (items.map some) 0 proposal).map (.ok (), ·)

/-- `apply_entity_order_proposal` with the arena after it; `none` is a panic. -/
def applyEntityOrderProposalInPlace (arena : LayerArena F) (proposal : List (Nat × Bool)) :
    Option (Except String Unit × LayerArena F) :=
  match arena.layerCollection with
  | none => some (.error "set-entity-order: no LayerCollectionIR staged on arena", arena)
  | some collection =>
    match validateEntityOrderLocks collection.orderedEntities proposal with
    | .error message => some (.error message, arena)
    | .ok () => do
      let taken := { arena with layerCollection := none }
      let (result, entities) ← applyOrderProposalInPlace
        (fun entity => { entity with
          path := { entity.path with points := entity.path.points.reverse } })
        (fun entity topoOrder => { entity with topoOrder })
        collection.orderedEntities proposal
      return (result,
        { taken with layerCollection := some { collection with orderedEntities := entities } })

/-- The marks find the first index that repeats an earlier one. -/
theorem markSeen_eq {n : Nat} {before rest : List (Nat × Bool)} {seen : List Bool}
    (hseen : ∀ i < n, seen[i]? = some (decide (i ∈ before.map Prod.fst)))
    (hbound : ∀ entry ∈ rest, entry.1 < n) :
    markSeen seen rest = some
      (match ((rest.map Prod.fst).zipIdx before.length).findSome? (fun (index, slot) =>
        if index ∈ ((before ++ rest).map Prod.fst).take slot then some index else none) with
      | some index => .error s!"set-entity-order: duplicate index {index}"
      | none => .ok ()) := by
  induction rest generalizing before seen with
  | nil => rfl
  | cons entry rest ih =>
    obtain ⟨index, reverse⟩ := entry
    have hindex := hbound _ List.mem_cons_self
    have htake : ((before ++ (index, reverse) :: rest).map Prod.fst).take before.length =
        before.map Prod.fst := by
      simp
    rw [markSeen, hseen index hindex, List.map_cons, List.zipIdx_cons, List.findSome?_cons]
    simp only [htake]
    by_cases hmem : index ∈ before.map Prod.fst
    · simp only [hmem, decide_true, if_true]
    · simp only [hmem, decide_false, if_false]
      have hlength : before.length + 1 = (before ++ [(index, reverse)]).length := by simp
      have hsplit : before ++ (index, reverse) :: rest = before ++ [(index, reverse)] ++ rest := by
        simp
      rw [hlength, hsplit]
      refine ih (fun i hi => ?_) fun entry hentry => hbound entry (List.mem_cons_of_mem _ hentry)
      rw [List.getElem?_set]
      split
      · rename_i heq
        subst heq
        rw [if_pos (List.getElem?_eq_some_iff.mp (hseen index hi)).1]
        simp
      · rename_i hne
        rw [hseen i hi]
        simp [Ne.symm hne]

/-- Every bucket a proposal without repeated indices names is taken once. -/
theorem takeItems_spec (reverseItem : T → T) (setTopoOrder : T → Nat → T)
    {buckets : List (Option T)} (newSlot : Nat) {proposal : List (Nat × Bool)}
    (hnodup : (proposal.map Prod.fst).Nodup)
    (hfull : ∀ entry ∈ proposal, ∃ item, buckets[entry.1]? = some (some item)) :
    ∃ items, takeItems reverseItem setTopoOrder buckets newSlot proposal = some items ∧
      items.length = proposal.length ∧
      ∀ (slot index : Nat) (reverse : Bool) (item : T), proposal[slot]? = some (index, reverse) →
        buckets[index]? = some (some item) →
        items[slot]? =
          some (setTopoOrder (if reverse then reverseItem item else item) (newSlot + slot)) := by
  induction proposal generalizing buckets newSlot with
  | nil => exact ⟨[], rfl, rfl, by simp⟩
  | cons entry rest ih =>
    obtain ⟨index, reverse⟩ := entry
    obtain ⟨hfresh, hnodup⟩ := List.nodup_cons.mp hnodup
    have hother : ∀ entry ∈ rest, (buckets.set index none)[entry.1]? = buckets[entry.1]? := by
      intro entry hentry
      refine List.getElem?_set_ne fun heq => hfresh ?_
      have hmem := List.mem_map_of_mem (f := Prod.fst) hentry
      rwa [← heq] at hmem
    obtain ⟨item, hitem⟩ := hfull _ List.mem_cons_self
    obtain ⟨items, htake, hlength, hitems⟩ := @ih (buckets.set index none) (newSlot + 1) hnodup
      fun entry hentry => by
        rw [hother entry hentry]
        exact hfull entry (List.mem_cons_of_mem _ hentry)
    refine ⟨setTopoOrder (if reverse then reverseItem item else item) newSlot :: items, ?_, ?_, ?_⟩
    · rw [takeItems, hitem]
      simp only [Option.bind_eq_bind, Option.bind_some, htake]
      rfl
    · simp [hlength]
    · intro slot index' reverse' item' hslot hbucket
      cases slot with
      | zero =>
        cases hslot
        rw [hitem] at hbucket
        cases hbucket
        rfl
      | succ slot =>
        rw [List.getElem?_cons_succ] at hslot ⊢
        have hmem := List.mem_of_getElem? hslot
        rw [hitems slot index' reverse' item' hslot (by rw [hother _ hmem]; exact hbucket)]
        simp [Nat.add_assoc, Nat.add_comm 1]

end InPlace

/-- The items are only replaced when every check passed. -/
theorem applyOrderProposalInPlace_eq (entities : List (PrintEntity F))
    (proposal : List (Nat × Bool)) :
    applyOrderProposalInPlace
        (fun entity => { entity with
          path := { entity.path with points := entity.path.points.reverse } })
        (fun entity topoOrder => { entity with topoOrder }) entities proposal =
      some (match applyOrderProposal entities proposal with
        | .ok entities' => (.ok (), entities')
        | .error message => (.error message, entities)) := by
  unfold applyOrderProposalInPlace applyOrderProposal checkProposal
  simp only
  split
  · rfl
  rename_i hlength
  cases hrange : proposal.find? (fun entry => entry.1 ≥ entities.length) with
  | some entry => rfl
  | none =>
    have hbound : ∀ entry ∈ proposal, entry.1 < entities.length := by
      intro entry hentry
      simpa using List.find?_eq_none.mp hrange entry hentry
    have hmarks : markSeen (List.replicate entities.length false) proposal = some
        (match firstDuplicate (proposal.map Prod.fst) with
        | some index => .error s!"set-entity-order: duplicate index {index}"
        | none => .ok ()) := by
      refine @markSeen_eq _ [] _ _ (fun i hi => ?_) hbound
      simp [hi]
    simp only [hmarks]
    cases hduplicate : firstDuplicate (proposal.map Prod.fst) with
    | some index => rfl
    | none =>
      have hcheck : checkProposal entities.length proposal = .ok () := by
        simp [checkProposal, not_not.mp hlength, hrange, hduplicate]
      have hperm := checkProposal_ok_iff.mp hcheck
      obtain ⟨entities', happly, hreordered⟩ := applyOrderProposal_ok hperm
      have hplaced : proposal.zipIdx.mapM (placeEntity entities) = .ok entities' := by
        rw [applyOrderProposal, hcheck] at happly
        exact happly
      have hfull : ∀ entry ∈ proposal, ∃ item, (entities.map some)[entry.1]? = some (some item) := by
        intro entry hentry
        rw [List.getElem?_map, List.getElem?_eq_getElem (hbound entry hentry)]
        exact ⟨_, rfl⟩
      obtain ⟨items, htake, hitems, hplace⟩ := takeItems_spec
        (fun entity : PrintEntity F => { entity with
          path := { entity.path with points := entity.path.points.reverse } })
        (fun entity topoOrder => { entity with topoOrder }) 0
        (hperm.nodup_iff.mpr List.nodup_range) hfull
      have hsame : items = entities' := by
        refine Reordered.unique ⟨hitems, fun slot index reverse hentry => ?_⟩ hreordered
        have hindex := hbound _ (List.mem_of_getElem? hentry)
        have hat := List.getElem?_eq_getElem hindex
        refine ⟨_, hat, ?_⟩
        rw [hplace slot index reverse _ hentry (by rw [List.getElem?_map, hat]; rfl)]
        cases reverse <;> simp [PrintEntity.placedAt]
      simp only [htake, hsame, hplaced]
      rfl

/-- The call with the arena threaded through it never panics; it answers as
`applyEntityOrderProposal` does, and a refused proposal leaves the arena alone. -/
theorem applyEntityOrderProposalInPlace_eq (arena : LayerArena F) (proposal : List (Nat × Bool)) :
    applyEntityOrderProposalInPlace arena proposal =
      some (match applyEntityOrderProposal arena proposal with
        | .ok arena' => (.ok (), arena')
        | .error message => (.error message, arena)) := by
  unfold applyEntityOrderProposalInPlace applyEntityOrderProposal
  cases hstaged : arena.layerCollection with
  | none => rfl
  | some collection =>
    simp only
    cases validateEntityOrderLocks collection.orderedEntities proposal with
    | error message => rfl
    | ok =>
      simp only [applyOrderProposalInPlace_eq]
      cases applyOrderProposal collection.orderedEntities proposal with
      | ok entities => rfl
      | error message =>
        -- the collection that was taken off is put back as it was
        have hback : { arena with layerCollection := some collection } = arena := by
          rw [← hstaged]
        exact congrArg (fun arena => some (Except.error message, arena)) hback

/-- Entity-order proposals are applied exactly or not at all. On every proposal the
call returns: with success exactly when the indices are a permutation and every
maximal run of one tag stands in the proposal in one piece, in order and unreversed.
Then each slot holds the proposed entity, turned around if asked and renumbered, and
the arena is otherwise as it was; without success the arena is untouched. -/
theorem entity_order_proposal_exact {arena : LayerArena F} {collection : LayerCollectionIR F}
    (hstaged : arena.layerCollection = some collection) (proposal : List (Nat × Bool)) :
    ∃ result arena', applyEntityOrderProposalInPlace arena proposal = some (result, arena') ∧
      (result = .ok () ↔
        (proposal.map Prod.fst).Perm (List.range collection.orderedEntities.length) ∧
          ∀ tag start stop, LockedRun collection.orderedEntities tag start stop →
            runEntries start stop <:+: proposal) ∧
      (result = .ok () → ∃ entities', Reordered collection.orderedEntities proposal entities' ∧
        arena' =
          { arena with layerCollection := some { collection with orderedEntities := entities' } }) ∧
      ∀ message, result = .error message → arena' = arena := by
  have hiff := applyEntityOrderProposal_ok_iff hstaged proposal
  have hcall := applyEntityOrderProposalInPlace_eq arena proposal
  cases hresult : applyEntityOrderProposal arena proposal with
  | error message =>
    rw [hresult] at hcall hiff
    refine ⟨_, _, hcall, ?_, (fun h => by cases h), fun _ _ => rfl⟩
    rw [← hiff]
    constructor
    · intro h
      cases h
    · rintro ⟨arena', h⟩
      cases h
  | ok arena' =>
    rw [hresult] at hcall hiff
    have haccepted := hiff.mp ⟨_, rfl⟩
    refine ⟨_, _, hcall, iff_of_true rfl haccepted, fun _ => ?_, (fun _ h => by cases h)⟩
    obtain ⟨entities', happly, hreordered⟩ := applyOrderProposal_ok haccepted.1
    simp only [applyEntityOrderProposal, hstaged] at hresult
    obtain ⟨_, _, hresult⟩ := Except.of_bind_eq_ok hresult
    rw [happly] at hresult
    cases hresult
    exact ⟨entities', hreordered, rfl⟩

/-- A path with a lock, or without one. -/
def stagedPath (y : ℚ) (orderLock : Option Nat) : ExtrusionPath3D ℚ where
  points := [⟨0, y, 1, 1, 1, none, 0, none⟩, ⟨5, y, 1, 1, 1, none, 0, none⟩]
  role := .SparseInfill
  speedFactor := 1
  orderLock := orderLock

/-- Two paths under one lock, and one without. -/
def lockedPair : LayerCollectionIR ℚ where
  globalLayerIndex := 0
  z := 1
  orderedEntities := pushParts
    [⟨stagedPath 1 (some 7), 0, {}⟩, ⟨stagedPath 2 (some 7), 0, {}⟩, ⟨stagedPath 3 none, 0, {}⟩]

/-- The free path is turned around and goes first, the locked pair follows as it was. -/
theorem entity_order_proposal_exact_pair :
    ∃ arena' entities', applyEntityOrderProposalInPlace { layerCollection := some lockedPair }
        [(2, true), (0, false), (1, false)] = some (.ok (), arena') ∧
      Reordered lockedPair.orderedEntities [(2, true), (0, false), (1, false)] entities' ∧
      arena'.layerCollection = some { lockedPair with orderedEntities := entities' } := by
  obtain ⟨result, arena', hcall, _, happlied, _⟩ :=
    @entity_order_proposal_exact ℚ { layerCollection := some lockedPair } lockedPair rfl
      [(2, true), (0, false), (1, false)]
  have hresult : (applyEntityOrderProposalInPlace { layerCollection := some lockedPair }
      [(2, true), (0, false), (1, false)]).map Prod.fst = some (.ok ()) := by decide +kernel
  rw [hcall] at hresult
  obtain rfl : result = .ok () := by simpa using hresult
  obtain ⟨entities', hreordered, rfl⟩ := happlied rfl
  exact ⟨_, entities', hcall, hreordered, rfl⟩

end PinchNPrint.Layer
