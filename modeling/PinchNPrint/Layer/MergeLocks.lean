/-
Locked blocks through finalization.

A sort is checked against the blocks of its layer; a push, an insert and a
permutation are not. `locked_blocks_stay_together` says which steps leave a run of
one tag in one piece. The final remap renumbers local tags path by path, so a run
is followed by ids and geometry, not by its tag.
-/

import PinchNPrint.Layer.Anchors
import PinchNPrint.Layer.Proposals

namespace PinchNPrint.Layer

variable {F : Type}

/-! ### Entities that stay the same -/

/-- The part of a point that a lock protects. -/
def SameGeometry (p p' : Point3WithWidth F) : Prop :=
  p'.x = p.x ∧ p'.y = p.y ∧ p'.z = p.z ∧ p'.width = p.width

/-- The same entity with the same geometry; flow factors may differ unless they
are `fixed`. -/
structure SameExtrusion (fixed : Prop) (e e' : PrintEntity F) : Prop where
  entityId : e'.entityId = e.entityId
  geometry : List.Forall₂ SameGeometry e.path.points e'.path.points
  points : fixed → e'.path.points = e.path.points

section SameExtrusion

variable {fixed : Prop}

theorem SameGeometry.refl_points (points : List (Point3WithWidth F)) :
    List.Forall₂ SameGeometry points points :=
  List.forall₂_same.mpr fun _ _ => ⟨rfl, rfl, rfl, rfl⟩

theorem SameExtrusion.refl (e : PrintEntity F) : SameExtrusion fixed e e :=
  ⟨rfl, SameGeometry.refl_points _, fun _ => rfl⟩

theorem SameExtrusion.trans {e e' e'' : PrintEntity F} (h : SameExtrusion fixed e e')
    (h' : SameExtrusion fixed e' e'') : SameExtrusion fixed e e'' where
  entityId := h'.entityId.trans h.entityId
  geometry := by
    refine h.geometry.trans_of (fun a b c hab hbc => ?_) h'.geometry
    obtain ⟨hx, hy, hz, hw⟩ := hab
    obtain ⟨hx', hy', hz', hw'⟩ := hbc
    exact ⟨hx'.trans hx, hy'.trans hy, hz'.trans hz, hw'.trans hw⟩
  points hfixed := (h'.points hfixed).trans (h.points hfixed)

theorem SameExtrusion.of_points {e e' : PrintEntity F} (hid : e'.entityId = e.entityId)
    (hpoints : e'.path.points = e.path.points) : SameExtrusion fixed e e' :=
  ⟨hid, hpoints ▸ SameGeometry.refl_points _, fun _ => hpoints⟩

end SameExtrusion

/-! ### Blocks that stay in one piece -/

/-- The locked entities of a row are at new places of another, and neighbours
with one tag are neighbours there. -/
structure BlocksPlaced (fixed : Prop) (row row' : List (PrintEntity F)) (place : Nat → Nat) :
    Prop where
  found : ∀ i e, row[i]? = some e → e.path.orderLock.isSome = true →
    ∃ e', row'[place i]? = some e' ∧ SameExtrusion fixed e e' ∧
      e'.path.orderLock = e.path.orderLock
  neighbours : ∀ i tag, lockAt row i = some tag → lockAt row (i + 1) = some tag →
    place (i + 1) = place i + 1

/-- The blocks of a layer stay in one piece. -/
def BlocksStay (fixed : Prop) (layer layer' : LayerCollectionIR F) : Prop :=
  ∃ place, BlocksPlaced fixed layer.orderedEntities layer'.orderedEntities place

section Blocks

variable {fixed : Prop} {row row' row'' : List (PrintEntity F)} {place place' : Nat → Nat}

variable {tag : Nat}

theorem lockAt_eq_some {row : List (PrintEntity F)} {i : Nat} (h : lockAt row i = some tag) :
    ∃ e, row[i]? = some e ∧ e.path.orderLock = some tag := by
  obtain ⟨e, he, hlock⟩ := Option.bind_eq_some_iff.mp h
  exact ⟨e, he, hlock⟩

theorem BlocksPlaced.lockAt (h : BlocksPlaced fixed row row' place) {i : Nat}
    (hi : lockAt row i = some tag) : Layer.lockAt row' (place i) = some tag := by
  obtain ⟨e, he, hlock⟩ := lockAt_eq_some hi
  obtain ⟨e', he', -, hlock'⟩ := h.found i e he (by rw [hlock]; rfl)
  rw [Layer.lockAt, he', Option.bind_some, hlock', hlock]

theorem BlocksPlaced.trans (h : BlocksPlaced fixed row row' place)
    (h' : BlocksPlaced fixed row' row'' place') :
    BlocksPlaced fixed row row'' (fun i => place' (place i)) where
  found i e he hlocked := by
    obtain ⟨e', he', hsame, hlock⟩ := h.found i e he hlocked
    obtain ⟨e'', he'', hsame', hlock'⟩ := h'.found (place i) e' he' (hlock ▸ hlocked)
    exact ⟨e'', he'', hsame.trans hsame', hlock'.trans hlock⟩
  neighbours i tag hi hi' := by
    have hnext := h.neighbours i tag hi hi'
    have hlock' := h.lockAt hi'
    rw [hnext] at hlock' ⊢
    exact h'.neighbours (place i) tag (h.lockAt hi) hlock'

/-- Entities that are moved and not changed. -/
theorem BlocksPlaced.of_moves
    (hmoves : ∀ (i : Nat) (e : PrintEntity F), row[i]? = some e → row'[place i]? = some e)
    (hneighbours : ∀ i tag, Layer.lockAt row i = some tag → Layer.lockAt row (i + 1) = some tag →
      place (i + 1) = place i + 1) : BlocksPlaced fixed row row' place where
  found i e he _ := ⟨e, hmoves i e he, SameExtrusion.refl e, rfl⟩
  neighbours := hneighbours

theorem BlocksStay.refl (layer : LayerCollectionIR F) : BlocksStay fixed layer layer :=
  ⟨fun i => i, BlocksPlaced.of_moves (fun _ _ he => he) fun _ _ _ _ => rfl⟩

theorem BlocksStay.trans {layer layer' layer'' : LayerCollectionIR F}
    (h : BlocksStay fixed layer layer') (h' : BlocksStay fixed layer' layer'') :
    BlocksStay fixed layer layer'' := by
  obtain ⟨place, hplaced⟩ := h
  obtain ⟨place', hplaced'⟩ := h'
  exact ⟨_, hplaced.trans hplaced'⟩

theorem BlocksPlaced.block {before block after : List (PrintEntity F)}
    (h : BlocksPlaced fixed (before ++ block ++ after) row' place)
    (hblock : ∀ e ∈ block, e.path.orderLock = some tag) {k : Nat} {e : PrintEntity F}
    (hk : block[k]? = some e) :
    ∃ e', row'[place before.length + k]? = some e' ∧ SameExtrusion fixed e e' := by
  have hat : ∀ {j : Nat} {e : PrintEntity F}, block[j]? = some e →
      (before ++ block ++ after)[before.length + j]? = some e := by
    intro j e hj
    rw [List.append_assoc, List.getElem?_append_right (Nat.le_add_right _ _),
      Nat.add_sub_cancel_left, List.getElem?_append_left (List.getElem?_eq_some_iff.mp hj).1]
    exact hj
  have hlock : ∀ {j : Nat} {e : PrintEntity F}, block[j]? = some e →
      Layer.lockAt (before ++ block ++ after) (before.length + j) = some tag := by
    intro j e hj
    rw [Layer.lockAt, hat hj]
    exact hblock e (List.mem_of_getElem? hj)
  have hplace : ∀ (j : Nat) (e : PrintEntity F), block[j]? = some e →
      place (before.length + j) = place before.length + j := by
    intro j
    induction j with
    | zero => intro _ _; rfl
    | succ j ih =>
      intro e hj
      have hlt : j < block.length := Nat.lt_of_succ_lt (List.getElem?_eq_some_iff.mp hj).1
      have hprev := List.getElem?_eq_getElem hlt
      have hnext := h.neighbours (before.length + j) tag (hlock hprev) (hlock hj)
      rw [← Nat.add_assoc, hnext, ih _ hprev, Nat.add_assoc]
  have hlocked : e.path.orderLock.isSome = true := by
    rw [hblock e (List.mem_of_getElem? hk)]
    rfl
  obtain ⟨e', he', hsame, -⟩ := h.found _ e (hat hk) hlocked
  rw [hplace k e hk] at he'
  exact ⟨e', he', hsame⟩

/-- The block is a run of consecutive entities of the row, in its order. -/
def RunIn (fixed : Prop) (block row : List (PrintEntity F)) : Prop :=
  ∃ before run after, row = before ++ run ++ after ∧ List.Forall₂ (SameExtrusion fixed) block run

theorem RunIn.of_positions {block : List (PrintEntity F)} (start : Nat)
    (h : ∀ (k : Nat) (e : PrintEntity F), block[k]? = some e →
      ∃ e', row[start + k]? = some e' ∧ SameExtrusion fixed e e') : RunIn fixed block row := by
  refine ⟨row.take start, (row.drop start).take block.length, (row.drop start).drop block.length,
    ?_, ?_⟩
  · rw [List.append_assoc, List.take_append_drop, List.take_append_drop]
  · apply List.forall₂_of_getElem?
    · rw [List.length_take, List.length_drop]
      cases hlength : block.length with
      | zero => simp
      | succ n =>
        have hlast := List.getElem?_eq_getElem (l := block) (i := n) (by omega)
        obtain ⟨e', he', -⟩ := h n _ hlast
        have := (List.getElem?_eq_some_iff.mp he').1
        omega
    · intro k e e' hk hk'
      obtain ⟨placed, hplaced, hsame⟩ := h k e hk
      rw [List.getElem?_take_of_lt (List.getElem?_eq_some_iff.mp hk).1, List.getElem?_drop,
        hplaced] at hk'
      cases hk'
      exact hsame

/-- A block stands in the row, and still does under other order locks. -/
theorem BlocksPlaced.runIn {before block after : List (PrintEntity F)}
    (h : BlocksPlaced fixed (before ++ block ++ after) row' place)
    (hblock : ∀ e ∈ block, e.path.orderLock = some tag)
    (hrelocked : List.Forall₂ Relocked row' row'') : RunIn fixed block row'' := by
  refine RunIn.of_positions (place before.length) fun k e hk => ?_
  obtain ⟨e', he', hsame⟩ := h.block hblock hk
  obtain ⟨e'', he'', lock, -, rfl⟩ := hrelocked.getElem?_some he'
  exact ⟨_, he'', hsame.trans (SameExtrusion.of_points rfl rfl)⟩

end Blocks

/-! ### One layer -/

section Steps

variable {fixed : Prop} {layer layer' : LayerCollectionIR F}

theorem Extends.blocksPlaced (h : Extends layer layer') :
    BlocksPlaced fixed layer.orderedEntities layer'.orderedEntities fun i => i := by
  obtain ⟨added, hadded⟩ := h.2
  refine BlocksPlaced.of_moves (fun i e he => ?_) fun _ _ _ _ => rfl
  rw [← hadded, List.getElem?_append_left (List.getElem?_eq_some_iff.mp he).1]
  exact he

/-- Another path for one entity, with its lock, and with its geometry if it is
locked. -/
theorem setPath_stay {position : Nat} {e : PrintEntity F} {path : ExtrusionPath3D F}
    (he : layer.orderedEntities[position]? = some e) (hlock : path.orderLock = e.path.orderLock)
    (hsame : e.path.orderLock.isSome = true → SameExtrusion fixed e { e with path := path }) :
    BlocksStay fixed layer (setPath layer position e path) := by
  refine ⟨fun i => i, ?_, fun _ _ _ _ => rfl⟩
  intro i e₀ he₀ hlocked
  by_cases hi : position = i
  · subst hi
    rw [he] at he₀
    cases he₀
    have hlt := (List.getElem?_eq_some_iff.mp he).1
    exact ⟨{ e with path := path }, List.getElem?_set_self hlt, hsame hlocked, hlock⟩
  · refine ⟨e₀, ?_, SameExtrusion.refl e₀, rfl⟩
    rw [setPath, List.getElem?_set_ne hi]
    exact he₀

/-- A mutation leaves the geometry of a locked entity, and its points unless it
sets flow factors. -/
theorem modifyEntity_stay [DecidableEq F] {layerIdx entityId : Nat} {mutation : EntityMutation F}
    (h : modifyEntity layerIdx entityId mutation layer = .ok layer')
    (hfixed : fixed → ∀ v, mutation ≠ .SetFlowFactor v) : BlocksStay fixed layer layer' := by
  obtain ⟨position, e, he, -, h⟩ := modifyEntity_spec h
  cases mutation with
  | SetSpeedFactor v =>
    cases h
    exact setPath_stay he rfl fun _ => SameExtrusion.of_points rfl rfl
  | SetFlowFactor v =>
    cases h
    refine setPath_stay he rfl fun _ => ⟨rfl, ?_, fun hf => absurd rfl (hfixed hf v)⟩
    rw [List.forall₂_map_right_iff]
    exact SameGeometry.refl_points _
  | SetPathPoints v =>
    obtain ⟨⟨⟩, hcheck, h⟩ := Except.of_bind_eq_ok h
    cases h
    refine setPath_stay he rfl fun hlocked => SameExtrusion.of_points rfl ?_
    unfold checkPathPoints at hcheck
    split at hcheck
    · cases hcheck
    split at hcheck
    · cases hcheck
    split at hcheck
    · cases hcheck
    · rename_i hunchanged
      rw [hlocked, Bool.true_and, decide_eq_true_eq, not_not] at hunchanged
      exact hunchanged.symm
  | SetPointSpeedFactors v =>
    simp only [mutateEntity] at h
    split at h
    · cases h
    · cases h
      exact BlocksStay.refl layer

variable {row : List (PrintEntity F)} {start tag : Nat}

/-- The sort of the pushes keeps neighbours that sort next to each other. -/
theorem sortPushed_stay {pushes : List (PriorityPush F)} (h : sortPushed pushes layer = .ok layer')
    {place : Nat → Nat} (hpushed : BlocksPlaced fixed row layer.orderedEntities place)
    (hrank : pushPriorities pushes layer.globalLayerIndex ≠ [] → ∀ i tag,
      lockAt row i = some tag → lockAt row (i + 1) = some tag →
      List.sortRank (· ≤ ·) (effectivePriorities layer.orderedEntities
        (pushPriorities pushes layer.globalLayerIndex)) (place (i + 1)) =
      List.sortRank (· ≤ ·) (effectivePriorities layer.orderedEntities
        (pushPriorities pushes layer.globalLayerIndex)) (place i) + 1) :
    ∃ place, BlocksPlaced fixed row layer'.orderedEntities place := by
  by_cases hnone : pushPriorities pushes layer.globalLayerIndex = []
  · rw [sortPushed_unpushed h hnone]
    exact ⟨place, hpushed⟩
  · refine ⟨fun i => List.sortRank (· ≤ ·) (effectivePriorities layer.orderedEntities
      (pushPriorities pushes layer.globalLayerIndex)) (place i), ?_, hrank hnone⟩
    intro i e he hlocked
    obtain ⟨e', he', hsame, hlock⟩ := hpushed.found i e he hlocked
    exact ⟨e', sortPushed_moves h hnone he', hsame, hlock⟩

/-- An insert comes between no two neighbours with one tag. -/
theorem insertEntityAt_stay {position toolIndex : Nat} {path : ExtrusionPath3D F}
    {regionKey : RegionKey F}
    (h : insertEntityAt position path toolIndex regionKey layer = .ok layer')
    (hposition : ∀ i tag, position = i + 1 → lockAt layer.orderedEntities i = some tag →
      lockAt layer.orderedEntities (i + 1) ≠ some tag) : BlocksStay fixed layer layer' := by
  refine ⟨shiftFrom position, BlocksPlaced.of_moves (fun i e he => ?_) fun i tag hi hi' => ?_⟩
  · exact (insertEntityAt_moves h i).trans he
  · have hne : position ≠ i + 1 := fun heq => hposition i tag heq hi hi'
    unfold shiftFrom
    split <;> split <;> omega

/-- A permutation names neighbours with one tag one after the other. -/
theorem setEntityOrder_stay {items : List (Nat × Bool)}
    (h : setEntityOrder items layer = .ok layer')
    (hitems : ∀ k i tag, (items.map Prod.fst)[k]? = some i →
      lockAt layer.orderedEntities i = some tag → lockAt layer.orderedEntities (i + 1) = some tag →
      (items.map Prod.fst)[k + 1]? = some (i + 1)) : BlocksStay fixed layer layer' := by
  refine ⟨inverseAt (items.map Prod.fst), BlocksPlaced.of_moves (fun i e he => ?_)
    fun i tag hi hi' => ?_⟩
  · exact setEntityOrder_moves h he
  · obtain ⟨hlength, hcheck, -⟩ := setEntityOrder_spec h
    have hslot : ∀ {j tag : Nat}, lockAt layer.orderedEntities j = some tag →
        (items.map Prod.fst)[inverseAt (items.map Prod.fst) j]? = some j := by
      intro j tag hj
      obtain ⟨e, he, -⟩ := lockAt_eq_some hj
      refine getElem?_inverseAt (mem_of_checkPermutation hcheck ?_ (List.getElem?_eq_some_iff.mp he).1)
      rw [List.length_map, hlength]
    have hnext := hitems _ i tag (hslot hi) hi hi'
    have hnamed := hslot hi'
    -- an index is named once
    have hnodup := (checkPermutation_spec hcheck).2.1
    exact (List.getElem?_inj (List.getElem?_eq_some_iff.mp hnamed).1 hnodup).mp
      (hnamed.trans hnext.symm)

/-- No two entities of one block share an id. -/
def BlockIdsDistinct (row : List (PrintEntity F)) : Prop :=
  ∀ (tag i j : Nat) (e e' : PrintEntity F), i < j →
    (∀ k, i ≤ k → k ≤ j → lockAt row k = some tag) → row[i]? = some e → row[j]? = some e' →
    e.entityId ≠ e'.entityId

/-- The ids of the run of `tag` from `start` up to `stop`. -/
def runIds (row : List (PrintEntity F)) (start stop : Nat) : List Nat :=
  ((row.drop start).take (stop - start)).map (·.entityId)

theorem getElem?_runIds {stop k : Nat} (hk : k < stop - start) :
    (runIds row start stop)[k]? = row[start + k]?.map (·.entityId) := by
  rw [runIds, List.getElem?_map, List.getElem?_take_of_lt hk, List.getElem?_drop]

theorem BlockIdsDistinct.nodup (h : BlockIdsDistinct row) {stop : Nat}
    (hrun : ∀ k, start ≤ k → k < stop → lockAt row k = some tag) :
    (runIds row start stop).Nodup := by
  rw [List.nodup_iff_pairwise_ne, List.pairwise_iff_getElem]
  intro a b ha hb hab
  have hlt : b < stop - start := by
    simp only [runIds, List.length_map, List.length_take] at hb
    omega
  obtain ⟨e, he, -⟩ := lockAt_eq_some (hrun (start + a) (by omega) (by omega))
  obtain ⟨e', he', -⟩ := lockAt_eq_some (hrun (start + b) (by omega) (by omega))
  have hfirst : (runIds row start stop)[a]? = row[start + a]?.map (·.entityId) :=
    getElem?_runIds (by omega)
  have hsecond : (runIds row start stop)[b]? = row[start + b]?.map (·.entityId) :=
    getElem?_runIds hlt
  rw [he, List.getElem?_eq_getElem ha, Option.map_some, Option.some_inj] at hfirst
  rw [he', List.getElem?_eq_getElem hb, Option.map_some, Option.some_inj] at hsecond
  rw [hfirst, hsecond]
  exact h tag (start + a) (start + b) e e' (by omega)
    (fun k hk hk' => hrun k (by omega) (by omega)) he he'

/-- What the check of a block finds: its ids, at positions one after the other. -/
theorem validateLockedBlock_spec {before after : List (PrintEntity F)}
    (h : validateLockedBlock before after tag start = .ok ()) :
    ∃ found : List (PrintEntity F × Nat),
      found.map (·.1.entityId) = runIds before start (blockEnd before tag start) ∧
      (∀ e i, after[i]? = some e →
        e.entityId ∈ runIds before start (blockEnd before tag start) → (e, i) ∈ found) ∧
      ∀ (k : Nat) (x y : PrintEntity F × Nat), found[k]? = some x → found[k + 1]? = some y →
        y.2 = x.2 + 1 := by
  unfold validateLockedBlock at h
  simp only at h
  split at h
  · cases h
  rename_i hpassed
  simp only [Bool.or_eq_true, not_or, Bool.not_eq_true', Bool.not_eq_false, decide_eq_true_eq,
    not_not] at hpassed
  obtain ⟨⟨-, hconsecutive⟩, hids⟩ := hpassed
  refine ⟨_, hids, ?_, ?_⟩
  · intro e i he hmem
    refine List.mem_filter.mpr ⟨List.mk_mem_zipIdx_iff_getElem?.mpr he, ?_⟩
    exact List.contains_iff_mem.mpr hmem
  · intro k x y hx hy
    have hpair := List.all_eq_true.mp hconsecutive (x.2, y.2) ?_
    · simpa using hpair
    · refine List.mem_of_getElem? (i := k) ?_
      rw [List.getElem?_zip_eq_some, List.getElem?_tail, List.getElem?_map, List.getElem?_map]
      exact ⟨by rw [hx]; rfl, by rw [hy]; rfl⟩

/-- A checked sort keeps neighbours with one tag next to each other. -/
theorem validateLockedEntityOrder_neighbours {before after : List (PrintEntity F)}
    {place : Nat → Nat} (h : validateLockedEntityOrder before after = .ok ())
    (hids : BlockIdsDistinct before)
    (hplace : ∀ (i : Nat) (e : PrintEntity F), before[i]? = some e → after[place i]? = some e)
    {i : Nat} (hi : lockAt before i = some tag) (hi' : lockAt before (i + 1) = some tag) :
    place (i + 1) = place i + 1 := by
  obtain ⟨start, hle, hblock, hfirst⟩ := exists_blockStart hi
  have hstart := hblock start le_rfl hle
  have hcheck : validateLockedBlock before after tag start = .ok () := by
    obtain ⟨e, he, -⟩ := lockAt_eq_some hstart
    have hlt := (List.getElem?_eq_some_iff.mp he).1
    have hone := Except.forM_eq_ok_iff.mp h start (List.mem_range.mpr hlt)
    simp only [hstart, if_neg hfirst] at hone
    exact hone
  have hend : i + 1 < blockEnd before tag start := by
    refine lt_blockEnd (by omega) fun k hk hk' => ?_
    rcases Nat.le_succ_iff.mp hk' with hk' | rfl
    · exact hblock k hk hk'
    · exact hi'
  obtain ⟨found, hfound, hall, hnext⟩ := validateLockedBlock_spec hcheck
  have hnodup := hids.nodup fun k hk hk' => lockAt_of_lt_blockEnd hstart hk hk'
  -- an entity of the block is found at its offset in the block
  have hat : ∀ j, start ≤ j → j < blockEnd before tag start →
      ∃ x, found[j - start]? = some x ∧ x.2 = place j := by
    intro j hj hj'
    obtain ⟨e, he, -⟩ := lockAt_eq_some (lockAt_of_lt_blockEnd hstart hj hj')
    have hid : (runIds before start (blockEnd before tag start))[j - start]? = some e.entityId := by
      rw [getElem?_runIds (by omega), Nat.add_sub_cancel' hj, he]
      rfl
    obtain ⟨m, hm⟩ := List.mem_iff_getElem?.mp
      (hall e (place j) (hplace j e he) (List.mem_of_getElem? hid))
    have hidm : (runIds before start (blockEnd before tag start))[m]? = some e.entityId := by
      rw [← hfound, List.getElem?_map, hm]
      rfl
    have hsame := (List.getElem?_inj (List.getElem?_eq_some_iff.mp hidm).1 hnodup).mp
      (hidm.trans hid.symm)
    exact ⟨(e, place j), hsame ▸ hm, rfl⟩
  obtain ⟨x, hx, hxi⟩ := hat i hle (by omega)
  obtain ⟨y, hy, hyi⟩ := hat (i + 1) (by omega) hend
  rw [Nat.succ_sub hle] at hy
  rw [← hxi, ← hyi]
  exact hnext (i - start) x y hx hy

theorem sortLayer_stay {key : SortKey} (h : sortLayer key layer = .ok layer')
    (hids : BlockIdsDistinct layer.orderedEntities) : BlocksStay fixed layer layer' := by
  refine ⟨_, BlocksPlaced.of_moves (fun i e he => sortLayer_moves h he) fun i tag hi hi' => ?_⟩
  have hmoves := fun (i : Nat) (e : PrintEntity F) => sortLayer_moves (i := i) (e := e) h
  obtain ⟨⟨⟩, hvalid, h⟩ := Except.of_bind_eq_ok h
  cases h
  exact validateLockedEntityOrder_neighbours hvalid hids hmoves hi hi'

end Steps

/-! ### The merge -/

/-- What the step of an operation asks of the layers before it: no insert comes
between neighbours with one tag, a permutation names them one after the other, and
a sort is run on blocks of distinct ids. -/
def OpSpares (layers : List (LayerCollectionIR F)) : MergeOp F → Prop
  | .SortLayer index _ => ∀ p layer, findLayer layers index = some (p, layer) →
      BlockIdsDistinct layer.orderedEntities
  | .InsertEntityAt index position _ _ _ => ∀ p layer, findLayer layers index = some (p, layer) →
      ∀ i tag, position = i + 1 → lockAt layer.orderedEntities i = some tag →
        lockAt layer.orderedEntities (i + 1) ≠ some tag
  | .SetEntityOrder index items => ∀ p layer, findLayer layers index = some (p, layer) →
      ∀ k i tag, (items.map Prod.fst)[k]? = some i → lockAt layer.orderedEntities i = some tag →
        lockAt layer.orderedEntities (i + 1) = some tag →
        (items.map Prod.fst)[k + 1]? = some (i + 1)
  | .ModifyEntity .. => True
  | .InsertSynthLayer .. => True

/-- No operation sets flow factors. -/
def NoFlowFactors (ops : List (MergeOp F)) : Prop :=
  ∀ layer entityId v, MergeOp.ModifyEntity layer entityId (.SetFlowFactor v) ∉ ops

theorem update_stay [DecidableEq F] {fixed : Prop} {layers : List (LayerCollectionIR F)}
    {op : MergeOp F} (hop : OpSpares layers op)
    (hfixed : fixed → ∀ layer entityId v, op ≠ .ModifyEntity layer entityId (.SetFlowFactor v))
    {index p : Nat} {layer layer' : LayerCollectionIR F} (hindex : op.layer = some index)
    (hfind : findLayer layers index = some (p, layer)) (hlayer' : op.update layer = .ok layer') :
    BlocksStay fixed layer layer' := by
  cases op with
  | ModifyEntity index entityId mutation =>
    refine modifyEntity_stay hlayer' fun hf v hv => ?_
    exact hfixed hf index entityId v (hv ▸ rfl)
  | SortLayer index key =>
    cases hindex
    exact sortLayer_stay hlayer' (hop p layer hfind)
  | InsertEntityAt index position path toolIndex regionKey =>
    cases hindex
    exact insertEntityAt_stay hlayer' (hop p layer hfind)
  | SetEntityOrder index items =>
    cases hindex
    exact setEntityOrder_stay hlayer' (hop p layer hfind)
  | InsertSynthLayer idx data => cases hindex

/-- Every step of the merge meets its condition: the priority sort puts
neighbours with one tag next to each other, and every operation meets `OpSpares`
on the layers it is applied to. -/
structure StepsSpare [DecidableEq F] (builder : FinalizationOutputBuilder F)
    (layers : List (LayerCollectionIR F)) : Prop where
  sort : ∀ pushed, pushEntities layers builder.priorityPushes = .ok pushed →
    ∀ (p : Nat) (layer layer' : LayerCollectionIR F), layers[p]? = some layer →
    pushed[p]? = some layer' → pushPriorities builder.priorityPushes layer'.globalLayerIndex ≠ [] →
    ∀ i tag, lockAt layer.orderedEntities i = some tag →
      lockAt layer.orderedEntities (i + 1) = some tag →
      List.sortRank (· ≤ ·) (effectivePriorities layer'.orderedEntities
        (pushPriorities builder.priorityPushes layer'.globalLayerIndex)) (i + 1) =
      List.sortRank (· ≤ ·) (effectivePriorities layer'.orderedEntities
        (pushPriorities builder.priorityPushes layer'.globalLayerIndex)) i + 1
  ops : ∀ pushed sorted before op after state,
    pushEntities layers builder.priorityPushes = .ok pushed →
    pushed.mapM (sortPushed builder.priorityPushes) = .ok sorted →
    builder.mergeOps = before ++ op :: after → before.foldlM applyMergeOp sorted = .ok state →
    OpSpares state op

/-- Locked blocks through finalization: when every step of the merge meets its
condition, every run of entities with one tag is a run of consecutive entities of
the merged layer, in the same order, with the same geometry, and with the same
points unless flow factors were set. -/
theorem locked_blocks_stay_together [DecidableEq F] (builder : FinalizationOutputBuilder F)
    (layers layers' : List (LayerCollectionIR F)) (h : applyTo builder layers = .ok layers')
    (hsteps : StepsSpare builder layers) (p : Nat) (layer : LayerCollectionIR F)
    (hp : layers[p]? = some layer) (before block after : List (PrintEntity F)) (tag : Nat)
    (hrow : layer.orderedEntities = before ++ block ++ after)
    (hblock : ∀ e ∈ block, e.path.orderLock = some tag) :
    ∃ layer', layers'[landsAt builder.mergeOps p]? = some layer' ∧
      RunIn (NoFlowFactors builder.mergeOps) block layer'.orderedEntities := by
  obtain ⟨pushed, hpushed, h⟩ := Except.of_bind_eq_ok h
  obtain ⟨sorted, hsorted, h⟩ := Except.of_bind_eq_ok h
  obtain ⟨merged, hmerged, h⟩ := Except.of_bind_eq_ok h
  obtain ⟨annotated, hannotated, h⟩ := Except.of_bind_eq_ok h
  obtain ⟨layer₁, hlayer₁, hextends⟩ := pushEntities_extends hpushed hp
  obtain ⟨layer₂, hlayer₂, hsort⟩ := Except.getElem?_of_mapM_eq_ok hsorted hlayer₁
  have hstay : BlocksStay (NoFlowFactors builder.mergeOps) layer layer₂ :=
    sortPushed_stay hsort hextends.blocksPlaced
      (hsteps.sort pushed hpushed p layer layer₁ hp hlayer₁)
  have hops : Related (BlocksStay (NoFlowFactors builder.mergeOps)) (landsAt builder.mergeOps)
      sorted merged := by
    refine foldlM_applyMergeOp_related BlocksStay.refl (fun _ _ _ => BlocksStay.trans) hmerged ?_
    intro before op after state hsplit hstate index q old new
    refine update_stay (hsteps.ops pushed sorted before op after state hpushed hsorted hsplit hstate) ?_
    rintro hfixed layer entityId v rfl
    exact hfixed layer entityId v (by rw [hsplit]; simp)
  obtain ⟨layer₃, hlayer₃, hstay₃⟩ := hops p layer₂ hlayer₂
  obtain ⟨layer₄, hlayer₄, hstay₄⟩ := pushAnnotations_related (R := BlocksStay _)
    BlocksStay.refl (fun _ _ _ => BlocksStay.trans) hannotated
    (fun layer annotations => BlocksStay.refl layer) _ layer₃ hlayer₃
  obtain ⟨layer', hlayer', entities, rfl, hrelocked⟩ :=
    (remapLayers_relocked h).getElem?_some hlayer₄
  obtain ⟨place, hplaced⟩ := (hstay.trans hstay₃).trans hstay₄
  rw [hrow] at hplaced
  exact ⟨_, hlayer', hplaced.runIn hblock hrelocked⟩

/-- A wall in a locked block. -/
def lockedEntity (entityId topoOrder : Nat) : PrintEntity ℚ :=
  { roleEntity .OuterWall entityId topoOrder with
    path := { rolePath .OuterWall with orderLock := some globalBit } }

/-- Two walls in one block. -/
def lockedLayer : LayerCollectionIR ℚ :=
  { globalLayerIndex := 0, z := 1, orderedEntities := [lockedEntity 1 0, lockedEntity 2 1] }

/-- An insert at a position. -/
def insertBuilder (position : Nat) : FinalizationOutputBuilder ℚ :=
  { mergeOps := [.InsertEntityAt 0 position (rolePath .InnerWall) 0 {}] }

/-- An insert behind the block. -/
theorem insertBuilder_spares : StepsSpare (insertBuilder 2) [lockedLayer] := by
  constructor
  · intro pushed _ p layer layer' _ _ hpriorities
    exact absurd rfl hpriorities
  · intro pushed sorted before op after state hpushed hsorted hsplit hrun
    cases hpushed
    obtain ⟨rfl, rfl⟩ : before = [] ∧ op = .InsertEntityAt 0 2 (rolePath .InnerWall) 0 {} := by
      cases before with
      | nil =>
        cases hsplit
        exact ⟨rfl, rfl⟩
      | cons first rest =>
        have := congrArg List.length hsplit
        simp [insertBuilder] at this
    cases hrun
    cases hsorted
    intro p layer hfind i tag hi _
    cases hfind
    cases hi
    exact nofun

theorem locked_blocks_stay_together_inserted : ∃ layer',
    [{ lockedLayer with
      orderedEntities := [lockedEntity 1 0, lockedEntity 2 1, roleEntity .InnerWall 3 2] }][landsAt
        (insertBuilder 2).mergeOps 0]? = some layer' ∧
      RunIn (NoFlowFactors (insertBuilder 2).mergeOps) [lockedEntity 1 0, lockedEntity 2 1]
        layer'.orderedEntities :=
  locked_blocks_stay_together (insertBuilder 2) [lockedLayer] _ (by decide +kernel)
    insertBuilder_spares 0 lockedLayer rfl [] [lockedEntity 1 0, lockedEntity 2 1] [] globalBit rfl
    (by simp [lockedEntity])

theorem RunIn.ids_infix {fixed : Prop} {block row : List (PrintEntity F)}
    (h : RunIn fixed block row) :
    block.map (·.entityId) <:+: row.map (·.entityId) := by
  obtain ⟨before, run, after, rfl, hrun⟩ := h
  have hids : block.map (·.entityId) = run.map (·.entityId) := by
    induction hrun with
    | nil => rfl
    | cons hfirst _ ih => rw [List.map_cons, List.map_cons, hfirst.entityId, ih]
  rw [hids, List.map_append, List.map_append]
  exact List.infix_append _ _ _

/-- The block after an insert between its walls. -/
def splitLayer : LayerCollectionIR ℚ :=
  { lockedLayer with
    orderedEntities := [lockedEntity 1 0, roleEntity .InnerWall 3 1, lockedEntity 2 1] }

/-- An insert takes a locked block apart. -/
theorem insert_splits_locked_block :
    applyTo (insertBuilder 1) [lockedLayer] = .ok [splitLayer] ∧
    (∀ e ∈ lockedLayer.orderedEntities, e.path.orderLock = some globalBit) ∧
    ¬ RunIn False lockedLayer.orderedEntities splitLayer.orderedEntities := by
  refine ⟨by decide +kernel, by simp [lockedLayer, lockedEntity], fun hrun => ?_⟩
  have hids := hrun.ids_infix
  revert hids
  decide

end PinchNPrint.Layer
