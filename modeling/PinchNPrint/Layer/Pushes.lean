/-
Pushes of a finalization module (`slicer-sdk`: `traits.rs`).

A push names a layer by its index and goes to the first row with it. Rows may share an index:
a synthesized row takes that of the model row above it. The priority sort that follows runs on
every row whose index was pushed to, and takes the last entities of each for the pushed ones.

`pushes_touch_target_iff`: a builder with pushes alone changes nothing but the rows it pushes
to, exactly when every further row of such an index has room for the pushes and is left in
place by the sort, and the remap of the order locks takes all locks and finds no local tag in
the rows that receive nothing.
-/

import PinchNPrint.Layer.Anchors
import PinchNPrint.Lib.Grouping

namespace PinchNPrint.Layer

variable {F : Type}

/-! ### Stable sorting -/

section Sorting

variable {α β : Type} {r s : α → α → Prop} [DecidableRel r] [DecidableRel s]

theorem orderedInsert_congr {a : α} {l : List α} (h : ∀ b ∈ l, (r a b ↔ s a b)) :
    l.orderedInsert r a = l.orderedInsert s a := by
  induction l with
  | nil => rfl
  | cons b rest ih =>
    obtain ⟨hfirst, hrest⟩ := List.forall_mem_cons.mp h
    rw [List.orderedInsert_cons, List.orderedInsert_cons, ih hrest]
    simp only [hfirst]

/-- The sort only compares elements in the order they have. -/
theorem insertionSort_congr {l : List α} (h : l.Pairwise fun a b => (r a b ↔ s a b)) :
    l.insertionSort r = l.insertionSort s := by
  induction l with
  | nil => rfl
  | cons a rest ih =>
    obtain ⟨hfirst, hrest⟩ := List.pairwise_cons.mp h
    rw [List.insertionSort_cons, List.insertionSort_cons, ih hrest]
    exact orderedInsert_congr fun b hb => hfirst b ((List.mem_insertionSort s).mp hb)

end Sorting

/-! ### Rows -/

/-- Elements in the order of their priorities; those of one priority keep theirs. -/
def orderByPriority {α : Type} (priorities : List Nat) (elements : List α) : List α :=
  ((priorities.zip elements).insertionSort fun a b => a.1 ≤ b.1).map Prod.snd

/-- The first two phases of `apply_to`: the pushes, and the priority sort. -/
def mergePushes (pushes : List (PriorityPush F)) (layers : List (LayerCollectionIR F)) :
    Except String (List (LayerCollectionIR F)) := do
  let layers ← pushEntities layers pushes
  layers.mapM (sortPushed pushes)

/-- The pushes to an index. -/
def pushesTo (pushes : List (PriorityPush F)) (index : Nat) : List (PriorityPush F) :=
  pushes.filter (·.layerIndex = index)

/-- The row at a position is the first of its index. -/
def IsFirst (layers : List (LayerCollectionIR F)) (p : Nat) (layer : LayerCollectionIR F) : Prop :=
  ∀ other ∈ layers.take p, other.globalLayerIndex ≠ layer.globalLayerIndex

/-- The entity that a push adds. -/
structure Adds (push : PriorityPush F) (entity : PrintEntity F) : Prop where
  path : entity.path = push.path
  role : entity.role = push.path.role
  toolIndex : entity.toolIndex = push.toolIndex
  regionKey : entity.regionKey = push.regionKey

/-- What pushes make of their row: an entity for each, with a new id, in the order of the
priorities. An entity that was there has the priority of its role. -/
def RowMerged (pushed : List (PriorityPush F)) (layer row : LayerCollectionIR F) : Prop :=
  ∃ added, List.Forall₂ Adds pushed added ∧
    (added.map (·.entityId)).Nodup ∧
    (∀ e ∈ added, e.entityId ∉ layer.orderedEntities.map (·.entityId)) ∧
    row = { layer with
      orderedEntities := orderByPriority
        (layer.orderedEntities.map (·.role.defaultPriority) ++ pushed.map (·.priority))
        (layer.orderedEntities ++ added) }

/-- Pushes change their rows and no other; the local tags of a row that receives some become
global. -/
structure PushesMerged (pushes : List (PriorityPush F)) (layers rows : List (LayerCollectionIR F)) :
    Prop where
  length : rows.length = layers.length
  target : ∀ (p : Nat) (layer row : LayerCollectionIR F), layers[p]? = some layer →
    rows[p]? = some row → IsFirst layers p layer → pushesTo pushes layer.globalLayerIndex ≠ [] →
      ∃ merged, RowMerged (pushesTo pushes layer.globalLayerIndex) layer merged ∧
        RelockedLayer merged row
  others : ∀ (p : Nat) (layer row : LayerCollectionIR F), layers[p]? = some layer →
    rows[p]? = some row →
      ¬ IsFirst layers p layer ∨ pushesTo pushes layer.globalLayerIndex = [] → row = layer

/-- Every further row of an index that is pushed to holds as many entities as are pushed, and
sorting it, with its last entities at the pushed priorities, changes nothing. -/
def RowsSettled (pushes : List (PriorityPush F)) (layers : List (LayerCollectionIR F)) : Prop :=
  ∀ (p : Nat) (layer : LayerCollectionIR F), layers[p]? = some layer → ¬ IsFirst layers p layer →
    pushesTo pushes layer.globalLayerIndex ≠ [] →
      (pushesTo pushes layer.globalLayerIndex).length ≤ layer.orderedEntities.length ∧
      orderByPriority (effectivePriorities layer.orderedEntities
        ((pushesTo pushes layer.globalLayerIndex).map (·.priority))) layer.orderedEntities =
          layer.orderedEntities

instance (layers : List (LayerCollectionIR F)) (p : Nat) (layer : LayerCollectionIR F) :
    Decidable (IsFirst layers p layer) :=
  inferInstanceAs (Decidable (∀ other ∈ layers.take p, _))

/-- The locks of the rows with the pushed paths among them. -/
def mergedLocks (pushes : List (PriorityPush F)) (layers : List (LayerCollectionIR F)) :
    List (Option Nat) :=
  (layers.mapIdx fun p layer =>
    let pushed := pushesTo pushes layer.globalLayerIndex
    if IsFirst layers p layer ∧ pushed ≠ [] then
      orderByPriority (layer.orderedEntities.map (·.role.defaultPriority) ++ pushed.map (·.priority))
        (rowLocks layer ++ pushed.map (·.path.orderLock))
    else rowLocks layer).flatten

/-- The remap takes all locks, and the rows that receive nothing hold no local tag. -/
structure LocksSettled (pushes : List (PriorityPush F)) (layers : List (LayerCollectionIR F)) :
    Prop where
  others : ∀ (p : Nat) (layer : LayerCollectionIR F), layers[p]? = some layer →
    ¬ IsFirst layers p layer ∨ pushesTo pushes layer.globalLayerIndex = [] →
      NoLocalTag layer.orderedEntities
  pass : LocksPass (nextTag (mergedLocks pushes layers)) (mergedLocks pushes layers)

/-! ### The priority sort -/

section PrioritySort

variable {priorities : List Nat} {entities : List (PrintEntity F)} {pushes : List (PriorityPush F)}
  {layer row : LayerCollectionIR F}

theorem sort_positions (priorities : List Nat) :
    (priorities.zipIdx.insertionSort fun a b => a.1 < b.1 ∨ a.1 = b.1 ∧ a.2 ≤ b.2) =
      priorities.zipIdx.insertionSort fun a b => a.1 ≤ b.1 := by
  have hpositions : priorities.zipIdx.Pairwise fun a b => a.2 < b.2 := by
    rw [← List.pairwise_map (f := Prod.snd), List.zipIdx_map_snd]
    exact List.pairwise_lt_range'
  refine insertionSort_congr (hpositions.imp fun hlt => ?_)
  omega

theorem map_orderByPriority {α β : Type} (f : α → β) (priorities : List Nat) (elements : List α) :
    (orderByPriority priorities elements).map f = orderByPriority priorities (elements.map f) := by
  unfold orderByPriority
  rw [List.zip_map_right, ← List.map_insertionSort (fun a b : ℕ × α => a.1 ≤ b.1)
    (fun a b : ℕ × β => a.1 ≤ b.1) _ _ fun _ _ _ _ => Iff.rfl, List.map_map, List.map_map]
  rfl

/-- Positions and what they hold. -/
theorem zipIdx_lookup (h : priorities.length = entities.length) :
    priorities.zipIdx.map (fun entry => (entry.1, entities[entry.2]?)) =
      (priorities.zip entities).map fun entry => (entry.1, some entry.2) := by
  refine List.ext_getElem? fun i => ?_
  rw [List.getElem?_map, List.getElem?_map, List.getElem?_zipIdx, List.zip, List.getElem?_zipWith]
  rcases Nat.lt_or_ge i priorities.length with hi | hi
  · rw [List.getElem?_eq_getElem hi, List.getElem?_eq_getElem (h ▸ hi)]
    simp [List.getElem?_eq_getElem (h ▸ hi)]
  · rw [List.getElem?_eq_none hi]
    rfl

theorem mapM_sorted (h : priorities.length = entities.length) :
    ((priorities.zipIdx.insertionSort fun a b => a.1 < b.1 ∨ a.1 = b.1 ∧ a.2 ≤ b.2).mapM
      fun entry => match entities[entry.2]? with
        | none => (.error "index out of bounds" : Except String (PrintEntity F))
        | some entity => .ok entity) = .ok (orderByPriority priorities entities) := by
  let take : Option (PrintEntity F) → Except String (PrintEntity F)
    | none => .error "index out of bounds"
    | some entity => .ok entity
  have hsome : ∀ l : List (ℕ × PrintEntity F),
      (l.map fun entry => (entry.1, some entry.2)).mapM (fun entry => take entry.2) =
        .ok (l.map Prod.snd) := by
    intro l
    induction l with
    | nil => rfl
    | cons entry rest ih =>
      rw [List.map_cons, List.mapM_cons, ih]
      rfl
  have hmap : (priorities.zipIdx.insertionSort fun a b => a.1 ≤ b.1).map
      (fun entry => (entry.1, entities[entry.2]?)) =
        ((priorities.zip entities).insertionSort fun a b => a.1 ≤ b.1).map
          fun entry => (entry.1, some entry.2) := by
    rw [List.map_insertionSort (fun a b : ℕ × ℕ => a.1 ≤ b.1)
        (fun a b : ℕ × Option (PrintEntity F) => a.1 ≤ b.1) _ _ fun _ _ _ _ => Iff.rfl,
      zipIdx_lookup h,
      List.map_insertionSort (fun a b : ℕ × PrintEntity F => a.1 ≤ b.1)
        (fun a b : ℕ × Option (PrintEntity F) => a.1 ≤ b.1) _ _ fun _ _ _ _ => Iff.rfl]
  have hlookup : (priorities.zipIdx.insertionSort fun a b => a.1 ≤ b.1).mapM
      (fun entry => take entities[entry.2]?) =
        ((priorities.zipIdx.insertionSort fun a b => a.1 ≤ b.1).map
          fun entry => (entry.1, entities[entry.2]?)).mapM fun entry => take entry.2 := by
    rw [List.mapM_map]
    rfl
  rw [sort_positions]
  exact hlookup.trans (by rw [hmap, hsome]; rfl)

/-- A row with room for the pushes is sorted by priority. -/
theorem sortPushed_ok (hpushed : pushesTo pushes layer.globalLayerIndex ≠ [])
    (hroom : (pushesTo pushes layer.globalLayerIndex).length ≤ layer.orderedEntities.length) :
    sortPushed pushes layer = .ok { layer with
      orderedEntities := orderByPriority (effectivePriorities layer.orderedEntities
        ((pushesTo pushes layer.globalLayerIndex).map (·.priority))) layer.orderedEntities } := by
  obtain ⟨pushed, hlist⟩ : ∃ pushed, pushed = pushPriorities pushes layer.globalLayerIndex :=
    ⟨_, rfl⟩
  have hlength : (effectivePriorities layer.orderedEntities pushed).length =
      layer.orderedEntities.length := by
    rw [hlist, effectivePriorities, List.length_append, List.length_map, List.length_take,
      pushPriorities, List.length_map]
    change min _ _ + (pushesTo pushes layer.globalLayerIndex).length = _
    rw [pushesTo] at *
    omega
  change _ = Except.ok { layer with
    orderedEntities := orderByPriority (effectivePriorities layer.orderedEntities
      (pushPriorities pushes layer.globalLayerIndex)) layer.orderedEntities }
  unfold sortPushed
  rw [← hlist]
  cases pushed with
  | nil =>
    refine absurd ?_ hpushed
    exact List.map_eq_nil_iff.mp hlist.symm
  | cons priority rest => exact Except.bind_eq_ok_iff.mpr ⟨_, mapM_sorted hlength, rfl⟩

/-- Where there is no room, a position past the entities is looked up. -/
theorem room_of_sortPushed (h : sortPushed pushes layer = .ok row) :
    (pushesTo pushes layer.globalLayerIndex).length ≤ layer.orderedEntities.length := by
  by_contra hroom
  have hmany : layer.orderedEntities.length < (effectivePriorities layer.orderedEntities
      (pushPriorities pushes layer.globalLayerIndex)).length := by
    have hlength : (pushPriorities pushes layer.globalLayerIndex).length =
        (pushesTo pushes layer.globalLayerIndex).length := List.length_map _
    rw [effectivePriorities, List.length_append, hlength]
    omega
  unfold sortPushed at h
  split at h
  · next hnil =>
    rw [pushPriorities, List.map_eq_nil_iff] at hnil
    rw [pushesTo, hnil] at hroom
    exact hroom (Nat.zero_le _)
  · obtain ⟨entities, hentities, -⟩ := Except.of_bind_eq_ok h
    have hmem := List.mk_mem_zipIdx_iff_getElem?.mpr (List.getElem?_eq_getElem hmany)
    obtain ⟨i, hi⟩ := List.getElem?_of_mem ((List.mem_insertionSort
      (fun a b : ℕ × ℕ => a.1 < b.1 ∨ a.1 = b.1 ∧ a.2 ≤ b.2)).mpr hmem)
    obtain ⟨entity, -, htake⟩ := Except.getElem?_of_mapM_eq_ok hentities hi
    have hlookup := of_take_eq_ok htake
    rw [List.getElem?_eq_none (Nat.le_refl _)] at hlookup
    cases hlookup

theorem sortPushed_of_nil (h : pushesTo pushes layer.globalLayerIndex = []) :
    sortPushed pushes layer = .ok layer := by
  have hnil : pushPriorities pushes layer.globalLayerIndex = [] := by
    rw [pushPriorities]
    exact List.map_eq_nil_iff.mpr h
  unfold sortPushed
  rw [hnil]

end PrioritySort

/-! ### The pushes -/

theorem nextEntityId_notMem (entities : List (PrintEntity F)) :
    nextEntityId entities ∉ entities.map (·.entityId) := by
  intro hmem
  unfold nextEntityId at hmem
  cases hmax : (entities.map (·.entityId)).max? with
  | none =>
    rw [List.max?_eq_none_iff] at hmax
    rw [hmax] at hmem
    cases hmem
  | some max =>
    rw [hmax] at hmem
    have hle : max + 1 ≤ max := (List.max?_eq_some_iff.mp hmax).2 _ hmem
    omega

section Pushing

variable {pushes : List (PriorityPush F)} {layers : List (LayerCollectionIR F)}
  {layer row : LayerCollectionIR F}

/-- The rows after the pushes: each takes what is left of the pushes to its index. -/
def pushRows : List (LayerCollectionIR F) → List (PriorityPush F) → List (LayerCollectionIR F)
  | [], _ => []
  | layer :: rest, pushes =>
      (pushesTo pushes layer.globalLayerIndex).foldl pushEntity layer ::
        pushRows rest (pushes.filter (·.layerIndex ≠ layer.globalLayerIndex))

theorem globalLayerIndex_foldl_pushEntity :
    (pushes.foldl pushEntity layer).globalLayerIndex = layer.globalLayerIndex := by
  induction pushes generalizing layer with
  | nil => rfl
  | cons push rest ih => rw [List.foldl_cons, ih, pushEntity]

theorem length_pushRows (layers : List (LayerCollectionIR F)) (pushes : List (PriorityPush F)) :
    (pushRows layers pushes).length = layers.length := by
  induction layers generalizing pushes with
  | nil => rfl
  | cons layer rest ih => rw [pushRows, List.length_cons, List.length_cons, ih]

theorem updateLayer_cons (first : LayerCollectionIR F) (rest : List (LayerCollectionIR F))
    (index : Nat) (update : LayerCollectionIR F → LayerCollectionIR F) :
    updateLayer (first :: rest) index (.ok (first :: rest)) (fun layer => .ok (update layer)) =
      if first.globalLayerIndex = index then .ok (update first :: rest)
      else (updateLayer rest index (.ok rest) fun layer => .ok (update layer)).map (first :: ·) := by
  unfold updateLayer findLayer
  rw [List.findIdx?_cons]
  by_cases hfirst : first.globalLayerIndex = index
  · rw [if_pos hfirst, if_pos (decide_eq_true hfirst)]
    rfl
  · rw [if_neg hfirst, if_neg (by simpa using hfirst)]
    cases rest.findIdx? (·.globalLayerIndex = index) with
    | none => rfl
    | some p =>
      simp only [Option.map_some, Option.bind_some, List.getElem?_cons_succ]
      cases rest[p]? <;> rfl

theorem updateLayer_pushRows (push : PriorityPush F) :
    updateLayer (pushRows layers pushes) push.layerIndex (.ok (pushRows layers pushes))
      (fun layer => .ok (pushEntity layer push)) = .ok (pushRows layers (pushes ++ [push])) := by
  induction layers generalizing pushes with
  | nil => rfl
  | cons layer rest ih =>
    rw [pushRows, pushRows, updateLayer_cons _ _ _ fun layer => pushEntity layer push,
      globalLayerIndex_foldl_pushEntity, pushesTo, pushesTo, List.filter_append, List.filter_append]
    by_cases hlayer : layer.globalLayerIndex = push.layerIndex
    · simp [hlayer]
    · have hne : push.layerIndex ≠ layer.globalLayerIndex := fun h => hlayer h.symm
      rw [if_neg hlayer, ih]
      simp [hne, Except.map]

theorem pushEntities_eq (layers : List (LayerCollectionIR F)) (pushes : List (PriorityPush F)) :
    pushEntities layers pushes = .ok (pushRows layers pushes) := by
  induction pushes using List.reverseRecOn with
  | nil =>
    have hnone : pushRows layers [] = layers := by
      induction layers with
      | nil => rfl
      | cons layer rest ih =>
        rw [pushRows]
        exact congrArg (layer :: ·) ih
    rw [hnone]
    rfl
  | append_singleton pushes push ih =>
    have hstep : pushEntities layers (pushes ++ [push]) = (pushEntities layers pushes >>= fun state =>
        updateLayer state push.layerIndex (.ok state) fun layer => .ok (pushEntity layer push)) := by
      rw [pushEntities, List.foldlM_append]
      simp [pushEntities]
    rw [hstep, ih]
    exact updateLayer_pushRows push

theorem isFirst_succ {first : LayerCollectionIR F} {rest : List (LayerCollectionIR F)} {p : Nat} :
    IsFirst (first :: rest) (p + 1) layer ↔
      first.globalLayerIndex ≠ layer.globalLayerIndex ∧ IsFirst rest p layer := by
  rw [IsFirst, List.take_succ_cons, List.forall_mem_cons]
  rfl

theorem getElem?_pushRows_first {p : Nat} (hlayer : layers[p]? = some layer)
    (hfirst : IsFirst layers p layer) :
    (pushRows layers pushes)[p]? =
      some ((pushesTo pushes layer.globalLayerIndex).foldl pushEntity layer) := by
  induction layers generalizing p pushes with
  | nil => cases hlayer
  | cons first rest ih =>
    cases p with
    | zero =>
      cases hlayer
      rfl
    | succ p =>
      obtain ⟨hne, hrest⟩ := isFirst_succ.mp hfirst
      rw [pushRows, List.getElem?_cons_succ, ih hlayer hrest, pushesTo, pushesTo, List.filter_filter]
      congr 2
      refine List.filter_congr fun push _ => ?_
      by_cases hpush : push.layerIndex = layer.globalLayerIndex
      · simp [hpush, Ne.symm hne]
      · simp [hpush]

/-- A further row takes none. -/
theorem getElem?_pushRows_further {p : Nat} (hlayer : layers[p]? = some layer)
    (hfurther : ¬ IsFirst layers p layer) : (pushRows layers pushes)[p]? = some layer := by
  induction layers generalizing p pushes with
  | nil => cases hlayer
  | cons first rest ih =>
    cases p with
    | zero => exact absurd (fun _ h => nomatch h) hfurther
    | succ p =>
      rw [pushRows, List.getElem?_cons_succ]
      by_cases hrest : IsFirst rest p layer
      · have hsame : first.globalLayerIndex = layer.globalLayerIndex := by
          by_contra hne
          exact hfurther (isFirst_succ.mpr ⟨hne, hrest⟩)
        have hnone : pushesTo (pushes.filter (·.layerIndex ≠ first.globalLayerIndex))
            layer.globalLayerIndex = [] := by
          rw [pushesTo, List.filter_filter, List.filter_eq_nil_iff]
          simp [hsame]
        have htake : rest[p]? = some layer := hlayer
        rw [getElem?_pushRows_first htake hrest, hnone]
        rfl
      · exact ih hlayer hrest

/-- What pushes append: an entity for each, with a new id. -/
theorem foldl_pushEntity (pushed : List (PriorityPush F)) (layer : LayerCollectionIR F) :
    ∃ added, List.Forall₂ Adds pushed added ∧ (added.map (·.entityId)).Nodup ∧
      (∀ e ∈ added, e.entityId ∉ layer.orderedEntities.map (·.entityId)) ∧
      pushed.foldl pushEntity layer =
        { layer with orderedEntities := layer.orderedEntities ++ added } := by
  induction pushed generalizing layer with
  | nil => exact ⟨[], .nil, List.nodup_nil, fun _ hmem => (nomatch hmem), by simp⟩
  | cons push rest ih =>
    obtain ⟨entity, hentity, hadds⟩ : ∃ entity, pushEntity layer push =
        { layer with orderedEntities := layer.orderedEntities ++ [entity] } ∧
          Adds push entity ∧ entity.entityId = nextEntityId layer.orderedEntities :=
      ⟨_, rfl, ⟨rfl, rfl, rfl, rfl⟩, rfl⟩
    obtain ⟨hadds, hid⟩ := hadds
    obtain ⟨added, hrest, hnodup, hnew, hfold⟩ := ih (pushEntity layer push)
    rw [hentity] at hnew
    simp only [List.map_append, List.map_singleton, List.mem_append, List.mem_singleton,
      not_or] at hnew
    refine ⟨entity :: added, .cons hadds hrest, ?_, ?_, ?_⟩
    · rw [List.map_cons, List.nodup_cons]
      refine ⟨fun hmem => ?_, hnodup⟩
      obtain ⟨e, he, heq⟩ := List.mem_map.mp hmem
      exact (hnew e he).2 heq
    · refine List.forall_mem_cons.mpr ⟨?_, fun e he => (hnew e he).1⟩
      rw [hid]
      exact nextEntityId_notMem layer.orderedEntities
    · rw [List.foldl_cons, hfold, hentity, List.append_assoc, List.singleton_append]

end Pushing

/-! ### The merge of pushes -/

section Merge

variable {pushes : List (PriorityPush F)} {layers rows : List (LayerCollectionIR F)}
  {layer row : LayerCollectionIR F}

theorem effectivePriorities_append {entities added : List (PrintEntity F)} {pushed : List Nat}
    (h : added.length = pushed.length) : effectivePriorities (entities ++ added) pushed =
      entities.map (·.role.defaultPriority) ++ pushed := by
  rw [effectivePriorities, List.length_append, h, Nat.add_sub_cancel, List.take_left]

theorem rowMerged_of_sortPushed (hpushed : pushesTo pushes layer.globalLayerIndex ≠ []) :
    ∃ row, sortPushed pushes ((pushesTo pushes layer.globalLayerIndex).foldl pushEntity layer) =
      .ok row ∧ RowMerged (pushesTo pushes layer.globalLayerIndex) layer row := by
  obtain ⟨added, hadds, hnodup, hnew, hfold⟩ :=
    foldl_pushEntity (pushesTo pushes layer.globalLayerIndex) layer
  have hlength := hadds.length_eq
  have hroom : (pushesTo pushes layer.globalLayerIndex).length ≤
      (layer.orderedEntities ++ added).length := by
    rw [List.length_append]
    omega
  have hsorted : sortPushed pushes
      { layer with orderedEntities := layer.orderedEntities ++ added } = .ok _ :=
    sortPushed_ok hpushed hroom
  refine ⟨_, by rw [hfold, hsorted], added, hadds, hnodup, hnew, ?_⟩
  simp only
  rw [effectivePriorities_append (by rw [List.length_map, hlength])]

theorem mergePushes_eq (pushes : List (PriorityPush F)) (layers : List (LayerCollectionIR F)) :
    mergePushes pushes layers = (pushRows layers pushes).mapM (sortPushed pushes) := by
  rw [mergePushes, pushEntities_eq]
  rfl

/-- A further row that is settled is left in place. -/
theorem sortPushed_further
    (h : pushesTo pushes layer.globalLayerIndex ≠ [] →
      (pushesTo pushes layer.globalLayerIndex).length ≤ layer.orderedEntities.length ∧
      orderByPriority (effectivePriorities layer.orderedEntities
        ((pushesTo pushes layer.globalLayerIndex).map (·.priority))) layer.orderedEntities =
          layer.orderedEntities) : sortPushed pushes layer = .ok layer := by
  by_cases hpushed : pushesTo pushes layer.globalLayerIndex = []
  · exact sortPushed_of_nil hpushed
  · obtain ⟨hroom, hsame⟩ := h hpushed
    rw [sortPushed_ok hpushed hroom, hsame]

/-- Where every further row is settled, the merge succeeds. -/
theorem exists_mergePushes (h : RowsSettled pushes layers) :
    ∃ rows, mergePushes pushes layers = .ok rows := by
  rw [mergePushes_eq]
  refine List.exists_mapM_eq_ok fun row hrow => ?_
  obtain ⟨p, hp⟩ := List.getElem?_of_mem hrow
  have hlength : (pushRows layers pushes).length = layers.length := length_pushRows layers pushes
  have hlt : p < layers.length := hlength ▸ (List.getElem?_eq_some_iff.mp hp).1
  have hlayer := List.getElem?_eq_getElem hlt
  by_cases hfirst : IsFirst layers p layers[p]
  · rw [getElem?_pushRows_first hlayer hfirst] at hp
    obtain rfl := Option.some.inj hp
    by_cases hpushed : pushesTo pushes layers[p].globalLayerIndex = []
    · exact ⟨_, by rw [hpushed]; exact sortPushed_of_nil hpushed⟩
    · obtain ⟨row, hrow, -⟩ := rowMerged_of_sortPushed hpushed
      exact ⟨row, hrow⟩
  · rw [getElem?_pushRows_further hlayer hfirst] at hp
    obtain rfl := Option.some.inj hp
    exact ⟨_, sortPushed_further (h p _ hlayer hfirst)⟩

theorem sortPushed_of_mergePushes (h : mergePushes pushes layers = .ok rows) {p : Nat}
    (hrow : rows[p]? = some row) :
    ∃ pushed, (pushRows layers pushes)[p]? = some pushed ∧ sortPushed pushes pushed = .ok row := by
  rw [mergePushes_eq] at h
  have hlength := (Except.forall₂_of_mapM_eq_ok h).length_eq
  have hlt : p < (pushRows layers pushes).length :=
    hlength ▸ (List.getElem?_eq_some_iff.mp hrow).1
  have hpushed := List.getElem?_eq_getElem hlt
  obtain ⟨row', hrow', hsort⟩ := Except.getElem?_of_mapM_eq_ok h hpushed
  obtain rfl := Option.some.inj (hrow.symm.trans hrow')
  exact ⟨_, hpushed, hsort⟩

theorem length_of_mergePushes (h : mergePushes pushes layers = .ok rows) :
    rows.length = layers.length := by
  rw [mergePushes_eq] at h
  rw [← (Except.forall₂_of_mapM_eq_ok h).length_eq, length_pushRows]

/-- The merge gives the first row of an index the pushes to it. -/
theorem mergePushes_target (h : mergePushes pushes layers = .ok rows) {p : Nat}
    (hlayer : layers[p]? = some layer) (hrow : rows[p]? = some row) (hfirst : IsFirst layers p layer)
    (hpushed : pushesTo pushes layer.globalLayerIndex ≠ []) :
    RowMerged (pushesTo pushes layer.globalLayerIndex) layer row := by
  obtain ⟨pushed, hpushRow, hsort⟩ := sortPushed_of_mergePushes h hrow
  rw [getElem?_pushRows_first hlayer hfirst] at hpushRow
  obtain rfl := Option.some.inj hpushRow
  obtain ⟨row', hrow', hmerged⟩ := rowMerged_of_sortPushed hpushed
  obtain rfl := Except.ok.inj (hsort.symm.trans hrow')
  exact hmerged

/-- A row that receives nothing is sorted as it is. -/
theorem mergePushes_others (h : mergePushes pushes layers = .ok rows) {p : Nat}
    (hlayer : layers[p]? = some layer) (hrow : rows[p]? = some row)
    (hother : ¬ IsFirst layers p layer ∨ pushesTo pushes layer.globalLayerIndex = []) :
    sortPushed pushes layer = .ok row := by
  obtain ⟨pushed, hpushRow, hsort⟩ := sortPushed_of_mergePushes h hrow
  by_cases hfirst : IsFirst layers p layer
  · rw [getElem?_pushRows_first hlayer hfirst,
      hother.resolve_left (not_not.mpr hfirst)] at hpushRow
    cases hpushRow
    exact hsort
  · rw [getElem?_pushRows_further hlayer hfirst] at hpushRow
    cases hpushRow
    exact hsort

/-- Where the rows are settled, a row that receives nothing stays as it is. -/
theorem RowsSettled.others (hsettled : RowsSettled pushes layers)
    (h : mergePushes pushes layers = .ok rows) {p : Nat} (hlayer : layers[p]? = some layer)
    (hrow : rows[p]? = some row)
    (hother : ¬ IsFirst layers p layer ∨ pushesTo pushes layer.globalLayerIndex = []) :
    row = layer := by
  refine Except.ok.inj ((mergePushes_others h hlayer hrow hother).symm.trans ?_)
  rcases hother with hfurther | hnone
  · exact sortPushed_further (hsettled p layer hlayer hfurther)
  · exact sortPushed_of_nil hnone

theorem RowMerged.locks {pushed : List (PriorityPush F)} (h : RowMerged pushed layer row) :
    rowLocks row = orderByPriority
      (layer.orderedEntities.map (·.role.defaultPriority) ++ pushed.map (·.priority))
      (rowLocks layer ++ pushed.map (·.path.orderLock)) := by
  obtain ⟨added, hadds, -, -, rfl⟩ := h
  have hlocks : added.map (·.path.orderLock) = pushed.map (·.path.orderLock) := by
    clear * - hadds
    induction hadds with
    | nil => rfl
    | cons hfirst _ ih => rw [List.map_cons, List.map_cons, ih, hfirst.path]
  rw [rowLocks, map_orderByPriority, List.map_append, hlocks, rowLocks]

/-- The locks of the merged rows. -/
theorem RowsSettled.locks (hsettled : RowsSettled pushes layers)
    (h : mergePushes pushes layers = .ok rows) :
    rows.flatMap rowLocks = mergedLocks pushes layers := by
  rw [List.flatMap, mergedLocks]
  congr 1
  refine List.ext_getElem? fun p => ?_
  rw [List.getElem?_map, List.getElem?_mapIdx]
  rcases Nat.lt_or_ge p layers.length with hp | hp
  · have hlayer := List.getElem?_eq_getElem hp
    have hrow := List.getElem?_eq_getElem (length_of_mergePushes h ▸ hp)
    rw [hlayer, hrow, Option.map_some, Option.map_some]
    by_cases hreceives : IsFirst layers p layers[p] ∧
        pushesTo pushes layers[p].globalLayerIndex ≠ []
    · rw [if_pos hreceives, (mergePushes_target h hlayer hrow hreceives.1 hreceives.2).locks]
    · rw [if_neg hreceives, hsettled.others h hlayer hrow]
      rwa [not_and_or, not_not] at hreceives
  · rw [List.getElem?_eq_none hp, List.getElem?_eq_none (length_of_mergePushes h ▸ hp)]
    rfl

theorem applyTo_pushes [DecidableEq F] (pushes : List (PriorityPush F))
    (layers : List (LayerCollectionIR F)) :
    applyTo { priorityPushes := pushes } layers =
      mergePushes pushes layers >>= fun rows => remapLayers rows (nextGlobalEntityTag rows) := by
  rw [applyTo, mergePushes, bind_assoc]
  rfl

/-- Where the sort and the remap together leave a row as it was, the sort alone does: what the
remap returns holds no local tag, so it had none to renumber. -/
theorem eq_of_sortPushed_relocked {sorted : LayerCollectionIR F}
    (hsort : sortPushed pushes layer = .ok sorted) (hrelocked : RelockedLayer sorted layer) :
    sorted = layer := by
  refine (hrelocked.eq_of_noLocalTag fun e he => ?_).symm
  exact hrelocked.noLocalTag e ((sortPushed_mem_iff hsort).mp he)

/-- A builder that only pushes: the merge succeeds and changes no row but the ones pushed to,
exactly when every further row of an index it pushes to is settled and so are the locks. -/
theorem pushes_touch_target_iff [DecidableEq F] (pushes : List (PriorityPush F))
    (layers : List (LayerCollectionIR F)) :
    (∃ rows, applyTo { priorityPushes := pushes } layers = .ok rows ∧
      PushesMerged pushes layers rows) ↔
        RowsSettled pushes layers ∧ LocksSettled pushes layers := by
  rw [applyTo_pushes]
  constructor
  · rintro ⟨rows, hrows, hmerged⟩
    obtain ⟨sorted, hsorted, hremap⟩ := Except.of_bind_eq_ok hrows
    have hrelocked := remapLayers_relocked hremap
    have hothers : ∀ (p : Nat) (layer : LayerCollectionIR F), layers[p]? = some layer →
        ¬ IsFirst layers p layer ∨ pushesTo pushes layer.globalLayerIndex = [] →
          ∃ row, sortPushed pushes layer = .ok row ∧ RelockedLayer row layer := by
      intro p layer hlayer hother
      have hlt : p < layers.length := (List.getElem?_eq_some_iff.mp hlayer).1
      have hsort := List.getElem?_eq_getElem (length_of_mergePushes hsorted ▸ hlt)
      obtain ⟨row, hrow, hsame⟩ := hrelocked.getElem?_some hsort
      rw [hmerged.others p layer row hlayer hrow hother] at hsame
      exact ⟨_, mergePushes_others hsorted hlayer hsort hother, hsame⟩
    have hsettled : RowsSettled pushes layers := by
      intro p layer hlayer hfurther hpushed
      obtain ⟨row, hsort, hsame⟩ := hothers p layer hlayer (.inl hfurther)
      have hroom := room_of_sortPushed hsort
      obtain rfl := eq_of_sortPushed_relocked hsort hsame
      rw [sortPushed_ok hpushed hroom] at hsort
      exact ⟨hroom, congrArg (·.orderedEntities) (Except.ok.inj hsort)⟩
    refine ⟨hsettled, fun p layer hlayer hother => ?_, ?_⟩
    · obtain ⟨row, -, hsame⟩ := hothers p layer hlayer hother
      exact hsame.noLocalTag
    · rw [← hsettled.locks hsorted, ← nextGlobalEntityTag_eq]
      exact exists_remapLayers_iff.mp ⟨rows, hremap⟩
  · rintro ⟨hsettled, hlocks⟩
    obtain ⟨sorted, hsorted⟩ := exists_mergePushes hsettled
    have hpass := hlocks.pass
    rw [← hsettled.locks hsorted, ← nextGlobalEntityTag_eq] at hpass
    obtain ⟨rows, hremap⟩ := exists_remapLayers_iff.mpr hpass
    have hrelocked := remapLayers_relocked hremap
    have hsame : ∀ (p : Nat) (layer row : LayerCollectionIR F), layers[p]? = some layer →
        rows[p]? = some row → ∃ merged, sorted[p]? = some merged ∧ RelockedLayer merged row := by
      intro p layer row hlayer hrow
      have hlt : p < layers.length := (List.getElem?_eq_some_iff.mp hlayer).1
      have hmerged := List.getElem?_eq_getElem (length_of_mergePushes hsorted ▸ hlt)
      exact ⟨_, hmerged, hrelocked.rel_of_getElem? hmerged hrow⟩
    refine ⟨rows, by rw [hsorted]; exact hremap, ?_, ?_, ?_⟩
    · rw [← hrelocked.length_eq, length_of_mergePushes hsorted]
    · intro p layer row hlayer hrow hfirst hpushed
      obtain ⟨merged, hmerged, hsame⟩ := hsame p layer row hlayer hrow
      exact ⟨merged, mergePushes_target hsorted hlayer hmerged hfirst hpushed, hsame⟩
    · intro p layer row hlayer hrow hother
      obtain ⟨merged, hmerged, hsame⟩ := hsame p layer row hlayer hrow
      obtain rfl := hsettled.others hsorted hlayer hmerged hother
      exact hsame.eq_of_noLocalTag (hlocks.others p merged hlayer hother)

/-- Two rows of one index, of which the second is empty. -/
def twinRows : List (LayerCollectionIR ℚ) :=
  [wallLayer, { wallLayer with orderedEntities := [] }]

/-- A push to the index of two rows panics where the second is empty. -/
theorem push_panics_on_twin :
    (twinRows.Pairwise fun a b => a.globalLayerIndex ≤ b.globalLayerIndex) ∧
      applyTo skirtBuilder twinRows = .error "index out of bounds" ∧
      ¬ ∃ rows, applyTo skirtBuilder twinRows = .ok rows ∧
        PushesMerged skirtBuilder.priorityPushes twinRows rows := by
  have hpanic : applyTo skirtBuilder twinRows = .error "index out of bounds" := by decide +kernel
  refine ⟨by decide, hpanic, ?_⟩
  rintro ⟨rows, hrows, -⟩
  cases hpanic.symm.trans hrows

end Merge

end PinchNPrint.Layer
