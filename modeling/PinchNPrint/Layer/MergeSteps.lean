/-
The finalization merge, step by step.

Every step of `applyTo` updates one layer, puts in one synthetic layer or leaves
the layers alone. `Related` is a relation between the layers before and after,
each at its new place; a relation that each update keeps, the whole merge keeps.
-/

import PinchNPrint.Lib.Sequences
import PinchNPrint.Layer.Finalization

namespace PinchNPrint.Layer

variable {F : Type}

/-! ### Layers in pairs -/

/-- Every layer, at its new place, is related to what it was. -/
def Related (R : LayerCollectionIR F → LayerCollectionIR F → Prop) (place : Nat → Nat)
    (layers layers' : List (LayerCollectionIR F)) : Prop :=
  ∀ (p : Nat) (layer : LayerCollectionIR F), layers[p]? = some layer →
    ∃ layer', layers'[place p]? = some layer' ∧ R layer layer'

section Related

variable {R : LayerCollectionIR F → LayerCollectionIR F → Prop}

theorem Related.refl (hrefl : ∀ layer, R layer layer) (layers : List (LayerCollectionIR F)) :
    Related R (fun p => p) layers layers :=
  fun _ layer hp => ⟨layer, hp, hrefl layer⟩

variable {layers : List (LayerCollectionIR F)}

theorem Related.trans (htrans : ∀ a b c, R a b → R b c → R a c) {place place' : Nat → Nat}
    {layers' layers'' : List (LayerCollectionIR F)} (h : Related R place layers layers')
    (h' : Related R place' layers' layers'') :
    Related R (fun p => place' (place p)) layers layers'' := by
  intro p layer hp
  obtain ⟨layer', hp', hR⟩ := h p layer hp
  obtain ⟨layer'', hp'', hR'⟩ := h' (place p) layer' hp'
  exact ⟨layer'', hp'', htrans _ _ _ hR hR'⟩

theorem Related.set (hrefl : ∀ layer, R layer layer) {p : Nat} {layer layer' : LayerCollectionIR F}
    (hp : layers[p]? = some layer) (hR : R layer layer') :
    Related R (fun p => p) layers (layers.set p layer') := by
  intro q layer₀ hq
  by_cases hpq : p = q
  · subst hpq
    rw [hp] at hq
    cases hq
    exact ⟨layer', List.getElem?_set_self (List.getElem?_eq_some_iff.mp hp).1, hR⟩
  · exact ⟨layer₀, by rw [List.getElem?_set_ne hpq]; exact hq, hrefl layer₀⟩

theorem Related.of_mapM {f : LayerCollectionIR F → Except String (LayerCollectionIR F)}
    (hf : ∀ layer layer', f layer = .ok layer' → R layer layer')
    {layers' : List (LayerCollectionIR F)} (h : layers.mapM f = .ok layers') :
    Related R (fun p => p) layers layers' := by
  intro p layer hp
  obtain ⟨layer', hp', hlayer'⟩ := Except.getElem?_of_mapM_eq_ok h hp
  exact ⟨layer', hp', hf layer layer' hlayer'⟩

end Related

/-! ### Updates of one layer -/

variable {index p i next : Nat} {layers layers' : List (LayerCollectionIR F)}
  {R : LayerCollectionIR F → LayerCollectionIR F → Prop} {e : PrintEntity F}
  {layer' : LayerCollectionIR F} {pushes : List (PriorityPush F)} {items : List Nat}
  {op : MergeOp F}

theorem getElem?_of_findLayer {layer : LayerCollectionIR F}
    (h : findLayer layers index = some (p, layer)) : layers[p]? = some layer := by
  obtain ⟨q, -, h⟩ := Option.bind_eq_some_iff.mp h
  obtain ⟨layer₀, hlayer₀, h⟩ := Option.map_eq_some_iff.mp h
  cases h
  exact hlayer₀

theorem findLayer_eq_some_iff {layer : LayerCollectionIR F} :
    findLayer layers index = some (p, layer) ↔
      layers[p]? = some layer ∧ layer.globalLayerIndex = index ∧
      ∀ (j : Nat) (other : LayerCollectionIR F), j < p → layers[j]? = some other →
        other.globalLayerIndex ≠ index := by
  constructor
  · intro h
    have hlayer := getElem?_of_findLayer h
    obtain ⟨q, hq, h⟩ := Option.bind_eq_some_iff.mp h
    obtain ⟨_, -, h⟩ := Option.map_eq_some_iff.mp h
    cases h
    obtain ⟨hlt, hindex, hbefore⟩ := List.findIdx?_eq_some_iff_getElem.mp hq
    refine ⟨hlayer, ?_, fun j other hj hother => ?_⟩
    · rw [(List.getElem?_eq_some_iff.mp hlayer).2] at hindex
      simpa using hindex
    · have hfirst := hbefore j hj
      rw [(List.getElem?_eq_some_iff.mp hother).2] at hfirst
      simpa using hfirst
  · rintro ⟨hlayer, hindex, hbefore⟩
    obtain ⟨hlt, hat⟩ := List.getElem?_eq_some_iff.mp hlayer
    have hfound : layers.findIdx? (·.globalLayerIndex = index) = some p := by
      refine List.findIdx?_eq_some_iff_getElem.mpr ⟨hlt, ?_, fun j hj => ?_⟩
      · rw [hat]
        simpa using hindex
      · have := hbefore j _ hj (List.getElem?_eq_getElem (Nat.lt_trans hj hlt))
        simpa using this
    rw [findLayer, hfound, Option.bind_some, hlayer, Option.map_some]

/-- An update that keeps the index of its layer leaves every layer where it is
found. -/
theorem findLayer_set {index' q : Nat} {layer old new : LayerCollectionIR F}
    (hq : findLayer layers index = some (q, old))
    (hnew : new.globalLayerIndex = old.globalLayerIndex)
    (hp : findLayer layers index' = some (p, layer)) :
    findLayer (layers.set q new) index' = some (p, if index' = index then new else layer) := by
  obtain ⟨hold, holdIndex, -⟩ := findLayer_eq_some_iff.mp hq
  obtain ⟨hlayer, hlayerIndex, hbefore⟩ := findLayer_eq_some_iff.mp hp
  have hlt := (List.getElem?_eq_some_iff.mp hold).1
  refine findLayer_eq_some_iff.mpr ⟨?_, ?_, fun j other hj hother => ?_⟩
  · split
    case isTrue hindex =>
      rw [hindex, hq] at hp
      cases hp
      exact List.getElem?_set_self hlt
    case isFalse hindex =>
      have hne : q ≠ p := by
        rintro rfl
        rw [hold] at hlayer
        cases hlayer
        exact hindex (hlayerIndex.symm.trans holdIndex)
      rw [List.getElem?_set_ne hne]
      exact hlayer
  · split
    case isTrue hindex => rw [hnew, holdIndex, hindex]
    case isFalse hindex => exact hlayerIndex
  · by_cases hqj : q = j
    · subst hqj
      rw [List.getElem?_set_self hlt] at hother
      cases hother
      rw [hnew]
      exact hbefore q old hj hold
    · rw [List.getElem?_set_ne hqj] at hother
      exact hbefore j other hj hother

theorem getElem?_insertIdx_shiftFrom {α : Type} (entities : List α) (position : Nat) (e : α)
    (i : Nat) : (entities.insertIdx position e)[shiftFrom position i]? = entities[i]? := by
  unfold shiftFrom
  split
  case isTrue hle => rw [List.getElem?_insertIdx_of_gt (by omega), Nat.add_sub_cancel]
  case isFalse hlt => rw [List.getElem?_insertIdx_of_lt (by omega)]

/-- The rows after one insertion: those before the position, the new one, and those
behind it. -/
theorem getElem?_insertIdx_cases {row inserted : LayerCollectionIR F} {position : Nat}
    (h : (layers.insertIdx position inserted)[p]? = some row) :
    p < position ∧ layers[p]? = some row ∨ p = position ∧ row = inserted ∨
      ∃ q, position ≤ q ∧ p = q + 1 ∧ layers[q]? = some row := by
  rcases Nat.lt_trichotomy p position with hlt | rfl | hgt
  · rw [List.getElem?_insertIdx_of_lt hlt] at h
    exact .inl ⟨hlt, h⟩
  · rw [List.getElem?_insertIdx_self] at h
    split at h
    · cases h
      exact .inr (.inl ⟨rfl, rfl⟩)
    · cases h
  · rw [List.getElem?_insertIdx_of_gt hgt] at h
    exact .inr (.inr ⟨p - 1, by omega, by omega, h⟩)

/-- A row of another index leaves the layer to be found, behind it or before it. -/
theorem findLayer_insertIdx {position : Nat} {layer inserted : LayerCollectionIR F}
    (hne : inserted.globalLayerIndex ≠ index) (h : findLayer layers index = some (p, layer)) :
    findLayer (layers.insertIdx position inserted) index =
      some (shiftFrom position p, layer) := by
  obtain ⟨hlayer, hindex, hbefore⟩ := findLayer_eq_some_iff.mp h
  refine findLayer_eq_some_iff.mpr ⟨?_, hindex, fun j other hj hother => ?_⟩
  · rw [getElem?_insertIdx_shiftFrom]
    exact hlayer
  · unfold shiftFrom at hj
    rcases getElem?_insertIdx_cases hother with ⟨hlt, hold⟩ | ⟨-, rfl⟩ | ⟨q, hle, rfl, hold⟩
    · exact hbefore j other (by split at hj <;> omega) hold
    · exact hne
    · exact hbefore q other (by split at hj <;> omega) hold

theorem updateLayer_cases {missing : Except String (List (LayerCollectionIR F))}
    {update : LayerCollectionIR F → Except String (LayerCollectionIR F)}
    (h : updateLayer layers index missing update = .ok layers') :
    missing = .ok layers' ∨ ∃ p layer layer', findLayer layers index = some (p, layer) ∧
      update layer = .ok layer' ∧ layers' = layers.set p layer' := by
  unfold updateLayer at h
  split at h
  · exact .inl h
  · rename_i p layer hfind
    obtain ⟨layer', hlayer', h⟩ := Except.of_bind_eq_ok h
    cases h
    exact .inr ⟨p, layer, layer', hfind, hlayer', rfl⟩

theorem updateLayer_related (hrefl : ∀ layer, R layer layer)
    {missing : Except String (List (LayerCollectionIR F))}
    {update : LayerCollectionIR F → Except String (LayerCollectionIR F)}
    (h : updateLayer layers index missing update = .ok layers')
    (hmissing : missing = .ok layers' → layers' = layers)
    (hupdate : ∀ p layer layer', findLayer layers index = some (p, layer) →
      update layer = .ok layer' → R layer layer') : Related R (fun p => p) layers layers' := by
  rcases updateLayer_cases h with hmiss | ⟨p, layer, layer', hfind, hlayer', rfl⟩
  · rw [hmissing hmiss]
    exact Related.refl hrefl layers
  · exact Related.set hrefl (getElem?_of_findLayer hfind) (hupdate p layer layer' hfind hlayer')

/-! ### Where entities go -/

/-- A lookup that may panic keeps the entity it takes. -/
theorem of_take_eq_ok {entities : List (PrintEntity F)}
    (h : (match entities[i]? with
      | none => Except.error "index out of bounds"
      | some entity => .ok entity) = .ok e) : entities[i]? = some e := by
  cases hi : entities[i]? with
  | none =>
    rw [hi] at h
    cases h
  | some entity =>
    rw [hi] at h
    cases h
    rfl

/-- The order of the priority sort is the order of the priorities, then of the
positions. -/
theorem zipIdxLE_iff (a b : Nat × Nat) : List.zipIdxLE (fun a b => decide (a ≤ b)) a b = true ↔
    a.1 < b.1 ∨ a.1 = b.1 ∧ a.2 ≤ b.2 := by
  unfold List.zipIdxLE
  by_cases hle : a.1 ≤ b.1
  · by_cases hge : b.1 ≤ a.1
    · simp only [hle, hge, decide_true, if_true, decide_eq_true_eq]
      omega
    · simp only [hle, hge, decide_true, decide_false, if_true]
      simp
      omega
  · simp only [hle, decide_false]
    simp
    omega

theorem length_effectivePriorities (entities : List (PrintEntity F)) (pushed : List Nat) :
    entities.length ≤ (effectivePriorities entities pushed).length := by
  simp only [effectivePriorities, List.length_append, List.length_map, List.length_take]
  omega

/-- The priority sort puts an entity at the rank of its priority. -/
theorem sortPushed_moves {layer : LayerCollectionIR F} (h : sortPushed pushes layer = .ok layer')
    (hpushed : pushPriorities pushes layer.globalLayerIndex ≠ [])
    (he : layer.orderedEntities[i]? = some e) :
    layer'.orderedEntities[List.sortRank (· ≤ ·) (effectivePriorities layer.orderedEntities
      (pushPriorities pushes layer.globalLayerIndex)) i]? = some e := by
  unfold sortPushed at h
  split at h
  case h_1 hnone => exact absurd hnone hpushed
  case h_2 =>
    obtain ⟨entities, hentities, h⟩ := Except.of_bind_eq_ok h
    cases h
    simp only [← zipIdxLE_iff] at hentities
    have hi : i < (effectivePriorities layer.orderedEntities
        (pushPriorities pushes layer.globalLayerIndex)).length :=
      Nat.lt_of_lt_of_le (List.getElem?_eq_some_iff.mp he).1 (length_effectivePriorities _ _)
    have hslot := @List.getElem?_insertionSort_zipIdx _ (fun a b => decide (a ≤ b))
      (fun a b c hab hbc => by simp at *; omega) (fun a b => by simp; omega) _ _ _
      (List.getElem?_eq_getElem hi)
    obtain ⟨e', he', htake⟩ := Except.getElem?_of_mapM_eq_ok hentities hslot
    have := of_take_eq_ok htake
    rw [he] at this
    cases this
    exact he'

/-- The priority sort keeps the entities. -/
theorem sortPushed_mem_iff {layer : LayerCollectionIR F} (h : sortPushed pushes layer = .ok layer')
    : e ∈ layer'.orderedEntities ↔ e ∈ layer.orderedEntities := by
  constructor
  · intro he
    unfold sortPushed at h
    split at h
    · cases h
      exact he
    · obtain ⟨entities, hentities, h⟩ := Except.of_bind_eq_ok h
      cases h
      obtain ⟨entry, -, htake⟩ := (Except.forall₂_of_mapM_eq_ok hentities).exists_of_mem_right he
      exact List.mem_of_getElem? (of_take_eq_ok htake)
  · intro he
    by_cases hnone : pushPriorities pushes layer.globalLayerIndex = []
    · unfold sortPushed at h
      rw [hnone] at h
      cases h
      exact he
    · obtain ⟨i, hi⟩ := List.mem_iff_getElem?.mp he
      exact List.mem_of_getElem? (sortPushed_moves h hnone hi)

theorem sortPushed_unpushed {layer : LayerCollectionIR F} (h : sortPushed pushes layer = .ok layer')
    (hpushed : pushPriorities pushes layer.globalLayerIndex = []) : layer' = layer := by
  unfold sortPushed at h
  rw [hpushed] at h
  cases h
  rfl

theorem SortKey.le_trans (key : SortKey) (a b c : PrintEntity F) (hab : key.le a b = true)
    (hbc : key.le b c = true) : key.le a c = true := by
  cases key with
  | ByPriorityAndEntityId =>
    simp only [SortKey.le, Bool.or_eq_true, Bool.and_eq_true, decide_eq_true_eq] at *
    omega
  | ByEntityId =>
    simp only [SortKey.le, decide_eq_true_eq] at *
    omega
  | ByObjectIdThenPriority =>
    simp only [SortKey.le, Bool.or_eq_true, Bool.and_eq_true, decide_eq_true_eq] at *
    rcases hab with hab | ⟨hab, hab'⟩
    · rcases hbc with hbc | ⟨hbc, -⟩
      · exact .inl (lt_trans hab hbc)
      · exact .inl (hbc ▸ hab)
    · rcases hbc with hbc | ⟨hbc, hbc'⟩
      · exact .inl (hab ▸ hbc)
      · exact .inr ⟨hab.trans hbc, by omega⟩

theorem SortKey.le_total (key : SortKey) (a b : PrintEntity F) :
    (key.le a b || key.le b a) = true := by
  cases key with
  | ByPriorityAndEntityId =>
    simp only [SortKey.le, Bool.or_eq_true, Bool.and_eq_true, decide_eq_true_eq]
    omega
  | ByEntityId =>
    simp only [SortKey.le, Bool.or_eq_true, decide_eq_true_eq]
    omega
  | ByObjectIdThenPriority =>
    simp only [SortKey.le, Bool.or_eq_true, Bool.and_eq_true, decide_eq_true_eq]
    rcases lt_trichotomy a.regionKey.objectId b.regionKey.objectId with h | h | h
    · exact .inl (.inl h)
    · rcases Nat.le_total a.role.defaultPriority b.role.defaultPriority with h' | h'
      · exact .inl (.inr ⟨h, h'⟩)
      · exact .inr (.inr ⟨h.symm, h'⟩)
    · exact .inr (.inl h)

/-- A sort puts an entity at its rank. -/
theorem sortLayer_moves {key : SortKey} {layer : LayerCollectionIR F}
    (h : sortLayer key layer = .ok layer') (he : layer.orderedEntities[i]? = some e) :
    layer'.orderedEntities[List.sortRank key.le layer.orderedEntities i]? = some e := by
  obtain ⟨_, -, h⟩ := Except.of_bind_eq_ok h
  cases h
  exact List.getElem?_insertionSort_sortRank key.le_trans key.le_total he

theorem sortLayer_mem_iff {key : SortKey} {layer : LayerCollectionIR F}
    (h : sortLayer key layer = .ok layer') :
    e ∈ layer'.orderedEntities ↔ e ∈ layer.orderedEntities := by
  obtain ⟨_, -, h⟩ := Except.of_bind_eq_ok h
  cases h
  exact List.mem_insertionSort _

theorem insertEntityAt_moves {position toolIndex : Nat} {path : ExtrusionPath3D F}
    {regionKey : RegionKey F} {layer : LayerCollectionIR F}
    (h : insertEntityAt position path toolIndex regionKey layer = .ok layer') (i : Nat) :
    layer'.orderedEntities[shiftFrom position i]? = layer.orderedEntities[i]? := by
  unfold insertEntityAt at h
  split at h
  · cases h
  · cases h
    exact getElem?_insertIdx_shiftFrom _ _ _ _

theorem checkPermutation_spec {n : Nat} {seen : List Nat}
    (h : checkPermutation n items seen = .ok ()) :
    (∀ i ∈ items, i < n) ∧ items.Nodup ∧ ∀ i ∈ items, i ∉ seen := by
  induction items generalizing seen with
  | nil => simp
  | cons first rest ih =>
    unfold checkPermutation at h
    split at h
    · cases h
    rename_i hrange
    split at h
    · cases h
    rename_i hseen
    obtain ⟨hlt, hnodup, hfresh⟩ := ih h
    refine ⟨?_, ?_, ?_⟩
    · intro i hi
      rcases List.mem_cons.mp hi with rfl | hi
      · omega
      · exact hlt i hi
    · exact List.nodup_cons.mpr ⟨fun hmem => hfresh first hmem List.mem_cons_self, hnodup⟩
    · intro i hi
      rcases List.mem_cons.mp hi with rfl | hi
      · exact hseen
      · exact fun hmem => hfresh i hi (List.mem_cons_of_mem first hmem)

theorem perm_of_checkPermutation {n : Nat} (h : checkPermutation n items [] = .ok ())
    (hlength : items.length = n) : items.Perm (List.range n) := by
  obtain ⟨hlt, hnodup, -⟩ := checkPermutation_spec h
  have hsub : items ⊆ List.range n := fun j hj => List.mem_range.mpr (hlt j hj)
  exact (List.subperm_of_subset hnodup hsub).perm_of_length_le (by rw [List.length_range, hlength])

/-- A checked permutation names every index. -/
theorem mem_of_checkPermutation {n : Nat} (h : checkPermutation n items [] = .ok ())
    (hlength : items.length = n) (hi : i < n) : i ∈ items :=
  (perm_of_checkPermutation h hlength).mem_iff.mpr (List.mem_range.mpr hi)

theorem getElem?_inverseAt {old : Nat} (h : old ∈ items) :
    items[inverseAt items old]? = some old := by
  unfold inverseAt
  cases hlast : (items.zipIdx.filter (·.1 = old)).getLast? with
  | none =>
    obtain ⟨k, hk⟩ := List.mem_iff_getElem?.mp h
    have hmem : (old, k) ∈ items.zipIdx.filter (·.1 = old) :=
      List.mem_filter.mpr ⟨List.mk_mem_zipIdx_iff_getElem?.mpr hk, by simp⟩
    rw [List.getLast?_eq_none_iff.mp hlast] at hmem
    cases hmem
  | some entry =>
    obtain ⟨hmem, hold⟩ := List.mem_filter.mp (List.mem_of_getLast? hlast)
    have hat := List.mem_zipIdx_iff_getElem?.mp hmem
    rw [decide_eq_true_eq] at hold
    rw [← hold]
    exact hat

/-- What a permutation that is carried out has passed. -/
theorem setEntityOrder_spec {items : List (Nat × Bool)} {layer : LayerCollectionIR F}
    (h : setEntityOrder items layer = .ok layer') :
    items.length = layer.orderedEntities.length ∧
    checkPermutation layer.orderedEntities.length (items.map Prod.fst) [] = .ok () ∧
    List.Forall₂ (fun item e => layer.orderedEntities[item.1]? = some e) items
      layer'.orderedEntities := by
  unfold setEntityOrder at h
  simp only at h
  split at h
  · cases h
  rename_i hlength
  obtain ⟨⟨⟩, hcheck, h⟩ := Except.of_bind_eq_ok h
  obtain ⟨entities, hentities, h⟩ := Except.of_bind_eq_ok h
  cases h
  refine ⟨not_not.mp hlength, hcheck, ?_⟩
  have hlookup := Except.forall₂_of_mapM_eq_ok hentities
  rw [List.forall₂_map_left_iff] at hlookup
  exact hlookup.imp fun item e htake => of_take_eq_ok htake

/-- A permutation puts an entity at the slot that names it. -/
theorem setEntityOrder_moves {items : List (Nat × Bool)} {layer : LayerCollectionIR F}
    (h : setEntityOrder items layer = .ok layer') (he : layer.orderedEntities[i]? = some e) :
    layer'.orderedEntities[inverseAt (items.map Prod.fst) i]? = some e := by
  obtain ⟨hlength, hcheck, htaken⟩ := setEntityOrder_spec h
  have hi := (List.getElem?_eq_some_iff.mp he).1
  have hmem := mem_of_checkPermutation hcheck (by rw [List.length_map, hlength]) hi
  have hslot := getElem?_inverseAt hmem
  rw [List.getElem?_map, Option.map_eq_some_iff] at hslot
  obtain ⟨item, hitem, rfl⟩ := hslot
  obtain ⟨e', he', htake⟩ := htaken.getElem?_some hitem
  rw [he] at htake
  cases htake
  exact he'

/-- A permutation keeps the entities. -/
theorem setEntityOrder_mem_iff {items : List (Nat × Bool)} {layer : LayerCollectionIR F}
    (h : setEntityOrder items layer = .ok layer') :
    e ∈ layer'.orderedEntities ↔ e ∈ layer.orderedEntities := by
  constructor
  · intro he
    obtain ⟨item, -, hitem⟩ := (setEntityOrder_spec h).2.2.exists_of_mem_right he
    exact List.mem_of_getElem? hitem
  · intro he
    obtain ⟨i, hi⟩ := List.mem_iff_getElem?.mp he
    exact List.mem_of_getElem? (setEntityOrder_moves h hi)

theorem setPath_ids {layer : LayerCollectionIR F} {position : Nat}
    (he : layer.orderedEntities[position]? = some e) (path : ExtrusionPath3D F) :
    (setPath layer position e path).orderedEntities.map (·.entityId) =
      layer.orderedEntities.map (·.entityId) := by
  have hlt : position < (layer.orderedEntities.map (·.entityId)).length := by
    rw [List.length_map]
    exact (List.getElem?_eq_some_iff.mp he).1
  have hid : (layer.orderedEntities.map (·.entityId))[position] = e.entityId := by
    rw [List.getElem_map, (List.getElem?_eq_some_iff.mp he).2]
  rw [setPath, List.map_set]
  change (layer.orderedEntities.map (·.entityId)).set position e.entityId = _
  rw [← hid, List.set_getElem_self]

theorem modifyEntity_spec [DecidableEq F] {layerIdx entityId : Nat} {mutation : EntityMutation F}
    {layer : LayerCollectionIR F} (h : modifyEntity layerIdx entityId mutation layer = .ok layer') :
    ∃ position e, layer.orderedEntities[position]? = some e ∧ e.entityId = entityId ∧
      mutateEntity layer position e layerIdx entityId mutation = .ok layer' := by
  unfold modifyEntity at h
  split at h
  · cases h
  rename_i position hposition
  split at h
  · cases h
  rename_i e he
  refine ⟨position, e, he, ?_, h⟩
  obtain ⟨hlt, hid, -⟩ := List.findIdx?_eq_some_iff_getElem.mp hposition
  rw [(List.getElem?_eq_some_iff.mp he).2, decide_eq_true_eq] at hid
  exact hid

/-! ### Operations -/

/-- The index of the layer an operation updates; a synthetic layer comes behind
a position instead. -/
def MergeOp.layer : MergeOp F → Option Nat
  | .ModifyEntity layer _ _ => some layer
  | .SortLayer layer _ => some layer
  | .InsertSynthLayer _ _ => none
  | .InsertEntityAt layer _ _ _ _ => some layer
  | .SetEntityOrder layer _ => some layer

/-- What an operation makes of the layer it names. -/
def MergeOp.update [DecidableEq F] : MergeOp F → LayerCollectionIR F →
    Except String (LayerCollectionIR F)
  | .ModifyEntity layer entityId mutation => modifyEntity layer entityId mutation
  | .SortLayer _ key => sortLayer key
  | .InsertSynthLayer _ _ => .ok
  | .InsertEntityAt _ position path toolIndex regionKey =>
    insertEntityAt position path toolIndex regionKey
  | .SetEntityOrder _ items => setEntityOrder items

/-- No operation changes the index of its layer. -/
theorem MergeOp.update_index [DecidableEq F] {layer : LayerCollectionIR F}
    (h : op.update layer = .ok layer') : layer'.globalLayerIndex = layer.globalLayerIndex := by
  cases op with
  | ModifyEntity index entityId mutation =>
    obtain ⟨position, e, -, -, h⟩ := modifyEntity_spec h
    unfold mutateEntity at h
    split at h
    · cases h
      rfl
    · cases h
      rfl
    · obtain ⟨_, -, h⟩ := Except.of_bind_eq_ok h
      cases h
      rfl
    · split at h
      · cases h
      · cases h
        rfl
  | SortLayer index key =>
    obtain ⟨_, -, h⟩ := Except.of_bind_eq_ok h
    cases h
    rfl
  | InsertSynthLayer idx data =>
    cases h
    rfl
  | InsertEntityAt index position path toolIndex regionKey =>
    simp only [MergeOp.update, insertEntityAt] at h
    split at h
    · cases h
    · cases h
      rfl
  | SetEntityOrder index items =>
    simp only [MergeOp.update, setEntityOrder] at h
    split at h
    · cases h
    · obtain ⟨_, -, h⟩ := Except.of_bind_eq_ok h
      obtain ⟨_, -, h⟩ := Except.of_bind_eq_ok h
      cases h
      rfl

/-- The three things a step can do: nothing, for a sort of a missing layer; update
the layer it names; or put in a synthetic layer. -/
theorem applyMergeOp_cases [DecidableEq F] (h : applyMergeOp layers op = .ok layers') :
    (layers' = layers ∧ ∃ index key, op = .SortLayer index key) ∨
    (∃ index p layer layer', op.layer = some index ∧ findLayer layers index = some (p, layer) ∧
      op.update layer = .ok layer' ∧ layers' = layers.set p layer') ∨
    ∃ idx data, op = .InsertSynthLayer idx data ∧ idx < layers.length ∧
      layers' = layers.insertIdx (idx + 1) (synthLayer layers idx data) := by
  have hnamed : ∀ index missing, op.layer = some index →
      updateLayer layers index missing op.update = .ok layers' → missing = .ok layers' ∨
        ∃ index p layer layer', op.layer = some index ∧ findLayer layers index = some (p, layer) ∧
          op.update layer = .ok layer' ∧ layers' = layers.set p layer' := by
    intro index missing hindex hupdate
    refine (updateLayer_cases hupdate).imp_right ?_
    rintro ⟨p, layer, layer', hfound⟩
    exact ⟨index, p, layer, layer', hindex, hfound⟩
  cases op with
  | ModifyEntity index entityId mutation =>
    exact .inr (.inl ((hnamed index _ rfl h).resolve_left nofun))
  | SortLayer index key =>
    refine (hnamed index _ rfl h).imp (fun hmiss => ?_) .inl
    cases hmiss
    exact ⟨rfl, index, key, rfl⟩
  | InsertSynthLayer idx data =>
    unfold applyMergeOp insertSynthLayer at h
    simp only at h
    split at h
    · cases h
    · cases h
      exact .inr (.inr ⟨idx, data, rfl, by omega, rfl⟩)
  | InsertEntityAt index position path toolIndex regionKey =>
    exact .inr (.inl ((hnamed index _ rfl h).resolve_left nofun))
  | SetEntityOrder index items =>
    exact .inr (.inl ((hnamed index _ rfl h).resolve_left nofun))

/-- Where an operation puts the layer at a position. -/
def placeAfter (p : Nat) : MergeOp F → Nat
  | .InsertSynthLayer idx _ => if idx < p then p + 1 else p
  | _ => p

theorem placeAfter_of_layer (h : op.layer = some index) (p : Nat) : placeAfter p op = p := by
  cases op <;> first | rfl | cases h

/-- The place of a layer after the operations. -/
def landsAt (ops : List (MergeOp F)) (p : Nat) : Nat :=
  ops.foldl placeAfter p

theorem landsAt_append (before : List (MergeOp F)) (op : MergeOp F) :
    landsAt (before ++ [op]) = fun p => placeAfter (landsAt before p) op := by
  funext p
  simp [landsAt]

theorem getElem?_insertIdx_placeAfter (layers : List (LayerCollectionIR F)) (idx : Nat)
    (data : SyntheticLayerData F) (layer : LayerCollectionIR F) (p : Nat) :
    (layers.insertIdx (idx + 1) layer)[placeAfter p (.InsertSynthLayer idx data)]? =
      layers[p]? :=
  getElem?_insertIdx_shiftFrom layers (idx + 1) layer p

/-- A step keeps a relation that its update keeps. -/
theorem applyMergeOp_related [DecidableEq F] (hrefl : ∀ layer, R layer layer)
    (h : applyMergeOp layers op = .ok layers')
    (hop : ∀ index p layer layer', op.layer = some index →
      findLayer layers index = some (p, layer) → op.update layer = .ok layer' → R layer layer') :
    Related R (fun p => placeAfter p op) layers layers' := by
  rcases applyMergeOp_cases h with ⟨rfl, index, key, rfl⟩ |
    ⟨index, p, layer, layer', hindex, hfind, hlayer', rfl⟩ | ⟨idx, data, rfl, -, rfl⟩
  · exact Related.refl hrefl layers'
  · have hplace : (fun p => placeAfter p op) = fun p => p :=
      funext fun q => placeAfter_of_layer hindex q
    rw [hplace]
    exact Related.set hrefl (getElem?_of_findLayer hfind)
      (hop index p layer layer' hindex hfind hlayer')
  · intro p layer hp
    exact ⟨layer, (getElem?_insertIdx_placeAfter _ _ _ _ _).trans hp, hrefl layer⟩

/-- Operations one by one: a relation that every step of the run keeps. -/
theorem foldlM_applyMergeOp_related [DecidableEq F] (hrefl : ∀ layer, R layer layer)
    (htrans : ∀ a b c, R a b → R b c → R a c) {ops : List (MergeOp F)}
    (h : ops.foldlM applyMergeOp layers = .ok layers')
    (hops : ∀ before op after state, ops = before ++ op :: after →
      before.foldlM applyMergeOp layers = .ok state → ∀ index p layer layer',
      op.layer = some index → findLayer state index = some (p, layer) →
      op.update layer = .ok layer' → R layer layer') : Related R (landsAt ops) layers layers' := by
  induction ops using List.reverseRecOn generalizing layers' with
  | nil =>
    cases h
    exact Related.refl hrefl layers
  | append_singleton before op ih =>
    rw [List.foldlM_append] at h
    obtain ⟨state, hstate, h⟩ := Except.of_bind_eq_ok h
    rw [List.foldlM_cons] at h
    obtain ⟨last, hlast, h⟩ := Except.of_bind_eq_ok h
    cases h
    have hbefore := ih hstate fun before' op' after state' hsplit hrun =>
      hops before' op' (after ++ [op]) state' (by simp [hsplit]) hrun
    rw [landsAt_append]
    exact hbefore.trans htrans
      (applyMergeOp_related hrefl hlast (hops before op [] state rfl hstate))

/-! ### Pushes, annotations and the remap -/

/-- A relation that every push keeps. -/
theorem pushEntities_related (hrefl : ∀ layer, R layer layer)
    (htrans : ∀ a b c, R a b → R b c → R a c) (h : pushEntities layers pushes = .ok layers')
    (hpush : ∀ push ∈ pushes, ∀ layer, R layer (pushEntity layer push)) :
    Related R (fun p => p) layers layers' := by
  refine Except.foldlM_invariant (P := fun state => Related R (fun p => p) layers state) ?_
    (Related.refl hrefl layers) h
  intro push hmem state state' hstate hstep
  refine hstate.trans htrans (updateLayer_related hrefl hstep (fun hmiss => by cases hmiss; rfl) ?_)
  intro p layer layer' _ hupdate
  cases hupdate
  exact hpush push hmem layer

/-- A relation that every annotation keeps. -/
theorem pushAnnotations_related (hrefl : ∀ layer, R layer layer)
    (htrans : ∀ a b c, R a b → R b c → R a c) {annotations : List (Nat × LayerAnnotation)}
    (h : pushAnnotations layers annotations = .ok layers')
    (hannotate : ∀ layer annotations, R layer { layer with annotations := annotations }) :
    Related R (fun p => p) layers layers' := by
  refine Except.foldlM_invariant (P := fun state => Related R (fun p => p) layers state) ?_
    (Related.refl hrefl layers) h
  intro entry _ state state' hstate hstep
  refine hstate.trans htrans (updateLayer_related hrefl hstep (fun hmiss => by cases hmiss) ?_)
  intro p layer layer' _ hupdate
  cases hupdate
  exact hannotate layer _

/-! ### The remap -/

/-- What the remap makes of a lock: a global tag of a local one, and itself of any other. -/
inductive Globalized : Option Nat → Option Nat → Prop
  | unlocked : Globalized none none
  | fresh {tag : Nat} (next : Nat) (hlocal : IsLocal tag) :
      Globalized (some tag) (some (globalBit ||| next))
  | known {tag : Nat} (hglobal : ¬ IsLocal tag) : Globalized (some tag) (some tag)

/-- The same entity, with its lock remapped. -/
def Relocked (e e' : PrintEntity F) : Prop :=
  ∃ lock, Globalized e.path.orderLock lock ∧
    e' = { e with path := { e.path with orderLock := lock } }

/-- The entities hold no tag that the remap renumbers. -/
def NoLocalTag (entities : List (PrintEntity F)) : Prop :=
  ∀ e ∈ entities, ∀ tag ∈ e.path.orderLock, ¬ IsLocal tag

theorem not_isLocal_or (next : Nat) : ¬ IsLocal (globalBit ||| next) := by
  rw [IsLocal, globalBit, Nat.and_two_pow, Nat.testBit_or, Nat.testBit_two_pow_self, Bool.true_or]
  decide

theorem Globalized.not_isLocal {lock lock' : Option Nat} (h : Globalized lock lock') :
    ∀ tag ∈ lock', ¬ IsLocal tag := by
  cases h with
  | unlocked => exact fun _ htag => nomatch htag
  | fresh next hlocal =>
    rintro _ ⟨⟩
    exact not_isLocal_or next
  | known hglobal =>
    rintro _ ⟨⟩
    exact hglobal

theorem Globalized.eq_of_not_isLocal {lock lock' : Option Nat} (h : Globalized lock lock')
    (hglobal : ∀ tag ∈ lock, ¬ IsLocal tag) : lock' = lock := by
  cases h with
  | unlocked => rfl
  | fresh next hlocal => exact absurd hlocal (hglobal _ rfl)
  | known => rfl

/-- A remapped row holds no local tag. -/
theorem Relocked.noLocalTag {entities entities' : List (PrintEntity F)}
    (h : List.Forall₂ Relocked entities entities') : NoLocalTag entities' := by
  intro e' he'
  obtain ⟨e, -, lock, hlock, rfl⟩ := h.exists_of_mem_right he'
  exact hlock.not_isLocal

/-- The remap leaves a row without local tags as it is. -/
theorem Relocked.eq_of_noLocalTag {entities entities' : List (PrintEntity F)}
    (h : List.Forall₂ Relocked entities entities') (hglobal : NoLocalTag entities) :
    entities' = entities := by
  induction h with
  | nil => rfl
  | cons hfirst _ ih =>
    obtain ⟨lock, hlock, rfl⟩ := hfirst
    obtain ⟨hhead, htail⟩ := List.forall_mem_cons.mp hglobal
    rw [ih htail, hlock.eq_of_not_isLocal hhead]

theorem remapTag_eq_ok_iff {tag : Nat} {result : Nat × Nat} :
    remapTag tag next = .ok result ↔
      (IsLocal tag ∧ tag ≠ 0 ∧ result = (globalBit ||| next, next + 1)) ∨
        (¬ IsLocal tag ∧ tag < globalBit ||| next ∧ result = (tag, next)) := by
  unfold remapTag
  by_cases hlocal : IsLocal tag
  · rcases eq_or_ne tag 0 with rfl | hzero
    · simp [hlocal]
    · simp [hlocal, hzero, eq_comm]
  · by_cases hknown : tag ≥ globalBit ||| next <;> simp [hlocal, hknown, eq_comm]
    omega

theorem remapTag_globalized {tag tag' next' : Nat} (h : remapTag tag next = .ok (tag', next')) :
    Globalized (some tag) (some tag') := by
  rcases remapTag_eq_ok_iff.mp h with ⟨hlocal, -, ⟨⟩⟩ | ⟨hglobal, -, ⟨⟩⟩
  · exact .fresh next hlocal
  · exact .known hglobal

theorem remapOrderLocksToGlobal_singleton {path : ExtrusionPath3D F}
    {paths : List (ExtrusionPath3D F)} {next' : Nat}
    (h : remapOrderLocksToGlobal [path] next = .ok (paths, next')) :
    ∃ lock, Globalized path.orderLock lock ∧ paths = [{ path with orderLock := lock }] := by
  simp only [remapOrderLocksToGlobal] at h
  split at h
  case h_1 hlock =>
    obtain ⟨⟨rest, last⟩, hrest, h⟩ := Except.of_bind_eq_ok h
    cases hrest
    cases h
    exact ⟨none, hlock ▸ .unlocked, by rw [← hlock]⟩
  case h_2 tag hlock =>
    obtain ⟨⟨tag', mid⟩, htag, h⟩ := Except.of_bind_eq_ok h
    obtain ⟨⟨rest, last⟩, hrest, h⟩ := Except.of_bind_eq_ok h
    cases hrest
    cases h
    exact ⟨some tag', hlock ▸ remapTag_globalized htag, rfl⟩

/-- The remap of a row changes order locks only. -/
theorem remapEntities_relocked {entities entities' : List (PrintEntity F)} {next' : Nat}
    (h : remapEntities entities next = .ok (entities', next')) :
    List.Forall₂ Relocked entities entities' := by
  induction entities generalizing entities' next with
  | nil =>
    cases h
    exact .nil
  | cons e rest ih =>
    obtain ⟨⟨paths, mid⟩, hpaths, h⟩ := Except.of_bind_eq_ok h
    obtain ⟨⟨others, last⟩, hothers, h⟩ := Except.of_bind_eq_ok h
    cases h
    obtain ⟨lock, hlock, rfl⟩ := remapOrderLocksToGlobal_singleton hpaths
    exact .cons ⟨lock, hlock, rfl⟩ (ih hothers)

/-- A layer with its order locks remapped. -/
def RelockedLayer (layer layer' : LayerCollectionIR F) : Prop :=
  ∃ entities, layer' = { layer with orderedEntities := entities } ∧
    List.Forall₂ Relocked layer.orderedEntities entities

theorem RelockedLayer.noLocalTag {layer : LayerCollectionIR F} (h : RelockedLayer layer layer') :
    NoLocalTag layer'.orderedEntities := by
  obtain ⟨entities, rfl, hentities⟩ := h
  exact Relocked.noLocalTag hentities

theorem RelockedLayer.eq_of_noLocalTag {layer : LayerCollectionIR F}
    (h : RelockedLayer layer layer') (hglobal : NoLocalTag layer.orderedEntities) :
    layer' = layer := by
  obtain ⟨entities, rfl, hentities⟩ := h
  rw [Relocked.eq_of_noLocalTag hentities hglobal]

theorem remapLayers_relocked (h : remapLayers layers next = .ok layers') :
    List.Forall₂ RelockedLayer layers layers' := by
  induction layers generalizing layers' next with
  | nil =>
    cases h
    exact .nil
  | cons first rest ih =>
    obtain ⟨⟨entities, mid⟩, hentities, h⟩ := Except.of_bind_eq_ok h
    obtain ⟨others, hothers, h⟩ := Except.of_bind_eq_ok h
    cases h
    exact .cons ⟨entities, rfl, remapEntities_relocked hentities⟩ (ih hothers)

/-- The locks of a row. -/
def rowLocks (layer : LayerCollectionIR F) : List (Option Nat) :=
  layer.orderedEntities.map (·.path.orderLock)

/-- One more than the largest global tag of the locks. -/
def nextTag (locks : List (Option Nat)) : Nat :=
  match ((locks.filterMap id).filter (¬ IsLocal ·)).map (· &&& (globalBit - 1)) |>.max? with
  | none => 0
  | some max => max + 1

theorem nextGlobalEntityTag_eq (layers : List (LayerCollectionIR F)) :
    nextGlobalEntityTag layers = nextTag (layers.flatMap rowLocks) := by
  have hlocks : (layers.flatMap (·.orderedEntities)).filterMap (·.path.orderLock) =
      (layers.flatMap rowLocks).filterMap id := by
    unfold rowLocks
    rw [← List.map_flatMap, List.filterMap_map]
    rfl
  rw [nextGlobalEntityTag, hlocks]
  rfl

/-- The remap takes the locks: no local tag is zero, and each global one is below the tag
that would be allocated next. -/
def LocksPass : Nat → List (Option Nat) → Prop
  | _, [] => True
  | next, none :: rest => LocksPass next rest
  | next, some tag :: rest =>
    (IsLocal tag ∧ tag ≠ 0 ∧ LocksPass (next + 1) rest) ∨
      (¬ IsLocal tag ∧ tag < globalBit ||| next ∧ LocksPass next rest)

theorem locksPass_append {entities : List (PrintEntity F)} {locks : List (Option Nat)} :
    LocksPass next (entities.map (·.path.orderLock) ++ locks) ↔
      ∃ entities' next', remapEntities entities next = .ok (entities', next') ∧
        LocksPass next' locks := by
  induction entities generalizing next with
  | nil => simp [remapEntities]
  | cons e rest ih =>
    rw [List.map_cons, List.cons_append]
    simp only [remapEntities, Except.bind_eq_ok_iff]
    cases hlock : e.path.orderLock with
    | none =>
      have hpath : remapOrderLocksToGlobal [e.path] next = .ok ([e.path], next) := by
        simp only [remapOrderLocksToGlobal, hlock]
        rfl
      rw [LocksPass, ih, hpath]
      constructor
      · rintro ⟨entities', next', hrest, hlater⟩
        exact ⟨_, next', ⟨_, rfl, _, hrest, rfl⟩, hlater⟩
      · rintro ⟨_, _, ⟨_, ⟨⟩, ⟨entities', next'⟩, hrest, ⟨⟩⟩, hlater⟩
        exact ⟨entities', next', hrest, hlater⟩
    | some tag =>
      have hpath : remapOrderLocksToGlobal [e.path] next = remapTag tag next >>= fun result =>
          .ok ([{ e.path with orderLock := some result.1 }], result.2) := by
        simp only [remapOrderLocksToGlobal, hlock]
        rfl
      simp only [LocksPass, ih, hpath, Except.bind_eq_ok_iff, remapTag_eq_ok_iff]
      constructor
      · rintro (⟨hlocal, hzero, entities', next', hrest, hlater⟩ |
          ⟨hglobal, hknown, entities', next', hrest, hlater⟩)
        · exact ⟨_, next', ⟨_, ⟨_, .inl ⟨hlocal, hzero, rfl⟩, rfl⟩, _, hrest, rfl⟩, hlater⟩
        · exact ⟨_, next', ⟨_, ⟨_, .inr ⟨hglobal, hknown, rfl⟩, rfl⟩, _, hrest, rfl⟩, hlater⟩
      · rintro ⟨_, _, ⟨_, ⟨_, ⟨hlocal, hzero, rfl⟩ | ⟨hglobal, hknown, rfl⟩, ⟨⟩⟩,
          ⟨entities', next'⟩, hrest, ⟨⟩⟩, hlater⟩
        · exact .inl ⟨hlocal, hzero, entities', next', hrest, hlater⟩
        · exact .inr ⟨hglobal, hknown, entities', next', hrest, hlater⟩

/-- The remap succeeds on the rows exactly when it takes their locks. -/
theorem exists_remapLayers_iff :
    (∃ layers', remapLayers layers next = .ok layers') ↔ LocksPass next (layers.flatMap rowLocks) := by
  induction layers generalizing next with
  | nil => simp [remapLayers, LocksPass]
  | cons first rest ih =>
    rw [List.flatMap_cons, rowLocks, locksPass_append]
    simp only [remapLayers, Except.bind_eq_ok_iff, ← ih]
    constructor
    · rintro ⟨_, ⟨entities, mid⟩, hentities, others, hothers, -⟩
      exact ⟨entities, mid, hentities, others, hothers⟩
    · rintro ⟨entities, mid, hentities, others, hothers⟩
      exact ⟨_, ⟨entities, mid⟩, hentities, others, hothers, rfl⟩

/-- A relation that other order locks keep. -/
theorem remapLayers_related (hrelock : ∀ layer layer', RelockedLayer layer layer' → R layer layer')
    (h : remapLayers layers next = .ok layers') : Related R (fun p => p) layers layers' := by
  intro p layer hp
  obtain ⟨layer', hp', hrelocked⟩ := (remapLayers_relocked h).getElem?_some hp
  exact ⟨layer', hp', hrelock layer layer' hrelocked⟩

end PinchNPrint.Layer
