/-
Records that follow an entity, through finalization.

Tool changes, z-hops, retracts and annotations point at entities by position.
`AnchorsKept` says that the records of a layer still follow the entities they
followed; `anchors_follow_entities` says when `applyTo` keeps that. Inserts and
permutations move the first three kinds of records along, but no annotation; the
priority sort and `SortLayer` move none.
-/

import PinchNPrint.Layer.MergeSteps

namespace PinchNPrint.Layer

variable {F ρ : Type}

/-! ### Records and the entities they follow -/

/-- A record that names the entity it follows by position. -/
class AfterEntity (ρ : Type) where
  index : ρ → Nat
  setIndex : ρ → Nat → ρ
  index_setIndex : ∀ r i, index (setIndex r i) = i := by intros; rfl
  setIndex_index : ∀ r, setIndex r (index r) = r := by intros; rfl
  setIndex_setIndex : ∀ r i j, setIndex (setIndex r i) j = setIndex r j := by intros; rfl

open AfterEntity

instance : AfterEntity ToolChange where
  index := (·.afterEntityIndex)
  setIndex r i := { r with afterEntityIndex := i }

instance : AfterEntity (ZHop F) where
  index := (·.afterEntityIndex)
  setIndex r i := { r with afterEntityIndex := i }

instance : AfterEntity (TravelRetract F) where
  index := (·.afterEntityIndex)
  setIndex r i := { r with afterEntityIndex := i }

instance : AfterEntity LayerAnnotation where
  index := (·.afterEntityIndex)
  setIndex r i := { r with afterEntityIndex := i }

/-- The entity at `i`, if there is one, has its id at `i'`. -/
def SameEntity (es es' : List (PrintEntity F)) (i i' : Nat) : Prop :=
  ∀ e, es[i]? = some e → ∃ e', es'[i']? = some e' ∧ e'.entityId = e.entityId

theorem SameEntity.refl (es : List (PrintEntity F)) (i : Nat) : SameEntity es es i i :=
  fun e he => ⟨e, he, rfl⟩

variable {es es' : List (PrintEntity F)} {records : List ρ} {layer layer' : LayerCollectionIR F}
  {layers layers' : List (LayerCollectionIR F)}

theorem SameEntity.trans {es'' : List (PrintEntity F)} {i i' i'' : Nat} (h : SameEntity es es' i i')
    (h' : SameEntity es' es'' i' i'') : SameEntity es es'' i i'' := by
  intro e he
  obtain ⟨e', he', hid⟩ := h e he
  obtain ⟨e'', he'', hid'⟩ := h' e' he'
  exact ⟨e'', he'', hid'.trans hid⟩

/-- The records keep their places and follow the same entities; new records come
behind them. -/
def Follows [AfterEntity ρ] (es es' : List (PrintEntity F)) (records records' : List ρ) : Prop :=
  ∃ kept added, records' = kept ++ added ∧
    List.Forall₂ (fun r r' => r' = setIndex r (index r') ∧ SameEntity es es' (index r) (index r'))
      records kept

theorem Follows.of_map [AfterEntity ρ] (f : Nat → Nat)
    (h : ∀ r ∈ records, SameEntity es es' (index r) (f (index r))) :
    Follows es es' records (records.map fun r => setIndex r (f (index r))) := by
  refine ⟨_, [], (List.append_nil _).symm, ?_⟩
  rw [List.forall₂_map_right_iff, List.forall₂_same]
  intro r hr
  rw [index_setIndex]
  exact ⟨rfl, h r hr⟩

theorem Follows.of_appended [AfterEntity ρ]
    (h : ∀ r ∈ records, SameEntity es es' (index r) (index r)) (added : List ρ) :
    Follows es es' records (records ++ added) := by
  refine ⟨records, added, rfl, List.forall₂_same.mpr fun r hr => ⟨?_, h r hr⟩⟩
  exact (setIndex_index r).symm

theorem Follows.of_unchanged [AfterEntity ρ]
    (h : ∀ r ∈ records, SameEntity es es' (index r) (index r)) :
    Follows es es' records records := by
  have happended := Follows.of_appended h []
  rwa [List.append_nil] at happended

theorem Follows.trans [AfterEntity ρ] {es'' : List (PrintEntity F)} {records' records'' : List ρ}
    (h : Follows es es' records records') (h' : Follows es' es'' records' records'') :
    Follows es es'' records records'' := by
  obtain ⟨kept, added, rfl, hkept⟩ := h
  obtain ⟨kept', added', rfl, hkept'⟩ := h'
  -- what came of the kept records is a stretch of what is kept later
  have hlength : kept.length ≤ kept'.length := by
    rw [← hkept'.length_eq, List.length_append]
    omega
  refine ⟨kept'.take kept.length, kept'.drop kept.length ++ added', ?_, ?_⟩
  · rw [← List.append_assoc, List.take_append_drop]
  · apply List.forall₂_of_getElem?
    · rw [List.length_take, Nat.min_eq_left hlength, hkept.length_eq]
    · intro i r r'' hr hr''
      obtain ⟨r', hr', hset, hsame⟩ := hkept.getElem?_some hr
      have hi := (List.getElem?_eq_some_iff.mp hr').1
      rw [List.getElem?_take_of_lt hi] at hr''
      have happend : (kept ++ added)[i]? = some r' := by
        rw [List.getElem?_append_left hi, hr']
      obtain ⟨hset', hsame'⟩ := hkept'.rel_of_getElem? happend hr''
      refine ⟨?_, hsame.trans hsame'⟩
      rw [hset, setIndex_setIndex] at hset'
      exact hset'

/-- Every record of the layer follows the entity it followed. -/
structure AnchorsKept (layer layer' : LayerCollectionIR F) : Prop where
  toolChanges : Follows layer.orderedEntities layer'.orderedEntities
    layer.toolChanges layer'.toolChanges
  zHops : Follows layer.orderedEntities layer'.orderedEntities layer.zHops layer'.zHops
  retracts : Follows layer.orderedEntities layer'.orderedEntities layer.retracts layer'.retracts
  annotations : Follows layer.orderedEntities layer'.orderedEntities
    layer.annotations layer'.annotations

theorem AnchorsKept.trans {layer'' : LayerCollectionIR F} (h : AnchorsKept layer layer')
    (h' : AnchorsKept layer' layer'') : AnchorsKept layer layer'' where
  toolChanges := h.toolChanges.trans h'.toolChanges
  zHops := h.zHops.trans h'.zHops
  retracts := h.retracts.trans h'.retracts
  annotations := h.annotations.trans h'.annotations

/-- The positions the records of a layer name. -/
def anchorIndices (layer : LayerCollectionIR F) : List Nat :=
  layer.toolChanges.map (·.afterEntityIndex) ++ layer.zHops.map (·.afterEntityIndex) ++
    layer.retracts.map (·.afterEntityIndex) ++ layer.annotations.map (·.afterEntityIndex)

/-- Leaving the records alone keeps them when no entity they follow moves. -/
theorem AnchorsKept.of_entities (hlayer : layer' = { layer with
      orderedEntities := layer'.orderedEntities, speedProfiles := layer'.speedProfiles })
    (h : ∀ i ∈ anchorIndices layer, SameEntity layer.orderedEntities layer'.orderedEntities i i) :
    AnchorsKept layer layer' := by
  have hmem : ∀ {ρ : Type} [AfterEntity ρ] (records : List ρ),
      (∀ r ∈ records, (index r : Nat) ∈ anchorIndices layer) →
      Follows layer.orderedEntities layer'.orderedEntities records records := by
    intro ρ _ records hrecords
    exact Follows.of_unchanged fun r hr => h _ (hrecords r hr)
  constructor
  · rw [show layer'.toolChanges = layer.toolChanges by rw [hlayer]]
    refine hmem _ fun r hr => ?_
    simp only [anchorIndices, List.mem_append, List.mem_map]
    exact .inl (.inl (.inl ⟨r, hr, rfl⟩))
  · rw [show layer'.zHops = layer.zHops by rw [hlayer]]
    refine hmem _ fun r hr => ?_
    simp only [anchorIndices, List.mem_append, List.mem_map]
    exact .inl (.inl (.inr ⟨r, hr, rfl⟩))
  · rw [show layer'.retracts = layer.retracts by rw [hlayer]]
    refine hmem _ fun r hr => ?_
    simp only [anchorIndices, List.mem_append, List.mem_map]
    exact .inl (.inr ⟨r, hr, rfl⟩)
  · rw [show layer'.annotations = layer.annotations by rw [hlayer]]
    refine hmem _ fun r hr => ?_
    simp only [anchorIndices, List.mem_append, List.mem_map]
    exact .inr ⟨r, hr, rfl⟩

/-! ### One layer -/

theorem sortPushed_records {pushes : List (PriorityPush F)}
    (h : sortPushed pushes layer = .ok layer') :
    layer' = { layer with
      orderedEntities := layer'.orderedEntities, speedProfiles := layer'.speedProfiles } := by
  unfold sortPushed at h
  split at h
  · cases h
    rfl
  · obtain ⟨entities, -, h⟩ := Except.of_bind_eq_ok h
    cases h
    rfl

/-- A sort that moves no followed entity keeps the records. -/
theorem sortLayer_kept {key : SortKey} (h : sortLayer key layer = .ok layer')
    (hrank : ∀ i ∈ anchorIndices layer, i < layer.orderedEntities.length →
      List.sortRank key.le layer.orderedEntities i = i) : AnchorsKept layer layer' := by
  have hlayer : layer' = { layer with
      orderedEntities := layer'.orderedEntities, speedProfiles := layer'.speedProfiles } := by
    obtain ⟨_, -, hsorted⟩ := Except.of_bind_eq_ok h
    cases hsorted
    rfl
  apply AnchorsKept.of_entities hlayer
  intro i hi e he
  have hslot := sortLayer_moves h he
  rw [hrank i hi (List.getElem?_eq_some_iff.mp he).1] at hslot
  exact ⟨e, hslot, rfl⟩

theorem setPath_kept {position : Nat} {e : PrintEntity F}
    (he : layer.orderedEntities[position]? = some e) (path : ExtrusionPath3D F) :
    AnchorsKept layer (setPath layer position e path) := by
  apply AnchorsKept.of_entities rfl
  intro i _ e₀ he₀
  by_cases hi : position = i
  · subst hi
    rw [he] at he₀
    cases he₀
    have hlt := (List.getElem?_eq_some_iff.mp he).1
    exact ⟨{ e with path := path }, List.getElem?_set_self hlt, rfl⟩
  · exact ⟨e₀, by rw [setPath, List.getElem?_set_ne hi]; exact he₀, rfl⟩

/-- A mutation keeps the records. -/
theorem modifyEntity_kept [DecidableEq F] {layerIdx entityId : Nat} {mutation : EntityMutation F}
    (h : modifyEntity layerIdx entityId mutation layer = .ok layer') :
    AnchorsKept layer layer' := by
  obtain ⟨position, e, he, -, h⟩ := modifyEntity_spec h
  unfold mutateEntity at h
  split at h
  · cases h
    exact setPath_kept he _
  · cases h
    exact setPath_kept he _
  · obtain ⟨_, -, h⟩ := Except.of_bind_eq_ok h
    cases h
    exact setPath_kept he _
  · split at h
    · cases h
    · cases h
      exact AnchorsKept.of_entities rfl fun i _ => SameEntity.refl _ i

theorem insertIdx_sameEntity (es : List (PrintEntity F)) (position : Nat) (e : PrintEntity F)
    (i : Nat) : SameEntity es (es.insertIdx position e) i (shiftFrom position i) :=
  fun e₀ he₀ => ⟨e₀, (getElem?_insertIdx_shiftFrom _ _ _ _).trans he₀, rfl⟩

/-- An insert keeps the records when no annotation follows an entity behind the
insertion point. -/
theorem insertEntityAt_kept {position toolIndex : Nat} {path : ExtrusionPath3D F}
    {regionKey : RegionKey F}
    (h : insertEntityAt position path toolIndex regionKey layer = .ok layer')
    (hannotations : ∀ a ∈ layer.annotations, a.afterEntityIndex < layer.orderedEntities.length →
      a.afterEntityIndex < position) : AnchorsKept layer layer' := by
  unfold insertEntityAt at h
  split at h
  · cases h
  cases h
  constructor
  · exact Follows.of_map (shiftFrom position) fun r _ => insertIdx_sameEntity _ _ _ _
  · exact Follows.of_map (shiftFrom position) fun r _ => insertIdx_sameEntity _ _ _ _
  · exact Follows.of_map (shiftFrom position) fun r _ => insertIdx_sameEntity _ _ _ _
  · refine Follows.of_unchanged fun a ha e he => ?_
    have hlt := hannotations a ha (List.getElem?_eq_some_iff.mp he).1
    have hshift : shiftFrom position (index a) = index a := if_neg (Nat.not_le.mpr hlt)
    have hsame := insertIdx_sameEntity layer.orderedEntities position
      (insertedEntity position path toolIndex regionKey layer) (index a)
    rw [hshift] at hsame
    exact hsame e he

/-- A permutation keeps the records when it moves no annotated entity. -/
theorem setEntityOrder_kept {items : List (Nat × Bool)}
    (h : setEntityOrder items layer = .ok layer')
    (hannotations : ∀ a ∈ layer.annotations, a.afterEntityIndex < layer.orderedEntities.length →
      (items[a.afterEntityIndex]?).map Prod.fst = some a.afterEntityIndex) :
    AnchorsKept layer layer' := by
  obtain ⟨hlength, -, htaken⟩ := setEntityOrder_spec h
  have hmoved : ∀ i : Nat, SameEntity layer.orderedEntities layer'.orderedEntities i
      (remapIndex (items.map Prod.fst) layer.orderedEntities.length i) := by
    intro i e he
    rw [remapIndex, if_pos (List.getElem?_eq_some_iff.mp he).1]
    exact ⟨e, setEntityOrder_moves h he, rfl⟩
  have hstays : ∀ a ∈ layer.annotations, SameEntity layer.orderedEntities
      layer'.orderedEntities a.afterEntityIndex a.afterEntityIndex := by
    intro a ha e he
    have hnamed := hannotations a ha (List.getElem?_eq_some_iff.mp he).1
    obtain ⟨item, hitem, hindex⟩ := Option.map_eq_some_iff.mp hnamed
    obtain ⟨e', he', htake⟩ := htaken.getElem?_some hitem
    rw [hindex, he] at htake
    cases htake
    exact ⟨e, he', rfl⟩
  unfold setEntityOrder at h
  simp only at h
  split at h
  · cases h
  obtain ⟨⟨⟩, -, h⟩ := Except.of_bind_eq_ok h
  obtain ⟨entities, -, h⟩ := Except.of_bind_eq_ok h
  cases h
  constructor
  · exact Follows.of_map _ fun r _ => hmoved _
  · exact Follows.of_map _ fun r _ => hmoved _
  · exact Follows.of_map _ fun r _ => hmoved _
  · exact Follows.of_unchanged hstays

/-! ### All layers -/

/-- Every layer, at its new place, keeps its records. -/
def LayersKept (place : Nat → Nat) (layers layers' : List (LayerCollectionIR F)) : Prop :=
  ∀ (p : Nat) (layer : LayerCollectionIR F), layers[p]? = some layer →
    ∃ layer', layers'[place p]? = some layer' ∧ AnchorsKept layer layer'

theorem AnchorsKept.refl (layer : LayerCollectionIR F) : AnchorsKept layer layer :=
  AnchorsKept.of_entities rfl fun i _ => SameEntity.refl _ i

theorem LayersKept.trans {place place' : Nat → Nat} {layers'' : List (LayerCollectionIR F)}
    (h : LayersKept place layers layers') (h' : LayersKept place' layers' layers'') :
    LayersKept (fun p => place' (place p)) layers layers'' :=
  Related.trans (R := AnchorsKept) (fun _ _ _ => AnchorsKept.trans) h h'

/-! ### The merge -/

/-- What the step of an operation asks of the layers before it: no sort moves a
followed entity, no insert comes before an annotated one, and no permutation
moves an annotated one. -/
def OpKeeps (layers : List (LayerCollectionIR F)) : MergeOp F → Prop
  | .SortLayer index key => ∀ p layer, findLayer layers index = some (p, layer) →
      ∀ i ∈ anchorIndices layer, i < layer.orderedEntities.length →
        List.sortRank key.le layer.orderedEntities i = i
  | .InsertEntityAt index position _ _ _ => ∀ p layer, findLayer layers index = some (p, layer) →
      ∀ a ∈ layer.annotations, a.afterEntityIndex < layer.orderedEntities.length →
        a.afterEntityIndex < position
  | .SetEntityOrder index items => ∀ p layer, findLayer layers index = some (p, layer) →
      ∀ a ∈ layer.annotations, a.afterEntityIndex < layer.orderedEntities.length →
        (items[a.afterEntityIndex]?).map Prod.fst = some a.afterEntityIndex
  | .ModifyEntity .. => True
  | .InsertSynthLayer .. => True

/-- The operations of a builder, one by one. -/
theorem update_kept [DecidableEq F] {op : MergeOp F} (hop : OpKeeps layers op) {index p : Nat}
    (hindex : op.layer = some index) (hfind : findLayer layers index = some (p, layer))
    (hlayer' : op.update layer = .ok layer') : AnchorsKept layer layer' := by
  cases op with
  | ModifyEntity index entityId mutation => exact modifyEntity_kept hlayer'
  | SortLayer index key =>
    cases hindex
    exact sortLayer_kept hlayer' (hop p layer hfind)
  | InsertEntityAt index position path toolIndex regionKey =>
    cases hindex
    exact insertEntityAt_kept hlayer' (hop p layer hfind)
  | SetEntityOrder index items =>
    cases hindex
    exact setEntityOrder_kept hlayer' (hop p layer hfind)
  | InsertSynthLayer idx data => cases hindex

/-- A push only adds an entity at the end of a layer. -/
def Extends (layer layer' : LayerCollectionIR F) : Prop :=
  layer' = { layer with orderedEntities := layer'.orderedEntities } ∧
    layer.orderedEntities <+: layer'.orderedEntities

theorem pushEntities_extends {pushes : List (PriorityPush F)}
    (h : pushEntities layers pushes = .ok layers') {p : Nat} (hp : layers[p]? = some layer) :
    ∃ layer', layers'[p]? = some layer' ∧ Extends layer layer' := by
  refine Except.foldlM_invariant (P := fun layers : List (LayerCollectionIR F) =>
    ∃ layer', layers[p]? = some layer' ∧ Extends layer layer') ?_
    ⟨layer, hp, rfl, List.prefix_rfl⟩ h
  rintro push - state state' ⟨layer₁, hlayer₁, hrecords, hbegins⟩ hstep
  rcases updateLayer_cases hstep with hmiss | ⟨q, layer₂, layer₃, hfind, hpush, rfl⟩
  · cases hmiss
    exact ⟨layer₁, hlayer₁, hrecords, hbegins⟩
  · by_cases hqp : q = p
    · subst hqp
      have hq := getElem?_of_findLayer hfind
      rw [hlayer₁] at hq
      cases hq
      cases hpush
      refine ⟨pushEntity layer₁ push, List.getElem?_set_self (List.getElem?_eq_some_iff.mp hlayer₁).1,
        ?_, hbegins.trans (List.prefix_append _ _)⟩
      rw [pushEntity, hrecords]
    · exact ⟨layer₁, by rw [List.getElem?_set_ne hqp]; exact hlayer₁, hrecords, hbegins⟩

theorem pushAnnotations_kept {annotations : List (Nat × LayerAnnotation)}
    (h : pushAnnotations layers annotations = .ok layers') :
    LayersKept (fun p => p) layers layers' := by
  refine Except.foldlM_invariant (P := fun state => LayersKept (fun p => p) layers state) ?_
    (Related.refl AnchorsKept.refl layers) h
  intro entry _ state state' hstate hstep
  refine hstate.trans (updateLayer_related AnchorsKept.refl hstep (fun hmiss => by cases hmiss) ?_)
  intro p layer layer' _ hupdate
  cases hupdate
  constructor
  · exact Follows.of_unchanged fun r _ => SameEntity.refl _ _
  · exact Follows.of_unchanged fun r _ => SameEntity.refl _ _
  · exact Follows.of_unchanged fun r _ => SameEntity.refl _ _
  · exact Follows.of_appended (fun r _ => SameEntity.refl _ _) [entry.2]

theorem Relocked.sameEntities {entities entities' : List (PrintEntity F)}
    (h : List.Forall₂ Relocked entities entities') (i : Nat) : SameEntity entities entities' i i := by
  intro e he
  obtain ⟨e', he', lock, -, rfl⟩ := h.getElem?_some he
  exact ⟨_, he', rfl⟩

theorem remapLayers_kept {next : Nat} (h : remapLayers layers next = .ok layers') :
    LayersKept (fun p => p) layers layers' := by
  refine remapLayers_related (fun layer layer' hlayer => ?_) h
  obtain ⟨entities, rfl, hentities⟩ := hlayer
  exact AnchorsKept.of_entities rfl fun i _ => Relocked.sameEntities hentities i

/-- Every step of the merge meets its condition: the priority sort moves no
entity that a record of the layer follows, and every operation meets `OpKeeps` on
the layers it is applied to. -/
structure StepsKeep [DecidableEq F] (builder : FinalizationOutputBuilder F)
    (layers : List (LayerCollectionIR F)) : Prop where
  sort : ∀ pushed, pushEntities layers builder.priorityPushes = .ok pushed →
    ∀ (p : Nat) (layer layer' : LayerCollectionIR F), layers[p]? = some layer →
    pushed[p]? = some layer' → pushPriorities builder.priorityPushes layer'.globalLayerIndex ≠ [] →
    ∀ i ∈ anchorIndices layer, i < layer.orderedEntities.length →
      List.sortRank (· ≤ ·) (effectivePriorities layer'.orderedEntities
        (pushPriorities builder.priorityPushes layer'.globalLayerIndex)) i = i
  ops : ∀ pushed sorted before op after state,
    pushEntities layers builder.priorityPushes = .ok pushed →
    pushed.mapM (sortPushed builder.priorityPushes) = .ok sorted →
    builder.mergeOps = before ++ op :: after → before.foldlM applyMergeOp sorted = .ok state →
    OpKeeps state op

/-- Index-anchored records follow their entities through finalization: when every
step of the merge meets its condition, every tool change, z-hop, retract and
annotation of a layer that was anchored after an entity is anchored after the
entity with the same id in the result. -/
theorem anchors_follow_entities [DecidableEq F] (builder : FinalizationOutputBuilder F)
    (layers layers' : List (LayerCollectionIR F)) (h : applyTo builder layers = .ok layers')
    (hsteps : StepsKeep builder layers) : LayersKept (landsAt builder.mergeOps) layers layers' := by
  obtain ⟨pushed, hpushed, h⟩ := Except.of_bind_eq_ok h
  obtain ⟨sorted, hsorted, h⟩ := Except.of_bind_eq_ok h
  obtain ⟨merged, hmerged, h⟩ := Except.of_bind_eq_ok h
  obtain ⟨annotated, hannotated, h⟩ := Except.of_bind_eq_ok h
  have hsort : LayersKept (fun p => p) layers sorted := by
    intro p layer hp
    obtain ⟨layer₁, hlayer₁, hrecords, hbegins⟩ := pushEntities_extends hpushed hp
    obtain ⟨layer₂, hlayer₂, hsort⟩ := Except.getElem?_of_mapM_eq_ok hsorted hlayer₁
    refine ⟨layer₂, hlayer₂, AnchorsKept.of_entities ?_ ?_⟩
    · have hsame := sortPushed_records hsort
      rw [hsame, hrecords]
    · intro i hi e he
      have hlt := (List.getElem?_eq_some_iff.mp he).1
      have he₁ : layer₁.orderedEntities[i]? = some e := by
        obtain ⟨added, hadded⟩ := hbegins
        rw [← hadded, List.getElem?_append_left hlt]
        exact he
      refine ⟨e, ?_, rfl⟩
      by_cases hpriorities : pushPriorities builder.priorityPushes layer₁.globalLayerIndex = []
      · rw [sortPushed_unpushed hsort hpriorities]
        exact he₁
      · have hslot := sortPushed_moves hsort hpriorities he₁
        rwa [hsteps.sort pushed hpushed p layer layer₁ hp hlayer₁ hpriorities i hi hlt] at hslot
  have hops : LayersKept (landsAt builder.mergeOps) sorted merged := by
    refine foldlM_applyMergeOp_related AnchorsKept.refl (fun _ _ _ => AnchorsKept.trans) hmerged ?_
    intro before op after state hsplit hstate index p layer layer'
    exact update_kept (hsteps.ops pushed sorted before op after state hpushed hsorted hsplit hstate)
  exact ((hsort.trans hops).trans (pushAnnotations_kept hannotated)).trans (remapLayers_kept h)

/-- A short path of a role. -/
def rolePath (role : ExtrusionRole) : ExtrusionPath3D ℚ :=
  { points := [⟨0, 0, 1, 1, 1, none, 0, none⟩, ⟨5, 0, 1, 1, 1, none, 0, none⟩], role := role
    speedFactor := 1 }

/-- The entity of a role with an id, at a position. -/
def roleEntity (role : ExtrusionRole) (entityId topoOrder : Nat) : PrintEntity ℚ :=
  { entityId := entityId, path := rolePath role, role := role, regionKey := {}
    topoOrder := topoOrder, toolIndex := 0 }

/-- One wall, followed by a tool change and an annotation. -/
def wallLayer : LayerCollectionIR ℚ :=
  { globalLayerIndex := 0, z := 1
    orderedEntities := [roleEntity .OuterWall 1 0]
    toolChanges := [⟨0, 0, 1⟩]
    annotations := [⟨0, .Comment "wall"⟩] }

/-- A push behind the wall, and an insert behind the wall. -/
def appendingBuilder : FinalizationOutputBuilder ℚ :=
  { priorityPushes := [⟨0, rolePath .WipeTower, 0, {}, 8000⟩]
    mergeOps := [.InsertEntityAt 0 1 (rolePath .InnerWall) 0 {}] }

theorem appendingBuilder_keeps : StepsKeep appendingBuilder [wallLayer] := by
  have hpush : pushEntities [wallLayer] appendingBuilder.priorityPushes =
      .ok [{ wallLayer with
        orderedEntities := [roleEntity .OuterWall 1 0, roleEntity .WipeTower 2 1] }] := by
    decide +kernel
  constructor
  · intro pushed hpushed p layer layer' hp hp' _ i hi _
    rw [hpush] at hpushed
    cases hpushed
    match p with
    | 0 =>
      cases hp
      cases hp'
      have hzero : i = 0 := by simpa [anchorIndices, wallLayer] using hi
      subst hzero
      decide +kernel
    | p + 1 => cases hp
  · intro pushed sorted before op after state hpushed hsorted hsplit hrun
    rw [hpush] at hpushed
    cases hpushed
    obtain ⟨rfl, rfl⟩ : before = [] ∧ op = .InsertEntityAt 0 1 (rolePath .InnerWall) 0 {} := by
      cases before with
      | nil =>
        cases hsplit
        exact ⟨rfl, rfl⟩
      | cons first rest =>
        have := congrArg List.length hsplit
        simp [appendingBuilder] at this
    cases hrun
    have hsort : [{ wallLayer with
        orderedEntities := [roleEntity .OuterWall 1 0, roleEntity .WipeTower 2 1] }].mapM
        (sortPushed appendingBuilder.priorityPushes) = .ok [{ wallLayer with
        orderedEntities := [roleEntity .OuterWall 1 0, roleEntity .WipeTower 2 1] }] := by
      decide +kernel
    rw [hsort] at hsorted
    cases hsorted
    intro p layer hfind a ha _
    have hlayer := getElem?_of_findLayer hfind
    match p with
    | 0 =>
      cases hlayer
      have ha' : a = ⟨0, .Comment "wall"⟩ := by simpa [wallLayer] using ha
      rw [ha']
      decide
    | p + 1 => cases hlayer

theorem anchors_follow_entities_appended :
    LayersKept (landsAt appendingBuilder.mergeOps) [wallLayer] [{ wallLayer with
      orderedEntities :=
        [roleEntity .OuterWall 1 0, roleEntity .InnerWall 3 1, roleEntity .WipeTower 2 1] }] :=
  anchors_follow_entities appendingBuilder [wallLayer] _ (by decide +kernel) appendingBuilder_keeps

/-- A skirt pushed in front of the wall. -/
def skirtBuilder : FinalizationOutputBuilder ℚ :=
  { priorityPushes := [⟨0, rolePath .Skirt, 0, {}, 0⟩] }

/-- The wall layer after the skirt was pushed: the tool change has stayed at
position zero. -/
def skirtedLayer : LayerCollectionIR ℚ :=
  { wallLayer with orderedEntities := [roleEntity .Skirt 2 1, roleEntity .OuterWall 1 0] }

/-- A push in front of an entity leaves the tool change after it behind the pushed
entity. -/
theorem pushed_skirt_takes_tool_change :
    applyTo skirtBuilder [wallLayer] = .ok [skirtedLayer] ∧
    ¬ LayersKept (landsAt skirtBuilder.mergeOps) [wallLayer] [skirtedLayer] := by
  refine ⟨by decide +kernel, fun hkept => ?_⟩
  obtain ⟨layer', hlayer', hanchors⟩ := hkept 0 wallLayer rfl
  cases hlayer'
  obtain ⟨kept, added, hsplit, hfollow⟩ := hanchors.toolChanges
  cases hfollow with
  | cons hfirst hrest =>
    cases hrest
    cases hsplit
    obtain ⟨e', he', hid⟩ := hfirst.2 (roleEntity .OuterWall 1 0) rfl
    cases he'
    cases hid

end PinchNPrint.Layer
