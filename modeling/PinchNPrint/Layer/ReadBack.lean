/-
Read-back of the staged order (`slicer-sdk`: `traits.rs`,
`FinalizationOutputBuilder::get_ordered_entities`).

The read-back replays the recorded pushes, inserts and permutations on a copy of
one layer; it sorts nothing, mutates nothing and gives no global order locks.
`read_back_agrees` compares it with the merge: what the mutations and the remap of
the locks make of the entities that are read back is what the merge returns.
-/

import PinchNPrint.Layer.Pushes

namespace PinchNPrint.Layer

variable {F : Type}

/-! ### The replay -/

/-- The entities staged so far, and the next id. -/
structure StagedOrder (F : Type) where
  entities : List (PrintEntity F)
  nextId : Nat
deriving DecidableEq

def makeEntity (id : Nat) (path : ExtrusionPath3D F) (toolIndex : Nat) (regionKey : RegionKey F) :
    PrintEntity F :=
  { entityId := id
    path := path
    role := path.role
    regionKey := regionKey
    topoOrder := 0
    toolIndex := toolIndex }

/-- The replay of a push. -/
def stagePush (layerIndex : Nat) (staged : StagedOrder F) (push : PriorityPush F) :
    StagedOrder F :=
  if push.layerIndex = layerIndex then
    { entities := staged.entities ++
        [makeEntity staged.nextId push.path push.toolIndex push.regionKey]
      nextId := staged.nextId + 1 }
  else staged

/-- The check of a staged permutation: every index is in range and not seen
before. -/
def isPermutation (n : Nat) (items seen : List Nat) : Bool :=
  match items with
  | [] => true
  | index :: rest =>
    if n ≤ index ∨ index ∈ seen then false else isPermutation n rest (index :: seen)

/-- The replay of an operation; a malformed permutation is skipped. -/
def stageOp (layerIndex : Nat) (staged : StagedOrder F) (op : MergeOp F) : StagedOrder F :=
  match op with
  | .InsertEntityAt layer position path toolIndex regionKey =>
    if layer = layerIndex then
      { entities := staged.entities.insertIdx (min position staged.entities.length)
          (makeEntity staged.nextId path toolIndex regionKey)
        nextId := staged.nextId + 1 }
    else staged
  | .SetEntityOrder layer items =>
    if layer = layerIndex then
      if items.length ≠ staged.entities.length then staged
      else if isPermutation staged.entities.length (items.map Prod.fst) [] then
        -- checked: every index names an entity
        { staged with entities := items.filterMap fun item => staged.entities[item.1]? }
      else staged
    else staged
  | _ => staged

/-- The entities of the first layer with an index. -/
def initialEntities (layers : List (LayerCollectionIR F)) (layerIndex : Nat) :
    List (PrintEntity F) :=
  ((layers.find? (·.globalLayerIndex = layerIndex)).map (·.orderedEntities)).getD []

/-- `FinalizationOutputBuilder::get_ordered_entities`. -/
def getOrderedEntities (builder : FinalizationOutputBuilder F) (layerIndex : Nat)
    (layers : List (LayerCollectionIR F)) : List (PrintEntity F) :=
  let entities := initialEntities layers layerIndex
  let staged : StagedOrder F :=
    { entities := entities, nextId := (entities.map (·.entityId)).max?.getD 0 + 1 }
  let staged := builder.priorityPushes.foldl (stagePush layerIndex) staged
  (builder.mergeOps.foldl (stageOp layerIndex) staged).entities

/-! ### Entities that are listed alike -/

/-- What a mutation makes of the path of its entity; the speed factors of single points are
a record of the layer. -/
def EntityMutation.onPath (path : ExtrusionPath3D F) : EntityMutation F → ExtrusionPath3D F
  | .SetSpeedFactor v => { path with speedFactor := v }
  | .SetFlowFactor v =>
    { path with points := path.points.map fun p => { p with flowFactor := v } }
  | .SetPathPoints v => { path with points := v }
  | .SetPointSpeedFactors _ => path

/-- An entity that is read back, with the mutations it receives in the merge. -/
abbrev Listed (F : Type) : Type :=
  PrintEntity F × List (EntityMutation F)

/-- Listed alike: the same id, tool and region, and the path after the mutations. -/
structure ListedAlike (listed : Listed F) (e : PrintEntity F) : Prop where
  entityId : e.entityId = listed.1.entityId
  toolIndex : e.toolIndex = listed.1.toolIndex
  regionKey : e.regionKey = listed.1.regionKey
  path : e.path = listed.2.foldl EntityMutation.onPath listed.1.path

/-- The mutations that operations record for an id of a layer. -/
def recordedFor (layerIndex : Nat) (ops : List (MergeOp F)) (id : Nat) : List (EntityMutation F) :=
  ops.filterMap fun op => match op with
    | .ModifyEntity layer entityId mutation =>
      if layer = layerIndex ∧ entityId = id then some mutation else none
    | _ => none

/-- Each recorded mutation is received by one entity of its id, and no entity receives any
out of order. -/
structure Distributed (recorded : Nat → List (EntityMutation F)) (listed : List (Listed F)) :
    Prop where
  inOrder : ∀ entry ∈ listed, entry.2.Sublist (recorded entry.1.entityId)
  each : ∀ id, ((listed.filter (·.1.entityId = id)).flatMap Prod.snd).Perm (recorded id)

section Distributed

variable {recorded recorded' : Nat → List (EntityMutation F)} {listed listed' : List (Listed F)}

theorem Distributed.perm (h : Distributed recorded listed) (hperm : listed'.Perm listed) :
    Distributed recorded listed' where
  inOrder entry hentry := h.inOrder entry (hperm.mem_iff.mp hentry)
  each id := ((hperm.filter _).flatMap_right _).trans (h.each id)

/-- A new entity has received nothing. -/
theorem Distributed.cons_nil (h : Distributed recorded listed) (e : PrintEntity F) :
    Distributed recorded ((e, []) :: listed) where
  inOrder := List.forall_mem_cons.mpr ⟨List.nil_sublist _, h.inOrder⟩
  each id := by
    rw [List.filter_cons]
    split
    · exact h.each id
    · exact h.each id

/-- An entity receives a mutation of its id. -/
theorem Distributed.receive {entry : Listed F} {mutation : EntityMutation F}
    (h : Distributed recorded (entry :: listed))
    (hself : recorded' entry.1.entityId = recorded entry.1.entityId ++ [mutation])
    (hothers : ∀ id, id ≠ entry.1.entityId → recorded' id = recorded id) :
    Distributed recorded' ((entry.1, entry.2 ++ [mutation]) :: listed) := by
  obtain ⟨hfirst, hrest⟩ := List.forall_mem_cons.mp h.inOrder
  constructor
  · refine List.forall_mem_cons.mpr ⟨?_, fun other hother => ?_⟩
    · rw [hself]
      exact hfirst.append_right [mutation]
    · by_cases hid : other.1.entityId = entry.1.entityId
      · rw [hid, hself]
        exact (hid ▸ hrest other hother).trans (List.sublist_append_left _ _)
      · rw [hothers _ hid]
        exact hrest other hother
  · intro id
    have heach := h.each id
    rw [List.filter_cons] at heach ⊢
    by_cases hid : entry.1.entityId = id
    · subst hid
      rw [if_pos (by simp), List.flatMap_cons] at heach ⊢
      rw [hself, List.append_assoc]
      refine (List.perm_append_comm.append_left entry.2).trans ?_
      rw [← List.append_assoc]
      exact heach.append_right [mutation]
    · rw [if_neg (by simpa using hid)] at heach ⊢
      rw [hothers id (Ne.symm hid)]
      exact heach

end Distributed

/-! ### The next id -/

theorem nextEntityId_le_iff (entities : List (PrintEntity F)) (n : Nat) :
    nextEntityId entities ≤ n ↔ 1 ≤ n ∧ ∀ e ∈ entities, e.entityId < n := by
  unfold nextEntityId
  cases hmax : (entities.map (·.entityId)).max? with
  | none =>
    rw [List.max?_eq_none_iff, List.map_eq_nil_iff] at hmax
    simp [hmax]
  | some max =>
    obtain ⟨hmem, hle⟩ := List.max?_eq_some_iff.mp hmax
    obtain ⟨e, he, rfl⟩ := List.mem_map.mp hmem
    simp only
    constructor
    · intro hn
      refine ⟨by omega, fun e' he' => ?_⟩
      have := hle e'.entityId (List.mem_map_of_mem he')
      omega
    · rintro ⟨-, hn⟩
      exact hn e he

/-- The next id depends on the ids alone. -/
theorem nextEntityId_congr {entities entities' : List (PrintEntity F)}
    (h : ∀ id, id ∈ entities.map (·.entityId) ↔ id ∈ entities'.map (·.entityId)) :
    nextEntityId entities = nextEntityId entities' := by
  have hlt : ∀ n, (∀ e ∈ entities, e.entityId < n) ↔ ∀ e ∈ entities', e.entityId < n := by
    intro n
    have hids : (∀ id ∈ entities.map (·.entityId), id < n) ↔
        ∀ id ∈ entities'.map (·.entityId), id < n := forall_congr' fun id => by rw [h id]
    rwa [List.forall_mem_map, List.forall_mem_map] at hids
  refine Nat.le_antisymm ?_ ?_
  · rw [nextEntityId_le_iff, hlt, ← nextEntityId_le_iff]
  · rw [nextEntityId_le_iff, ← hlt, ← nextEntityId_le_iff]

theorem nextEntityId_of_new {entities entities' : List (PrintEntity F)} {e : PrintEntity F}
    (h : entities'.Perm (e :: entities)) (he : e.entityId = nextEntityId entities) :
    nextEntityId entities' = nextEntityId entities + 1 := by
  rw [nextEntityId_congr fun id => (h.map _).mem_iff]
  refine Nat.le_antisymm ?_ ?_
  · rw [nextEntityId_le_iff, List.forall_mem_cons, he]
    refine ⟨by omega, by omega, fun e' he' => ?_⟩
    have := ((nextEntityId_le_iff entities _).mp le_rfl).2 e' he'
    omega
  · have := ((nextEntityId_le_iff (e :: entities) _).mp le_rfl).2 e List.mem_cons_self
    omega

/-! ### One row -/

/-- The staged order stands for a row of the merge, with the mutations so far. -/
structure StandsFor (recorded : Nat → List (EntityMutation F)) (staged : StagedOrder F)
    (row : List (PrintEntity F)) : Prop where
  alike : ∃ listed, listed.map Prod.fst = staged.entities ∧ Distributed recorded listed ∧
    List.Forall₂ ListedAlike listed row
  nextId : staged.nextId = nextEntityId row

section Steps

variable {recorded recorded' : Nat → List (EntityMutation F)} {staged : StagedOrder F}
  {row : List (PrintEntity F)} {layer layer' : LayerCollectionIR F}

theorem StandsFor.length (h : StandsFor recorded staged row) :
    staged.entities.length = row.length := by
  obtain ⟨listed, hlisted, -, halike⟩ := h.alike
  rw [← hlisted, List.length_map, halike.length_eq]

theorem standsFor_initial (row : List (PrintEntity F)) :
    StandsFor (fun _ => []) ⟨row, (row.map (·.entityId)).max?.getD 0 + 1⟩ row where
  alike := by
    refine ⟨row.map (·, []), by rw [List.map_map]; exact List.map_id _, ⟨?_, fun id => ?_⟩, ?_⟩
    · rintro entry hentry
      obtain ⟨e, -, rfl⟩ := List.mem_map.mp hentry
      exact List.nil_sublist _
    · rw [List.flatMap_eq_nil_iff.mpr]
      rintro entry hentry
      obtain ⟨e, -, rfl⟩ := List.mem_map.mp (List.mem_of_mem_filter hentry)
      rfl
    · rw [List.forall₂_map_left_iff]
      exact List.forall₂_same.mpr fun e _ => ⟨rfl, rfl, rfl, rfl⟩
  nextId := by
    unfold nextEntityId
    cases (row.map (·.entityId)).max? <;> rfl

/-- A push is replayed on the row it goes to. -/
theorem stagePush_standsFor (h : StandsFor recorded staged layer.orderedEntities)
    (push : PriorityPush F) : StandsFor recorded (stagePush push.layerIndex staged push)
      (pushEntity layer push).orderedEntities := by
  obtain ⟨listed, hlisted, hdistributed, halike⟩ := h.alike
  rw [stagePush, if_pos rfl]
  constructor
  · refine ⟨listed ++ [(makeEntity staged.nextId push.path push.toolIndex push.regionKey, [])],
      by simp [hlisted], ?_, ?_⟩
    · exact (hdistributed.cons_nil _).perm (List.perm_append_singleton _ _)
    · exact List.rel_append halike (.cons ⟨h.nextId.symm, rfl, rfl, rfl⟩ .nil)
  · have hnext : nextEntityId (pushEntity layer push).orderedEntities =
        nextEntityId layer.orderedEntities + 1 :=
      nextEntityId_of_new (List.perm_append_singleton _ _) rfl
    rw [hnext, ← h.nextId]

/-- The pushes of a builder. -/
theorem foldl_stagePush_standsFor (pushes : List (PriorityPush F))
    (h : StandsFor recorded staged layer.orderedEntities) :
    StandsFor recorded (pushes.foldl (stagePush layer.globalLayerIndex) staged)
      ((pushesTo pushes layer.globalLayerIndex).foldl pushEntity layer).orderedEntities := by
  induction pushes generalizing staged layer with
  | nil => exact h
  | cons push rest ih =>
    rw [List.foldl_cons, pushesTo]
    by_cases hlayer : push.layerIndex = layer.globalLayerIndex
    · rw [List.filter_cons_of_pos (by simpa using hlayer), List.foldl_cons]
      have hpush := stagePush_standsFor h push
      rw [hlayer] at hpush
      exact ih hpush
    · rw [List.filter_cons_of_neg (by simpa using hlayer), stagePush, if_neg hlayer]
      exact ih h

/-- An insert in range is replayed at its position. -/
theorem insertEntityAt_standsFor {position toolIndex : Nat} {path : ExtrusionPath3D F}
    {regionKey : RegionKey F} (h : StandsFor recorded staged layer.orderedEntities)
    (hinsert : insertEntityAt position path toolIndex regionKey layer = .ok layer') :
    StandsFor recorded ⟨staged.entities.insertIdx (min position staged.entities.length)
      (makeEntity staged.nextId path toolIndex regionKey), staged.nextId + 1⟩
      layer'.orderedEntities := by
  unfold insertEntityAt at hinsert
  split at hinsert
  · cases hinsert
  rename_i hrange
  have hposition : position ≤ layer.orderedEntities.length := Nat.le_of_not_lt hrange
  cases hinsert
  obtain ⟨listed, hlisted, hdistributed, halike⟩ := h.alike
  rw [Nat.min_eq_left (h.length ▸ hposition)]
  constructor
  · refine ⟨listed.insertIdx position (makeEntity staged.nextId path toolIndex regionKey, []),
      by rw [List.map_insertIdx, hlisted], ?_, ?_⟩
    · exact (hdistributed.cons_nil _).perm
        (List.perm_insertIdx _ _ (halike.length_eq ▸ hposition))
    · have hnew : ListedAlike (makeEntity staged.nextId path toolIndex regionKey, [])
          (insertedEntity position path toolIndex regionKey layer) :=
        ⟨h.nextId.symm, rfl, rfl, rfl⟩
      exact halike.insertIdx hnew position
  · rw [h.nextId]
    exact (nextEntityId_of_new (List.perm_insertIdx _ _ hposition) rfl).symm

/-- A mutation changes the path of one entity of its id, and no id, tool or region. -/
theorem mutateEntity_cases [DecidableEq F] {position layerIdx entityId : Nat} {e : PrintEntity F}
    {mutation : EntityMutation F}
    (h : mutateEntity layer position e layerIdx entityId mutation = .ok layer')
    (he : layer.orderedEntities[position]? = some e) :
    layer'.orderedEntities = layer.orderedEntities.set position
      { e with path := mutation.onPath e.path } := by
  cases mutation with
  | SetSpeedFactor v =>
    cases h
    rfl
  | SetFlowFactor v =>
    cases h
    rfl
  | SetPathPoints v =>
    obtain ⟨_, -, h⟩ := Except.of_bind_eq_ok h
    cases h
    rfl
  | SetPointSpeedFactors v =>
    simp only [mutateEntity] at h
    split at h
    · cases h
    · cases h
      obtain ⟨hlt, rfl⟩ := List.getElem?_eq_some_iff.mp he
      exact (List.set_getElem_self hlt).symm

theorem modifyEntity_standsFor [DecidableEq F] {layerIdx entityId : Nat}
    {mutation : EntityMutation F} (h : StandsFor recorded staged layer.orderedEntities)
    (hmodify : modifyEntity layerIdx entityId mutation layer = .ok layer')
    (hself : recorded' entityId = recorded entityId ++ [mutation])
    (hothers : ∀ id, id ≠ entityId → recorded' id = recorded id) :
    StandsFor recorded' staged layer'.orderedEntities := by
  obtain ⟨position, e, he, rfl, hmutate⟩ := modifyEntity_spec hmodify
  have hrow := mutateEntity_cases hmutate he
  obtain ⟨listed, hlisted, hdistributed, halike⟩ := h.alike
  have hlt := (List.getElem?_eq_some_iff.mp he).1
  have hlt' : position < listed.length := halike.length_eq ▸ hlt
  have hentry := List.getElem?_eq_getElem hlt'
  have hold := halike.rel_of_getElem? hentry he
  constructor
  · refine ⟨listed.set position (listed[position].1, listed[position].2 ++ [mutation]), ?_, ?_, ?_⟩
    · rw [List.map_set, ← List.getElem_map Prod.fst (h := by rwa [List.length_map]),
        List.set_getElem_self, hlisted]
    · refine Distributed.perm ?_ (List.set_perm_cons_eraseIdx hlt' _)
      rw [hold.entityId] at hself hothers
      exact (hdistributed.perm (List.getElem_cons_eraseIdx_perm hlt')).receive hself hothers
    · rw [hrow]
      have hpath : mutation.onPath e.path = (listed[position].2 ++ [mutation]).foldl
          EntityMutation.onPath listed[position].1.path := by
        rw [List.foldl_append, ← hold.path]
        rfl
      have hnew : ListedAlike (listed[position].1, listed[position].2 ++ [mutation])
          { e with path := mutation.onPath e.path } :=
        ⟨hold.entityId, hold.toolIndex, hold.regionKey, hpath⟩
      exact halike.set hnew position
  · rw [h.nextId, hrow]
    exact nextEntityId_congr fun id => by
      change _ ↔ id ∈ (setPath layer position e (mutation.onPath e.path)).orderedEntities.map _
      rw [setPath_ids he]

theorem isPermutation_of_checkPermutation {n : Nat} {items seen : List Nat}
    (h : checkPermutation n items seen = .ok ()) : isPermutation n items seen = true := by
  induction items generalizing seen with
  | nil => rfl
  | cons index rest ih =>
    unfold checkPermutation at h
    split at h
    · cases h
    rename_i hrange
    split at h
    · cases h
    rename_i hseen
    rw [isPermutation, if_neg (not_or.mpr ⟨hrange, hseen⟩)]
    exact ih h

/-- A permutation that the merge carries out is replayed. -/
theorem setEntityOrder_standsFor {items : List (Nat × Bool)}
    (h : StandsFor recorded staged layer.orderedEntities)
    (horder : setEntityOrder items layer = .ok layer') :
    StandsFor recorded (stageOp layer.globalLayerIndex staged
      (.SetEntityOrder layer.globalLayerIndex items)) layer'.orderedEntities := by
  obtain ⟨hlength, hcheck, htaken⟩ := setEntityOrder_spec horder
  have hstaged := h.length
  obtain ⟨listed, hlisted, hdistributed, halike⟩ := h.alike
  rw [stageOp, if_pos rfl, if_neg (by rw [hstaged]; exact not_not.mpr hlength), if_pos (by
    rw [hstaged]
    exact isPermutation_of_checkPermutation hcheck)]
  constructor
  · refine ⟨(items.map Prod.fst).filterMap (listed[·]?), ?_, ?_, ?_⟩
    · rw [← hlisted, List.map_filterMap, List.filterMap_map]
      simp only [List.getElem?_map]
      rfl
    · refine hdistributed.perm (List.filterMap_getElem?_perm ?_)
      rw [halike.length_eq]
      exact perm_of_checkPermutation hcheck (by rw [List.length_map, hlength])
    · rw [List.filterMap_map]
      refine List.Forall₂.filterMap_left (htaken.imp fun item e he => ?_)
      have hflip : List.Forall₂ (fun b a => ListedAlike a b) layer.orderedEntities listed :=
        halike.flip
      exact hflip.getElem?_some he
  · rw [h.nextId]
    refine nextEntityId_congr fun id => ?_
    simp only [List.mem_map, setEntityOrder_mem_iff horder]

end Steps

/-! ### The priority sort -/

/-- The pushes come last: each has at least the priority of every entity of its
layer, and the entities there stand in the order of their own priorities. -/
structure PushedLast (pushes : List (PriorityPush F)) (layer : LayerCollectionIR F) : Prop where
  above : ∀ push ∈ pushes, push.layerIndex = layer.globalLayerIndex →
    ∀ e ∈ layer.orderedEntities, e.role.defaultPriority ≤ push.priority
  standing : ∀ push ∈ pushes, push.layerIndex = layer.globalLayerIndex →
    layer.orderedEntities.Pairwise fun a b => a.role.defaultPriority ≤ b.role.defaultPriority

theorem orderByPriority_sorted {priorities : List Nat} {entities : List (PrintEntity F)}
    (hsorted : priorities.Pairwise (· ≤ ·)) (hlength : priorities.length = entities.length) :
    orderByPriority priorities entities = entities := by
  have hzip : (priorities.zip entities).Pairwise fun a b => a.1 ≤ b.1 := by
    rw [← List.pairwise_map (f := Prod.fst), List.map_fst_zip (le_of_eq hlength)]
    exact hsorted
  rw [orderByPriority, hzip.insertionSort_eq, List.map_snd_zip (le_of_eq hlength.symm)]

/-- Pushes that come last stay behind the entities of their layer. -/
theorem sortPushed_pushedLast {pushes : List (PriorityPush F)} {layer row : LayerCollectionIR F}
    (hlast : PushedLast pushes layer) (horder : pushes.Pairwise fun a b => a.priority ≤ b.priority)
    (h : sortPushed pushes ((pushesTo pushes layer.globalLayerIndex).foldl pushEntity layer) =
      .ok row) : row = (pushesTo pushes layer.globalLayerIndex).foldl pushEntity layer := by
  by_cases hpushed : pushesTo pushes layer.globalLayerIndex = []
  · rw [hpushed, List.foldl_nil, sortPushed_of_nil hpushed] at h
    rw [hpushed]
    cases h
    rfl
  · obtain ⟨added, hadds, -, -, hfold⟩ :=
      foldl_pushEntity (pushesTo pushes layer.globalLayerIndex) layer
    rw [hfold] at h ⊢
    have hlength := hadds.length_eq
    have hok := @sortPushed_ok F pushes
      { layer with orderedEntities := layer.orderedEntities ++ added } hpushed (by
        rw [hlength, List.length_append]
        omega)
    rw [hok, effectivePriorities_append (by rw [List.length_map, hlength])] at h
    cases h
    have hmem : ∀ push ∈ pushesTo pushes layer.globalLayerIndex,
        push ∈ pushes ∧ push.layerIndex = layer.globalLayerIndex := by
      intro push hpush
      simpa [pushesTo] using hpush
    obtain ⟨first, hfirst⟩ := List.exists_mem_of_ne_nil _ hpushed
    rw [orderByPriority_sorted]
    · rw [List.pairwise_append]
      refine ⟨?_, ?_, ?_⟩
      · rw [List.pairwise_map]
        exact hlast.standing first (hmem first hfirst).1 (hmem first hfirst).2
      · rw [List.pairwise_map]
        exact horder.filter _
      · intro a ha b hb
        obtain ⟨e, he, rfl⟩ := List.mem_map.mp ha
        obtain ⟨push, hpush, rfl⟩ := List.mem_map.mp hb
        exact hlast.above push (hmem push hpush).1 (hmem push hpush).2 e he
    · simp [hlength]

/-! ### The merge -/

/-- The operations that the read-back replays or may leave out. -/
def Replayed : MergeOp F → Prop
  | .SortLayer _ _ => False
  | .InsertSynthLayer _ _ => False
  | _ => True

section Merge

variable {done : List (MergeOp F)} {staged : StagedOrder F}
  {layers layers' : List (LayerCollectionIR F)} {p : Nat} {layer : LayerCollectionIR F}

/-- An operation that records nothing. -/
theorem recordedFor_append {index : Nat} {op : MergeOp F}
    (h : ∀ id, recordedFor index [op] id = []) :
    recordedFor index (done ++ [op]) = recordedFor index done := by
  funext id
  have happend : recordedFor index (done ++ [op]) id =
      recordedFor index done id ++ recordedFor index [op] id := List.filterMap_append
  rw [happend, h, List.append_nil]

theorem update_standsFor [DecidableEq F] {op : MergeOp F} (hreplayed : Replayed op)
    (hindex : op.layer = some layer.globalLayerIndex) {layer' : LayerCollectionIR F}
    (h : StandsFor (recordedFor layer.globalLayerIndex done) staged layer.orderedEntities)
    (hupdate : op.update layer = .ok layer') :
    StandsFor (recordedFor layer.globalLayerIndex (done ++ [op]))
      (stageOp layer.globalLayerIndex staged op) layer'.orderedEntities := by
  cases op with
  | ModifyEntity index entityId mutation =>
    cases hindex
    refine modifyEntity_standsFor h hupdate ?_ fun id hid => ?_
    · simp [recordedFor]
    · simp [recordedFor, Ne.symm hid]
  | SortLayer index key => cases hreplayed
  | InsertSynthLayer idx data => cases hreplayed
  | InsertEntityAt index position path toolIndex regionKey =>
    cases hindex
    rw [stageOp, if_pos rfl, recordedFor_append fun _ => rfl]
    exact insertEntityAt_standsFor h hupdate
  | SetEntityOrder index items =>
    cases hindex
    rw [recordedFor_append fun _ => rfl]
    exact setEntityOrder_standsFor h hupdate

/-- An operation on another layer is not. -/
theorem stageOp_of_ne {op : MergeOp F} {index layerIndex : Nat} (hindex : op.layer = some index)
    (hne : layerIndex ≠ index) (staged : StagedOrder F) : stageOp layerIndex staged op = staged := by
  cases op with
  | ModifyEntity index entityId mutation => rfl
  | SortLayer index key => rfl
  | InsertSynthLayer idx data => rfl
  | InsertEntityAt index position path toolIndex regionKey =>
    cases hindex
    rw [stageOp, if_neg hne.symm]
  | SetEntityOrder index items =>
    cases hindex
    rw [stageOp, if_neg hne.symm]

theorem recordedFor_of_ne {op : MergeOp F} {index layerIndex : Nat}
    (hindex : op.layer = some index) (hne : layerIndex ≠ index) :
    recordedFor layerIndex (done ++ [op]) = recordedFor layerIndex done := by
  refine recordedFor_append fun id => ?_
  cases op with
  | ModifyEntity index entityId mutation =>
    cases hindex
    simp [recordedFor, hne.symm]
  | _ => rfl

/-- The operations of a builder. -/
theorem foldlM_standsFor [DecidableEq F] (done : List (MergeOp F)) {index : Nat}
    {ops : List (MergeOp F)}
    (hops : ∀ op ∈ ops, Replayed op)
    (h : ops.foldlM applyMergeOp layers = .ok layers')
    (hlayer : findLayer layers index = some (p, layer))
    (hstands : StandsFor (recordedFor index done) staged layer.orderedEntities) :
    ∃ layer', findLayer layers' index = some (p, layer') ∧
      StandsFor (recordedFor index (done ++ ops)) (ops.foldl (stageOp index) staged)
        layer'.orderedEntities := by
  induction ops generalizing layers layer staged done with
  | nil =>
    cases h
    exact ⟨layer, hlayer, by rwa [List.append_nil]⟩
  | cons op rest ih =>
    rw [List.foldlM_cons] at h
    obtain ⟨mid, hmid, h⟩ := Except.of_bind_eq_ok h
    obtain ⟨hreplayed, hrest⟩ := List.forall_mem_cons.mp hops
    have hdone : done ++ op :: rest = (done ++ [op]) ++ rest := by simp
    rw [hdone, List.foldl_cons]
    rcases applyMergeOp_cases hmid with ⟨-, _, _, rfl⟩ |
      ⟨target, q, old, new, htarget, hfind, hnew, rfl⟩ | ⟨_, _, rfl, -⟩
    · cases hreplayed
    · have hfound := findLayer_set hfind (MergeOp.update_index hnew) hlayer
      by_cases hindex : index = target
      · subst hindex
        rw [hlayer] at hfind
        cases hfind
        rw [if_pos rfl] at hfound
        have hlayerIndex := (findLayer_eq_some_iff.mp hlayer).2.1
        refine ih (done ++ [op]) hrest h hfound ?_
        rw [← hlayerIndex] at htarget hstands ⊢
        exact update_standsFor hreplayed htarget hstands hnew
      · rw [if_neg hindex] at hfound
        rw [stageOp_of_ne htarget hindex]
        exact ih (done ++ [op]) hrest h hfound (by rwa [recordedFor_of_ne htarget hindex])
    · cases hreplayed

/-- A merged row and what is read back: the same entities in the same order, each after the
mutations it receives and with its lock remapped. -/
def ReadBack (recorded : Nat → List (EntityMutation F)) (entities row : List (PrintEntity F)) :
    Prop :=
  ∃ listed, listed.map Prod.fst = entities ∧ Distributed recorded listed ∧
    List.Forall₂ (fun entry e' => ∃ e, ListedAlike entry e ∧ Relocked e e') listed row

theorem readBack_of_annotated {recorded : Nat → List (EntityMutation F)}
    {annotations : List (Nat × LayerAnnotation)} {annotated : List (LayerCollectionIR F)} {next : Nat}
    (hlayer : layers[p]? = some layer) (hstands : StandsFor recorded staged layer.orderedEntities)
    (hannotated : pushAnnotations layers annotations = .ok annotated)
    (h : remapLayers annotated next = .ok layers') :
    ∃ layer', layers'[p]? = some layer' ∧
      ReadBack recorded staged.entities layer'.orderedEntities := by
  obtain ⟨layer₁, hlayer₁, hsame⟩ := pushAnnotations_related
    (R := fun a b => b.orderedEntities = a.orderedEntities) (fun _ => rfl)
    (fun _ _ _ hab hbc => hbc.trans hab) hannotated (fun _ _ => rfl) p layer hlayer
  obtain ⟨layer', hlayer', relocked, rfl, hrelocked⟩ :=
    (remapLayers_relocked h).getElem?_some hlayer₁
  obtain ⟨listed, hlisted, hdistributed, halike⟩ := hstands.alike
  refine ⟨_, hlayer', listed, hlisted, hdistributed, ?_⟩
  rw [hsame] at hrelocked
  apply List.forall₂_of_getElem?
  · exact halike.length_eq.trans hrelocked.length_eq
  · intro i a c ha hc
    obtain ⟨b, hb, hab⟩ := halike.getElem?_some ha
    exact ⟨b, hab, hrelocked.rel_of_getElem? hb hc⟩

/-- Layers of distinct indices are found at their positions. -/
theorem findLayer_of_nodup (hdistinct : (layers.map (·.globalLayerIndex)).Nodup)
    (hlayer : layers[p]? = some layer) :
    findLayer layers layer.globalLayerIndex = some (p, layer) := by
  refine findLayer_eq_some_iff.mpr ⟨hlayer, rfl, fun j other hj hother hsame => ?_⟩
  have hj' : (layers.map (·.globalLayerIndex))[j]? = some other.globalLayerIndex := by
    rw [List.getElem?_map, hother]
    rfl
  have hp' : (layers.map (·.globalLayerIndex))[p]? = some other.globalLayerIndex := by
    rw [List.getElem?_map, hlayer, hsame]
    rfl
  exact Nat.ne_of_lt hj ((List.getElem?_inj (List.getElem?_eq_some_iff.mp hj').1 hdistinct).mp
    (hj'.trans hp'.symm))

theorem initialEntities_of_findLayer {index : Nat}
    (h : findLayer layers index = some (p, layer)) :
    initialEntities layers index = layer.orderedEntities := by
  obtain ⟨hlayer, hindex, hbefore⟩ := findLayer_eq_some_iff.mp h
  obtain ⟨hlt, hat⟩ := List.getElem?_eq_some_iff.mp hlayer
  have hfound : layers.find? (·.globalLayerIndex = index) = some layer := by
    rw [List.find?_eq_some_iff_getElem]
    refine ⟨by simpa using hindex, p, hlt, hat, fun j hj => ?_⟩
    have := hbefore j _ hj (List.getElem?_eq_getElem (Nat.lt_trans hj hlt))
    simpa using this
  rw [initialEntities, hfound]
  rfl

/-- Layers of the same index. -/
def SameIndex (layer layer' : LayerCollectionIR F) : Prop :=
  layer'.globalLayerIndex = layer.globalLayerIndex

theorem SameIndex.trans {a b c : LayerCollectionIR F} (h : SameIndex a b) (h' : SameIndex b c) :
    SameIndex a c :=
  Eq.trans h' h

theorem sortPushed_sameIndex {pushes : List (PriorityPush F)} {layer layer' : LayerCollectionIR F}
    (h : sortPushed pushes layer = .ok layer') : SameIndex layer layer' := by
  rw [SameIndex, sortPushed_records h]

/-- The pushes and their sort leave a layer where it is found, with its pushes
behind its entities. -/
theorem findLayer_mergePushes {pushes : List (PriorityPush F)}
    {pushed sorted : List (LayerCollectionIR F)} (hpushed : pushEntities layers pushes = .ok pushed)
    (hsorted : pushed.mapM (sortPushed pushes) = .ok sorted)
    (horder : pushes.Pairwise fun a b => a.priority ≤ b.priority) (hlast : PushedLast pushes layer)
    (hfind : findLayer layers layer.globalLayerIndex = some (p, layer)) :
    findLayer sorted layer.globalLayerIndex =
      some (p, (pushesTo pushes layer.globalLayerIndex).foldl pushEntity layer) := by
  obtain ⟨hlayer, -, hbefore⟩ := findLayer_eq_some_iff.mp hfind
  have hfirst : IsFirst layers p layer := by
    intro other hother
    obtain ⟨j, hj⟩ := List.mem_iff_getElem?.mp hother
    have hlt : j < p := by
      have := (List.getElem?_eq_some_iff.mp hj).1
      rw [List.length_take] at this
      omega
    rw [List.getElem?_take_of_lt hlt] at hj
    exact hbefore j other hlt hj
  have hindices : Related SameIndex (fun p => p) layers sorted :=
    Related.trans (R := SameIndex) (fun _ _ _ => SameIndex.trans)
      (pushEntities_related (R := SameIndex) (fun _ => rfl) (fun _ _ _ => SameIndex.trans) hpushed
        fun _ _ _ => rfl)
      (Related.of_mapM (fun _ _ => sortPushed_sameIndex) hsorted)
  rw [pushEntities_eq] at hpushed
  cases hpushed
  obtain ⟨row, hrow, hsort⟩ := Except.getElem?_of_mapM_eq_ok hsorted
    (getElem?_pushRows_first hlayer hfirst)
  rw [sortPushed_pushedLast hlast horder hsort] at hrow
  refine findLayer_eq_some_iff.mpr ⟨hrow, globalLayerIndex_foldl_pushEntity, ?_⟩
  intro j other hj hother
  have hlt := Nat.lt_trans hj (List.getElem?_eq_some_iff.mp hlayer).1
  obtain ⟨other', hother', hsame⟩ := hindices j _ (List.getElem?_eq_getElem hlt)
  rw [hother] at hother'
  cases hother'
  rw [hsame]
  exact hbefore j _ hj (List.getElem?_eq_getElem hlt)

/-- Read-back agrees with the merge: for layers of distinct indices and a builder
without sorts and synthetic layers, whose pushes come last and in the order of
their priorities, every merged layer lists the entities that are read back, in the
same order. Each has the path that the mutations recorded for it make, and each of
these is received by one entity; the remap changes local lock tags alone. -/
theorem read_back_agrees [DecidableEq F] (builder : FinalizationOutputBuilder F)
    (layers layers' : List (LayerCollectionIR F))
    (hdistinct : (layers.map (·.globalLayerIndex)).Nodup)
    (hops : ∀ op ∈ builder.mergeOps, Replayed op)
    (horder : builder.priorityPushes.Pairwise fun a b => a.priority ≤ b.priority)
    (hlast : ∀ layer ∈ layers, PushedLast builder.priorityPushes layer)
    (h : applyTo builder layers = .ok layers') (p : Nat) (layer : LayerCollectionIR F)
    (hlayer : layers[p]? = some layer) :
    ∃ layer', layers'[p]? = some layer' ∧
      ReadBack (recordedFor layer.globalLayerIndex builder.mergeOps)
        (getOrderedEntities builder layer.globalLayerIndex layers) layer'.orderedEntities := by
  obtain ⟨pushed, hpushed, h⟩ := Except.of_bind_eq_ok h
  obtain ⟨sorted, hsorted, h⟩ := Except.of_bind_eq_ok h
  obtain ⟨merged, hmerged, h⟩ := Except.of_bind_eq_ok h
  obtain ⟨annotated, hannotated, h⟩ := Except.of_bind_eq_ok h
  have hfind := findLayer_of_nodup hdistinct hlayer
  have hfound := findLayer_mergePushes hpushed hsorted horder
    (hlast layer (List.mem_of_getElem? hlayer)) hfind
  obtain ⟨layer₁, hlayer₁, hstands⟩ := foldlM_standsFor [] hops hmerged hfound
    (foldl_stagePush_standsFor _ (standsFor_initial layer.orderedEntities))
  have hread := readBack_of_annotated (getElem?_of_findLayer hlayer₁) hstands hannotated h
  simp only [getOrderedEntities, initialEntities_of_findLayer hfind]
  exact hread

end Merge

/-- A tower pushed behind the walls. -/
def towerBuilder : FinalizationOutputBuilder ℚ :=
  { priorityPushes := [⟨0, rolePath .WipeTower, 0, {}, 8000⟩] }

/-- A locked tower pushed behind the wall, the wall slowed, and the tower put first. -/
def turningBuilder : FinalizationOutputBuilder ℚ :=
  { priorityPushes := [⟨0, { rolePath .WipeTower with orderLock := some 1 }, 0, {}, 8000⟩]
    mergeOps := [.ModifyEntity 0 1 (.SetSpeedFactor 2), .SetEntityOrder 0 [(1, false), (0, false)]] }

theorem read_back_agrees_tower : ∃ layer', applyTo turningBuilder [wallLayer] = .ok [layer'] ∧
    (getOrderedEntities turningBuilder 0 [wallLayer]).map (·.entityId) = [2, 1] ∧
    ReadBack (recordedFor 0 turningBuilder.mergeOps)
      (getOrderedEntities turningBuilder 0 [wallLayer]) layer'.orderedEntities := by
  have hmerge : ((applyTo turningBuilder [wallLayer]).toOption.any fun rows =>
      rows.length == 1) = true := by
    decide +kernel
  obtain ⟨rows, hrows, hlength⟩ := (Option.any_eq_true ..).mp hmerge
  obtain ⟨row, rfl⟩ := List.length_eq_one_iff.mp (beq_iff_eq.mp hlength)
  have hrun := Except.of_toOption_eq_some hrows
  have hreplayed : ∀ op ∈ turningBuilder.mergeOps, Replayed op :=
    List.forall_mem_cons.mpr ⟨trivial, List.forall_mem_singleton.mpr trivial⟩
  have hlast : ∀ layer ∈ [wallLayer], PushedLast turningBuilder.priorityPushes layer := by
    refine List.forall_mem_singleton.mpr ⟨?_, fun _ _ _ => List.pairwise_singleton _ _⟩
    intro push hpush _ e he
    rw [List.mem_singleton.mp hpush, List.mem_singleton.mp he]
    decide
  obtain ⟨layer', hlayer', hread⟩ := read_back_agrees turningBuilder [wallLayer] [row]
    (List.nodup_singleton _) hreplayed (List.pairwise_singleton _ _) hlast hrun 0 wallLayer rfl
  cases hlayer'
  exact ⟨row, hrun, by decide +kernel, hread⟩

/-- An inner wall in front of an outer one. -/
def turnedLayer : LayerCollectionIR ℚ :=
  { globalLayerIndex := 0, z := 1
    orderedEntities := [roleEntity .InnerWall 1 0, roleEntity .OuterWall 2 1] }

/-- A slower outer wall. -/
def slowingBuilder : FinalizationOutputBuilder ℚ :=
  { mergeOps := [.ModifyEntity 0 2 (.SetSpeedFactor 2)] }

/-- A locked path pushed behind the walls. -/
def lockingBuilder : FinalizationOutputBuilder ℚ :=
  { priorityPushes := [⟨0, { rolePath .WipeTower with orderLock := some 1 }, 0, {}, 8000⟩] }

/-- The read-back neither sorts the entities of the layer, nor mutates them, nor
gives global order locks; the merge does all three. -/
theorem read_back_differs :
    (∃ layer', applyTo towerBuilder [turnedLayer] = .ok [layer'] ∧
      layer'.orderedEntities.map (·.entityId) = [2, 1, 3] ∧
      (getOrderedEntities towerBuilder 0 [turnedLayer]).map (·.entityId) = [1, 2, 3]) ∧
    (∃ layer', applyTo slowingBuilder [turnedLayer] = .ok [layer'] ∧
      layer'.orderedEntities.map (·.path.speedFactor) = [1, 2] ∧
      (getOrderedEntities slowingBuilder 0 [turnedLayer]).map (·.path.speedFactor) = [1, 1]) ∧
    ∃ layer', applyTo lockingBuilder [wallLayer] = .ok [layer'] ∧
      layer'.orderedEntities.map (·.path.orderLock) = [none, some globalBit] ∧
      (getOrderedEntities lockingBuilder 0 [wallLayer]).map (·.path.orderLock) = [none, some 1] := by
  refine ⟨⟨{ turnedLayer with orderedEntities := [roleEntity .OuterWall 2 1,
    roleEntity .InnerWall 1 0, roleEntity .WipeTower 3 2] }, ?_, rfl, ?_⟩, ⟨{ turnedLayer with
    orderedEntities := [roleEntity .InnerWall 1 0, { roleEntity .OuterWall 2 1 with
      path := { rolePath .OuterWall with speedFactor := 2 } }] }, ?_, ?_, ?_⟩, ⟨{ wallLayer with
    orderedEntities := [roleEntity .OuterWall 1 0, { roleEntity .WipeTower 2 1 with
      path := { rolePath .WipeTower with orderLock := some globalBit } }] }, ?_, rfl, ?_⟩⟩
  all_goals decide +kernel

end PinchNPrint.Layer
