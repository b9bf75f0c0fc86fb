/-
What the default path optimizer proposes, and when the host takes it.

The optimizer keeps a lock together inside one group of one tool; the host asks
that a run of one tag stays together in the whole staged list. The two agree on
two neighbours of one tag that are in the same group. Neighbours in different
groups stay together only where the one is visited last, the other first, and no
group lies between (`Joined`). `default_order_accepted_iff` says that this is all
there is: everything else the optimizer promises holds of every staged list.
-/

import PinchNPrint.Layer.OrderLock
import PinchNPrint.Layer.PathOptimization
import Mathlib.Data.Rat.Sqrt

namespace PinchNPrint.Layer

variable {F : Type}

/-! ### Views of staged entities -/

/-- Every view carries its position. -/
def Indexed (views : List (OrderedEntityView F)) : Prop :=
  views.map (·.originalIndex) = List.range views.length

variable {views : List (OrderedEntityView F)}

theorem Indexed.getElem?_iff (hviews : Indexed views) {view : OrderedEntityView F} {i : Nat} :
    views[i]? = some view ↔ view ∈ views ∧ view.originalIndex = i := by
  have hindex : ∀ k (hk : k < views.length), views[k].originalIndex = k := by
    intro k hk
    have := List.getElem_of_eq hviews (by simpa using hk)
    simpa using this
  constructor
  · intro h
    obtain ⟨hi, rfl⟩ := List.getElem?_eq_some_iff.mp h
    exact ⟨List.getElem_mem hi, hindex i hi⟩
  · rintro ⟨hmem, rfl⟩
    obtain ⟨k, hk, rfl⟩ := List.mem_iff_getElem.mp hmem
    rw [hindex k hk, List.getElem?_eq_getElem hk]

theorem Indexed.nodup (hviews : Indexed views) : (views.map (·.originalIndex)).Nodup :=
  hviews ▸ List.nodup_range

theorem projectOrderedEntity_spec {entry : PrintEntity F × Nat} {view : OrderedEntityView F}
    (h : projectOrderedEntity entry = some view) :
    view.originalIndex = entry.2 ∧ view.orderLock = entry.1.path.orderLock := by
  simp only [projectOrderedEntity, Option.bind_eq_bind, Option.bind_eq_some_iff] at h
  obtain ⟨startPoint, _, endPoint, _, h⟩ := h
  cases h
  exact ⟨rfl, rfl⟩

theorem projectOrderedEntities_spec {collection : LayerCollectionIR F}
    (h : projectOrderedEntitiesFrom (some collection) = some views) :
    Indexed views ∧ views.length = collection.orderedEntities.length ∧
      ∀ i, lockAt collection.orderedEntities i = views[i]?.bind (·.orderLock) := by
  have hforall := List.forall₂_of_mapM_eq_some h
  have hlength : views.length = collection.orderedEntities.length := by
    simpa using hforall.length_eq.symm
  have hat : ∀ (i : Nat) (entity : PrintEntity F), collection.orderedEntities[i]? = some entity →
      ∃ view : OrderedEntityView F, views[i]? = some view ∧ view.originalIndex = i ∧
        view.orderLock = entity.path.orderLock := by
    intro i entity hentity
    have hentry : collection.orderedEntities.zipIdx[i]? = some (entity, i) := by
      rw [List.getElem?_zipIdx, hentity]
      simp
    obtain ⟨view, hlookup, hproject⟩ := hforall.getElem?_some hentry
    exact ⟨view, hlookup, projectOrderedEntity_spec hproject⟩
  refine ⟨?_, hlength, fun i => ?_⟩
  · refine List.ext_getElem (by simp) fun i hi hi' => ?_
    have hi : i < collection.orderedEntities.length := by simpa [hlength] using hi
    obtain ⟨view, hlookup, hindex, _⟩ := hat i _ (List.getElem?_eq_getElem hi)
    obtain ⟨_, rfl⟩ := List.getElem?_eq_some_iff.mp hlookup
    rw [List.getElem_map, hindex, List.getElem_range]
  · rw [lockAt]
    cases hentity : collection.orderedEntities[i]? with
    | none =>
        rw [List.getElem?_eq_none_iff] at hentity
        rw [List.getElem?_eq_none_iff.mpr (by omega)]
        rfl
    | some entity =>
        obtain ⟨view, hlookup, _, hlock⟩ := hat i entity hentity
        rw [hlookup, Option.bind_some, Option.bind_some, hlock]

/-! ### What the host takes -/

section Host

variable {order : List Nat}

/-- Indices that follow each other pair by pair stand in one piece. -/
theorem range'_infix (hnodup : order.Nodup) {start count : Nat} (hstart : start ∈ order)
    (hpairs : ∀ i, start ≤ i → i < start + count → [i, i + 1] <:+: order) :
    List.range' start (count + 1) <:+: order := by
  induction count with
  | zero =>
      obtain ⟨before, after, rfl⟩ := List.append_of_mem hstart
      exact ⟨before, after, by simp⟩
  | succ count ih =>
      obtain ⟨before, after, horder⟩ := ih fun i hi hi' => hpairs i hi (by omega)
      have hsplit : order = (before ++ List.range' start count) ++ (start + count) :: after := by
        rw [← horder, List.range'_concat]
        simp
      have hnext : after.head? = some (start + count + 1) := by
        refine List.head?_of_pair_infix (hsplit ▸ hnodup) ?_
        rw [← hsplit]
        exact hpairs (start + count) (by omega) (by omega)
      obtain ⟨rest, rfl⟩ := List.head?_eq_some_iff.mp hnext
      refine ⟨before, rest, ?_⟩
      rw [← horder, List.range'_concat (n := count + 1)]
      simp [Nat.add_assoc]

/-- What the host takes of a permutation without reversals: neighbours of one tag have
to stay neighbours. -/
theorem forward_proposal_ok_iff {arena : LayerArena F} {collection : LayerCollectionIR F}
    (hstaged : arena.layerCollection = some collection)
    (hperm : order.Perm (List.range collection.orderedEntities.length)) :
    (∃ arena', applyEntityOrderProposal arena (order.map (·, false)) = .ok arena') ↔
      ∀ i tag, lockAt collection.orderedEntities i = some tag →
        lockAt collection.orderedEntities (i + 1) = some tag → [i, i + 1] <:+: order := by
  constructor
  · rintro ⟨arena', h⟩ i tag hi hi'
    simp only [applyEntityOrderProposal, hstaged] at h
    obtain ⟨_, hvalid, _⟩ := Except.of_bind_eq_ok h
    obtain ⟨slot, hslot, hslot'⟩ := validateEntityOrderLocks_neighbours hvalid hi hi'
    refine List.pair_infix_iff.mpr ⟨slot, ?_, ?_⟩
    · simpa using hslot
    · simpa using hslot'
  · intro hpairs
    have hfst : (order.map fun i => (i, false)).map Prod.fst = order := by
      rw [List.map_map]
      exact List.map_id order
    refine (applyEntityOrderProposal_ok_iff hstaged _).mpr ⟨hfst.symm ▸ hperm, ?_⟩
    intro tag start stop run
    have hlt := run.lt
    have hstart : start ∈ order := by
      obtain ⟨entity, hentity, _⟩ := Option.bind_eq_some_iff.mp (run.tagged start le_rfl hlt)
      exact hperm.mem_iff.mpr (List.mem_range.mpr (List.getElem?_eq_some_iff.mp hentity).1)
    have hpiece : List.range' start (stop - start - 1 + 1) <:+: order :=
      range'_infix (hperm.nodup_iff.mpr List.nodup_range) hstart fun i hi hi' =>
        hpairs i tag (run.tagged i hi (by omega)) (run.tagged (i + 1) (by omega) (by omega))
    have hcount : stop - start - 1 + 1 = stop - start := by omega
    rw [hcount] at hpiece
    exact hpiece.map _

end Host

/-! ### The order of the slots -/

section Order

variable [Field F] [LinearOrder F] (sqrt : F → F)

/-- The indices in the order the optimizer visits them. -/
def visitedIndices (views : List (OrderedEntityView F)) : List Nat :=
  (visitedSlots views).flatMap (visitingOrder sqrt views)

/-- A slot is visited once, and its locked runs stay in one piece. -/
theorem visitingOrder_spec (views : List (OrderedEntityView F)) (slot : Nat ×ₗ Nat) :
    (visitingOrder sqrt views slot).Perm
        ((views.filter (slotOf · = slot)).map (·.originalIndex)) ∧
      ∀ a b tag, [a, b] <:+: views.filter (slotOf · = slot) → a.orderLock = some tag →
        b.orderLock = some tag →
        [a.originalIndex, b.originalIndex] <:+: visitingOrder sqrt views slot := by
  by_cases hwalls : (ofLex slot).2 = 1
  · rw [visitingOrder, if_pos hwalls]
    exact ⟨.refl _, fun a b _ hpair _ _ => hpair.map _⟩
  · obtain ⟨order, horder, hspec⟩ := visitGroup_spec sqrt (views.filter (slotOf · = slot))
    rw [visitGroup_eq_visitingOrder sqrt views hwalls] at horder
    have hinjective : Function.Injective fun i : Nat => (i, false) := fun _ _ h => congrArg Prod.fst h
    rwa [hinjective.list_map (Option.some.inj horder)]

variable {i : Nat} {slot : Nat ×ₗ Nat}

theorem mem_visitingOrder {views : List (OrderedEntityView F)} :
    i ∈ visitingOrder sqrt views slot ↔
      ∃ view ∈ views, slotOf view = slot ∧ view.originalIndex = i := by
  rw [(visitingOrder_spec sqrt views slot).1.mem_iff]
  simp [and_assoc]

theorem visitingOrder_ne_nil {views : List (OrderedEntityView F)}
    (hslot : slot ∈ visitedSlots views) : visitingOrder sqrt views slot ≠ [] := by
  obtain ⟨view, hview, hslot⟩ := mem_visitedSlots.mp hslot
  exact List.ne_nil_of_mem ((mem_visitingOrder sqrt).mpr ⟨view, hview, hslot, rfl⟩)

/-- Neighbours of one lock in one slot stay neighbours. -/
theorem pair_infix_visitingOrder {views : List (OrderedEntityView F)} {a b : OrderedEntityView F}
    {tag : Nat} (hpair : [a, b] <:+: views) (ha : a.orderLock = some tag)
    (hb : b.orderLock = some tag) (hslot : slotOf a = slotOf b) :
    [a.originalIndex, b.originalIndex] <:+: visitingOrder sqrt views (slotOf a) := by
  have hmembers : [a, b] <:+: views.filter (slotOf · = slotOf a) := by
    have hfilter := hpair.filter fun view => decide (slotOf view = slotOf a)
    simpa [hslot] using hfilter
  exact (visitingOrder_spec sqrt views (slotOf a)).2 a b tag hmembers ha hb

variable {views : List (OrderedEntityView F)} (hviews : Indexed views)
include hviews

theorem slotOf_of_mem_visitingOrder {view : OrderedEntityView F}
    (hi : i ∈ visitingOrder sqrt views slot) (hview : views[i]? = some view) :
    slotOf view = slot := by
  obtain ⟨other, hother, hslot, hindex⟩ := (mem_visitingOrder sqrt).mp hi
  rw [hviews.getElem?_iff.mpr ⟨hother, hindex⟩] at hview
  cases hview
  exact hslot

/-- Every index is visited once. -/
theorem visitedIndices_perm : (visitedIndices sqrt views).Perm (List.range views.length) := by
  have hnodup : (visitedIndices sqrt views).Nodup := by
    refine List.nodup_flatMap.mpr ⟨fun slot _ => ?_, ?_⟩
    · exact (visitingOrder_spec sqrt views slot).1.nodup_iff.mpr
        (hviews.nodup.sublist (List.filter_sublist.map _))
    · refine (pairwise_visitedSlots views).imp fun {slot slot'} hlt i hi hi' => ?_
      obtain ⟨view, hview, rfl, hindex⟩ := (mem_visitingOrder sqrt).mp hi
      have hslot := slotOf_of_mem_visitingOrder sqrt hviews hi'
        (hviews.getElem?_iff.mpr ⟨hview, hindex⟩)
      exact absurd hslot (ne_of_lt hlt)
  rw [List.perm_ext_iff_of_nodup hnodup List.nodup_range]
  intro i
  rw [← hviews, visitedIndices, List.mem_flatMap, List.mem_map]
  constructor
  · rintro ⟨slot, _, hi⟩
    obtain ⟨view, hview, _, hindex⟩ := (mem_visitingOrder sqrt).mp hi
    exact ⟨view, hview, hindex⟩
  · rintro ⟨view, hview, hindex⟩
    exact ⟨slotOf view, mem_visitedSlots.mpr ⟨view, hview, rfl⟩,
      (mem_visitingOrder sqrt).mpr ⟨view, hview, rfl, hindex⟩⟩

omit hviews

/-- The two neighbours are visited one after the other across two slots: the first is
the last of its slot, the second the first of its own, and no entity is between. -/
def Meets (views : List (OrderedEntityView F)) (a b : OrderedEntityView F) : Prop :=
  slotOf a < slotOf b ∧
    (∀ view ∈ views, ¬ (slotOf a < slotOf view ∧ slotOf view < slotOf b)) ∧
    (visitingOrder sqrt views (slotOf a)).getLast? = some a.originalIndex ∧
    (visitingOrder sqrt views (slotOf b)).head? = some b.originalIndex

/-- The two neighbours are in one slot, or their slots meet in them. -/
def Joined (views : List (OrderedEntityView F)) (a b : OrderedEntityView F) : Prop :=
  slotOf a = slotOf b ∨ Meets sqrt views a b

include hviews

/-- Neighbours of one lock stay neighbours exactly when they are joined. -/
theorem pair_infix_visitedIndices_iff {tag : Nat} {a b : OrderedEntityView F}
    (ha : views[i]? = some a) (hb : views[i + 1]? = some b) (hlocka : a.orderLock = some tag)
    (hlockb : b.orderLock = some tag) :
    [i, i + 1] <:+: visitedIndices sqrt views ↔ Joined sqrt views a b := by
  obtain ⟨hmema, hindexa⟩ := hviews.getElem?_iff.mp ha
  obtain ⟨hmemb, hindexb⟩ := hviews.getElem?_iff.mp hb
  rw [visitedIndices, List.pair_infix_flatMap_iff fun slot => visitingOrder_ne_nil sqrt]
  constructor
  · rintro (⟨slot, _, hpair⟩ | ⟨slot, slot', hslots, hlast, hfirst⟩)
    · left
      rw [slotOf_of_mem_visitingOrder sqrt hviews (hpair.subset List.mem_cons_self) ha,
        slotOf_of_mem_visitingOrder sqrt hviews
          (hpair.subset (List.mem_cons_of_mem _ List.mem_cons_self)) hb]
    · right
      obtain rfl := slotOf_of_mem_visitingOrder sqrt hviews (List.mem_of_getLast? hlast) ha
      obtain rfl := slotOf_of_mem_visitingOrder sqrt hviews (List.mem_of_head? hfirst) hb
      obtain ⟨_, _, hlt, hbetween⟩ :=
        (List.pair_infix_iff_of_pairwise (pairwise_visitedSlots views)).mp hslots
      refine ⟨hlt, fun view hview => hbetween _ (mem_visitedSlots.mpr ⟨view, hview, rfl⟩), ?_, ?_⟩
      · rw [hlast, hindexa]
      · rw [hfirst, hindexb]
  · rintro (hslot | ⟨hlt, hbetween, hlast, hfirst⟩)
    · left
      have hpair := pair_infix_visitingOrder sqrt (List.pair_infix_iff.mpr ⟨i, ha, hb⟩) hlocka hlockb
        hslot
      rw [hindexa, hindexb] at hpair
      exact ⟨slotOf a, mem_visitedSlots.mpr ⟨a, hmema, rfl⟩, hpair⟩
    · right
      rw [hindexa] at hlast
      rw [hindexb] at hfirst
      refine ⟨slotOf a, slotOf b, ?_, hlast, hfirst⟩
      refine (List.pair_infix_iff_of_pairwise (pairwise_visitedSlots views)).mpr
        ⟨mem_visitedSlots.mpr ⟨a, hmema, rfl⟩, mem_visitedSlots.mpr ⟨b, hmemb, rfl⟩, hlt, ?_⟩
      intro slot hslot
      obtain ⟨view, hview, rfl⟩ := mem_visitedSlots.mp hslot
      exact hbetween view hview

/-- Earlier entries have no larger tool, and walls of one tool keep their order. -/
theorem pairwise_visitedIndices :
    (visitedIndices sqrt views).Pairwise fun i j => ∀ a b, views[i]? = some a → views[j]? = some b →
      a.toolIndex ≤ b.toolIndex ∧
        (isWall a.role = true → isWall b.role = true → a.toolIndex = b.toolIndex → i < j) := by
  refine List.pairwise_flatMap.mpr ⟨fun slot _ => ?_, ?_⟩
  · have hwalls : (ofLex slot).2 = 1 → (visitingOrder sqrt views slot).Pairwise (· < ·) := by
      intro hslot
      rw [visitingOrder, if_pos hslot]
      have hrange : (views.map (·.originalIndex)).Pairwise (· < ·) := by
        rw [hviews]
        exact List.pairwise_lt_range
      exact hrange.sublist (List.filter_sublist.map _)
    have hslots : (visitingOrder sqrt views slot).Pairwise fun i j => (ofLex slot).2 = 1 → i < j := by
      by_cases hslot : (ofLex slot).2 = 1
      · exact (hwalls hslot).imp fun h _ => h
      · exact List.pairwise_of_forall_mem_list fun _ _ _ _ h => absurd h hslot
    refine hslots.imp_of_mem fun {i j} hi hj hlt a b ha hb => ?_
    have hsa := slotOf_of_mem_visitingOrder sqrt hviews hi ha
    have hsb := slotOf_of_mem_visitingOrder sqrt hviews hj hb
    obtain ⟨htool, _⟩ := slotOf_eq_iff.mp (hsa.trans hsb.symm)
    refine ⟨le_of_eq htool, fun hwall _ _ => hlt ?_⟩
    rw [← hsa]
    exact rank_eq_one_iff.mpr hwall
  · refine (pairwise_visitedSlots views).imp fun {slot slot'} hlt i hi j hj a b ha hb => ?_
    rw [← slotOf_of_mem_visitingOrder sqrt hviews hi ha,
      ← slotOf_of_mem_visitingOrder sqrt hviews hj hb] at hlt
    rcases Prod.Lex.toLex_lt_toLex.mp hlt with htool | ⟨htool, hrank⟩
    · exact ⟨le_of_lt htool, fun _ _ heq => absurd heq (ne_of_lt htool)⟩
    · refine ⟨le_of_eq htool, fun hwalla hwallb _ => absurd hrank ?_⟩
      simp only [rank_eq_one_iff.mpr hwalla, rank_eq_one_iff.mpr hwallb, lt_irrefl, not_false_iff]

end Order

/-! ### The claim of the optimizer -/

/-- What the optimizer promises of an order and its tool changes. -/
structure Optimized (views : List (OrderedEntityView F)) (permutation : List (Nat × Bool))
    (records : List ToolChange) : Prop where
  permutes : (permutation.map Prod.fst).Perm (List.range views.length)
  forward : ∀ entry ∈ permutation, entry.2 = false
  /-- The tools ascend, and the records are where they change. -/
  tools : ∃ tools : List Nat,
    permutation.map (fun entry => views[entry.1]?.map (·.toolIndex)) = tools.map some ∧
      tools.Pairwise (· ≤ ·) ∧ records = toolChangesFrom 0 tools
  /-- Walls of one tool keep their staged order. -/
  walls : permutation.Pairwise fun entry entry' => ∀ a b, views[entry.1]? = some a →
    views[entry'.1]? = some b → isWall a.role = true → isWall b.role = true →
    a.toolIndex = b.toolIndex → entry.1 < entry'.1

section Claim

variable [Field F] [LinearOrder F] (sqrt : F → F)

/-- The optimizer returns, and keeps what it promises. -/
theorem groupThenNearestNeighbor_spec {views : List (OrderedEntityView F)} (hviews : Indexed views) :
    ∃ records, groupThenNearestNeighbor sqrt views =
        some ((visitedIndices sqrt views).map (·, false), records) ∧
      Optimized views ((visitedIndices sqrt views).map (·, false)) records := by
  have hperm := visitedIndices_perm sqrt hviews
  have hpairwise := pairwise_visitedIndices sqrt hviews
  have hviewAt : ∀ i ∈ visitedIndices sqrt views, ∃ view, views[i]? = some view := fun i hi =>
    ⟨_, List.getElem?_eq_getElem (List.mem_range.mp (hperm.mem_iff.mp hi))⟩
  let toolAt (i : Nat) : Nat := (views[i]?.map (·.toolIndex)).getD 0
  have htools : (visitedIndices sqrt views).map (fun i => views[i]?.map (·.toolIndex)) =
      ((visitedIndices sqrt views).map toolAt).map some := by
    rw [List.map_map]
    refine List.map_congr_left fun i hi => ?_
    obtain ⟨view, hview⟩ := hviewAt i hi
    simp [toolAt, hview]
  obtain ⟨last, hrecords⟩ := recordToolChanges_eq htools
  refine ⟨toolChangesFrom 0 ((visitedIndices sqrt views).map toolAt), ?_, ?_, ?_,
    ⟨_, ?_, ?_, rfl⟩, ?_⟩
  · rw [groupThenNearestNeighbor_eq]
    exact congrArg (Option.map _) hrecords
  · have hfst : ((visitedIndices sqrt views).map fun i => (i, false)).map Prod.fst =
        visitedIndices sqrt views := by
      rw [List.map_map]
      exact List.map_id _
    rwa [hfst]
  · intro entry hentry
    obtain ⟨i, _, rfl⟩ := List.mem_map.mp hentry
    rfl
  · rw [List.map_map]
    exact htools
  · refine List.pairwise_map.mpr (hpairwise.imp_of_mem fun {i j} hi hj hij => ?_)
    obtain ⟨a, ha⟩ := hviewAt i hi
    obtain ⟨b, hb⟩ := hviewAt j hj
    simpa [toolAt, ha, hb] using (hij a b ha hb).1
  · refine List.pairwise_map.mpr (hpairwise.imp fun {i j} hij a b ha hb hwalla hwallb htool => ?_)
    exact (hij a b ha hb).2 hwalla hwallb htool

/-- The optimizer returns an order with all it promises that the host takes, exactly
when neighbours of one tag in the staged list are joined: in one slot, or where two
slots meet. -/
theorem default_order_accepted_iff {arena : LayerArena F} {collection : LayerCollectionIR F}
    (hstaged : arena.layerCollection = some collection) {views : List (OrderedEntityView F)}
    (hviews : projectOrderedEntitiesFrom arena.layerCollection = some views) :
    (∃ permutation records, groupThenNearestNeighbor sqrt views = some (permutation, records) ∧
      Optimized views permutation records ∧
      ∃ arena', applyEntityOrderProposal arena permutation = .ok arena') ↔
      ∀ (i tag : Nat) (a b : OrderedEntityView F), views[i]? = some a → views[i + 1]? = some b →
        a.orderLock = some tag → b.orderLock = some tag → Joined sqrt views a b := by
  rw [hstaged] at hviews
  obtain ⟨hindexed, hlength, hlocks⟩ := projectOrderedEntities_spec hviews
  obtain ⟨records, hresult, hoptimized⟩ := groupThenNearestNeighbor_spec sqrt hindexed
  have hperm := visitedIndices_perm sqrt hindexed
  rw [hlength] at hperm
  have haccepted := forward_proposal_ok_iff hstaged hperm
  have hpairs : (∀ i tag, lockAt collection.orderedEntities i = some tag →
      lockAt collection.orderedEntities (i + 1) = some tag →
        [i, i + 1] <:+: visitedIndices sqrt views) ↔
      ∀ (i tag : Nat) (a b : OrderedEntityView F), views[i]? = some a → views[i + 1]? = some b →
        a.orderLock = some tag → b.orderLock = some tag → Joined sqrt views a b := by
    simp only [hlocks]
    constructor
    · intro h i tag a b ha hb hlocka hlockb
      refine (pair_infix_visitedIndices_iff sqrt hindexed ha hb hlocka hlockb).mp (h i tag ?_ ?_)
      · rw [ha, Option.bind_some, hlocka]
      · rw [hb, Option.bind_some, hlockb]
    · intro h i tag hi hi'
      obtain ⟨a, ha, hlocka⟩ := Option.bind_eq_some_iff.mp hi
      obtain ⟨b, hb, hlockb⟩ := Option.bind_eq_some_iff.mp hi'
      exact (pair_infix_visitedIndices_iff sqrt hindexed ha hb hlocka hlockb).mpr
        (h i tag a b ha hb hlocka hlockb)
  rw [← hpairs, ← haccepted]
  constructor
  · rintro ⟨permutation, records', hresult', _, haccept⟩
    rw [hresult] at hresult'
    cases hresult'
    exact haccept
  · intro haccept
    exact ⟨_, records, hresult, hoptimized, haccept⟩

end Claim

/-- Two solid paths of one tool under one lock, after a sparse path. -/
def oneToolBlock : InfillRegion ℚ (ExtrusionPath3D ℚ) :=
  { sparseInfill := [{ lockedPath .SparseInfill 9 7 with orderLock := none }]
    solidInfill := [lockedPath .TopSolidInfill 1 7, lockedPath .TopSolidInfill 2 7] }

/-- The views of the three paths. -/
def oneToolViews : List (OrderedEntityView ℚ) :=
  let point (x y : ℚ) : Point3WithWidth ℚ := ⟨x, y, 1, 1, 1, none, 0, none⟩
  [⟨0, 0, none, .SparseInfill, point 0 9, point 5 9⟩,
   ⟨1, 0, some 7, .TopSolidInfill, point 0 1, point 5 1⟩,
   ⟨2, 0, some 7, .TopSolidInfill, point 0 2, point 5 2⟩]

theorem one_tool_block_is_accepted :
    ∃ permutation records,
      groupThenNearestNeighbor Rat.sqrt oneToolViews = some (permutation, records) ∧
      Optimized oneToolViews permutation records ∧
      ∃ arena', applyEntityOrderProposal
        (prestageLayerCollection bareLayer (bareArena oneToolBlock)) permutation = .ok arena' := by
  have hslot : ∀ view ∈ oneToolViews, slotOf view = toLex (0, 4) := by decide +kernel
  have hviews : projectOrderedEntitiesFrom
      (prestageLayerCollection bareLayer (bareArena oneToolBlock)).layerCollection =
      some oneToolViews := by decide +kernel
  refine (default_order_accepted_iff Rat.sqrt rfl hviews).mpr fun i tag a b ha hb _ _ => .inl ?_
  rw [hslot a (List.mem_of_getElem? ha), hslot b (List.mem_of_getElem? hb)]

/-- A layer of a printer with two tools that drains nothing but its infill. -/
def twoToolLayer : LayerInput ℚ :=
  { bareLayer with toolCount := 2 }

/-- One solid path with the second tool and one with the first, under one lock. -/
def twoToolBlock : InfillRegion ℚ (ExtrusionPath3D ℚ) :=
  { solidInfill :=
      [{ lockedPath .TopSolidInfill 1 7 with toolIndex := some 1 },
       { lockedPath .TopSolidInfill 2 7 with toolIndex := some 0 }] }

/-- The views of the two paths. -/
def twoToolViews : List (OrderedEntityView ℚ) :=
  let point (x y : ℚ) : Point3WithWidth ℚ := ⟨x, y, 1, 1, 1, none, 0, none⟩
  [⟨0, 1, some 7, .TopSolidInfill, point 0 1, point 5 1⟩,
   ⟨1, 0, some 7, .TopSolidInfill, point 0 2, point 5 2⟩]

/-- A lock over two tools: the optimizer puts the second path first, and the host
refuses. -/
theorem two_tool_block_is_refused :
    applyInfillCommits [{ regions := [twoToolBlock] }] = .ok (bareArena twoToolBlock) ∧
      projectOrderedEntitiesFrom
        (prestageLayerCollection twoToolLayer (bareArena twoToolBlock)).layerCollection =
          some twoToolViews ∧
      groupThenNearestNeighbor Rat.sqrt twoToolViews =
        some ([(1, false), (0, false)], [⟨0, 0, 1⟩]) ∧
      applyEntityOrderProposal (prestageLayerCollection twoToolLayer (bareArena twoToolBlock))
        [(1, false), (0, false)] =
          .error "set-entity-order: locked block 7 was interleaved or reordered" := by
  refine ⟨by decide +kernel, by decide +kernel, by decide +kernel, by decide +kernel⟩

end PinchNPrint.Layer
