/-
The default path optimizer
(`path-optimization-default`: `lib.rs`; `slicer-wasm-host`: `dispatch.rs`).

The host shows a module the staged entities as views. The module orders them tool
by tool: skirts, then walls as they are staged, then the other roles group by
group, each group by a greedy nearest-neighbour walk over its locked runs.

A `none` stands for a panic of the source; `visitGroup_spec` and
`recordToolChanges_eq` show that there is none. The square root is a parameter. A view's region key and point count
are not read and are left out.
-/

import PinchNPrint.Layer.Commit
import PinchNPrint.Lib.Grouping
import Mathlib.Algebra.Order.Field.Basic
import PinchNPrint.Lib.Numerals

namespace PinchNPrint.Layer

variable {F : Type}

/-! ### Views -/

structure OrderedEntityView (F : Type) where
  originalIndex : Nat
  toolIndex : Nat
  orderLock : Option Nat
  role : ExtrusionRole
  startPoint : Point3WithWidth F
  endPoint : Point3WithWidth F
deriving DecidableEq

/-- The view of one staged entity; a path has points. -/
def projectOrderedEntity (entry : PrintEntity F × Nat) : Option (OrderedEntityView F) := do
  let startPoint ← entry.1.path.points.head?
  let endPoint ← entry.1.path.points.getLast?
  some
    { originalIndex := entry.2
      toolIndex := entry.1.toolIndex
      orderLock := entry.1.path.orderLock
      role := entry.1.path.role
      startPoint := startPoint
      endPoint := endPoint }

def projectOrderedEntitiesFrom (layerCollection : Option (LayerCollectionIR F)) :
    Option (List (OrderedEntityView F)) :=
  match layerCollection with
  | none => some []
  | some collection => collection.orderedEntities.zipIdx.mapM projectOrderedEntity

/-! ### Candidates -/

structure NearestNeighborCandidate (F : Type) where
  indices : List Nat
  startX : F
  startY : F
  endX : F
  endY : F
deriving DecidableEq

/-- The entities after the first that carry its lock. -/
def lockedRun (entity : OrderedEntityView F) (rest : List (OrderedEntityView F)) :
    List (OrderedEntityView F) :=
  match entity.orderLock with
  | some lock => rest.takeWhile (·.orderLock = some lock)
  | none => []

/-- The candidate of one run. -/
def runCandidate (entity : OrderedEntityView F) (run : List (OrderedEntityView F)) :
    NearestNeighborCandidate F :=
  let last := run.getLast?.getD entity
  { indices := (entity :: run).map (·.originalIndex)
    startX := entity.startPoint.x
    startY := entity.startPoint.y
    endX := last.endPoint.x
    endY := last.endPoint.y }

/-- `coalesce_locked_candidates`: a run of one lock is one candidate. -/
def coalesceLockedCandidates (entities : List (OrderedEntityView F)) :
    List (NearestNeighborCandidate F) :=
  match entities with
  | [] => []
  | entity :: rest =>
    runCandidate entity (lockedRun entity rest) ::
      coalesceLockedCandidates (rest.drop (lockedRun entity rest).length)
termination_by entities.length

section Walk

variable [Field F] [LinearOrder F] (sqrt : F → F)

/-- Whether a candidate replaces the best so far: nearer, or within the tolerance and
earlier. -/
def isBetter (best : Option (Nat × F)) (i : Nat) (dist : F) : Bool :=
  match best with
  | none => true
  | some (bestIdx, bestDist) =>
    if |dist - bestDist| < 1 / 1000 then i < bestIdx else dist < bestDist

/-- One round of the inner loop: the best candidate so far and its distance. -/
def scanCandidate (used : List Bool) (curX curY : F) (best : Option (Nat × F))
    (entry : NearestNeighborCandidate F × Nat) : Option (Nat × F) :=
  if used[entry.2]? = some true then best
  else
    let dx := entry.1.startX - curX
    let dy := entry.1.startY - curY
    let dist := sqrt (dx * dx + dy * dy)
    if isBetter best entry.2 dist then some (entry.2, dist) else best

/-- The inner loop. -/
def nearestCandidate (entities : List (NearestNeighborCandidate F)) (used : List Bool)
    (curX curY : F) : Option Nat :=
  (entities.zipIdx.foldl (scanCandidate sqrt used curX curY) none).map Prod.fst

/-- The outer loop, with the rounds that are left. -/
def nearestNeighborLoop (entities : List (NearestNeighborCandidate F)) (rounds : Nat)
    (used : List Bool) (curX curY : F) : Option (List (Nat × Bool)) :=
  match rounds with
  | 0 => some []
  | rounds + 1 => do
    let bestIdx ← nearestCandidate sqrt entities used curX curY
    let best ← entities[bestIdx]?
    let result ← nearestNeighborLoop entities rounds (used.set bestIdx true) best.endX best.endY
    some ((bestIdx, false) :: result)

def nearestNeighborPermutation (entities : List (NearestNeighborCandidate F)) :
    Option (List (Nat × Bool)) :=
  let n := entities.length
  if n = 0 then some []
  else if n = 1 then some [(0, false)]
  else nearestNeighborLoop sqrt entities n (List.replicate n false) 0 0

end Walk

/-! ### Groups -/

def roleGroup : ExtrusionRole → Nat
  | .Skirt => 0
  | .InnerWall => 1
  | .OuterWall => 2
  | .ThinWall => 3
  | .BottomSolidInfill | .TopSolidInfill | .SparseInfill | .BridgeInfill => 4
  | .Ironing => 5
  | .SupportMaterial => 6
  | .SupportInterface => 7
  | .WipeTower | .PrimeTower => 8
  | .Custom _ => 9
  | .GapFill => 4
  | _ => 9

def isWall : ExtrusionRole → Bool
  | .InnerWall | .OuterWall => true
  | _ => false

section Order

variable [Field F] [LinearOrder F] (sqrt : F → F)

/-- The entries of one candidate, with its reversal. -/
def candidateEntries (candidates : List (NearestNeighborCandidate F)) (entry : Nat × Bool) :
    Option (List (Nat × Bool)) := do
  let candidate ← candidates[entry.1]?
  some (candidate.indices.map fun origIdx => (origIdx, entry.2))

/-- The entries of one role group. -/
def visitGroup (group : List (OrderedEntityView F)) : Option (List (Nat × Bool)) := do
  let candidates := coalesceLockedCandidates group
  let order ← nearestNeighborPermutation sqrt candidates
  let runs ← order.mapM (candidateEntries candidates)
  some runs.flatten

/-- The role group of the first entity of a group. -/
def leadingGroup (group : List (OrderedEntityView F)) : Option Nat :=
  group.head?.map fun entity => roleGroup entity.role

/-- The entries of one tool's cluster. -/
def visitCluster (cluster : List (OrderedEntityView F)) : Option (List (Nat × Bool)) := do
  let walls := cluster.filter fun entity => isWall entity.role
  let roleGroups := BTreeMap.groupBy (fun entity => roleGroup entity.role)
    (cluster.filter fun entity => !isWall entity.role)
  -- the first loop stops at the first group from one on
  let before ← ((BTreeMap.vals roleGroups).takeWhile fun group =>
    (leadingGroup group).any (· < 1)).mapM (visitGroup sqrt)
  let after ← ((BTreeMap.vals roleGroups).filter fun group =>
    !(leadingGroup group).any (· < 1)).mapM (visitGroup sqrt)
  some (before.flatten ++ walls.map (fun entity => (entity.originalIndex, false)) ++ after.flatten)

/-- One round of the loop over tool changes: the last tool with its position, and the
records so far. -/
def recordToolChange (entities : List (OrderedEntityView F))
    (state : Option (Nat × Nat) × List ToolChange) (entry : (Nat × Bool) × Nat) :
    Option (Option (Nat × Nat) × List ToolChange) := do
  let entity ← entities[entry.1.1]?
  let currentTool := entity.toolIndex
  let records :=
    match state.1 with
    | some (prev, prevPos) =>
        if currentTool ≠ prev then state.2 ++ [⟨prevPos, prev, currentTool⟩] else state.2
    | none => state.2
  some (some (currentTool, entry.2), records)

/-- `group_then_nearest_neighbor`: the permutation and the tool changes. -/
def groupThenNearestNeighbor (entities : List (OrderedEntityView F)) :
    Option (List (Nat × Bool) × List ToolChange) := do
  if entities = [] then some ([], [])
  else
    let toolClusters := BTreeMap.groupBy (fun entity => entity.toolIndex) entities
    let clusters ← (BTreeMap.vals toolClusters).mapM (visitCluster sqrt)
    let finalPermutation := clusters.flatten
    let state ← finalPermutation.zipIdx.foldlM (recordToolChange entities) (none, [])
    some (finalPermutation, state.2)

end Order

/-! ### The walk visits every candidate once -/

section Walk

variable [Field F] [LinearOrder F] (sqrt : F → F)

theorem scanCandidate_cases (used : List Bool) (curX curY : F) (best : Option (Nat × F))
    (entry : NearestNeighborCandidate F × Nat) :
    scanCandidate sqrt used curX curY best entry = best ∨
      (used[entry.2]? ≠ some true ∧
        ∃ dist, scanCandidate sqrt used curX curY best entry = some (entry.2, dist)) := by
  unfold scanCandidate
  split
  · exact .inl rfl
  · next hfree =>
      simp only
      split
      · exact .inr ⟨hfree, _, rfl⟩
      · exact .inl rfl

variable {used : List Bool} {i : Nat}

theorem scanCandidate_none {entry : NearestNeighborCandidate F × Nat}
    (hfree : used[entry.2]? ≠ some true) (curX curY : F) :
    (scanCandidate sqrt used curX curY none entry).isSome := by
  simp [scanCandidate, hfree, isBetter]

/-- A round never loses what was found before. -/
theorem isSome_foldl_scanCandidate {used : List Bool} {curX curY : F}
    {entries : List (NearestNeighborCandidate F × Nat)} {best : Option (Nat × F)}
    (h : best.isSome ∨ ∃ entry ∈ entries, used[entry.2]? ≠ some true) :
    (entries.foldl (scanCandidate sqrt used curX curY) best).isSome := by
  induction entries generalizing best with
  | nil => simpa using h
  | cons entry rest ih =>
      refine ih ?_
      rcases h with hbest | ⟨found, hfound, hfree⟩
      · left
        obtain hsame | ⟨_, dist, hnew⟩ := scanCandidate_cases sqrt used curX curY best entry
        · rwa [hsame]
        · rw [hnew, Option.isSome_some]
      · obtain rfl | hfound := List.mem_cons.mp hfound
        · left
          cases best with
          | none => exact scanCandidate_none sqrt hfree curX curY
          | some found' =>
              obtain hsame | ⟨_, dist, hnew⟩ :=
                scanCandidate_cases sqrt used curX curY (some found') found
              · rw [hsame, Option.isSome_some]
              · rw [hnew, Option.isSome_some]
        · exact .inr ⟨found, hfound, hfree⟩

/-- What the scan ends with is free. -/
theorem mem_of_foldl_scanCandidate {curX curY : F}
    {entries : List (NearestNeighborCandidate F × Nat)} {best : Option (Nat × F)} {dist : F}
    (h : entries.foldl (scanCandidate sqrt used curX curY) best = some (i, dist)) :
    best = some (i, dist) ∨ ∃ entry ∈ entries, entry.2 = i ∧ used[i]? ≠ some true := by
  induction entries generalizing best with
  | nil => exact .inl h
  | cons entry rest ih =>
      obtain hbest | ⟨found, hfound, hfree⟩ := ih h
      · obtain hsame | ⟨hfree, dist', hnew⟩ := scanCandidate_cases sqrt used curX curY best entry
        · exact .inl (hsame ▸ hbest)
        · obtain ⟨rfl, rfl⟩ := Prod.mk.inj (Option.some.inj (hnew.symm.trans hbest))
          exact .inr ⟨entry, List.mem_cons_self, rfl, hfree⟩
      · exact .inr ⟨found, List.mem_cons_of_mem _ hfound, hfree⟩

/-- The inner loop finds a free candidate when there is one. -/
theorem nearestCandidate_spec {entities : List (NearestNeighborCandidate F)}
    (hi : i < entities.length) (hfree : used[i]? ≠ some true) (curX curY : F) :
    ∃ best < entities.length, used[best]? ≠ some true ∧
      nearestCandidate sqrt entities used curX curY = some best := by
  have hentry : (entities[i], i) ∈ entities.zipIdx :=
    List.mk_mem_zipIdx_iff_getElem?.mpr (List.getElem?_eq_getElem hi)
  obtain ⟨⟨best, dist⟩, hbest⟩ := Option.isSome_iff_exists.mp
    (@isSome_foldl_scanCandidate F _ _ sqrt used curX curY _ none (.inr ⟨_, hentry, hfree⟩))
  obtain h | ⟨entry, hmem, rfl, hfree'⟩ := mem_of_foldl_scanCandidate sqrt hbest
  · cases h
  · have hlookup := List.mk_mem_zipIdx_iff_getElem?.mp hmem
    refine ⟨entry.2, (List.getElem?_eq_some_iff.mp hlookup).1, hfree', ?_⟩
    rw [nearestCandidate, hbest]
    rfl

/-- The indices a walk still has to visit. -/
def freeIndices (used : List Bool) : List Nat :=
  (List.range used.length).filter fun i => used[i]? = some false

theorem mem_freeIndices : i ∈ freeIndices used ↔ used[i]? = some false := by
  rw [freeIndices, List.mem_filter, List.mem_range, decide_eq_true_eq]
  exact and_iff_right_of_imp fun h => (List.getElem?_eq_some_iff.mp h).1

theorem nodup_freeIndices (used : List Bool) : (freeIndices used).Nodup :=
  List.nodup_range.filter _

theorem freeIndices_set (hi : used[i]? = some false) :
    (freeIndices used).Perm (i :: freeIndices (used.set i true)) := by
  have hlt := (List.getElem?_eq_some_iff.mp hi).1
  have hset : i ∉ freeIndices (used.set i true) := by
    rw [mem_freeIndices, List.getElem?_set_self hlt]
    exact fun h => absurd h (by decide)
  rw [List.perm_ext_iff_of_nodup (nodup_freeIndices used)
    (List.nodup_cons.mpr ⟨hset, nodup_freeIndices _⟩)]
  intro j
  rw [List.mem_cons, mem_freeIndices, mem_freeIndices]
  by_cases hij : i = j
  · subst hij
    simp [hi]
  · rw [List.getElem?_set_ne hij]
    simp [Ne.symm hij]

/-- The walk visits every free candidate once. -/
theorem nearestNeighborLoop_spec {entities : List (NearestNeighborCandidate F)} {rounds : Nat}
    {used : List Bool} (hused : used.length = entities.length)
    (hrounds : (freeIndices used).length = rounds) (curX curY : F) :
    ∃ order : List Nat, nearestNeighborLoop sqrt entities rounds used curX curY =
      some (order.map (·, false)) ∧ order.Perm (freeIndices used) := by
  induction rounds generalizing used curX curY with
  | zero =>
      refine ⟨[], rfl, ?_⟩
      rw [List.length_eq_zero_iff.mp hrounds]
  | succ rounds ih =>
      obtain ⟨i, hi⟩ := List.exists_mem_of_length_pos (by omega : 0 < (freeIndices used).length)
      have hfree := mem_freeIndices.mp hi
      have hlt : i < entities.length := hused ▸ (List.getElem?_eq_some_iff.mp hfree).1
      obtain ⟨best, hbest, hunused, hnearest⟩ :=
        nearestCandidate_spec sqrt hlt (by rw [hfree]; decide) curX curY
      have hbestFree : used[best]? = some false := by
        rw [List.getElem?_eq_getElem (hused ▸ hbest)] at hunused ⊢
        simpa using hunused
      have hperm := freeIndices_set hbestFree
      obtain ⟨order, hloop, horder⟩ := @ih (used.set best true) (by rw [List.length_set, hused])
        (by simpa [hrounds] using hperm.length_eq.symm) entities[best].endX entities[best].endY
      refine ⟨best :: order, ?_, (horder.cons best).trans hperm.symm⟩
      simp [nearestNeighborLoop, hnearest, List.getElem?_eq_getElem hbest, hloop]

theorem nearestNeighborPermutation_spec (entities : List (NearestNeighborCandidate F)) :
    ∃ order : List Nat, nearestNeighborPermutation sqrt entities = some (order.map (·, false)) ∧
      order.Perm (List.range entities.length) := by
  unfold nearestNeighborPermutation
  by_cases hzero : entities.length = 0
  · exact ⟨[], by simp [hzero], by simp [hzero]⟩
  by_cases hone : entities.length = 1
  · exact ⟨[0], by simp [hone], by simp [hone]⟩
  have hfree : freeIndices (List.replicate entities.length false) = List.range entities.length := by
    rw [freeIndices, List.length_replicate, List.filter_eq_self]
    intro i hi
    simp [List.mem_range.mp hi]
  obtain ⟨order, hloop, horder⟩ := @nearestNeighborLoop_spec F _ _ sqrt entities entities.length
    (List.replicate entities.length false) List.length_replicate (by rw [hfree, List.length_range])
    0 0
  exact ⟨order, by simpa [hzero, hone] using hloop, hfree ▸ horder⟩

end Walk

/-! ### Runs -/

theorem lockedRun_append (entity : OrderedEntityView F) (rest : List (OrderedEntityView F)) :
    lockedRun entity rest ++ rest.drop (lockedRun entity rest).length = rest := by
  refine List.prefix_iff_eq_append.mp ?_
  unfold lockedRun
  split
  · exact List.takeWhile_prefix _
  · exact List.nil_prefix

theorem lockedRun_spec {entity : OrderedEntityView F} {rest : List (OrderedEntityView F)} {tag : Nat}
    {last next : OrderedEntityView F} (hlast : (entity :: lockedRun entity rest).getLast? = some last)
    (hlock : last.orderLock = some tag)
    (hnext : (rest.drop (lockedRun entity rest).length).head? = some next) :
    next.orderLock ≠ some tag := by
  have happend := lockedRun_append entity rest
  unfold lockedRun at hlast happend hnext
  cases hentity : entity.orderLock with
  | none =>
      simp only [hentity, List.getLast?_singleton, Option.some.injEq] at hlast
      rw [← hlast, hentity] at hlock
      cases hlock
  | some lock =>
      simp only [hentity] at hlast happend hnext
      have htag : lock = tag := by
        obtain rfl | hmem := List.mem_cons.mp (List.mem_of_getLast? hlast)
        · exact Option.some.inj (hentity.symm.trans hlock)
        · have hrun : last.orderLock = some lock := by simpa using List.mem_takeWhile_imp hmem
          exact Option.some.inj (hrun.symm.trans hlock)
      subst htag
      have hrest := List.append_cancel_left (happend.trans
        (List.takeWhile_append_dropWhile
          (p := fun entity : OrderedEntityView F => entity.orderLock = some lock)).symm)
      have hfirst := List.head?_dropWhile_not (fun entity : OrderedEntityView F => entity.orderLock = some lock) rest
      rw [← hrest, hnext] at hfirst
      simpa using hfirst

theorem flatMap_indices_coalesceLockedCandidates (entities : List (OrderedEntityView F)) :
    (coalesceLockedCandidates entities).flatMap (·.indices) =
      entities.map (·.originalIndex) := by
  fun_induction coalesceLockedCandidates entities with
  | case1 => rfl
  | case2 entity rest ih =>
      rw [List.flatMap_cons, ih, runCandidate]
      conv_rhs => rw [← lockedRun_append entity rest]
      simp

/-- Neighbours of one lock are neighbours in one candidate. -/
theorem pair_infix_coalesceLockedCandidates {entities : List (OrderedEntityView F)}
    {a b : OrderedEntityView F} {tag : Nat} (hpair : [a, b] <:+: entities)
    (ha : a.orderLock = some tag) (hb : b.orderLock = some tag) :
    ∃ candidate ∈ coalesceLockedCandidates entities,
      [a.originalIndex, b.originalIndex] <:+: candidate.indices := by
  fun_induction coalesceLockedCandidates entities with
  | case1 => simp at hpair
  | case2 entity rest ih =>
      rw [← lockedRun_append entity rest, ← List.cons_append, List.pair_infix_append_iff] at hpair
      obtain hrun | ⟨hlast, hnext⟩ | hlater := hpair
      · exact ⟨_, List.mem_cons_self, hrun.map _⟩
      · exact absurd hb (lockedRun_spec hlast ha hnext)
      · obtain ⟨candidate, hcandidate, hinfix⟩ := ih hlater
        exact ⟨candidate, List.mem_cons_of_mem _ hcandidate, hinfix⟩

/-! ### Slots -/

/-- The place of a role in a tool's cluster: skirts, walls, then the other groups. -/
def rank (role : ExtrusionRole) : Nat :=
  if isWall role then 1 else roleGroup role

theorem rank_eq_one_iff {role : ExtrusionRole} : rank role = 1 ↔ isWall role = true := by
  cases role <;> simp [rank, isWall, roleGroup]

theorem rank_of_not_isWall {role : ExtrusionRole} (h : isWall role = false) :
    rank role = roleGroup role := by
  simp [rank, h]

/-- The tool and the place in its cluster. -/
def slotOf (entity : OrderedEntityView F) : Nat ×ₗ Nat :=
  toLex (entity.toolIndex, rank entity.role)

/-- The ranks of a cluster in the order they are visited. -/
def clusterRanks (cluster : List (OrderedEntityView F)) : List Nat :=
  let ranks := (BTreeMap.groupBy (fun entity => roleGroup entity.role)
    (cluster.filter fun entity => !isWall entity.role)).keys
  ranks.filter (· < 1) ++ (if cluster.any (isWall ·.role) then [1] else []) ++
    ranks.filter (¬ · < 1)

/-- The slots in the order they are visited. -/
def visitedSlots (views : List (OrderedEntityView F)) : List (Nat ×ₗ Nat) :=
  (BTreeMap.groupBy (fun entity => entity.toolIndex) views).keys.flatMap fun tool =>
    (clusterRanks (views.filter (·.toolIndex = tool))).map fun rank => toLex (tool, rank)

theorem pairwise_keys_groupBy {α : Type} (key : α → Nat) (l : List α) :
    (BTreeMap.groupBy key l).keys.Pairwise (· < ·) :=
  Std.ExtTreeMap.ordered_keys.imp fun h => Nat.compare_eq_lt.mp h

theorem mem_clusterRanks {cluster : List (OrderedEntityView F)} {r : Nat} :
    r ∈ clusterRanks cluster ↔ ∃ entity ∈ cluster, rank entity.role = r := by
  simp only [clusterRanks, List.mem_append, List.mem_filter, BTreeMap.mem_keys_groupBy,
    decide_eq_true_eq, Bool.not_eq_true']
  constructor
  · rintro ((⟨⟨entity, ⟨hentity, hwall⟩, rfl⟩, _⟩ | hone) | ⟨⟨entity, ⟨hentity, hwall⟩, rfl⟩, _⟩)
    · exact ⟨entity, hentity, rank_of_not_isWall hwall⟩
    · split at hone
      · next hany =>
          obtain ⟨entity, hentity, hwall⟩ := List.any_eq_true.mp hany
          rw [List.mem_singleton] at hone
          exact ⟨entity, hentity, hone ▸ rank_eq_one_iff.mpr hwall⟩
      · exact absurd hone List.not_mem_nil
    · exact ⟨entity, hentity, rank_of_not_isWall hwall⟩
  · rintro ⟨entity, hentity, rfl⟩
    cases hwall : isWall entity.role with
    | true =>
        refine .inl (.inr ?_)
        rw [if_pos (List.any_eq_true.mpr ⟨entity, hentity, hwall⟩), rank_eq_one_iff.mpr hwall]
        exact List.mem_singleton_self 1
    | false =>
        have hkey : ∃ other, (other ∈ cluster ∧ isWall other.role = false) ∧
            roleGroup other.role = rank entity.role :=
          ⟨entity, ⟨hentity, hwall⟩, (rank_of_not_isWall hwall).symm⟩
        by_cases hskirt : rank entity.role < 1
        · exact .inl (.inl ⟨hkey, hskirt⟩)
        · exact .inr ⟨hkey, hskirt⟩

/-- The walls' rank is no other group's. -/
theorem ne_one_of_mem_keys {cluster : List (OrderedEntityView F)} {r : Nat}
    (hr : r ∈ (BTreeMap.groupBy (fun entity => roleGroup entity.role)
      (cluster.filter fun entity => !isWall entity.role)).keys) : r ≠ 1 := by
  rintro rfl
  obtain ⟨entity, hentity, hgroup⟩ := BTreeMap.mem_keys_groupBy.mp hr
  have hwall : isWall entity.role = false := by simpa using (List.mem_filter.mp hentity).2
  rw [← rank_of_not_isWall hwall, rank_eq_one_iff, hwall] at hgroup
  cases hgroup

theorem pairwise_clusterRanks (cluster : List (OrderedEntityView F)) :
    (clusterRanks cluster).Pairwise (· < ·) := by
  have hkeys := pairwise_keys_groupBy (fun entity => roleGroup entity.role)
    (cluster.filter fun entity => !isWall entity.role)
  unfold clusterRanks
  refine List.pairwise_append.mpr ⟨List.pairwise_append.mpr ⟨hkeys.filter _, ?_, ?_⟩,
    hkeys.filter _, ?_⟩
  · split
    · exact List.pairwise_singleton _ _
    · exact .nil
  · intro a ha b hb
    have ha := of_decide_eq_true (List.mem_filter.mp ha).2
    split at hb
    · rwa [List.mem_singleton.mp hb]
    · exact absurd hb List.not_mem_nil
  · intro a ha b hb
    obtain ⟨hb, hlarge⟩ := List.mem_filter.mp hb
    have hlarge := of_decide_eq_true hlarge
    have hne := ne_one_of_mem_keys hb
    rcases List.mem_append.mp ha with ha | ha
    · have ha := of_decide_eq_true (List.mem_filter.mp ha).2
      omega
    · split at ha
      · rw [List.mem_singleton.mp ha]
        omega
      · exact absurd ha List.not_mem_nil

variable {views : List (OrderedEntityView F)}

theorem mem_visitedSlots {slot : Nat ×ₗ Nat} :
    slot ∈ visitedSlots views ↔ ∃ entity ∈ views, slotOf entity = slot := by
  simp only [visitedSlots, List.mem_flatMap, List.mem_map, mem_clusterRanks,
    BTreeMap.mem_keys_groupBy, List.mem_filter, decide_eq_true_eq]
  constructor
  · rintro ⟨tool, _, r, ⟨entity, ⟨hentity, rfl⟩, rfl⟩, rfl⟩
    exact ⟨entity, hentity, rfl⟩
  · rintro ⟨entity, hentity, rfl⟩
    exact ⟨entity.toolIndex, ⟨entity, hentity, rfl⟩, rank entity.role,
      ⟨entity, ⟨hentity, rfl⟩, rfl⟩, rfl⟩

theorem pairwise_visitedSlots (views : List (OrderedEntityView F)) :
    (visitedSlots views).Pairwise (· < ·) := by
  refine List.pairwise_flatMap.mpr ⟨fun tool _ => ?_, ?_⟩
  · refine List.pairwise_map.mpr ((pairwise_clusterRanks _).imp fun h => ?_)
    exact Prod.Lex.toLex_lt_toLex.mpr (.inr ⟨rfl, h⟩)
  · refine (pairwise_keys_groupBy _ views).imp fun {tool tool'} htool slot hslot slot' hslot' => ?_
    obtain ⟨r, _, rfl⟩ := List.mem_map.mp hslot
    obtain ⟨r', _, rfl⟩ := List.mem_map.mp hslot'
    exact Prod.Lex.toLex_lt_toLex.mpr (.inl htool)

theorem leadingGroup_filter {cluster : List (OrderedEntityView F)} {r : Nat}
    (hr : r ∈ (BTreeMap.groupBy (fun entity => roleGroup entity.role) cluster).keys) :
    leadingGroup (cluster.filter (roleGroup ·.role = r)) = some r := by
  obtain ⟨entity, hentity, hgroup⟩ := BTreeMap.mem_keys_groupBy.mp hr
  have hne : cluster.filter (roleGroup ·.role = r) ≠ [] :=
    List.ne_nil_of_mem (List.mem_filter.mpr ⟨hentity, decide_eq_true hgroup⟩)
  obtain ⟨first, rest, hfirst⟩ := List.exists_cons_of_ne_nil hne
  have hmem : first ∈ cluster.filter (roleGroup ·.role = r) := hfirst ▸ List.mem_cons_self
  rw [hfirst, leadingGroup, List.head?_cons, Option.map_some,
    of_decide_eq_true (List.mem_filter.mp hmem).2]

theorem slotOf_eq_iff {entity : OrderedEntityView F} {tool r : Nat} :
    slotOf entity = toLex (tool, r) ↔ entity.toolIndex = tool ∧ rank entity.role = r := by
  rw [slotOf, toLex_inj, Prod.mk.injEq]

theorem filter_slotOf_eq (views : List (OrderedEntityView F)) {tool r : Nat} (hr : r ≠ 1) :
    ((views.filter (·.toolIndex = tool)).filter fun entity => !isWall entity.role).filter
        (roleGroup ·.role = r) =
      views.filter (slotOf · = toLex (tool, r)) := by
  rw [List.filter_filter, List.filter_filter]
  refine List.filter_congr fun entity _ => ?_
  rw [Bool.eq_iff_iff]
  simp only [slotOf_eq_iff, Bool.and_eq_true, decide_eq_true_eq, Bool.not_eq_true']
  cases hwall : isWall entity.role with
  | true => simp [rank_eq_one_iff.mpr hwall, Ne.symm hr]
  | false => simp [rank_of_not_isWall hwall, and_comm]

theorem filter_isWall_eq (views : List (OrderedEntityView F)) (tool : Nat) :
    (views.filter (·.toolIndex = tool)).filter (isWall ·.role) =
      views.filter (slotOf · = toLex (tool, 1)) := by
  rw [List.filter_filter]
  refine List.filter_congr fun entity _ => ?_
  rw [Bool.eq_iff_iff]
  simp [slotOf_eq_iff, rank_eq_one_iff, and_comm]

/-! ### Groups in order -/

section Order

variable [Field F] [LinearOrder F] (sqrt : F → F)

/-- A group is visited once, and its locked runs stay in one piece. -/
theorem visitGroup_spec (group : List (OrderedEntityView F)) :
    ∃ order : List Nat, visitGroup sqrt group = some (order.map (·, false)) ∧
      order.Perm (group.map (·.originalIndex)) ∧
      ∀ a b tag, [a, b] <:+: group → a.orderLock = some tag → b.orderLock = some tag →
        [a.originalIndex, b.originalIndex] <:+: order := by
  obtain ⟨walk, hwalk, hperm⟩ := nearestNeighborPermutation_spec sqrt (coalesceLockedCandidates group)
  let indicesAt (i : Nat) : List Nat :=
    ((coalesceLockedCandidates group)[i]?.map (·.indices)).getD []
  have hindices : ∀ i (hi : i < (coalesceLockedCandidates group).length),
      indicesAt i = (coalesceLockedCandidates group)[i].indices := by
    intro i hi
    simp [indicesAt, hi]
  have hrange : (List.range (coalesceLockedCandidates group).length).flatMap indicesAt =
      group.map (·.originalIndex) := by
    rw [← flatMap_indices_coalesceLockedCandidates, List.flatMap_def, List.flatMap_def]
    congr 1
    refine List.ext_getElem (by simp) fun i hi hi' => ?_
    rw [List.getElem_map, List.getElem_map, List.getElem_range]
    exact hindices i (by simpa using hi)
  have hbound : ∀ i ∈ walk, i < (coalesceLockedCandidates group).length := fun i hi =>
    List.mem_range.mp (hperm.mem_iff.mp hi)
  refine ⟨walk.flatMap indicesAt, ?_, ?_, ?_⟩
  · have hruns : (walk.map (·, false)).mapM (candidateEntries (coalesceLockedCandidates group)) =
        some ((walk.map (·, false)).map fun entry =>
          (indicesAt entry.1).map fun origIdx => (origIdx, entry.2)) := by
      refine List.mapM_eq_some_map fun entry hentry => ?_
      obtain ⟨i, hi, rfl⟩ := List.mem_map.mp hentry
      rw [candidateEntries, hindices i (hbound i hi), List.getElem?_eq_getElem (hbound i hi)]
      rfl
    simp only [visitGroup, hwalk, Option.bind_eq_bind, Option.bind_some, hruns]
    rw [List.map_map, List.map_flatMap, List.flatMap_def]
    rfl
  · rw [← hrange]
    exact hperm.flatMap_right _
  · intro a b tag hpair ha hb
    obtain ⟨candidate, hcandidate, hinfix⟩ := pair_infix_coalesceLockedCandidates hpair ha hb
    obtain ⟨i, hi, rfl⟩ := List.mem_iff_getElem.mp hcandidate
    rw [← hindices i hi] at hinfix
    exact hinfix.trans (List.infix_flatMap_of_mem (hperm.mem_iff.mpr (List.mem_range.mpr hi)) _)

/-- The order a slot is visited in: walls as they are staged, another group by the
walk over its candidates. -/
def visitingOrder (views : List (OrderedEntityView F)) (slot : Nat ×ₗ Nat) : List Nat :=
  let members := views.filter (slotOf · = slot)
  if (ofLex slot).2 = 1 then members.map (·.originalIndex)
  else ((visitGroup sqrt members).getD []).map Prod.fst

theorem visitGroup_eq_visitingOrder (views : List (OrderedEntityView F)) {slot : Nat ×ₗ Nat}
    (hslot : (ofLex slot).2 ≠ 1) :
    visitGroup sqrt (views.filter (slotOf · = slot)) =
      some ((visitingOrder sqrt views slot).map (·, false)) := by
  obtain ⟨order, horder, _⟩ := visitGroup_spec sqrt (views.filter (slotOf · = slot))
  have hvisit : visitingOrder sqrt views slot = order := by
    simp only [visitingOrder, if_neg hslot, horder, Option.getD_some, List.map_map]
    exact List.map_id order
  rw [hvisit, horder]

theorem mapM_visitGroup {views : List (OrderedEntityView F)} {tool : Nat}
    {group : Nat → List (OrderedEntityView F)}
    (hgroup : ∀ r ≠ 1, group r = views.filter (slotOf · = toLex (tool, r))) {ranks : List Nat}
    (hranks : ∀ r ∈ ranks, r ≠ 1) :
    (ranks.map group).mapM (visitGroup sqrt) =
      some (ranks.map fun r => (visitingOrder sqrt views (toLex (tool, r))).map (·, false)) := by
  rw [List.mapM_map]
  refine List.mapM_eq_some_map fun r hr => ?_
  rw [Function.comp_apply, hgroup r (hranks r hr)]
  exact visitGroup_eq_visitingOrder sqrt views (hranks r hr)

theorem visitCluster_eq (views : List (OrderedEntityView F)) (tool : Nat) :
    visitCluster sqrt (views.filter (·.toolIndex = tool)) =
      some (((clusterRanks (views.filter (·.toolIndex = tool))).flatMap fun rank =>
        visitingOrder sqrt views (toLex (tool, rank))).map (·, false)) := by
  have hgroup := fun r (hr : r ≠ 1) => @filter_slotOf_eq F views tool r hr
  have hwalls := filter_isWall_eq views tool
  unfold clusterRanks visitCluster
  generalize views.filter (·.toolIndex = tool) = cluster at hgroup hwalls ⊢
  have hne := fun r => @ne_one_of_mem_keys F cluster r
  generalize cluster.filter (fun entity => !isWall entity.role) = nonWalls at hgroup hne ⊢
  have hkeys := pairwise_keys_groupBy (fun entity => roleGroup entity.role) nonWalls
  have hvals := BTreeMap.vals_groupBy (fun entity => roleGroup entity.role) nonWalls
  have hleading := fun r => @leadingGroup_filter F nonWalls r
  simp only [hvals]
  generalize (BTreeMap.groupBy (fun entity => roleGroup entity.role) nonWalls).keys = ranks
    at hkeys hleading hne ⊢
  have hskirt : ∀ r ∈ ranks, (leadingGroup (nonWalls.filter (roleGroup ·.role = r))).any (· < 1) =
      decide (r < 1) := by
    intro r hr
    rw [hleading r hr, Option.any_some]
  -- skirts come first among the groups, so the first loop visits them all
  have hbefore : (ranks.map fun r => nonWalls.filter (roleGroup ·.role = r)).takeWhile
      (fun group => (leadingGroup group).any (· < 1)) =
      (ranks.filter (· < 1)).map fun r => nonWalls.filter (roleGroup ·.role = r) := by
    rw [List.takeWhile_eq_filter_of_pairwise, List.filter_map]
    · congr 1
      exact List.filter_congr hskirt
    · refine List.pairwise_map.mpr (hkeys.imp_of_mem fun {r r'} hr hr' hlt hsmall => ?_)
      rw [hskirt r' hr', decide_eq_true_eq] at hsmall
      rw [hskirt r hr, decide_eq_true_eq]
      omega
  have hafter : (ranks.map fun r => nonWalls.filter (roleGroup ·.role = r)).filter
      (fun group => !(leadingGroup group).any (· < 1)) =
      (ranks.filter (¬ · < 1)).map fun r => nonWalls.filter (roleGroup ·.role = r) := by
    rw [List.filter_map]
    congr 1
    refine List.filter_congr fun r hr => ?_
    rw [Function.comp_apply, hskirt r hr, decide_not]
  rw [hbefore, hafter, mapM_visitGroup sqrt hgroup fun r hr => hne r (List.mem_of_mem_filter hr),
    mapM_visitGroup sqrt hgroup fun r hr => hne r (List.mem_of_mem_filter hr)]
  have hwallOrder : (if cluster.any (isWall ·.role) then [1] else []).flatMap
      (fun rank => visitingOrder sqrt views (toLex (tool, rank))) =
      (cluster.filter (isWall ·.role)).map (·.originalIndex) := by
    split
    · rw [List.flatMap_singleton, visitingOrder, hwalls]
      rfl
    · next hnone =>
        have hempty : cluster.filter (isWall ·.role) = [] := by
          refine List.filter_eq_nil_iff.mpr fun entity hentity hwall => hnone ?_
          exact List.any_eq_true.mpr ⟨entity, hentity, hwall⟩
        rw [hempty]
        rfl
  rw [List.flatMap_append, List.flatMap_append, hwallOrder, List.map_append, List.map_append,
    List.map_flatMap, List.map_flatMap, List.map_map, List.flatMap_def, List.flatMap_def]
  rfl

/-- The permutation is the slots' orders one after the other. -/
theorem groupThenNearestNeighbor_eq (views : List (OrderedEntityView F)) :
    groupThenNearestNeighbor sqrt views =
      let order := (visitedSlots views).flatMap (visitingOrder sqrt views)
      ((order.map (·, false)).zipIdx.foldlM (recordToolChange views) (none, [])).map
        fun state => (order.map (·, false), state.2) := by
  unfold groupThenNearestNeighbor
  split
  · next hempty => 
      subst hempty
      rfl
  · have hclusters : (BTreeMap.vals (BTreeMap.groupBy (fun entity => entity.toolIndex) views)).mapM
        (visitCluster sqrt) =
        some ((BTreeMap.groupBy (fun entity => entity.toolIndex) views).keys.map fun tool =>
          ((clusterRanks (views.filter (·.toolIndex = tool))).flatMap fun rank =>
            visitingOrder sqrt views (toLex (tool, rank))).map (·, false)) := by
      rw [BTreeMap.vals_groupBy, List.mapM_map]
      exact List.mapM_eq_some_map fun tool _ => visitCluster_eq sqrt views tool
    have horder : ((BTreeMap.groupBy (fun entity => entity.toolIndex) views).keys.map fun tool =>
        ((clusterRanks (views.filter (·.toolIndex = tool))).flatMap fun rank =>
          visitingOrder sqrt views (toLex (tool, rank))).map (·, false)).flatten =
        ((visitedSlots views).flatMap (visitingOrder sqrt views)).map (·, false) := by
      rw [visitedSlots, List.flatMap_assoc, List.map_flatMap, List.flatMap_def]
      simp only [List.flatMap_map]
    simp only [hclusters, Option.bind_eq_bind, Option.bind_some, horder]
    rw [Option.map_eq_bind]
    rfl

end Order

/-! ### Tool changes -/

/-- The change from one tool to another at a position, if there is one. -/
def toolChangeAt (entry : (Nat × Nat) × Nat) : Option ToolChange :=
  if entry.1.2 ≠ entry.1.1 then some ⟨entry.2, entry.1.1, entry.1.2⟩ else none

/-- The positions of a sequence of tools, from a first one on, where it changes. -/
def toolChangesFrom (pos : Nat) (tools : List Nat) : List ToolChange :=
  ((tools.zip tools.tail).zipIdx pos).filterMap toolChangeAt

theorem foldlM_recordToolChange {order tools : List Nat}
    (htools : order.map (fun i => views[i]?.map (·.toolIndex)) = tools.map some) (tool pos : Nat)
    (records : List ToolChange) :
    ∃ last, ((order.map (·, false)).zipIdx (pos + 1)).foldlM (recordToolChange views)
        (some (tool, pos), records) =
      some (last, records ++ toolChangesFrom pos (tool :: tools)) := by
  induction order generalizing tools tool pos records with
  | nil =>
      obtain rfl : tools = [] := by simpa using htools.symm
      exact ⟨some (tool, pos), by simp [toolChangesFrom]⟩
  | cons i rest ih =>
      cases tools with
      | nil => simp at htools
      | cons next tools =>
          obtain ⟨hnext, hrest⟩ := List.cons.inj htools
          obtain ⟨entity, hentity, rfl⟩ := Option.map_eq_some_iff.mp hnext
          obtain ⟨last, hlast⟩ := ih hrest entity.toolIndex (pos + 1)
            (if entity.toolIndex ≠ tool then records ++ [⟨pos, tool, entity.toolIndex⟩] else records)
          refine ⟨last, ?_⟩
          simp only [List.map_cons, List.zipIdx_cons, List.foldlM_cons, recordToolChange, hentity,
            Option.bind_eq_bind, Option.bind_some]
          rw [hlast]
          by_cases hsame : entity.toolIndex = tool
          · simp [toolChangesFrom, toolChangeAt, hsame]
          · simp [toolChangesFrom, toolChangeAt, hsame]

theorem recordToolChanges_eq {order tools : List Nat}
    (htools : order.map (fun i => views[i]?.map (·.toolIndex)) = tools.map some) :
    ∃ last, (order.map (·, false)).zipIdx.foldlM (recordToolChange views) (none, []) =
      some (last, toolChangesFrom 0 tools) := by
  cases order with
  | nil =>
      obtain rfl : tools = [] := by simpa using htools.symm
      exact ⟨none, rfl⟩
  | cons i rest =>
      cases tools with
      | nil => simp at htools
      | cons first tools =>
          obtain ⟨hfirst, hrest⟩ := List.cons.inj htools
          obtain ⟨entity, hentity, rfl⟩ := Option.map_eq_some_iff.mp hfirst
          obtain ⟨last, hlast⟩ := foldlM_recordToolChange hrest entity.toolIndex 0 []
          refine ⟨last, ?_⟩
          simp only [List.map_cons, List.zipIdx_cons, List.foldlM_cons, recordToolChange, hentity,
            Option.bind_eq_bind, Option.bind_some]
          rw [hlast, List.nil_append]

end PinchNPrint.Layer
