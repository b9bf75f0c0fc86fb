/-
Tool rotation across layers (`slicer-gcode`: `emit.rs`).

Before a layer is emitted, the entities of the tool the previous layer ended on
are brought to its front, unless it starts with that tool already. The block that
moves is that tool's first cluster, grown until it cuts no locked run; the tool
changes are read off the new order and the other records follow their entities.
`rotation_moves_blocks` says what a layer can become.
-/

import PinchNPrint.Layer.Anchors
import PinchNPrint.Layer.Proposals

namespace PinchNPrint.GCode

open PinchNPrint.Layer AfterEntity

variable {F ρ : Type}

/-! ### The block that moves -/

/-- Where the run of `lock` that reaches up to `i` starts. -/
def blockStart (entities : List (PrintEntity F)) (lock : Nat) : Nat → Nat
  | 0 => 0
  | i + 1 => if lockAt entities i = some lock then blockStart entities lock i else i + 1

/-- A locked entity brings its whole run into the range. -/
def takeInRun (entities : List (PrintEntity F)) (range : Nat × Nat) (i : Nat) : Nat × Nat :=
  match lockAt entities i with
  | none => range
  | some lock =>
      (min range.1 (blockStart entities lock i), max range.2 (blockEnd entities lock i))

/-- The range after one pass over it. -/
def widen (entities : List (PrintEntity F)) (range : Nat × Nat) : Nat × Nat :=
  (List.range' range.1 (range.2 - range.1)).foldl (takeInRun entities) range

theorem blockStart_le (entities : List (PrintEntity F)) (lock i : Nat) :
    blockStart entities lock i ≤ i := by
  induction i with
  | zero => exact le_rfl
  | succ i ih =>
    rw [blockStart]
    split
    · exact Nat.le_succ_of_le ih
    · exact le_rfl

section Widening

variable {entities : List (PrintEntity F)} {range : Nat × Nat} {i lock : Nat}

/-- The start of a run is no later than its entities. -/
theorem blockStart_succ_le (h : lockAt entities i = some lock) :
    blockStart entities lock (i + 1) ≤ i := by
  rw [blockStart, if_pos h]
  exact blockStart_le entities lock i

theorem takeInRun_widens (entities : List (PrintEntity F)) (range : Nat × Nat) (i : Nat) :
    (takeInRun entities range i).1 ≤ range.1 ∧ range.2 ≤ (takeInRun entities range i).2 := by
  unfold takeInRun
  split
  · exact ⟨le_rfl, le_rfl⟩
  · exact ⟨min_le_left _ _, le_max_left _ _⟩

theorem takeInRun_covers (range : Nat × Nat) (h : lockAt entities i = some lock) :
    (takeInRun entities range i).1 ≤ blockStart entities lock i ∧
      blockEnd entities lock i ≤ (takeInRun entities range i).2 := by
  simp only [takeInRun, h]
  exact ⟨min_le_right _ _, le_max_right _ _⟩

theorem takeInRun_le (entities : List (PrintEntity F)) (range : Nat × Nat) (i : Nat) :
    (takeInRun entities range i).2 ≤ max range.2 entities.length := by
  cases hlock : lockAt entities i with
  | none =>
    simp only [takeInRun, hlock]
    exact le_max_left _ _
  | some lock =>
    simp only [takeInRun, hlock]
    exact max_le_max le_rfl (blockEnd_le_length hlock)

/-- Passing over indices widens the range, to the run of each of them. -/
theorem foldl_takeInRun (indices : List Nat) (range : Nat × Nat) :
    (indices.foldl (takeInRun entities) range).1 ≤ range.1 ∧
      range.2 ≤ (indices.foldl (takeInRun entities) range).2 ∧
      ∀ i ∈ indices, ∀ lock, lockAt entities i = some lock →
        (indices.foldl (takeInRun entities) range).1 ≤ blockStart entities lock i ∧
          blockEnd entities lock i ≤ (indices.foldl (takeInRun entities) range).2 := by
  induction indices generalizing range with
  | nil => simp
  | cons i indices ih =>
    obtain ⟨hfirst, hsecond, hrest⟩ := ih (takeInRun entities range i)
    obtain ⟨hwide, hwide'⟩ := takeInRun_widens entities range i
    refine ⟨hfirst.trans hwide, hwide'.trans hsecond, fun j hj lock hlock => ?_⟩
    rcases List.mem_cons.mp hj with rfl | hj
    · obtain ⟨hcover, hcover'⟩ := takeInRun_covers range hlock
      exact ⟨hfirst.trans hcover, hcover'.trans hsecond⟩
    · exact hrest j hj lock hlock

theorem widen_widens (entities : List (PrintEntity F)) (range : Nat × Nat) :
    (widen entities range).1 ≤ range.1 ∧ range.2 ≤ (widen entities range).2 :=
  ⟨(foldl_takeInRun _ range).1, (foldl_takeInRun _ range).2.1⟩

theorem widen_covers (hstart : range.1 ≤ i) (hstop : i < range.2)
    (h : lockAt entities i = some lock) :
    (widen entities range).1 ≤ blockStart entities lock i ∧
      blockEnd entities lock i ≤ (widen entities range).2 := by
  refine (foldl_takeInRun _ range).2.2 i ?_ lock h
  rw [List.mem_range'_1]
  omega

theorem widen_le (entities : List (PrintEntity F)) (range : Nat × Nat) :
    (widen entities range).2 ≤ max range.2 entities.length := by
  unfold widen
  generalize List.range' range.1 (range.2 - range.1) = indices
  induction indices generalizing range with
  | nil => exact le_max_left _ _
  | cons i indices ih =>
    refine (ih (takeInRun entities range i)).trans (max_le ?_ (le_max_right _ _))
    exact takeInRun_le entities range i

end Widening

/-! ### Growing it -/

/-- The range, widened until it cuts no run. -/
def growBlock (entities : List (PrintEntity F)) (range : Nat × Nat) : Nat × Nat :=
  if widen entities range = range then range else growBlock entities (widen entities range)
termination_by range.1 + (entities.length - range.2)
decreasing_by
  rename_i hwider
  obtain ⟨hstart, hstop⟩ := widen_widens entities range
  have hbound := widen_le entities range
  have hne : (widen entities range).1 ≠ range.1 ∨ (widen entities range).2 ≠ range.2 := by
    by_contra h
    push Not at h
    exact hwider (Prod.ext h.1 h.2)
  omega

/-- Neighbours with one tag are both inside the range or both outside. -/
def CutsNoRun (entities : List (PrintEntity F)) (range : Nat × Nat) : Prop :=
  ∀ i lock, lockAt entities i = some lock → lockAt entities (i + 1) = some lock →
    (range.1 ≤ i ∧ i < range.2 ↔ range.1 ≤ i + 1 ∧ i + 1 < range.2)

theorem cutsNoRun_of_widen_eq {entities : List (PrintEntity F)} {range : Nat × Nat}
    (h : widen entities range = range) : CutsNoRun entities range := by
  intro i lock hlock hnext
  constructor
  · rintro ⟨hstart, hstop⟩
    have hcover := (widen_covers hstart hstop hlock).2
    have hrun : ∀ k, i ≤ k → k ≤ i + 1 → lockAt entities k = some lock := by
      intro k hk hk'
      rcases Nat.eq_or_lt_of_le hk' with rfl | hlt
      · exact hnext
      · rwa [Nat.le_antisymm (Nat.le_of_lt_succ hlt) hk]
    have hend := lt_blockEnd (Nat.le_succ i) hrun
    rw [h] at hcover
    omega
  · rintro ⟨hstart, hstop⟩
    have hcover := (widen_covers hstart hstop hnext).1
    have hbefore := blockStart_succ_le hlock
    rw [h] at hcover
    omega

theorem growBlock_spec (entities : List (PrintEntity F)) (range : Nat × Nat) :
    (growBlock entities range).1 ≤ range.1 ∧ range.2 ≤ (growBlock entities range).2 ∧
      (growBlock entities range).2 ≤ max range.2 entities.length ∧
      CutsNoRun entities (growBlock entities range) := by
  fun_induction growBlock entities range with
  | case1 range h => exact ⟨le_rfl, le_rfl, le_max_left _ _, cutsNoRun_of_widen_eq h⟩
  | case2 range h ih =>
    obtain ⟨hstart, hstop⟩ := widen_widens entities range
    obtain ⟨hfirst, hsecond, hbound, hcuts⟩ := ih
    refine ⟨hfirst.trans hstart, hstop.trans hsecond, ?_, hcuts⟩
    exact hbound.trans (max_le (widen_le entities range) (le_max_right _ _))

/-! ### Rotating a layer -/

/-- Where the entity at `i` goes when `range` moves to the front of `n` entities;
indices behind the row stay. -/
def oldToNew (range : Nat × Nat) (n i : Nat) : Nat :=
  if n ≤ i then i
  else if i < range.1 then i + (range.2 - range.1)
  else if i < range.2 then i - range.1
  else i

/-- The tool changes of a row: one wherever two neighbours differ in their tool. -/
def toolBoundaries (entities : List (PrintEntity F)) : List ToolChange :=
  (List.range (entities.length - 1)).filterMap fun i =>
    match entities[i]?, entities[i + 1]? with
    | some e, some next =>
        if e.toolIndex ≠ next.toolIndex then some ⟨i, e.toolIndex, next.toolIndex⟩ else none
    | _, _ => none

/-- Moves the entities of `range` to the front, and the records with them. -/
def rotateBlock (layer : LayerCollectionIR F) (range : Nat × Nat) : LayerCollectionIR F :=
  let entities := layer.orderedEntities
  let rotated := (entities.take range.2).drop range.1 ++ entities.take range.1 ++
    entities.drop range.2
  let move := oldToNew range entities.length
  { layer with
    orderedEntities := rotated
    toolChanges := toolBoundaries rotated
    zHops := layer.zHops.map fun hop =>
      { hop with afterEntityIndex := move hop.afterEntityIndex }
    retracts := layer.retracts.map fun retract =>
      { retract with afterEntityIndex := move retract.afterEntityIndex }
    annotations := layer.annotations.map fun annotation =>
      { annotation with afterEntityIndex := move annotation.afterEntityIndex } }

/-- The layer behind one that ended on tool `prev`. -/
def rotateOnto (prev : Nat) (layer : LayerCollectionIR F) : LayerCollectionIR F :=
  match layer.orderedEntities with
  | [] => layer
  | first :: _ =>
      if prev = first.toolIndex then layer
      else
        match layer.orderedEntities.findIdx? (·.toolIndex = prev) with
        | none => layer
        | some start =>
            let cluster := (layer.orderedEntities.drop start).takeWhile (·.toolIndex = prev)
            rotateBlock layer (growBlock layer.orderedEntities (start, start + cluster.length))

/-- `prev` is the tool the last layer with entities ended on. -/
def rotateFrom (prev : Option Nat) : List (LayerCollectionIR F) → List (LayerCollectionIR F)
  | [] => []
  | layer :: layers =>
      if layer.orderedEntities = [] then layer :: rotateFrom prev layers
      else
        let rotated := match prev with
          | none => layer
          | some tool => rotateOnto tool layer
        rotated :: rotateFrom (rotated.orderedEntities.getLast?.map (·.toolIndex)) layers

def applyCrossLayerToolRotation (layers : List (LayerCollectionIR F)) :
    List (LayerCollectionIR F) :=
  rotateFrom none layers

/-! ### What a rotation is -/

/-- `change` stands at a boundary between two tools of the row. -/
def IsBoundary (entities : List (PrintEntity F)) (change : ToolChange) : Prop :=
  ∃ e next, entities[change.afterEntityIndex]? = some e ∧
    entities[change.afterEntityIndex + 1]? = some next ∧ e.toolIndex ≠ next.toolIndex ∧
    change.fromTool = e.toolIndex ∧ change.toTool = next.toolIndex

/-- A block of the row has moved to the front, each entity from its index `i` to
`move i`: no run of one tag is split, the records go with their entities, and the
tool changes are the boundaries of the new row. -/
structure BlockMoved (move : Nat → Nat) (layer layer' : LayerCollectionIR F) : Prop where
  row : ∃ before block after, layer.orderedEntities = before ++ block ++ after ∧
    layer'.orderedEntities = block ++ before ++ after
  runs : ∀ lock run, run <:+: layer.orderedEntities →
    (∀ e ∈ run, e.path.orderLock = some lock) → run <:+: layer'.orderedEntities
  follows : ∀ i < layer.orderedEntities.length,
    layer'.orderedEntities[move i]? = layer.orderedEntities[i]?
  injective : ∀ i < layer.orderedEntities.length, ∀ j < layer.orderedEntities.length,
    move i = move j → i = j
  outside : ∀ i, layer.orderedEntities.length ≤ i → move i = i
  zHops : layer'.zHops = layer.zHops.map fun r => setIndex r (move (index r))
  retracts : layer'.retracts = layer.retracts.map fun r => setIndex r (move (index r))
  annotations : layer'.annotations = layer.annotations.map fun r => setIndex r (move (index r))
  toolChanges : ∀ change, change ∈ layer'.toolChanges ↔ IsBoundary layer'.orderedEntities change
  inOrder : layer'.toolChanges.Pairwise fun a b => a.afterEntityIndex < b.afterEntityIndex
  rest : layer' = { layer with
    orderedEntities := layer'.orderedEntities, toolChanges := layer'.toolChanges,
    zHops := layer'.zHops, retracts := layer'.retracts, annotations := layer'.annotations }

theorem mem_toolBoundaries_iff {entities : List (PrintEntity F)} {change : ToolChange} :
    change ∈ toolBoundaries entities ↔ IsBoundary entities change := by
  rw [toolBoundaries, List.mem_filterMap]
  constructor
  · rintro ⟨i, -, h⟩
    split at h
    · rename_i e next he hnext
      split at h
      · rename_i hne
        cases h
        exact ⟨e, next, he, hnext, hne, rfl, rfl⟩
      · cases h
    · cases h
  · rintro ⟨e, next, he, hnext, hne, hfrom, hto⟩
    have hlt := (List.getElem?_eq_some_iff.mp hnext).1
    refine ⟨change.afterEntityIndex, List.mem_range.mpr (by omega), ?_⟩
    rw [he, hnext]
    dsimp only
    rw [if_pos hne, ← hfrom, ← hto]

theorem toolBoundaries_inOrder (entities : List (PrintEntity F)) :
    (toolBoundaries entities).Pairwise fun a b => a.afterEntityIndex < b.afterEntityIndex := by
  refine List.Pairwise.filterMap _ (fun i j hij a ha b hb => ?_) List.pairwise_lt_range
  have hindex : ∀ {i : Nat} {change : ToolChange}, (match entities[i]?, entities[i + 1]? with
      | some e, some next => if e.toolIndex ≠ next.toolIndex
          then some (⟨i, e.toolIndex, next.toolIndex⟩ : ToolChange) else none
      | _, _ => none) = some change → change.afterEntityIndex = i := by
    intro i change h
    split at h
    · split at h <;> cases h
      rfl
    · cases h
  rw [hindex ha, hindex hb]
  exact hij

section Rotation

variable {before block after : List (PrintEntity F)}

theorem oldToNew_follows {i : Nat} (hi : i < (before ++ block ++ after).length) :
    (block ++ before ++ after)[oldToNew (before.length, before.length + block.length)
      (before ++ block ++ after).length i]? = (before ++ block ++ after)[i]? := by
  rw [oldToNew, if_neg (Nat.not_le.mpr hi)]
  dsimp only
  split_ifs with hbefore hblock
  · rw [List.append_assoc, List.append_assoc, List.getElem?_append_right (by omega),
      List.getElem?_append_left (by omega), List.getElem?_append_left hbefore]
    congr 1
    omega
  · rw [List.append_assoc, List.append_assoc, List.getElem?_append_left (by omega),
      List.getElem?_append_right (by omega), List.getElem?_append_left (by omega)]
  · rw [List.getElem?_append_right (by simp; omega), List.getElem?_append_right (by simp; omega)]
    congr 1
    simp only [List.length_append]
    omega

theorem oldToNew_injective {range : Nat × Nat} {n i j : Nat}
    (hi : i < n) (hj : j < n) (h : oldToNew range n i = oldToNew range n j) : i = j := by
  unfold oldToNew at h
  split_ifs at h <;> omega

/-- A run of one tag stays in one piece when the block cuts none. -/
theorem run_infix_rotated {lock : Nat} {run : List (PrintEntity F)} (hne : block ≠ [])
    (hcuts : CutsNoRun (before ++ block ++ after) (before.length, before.length + block.length))
    (hrun : run <:+: before ++ block ++ after) (hlock : ∀ e ∈ run, e.path.orderLock = some lock) :
    run <:+: block ++ before ++ after := by
  have hblock := List.length_pos_of_ne_nil hne
  have htag : ∀ {i e}, (before ++ block ++ after)[i]? = some e → e.path.orderLock = some lock →
      lockAt (before ++ block ++ after) i = some lock := by
    intro i e he hlock
    rw [lockAt, he, Option.bind_some, hlock]
  have hwider : ∀ {i : Nat} {e}, (before ++ block)[i]? = some e →
      (before ++ block ++ after)[i]? = some e := by
    intro i e he
    rwa [List.getElem?_append_left (List.getElem?_eq_some_iff.mp he).1]
  have hleft : run <:+: before ++ block ∨ run <:+: after := by
    refine List.infix_or_infix_of_append hrun hlock fun i e next hi he hnext htool htool' => ?_
    have hside := hcuts i lock (htag he htool) (htag hnext htool')
    rw [List.length_append] at hi
    omega
  rcases hleft with hleft | hafter
  · have hsplit : run <:+: before ∨ run <:+: block := by
      refine List.infix_or_infix_of_append hleft hlock fun i e next hi he hnext htool htool' => ?_
      have hside := hcuts i lock (htag (hwider he) htool) (htag (hwider hnext) htool')
      omega
    rcases hsplit with h | h
    · exact (List.infix_append_of_infix_right h).trans (List.infix_append_left)
    · rw [List.append_assoc]
      exact List.infix_append_of_infix_left h
  · exact List.infix_append_of_infix_right hafter

end Rotation

theorem rotateBlock_moves {layer : LayerCollectionIR F} {range : Nat × Nat}
    (hlt : range.1 < range.2) (hle : range.2 ≤ layer.orderedEntities.length)
    (hcuts : CutsNoRun layer.orderedEntities range) :
    BlockMoved (oldToNew range layer.orderedEntities.length) layer (rotateBlock layer range) := by
  have hrow : layer.orderedEntities = layer.orderedEntities.take range.1 ++
      (layer.orderedEntities.take range.2).drop range.1 ++ layer.orderedEntities.drop range.2 := by
    have htake := List.take_append_drop range.1 (layer.orderedEntities.take range.2)
    rw [List.take_take, min_eq_left hlt.le] at htake
    rw [htake, List.take_append_drop]
  have hbefore : (layer.orderedEntities.take range.1).length = range.1 := by
    rw [List.length_take]
    omega
  have hblock : ((layer.orderedEntities.take range.2).drop range.1).length =
      range.2 - range.1 := by
    rw [List.length_drop, List.length_take]
    omega
  have hrange : (range.1, range.1 + (range.2 - range.1)) = range := by
    rw [Nat.add_sub_cancel' hlt.le]
  refine ⟨⟨_, _, _, hrow, rfl⟩, fun lock run hrun hlock => ?_, fun i hi => ?_,
    fun i hi j hj => oldToNew_injective hi hj, fun i hi => if_pos hi, rfl, rfl, rfl,
    fun change => mem_toolBoundaries_iff, toolBoundaries_inOrder _, rfl⟩
  · refine run_infix_rotated (List.ne_nil_of_length_pos (by omega)) ?_ (hrow ▸ hrun) hlock
    rwa [hbefore, hblock, hrange, ← hrow]
  · have hfollows := oldToNew_follows (hrow ▸ hi)
    rwa [hbefore, hblock, hrange, ← hrow] at hfollows

theorem rotateOnto_moves (prev : Nat) (layer : LayerCollectionIR F) :
    rotateOnto prev layer = layer ∨ ∃ move, BlockMoved move layer (rotateOnto prev layer) := by
  unfold rotateOnto
  split
  · exact Or.inl rfl
  · split
    · exact Or.inl rfl
    · split
      · exact Or.inl rfl
      · rename_i start hstart
        obtain ⟨hlt, htool, -⟩ := List.findIdx?_eq_some_iff_getElem.mp hstart
        right
        -- the cluster has an entity, and lies in the row
        have hcluster : 1 ≤ ((layer.orderedEntities.drop start).takeWhile
            (·.toolIndex = prev)).length := by
          refine List.le_length_takeWhile fun i hi => ⟨_, ?_, htool⟩
          rw [List.getElem?_drop, Nat.lt_one_iff.mp hi, Nat.add_zero,
            List.getElem?_eq_getElem hlt]
        have hfit := (List.takeWhile_prefix (l := layer.orderedEntities.drop start)
          (fun e => decide (e.toolIndex = prev))).length_le
        rw [List.length_drop] at hfit
        obtain ⟨hfirst, hsecond, hbound, hcuts⟩ := growBlock_spec layer.orderedEntities
          (start, start + ((layer.orderedEntities.drop start).takeWhile
            (·.toolIndex = prev)).length)
        refine ⟨_, rotateBlock_moves ?_ (hbound.trans (max_le ?_ le_rfl)) hcuts⟩ <;> omega

/-- Every layer is left alone, or a block of it is moved to the front. -/
theorem rotation_moves_blocks (layers : List (LayerCollectionIR F)) :
    List.Forall₂ (fun layer layer' => layer' = layer ∨ ∃ move, BlockMoved move layer layer')
      layers (applyCrossLayerToolRotation layers) := by
  unfold applyCrossLayerToolRotation
  generalize (none : Option Nat) = prev
  induction layers generalizing prev with
  | nil => exact .nil
  | cons layer layers ih =>
    unfold rotateFrom
    split
    · exact .cons (Or.inl rfl) (ih prev)
    · refine .cons ?_ (ih _)
      cases prev with
      | none => exact Or.inl rfl
      | some tool => exact rotateOnto_moves tool layer

end PinchNPrint.GCode
