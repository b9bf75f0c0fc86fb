/-
Walls in a printable order (`slicer-core`: `arachne/region_order.rs`).

`topologicalWalk` takes, turn by turn, the nearest line that nothing left has to come before.
It stops early when there is none; the requirements have no cycle, so there always is one, and
the walk is a listing of all lines that keeps every requirement (`reorderByRegionOrder_spec`).
-/

import PinchNPrint.Lib.Kahn
import PinchNPrint.Walls.RegionOrder

namespace PinchNPrint.Walls

open Digraph (AcyclicOn LinearExtension On Precedes)

variable {F : Type} [Field F] [LinearOrder F]

/-! ### The walk -/

/-- The state of `topological_walk`. -/
structure TopologicalWalk (F : Type) where
  blocked : List Nat
  processed : List Bool
  result : List Nat
  currentPosition : Point2 F
deriving DecidableEq

/-- The position of a junction. -/
def positionOf (junction : ExtrusionJunction F) : Point2 F where
  x := junction.p.x
  y := junction.p.y

/-- `squared_distance`; a line without junctions is infinitely far. -/
def squaredDistance (line : ExtrusionLine F) (position : Point2 F) : WithTop F :=
  line.junctions.head?.elim ⊤ fun junction =>
    let dx := junction.p.x - position.x
    let dy := junction.p.y - position.y
    ((dx * dx + dy * dy : F) : WithTop F)

/-- The order of the candidates of a turn: closed lines last, then by inset and place. -/
def candidateOrder (first second : ExtrusionLine F × Nat) : Ordering :=
  (compare first.1.isClosed second.1.isClosed).then
    ((compare first.1.insetIdx second.1.insetIdx).then (compare first.2 second.2))

/-- The nearest of the candidates, the first of the lines if several are. -/
def nearest (position : Point2 F) (candidates : List (ExtrusionLine F × Nat)) :
    Option (ExtrusionLine F × Nat) :=
  minBy (fun first second =>
      (compare (squaredDistance first.1 position) (squaredDistance second.1 position)).then
        (compare first.2 second.2))
    (candidates.insertionSort fun first second => candidateOrder first second ≠ .gt)

/-- Where the nozzle is after a line. -/
def positionAfter (line : ExtrusionLine F) (position : Point2 F) : Point2 F :=
  (if line.isClosed then line.junctions.head? else line.junctions.getLast?).elim position positionOf

namespace TopologicalWalk

/-- The lines that are not processed, and not blocked. -/
def available (lines : List (ExtrusionLine F)) (walk : TopologicalWalk F) :
    List (ExtrusionLine F × Nat) :=
  lines.zipIdx.filter fun row => !walk.processed.getD row.2 false && walk.blocked.getD row.2 0 == 0

/-- The turn of the loop that puts out a line. -/
def take (blocking : List (List Nat)) (walk : TopologicalWalk F) (best : ExtrusionLine F × Nat) :
    TopologicalWalk F where
  blocked := (blocking.getD best.2 []).foldl
    (fun blocked unlocked => blocked.modify unlocked (· - 1)) walk.blocked
  processed := walk.processed.set best.2 true
  result := walk.result ++ [best.2]
  currentPosition := positionAfter best.1 walk.currentPosition

/-- The loop: a turn for each line that is left, unless none is available. -/
def walkOn (lines : List (ExtrusionLine F)) (blocking : List (List Nat)) :
    Nat → TopologicalWalk F → TopologicalWalk F
  | 0, walk => walk
  | left + 1, walk =>
      match nearest walk.currentPosition (walk.available lines) with
      | none => walk
      | some best => walkOn lines blocking left (walk.take blocking best)

end TopologicalWalk

/-- One constraint is counted at the line it blocks and noted at the line that blocks. -/
def countRequirement (counts : List Nat × List (List Nat)) (required : Requirement) :
    List Nat × List (List Nat) :=
  (counts.1.modify required.after (· + 1), counts.2.modify required.before (· ++ [required.after]))

/-- `blocked` and `blocking` at the outset. -/
def countRequirements (n : Nat) (constraints : List Requirement) : List Nat × List (List Nat) :=
  constraints.foldl countRequirement (List.replicate n 0, List.replicate n [])

/-- `topological_walk`, for constraints between lines of the list. -/
def topologicalWalk (lines : List (ExtrusionLine F)) (constraints : List Requirement) : List Nat :=
  let counts := countRequirements lines.length constraints
  let currentPosition :=
    (lines.head?.bind fun line => line.junctions.head?).elim { x := 0, y := 0 } positionOf
  (TopologicalWalk.walkOn lines counts.2 lines.length
    { blocked := counts.1
      processed := List.replicate lines.length false
      result := []
      currentPosition }).result

def reorderByRegionOrder [FloorRing F] (lines : List (ExtrusionLine F)) (outerToInner : Bool) :
    Option (List (ExtrusionLine F)) :=
  (topologicalWalk lines (getRegionOrder lines outerToInner)).mapM fun index => lines[index]?

/-! ### The counts -/

/-- The lines that a line has to come before, as often as the constraints say. -/
def followers (constraints : List Requirement) (before : Nat) : List Nat :=
  (constraints.filter (·.before = before)).map Requirement.after

theorem mem_followers {constraints : List Requirement} {before after : Nat} :
    after ∈ followers constraints before ↔ ⟨before, after⟩ ∈ constraints := by
  rw [followers, List.mem_map]
  constructor
  · rintro ⟨required, hmem, rfl⟩
    obtain ⟨hmem, hbefore⟩ := List.mem_filter.mp hmem
    have heq : required.before = before := of_decide_eq_true hbefore
    rwa [← heq]
  · intro hmem
    exact ⟨_, List.mem_filter.mpr ⟨hmem, decide_eq_true rfl⟩, rfl⟩

theorem getD_modify {α : Type} {l : List α} {j : Nat} (hj : j < l.length) (i : Nat) (f : α → α)
    (d : α) : (l.modify i f).getD j d = if i = j then f (l.getD j d) else l.getD j d := by
  have hj' : j < (l.modify i f).length := by rwa [List.length_modify]
  rw [List.getD_eq_getElem _ _ hj', List.getD_eq_getElem _ _ hj, List.getElem_modify]

theorem length_countRequirements (n : Nat) (constraints : List Requirement) :
    (countRequirements n constraints).1.length = n ∧
      (countRequirements n constraints).2.length = n := by
  induction constraints using List.reverseRecOn with
  | nil => exact ⟨List.length_replicate, List.length_replicate⟩
  | append_singleton constraints required ih =>
    rw [countRequirements, List.foldl_append, ← countRequirements]
    simpa only [List.foldl_cons, List.foldl_nil, countRequirement, List.length_modify] using ih

theorem countRequirements_spec (n : Nat) (constraints : List Requirement) {i : Nat} (hi : i < n) :
    (countRequirements n constraints).1.getD i 0 =
        (constraints.map Requirement.after).count i ∧
      (countRequirements n constraints).2.getD i [] = followers constraints i := by
  induction constraints using List.reverseRecOn with
  | nil =>
    have hi' : i < (List.replicate n ([] : List Nat)).length := by simpa using hi
    exact ⟨by simp [countRequirements, hi], by simp [countRequirements, followers, hi]⟩
  | append_singleton constraints required ih =>
    obtain ⟨hblocked, hblocking⟩ := length_countRequirements n constraints
    rw [countRequirements, List.foldl_append, ← countRequirements]
    simp only [List.foldl_cons, List.foldl_nil, countRequirement]
    rw [getD_modify (hblocked.symm ▸ hi), getD_modify (hblocking.symm ▸ hi), ih.1, ih.2]
    constructor
    · rw [List.map_append, List.count_append, List.map_singleton, List.count_singleton]
      by_cases heq : required.after = i
      · simp [heq]
      · simp [heq]
    · rw [followers, followers, List.filter_append, List.map_append]
      by_cases heq : required.before = i
      · simp [heq]
      · simp [heq]

/-- Unlocking takes off what was counted. -/
theorem unlock_spec (unlocked : List Nat) (blocked : List Nat) :
    (unlocked.foldl (fun blocked i => blocked.modify i (· - 1)) blocked).length = blocked.length ∧
      ∀ i < blocked.length,
        (unlocked.foldl (fun blocked i => blocked.modify i (· - 1)) blocked).getD i 0 =
          blocked.getD i 0 - unlocked.count i := by
  induction unlocked generalizing blocked with
  | nil => exact ⟨rfl, fun i _ => by simp⟩
  | cons first rest ih =>
    obtain ⟨hlength, hcount⟩ := ih (blocked.modify first (· - 1))
    rw [List.length_modify] at hlength hcount
    refine ⟨hlength, fun i hi => ?_⟩
    rw [List.foldl_cons, hcount i hi, getD_modify hi, List.count_cons]
    by_cases heq : first = i
    · simp only [heq, if_true, beq_self_eq_true]
      omega
    · simp [heq]

/-! ### The order of the walk -/

/-- What the walk keeps: the blocked counts are the constraints from lines still to come, and
what is put out is in order. -/
structure InOrder (lines : List (ExtrusionLine F)) (constraints : List Requirement)
    (walk : TopologicalWalk F) : Prop where
  length_blocked : walk.blocked.length = lines.length
  length_processed : walk.processed.length = lines.length
  blocked : ∀ i < lines.length, walk.blocked.getD i 0 =
    Kahn.pending (List.range lines.length) (followers constraints) walk.result i
  processed : ∀ i < lines.length, walk.processed.getD i false = true ↔ i ∈ walk.result
  nodup : walk.result.Nodup
  within : ∀ i ∈ walk.result, i < lines.length
  forward : ∀ before < lines.length, ∀ after ∈ walk.result,
    ⟨before, after⟩ ∈ constraints → Precedes walk.result before after

section Walk

variable {lines : List (ExtrusionLine F)} {constraints : List Requirement}
  {walk : TopologicalWalk F}

theorem count_eq_pending {n : Nat} (hbefore : ∀ required ∈ constraints, required.before < n)
    (i : Nat) : (constraints.map Requirement.after).count i =
      Kahn.pending (List.range n) (followers constraints) [] i := by
  have hperm : ((List.range n).flatMap fun before =>
      constraints.filter (·.before = before)).Perm constraints :=
    List.flatMap_filter_perm Requirement.before List.nodup_range
      fun required hrequired => List.mem_range.mpr (hbefore required hrequired)
  rw [← (hperm.map Requirement.after).count_eq, List.map_flatMap, List.count_flatMap,
    Kahn.pending]
  simp only [List.not_mem_nil, not_false_eq_true, decide_true, List.filter_true]
  rfl

omit [Field F] [LinearOrder F] in
theorem mem_available {row : ExtrusionLine F × Nat} : row ∈ walk.available lines ↔
    lines[row.2]? = some row.1 ∧ walk.processed.getD row.2 false = false ∧
      walk.blocked.getD row.2 0 = 0 := by
  rw [TopologicalWalk.available, List.mem_filter, List.mem_zipIdx_iff_getElem?]
  simp

theorem mem_of_nearest {position : Point2 F} {candidates : List (ExtrusionLine F × Nat)}
    {best : ExtrusionLine F × Nat} (h : nearest position candidates = some best) :
    best ∈ candidates :=
  (List.mem_insertionSort _).mp (mem_of_minBy h)

theorem eq_nil_of_nearest {position : Point2 F} {candidates : List (ExtrusionLine F × Nat)}
    (h : nearest position candidates = none) : candidates = [] := by
  have hsorted := eq_nil_of_minBy h
  refine List.eq_nil_iff_forall_not_mem.mpr fun row hrow => ?_
  rw [← List.mem_insertionSort (fun first second => candidateOrder first second ≠ .gt),
    hsorted] at hrow
  cases hrow

section

omit [Field F] [LinearOrder F]

/-- The line that is taken comes after all that have to come before it: none of them is
pending. -/
theorem InOrder.take (h : InOrder lines constraints walk) {best : ExtrusionLine F × Nat}
    (hbest : best ∈ walk.available lines) :
    InOrder lines constraints
      (walk.take (countRequirements lines.length constraints).2 best) := by
  obtain ⟨hline, hfresh, hfree⟩ := mem_available.mp hbest
  have hlt : best.2 < lines.length := (List.getElem?_eq_some_iff.mp hline).1
  have hnot : best.2 ∉ walk.result := by
    intro hmem
    rw [(h.processed best.2 hlt).mpr hmem] at hfresh
    cases hfresh
  rw [h.blocked best.2 hlt] at hfree
  have hfollowers := (countRequirements_spec lines.length constraints hlt).2
  obtain ⟨hlength, hunlocked⟩ := unlock_spec (followers constraints best.2) walk.blocked
  refine
    { length_blocked := ?_
      length_processed := ?_
      blocked := ?_
      processed := ?_
      nodup := ?_
      within := ?_
      forward := ?_ }
  · simp only [TopologicalWalk.take, hfollowers]
    exact hlength.trans h.length_blocked
  · simp only [TopologicalWalk.take, List.length_set]
    exact h.length_processed
  · intro i hi
    simp only [TopologicalWalk.take, hfollowers]
    rw [hunlocked i (h.length_blocked.symm ▸ hi), h.blocked i hi,
      Kahn.pending_snoc List.nodup_range _ (List.mem_range.mpr hlt) hnot i]
    omega
  · intro i hi
    have hi' : i < walk.processed.length := h.length_processed.symm ▸ hi
    simp only [TopologicalWalk.take]
    rw [List.getD_eq_getElem _ _ (by simpa using hi'), List.getElem_set, List.mem_append,
      List.mem_singleton, ← h.processed i hi, List.getD_eq_getElem _ _ hi']
    split_ifs with heq
    · simp [heq]
    · simp [Ne.symm heq]
  · exact List.nodup_append.mpr ⟨h.nodup, List.nodup_singleton _, fun a ha b hb heq =>
      hnot (List.mem_singleton.mp hb ▸ heq ▸ ha)⟩
  · intro i hi
    rcases List.mem_append.mp hi with hi | hi
    · exact h.within i hi
    · rw [List.mem_singleton.mp hi]
      exact hlt
  · intro before hbefore after hafter hconstraint
    rcases List.mem_append.mp hafter with hafter | hafter
    · exact (h.forward before hbefore after hafter hconstraint).append_right _
    · rw [List.mem_singleton.mp hafter] at hconstraint ⊢
      have hdone := Kahn.mem_done_of_pending_eq_zero hfree (List.mem_range.mpr hbefore)
        (mem_followers.mpr hconstraint)
      exact Digraph.precedes_append hdone List.mem_cons_self hnot

/-- Without a cycle, a line is available as long as one is left. -/
theorem InOrder.mem_result (h : InOrder lines constraints walk)
    (hacyclic : AcyclicOn (List.range lines.length) fun before after =>
      ⟨before, after⟩ ∈ constraints)
    (hnone : walk.available lines = []) {i : Nat} (hi : i < lines.length) : i ∈ walk.result := by
  by_contra hleft
  obtain ⟨source, ⟨hsource, hunlisted⟩, hfirst⟩ :=
    hacyclic.exists_source (s := {j | j < lines.length ∧ j ∉ walk.result})
      (fun j hj => List.mem_range.mpr hj.1) ⟨i, hi, hleft⟩
  have hpending : Kahn.pending (List.range lines.length) (followers constraints) walk.result
      source = 0 := by
    by_contra hne
    obtain ⟨before, hbefore, hpending, hedge⟩ := Kahn.exists_of_pending_ne_zero hne
    exact hfirst before ⟨List.mem_range.mp hbefore, hpending⟩ (mem_followers.mp hedge)
  have hmem : (lines[source], source) ∈ walk.available lines := by
    refine mem_available.mpr ⟨List.getElem?_eq_getElem hsource, ?_, ?_⟩
    · rw [← Bool.not_eq_true, h.processed source hsource]
      exact hunlisted
    · rw [h.blocked source hsource, hpending]
  rw [hnone] at hmem
  cases hmem

theorem InOrder.perm (h : InOrder lines constraints walk)
    (hall : ∀ i < lines.length, i ∈ walk.result) :
    walk.result.Perm (List.range lines.length) := by
  refine (List.perm_ext_iff_of_nodup h.nodup List.nodup_range).mpr fun i => ?_
  rw [List.mem_range]
  exact ⟨h.within i, hall i⟩

end

/-- The walk ends with every line. -/
theorem walkOn_spec
    (hacyclic : AcyclicOn (List.range lines.length) fun before after =>
      ⟨before, after⟩ ∈ constraints)
    {left : Nat} (h : InOrder lines constraints walk)
    (hleft : walk.result.length + left = lines.length) :
    let last := TopologicalWalk.walkOn lines (countRequirements lines.length constraints).2 left
      walk
    InOrder lines constraints last ∧ last.result.Perm (List.range lines.length) := by
  induction left generalizing walk with
  | zero =>
    refine ⟨h, ?_⟩
    have hsub : walk.result.Subperm (List.range lines.length) :=
      h.nodup.subperm fun i hi => List.mem_range.mpr (h.within i hi)
    exact hsub.perm_of_length_le (by simpa using hleft.ge)
  | succ left ih =>
    cases hbest : nearest walk.currentPosition (walk.available lines) with
    | none =>
      simp only [TopologicalWalk.walkOn, hbest]
      exact ⟨h, h.perm fun i hi => h.mem_result hacyclic (eq_nil_of_nearest hbest) hi⟩
    | some best =>
      simp only [TopologicalWalk.walkOn, hbest]
      refine ih (h.take (mem_of_nearest hbest)) ?_
      simp only [TopologicalWalk.take, List.length_append, List.length_singleton]
      omega

theorem linearExtension_topologicalWalk
    (hbefore : ∀ required ∈ constraints, required.before < lines.length)
    (hacyclic : AcyclicOn (List.range lines.length) fun before after =>
      ⟨before, after⟩ ∈ constraints) :
    LinearExtension (List.range lines.length) (fun before after => ⟨before, after⟩ ∈ constraints)
      (topologicalWalk lines constraints) := by
  have hstart : ∀ currentPosition : Point2 F, InOrder lines constraints
      { blocked := (countRequirements lines.length constraints).1
        processed := List.replicate lines.length false
        result := []
        currentPosition } := by
    intro currentPosition
    exact
      { length_blocked := (length_countRequirements _ _).1
        length_processed := List.length_replicate
        blocked := fun i hi =>
          (countRequirements_spec _ _ hi).1.trans (count_eq_pending hbefore i)
        processed := fun i hi => by simp [hi]
        nodup := .nil
        within := fun i hi => by cases hi
        forward := fun _ _ after hafter => by cases hafter }
  have hleft : ([] : List Nat).length + lines.length = lines.length := Nat.zero_add _
  obtain ⟨horder, hperm⟩ := walkOn_spec hacyclic (hstart _) hleft
  refine ⟨hperm, fun before after hedge => ?_⟩
  exact horder.forward before (List.mem_range.mp hedge.1) after
    (hperm.symm.subset hedge.2.1) hedge.2.2

end Walk

/-! ### Lines in order -/

omit [Field F] [LinearOrder F] in
theorem exists_mapM_of_perm {lines : List (ExtrusionLine F)} {permutation : List Nat}
    (hperm : permutation.Perm (List.range lines.length)) :
    ∃ reordered, permutation.mapM (fun index => lines[index]?) = some reordered ∧
      reordered.Perm lines := by
  set lineAt : Nat → ExtrusionLine F := fun index =>
    lines[index]?.getD { junctions := [], insetIdx := 0 } with hlineAt
  refine ⟨permutation.map lineAt, List.mapM_eq_some_map fun index hindex => ?_, ?_⟩
  · have hlt := List.mem_range.mp (hperm.subset hindex)
    simp [hlineAt, hlt]
  · refine (hperm.map lineAt).trans (.of_eq (List.ext_getElem (by simp) fun i hi hlt => ?_))
    simp [hlineAt, hlt]

/-- Walls in region order: the constraints have no cycle and are those of all pairs of
junctions, and the lines are put in an order that keeps each of them. -/
theorem reorderByRegionOrder_spec [FloorRing F] [IsStrictOrderedRing F]
    (lines : List (ExtrusionLine F)) (outerToInner : Bool)
    (hwidth : ∀ line ∈ lines, ∀ junction ∈ line.junctions, 0 < junction.p.width) :
    AcyclicOn (List.range lines.length)
        (fun before after => ⟨before, after⟩ ∈ getRegionOrder lines outerToInner) ∧
      (∀ required, required ∈ getRegionOrder lines outerToInner ↔
        RequiredDirectly lines outerToInner required) ∧
      ∃ permutation reordered,
        topologicalWalk lines (getRegionOrder lines outerToInner) = permutation ∧
        permutation.Perm (List.range lines.length) ∧
        (∀ required ∈ getRegionOrder lines outerToInner,
          Precedes permutation required.before required.after) ∧
        reorderByRegionOrder lines outerToInner = some reordered ∧
        List.Forall₂ (fun index line => lines[index]? = some line) permutation reordered ∧
        reordered.Perm lines := by
  have hacyclic : AcyclicOn (List.range lines.length) fun before after =>
      ⟨before, after⟩ ∈ getRegionOrder lines outerToInner := acyclicOn_getRegionOrder hwidth
  have hplaces : ∀ required ∈ getRegionOrder lines outerToInner,
      required.before < lines.length ∧ required.after < lines.length := by
    intro required hrequired
    obtain ⟨first, last, hfirst, hlast, -⟩ := comesFirst_of_mem_getRegionOrder hwidth hrequired
    exact ⟨(List.getElem?_eq_some_iff.mp hfirst).1, (List.getElem?_eq_some_iff.mp hlast).1⟩
  have hwalk := linearExtension_topologicalWalk (fun required hrequired =>
    (hplaces required hrequired).1) hacyclic
  obtain ⟨reordered, hreordered, hlines⟩ := exists_mapM_of_perm hwalk.perm
  refine ⟨hacyclic, mem_getRegionOrder_iff hwidth, _, reordered, rfl, hwalk.perm, ?_, hreordered,
    List.forall₂_of_mapM_eq_some hreordered, hlines⟩
  intro required hrequired
  obtain ⟨hbefore, hafter⟩ := hplaces required hrequired
  exact hwalk.forward _ _ ⟨List.mem_range.mpr hbefore, List.mem_range.mpr hafter, hrequired⟩

/-- A square wall of width 1/2 around the origin. -/
def squareWall (halfWidth : ℚ) (insetIdx : Nat) : ExtrusionLine ℚ where
  junctions := [(halfWidth, halfWidth), (-halfWidth, halfWidth), (-halfWidth, -halfWidth),
    (halfWidth, -halfWidth)].map fun corner =>
      { p :=
          { x := corner.1, y := corner.2, z := 0, width := 1 / 2, flowFactor := 1, distToTopMm := 0 }
        perimeterIndex := insetIdx }
  insetIdx
  isClosed := true

theorem reorderByRegionOrder_squares :
    ∃ reordered, reorderByRegionOrder [squareWall 2 1, squareWall (5 / 2) 0] true =
        some reordered ∧
      reordered.Perm [squareWall 2 1, squareWall (5 / 2) 0] := by
  obtain ⟨-, -, permutation, reordered, -, -, -, hreordered, -, hperm⟩ :=
    reorderByRegionOrder_spec [squareWall 2 1, squareWall (5 / 2) 0] true (by decide +kernel)
  exact ⟨reordered, hreordered, hperm⟩

example : topologicalWalk [squareWall 2 1, squareWall (5 / 2) 0]
    (getRegionOrder [squareWall 2 1, squareWall (5 / 2) 0] true) = [1, 0] := by
  decide +kernel

end PinchNPrint.Walls
