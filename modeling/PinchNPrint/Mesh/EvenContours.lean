/-
The walk closes every even contour graph.

A layer of a closed mesh has at every topology an even number of line ends. The walk
takes lines in whatever order they come and stops at the first return to its start; the
lines it leaves are even again, so that no later walk gets stuck either.
-/

import PinchNPrint.Lib.Multigraph
import PinchNPrint.Mesh.Walks

namespace PinchNPrint.Mesh

open GCode (Sqrt)
open Region (Point2)
open Multigraph (degree Walks)

/-- The ends of a line. -/
def IntersectionLine.topologies (line : IntersectionLine) : EndpointTopology × EndpointTopology :=
  (line.aTopology, line.bTopology)

/-- How often a topology occurs as an end of the lines. -/
def occurrences (lines : List IntersectionLine) (topo : EndpointTopology) : Nat :=
  lines.countP (·.aTopology = topo) + lines.countP (·.bTopology = topo)

/-- Every line is used exactly once, and every walk comes back to its start. -/
structure AllClosed {F : Type} (lines : List IntersectionLine) (chains : Chains F) : Prop where
  noneOpen : chains.openPolylines = []
  uses : chains.lineUses = Multiset.range lines.length
  closed : ∀ chain ∈ chains.loops ++ chains.shortLoops, ∃ t, Trail lines t chain.steps t

section Even

variable {lines : List IntersectionLine} {used used' : List Bool} {s t : EndpointTopology}

/-- The edges that remain. -/
def freeEdges (lines : List IntersectionLine) (used : List Bool) :
    List (EndpointTopology × EndpointTopology) :=
  (freeLines lines used).map (·.1.topologies)

theorem freeEdges_perm {index : Nat} {line : IntersectionLine} (hget : lines[index]? = some line)
    (hfree : isUsed used index = false) :
    (freeEdges lines used).Perm
      (line.topologies :: freeEdges lines (used.set index true)) :=
  (freeLines_perm hget hfree).map _

/-- The walk over the lines is one over the edges that remain. -/
theorem Takes.walks {taken : List LineEnd} (h : Takes lines used s taken used' t) :
    Walks (freeEdges lines used) s (freeEdges lines used') t := by
  induction h with
  | nil used t => exact .nil _ _
  | @cons used s next taken used' t hnext _ ih =>
    obtain ⟨hget, rfl, hfree⟩ := nextLine_spec hnext
    have hperm := freeEdges_perm hget hfree
    cases hside : next.isA with
    | true =>
      simp only [LineEnd.far, LineEnd.near, hside, if_true] at ih ⊢
      exact .cons hperm ih
    | false =>
      simp only [LineEnd.far, LineEnd.near, hside, Bool.false_eq_true, if_false] at ih ⊢
      exact .consRev hperm ih

theorem degree_freeEdges_of_stuck (h : nextLine lines used t = none) :
    degree (freeEdges lines used) t = 0 := by
  refine Multigraph.degree_eq_zero fun edge hedge => ?_
  obtain ⟨⟨line, index⟩, hmem, rfl⟩ := List.mem_map.mp hedge
  obtain ⟨hget, hfree⟩ := mem_freeLines.mp hmem
  have hunused : ∀ hend : line.aTopology = t ∨ line.bTopology = t, False := fun hend => by
    rw [isUsed_of_nextLine_eq_none h hget hend] at hfree
    cases hfree
  exact ⟨fun ha => hunused (Or.inl ha), fun hb => hunused (Or.inr hb)⟩

theorem degree_freeEdges_initial (lines : List IntersectionLine) (topo : EndpointTopology) :
    degree (freeEdges lines (List.replicate lines.length false)) topo = occurrences lines topo := by
  have hedges : freeEdges lines (List.replicate lines.length false) =
      lines.map IntersectionLine.topologies := by
    rw [freeEdges, freeLines_replicate]
    conv_rhs => rw [← List.zipIdx_map_fst 0 lines, List.map_map]
    rfl
  rw [hedges, degree, List.countP_map, List.countP_map]
  rfl

end Even

/-- What holds behind the walks from the first `seeds` lines. -/
structure ClosedSoFar {F : Type} (lines : List IntersectionLine) (seeds : Nat) (used : List Bool)
    (chains : Chains F) : Prop where
  seeded : ∀ i < seeds, isUsed used i = true
  uses : chains.lineUses + freeIndices lines used = Multiset.range lines.length
  noneOpen : chains.openPolylines = []
  closed : ∀ chain ∈ chains.loops ++ chains.shortLoops, ∃ t, Trail lines t chain.steps t
  even : ∀ topo, Even (degree (freeEdges lines used) topo)

section Closing

variable {F : Type} {lines : List IntersectionLine} {index : Nat} {line : IntersectionLine}
  {used used' : List Bool} {chains : Chains F} {taken : List LineEnd} {t : EndpointTopology}

/-- The walk from a seed begins with the seed itself. -/
theorem walks_of_seed (hget : lines[index]? = some line) (hfree : isUsed used index = false)
    (htakes : Takes lines (used.set index true) line.bTopology taken used' t) :
    Walks (freeEdges lines used) line.aTopology (freeEdges lines used') t :=
  .cons (freeEdges_perm hget hfree) htakes.walks

/-- A walk that comes back leaves even degrees. -/
theorem ClosedSoFar.closed_walk (h : ClosedSoFar lines index used chains)
    (hget : lines[index]? = some line) (hfree : isUsed used index = false)
    (htakes : Takes lines (used.set index true) line.bTopology taken used' line.aTopology)
    (points : List Point2) :
    ClosedSoFar lines (index + 1) used' (chains.pushLoop
      ⟨points, .line index true :: taken.map LineEnd.step⟩) where
  seeded := seeded_succ h.seeded htakes
  uses := by
    rw [Chains.lineUses_pushLoop, ← h.uses, lineUses_seed hget hfree htakes]
    abel
  noneOpen := by rw [Chains.openPolylines_pushLoop, h.noneOpen]
  closed chain hchain := by
    rcases Chains.mem_pushLoop.mp hchain with hchain | rfl
    · exact h.closed chain hchain
    · exact ⟨_, trail_seed hget htakes⟩
  even := (walks_of_seed hget hfree htakes).even_rest h.even

/-- No walk gets stuck away from its start. -/
theorem ClosedSoFar.not_stuck (h : ClosedSoFar lines index used chains)
    (hget : lines[index]? = some line) (hfree : isUsed used index = false)
    (htakes : Takes lines (used.set index true) line.bTopology taken used' t)
    (hstuck : nextLine lines used' t = none) : t = line.aTopology :=
  ((walks_of_seed hget hfree htakes).back_of_even h.even (degree_freeEdges_of_stuck hstuck)).symm

end Closing

/-- Where every topology occurs an even number of times, the walks use every line once and
all come back. -/
theorem even_contours_close {F : Type} [Field F] [Sqrt F] (lines : List IntersectionLine)
    (heven : ∀ topo, Even (occurrences lines topo)) :
    AllClosed lines (chainLinesByTriangleConnectivity lines : Chains F) := by
  have hinitial : ClosedSoFar (F := F) lines 0 (List.replicate lines.length false) {} :=
    { seeded := fun _ h => absurd h (Nat.not_lt_zero _)
      uses := by rw [freeIndices_replicate]; exact zero_add _
      noneOpen := rfl
      closed := by simp
      even := fun topo => by rw [degree_freeEdges_initial]; exact heven topo }
  obtain ⟨used, hclosed⟩ := chainLines_induction (P := ClosedSoFar lines) hinitial
    (fun index used chains hused h =>
      { h with
        seeded := fun i hi => (Nat.lt_succ_iff_lt_or_eq.mp hi).elim (h.seeded i) (· ▸ hused) })
    (fun index line used chains taken used' hget hfree h htakes =>
      h.closed_walk hget hfree htakes _)
    (fun index line used chains taken used' t hget hfree h htakes hends hstuck =>
      absurd (h.not_stuck hget hfree htakes hstuck) hends)
  have huses := hclosed.uses
  rw [freeIndices_eq_zero hclosed.seeded, add_zero] at huses
  exact ⟨hclosed.noneOpen, huses, hclosed.closed⟩

/-- The line between two vertices, at coordinates of their own. -/
def vertexLine (i j : ℤ) : IntersectionLine :=
  ⟨⟨i, i * i⟩, ⟨j, j * j⟩, .Vertex i, .Vertex j⟩

/-- Two triangles that meet in a vertex, with their lines in no order. -/
def touchingTriangles : List IntersectionLine :=
  [vertexLine 1 2, vertexLine 3 0, vertexLine 0 1, vertexLine 4 3, vertexLine 2 0, vertexLine 0 4]

theorem even_contours_close_touching :
    AllClosed touchingTriangles (chainLinesByTriangleConnectivity touchingTriangles : Chains ℚ) := by
  let vertices := (List.range 5).map fun i => EndpointTopology.Vertex i
  refine even_contours_close touchingTriangles fun topo => ?_
  by_cases hvertex : topo ∈ vertices
  case pos =>
    have hall : ∀ vertex ∈ vertices, Even (occurrences touchingTriangles vertex) := by decide
    exact hall topo hvertex
  case neg =>
    have hends : ∀ line ∈ touchingTriangles,
        line.aTopology ∈ vertices ∧ line.bTopology ∈ vertices := by decide
    have hfirst : touchingTriangles.countP (·.aTopology = topo) = 0 :=
      List.countP_eq_zero.mpr fun line hline => by
        simpa using ne_of_mem_of_not_mem (hends line hline).1 hvertex
    have hsecond : touchingTriangles.countP (·.bTopology = topo) = 0 :=
      List.countP_eq_zero.mpr fun line hline => by
        simpa using ne_of_mem_of_not_mem (hends line hline).2 hvertex
    rw [occurrences, hfirst, hsecond]
    exact Even.zero

end PinchNPrint.Mesh
