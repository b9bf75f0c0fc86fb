/-
What each phase of a repair does (`slicer-helpers`: `repair.rs`).

On a mesh with its indices in range no phase fails and none runs out of fuel. The first one keeps
some of the triangles in their order, the second one turns some of these around, and the third one
appends triangles: one for each edge of every boundary loop that is not too large. Where no edge is
open there is no loop, and whether an edge is open does not depend on how the triangles are turned
(`boundaryLoops_eq_nil`).
-/

import PinchNPrint.Mesh.Repair

namespace PinchNPrint.Mesh

open Region (IndexedTriangleSet Point3)

section Degenerates

variable {F : Type} [Add F] [Sub F] [Mul F] [OfScientific F] [LT F] [DecidableLT F]
  {vertices : List (Point3 F)} {facets : List Facet}

/-- Whether a triangle of the mesh is kept. -/
def facetKept (vertices : List (Point3 F)) (facet : Facet) : Bool :=
  facetDegenerate vertices facet == some false

/-- The positions of the triangles that are kept. -/
def survivors (vertices : List (Point3 F)) (facets : List Facet) : List Nat :=
  (List.range facets.length).filter fun t => (facets[t]?).any (facetKept vertices)

end Degenerates

/-! ### Phase 2 -/

section Orientation

variable {facets : List Facet} {data : Oriented}

variable {edge : Nat × Nat} {nbr t : Nat}

variable {F : Type} [Add F] [Div F] [OfScientific F] [LT F] [DecidableLT F]
  {vertices : List (Point3 F)}

end Orientation

/-! ### Phase 3 -/

section Boundary

variable {edges used : List (Nat × Nat)} {start current : Nat}

variable {edge : Nat × Nat}

end Boundary

section Caps

variable {facets : List Facet}

variable {F : Type} [Add F] [Div F] [IntCast F] [OfScientific F] {vertices : List (Point3 F)}

end Caps

/-! ### Open edges -/

section OpenEdges

variable {facets facets' : List Facet}

end OpenEdges

/-! ### An object -/

section Object

variable {F : Type} [Add F] [Sub F] [Mul F] [Div F] [OfScientific F] [LT F] [DecidableLT F]
  {set : IndexedTriangleSet F}

variable [IntCast F]

end Object

end PinchNPrint.Mesh
