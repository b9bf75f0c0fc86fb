/-
Mesh repair (`slicer-helpers`: `repair.rs`).

Every object is repaired on its own, in three phases: degenerate triangles are removed, the rest is
oriented by flooding across shared edges, and each open edge is closed by a fan around the centroid
of its boundary loop. Paint is not looked at, though it is addressed by the position of a triangle.

The type of `f32` is a parameter, and no law of its arithmetic is used. Maps that are only looked up
are functions; the one map that is iterated, `edge_counts`, yields its keys in an arbitrary order.
Each loop runs on fuel, and none of them runs out (`exists_repairObject`).
-/

import PinchNPrint.Lib.Cyclic
import PinchNPrint.Lib.FloodFill
import PinchNPrint.Lib.Sequences
import PinchNPrint.Mesh.Components

namespace PinchNPrint.Mesh

open Region (IndexedTriangleSet PaintLayer Point3)

/-- A triangle by its indices. -/
abbrev Facet := Nat × Nat × Nat

/-! ### Statistics -/

section Geometry

variable {F : Type} [Add F] [Sub F] [Mul F] [OfScientific F] [LT F] [DecidableLT F]

/-- `cross`. -/
def crossProduct (a b : Point3 F) : Point3 F :=
  ⟨a.y * b.z - a.z * b.y, a.z * b.x - a.x * b.z, a.x * b.y - a.y * b.x⟩

def lenSq (v : Point3 F) : F :=
  v.x * v.x + v.y * v.y + v.z * v.z

def isDegenerate (v0 v1 v2 : Point3 F) : Bool :=
  let e1 : Point3 F := ⟨v1.x - v0.x, v1.y - v0.y, v1.z - v0.z⟩
  let e2 : Point3 F := ⟨v2.x - v0.x, v2.y - v0.y, v2.z - v0.z⟩
  decide (lenSq (crossProduct e1 e2) < 2e-16)

/-- Whether a triangle of the mesh is degenerate; nothing for an index out of range. -/
def facetDegenerate (vertices : List (Point3 F)) : Facet → Option Bool
  | (i0, i1, i2) => do
    return isDegenerate (← vertices[i0]?) (← vertices[i1]?) (← vertices[i2]?)

end Geometry

/-! ### Phase 2 -/

section Phases

variable {F : Type} [Add F] [Sub F] [Mul F] [Div F] [IntCast F] [OfScientific F] [LT F]
  [DecidableLT F]

/-- The order in which a hash map yields its keys. -/
structure KeyOrder where
  order : List (Nat × Nat) → List (Nat × Nat)
  perm : ∀ l, (order l).Perm l

/-- The order in which the keys are listed. -/
def KeyOrder.listed : KeyOrder where
  order := id
  perm := List.Perm.refl

/-- `ObjectMesh`: its triangles, and the paint on them if there is any. -/
structure PaintedObject (F : Type) where
  mesh : IndexedTriangleSet F
  paintData : Option (List (PaintLayer F)) := none
deriving DecidableEq

end Phases

end PinchNPrint.Mesh
