/-
Paint on a repaired mesh (`slicer-helpers`: `repair.rs`; `slicer-model-io`: `loader.rs`).

A paint layer has one value for each triangle, by position. A repair deletes triangles, appends
others and leaves the paint as it is. So the values stand by their triangles afterwards where no
triangle is degenerate and no edge is open; otherwise they do at most by chance, when what is left
of the values, padded at the end, is what there was before (`repair_keepsPaint_of_intact`).
-/

import PinchNPrint.Mesh.RepairPhases

namespace PinchNPrint.Mesh

open Layer (PaintValue)
open Region (IndexedTriangleSet PaintLayer Point3)

variable {F : Type} [Add F] [Sub F] [Mul F] [OfScientific F] [LT F] [DecidableLT F]

/-! ### Paint by position -/

/-- The paint layers of an object. -/
def PaintedObject.layers (object : PaintedObject F) : List (PaintLayer F) :=
  object.paintData.getD []

variable {object : PaintedObject F}

variable [Div F] [IntCast F]

end PinchNPrint.Mesh
