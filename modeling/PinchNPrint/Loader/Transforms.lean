/-
The transforms of a 3MF file (`slicer-model-io`: `loader.rs`).

A transform is twelve numbers, the rows of a matrix that is multiplied from the left with the
row vector of a point. The loader keeps it as sixteen numbers, column by column, and applies
it to column vectors: entry `r`, `c` of a matrix here is the number at `4 c + r`.
-/

import Mathlib.LinearAlgebra.Matrix.Notation
import Mathlib.Tactic.Ring
import PinchNPrint.Loader.PaintTree

namespace PinchNPrint.Loader

open Region (IndexedTriangleSet Point3)

section Transforms

variable {F : Type} [Field F]

/-- A transform: the last row is that of an affine map. -/
structure Transform (F : Type) [Field F] where
  matrix : Matrix (Fin 4) (Fin 4) F
  affine : ∀ col, matrix 3 col = if col = 3 then 1 else 0

/-- `parse_3mf_transform`, of the numbers that are written. -/
def parse3mfTransform (floats : List F) : Except ModelLoadError (Transform F) :=
  match floats with
  | [f0, f1, f2, f3, f4, f5, f6, f7, f8, f9, f10, f11] =>
      .ok {
        matrix := !![f0, f3, f6, f9; f1, f4, f7, f10; f2, f5, f8, f11; 0, 0, 0, 1]
        affine := by
          intro col
          fin_cases col <;> rfl }
  | _ => .error (.ThreeMfParse s!"3MF transform must have 12 floats, got {floats.length}")

/-- `compose_transforms`. -/
def Transform.compose (a b : Transform F) : Transform F where
  matrix := a.matrix * b.matrix
  affine := by
    intro col
    rw [Matrix.mul_apply, Fin.sum_univ_four]
    simp [a.affine, b.affine]

def identity3mfTransform : Transform F where
  matrix := 1
  affine := by
    intro col
    fin_cases col <;> rfl

/-- `apply_transform_to_vertex`: the zero matrix moves nothing. -/
def applyTransformToVertex [DecidableEq F] (v : Point3 F) (m : Matrix (Fin 4) (Fin 4) F) :
    Point3 F :=
  if m = 0 then v
  else
    let tx := m 0 0 * v.x + m 0 1 * v.y + m 0 2 * v.z + m 0 3
    let ty := m 1 0 * v.x + m 1 1 * v.y + m 1 2 * v.z + m 1 3
    let tz := m 2 0 * v.x + m 2 1 * v.y + m 2 2 * v.z + m 2 3
    let tw := m 3 0 * v.x + m 3 1 * v.y + m 3 2 * v.z + m 3 3
    let w := if tw = 0 then 1 else tw
    { x := tx / w, y := ty / w, z := tz / w }

/-! ### The row-vector convention -/

namespace Transform

/-- The twelve numbers, as the rows of the matrix that is written. -/
def rows (t : Transform F) : Matrix (Fin 4) (Fin 3) F :=
  Matrix.of fun row col => t.matrix col.castSucc row

/-- The row vector of a point, times the rows. -/
def rowMap (t : Transform F) (v : Point3 F) : Point3 F :=
  let moved := Matrix.vecMul ![v.x, v.y, v.z, 1] t.rows
  { x := moved 0, y := moved 1, z := moved 2 }

/-- A transform that is read has the numbers that are written, row by row. -/
theorem rows_of_parse {floats : List F} {t : Transform F} (h : parse3mfTransform floats = .ok t)
    (row : Fin 4) (col : Fin 3) : floats[3 * row.val + col.val]? = some (t.rows row col) := by
  unfold parse3mfTransform at h
  split at h
  · cases h
    fin_cases row <;> fin_cases col <;> rfl
  · cases h

/-- A transform moves a vertex as the row-vector convention says. -/
theorem applyTransformToVertex_eq [DecidableEq F] (t : Transform F) (v : Point3 F) :
    applyTransformToVertex v t.matrix = t.rowMap v := by
  have hnonzero : t.matrix ≠ 0 := by
    intro hzero
    have hone := t.affine 3
    rw [hzero, if_pos rfl] at hone
    exact zero_ne_one hone
  rw [applyTransformToVertex, if_neg hnonzero]
  simp [t.affine, rowMap, rows, Matrix.vecMul, dotProduct, Fin.sum_univ_four, mul_comm]

/-- A composition applies its second transform first. -/
theorem rowMap_compose (a b : Transform F) : (a.compose b).rowMap = a.rowMap ∘ b.rowMap := by
  funext v
  simp only [rowMap, compose, rows, Matrix.vecMul, dotProduct, Fin.sum_univ_four, Matrix.mul_apply,
    Matrix.of_apply, Function.comp_apply]
  simp [b.affine]
  refine ⟨?_, ?_, ?_⟩ <;> ring

end Transform

end Transforms

end PinchNPrint.Loader
