/-
The closest point of a mesh (`slicer-core`: `aabb_tree.rs`).

A query takes every triangle in turn, finds the nearest point of it by the tests of its corners,
edges and face, and keeps the nearest of all. For triangles with an area above the threshold of
the degenerate case the point lies on one of them and no point of any is nearer
(`closestPoint_nearest`).

The type of `f32` is an ordered field: its numbers are finite and its arithmetic is exact.
-/

import PinchNPrint.Lib.Sequences
import PinchNPrint.Lib.TriangleRegions
import PinchNPrint.Mesh.Slabs

namespace PinchNPrint.Mesh

open Region (IndexedTriangleSet Point3)
open TriangleRegions

section Model

variable {F : Type} [Field F] [LinearOrder F]

def RAY_EPSILON : F := 1 / 1000000

/-! ### Vectors -/

def dot (left right : Point3 F) : F :=
  left.x * right.x + (left.y * right.y + left.z * right.z)

def cross (left right : Point3 F) : Point3 F where
  x := left.y * right.z + -(left.z * right.y)
  y := left.z * right.x + -(left.x * right.z)
  z := left.x * right.y + -(left.y * right.x)

def add (left right : Point3 F) : Point3 F where
  x := left.x + right.x
  y := left.y + right.y
  z := left.z + right.z

def sub (left right : Point3 F) : Point3 F where
  x := left.x - right.x
  y := left.y - right.y
  z := left.z - right.z

def addScaled (origin direction : Point3 F) (scale : F) : Point3 F where
  x := origin.x + direction.x * scale
  y := origin.y + direction.y * scale
  z := origin.z + direction.z * scale

def scale (point : Point3 F) (factor : F) : Point3 F where
  x := point.x * factor
  y := point.y * factor
  z := point.z * factor

def squaredNorm (point : Point3 F) : F :=
  dot point point

/-- `squared_distance`. -/
def pointSquaredDistance (left right : Point3 F) : F :=
  squaredNorm (sub left right)

def pointCmp (left right : Point3 F) : Ordering :=
  ((compare left.x right.x).then (compare left.y right.y)).then (compare left.z right.z)

/-! ### The tree -/

/-- `Triangle`. -/
structure MeshTriangle (F : Type) where
  a : Point3 F
  b : Point3 F
  c : Point3 F
deriving DecidableEq

/-- `build_triangles`: the triangles whose corners are there. -/
def buildTriangles (mesh : IndexedTriangleSet F) : List (MeshTriangle F) :=
  (chunks3 mesh.indices).filterMap fun (i, j, k) => do
    let a ← mesh.vertices[i]?
    let b ← mesh.vertices[j]?
    let c ← mesh.vertices[k]?
    return ⟨a, b, c⟩

structure AabbTree (F : Type) where
  mesh : IndexedTriangleSet F
  triangles : List (MeshTriangle F)

/-- `AabbTree::new`. -/
def AabbTree.new (mesh : IndexedTriangleSet F) : AabbTree F where
  mesh := mesh
  triangles := buildTriangles mesh

structure ClosestPointHit (F : Type) where
  point : Point3 F
  squaredDistance : F
deriving DecidableEq

def closestHitCmp (left right : ClosestPointHit F) : Ordering :=
  (compare left.squaredDistance right.squaredDistance).then (pointCmp left.point right.point)

/-! ### One triangle -/

def closestPointOnSegment (point start finish : Point3 F) : Point3 F :=
  let segment := sub finish start
  let lengthSq := squaredNorm segment
  if lengthSq ≤ RAY_EPSILON * RAY_EPSILON then start
  else
    let t := dot (sub point start) segment / lengthSq
    addScaled start segment (if t < 0 then 0 else if 1 < t then 1 else t)

def closestPointOnDegenerateTriangle (point : Point3 F) (triangle : MeshTriangle F) : Point3 F :=
  (minBy (fun left right =>
      (compare (pointSquaredDistance point left) (pointSquaredDistance point right)).then
        (pointCmp left right))
    [closestPointOnSegment point triangle.a triangle.b,
      closestPointOnSegment point triangle.b triangle.c,
      closestPointOnSegment point triangle.c triangle.a]).getD triangle.a

def closestPointOnTriangle (point : Point3 F) (triangle : MeshTriangle F) : Point3 F :=
  let ab := sub triangle.b triangle.a
  let ac := sub triangle.c triangle.a
  let normal := cross ab ac
  if squaredNorm normal ≤ RAY_EPSILON * RAY_EPSILON then
    closestPointOnDegenerateTriangle point triangle
  else
    let ap := sub point triangle.a
    let d1 := dot ab ap
    let d2 := dot ac ap
    if d1 ≤ 0 ∧ d2 ≤ 0 then triangle.a
    else
      let bp := sub point triangle.b
      let d3 := dot ab bp
      let d4 := dot ac bp
      if d3 ≥ 0 ∧ d4 ≤ d3 then triangle.b
      else
        let vc := d1 * d4 - d3 * d2
        if vc ≤ 0 ∧ d1 ≥ 0 ∧ d3 ≤ 0 then
          let v := d1 / (d1 - d3)
          addScaled triangle.a ab v
        else
          let cp := sub point triangle.c
          let d5 := dot ab cp
          let d6 := dot ac cp
          if d6 ≥ 0 ∧ d5 ≤ d6 then triangle.c
          else
            let vb := d5 * d2 - d1 * d6
            if vb ≤ 0 ∧ d2 ≥ 0 ∧ d6 ≤ 0 then
              let w := d2 / (d2 - d6)
              addScaled triangle.a ac w
            else
              let va := d3 * d6 - d5 * d4
              if va ≤ 0 ∧ d4 - d3 ≥ 0 ∧ d5 - d6 ≥ 0 then
                let edge := sub triangle.c triangle.b
                let w := (d4 - d3) / ((d4 - d3) + (d5 - d6))
                addScaled triangle.b edge w
              else
                let denom := 1 / (va + vb + vc)
                let v := vb * denom
                let w := vc * denom
                add triangle.a (add (scale ab v) (scale ac w))

/-- `AabbTree::closest_point`. -/
def AabbTree.closestPoint (tree : AabbTree F) (point : Point3 F) : Option (ClosestPointHit F) :=
  minBy closestHitCmp (tree.triangles.map fun triangle =>
    let closest := closestPointOnTriangle point triangle
    { point := closest, squaredDistance := pointSquaredDistance point closest })

end Model

/-! ### Points of a triangle -/

section Spec

variable {F : Type} [Field F] [LinearOrder F]

/-- The doubled-area normal. -/
def MeshTriangle.normal (triangle : MeshTriangle F) : Point3 F :=
  cross (sub triangle.b triangle.a) (sub triangle.c triangle.a)

/-- A point of the triangle: a weighted mean of its corners. -/
def MeshTriangle.Covers (triangle : MeshTriangle F) (q : Point3 F) : Prop :=
  ∃ u v w : F, 0 ≤ u ∧ 0 ≤ v ∧ 0 ≤ w ∧ u + v + w = 1 ∧
    q = add (scale triangle.a u) (add (scale triangle.b v) (scale triangle.c w))

/-- The point so far along the two edges from the first corner. -/
def MeshTriangle.along (triangle : MeshTriangle F) (v w : F) : Point3 F :=
  add triangle.a
    (add (scale (sub triangle.b triangle.a) v) (scale (sub triangle.c triangle.a) w))

/-- The inner products of the triangle with the query point. -/
def MeshTriangle.products (triangle : MeshTriangle F) (point : Point3 F) : Products F where
  uu := squaredNorm (sub triangle.b triangle.a)
  uv := dot (sub triangle.b triangle.a) (sub triangle.c triangle.a)
  vv := squaredNorm (sub triangle.c triangle.a)
  pu := dot (sub triangle.b triangle.a) (sub point triangle.a)
  pv := dot (sub triangle.c triangle.a) (sub point triangle.a)

/-- What a query says: a point of one of the triangles, and no point of any of them is nearer. -/
structure NearestHit (triangles : List (MeshTriangle F)) (point : Point3 F)
    (hit : ClosestPointHit F) : Prop where
  covered : ∃ triangle ∈ triangles, triangle.Covers hit.point
  least : ∀ triangle ∈ triangles, ∀ q, triangle.Covers q →
    pointSquaredDistance point hit.point ≤ pointSquaredDistance point q
  distance : hit.squaredDistance = pointSquaredDistance point hit.point

end Spec

/-! ### The nearest point of one triangle -/

section Proofs

variable {F : Type} [Field F] {triangle : MeshTriangle F} {point q : Point3 F}

omit [Field F] in
/-- Points are equal when their coordinates are. -/
theorem point3_eq {p q : Point3 F} (hx : p.x = q.x) (hy : p.y = q.y) (hz : p.z = q.z) :
    p = q := by
  cases p
  cases q
  cases hx
  cases hy
  cases hz
  rfl

theorem along_eq_weighted (v w : F) : triangle.along v w =
    add (scale triangle.a (1 - v - w)) (add (scale triangle.b v) (scale triangle.c w)) := by
  apply point3_eq <;>
  · simp only [MeshTriangle.along, add, sub, scale]
    ring

theorem pointSquaredDistance_along (v w : F) :
    pointSquaredDistance point (triangle.along v w) =
      pointSquaredDistance point triangle.a + (triangle.products point).cost v w := by
  simp only [pointSquaredDistance, squaredNorm, MeshTriangle.along, MeshTriangle.products,
    Products.cost, dot, sub, add, scale]
  ring

theorem area_products : (triangle.products point).area = squaredNorm triangle.normal := by
  simp only [MeshTriangle.products, Products.area, MeshTriangle.normal, squaredNorm, dot, cross,
    sub]
  ring

/-! The inner products of the tests, as those of the triangle. -/

theorem dot_ab_bp : dot (sub triangle.b triangle.a) (sub point triangle.b) =
    (triangle.products point).bu := by
  simp only [MeshTriangle.products, Products.bu, squaredNorm, dot, sub]
  ring

theorem dot_ac_bp : dot (sub triangle.c triangle.a) (sub point triangle.b) =
    (triangle.products point).bv := by
  simp only [MeshTriangle.products, Products.bv, dot, sub]
  ring

theorem dot_ab_cp : dot (sub triangle.b triangle.a) (sub point triangle.c) =
    (triangle.products point).cu := by
  simp only [MeshTriangle.products, Products.cu, dot, sub]
  ring

theorem dot_ac_cp : dot (sub triangle.c triangle.a) (sub point triangle.c) =
    (triangle.products point).cv := by
  simp only [MeshTriangle.products, Products.cv, squaredNorm, dot, sub]
  ring

/-! The points that are returned, as points along the two edges. -/

theorem cornerA_eq_along : triangle.a = triangle.along 0 0 := by
  apply point3_eq <;> simp [MeshTriangle.along, add, sub, scale]

theorem cornerB_eq_along : triangle.b = triangle.along 1 0 := by
  apply point3_eq <;> simp [MeshTriangle.along, add, sub, scale]

theorem cornerC_eq_along : triangle.c = triangle.along 0 1 := by
  apply point3_eq <;> simp [MeshTriangle.along, add, sub, scale]

theorem addScaled_ab (v : F) :
    addScaled triangle.a (sub triangle.b triangle.a) v = triangle.along v 0 := by
  apply point3_eq <;> simp [MeshTriangle.along, addScaled, add, sub, scale]

theorem addScaled_ac (w : F) :
    addScaled triangle.a (sub triangle.c triangle.a) w = triangle.along 0 w := by
  apply point3_eq <;> simp [MeshTriangle.along, addScaled, add, sub, scale]

theorem addScaled_bc (w : F) :
    addScaled triangle.b (sub triangle.c triangle.b) w = triangle.along (1 - w) w := by
  apply point3_eq <;>
  · simp only [MeshTriangle.along, addScaled, add, sub, scale]
    ring

variable [LinearOrder F] [IsStrictOrderedRing F]

theorem covers_along {v w : F} (hv : 0 ≤ v) (hw : 0 ≤ w) (hsum : v + w ≤ 1) :
    triangle.Covers (triangle.along v w) :=
  ⟨1 - v - w, v, w, by linarith, hv, hw, by ring, along_eq_weighted v w⟩

theorem exists_along_of_covers (h : triangle.Covers q) :
    ∃ v w : F, 0 ≤ v ∧ 0 ≤ w ∧ v + w ≤ 1 ∧ q = triangle.along v w := by
  obtain ⟨u, v, w, hu, hv, hw, hsum, rfl⟩ := h
  refine ⟨v, w, hv, hw, by linarith, ?_⟩
  rw [along_eq_weighted, show 1 - v - w = u by linarith]

theorem squaredNorm_nonneg (p : Point3 F) : 0 ≤ squaredNorm p :=
  add_nonneg (mul_self_nonneg _) (add_nonneg (mul_self_nonneg _) (mul_self_nonneg _))

/-- A triangle with an area has edges with a length. -/
theorem proper_products (h : 0 < squaredNorm triangle.normal) :
    Proper (triangle.products point) := by
  have harea : 0 < (triangle.products point).area := by
    rw [area_products]
    exact h
  have hprod : 0 < (triangle.products point).uu * (triangle.products point).vv := by
    have hsquare := mul_self_nonneg (triangle.products point).uv
    simp only [Products.area] at harea
    linarith
  exact ⟨pos_of_mul_pos_left hprod (squaredNorm_nonneg _),
    pos_of_mul_pos_right hprod (squaredNorm_nonneg _), harea⟩

/-- The point of a triangle that the tests find is nearest. -/
theorem exists_nearest (point : Point3 F)
    (h : RAY_EPSILON * RAY_EPSILON < squaredNorm triangle.normal) :
    ∃ v w : F, closestPointOnTriangle point triangle = triangle.along v w ∧
      Nearest (triangle.products point) v w := by
  have hproper : Proper (triangle.products point) :=
    proper_products ((mul_self_nonneg RAY_EPSILON).trans_lt h)
  set g := triangle.products point with hg
  have hpu : dot (sub triangle.b triangle.a) (sub point triangle.a) = g.pu := rfl
  have hpv : dot (sub triangle.c triangle.a) (sub point triangle.a) = g.pv := rfl
  have hvc : g.pu * g.bv - g.bu * g.pv = g.vc := rfl
  have hvb : g.cu * g.pv - g.pu * g.cv = g.vb := rfl
  have hva : g.bu * g.cv - g.cu * g.bv = g.va := rfl
  simp only [closestPointOnTriangle, dot_ab_bp, dot_ac_bp, dot_ab_cp, dot_ac_cp, ← hg, hpu, hpv,
    hvc, hvb, hva, g.va_add_vb_add_vc, addScaled_ab, addScaled_ac, addScaled_bc]
  rw [if_neg (show ¬ squaredNorm (cross (sub triangle.b triangle.a) (sub triangle.c triangle.a)) ≤
    RAY_EPSILON * RAY_EPSILON from not_le.mpr h)]
  split_ifs with hA hB hAB hC hAC hBC
  · exact ⟨0, 0, cornerA_eq_along, nearest_cornerA hproper hA.1 hA.2⟩
  · exact ⟨1, 0, cornerB_eq_along, nearest_cornerB hproper hB.1 hB.2⟩
  · refine ⟨_, _, rfl, ?_⟩
    rw [show g.pu - g.bu = g.uu by simp [Products.bu]]
    exact nearest_edgeAB hproper hAB.1 hAB.2.1 hAB.2.2
  · exact ⟨0, 1, cornerC_eq_along, nearest_cornerC hproper hC.1 hC.2⟩
  · refine ⟨_, _, rfl, ?_⟩
    rw [show g.pv - g.cv = g.vv by simp [Products.cv]]
    exact nearest_edgeAC hproper hAC.1 hAC.2.1 hAC.2.2
  · refine ⟨_, _, rfl, ?_⟩
    rw [show g.bv - g.bu + (g.cu - g.cv) = g.ww by
      simp only [Products.ww, Products.bu, Products.bv, Products.cu, Products.cv]
      ring]
    exact nearest_edgeBC hproper hBC.1 hBC.2.1 hBC.2.2
  · refine ⟨_, _, rfl, ?_⟩
    rw [mul_one_div, mul_one_div]
    exact nearest_face hproper ⟨hA, hB, hC, hAB, hAC, hBC⟩

theorem covers_closestPointOnTriangle
    (h : RAY_EPSILON * RAY_EPSILON < squaredNorm triangle.normal) :
    triangle.Covers (closestPointOnTriangle point triangle) := by
  obtain ⟨v, w, heq, hnearest⟩ := exists_nearest point h
  rw [heq]
  exact covers_along hnearest.nonneg.1 hnearest.nonneg.2 hnearest.sum_le

theorem closestPointOnTriangle_le
    (h : RAY_EPSILON * RAY_EPSILON < squaredNorm triangle.normal) (hq : triangle.Covers q) :
    pointSquaredDistance point (closestPointOnTriangle point triangle) ≤
      pointSquaredDistance point q := by
  obtain ⟨v, w, heq, hnearest⟩ := exists_nearest point h
  obtain ⟨v', w', hv, hw, hsum, rfl⟩ := exists_along_of_covers hq
  rw [heq, pointSquaredDistance_along, pointSquaredDistance_along]
  exact add_le_add_right (hnearest.least v' w' hv hw hsum) _

/-! ### The nearest of all -/

section

omit [Field F] [IsStrictOrderedRing F]

theorem le_of_closestHitCmp_eq_gt {left right : ClosestPointHit F}
    (h : closestHitCmp left right = .gt) : right.squaredDistance ≤ left.squaredDistance := by
  by_contra hlt
  rw [closestHitCmp, compare_lt_iff_lt.mpr (not_le.mp hlt)] at h
  cases h

theorem le_of_closestHitCmp_ne_gt {left right : ClosestPointHit F}
    (h : closestHitCmp left right ≠ .gt) : left.squaredDistance ≤ right.squaredDistance := by
  by_contra hlt
  rw [closestHitCmp, compare_gt_iff_gt.mpr (not_le.mp hlt)] at h
  exact h rfl

end

/-- A query of triangles with an area finds a nearest point of them. -/
theorem closestPoint_nearest {tree : AabbTree F} (hne : tree.triangles ≠ [])
    (harea : ∀ triangle ∈ tree.triangles,
      RAY_EPSILON * RAY_EPSILON < squaredNorm triangle.normal) (point : Point3 F) :
    ∃ hit, tree.closestPoint point = some hit ∧ NearestHit tree.triangles point hit := by
  cases hhit : tree.closestPoint point with
  | none => exact absurd (List.map_eq_nil_iff.mp (eq_nil_of_minBy hhit)) hne
  | some hit =>
    obtain ⟨triangle, hmem, rfl⟩ := List.mem_map.mp (mem_of_minBy hhit)
    refine ⟨_, rfl, ⟨triangle, hmem, covers_closestPointOnTriangle (harea triangle hmem)⟩, ?_, rfl⟩
    intro other hother q hq
    have hleast := key_minBy_le ClosestPointHit.squaredDistance
      (fun _ _ => le_of_closestHitCmp_eq_gt) (fun _ _ => le_of_closestHitCmp_ne_gt) hhit
      (List.mem_map_of_mem hother)
    exact hleast.trans (closestPointOnTriangle_le (harea other hother) hq)

end Proofs

/-- Two faces of a step. -/
def stepTree : AabbTree ℚ :=
  .new {
    vertices := [⟨0, 0, 0⟩, ⟨1, 0, 0⟩, ⟨0, 1, 0⟩, ⟨0, 0, 1⟩]
    indices := [0, 1, 2, 0, 3, 1] }

theorem closestPoint_nearest_stepTree :
    ∃ hit, stepTree.closestPoint ⟨1, 1, 1⟩ = some hit ∧
      NearestHit stepTree.triangles ⟨1, 1, 1⟩ hit :=
  closestPoint_nearest (by decide) (by decide +kernel) _

end PinchNPrint.Mesh
