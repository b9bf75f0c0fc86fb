/-
The subdivision of a painted facet (`slicer-model-io`: `loader.rs`).

`PaintNode` is the tree that a paint string encodes, with its digits in the order of the format:
a node before its children, and the children from the last to the first. A walk that is accepted
reads one such tree, and visits its leaves in the order of their digits
(`walkTriangleSelectorStrokes_subdivides`). The leaves dissect the facet: each has a positive
share of its area vector, so it keeps the orientation, the shares add up to one, and the
interiors do not meet.

Coordinates are the elements of an ordered field. The interior of a triangle without an area is
empty.
-/

import PinchNPrint.Lib.Dissection
import PinchNPrint.Loader.PaintWalks
import Mathlib.Algebra.Module.Prod
import Mathlib.Tactic.Linarith
import Mathlib.Tactic.Ring

namespace PinchNPrint.Loader

open Dissection
open Region (Point3)

/-! ### The tree of a paint string -/

/-- A node: a leaf with its state, or a split with its special side and its children. -/
inductive PaintNode where
  | leaf (state : Nat)
  | two (side : Nat) (c0 c1 : PaintNode)
  | three (side : Nat) (c0 c1 c2 : PaintNode)
  | four (c0 c1 c2 c3 : PaintNode)
deriving DecidableEq

/-- The digits of a tree. -/
def PaintNode.digits : PaintNode → List Nat
  | .leaf state => if state < 3 then [4 * state] else [12, state - 3]
  | .two side c0 c1 => (4 * side + 1) :: (c1.digits ++ c0.digits)
  | .three side c0 c1 c2 => (4 * side + 2) :: (c2.digits ++ (c1.digits ++ c0.digits))
  | .four c0 c1 c2 c3 => 3 :: (c3.digits ++ (c2.digits ++ (c1.digits ++ c0.digits)))

/-- A leaf of a subdivision: where its digits stand, its triangle and its state. -/
structure PaintLeaf (F : Type) where
  position : Nat
  triangle : Triangle F
  state : Nat

section Leaves

variable {F : Type} [Field F]

/-- The leaves of a tree whose digits begin at a position, in the order of their digits. The
children of a node are the triangles of its split, in the order of the split. -/
def PaintNode.leaves : PaintNode → Triangle F → Nat → List (PaintLeaf F)
  | .leaf state, facet, position => [⟨position, facet, state⟩]
  | .two side c0 c1, facet, position =>
    match splitTriangleStrokes facet 1 side with
    | .ok [t0, t1] =>
      c1.leaves t1 (position + 1) ++ c0.leaves t0 (position + 1 + c1.digits.length)
    | _ => []
  | .three side c0 c1 c2, facet, position =>
    match splitTriangleStrokes facet 2 side with
    | .ok [t0, t1, t2] =>
      c2.leaves t2 (position + 1) ++ (c1.leaves t1 (position + 1 + c2.digits.length) ++
        c0.leaves t0 (position + 1 + c2.digits.length + c1.digits.length))
    | _ => []
  | .four c0 c1 c2 c3, facet, position =>
    match splitTriangleStrokes facet 3 0 with
    | .ok [t0, t1, t2, t3] =>
      c3.leaves t3 (position + 1) ++ (c2.leaves t2 (position + 1 + c3.digits.length) ++
        (c1.leaves t1 (position + 1 + c3.digits.length + c2.digits.length) ++
          c0.leaves t0
            (position + 1 + c3.digits.length + c2.digits.length + c1.digits.length)))
    | _ => []

/-- What the walk puts out: the leaves that are painted. -/
def paintedLeaves (leaves : List (PaintLeaf F)) : List (Triangle F × Nat) :=
  (leaves.filter fun leaf => leaf.state ≠ 0).map fun leaf => (leaf.triangle, leaf.state)

end Leaves

/-! ### Areas and interiors -/

section Geometry

variable {F : Type} [Field F]

/-- The point with these weights. -/
def Triangle.weighted (t : Triangle F) (u v w : F) : Point3 F where
  x := u * t.v0.x + v * t.v1.x + w * t.v2.x
  y := u * t.v0.y + v * t.v1.y + w * t.v2.y
  z := u * t.v0.z + v * t.v1.z + w * t.v2.z

/-- The cross product of the edges from the first corner: twice the area, along the normal. -/
def Triangle.areaVector (t : Triangle F) : F × F × F :=
  ((t.v1.y - t.v0.y) * (t.v2.z - t.v0.z) - (t.v1.z - t.v0.z) * (t.v2.y - t.v0.y),
    (t.v1.z - t.v0.z) * (t.v2.x - t.v0.x) - (t.v1.x - t.v0.x) * (t.v2.z - t.v0.z),
    (t.v1.x - t.v0.x) * (t.v2.y - t.v0.y) - (t.v1.y - t.v0.y) * (t.v2.x - t.v0.x))

/-- The triangle with its corners turned. -/
def Triangle.rotate (t : Triangle F) : Triangle F := ⟨t.v1, t.v2, t.v0⟩

theorem areaVector_rotate (t : Triangle F) : t.rotate.areaVector = t.areaVector := by
  refine Prod.ext ?_ (Prod.ext ?_ ?_) <;>
  · simp only [Triangle.areaVector, Triangle.rotate]
    ring

theorem weighted_rotate (t : Triangle F) (u v w : F) :
    t.rotate.weighted u v w = t.weighted w u v := by
  simp only [Triangle.weighted, Triangle.rotate, Point3.mk.injEq]
  exact ⟨by ring, by ring, by ring⟩

variable {t : Triangle F} {side : Nat}

/-- The weights of a point are unique, when the triangle has an area. -/
theorem weights_unique (harea : t.areaVector ≠ 0) {u v w u' v' w' : F} (hsum : u + v + w = 1)
    (hsum' : u' + v' + w' = 1) (heq : t.weighted u v w = t.weighted u' v' w') :
    u = u' ∧ v = v' ∧ w = w' := by
  obtain rfl : u = 1 - v - w := by linear_combination hsum
  obtain rfl : u' = 1 - v' - w' := by linear_combination hsum'
  simp only [Triangle.weighted, Point3.mk.injEq] at heq
  obtain ⟨hx, hy, hz⟩ := heq
  -- The difference of the points, crossed with either edge, is a multiple of the area vector.
  have hv : (v - v') • t.areaVector = 0 := by
    refine Prod.ext ?_ (Prod.ext ?_ ?_) <;>
      simp only [Triangle.areaVector, Prod.smul_fst, Prod.smul_snd, smul_eq_mul, Prod.fst_zero,
        Prod.snd_zero]
    · linear_combination (t.v2.z - t.v0.z) * hy - (t.v2.y - t.v0.y) * hz
    · linear_combination (t.v2.x - t.v0.x) * hz - (t.v2.z - t.v0.z) * hx
    · linear_combination (t.v2.y - t.v0.y) * hx - (t.v2.x - t.v0.x) * hy
  have hw : (w - w') • t.areaVector = 0 := by
    refine Prod.ext ?_ (Prod.ext ?_ ?_) <;>
      simp only [Triangle.areaVector, Prod.smul_fst, Prod.smul_snd, smul_eq_mul, Prod.fst_zero,
        Prod.snd_zero]
    · linear_combination (t.v1.y - t.v0.y) * hz - (t.v1.z - t.v0.z) * hy
    · linear_combination (t.v1.z - t.v0.z) * hx - (t.v1.x - t.v0.x) * hz
    · linear_combination (t.v1.x - t.v0.x) * hy - (t.v1.y - t.v0.y) * hx
  have hv' := sub_eq_zero.mp ((smul_eq_zero.mp hv).resolve_right harea)
  have hw' := sub_eq_zero.mp ((smul_eq_zero.mp hw).resolve_right harea)
  exact ⟨by rw [hv', hw'], hv', hw'⟩

variable [LinearOrder F]

/-- A point of the interior: all its weights are positive. -/
def Triangle.Interior (t : Triangle F) (q : Point3 F) : Prop :=
  t.areaVector ≠ 0 ∧
    ∃ u v w, 0 < u ∧ 0 < v ∧ 0 < w ∧ u + v + w = 1 ∧ q = t.weighted u v w

/-- A part of a triangle: it has this share of the area vector, and the weights of its inner
points are positive and satisfy this condition. -/
structure CutsOff (t part : Triangle F) (cut : F × (F → F → F → Prop)) : Prop where
  pos : 0 < cut.1
  area : part.areaVector = cut.1 • t.areaVector
  inner : ∀ u v w, 0 < u → 0 < v → 0 < w → u + v + w = 1 →
    ∃ u' v' w', 0 < u' ∧ 0 < v' ∧ 0 < w' ∧ u' + v' + w' = 1 ∧
      part.weighted u v w = t.weighted u' v' w' ∧ cut.2 u' v' w'

theorem CutsOff.interior {part : Triangle F} {cut : F × (F → F → F → Prop)} (h : CutsOff t part cut)
    {q : Point3 F} (hq : part.Interior q) :
    t.areaVector ≠ 0 ∧ ∃ u v w, 0 < u ∧ 0 < v ∧ 0 < w ∧ u + v + w = 1 ∧
      q = t.weighted u v w ∧ cut.2 u v w := by
  obtain ⟨harea, u, v, w, hu, hv, hw, hsum, rfl⟩ := hq
  refine ⟨fun hzero => harea ?_, h.inner u v w hu hv hw hsum⟩
  rw [h.area, hzero, smul_zero]

variable {parts : List (Triangle F)}

/-- Parts whose conditions exclude each other make up the triangle. -/
theorem dissects_of_cutsOff (cuts : List (F × (F → F → F → Prop)))
    (h : List.Forall₂ (fun cut part => CutsOff t part cut) cuts parts)
    (hsum : (cuts.map Prod.fst).sum = 1)
    (hexclude : cuts.Pairwise fun a b => ∀ u v w, a.2 u v w → ¬ b.2 u v w) :
    Dissects F Triangle.Interior Triangle.areaVector t parts where
  shares := by
    refine ⟨cuts.map Prod.fst, ?_, hsum⟩
    rw [HasShares, List.forall₂_map_left_iff]
    exact h.imp fun cut part hcut => ⟨hcut.pos, hcut.area⟩
  inside := by
    intro part hpart q hq
    obtain ⟨cut, -, hcut⟩ := h.exists_of_mem_right hpart
    obtain ⟨harea, u, v, w, hu, hv, hw, hsum, hpoint, -⟩ := hcut.interior hq
    exact ⟨harea, u, v, w, hu, hv, hw, hsum, hpoint⟩
  disjoint := by
    clear hsum
    induction h with
    | nil => exact List.Pairwise.nil
    | @cons cut part cuts parts hcut hcuts ih =>
      obtain ⟨hfirst, hrest⟩ := List.pairwise_cons.mp hexclude
      refine List.pairwise_cons.mpr ⟨fun other hother q hq hq' => ?_, ih hrest⟩
      obtain ⟨cut', hmem, hcut'⟩ := hcuts.exists_of_mem_right hother
      obtain ⟨harea, u, v, w, -, -, -, hone, hpoint, hcond⟩ := hcut.interior hq
      obtain ⟨-, u', v', w', -, -, -, hone', hpoint', hcond'⟩ := hcut'.interior hq'
      obtain ⟨rfl, rfl, rfl⟩ := weights_unique harea hone hone' (hpoint.symm.trans hpoint')
      exact hfirst cut' hmem u v w hcond hcond'

theorem interior_rotate {q : Point3 F} : t.rotate.Interior q ↔ t.Interior q := by
  simp only [Triangle.Interior, areaVector_rotate, weighted_rotate]
  constructor
  · rintro ⟨harea, u, v, w, hu, hv, hw, hsum, hpoint⟩
    exact ⟨harea, w, u, v, hw, hu, hv, by rw [← hsum]; ring, hpoint⟩
  · rintro ⟨harea, u, v, w, hu, hv, hw, hsum, hpoint⟩
    exact ⟨harea, v, w, u, hv, hw, hu, by rw [← hsum]; ring, hpoint⟩

theorem dissects_of_rotate (h : Dissects F Triangle.Interior Triangle.areaVector t.rotate parts) :
    Dissects F Triangle.Interior Triangle.areaVector t parts where
  shares := by
    obtain ⟨shares, hshares, hsum⟩ := h.shares
    rw [HasShares, areaVector_rotate] at hshares
    exact ⟨shares, hshares, hsum⟩
  inside := fun part hpart q hq => interior_rotate.mp (h.inside part hpart q hq)
  disjoint := h.disjoint

/-! ### The splits -/

variable [IsStrictOrderedRing F]

section

omit [LinearOrder F] [IsStrictOrderedRing F]

theorem cornerV0 (t : Triangle F) : t.v0 = t.weighted 1 0 0 := by
  simp [Triangle.weighted]

theorem cornerV1 (t : Triangle F) : t.v1 = t.weighted 0 1 0 := by
  simp [Triangle.weighted]

theorem cornerV2 (t : Triangle F) : t.v2 = t.weighted 0 0 1 := by
  simp [Triangle.weighted]

/-- The middle of two points has the mean of their weights. -/
theorem midpoint_weighted (t : Triangle F) (u v w u' v' w' : F) :
    midpoint (t.weighted u v w) (t.weighted u' v' w') =
      t.weighted ((u + u') / 2) ((v + v') / 2) ((w + w') / 2) := by
  simp only [midpoint, Triangle.weighted, Point3.mk.injEq]
  exact ⟨by ring, by ring, by ring⟩

end

/-- Corners with these weights make up the share of the triangle that their determinant gives. -/
def HasShare (a0 a1 a2 b0 b1 b2 c0 c1 c2 share : F) : Prop :=
  a0 + a1 + a2 = 1 ∧ b0 + b1 + b2 = 1 ∧ c0 + c1 + c2 = 1 ∧ 0 < share ∧
    share = (b1 - a1) * (c2 - a2) - (b2 - a2) * (c1 - a1)

omit [IsStrictOrderedRing F] in
theorem cutsOff_of_weights {a0 a1 a2 b0 b1 b2 c0 c1 c2 share : F} {cond : F → F → F → Prop}
    (h : HasShare a0 a1 a2 b0 b1 b2 c0 c1 c2 share)
    (hinner : ∀ u v w, 0 < u → 0 < v → 0 < w → u + v + w = 1 →
      0 < u * a0 + v * b0 + w * c0 ∧ 0 < u * a1 + v * b1 + w * c1 ∧
        0 < u * a2 + v * b2 + w * c2 ∧
        cond (u * a0 + v * b0 + w * c0) (u * a1 + v * b1 + w * c1) (u * a2 + v * b2 + w * c2)) :
    CutsOff t ⟨t.weighted a0 a1 a2, t.weighted b0 b1 b2, t.weighted c0 c1 c2⟩ (share, cond) where
  pos := h.2.2.2.1
  area := by
    obtain ⟨ha, hb, hc, -, hshare⟩ := h
    obtain rfl : a0 = 1 - a1 - a2 := by linear_combination ha
    obtain rfl : b0 = 1 - b1 - b2 := by linear_combination hb
    obtain rfl : c0 = 1 - c1 - c2 := by linear_combination hc
    rw [hshare]
    refine Prod.ext ?_ (Prod.ext ?_ ?_) <;>
    · simp only [Triangle.areaVector, Triangle.weighted, Prod.smul_fst, Prod.smul_snd,
        smul_eq_mul]
      ring
  inner := by
    obtain ⟨ha, hb, hc, -, -⟩ := h
    intro u v w hu hv hw hsum
    obtain ⟨hpu, hpv, hpw, hcond⟩ := hinner u v w hu hv hw hsum
    refine ⟨_, _, _, hpu, hpv, hpw, ?_, ?_, hcond⟩
    · linear_combination hsum + u * ha + v * hb + w * hc
    · simp only [Triangle.weighted, Point3.mk.injEq]
      exact ⟨by ring, by ring, by ring⟩

/-- The halves on both sides of the line from the first corner to the middle of the third side. -/
theorem dissects_two (t : Triangle F) :
    Dissects F Triangle.Interior Triangle.areaVector t
      [⟨t.v0, t.v1, midpoint t.v1 t.v2⟩, ⟨midpoint t.v1 t.v2, t.v2, t.v0⟩] := by
  rw [cornerV0, cornerV1, cornerV2, midpoint_weighted]
  refine dissects_of_cutsOff [(1 / 2, fun _ v w => w < v), (1 / 2, fun _ v w => v < w)]
    (.cons ?_ (.cons ?_ .nil)) (by norm_num) ?_
  iterate 2
    · refine cutsOff_of_weights (by norm_num [HasShare]) fun u v w hu hv hw _ => ?_
      refine ⟨?_, ?_, ?_, ?_⟩ <;> linarith
  · simp only [List.pairwise_cons, List.forall_mem_cons]
    exact ⟨⟨fun u v w hcond => hcond.not_gt, by simp⟩, by simp, .nil⟩

/-- The corner between the first two middles, and the halves of the rest. -/
theorem dissects_three (t : Triangle F) :
    Dissects F Triangle.Interior Triangle.areaVector t
      [⟨t.v0, midpoint t.v0 t.v1, midpoint t.v0 t.v2⟩,
        ⟨midpoint t.v0 t.v1, t.v1, midpoint t.v0 t.v2⟩, ⟨t.v1, t.v2, midpoint t.v0 t.v2⟩] := by
  rw [cornerV0, cornerV1, cornerV2, midpoint_weighted, midpoint_weighted]
  refine dissects_of_cutsOff [(1 / 4, fun u _ _ => 1 / 2 < u),
      (1 / 4, fun u _ w => u < 1 / 2 ∧ w < u), (1 / 2, fun u _ w => u < 1 / 2 ∧ u < w)]
    (.cons ?_ (.cons ?_ (.cons ?_ .nil))) (by norm_num) ?_
  iterate 3
    · refine cutsOff_of_weights (by norm_num [HasShare]) fun u v w hu hv hw _ => ?_
      refine ⟨?_, ?_, ?_, ?_⟩ <;> (try constructor) <;> linarith
  · simp only [List.pairwise_cons, List.forall_mem_cons]
    refine ⟨⟨fun u v w h h' => h.not_gt h'.1, fun u v w h h' => h.not_gt h'.1, by simp⟩,
      ⟨fun u v w h h' => h.2.not_gt h'.2, by simp⟩, by simp, .nil⟩

/-- The three corners and the middle. -/
theorem dissects_four (t : Triangle F) :
    Dissects F Triangle.Interior Triangle.areaVector t
      [⟨t.v0, midpoint t.v0 t.v1, midpoint t.v2 t.v0⟩,
        ⟨midpoint t.v0 t.v1, t.v1, midpoint t.v1 t.v2⟩,
        ⟨midpoint t.v1 t.v2, t.v2, midpoint t.v2 t.v0⟩,
        ⟨midpoint t.v0 t.v1, midpoint t.v1 t.v2, midpoint t.v2 t.v0⟩] := by
  rw [cornerV0, cornerV1, cornerV2, midpoint_weighted, midpoint_weighted, midpoint_weighted]
  refine dissects_of_cutsOff [(1 / 4, fun u _ _ => 1 / 2 < u),
      (1 / 4, fun u v _ => u < 1 / 2 ∧ 1 / 2 < v),
      (1 / 4, fun u v w => u < 1 / 2 ∧ v < 1 / 2 ∧ 1 / 2 < w),
      (1 / 4, fun u v w => u < 1 / 2 ∧ v < 1 / 2 ∧ w < 1 / 2)]
    (.cons ?_ (.cons ?_ (.cons ?_ (.cons ?_ .nil)))) (by norm_num) ?_
  iterate 4
    · refine cutsOff_of_weights (by norm_num [HasShare]) fun u v w hu hv hw _ => ?_
      refine ⟨?_, ?_, ?_, ?_⟩ <;> (try refine ⟨?_, ?_⟩) <;> (try refine ⟨?_, ?_⟩) <;> linarith
  · simp only [List.pairwise_cons, List.forall_mem_cons]
    exact ⟨⟨fun u v w h h' => h.not_gt h'.1, fun u v w h h' => h.not_gt h'.1,
        fun u v w h h' => h.not_gt h'.1, by simp⟩,
      ⟨fun u v w h h' => h.2.not_gt h'.2.1, fun u v w h h' => h.2.not_gt h'.2.1, by simp⟩,
      ⟨fun u v w h h' => h.2.2.not_gt h'.2.2, by simp⟩, by simp, .nil⟩

/-! ### The children of a split -/

/-- The triangle that begins with the corner of this index. -/
def Triangle.turned (t : Triangle F) : Nat → Triangle F
  | 0 => t
  | 1 => t.rotate
  | _ => t.rotate.rotate

section

omit [LinearOrder F] [IsStrictOrderedRing F]

theorem splitTriangleStrokes_two (hside : side < 3) :
    splitTriangleStrokes t 1 side =
      .ok [⟨(t.turned side).v0, (t.turned side).v1, midpoint (t.turned side).v1 (t.turned side).v2⟩,
        ⟨midpoint (t.turned side).v1 (t.turned side).v2, (t.turned side).v2, (t.turned side).v0⟩] := by
  interval_cases side <;> rfl

theorem splitTriangleStrokes_three (hside : side < 3) :
    splitTriangleStrokes t 2 side =
      .ok [⟨(t.turned side).v0, midpoint (t.turned side).v0 (t.turned side).v1,
          midpoint (t.turned side).v0 (t.turned side).v2⟩,
        ⟨midpoint (t.turned side).v0 (t.turned side).v1, (t.turned side).v1,
          midpoint (t.turned side).v0 (t.turned side).v2⟩,
        ⟨(t.turned side).v1, (t.turned side).v2, midpoint (t.turned side).v0 (t.turned side).v2⟩] := by
  interval_cases side <;> rfl

end

omit [IsStrictOrderedRing F] in
theorem dissects_of_turned
    (h : Dissects F Triangle.Interior Triangle.areaVector (t.turned side) parts) :
    Dissects F Triangle.Interior Triangle.areaVector t parts := by
  match side with
  | 0 => exact h
  | 1 => exact dissects_of_rotate h
  | _ + 2 => exact dissects_of_rotate (dissects_of_rotate h)

end Geometry

/-! ### The leaves of a tree -/

/-- The special sides of a tree name a corner. -/
def PaintNode.SidesFit : PaintNode → Prop
  | .leaf _ => True
  | .two side c0 c1 => side < 3 ∧ c0.SidesFit ∧ c1.SidesFit
  | .three side c0 c1 c2 => side < 3 ∧ c0.SidesFit ∧ c1.SidesFit ∧ c2.SidesFit
  | .four c0 c1 c2 c3 => c0.SidesFit ∧ c1.SidesFit ∧ c2.SidesFit ∧ c3.SidesFit

section Leaves

variable {F : Type} [Field F] [LinearOrder F] [IsStrictOrderedRing F]

theorem PaintNode.dissects_leaves {tree : PaintNode} (hfit : tree.SidesFit) (facet : Triangle F)
    (position : Nat) :
    Dissects F Triangle.Interior Triangle.areaVector facet
      ((tree.leaves facet position).map PaintLeaf.triangle) := by
  induction tree generalizing facet position with
  | leaf state => exact Dissects.self facet
  | two side c0 c1 ih0 ih1 =>
    obtain ⟨hside, hfit0, hfit1⟩ := hfit
    have hsplit := (dissects_of_turned (dissects_two (facet.turned side))).reverse.flatten
      (.cons (ih1 hfit1 _ (position + 1)) (.cons (ih0 hfit0 _ (position + 1 + c1.digits.length))
        .nil))
    simpa [PaintNode.leaves, splitTriangleStrokes_two hside] using hsplit
  | three side c0 c1 c2 ih0 ih1 ih2 =>
    obtain ⟨hside, hfit0, hfit1, hfit2⟩ := hfit
    have hsplit := (dissects_of_turned (dissects_three (facet.turned side))).reverse.flatten
      (.cons (ih2 hfit2 _ (position + 1)) (.cons (ih1 hfit1 _ (position + 1 + c2.digits.length))
        (.cons (ih0 hfit0 _ (position + 1 + c2.digits.length + c1.digits.length)) .nil)))
    simpa [PaintNode.leaves, splitTriangleStrokes_three hside] using hsplit
  | four c0 c1 c2 c3 ih0 ih1 ih2 ih3 =>
    obtain ⟨hfit0, hfit1, hfit2, hfit3⟩ := hfit
    have hsplit := (dissects_four facet).reverse.flatten
      (.cons (ih3 hfit3 _ (position + 1)) (.cons (ih2 hfit2 _ (position + 1 + c3.digits.length))
        (.cons (ih1 hfit1 _ (position + 1 + c3.digits.length + c2.digits.length))
          (.cons (ih0 hfit0 _
            (position + 1 + c3.digits.length + c2.digits.length + c1.digits.length)) .nil))))
    simpa [PaintNode.leaves, splitTriangleStrokes] using hsplit

end Leaves

/-! ### The walk -/

section Walk

variable {F : Type} [Field F]

/-- A special side that is accepted names a corner. -/
theorem side_lt_of_split {t : Triangle F} {splitType side : Nat} (htype : splitType ≠ 3)
    {children : List (Triangle F)} (h : splitTriangleStrokes t splitType side = .ok children) :
    side < 3 := by
  by_contra hside
  have hcorner : t.corner side = none := by
    rw [Triangle.corner, List.getElem?_eq_none_iff]
    simpa using hside
  rw [splitTriangleStrokes, if_neg htype, hcorner] at h
  cases h

/-- What an accepted walk has read and put out: the digits of a tree, and its painted leaves. -/
structure Reads (nibbles : List Nat) (facet : Triangle F)
    (walk walk' : Walk (List (Triangle F × Nat)) SplitFailure) (tree : PaintNode) : Prop where
  fit : tree.SidesFit
  stream : tree.digits <+: nibbles.drop walk.pos
  pos : walk'.pos = walk.pos + tree.digits.length
  out : walk'.out = walk.out ++ paintedLeaves (tree.leaves facet walk.pos)

theorem prefix_append_of_drop {l l' all : List Nat} {n : Nat} (h : l <+: all.drop n)
    (h' : l' <+: all.drop (n + l.length)) : l ++ l' <+: all.drop n := by
  obtain ⟨rest, hrest⟩ := h
  obtain ⟨rest', hrest'⟩ := h'
  refine ⟨rest', ?_⟩
  rw [← List.drop_drop, ← hrest, List.drop_left] at hrest'
  rw [← hrest, ← hrest', List.append_assoc]

theorem drop_of_getElem? {l : List Nat} {n a : Nat} (h : l[n]? = some a) :
    l.drop n = a :: l.drop (n + 1) := by
  obtain ⟨hn, rfl⟩ := List.getElem?_eq_some_iff.mp h
  exact List.drop_eq_getElem_cons hn

omit [Field F] in
theorem paintedLeaves_append (l l' : List (PaintLeaf F)) :
    paintedLeaves (l ++ l') = paintedLeaves l ++ paintedLeaves l' := by
  simp [paintedLeaves]

variable {nibbles : List Nat} {walk : Walk (List (Triangle F × Nat)) SplitFailure}

theorem exists_reads_leaf (hsmall : ∀ n ∈ nibbles, n < 16) {facet : Triangle F} {nibble : Nat}
    (hnibble : nibbles[walk.pos]? = some nibble) (hleaf : nibble % 4 = 0)
    (h : (Walk.readLeaf nibbles (nibble / 4) (strokeVisitor.leaf facet)
      { walk with pos := walk.pos + 1 }).failure = none) :
    ∃ tree, Reads nibbles facet walk (Walk.readLeaf nibbles (nibble / 4)
      (strokeVisitor.leaf facet) { walk with pos := walk.pos + 1 }) tree := by
  have hlt := hsmall nibble (List.mem_of_getElem? hnibble)
  have hput : ∀ state, strokeVisitor.leaf facet state walk.out =
      walk.out ++ paintedLeaves [⟨walk.pos, facet, state⟩] := by
    intro state
    by_cases hstate : state = 0
    · simp [strokeVisitor, paintedLeaves, hstate]
    · simp [strokeVisitor, paintedLeaves, hstate]
  rw [Walk.readLeaf] at h ⊢
  split_ifs at h ⊢ with hextended
  · dsimp only at h ⊢
    cases hext : nibbles[walk.pos + 1]? with
    | none =>
      rw [hext] at h
      cases h
    | some ext =>
      obtain rfl : nibble = 12 := by omega
      refine ⟨.leaf (ext + 3), trivial, ?_, ?_, hput (ext + 3)⟩
      · rw [drop_of_getElem? hnibble, drop_of_getElem? hext]
        exact ⟨nibbles.drop (walk.pos + 1 + 1), by simp [PaintNode.digits]⟩
      · simp [PaintNode.digits]
  · have hstate : nibble / 4 < 3 := by omega
    refine ⟨.leaf (nibble / 4), trivial, ?_, ?_, hput (nibble / 4)⟩
    · rw [drop_of_getElem? hnibble, PaintNode.digits, if_pos hstate,
        show 4 * (nibble / 4) = nibble by omega]
      exact ⟨_, rfl⟩
    · simp [PaintNode.digits, hstate]

/-- The children of a split are read one after the other. -/
inductive ReadsAll (nibbles : List Nat) : List (Triangle F) →
    Walk (List (Triangle F × Nat)) SplitFailure → Walk (List (Triangle F × Nat)) SplitFailure →
    List PaintNode → Prop
  | nil {walk : Walk (List (Triangle F × Nat)) SplitFailure} : ReadsAll nibbles [] walk walk []
  | cons {facet : Triangle F} {facets : List (Triangle F)}
      {walk walk' walk'' : Walk (List (Triangle F × Nat)) SplitFailure} {tree : PaintNode}
      {trees : List PaintNode} : Reads nibbles facet walk walk' tree →
      ReadsAll nibbles facets walk' walk'' trees →
      ReadsAll nibbles (facet :: facets) walk walk'' (tree :: trees)

theorem exists_readsAll {next : Triangle F → Walk (List (Triangle F × Nat)) SplitFailure →
      Walk (List (Triangle F × Nat)) SplitFailure}
    (hnext : ∀ facet walk, (next facet walk).failure = none →
      ∃ tree, Reads nibbles facet walk (next facet walk) tree) {facets : List (Triangle F)}
    (h : (facets.foldl (fun walk child => walk.andThen (next child)) walk).failure = none) :
    ∃ trees, ReadsAll nibbles facets walk
      (facets.foldl (fun walk child => walk.andThen (next child)) walk) trees := by
  induction facets generalizing walk with
  | nil => exact ⟨[], .nil⟩
  | cons facet facets ih =>
    -- A walk that failed before the end would have stayed so.
    have hgoes : ∀ (facets : List (Triangle F)) (walk : Walk (List (Triangle F × Nat)) SplitFailure),
        (facets.foldl (fun walk child => walk.andThen (next child)) walk).failure = none →
          walk.failure = none := by
      intro facets walk h
      cases hfailed : walk.failure with
      | none => rfl
      | some e =>
        rw [children_of_failure facets (by rw [hfailed]; rfl), hfailed] at h
        cases h
    have hfirst : walk.andThen (next facet) = next facet walk := by
      rw [Walk.andThen, hgoes _ _ h]
      rfl
    rw [List.foldl_cons, hfirst] at h ⊢
    obtain ⟨tree, htree⟩ := hnext facet walk (hgoes _ _ h)
    obtain ⟨trees, htrees⟩ := ih h
    exact ⟨tree :: trees, .cons htree htrees⟩

section Split

variable {nibbles : List Nat} {facet : Triangle F}
  {walk walk' : Walk (List (Triangle F × Nat)) SplitFailure} {nibble : Nat}
  (hnibble : nibbles[walk.pos]? = some nibble)
include hnibble

variable {t0 t1 : Triangle F} {trees : List PaintNode}

theorem reads_two {side : Nat} (htype : nibble = 4 * side + 1) (hside : side < 3)
    (hsplit : splitTriangleStrokes facet 1 side = .ok [t0, t1])
    (h : ReadsAll nibbles [t1, t0] { walk with pos := walk.pos + 1 } walk' trees) :
    ∃ tree, Reads nibbles facet walk walk' tree := by
  rcases h with _ | @⟨_, _, _, walk1, _, c1, _, h1, _ | @⟨_, _, _, _, _, c0, _, h0, _ | _⟩⟩
  have hpos1 : walk1.pos = walk.pos + 1 + c1.digits.length := h1.pos
  refine ⟨.two side c0 c1, ⟨hside, h0.fit, h1.fit⟩, ?_, ?_, ?_⟩
  · rw [drop_of_getElem? hnibble, htype, PaintNode.digits, List.prefix_cons_inj]
    exact prefix_append_of_drop h1.stream (hpos1 ▸ h0.stream)
  · rw [h0.pos, hpos1, PaintNode.digits, List.length_cons, List.length_append]
    omega
  · rw [h0.out, h1.out, hpos1, PaintNode.leaves, hsplit, paintedLeaves_append, List.append_assoc]

theorem reads_three {side : Nat} (htype : nibble = 4 * side + 2) (hside : side < 3)
    {t2 : Triangle F} (hsplit : splitTriangleStrokes facet 2 side = .ok [t0, t1, t2])
    (h : ReadsAll nibbles [t2, t1, t0] { walk with pos := walk.pos + 1 } walk' trees) :
    ∃ tree, Reads nibbles facet walk walk' tree := by
  rcases h with _ | @⟨_, _, _, walk2, _, c2, _, h2, _ | @⟨_, _, _, walk1, _, c1, _, h1,
    _ | @⟨_, _, _, _, _, c0, _, h0, _ | _⟩⟩⟩
  have hpos2 : walk2.pos = walk.pos + 1 + c2.digits.length := h2.pos
  have hpos1 : walk1.pos = walk.pos + 1 + c2.digits.length + c1.digits.length := by
    rw [h1.pos, hpos2]
  refine ⟨.three side c0 c1 c2, ⟨hside, h0.fit, h1.fit, h2.fit⟩, ?_, ?_, ?_⟩
  · rw [drop_of_getElem? hnibble, htype, PaintNode.digits, List.prefix_cons_inj]
    have hrest := prefix_append_of_drop (hpos2 ▸ h1.stream) (hpos1 ▸ h0.stream)
    exact prefix_append_of_drop h2.stream hrest
  · rw [h0.pos, hpos1, PaintNode.digits, List.length_cons, List.length_append,
      List.length_append]
    omega
  · rw [h0.out, h1.out, h2.out, hpos1, hpos2, PaintNode.leaves, hsplit, paintedLeaves_append,
      paintedLeaves_append]
    simp only [List.append_assoc]

theorem reads_four (htype : nibble = 3) {t2 t3 : Triangle F}
    (hsplit : splitTriangleStrokes facet 3 0 = .ok [t0, t1, t2, t3])
    (h : ReadsAll nibbles [t3, t2, t1, t0] { walk with pos := walk.pos + 1 } walk' trees) :
    ∃ tree, Reads nibbles facet walk walk' tree := by
  rcases h with _ | @⟨_, _, _, walk3, _, c3, _, h3, _ | @⟨_, _, _, walk2, _, c2, _, h2,
    _ | @⟨_, _, _, walk1, _, c1, _, h1, _ | @⟨_, _, _, _, _, c0, _, h0, _ | _⟩⟩⟩⟩
  have hpos3 : walk3.pos = walk.pos + 1 + c3.digits.length := h3.pos
  have hpos2 : walk2.pos = walk.pos + 1 + c3.digits.length + c2.digits.length := by
    rw [h2.pos, hpos3]
  have hpos1 : walk1.pos =
      walk.pos + 1 + c3.digits.length + c2.digits.length + c1.digits.length := by
    rw [h1.pos, hpos2]
  refine ⟨.four c0 c1 c2 c3, ⟨h0.fit, h1.fit, h2.fit, h3.fit⟩, ?_, ?_, ?_⟩
  · rw [drop_of_getElem? hnibble, htype, PaintNode.digits, List.prefix_cons_inj]
    have hlast := prefix_append_of_drop (hpos2 ▸ h1.stream) (hpos1 ▸ h0.stream)
    have hrest := prefix_append_of_drop (hpos3 ▸ h2.stream) hlast
    exact prefix_append_of_drop h3.stream hrest
  · rw [h0.pos, hpos1, PaintNode.digits, List.length_cons, List.length_append,
      List.length_append, List.length_append]
    omega
  · rw [h0.out, h1.out, h2.out, h3.out, hpos1, hpos2, hpos3, PaintNode.leaves, hsplit,
      paintedLeaves_append, paintedLeaves_append, paintedLeaves_append]
    simp only [List.append_assoc]

end Split

theorem exists_reads (hsmall : ∀ n ∈ nibbles, n < 16) {levels : Nat} {facet : Triangle F}
    (h : (descend strokeVisitor nibbles levels facet walk).failure = none) :
    ∃ tree, Reads nibbles facet walk (descend strokeVisitor nibbles levels facet walk) tree := by
  induction levels generalizing facet walk with
  | zero => cases h
  | succ levels ih =>
    rw [descend] at h ⊢
    cases hnibble : nibbles[walk.pos]? with
    | none =>
      rw [hnibble] at h
      cases h
    | some nibble =>
      rw [hnibble] at h
      dsimp only at h ⊢
      split_ifs at h ⊢ with hleaf
      · exact exists_reads_leaf hsmall hnibble hleaf h
      · cases hsplit : splitTriangleStrokes facet (nibble % 4) (nibble / 4) with
        | error e =>
          simp only [strokeVisitor, hsplit] at h
          cases h
        | ok children =>
          simp only [strokeVisitor, hsplit, Except.map] at h ⊢
          obtain ⟨trees, htrees⟩ := exists_readsAll (fun _ _ => ih) h
          have htype : nibble % 4 = 1 ∨ nibble % 4 = 2 ∨ nibble % 4 = 3 := by omega
          rcases htype with htype | htype | htype
          · rw [htype] at hsplit
            have hside := side_lt_of_split (by decide) hsplit
            have hchildren := hsplit.symm.trans (splitTriangleStrokes_two hside)
            cases hchildren
            exact reads_two hnibble (by omega) hside hsplit htrees
          · rw [htype] at hsplit
            have hside := side_lt_of_split (by decide) hsplit
            have hchildren := hsplit.symm.trans (splitTriangleStrokes_three hside)
            cases hchildren
            exact reads_three hnibble (by omega) hside hsplit htrees
          · rw [htype] at hsplit
            have hside : nibble / 4 = 0 := by
              by_contra hside
              rw [splitTriangleStrokes, if_pos rfl, if_pos hside] at hsplit
              cases hsplit
            rw [hside] at hsplit
            cases hsplit
            exact reads_four hnibble (by omega) rfl htrees

end Walk

/-! ### The tree of a stream -/

theorem digits_leaf (state : Nat) : ∃ digit rest, (PaintNode.leaf state).digits = digit :: rest ∧
    digit % 4 = 0 := by
  rw [PaintNode.digits]
  split_ifs
  · exact ⟨_, _, rfl, by omega⟩
  · exact ⟨_, _, rfl, by omega⟩

/-- The digits of a leaf begin with a digit that is no split. -/
theorem head_digits_leaf {state digit : Nat} {rest tail : List Nat}
    (h : (PaintNode.leaf state).digits ++ rest = digit :: tail) : digit % 4 = 0 := by
  obtain ⟨first, more, hleaf, hmod⟩ := digits_leaf state
  rw [hleaf] at h
  exact (List.cons.inj h).1 ▸ hmod

/-- The digits say where a tree ends, and which tree it is. -/
theorem digits_inj {tree other : PaintNode} {rest rest' : List Nat}
    (h : tree.digits ++ rest = other.digits ++ rest') : tree = other ∧ rest = rest' := by
  induction tree generalizing other rest rest' with
  | leaf state =>
    cases other with
    | leaf state' =>
      simp only [PaintNode.digits] at h
      split_ifs at h <;> simp only [List.cons_append, List.nil_append, List.cons.injEq] at h
      · exact ⟨by rw [show state = state' by omega], h.2⟩
      · omega
      · omega
      · exact ⟨by rw [show state = state' by omega], h.2.2⟩
    | two | three | four =>
      have hhead := head_digits_leaf h
      omega
  | two side c0 c1 ih0 ih1 =>
    cases other with
    | two side' d0 d1 =>
      simp only [PaintNode.digits, List.cons_append, List.append_assoc, List.cons.injEq] at h
      obtain ⟨hhead, htail⟩ := h
      obtain ⟨rfl, htail0⟩ := ih1 htail
      obtain ⟨rfl, rfl⟩ := ih0 htail0
      exact ⟨by rw [show side = side' by omega], rfl⟩
    | leaf state =>
      have hhead := head_digits_leaf h.symm
      omega
    | three | four =>
      have hhead := (List.cons.inj h).1
      omega
  | three side c0 c1 c2 ih0 ih1 ih2 =>
    cases other with
    | three side' d0 d1 d2 =>
      simp only [PaintNode.digits, List.cons_append, List.append_assoc, List.cons.injEq] at h
      obtain ⟨hhead, htail⟩ := h
      obtain ⟨rfl, htail1⟩ := ih2 htail
      obtain ⟨rfl, htail0⟩ := ih1 htail1
      obtain ⟨rfl, rfl⟩ := ih0 htail0
      exact ⟨by rw [show side = side' by omega], rfl⟩
    | leaf state =>
      have hhead := head_digits_leaf h.symm
      omega
    | two | four =>
      have hhead := (List.cons.inj h).1
      omega
  | four c0 c1 c2 c3 ih0 ih1 ih2 ih3 =>
    cases other with
    | four d0 d1 d2 d3 =>
      simp only [PaintNode.digits, List.cons_append, List.append_assoc, List.cons.injEq] at h
      obtain ⟨-, htail⟩ := h
      obtain ⟨rfl, htail2⟩ := ih3 htail
      obtain ⟨rfl, htail1⟩ := ih2 htail2
      obtain ⟨rfl, htail0⟩ := ih1 htail1
      obtain ⟨rfl, rfl⟩ := ih0 htail0
      exact ⟨rfl, rfl⟩
    | leaf state =>
      have hhead := head_digits_leaf h.symm
      omega
    | two | three =>
      have hhead := (List.cons.inj h).1
      omega

theorem eq_of_digits_prefix {tree other : PaintNode} {nibbles : List Nat}
    (h : tree.digits <+: nibbles) (hother : other.digits <+: nibbles) : other = tree := by
  obtain ⟨rest, rfl⟩ := h
  obtain ⟨rest', hrest⟩ := hother
  exact (digits_inj hrest).1

section Places

variable {F : Type} [Field F] {nibbles : List Nat} {start middle stop : Nat}
  {leaves leaves' : List (PaintLeaf F)}

/-- Leaves in the order of their digits, which stand between two positions of the stream. -/
structure Placed (nibbles : List Nat) (start stop : Nat) (leaves : List (PaintLeaf F)) : Prop where
  within : ∀ leaf ∈ leaves, start ≤ leaf.position ∧ leaf.position < stop
  ascending : (leaves.map PaintLeaf.position).Pairwise (· < ·)
  read : ∀ leaf ∈ leaves, (PaintNode.leaf leaf.state).digits <+: nibbles.drop leaf.position

omit [Field F] in
theorem Placed.append (h : Placed nibbles start middle leaves)
    (h' : Placed nibbles middle stop leaves') (hstart : start ≤ middle) (hstop : middle ≤ stop) :
    Placed nibbles start stop (leaves ++ leaves') where
  within := by
    intro leaf hleaf
    rcases List.mem_append.mp hleaf with hleaf | hleaf
    · have hbounds := h.within leaf hleaf
      omega
    · have hbounds := h'.within leaf hleaf
      omega
  ascending := by
    rw [List.map_append, List.pairwise_append]
    refine ⟨h.ascending, h'.ascending, ?_⟩
    intro a ha b hb
    obtain ⟨leaf, hleaf, rfl⟩ := List.mem_map.mp ha
    obtain ⟨leaf', hleaf', rfl⟩ := List.mem_map.mp hb
    exact (h.within leaf hleaf).2.trans_le (h'.within leaf' hleaf').1
  read := by
    intro leaf hleaf
    rcases List.mem_append.mp hleaf with hleaf | hleaf
    · exact h.read leaf hleaf
    · exact h'.read leaf hleaf

omit [Field F] in
/-- The digit of a split stands before its leaves. -/
theorem Placed.behind (h : Placed nibbles (start + 1) stop leaves) :
    Placed nibbles start stop leaves where
  within := fun leaf hleaf => ⟨(Nat.le_succ _).trans (h.within leaf hleaf).1,
    (h.within leaf hleaf).2⟩
  ascending := h.ascending
  read := h.read

theorem prefix_of_cons {a n : Nat} {l all : List Nat} (h : a :: l <+: all.drop n) :
    l <+: all.drop (n + 1) := by
  obtain ⟨rest, hrest⟩ := h
  exact ⟨rest, by rw [← List.drop_drop, ← hrest]; rfl⟩

theorem prefix_of_append {n : Nat} {l l' all : List Nat} (h : l ++ l' <+: all.drop n) :
    l <+: all.drop n ∧ l' <+: all.drop (n + l.length) := by
  obtain ⟨rest, hrest⟩ := h
  rw [List.append_assoc] at hrest
  exact ⟨⟨_, hrest⟩, rest, by rw [← List.drop_drop, ← hrest, List.drop_left]⟩

theorem PaintNode.placed_leaves {tree : PaintNode} (hfit : tree.SidesFit) (facet : Triangle F)
    {position : Nat} (h : tree.digits <+: nibbles.drop position) :
    Placed nibbles position (position + tree.digits.length) (tree.leaves facet position) := by
  induction tree generalizing facet position with
  | leaf state =>
    refine ⟨?_, List.pairwise_singleton _ _, ?_⟩
    · intro leaf hleaf
      rw [List.mem_singleton.mp hleaf]
      refine ⟨le_rfl, Nat.lt_add_of_pos_right ?_⟩
      obtain ⟨digit, rest, hdigits, -⟩ := digits_leaf state
      rw [hdigits]
      exact Nat.succ_pos _
    · intro leaf hleaf
      rw [List.mem_singleton.mp hleaf]
      exact h
  | two side c0 c1 ih0 ih1 =>
    obtain ⟨hside, hfit0, hfit1⟩ := hfit
    obtain ⟨h1, h0⟩ := prefix_of_append (prefix_of_cons h)
    have hend : position + (PaintNode.two side c0 c1).digits.length =
        position + 1 + c1.digits.length + c0.digits.length := by
      rw [PaintNode.digits, List.length_cons, List.length_append]
      omega
    rw [PaintNode.leaves, splitTriangleStrokes_two hside, hend]
    exact ((ih1 hfit1 _ h1).append (ih0 hfit0 _ h0) (by omega) (by omega)).behind
  | three side c0 c1 c2 ih0 ih1 ih2 =>
    obtain ⟨hside, hfit0, hfit1, hfit2⟩ := hfit
    obtain ⟨h2, hrest⟩ := prefix_of_append (prefix_of_cons h)
    obtain ⟨h1, h0⟩ := prefix_of_append hrest
    have hend : position + (PaintNode.three side c0 c1 c2).digits.length =
        position + 1 + c2.digits.length + c1.digits.length + c0.digits.length := by
      rw [PaintNode.digits, List.length_cons, List.length_append, List.length_append]
      omega
    rw [PaintNode.leaves, splitTriangleStrokes_three hside, hend]
    exact ((ih2 hfit2 _ h2).append ((ih1 hfit1 _ h1).append (ih0 hfit0 _ h0) (by omega)
      (by omega)) (by omega) (by omega)).behind
  | four c0 c1 c2 c3 ih0 ih1 ih2 ih3 =>
    obtain ⟨hfit0, hfit1, hfit2, hfit3⟩ := hfit
    obtain ⟨h3, hrest⟩ := prefix_of_append (prefix_of_cons h)
    obtain ⟨h2, hrest⟩ := prefix_of_append hrest
    obtain ⟨h1, h0⟩ := prefix_of_append hrest
    have hend : position + (PaintNode.four c0 c1 c2 c3).digits.length =
        position + 1 + c3.digits.length + c2.digits.length + c1.digits.length +
          c0.digits.length := by
      rw [PaintNode.digits, List.length_cons, List.length_append, List.length_append,
        List.length_append]
      omega
    rw [PaintNode.leaves, hend]
    exact ((ih3 hfit3 _ h3).append ((ih2 hfit2 _ h2).append ((ih1 hfit1 _ h1).append
      (ih0 hfit0 _ h0) (by omega) (by omega)) (by omega) (by omega)) (by omega) (by omega)).behind

end Places

/-! ### The subdivision of a facet -/

section Result

variable {F : Type} [Field F] [LinearOrder F]

/-- What an accepted stream says: it begins with the digits of one tree, the painted leaves of the
tree are put out in the order of their digits, and the leaves make up the facet. -/
structure Subdivides (nibbles : List Nat) (facet : Triangle F)
    (walk : Walk (List (Triangle F × Nat)) SplitFailure) (tree : PaintNode) : Prop where
  stream : tree.digits <+: nibbles
  unique : ∀ other : PaintNode, other.digits <+: nibbles → other = tree
  visited : walk.out = paintedLeaves (tree.leaves facet 0)
  placed : Placed nibbles 0 walk.pos (tree.leaves facet 0)
  dissects : Dissects F Triangle.Interior Triangle.areaVector facet
    ((tree.leaves facet 0).map PaintLeaf.triangle)
  area : ((tree.leaves facet 0).map fun leaf => leaf.triangle.areaVector).sum = facet.areaVector

/-- A stream that is accepted subdivides the facet. -/
theorem walkTriangleSelectorStrokes_subdivides [IsStrictOrderedRing F] {nibbles : List Nat}
    (hnibbles : ∀ nibble ∈ nibbles, nibble < 16) {facet : Triangle F}
    (haccepted : (walkTriangleSelectorStrokes nibbles MAX_LEVELS facet
      { pos := 0, out := [] }).failure = none) :
    ∃ tree, Subdivides nibbles facet
      (walkTriangleSelectorStrokes nibbles MAX_LEVELS facet { pos := 0, out := [] }) tree := by
  obtain ⟨tree, hreads⟩ := exists_reads hnibbles haccepted
  have hstream : tree.digits <+: nibbles := hreads.stream
  have hdissects := PaintNode.dissects_leaves hreads.fit facet 0
  refine ⟨tree, hstream, fun other => eq_of_digits_prefix hstream, hreads.out, ?_, hdissects, ?_⟩
  · have hplaced := PaintNode.placed_leaves hreads.fit facet hreads.stream
    rwa [← hreads.pos] at hplaced
  · have hsum := hdissects.sum_size
    rwa [List.map_map] at hsum

end Result

/-- A facet in four, with the middle in two. -/
theorem walkTriangleSelectorStrokes_subdivides_unitTriangle :
    ∃ tree, Subdivides [3, 5, 4, 0, 0, 12, 2, 8] unitTriangle
      (walkTriangleSelectorStrokes [3, 5, 4, 0, 0, 12, 2, 8] MAX_LEVELS unitTriangle
        { pos := 0, out := [] }) tree :=
  walkTriangleSelectorStrokes_subdivides (by decide) (by decide +kernel)

end PinchNPrint.Loader
