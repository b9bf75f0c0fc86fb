/-
Where the nearest point of a triangle lies.

A triangle and a query point are given by inner products: of the two edges that leave the first
corner (`uu`, `uv`, `vv`), and of each of them with the query point seen from that corner (`pu`,
`pv`). The point at `s` along the one edge and `t` along the other has the distance `cost s t` to
the query point, up to a constant. Each of the three corners, the three edges and the face has a
test under which a point of it is nearest, and when all tests of corners and edges fail the face
has it (`nearest_face`).
-/

import Mathlib.Algebra.Order.Field.Basic
import Mathlib.Tactic.FieldSimp
import Mathlib.Tactic.LinearCombination
import Mathlib.Tactic.Linarith
import Mathlib.Tactic.Ring
import PinchNPrint.Lib.Numerals

namespace TriangleRegions

/-- The inner products of the edges of a triangle with each other and with a query point. -/
structure Products (F : Type) where
  uu : F
  uv : F
  vv : F
  pu : F
  pv : F

variable {F : Type} [Field F]

namespace Products

/-- The query point against the first edge, seen from the second corner. -/
def bu (g : Products F) : F := g.pu - g.uu

/-- The query point against the second edge, seen from the second corner. -/
def bv (g : Products F) : F := g.pv - g.uv

/-- The query point against the first edge, seen from the third corner. -/
def cu (g : Products F) : F := g.pu - g.uv

/-- The query point against the second edge, seen from the third corner. -/
def cv (g : Products F) : F := g.pv - g.vv

/-- The share of the first corner, times four squared areas. -/
def va (g : Products F) : F := g.bu * g.cv - g.cu * g.bv

/-- The share of the second corner. -/
def vb (g : Products F) : F := g.cu * g.pv - g.pu * g.cv

/-- The share of the third corner. -/
def vc (g : Products F) : F := g.pu * g.bv - g.bu * g.pv

/-- Four squared areas. -/
def area (g : Products F) : F := g.uu * g.vv - g.uv * g.uv

/-- The squared length of the third edge. -/
def ww (g : Products F) : F := g.uu + g.vv - 2 * g.uv

/-- The squared distance of a point of the plane, less that of the first corner. -/
def cost (g : Products F) (s t : F) : F :=
  g.uu * s * s + 2 * g.uv * s * t + g.vv * t * t - 2 * (g.pu * s + g.pv * t)

/-- The triangle with its second and third corner exchanged. -/
def swap (g : Products F) : Products F := ⟨g.vv, g.uv, g.uu, g.pv, g.pu⟩

/-- The triangle seen from its second corner. -/
def turn (g : Products F) : Products F :=
  ⟨g.ww, g.uu - g.uv, g.uu, g.bv - g.bu, -g.bu⟩

theorem va_add_vb_add_vc (g : Products F) : g.va + g.vb + g.vc = g.area := by
  simp only [va, vb, vc, area, bu, bv, cu, cv]
  ring

theorem area_swap (g : Products F) : g.swap.area = g.area := by
  simp only [swap, area]
  ring

theorem area_turn (g : Products F) : g.turn.area = g.area := by
  simp only [turn, area, ww]
  ring

theorem vc_swap (g : Products F) : g.swap.vc = g.vb := by
  simp only [swap, vc, vb, bu, bv, cu, cv]
  ring

theorem vc_turn (g : Products F) : g.turn.vc = g.va := by
  simp only [turn, vc, va, ww, bu, bv, cu, cv]
  ring

end Products

section Ordered

variable [LinearOrder F]

/-- The inner products come from a triangle with an area. -/
structure Proper (g : Products F) : Prop where
  uu_pos : 0 < g.uu
  vv_pos : 0 < g.vv
  area_pos : 0 < g.area

/-- No corner and no edge passes its test. -/
structure Inside (g : Products F) : Prop where
  cornerA : ¬ (g.pu ≤ 0 ∧ g.pv ≤ 0)
  cornerB : ¬ (0 ≤ g.bu ∧ g.bv ≤ g.bu)
  cornerC : ¬ (0 ≤ g.cv ∧ g.cu ≤ g.cv)
  edgeAB : ¬ (g.vc ≤ 0 ∧ 0 ≤ g.pu ∧ g.bu ≤ 0)
  edgeAC : ¬ (g.vb ≤ 0 ∧ 0 ≤ g.pv ∧ g.cv ≤ 0)
  edgeBC : ¬ (g.va ≤ 0 ∧ 0 ≤ g.bv - g.bu ∧ 0 ≤ g.cu - g.cv)

/-- A point of the triangle, and no point of it is nearer. -/
structure Nearest (g : Products F) (s t : F) : Prop where
  nonneg : 0 ≤ s ∧ 0 ≤ t
  sum_le : s + t ≤ 1
  least : ∀ s' t', 0 ≤ s' → 0 ≤ t' → s' + t' ≤ 1 → g.cost s t ≤ g.cost s' t'

variable [IsStrictOrderedRing F] {g : Products F}

theorem Proper.ww_pos (h : Proper g) : 0 < g.ww := by
  have harea : g.turn.area = g.area := g.area_turn
  have hsquare := mul_self_nonneg (g.uu - g.uv)
  have hprod : 0 < g.ww * g.uu := by
    have hpos := h.area_pos
    simp only [Products.turn, Products.area] at harea hpos
    linarith
  exact pos_of_mul_pos_left hprod h.uu_pos.le

omit [IsStrictOrderedRing F] in
theorem Proper.swap (h : Proper g) : Proper g.swap where
  uu_pos := h.vv_pos
  vv_pos := h.uu_pos
  area_pos := by
    rw [g.area_swap]
    exact h.area_pos

theorem Proper.turn (h : Proper g) : Proper g.turn where
  uu_pos := h.ww_pos
  vv_pos := h.uu_pos
  area_pos := by
    rw [g.area_turn]
    exact h.area_pos

/-- What the edges add to a squared length is never negative. -/
theorem Proper.form_nonneg (h : Proper g) (s t : F) :
    0 ≤ g.uu * s * s + 2 * g.uv * s * t + g.vv * t * t := by
  have hsquare := mul_self_nonneg (g.uu * s + g.uv * t)
  have hrest := mul_nonneg h.area_pos.le (mul_self_nonneg t)
  have heq : g.uu * (g.uu * s * s + 2 * g.uv * s * t + g.vv * t * t) =
      (g.uu * s + g.uv * t) * (g.uu * s + g.uv * t) + g.area * (t * t) := by
    simp only [Products.area]
    ring
  exact nonneg_of_mul_nonneg_right (by rw [heq]; exact add_nonneg hsquare hrest) h.uu_pos

/-- No corner lies on the query point's side of the plane through a nearest point: then no point
of the triangle does. -/
theorem nearest_of_slopes (h : Proper g) {s t : F} (ru rv : F) (hs : 0 ≤ s) (ht : 0 ≤ t)
    (hsum : s + t ≤ 1) (hru : ru = g.pu - s * g.uu - t * g.uv)
    (hrv : rv = g.pv - s * g.uv - t * g.vv) (hA : 0 ≤ s * ru + t * rv)
    (hB : ru ≤ s * ru + t * rv) (hC : rv ≤ s * ru + t * rv) : Nearest g s t := by
  refine ⟨⟨hs, ht⟩, hsum, fun s' t' hs' ht' hsum' => ?_⟩
  have hform := h.form_nonneg (s' - s) (t' - t)
  have hB' := mul_le_mul_of_nonneg_left hB hs'
  have hC' := mul_le_mul_of_nonneg_left hC ht'
  have hA' := mul_le_mul_of_nonneg_right hsum' hA
  have hdiff : g.cost s' t' - g.cost s t =
      (g.uu * (s' - s) * (s' - s) + 2 * g.uv * (s' - s) * (t' - t) +
        g.vv * (t' - t) * (t' - t)) + 2 * (s * ru + t * rv - (s' * ru + t' * rv)) := by
    rw [hru, hrv]
    simp only [Products.cost]
    ring
  have hlinear : s' * ru + t' * rv ≤ s * ru + t * rv := by
    calc
      s' * ru + t' * rv ≤ s' * (s * ru + t * rv) + t' * (s * ru + t * rv) := add_le_add hB' hC'
      _ = (s' + t') * (s * ru + t * rv) := by ring
      _ ≤ s * ru + t * rv := by rwa [one_mul] at hA'
  linarith

/-! ### The corners -/

theorem nearest_cornerA (h : Proper g) (hu : g.pu ≤ 0) (hv : g.pv ≤ 0) : Nearest g 0 0 :=
  nearest_of_slopes h _ _ le_rfl le_rfl (by simp) rfl rfl (by simp) (by simpa using hu)
    (by simpa using hv)

theorem nearest_cornerB (h : Proper g) (hu : 0 ≤ g.bu) (hv : g.bv ≤ g.bu) : Nearest g 1 0 :=
  nearest_of_slopes h _ _ zero_le_one le_rfl (by simp) rfl rfl
    (by simpa [Products.bu] using hu) (by simp)
    (by simpa [Products.bu, Products.bv] using hv)

theorem nearest_cornerC (h : Proper g) (hv : 0 ≤ g.cv) (hu : g.cu ≤ g.cv) : Nearest g 0 1 :=
  nearest_of_slopes h _ _ le_rfl zero_le_one (by simp) rfl rfl
    (by simpa [Products.cv] using hv) (by simpa [Products.cu, Products.cv] using hu) (by simp)

/-! ### The edges -/

theorem nearest_edgeAB (h : Proper g) (hvc : g.vc ≤ 0) (hu : 0 ≤ g.pu) (hb : g.bu ≤ 0) :
    Nearest g (g.pu / g.uu) 0 := by
  have hne : g.uu ≠ 0 := h.uu_pos.ne'
  have hslope : g.pv - g.pu / g.uu * g.uv - 0 * g.vv = g.vc / g.uu := by
    simp only [Products.vc, Products.bu, Products.bv]
    field_simp
    ring
  have hle : g.vc / g.uu ≤ 0 := div_nonpos_of_nonpos_of_nonneg hvc h.uu_pos.le
  refine nearest_of_slopes h 0 (g.vc / g.uu) (div_nonneg hu h.uu_pos.le) le_rfl
    ?_ ?_ hslope.symm (by simp) (by simp) (by simpa using hle)
  · rw [add_zero, div_le_one h.uu_pos]
    simpa [Products.bu] using hb
  · field_simp
    ring

theorem nearest_edgeAC (h : Proper g) (hvb : g.vb ≤ 0) (hv : 0 ≤ g.pv) (hc : g.cv ≤ 0) :
    Nearest g 0 (g.pv / g.vv) := by
  have hne : g.vv ≠ 0 := h.vv_pos.ne'
  have hslope : g.pu - 0 * g.uu - g.pv / g.vv * g.uv = g.vb / g.vv := by
    simp only [Products.vb, Products.cu, Products.cv]
    field_simp
    ring
  have hle : g.vb / g.vv ≤ 0 := div_nonpos_of_nonpos_of_nonneg hvb h.vv_pos.le
  refine nearest_of_slopes h (g.vb / g.vv) 0 le_rfl (div_nonneg hv h.vv_pos.le)
    ?_ hslope.symm ?_ (by simp) (by simpa using hle) (by simp)
  · rw [zero_add, div_le_one h.vv_pos]
    simpa [Products.cv] using hc
  · field_simp
    ring

theorem nearest_edgeBC (h : Proper g) (hva : g.va ≤ 0) (hb : 0 ≤ g.bv - g.bu)
    (hc : 0 ≤ g.cu - g.cv) :
    Nearest g (1 - (g.bv - g.bu) / g.ww) ((g.bv - g.bu) / g.ww) := by
  have hne : g.ww ≠ 0 := h.ww_pos.ne'
  have hww : g.ww = g.bv - g.bu + (g.cu - g.cv) := by
    simp only [Products.ww, Products.bu, Products.bv, Products.cu, Products.cv]
    ring
  have hle : (g.bv - g.bu) / g.ww ≤ 1 := by
    rw [div_le_one h.ww_pos]
    linarith
  have hslope : 0 ≤ -g.va / g.ww := div_nonneg (neg_nonneg.mpr hva) h.ww_pos.le
  -- Both edges see the nearest point alike, as much as `va` is below zero.
  have heq : (1 - (g.bv - g.bu) / g.ww) * (-g.va / g.ww) + (g.bv - g.bu) / g.ww * (-g.va / g.ww) =
      -g.va / g.ww := by ring
  refine nearest_of_slopes h (-g.va / g.ww) (-g.va / g.ww)
    (sub_nonneg.mpr hle) (div_nonneg hb h.ww_pos.le) (by simp) ?_ ?_ ?_ ?_ ?_
  · field_simp
    simp only [Products.va, Products.ww, Products.bu, Products.bv, Products.cu, Products.cv]
    ring
  · field_simp
    simp only [Products.va, Products.ww, Products.bu, Products.bv, Products.cu, Products.cv]
    ring
  · rwa [heq]
  · exact heq.ge
  · exact heq.ge

/-! ### The face -/

/-- When no test of a corner or an edge holds, the point lies inside of the first edge. -/
theorem Inside.vc_pos (h : Proper g) (hin : Inside g) : 0 < g.vc := by
  by_contra hvc
  have hcross : g.uu * g.pv ≤ g.uv * g.pu := by
    simp only [Products.vc, Products.bu, Products.bv] at hvc
    linarith
  have harea := h.area_pos
  simp only [Products.area] at harea
  rcases lt_or_ge g.pu 0 with hu | hu
  · -- Behind the first corner: the second edge would have it, or the third corner.
    have hv : 0 < g.pv := by
      by_contra hv
      exact hin.cornerA ⟨hu.le, not_lt.mp hv⟩
    have huv : g.uv < 0 := by
      have hprod := mul_pos h.uu_pos hv
      by_contra huv
      have hle := mul_nonpos_of_nonneg_of_nonpos (not_lt.mp huv) hu.le
      linarith
    have hvb : g.vb ≤ 0 := by
      have hle := mul_le_mul_of_nonneg_left hcross (neg_nonneg.mpr huv.le)
      have hneg := mul_nonpos_of_nonneg_of_nonpos harea.le hu.le
      have heq : g.uu * g.vb = (g.uu * g.vv - g.uv * g.uv) * g.pu +
          (-g.uv * (g.uu * g.pv) - -g.uv * (g.uv * g.pu)) := by
        simp only [Products.vb, Products.cu, Products.cv]
        ring
      by_contra hvb
      have hpos := mul_pos h.uu_pos (not_le.mp hvb)
      linarith
    have hcv : 0 < g.cv := by
      by_contra hcv
      exact hin.edgeAC ⟨hvb, hv.le, not_lt.mp hcv⟩
    have hcu : g.cv < g.cu := by
      by_contra hcu
      exact hin.cornerC ⟨hcv.le, not_lt.mp hcu⟩
    simp only [Products.cu, Products.cv] at hcv hcu
    have hpu : g.uv * g.pu ≤ g.uv * g.uv :=
      mul_le_mul_of_nonpos_left (by linarith) huv.le
    have hpv : g.uu * g.vv ≤ g.uu * g.pv :=
      mul_le_mul_of_nonneg_left (by linarith) h.uu_pos.le
    linarith
  · -- Past the second corner: the third edge would have it, or the third corner.
    have hbu : 0 < g.bu := by
      by_contra hbu
      exact hin.edgeAB ⟨not_lt.mp hvc, hu, not_lt.mp hbu⟩
    have hbv : g.bu < g.bv := by
      by_contra hbv
      exact hin.cornerB ⟨hbu.le, not_lt.mp hbv⟩
    have hshift : g.uu * g.bv ≤ g.uv * g.bu := by
      simp only [Products.bu, Products.bv]
      linarith
    have huv : g.uu < g.uv := by
      by_contra huv
      have hlt := mul_lt_mul_of_pos_left hbv h.uu_pos
      have hle := mul_le_mul_of_nonneg_right (not_lt.mp huv) hbu.le
      linarith
    have hva : g.va ≤ 0 := by
      have hle := mul_le_mul_of_nonneg_left hshift (sub_nonneg.mpr huv.le)
      have hneg := mul_nonneg harea.le hbu.le
      have heq : g.uu * g.va = -((g.uu * g.vv - g.uv * g.uv) * g.bu) +
          ((g.uv - g.uu) * (g.uu * g.bv) - (g.uv - g.uu) * (g.uv * g.bu)) := by
        simp only [Products.va, Products.bu, Products.bv, Products.cu, Products.cv]
        ring
      by_contra hva
      have hpos := mul_pos h.uu_pos (not_le.mp hva)
      linarith
    have hc : g.cu < g.cv := by
      by_contra hc
      exact hin.edgeBC ⟨hva, sub_nonneg.mpr hbv.le, sub_nonneg.mpr (not_lt.mp hc)⟩
    have hcv : g.cv < 0 := by
      by_contra hcv
      exact hin.cornerC ⟨not_lt.mp hcv, hc.le⟩
    simp only [Products.cu, Products.cv] at hc hcv
    simp only [Products.bu, Products.bv] at hbu hbv hshift
    have hleft := mul_lt_mul_of_pos_left (show g.pu < g.uv by linarith) (sub_pos.mpr huv)
    have hright := mul_lt_mul_of_pos_left (show g.pu + g.vv - g.uv < g.pv by linarith) h.uu_pos
    linarith

theorem Inside.swap (hin : Inside g) : Inside g.swap where
  cornerA := fun ⟨hu, hv⟩ => hin.cornerA ⟨hv, hu⟩
  cornerB := fun ⟨hu, hv⟩ => hin.cornerC ⟨hu, hv⟩
  cornerC := fun ⟨hv, hu⟩ => hin.cornerB ⟨hv, hu⟩
  edgeAB := fun ⟨hvc, hrest⟩ => hin.edgeAC ⟨by rwa [← g.vc_swap], hrest⟩
  edgeAC := fun ⟨hvb, hrest⟩ => hin.edgeAB ⟨by rwa [← g.swap.vc_swap] at hvb, hrest⟩
  edgeBC := by
    rintro ⟨hva, hb, hc⟩
    refine hin.edgeBC ⟨?_, hc, hb⟩
    simp only [Products.swap, Products.va, Products.bu, Products.bv, Products.cu, Products.cv]
      at hva ⊢
    linarith

theorem Inside.turn (hin : Inside g) : Inside g.turn where
  cornerA := by
    rintro ⟨hu, hv⟩
    exact hin.cornerB ⟨neg_nonpos.mp hv, sub_nonpos.mp hu⟩
  cornerB := by
    rintro ⟨hu, hv⟩
    refine hin.cornerC ⟨?_, ?_⟩ <;>
    · simp only [Products.turn, Products.ww, Products.bu, Products.bv, Products.cu, Products.cv]
        at hu hv ⊢
      linarith
  cornerC := by
    rintro ⟨hv, hu⟩
    refine hin.cornerA ⟨?_, ?_⟩ <;>
    · simp only [Products.turn, Products.ww, Products.bu, Products.bv, Products.cu, Products.cv]
        at hu hv ⊢
      linarith
  edgeAB := by
    rintro ⟨hvc, hu, hb⟩
    refine hin.edgeBC ⟨by rwa [← g.vc_turn], hu, ?_⟩
    simp only [Products.turn, Products.ww, Products.bu, Products.bv, Products.cu, Products.cv]
      at hb ⊢
    linarith
  edgeAC := by
    rintro ⟨hvb, hv, hc⟩
    refine hin.edgeAB ⟨?_, ?_, neg_nonneg.mp hv⟩
    · simp only [Products.turn, Products.vb, Products.vc, Products.ww, Products.bu, Products.bv,
        Products.cu, Products.cv] at hvb ⊢
      linarith
    · simp only [Products.turn, Products.cv, Products.bu] at hc
      linarith
  edgeBC := by
    rintro ⟨hva, hb, hc⟩
    refine hin.edgeAC ⟨?_, ?_, ?_⟩ <;>
    · simp only [Products.turn, Products.va, Products.vb, Products.ww, Products.bu, Products.bv,
        Products.cu, Products.cv] at hva hb hc ⊢
      linarith

theorem nearest_face (h : Proper g) (hin : Inside g) :
    Nearest g (g.vb / g.area) (g.vc / g.area) := by
  have hne : g.area ≠ 0 := h.area_pos.ne'
  have hvc := hin.vc_pos h
  have hvb : 0 < g.vb := by
    rw [← g.vc_swap]
    exact hin.swap.vc_pos h.swap
  have hva : 0 < g.va := by
    rw [← g.vc_turn]
    exact hin.turn.vc_pos h.turn
  refine nearest_of_slopes h 0 0 (div_nonneg hvb.le h.area_pos.le)
    (div_nonneg hvc.le h.area_pos.le) ?_ ?_ ?_ (by simp) (by simp) (by simp)
  · rw [← add_div, div_le_one h.area_pos, ← g.va_add_vb_add_vc]
    linarith
  · field_simp
    simp only [Products.area, Products.vb, Products.vc, Products.bu, Products.bv, Products.cu,
      Products.cv]
    ring
  · field_simp
    simp only [Products.area, Products.vb, Products.vc, Products.bu, Products.bv, Products.cu,
      Products.cv]
    ring

end Ordered

end TriangleRegions
