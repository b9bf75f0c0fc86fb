/-
What simplifying a contour keeps (`slicer-core`: `triangle_mesh_slicer.rs`).

`simplify_polygon_points` takes out the first point that is collinear with its neighbours along
the closed contour, until there is none. The test is a parameter here: the code's own works on
64-bit integers that wrap, `isCollinearExact` on unbounded ones, and on coordinates up to 2^30
the two agree (`simplifyPolygonPoints_eq_exact`).

A point that lies on the line through its neighbours adds nothing to the signed area, wherever
along the contour it is, so no round changes the area (`signedArea_eraseIdx`).
-/

import PinchNPrint.Lib.Cyclic
import PinchNPrint.Mesh.Chaining

namespace PinchNPrint.Mesh

open Region (Point2)

/-- `is_collinear`, in unbounded integers. -/
def isCollinearExact (a b c : Point2) : Bool :=
  (b.x - a.x) * (c.y - b.y) - (b.y - a.y) * (c.x - b.x) == 0

section Rounds

variable (collinear : Point2 → Point2 → Point2 → Bool)

/-- The first point that passes the test with its neighbours. -/
def firstOnLine (points : List Point2) : Option Nat :=
  let neighbours := (points.rotate (points.length - 1)).zip (points.zip (points.rotate 1))
  neighbours.findIdx? fun (previous, current, next) => collinear previous current next

variable {collinear} {points : List Point2}

theorem lt_of_firstOnLine {index : Nat} (h : firstOnLine collinear points = some index) :
    index < points.length := by
  obtain ⟨hlt, _⟩ := List.findIdx?_eq_some_iff_getElem.mp h
  simp only [List.length_zip, List.length_rotate] at hlt
  omega

/-- A point with its neighbours along the contour. -/
theorem getElem_neighbours {index : Nat} (hindex : index < points.length)
    (hlt : index <
      ((points.rotate (points.length - 1)).zip (points.zip (points.rotate 1))).length) :
    ((points.rotate (points.length - 1)).zip (points.zip (points.rotate 1)))[index] =
      (points.get ⟨(index + points.length - 1) % points.length, Nat.mod_lt _ (by omega)⟩,
        points[index], points.get ⟨(index + 1) % points.length, Nat.mod_lt _ (by omega)⟩) := by
  simp only [List.getElem_zip, List.getElem_rotate, List.get_eq_getElem]
  rw [Nat.add_sub_assoc (by omega : 1 ≤ points.length)]

theorem collinear_of_firstOnLine {index : Nat} (h : firstOnLine collinear points = some index)
    (hindex : index < points.length) :
    collinear (points.get ⟨(index + points.length - 1) % points.length, Nat.mod_lt _ (by omega)⟩)
      points[index] (points.get ⟨(index + 1) % points.length, Nat.mod_lt _ (by omega)⟩) = true := by
  obtain ⟨hlt, htest, -⟩ := List.findIdx?_eq_some_iff_getElem.mp h
  rwa [getElem_neighbours hindex hlt] at htest

/-- No point is left that passes the test with its neighbours. -/
def NoneOnLine (collinear : Point2 → Point2 → Point2 → Bool) (points : List Point2) : Prop :=
  ∀ index (hindex : index < points.length),
    collinear (points.get ⟨(index + points.length - 1) % points.length, Nat.mod_lt _ (by omega)⟩)
      points[index] (points.get ⟨(index + 1) % points.length, Nat.mod_lt _ (by omega)⟩) = false

theorem noneOnLine_of_firstOnLine (h : firstOnLine collinear points = none) :
    NoneOnLine collinear points := by
  intro index hindex
  have hlt : index <
      ((points.rotate (points.length - 1)).zip (points.zip (points.rotate 1))).length := by
    simpa using hindex
  have htest := List.findIdx?_eq_none_iff.mp h _ (List.getElem_mem hlt)
  rwa [getElem_neighbours hindex hlt] at htest

variable (collinear) in
/-- `simplify_polygon_points` with this test. -/
def simplifyBy (points : List Point2) : List Point2 :=
  if points.length < 3 then points
  else
    match _h : firstOnLine collinear points with
    | none => points
    | some index => simplifyBy (points.eraseIdx index)
termination_by points.length
decreasing_by
  have hindex := lt_of_firstOnLine _h
  rw [List.length_eraseIdx_of_lt hindex]
  omega

theorem simplifyBy_of_short (h : points.length < 3) : simplifyBy collinear points = points := by
  rw [simplifyBy, if_pos h]

theorem simplifyBy_of_none (h : firstOnLine collinear points = none) :
    simplifyBy collinear points = points := by
  rw [simplifyBy]
  split_ifs
  · rfl
  · split
    · rfl
    · next hsome => cases h.symm.trans hsome

theorem simplifyBy_of_some {index : Nat} (hlong : ¬ points.length < 3)
    (h : firstOnLine collinear points = some index) :
    simplifyBy collinear points = simplifyBy collinear (points.eraseIdx index) := by
  rw [simplifyBy, if_neg hlong]
  split
  · next hnone => cases h.symm.trans hnone
  · next other hsome =>
    obtain rfl := Option.some.inj (h.symm.trans hsome)
    rfl

/-- What every round keeps, the whole run keeps; and it stops with fewer than three points, or
with none on the line through its neighbours. -/
theorem simplifyBy_induct {R : List Point2 → List Point2 → Prop}
    (refl : ∀ points, R points points)
    (round : ∀ {points result : List Point2} {index : Nat}, 3 ≤ points.length →
      firstOnLine collinear points = some index → R (points.eraseIdx index) result →
      R points result)
    (points : List Point2) :
    R points (simplifyBy collinear points) ∧
      (3 ≤ (simplifyBy collinear points).length →
        NoneOnLine collinear (simplifyBy collinear points)) := by
  induction points using simplifyBy.induct collinear with
  | case1 points hshort =>
    rw [simplifyBy_of_short hshort]
    exact ⟨refl points, fun hlong => absurd hlong (by omega)⟩
  | case2 points hlong hnone =>
    rw [simplifyBy_of_none hnone]
    exact ⟨refl points, fun _ => noneOnLine_of_firstOnLine hnone⟩
  | case3 points hlong index hsome ih =>
    rw [simplifyBy_of_some hlong hsome]
    exact ⟨round (by omega) hsome ih.1, ih.2⟩

/-- Only points are taken out. -/
theorem simplifyBy_sublist (points : List Point2) :
    (simplifyBy collinear points).Sublist points :=
  (simplifyBy_induct (R := fun points result => result.Sublist points) List.Sublist.refl
    (fun _ _ hrest => hrest.trans (List.eraseIdx_sublist _ _)) points).1

/-- Tests that agree on the points find the same one. -/
theorem firstOnLine_congr {collinear' : Point2 → Point2 → Point2 → Bool}
    (h : ∀ a ∈ points, ∀ b ∈ points, ∀ c ∈ points, collinear a b c = collinear' a b c) :
    firstOnLine collinear points = firstOnLine collinear' points := by
  have hmap : ∀ (test : Point2 × Point2 × Point2 → Bool) (l : List (Point2 × Point2 × Point2)),
      l.findIdx? test = (l.map test).findIdx? id := fun test l => by
    rw [List.findIdx?_map, Function.id_comp]
  rw [firstOnLine, firstOnLine, hmap, hmap]
  congr 1
  refine List.map_congr_left fun neighbours hneighbours => ?_
  obtain ⟨hprevious, hrest⟩ := List.of_mem_zip hneighbours
  obtain ⟨hcurrent, hnext⟩ := List.of_mem_zip hrest
  exact h _ (List.mem_rotate.mp hprevious) _ hcurrent _ (List.mem_rotate.mp hnext)

/-- Tests that agree on the points take out the same ones. -/
theorem simplifyBy_congr {collinear' : Point2 → Point2 → Point2 → Bool}
    (h : ∀ a ∈ points, ∀ b ∈ points, ∀ c ∈ points, collinear a b c = collinear' a b c) :
    simplifyBy collinear points = simplifyBy collinear' points := by
  induction points using simplifyBy.induct collinear with
  | case1 points hshort => rw [simplifyBy_of_short hshort, simplifyBy_of_short hshort]
  | case2 points hlong hnone =>
    rw [simplifyBy_of_none hnone, simplifyBy_of_none ((firstOnLine_congr h).symm.trans hnone)]
  | case3 points hlong index hsome ih =>
    have hsub : ∀ p ∈ points.eraseIdx index, p ∈ points :=
      fun p hp => (List.eraseIdx_sublist _ _).subset hp
    rw [simplifyBy_of_some hlong hsome,
      simplifyBy_of_some hlong ((firstOnLine_congr h).symm.trans hsome)]
    exact ih fun a ha b hb c hc => h a (hsub a ha) b (hsub b hb) c (hsub c hc)

end Rounds

/-! ### The signed area -/

section Area

variable {F : Type} [Field F]

/-- What the step from a point to the next adds to twice the area. -/
def crossTerm (step : Point2 × Point2) : F :=
  (step.1.x : F) * (step.2.y : F) - (step.2.x : F) * (step.1.y : F)

/-- The steps of two points and of fewer cancel out, as `signed_area` has it. -/
theorem signedArea_eq (points : List Point2) :
    signedArea points = (points.cyclicPairs.map (crossTerm (F := F))).sum / 2 := by
  rw [signedArea]
  split_ifs with hshort
  · rcases points with _ | ⟨p, _ | ⟨q, _ | ⟨r, rest⟩⟩⟩
    · simp [List.cyclicPairs]
    · simp [List.cyclicPairs, crossTerm]
    · simp [List.cyclicPairs, crossTerm]
    · simp only [List.length_cons] at hshort
      omega
  · rfl

theorem crossTerm_add_of_collinear {a b c : Point2} (h : isCollinearExact a b c = true) :
    crossTerm (F := F) (a, b) + crossTerm (b, c) = crossTerm (a, c) := by
  have hzero : (b.x - a.x) * (c.y - b.y) - (b.y - a.y) * (c.x - b.x) = 0 := by
    simpa [isCollinearExact] using h
  have hcast : ((b.x : F) - a.x) * ((c.y : F) - b.y) - ((b.y : F) - a.y) * ((c.x : F) - b.x) = 0 := by
    exact_mod_cast congrArg (Int.cast (R := F)) hzero
  simp only [crossTerm]
  linear_combination hcast

/-- A point on the line through its neighbours adds nothing to the area. -/
theorem signedArea_eraseIdx {points : List Point2} {index : Nat} (hlong : 3 ≤ points.length)
    (h : firstOnLine isCollinearExact points = some index) :
    signedArea (F := F) (points.eraseIdx index) = signedArea points := by
  have hindex := lt_of_firstOnLine h
  rw [signedArea_eq, signedArea_eq]
  congr 1
  exact (List.sum_cyclicPairs_remove hindex (by omega)
    (crossTerm_add_of_collinear (collinear_of_firstOnLine h hindex))).symm

end Area

/-! ### The result -/

/-- What a simplified contour is to the contour it was made from. -/
structure Simplified (F : Type) [Field F] (points result : List Point2) : Prop where
  subsequence : result.Sublist points
  area : signedArea (F := F) result = signedArea points
  corners : 3 ≤ result.length → NoneOnLine isCollinearExact result

/-- Simplifying a contour takes out points only, keeps its signed area, and leaves no three
consecutive points on a line. -/
theorem simplifyBy_simplified (F : Type) [Field F] (points : List Point2) :
    Simplified F points (simplifyBy isCollinearExact points) where
  subsequence := simplifyBy_sublist points
  area := (simplifyBy_induct
    (R := fun points result => signedArea (F := F) result = signedArea points) (fun _ => rfl)
    (fun hlong hsome hrest => hrest.trans (signedArea_eraseIdx hlong hsome)) points).1
  corners := (simplifyBy_induct (R := fun _ _ => True) (fun _ => trivial)
    (fun _ _ _ => trivial) points).2

/-! ### Coordinates that do not wrap -/

/-- The code simplifies with its own test. -/
theorem simplifyPolygonPoints_eq (points : List Point2) :
    simplifyPolygonPoints points = simplifyBy isCollinear points := by
  induction points using simplifyBy.induct isCollinear with
  | case1 points hshort =>
    rw [simplifyBy_of_short hshort, simplifyPolygonPoints, if_pos hshort]
  | case2 points hlong hnone =>
    rw [simplifyBy_of_none hnone, simplifyPolygonPoints, if_neg hlong]
    split
    · rfl
    · next hsome => cases hnone.symm.trans hsome
  | case3 points hlong index hsome ih =>
    rw [simplifyBy_of_some hlong hsome, simplifyPolygonPoints, if_neg hlong]
    split
    · next hnone => cases hnone.symm.trans hsome
    · next other hother =>
      obtain rfl := Option.some.inj (hother.symm.trans hsome)
      exact ih

/-- Coordinates up to 2^30. -/
def Point2.Within (p : Point2) : Prop :=
  |p.x| ≤ 2 ^ 30 ∧ |p.y| ≤ 2 ^ 30

theorem isCollinear_eq_exact {a b c : Point2} (ha : Point2.Within a) (hb : Point2.Within b)
    (hc : Point2.Within c) : isCollinear a b c = isCollinearExact a b c := by
  obtain ⟨hax, hay⟩ := ha
  obtain ⟨hbx, hby⟩ := hb
  obtain ⟨hcx, hcy⟩ := hc
  have hdiff : ∀ {m n : ℤ}, |m| ≤ 2 ^ 30 → |n| ≤ 2 ^ 30 → |m - n| ≤ 2 ^ 31 := by
    intro m n hm hn
    calc |m - n| ≤ |m| + |n| := abs_sub m n
      _ ≤ 2 ^ 31 := by omega
  have hprod : ∀ {m n : ℤ}, |m| ≤ 2 ^ 31 → |n| ≤ 2 ^ 31 → |m * n| ≤ 2 ^ 62 := by
    intro m n hm hn
    calc |m * n| = |m| * |n| := abs_mul m n
      _ ≤ 2 ^ 31 * 2 ^ 31 := mul_le_mul hm hn (abs_nonneg n) (by norm_num)
      _ = 2 ^ 62 := by norm_num
  have hfirst := hprod (hdiff hbx hax) (hdiff hcy hby)
  have hsecond := hprod (hdiff hby hay) (hdiff hcx hbx)
  simp only [isCollinear, isCollinearExact]
  generalize (b.x - a.x) * (c.y - b.y) = m at hfirst ⊢
  generalize (b.y - a.y) * (c.x - b.x) = n at hsecond ⊢
  have hsmall : |m - n| < 2 ^ 64 := by
    calc |m - n| ≤ |m| + |n| := abs_sub m n
      _ < 2 ^ 64 := by omega
  have hiff : wrapI64 (m - n) = 0 ↔ m - n = 0 := by
    rw [wrapI64, ← Int.dvd_iff_bmod_eq_zero]
    constructor
    · intro hdvd
      exact Int.eq_zero_of_abs_lt_dvd hdvd hsmall
    · rintro h
      rw [h]
      exact dvd_zero _
  rw [Bool.eq_iff_iff, beq_iff_eq, beq_iff_eq]
  exact hiff

/-- Within these coordinates the code simplifies as unbounded integers would have it. -/
theorem simplifyPolygonPoints_eq_exact {points : List Point2}
    (h : ∀ p ∈ points, Point2.Within p) :
    simplifyPolygonPoints points = simplifyBy isCollinearExact points := by
  rw [simplifyPolygonPoints_eq]
  exact simplifyBy_congr fun a ha b hb c hc => isCollinear_eq_exact (h a ha) (h b hb) (h c hc)

end PinchNPrint.Mesh
