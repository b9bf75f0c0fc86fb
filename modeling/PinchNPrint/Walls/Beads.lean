/-
Beads tile the wall.

Whatever the base strategy distributes, and whatever the decorators put around it, is one row
of beads laid end to end across the wall, the same from both sides (`Row`). The cap keeps the
row and marks its middle, or lays the two halves of the row for its optimal thickness against
the two sides of the wall (`Halves`); either way the beads tile the wall but for one central
gap (`compute_tilesWall`). It fails only where no bead is laid at the optimal thickness of
the cap itself.
-/

import PinchNPrint.Lib.Laid
import PinchNPrint.Walls.Transitions
import Mathlib.Data.List.GetD

namespace PinchNPrint.Walls

open Laid

variable {F : Type} [Field F] [LinearOrder F]

/-- The beads that have a width, each with its centre line; the others are sentinels. -/
def Beading.beads (beading : Beading F) : List (F × F) :=
  (beading.beadWidths.zip beading.toolpathLocations).filter fun bead => 0 < bead.1

/-- The beads tile a wall of this thickness, but for one central gap. -/
structure TilesWall (thickness : F) (maxBeadCount : Nat) (beading : Beading F) : Prop where
  aligned : beading.toolpathLocations.length = beading.beadWidths.length
  width_nonneg : ∀ width ∈ beading.beadWidths, 0 ≤ width
  count_le : beading.beadWidths.countP (0 < ·) ≤ maxBeadCount
  sorted : beading.toolpathLocations.Pairwise (· ≤ ·)
  mirrored : beading.toolpathLocations.reverse = beading.toolpathLocations.map (thickness - ·)
  within : ∀ location ∈ beading.toolpathLocations, 0 ≤ location ∧ location ≤ thickness
  leftOver_nonneg : 0 ≤ beading.leftOver
  total : beading.beadWidths.sum + beading.leftOver = thickness
  tiling : ∃ left right gap, beading.beads = left ++ right ∧
    Tiling start stop left 0 gap ∧ Tiling start stop right (gap + beading.leftOver) thickness ∧
    (beading.leftOver = 0 ∨ gap + gap + beading.leftOver = thickness)

/-- One row of beads across the wall, the same from both sides. -/
structure Row (thickness : F) (beading : Beading F) (widths : List F) : Prop where
  widths_eq : beading.beadWidths = widths
  locations_eq : beading.toolpathLocations = centres 0 widths
  pos : ∀ width ∈ widths, 0 < width
  palindrome : widths.reverse = widths
  sum_eq : widths.sum = thickness
  thickness_eq : beading.totalThickness = thickness
  leftOver_eq : beading.leftOver = 0

/-- Two rows of beads from the two sides of the wall. -/
structure Halves (thickness : F) (beading : Beading F) (left right : List F) : Prop where
  widths_eq : beading.beadWidths = left ++ right
  locations_eq : beading.toolpathLocations =
    centres 0 left ++ centres (left.sum + beading.leftOver) right
  nonneg : ∀ width ∈ left ++ right, 0 ≤ width
  palindrome : (left ++ right).reverse = left ++ right
  central : beading.leftOver = 0 ∨ right = left.reverse
  leftOver_nonneg : 0 ≤ beading.leftOver
  total : left.sum + beading.leftOver + right.sum = thickness

variable [IsStrictOrderedRing F] {t : F} {beading : Beading F}

namespace Halves

variable {left right : List F}

theorem mirrored (h : Halves t beading left right) :
    beading.toolpathLocations.reverse = beading.toolpathLocations.map (t - ·) := by
  rw [h.locations_eq]
  have htotal := h.total
  rcases h.central with hgap | rfl
  · -- One row without a gap.
    rw [hgap, add_zero, show left.sum = 0 + left.sum from (zero_add _).symm, ← centres_append,
      reverse_centres 0 0, h.palindrome, List.sum_append]
    congr 1
    ext c
    linarith
  · rw [List.reverse_append, reverse_centres _ 0, List.reverse_reverse, List.map_append,
      reverse_centres 0 (left.sum + beading.leftOver)]
    rw [List.sum_reverse] at htotal ⊢
    congr 2
    · ext c
      linarith
    · ext c
      linarith

omit [IsStrictOrderedRing F] in
theorem beads_eq (h : Halves t beading left right) :
    beading.beads = ((left.zip (centres 0 left)).filter fun bead => 0 < bead.1) ++
      (right.zip (centres (left.sum + beading.leftOver) right)).filter fun bead => 0 < bead.1 := by
  rw [Beading.beads, h.widths_eq, h.locations_eq, List.zip_append (length_centres 0 left).symm,
    List.filter_append]

theorem tilesWall (h : Halves t beading left right) {maxBeadCount : Nat}
    (hcount : (left ++ right).countP (0 < ·) ≤ maxBeadCount) :
    TilesWall t maxBeadCount beading := by
  have hleft : ∀ w ∈ left, 0 ≤ w := fun w hw => h.nonneg w (List.mem_append_left _ hw)
  have hright : ∀ w ∈ right, 0 ≤ w := fun w hw => h.nonneg w (List.mem_append_right _ hw)
  have hgap := h.leftOver_nonneg
  have htotal := h.total
  have hsum := List.sum_nonneg hleft
  have hsum' := List.sum_nonneg hright
  have htiling : Tiling start stop
      ((left.zip (centres 0 left)).filter fun bead => 0 < bead.1) 0 left.sum := by
    simpa using Laid.tiling 0 hleft
  have htiling' : Tiling start stop
      ((right.zip (centres (left.sum + beading.leftOver) right)).filter fun bead => 0 < bead.1)
      (left.sum + beading.leftOver) t := by
    rw [← htotal]
    exact Laid.tiling _ hright
  have hcentral : beading.leftOver = 0 ∨ left.sum + left.sum + beading.leftOver = t := by
    refine h.central.imp_right fun hsame => ?_
    rw [hsame, List.sum_reverse] at htotal
    linarith
  refine
    { aligned := by simp [h.locations_eq, h.widths_eq]
      width_nonneg := h.widths_eq ▸ h.nonneg
      count_le := h.widths_eq ▸ hcount
      sorted := ?_
      mirrored := h.mirrored
      within := fun c hc => ?_
      leftOver_nonneg := hgap
      total := ?_
      tiling := ⟨_, _, left.sum, h.beads_eq, htiling, htiling', hcentral⟩ }
  · rw [h.locations_eq]
    refine List.pairwise_append.mpr ⟨pairwise_centres hleft, pairwise_centres hright, ?_⟩
    intro c hc c' hc'
    have hlo := (mem_centres hleft hc).2
    have hhi := (mem_centres hright hc').1
    linarith
  · rw [h.locations_eq] at hc
    rcases List.mem_append.mp hc with hc | hc
    · have hbounds := mem_centres hleft hc
      constructor <;> linarith
    · have hbounds := mem_centres hright hc
      constructor <;> linarith
  · rw [h.widths_eq, List.sum_append]
    linarith

end Halves

/-! ### The base strategy -/

namespace BeadingStrategy

omit [IsStrictOrderedRing F] in
theorem weight_nonneg (c k i : Nat) : 0 ≤ weight (F := F) c k i :=
  le_max_right _ _

variable {c k : Nat} {w : F}

/-- Beads as far from the middle have as large a share. -/
theorem weight_symm {i : Nat} (hi : i < k) : weight (F := F) c k (k - 1 - i) = weight c k i := by
  have hcast : ((k - 1 - i : Nat) : F) = (k - 1 : Nat) - i := by
    rw [Nat.cast_sub (by omega)]
  simp only [weight, hcast]
  congr 2
  ring

theorem weight_middle_pos (c k : Nat) : 0 < weight (F := F) c k ((k - 1) / 2) := by
  have hdev : ((((k - 1) / 2 : Nat) : F) - (k - 1 : Nat) / 2) *
      ((((k - 1) / 2 : Nat) : F) - (k - 1 : Nat) / 2) ≤ 1 / 4 := by
    rcases Nat.even_or_odd' (k - 1) with ⟨m, hm | hm⟩
    · have hhalf : (k - 1) / 2 = m := by omega
      rw [hhalf, hm]
      push_cast
      norm_num
    · have hhalf : (k - 1) / 2 = m := by omega
      rw [hhalf, hm]
      push_cast
      apply le_of_eq
      ring
  refine lt_max_of_lt_left ?_
  simp only [mul_assoc]
  split_ifs with hradius
  · -- A radius of two beads or more only flattens the weights.
    have hone : (1 : F) / (c - 1) ≤ 1 := by
      rw [div_le_one (by linarith)]
      linarith
    have hpos : (0 : F) ≤ 1 / (c - 1) := by
      apply div_nonneg <;> linarith
    nlinarith [mul_le_one₀ hone hpos hone, mul_nonneg hpos hpos]
  · linarith

theorem sum_map_share (w d s : F) (l : List F) :
    (l.map fun v => w + d * (v / s)).sum = l.length * w + d * (l.sum / s) := by
  induction l with
  | nil => simp
  | cons v l ih =>
    rw [List.map_cons, List.sum_cons, ih, List.length_cons, List.sum_cons]
    push_cast
    ring

theorem sum_weight_pos (c : Nat) (hk : 0 < k) :
    0 < ((List.range k).map (weight (F := F) c k)).sum := by
  have hmem : weight (F := F) c k ((k - 1) / 2) ∈ (List.range k).map (weight (F := F) c k) :=
    List.mem_map_of_mem (List.mem_range.mpr (by omega))
  refine (weight_middle_pos c k).trans_le (List.single_le_sum ?_ _ hmem)
  intro v hv
  obtain ⟨i, -, rfl⟩ := List.mem_map.mp hv
  exact weight_nonneg c k i

/-- The width of bead `i`: its share in what is to be divided, on top of the optimum. -/
def share (w : F) (c : Nat) (t : F) (k i : Nat) : F :=
  w + (t - k * w) * (weight c k i / ((List.range k).map (weight c k)).sum)

theorem sum_share (w : F) (c : Nat) (t : F) (hk : 0 < k) :
    ((List.range k).map (share w c t k)).sum = t := by
  have hsum := sum_map_share w (t - k * w) ((List.range k).map (weight (F := F) c k)).sum
    ((List.range k).map (weight c k))
  rw [List.map_map, List.length_map, List.length_range, div_self (sum_weight_pos c hk).ne'] at hsum
  refine hsum.trans ?_
  ring

/-- The last bead takes its share as well. -/
theorem distributedWidths_eq (w : F) (c : Nat) (t : F) (hk : 0 < k) :
    distributedWidths w c t k = (List.range k).map (share w c t k) := by
  obtain ⟨n, rfl⟩ : ∃ n, k = n + 1 := ⟨k - 1, by omega⟩
  have hsum := sum_share w c t hk
  simp only [List.range_succ, List.map_append, List.map_cons, List.map_nil, List.sum_append,
    List.sum_singleton] at hsum
  have hdrop : ((List.range (n + 1)).map (weight (F := F) c (n + 1))).dropLast =
      (List.range n).map (weight c (n + 1)) := by
    rw [List.range_succ, List.map_append, List.map_singleton, List.dropLast_concat]
  have hwidths : distributedWidths w c t (n + 1) = (List.range n).map (share w c t (n + 1)) ++
      [t - ((List.range n).map (share w c t (n + 1))).sum] := by
    simp only [distributedWidths, hdrop, List.map_map]
    rfl
  rw [hwidths, List.range_succ, List.map_append, List.map_singleton,
    sub_eq_of_eq_add' hsum.symm]

theorem share_pos {t : F} {i : Nat} (hw : 0 < w) (hk : 0 < k) (hmore : (k - 1) * w < t) :
    i < k → 0 < share w c t k i := by
  intro hi
  have htotal := sum_weight_pos (F := F) c hk
  have hmem : weight (F := F) c k i ∈ (List.range k).map (weight (F := F) c k) :=
    List.mem_map_of_mem (List.mem_range.mpr hi)
  have hle : weight (F := F) c k i / ((List.range k).map (weight (F := F) c k)).sum ≤ 1 := by
    rw [div_le_one htotal]
    refine List.single_le_sum (fun v hv => ?_) _ hmem
    obtain ⟨j, -, rfl⟩ := List.mem_map.mp hv
    exact weight_nonneg c k j
  have hnonneg := div_nonneg (weight_nonneg (F := F) c k i) htotal.le
  rw [share]
  rcases le_total 0 (t - k * w) with hsurplus | hdeficit
  · exact add_pos_of_pos_of_nonneg hw (mul_nonneg hsurplus hnonneg)
  · have hloss := mul_le_mul_of_nonpos_left hle hdeficit
    linarith

theorem locationsFrom_eq (loc prev : F) (ws : List F) :
    locationsFrom loc prev ws = centres (loc + prev / 2) ws := by
  induction ws generalizing loc prev with
  | nil => rfl
  | cons w ws ih =>
    rw [locationsFrom, ih, centres]
    refine congrArg₂ List.cons ?_ (congrArg₂ centres ?_ rfl) <;> ring

theorem locations_eq (ws : List F) : locations ws = centres 0 ws := by
  cases ws with
  | nil => rfl
  | cons w ws =>
    rw [locations, locationsFrom_eq, centres]
    refine congrArg₂ List.cons ?_ (congrArg₂ centres ?_ rfl) <;> ring

omit [Field F] [LinearOrder F] [IsStrictOrderedRing F] in
theorem reverse_map_range {f : Nat → F} (hf : ∀ i < k, f (k - 1 - i) = f i) :
    ((List.range k).map f).reverse = (List.range k).map f := by
  rw [← List.map_reverse, List.range_eq_range', List.reverse_range', List.map_map,
    ← List.range_eq_range']
  refine List.map_congr_left fun i hi => ?_
  simpa using hf i (List.mem_range.mp hi)

theorem distributed_row {split add t : F} (hw : 0 < w) (hk : 0 < k) (ht : 0 < t)
    (hmore : (k - 1) * w < t) :
    ∃ ws, ws.length = k ∧ Row t ((Distributed w c split add).compute t k) ws := by
  match k with
  | 1 =>
    refine ⟨[t], rfl, ?_⟩
    constructor <;> simp [compute, centres, ht]
  | 2 =>
    refine ⟨[t / 2, t / 2], rfl, ?_⟩
    constructor <;> simp [compute, centres, ht]
    ring
  | n + 3 =>
    refine ⟨(List.range (n + 3)).map (share w c t (n + 3)), by simp, ?_⟩
    exact
      { widths_eq := distributedWidths_eq w c t hk
        locations_eq := by
          rw [← distributedWidths_eq w c t hk, ← locations_eq]
          rfl
        pos := by
          intro v hv
          obtain ⟨i, hi, rfl⟩ := List.mem_map.mp hv
          exact share_pos hw hk hmore (List.mem_range.mp hi)
        palindrome := by
          refine reverse_map_range fun i hi => ?_
          rw [share, weight_symm hi, share]
        sum_eq := sum_share w c t hk
        thickness_eq := rfl
        leftOver_eq := rfl }

/-! ### The outer walls -/

/-- The outer walls lie around what is laid between them. -/
theorem redistribute_row {split add outer ratio t : F} {n : Nat} (hw : 0 < w) (houter : 0 < outer)
    (hn : 0 < n) (ht : 0 < t) (hreach : ratio * outer ≤ t)
    (hinner : 2 < n → 2 * outer < t ∧ (n - 3) * w < t - 2 * outer) :
    ∃ ws, ws.length = n ∧
      Row t ((Redistribute (Distributed w c split add) outer ratio).compute t n) ws := by
  have hlines : ¬ (n = 0 ∨ t < ratio * outer) := by
    rintro (h | h)
    · omega
    · exact absurd hreach (not_le.mpr h)
  match n with
  | 1 =>
    refine ⟨[t], rfl, ?_⟩
    rw [compute, if_neg hlines]
    constructor <;> simp [centres, ht]
  | 2 =>
    refine ⟨[t / 2, t / 2], rfl, ?_⟩
    rw [compute, if_neg hlines]
    constructor <;> simp [centres, ht]
    ring
  | n + 3 =>
    obtain ⟨hwide, hmore⟩ := hinner (by omega)
    obtain ⟨ws, hlength, hrow⟩ : ∃ ws, ws.length = n + 1 ∧ Row (t - 2 * outer)
        ((Distributed w c split add).compute (t - 2 * outer) (n + 1)) ws :=
      distributed_row hw (by omega) (sub_pos.mpr hwide) (by push_cast at hmore ⊢; linarith)
    have hthin : min (t / 2) outer = outer := min_eq_right (by linarith)
    have hmany : 2 < n + 3 ∧ 0 < t - 2 * outer := ⟨by omega, sub_pos.mpr hwide⟩
    have hsum : (outer :: (ws ++ [outer])).sum = t := by
      rw [List.sum_cons, List.sum_append, hrow.sum_eq, List.sum_singleton]
      ring
    have hwidths : outer :: (((Distributed w c split add).compute (t - 2 * outer)
        (n + 1)).beadWidths ++ [outer]) = outer :: (ws ++ [outer]) := by
      rw [hrow.widths_eq]
    refine ⟨outer :: (ws ++ [outer]), by simp [hlength], ?_⟩
    rw [compute, if_neg hlines]
    simp only [if_pos hmany, if_pos hmany.1, if_pos (show 1 < n + 3 by omega), hthin,
      show n + 3 - 2 = n + 1 from rfl, hwidths]
    refine
      { widths_eq := rfl
        locations_eq := ?_
        pos := ?_
        palindrome := ?_
        sum_eq := hsum
        thickness_eq := rfl
        leftOver_eq := sub_eq_zero.mpr hsum.symm }
    · simp only [hrow.locations_eq, centres_add, centres, centres_append, List.map_cons,
        List.map_nil, hrow.sum_eq]
      simp only [zero_add, List.cons.injEq, List.append_cancel_left_eq, true_and, and_true]
      ring
    · simpa [houter, or_imp, forall_and] using hrow.pos
    · simp [hrow.palindrome]

end BeadingStrategy

/-! ### The cap -/

open BeadingStrategy

variable {α : Type} {widths : List F}

theorem insertIdx_length (a : α) (l r : List α) : (l ++ r).insertIdx l.length a = l ++ a :: r := by
  induction l with
  | nil => simp
  | cons b l ih => simp [List.insertIdx_succ_cons, ih]

omit [IsStrictOrderedRing F] in
theorem Row.exists_half (h : Row t beading widths) {m : Nat} (hlength : widths.length = 2 * m) :
    ∃ l, l.length = m ∧ widths = l ++ l.reverse := by
  refine ⟨widths.take m, by simp [hlength]; omega, ?_⟩
  have hhalves : (widths.drop m).reverse ++ (widths.take m).reverse =
      widths.take m ++ widths.drop m := by
    rw [← List.reverse_append, List.take_append_drop, h.palindrome]
  have hright := (List.append_inj hhalves (by simp [hlength]; omega)).2
  rw [hright, List.take_append_drop]

/-- The inner edge of the last bead of a row is where the row ends. -/
theorem innerEdge {l : List F} (hl : l ≠ []) (locations widths : List F) :
    (centres 0 l ++ locations).getD (l.length - 1) 0 +
      (l ++ widths).getD (l.length - 1) 0 / 2 = l.sum := by
  obtain ⟨l, a, rfl⟩ := (List.eq_nil_or_concat' l).resolve_left hl
  have hlocation : (centres 0 (l ++ [a]) ++ locations).getD l.length 0 = l.sum + a / 2 := by
    rw [centres_append, List.append_assoc, List.getD_append_right _ _ _ _ (by simp)]
    simp [centres]
  have hwidth : (l ++ [a] ++ widths).getD l.length 0 = a := by
    rw [List.append_assoc, List.getD_append_right _ _ _ _ (le_refl _)]
    simp
  rw [List.length_append, List.length_singleton, Nat.add_sub_cancel, hlocation, hwidth,
    List.sum_append, List.sum_singleton]
  ring

omit [LinearOrder F] [IsStrictOrderedRing F] in
/-- The outer edge of the first bead of a row is where the row begins. -/
theorem outerEdge {x : F} {r : List F} (hr : r ≠ []) {locations : List F}
    (hlength : locations.length = widths.length) :
    (locations ++ centres x r).getD widths.length 0 - (widths ++ r).getD widths.length 0 / 2 =
      x := by
  obtain ⟨a, r, rfl⟩ := List.exists_cons_of_ne_nil hr
  rw [List.getD_append_right _ _ _ _ hlength.le, List.getD_append_right _ _ _ _ (le_refl _)]
  simp [centres, hlength]

omit [IsStrictOrderedRing F] in
theorem countP_pos_halves (l zeros : List F) (hzeros : ∀ w ∈ zeros, w = 0) :
    (l ++ zeros ++ l.reverse).countP (0 < ·) ≤ 2 * l.length := by
  have hnone : zeros.countP (0 < ·) = 0 := by
    rw [List.countP_eq_zero]
    intro w hw
    simp [hzeros w hw]
  have hhalf := List.countP_le_length (p := fun w => decide (0 < w)) (l := l)
  have hhalf' := List.countP_le_length (p := fun w => decide (0 < w)) (l := l.reverse)
  rw [List.length_reverse] at hhalf'
  rw [List.countP_append, List.countP_append, hnone]
  omega

/-- A row as long as the cap gets a sentinel in the middle. -/
theorem Row.tilesWall_markCap (h : Row t beading widths) {N : Nat} (hN : 0 < N)
    (hle : widths.length ≤ N) : TilesWall t N (markCap N beading) := by
  have hsum := h.sum_eq
  have hnonneg : ∀ w ∈ widths, 0 ≤ w := fun w hw => (h.pos w hw).le
  rw [markCap]
  simp only [h.locations_eq, h.widths_eq, length_centres]
  split_ifs with hcap
  · obtain ⟨m, rfl⟩ : ∃ m, N = 2 * m := ⟨N / 2, by omega⟩
    obtain ⟨l, rfl, rfl⟩ := h.exists_half hcap.2
    have hl : l ≠ [] := by
      rintro rfl
      simp at hN
    have hmiddle : (centres 0 (l ++ l.reverse)).getD (l.length - 1) 0 +
        (l ++ l.reverse).getD (l.length - 1) 0 / 2 = l.sum := by
      rw [centres_append]
      exact innerEdge hl _ _
    have hplace : (centres 0 (l ++ l.reverse)).insertIdx l.length l.sum =
        centres 0 l ++ l.sum :: centres l.sum l.reverse := by
      have hinsert := insertIdx_length l.sum (centres 0 l) (centres l.sum l.reverse)
      rw [length_centres] at hinsert
      rw [centres_append, zero_add, hinsert]
    rw [List.sum_append, List.sum_reverse] at hsum
    rw [Nat.mul_div_cancel_left _ (by omega), hmiddle, hplace, insertIdx_length]
    have hhalves : Halves t
        { beading with
          toolpathLocations := centres 0 l ++ l.sum :: centres l.sum l.reverse
          beadWidths := l ++ 0 :: l.reverse } (l ++ [0]) l.reverse :=
      { widths_eq := by simp
        locations_eq := by simp [centres_append, centres, h.leftOver_eq]
        nonneg := by simpa [or_imp, forall_and] using hnonneg
        palindrome := by simp
        central := .inl h.leftOver_eq
        leftOver_nonneg := h.leftOver_eq.ge
        total := by simpa [h.leftOver_eq] using hsum }
    exact hhalves.tilesWall (countP_pos_halves l [0] (by simp))
  · have hhalves : Halves t beading widths [] :=
      { widths_eq := by simp [h.widths_eq]
        locations_eq := by simp [h.locations_eq, centres]
        nonneg := by simpa using hnonneg
        palindrome := by simp [h.palindrome]
        central := .inl h.leftOver_eq
        leftOver_nonneg := h.leftOver_eq.ge
        total := by simp [h.leftOver_eq, hsum] }
    refine hhalves.tilesWall ?_
    rw [List.append_nil]
    exact List.countP_le_length.trans hle

theorem set_length (a b : α) (l r : List α) : (l ++ a :: r).set l.length b = l ++ b :: r := by
  rw [List.set_append_right _ _ (le_refl _), Nat.sub_self, List.set_cons_zero]

/-- The second half overwritten, place after place from its end, by the first half mirrored. -/
theorem foldl_set_mirror (f : α → α) (d : α) (a b : List α) (hlength : b.length = a.length)
    {j : Nat} (hj : j ≤ a.length) :
    (List.range j).foldl (fun l i => l.set (a.length + a.length - 1 - i) (f (l.getD i d)))
        (a ++ b) =
      a ++ (b.take (a.length - j) ++ ((a.take j).map f).reverse) := by
  induction j with
  | zero => simp [← hlength]
  | succ j ih =>
    rw [List.range_succ, List.foldl_append, ih (by omega), List.foldl_cons, List.foldl_nil]
    obtain ⟨n, hn⟩ : ∃ n, a.length = n + 1 + j := ⟨a.length - j - 1, by omega⟩
    have hplace : a.length + a.length - 1 - j = (a ++ b.take n).length := by
      rw [List.length_append, List.length_take]
      omega
    have hsource : (a ++ (b.take (a.length - j) ++ ((a.take j).map f).reverse)).getD j d =
        a[j] := by
      rw [List.getD_append _ _ _ _ (by omega), List.getD_eq_getElem _ _ (by omega)]
    rw [hsource, hplace, show a.length - j = n + 1 by omega, show a.length - (j + 1) = n by omega,
      List.take_succ_eq_append_getElem (show n < b.length by omega),
      List.take_succ_eq_append_getElem (show j < a.length by omega), List.map_append,
      List.reverse_append, List.append_assoc, ← List.append_assoc a, List.singleton_append,
      set_length, List.append_assoc]
    simp

/-- Both halves of the row for the optimal thickness, each at its side of a thicker wall, with
sentinels at their inner edges. -/
theorem Row.tilesWall_markElided {optimal : F} (h : Row optimal beading widths) {m : Nat}
    (hm : 0 < m) (hlength : widths.length = 2 * m) (hle : optimal ≤ t) :
    TilesWall t (2 * m) (markElided 1 (mirrored t optimal beading)) := by
  obtain ⟨l, rfl, rfl⟩ := h.exists_half hlength
  have hl : l ≠ [] := by
    rintro rfl
    simp at hm
  have hsum := h.sum_eq
  rw [List.sum_append, List.sum_reverse] at hsum
  have hn : (centres 0 l ++ centres l.sum l.reverse).length = l.length + l.length := by
    simp
  have hmirrored : mirrored t optimal beading =
      { totalThickness := t
        beadWidths := l ++ l.reverse
        toolpathLocations := centres 0 l ++ centres (t - l.sum) l.reverse
        leftOver := t - optimal } := by
    have hmirror : ((centres 0 l).map (t - ·)).reverse = centres (t - l.sum) l.reverse := by
      rw [← List.map_reverse, reverse_centres 0 (t - l.sum), List.map_map]
      refine (List.map_congr_left fun c _ => ?_).trans (List.map_id _)
      simp
    have hfold := foldl_set_mirror (t - ·) 0 (centres 0 l) (centres l.sum l.reverse) (by simp)
      (le_refl _)
    rw [Nat.sub_self, List.take_zero, List.nil_append, List.take_length, length_centres,
      hmirror] at hfold
    rw [mirrored]
    simp only [h.widths_eq, h.locations_eq, centres_append, zero_add, hn, h.leftOver_eq,
      h.thickness_eq, if_neg (show ¬ (l.length + l.length) % 2 = 1 by omega),
      show (l.length + l.length + 1) / 2 = l.length by omega, hfold]
  have helided : markElided 1 (mirrored t optimal beading) =
      { totalThickness := t
        beadWidths := l ++ 0 :: 0 :: l.reverse
        toolpathLocations := centres 0 l ++ l.sum :: (t - l.sum) ::
          centres (t - l.sum) l.reverse
        leftOver := t - optimal } := by
    have hinner : (centres 0 l ++ centres (t - l.sum) l.reverse).getD (l.length - 1) 0 +
        (l ++ l.reverse).getD (l.length - 1) 0 / 2 = l.sum := innerEdge hl _ _
    have houter : (centres 0 l ++ centres (t - l.sum) l.reverse).getD l.length 0 -
        (l ++ l.reverse).getD l.length 0 / 2 = t - l.sum :=
      outerEdge (by simpa using hl) (length_centres 0 l)
    have hinsert : ∀ (u v : F) (a b : List F), a.length = l.length →
        ((a ++ b).insertIdx l.length u).insertIdx (l.length + 1) v = a ++ u :: v :: b := by
      intro u v a b ha
      have hlast := insertIdx_length v (a ++ [u]) b
      rw [List.append_assoc, List.append_assoc, List.length_append, List.length_singleton, ha]
        at hlast
      rw [← ha, insertIdx_length, ha]
      exact hlast
    rw [hmirrored, markElided]
    simp only [List.length_append, List.length_reverse,
      show (l.length + l.length) / 2 = l.length by omega, Nat.add_sub_cancel, if_pos hm,
      if_pos (show l.length < l.length + l.length by omega), hinner, houter, Function.iterate_one,
      hinsert _ _ l _ rfl, hinsert _ _ (centres 0 l) _ (length_centres 0 l)]
  have hstart : l.sum + (t - optimal) = t - l.sum := by linarith
  have hhalves : Halves t (markElided 1 (mirrored t optimal beading)) (l ++ [0])
      (0 :: l.reverse) := by
    rw [helided]
    exact
      { widths_eq := by simp
        locations_eq := by simp [centres_append, centres, hstart]
        nonneg := by
          simpa [or_imp, forall_and] using fun w hw => (h.pos w hw).le
        palindrome := by simp
        central := .inr (by simp)
        leftOver_nonneg := sub_nonneg.mpr hle
        total := by
          simp
          linarith }
  refine hhalves.tilesWall ?_
  have hcount := countP_pos_halves l [0, 0] (by simp)
  simpa using hcount

/-! ### The stack -/

section

omit [IsStrictOrderedRing F]

theorem BeadingStrategy.of_lt_optimalBeadCount [FloorRing F] {parent : BeadingStrategy F}
    {outer ratio : F} {n : Nat}
    (h : n + 2 < (Redistribute parent outer ratio).optimalBeadCount t) :
    2 * outer < t ∧ n < parent.optimalBeadCount (t - 2 * outer) := by
  rw [optimalBeadCount] at h
  split_ifs at h with hnarrow hthin
  · omega
  · omega
  · omega
  · exact ⟨not_le.mp hthin, by omega⟩

theorem BeadingStrategy.reach_of_optimalBeadCount_pos [FloorRing F] {parent : BeadingStrategy F}
    {outer ratio : F} (h : 0 < (Redistribute parent outer ratio).optimalBeadCount t) :
    ratio * outer ≤ t := by
  by_contra! hnarrow
  rw [optimalBeadCount_of_narrow hnarrow] at h
  exact lt_irrefl 0 h

/-- The cap asks for no more beads than its parent, and for at most one too many. -/
theorem BeadingStrategy.optimalBeadCount_limited_le [FloorRing F] (parent : BeadingStrategy F)
    (N : Nat) (t : F) : (Limited parent N).optimalBeadCount t ≤ parent.optimalBeadCount t ∧
      (Limited parent N).optimalBeadCount t ≤ N + 1 := by
  rw [optimalBeadCount]
  split_ifs <;> omega

end

/-- Nothing is laid in a wall that is too narrow. -/
theorem tilesWall_nothing {N : Nat} (hN : 0 < N) (ht : 0 < t) :
    TilesWall t N (markCap N ⟨t, [], [], t⟩) := by
  rw [markCap, if_neg (by simp; omega)]
  have hhalves : Halves t ⟨t, [], [], t⟩ [] [] :=
    { widths_eq := rfl
      locations_eq := rfl
      nonneg := by simp
      palindrome := rfl
      central := .inr rfl
      leftOver_nonneg := ht.le
      total := by simp }
  exact hhalves.tilesWall (Nat.zero_le _)

namespace BeadingFactoryParams

variable [FloorRing F] {fracPi4 : F} {params : BeadingFactoryParams F}

/-- More beads mean that the lines between the outer walls fit but for the last. -/
theorem inner_fits (hopt : 0 < params.optimalWidth) (houter : 0 < params.preferredBeadWidthOuter)
    {n : Nat} (h : n + 2 < (params.redistribute fracPi4).optimalBeadCount t) :
    2 * params.preferredBeadWidthOuter < t ∧
      n * params.effectiveOptimalWidth < t - 2 * params.preferredBeadWidthOuter := by
  have hw := effectiveOptimalWidth_pos hopt houter
  obtain ⟨hwide, hinner⟩ := of_lt_optimalBeadCount h
  refine ⟨hwide, ?_⟩
  have hreach := (lt_optimalBeadCount_distributed hw (clampThreshold_mem _) (clampThreshold_mem _)
    n _).mp hinner
  rw [getTransitionThickness_distributed] at hreach
  have hpos := mul_pos (middleThreshold_stack_mem fracPi4 params n).1 hw
  rw [wallSplitMiddleThreshold, wallAddMiddleThreshold] at hpos
  linarith

/-- As many beads as the stack asks for, or fewer, lie in one row. -/
theorem redistribute_row_of_le (hopt : 0 < params.optimalWidth)
    (houter : 0 < params.preferredBeadWidthOuter) (ht : 0 < t) {n : Nat} (hn : 0 < n)
    (hle : n ≤ (params.redistribute fracPi4).optimalBeadCount t) :
    ∃ ws, ws.length = n ∧ Row t ((params.redistribute fracPi4).compute t n) ws := by
  refine redistribute_row (effectiveOptimalWidth_pos hopt houter) houter hn ht
    (reach_of_optimalBeadCount_pos (hn.trans_le hle)) fun hmany => ?_
  obtain ⟨m, rfl⟩ : ∃ m, n = m + 3 := ⟨n - 3, by omega⟩
  obtain ⟨hwide, hfits⟩ := inner_fits hopt houter (show m + 2 < _ from hle)
  refine ⟨hwide, ?_⟩
  push_cast
  linarith

section

omit [IsStrictOrderedRing F] [FloorRing F]

theorem createStack_eq (hthin : params.printThinWalls = false)
    (hoffset : params.outerWallOffset = 0) :
    params.createStack fracPi4 = Limited (params.redistribute fracPi4) params.maxBeadCount := by
  have hstack : params.preLimited fracPi4 = params.redistribute fracPi4 := by
    simp [preLimited, preOuterWall, hthin, hoffset]
  rw [createStack, hstack]

/-- The optimal thickness of the cap is that of two outer beads and the others. -/
theorem optimalThickness_cap (htwo : 2 ≤ params.maxBeadCount) :
    (params.redistribute fracPi4).optimalThickness params.maxBeadCount =
      (params.maxBeadCount - 2) * params.effectiveOptimalWidth +
        2 * params.preferredBeadWidthOuter := by
  obtain ⟨k, hk⟩ := Nat.exists_eq_add_of_le' htwo
  rw [hk, optimalThickness_redistribute]
  push_cast
  ring

end

/-- The redistributed beads under the cap tile the wall. -/
theorem limited_tilesWall (hopt : 0 < params.optimalWidth)
    (houter : 0 < params.preferredBeadWidthOuter) (heven : Even params.maxBeadCount)
    (htwo : 2 ≤ params.maxBeadCount) {t : F} (ht : 0 < t) {capped : BeadingStrategy F}
    (hcapped : capped = Limited (params.redistribute fracPi4) params.maxBeadCount)
    (hfits : capped.optimalBeadCount t ≤ params.maxBeadCount ∨
      params.minimumVariableLineRatio * params.preferredBeadWidthOuter ≤
        capped.optimalThickness params.maxBeadCount) :
    TilesWall t params.maxBeadCount (capped.compute t (capped.optimalBeadCount t)) := by
  subst hcapped
  obtain ⟨hparent, hmost⟩ :=
    optimalBeadCount_limited_le (params.redistribute fracPi4) params.maxBeadCount t
  generalize (Limited (params.redistribute fracPi4) params.maxBeadCount).optimalBeadCount t = n
    at hfits hparent hmost ⊢
  rw [compute]
  split_ifs with hle
  · rcases Nat.eq_zero_or_pos n with rfl | hn
    · rw [redistribute, compute, if_pos (.inl rfl)]
      exact tilesWall_nothing (by omega) ht
    · obtain ⟨ws, hlength, hrow⟩ := redistribute_row_of_le hopt houter ht hn hparent
      exact hrow.tilesWall_markCap (by omega) (hlength ▸ hle)
  · obtain rfl : n = params.maxBeadCount + 1 := by omega
    obtain ⟨m, hm⟩ := heven.two_dvd
    have hw := effectiveOptimalWidth_pos hopt houter
    have hmore : params.maxBeadCount - 2 + 2 <
        (params.redistribute fracPi4).optimalBeadCount t := by omega
    obtain ⟨-, hwide⟩ := inner_fits hopt houter hmore
    rw [Nat.cast_sub htwo] at hwide
    have htwo' : (2 : F) ≤ params.maxBeadCount := by exact_mod_cast htwo
    have hreach := hfits.resolve_left (by omega)
    rw [optimalThickness, optimalThickness_cap htwo] at hreach
    -- The row for the optimal thickness of the cap.
    obtain ⟨ws, hlength, hrow⟩ : ∃ ws, ws.length = params.maxBeadCount ∧
        Row ((params.redistribute fracPi4).optimalThickness params.maxBeadCount)
          ((params.redistribute fracPi4).compute
            ((params.redistribute fracPi4).optimalThickness params.maxBeadCount)
            params.maxBeadCount) ws := by
      rw [optimalThickness_cap htwo]
      have hinner := mul_nonneg (sub_nonneg.mpr htwo') hw.le
      refine redistribute_row hw houter (by omega) (by linarith) hreach fun hmany => ?_
      have hmany' : (3 : F) ≤ params.maxBeadCount := by exact_mod_cast hmany
      constructor <;> nlinarith
    have hle' : (params.redistribute fracPi4).optimalThickness params.maxBeadCount ≤ t := by
      rw [optimalThickness_cap htwo]
      push_cast at hwide
      linarith
    have htiles := hrow.tilesWall_markElided (by omega) (hlength.trans hm) hle'
    rw [← hm] at htiles
    simpa using htiles

/-- The beads of a stack tile the wall, for every thickness, unless the cap lays none at its
own optimal thickness. -/
theorem compute_tilesWall (fracPi4 : F) (params : BeadingFactoryParams F)
    (hopt : 0 < params.optimalWidth) (houter : 0 < params.preferredBeadWidthOuter)
    (heven : Even params.maxBeadCount) (htwo : 2 ≤ params.maxBeadCount)
    (hthin : params.printThinWalls = false) (hoffset : params.outerWallOffset = 0)
    {t : F} (ht : 0 < t)
    (hfits : (params.createStack fracPi4).optimalBeadCount t ≤ params.maxBeadCount ∨
      params.minimumVariableLineRatio * params.preferredBeadWidthOuter ≤
        (params.createStack fracPi4).optimalThickness params.maxBeadCount) :
    TilesWall t params.maxBeadCount ((params.createStack fracPi4).compute t
      ((params.createStack fracPi4).optimalBeadCount t)) :=
  limited_tilesWall hopt houter heven htwo ht (createStack_eq hthin hoffset) hfits

/-- A wall within the limit, and one that is capped. -/
theorem compute_tilesWall_default : [(43700 : ℚ), 100000].Forall fun t =>
    TilesWall t (default : BeadingFactoryParams ℚ).maxBeadCount
      ((createStack (355 / 452) (default : BeadingFactoryParams ℚ)).compute t
        ((createStack (355 / 452) (default : BeadingFactoryParams ℚ)).optimalBeadCount t)) := by
  have hpos : ∀ t ∈ [(43700 : ℚ), 100000], 0 < t := by decide
  refine List.forall_iff_forall_mem.mpr fun t ht => ?_
  exact compute_tilesWall (355 / 452) default (by decide) (by decide) (by decide) (by decide) rfl
    rfl (hpos t ht) (.inr (by decide +kernel))

/-- A variable line of at most two widths, as every fraction of one is, is no wider than the two
outer beads of the cap. -/
theorem compute_tilesWall_of_ratio (hopt : 0 < params.optimalWidth)
    (houter : 0 < params.preferredBeadWidthOuter) (heven : Even params.maxBeadCount)
    (htwo : 2 ≤ params.maxBeadCount) (hthin : params.printThinWalls = false)
    (hoffset : params.outerWallOffset = 0) (hratio : params.minimumVariableLineRatio ≤ 2)
    {t : F} (ht : 0 < t) :
    TilesWall t params.maxBeadCount ((params.createStack fracPi4).compute t
      ((params.createStack fracPi4).optimalBeadCount t)) := by
  refine limited_tilesWall hopt houter heven htwo ht (createStack_eq hthin hoffset) (.inr ?_)
  rw [createStack_eq hthin hoffset, optimalThickness, optimalThickness_cap htwo]
  have hwidth := effectiveOptimalWidth_pos hopt houter
  have htwo' : (2 : F) ≤ params.maxBeadCount := by exact_mod_cast htwo
  have hinner := mul_nonneg (sub_nonneg.mpr htwo') hwidth.le
  have houter' := mul_le_mul_of_nonneg_right hratio houter.le
  linarith

/-- Lines need three times their own width, so the two of the cap are never laid. -/
def wideThreshold : BeadingFactoryParams ℚ :=
  { (default : BeadingFactoryParams ℚ) with maxBeadCount := 2, minimumVariableLineRatio := 3 }

/-- Both sentinels then are at the one side of the wall. -/
theorem not_tilesWall_wideThreshold :
    (0 < wideThreshold.optimalWidth ∧ 0 < wideThreshold.preferredBeadWidthOuter ∧
      Even wideThreshold.maxBeadCount ∧ 2 ≤ wideThreshold.maxBeadCount ∧
      wideThreshold.printThinWalls = false ∧ wideThreshold.outerWallOffset = 0) ∧
    ¬ TilesWall 13000 wideThreshold.maxBeadCount ((createStack (355 / 452) wideThreshold).compute
      13000 ((createStack (355 / 452) wideThreshold).optimalBeadCount 13000)) := by
  refine ⟨by decide +kernel, fun h => absurd h.mirrored ?_⟩
  decide +kernel

end BeadingFactoryParams

end PinchNPrint.Walls
