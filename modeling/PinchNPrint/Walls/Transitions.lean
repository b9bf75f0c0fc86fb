/-
Where the number of beads changes.

A strategy agrees with its transition at a count when no thickness below the transition
thickness has more beads, and every thickness above it does. Each decorator keeps the
agreement; the cap keeps it below the largest count. At the largest count it hands out the
transition thickness of its parent, but adds the bead only a hundredth of a millimetre below
the optimum, so there the two agree only if that comes first (`transitions_agree_iff`).

The anchor of a transition is computed by the base strategy and handed on unchanged. It
fits the thicknesses of the whole stack at every count but zero, where the first threshold of
the stack is its own (`anchorPos_eq_iff`).
-/

import PinchNPrint.Walls.Strategy
import Mathlib.Tactic.Positivity

namespace PinchNPrint.Walls

namespace BeadingStrategy

variable {F : Type} [Field F] [LinearOrder F] [IsStrictOrderedRing F]

section Counts

variable [FloorRing F]

/-- The count goes past `n` where the transition thickness of `n` says. -/
def Agrees (s : BeadingStrategy F) (n : Nat) : Prop :=
  ∀ t, (t < s.getTransitionThickness n → s.optimalBeadCount t ≤ n) ∧
    (s.getTransitionThickness n < t → n + 1 ≤ s.optimalBeadCount t)

/-! ### The base strategy -/

omit [LinearOrder F] [IsStrictOrderedRing F] [FloorRing F] in
theorem getTransitionThickness_distributed (w : F) (c : Nat) (split add : F) (n : Nat) :
    (Distributed w c split add).getTransitionThickness n =
      (n + middleThreshold split add n) * w := by
  rw [getTransitionThickness]
  push_cast
  ring

variable {w split add : F} {c : Nat}

omit [IsStrictOrderedRing F] [FloorRing F] in
theorem middleThreshold_mem (hsplit : 0 < split ∧ split < 1) (hadd : 0 < add ∧ add < 1) (n : Nat) :
    0 < middleThreshold split add n ∧ middleThreshold split add n < 1 := by
  rw [middleThreshold]
  split
  · exact hsplit
  · exact hadd

theorem lt_optimalBeadCount_distributed (hw : 0 < w) (hsplit : 0 < split ∧ split < 1)
    (hadd : 0 < add ∧ add < 1) (n : Nat) (t : F) :
    n < (Distributed w c split add).optimalBeadCount t ↔
      (Distributed w c split add).getTransitionThickness n ≤ t := by
  rw [getTransitionThickness_distributed, optimalBeadCount]
  have hmem := middleThreshold_mem hsplit hadd
  rcases le_or_gt 0 t with ht | ht
  · obtain ⟨k, hk⟩ := Int.eq_ofNat_of_zero_le (Int.floor_nonneg.mpr (div_nonneg ht hw.le))
    have hle : (k : F) * w ≤ t := by
      rw [← le_div_iff₀ hw]
      simpa [hk] using Int.floor_le (t / w)
    have hlt : t < (k + 1 : F) * w := by
      rw [← div_lt_iff₀ hw]
      simpa [hk] using Int.lt_floor_add_one (t / w)
    rw [trunc, if_pos (div_nonneg ht hw.le), hk]
    simp only [Int.toNat_natCast, Int.cast_natCast]
    obtain ⟨hpos, hone⟩ := hmem n
    rcases lt_trichotomy n k with hnk | rfl | hnk
    · have hcast : (n + 1 : F) ≤ k := by exact_mod_cast hnk
      refine iff_of_true (by omega) (le_trans ?_ hle)
      exact mul_le_mul_of_nonneg_right (by linarith) hw.le
    · have hsame : w * middleThreshold split add n ≤ t - n * w ↔
          (n + middleThreshold split add n) * w ≤ t := by
        constructor <;> intro h <;> nlinarith
      rw [← hsame]
      split_ifs with hrest
      · exact iff_of_true (by omega) hrest
      · exact iff_of_false (by omega) hrest
    · have hcast : (k + 1 : F) ≤ n := by exact_mod_cast hnk
      refine iff_of_false ?_ (not_le.mpr (hlt.trans_le ?_))
      · split <;> omega
      · exact mul_le_mul_of_nonneg_right (by linarith) hw.le
  · have hquot : t / w < 0 := div_neg_of_neg_of_pos ht hw
    have hceil : ⌈t / w⌉ ≤ 0 := Int.ceil_le.mpr (by simpa using hquot.le)
    have hrest : t - (⌈t / w⌉ : F) * w ≤ 0 := by
      have := (div_le_iff₀ hw).mp (Int.le_ceil (t / w))
      linarith
    rw [trunc, if_neg (not_le.mpr hquot), Int.toNat_of_nonpos hceil,
      if_neg (not_le.mpr (hrest.trans_lt (mul_pos hw (hmem 0).1)))]
    refine iff_of_false (by omega) (not_le.mpr (ht.trans_le ?_))
    exact mul_nonneg (add_nonneg n.cast_nonneg (hmem n).1.le) hw.le

theorem monotone_distributed (hw : 0 < w) (hsplit : 0 < split ∧ split < 1)
    (hadd : 0 < add ∧ add < 1) : Monotone (Distributed w c split add).optimalBeadCount := by
  intro t t' hle
  refine le_of_forall_lt fun n hn => ?_
  rw [lt_optimalBeadCount_distributed hw hsplit hadd] at hn ⊢
  exact hn.trans hle

theorem agrees_distributed (hw : 0 < w) (hsplit : 0 < split ∧ split < 1)
    (hadd : 0 < add ∧ add < 1) (n : Nat) : (Distributed w c split add).Agrees n := by
  intro t
  constructor
  · intro hbelow
    refine not_lt.mp fun hn => not_lt.mpr ?_ hbelow
    exact (lt_optimalBeadCount_distributed hw hsplit hadd n t).mp hn
  · intro habove
    exact (lt_optimalBeadCount_distributed hw hsplit hadd n t).mpr habove.le

/-! ### The outer walls -/

section Redistribute

variable {parent : BeadingStrategy F} {outer ratio : F}

section

omit [IsStrictOrderedRing F]

theorem optimalBeadCount_of_narrow {t : F} (h : t < ratio * outer) :
    (Redistribute parent outer ratio).optimalBeadCount t = 0 := by
  rw [optimalBeadCount, if_pos h]

theorem optimalBeadCount_of_thin {t : F} (h : ratio * outer ≤ t) (hthin : t ≤ 2 * outer) :
    (Redistribute parent outer ratio).optimalBeadCount t =
      if (1 + parent.getSplitMiddleThreshold) * outer < t then 2 else 1 := by
  rw [optimalBeadCount, if_neg (not_lt.mpr h), if_pos hthin]

end

theorem optimalBeadCount_of_wide (houter : 0 < outer) (hratio : ratio ≤ 1) {t : F}
    (h : 2 * outer < t) : (Redistribute parent outer ratio).optimalBeadCount t =
      parent.optimalBeadCount (t - 2 * outer) + 2 := by
  have hreach : ratio * outer ≤ t := by nlinarith
  rw [optimalBeadCount, if_neg (not_lt.mpr hreach), if_neg (not_le.mpr h)]

omit [IsStrictOrderedRing F] in
theorem optimalBeadCount_thin_le {t : F} (hthin : t ≤ 2 * outer) :
    (Redistribute parent outer ratio).optimalBeadCount t ≤ 2 := by
  rw [optimalBeadCount, if_pos hthin]
  split_ifs <;> omega

theorem monotone_redistribute (houter : 0 < outer) (hratio : ratio ≤ 1)
    (hparent : Monotone parent.optimalBeadCount) :
    Monotone (Redistribute parent outer ratio).optimalBeadCount := by
  intro t t' hle
  rcases lt_or_ge t (ratio * outer) with hnarrow | hreach
  · rw [optimalBeadCount_of_narrow hnarrow]
    exact Nat.zero_le _
  · rcases le_or_gt t' (2 * outer) with hthin | hwide
    · rw [optimalBeadCount_of_thin hreach (hle.trans hthin),
        optimalBeadCount_of_thin (hreach.trans hle) hthin]
      split_ifs with h h'
      · exact le_refl 2
      · exact absurd (h.trans_le hle) h'
      · omega
      · exact le_refl 1
    · rw [optimalBeadCount_of_wide houter hratio hwide]
      rcases le_or_gt t (2 * outer) with hthin | hwide'
      · exact (optimalBeadCount_thin_le hthin).trans (Nat.le_add_left ..)
      · rw [optimalBeadCount_of_wide houter hratio hwide']
        exact Nat.add_le_add_right (hparent (by linarith)) 2

theorem agrees_redistribute (houter : 0 < outer) (hratio : ratio ≤ 1)
    (hsplit : 0 < parent.getSplitMiddleThreshold ∧ parent.getSplitMiddleThreshold < 1)
    (hpos : ∀ n, 0 ≤ parent.getTransitionThickness n) (hparent : ∀ n, parent.Agrees n) (n : Nat) :
    (Redistribute parent outer ratio).Agrees n := by
  obtain ⟨hsplit0, hsplit1⟩ := hsplit
  intro t
  match n with
  | 0 =>
    rw [getTransitionThickness]
    refine ⟨fun hbelow => (optimalBeadCount_of_narrow hbelow).le, fun habove => ?_⟩
    rcases le_or_gt t (2 * outer) with hthin | hwide
    · rw [optimalBeadCount_of_thin habove.le hthin]
      split_ifs <;> omega
    · rw [optimalBeadCount_of_wide houter hratio hwide]
      omega
  | 1 =>
    rw [getTransitionThickness]
    constructor
    · intro hbelow
      rcases lt_or_ge t (ratio * outer) with hnarrow | hreach
      · rw [optimalBeadCount_of_narrow hnarrow]
        omega
      · rw [optimalBeadCount_of_thin hreach (by nlinarith), if_neg (not_lt.mpr hbelow.le)]
    · intro habove
      rcases le_or_gt t (2 * outer) with hthin | hwide
      · rw [optimalBeadCount_of_thin (by nlinarith) hthin, if_pos habove]
      · rw [optimalBeadCount_of_wide houter hratio hwide]
        omega
  | n + 2 =>
    rw [getTransitionThickness]
    constructor
    · intro hbelow
      rcases le_or_gt t (2 * outer) with hthin | hwide
      · exact (optimalBeadCount_thin_le hthin).trans (Nat.le_add_left ..)
      · rw [optimalBeadCount_of_wide houter hratio hwide]
        exact Nat.add_le_add_right ((hparent n _).1 (by linarith)) 2
    · intro habove
      have hwide : 2 * outer < t := (le_add_of_nonneg_left (hpos n)).trans_lt habove
      rw [optimalBeadCount_of_wide houter hratio hwide]
      have hinner := (hparent n (t - 2 * outer)).2 (by linarith)
      omega

end Redistribute

/-! ### Thin walls, and the outer wall moved -/

section Widening

variable {parent : BeadingStrategy F} {w minInput minOutput : F}

section

omit [IsStrictOrderedRing F]

theorem monotone_widening (hparent : Monotone parent.optimalBeadCount) :
    Monotone (Widening parent w minInput minOutput).optimalBeadCount := by
  intro t t' hle
  have hcounts := hparent hle
  simp only [optimalBeadCount]
  split_ifs with h1 h2 h3 h4 h5 <;> first | omega | exact absurd (hle.trans_lt ‹_›) ‹_›

theorem agrees_widening (hmin : ∀ n, minInput ≤ parent.getTransitionThickness (n + 1))
    (hparent : ∀ n, parent.Agrees n) (n : Nat) :
    (Widening parent w minInput minOutput).Agrees n := by
  intro t
  match n with
  | 0 =>
    rw [getTransitionThickness, optimalBeadCount]
    constructor
    · intro hbelow
      rw [if_pos hbelow]
    · intro habove
      rw [if_neg (not_lt.mpr habove.le)]
      split_ifs <;> omega
  | n + 1 =>
    obtain ⟨hbelow, habove⟩ := hparent (n + 1) t
    rw [getTransitionThickness, optimalBeadCount]
    refine ⟨fun h => ?_, fun h => ?_⟩
    · have hcount := hbelow h
      split_ifs <;> omega
    · have hcount := habove h
      rw [if_neg (not_lt.mpr ((hmin n).trans h.le))]
      split_ifs <;> omega

end

end Widening

/-! ### The cap -/

section Limited

variable {parent : BeadingStrategy F} {N : Nat}

section

omit [IsStrictOrderedRing F]

theorem monotone_limited (hparent : Monotone parent.optimalBeadCount) :
    Monotone (Limited parent N).optimalBeadCount := by
  intro t t' hle
  have hcounts := hparent hle
  simp only [optimalBeadCount]
  split_ifs <;> first | omega | exact absurd (hle.trans_lt ‹_›) ‹_›

theorem agrees_limited_of_lt {n : Nat} (hn : n < N) (hparent : parent.Agrees n) :
    (Limited parent N).Agrees n := by
  intro t
  obtain ⟨hbelow, habove⟩ := hparent t
  rw [getTransitionThickness, optimalBeadCount]
  refine ⟨fun h => ?_, fun h => ?_⟩
  · have hcount := hbelow h
    rw [if_pos (by omega)]
    exact hcount
  · have hcount := habove h
    split_ifs <;> omega

end

/-- At the cap the transition thickness must not be below the thickness the bead is added at. -/
theorem agrees_limited_iff (hparent : parent.Agrees N) (hnext : parent.Agrees (N + 1))
    (hopt : parent.optimalThickness (N + 1) ≤ parent.getTransitionThickness (N + 1)) :
    (Limited parent N).Agrees N ↔
      parent.optimalThickness (N + 1) - HUNDREDTH_MM ≤ parent.getTransitionThickness N := by
  constructor
  · intro hagrees
    by_contra! hgap
    -- Between the two, the parent has the bead and the cap does not.
    obtain ⟨t, habove, hbelow⟩ := exists_between hgap
    have hcount : parent.optimalBeadCount t = N + 1 := by
      have hle := (hnext t).1 (hbelow.trans_le ((sub_le_self _ (by simp [HUNDREDTH_MM])).trans hopt))
      have hge := (hparent t).2 habove
      omega
    have hmore := (hagrees t).2 habove
    simp [optimalBeadCount, hcount, hbelow] at hmore
  · intro hgap t
    obtain ⟨hbelow, habove⟩ := hparent t
    rw [getTransitionThickness, optimalBeadCount]
    refine ⟨fun h => ?_, fun h => ?_⟩
    · have hcount := hbelow h
      rw [if_pos hcount]
      exact hcount
    · have hcount := habove h
      rw [if_neg (by omega), if_neg (not_lt.mpr (hgap.trans h.le))]
      split_ifs <;> omega

end Limited

end Counts

/-! ### Anchors -/

omit [Field F] [LinearOrder F] [IsStrictOrderedRing F] in
theorem middleThreshold_add_two (split add : F) (n : Nat) :
    middleThreshold split add (n + 2) = middleThreshold split add n := by
  rw [middleThreshold, middleThreshold, Nat.add_mod_right]

omit [IsStrictOrderedRing F] in
theorem getTransitionAnchorPos_distributed {w split add : F} {c : Nat} (hw : 0 < w) (n : Nat) :
    (Distributed w c split add).getTransitionAnchorPos n = 1 - middleThreshold split add n := by
  have hstep : (Distributed w c split add).optimalThickness (n + 1) -
      (Distributed w c split add).optimalThickness n = w := by
    simp only [optimalThickness]
    push_cast
    ring
  have hinto : (Distributed w c split add).getTransitionThickness n -
      (Distributed w c split add).optimalThickness n = middleThreshold split add n * w := by
    rw [getTransitionThickness_distributed, optimalThickness]
    ring
  simp only [getTransitionAnchorPos]
  rw [hstep, hinto, if_neg (not_le.mpr hw), mul_div_cancel_right₀ _ hw.ne']

end BeadingStrategy

/-! ### The stack -/

namespace BeadingFactoryParams

open BeadingStrategy

variable {F : Type} [Field F] [LinearOrder F]

/-- The transition thickness of no bead at all. -/
def firstThreshold (params : BeadingFactoryParams F) : F :=
  if params.printThinWalls then params.minInputWidth
  else params.minimumVariableLineRatio * params.preferredBeadWidthOuter

variable (fracPi4 : F) (params : BeadingFactoryParams F)

theorem getTransitionThickness_preLimited_zero :
    (params.preLimited fracPi4).getTransitionThickness 0 = params.firstThreshold := by
  rw [preLimited, preOuterWall, firstThreshold]
  split_ifs <;> rfl

theorem getTransitionThickness_preLimited_succ (n : Nat) :
    (params.preLimited fracPi4).getTransitionThickness (n + 1) =
      (params.redistribute fracPi4).getTransitionThickness (n + 1) := by
  rw [preLimited, preOuterWall]
  split_ifs <;> rfl

theorem optimalThickness_preLimited (n : Nat) :
    (params.preLimited fracPi4).optimalThickness n =
      (params.redistribute fracPi4).optimalThickness n := by
  rw [preLimited, preOuterWall]
  split_ifs <;> rfl

theorem getTransitionAnchorPos_createStack (n : Nat) :
    (params.createStack fracPi4).getTransitionAnchorPos n =
      (params.distributed fracPi4).getTransitionAnchorPos n := by
  rw [createStack, getTransitionAnchorPos, preLimited, preOuterWall]
  split_ifs <;> rfl

variable {fracPi4 params}

section Ordered

variable [IsStrictOrderedRing F]

theorem clampThreshold_mem (x : F) : 0 < clampThreshold x ∧ clampThreshold x < 1 := by
  constructor
  · exact lt_min (lt_max_of_lt_right (by norm_num)) (by norm_num)
  · exact (min_le_right _ _).trans_lt (by norm_num)

theorem middleThreshold_stack_mem (fracPi4 : F) (params : BeadingFactoryParams F) (n : Nat) :
    0 < middleThreshold (params.wallSplitMiddleThreshold fracPi4)
        (params.wallAddMiddleThreshold fracPi4) n ∧
      middleThreshold (params.wallSplitMiddleThreshold fracPi4)
        (params.wallAddMiddleThreshold fracPi4) n < 1 :=
  middleThreshold_mem (clampThreshold_mem _) (clampThreshold_mem _) n

section

omit [IsStrictOrderedRing F]

theorem effectiveOptimalWidth_pos (hopt : 0 < params.optimalWidth)
    (houter : 0 < params.preferredBeadWidthOuter) : 0 < params.effectiveOptimalWidth := by
  rw [effectiveOptimalWidth]
  split_ifs
  · exact houter
  · exact hopt

theorem optimalThickness_redistribute (n : Nat) :
    (params.redistribute fracPi4).optimalThickness (n + 2) =
      n * params.effectiveOptimalWidth + 2 * params.preferredBeadWidthOuter := by
  have hinner : n + 2 - n = 2 := by omega
  simp only [redistribute, distributed, optimalThickness, Nat.add_sub_cancel, hinner]
  push_cast
  ring

theorem getTransitionThickness_redistribute (n : Nat) :
    (params.redistribute fracPi4).getTransitionThickness (n + 2) =
      (n + middleThreshold (params.wallSplitMiddleThreshold fracPi4)
        (params.wallAddMiddleThreshold fracPi4) n) * params.effectiveOptimalWidth +
        2 * params.preferredBeadWidthOuter := by
  rw [redistribute, getTransitionThickness, distributed, getTransitionThickness_distributed]

theorem optimalThickness_redistribute_zero :
    (params.redistribute fracPi4).optimalThickness 0 = 0 := by
  simp [redistribute, distributed, optimalThickness]

theorem optimalThickness_redistribute_one :
    (params.redistribute fracPi4).optimalThickness 1 = params.preferredBeadWidthOuter := by
  simp [redistribute, distributed, optimalThickness]

end

/-- Where the transition of the stack lies between its optima. -/
def transitionFraction (stack : BeadingStrategy F) (n : Nat) : F :=
  (stack.getTransitionThickness n - stack.optimalThickness n) /
    (stack.optimalThickness (n + 1) - stack.optimalThickness n)

omit [IsStrictOrderedRing F] in
theorem transitionFraction_zero :
    transitionFraction (params.createStack fracPi4) 0 =
      params.firstThreshold / params.preferredBeadWidthOuter := by
  simp only [transitionFraction, createStack, getTransitionThickness, optimalThickness,
    getTransitionThickness_preLimited_zero, optimalThickness_preLimited,
    optimalThickness_redistribute_zero, zero_add, optimalThickness_redistribute_one, sub_zero]

theorem transitionFraction_succ (hopt : 0 < params.optimalWidth)
    (houter : 0 < params.preferredBeadWidthOuter) (n : Nat) :
    transitionFraction (params.createStack fracPi4) (n + 1) =
      middleThreshold (params.wallSplitMiddleThreshold fracPi4)
        (params.wallAddMiddleThreshold fracPi4) (n + 1) := by
  have hw := effectiveOptimalWidth_pos hopt houter
  simp only [transitionFraction, createStack, getTransitionThickness, optimalThickness,
    getTransitionThickness_preLimited_succ, optimalThickness_preLimited]
  match n with
  | 0 =>
    have hthickness : (params.redistribute fracPi4).getTransitionThickness (0 + 1) =
        (1 + params.wallSplitMiddleThreshold fracPi4) * params.preferredBeadWidthOuter := rfl
    rw [hthickness, optimalThickness_redistribute, optimalThickness_redistribute_one,
      div_eq_iff (by push_cast; linarith)]
    simp only [middleThreshold]
    push_cast
    ring
  | n + 1 =>
    rw [getTransitionThickness_redistribute, optimalThickness_redistribute,
      show n + 1 + 1 + 1 = n + 1 + 2 from rfl, optimalThickness_redistribute,
      middleThreshold_add_two, div_eq_iff (by push_cast; linarith)]
    push_cast
    ring

/-- The anchor of a transition fits the thicknesses of the stack, except where the first
threshold of the stack is not the one of its base. -/
theorem anchorPos_eq_iff (fracPi4 : F) (params : BeadingFactoryParams F)
    (hopt : 0 < params.optimalWidth) (houter : 0 < params.preferredBeadWidthOuter) (n : Nat) :
    (0 ≤ (params.createStack fracPi4).getTransitionAnchorPos n ∧
      (params.createStack fracPi4).getTransitionAnchorPos n ≤ 1 ∧
      (params.createStack fracPi4).getTransitionAnchorPos n =
        1 - transitionFraction (params.createStack fracPi4) n) ↔
      (n = 0 → params.firstThreshold =
        params.wallAddMiddleThreshold fracPi4 * params.preferredBeadWidthOuter) := by
  have hw := effectiveOptimalWidth_pos hopt houter
  have hanchor : (params.createStack fracPi4).getTransitionAnchorPos n =
      1 - middleThreshold (params.wallSplitMiddleThreshold fracPi4)
        (params.wallAddMiddleThreshold fracPi4) n := by
    rw [getTransitionAnchorPos_createStack, distributed, getTransitionAnchorPos_distributed hw]
  obtain ⟨hpos, hone⟩ := middleThreshold_stack_mem fracPi4 params n
  rw [hanchor, sub_nonneg, sub_le_self_iff, and_iff_right hone.le, and_iff_right hpos.le,
    sub_right_inj]
  cases n with
  | zero =>
    rw [transitionFraction_zero, eq_div_iff houter.ne', eq_comm]
    simp [middleThreshold]
  | succ n =>
    rw [transitionFraction_succ hopt houter]
    simp

end Ordered

/-- By default the first transition is at half a line, and its anchor that of nine tenths. -/
theorem anchorPos_default :
    ((createStack (355 / 452) (default : BeadingFactoryParams ℚ)).getTransitionAnchorPos 0 ≠
      1 - transitionFraction (createStack (355 / 452) default) 0) ∧
      0 < (default : BeadingFactoryParams ℚ).optimalWidth ∧
      0 < (default : BeadingFactoryParams ℚ).preferredBeadWidthOuter ∧
      (default : BeadingFactoryParams ℚ).minimumVariableLineRatio ≤ 1 ∧
      Even (default : BeadingFactoryParams ℚ).maxBeadCount ∧
      2 ≤ (default : BeadingFactoryParams ℚ).maxBeadCount := by
  decide +kernel

theorem anchorPos_default_one :
    0 ≤ (createStack (355 / 452) (default : BeadingFactoryParams ℚ)).getTransitionAnchorPos 1 ∧
      (createStack (355 / 452) (default : BeadingFactoryParams ℚ)).getTransitionAnchorPos 1 ≤ 1 ∧
      (createStack (355 / 452) (default : BeadingFactoryParams ℚ)).getTransitionAnchorPos 1 =
        1 - transitionFraction (createStack (355 / 452) default) 1 :=
  (anchorPos_eq_iff (355 / 452) default (by decide) (by decide) 1).mpr fun h => by cases h

section Counts

variable [IsStrictOrderedRing F] [FloorRing F]

omit [FloorRing F] in
theorem le_getTransitionThickness_redistribute (hopt : 0 < params.optimalWidth)
    (houter : 0 < params.preferredBeadWidthOuter) (n : Nat) :
    params.preferredBeadWidthOuter ≤
      (params.redistribute fracPi4).getTransitionThickness (n + 1) := by
  match n with
  | 0 =>
    have hsplit : 0 < params.wallSplitMiddleThreshold fracPi4 := (clampThreshold_mem _).1
    change _ ≤ (1 + params.wallSplitMiddleThreshold fracPi4) * params.preferredBeadWidthOuter
    nlinarith
  | n + 1 =>
    have hw := effectiveOptimalWidth_pos hopt houter
    rw [getTransitionThickness_redistribute]
    have hinner := mul_pos
      (add_pos_of_nonneg_of_pos n.cast_nonneg (middleThreshold_stack_mem fracPi4 params n).1) hw
    linarith

theorem agrees_redistribute_stack (fracPi4 : F) (hopt : 0 < params.optimalWidth)
    (houter : 0 < params.preferredBeadWidthOuter)
    (hratio : params.minimumVariableLineRatio ≤ 1) (n : Nat) :
    (params.redistribute fracPi4).Agrees n := by
  have hw := effectiveOptimalWidth_pos hopt houter
  refine agrees_redistribute houter hratio (clampThreshold_mem _) (fun n => ?_)
    (agrees_distributed hw (clampThreshold_mem _) (clampThreshold_mem _)) n
  rw [getTransitionThickness_distributed]
  exact (mul_pos (add_pos_of_nonneg_of_pos n.cast_nonneg (middleThreshold_stack_mem fracPi4 params n).1) hw).le

theorem agrees_preLimited (fracPi4 : F) (hopt : 0 < params.optimalWidth)
    (houter : 0 < params.preferredBeadWidthOuter)
    (hratio : params.minimumVariableLineRatio ≤ 1)
    (hmin : params.minInputWidth ≤ params.preferredBeadWidthOuter) (n : Nat) :
    (params.preLimited fracPi4).Agrees n := by
  have hredistribute := agrees_redistribute_stack fracPi4 hopt houter hratio
  have houterWall : (params.preOuterWall fracPi4).Agrees n := by
    rw [preOuterWall]
    split_ifs
    · exact agrees_widening
        (fun n => hmin.trans (le_getTransitionThickness_redistribute hopt houter n)) hredistribute n
    · exact hredistribute n
  rw [preLimited]
  split_ifs
  · exact houterWall
  · exact houterWall

theorem monotone_preLimited (hopt : 0 < params.optimalWidth)
    (houter : 0 < params.preferredBeadWidthOuter)
    (hratio : params.minimumVariableLineRatio ≤ 1) :
    Monotone (params.preLimited fracPi4).optimalBeadCount := by
  have hw := effectiveOptimalWidth_pos hopt houter
  have hredistribute : Monotone (params.redistribute fracPi4).optimalBeadCount :=
    monotone_redistribute houter hratio
      (monotone_distributed hw (clampThreshold_mem _) (clampThreshold_mem _))
  have houterWall : Monotone (params.preOuterWall fracPi4).optimalBeadCount := by
    rw [preOuterWall]
    split_ifs
    · exact monotone_widening hredistribute
    · exact hredistribute
  rw [preLimited]
  split_ifs
  · exact houterWall
  · exact houterWall

/-- The counts of a stack grow with the thickness, and go up at its transition thicknesses up
to the cap exactly if the cap adds its bead no later. -/
theorem transitions_agree_iff (fracPi4 : F) (params : BeadingFactoryParams F)
    (hopt : 0 < params.optimalWidth) (houter : 0 < params.preferredBeadWidthOuter)
    (hratio : params.minimumVariableLineRatio ≤ 1)
    (hmin : params.minInputWidth ≤ params.preferredBeadWidthOuter)
    (heven : Even params.maxBeadCount) (htwo : 2 ≤ params.maxBeadCount) :
    (Monotone (params.createStack fracPi4).optimalBeadCount ∧
      ∀ n ≤ params.maxBeadCount, (params.createStack fracPi4).Agrees n) ↔
      params.effectiveOptimalWidth * (1 - params.wallAddMiddleThreshold fracPi4) ≤
        HUNDREDTH_MM := by
  have hw := effectiveOptimalWidth_pos hopt houter
  have hagrees := agrees_preLimited fracPi4 hopt houter hratio hmin
  obtain ⟨k, hk⟩ := Nat.exists_eq_add_of_le' htwo
  have hparity : k % 2 = 0 := by
    have := Nat.even_iff.mp heven
    omega
  -- The thicknesses at the cap.
  have hcap : (params.preLimited fracPi4).getTransitionThickness (k + 2) =
      (k + params.wallAddMiddleThreshold fracPi4) * params.effectiveOptimalWidth +
        2 * params.preferredBeadWidthOuter := by
    rw [getTransitionThickness_preLimited_succ, getTransitionThickness_redistribute,
      middleThreshold, if_neg (by omega)]
  have hnext : (params.preLimited fracPi4).getTransitionThickness (k + 2 + 1) =
      (k + 1 + params.wallSplitMiddleThreshold fracPi4) * params.effectiveOptimalWidth +
        2 * params.preferredBeadWidthOuter := by
    rw [getTransitionThickness_preLimited_succ, show k + 2 + 1 = k + 1 + 2 from rfl,
      getTransitionThickness_redistribute, middleThreshold, if_pos (by omega)]
    push_cast
    rfl
  have hopt' : (params.preLimited fracPi4).optimalThickness (k + 2 + 1) =
      (k + 1) * params.effectiveOptimalWidth + 2 * params.preferredBeadWidthOuter := by
    rw [optimalThickness_preLimited, show k + 2 + 1 = k + 1 + 2 from rfl,
      optimalThickness_redistribute]
    push_cast
    rfl
  have hsplit : 0 < params.wallSplitMiddleThreshold fracPi4 := (clampThreshold_mem _).1
  have hadd : params.wallAddMiddleThreshold fracPi4 < 1 := (clampThreshold_mem _).2
  have hlast : (params.createStack fracPi4).Agrees params.maxBeadCount ↔
      params.effectiveOptimalWidth * (1 - params.wallAddMiddleThreshold fracPi4) ≤
        HUNDREDTH_MM := by
    rw [createStack, hk, agrees_limited_iff (hagrees _) (hagrees _)
      (by rw [hopt', hnext]; nlinarith), hopt', hcap]
    constructor <;> intro h <;> linarith
  rw [← hlast]
  constructor
  · rintro ⟨-, hall⟩
    exact hall _ (le_refl _)
  · intro hend
    refine ⟨monotone_limited (monotone_preLimited hopt houter hratio), fun n hn => ?_⟩
    rcases hn.lt_or_eq with hlt | rfl
    · exact agrees_limited_of_lt hlt (hagrees n)
    · exact hend

end Counts

/-- By default the eleventh bead comes 0.01 mm below its optimum, and its transition earlier. -/
theorem not_agrees_default :
    (createStack (355 / 452) (default : BeadingFactoryParams ℚ)).getTransitionThickness 10 < 43700 ∧
      ¬ 10 + 1 ≤ (createStack (355 / 452) (default : BeadingFactoryParams ℚ)).optimalBeadCount
        43700 ∧
      0 < (default : BeadingFactoryParams ℚ).optimalWidth ∧
      0 < (default : BeadingFactoryParams ℚ).preferredBeadWidthOuter ∧
      (default : BeadingFactoryParams ℚ).minimumVariableLineRatio ≤ 1 ∧
      (default : BeadingFactoryParams ℚ).minInputWidth ≤
        (default : BeadingFactoryParams ℚ).preferredBeadWidthOuter ∧
      Even (default : BeadingFactoryParams ℚ).maxBeadCount ∧
      (default : BeadingFactoryParams ℚ).maxBeadCount = 10 := by
  decide +kernel

/-- Beads at least as wide as the lines leave less than the margin of the cap. -/
def wideBeads : BeadingFactoryParams ℚ :=
  { (default : BeadingFactoryParams ℚ) with minOutputWidth := 4500 }

theorem agrees_wideBeads :
    Monotone (createStack (355 / 452) wideBeads).optimalBeadCount ∧
      ∀ n ≤ wideBeads.maxBeadCount, (createStack (355 / 452) wideBeads).Agrees n :=
  (transitions_agree_iff (355 / 452) wideBeads (by decide) (by decide) (by decide +kernel)
    (by decide) (by decide) (by decide)).mpr (by decide +kernel)

end BeadingFactoryParams

end PinchNPrint.Walls
