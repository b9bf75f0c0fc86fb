/-
Tilings of half-open intervals.

`Tiling start stop l lo hi` says that the pieces of `l`, each the interval from its
`start` to its `stop`, lie end to end from `lo` to `hi`. A tiling grows at its upper
end: by another piece (`snoc`), or by a longer last piece (`Tiling.extend`).
-/

import Mathlib.Order.Lattice
import Mathlib.Data.List.Chain

variable {P Z : Type} [LinearOrder Z] {start stop : P → Z}

/-- The pieces tile the interval from the first bound to the second. -/
inductive Tiling (start stop : P → Z) : List P → Z → Z → Prop
  | nil (z : Z) : Tiling start stop [] z z
  | snoc {l : List P} {lo : Z} {p : P} :
      Tiling start stop l lo (start p) → start p < stop p → Tiling start stop (l ++ [p]) lo (stop p)

namespace Tiling

variable {l : List P} {lo hi : Z}

theorem le (h : Tiling start stop l lo hi) : lo ≤ hi := by
  induction h with
  | nil z => exact le_refl z
  | snoc _ hlt ih => exact ih.trans hlt.le

theorem eq_of_nil (h : Tiling start stop [] lo hi) : lo = hi := by
  generalize hl : [] = l at h
  cases h with
  | nil => rfl
  | snoc => simp at hl

theorem ne_nil_of_lt (h : Tiling start stop l lo hi) (hlt : lo < hi) : l ≠ [] := by
  rintro rfl
  exact hlt.ne h.eq_of_nil

/-- Every piece is a proper interval within the bounds. -/
theorem bounds (h : Tiling start stop l lo hi) {p : P} (hp : p ∈ l) :
    lo ≤ start p ∧ start p < stop p ∧ stop p ≤ hi := by
  induction h with
  | nil => simp at hp
  | snoc htiles hlt ih =>
    rcases List.mem_append.mp hp with hp | hp
    · obtain ⟨hstart, hproper, hstop⟩ := ih hp
      exact ⟨hstart, hproper, hstop.trans hlt.le⟩
    · rw [List.mem_singleton.mp hp]
      exact ⟨htiles.le, hlt, le_refl _⟩

theorem start_head (h : Tiling start stop l lo hi) {p : P} (hp : l.head? = some p) :
    start p = lo := by
  induction h with
  | nil => cases hp
  | @snoc l lo q htiles _ ih =>
    cases l with
    | nil =>
      cases hp
      exact htiles.eq_of_nil.symm
    | cons first rest => exact ih hp

theorem stop_last (h : Tiling start stop l lo hi) {p : P} (hp : l.getLast? = some p) :
    stop p = hi := by
  cases h with
  | nil => cases hp
  | snoc =>
    rw [List.getLast?_concat] at hp
    cases hp
    rfl

/-- Each piece begins where the one before it ends. -/
theorem isChain (h : Tiling start stop l lo hi) : l.IsChain fun p q => stop p = start q := by
  induction h with
  | nil => exact .nil
  | snoc htiles _ ih =>
    refine List.isChain_append.mpr ⟨ih, .singleton _, ?_⟩
    rintro p hp q ⟨⟩
    exact htiles.stop_last hp

/-- The last piece may be replaced by a longer one. -/
theorem extend {p q : P} (h : Tiling start stop (l ++ [p]) lo hi) (hstart : start q = start p)
    (hstop : hi < stop q) : Tiling start stop (l ++ [q]) lo (stop q) := by
  generalize hl : l ++ [p] = pieces at h
  cases h with
  | nil => simp at hl
  | snoc htiles hlt =>
    obtain ⟨rfl, heq⟩ := List.append_inj' hl rfl
    cases heq
    refine .snoc (hstart ▸ htiles) ?_
    rw [hstart]
    exact hlt.trans hstop

end Tiling
