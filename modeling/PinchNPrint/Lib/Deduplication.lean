/-
Removing repeated elements of a sorted list.

`dedupBy` keeps an element unless it counts as the same as the one kept before it. Of an ascending
list it leaves a strictly ascending one, and when only equal elements count as the same, no
element is lost. A union of ascending lists is taken by sorting their elements (`sortedUnion`).
-/

import Mathlib.Data.List.Sort

namespace List

variable {α : Type}

/-- The elements that do not count as the same as the one kept before them. -/
def dedupAfter (same : α → α → Bool) (kept : α) : List α → List α
  | [] => []
  | a :: rest => if same a kept then dedupAfter same kept rest else a :: dedupAfter same a rest

/-- `Vec::dedup_by`. -/
def dedupBy (same : α → α → Bool) : List α → List α
  | [] => []
  | a :: rest => a :: dedupAfter same a rest

/-- The elements of several lists in ascending order, each once. -/
def sortedUnion [LinearOrder α] (same : α → α → Bool) (l : List α) : List α :=
  (l.insertionSort (· ≤ ·)).dedupBy same

theorem dedupBy_subset (same : α → α → Bool) (l : List α) : l.dedupBy same ⊆ l := by
  have hafter : ∀ (rest : List α) (kept : α), dedupAfter same kept rest ⊆ rest := by
    intro rest
    induction rest with
    | nil => exact fun _ => Subset.refl _
    | cons a rest ih =>
      intro kept
      rw [dedupAfter]
      split_ifs
      · exact fun b hb => mem_cons_of_mem _ (ih kept hb)
      · exact cons_subset_cons a (ih a)
  cases l with
  | nil => exact Subset.refl _
  | cons a rest => exact cons_subset_cons a (hafter rest a)

section Sorted

variable [LinearOrder α] {same : α → α → Bool} {l : List α}

theorem pairwise_dedupAfter (hsame : ∀ a, same a a = true) {kept : α}
    (hl : (kept :: l).Pairwise (· ≤ ·)) : (kept :: dedupAfter same kept l).Pairwise (· < ·) := by
  induction l generalizing kept with
  | nil => exact pairwise_singleton _ _
  | cons a l ih =>
    obtain ⟨hkept, hal⟩ := pairwise_cons.mp hl
    obtain ⟨ha, hl'⟩ := pairwise_cons.mp hal
    rw [dedupAfter]
    split_ifs with hdrop
    · exact ih (pairwise_cons.mpr ⟨fun b hb => hkept b (mem_cons_of_mem _ hb), hl'⟩)
    · have hrest := ih hal
      have hlt : kept < a := by
        refine lt_of_le_of_ne (hkept a mem_cons_self) fun heq => hdrop ?_
        rw [heq]
        exact hsame a
      refine pairwise_cons.mpr ⟨fun b hb => ?_, hrest⟩
      rcases mem_cons.mp hb with rfl | hb
      · exact hlt
      · exact hlt.trans ((pairwise_cons.mp hrest).1 b hb)

/-- An ascending list is left strictly ascending. -/
theorem pairwise_dedupBy (hsame : ∀ a, same a a = true) (hl : l.Pairwise (· ≤ ·)) :
    (l.dedupBy same).Pairwise (· < ·) := by
  cases l with
  | nil => exact Pairwise.nil
  | cons a l => exact pairwise_dedupAfter hsame hl

theorem pairwise_sortedUnion (hsame : ∀ a, same a a = true) :
    (sortedUnion same l).Pairwise (· < ·) :=
  pairwise_dedupBy hsame (pairwise_insertionSort (· ≤ ·) l)

end Sorted

/-- No element is lost when only equal ones count as the same. -/
theorem mem_dedupBy {same : α → α → Bool} {l : List α}
    (hsame : ∀ a ∈ l, ∀ b ∈ l, same a b = true → a = b) {x : α} :
    x ∈ l.dedupBy same ↔ x ∈ l := by
  refine ⟨fun hx => dedupBy_subset same l hx, fun hx => ?_⟩
  have hafter : ∀ (rest : List α) (kept : α), kept ∈ l → (∀ a ∈ rest, a ∈ l) →
      x ∈ kept :: rest → x ∈ kept :: dedupAfter same kept rest := by
    intro rest
    induction rest with
    | nil => exact fun _ _ _ hx => hx
    | cons a rest ih =>
      intro kept hkept hrest hx
      have ha := hrest a mem_cons_self
      have hrest' : ∀ b ∈ rest, b ∈ l := fun b hb => hrest b (mem_cons_of_mem _ hb)
      rw [dedupAfter]
      split_ifs with hdrop
      · refine ih kept hkept hrest' ?_
        rcases mem_cons.mp hx with rfl | hx
        · exact mem_cons_self
        · rcases mem_cons.mp hx with rfl | hx
          · rw [hsame x ha kept hkept hdrop]
            exact mem_cons_self
          · exact mem_cons_of_mem _ hx
      · rcases mem_cons.mp hx with rfl | hx
        · exact mem_cons_self
        · exact mem_cons_of_mem _ (ih a ha hrest' hx)
  cases l with
  | nil => exact hx
  | cons a rest =>
    exact hafter rest a mem_cons_self (fun b hb => mem_cons_of_mem _ hb) hx

theorem mem_sortedUnion [LinearOrder α] {same : α → α → Bool} {l : List α}
    (hsame : ∀ a ∈ l, ∀ b ∈ l, same a b = true → a = b) {x : α} :
    x ∈ sortedUnion same l ↔ x ∈ l := by
  have hperm := perm_insertionSort (· ≤ ·) l
  rw [sortedUnion, mem_dedupBy fun a ha b hb => hsame a (hperm.mem_iff.mp ha) b
    (hperm.mem_iff.mp hb), hperm.mem_iff]

end List
