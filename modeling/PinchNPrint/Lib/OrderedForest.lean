/-
Parent tables whose pointers go down.

A table of naturals is read as a forest: the parent of `i` is the entry at `i`, and an
index that is its own parent is a root. In an ordered forest no pointer goes up, so
chasing the parents ends within as many steps as the table has entries
(`Ordered.chase_eq`). Redirecting an index to its own root changes no root
(`sameRoots_compress`); redirecting a root to a lower one merges their two trees and
leaves the others alone (`root_link`).
-/

import Mathlib.Data.List.Basic
import Mathlib.Data.Nat.Init

namespace OrderedForest

/-- Follow the parents from `last` on, at most `fuel` of them. -/
def chase (table : List Nat) : Nat → Nat → Option Nat
  | 0, _ => none
  | fuel + 1, last =>
    match table[last]? with
    | none => none
    | some lower => if lower = last then some last else chase table fuel lower

/-- No parent lies above its child. -/
def Ordered (table : List Nat) : Prop :=
  ∀ {i lower : Nat}, table[i]? = some lower → lower ≤ i

/-- `r` is the root of the tree that `i` is in. -/
inductive Root (table : List Nat) : Nat → Nat → Prop where
  | self {r : Nat} : table[r]? = some r → Root table r r
  | parent {i lower r : Nat} : table[i]? = some lower → lower ≠ i → Root table lower r →
      Root table i r

variable {table : List Nat} {i j r s : Nat}

theorem Root.isRoot (h : Root table i r) : table[r]? = some r := by
  induction h with
  | self hr => exact hr
  | parent _ _ _ ih => exact ih

theorem Root.unique (h : Root table i r) (h' : Root table i s) : r = s := by
  induction h with
  | self hr =>
    cases h' with
    | self _ => rfl
    | parent hs hne _ => exact absurd (Option.some.inj (hr.symm.trans hs)).symm hne
  | parent hi hne _ ih =>
    cases h' with
    | self hs => exact absurd (Option.some.inj (hi.symm.trans hs)) hne
    | parent hi' _ htail =>
      obtain rfl := Option.some.inj (hi.symm.trans hi')
      exact ih htail

theorem Root.index_lt (h : Root table i r) : i < table.length := by
  cases h with
  | self hr => exact (List.getElem?_eq_some_iff.mp hr).1
  | parent hi _ _ => exact (List.getElem?_eq_some_iff.mp hi).1

theorem Root.root_lt (h : Root table i r) : r < table.length :=
  (List.getElem?_eq_some_iff.mp h.isRoot).1

namespace Ordered

theorem root_le (hord : Ordered table) (h : Root table i r) : r ≤ i := by
  induction h with
  | self _ => exact Nat.le_refl _
  | parent hi _ _ ih => exact Nat.le_trans ih (hord hi)

theorem exists_root (hord : Ordered table) (hi : i < table.length) : ∃ r, Root table i r := by
  induction i using Nat.strongRecOn with
  | ind i ih =>
    have hget := List.getElem?_eq_getElem hi
    by_cases hself : table[i] = i
    · exact ⟨i, .self (hget.trans (congrArg some hself))⟩
    · have hlt : table[i] < i := Nat.lt_of_le_of_ne (hord hget) hself
      obtain ⟨r, hr⟩ := ih _ hlt (Nat.lt_trans hlt hi)
      exact ⟨r, .parent hget hself hr⟩

/-- Chasing finds the root as soon as there is more fuel than the index is high. -/
theorem chase_of_root (hord : Ordered table) (h : Root table i r) {fuel : Nat} (hfuel : i < fuel) :
    chase table fuel i = some r := by
  induction h generalizing fuel with
  | self hr =>
    obtain ⟨fuel, rfl⟩ := Nat.exists_eq_succ_of_ne_zero (Nat.ne_zero_of_lt hfuel)
    simp [chase, hr]
  | parent hi hne _ ih =>
    obtain ⟨fuel, rfl⟩ := Nat.exists_eq_succ_of_ne_zero (Nat.ne_zero_of_lt hfuel)
    have hle := hord hi
    simp only [chase, hi, if_neg hne]
    apply ih
    omega

/-- Chasing an index of the table always ends, at the root. -/
theorem chase_eq (hord : Ordered table) (hi : i < table.length) :
    ∃ r, chase table table.length i = some r ∧ Root table i r := by
  obtain ⟨r, hr⟩ := hord.exists_root hi
  exact ⟨r, hord.chase_of_root hr hi, hr⟩

/-- Redirecting an index to a lower one keeps the table ordered. -/
theorem set (hord : Ordered table) (h : s ≤ i) : Ordered (table.set i s) := by
  intro j lower hj
  rcases Nat.decEq i j with hne | rfl
  · rw [List.getElem?_set_ne hne] at hj
    exact hord hj
  · rw [List.getElem?_set_self'] at hj
    obtain ⟨_, _, rfl⟩ := Option.map_eq_some_iff.mp hj
    exact h

end Ordered

/-- The table in which every index is a root. -/
theorem ordered_range (n : Nat) : Ordered (List.range n) := by
  intro i lower h
  obtain ⟨hi, rfl⟩ := List.getElem?_eq_some_iff.mp h
  simp

theorem root_range {n : Nat} (hi : i < n) : Root (List.range n) i i :=
  .self (by simp [hi])

/-- Two tables with the same roots. -/
def SameRoots (table table' : List Nat) : Prop :=
  table'.length = table.length ∧ ∀ i r, Root table' i r ↔ Root table i r

theorem SameRoots.refl (table : List Nat) : SameRoots table table :=
  ⟨rfl, fun _ _ => Iff.rfl⟩

theorem SameRoots.trans {table' table'' : List Nat} (h : SameRoots table table')
    (h' : SameRoots table' table'') : SameRoots table table'' :=
  ⟨h'.1.trans h.1, fun i r => (h'.2 i r).trans (h.2 i r)⟩

/-- Path compression: redirecting an index to its own root changes no root. -/
theorem sameRoots_compress (hord : Ordered table) (h : Root table i r) :
    SameRoots table (table.set i r) := by
  have hset : (table.set i r)[i]? = some r := List.getElem?_set_self h.index_lt
  have hr : (table.set i r)[r]? = some r := by
    by_cases hir : i = r
    · rw [← hir] at hset ⊢
      exact hset
    · exact (List.getElem?_set_ne hir).trans h.isRoot
  have hforward : ∀ {j s : Nat}, Root table j s → Root (table.set i r) j s := by
    intro j s hj
    induction hj with
    | @self j hself =>
      by_cases hij : i = j
      · obtain rfl := hij
        obtain rfl := h.unique (.self hself)
        exact .self hr
      · exact .self ((List.getElem?_set_ne hij).trans hself)
    | @parent j lower s hj hne htail ih =>
      by_cases hij : i = j
      · obtain rfl := hij
        obtain rfl := h.unique (.parent hj hne htail)
        by_cases hir : r = i
        · obtain rfl := hir
          exact .self hr
        · exact .parent hset hir (.self hr)
      · exact .parent ((List.getElem?_set_ne hij).trans hj) hne ih
  refine ⟨List.length_set, fun j s => ⟨fun hj => ?_, hforward⟩⟩
  -- The old root of `j` is also its root in the new table, and roots are unique.
  have hjlt : j < table.length := by
    simpa using hj.index_lt
  obtain ⟨t, ht⟩ := hord.exists_root hjlt
  obtain rfl := hj.unique (hforward ht)
  exact ht

/-- Linking: redirecting the root `r` to another root `s` moves the tree of `r` under `s`
and leaves every other tree alone. -/
theorem root_link (hr : table[r]? = some r) (hs : table[s]? = some s) (hne : r ≠ s)
    {t : Nat} (h : Root table j t) : Root (table.set r s) j (if t = r then s else t) := by
  have hset : (table.set r s)[r]? = some s :=
    List.getElem?_set_self (List.getElem?_eq_some_iff.mp hr).1
  have hlinked : Root (table.set r s) s s := .self ((List.getElem?_set_ne hne).trans hs)
  induction h with
  | @self j hself =>
    by_cases hj : j = r
    · rw [if_pos hj, hj]
      exact .parent hset hne.symm hlinked
    · rw [if_neg hj]
      exact .self ((List.getElem?_set_ne (Ne.symm hj)).trans hself)
  | @parent j lower t hj hlower _ ih =>
    have hjr : r ≠ j := by
      rintro rfl
      exact hlower (Option.some.inj (hj.symm.trans hr))
    exact .parent ((List.getElem?_set_ne hjr).trans hj) hlower ih

/-- The two indices have the same root. -/
def SameTree (table : List Nat) (i j : Nat) : Prop :=
  ∀ r, Root table i r ↔ Root table j r

theorem SameRoots.sameTree {table' : List Nat} (hroots : SameRoots table table')
    (h : SameTree table i j) : SameTree table' i j :=
  fun r => ((hroots.2 _ r).trans (h r)).trans (hroots.2 _ r).symm

section Link

variable (hord : Ordered table) (hr : table[r]? = some r) (hs : table[s]? = some s) (hne : r ≠ s)

include hord hr hs hne

theorem exists_root_of_link {t : Nat} (h : Root (table.set r s) j t) :
    ∃ t', Root table j t' ∧ t = if t' = r then s else t' := by
  have hj : j < table.length := by
    simpa using h.index_lt
  obtain ⟨t', ht'⟩ := hord.exists_root hj
  exact ⟨t', ht', h.unique (root_link hr hs hne ht')⟩

/-- Linking keeps together what was together. -/
theorem SameTree.link (h : SameTree table i j) : SameTree (table.set r s) i j := by
  have hone : ∀ {i j t : Nat}, SameTree table i j → Root (table.set r s) i t →
      Root (table.set r s) j t := by
    intro i j t hsame ht
    obtain ⟨t', ht', rfl⟩ := exists_root_of_link hord hr hs hne ht
    exact root_link hr hs hne ((hsame _).mp ht')
  exact fun t => ⟨hone h, hone fun r => (h r).symm⟩

omit hord in
/-- Linking brings the two trees together. -/
theorem sameTree_link (hi : Root table i r) (hj : Root table j s) :
    SameTree (table.set r s) i j := by
  have hi' : Root (table.set r s) i s := by
    simpa using root_link hr hs hne hi
  have hj' : Root (table.set r s) j s := by
    simpa [hne.symm] using root_link hr hs hne hj
  intro t
  constructor
  · intro ht
    obtain rfl := ht.unique hi'
    exact hj'
  · intro ht
    obtain rfl := ht.unique hj'
    exact hi'

end Link

end OrderedForest
