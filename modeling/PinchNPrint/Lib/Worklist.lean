/-
Breadth-first closure with a first-in-first-out worklist.

`explore` pops a vertex, skips it when it was visited before, and otherwise
marks it and appends its successors. `explore_spec` says that with enough fuel
the result is the visited set together with everything reachable from the
queue; `mem_closure_iff` reads this off for a search that starts at the
successors of one vertex.
-/

import PinchNPrint.Lib.Collections

namespace Worklist

open Std Relation

variable {V : Type} [Ord V] [TransOrd V] [LawfulEqOrd V]

/-- The loop, for at most `fuel` pops. -/
def explore (succ : V → List V) : Nat → List V → BTreeSet V → BTreeSet V
  | 0, _, visited => visited
  | _ + 1, [], visited => visited
  | fuel + 1, current :: queue, visited =>
      if current ∈ visited then explore succ fuel queue visited
      else explore succ fuel (queue ++ succ current) (visited.insert current)

/-- Successors that vertices outside `visited` may still push. -/
def budget [DecidableEq V] (support : List V) (succ : V → List V) (visited : BTreeSet V) : Nat :=
  ((support.filter (· ∉ visited)).map fun v => (succ v).length).sum

/-- A fresh visit pays for the successors it pushes. -/
theorem budget_insert [DecidableEq V] {support : List V} (hsupport : support.Nodup)
    {succ : V → List V} (hsucc : ∀ v, v ∉ support → succ v = []) {visited : BTreeSet V}
    {v : V} (hv : v ∉ visited) :
    (succ v).length + budget support succ (visited.insert v) = budget support succ visited := by
  by_cases hmem : v ∈ support
  · have hperm : (support.filter (· ∉ visited)).Perm
        (v :: support.filter (· ∉ visited.insert v)) := by
      rw [List.perm_ext_iff_of_nodup (hsupport.filter _)]
      · intro a
        by_cases ha : v = a
        · subst ha
          simp [hmem, hv]
        · simp [ExtTreeSet.mem_insert, ha, Ne.symm ha]
      · exact List.nodup_cons.mpr ⟨by simp, hsupport.filter _⟩
    rw [budget, budget, (hperm.map _).sum_eq]
    rfl
  · have hfilter : support.filter (· ∉ visited.insert v) = support.filter (· ∉ visited) := by
      refine List.filter_congr fun a ha => ?_
      have hne : v ≠ a := fun heq => hmem (heq ▸ ha)
      simp [ExtTreeSet.mem_insert, hne]
    rw [budget, budget, hfilter, hsucc v hmem]
    simp

/-- What a finished search has collected: everything it started with, nothing
that is not reachable, and a set closed under successors. -/
structure Explored (succ : V → List V) (queue : List V) (visited result : BTreeSet V) : Prop where
  old : ∀ v ∈ visited, v ∈ result
  queued : ∀ v ∈ queue, v ∈ result
  sound : ∀ v ∈ result, v ∈ visited ∨ ∃ q ∈ queue, ReflTransGen (fun a b => b ∈ succ a) q v
  closed : ∀ v ∈ result, v ∉ visited → ∀ w ∈ succ v, w ∈ result

theorem explore_spec [DecidableEq V] {support : List V} (hsupport : support.Nodup)
    {succ : V → List V} (hsucc : ∀ v, v ∉ support → succ v = []) (fuel : Nat) (queue : List V)
    (visited : BTreeSet V) (hfuel : queue.length + budget support succ visited ≤ fuel) :
    Explored succ queue visited (explore succ fuel queue visited) := by
  induction fuel generalizing queue visited with
  | zero =>
    have hnil : queue = [] := List.length_eq_zero_iff.mp (by omega)
    subst hnil
    exact ⟨fun v hv => hv, by simp, fun v hv => Or.inl hv, fun v hv hnot => absurd hv hnot⟩
  | succ fuel ih =>
    cases queue with
    | nil =>
      exact ⟨fun v hv => hv, by simp, fun v hv => Or.inl hv, fun v hv hnot => absurd hv hnot⟩
    | cons current queue =>
      by_cases hcur : current ∈ visited
      · have hrest := ih queue visited (by rw [List.length_cons] at hfuel; omega)
        simp only [explore, if_pos hcur]
        refine ⟨hrest.old, ?_, ?_, hrest.closed⟩
        · intro v hv
          rcases List.mem_cons.mp hv with rfl | hv
          · exact hrest.old v hcur
          · exact hrest.queued v hv
        · intro v hv
          rcases hrest.sound v hv with hv | ⟨q, hq, hreach⟩
          · exact Or.inl hv
          · exact Or.inr ⟨q, List.mem_cons_of_mem _ hq, hreach⟩
      · have hbudget := budget_insert hsupport hsucc hcur
        have hrest := ih (queue ++ succ current) (visited.insert current)
          (by rw [List.length_cons] at hfuel; rw [List.length_append]; omega)
        simp only [explore, if_neg hcur]
        have hself : current ∈ explore succ fuel (queue ++ succ current) (visited.insert current) :=
          hrest.old current ExtTreeSet.mem_insert_self
        refine ⟨?_, ?_, ?_, ?_⟩
        · intro v hv
          exact hrest.old v (ExtTreeSet.mem_insert.mpr (Or.inr hv))
        · intro v hv
          rcases List.mem_cons.mp hv with rfl | hv
          · exact hself
          · exact hrest.queued v (List.mem_append_left _ hv)
        · intro v hv
          rcases hrest.sound v hv with hv | ⟨q, hq, hreach⟩
          · rcases ExtTreeSet.mem_insert.mp hv with heq | hv
            · obtain rfl := Std.compare_eq_iff_eq.mp heq
              exact Or.inr ⟨current, by simp, ReflTransGen.refl⟩
            · exact Or.inl hv
          · rcases List.mem_append.mp hq with hq | hq
            · exact Or.inr ⟨q, List.mem_cons_of_mem _ hq, hreach⟩
            · exact Or.inr ⟨current, by simp, ReflTransGen.head hq hreach⟩
        · intro v hv hnot w hw
          by_cases hvc : current = v
          · subst hvc
            exact hrest.queued w (List.mem_append_right _ hw)
          · refine hrest.closed v hv (fun hins => ?_) w hw
            rcases ExtTreeSet.mem_insert.mp hins with heq | hins
            · exact hvc (Std.compare_eq_iff_eq.mp heq)
            · exact hnot hins

/-- A search that starts at the successors of `start` with nothing visited
collects exactly the vertices a nonempty walk from `start` reaches. -/
theorem mem_closure_iff [DecidableEq V] {support : List V} (hsupport : support.Nodup)
    {succ : V → List V} (hsucc : ∀ v, v ∉ support → succ v = []) {fuel : Nat} {start v : V}
    (hfuel : (succ start).length + (support.map fun u => (succ u).length).sum ≤ fuel) :
    v ∈ explore succ fuel (succ start) ∅ ↔ TransGen (fun a b => b ∈ succ a) start v := by
  have hbudget : budget support succ ∅ = (support.map fun u => (succ u).length).sum := by
    simp [budget]
  have hspec := explore_spec hsupport hsucc fuel (succ start) ∅ (by omega)
  constructor
  · intro hv
    rcases hspec.sound v hv with hv | ⟨q, hq, hreach⟩
    · exact absurd hv ExtTreeSet.not_mem_empty
    · exact TransGen.head' hq hreach
  · intro walk
    induction walk with
    | single edge => exact hspec.queued _ edge
    | tail _ edge ih => exact hspec.closed _ ih ExtTreeSet.not_mem_empty _ edge

end Worklist
