/-
Lists read as cycles.

`cyclicPairs` lists the neighbours along a cycle; the first element follows the last. Turning
the cycle turns the neighbours (`cyclicPairs_rotate`). When one element is taken out, its two
neighbours become neighbours of each other, and a sum over all neighbours stays what it was
when the step between them is worth as much as the two steps it replaces
(`sum_cyclicPairs_remove`).
-/

import Mathlib.Algebra.BigOperators.Group.List.Basic
import Mathlib.Data.List.Rotate

namespace List

variable {α β : Type}

/-- Each element with the next one, the last with the first. -/
def cyclicPairs (l : List α) : List (α × α) :=
  l.zip (l.rotate 1)

theorem cyclicPairs_cons (a : α) (l : List α) :
    (a :: l).cyclicPairs = (a :: l).zip (l ++ [a]) := by
  rw [cyclicPairs, rotate_cons_succ, rotate_zero]

theorem cyclicPairs_rotate (l : List α) (n : Nat) :
    (l.rotate n).cyclicPairs = l.cyclicPairs.rotate n := by
  rw [cyclicPairs, cyclicPairs, rotate_rotate, Nat.add_comm n 1, ← rotate_rotate]
  exact (zipWith_rotate_distrib Prod.mk l (l.rotate 1) n (by simp)).symm

/-- A chain that gets one element longer. -/
theorem zip_tail_concat (b x : α) (t : List α) :
    (b :: t).zip (t ++ [x]) = (b :: t).zip t ++ [((b :: t).getLast (cons_ne_nil b t), x)] := by
  induction t generalizing b with
  | nil => rfl
  | cons c t ih =>
    rw [cons_append, zip_cons_cons, ih, zip_cons_cons, cons_append, getLast_cons (cons_ne_nil c t)]

section Sums

variable {M : Type} [AddCommMonoid M] (f : α × α → M)

theorem sum_cyclicPairs_rotate (l : List α) (n : Nat) :
    ((l.rotate n).cyclicPairs.map f).sum = (l.cyclicPairs.map f).sum := by
  rw [cyclicPairs_rotate]
  exact ((rotate_perm _ _).map f).sum_eq

theorem sum_cyclicPairs_tail {f : α × α → M} {a b : α} {t : List α}
    (h : f ((b :: t).getLast (cons_ne_nil b t), a) + f (a, b) =
      f ((b :: t).getLast (cons_ne_nil b t), b)) :
    ((a :: b :: t).cyclicPairs.map f).sum = ((b :: t).cyclicPairs.map f).sum := by
  rw [cyclicPairs_cons, cons_append, zip_cons_cons, zip_tail_concat, cyclicPairs_cons b,
    zip_tail_concat]
  simp only [map_cons, map_append, map_nil, sum_cons, sum_append, sum_nil, add_zero]
  rw [← h, add_left_comm, add_comm (f (a, b))]

/-- An element is taken out of the cycle. -/
theorem sum_cyclicPairs_remove {f : α × α → M} {l : List α} {i : Nat} (hi : i < l.length)
    (hlength : 2 ≤ l.length)
    (h : f (l.get ⟨(i + l.length - 1) % l.length, Nat.mod_lt _ (by omega)⟩, l[i]) +
        f (l[i], l.get ⟨(i + 1) % l.length, Nat.mod_lt _ (by omega)⟩) =
      f (l.get ⟨(i + l.length - 1) % l.length, Nat.mod_lt _ (by omega)⟩,
        l.get ⟨(i + 1) % l.length, Nat.mod_lt _ (by omega)⟩)) :
    (l.cyclicPairs.map f).sum = ((l.eraseIdx i).cyclicPairs.map f).sum := by
  -- Turned so that the element comes first, the cycle is `l[i] :: l.drop (i + 1) ++ l.take i`.
  have hturn : l.rotate i = l[i] :: (l.drop (i + 1) ++ l.take i) := by
    rw [rotate_eq_drop_append_take hi.le, drop_eq_getElem_cons hi, cons_append]
  have herase : (l.eraseIdx i).rotate i = l.drop (i + 1) ++ l.take i := by
    have hle : i ≤ (l.eraseIdx i).length := by
      rw [length_eraseIdx_of_lt hi]
      omega
    rw [rotate_eq_drop_append_take hle, eraseIdx_eq_take_drop_succ,
      drop_left' (length_take_of_le hi.le), take_left' (length_take_of_le hi.le)]
  have hrest : (l.drop (i + 1) ++ l.take i).length = l.length - 1 := by
    simp
    omega
  obtain ⟨b, t, hbt⟩ : ∃ b t, l.drop (i + 1) ++ l.take i = b :: t := by
    cases hcase : l.drop (i + 1) ++ l.take i with
    | nil =>
      rw [hcase, length_nil] at hrest
      omega
    | cons b t => exact ⟨b, t, rfl⟩
  have hget : ∀ k (hk : k < (b :: t).length), (b :: t)[k] =
      l.get ⟨(k + 1 + i) % l.length, Nat.mod_lt _ (by omega)⟩ := by
    intro k hk
    have hk' : k + 1 < (l.rotate i).length := by
      rw [hturn, hbt]
      simpa using hk
    rw [get_eq_getElem, ← getElem_rotate l i (k + 1) hk']
    simp only [hturn, hbt, getElem_cons_succ]
  have hlen : (b :: t).length = l.length - 1 := by
    rw [← hbt, hrest]
  have hnext : b = l.get ⟨(i + 1) % l.length, Nat.mod_lt _ (by omega)⟩ := by
    have := hget 0 (by simp)
    simpa [Nat.add_comm] using this
  have hlast : (b :: t).getLast (cons_ne_nil b t) =
      l.get ⟨(i + l.length - 1) % l.length, Nat.mod_lt _ (by omega)⟩ := by
    have hindex : (b :: t).length - 1 + 1 + i = i + l.length - 1 := by omega
    rw [getLast_eq_getElem, hget]
    simp only [hindex]
  rw [← sum_cyclicPairs_rotate f l i, ← sum_cyclicPairs_rotate f (l.eraseIdx i) i, hturn, herase,
    hbt]
  refine sum_cyclicPairs_tail ?_
  rw [hlast, hnext]
  exact h

end Sums

end List
