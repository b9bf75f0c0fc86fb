/-
Pieces laid end to end.

`Laid.centres x ws` are the centres of pieces of the widths `ws`, laid from `x` on. Laying
is compatible with appending (`centres_append`), with moving everything (`centres_add`) and
with looking from the other end (`reverse_centres`). Pieces of no width only mark a place;
the others tile what they are laid on (`tiling`).
-/

import Mathlib.Algebra.Order.BigOperators.Group.List
import Mathlib.Algebra.Order.Field.Basic
import Mathlib.Tactic.FieldSimp
import Mathlib.Tactic.Linarith
import Mathlib.Tactic.Ring
import PinchNPrint.Lib.Numerals
import PinchNPrint.Lib.Tiling

namespace Laid

variable {F : Type} [Field F]

/-- The centres of pieces laid end to end from `x`. -/
def centres (x : F) : List F → List F
  | [] => []
  | w :: ws => (x + w / 2) :: centres (x + w) ws

/-- Where a piece begins, given its width and centre. -/
def start (piece : F × F) : F :=
  piece.2 - piece.1 / 2

/-- Where a piece ends. -/
def stop (piece : F × F) : F :=
  piece.2 + piece.1 / 2

@[simp]
theorem length_centres (x : F) (ws : List F) : (centres x ws).length = ws.length := by
  induction ws generalizing x with
  | nil => rfl
  | cons w ws ih => rw [centres, List.length_cons, ih, List.length_cons]

theorem centres_append (x : F) (l r : List F) :
    centres x (l ++ r) = centres x l ++ centres (x + l.sum) r := by
  induction l generalizing x with
  | nil => simp [centres]
  | cons w l ih => simp only [List.cons_append, centres, ih, List.sum_cons, add_assoc]

theorem centres_add (x c : F) (ws : List F) :
    (centres x ws).map (· + c) = centres (x + c) ws := by
  induction ws generalizing x with
  | nil => rfl
  | cons w ws ih =>
    rw [centres, List.map_cons, ih, centres, add_right_comm, add_right_comm x w c]

/-- From the other end, the pieces lie the other way round. -/
theorem reverse_centres [LinearOrder F] [IsStrictOrderedRing F] (x y : F) (ws : List F) :
    (centres x ws).reverse = (centres y ws.reverse).map (x + y + ws.sum - ·) := by
  induction ws generalizing x with
  | nil => rfl
  | cons w ws ih =>
    rw [centres, List.reverse_cons, ih (x + w), List.reverse_cons, centres_append, List.map_append,
      List.sum_cons]
    congr 1
    · refine List.map_congr_left fun c _ => ?_
      ring
    · simp only [centres, List.map_cons, List.map_nil, List.sum_reverse, List.cons.injEq, and_true]
      ring

variable [LinearOrder F] [IsStrictOrderedRing F]

theorem mem_centres {x c : F} {ws : List F} (hws : ∀ w ∈ ws, 0 ≤ w) (hc : c ∈ centres x ws) :
    x ≤ c ∧ c ≤ x + ws.sum := by
  induction ws generalizing x with
  | nil => cases hc
  | cons w ws ih =>
    obtain ⟨hw, hrest⟩ := List.forall_mem_cons.mp hws
    have hsum := List.sum_nonneg hrest
    rw [List.sum_cons]
    rcases List.mem_cons.mp hc with rfl | hc
    · constructor <;> linarith
    · obtain ⟨hlo, hhi⟩ := ih hrest hc
      constructor <;> linarith

theorem pairwise_centres {x : F} {ws : List F} (hws : ∀ w ∈ ws, 0 ≤ w) :
    (centres x ws).Pairwise (· ≤ ·) := by
  induction ws generalizing x with
  | nil => exact .nil
  | cons w ws ih =>
    obtain ⟨hw, hrest⟩ := List.forall_mem_cons.mp hws
    refine List.pairwise_cons.mpr ⟨fun c hc => ?_, ih hrest⟩
    have := (mem_centres hrest hc).1
    linarith

/-- Pieces laid end to end tile; those of no width are not looked at. -/
theorem tiling (x : F) {ws : List F} (hws : ∀ w ∈ ws, 0 ≤ w) :
    Tiling start stop ((ws.zip (centres x ws)).filter fun p => 0 < p.1) x (x + ws.sum) := by
  induction ws using List.reverseRecOn with
  | nil => simpa using Tiling.nil x
  | append_singleton ws w ih =>
    have hbefore := ih fun v hv => hws v (List.mem_append_left _ hv)
    rw [centres_append, List.zip_append (length_centres x ws).symm, List.filter_append,
      List.sum_append, List.sum_singleton, ← add_assoc]
    rcases (hws w (List.mem_append_right _ List.mem_cons_self)).lt_or_eq with hpos | rfl
    · have hstart : start (w, x + ws.sum + w / 2) = x + ws.sum := add_sub_cancel_right _ _
      have hstop : stop (w, x + ws.sum + w / 2) = x + ws.sum + w := by
        simp only [stop]
        ring
      rw [← hstop]
      simp only [centres, List.zip_cons_cons, List.zip_nil_right, List.filter_cons, List.filter_nil,
        hpos, decide_true, if_true]
      refine .snoc (by rw [hstart]; exact hbefore) ?_
      rw [hstart, hstop]
      exact lt_add_of_pos_right _ hpos
    · simpa [centres] using hbefore

end Laid
