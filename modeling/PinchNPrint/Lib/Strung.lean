/-
Runs strung along a list.

`Strung runs whole` says that the runs occur in `whole` one after the other, without
overlap and with anything before, between and after them. It survives what is put around
the list, two such lists may be concatenated, and a reversed list carries the reversed
runs in the reverse order.
-/

import Mathlib.Data.List.Infix

variable {α : Type}

/-- The runs follow one another along the list. -/
def Strung : List (List α) → List α → Prop
  | [], _ => True
  | run :: runs, whole => ∃ lead rest, whole = lead ++ (run ++ rest) ∧ Strung runs rest

namespace Strung

variable {runs runs' : List (List α)} {run whole whole' : List α}

theorem single (run : List α) : Strung [run] run :=
  ⟨[], [], by simp, trivial⟩

theorem prepend (h : Strung runs whole) (lead : List α) : Strung runs (lead ++ whole) := by
  cases runs with
  | nil => trivial
  | cons run runs =>
    obtain ⟨lead', rest, rfl, hrest⟩ := h
    exact ⟨lead ++ lead', rest, by simp, hrest⟩

theorem concat (h : Strung runs whole) (h' : Strung runs' whole') :
    Strung (runs ++ runs') (whole ++ whole') := by
  induction runs generalizing whole with
  | nil => exact h'.prepend whole
  | cons run runs ih =>
    obtain ⟨lead, rest, rfl, hrest⟩ := h
    exact ⟨lead, rest ++ whole', by simp, ih hrest⟩

theorem extend (h : Strung runs whole) (trail : List α) : Strung runs (whole ++ trail) := by
  have hnil : Strung [] trail := trivial
  simpa using h.concat hnil

theorem reverse (h : Strung runs whole) :
    Strung (runs.map List.reverse).reverse whole.reverse := by
  induction runs generalizing whole with
  | nil => trivial
  | cons run runs ih =>
    obtain ⟨lead, rest, rfl, hrest⟩ := h
    have hrun : Strung [run.reverse] (run.reverse ++ lead.reverse) :=
      (single run.reverse).extend lead.reverse
    simpa using (ih hrest).concat hrun

end Strung
