/-
Lists whose gaps were exchanged.

Fix a test on the elements. `Regapped` relates two lists with the same passing elements
in the same order, where some stretches of failing elements of the first are replaced by
other stretches of failing elements, possibly empty ones. Such an exchange separates
nothing: a run of passing elements that stands in one piece in the first list stands in
one piece in the second (`Regapped.infix`).
-/

import Mathlib.Data.List.Infix

variable {α : Type}

/-- The second list is the first with some of its gaps exchanged. -/
inductive Regapped (p : α → Bool) : List α → List α → Prop where
  | nil : Regapped p [] []
  | keep {a : α} {l l' : List α} : p a = true → Regapped p l l' → Regapped p (a :: l) (a :: l')
  | gap {old new l l' : List α} : old ≠ [] → (∀ a ∈ old, p a = false) →
      (∀ a ∈ new, p a = false) → Regapped p l l' → Regapped p (old ++ l) (new ++ l')

namespace Regapped

variable {p : α → Bool} {l l' m m' run : List α}

theorem of_forall (h : ∀ a ∈ l, p a = true) : Regapped p l l := by
  induction l with
  | nil => exact .nil
  | cons a rest ih =>
    obtain ⟨ha, hrest⟩ := List.forall_mem_cons.mp h
    exact .keep ha (ih hrest)

/-- A gap may be exchanged for any other, but none is opened. -/
theorem of_gap (hold : ∀ a ∈ l, p a = false) (hnew : ∀ a ∈ l', p a = false)
    (hempty : l = [] → l' = []) : Regapped p l l' := by
  by_cases hnil : l = []
  · rw [hnil, hempty hnil]
    exact .nil
  · simpa using Regapped.gap hnil hold hnew .nil

theorem append (h : Regapped p l l') (h' : Regapped p m m') : Regapped p (l ++ m) (l' ++ m') := by
  induction h with
  | nil => exact h'
  | keep ha _ ih => exact .keep ha ih
  | gap hne hold hnew _ ih =>
    rw [List.append_assoc, List.append_assoc]
    exact .gap hne hold hnew ih

theorem refl (p : α → Bool) (l : List α) : Regapped p l l := by
  induction l with
  | nil => exact .nil
  | cons a rest ih =>
    cases ha : p a with
    | true => exact .keep ha ih
    | false =>
      have hgap : ∀ b ∈ [a], p b = false := by simpa using ha
      have hrest : Regapped p ([a] ++ rest) ([a] ++ rest) := .gap (by simp) hgap hgap ih
      exact hrest

theorem eq_nil_of_disjoint {gap : List α} (hrun : ∀ a ∈ run, p a = true)
    (hgap : ∀ a ∈ gap, p a = false) (hsub : ∀ a ∈ run, a ∈ gap) : run = [] := by
  apply List.eq_nil_iff_forall_not_mem.mpr
  intro a ha
  cases (hrun a ha).symm.trans (hgap a (hsub a ha))

theorem isPrefix (h : Regapped p l l') (hrun : ∀ a ∈ run, p a = true) (hstart : run <+: l) :
    run <+: l' := by
  induction h generalizing run with
  | nil => exact hstart
  | @keep a l l' ha _ ih =>
    cases run with
    | nil => exact List.nil_prefix
    | cons b rest =>
      obtain ⟨rfl, hrest⟩ := List.cons_prefix_cons.mp hstart
      exact List.cons_prefix_cons.mpr ⟨rfl, ih (List.forall_mem_cons.mp hrun).2 hrest⟩
  | @gap old new l l' hne hold _ _ _ =>
    cases run with
    | nil => exact List.nil_prefix
    | cons b rest =>
      obtain ⟨c, old, rfl⟩ := List.exists_cons_of_ne_nil hne
      obtain ⟨rfl, _⟩ := List.cons_prefix_cons.mp hstart
      cases (hrun b List.mem_cons_self).symm.trans (hold b List.mem_cons_self)

/-- A run of passing elements stays in one piece. -/
theorem isInfix (h : Regapped p l l') (hrun : ∀ a ∈ run, p a = true) (hpiece : run <:+: l) :
    run <:+: l' := by
  induction h generalizing run with
  | nil => exact hpiece
  | @keep a l l' ha hrest ih =>
    rcases List.infix_cons_iff.mp hpiece with hstart | hpiece
    · exact ((Regapped.keep ha hrest).isPrefix hrun hstart).isInfix
    · exact List.infix_cons (ih hrun hpiece)
  | @gap old new l l' hne hold hnew hrest ih =>
    have hlater : run <:+: l := by
      rcases List.infix_append_iff.mp hpiece with hin | hin | ⟨before, after, rfl, hbefore, hafter⟩
      · rw [eq_nil_of_disjoint hrun hold fun a ha => hin.subset ha]
        exact List.nil_infix
      · exact hin
      · have hnil : before = [] :=
          eq_nil_of_disjoint (fun a ha => hrun a (List.mem_append_left _ ha)) hold
            fun a ha => hbefore.subset ha
        rw [hnil]
        exact hafter.isInfix
    exact (ih hrun hlater).trans (List.suffix_append new l').isInfix

end Regapped
