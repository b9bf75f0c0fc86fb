/-
Checks that may stop early, and checks that may panic.

`Checked ε` is what such a check returns: `none` for a panic, otherwise a result.
`Checked.all` runs a check over a list and stops at the first element that does not
pass. The lemmas on `allM` and `anyM` say what a short-circuiting test over a list
returns when some of its elements would panic.
-/

import Mathlib.Data.List.Basic

variable {ε α : Type}

/-- The outcome of a check: `none` is a panic. -/
abbrev Checked (ε : Type) := Option (Except ε Unit)

namespace Checked

/-- Check the elements in order, and stop at the first one that does not pass. -/
def all (check : α → Checked ε) : List α → Checked ε
  | [] => some (.ok ())
  | a :: rest =>
    match check a with
    | some (.ok ()) => all check rest
    | stopped => stopped

theorem all_eq_ok_iff {check : α → Checked ε} {l : List α} :
    all check l = some (.ok ()) ↔ ∀ a ∈ l, check a = some (.ok ()) := by
  induction l with
  | nil => simp [all]
  | cons a rest ih =>
    rw [all, List.forall_mem_cons]
    split
    · rename_i ha
      rw [ih, and_iff_right ha]
    · rename_i hstop
      constructor
      · intro h
        exact absurd h hstop
      · rintro ⟨ha, _⟩
        exact absurd ha hstop

/-- A run of checks panics at the first element that does, if all before it pass. -/
theorem all_eq_none_iff {check : α → Checked ε} {l : List α} :
    all check l = none ↔ ∃ before a after, l = before ++ a :: after ∧
      (∀ b ∈ before, check b = some (.ok ())) ∧ check a = none := by
  induction l with
  | nil => simp [all]
  | cons a rest ih =>
    rw [all]
    split
    · rename_i ha
      rw [ih]
      constructor
      · rintro ⟨before, b, after, rfl, hbefore, hb⟩
        exact ⟨a :: before, b, after, rfl, List.forall_mem_cons.mpr ⟨ha, hbefore⟩, hb⟩
      · rintro ⟨before, b, after, hsplit, hbefore, hb⟩
        cases before with
        | nil =>
          cases hsplit
          rw [ha] at hb
          cases hb
        | cons first before =>
          cases hsplit
          exact ⟨before, b, after, rfl, (List.forall_mem_cons.mp hbefore).2, hb⟩
    · rename_i hstop
      constructor
      · intro h
        exact ⟨[], a, rest, rfl, by simp, h⟩
      · rintro ⟨before, b, after, hsplit, hbefore, hb⟩
        cases before with
        | nil =>
          cases hsplit
          exact hb
        | cons first before =>
          cases hsplit
          exact absurd (hbefore _ List.mem_cons_self) hstop

end Checked

namespace List

/-- Where an index splits a range. -/
theorem range_eq_append_cons_iff {n k : Nat} {before after : List Nat} :
    range n = before ++ k :: after ↔
      k < n ∧ before = range k ∧ after = range' (k + 1) (n - k - 1) := by
  rw [range_eq_range', range'_eq_append_iff]
  constructor
  · rintro ⟨i, _, rfl, hrest⟩
    obtain ⟨rfl, hpos, rfl⟩ := range'_eq_cons_iff.mp hrest.symm
    refine ⟨by omega, ?_, ?_⟩
    · simp [range_eq_range']
    · simp
  · rintro ⟨hlt, rfl, rfl⟩
    refine ⟨k, Nat.le_of_lt hlt, range_eq_range', ?_⟩
    exact (range'_eq_cons_iff.mpr ⟨by simp, by omega, rfl⟩).symm

variable {l : List α} {p : α → Option Bool} {q : α → Bool}

/-- A test that does not panic on the list. -/
theorem allM_of_some (h : ∀ a ∈ l, p a = some (q a)) : l.allM p = some (l.all q) := by
  induction l with
  | nil => rfl
  | cons a rest ih =>
    obtain ⟨ha, hrest⟩ := forall_mem_cons.mp h
    rw [allM_cons, ha, all_cons]
    cases q a with
    | true => simpa using ih hrest
    | false => rfl

/-- A test that panics at one element: it is reached only if all before it pass. -/
theorem allM_append_none {before : List α} {a : α} (h : ∀ b ∈ before, p b = some (q b))
    (ha : p a = none) (after : List α) :
    (before ++ a :: after).allM p = if before.all q then none else some false := by
  induction before with
  | nil =>
    rw [nil_append, allM_cons, ha]
    rfl
  | cons b before ih =>
    obtain ⟨hb, hbefore⟩ := forall_mem_cons.mp h
    rw [cons_append, allM_cons, hb, all_cons]
    cases q b with
    | true => simpa using ih hbefore
    | false => rfl

theorem anyM_of_some (h : ∀ a ∈ l, p a = some (q a)) : l.anyM p = some (l.any q) := by
  induction l with
  | nil => rfl
  | cons a rest ih =>
    obtain ⟨ha, hrest⟩ := forall_mem_cons.mp h
    rw [anyM_cons, ha, any_cons]
    cases q a with
    | true => rfl
    | false => simpa using ih hrest

/-- A loop whose steps do not panic in the states an invariant allows runs to its end. -/
theorem foldlM_total {σ : Type} {step : σ → α → Option σ} {P : σ → Prop}
    (hstep : ∀ a ∈ l, ∀ s, P s → ∃ s', step s a = some s' ∧ P s') {s : σ} (hs : P s) :
    ∃ s', l.foldlM step s = some s' ∧ P s' := by
  induction l generalizing s with
  | nil => exact ⟨s, rfl, hs⟩
  | cons a rest ih =>
    obtain ⟨ha, hrest⟩ := forall_mem_cons.mp hstep
    obtain ⟨s', hs', hinv⟩ := ha s hs
    rw [foldlM_cons, hs']
    exact ih hrest hinv

/-- What the steps of a loop that does not panic keep. -/
theorem foldlM_keeps {σ : Type} {step : σ → α → Option σ} {P : σ → Prop}
    (hstep : ∀ a ∈ l, ∀ s s', step s a = some s' → P s → P s') {s s' : σ} (hs : P s)
    (h : l.foldlM step s = some s') : P s' := by
  induction l generalizing s with
  | nil =>
    cases h
    exact hs
  | cons a rest ih =>
    obtain ⟨ha, hrest⟩ := forall_mem_cons.mp hstep
    rw [foldlM_cons] at h
    obtain ⟨middle, hmiddle, hlater⟩ := Option.bind_eq_some_iff.mp h
    exact ih hrest (ha s middle hmiddle hs) hlater

end List
