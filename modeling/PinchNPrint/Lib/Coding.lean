/-
Codes over lists: chunks, separators, and lists that are renamings of each other.

`chunks` cuts a list into pieces of one length. A list that is closed by a separator it does not
hold can be read off from what it begins (`eq_of_append_sep`). Two lists have one pattern if the
same positions hold equal elements; then one is the image of the other under a map that keeps
different elements apart (`exists_map_of_samePattern`).
-/

import Mathlib.Data.Set.Function
import Mathlib.Data.List.Basic

namespace List

variable {α β : Type}

/-! ### Chunks -/

/-- The pieces of `n` elements of a list, the last of which may be shorter. -/
def chunks (n : Nat) (l : List α) : List (List α) :=
  if n = 0 ∨ l = [] then [] else l.take n :: chunks n (l.drop n)
termination_by l.length
decreasing_by
  rename_i h
  have hpos := length_pos_iff.mpr (not_or.mp h).2
  rw [length_drop]
  omega

theorem flatten_chunks {n : Nat} (hn : n ≠ 0) (l : List α) : (chunks n l).flatten = l := by
  fun_induction chunks n l with
  | case1 l hstop => simp [hstop.resolve_left hn]
  | case2 l hgo ih => rw [flatten_cons, ih, take_append_drop]

theorem mem_of_mem_chunks {n : Nat} {l part : List α} {a : α} (hn : n ≠ 0)
    (hpart : part ∈ chunks n l) (ha : a ∈ part) : a ∈ l := by
  rw [← flatten_chunks hn l]
  exact mem_flatten.mpr ⟨part, hpart, ha⟩

/-! ### Separators -/

/-- What stands before the first separator, and what behind it. -/
theorem eq_of_append_sep {sep : α} {l l' rest rest' : List α} (hl : sep ∉ l) (hl' : sep ∉ l')
    (h : l ++ sep :: rest = l' ++ sep :: rest') : l = l' ∧ rest = rest' := by
  induction l generalizing l' with
  | nil =>
    cases l' with
    | nil => exact ⟨rfl, (cons.inj h).2⟩
    | cons b l' => exact absurd ((cons.inj h).1 ▸ mem_cons_self) hl'
  | cons a l ih =>
    cases l' with
    | nil => exact absurd ((cons.inj h).1.symm ▸ mem_cons_self) hl
    | cons b l' =>
      obtain ⟨rfl, htail⟩ := cons.inj h
      obtain ⟨rfl, rfl⟩ := ih (fun hmem => hl (mem_cons_of_mem _ hmem))
        (fun hmem => hl' (mem_cons_of_mem _ hmem)) htail
      exact ⟨rfl, rfl⟩

/-! ### Patterns -/

/-- The same positions of two lists hold equal elements. -/
def SamePattern (l : List α) (l' : List β) : Prop :=
  ∀ i j : Nat, l[i]? = l[j]? ↔ l'[i]? = l'[j]?

/-- A renaming has the pattern of what it renames. -/
theorem samePattern_map {l : List α} {f : α → β} (hf : Set.InjOn f {a | a ∈ l}) :
    SamePattern l (l.map f) := by
  intro i j
  rw [getElem?_map, getElem?_map]
  constructor
  · exact fun h => by rw [h]
  · intro h
    cases hi : l[i]? with
    | none => cases hj : l[j]? <;> simp [hi, hj] at h ⊢
    | some a =>
      cases hj : l[j]? with
      | none => simp [hi, hj] at h
      | some b =>
        rw [hi, hj] at h
        exact congrArg some (hf (mem_of_getElem? hi) (mem_of_getElem? hj) (Option.some.inj h))

/-- Two lists of one pattern are renamings of each other. -/
theorem exists_map_of_samePattern [DecidableEq α] [Inhabited β] {l : List α} {l' : List β}
    (hlength : l.length = l'.length) (h : SamePattern l l') :
    ∃ f : α → β, Set.InjOn f {a | a ∈ l} ∧ l' = l.map f := by
  have hfirst : ∀ {a : α} {i : Nat}, l[i]? = some a → l'[l.idxOf a]? = l'[i]? := by
    intro a i hi
    have hmem : a ∈ l := mem_of_getElem? hi
    rw [← h, hi, getElem?_idxOf hmem]
  have hsome : ∀ {a : α}, a ∈ l → ∃ b, l'[l.idxOf a]? = some b := by
    intro a ha
    have hlt := idxOf_lt_length_of_mem ha
    exact ⟨_, getElem?_eq_getElem (hlength ▸ hlt)⟩
  refine ⟨fun a => (l'[l.idxOf a]?).getD default, fun a ha b hb hab => ?_, ?_⟩
  · obtain ⟨c, hc⟩ := hsome ha
    obtain ⟨d, hd⟩ := hsome hb
    have hcd : c = d := by simpa [hc, hd] using hab
    have hsame : l[l.idxOf a]? = l[l.idxOf b]? := (h _ _).mpr (by rw [hc, hd, hcd])
    rw [getElem?_idxOf ha, getElem?_idxOf hb] at hsame
    exact Option.some.inj hsame
  · refine ext_getElem? fun i => ?_
    rw [getElem?_map]
    cases hi : l[i]? with
    | none =>
      rw [getElem?_eq_none_iff] at hi
      rw [Option.map_none, getElem?_eq_none_iff]
      omega
    | some a =>
      obtain ⟨b, hb⟩ := hsome (mem_of_getElem? hi)
      rw [Option.map_some, hb, ← hfirst hi, hb]
      rfl

end List
