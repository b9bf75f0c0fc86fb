/-
Choices: of each of several groups at most one element.

`choices` lists them as a loop does that extends every choice it has by every element of the
next group. Where the groups are the elements of a list by key, a choice is a list of elements
whose keys are in order (`mem_choices`), and no choice is listed twice (`nodup_choices`).
Elements with distinct keys make up a choice once they are put in order (`arrange_mem_choices`).
-/

import Mathlib.Data.List.Induction
import Mathlib.Data.List.Nodup
import Mathlib.Data.List.Perm.Subperm

namespace Choices

variable {α K : Type}

/-- Every choice as it is, and with each of the values. -/
def extend (chosen : List (List α)) (values : List α) : List (List α) :=
  chosen ++ chosen.flatMap fun choice => values.map fun a => choice ++ [a]

/-- The choices from groups. -/
def choices (groups : List (List α)) : List (List α) :=
  groups.foldl extend [[]]

section Keyed

variable [DecidableEq K] {key : α → K} {l : List α} {keys : List K} {choice : List α}

/-- The elements of each key. -/
def byKey (key : α → K) (l : List α) (keys : List K) : List (List α) :=
  keys.map fun k => l.filter (key · = k)

theorem choices_byKey_concat (k : K) : choices (byKey key l (keys ++ [k])) =
    extend (choices (byKey key l keys)) (l.filter (key · = k)) := by
  rw [byKey, List.map_append, choices, List.foldl_append]
  rfl

theorem mem_choices :
    choice ∈ choices (byKey key l keys) ↔
      (choice.map key).Sublist keys ∧ ∀ a ∈ choice, a ∈ l := by
  -- from the end, as the loop adds a group
  induction keys using List.reverseRecOn generalizing choice with
  | nil =>
    rw [List.sublist_nil, List.map_eq_nil_iff]
    constructor
    · intro h
      obtain rfl := List.mem_singleton.mp h
      exact ⟨rfl, fun _ hmem => nomatch hmem⟩
    · rintro ⟨rfl, -⟩
      exact List.mem_singleton.mpr rfl
  | append_singleton keys k ih =>
    rw [choices_byKey_concat, extend, List.mem_append, List.mem_flatMap, ih]
    constructor
    · rintro (⟨hkeys, hmem⟩ | ⟨start, hstart, hchoice⟩)
      · exact ⟨hkeys.trans (List.sublist_append_left _ _), hmem⟩
      · obtain ⟨a, ha, rfl⟩ := List.mem_map.mp hchoice
        obtain ⟨hkeys, hmem⟩ := ih.mp hstart
        obtain ⟨hal, hkey⟩ := List.mem_filter.mp ha
        refine ⟨?_, ?_⟩
        · rw [List.map_append, List.map_singleton, of_decide_eq_true hkey]
          exact hkeys.append (.refl _)
        · intro b hb
          rcases List.mem_append.mp hb with hb | hb
          · exact hmem b hb
          · exact List.mem_singleton.mp hb ▸ hal
    · rintro ⟨hkeys, hmem⟩
      obtain ⟨front, last, hsplit, hfront, hlast⟩ := List.sublist_append_iff.mp hkeys
      obtain ⟨start, rest, rfl, rfl, rfl⟩ := List.map_eq_append_iff.mp hsplit
      rcases List.sublist_singleton.mp hlast with hnone | hone
      · obtain rfl := List.map_eq_nil_iff.mp hnone
        rw [List.append_nil] at hmem ⊢
        exact .inl ⟨hfront, hmem⟩
      · obtain ⟨a, rfl, ha⟩ := List.map_eq_singleton_iff.mp hone
        refine .inr ⟨start, ih.mpr ⟨hfront, fun b hb => hmem b (List.mem_append_left _ hb)⟩, ?_⟩
        exact List.mem_map.mpr ⟨a, List.mem_filter.mpr
          ⟨hmem a (List.mem_append_right _ (List.mem_singleton.mpr rfl)), decide_eq_true ha⟩, rfl⟩

/-- No choice is listed twice. -/
theorem nodup_choices (hl : l.Nodup) (hkeys : keys.Nodup) :
    (choices (byKey key l keys)).Nodup := by
  induction keys using List.reverseRecOn with
  | nil => exact List.nodup_singleton _
  | append_singleton keys k ih =>
    obtain ⟨hbefore, -, hnew⟩ := List.nodup_append.mp hkeys
    rw [choices_byKey_concat, extend]
    refine List.nodup_append.mpr ⟨ih hbefore, ?_, ?_⟩
    · refine List.nodup_flatMap.mpr ⟨fun start _ => ?_, ?_⟩
      · refine (hl.filter _).map fun a b hab => ?_
        exact List.singleton_injective (List.append_cancel_left hab)
      · refine (ih hbefore).imp fun hne => ?_
        refine List.disjoint_left.mpr ?_
        intro choice hfirst hsecond
        obtain ⟨a, -, rfl⟩ := List.mem_map.mp hfirst
        obtain ⟨b, -, hb⟩ := List.mem_map.mp hsecond
        exact hne (List.append_inj_left' hb rfl).symm
    · rintro choice hold _ hextended rfl
      obtain ⟨start, -, hchoice⟩ := List.mem_flatMap.mp hextended
      obtain ⟨a, ha, rfl⟩ := List.mem_map.mp hchoice
      have hkey := of_decide_eq_true (List.mem_filter.mp ha).2
      have hmem : k ∈ (start ++ [a]).map key := by simp [hkey]
      exact hnew k ((mem_choices.mp hold).1.subset hmem) k (List.mem_singleton.mpr rfl) rfl

/-- Elements in the order of their keys. -/
def arrange (key : α → K) (keys : List K) (l : List α) : List α :=
  keys.flatMap fun k => l.filter (key · = k)

theorem mem_arrange {a : α} : a ∈ arrange key keys l ↔ key a ∈ keys ∧ a ∈ l := by
  simp [arrange, and_comm]

/-- Elements with distinct keys are a choice when put in order. -/
theorem arrange_mem_choices {chosen : List α} (hchosen : ∀ a ∈ chosen, a ∈ l)
    (hdistinct : (chosen.map key).Nodup) :
    arrange key keys chosen ∈ choices (byKey key l keys) := by
  refine mem_choices.mpr ⟨?_, fun a ha => hchosen a (mem_arrange.mp ha).2⟩
  have hone : ∀ k, ((chosen.filter (key · = k)).map key).Sublist [k] := by
    intro k
    have hsame : (chosen.filter (key · = k)).map key = (chosen.map key).filter (· = k) := by
      rw [List.filter_map]
      rfl
    rw [hsame, List.filter_eq, ← List.replicate_one]
    exact List.replicate_sublist_replicate _ |>.mpr (List.nodup_iff_count_le_one.mp hdistinct k)
  rw [arrange]
  induction keys with
  | nil => exact .slnil
  | cons k rest ih =>
    rw [List.flatMap_cons, List.map_append, ← List.singleton_append]
    exact (hone k).append ih

end Keyed

end Choices
