/-
Elements merged by a key.

`mergeBy` is the list a loop builds that merges every element into the one with its key, and
appends it if there is none. The element with a key is the merged group of all elements with
that key (`find?_mergeBy`), and no key occurs twice (`nodup_keys_mergeBy`).
-/

import Mathlib.Data.List.Induction
import Mathlib.Data.List.Nodup
import Mathlib.Data.List.Perm.Basic

namespace List

variable {α β κ : Type} [DecidableEq κ] (key : α → κ) (merge : α → α → α)

/-- Merge an element into the first one with its key, or append it. -/
def mergeInto : List α → α → List α
  | [], a => [a]
  | b :: rest, a => if key b = key a then merge b a :: rest else b :: mergeInto rest a

/-- Merge all elements by their keys. -/
def mergeBy (l : List α) : List α :=
  l.foldl (mergeInto key merge) []

/-- The elements of one group merged into the first. -/
def mergeGroup : List α → Option α
  | [] => none
  | a :: rest => some (rest.foldl merge a)

variable {key merge} {l : List α} {a m : α} {k : κ}

theorem mergeGroup_concat (l : List α) (a : α) :
    mergeGroup merge (l ++ [a]) = some ((mergeGroup merge l).elim a (merge · a)) := by
  cases l with
  | nil => rfl
  | cons b rest => simp [mergeGroup]

theorem mergeGroup_isSome_iff : (mergeGroup merge l).isSome = true ↔ l ≠ [] := by
  cases l <;> simp [mergeGroup]

/-- What holds of a first element and is kept by merging holds of a merged group. -/
theorem mergeGroup_induction {P : List α → α → Prop} (hfirst : ∀ a, P [a] a)
    (hmerge : ∀ group m a, P group m → P (group ++ [a]) (merge m a)) {group : List α}
    (h : mergeGroup merge group = some m) : P group m := by
  cases group with
  | nil => cases h
  | cons first rest =>
    cases h
    induction rest using reverseRecOn with
    | nil => exact hfirst first
    | append_singleton rest a ih =>
      rw [foldl_append]
      exact hmerge (first :: rest) _ a ih

section Key

variable (hkey : ∀ a b, key (merge a b) = key a)

include hkey

theorem map_key_mergeInto (l : List α) (a : α) :
    (mergeInto key merge l a).map key =
      if key a ∈ l.map key then l.map key else l.map key ++ [key a] := by
  induction l with
  | nil => simp [mergeInto]
  | cons b rest ih =>
    by_cases hb : key b = key a
    · simp [mergeInto, hb, hkey]
    · rw [mergeInto, if_neg hb, map_cons, ih]
      by_cases hmem : key a ∈ rest.map key
      · rw [if_pos hmem, map_cons, if_pos (mem_cons_of_mem _ hmem)]
      · have hnot : key a ∉ key b :: rest.map key := by
          simp only [mem_cons, not_or]
          exact ⟨Ne.symm hb, hmem⟩
        rw [if_neg hmem, map_cons, if_neg hnot, cons_append]

theorem find?_mergeInto (l : List α) (a : α) (k : κ) :
    (mergeInto key merge l a).find? (key · = k) =
      if key a = k then some ((l.find? (key · = k)).elim a (merge · a))
      else l.find? (key · = k) := by
  induction l with
  | nil =>
    by_cases hk : key a = k
    · simp [mergeInto, hk]
    · simp [mergeInto, hk]
  | cons b rest ih =>
    by_cases hb : key b = key a
    · by_cases hk : key a = k
      · simp [mergeInto, hb, hk, hkey]
      · simp [mergeInto, hb, hk, hkey]
    · rw [mergeInto, if_neg hb, find?_cons, ih, find?_cons]
      by_cases hbk : key b = k
      · have hak : key a ≠ k := fun hak => hb (hbk.trans hak.symm)
        simp [hbk, hak]
      · simp [hbk]

/-- No key occurs twice. -/
theorem nodup_keys_mergeBy (l : List α) : ((mergeBy key merge l).map key).Nodup := by
  induction l using reverseRecOn with
  | nil => exact nodup_nil
  | append_singleton l a ih =>
    rw [mergeBy, foldl_append, foldl_cons, foldl_nil, map_key_mergeInto hkey]
    split
    · exact ih
    · rename_i hnotMem
      rw [nodup_append]
      exact ⟨ih, nodup_singleton _, fun k hk k' hk' heq =>
        hnotMem (mem_singleton.mp hk' ▸ heq ▸ hk)⟩

/-- The element with a key is the merged group. -/
theorem find?_mergeBy (l : List α) (k : κ) :
    (mergeBy key merge l).find? (key · = k) = mergeGroup merge (l.filter (key · = k)) := by
  induction l using reverseRecOn with
  | nil => rfl
  | append_singleton l a ih =>
    rw [mergeBy, foldl_append, foldl_cons, foldl_nil, find?_mergeInto hkey, ← mergeBy, ih,
      filter_append]
    by_cases hk : key a = k
    · rw [if_pos hk, filter_cons_of_pos (by simp [hk]), filter_nil, mergeGroup_concat]
    · rw [if_neg hk, filter_cons_of_neg (by simp [hk]), filter_nil, append_nil]

/-- What is merged are the groups. -/
theorem mem_mergeBy_iff :
    m ∈ mergeBy key merge l ↔ mergeGroup merge (l.filter (key · = key m)) = some m := by
  rw [← find?_mergeBy hkey]
  constructor
  · intro hm
    have hunique : ∀ m' ∈ mergeBy key merge l, key m' = key m → m' = m := fun m' hm' heq =>
      inj_on_of_nodup_map (nodup_keys_mergeBy hkey l) hm' hm heq
    cases hfind : (mergeBy key merge l).find? (key · = key m) with
    | none => simpa using find?_eq_none.mp hfind m hm
    | some m' =>
      exact congrArg some (hunique m' (mem_of_find?_eq_some hfind) (by simpa using find?_some hfind))
  · exact mem_of_find?_eq_some

/-- Every element belongs to a merged group. -/
theorem exists_mem_mergeBy (ha : a ∈ l) : ∃ m ∈ mergeBy key merge l, key m = key a := by
  have hne : l.filter (key · = key a) ≠ [] :=
    ne_nil_of_mem (mem_filter.mpr ⟨ha, by simp⟩)
  obtain ⟨m, hm⟩ := Option.isSome_iff_exists.mp (mergeGroup_isSome_iff.mpr hne)
  rw [← find?_mergeBy hkey] at hm
  exact ⟨m, mem_of_find?_eq_some hm, by simpa using find?_some hm⟩

end Key

section

omit [DecidableEq κ]

/-- The first occurrences are all different. -/
theorem nodup_eraseDups [BEq α] [LawfulBEq α] (l : List α) : l.eraseDups.Nodup := by
  induction h : l.length using Nat.strongRecOn generalizing l with
  | ind n ih =>
    cases l with
    | nil => exact nodup_nil
    | cons a rest =>
      have hlength : (rest.filter fun b => !b == a).length < n := by
        rw [← h, length_cons]
        exact Nat.lt_succ_of_le (length_filter_le _ _)
      rw [eraseDups_cons]
      exact nodup_cons.mpr ⟨by simp, ih _ hlength _ rfl⟩

theorem flatMap_filter {γ : Type} (f : α → List γ) (p : α → Bool) (l : List α) :
    (l.filter p).flatMap f = l.flatMap fun a => if p a then f a else [] := by
  induction l with
  | nil => rfl
  | cons a l ih => cases hp : p a <;> simp [hp, ih]

theorem map_eq_of_forall₂ {γ : Type} {f : α → γ} {g : β → γ} {l : List α} {l' : List β}
    (h : Forall₂ (fun a b => f a = g b) l l') : l.map f = l'.map g := by
  rw [← forall₂_eq_eq_eq, forall₂_map_left_iff, forall₂_map_right_iff]
  exact h

/-- What factors through the images of two lists, which are permutations, is a permutation. -/
theorem perm_map_of_perm_map {γ δ : Type} {l : List α} {l' : List β} {f : α → γ} {f' : β → γ}
    {g : α → δ} {g' : β → δ} (hperm : l.map f ~ l'.map f') (h : ∀ a b, f a = f' b → g a = g' b) :
    l.map g ~ l'.map g' := by
  have hsame : Forall₂ (fun c b => c = f' b) (l'.map f') l' := by
    rw [forall₂_map_left_iff, forall₂_same]
    exact fun _ _ => rfl
  obtain ⟨w, hforall, hw⟩ := perm_comp_forall₂ hperm hsame
  have heq : l.map g = w.map g' :=
    map_eq_of_forall₂ ((forall₂_map_left_iff.mp hforall).imp fun a b hab => h a b hab)
  rw [heq]
  exact hw.map g'

/-- Two lists with the same keys, none of which occurs twice, can be put side by side. -/
theorem exists_perm_forall₂_of_keys {R : α → α → Prop} {l l' : List α}
    (hnodup : (l.map key).Nodup) (hnodup' : (l'.map key).Nodup)
    (hleft : ∀ a ∈ l, ∃ b ∈ l', key b = key a ∧ R a b)
    (hright : ∀ b ∈ l', ∃ a ∈ l, key a = key b) :
    ∃ l'', l' ~ l'' ∧ Forall₂ R l l'' := by
  induction l generalizing l' with
  | nil =>
    cases l' with
    | nil => exact ⟨[], .nil, .nil⟩
    | cons b rest =>
      obtain ⟨_, ha, _⟩ := hright b mem_cons_self
      cases ha
  | cons a l ih =>
    obtain ⟨hnotMem, hnodup⟩ := nodup_cons.mp hnodup
    obtain ⟨b, hb, hkey, hrel⟩ := hleft a mem_cons_self
    obtain ⟨before, after, rfl⟩ := append_of_mem hb
    have hperm : before ++ b :: after ~ b :: (before ++ after) := perm_middle
    have hkeys : (key b :: (before ++ after).map key).Nodup :=
      (hperm.map key).nodup_iff.mp hnodup'
    obtain ⟨hfresh, hnodup'⟩ := nodup_cons.mp hkeys
    obtain ⟨l'', hrest, hforall⟩ := ih hnodup hnodup'
      (fun c hc => by
        obtain ⟨d, hd, hdkey, hdrel⟩ := hleft c (mem_cons_of_mem _ hc)
        rcases mem_cons.mp (hperm.subset hd) with rfl | hd
        · exact absurd (mem_map.mpr ⟨c, hc, hdkey.symm.trans hkey⟩) hnotMem
        · exact ⟨d, hd, hdkey, hdrel⟩)
      (fun d hd => by
        obtain ⟨c, hc, hckey⟩ := hright d (hperm.symm.subset (mem_cons_of_mem _ hd))
        rcases mem_cons.mp hc with rfl | hc
        · exact absurd (mem_map.mpr ⟨d, hd, (hkey.trans hckey).symm⟩) hfresh
        · exact ⟨c, hc, hckey⟩)
    exact ⟨b :: l'', hperm.trans (hrest.cons b), .cons hrel hforall⟩

end

end List
