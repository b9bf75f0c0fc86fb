/-
Lists cut into groups by a key, and the neighbours in them.

`groupBy` is the map a loop builds that pushes every element to the entry of its
key. `pair_infix_flatMap_iff` says where two neighbours of a list of groups come
from: from one group, or from the end of a group and the start of the next.
-/

import PinchNPrint.Lib.Sequences

namespace BTreeMap

open Std

variable {K α : Type} [Ord K] [TransOrd K] [LawfulEqOrd K] [DecidableEq K]

/-- Every element pushed to the entry of its key. -/
def groupBy (key : α → K) (l : List α) : BTreeMap K (List α) :=
  l.foldl (fun groups a => groups.insert (key a) (groups[key a]?.getD [] ++ [a])) ∅

/-- A group is the part of the list with its key, or is missing. -/
theorem getElem?_groupBy (key : α → K) (l : List α) (k : K) :
    (groupBy key l)[k]? =
      if l.filter (key · = k) = [] then none else some (l.filter (key · = k)) := by
  -- from the end, so that the last push is the outermost one
  induction l using List.reverseRecOn with
  | nil => simp [groupBy]
  | append_singleton l a ih =>
      have hstep : groupBy key (l ++ [a]) = (groupBy key l).insert (key a)
          ((groupBy key l)[key a]?.getD [] ++ [a]) := by
        simp [groupBy, List.foldl_append]
      rw [hstep]
      by_cases hkey : key a = k
      · subst hkey
        rw [ExtTreeMap.getElem?_insert_self, ih]
        by_cases hempty : l.filter (key · = key a) = []
        · simp [List.filter_append, hempty]
        · simp [List.filter_append, hempty]
      · rw [getElem?_insert_of_ne hkey, ih]
        simp [List.filter_append, hkey]

theorem mem_keys_groupBy {key : α → K} {l : List α} {k : K} :
    k ∈ (groupBy key l).keys ↔ ∃ a ∈ l, key a = k := by
  rw [ExtTreeMap.mem_keys, mem_iff_getElem?_isSome, getElem?_groupBy]
  constructor
  · rintro ⟨group, hgroup⟩
    split at hgroup
    · cases hgroup
    · next hne =>
        obtain ⟨a, ha⟩ := List.exists_mem_of_ne_nil _ hne
        exact ⟨a, (List.mem_filter.mp ha).1, of_decide_eq_true (List.mem_filter.mp ha).2⟩
  · rintro ⟨a, ha, hkey⟩
    have hne : l.filter (key · = k) ≠ [] :=
      List.ne_nil_of_mem (List.mem_filter.mpr ⟨ha, decide_eq_true hkey⟩)
    exact ⟨_, if_neg hne⟩

theorem eq_filter_of_mem_groupBy {key : α → K} {l : List α} {entry : K × List α}
    (h : entry ∈ (groupBy key l).toList) : entry.2 = l.filter (key · = entry.1) := by
  have hlookup := ExtTreeMap.mem_toList_iff_getElem?_eq_some.mp h
  rw [getElem?_groupBy] at hlookup
  split at hlookup
  · cases hlookup
  · exact (Option.some.inj hlookup).symm

/-- The groups in ascending key order. -/
theorem vals_groupBy (key : α → K) (l : List α) :
    vals (groupBy key l) = (groupBy key l).keys.map fun k => l.filter (key · = k) := by
  unfold vals
  rw [← ExtTreeMap.map_fst_toList_eq_keys, List.map_map]
  exact List.map_congr_left fun entry hentry => eq_filter_of_mem_groupBy hentry

end BTreeMap

namespace List

variable {α β : Type}

variable {l : List α} {x y : α}

/-- A list taken apart by the values of a key. -/
theorem flatMap_filter_perm {κ : Type} [DecidableEq κ] (key : α → κ) {keys : List κ}
    (hnodup : keys.Nodup) (hkeys : ∀ a ∈ l, key a ∈ keys) :
    (keys.flatMap fun k => l.filter (key · = k)).Perm l := by
  induction keys generalizing l with
  | nil =>
    have hempty : l = [] := eq_nil_iff_forall_not_mem.mpr fun a ha => not_mem_nil (hkeys a ha)
    rw [hempty]
    exact .nil
  | cons k keys ih =>
    obtain ⟨hfirst, hrest⟩ := nodup_cons.mp hnodup
    have hothers : (keys.flatMap fun k' => l.filter (key · = k')) =
        keys.flatMap fun k' => (l.filter fun a => !decide (key a = k)).filter (key · = k') := by
      refine flatMap_congr fun k' hk' => ?_
      rw [filter_filter]
      refine filter_congr fun a _ => ?_
      by_cases ha : key a = k'
      · have hne : k' ≠ k := fun h => hfirst (h ▸ hk')
        simp [ha, hne]
      · simp [ha]
    rw [flatMap_cons, hothers]
    refine (Perm.append_left _ (ih hrest fun a ha => ?_)).trans (filter_append_perm _ l)
    obtain ⟨ha, hne⟩ := mem_filter.mp ha
    exact (mem_cons.mp (hkeys a ha)).resolve_left (by simpa using hne)

/-- A partial map that is defined on a list. -/
theorem mapM_eq_some_map {f : α → Option β} {g : α → β} (h : ∀ a ∈ l, f a = some (g a)) :
    l.mapM f = some (l.map g) := by
  induction l with
  | nil => rfl
  | cons a rest ih =>
      rw [mapM_cons, h a mem_cons_self, ih fun b hb => h b (mem_cons_of_mem a hb)]
      rfl

theorem forall₂_of_mapM_eq_some {f : α → Option β} {l' : List β} (h : l.mapM f = some l') :
    Forall₂ (fun a b => f a = some b) l l' := by
  induction l generalizing l' with
  | nil =>
      cases h
      exact .nil
  | cons a rest ih =>
      rw [mapM_cons, Option.bind_eq_bind, Option.bind_eq_some_iff] at h
      obtain ⟨b, hb, h⟩ := h
      rw [Option.bind_eq_bind, Option.bind_eq_some_iff] at h
      obtain ⟨rest', hrest, h⟩ := h
      cases h
      exact .cons hb (ih hrest)

/-- A fallible map that succeeds on every element of a list. -/
theorem exists_mapM_eq_ok {ε : Type} {f : α → Except ε β} (h : ∀ a ∈ l, ∃ b, f a = .ok b) :
    ∃ l', l.mapM f = .ok l' := by
  induction l with
  | nil => exact ⟨[], rfl⟩
  | cons a rest ih =>
      obtain ⟨b, hb⟩ := h a mem_cons_self
      obtain ⟨rest', hrest⟩ := ih fun c hc => h c (mem_cons_of_mem a hc)
      refine ⟨b :: rest', ?_⟩
      rw [mapM_cons, hb, hrest]
      rfl

/-- Where a test only ever turns false, what is taken first is all there is to take. -/
theorem takeWhile_eq_filter_of_pairwise {p : α → Bool}
    (hl : l.Pairwise fun a b => p b = true → p a = true) : l.takeWhile p = l.filter p := by
  induction l with
  | nil => rfl
  | cons a rest ih =>
      obtain ⟨hfirst, hrest⟩ := pairwise_cons.mp hl
      by_cases ha : p a = true
      · rw [takeWhile_cons_of_pos ha, filter_cons_of_pos ha, ih hrest]
      · have hnone : rest.filter p = [] :=
          filter_eq_nil_iff.mpr fun b hb hpb => ha (hfirst b hb hpb)
        rw [takeWhile_cons_of_neg ha, filter_cons_of_neg ha, hnone]

theorem pair_infix_cons_iff {a : α} :
    [x, y] <:+: a :: l ↔ (a = x ∧ l.head? = some y) ∨ [x, y] <:+: l := by
  rw [infix_cons_iff, cons_prefix_cons]
  cases l with
  | nil => simp
  | cons b rest =>
      rw [cons_prefix_cons, head?_cons, Option.some.injEq]
      simp [eq_comm]

theorem pair_infix_append_iff {l' : List α} :
    [x, y] <:+: l ++ l' ↔
      [x, y] <:+: l ∨ (l.getLast? = some x ∧ l'.head? = some y) ∨ [x, y] <:+: l' := by
  induction l with
  | nil => simp
  | cons a rest ih =>
      rw [cons_append, pair_infix_cons_iff, ih, pair_infix_cons_iff]
      cases rest with
      | nil => simp
      | cons b rest => simp [or_assoc]

/-- In a list without repetitions, a neighbour is the next element. -/
theorem head?_of_pair_infix {before after : List α} (hnodup : (before ++ x :: after).Nodup)
    (hpair : [x, y] <:+: before ++ x :: after) : after.head? = some y := by
  have hbefore : x ∉ before := fun h => (disjoint_of_nodup_append hnodup) h mem_cons_self
  have hafter : x ∉ after := (nodup_cons.mp (nodup_append.mp hnodup).2.1).1
  obtain hpair | ⟨hlast, _⟩ | hpair := pair_infix_append_iff.mp hpair
  · exact absurd (hpair.subset mem_cons_self) hbefore
  · exact absurd (mem_of_getLast? hlast) hbefore
  · obtain ⟨_, hhead⟩ | hpair := pair_infix_cons_iff.mp hpair
    · exact hhead
    · exact absurd (hpair.subset mem_cons_self) hafter

/-- Two neighbours of a list of groups are neighbours in one group, or the last of a
group and the first of the next. -/
theorem pair_infix_flatMap_iff {f : α → List β} (hne : ∀ a ∈ l, f a ≠ []) {x y : β} :
    [x, y] <:+: l.flatMap f ↔
      (∃ a ∈ l, [x, y] <:+: f a) ∨
        ∃ a b, [a, b] <:+: l ∧ (f a).getLast? = some x ∧ (f b).head? = some y := by
  induction l with
  | nil => simp
  | cons a rest ih =>
      have hrest : ∀ b ∈ rest, f b ≠ [] := fun b hb => hne b (mem_cons_of_mem a hb)
      -- the first group of the rest is not empty, so it holds the next element
      have hhead : (rest.flatMap f).head? = rest.head?.bind fun b => (f b).head? := by
        cases rest with
        | nil => rfl
        | cons b rest =>
            obtain ⟨z, zs, hz⟩ := exists_cons_of_ne_nil (hrest b mem_cons_self)
            simp [hz]
      rw [flatMap_cons, pair_infix_append_iff, ih hrest, hhead]
      constructor
      · rintro (hfirst | ⟨hlast, hnext⟩ | ⟨b, hb, hpair⟩ | ⟨b, c, hbc, hb, hc⟩)
        · exact .inl ⟨a, mem_cons_self, hfirst⟩
        · obtain ⟨b, hb, hfirst⟩ := Option.bind_eq_some_iff.mp hnext
          exact .inr ⟨a, b, pair_infix_cons_iff.mpr (.inl ⟨rfl, hb⟩), hlast, hfirst⟩
        · exact .inl ⟨b, mem_cons_of_mem a hb, hpair⟩
        · exact .inr ⟨b, c, pair_infix_cons_iff.mpr (.inr hbc), hb, hc⟩
      · rintro (⟨b, hb, hpair⟩ | ⟨b, c, hbc, hb, hc⟩)
        · obtain rfl | hb := mem_cons.mp hb
          · exact .inl hpair
          · exact .inr (.inr (.inl ⟨b, hb, hpair⟩))
        · obtain ⟨rfl, hc'⟩ | hbc := pair_infix_cons_iff.mp hbc
          · exact .inr (.inl ⟨hb, Option.bind_eq_some_iff.mpr ⟨c, hc', hc⟩⟩)
          · exact .inr (.inr (.inr ⟨b, c, hbc, hb, hc⟩))

/-- Neighbours of a sorted list have nothing between them. -/
theorem pair_infix_iff_of_pairwise [LinearOrder α] (hl : l.Pairwise (· < ·)) {a b : α} :
    [a, b] <:+: l ↔ a ∈ l ∧ b ∈ l ∧ a < b ∧ ∀ c ∈ l, ¬ (a < c ∧ c < b) :=
  pair_infix_iff_of_pairwise_key (f := id) hl

end List

theorem BTreeMap.flatten_groupBy_perm {K α : Type} [Ord K] [Std.TransOrd K] [Std.LawfulEqOrd K]
    [DecidableEq K] (key : α → K) (l : List α) : (vals (groupBy key l)).flatten.Perm l := by
  rw [vals_groupBy, ← List.flatMap_def]
  refine List.flatMap_filter_perm key ?_ fun a ha => mem_keys_groupBy.mpr ⟨a, ha, rfl⟩
  exact Std.ExtTreeMap.distinct_keys.imp fun h heq => h (by simp [heq])
