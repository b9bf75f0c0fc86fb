/-
Ordered maps and sets. `BTreeMap` and `BTreeSet` are the extensional trees of
the standard library ordered by `compare`, so iteration (`toList`) is in
ascending key order and two maps with the same lookups are equal. The lemmas
below are the few the standard library states only up to `compare`.
-/

import Mathlib

/-- A map iterated in ascending key order. -/
abbrev BTreeMap (K V : Type) [Ord K] : Type :=
  Std.ExtTreeMap K V compare

/-- A set iterated in ascending order. -/
abbrev BTreeSet (K : Type) [Ord K] : Type :=
  Std.ExtTreeSet K compare

variable {α β ε σ : Type}

/-- A bind succeeds when both parts do. -/
theorem Except.of_bind_eq_ok {x : Except ε α} {f : α → Except ε β} {b : β} (h : (x >>= f) = .ok b) :
    ∃ a, x = .ok a ∧ f a = .ok b := by
  cases x with
  | error error => cases h
  | ok a => exact ⟨a, rfl, h⟩

theorem Except.bind_eq_ok_iff {x : Except ε α} {f : α → Except ε β} {b : β} :
    (x >>= f) = .ok b ↔ ∃ a, x = .ok a ∧ f a = .ok b := by
  constructor
  · exact Except.of_bind_eq_ok
  · rintro ⟨a, rfl, h⟩
    exact h

theorem Except.ok_bind (a : α) (f : α → Except ε β) : (Except.ok a >>= f) = f a :=
  rfl

/-- A result that survives the loss of the error was a success. -/
theorem Except.of_toOption_eq_some {x : Except ε α} {a : α} (h : x.toOption = some a) :
    x = .ok a := by
  cases x with
  | error error => cases h
  | ok b => rw [Option.some.inj h]

/-- Whenever the computation fails, its error satisfies `P`. -/
def Except.FailsWith {ε α : Type} (P : ε → Prop) (x : Except ε α) : Prop :=
  ∀ error, x = .error error → P error

theorem Except.FailsWith.pure {P : ε → Prop} (a : α) : Except.FailsWith P (.ok a : Except ε α) := by
  intro error h
  cases h

theorem Except.FailsWith.bind {P : ε → Prop} {x : Except ε α} {f : α → Except ε β}
    (hx : Except.FailsWith P x) (hf : ∀ a, Except.FailsWith P (f a)) :
    Except.FailsWith P (x >>= f) := by
  intro error h
  cases x with
  | error error' =>
    cases h
    exact hx error rfl
  | ok a => exact hf a error h

theorem Except.FailsWith.foldlM {P : ε → Prop} {step : σ → α → Except ε σ} {l : List α}
    (hstep : ∀ a ∈ l, ∀ s, Except.FailsWith P (step s a)) (s : σ) :
    Except.FailsWith P (l.foldlM step s) := by
  induction l generalizing s with
  | nil => exact Except.FailsWith.pure s
  | cons a rest ih =>
    rw [List.foldlM_cons]
    apply Except.FailsWith.bind (hstep a List.mem_cons_self s)
    intro next
    exact ih (fun b hb => hstep b (List.mem_cons_of_mem a hb)) next

theorem Except.FailsWith.mapM {P : ε → Prop} {f : α → Except ε β} {l : List α}
    (hf : ∀ a ∈ l, Except.FailsWith P (f a)) : Except.FailsWith P (l.mapM f) := by
  induction l with
  | nil => exact Except.FailsWith.pure []
  | cons a rest ih =>
    rw [List.mapM_cons]
    apply Except.FailsWith.bind (hf a List.mem_cons_self)
    intro first
    apply Except.FailsWith.bind (ih fun b hb => hf b (List.mem_cons_of_mem a hb))
    intro others
    exact Except.FailsWith.pure (first :: others)

/-- A translated error is the translation of one. -/
theorem Except.of_mapError_eq_error {ε' : Type} {f : ε → ε'} {x : Except ε α} {error : ε'}
    (h : x.mapError f = .error error) : ∃ inner, x = .error inner ∧ f inner = error := by
  cases x with
  | error inner => exact ⟨inner, rfl, Except.error.inj h⟩
  | ok a => cases h

theorem Except.of_mapError_eq_ok {ε' : Type} {f : ε → ε'} {x : Except ε α} {a : α}
    (h : x.mapError f = .ok a) : x = .ok a := by
  cases x with
  | error inner => cases h
  | ok b => exact congrArg Except.ok (Except.ok.inj h)

/-- A successful traversal, element by element. -/
theorem Except.forall₂_of_mapM_eq_ok {f : α → Except ε β} {l : List α} {results : List β}
    (h : l.mapM f = .ok results) : List.Forall₂ (fun a b => f a = .ok b) l results := by
  induction l generalizing results with
  | nil =>
    cases h
    exact .nil
  | cons a rest ih =>
    rw [List.mapM_cons] at h
    obtain ⟨first, hfirst, h⟩ := Except.of_bind_eq_ok h
    obtain ⟨others, hothers, h⟩ := Except.of_bind_eq_ok h
    cases h
    exact .cons hfirst (ih hothers)

/-- Every result of a successful traversal is the result of some element. -/
theorem Except.of_mapM_eq_ok {f : α → Except ε β} {l : List α} {results : List β}
    (h : l.mapM f = .ok results) {b : β} (hb : b ∈ results) : ∃ a ∈ l, f a = .ok b := by
  induction l generalizing results with
  | nil =>
    cases h
    cases hb
  | cons a rest ih =>
    rw [List.mapM_cons] at h
    obtain ⟨first, hfirst, h⟩ := Except.of_bind_eq_ok h
    obtain ⟨others, hothers, h⟩ := Except.of_bind_eq_ok h
    cases h
    rcases List.mem_cons.mp hb with rfl | hb
    · exact ⟨a, List.mem_cons_self, hfirst⟩
    · obtain ⟨a', ha', hf⟩ := ih hothers hb
      exact ⟨a', List.mem_cons_of_mem a ha', hf⟩

/-- A successful traversal keeps positions. -/
theorem Except.getElem?_of_mapM_eq_ok {f : α → Except ε β} {l : List α} {results : List β}
    (h : l.mapM f = .ok results) {i : Nat} {a : α} (ha : l[i]? = some a) :
    ∃ b, results[i]? = some b ∧ f a = .ok b := by
  induction l generalizing results i with
  | nil => cases ha
  | cons first rest ih =>
    rw [List.mapM_cons] at h
    obtain ⟨b, hb, h⟩ := Except.of_bind_eq_ok h
    obtain ⟨others, hothers, h⟩ := Except.of_bind_eq_ok h
    cases h
    cases i with
    | zero =>
      cases ha
      exact ⟨b, rfl, hb⟩
    | succ i => exact ih hothers ha

/-- A loop of checks succeeds when every check does. -/
theorem Except.of_forM_eq_ok {f : α → Except ε Unit} {l : List α} (h : l.forM f = .ok ()) {a : α}
    (ha : a ∈ l) : f a = .ok () := by
  induction l with
  | nil => cases ha
  | cons first rest ih =>
    obtain ⟨_, hfirst, h⟩ := Except.of_bind_eq_ok h
    rcases List.mem_cons.mp ha with rfl | ha
    · exact hfirst
    · exact ih h ha

theorem Except.forM_eq_ok_iff {f : α → Except ε Unit} {l : List α} :
    l.forM f = .ok () ↔ ∀ a ∈ l, f a = .ok () := by
  constructor
  · intro h a ha
    exact Except.of_forM_eq_ok h ha
  · intro h
    induction l with
    | nil => rfl
    | cons first rest ih =>
      have hrest := ih fun a ha => h a (List.mem_cons_of_mem first ha)
      change (f first >>= fun _ => rest.forM f) = .ok ()
      rw [h first List.mem_cons_self]
      exact hrest

/-- What every step keeps, a successful fold keeps. -/
theorem Except.foldlM_invariant {step : σ → α → Except ε σ} {P : σ → Prop} {l : List α}
    (hstep : ∀ a ∈ l, ∀ s s', P s → step s a = .ok s' → P s') {s s' : σ} (hs : P s)
    (h : l.foldlM step s = .ok s') : P s' := by
  induction l generalizing s with
  | nil =>
    cases h
    exact hs
  | cons a rest ih =>
    rw [List.foldlM_cons] at h
    obtain ⟨next, hnext, h⟩ := Except.of_bind_eq_ok h
    exact ih (fun b hb => hstep b (List.mem_cons_of_mem a hb))
      (hstep a List.mem_cons_self s next hs hnext) h

/-- Every step of a successful fold succeeds. -/
theorem Except.step_of_foldlM_eq_ok {step : σ → α → Except ε σ} {l : List α} {s s' : σ}
    (h : l.foldlM step s = .ok s') {a : α} (ha : a ∈ l) : ∃ t t', step t a = .ok t' := by
  induction l generalizing s with
  | nil => cases ha
  | cons first rest ih =>
    rw [List.foldlM_cons] at h
    obtain ⟨next, hnext, h⟩ := Except.of_bind_eq_ok h
    rcases List.mem_cons.mp ha with rfl | ha
    · exact ⟨s, next, hnext⟩
    · exact ih h ha

/-- When every step overwrites what is observed with what it writes, if anything,
the last step that writes something decides. -/
theorem Except.foldlM_last {step : σ → α → Except ε σ} {observe : σ → Option β}
    {writes : α → Option β}
    (hstep : ∀ s a s', step s a = .ok s' → observe s' = (writes a).or (observe s)) {l : List α}
    {s s' : σ} (h : l.foldlM step s = .ok s') :
    observe s' = (l.filterMap writes).getLast?.or (observe s) := by
  induction l generalizing s with
  | nil =>
    cases h
    rfl
  | cons a rest ih =>
    rw [List.foldlM_cons] at h
    obtain ⟨next, hnext, h⟩ := Except.of_bind_eq_ok h
    rw [ih h, hstep s a next hnext]
    cases hwrites : writes a with
    | none => rw [List.filterMap_cons_none hwrites, Option.none_or]
    | some b =>
      rw [List.filterMap_cons_some hwrites, List.getLast?_cons]
      cases (rest.filterMap writes).getLast? <;> rfl

/-- When every step only fills what is not observed yet, the first step that
writes something decides. -/
theorem Except.foldlM_first {step : σ → α → Except ε σ} {observe : σ → Option β}
    {writes : α → Option β}
    (hstep : ∀ s a s', step s a = .ok s' → observe s' = (observe s).or (writes a)) {l : List α}
    {s s' : σ} (h : l.foldlM step s = .ok s') :
    observe s' = (observe s).or (l.findSome? writes) := by
  induction l generalizing s with
  | nil =>
    cases h
    simp
  | cons a rest ih =>
    rw [List.foldlM_cons] at h
    obtain ⟨next, hnext, h⟩ := Except.of_bind_eq_ok h
    rw [ih h, hstep s a next hnext, Option.or_assoc]
    cases hwrites : writes a <;> simp [hwrites]

theorem List.filterMap_ite_some (p : α → Bool) (f : α → β) (l : List α) :
    (l.filterMap fun a => if p a then some (f a) else none) = (l.filter p).map f := by
  induction l with
  | nil => rfl
  | cons a rest ih =>
    rw [filterMap_cons, filter_cons, ih]
    cases p a <;> rfl

theorem List.foldl_collects {step : σ → α → σ} {Has : σ → Prop} {Adds : α → Prop}
    (hstep : ∀ s a, Has (step s a) ↔ Has s ∨ Adds a) (l : List α) (s : σ) :
    Has (l.foldl step s) ↔ Has s ∨ ∃ a ∈ l, Adds a := by
  induction l generalizing s with
  | nil => simp
  | cons a rest ih =>
    rw [List.foldl_cons, ih, hstep, or_assoc, List.exists_mem_cons_iff]

/-- Searching by a key that no two elements share finds the element. -/
theorem List.find?_key_eq_some {κ : Type} [DecidableEq κ] {key : α → κ} {l : List α}
    (hnodup : (l.map key).Nodup) {a : α} (ha : a ∈ l) :
    l.find? (fun b => key b == key a) = some a := by
  cases hfind : l.find? fun b => key b == key a with
  | none =>
    have := List.find?_eq_none.mp hfind a ha
    simp at this
  | some b =>
    have hkey : key b = key a := by simpa using List.find?_some hfind
    rw [List.inj_on_of_nodup_map hnodup (List.mem_of_find?_eq_some hfind) ha hkey]

/-- The pairs `(l[i], l[j])` with `i < j`, in the order of the nested loops. -/
def orderedPairs {α : Type} : List α → List (α × α)
  | [] => []
  | x :: rest => rest.map (fun y => (x, y)) ++ orderedPairs rest

theorem mem_orderedPairs {l : List α} {x y : α} (hx : x ∈ l) (hy : y ∈ l) (hne : x ≠ y) :
    (x, y) ∈ orderedPairs l ∨ (y, x) ∈ orderedPairs l := by
  induction l with
  | nil => cases hx
  | cons a rest ih =>
    simp only [orderedPairs, List.mem_append, List.mem_map, Prod.mk.injEq]
    rcases List.mem_cons.mp hx with rfl | hx'
    · rcases List.mem_cons.mp hy with rfl | hy'
      · exact absurd rfl hne
      · exact Or.inl (Or.inl ⟨y, hy', rfl, rfl⟩)
    · rcases List.mem_cons.mp hy with rfl | hy'
      · exact Or.inr (Or.inl ⟨x, hx', rfl, rfl⟩)
      · rcases ih hx' hy' with h | h
        · exact Or.inl (Or.inr h)
        · exact Or.inr (Or.inr h)

/-- In a list ordered by an asymmetric relation the pairs are the related pairs. -/
theorem mem_orderedPairs_iff {r : α → α → Prop} (hasymm : ∀ x y, r x y → ¬ r y x) {l : List α}
    (hl : l.Pairwise r) {x y : α} : (x, y) ∈ orderedPairs l ↔ x ∈ l ∧ y ∈ l ∧ r x y := by
  induction l with
  | nil => simp [orderedPairs]
  | cons a rest ih =>
    obtain ⟨hfirst, hrest⟩ := List.pairwise_cons.mp hl
    simp only [orderedPairs, List.mem_append, List.mem_map, Prod.mk.injEq, ih hrest]
    constructor
    · rintro (⟨b, hb, rfl, rfl⟩ | ⟨hx, hy, hxy⟩)
      · exact ⟨List.mem_cons_self, List.mem_cons_of_mem _ hb, hfirst b hb⟩
      · exact ⟨List.mem_cons_of_mem _ hx, List.mem_cons_of_mem _ hy, hxy⟩
    · rintro ⟨hx, hy, hxy⟩
      rcases List.mem_cons.mp hx with rfl | hx'
      · rcases List.mem_cons.mp hy with rfl | hy'
        · exact absurd hxy (hasymm y y hxy)
        · exact .inl ⟨y, hy', rfl, rfl⟩
      · rcases List.mem_cons.mp hy with rfl | hy'
        · exact absurd (hfirst x hx') (hasymm x y hxy)
        · exact .inr ⟨hx', hy', hxy⟩

/-- Sorted without repetitions. -/
def sortDedup {K : Type} [Ord K] [Std.TransOrd K] (l : List K) : List K :=
  (Std.ExtTreeSet.ofList l compare).toList

namespace BTreeMap

open Std

variable {K V : Type} [Ord K] [TransOrd K] [LawfulEqOrd K]

/-- The values in ascending key order. -/
def vals (m : BTreeMap K V) : List V :=
  m.toList.map Prod.snd

variable {m : BTreeMap K V} {v : V} {k : K} {l : List (K × V)}

theorem mem_vals : v ∈ vals m ↔ ∃ k : K, m[k]? = some v := by
  simp only [vals, List.mem_map, Prod.exists, exists_eq_right]
  exact exists_congr fun k => ExtTreeMap.mem_toList_iff_getElem?_eq_some

omit [LawfulEqOrd K] in
theorem mem_iff_getElem?_isSome : k ∈ m ↔ ∃ v, m[k]? = some v := by
  rw [ExtTreeMap.mem_iff_isSome_getElem?, Option.isSome_iff_exists]

theorem getElem?_insert_of_ne {a : K} (h : k ≠ a) (v : V) : (m.insert k v)[a]? = m[a]? := by
  simp [ExtTreeMap.getElem?_insert, h]

/-- An entry of an extended map is the new one or was there. -/
theorem getElem?_insert_cases {k' : K} {v' : V} (h : (m.insert k v)[k']? = some v') :
    (k' = k ∧ v' = v) ∨ m[k']? = some v' := by
  by_cases hk : k = k'
  · subst hk
    rw [ExtTreeMap.getElem?_insert_self] at h
    exact Or.inl ⟨rfl, (Option.some.inj h).symm⟩
  · rw [getElem?_insert_of_ne hk] at h
    exact Or.inr h

/-- An entry of a reduced map was there under another key. -/
theorem getElem?_erase_cases {k' : K} (h : (m.erase k)[k']? = some v) :
    k' ≠ k ∧ m[k']? = some v := by
  by_cases hk : k = k'
  · subst hk
    rw [ExtTreeMap.getElem?_erase_self] at h
    cases h
  · refine ⟨fun heq => hk heq.symm, ?_⟩
    rw [ExtTreeMap.getElem?_erase] at h
    simpa [hk] using h

/-- An entry of a map extended by a list is in the list or was there. -/
theorem getElem?_foldl_insert_cases
    (h : (l.foldl (fun m row => m.insert row.1 row.2) m)[k]? = some v) :
    (k, v) ∈ l ∨ m[k]? = some v := by
  induction l generalizing m with
  | nil => exact Or.inr h
  | cons row rest ih =>
    rcases ih h with hrest | hrow
    · exact Or.inl (List.mem_cons_of_mem row hrest)
    · rcases getElem?_insert_cases hrow with ⟨rfl, rfl⟩ | hold
      · exact Or.inl List.mem_cons_self
      · exact Or.inr hold

/-- A map extended by another shows the other one first. -/
theorem getElem?_foldl_insert_toList (m start : BTreeMap K V) (k : K) :
    (m.toList.foldl (fun m row => m.insert row.1 row.2) start)[k]? = m[k]?.or start[k]? := by
  classical
  let _ : BEq K := instBEqOfDecidableEq
  rw [← ExtTreeMap.insertMany_list_eq_foldl]
  cases hk : m[k]? with
  | some v =>
    exact ExtTreeMap.getElem?_insertMany_list_of_mem compare_self
      ExtTreeMap.distinct_keys_toList (ExtTreeMap.mem_toList_iff_getElem?_eq_some.mpr hk)
  | none =>
    refine ExtTreeMap.getElem?_insertMany_list_of_contains_eq_false ?_
    rw [ExtTreeMap.map_fst_toList_eq_keys, List.contains_eq_mem, decide_eq_false_iff_not,
      ExtTreeMap.mem_keys, mem_iff_getElem?_isSome, hk]
    nofun

/-- An entry of a collected list is one of its pairs. -/
theorem mem_of_getElem?_ofList (h : (ExtTreeMap.ofList l compare)[k]? = some v) : (k, v) ∈ l := by
  rw [ExtTreeMap.ofList_eq_foldl] at h
  rcases getElem?_foldl_insert_cases h with hmem | hempty
  · exact hmem
  · simp at hempty

theorem mem_ofList_iff : k ∈ ExtTreeMap.ofList l compare ↔ k ∈ l.map Prod.fst := by
  classical
  let _ : BEq K := instBEqOfDecidableEq
  simp [ExtTreeMap.mem_ofList]

/-- Collecting pairs with distinct keys keeps every pair. -/
theorem getElem?_ofList_of_nodup (hl : (l.map Prod.fst).Nodup) (h : (k, v) ∈ l) :
    (ExtTreeMap.ofList l compare)[k]? = some v := by
  refine ExtTreeMap.getElem?_ofList_of_mem compare_self ?_ h
  rw [List.nodup_iff_pairwise_ne, List.pairwise_map] at hl
  exact hl.imp fun hne heq => hne (Std.compare_eq_iff_eq.mp heq)

section

omit [LawfulEqOrd K]

@[simp] theorem toList_empty : (∅ : BTreeMap K V).toList = [] :=
  rfl

@[simp] theorem vals_empty : vals (∅ : BTreeMap K V) = [] :=
  rfl

theorem nodup_toList (m : BTreeMap K V) : m.toList.Nodup := by
  refine List.Nodup.of_map Prod.fst ?_
  rw [ExtTreeMap.map_fst_toList_eq_keys]
  exact ExtTreeMap.nodup_keys

end

/-- A new key adds one entry to the listing. -/
theorem toList_insert_perm (hk : m[k]? = none) (v : V) :
    (m.insert k v).toList.Perm ((k, v) :: m.toList) := by
  rw [List.perm_ext_iff_of_nodup (nodup_toList _)]
  · rintro ⟨a, b⟩
    rw [List.mem_cons, ExtTreeMap.mem_toList_iff_getElem?_eq_some,
      ExtTreeMap.mem_toList_iff_getElem?_eq_some, Prod.mk.injEq]
    by_cases ha : k = a
    · subst ha
      rw [ExtTreeMap.getElem?_insert_self, hk]
      simp [eq_comm]
    · rw [getElem?_insert_of_ne ha]
      simp [Ne.symm ha]
  · refine List.nodup_cons.mpr ⟨?_, nodup_toList m⟩
    rw [ExtTreeMap.mem_toList_iff_getElem?_eq_some, hk]
    simp

/-- Erasing a key takes its entry out of the listing. -/
theorem toList_erase_perm (hk : m[k]? = some v) : m.toList.Perm ((k, v) :: (m.erase k).toList) := by
  rw [List.perm_ext_iff_of_nodup (nodup_toList m)]
  · rintro ⟨a, b⟩
    rw [List.mem_cons, ExtTreeMap.mem_toList_iff_getElem?_eq_some,
      ExtTreeMap.mem_toList_iff_getElem?_eq_some, Prod.mk.injEq, ExtTreeMap.getElem?_erase]
    by_cases ha : k = a
    · subst ha
      simp [hk, eq_comm]
    · simp [ha, Ne.symm ha]
  · refine List.nodup_cons.mpr ⟨?_, nodup_toList _⟩
    simp [ExtTreeMap.mem_toList_iff_getElem?_eq_some]

theorem vals_insert_perm (hk : m[k]? = none) (v : V) : (vals (m.insert k v)).Perm (v :: vals m) :=
  (toList_insert_perm hk v).map Prod.snd

theorem vals_erase_perm (hk : m[k]? = some v) : (vals m).Perm (v :: vals (m.erase k)) :=
  (toList_erase_perm hk).map Prod.snd

end BTreeMap

namespace BTreeSet

open Std

variable {K : Type} [Ord K] [TransOrd K] [LawfulEqOrd K]

theorem nodup_toList (s : BTreeSet K) : s.toList.Nodup := by
  have := ExtTreeSet.distinct_toList (t := s)
  rw [List.nodup_iff_pairwise_ne]
  exact this.imp fun hne heq => hne (Std.compare_eq_iff_eq.mpr heq)

variable {k : K} {s : BTreeSet K}

theorem mem_ofList_iff {l : List K} : k ∈ ExtTreeSet.ofList l compare ↔ k ∈ l := by
  classical
  let _ : BEq K := instBEqOfDecidableEq
  simp [ExtTreeSet.mem_ofList]

/-- The pairs of a sorted list without repetitions are its ascending pairs. -/
theorem mem_orderedPairs_sortDedup {l : List K} {x y : K} :
    (x, y) ∈ orderedPairs (sortDedup l) ↔ x ∈ l ∧ y ∈ l ∧ compare x y = .lt := by
  rw [sortDedup, mem_orderedPairs_iff (fun _ _ => OrientedCmp.not_lt_of_lt)
    ExtTreeSet.ordered_toList]
  simp only [ExtTreeSet.mem_toList, mem_ofList_iff]

/-- `BTreeSet::pop_first`: the least element and the rest. -/
def popFirst (s : BTreeSet K) : Option (K × BTreeSet K) :=
  s.min?.map fun k => (k, s.erase k)

omit [LawfulEqOrd K] in
theorem popFirst_none (h : popFirst s = none) : s.toList = [] := by
  rw [popFirst, Option.map_eq_none_iff] at h
  rw [ExtTreeSet.toList_eq_nil_iff]
  exact ExtTreeSet.min?_eq_none_iff.mp h

theorem popFirst_some {r : BTreeSet K} (h : popFirst s = some (k, r)) :
    s.toList.Perm (k :: r.toList) := by
  obtain ⟨k', hmin, heq⟩ := Option.map_eq_some_iff.mp h
  obtain ⟨rfl, rfl⟩ := Prod.mk.inj heq
  have hmem : k' ∈ s := (ExtTreeSet.min?_eq_some_iff_mem_and_forall.mp hmin).1
  rw [List.perm_ext_iff_of_nodup (nodup_toList s)]
  · intro a
    by_cases ha : k' = a
    · subst ha
      simp [hmem]
    · simp [ExtTreeSet.mem_erase, ha, Ne.symm ha]
  · refine List.nodup_cons.mpr ⟨?_, nodup_toList _⟩
    simp [ExtTreeSet.mem_erase]

theorem toList_insert_perm (h : k ∉ s.toList) : (s.insert k).toList.Perm (k :: s.toList) := by
  rw [List.perm_ext_iff_of_nodup (nodup_toList _) (List.nodup_cons.mpr ⟨h, nodup_toList s⟩)]
  intro a
  simp [ExtTreeSet.mem_insert, eq_comm (a := a)]

end BTreeSet
