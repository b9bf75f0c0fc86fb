/-
Positions in lists: lists related element by element, neighbours, and what
reordering keeps of them.
-/

import PinchNPrint.Lib.Collections

namespace List

variable {α β : Type}

variable {R : α → β → Prop} {a : α} {i : Nat} {l : List α} {l' : List β} {b : β}

/-- Related lists are related position by position. -/
theorem Forall₂.getElem?_some (h : Forall₂ R l l') (ha : l[i]? = some a) :
    ∃ b, l'[i]? = some b ∧ R a b := by
  induction h generalizing i with
  | nil => cases ha
  | cons hab _ ih =>
    cases i with
    | zero =>
      cases ha
      exact ⟨_, rfl, hab⟩
    | succ i => exact ih ha

theorem Forall₂.rel_of_getElem? (h : Forall₂ R l l') (ha : l[i]? = some a) (hb : l'[i]? = some b) :
    R a b := by
  obtain ⟨b', hb', hab⟩ := h.getElem?_some ha
  rw [hb] at hb'
  cases hb'
  exact hab

/-- Lists of one length related position by position are related. -/
theorem forall₂_of_getElem? (hlength : l.length = l'.length)
    (h : ∀ (i : Nat) (a : α) (b : β), l[i]? = some a → l'[i]? = some b → R a b) :
    Forall₂ R l l' := by
  apply forall₂_of_length_eq_of_get hlength
  intro i hi hi'
  exact h i _ _ (getElem?_eq_getElem hi) (getElem?_eq_getElem hi')

theorem Forall₂.exists_of_mem_left (h : Forall₂ R l l') (ha : a ∈ l) : ∃ b ∈ l', R a b := by
  obtain ⟨i, hi⟩ := mem_iff_getElem?.mp ha
  obtain ⟨b, hb, hab⟩ := h.getElem?_some hi
  exact ⟨b, mem_of_getElem? hb, hab⟩

theorem Forall₂.exists_of_mem_right (h : Forall₂ R l l') (hb : b ∈ l') : ∃ a ∈ l, R a b := by
  have hflip : Forall₂ (fun b a => R a b) l' l := .flip h
  exact hflip.exists_of_mem_left hb

theorem Forall₂.trans_of {R : α → α → Prop} {l' l'' : List α} (h : Forall₂ R l l')
    (htrans : ∀ a b c, R a b → R b c → R a c) (h' : Forall₂ R l' l'') : Forall₂ R l l'' := by
  induction h generalizing l'' with
  | nil => exact h'
  | cons hab _ ih =>
    cases h' with
    | cons hbc hrest => exact .cons (htrans _ _ _ hab hbc) (ih hrest)

/-- Related lists stay related where related elements are put in. -/
theorem Forall₂.set (h : Forall₂ R l l') (hab : R a b) (i : Nat) :
    Forall₂ R (l.set i a) (l'.set i b) := by
  induction h generalizing i with
  | nil => exact .nil
  | cons hfirst hrest ih =>
    cases i with
    | zero => exact .cons hab hrest
    | succ i => exact .cons hfirst (ih i)

/-- Related lists stay related where related elements are put in between. -/
theorem Forall₂.insertIdx (h : Forall₂ R l l') (hab : R a b) (i : Nat) :
    Forall₂ R (l.insertIdx i a) (l'.insertIdx i b) := by
  induction i generalizing l l' with
  | zero => exact .cons hab h
  | succ i ih =>
    cases h with
    | nil => exact .nil
    | cons hfirst hrest => exact .cons hfirst (ih hrest)

/-- What is looked up for each element is related to what comes of it. -/
theorem Forall₂.filterMap_left {γ : Type} {R : β → γ → Prop} {f : α → Option β} {l' : List γ}
    (h : Forall₂ (fun a c => ∃ b, f a = some b ∧ R b c) l l') : Forall₂ R (l.filterMap f) l' := by
  induction h with
  | nil => exact .nil
  | cons hfirst _ ih =>
    obtain ⟨b, hb, hR⟩ := hfirst
    rw [filterMap_cons_some hb]
    exact .cons hR ih

/-- Looking up a permutation of the positions permutes. -/
theorem filterMap_getElem?_perm {positions : List Nat} {l : List α}
    (h : positions.Perm (range l.length)) : (positions.filterMap (l[·]?)).Perm l := by
  have hmap : (range l.length).map (l[·]?) = l.map some := by
    refine ext_getElem? fun i => ?_
    rcases Nat.lt_or_ge i l.length with hi | hi
    · simp [hi]
    · simp [hi]
  have hself : (range l.length).filterMap (l[·]?) = l :=
    calc (range l.length).filterMap (l[·]?)
        = ((range l.length).map (l[·]?)).filterMap id := by rw [filterMap_map]; rfl
      _ = l := by rw [hmap, filterMap_map]; exact filterMap_some
  have hperm := h.filterMap (l[·]?)
  rwa [hself] at hperm

/-- What exchanging one of the lists does to a count over all of them. -/
theorem countP_flatten_set {p : α → Bool} {lists : List (List α)} {old : List α}
    (h : lists[i]? = some old) (new : List α) :
    (lists.set i new).flatten.countP p + old.countP p =
      lists.flatten.countP p + new.countP p := by
  induction lists generalizing i with
  | nil => cases h
  | cons first rest ih =>
    cases i with
    | zero =>
      cases h
      simp only [set_cons_zero, flatten_cons, countP_append]
      omega
    | succ i =>
      have hrest := ih h
      simp only [set_cons_succ, flatten_cons, countP_append]
      omega

/-- Parts that are together as long as the wholes are the wholes. -/
theorem eq_of_flatMap_length_le {f g : α → List β} (hsub : ∀ a ∈ l, f a <+ g a)
    (h : (l.flatMap g).length ≤ (l.flatMap f).length) (ha : a ∈ l) : f a = g a := by
  induction l with
  | nil => cases ha
  | cons first rest ih =>
    have hrest : ∀ b ∈ rest, f b <+ g b := fun b hb => hsub b (mem_cons_of_mem first hb)
    have hfirst := hsub first mem_cons_self
    have hle : (rest.flatMap f).length ≤ (rest.flatMap g).length := by
      rw [length_flatMap, length_flatMap]
      exact sum_le_sum fun b hb => (hrest b hb).length_le
    have hfirstLe := hfirst.length_le
    rw [flatMap_cons, flatMap_cons, length_append, length_append] at h
    rcases mem_cons.mp ha with rfl | ha
    · exact hfirst.eq_of_length_le (by omega)
    · exact ih hrest (by omega) ha

/-- Two neighbours are two positions in a row. -/
theorem pair_infix_iff {b : α} :
    [a, b] <:+: l ↔ ∃ i : Nat, l[i]? = some a ∧ l[i + 1]? = some b := by
  constructor
  · rintro ⟨before, after, rfl⟩
    refine ⟨before.length, ?_, ?_⟩ <;> simp
  · rintro ⟨i, ha, hb⟩
    obtain ⟨hi, rfl⟩ := getElem?_eq_some_iff.mp ha
    obtain ⟨hi', rfl⟩ := getElem?_eq_some_iff.mp hb
    refine ⟨l.take i, l.drop (i + 2), ?_⟩
    have hdrop : l.drop i = l[i] :: l[i + 1] :: l.drop (i + 2) := by
      rw [drop_eq_getElem_cons hi, drop_eq_getElem_cons hi']
    rw [append_assoc]
    exact (congrArg (l.take i ++ ·) hdrop.symm).trans (take_append_drop i l)

/-- Neighbours of a list sorted by a key have nothing between them. -/
theorem pair_infix_iff_of_pairwise_key [LinearOrder β] {f : α → β} {b : α}
    (hl : l.Pairwise fun a b => f a < f b) : [a, b] <:+: l ↔
      a ∈ l ∧ b ∈ l ∧ f a < f b ∧ ∀ c ∈ l, ¬ (f a < f c ∧ f c < f b) := by
  constructor
  · rintro ⟨before, after, rfl⟩
    rw [append_assoc, pairwise_append, cons_append, cons_append, nil_append, pairwise_cons,
      pairwise_cons] at hl
    obtain ⟨-, ⟨ha, hb, -⟩, hbefore⟩ := hl
    refine ⟨by simp, by simp, ha b (by simp), fun c hc hbetween => ?_⟩
    simp only [append_assoc, cons_append, nil_append, mem_append, mem_cons] at hc
    rcases hc with hc | rfl | rfl | hc
    · exact lt_asymm hbetween.1 (hbefore c hc a (by simp))
    · exact lt_irrefl _ hbetween.1
    · exact lt_irrefl _ hbetween.2
    · exact lt_asymm hbetween.2 (hb c hc)
  · rintro ⟨ha, hb, hlt, hnone⟩
    obtain ⟨before, after, rfl⟩ := append_of_mem ha
    obtain ⟨-, hafter, hbefore⟩ := pairwise_append.mp hl
    obtain ⟨hfirst, hafter⟩ := pairwise_cons.mp hafter
    rcases mem_append.mp hb with hb | hb
    · exact absurd hlt (lt_asymm (hbefore b hb a (by simp)))
    rcases mem_cons.mp hb with rfl | hb
    · exact absurd hlt (lt_irrefl _)
    cases after with
    | nil => simp at hb
    | cons next after =>
      rcases mem_cons.mp hb with rfl | hb
      · exact ⟨before, after, by simp⟩
      · have hnext := (pairwise_cons.mp hafter).1 b hb
        exact absurd ⟨hfirst next (by simp), hnext⟩ (hnone next (by simp))

/-- A sublist that has the first element starts with it. -/
theorem Sublist.head?_eq_of_mem {l' : List α} (h : l' <+ l) (hl : l.Nodup) (ha : l.head? = some a)
    (hmem : a ∈ l') : l'.head? = some a := by
  cases h with
  | slnil => simp at hmem
  | cons b h =>
    rw [head?_cons, Option.some_inj] at ha
    rw [nodup_cons] at hl
    exact absurd (h.subset hmem) (ha ▸ hl.1)
  | cons_cons b h => exact ha

/-- A sublist that has the last element ends with it. -/
theorem Sublist.getLast?_eq_of_mem {l' : List α} (h : l' <+ l) (hl : l.Nodup)
    (ha : l.getLast? = some a) (hmem : a ∈ l') : l'.getLast? = some a := by
  rw [← head?_reverse] at ha ⊢
  exact h.reverse.head?_eq_of_mem (nodup_reverse.mpr hl) ha (mem_reverse.mpr hmem)

/-- The elements whose flag is up. -/
def selectMarked (l : List α) (flags : List Bool) : List α :=
  (l.zip flags).filterMap fun marked => if marked.2 then some marked.1 else none

theorem selectMarked_sublist (l : List α) (flags : List Bool) : selectMarked l flags <+ l := by
  induction l generalizing flags with
  | nil => simp [selectMarked]
  | cons a l ih =>
    cases flags with
    | nil => simp [selectMarked]
    | cons flag flags =>
      have hrest := ih flags
      cases flag with
      | false => exact hrest.cons a
      | true => exact hrest.cons_cons a

theorem map_selectMarked (f : α → β) (l : List α) (flags : List Bool) :
    (selectMarked l flags).map f = selectMarked (l.map f) flags := by
  induction l generalizing flags with
  | nil => simp [selectMarked]
  | cons a l ih =>
    cases flags with
    | nil => simp [selectMarked]
    | cons flag flags =>
      have hrest := ih flags
      cases flag with
      | false => exact hrest
      | true => exact congrArg (f a :: ·) hrest

/-- With their positions, the elements chosen are those at the flags that are up. -/
theorem mem_selectMarked_zipIdx_iff {flags : List Bool} :
    (a, i) ∈ selectMarked l.zipIdx flags ↔ l[i]? = some a ∧ flags[i]? = some true := by
  rw [selectMarked, mem_filterMap]
  constructor
  · rintro ⟨⟨entry, flag⟩, hmem, h⟩
    obtain ⟨j, hj⟩ := mem_iff_getElem?.mp hmem
    rw [getElem?_zip_eq_some, getElem?_zipIdx, Option.map_eq_some_iff] at hj
    obtain ⟨⟨b, hb, rfl⟩, hflag⟩ := hj
    cases flag with
    | false => simp at h
    | true =>
      simp only [if_true, Option.some_inj, Prod.mk.injEq, Nat.zero_add] at h
      obtain ⟨rfl, rfl⟩ := h
      exact ⟨hb, hflag⟩
  · rintro ⟨ha, hflag⟩
    refine ⟨((a, i), true), mem_iff_getElem?.mpr ⟨i, ?_⟩, rfl⟩
    rw [getElem?_zip_eq_some]
    exact ⟨by simp [ha], hflag⟩

/-- An infix of an appended list whose elements have a property stays on one side when
the neighbours at the seam do not both have it. -/
theorem infix_or_infix_of_append {p : α → Prop} {run xs ys : List α} (h : run <:+: xs ++ ys)
    (hrun : ∀ x ∈ run, p x)
    (hseam : ∀ i x y, i + 1 = xs.length → (xs ++ ys)[i]? = some x →
      (xs ++ ys)[i + 1]? = some y → p x → ¬ p y) : run <:+: xs ∨ run <:+: ys := by
  rcases infix_append_iff_ne_nil.mp h with h | h | ⟨left, right, hleft, hright, rfl, hxs, hys⟩
  · exact Or.inl h
  · exact Or.inr h
  · obtain ⟨init, x, rfl⟩ := eq_nil_or_concat left |>.resolve_left hleft
    obtain ⟨y, rest, rfl⟩ := exists_cons_of_ne_nil hright
    obtain ⟨front, rfl⟩ := hxs
    obtain ⟨back, rfl⟩ := hys
    have hlength : (front ++ init).length + 1 = (front ++ init.concat x).length := by
      simp [Nat.add_assoc]
    refine absurd (hrun y (by simp)) (hseam _ x y hlength ?_ ?_ (hrun x (by simp)))
    · simp
    · rw [hlength, getElem?_append_right le_rfl]
      simp

/-- A run of elements that pass a test is taken whole. -/
theorem le_length_takeWhile {p : α → Bool} {n : Nat} (h : ∀ i < n, ∃ a, l[i]? = some a ∧ p a = true)
    : n ≤ (l.takeWhile p).length := by
  induction l generalizing n with
  | nil =>
    cases n with
    | zero => exact le_rfl
    | succ n =>
      obtain ⟨_, ha, _⟩ := h 0 (Nat.succ_pos n)
      cases ha
  | cons first rest ih =>
    cases n with
    | zero => exact Nat.zero_le _
    | succ n =>
      obtain ⟨_, ha, hfirst⟩ := h 0 (Nat.succ_pos n)
      cases ha
      rw [takeWhile_cons_of_pos hfirst, length_cons]
      exact Nat.succ_le_succ (ih fun i hi => h (i + 1) (Nat.succ_lt_succ hi))

/-! ### The positions of a stable sort -/

/-- Comes before in a stable sort: by the order, then by position. -/
def sortsBefore (le : α → α → Bool) (a b : α × Nat) : Bool :=
  le a.1 b.1 && (!le b.1 a.1 || a.2 < b.2)

/-- The position a stable sort gives to the element at `i`: how many come before
it. -/
def sortRank (le : α → α → Bool) (l : List α) (i : Nat) : Nat :=
  match l[i]? with
  | none => l.length
  | some a => l.zipIdx.countP fun b => sortsBefore le b (a, i)

/-- In a strictly ordered list, the position of an element is the number of those
before it. -/
theorem countP_eq_of_pairwise {before : α → α → Bool}
    (hl : l.Pairwise fun a b => before a b = true ∧ before b a = false)
    (hirrefl : ∀ a ∈ l, before a a = false) {k : Nat} (ha : l[k]? = some a) :
    l.countP (before · a) = k := by
  induction l generalizing k with
  | nil => cases ha
  | cons first rest ih =>
    obtain ⟨hfirst, hrest⟩ := pairwise_cons.mp hl
    cases k with
    | zero =>
      cases ha
      have hself := hirrefl a mem_cons_self
      rw [countP_cons, countP_eq_zero.mpr fun b hb => by simp [(hfirst b hb).2]]
      simp [hself]
    | succ k =>
      have hmem : a ∈ rest := mem_of_getElem? ha
      rw [countP_cons, ih hrest (fun b hb => hirrefl b (mem_cons_of_mem first hb)) ha]
      simp [(hfirst a hmem).1]

section StableSort

variable {le : α → α → Bool}

/-- Insertion sort is stable: ties by position change nothing. -/
theorem map_fst_insertionSort_zipIdx (l : List α) (n : Nat) :
    ((l.zipIdx n).insertionSort fun a b => zipIdxLE le a b = true).map Prod.fst =
      l.insertionSort fun a b => le a b = true := by
  induction l generalizing n with
  | nil => rfl
  | cons a rest ih =>
    rw [zipIdx_cons, insertionSort_cons, insertionSort_cons, ← ih (n + 1)]
    have hlater : ∀ b ∈ (rest.zipIdx (n + 1)).insertionSort fun a b => zipIdxLE le a b = true,
        n < b.2 := by
      intro b hb
      rw [mem_insertionSort] at hb
      have := le_snd_of_mem_zipIdx hb
      omega
    generalize (rest.zipIdx (n + 1)).insertionSort (fun a b => zipIdxLE le a b = true) = sorted
      at hlater
    -- the element comes before all others, so only the order decides
    induction sorted with
    | nil => rfl
    | cons b sorted ih' =>
      have hb := hlater b mem_cons_self
      have hiff : zipIdxLE le (a, n) b = le a b.1 := by
        unfold zipIdxLE
        simp only [Nat.le_of_lt hb]
        cases le a b.1 <;> simp
      simp only [orderedInsert_cons, map_cons, hiff]
      split
      · rfl
      · rw [map_cons, ih' fun c hc => hlater c (mem_cons_of_mem b hc)]

variable (trans : ∀ a b c, le a b → le b c → le a c) (total : ∀ a b, le a b || le b a)

include trans total

/-- The element at `i`, with its position, lands at its rank. -/
theorem getElem?_insertionSort_zipIdx {l : List α} {i : Nat} {a : α} (ha : l[i]? = some a) :
    (l.zipIdx.insertionSort fun a b => zipIdxLE le a b = true)[sortRank le l i]? = some (a, i) := by
  have hmem : (a, i) ∈ l.zipIdx.insertionSort fun a b => zipIdxLE le a b = true := by
    rw [mem_insertionSort]
    exact mk_mem_zipIdx_iff_getElem?.mpr ha
  obtain ⟨k, hk⟩ := mem_iff_getElem?.mp hmem
  have hnodup : (l.zipIdx.insertionSort fun a b => zipIdxLE le a b = true).Nodup := by
    refine (perm_insertionSort _ _).nodup_iff.mpr (Nodup.of_map Prod.snd ?_)
    rw [zipIdx_map_snd]
    exact nodup_range'
  have : Std.Total fun a b : α × Nat => zipIdxLE le a b = true :=
    ⟨fun a b => by simpa using zipIdxLE_total total a b⟩
  have : IsTrans (α × Nat) fun a b => zipIdxLE le a b = true := ⟨zipIdxLE_trans trans⟩
  have hsorted := (pairwise_insertionSort (fun a b => zipIdxLE le a b = true) l.zipIdx).and hnodup
  -- sorted by order and position, and two entries never share both
  have hstrict : (l.zipIdx.insertionSort fun a b => zipIdxLE le a b = true).Pairwise fun x y =>
      sortsBefore le x y = true ∧ sortsBefore le y x = false := by
    refine hsorted.imp_of_mem fun {x y} hx hy hxy => ?_
    obtain ⟨hle, hne⟩ := hxy
    have hpos : x.2 ≠ y.2 := by
      intro hpos
      rw [mem_insertionSort] at hx hy
      have hx' := mem_zipIdx_iff_getElem?.mp hx
      have hy' := mem_zipIdx_iff_getElem?.mp hy
      rw [hpos, hy'] at hx'
      exact hne (Prod.ext (Option.some.inj hx').symm hpos)
    unfold zipIdxLE at hle
    unfold sortsBefore
    cases hxy : le x.1 y.1 with
    | false => simp [hxy] at hle
    | true =>
      cases hyx : le y.1 x.1 with
      | false => simp
      | true =>
        have hlt : x.2 ≤ y.2 := by simpa [hxy, hyx] using hle
        have : x.2 < y.2 := Nat.lt_of_le_of_ne hlt hpos
        simp [this, hlt]
  have hrank := countP_eq_of_pairwise hstrict (fun x _ => by simp [sortsBefore]) hk
  have hcount : sortRank le l i = k := by
    simp only [sortRank, ha]
    rw [← hrank]
    exact ((perm_insertionSort _ l.zipIdx).countP_eq _).symm
  rw [hcount]
  exact hk

/-- A stable sort puts the element at `i` at its rank. -/
theorem getElem?_insertionSort_sortRank {l : List α} {i : Nat} {a : α} (ha : l[i]? = some a) :
    (l.insertionSort fun a b => le a b = true)[sortRank le l i]? = some a := by
  rw [← map_fst_insertionSort_zipIdx l 0, getElem?_map, getElem?_insertionSort_zipIdx trans total ha]
  rfl

end StableSort

/-! ### Runs of a list

One pass with an open run: an element joins it or closes it and opens the
next. -/

section Gather

variable {γ : Type} (joins : α → β → Bool) (merge : α → β → α) (start : β → α)

def gatherFrom : α → List β → List α
  | run, [] => [run]
  | run, b :: rest =>
      if joins run b then gatherFrom (merge run b) rest else run :: gatherFrom (start b) rest

def gather : List β → List α
  | [] => []
  | b :: rest => gatherFrom joins merge start (start b) rest

variable {joins merge start}

theorem flatMap_gatherFrom {f : α → List γ} {g : β → List γ}
    (hmerge : ∀ run b, f (merge run b) = f run ++ g b)
    (hstart : ∀ b, f (start b) = g b) (run : α) (l : List β) :
    (gatherFrom joins merge start run l).flatMap f = f run ++ l.flatMap g := by
  induction l generalizing run with
  | nil => rw [gatherFrom, flatMap_cons, flatMap_nil, flatMap_nil]
  | cons b rest ih =>
    rw [gatherFrom, flatMap_cons]
    split
    · rw [ih, hmerge, append_assoc]
    · rw [flatMap_cons, ih, hstart]

/-- Gathering keeps the contents in order. -/
theorem flatMap_gather {f : α → List γ} {g : β → List γ}
    (hmerge : ∀ run b, f (merge run b) = f run ++ g b)
    (hstart : ∀ b, f (start b) = g b) (l : List β) :
    (gather joins merge start l).flatMap f = l.flatMap g := by
  cases l with
  | nil => rfl
  | cons b rest => rw [gather, flatMap_gatherFrom hmerge hstart, hstart, flatMap_cons]

section Keys

variable {K : Type} [Preorder K] {f : α → K} {g : β → K} {R : K → K → Prop}
  (hmerge : ∀ run b, f (merge run b) = f run) (hstart : ∀ b, f (start b) = g b)
  (hopens : ∀ run b, joins run b = false → f run ≤ g b → R (f run) (g b))
  (hmono : ∀ {a b c : K}, R a b → b ≤ c → R a c)

include hmerge hstart hopens hmono

/-- In a list in order of its keys, runs are related as soon as an element that
does not join is. -/
theorem pairwise_gatherFrom {run : α} {l : List β} (hl : l.Pairwise fun a b => g a ≤ g b)
    (hrun : ∀ b ∈ l, f run ≤ g b) :
    ((gatherFrom joins merge start run l).Pairwise fun a b => R (f a) (f b)) ∧
      ∀ a ∈ gatherFrom joins merge start run l, f run ≤ f a := by
  induction l generalizing run with
  | nil =>
    refine ⟨pairwise_singleton .., fun a ha => ?_⟩
    rw [gatherFrom, mem_singleton] at ha
    exact le_of_eq (congrArg f ha.symm)
  | cons b rest ih =>
    obtain ⟨hb, hrest⟩ := pairwise_cons.mp hl
    obtain ⟨hrunb, hrunrest⟩ := forall_mem_cons.mp hrun
    rw [gatherFrom]
    split
    case isTrue hjoins =>
      have h := @ih (merge run b) hrest fun c hc => (hmerge run b).symm ▸ hrunrest c hc
      rwa [hmerge] at h
    case isFalse hjoins =>
      have h := @ih (start b) hrest fun c hc => (hstart b).symm ▸ hb c hc
      rw [hstart] at h
      have hR : R (f run) (g b) := hopens run b (Bool.eq_false_iff.mpr hjoins) hrunb
      refine ⟨pairwise_cons.mpr ⟨fun a ha => hmono hR (h.2 a ha), h.1⟩, fun a ha => ?_⟩
      rcases mem_cons.mp ha with rfl | ha
      · exact le_rfl
      · exact hrunb.trans (h.2 a ha)

theorem pairwise_gather {l : List β} (hl : l.Pairwise fun a b => g a ≤ g b) :
    (gather joins merge start l).Pairwise fun a b => R (f a) (f b) := by
  cases l with
  | nil => exact .nil
  | cons b rest =>
    obtain ⟨hb, hrest⟩ := pairwise_cons.mp hl
    exact (pairwise_gatherFrom hmerge hstart hopens hmono hrest
      fun c hc => (hstart b).symm ▸ hb c hc).1

end Keys

end Gather

end List

/-- `Iterator::min_by`: the first of the least elements. -/
def minBy {α : Type} (order : α → α → Ordering) : List α → Option α
  | [] => none
  | a :: rest => some (rest.foldl (fun best b => if order best b = .gt then b else best) a)

variable {α : Type}

theorem mem_of_minBy {order : α → α → Ordering} {l : List α} {a : α} (h : minBy order l = some a) :
    a ∈ l := by
  cases l with
  | nil => cases h
  | cons first rest =>
    cases h
    induction rest generalizing first with
    | nil => simp
    | cons b rest ih =>
      rw [List.foldl_cons]
      rcases List.mem_cons.mp (ih (if order first b = .gt then b else first)) with heq | hrest
      · rw [heq]
        split <;> simp
      · exact List.mem_cons_of_mem _ (List.mem_cons_of_mem _ hrest)

theorem eq_nil_of_minBy {order : α → α → Ordering} {l : List α} (h : minBy order l = none) :
    l = [] := by
  cases l with
  | nil => rfl
  | cons first rest => cases h

/-- The element found has the least key, when the order refines that of the keys. -/
theorem key_minBy_le {K : Type} [LinearOrder K] {order : α → α → Ordering} (key : α → K)
    (hgt : ∀ a b, order a b = .gt → key b ≤ key a) (hle : ∀ a b, order a b ≠ .gt → key a ≤ key b)
    {l : List α} {a b : α} (h : minBy order l = some a) (hb : b ∈ l) : key a ≤ key b := by
  cases l with
  | nil => cases h
  | cons first rest =>
    cases h
    induction rest generalizing first b with
    | nil => rw [List.mem_singleton.mp hb, List.foldl_nil]
    | cons next rest ih =>
      rw [List.foldl_cons]
      by_cases horder : order first next = .gt
      · rw [if_pos horder]
        rcases List.mem_cons.mp hb with rfl | hb
        · exact (ih next List.mem_cons_self).trans (hgt _ _ horder)
        · exact ih next hb
      · rw [if_neg horder]
        rcases List.mem_cons.mp hb with rfl | hb
        · exact ih b List.mem_cons_self
        · rcases List.mem_cons.mp hb with rfl | hb
          · exact (ih first List.mem_cons_self).trans (hle _ _ horder)
          · exact ih first (List.mem_cons_of_mem _ hb)
