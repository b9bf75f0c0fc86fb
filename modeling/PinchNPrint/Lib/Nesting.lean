/-
Nested shapes.

Containment of shapes that do not cross is transitive, what contains is larger than what it
contains, and the containers of one shape lie in each other. Then the smallest container of a
shape is its parent, and the containers of a shape are its parent and the parent's containers
(`contains_iff_of_pick`). Of the shapes with one parent, or with none, just one is the given
shape or contains it, when the parent does (`existsUnique_child`).
-/

import Mathlib.Data.Finset.Max

namespace Nesting

variable {V A : Type} [LinearOrder A]

/-- Containment behaves like the nesting of contours that do not cross. -/
structure Nests (contains : V → V → Prop) (size : V → A) : Prop where
  trans : ∀ {a b c}, contains a b → contains b c → contains a c
  larger : ∀ {a b}, contains a b → size b < size a
  nested : ∀ {a b c}, contains a c → contains b c → a ≠ b →
    size a < size b ∧ contains b a ∨ size b < size a ∧ contains a b

/-- `pick` finds the smallest container of a shape. -/
structure Picks (contains : V → V → Prop) (size : V → A) (pick : V → Option V) : Prop where
  of_none : ∀ {c}, pick c = none → ∀ a, ¬ contains a c
  of_some : ∀ {c p}, pick c = some p → contains p c
  least : ∀ {c p}, pick c = some p → ∀ a, contains a c → size p ≤ size a

/-- The shape itself or a container of it. -/
def Covers (contains : V → V → Prop) (a c : V) : Prop :=
  a = c ∨ contains a c

variable {contains : V → V → Prop} {size : V → A} {pick : V → Option V}

theorem Nests.irrefl (h : Nests contains size) (a : V) : ¬ contains a a :=
  fun ha => lt_irrefl _ (h.larger ha)

/-- Two shapes that cover a third are the same, or one contains the other. -/
theorem Nests.comparable (h : Nests contains size) {a b c : V} (ha : Covers contains a c)
    (hb : Covers contains b c) : a = b ∨ contains a b ∨ contains b a := by
  rcases ha with rfl | ha
  · rcases hb with rfl | hb
    · exact Or.inl rfl
    · exact Or.inr (Or.inr hb)
  · rcases hb with rfl | hb
    · exact Or.inr (Or.inl ha)
    · by_cases hab : a = b
      · exact Or.inl hab
      · rcases h.nested ha hb hab with ⟨-, hba⟩ | ⟨-, hab⟩
        · exact Or.inr (Or.inr hba)
        · exact Or.inr (Or.inl hab)

/-- The containers of a shape are its parent and the parent's containers. -/
theorem contains_iff_of_pick (h : Nests contains size) (hpick : Picks contains size pick)
    {c p : V} (hc : pick c = some p) (a : V) : contains a c ↔ a = p ∨ contains a p := by
  constructor
  · intro ha
    by_cases hap : a = p
    · exact Or.inl hap
    · rcases h.nested ha (hpick.of_some hc) hap with ⟨hlt, -⟩ | ⟨-, hcontains⟩
      · exact absurd (hpick.least hc a ha) (not_le.mpr hlt)
      · exact Or.inr hcontains
  · rintro (rfl | ha)
    · exact hpick.of_some hc
    · exact h.trans ha (hpick.of_some hc)

theorem Covers.of_pick (h : Nests contains size) (hpick : Picks contains size pick) {c p i : V}
    (hc : pick c = some p) (hi : Covers contains c i) : contains p i := by
  rcases hi with rfl | hi
  · exact hpick.of_some hc
  · exact h.trans (hpick.of_some hc) hi

/-- Of two covers of one shape with the same parent, neither contains the other. -/
theorem not_contains_of_pick_eq (h : Nests contains size) (hpick : Picks contains size pick)
    {c c' : V} (heq : pick c = pick c') : ¬ contains c' c := by
  intro hcontains
  cases hc : pick c with
  | none => exact hpick.of_none hc c' hcontains
  | some p =>
    have hle := hpick.least hc c' hcontains
    have hlt := h.larger (hpick.of_some (heq.symm.trans hc))
    exact absurd hle (not_le.mpr hlt)

/-- Of the shapes with a given parent, just one covers a shape that the parent contains; and of
those with no parent, just one covers any shape. -/
theorem existsUnique_child (h : Nests contains size) (hpick : Picks contains size pick)
    (shapes : Finset V) (hshapes : ∀ {a b}, contains a b → a ∈ shapes) {i : V} (hi : i ∈ shapes)
    {parent : Option V} (hparent : ∀ p, parent = some p → contains p i) :
    ∃! c, c ∈ shapes ∧ pick c = parent ∧ Covers contains c i := by
  classical
  -- The largest cover of `i` below the parent is the child that is looked for.
  let below := shapes.filter fun c =>
    Covers contains c i ∧ ∀ p, parent = some p → contains p c
  have hne : below.Nonempty :=
    ⟨i, Finset.mem_filter.mpr ⟨hi, Or.inl rfl, hparent⟩⟩
  obtain ⟨c, hc, hlargest⟩ := Finset.exists_max_image below size hne
  obtain ⟨hmem, hcovers, hbelow⟩ := Finset.mem_filter.mp hc
  have hpicked : pick c = parent := by
    cases hpc : pick c with
    | none =>
      cases parent with
      | none => rfl
      | some p => exact absurd (hbelow p rfl) (hpick.of_none hpc p)
    | some q =>
      have hqc := hpick.of_some hpc
      have hqi : Covers contains q i := Or.inr (hcovers.of_pick h hpick hpc)
      by_contra hother
      have hq : q ∈ below := by
        refine Finset.mem_filter.mpr ⟨hshapes hqc, hqi, fun p hp => ?_⟩
        rcases (contains_iff_of_pick h hpick hpc p).mp (hbelow p hp) with rfl | hpq
        · exact absurd hp.symm hother
        · exact hpq
      exact absurd (hlargest q hq) (not_le.mpr (h.larger hqc))
  refine ⟨c, ⟨hmem, hpicked, hcovers⟩, ?_⟩
  rintro c' ⟨-, hpicked', hcovers'⟩
  rcases h.comparable hcovers' hcovers with heq | hcontains | hcontains
  · exact heq
  · exact absurd hcontains (not_contains_of_pick_eq h hpick (hpicked.trans hpicked'.symm))
  · exact absurd hcontains (not_contains_of_pick_eq h hpick (hpicked'.trans hpicked.symm))

end Nesting
