/-
Dissections of a shape.

A shape has an interior and a size, a vector. It is dissected into parts if each has a positive
share of its size and the shares add up to one, the interiors of the parts lie in its own, and no
two of them meet. A dissection may be taken in any order, and when every part is dissected again
the pieces are a dissection of the whole (`Dissects.flatten`).
-/

import PinchNPrint.Lib.Sequences
import Mathlib.Algebra.BigOperators.Ring.List
import Mathlib.Algebra.Module.Defs
import Mathlib.Algebra.Order.Field.Basic

namespace Dissection

variable {F V X M : Type} [Field F] [LinearOrder F] [AddCommGroup M] [Module F M]
  {interior : V → X → Prop} {size : V → M}

/-- Each part has this share of the size of the whole. -/
def HasShares (size : V → M) (whole : V) (shares : List F) (parts : List V) : Prop :=
  List.Forall₂ (fun share part => 0 < share ∧ size part = share • size whole) shares parts

/-- The parts make up the whole: they share its size, and their interiors do not meet. -/
structure Dissects (F : Type) [Field F] [LinearOrder F] [Module F M] (interior : V → X → Prop)
    (size : V → M) (whole : V) (parts : List V) : Prop where
  shares : ∃ shares : List F, HasShares size whole shares parts ∧ shares.sum = 1
  inside : ∀ part ∈ parts, ∀ x, interior part x → interior whole x
  disjoint : parts.Pairwise fun a b => ∀ x, interior a x → ¬ interior b x

variable {whole : V} {parts : List V}

theorem Dissects.self [IsStrictOrderedRing F] (whole : V) :
    Dissects F interior size whole [whole] where
  shares := ⟨[1], .cons ⟨zero_lt_one, (one_smul F _).symm⟩ .nil, List.sum_singleton⟩
  inside := by
    intro part hpart x hx
    rwa [List.mem_singleton.mp hpart] at hx
  disjoint := List.pairwise_singleton _ _

theorem Dissects.reverse (h : Dissects F interior size whole parts) :
    Dissects F interior size whole parts.reverse where
  shares := by
    obtain ⟨shares, hshares, hsum⟩ := h.shares
    exact ⟨shares.reverse, List.rel_reverse hshares, by rw [List.sum_reverse, hsum]⟩
  inside := fun part hpart => h.inside part (List.mem_reverse.mp hpart)
  disjoint := List.pairwise_reverse.mpr (h.disjoint.imp fun hab x hb ha => hab x ha hb)

/-- The sizes of the parts add up to that of the whole. -/
theorem Dissects.sum_size (h : Dissects F interior size whole parts) :
    (parts.map size).sum = size whole := by
  obtain ⟨shares, hshares, hsum⟩ := h.shares
  have hadd : (parts.map size).sum = shares.sum • size whole := by
    clear hsum h
    induction hshares with
    | nil => simp
    | cons hpart _ ih => rw [List.map_cons, List.sum_cons, List.sum_cons, ih, hpart.2, add_smul]
  rw [hadd, hsum, one_smul]

theorem HasShares.flatten [IsStrictOrderedRing F] {shares : List F} {subs : List (List V)}
    (h : HasShares size whole shares parts)
    (hsubs : List.Forall₂ (Dissects F interior size) parts subs) :
    ∃ shares' : List F, HasShares size whole shares' subs.flatten ∧
      shares'.sum = shares.sum := by
  induction h generalizing subs with
  | nil =>
    cases hsubs
    exact ⟨[], .nil, rfl⟩
  | @cons share part shares parts hpart _ ih =>
    cases hsubs with
    | @cons _ sub _ subs hsub hsubs =>
      obtain ⟨shares', hshares', hsum'⟩ := ih hsubs
      obtain ⟨inner, hinner, hsum⟩ := hsub.shares
      refine ⟨inner.map (share * ·) ++ shares', ?_, ?_⟩
      · refine List.rel_append ?_ hshares'
        rw [List.forall₂_map_left_iff]
        refine hinner.imp fun s piece hpiece => ⟨mul_pos hpart.1 hpiece.1, ?_⟩
        rw [hpiece.2, hpart.2, smul_smul, mul_comm]
      · rw [List.sum_append, List.sum_cons, hsum', List.sum_map_mul_left, List.map_id', hsum,
          mul_one]

/-- The pieces of two parts do not meet when the parts do not. -/
theorem disjoint_flatten {subs : List (List V)}
    (hdisjoint : parts.Pairwise fun a b => ∀ x, interior a x → ¬ interior b x)
    (hsubs : List.Forall₂ (Dissects F interior size) parts subs) :
    subs.flatten.Pairwise fun a b => ∀ x, interior a x → ¬ interior b x := by
  induction hsubs with
  | nil => exact List.Pairwise.nil
  | @cons part sub parts subs hsub hsubs ih =>
    obtain ⟨hpart, hparts⟩ := List.pairwise_cons.mp hdisjoint
    rw [List.flatten_cons, List.pairwise_append]
    refine ⟨hsub.disjoint, ih hparts, fun a ha b hb x hxa hxb => ?_⟩
    obtain ⟨sub', hsub', hb⟩ := List.mem_flatten.mp hb
    obtain ⟨part', hpart', hdissects⟩ := hsubs.exists_of_mem_right hsub'
    exact hpart part' hpart' x (hsub.inside a ha x hxa) (hdissects.inside b hb x hxb)

/-- When every part is dissected, the pieces are a dissection of the whole. -/
theorem Dissects.flatten [IsStrictOrderedRing F] {subs : List (List V)}
    (h : Dissects F interior size whole parts)
    (hsubs : List.Forall₂ (Dissects F interior size) parts subs) :
    Dissects F interior size whole subs.flatten where
  shares := by
    obtain ⟨shares, hshares, hsum⟩ := h.shares
    obtain ⟨shares', hshares', hsum'⟩ := hshares.flatten hsubs
    exact ⟨shares', hshares', hsum'.trans hsum⟩
  inside := by
    intro piece hpiece x hx
    obtain ⟨sub, hsub, hpiece⟩ := List.mem_flatten.mp hpiece
    obtain ⟨part, hpart, hdissects⟩ := hsubs.exists_of_mem_right hsub
    exact h.inside part hpart x (hdissects.inside piece hpiece x hx)
  disjoint := disjoint_flatten h.disjoint hsubs

end Dissection
