/-
Labelling the connected components of a graph with a stack.

`labelAll` takes the vertices in order. A vertex without a label starts a new component, and
`search` gives its label to everything that is reached from it: a vertex is labelled when it is
pushed, so it is pushed once. When the adjacency is symmetric, each label belongs to what is
reached from its root (`Labelled`), and with one step of fuel for each vertex no search runs out
(`exists_labelAll`).
-/

import Mathlib.Data.List.Basic
import Mathlib.Data.List.Find

namespace Labelling

open Relation

variable {V : Type} [DecidableEq V]

/-- A neighbour without a label gets it and waits on the stack. -/
def visit (label : Nat) (state : (V → Option Nat) × List V) (neighbor : V) :
    (V → Option Nat) × List V :=
  if (state.1 neighbor).isNone then
    (Function.update state.1 neighbor (some label), neighbor :: state.2)
  else state

/-- The search from the vertices on the stack, for so many of them at most. -/
def search (adjacency : V → List V) (label : Nat) :
    Nat → (V → Option Nat) → List V → Option (V → Option Nat)
  | _, labels, [] => some labels
  | 0, _, _ :: _ => none
  | fuel + 1, labels, v :: stack =>
    let state := (adjacency v).foldl (visit label) (labels, stack)
    search adjacency label fuel state.1 state.2

/-- A vertex without a label starts a component. -/
def labelFrom (adjacency : V → List V) (fuel : Nat) (state : (V → Option Nat) × Nat) (seed : V) :
    Option ((V → Option Nat) × Nat) :=
  if (state.1 seed).isSome then some state
  else do
    let labels ← search adjacency state.2 fuel
      (Function.update state.1 seed (some state.2)) [seed]
    return (labels, state.2 + 1)

/-- The labels of all vertices, and how many there are. -/
def labelAll (adjacency : V → List V) (fuel : Nat) (vertices : List V) :
    Option ((V → Option Nat) × Nat) :=
  vertices.foldlM (labelFrom adjacency fuel) (fun _ => none, 0)

/-- What is reached from a vertex. -/
def Reaches (adjacency : V → List V) : V → V → Prop :=
  ReflTransGen fun v w => w ∈ adjacency v

/-- The vertices that still have no label. -/
def unlabelled (vertices : List V) (labels : V → Option Nat) : Nat :=
  vertices.countP fun v => (labels v).isNone

/-! ### One step of the search -/

section Visit

variable {label : Nat} {labels : V → Option Nat} {stack neighbors vertices : List V}

/-- A vertex without a label that is visited gets one and is put on the stack. -/
theorem foldl_visit (v : V) :
    (neighbors.foldl (visit label) (labels, stack)).1 v =
        (if labels v = none ∧ v ∈ neighbors then some label else labels v) ∧
      (v ∈ (neighbors.foldl (visit label) (labels, stack)).2 ↔
        v ∈ stack ∨ labels v = none ∧ v ∈ neighbors) := by
  induction neighbors generalizing labels stack with
  | nil => simp
  | cons w neighbors ih =>
    rw [List.foldl_cons, visit]
    by_cases hw : labels w = none
    · rw [if_pos (by simp [hw]), ih.1, ih.2]
      by_cases hv : v = w
      · subst hv
        simp [hw]
      · simp [hv]
    · rw [if_neg (by simpa [Option.isNone_iff_eq_none] using hw), ih.1, ih.2]
      by_cases hv : v = w
      · subst hv
        simp [hw]
      · simp [hv]

/-- A new label uses up a vertex without one. -/
theorem unlabelled_update (label : Nat) (hvertices : vertices.Nodup) {w : V} (hw : w ∈ vertices)
    (hnone : labels w = none) :
    unlabelled vertices (Function.update labels w (some label)) + 1 =
      unlabelled vertices labels := by
  induction vertices with
  | nil => cases hw
  | cons v vertices ih =>
    obtain ⟨hv, hvertices⟩ := List.nodup_cons.mp hvertices
    rw [unlabelled, unlabelled, List.countP_cons, List.countP_cons]
    by_cases hvw : v = w
    · subst hvw
      have hrest : vertices.countP (fun u => (Function.update labels v (some label) u).isNone) =
          vertices.countP fun u => (labels u).isNone := by
        refine List.countP_congr fun u hu => ?_
        rw [Function.update_of_ne]
        rintro rfl
        exact hv hu
      simp [hrest, hnone]
    · have hmem := (List.mem_cons.mp hw).resolve_left (Ne.symm hvw)
      have hrest := ih hvertices hmem
      rw [unlabelled, unlabelled] at hrest
      rw [Function.update_of_ne hvw]
      omega

theorem length_foldl_visit (hvertices : vertices.Nodup) (hneighbors : neighbors ⊆ vertices) :
    (neighbors.foldl (visit label) (labels, stack)).2.length +
        unlabelled vertices (neighbors.foldl (visit label) (labels, stack)).1 =
      stack.length + unlabelled vertices labels := by
  induction neighbors generalizing labels stack with
  | nil => rfl
  | cons w neighbors ih =>
    obtain ⟨hw, hneighbors⟩ := List.cons_subset.mp hneighbors
    rw [List.foldl_cons, visit]
    by_cases hnone : labels w = none
    · have hupdate := unlabelled_update label hvertices hw hnone
      rw [if_pos (by simp [hnone]), ih hneighbors, List.length_cons, ← hupdate]
      dsimp only
      omega
    · rw [if_neg (by simpa [Option.isNone_iff_eq_none] using hnone), ih hneighbors]

end Visit

/-! ### A search -/

section Search

variable {adjacency : V → List V} {old labels : V → Option Nat} {seed : V} {label : Nat}
  {stack vertices : List V}

/-- What holds while a component is searched, given the labels from before. -/
structure Searching (adjacency : V → List V) (old : V → Option Nat) (seed : V) (label : Nat)
    (labels : V → Option Nat) (stack : List V) : Prop where
  kept : ∀ v c, old v = some c → labels v = some c
  sound : ∀ v c, labels v = some c → old v = some c ∨ c = label ∧ Reaches adjacency seed v
  pending : ∀ v ∈ stack, labels v = some label
  seeded : labels seed = some label
  closed : ∀ v, labels v = some label → v ∈ stack ∨ ∀ w ∈ adjacency v, labels w ≠ none

theorem Searching.start (hseed : old seed = none) (hnew : ∀ v, old v ≠ some label) :
    Searching adjacency old seed label (Function.update old seed (some label)) [seed] where
  kept := by
    intro v c hv
    rw [Function.update_of_ne]
    · exact hv
    · rintro rfl
      rw [hseed] at hv
      cases hv
  sound := by
    intro v c hv
    by_cases hvs : v = seed
    · subst hvs
      rw [Function.update_self] at hv
      cases hv
      exact Or.inr ⟨rfl, ReflTransGen.refl⟩
    · rw [Function.update_of_ne hvs] at hv
      exact Or.inl hv
  pending := by
    intro v hv
    rw [List.mem_singleton.mp hv, Function.update_self]
  seeded := Function.update_self ..
  closed := by
    intro v hv
    by_cases hvs : v = seed
    · exact Or.inl (List.mem_singleton.mpr hvs)
    · rw [Function.update_of_ne hvs] at hv
      exact absurd hv (hnew v)

/-- Taking a vertex from the stack. -/
theorem Searching.step {v : V} (h : Searching adjacency old seed label labels (v :: stack))
    (hnew : ∀ w, old w ≠ some label) :
    Searching adjacency old seed label
      ((adjacency v).foldl (visit label) (labels, stack)).1
      ((adjacency v).foldl (visit label) (labels, stack)).2 := by
  have hv := h.pending v List.mem_cons_self
  have hreach : Reaches adjacency seed v :=
    ((h.sound v label hv).resolve_left (hnew v)).2
  constructor
  · intro w c hw
    rw [(foldl_visit _).1, h.kept w c hw]
    simp
  · intro w c hw
    rw [(foldl_visit _).1] at hw
    split_ifs at hw with hvisited
    · cases hw
      exact Or.inr ⟨rfl, hreach.tail hvisited.2⟩
    · exact h.sound w c hw
  · intro w hw
    rw [(foldl_visit _).1]
    rcases (foldl_visit _).2.mp hw with hw | hw
    · rw [h.pending w (List.mem_cons_of_mem _ hw)]
      simp
    · rw [if_pos hw]
  · rw [(foldl_visit _).1, h.seeded]
    simp
  · intro w hw
    have hgrows : ∀ u, labels u ≠ none →
        ((adjacency v).foldl (visit label) (labels, stack)).1 u ≠ none := by
      intro u hu
      rw [(foldl_visit _).1, if_neg fun hvisited => hu hvisited.1]
      exact hu
    rw [(foldl_visit _).1] at hw
    split_ifs at hw with hvisited
    · exact Or.inl ((foldl_visit _).2.mpr (Or.inr hvisited))
    · rcases h.closed w hw with hmem | hclosed
      · rcases List.mem_cons.mp hmem with rfl | hmem
        · right
          intro u hu
          by_cases hnone : labels u = none
          · rw [(foldl_visit _).1, if_pos ⟨hnone, hu⟩]
            exact Option.some_ne_none _
          · exact hgrows u hnone
        · exact Or.inl ((foldl_visit _).2.mpr (Or.inl hmem))
      · exact Or.inr fun u hu => hgrows u (hclosed u hu)

theorem Searching.run (hvertices : vertices.Nodup) (hin : ∀ v, adjacency v ⊆ vertices)
    (hnew : ∀ w, old w ≠ some label) {fuel : Nat}
    (h : Searching adjacency old seed label labels stack)
    (hfuel : stack.length + unlabelled vertices labels ≤ fuel) :
    ∃ labels', search adjacency label fuel labels stack = some labels' ∧
      Searching adjacency old seed label labels' [] := by
  induction fuel generalizing labels stack with
  | zero =>
    have hnil : stack = [] := List.length_eq_zero_iff.mp (by omega)
    subst hnil
    exact ⟨labels, rfl, h⟩
  | succ fuel ih =>
    cases stack with
    | nil => exact ⟨labels, rfl, h⟩
    | cons v stack =>
      rw [search]
      refine ih (h.step hnew) ?_
      rw [length_foldl_visit hvertices (hin v)]
      rw [List.length_cons] at hfuel
      omega

end Search

/-! ### All components -/

section All

variable {adjacency : V → List V} {labels : V → Option Nat} {vertices seen rest roots : List V}

/-- The labels after the vertices seen so far: each belongs to what its root reaches. -/
structure Labelled (adjacency : V → List V) (seen : List V) (labels : V → Option Nat)
    (roots : List V) : Prop where
  label_iff : ∀ v c, labels v = some c ↔ ∃ r, roots[c]? = some r ∧ Reaches adjacency r v
  covers : ∀ v ∈ seen, labels v ≠ none
  sublist : roots.Sublist seen
  first : ∀ c r, roots[c]? = some r → (seen.find? fun v => labels v = some c) = some r

section

omit [DecidableEq V]

theorem Reaches.symm (hsymm : ∀ v w, w ∈ adjacency v → v ∈ adjacency w) {v w : V}
    (h : Reaches adjacency v w) : Reaches adjacency w v := by
  have : Std.Symm fun v w => w ∈ adjacency v := ⟨hsymm⟩
  exact ReflTransGen.stdSymm.symm _ _ h

theorem Labelled.extend (h : Labelled adjacency seen labels roots)
    (hsymm : ∀ v w, w ∈ adjacency v → v ∈ adjacency w) {seed : V} {labels' : V → Option Nat}
    (hsearch : Searching adjacency labels seed roots.length labels' []) :
    Labelled adjacency (seen ++ [seed]) labels' (roots ++ [seed]) where
  label_iff := by
    intro v c
    -- The old components have no neighbour outside, so the new one has no old neighbour.
    have hold : ∀ v w c, labels v = some c → w ∈ adjacency v → labels w = some c := by
      intro v w c hv hw
      obtain ⟨r, hr, hreach⟩ := (h.label_iff v c).mp hv
      exact (h.label_iff w c).mpr ⟨r, hr, hreach.tail hw⟩
    have hnew : ∀ v, Reaches adjacency seed v → labels' v = some roots.length := by
      intro v hreach
      induction hreach with
      | refl => exact hsearch.seeded
      | @tail u w _ hw ih =>
        have hlabelled := (hsearch.closed u ih).resolve_left (by simp) w hw
        obtain ⟨c, hc⟩ := Option.ne_none_iff_exists'.mp hlabelled
        rcases hsearch.sound w c hc with hcold | ⟨rfl, -⟩
        · have huold := hsearch.kept u c (hold w u c hcold (hsymm u w hw))
          rw [ih] at huold
          rw [hc, huold]
        · exact hc
    constructor
    · intro hv
      rcases hsearch.sound v c hv with hvold | ⟨rfl, hreach⟩
      · obtain ⟨r, hr, hreach⟩ := (h.label_iff v c).mp hvold
        refine ⟨r, ?_, hreach⟩
        rw [List.getElem?_append_left (List.getElem?_eq_some_iff.mp hr).1]
        exact hr
      · exact ⟨seed, by simp, hreach⟩
    · rintro ⟨r, hr, hreach⟩
      by_cases hc : c < roots.length
      · rw [List.getElem?_append_left hc] at hr
        exact hsearch.kept v c ((h.label_iff v c).mpr ⟨r, hr, hreach⟩)
      · have hlt := (List.getElem?_eq_some_iff.mp hr).1
        rw [List.length_append, List.length_singleton] at hlt
        obtain rfl : c = roots.length := by omega
        rw [List.getElem?_concat_length] at hr
        cases hr
        exact hnew v hreach
  covers := by
    intro v hv
    rcases List.mem_append.mp hv with hv | hv
    · obtain ⟨c, hc⟩ := Option.ne_none_iff_exists'.mp (h.covers v hv)
      rw [hsearch.kept v c hc]
      exact Option.some_ne_none _
    · rw [List.mem_singleton.mp hv, hsearch.seeded]
      exact Option.some_ne_none _
  sublist := h.sublist.append (List.Sublist.refl _)
  first := by
    have hsame : ∀ v ∈ seen, labels' v = labels v := by
      intro v hv
      obtain ⟨c, hc⟩ := Option.ne_none_iff_exists'.mp (h.covers v hv)
      rw [hsearch.kept v c hc, hc]
    intro c r hr
    rw [List.find?_append]
    by_cases hc : c < roots.length
    · rw [List.getElem?_append_left hc] at hr
      have hfind : (seen.find? fun v => labels' v = some c) =
          seen.find? fun v => labels v = some c :=
        List.find?_congr fun v hv => by rw [hsame v hv]
      rw [hfind, h.first c r hr]
      rfl
    · have hlt := (List.getElem?_eq_some_iff.mp hr).1
      rw [List.length_append, List.length_singleton] at hlt
      obtain rfl : c = roots.length := by omega
      rw [List.getElem?_concat_length] at hr
      cases hr
      have hnone : (seen.find? fun v => labels' v = some roots.length) = none := by
        rw [List.find?_eq_none]
        intro v hv
        rw [decide_eq_true_eq, hsame v hv, h.label_iff]
        rintro ⟨r, hr, -⟩
        exact absurd (List.getElem?_eq_some_iff.mp hr).1 (Nat.lt_irrefl _)
      rw [hnone, List.find?_singleton, hsearch.seeded]
      simp

theorem Labelled.skip (h : Labelled adjacency seen labels roots) {seed : V}
    (hseed : labels seed ≠ none) : Labelled adjacency (seen ++ [seed]) labels roots where
  label_iff := h.label_iff
  covers := by
    intro v hv
    rcases List.mem_append.mp hv with hv | hv
    · exact h.covers v hv
    · rwa [List.mem_singleton.mp hv]
  sublist := h.sublist.trans (List.sublist_append_left _ _)
  first := by
    intro c r hr
    rw [List.find?_append, h.first c r hr]
    rfl

end

theorem unlabelled_lt {seed : V} (hseed : seed ∈ vertices) (hvertices : vertices.Nodup) {c : Nat}
    (hnone : labels seed = none) :
    1 + unlabelled vertices (Function.update labels seed (some c)) ≤ vertices.length := by
  have hupdate := unlabelled_update c hvertices hseed hnone
  have hle : unlabelled vertices labels ≤ vertices.length := List.countP_le_length
  omega

theorem exists_foldlM_labelFrom (hsymm : ∀ v w, w ∈ adjacency v → v ∈ adjacency w)
    (hvertices : vertices.Nodup) (hin : ∀ v, adjacency v ⊆ vertices)
    (hsplit : vertices = seen ++ rest) (h : Labelled adjacency seen labels roots) :
    ∃ labels' roots', rest.foldlM (labelFrom adjacency vertices.length) (labels, roots.length) =
        some (labels', roots'.length) ∧ Labelled adjacency vertices labels' roots' := by
  induction rest generalizing seen labels roots with
  | nil =>
    rw [List.append_nil] at hsplit
    exact ⟨labels, roots, rfl, hsplit ▸ h⟩
  | cons seed rest ih =>
    have hmem : seed ∈ vertices := by simp [hsplit]
    have hsplit' : vertices = (seen ++ [seed]) ++ rest := by simp [hsplit]
    rw [List.foldlM_cons, labelFrom]
    by_cases hseed : labels seed = none
    · have hnew : ∀ v, labels v ≠ some roots.length := by
        intro v hv
        obtain ⟨r, hr, -⟩ := (h.label_iff v _).mp hv
        exact absurd (List.getElem?_eq_some_iff.mp hr).1 (Nat.lt_irrefl _)
      obtain ⟨labels', hsearch, hdone⟩ := (Searching.start hseed hnew).run hvertices hin hnew
        (unlabelled_lt hmem hvertices hseed)
      have hextend := h.extend hsymm hdone
      obtain ⟨labels'', roots'', hfold, hlabelled⟩ := ih hsplit' hextend
      rw [List.length_append] at hfold
      refine ⟨labels'', roots'', ?_, hlabelled⟩
      rw [if_neg (by simp [hseed]), hsearch]
      exact hfold
    · obtain ⟨labels', roots', hfold, hlabelled⟩ := ih hsplit' (h.skip hseed)
      refine ⟨labels', roots', ?_, hlabelled⟩
      rw [if_pos (Option.isSome_iff_ne_none.mpr hseed)]
      exact hfold

/-- Every vertex gets a label, and each label belongs to what its root reaches. -/
theorem exists_labelAll (hsymm : ∀ v w, w ∈ adjacency v → v ∈ adjacency w)
    (hvertices : vertices.Nodup) (hin : ∀ v, adjacency v ⊆ vertices) :
    ∃ labels roots, labelAll adjacency vertices.length vertices = some (labels, roots.length) ∧
      Labelled adjacency vertices labels roots :=
  exists_foldlM_labelFrom hsymm hvertices hin (List.nil_append vertices).symm
    (show Labelled adjacency [] (fun _ => none) [] from
      ⟨by simp, by simp, List.Sublist.refl _, by simp⟩)

omit [DecidableEq V] in
theorem Labelled.label_eq_iff (h : Labelled adjacency vertices labels roots)
    (hsymm : ∀ v w, w ∈ adjacency v → v ∈ adjacency w) {v w : V} {c : Nat}
    (hv : labels v = some c) : labels w = some c ↔ Reaches adjacency v w := by
  obtain ⟨r, hr, hreach⟩ := (h.label_iff v c).mp hv
  constructor
  · intro hw
    obtain ⟨r', hr', hreach'⟩ := (h.label_iff w c).mp hw
    rw [hr] at hr'
    cases hr'
    exact (hreach.symm hsymm).trans hreach'
  · intro hvw
    exact (h.label_iff w c).mpr ⟨r, hr, hreach.trans hvw⟩

end All

end Labelling
