/-
Pieces spliced into one chain.

A piece is a source, taken forwards or backwards, that may lose an end where it is joined to
its neighbour. `Spliced js near same pieces chain` says that the chain is what the pieces keep,
one after the other: neighbours end `near` each other, and an end is dropped only next to one
that is the `same`. A spliced chain may be turned round (`Spliced.reverse`), and grows by a
piece at its end (`Spliced.snoc`).
-/

import Mathlib.Data.List.Chain

/-- A source as it is used in a chain. -/
structure Piece (α : Type) where
  source : α
  reversed : Bool := false
  dropFirst : Bool := false
  dropLast : Bool := false
deriving DecidableEq

variable {α β J : Type} {js : α → List J} {near same : J → J → Prop}

namespace Piece

/-- The whole source, in the direction it is used. -/
def whole (js : α → List J) (piece : Piece α) : List J :=
  if piece.reversed then (js piece.source).reverse else js piece.source

/-- What is kept of the source. -/
def kept (js : α → List J) (piece : Piece α) : List J :=
  let start := if piece.dropFirst then (piece.whole js).tail else piece.whole js
  if piece.dropLast then start.dropLast else start

/-- The piece seen from the other end of the chain. -/
def flip (piece : Piece α) : Piece α where
  source := piece.source
  reversed := !piece.reversed
  dropFirst := piece.dropLast
  dropLast := piece.dropFirst

/-- The piece with its source named otherwise. -/
def map (f : α → β) (piece : Piece α) : Piece β where
  source := f piece.source
  reversed := piece.reversed
  dropFirst := piece.dropFirst
  dropLast := piece.dropLast

@[simp]
theorem whole_flip (piece : Piece α) : piece.flip.whole js = (piece.whole js).reverse := by
  by_cases hreversed : piece.reversed = true
  · simp [whole, flip, hreversed]
  · simp [whole, flip, hreversed]

theorem kept_flip (piece : Piece α) : piece.flip.kept js = (piece.kept js).reverse := by
  simp only [kept, whole_flip]
  cases hfirst : piece.dropFirst <;> cases hlast : piece.dropLast
  · simp [flip, hfirst, hlast]
  · simp [flip, hfirst, hlast]
  · simp [flip, hfirst, hlast]
  · simp [flip, hfirst, hlast, List.tail_dropLast]

theorem length_whole (piece : Piece α) : (piece.whole js).length = (js piece.source).length := by
  rw [whole]
  split_ifs <;> simp

/-- A piece that keeps its last element ends as its source does, if that has another one. -/
theorem getLast?_kept {piece : Piece α} (hlast : piece.dropLast = false)
    (hlong : 2 ≤ (js piece.source).length) :
    (piece.kept js).getLast? = (piece.whole js).getLast? := by
  rw [← length_whole] at hlong
  simp only [kept, hlast, Bool.false_eq_true, if_false]
  split_ifs
  · rw [List.getLast?_tail, if_neg (by omega)]
  · rfl

/-- Two neighbours in a chain. -/
structure Joins (js : α → List J) (near same : J → J → Prop) (p q : Piece α) : Prop where
  ends : ∃ a b, (p.whole js).getLast? = some a ∧ (q.whole js).head? = some b ∧ near a b ∧
    (p.dropLast = true ∨ q.dropFirst = true → same a b)
  once : ¬ (p.dropLast = true ∧ q.dropFirst = true)

theorem Joins.flip {p q : Piece α} (hnear : ∀ a b, near a b → near b a)
    (hsame : ∀ a b, same a b → same b a) (h : Joins js near same p q) :
    Joins js near same q.flip p.flip := by
  obtain ⟨a, b, ha, hb, hjoin, hdrop⟩ := h.ends
  refine ⟨⟨b, a, ?_, ?_, hnear a b hjoin, fun hdropped => hsame a b (hdrop ?_)⟩, fun hboth => ?_⟩
  · rw [whole_flip, List.getLast?_reverse, hb]
  · rw [whole_flip, List.head?_reverse, ha]
  · exact hdropped.symm
  · exact h.once hboth.symm

end Piece

open Piece

/-- The chain is what the pieces keep, joined end to end. -/
structure Spliced (js : α → List J) (near same : J → J → Prop) (pieces : List (Piece α))
    (chain : List J) : Prop where
  chain_eq : chain = pieces.flatMap (kept js)
  joins : pieces.IsChain (Joins js near same)
  first : ∀ piece, pieces.head? = some piece → piece.dropFirst = false
  last : ∀ piece, pieces.getLast? = some piece → piece.dropLast = false
  once : ∀ piece ∈ pieces, ¬ (piece.dropFirst = true ∧ piece.dropLast = true)

namespace Spliced

variable {pieces : List (Piece α)} {chain : List J}

/-- A source alone. -/
theorem single (a : α) : Spliced js near same [{ source := a }] (js a) where
  chain_eq := by simp [kept, whole]
  joins := .singleton _
  first := by simp
  last := by simp
  once := by simp

theorem reverse (hnear : ∀ a b, near a b → near b a) (hsame : ∀ a b, same a b → same b a)
    (h : Spliced js near same pieces chain) :
    Spliced js near same (pieces.map flip).reverse chain.reverse where
  chain_eq := by
    rw [h.chain_eq, List.reverse_flatMap, List.flatMap_def, List.flatMap_def, List.map_reverse,
      List.map_reverse, List.map_map]
    refine congrArg List.flatten (congrArg List.reverse (List.map_congr_left fun piece _ => ?_))
    exact (kept_flip piece).symm
  joins := by
    rw [List.isChain_reverse, List.isChain_map]
    exact h.joins.imp fun p q hjoin => hjoin.flip hnear hsame
  first := by
    intro piece hpiece
    rw [List.head?_reverse, List.getLast?_map, Option.map_eq_some_iff] at hpiece
    obtain ⟨before, hbefore, rfl⟩ := hpiece
    exact h.last before hbefore
  last := by
    intro piece hpiece
    rw [List.getLast?_reverse, List.head?_map, Option.map_eq_some_iff] at hpiece
    obtain ⟨before, hbefore, rfl⟩ := hpiece
    exact h.first before hbefore
  once := by
    intro piece hpiece hboth
    rw [List.mem_reverse, List.mem_map] at hpiece
    obtain ⟨before, hbefore, rfl⟩ := hpiece
    exact h.once before hbefore hboth.symm

theorem getLast?_eq (h : Spliced js near same pieces chain) {piece : Piece α}
    (hpiece : pieces.getLast? = some piece) (hlong : 2 ≤ (js piece.source).length) :
    chain.getLast? = (piece.whole js).getLast? := by
  obtain ⟨before, rfl⟩ := List.getLast?_eq_some_iff.mp hpiece
  have hkept := getLast?_kept (h.last piece hpiece) hlong
  have hne : piece.kept js ≠ [] := by
    intro hnil
    rw [hnil, eq_comm, List.getLast?_nil, List.getLast?_eq_none_iff] at hkept
    rw [← length_whole, hkept] at hlong
    simp at hlong
  rw [h.chain_eq, List.flatMap_append, List.flatMap_singleton,
    List.getLast?_append_of_ne_nil _ hne, hkept]

/-- A piece is joined to the end of a chain; it may lose its first element there. -/
theorem snoc (h : Spliced js near same pieces chain) {piece new : Piece α}
    (hpiece : pieces.getLast? = some piece) (hlong : 2 ≤ (js piece.source).length) {a b : J}
    (ha : chain.getLast? = some a) (hb : (new.whole js).head? = some b) (hnear : near a b)
    (hsame : new.dropFirst = true → same a b) (hkeeps : new.dropLast = false) :
    Spliced js near same (pieces ++ [new]) (chain ++ new.kept js) := by
  have hend := h.last piece hpiece
  refine
    { chain_eq := by rw [h.chain_eq, List.flatMap_append, List.flatMap_singleton]
      joins := ?_
      first := ?_
      last := ?_
      once := ?_ }
  · refine List.isChain_append.mpr ⟨h.joins, .singleton _, ?_⟩
    intro p hp q hq
    rw [hpiece] at hp
    cases hp
    cases hq
    rw [h.getLast?_eq hpiece hlong] at ha
    refine ⟨⟨a, b, ha, hb, hnear, fun hdropped => hsame ?_⟩, fun hboth => ?_⟩
    · exact hdropped.resolve_left (by simp [hend])
    · simp [hend] at hboth
  · intro first hfirst
    refine h.first first ?_
    cases pieces with
    | nil => cases hpiece
    | cons p rest => exact hfirst
  · intro last hlast
    rw [List.getLast?_concat] at hlast
    cases hlast
    exact hkeeps
  · intro p hp
    rcases List.mem_append.mp hp with hp | hp
    · exact h.once p hp
    · rw [List.mem_singleton.mp hp]
      simp [hkeeps]

end Spliced

/-- The sources may be named otherwise. -/
theorem Spliced.map {js' : β → List J} (f : α → β) {pieces : List (Piece α)} {chain : List J}
    (hf : ∀ piece ∈ pieces, js' (f piece.source) = js piece.source)
    (h : Spliced js near same pieces chain) :
    Spliced js' near same (pieces.map (Piece.map f)) chain := by
  have hwhole : ∀ piece ∈ pieces, (piece.map f).whole js' = piece.whole js := by
    intro piece hpiece
    simp only [whole, Piece.map, hf piece hpiece]
  have hkept : ∀ piece ∈ pieces, (piece.map f).kept js' = piece.kept js := by
    intro piece hpiece
    simp only [kept, hwhole piece hpiece]
    rfl
  refine
    { chain_eq := ?_
      joins := ?_
      first := ?_
      last := ?_
      once := ?_ }
  · rw [h.chain_eq, List.flatMap_map]
    exact (List.flatMap_congr hkept).symm
  · rw [List.isChain_map]
    refine h.joins.imp_of_mem_imp fun p q hp hq hjoin => ⟨?_, hjoin.once⟩
    rw [hwhole p hp, hwhole q hq]
    exact hjoin.ends
  · intro piece hpiece
    rw [List.head?_map, Option.map_eq_some_iff] at hpiece
    obtain ⟨before, hbefore, rfl⟩ := hpiece
    exact h.first before hbefore
  · intro piece hpiece
    rw [List.getLast?_map, Option.map_eq_some_iff] at hpiece
    obtain ⟨before, hbefore, rfl⟩ := hpiece
    exact h.last before hbefore
  · intro piece hpiece
    obtain ⟨before, hbefore, rfl⟩ := List.mem_map.mp hpiece
    exact h.once before hbefore
