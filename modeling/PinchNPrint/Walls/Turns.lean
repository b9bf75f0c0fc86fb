/-
What one turn of the stitcher does.

`Turn` has a case for each thing a step can do, with its guards. Each turn takes the stitcher
nearer to its end, so the fuel of `stitchInset` lasts (`exists_run`), and what the turns keep
holds of every state in between and of the last one.
-/

import PinchNPrint.Walls.Stitch

namespace PinchNPrint.Walls

open PinchNPrint.GCode (Sqrt sqrt)

variable {F : Type} [Field F] [Sqrt F] [LinearOrder F] {maxGap : F} {lines : List (Candidate F)}

/-! ### What is offered -/

/-- What an offer to a walk says. -/
structure Offered (maxGap : F) (processed : List Bool) (walk : Walk F) (next : Offer F) : Prop where
  segmentDist_eq : next.segmentDist = distXy walk.back.p (next.line.point next.atLast).p
  le_maxGap : next.segmentDist ≤ maxGap
  direction : next.line.isOdd = false → next.atLast = walk.goInReverseDirection
  parity : walk.isOdd = next.line.isOdd
  fresh : next.isClosingSegment = false → processed.getD next.candidate false = false
  closing : next.isClosingSegment = true → 2 < walk.chain.length

variable {next : Offer F} {processed : List Bool} {self : Stitcher F}

theorem offered_of_offer {walk : Walk F} {candidate : Nat} {line : Candidate F} {atLast : Bool}
    (h : offer maxGap processed walk candidate line atLast = some next) :
    Offered maxGap processed walk next ∧ next.candidate = candidate ∧ next.line = line := by
  simp only [offer, Option.ite_none_left_eq_some, Option.some.injEq] at h
  obtain ⟨hfar, htiny, hused, hdirection, hparity, rfl⟩ := h
  refine ⟨⟨rfl, not_lt.mp hfar, fun heven => ?_, not_not.mp hparity, fun hopen => ?_,
    fun hclosing => ?_⟩, rfl, rfl⟩
  · by_contra hne
    exact hdirection ⟨by simpa using heven, hne⟩
  · by_contra hprocessed
    exact hused ⟨by simpa using hopen, by simpa using hprocessed⟩
  · by_contra hshort
    exact htiny ⟨hclosing, .inr (not_lt.mp hshort)⟩

omit [Sqrt F] in
/-- The best offer is one of those that were made. -/
theorem closest_eq_some {α : Type} {offer : α → Option (Offer F)} {points : List α}
    {best : Option (Offer F)} (h : closest offer best points = some next) :
    best = some next ∨ ∃ point ∈ points, offer point = some next := by
  induction points generalizing best with
  | nil => exact .inl h
  | cons point rest ih =>
    have hrest : ∀ best', closest offer best' rest = some next →
        best' = best ∨ best' = offer point → best = some next ∨
          ∃ point' ∈ point :: rest, offer point' = some next := by
      intro best' hbest' heq
      rcases ih hbest' with hfirst | ⟨point', hmem, hoffer⟩
      · rcases heq with rfl | rfl
        · exact .inl hfirst
        · exact .inr ⟨point, List.mem_cons_self, hfirst⟩
      · exact .inr ⟨point', List.mem_cons_of_mem _ hmem, hoffer⟩
    rw [closest] at h
    cases hoffer : offer point with
    | none =>
      simp only [hoffer] at h
      exact hrest best h (.inl rfl)
    | some new =>
      simp only [hoffer] at h
      split_ifs at h with hnew hnear hnear
      · exact .inr ⟨point, List.mem_cons_self, hoffer.trans h⟩
      · exact .inl h
      · exact hrest _ h (.inr hoffer.symm)
      · exact hrest _ h (.inl rfl)

omit [Field F] [Sqrt F] [LinearOrder F] in
theorem mem_endPoints {candidate : Nat} {line : Candidate F} {atLast : Bool}
    (h : (candidate, line, atLast) ∈ endPoints lines) : lines[candidate]? = some line := by
  obtain ⟨⟨line', i⟩, hrow, hpoint⟩ := List.mem_flatMap.mp h
  have hline := List.mem_zipIdx_iff_getElem?.mp hrow
  rcases List.mem_cons.mp hpoint with heq | hpoint
  · cases heq
    exact hline
  · cases List.mem_singleton.mp hpoint
    exact hline

/-- The search finds an end point of one of the lines, which the gates let through. -/
theorem offered_of_search {walk : Walk F} (h : search maxGap lines processed walk = some next) :
    Offered maxGap processed walk next ∧ lines[next.candidate]? = some next.line := by
  rcases closest_eq_some h with hnone | ⟨⟨candidate, line, atLast⟩, hpoint, hoffer⟩
  · cases hnone
  · obtain ⟨hoffered, rfl, rfl⟩ := offered_of_offer hoffer
    exact ⟨hoffered, mem_endPoints hpoint⟩

/-! ### Turns -/

/-- What one turn does. -/
inductive Turn (maxGap : F) (lines : List (Candidate F)) (self : Stitcher F) : Stitcher F → Prop
  /-- The line of the seed is part of a chain already. -/
  | skip {line : Candidate F} (hwalk : self.walk = none) (hline : lines[self.seed]? = some line)
      (hused : self.processed.getD self.seed false = true) :
      Turn maxGap lines self { self with seed := self.seed + 1 }
  | seed {line : Candidate F} (hwalk : self.walk = none) (hline : lines[self.seed]? = some line)
      (hfresh : self.processed.getD self.seed false = false) :
      Turn maxGap lines self
        { self with
          processed := self.processed.set self.seed true
          seed := self.seed + 1
          walk := some line.seedWalk }
  | turn {walk : Walk F} (hwalk : self.walk = some walk)
      (hnone : search maxGap lines self.processed walk = none)
      (hforward : walk.goInReverseDirection = false) :
      Turn maxGap lines self { self with walk := some walk.turn }
  | leave {walk : Walk F} (hwalk : self.walk = some walk)
      (hnone : search maxGap lines self.processed walk = none)
      (hreverse : walk.goInReverseDirection = true) :
      Turn maxGap lines self { self with walk := none, out := self.out ++ [walk.leave] }
  | close {walk : Walk F} {next : Offer F} (hwalk : self.walk = some walk)
      (hnext : search maxGap lines self.processed walk = some next)
      (hclosing : next.isClosingSegment = true) :
      Turn maxGap lines self { self with walk := none, out := self.out ++ [walk.close] }
  | absorb {walk : Walk F} {next : Offer F} (hwalk : self.walk = some walk)
      (hnext : search maxGap lines self.processed walk = some next)
      (hopen : next.isClosingSegment = false) :
      Turn maxGap lines self
        { self with
          processed := self.processed.set next.candidate true
          walk := some (walk.absorb next) }

theorem turn_of_step {next : Stitcher F} (h : step maxGap lines self = some next) :
    Turn maxGap lines self next := by
  rw [step] at h
  split at h
  · next hwalk =>
    obtain ⟨line, hline, rfl⟩ := Option.map_eq_some_iff.mp h
    split_ifs with hused
    · exact .skip hwalk hline hused
    · exact .seed hwalk hline (Bool.eq_false_iff.mpr hused)
  · next walk hwalk =>
    split at h
    · next hnone =>
      split_ifs at h with hreverse
      · cases h
        exact .leave hwalk hnone hreverse
      · cases h
        exact .turn hwalk hnone (Bool.eq_false_iff.mpr hreverse)
    · next offer hnext =>
      split_ifs at h with hclosing
      · cases h
        exact .close hwalk hnext hclosing
      · cases h
        exact .absorb hwalk hnext (Bool.eq_false_iff.mpr hclosing)

/-- When the loops are over, no seed is left and no chain is under way. -/
theorem step_eq_none (h : step maxGap lines self = none) :
    self.walk = none ∧ lines.length ≤ self.seed := by
  rw [step] at h
  split at h
  · next hwalk =>
    rw [Option.map_eq_none_iff, List.getElem?_eq_none_iff] at h
    exact ⟨hwalk, h⟩
  · split at h
    · split_ifs at h
    · split_ifs at h

/-! ### The end of the loops -/

/-- The directions a walk has still to be left in. -/
def Walk.directions (walk : Walk F) : Nat :=
  if walk.goInReverseDirection then 1 else 2

omit [Field F] [Sqrt F] [LinearOrder F] in
theorem Walk.directions_pos (walk : Walk F) : 0 < walk.directions := by
  rw [Walk.directions]
  split_ifs <;> omega

/-- The turns that are left at most: one for each seed, and for each line not yet used one to
take it and two for a chain of its own. -/
def remaining (lines : List (Candidate F)) (self : Stitcher F) : Nat :=
  (lines.length - self.seed) + 3 * self.processed.count false +
    self.walk.elim 0 Walk.directions

theorem count_set_true {i : Nat} (hi : i < processed.length)
    (hfresh : processed.getD i false = false) :
    (processed.set i true).count false + 1 = processed.count false := by
  have hget : processed[i] = false := by rwa [List.getD_eq_getElem _ _ hi] at hfresh
  have hmem : false ∈ processed := hget ▸ List.getElem_mem hi
  have hpos := List.count_pos_iff.mpr hmem
  rw [List.count_set hi, hget]
  simp only [beq_self_eq_true, if_true]
  have hother : (true == false) = false := rfl
  simp only [hother, Bool.false_eq_true, if_false]
  omega

/-- A turn takes the stitcher nearer to its end. -/
theorem Turn.remaining_lt {next : Stitcher F} (h : Turn maxGap lines self next)
    (hlength : self.processed.length = lines.length) :
    remaining lines next < remaining lines self := by
  cases h with
  | skip hwalk hline hused =>
    have hseed := (List.getElem?_eq_some_iff.mp hline).1
    simp only [remaining, hwalk, Option.elim]
    omega
  | @seed line hwalk hline hfresh =>
    have hseed := (List.getElem?_eq_some_iff.mp hline).1
    have hcount := count_set_true (hlength ▸ hseed) hfresh
    have hdirections : line.seedWalk.directions = 2 := rfl
    simp only [remaining, hwalk, Option.elim, hdirections]
    omega
  | @turn walk hwalk hnone hforward =>
    have hdirections : walk.directions = 2 := by simp [Walk.directions, hforward]
    have hturned : walk.turn.directions = 1 := rfl
    simp only [remaining, hwalk, Option.elim, hdirections, hturned]
    omega
  | @leave walk hwalk hnone hreverse =>
    have hpos := walk.directions_pos
    simp only [remaining, hwalk, Option.elim]
    omega
  | @close walk next hwalk hnext hclosing =>
    have hpos := walk.directions_pos
    simp only [remaining, hwalk, Option.elim]
    omega
  | @absorb walk next hwalk hnext hopen =>
    obtain ⟨hoffered, hline⟩ := offered_of_search hnext
    have hlt := (List.getElem?_eq_some_iff.mp hline).1
    have hcount := count_set_true (hlength ▸ hlt) (hoffered.fresh hopen)
    have hdirections : (walk.absorb next).directions = walk.directions := rfl
    simp only [remaining, hwalk, Option.elim, hdirections]
    omega

theorem Turn.length_processed {next : Stitcher F} (h : Turn maxGap lines self next) :
    next.processed.length = self.processed.length := by
  cases h <;> simp

/-- The loops end, after turns only. -/
theorem exists_run (hlength : self.processed.length = lines.length) {fuel : Nat}
    (hfuel : remaining lines self < fuel) :
    ∃ last, run maxGap lines fuel self = some last ∧
      Relation.ReflTransGen (Turn maxGap lines) self last ∧ last.walk = none ∧
      lines.length ≤ last.seed := by
  induction fuel generalizing self with
  | zero => omega
  | succ fuel ih =>
    rw [run]
    cases hstep : step maxGap lines self with
    | none => exact ⟨self, rfl, .refl, step_eq_none hstep⟩
    | some next =>
      have hturn := turn_of_step hstep
      have hless := hturn.remaining_lt hlength
      obtain ⟨last, hrun, hturns, hend⟩ :=
        ih (hturn.length_processed.trans hlength) (by omega)
      exact ⟨last, hrun, .head hturn hturns, hend⟩

omit [Field F] [Sqrt F] [LinearOrder F] in
theorem remaining_start : remaining lines (.start lines) = 4 * lines.length := by
  simp only [remaining, Stitcher.start, Option.elim, List.count_replicate_self]
  omega

/-- `stitch_inset` ends with every line seeded. -/
theorem exists_stitchInset (maxGap : F) (lines : List (Candidate F)) :
    ∃ last, stitchInset lines maxGap = some last.out ∧
      Relation.ReflTransGen (Turn maxGap lines) (.start lines) last ∧ last.walk = none ∧
      lines.length ≤ last.seed := by
  have hlength : (Stitcher.start lines).processed.length = lines.length := List.length_replicate
  have hfuel : remaining lines (.start lines) < 4 * lines.length + 1 := by
    rw [remaining_start]
    omega
  obtain ⟨last, hrun, hend⟩ : ∃ last,
      run maxGap lines (4 * lines.length + 1) (.start lines) = some last ∧
        Relation.ReflTransGen (Turn maxGap lines) (.start lines) last ∧ last.walk = none ∧
        lines.length ≤ last.seed := exists_run hlength hfuel
  exact ⟨last, by rw [stitchInset, hrun]; rfl, hend⟩

end PinchNPrint.Walls
