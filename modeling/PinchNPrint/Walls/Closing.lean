/-
Whether closed walls end where they start.

A walk is closed when a point near its front is close enough to its back; the copy of the
first junction is appended when the back is nearer to the front than the gap. The two tests
differ: `closesLoops_iff` is the exact condition, on the walks about to be closed, for every
wall marked closed to end at its first junction.
-/

import PinchNPrint.Walls.Stitched

namespace PinchNPrint.Walls

open PinchNPrint.GCode (Sqrt sqrt)
open PinchNPrint.Layer (Point3WithWidth)
open Relation (ReflTransGen)

variable {F : Type} [Field F] [Sqrt F] [LinearOrder F]

/-! ### One run -/

section Run

variable {maxGap : F} {lines : List (Candidate F)}

theorem Turn.step_eq {self next : Stitcher F} (h : Turn maxGap lines self next) :
    step maxGap lines self = some next := by
  cases h with
  | skip hwalk hline hused => simp only [step, hwalk, hline, hused, Option.map_some, if_true]
  | seed hwalk hline hfresh =>
    simp only [step, hwalk, hline, hfresh, Option.map_some, Bool.false_eq_true, if_false]
  | turn hwalk hnone hforward =>
    simp only [step, hwalk, hnone, hforward, Bool.false_eq_true, if_false]
  | leave hwalk hnone hreverse => simp only [step, hwalk, hnone, hreverse, if_true]
  | close hwalk hnext hclosing => simp only [step, hwalk, hnext, hclosing, if_true]
  | absorb hwalk hnext hopen =>
    simp only [step, hwalk, hnext, hopen, Bool.false_eq_true, if_false]

/-- There is one run. -/
theorem turn_rightUnique : Relator.RightUnique (Turn maxGap lines) := by
  intro self next next' h h'
  exact Option.some.inj (h.step_eq.symm.trans h'.step_eq)

/-- A turn only adds to what is put out. -/
theorem Turn.out_prefix {self next : Stitcher F} (h : Turn maxGap lines self next) :
    self.out <+: next.out := by
  cases h with
  | skip => exact List.prefix_refl _
  | seed => exact List.prefix_refl _
  | turn => exact List.prefix_refl _
  | leave => exact List.prefix_append _ _
  | close => exact List.prefix_append _ _
  | absorb => exact List.prefix_refl _

theorem out_prefix_of_turns {self next : Stitcher F}
    (hturns : ReflTransGen (Turn maxGap lines) self next) : self.out <+: next.out := by
  induction hturns with
  | refl => exact List.prefix_refl _
  | tail _ hturn ih => exact ih.trans hturn.out_prefix

/-- A walk the stitcher is about to close. -/
def AboutToClose (maxGap : F) (lines : List (Candidate F)) (walk : Walk F) : Prop :=
  ∃ state next, ReflTransGen (Turn maxGap lines) (.start lines) state ∧
    state.walk = some walk ∧ search maxGap lines state.processed walk = some next ∧
    next.isClosingSegment = true

theorem closed_of_turns {state : Stitcher F}
    (hturns : ReflTransGen (Turn maxGap lines) (.start lines) state) :
    ∀ chain ∈ state.out, chain.closed = true →
      ∃ walk, AboutToClose maxGap lines walk ∧ chain = walk.close := by
  induction hturns with
  | refl =>
    intro chain hchain
    cases hchain
  | @tail before after hbefore hturn ih =>
    cases hturn with
    | skip => exact ih
    | seed => exact ih
    | turn => exact ih
    | absorb => exact ih
    | @leave walk hwalk hnone hreverse =>
      intro chain hchain hclosed
      rcases List.mem_append.mp hchain with hchain | hchain
      · exact ih chain hchain hclosed
      · rw [List.mem_singleton.mp hchain] at hclosed
        cases hclosed
    | @close walk next hwalk hnext hclosing =>
      intro chain hchain hclosed
      rcases List.mem_append.mp hchain with hchain | hchain
      · exact ih chain hchain hclosed
      · exact ⟨walk, ⟨before, next, hbefore, hwalk, hnext, hclosing⟩,
          List.mem_singleton.mp hchain⟩

theorem mem_stitchInset_closed {chains : List (Chain F)}
    (hchains : stitchInset lines maxGap = some chains) (chain : Chain F) :
    chain ∈ chains ∧ chain.closed = true ↔
      ∃ walk, AboutToClose maxGap lines walk ∧ chain = walk.close := by
  obtain ⟨last, hlast, hturns, hidle, hseed⟩ := exists_stitchInset maxGap lines
  rw [hchains] at hlast
  cases hlast
  constructor
  · rintro ⟨hmem, hclosed⟩
    exact closed_of_turns hturns chain hmem hclosed
  · rintro ⟨walk, ⟨state, next, hstate, hwalk, hnext, hclosing⟩, rfl⟩
    refine ⟨?_, rfl⟩
    have hturn := Turn.close hwalk hnext hclosing
    have hput : walk.close ∈ state.out ++ [walk.close] := by simp
    rcases ReflTransGen.total_of_right_unique turn_rightUnique (hstate.tail hturn) hturns with
      hlater | hearlier
    · exact (out_prefix_of_turns hlater).subset hput
    · rcases hearlier.cases_head with heq | ⟨after, hafter, -⟩
      · rw [heq]
        exact hput
      · -- the last state has no turn
        have hnone : step maxGap lines last = none := by
          simp only [step, hidle, List.getElem?_eq_none hseed, Option.map_none]
        rw [hafter.step_eq] at hnone
        cases hnone

theorem AboutToClose.two_lt {walk : Walk F} (h : AboutToClose maxGap lines walk) :
    2 < walk.chain.length := by
  obtain ⟨state, next, -, -, hnext, hclosing⟩ := h
  exact (offered_of_search hnext).1.closing hclosing

end Run

/-! ### The copy of the first junction -/

/-- A wall of three junctions at least, of which the last is at the first. -/
def ExtrusionLine.IsLoop (wall : ExtrusionLine F) : Prop :=
  3 ≤ wall.junctions.length ∧
    ∃ first last, wall.junctions.head? = some first ∧ wall.junctions.getLast? = some last ∧
      last.p.x = first.p.x ∧ last.p.y = first.p.y

/-- The back of a walk is at its front, or nearer to it than the gap. -/
def Walk.Meets (maxGap : F) (walk : Walk F) : Prop :=
  (walk.back.p.x = walk.front.p.x ∧ walk.back.p.y = walk.front.p.y) ∨
    distXy walk.back.p walk.front.p < maxGap

theorem isLoop_closeChain_iff {chain : Chain F} (hlong : 2 < chain.junctions.length)
    (insetIdx : Nat) (maxGap : F) :
    (closeChain chain insetIdx maxGap).IsLoop ↔
      ((chain.junctions.head chain.nonempty).p.x = (chain.junctions.getLast chain.nonempty).p.x ∧
        (chain.junctions.head chain.nonempty).p.y =
          (chain.junctions.getLast chain.nonempty).p.y) ∨
        distXy (chain.junctions.getLast chain.nonempty).p
          (chain.junctions.head chain.nonempty).p < maxGap := by
  set start := chain.junctions.head chain.nonempty with hstart
  set stop := chain.junctions.getLast chain.nonempty with hstop
  have hhead : chain.junctions.head? = some start := List.head?_eq_some_head chain.nonempty
  have hlast : chain.junctions.getLast? = some stop :=
    List.getLast?_eq_some_getLast chain.nonempty
  by_cases hcopied : (start.p.x ≠ stop.p.x ∨ start.p.y ≠ stop.p.y) ∧
      distXy stop.p start.p < maxGap
  · have hjunctions : (closeChain chain insetIdx maxGap).junctions = chain.junctions ++ [start] :=
      if_pos hcopied
    refine iff_of_true ⟨?_, start, start, ?_, ?_, rfl, rfl⟩ (.inr hcopied.2)
    · rw [hjunctions, List.length_append]
      omega
    · rw [hjunctions, List.head?_append, hhead]
      rfl
    · rw [hjunctions, List.getLast?_concat]
  · have hjunctions : (closeChain chain insetIdx maxGap).junctions = chain.junctions :=
      if_neg hcopied
    have hsame : (closeChain chain insetIdx maxGap).IsLoop ↔
        stop.p.x = start.p.x ∧ stop.p.y = start.p.y := by
      rw [ExtrusionLine.IsLoop, hjunctions, hhead, hlast]
      constructor
      · rintro ⟨-, first, last, hfirst, hend, hxy⟩
        cases hfirst
        cases hend
        exact hxy
      · intro hxy
        exact ⟨hlong, start, stop, rfl, rfl, hxy⟩
    rw [hsame]
    constructor
    · rintro ⟨hx, hy⟩
      exact .inl ⟨hx.symm, hy.symm⟩
    · rintro (⟨hx, hy⟩ | hnear)
      · exact ⟨hx.symm, hy.symm⟩
      · by_contra hdiffer
        refine hcopied ⟨?_, hnear⟩
        by_contra hequal
        rw [not_or, not_not, not_not] at hequal
        exact hdiffer ⟨hequal.1.symm, hequal.2.symm⟩

theorem isLoop_close_iff {walk : Walk F} (hlong : 2 < walk.chain.length) (insetIdx : Nat)
    (maxGap : F) :
    (closeChain walk.close insetIdx maxGap).IsLoop ↔ walk.Meets maxGap := by
  have hlong' : 2 < walk.close.junctions.length := by
    simp only [Walk.close]
    split_ifs
    · rwa [List.length_reverse]
    · exact hlong
  rw [isLoop_closeChain_iff hlong', Walk.Meets]
  by_cases hreverse : walk.goInReverseDirection = true
  · have hfront : walk.close.junctions.head walk.close.nonempty = walk.back := by
      simp [Walk.close, Walk.back, hreverse]
    have hback : walk.close.junctions.getLast walk.close.nonempty = walk.front := by
      simp [Walk.close, Walk.front, hreverse]
    rw [hfront, hback, distXy_comm]
  · have hfront : walk.close.junctions.head walk.close.nonempty = walk.front := by
      simp [Walk.close, Walk.front, hreverse]
    have hback : walk.close.junctions.getLast walk.close.nonempty = walk.back := by
      simp [Walk.close, Walk.back, hreverse]
    rw [hfront, hback, eq_comm, eq_comm (a := walk.front.p.y)]

/-! ### All closed walls -/

theorem mem_stitchGroup_closed {maxGap : F} {insetIdx : Nat} {group : List (Nat × Candidate F)}
    {walls : List (ExtrusionLine F)} (hwalls : stitchGroup maxGap insetIdx group = some walls)
    (wall : ExtrusionLine F) :
    wall ∈ walls ∧ wall.isClosed = true ↔
      ∃ walk, AboutToClose maxGap (group.map Prod.snd) walk ∧
        wall = closeChain walk.close insetIdx maxGap := by
  rw [stitchGroup, Option.map_eq_some_iff] at hwalls
  obtain ⟨chains, hchains, rfl⟩ := hwalls
  have hclosed : wall ∈ (chains.filter (!·.closed)).map (openChain · insetIdx) ++
        (chains.filter (·.closed)).map (closeChain · insetIdx maxGap) ∧ wall.isClosed = true ↔
      ∃ chain, (chain ∈ chains ∧ chain.closed = true) ∧
        closeChain chain insetIdx maxGap = wall := by
    rw [List.mem_append, List.mem_map, List.mem_map]
    constructor
    · rintro ⟨⟨chain, -, rfl⟩ | ⟨chain, hchain, rfl⟩, hmark⟩
      · cases hmark
      · exact ⟨chain, List.mem_filter.mp hchain, rfl⟩
    · rintro ⟨chain, hchain, rfl⟩
      exact ⟨.inr ⟨chain, List.mem_filter.mpr hchain, rfl⟩, rfl⟩
  rw [hclosed]
  constructor
  · rintro ⟨chain, hchain, rfl⟩
    obtain ⟨walk, hwalk, rfl⟩ := (mem_stitchInset_closed hchains chain).mp hchain
    exact ⟨walk, hwalk, rfl⟩
  · rintro ⟨walk, hwalk, rfl⟩
    exact ⟨walk.close, (mem_stitchInset_closed hchains _).mpr ⟨walk, hwalk, rfl⟩, rfl⟩

/-- Every wall the stitcher marks closed is a loop. -/
def ClosesLoops (lines : List (ExtrusionLine F)) (maxGap : F) : Prop :=
  ∀ stitched, stitchGroups lines maxGap = some stitched →
    ∀ wall ∈ stitched, wall.isClosed = true → wall.IsLoop

/-- The walls marked closed are loops just when every walk that is about to be closed has its
back at its front, or nearer to it than the gap. -/
theorem closesLoops_iff (lines : List (ExtrusionLine F)) (maxGap : F) :
    ClosesLoops lines maxGap ↔
      ∀ entry ∈ openGroups lines, ∀ walk, AboutToClose maxGap (entry.2.map Prod.snd) walk →
        walk.Meets maxGap := by
  choose walls _ hwalls _ _ using
    fun entry : Nat × List (Nat × Candidate F) => stitchGroup_conserves maxGap entry.1 entry.2
  have hstitched := stitchGroups_eq_some hwalls lines
  constructor
  · intro hloops entry hentry walk hwalk
    obtain ⟨hwall, hmark⟩ := (mem_stitchGroup_closed (hwalls entry) _).mpr ⟨walk, hwalk, rfl⟩
    have hmem : closeChain walk.close entry.1 maxGap ∈ ((openGroups lines).map walls).flatten :=
      List.mem_flatten.mpr ⟨_, List.mem_map_of_mem hentry, hwall⟩
    exact (isLoop_close_iff hwalk.two_lt entry.1 maxGap).mp (hloops _ hstitched _ hmem hmark)
  · intro hmeets stitched heq wall hwall hmark
    rw [hstitched] at heq
    cases heq
    obtain ⟨group, hgroup, hwall⟩ := List.mem_flatten.mp hwall
    obtain ⟨entry, hentry, rfl⟩ := List.mem_map.mp hgroup
    obtain ⟨walk, hwalk, rfl⟩ := (mem_stitchGroup_closed (hwalls entry) wall).mp ⟨hwall, hmark⟩
    exact (isLoop_close_iff hwalk.two_lt entry.1 maxGap).mpr (hmeets entry hentry walk hwalk)

/-- A junction of unit width on the first layer. -/
def junctionAt (x y : ℚ) : ExtrusionJunction ℚ where
  p := { x, y, z := 0, width := 1, flowFactor := 1, distToTopMm := 0 }

/-- An even line that comes back to one gap from its start. -/
def hook : ExtrusionLine ℚ where
  junctions := [junctionAt 0 0, junctionAt 3 0, junctionAt 1 0]
  insetIdx := 0

/-- The back of the hook is as far from its front as the gap: it is closed without the copy. -/
theorem not_closesLoops_hook : ¬ ClosesLoops [hook] 1 := by
  intro hloops
  have hstitched : stitchGroups [hook] 1 = some [{ hook with isClosed := true }] := by
    decide +kernel
  obtain ⟨-, first, last, hfirst, hlast, hx, -⟩ := hloops _ hstitched _ List.mem_cons_self rfl
  cases hfirst
  cases hlast
  revert hx
  decide

end PinchNPrint.Walls
