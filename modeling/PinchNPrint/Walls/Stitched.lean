/-
Stitching conserves lines.

A chain under way is spliced from the lines it has taken: joined where they end within the
gap, with an end dropped only where the chain has the same one, and even lines all in one
direction (`WalkFrom`). The flags of the stitcher are the lines in some chain (`Flags`). Both
hold through every turn, so at the end every open line is part of exactly one wall of its
inset and parity (`stitchExtrusions_conserves`).
-/

import PinchNPrint.Lib.Splicing
import PinchNPrint.Walls.Turns

namespace PinchNPrint.Walls

open PinchNPrint.GCode (Sqrt sqrt)
open PinchNPrint.Layer (Point3WithWidth)

variable {F : Type} [Field F]

theorem distSqXy_comm (a b : Point3WithWidth F) : distSqXy a b = distSqXy b a := by
  simp only [distSqXy]
  ring

theorem distXy_comm [Sqrt F] (a b : Point3WithWidth F) : distXy a b = distXy b a := by
  rw [distXy, distSqXy_comm, distXy]

section Chains

variable [Sqrt F] [LinearOrder F]

/-- Two junctions a line may be joined at. -/
def Near (maxGap : F) (a b : ExtrusionJunction F) : Prop :=
  distXy a.p b.p ≤ maxGap

/-- Two junctions of which one is enough. -/
def Same (a b : ExtrusionJunction F) : Prop :=
  distXy a.p b.p < SNAP_DISTANCE_MM

theorem Near.symm {maxGap : F} (a b : ExtrusionJunction F) (h : Near maxGap a b) :
    Near maxGap b a := by
  rwa [Near, distXy_comm]

theorem Same.symm (a b : ExtrusionJunction F) (h : Same a b) : Same b a := by
  rwa [Same, distXy_comm]

variable (maxGap : F) (lines : List (Candidate F))

/-- The junctions of a line, by its place. -/
def junctionsOf (i : Nat) : List (ExtrusionJunction F) :=
  (lines[i]?.map Candidate.junctions).getD []

/-- A chain spliced from lines of one parity, the even ones in the one direction. -/
structure SplicedFrom (pieces : List (Piece Nat)) (chain : List (ExtrusionJunction F))
    (isOdd reversed : Bool) : Prop where
  ne_nil : pieces ≠ []
  spliced : Spliced (junctionsOf lines) (Near maxGap) Same pieces chain
  parity : ∀ piece ∈ pieces, ∃ line, lines[piece.source]? = some line ∧ line.isOdd = isOdd
  direction : isOdd = false → ∀ piece ∈ pieces, piece.reversed = reversed

/-- The chain of a walk. -/
abbrev WalkFrom (pieces : List (Piece Nat)) (walk : Walk F) : Prop :=
  SplicedFrom maxGap lines pieces walk.chain walk.isOdd walk.goInReverseDirection

/-- A chain put out. -/
abbrev ChainFrom (pieces : List (Piece Nat)) (chain : Chain F) : Prop :=
  SplicedFrom maxGap lines pieces chain.junctions chain.isOdd false

variable {maxGap lines} {pieces : List (Piece Nat)} {chain : List (ExtrusionJunction F)}
  {isOdd reversed : Bool}

theorem SplicedFrom.reverse (h : SplicedFrom maxGap lines pieces chain isOdd reversed) :
    SplicedFrom maxGap lines (pieces.map Piece.flip).reverse chain.reverse isOdd (!reversed) where
  ne_nil := by simpa using h.ne_nil
  spliced := h.spliced.reverse Near.symm Same.symm
  parity := by
    intro piece hpiece
    obtain ⟨before, hbefore, rfl⟩ := List.mem_map.mp (List.mem_reverse.mp hpiece)
    exact h.parity before hbefore
  direction := by
    intro heven piece hpiece
    obtain ⟨before, hbefore, rfl⟩ := List.mem_map.mp (List.mem_reverse.mp hpiece)
    simp [Piece.flip, h.direction heven before hbefore]

/-- Odd lines may be taken in any direction. -/
theorem SplicedFrom.of_odd (h : SplicedFrom maxGap lines pieces chain isOdd reversed)
    (hodd : isOdd = true) (reversed' : Bool) :
    SplicedFrom maxGap lines pieces chain isOdd reversed' :=
  { h with direction := fun heven => by rw [hodd] at heven; cases heven }

theorem walkFrom_seedWalk {i : Nat} {line : Candidate F} (hline : lines[i]? = some line) :
    WalkFrom maxGap lines [{ source := i }] line.seedWalk where
  ne_nil := List.cons_ne_nil _ _
  spliced := by
    have hjunctions : junctionsOf lines i = line.seedWalk.chain := by
      simp [junctionsOf, hline, Candidate.seedWalk]
    rw [← hjunctions]
    exact .single i
  parity := by
    intro piece hpiece
    rw [List.mem_singleton.mp hpiece]
    exact ⟨line, hline, rfl⟩
  direction := by
    intro _ piece hpiece
    rw [List.mem_singleton.mp hpiece]
    rfl

variable {walk : Walk F}

theorem WalkFrom.turn (h : WalkFrom maxGap lines pieces walk)
    (hforward : walk.goInReverseDirection = false) :
    WalkFrom maxGap lines (pieces.map Piece.flip).reverse walk.turn := by
  have hreversed := h.reverse
  rw [hforward] at hreversed
  exact hreversed

/-- The piece a walk takes. -/
def absorbedPiece (next : Offer F) : Piece Nat where
  source := next.candidate
  reversed := next.atLast
  dropFirst := next.segmentDist < SNAP_DISTANCE_MM

theorem WalkFrom.absorb {next : Offer F} {processed : List Bool}
    (h : WalkFrom maxGap lines pieces walk) (hnext : Offered maxGap processed walk next)
    (hline : lines[next.candidate]? = some next.line) :
    WalkFrom maxGap lines (pieces ++ [absorbedPiece next]) (walk.absorb next) := by
  obtain ⟨last, hlast⟩ : ∃ last, pieces.getLast? = some last :=
    ⟨_, List.getLast?_eq_some_getLast h.ne_nil⟩
  obtain ⟨line, hlastLine, -⟩ := h.parity last (List.mem_of_getLast? hlast)
  have hlong : 2 ≤ (junctionsOf lines last.source).length := by
    simpa [junctionsOf, hlastLine] using line.two_le
  have hjunctions : junctionsOf lines next.candidate = next.line.junctions := by
    simp [junctionsOf, hline]
  have hwhole : (absorbedPiece next).whole (junctionsOf lines) =
      if next.atLast then next.line.junctions.reverse else next.line.junctions := by
    rw [Piece.whole, ← hjunctions]
    rfl
  have hhead : ((absorbedPiece next).whole (junctionsOf lines)).head? =
      some (next.line.point next.atLast) := by
    rw [hwhole, Candidate.point]
    split_ifs
    · rw [List.head?_reverse, List.getLast?_eq_some_getLast]
    · rw [List.head?_eq_some_head]
  have hkept : walk.chain ++ (absorbedPiece next).kept (junctionsOf lines) =
      (walk.absorb next).chain := by
    refine congrArg (walk.chain ++ ·) ?_
    simp only [Piece.kept, hwhole]
    simp only [absorbedPiece, decide_eq_true_eq, Bool.false_eq_true, if_false]
    split_ifs
    · exact List.tail_reverse
    · rfl
    · rfl
    · rfl
  refine
    { ne_nil := by simp
      spliced := ?_
      parity := ?_
      direction := ?_ }
  · rw [← hkept]
    refine h.spliced.snoc hlast hlong (List.getLast?_eq_some_getLast walk.nonempty) hhead ?_ ?_ rfl
    · have hnear := hnext.le_maxGap
      rwa [hnext.segmentDist_eq] at hnear
    · intro hsnapped
      have hsame : next.segmentDist < SNAP_DISTANCE_MM := of_decide_eq_true hsnapped
      rwa [hnext.segmentDist_eq] at hsame
  · intro piece hpiece
    rcases List.mem_append.mp hpiece with hpiece | hpiece
    · exact h.parity piece hpiece
    · rw [List.mem_singleton.mp hpiece]
      exact ⟨next.line, hline, hnext.parity.symm⟩
  · intro heven piece hpiece
    rcases List.mem_append.mp hpiece with hpiece | hpiece
    · exact h.direction heven piece hpiece
    · rw [List.mem_singleton.mp hpiece]
      exact hnext.direction (hnext.parity ▸ heven)

theorem sources_flip (pieces : List (Piece Nat)) :
    ((pieces.map Piece.flip).reverse.map Piece.source).Perm (pieces.map Piece.source) := by
  rw [List.map_reverse, List.map_map]
  exact List.reverse_perm _

theorem WalkFrom.leave (h : WalkFrom maxGap lines pieces walk)
    (hreverse : walk.goInReverseDirection = true) :
    ∃ pieces', (pieces'.map Piece.source).Perm (pieces.map Piece.source) ∧
      ChainFrom maxGap lines pieces' walk.leave := by
  by_cases hodd : walk.isOdd = true
  · refine ⟨pieces, .refl _, ?_⟩
    have hchain : walk.leave.junctions = walk.chain := if_pos hodd
    rw [ChainFrom, hchain]
    exact h.of_odd hodd false
  · refine ⟨(pieces.map Piece.flip).reverse, sources_flip pieces, ?_⟩
    have hchain : walk.leave.junctions = walk.chain.reverse := if_neg hodd
    rw [ChainFrom, hchain]
    have hreversed := h.reverse
    rw [hreverse] at hreversed
    exact hreversed

theorem WalkFrom.close (h : WalkFrom maxGap lines pieces walk) :
    ∃ pieces', (pieces'.map Piece.source).Perm (pieces.map Piece.source) ∧
      ChainFrom maxGap lines pieces' walk.close := by
  by_cases hreverse : walk.goInReverseDirection = true
  · refine ⟨(pieces.map Piece.flip).reverse, sources_flip pieces, ?_⟩
    have hchain : walk.close.junctions = walk.chain.reverse := if_pos hreverse
    rw [ChainFrom, hchain]
    have hreversed := h.reverse
    rw [hreverse] at hreversed
    exact hreversed
  · refine ⟨pieces, .refl _, ?_⟩
    have hchain : walk.close.junctions = walk.chain := if_neg hreverse
    rw [ChainFrom, hchain]
    have hforward := h
    rw [WalkFrom, Bool.eq_false_iff.mpr hreverse] at hforward
    exact hforward

end Chains

/-! ### The flags -/

/-- The flags are set for these lines, of which none is named twice, and all lines before the
seed are among them. -/
structure Flags (n : Nat) (processed : List Bool) (seed : Nat) (sources : List Nat) : Prop where
  length : processed.length = n
  nodup : sources.Nodup
  processed_iff : ∀ i < n, processed.getD i false = true ↔ i ∈ sources
  seeds : ∀ i < n, i < seed → i ∈ sources
  within : ∀ i ∈ sources, i < n

namespace Flags

variable {n seed i : Nat} {processed : List Bool} {sources sources' : List Nat}

theorem perm (h : Flags n processed seed sources) (hperm : sources'.Perm sources) :
    Flags n processed seed sources' where
  length := h.length
  nodup := hperm.nodup_iff.mpr h.nodup
  processed_iff := fun i hi => (h.processed_iff i hi).trans hperm.mem_iff.symm
  seeds := fun i hi hseed => hperm.mem_iff.mpr (h.seeds i hi hseed)
  within := fun i hi => h.within i (hperm.mem_iff.mp hi)

/-- A line is taken. -/
theorem take (h : Flags n processed seed sources) (hi : i < n)
    (hfresh : processed.getD i false = false) :
    Flags n (processed.set i true) seed (sources ++ [i]) where
  length := by rw [List.length_set, h.length]
  nodup := by
    have hnot : i ∉ sources := by
      intro hmem
      rw [(h.processed_iff i hi).mpr hmem] at hfresh
      cases hfresh
    exact List.nodup_append.mpr ⟨h.nodup, List.nodup_singleton i, fun a ha b hb heq =>
      hnot (List.mem_singleton.mp hb ▸ heq ▸ ha)⟩
  processed_iff := by
    intro j hj
    have hj' : j < processed.length := h.length ▸ hj
    rw [List.getD_eq_getElem _ _ (by simpa using hj'), List.getElem_set, List.mem_append,
      List.mem_singleton, ← h.processed_iff j hj, List.getD_eq_getElem _ _ hj']
    split_ifs with heq
    · simp [heq]
    · simp [Ne.symm heq]
  seeds := fun j hj hseed => List.mem_append_left _ (h.seeds j hj hseed)
  within := by
    intro j hj
    rcases List.mem_append.mp hj with hj | hj
    · exact h.within j hj
    · rw [List.mem_singleton.mp hj]
      exact hi

/-- The next seed, once its line is taken. -/
theorem advance (h : Flags n processed seed sources) (hmem : seed ∈ sources) :
    Flags n processed (seed + 1) sources :=
  { h with
    seeds := fun i hi hseed => by
      rcases Nat.lt_succ_iff_lt_or_eq.mp hseed with hlt | rfl
      · exact h.seeds i hi hlt
      · exact hmem }

theorem start (n : Nat) : Flags n (List.replicate n false) 0 [] where
  length := List.length_replicate
  nodup := .nil
  processed_iff := fun i hi => by simp [hi]
  seeds := fun i _ hseed => absurd hseed (Nat.not_lt_zero i)
  within := fun i hi => by cases hi

/-- Past the last seed, every line is taken once. -/
theorem perm_range (h : Flags n processed seed sources) (hseed : n ≤ seed) :
    sources.Perm (List.range n) := by
  refine (List.perm_ext_iff_of_nodup h.nodup List.nodup_range).mpr fun i => ?_
  rw [List.mem_range]
  exact ⟨h.within i, fun hi => h.seeds i hi (hi.trans_le hseed)⟩

end Flags

/-! ### Every line once -/

section Inset

variable [Sqrt F] [LinearOrder F] {maxGap : F} {lines : List (Candidate F)}

/-- The chains of a stitcher, put out and under way, are spliced from the lines of its flags. -/
structure Accounted (maxGap : F) (lines : List (Candidate F)) (state : Stitcher F)
    (done : List (List (Piece Nat))) (current : List (Piece Nat)) : Prop where
  out : List.Forall₂ (ChainFrom maxGap lines) done state.out
  idle : state.walk = none → current = []
  walk : ∀ walk, state.walk = some walk → WalkFrom maxGap lines current walk
  flags : Flags lines.length state.processed state.seed
    ((done.flatten ++ current).map Piece.source)

theorem Accounted.start : Accounted maxGap lines (.start lines) [] [] where
  out := .nil
  idle := fun _ => rfl
  walk := fun _ hwalk => by cases hwalk
  flags := Flags.start lines.length

variable {chain : Chain F} {current pieces : List (Piece Nat)} {done : List (List (Piece Nat))}
  {self : Stitcher F}

theorem Accounted.finish (h : Accounted maxGap lines self done current)
    (hperm : (pieces.map Piece.source).Perm (current.map Piece.source))
    (hchain : ChainFrom maxGap lines pieces chain) :
    Accounted maxGap lines { self with walk := none, out := self.out ++ [chain] }
      (done ++ [pieces]) [] where
  out := List.rel_append h.out (.cons hchain .nil)
  idle := fun _ => rfl
  walk := fun _ hwalk => by cases hwalk
  flags := by
    refine h.flags.perm ?_
    rw [List.append_nil, List.flatten_concat, List.map_append, List.map_append]
    exact hperm.append_left _

theorem Turn.accounted {next : Stitcher F} (hturn : Turn maxGap lines self next)
    (h : Accounted maxGap lines self done current) :
    ∃ done' current', Accounted maxGap lines next done' current' := by
  cases hturn with
  | skip hwalk hline hused =>
    have hseed := (List.getElem?_eq_some_iff.mp hline).1
    exact ⟨done, current, { h with
      flags := h.flags.advance ((h.flags.processed_iff _ hseed).mp hused) }⟩
  | @seed line hwalk hline hfresh =>
    have hseed := (List.getElem?_eq_some_iff.mp hline).1
    refine ⟨done, [{ source := self.seed }], ?_⟩
    have hidle := h.idle hwalk
    have hflags := h.flags
    rw [hidle, List.append_nil] at hflags
    have htaken := (hflags.take hseed hfresh).advance (List.mem_append_right _ List.mem_cons_self)
    exact
      { out := h.out
        idle := fun hnone => by cases hnone
        walk := by
          intro walk hsome
          cases hsome
          exact walkFrom_seedWalk hline
        flags := by
          rw [List.map_append]
          exact htaken }
  | @turn walk hwalk hnone hforward =>
    refine ⟨done, (current.map Piece.flip).reverse, ?_⟩
    exact
      { out := h.out
        idle := fun hnone => by cases hnone
        walk := by
          intro turned hsome
          cases hsome
          exact (h.walk walk hwalk).turn hforward
        flags := by
          refine h.flags.perm ?_
          rw [List.map_append, List.map_append]
          exact (sources_flip current).append_left _ }
  | @leave walk hwalk hnone hreverse =>
    obtain ⟨pieces, hperm, hchain⟩ := (h.walk walk hwalk).leave hreverse
    exact ⟨_, _, h.finish hperm hchain⟩
  | @close walk next hwalk hnext hclosing =>
    obtain ⟨pieces, hperm, hchain⟩ := (h.walk walk hwalk).close
    exact ⟨_, _, h.finish hperm hchain⟩
  | @absorb walk next hwalk hnext hopen =>
    obtain ⟨hoffered, hline⟩ := offered_of_search hnext
    have hlt := (List.getElem?_eq_some_iff.mp hline).1
    refine ⟨done, current ++ [absorbedPiece next], ?_⟩
    exact
      { out := h.out
        idle := fun hnone => by cases hnone
        walk := by
          intro absorbed hsome
          cases hsome
          exact (h.walk walk hwalk).absorb hoffered hline
        flags := by
          rw [← List.append_assoc, List.map_append]
          exact h.flags.take hlt (hoffered.fresh hopen) }

theorem accounted_of_turns {next : Stitcher F}
    (hturns : Relation.ReflTransGen (Turn maxGap lines) self next)
    (h : Accounted maxGap lines self done current) :
    ∃ done' current', Accounted maxGap lines next done' current' := by
  induction hturns with
  | refl => exact ⟨done, current, h⟩
  | tail _ hturn ih =>
    obtain ⟨done', current', hbefore⟩ := ih
    exact hturn.accounted hbefore

/-- The chains of one inset are spliced from its lines, each taken once. -/
theorem stitchInset_conserves (maxGap : F) (lines : List (Candidate F)) :
    ∃ chains done, stitchInset lines maxGap = some chains ∧
      List.Forall₂ (ChainFrom maxGap lines) done chains ∧
      (done.flatten.map Piece.source).Perm (List.range lines.length) := by
  obtain ⟨last, hlast, hturns, hidle, hseed⟩ := exists_stitchInset maxGap lines
  obtain ⟨done, current, h⟩ := accounted_of_turns hturns Accounted.start
  refine ⟨last.out, done, hlast, h.out, ?_⟩
  have hflags := h.flags
  rw [h.idle hidle, List.append_nil] at hflags
  exact hflags.perm_range hseed

/-! ### All insets -/

/-- A line with ends to join, as a line again. -/
def lineOf (row : Nat × Candidate F) : ExtrusionLine F where
  junctions := row.2.junctions
  insetIdx := row.1
  isOdd := row.2.isOdd

/-- A wall stitched from lines of its inset and parity, the even ones all forwards; a closed
one may end with a copy of its first junction. -/
structure StitchedFrom (maxGap : F) (pieces : List (Piece (ExtrusionLine F)))
    (wall : ExtrusionLine F) : Prop where
  ne_nil : pieces ≠ []
  inset : ∀ piece ∈ pieces, piece.source.insetIdx = wall.insetIdx
  parity : ∀ piece ∈ pieces, piece.source.isOdd = wall.isOdd
  direction : wall.isOdd = false → ∀ piece ∈ pieces, piece.reversed = false
  spliced : ∃ chain, Spliced ExtrusionLine.junctions (Near maxGap) Same pieces chain ∧
    (wall.junctions = chain ∨
      wall.isClosed = true ∧ ∃ first, chain.head? = some first ∧ wall.junctions = chain ++ [first])

/-- The line at a place. -/
def lineAt (insetIdx : Nat) (lines : List (Candidate F)) (i : Nat) : ExtrusionLine F where
  junctions := junctionsOf lines i
  insetIdx
  isOdd := (lines[i]?.map Candidate.isOdd).getD false

theorem ChainFrom.stitchedFrom (h : ChainFrom maxGap lines pieces chain) {wall : ExtrusionLine F}
    {insetIdx : Nat} (hinset : wall.insetIdx = insetIdx) (hodd : wall.isOdd = chain.isOdd)
    (hjunctions : wall.junctions = chain.junctions ∨
      wall.isClosed = true ∧
        wall.junctions = chain.junctions ++ [chain.junctions.head chain.nonempty]) :
    StitchedFrom maxGap (pieces.map (Piece.map (lineAt insetIdx lines))) wall where
  ne_nil := by simpa using h.ne_nil
  inset := by
    intro piece hpiece
    obtain ⟨before, hbefore, rfl⟩ := List.mem_map.mp hpiece
    exact hinset.symm
  parity := by
    intro piece hpiece
    obtain ⟨before, hbefore, rfl⟩ := List.mem_map.mp hpiece
    obtain ⟨line, hline, hparity⟩ := h.parity before hbefore
    rw [hodd, ← hparity]
    simp [Piece.map, lineAt, hline]
  direction := by
    intro heven piece hpiece
    obtain ⟨before, hbefore, rfl⟩ := List.mem_map.mp hpiece
    exact h.direction (hodd ▸ heven) before hbefore
  spliced := by
    refine ⟨chain.junctions, h.spliced.map _ fun _ _ => rfl, hjunctions.imp_right ?_⟩
    rintro ⟨hclosed, hcopied⟩
    exact ⟨hclosed, _, List.head?_eq_some_head chain.nonempty, hcopied⟩

/-- A chain as a wall. -/
def wallOf (maxGap : F) (insetIdx : Nat) (chain : Chain F) : ExtrusionLine F :=
  if chain.closed then closeChain chain insetIdx maxGap else openChain chain insetIdx

theorem ChainFrom.stitchedFrom_wallOf (h : ChainFrom maxGap lines pieces chain) (insetIdx : Nat) :
    StitchedFrom maxGap (pieces.map (Piece.map (lineAt insetIdx lines)))
      (wallOf maxGap insetIdx chain) := by
  rw [wallOf]
  split_ifs with hclosed
  · refine h.stitchedFrom rfl rfl ?_
    rw [closeChain]
    split_ifs
    · exact .inr ⟨rfl, rfl⟩
    · exact .inl rfl
  · exact h.stitchedFrom rfl rfl (.inl rfl)

/-- The walls of a group are its chains, the open ones first. -/
theorem stitchGroup_eq {insetIdx : Nat} {group : List (Nat × Candidate F)}
    {chains : List (Chain F)} (hchains : stitchInset (group.map Prod.snd) maxGap = some chains) :
    ∃ ordered : List (Chain F), ordered.Perm chains ∧
      stitchGroup maxGap insetIdx group = some (ordered.map (wallOf maxGap insetIdx)) := by
  refine ⟨chains.filter (!·.closed) ++ chains.filter (·.closed), ?_, ?_⟩
  · refine List.perm_append_comm.trans ?_
    exact List.filter_append_perm (fun chain : Chain F => chain.closed) chains
  · rw [stitchGroup, hchains, Option.map_some, List.map_append]
    have hopen : (chains.filter (!·.closed)).map (openChain · insetIdx) =
        (chains.filter (!·.closed)).map (wallOf maxGap insetIdx) := by
      refine List.map_congr_left fun chain hchain => ?_
      rw [wallOf, if_neg]
      simpa using (List.mem_filter.mp hchain).2
    have hclosed : (chains.filter (·.closed)).map (closeChain · insetIdx maxGap) =
        (chains.filter (·.closed)).map (wallOf maxGap insetIdx) := by
      refine List.map_congr_left fun chain hchain => ?_
      rw [wallOf, if_pos (List.mem_filter.mp hchain).2]
    rw [hopen, hclosed]

omit [Field F] [Sqrt F] [LinearOrder F] in
/-- The lines of a group, by their places. -/
theorem map_lineAt_range (insetIdx : Nat) (lines : List (Candidate F)) :
    (List.range lines.length).map (lineAt insetIdx lines) =
      lines.map fun line => lineOf (insetIdx, line) := by
  refine List.ext_getElem (by simp) fun i hi _ => ?_
  have hi' : i < lines.length := by simpa using hi
  simp [lineAt, lineOf, junctionsOf, hi']

/-- The walls of one inset are stitched from its lines, each taken once. -/
theorem stitchGroup_conserves (maxGap : F) (insetIdx : Nat) (group : List (Nat × Candidate F)) :
    ∃ walls pieces, stitchGroup maxGap insetIdx group = some walls ∧
      List.Forall₂ (StitchedFrom maxGap) pieces walls ∧
      (pieces.flatten.map Piece.source).Perm
        (group.map fun row => lineOf (insetIdx, row.2)) := by
  obtain ⟨chains, done, hchains, hfrom, hperm⟩ :=
    stitchInset_conserves maxGap (group.map Prod.snd)
  obtain ⟨ordered, hordered, hwalls⟩ : ∃ ordered : List (Chain F), ordered.Perm chains ∧
      stitchGroup maxGap insetIdx group = some (ordered.map (wallOf maxGap insetIdx)) :=
    stitchGroup_eq hchains
  obtain ⟨done', hfrom', hdone⟩ := List.perm_comp_forall₂ hordered hfrom.flip
  set place := lineAt insetIdx (group.map Prod.snd)
  refine ⟨_, done'.map (List.map (Piece.map place)), hwalls, ?_, ?_⟩
  · rw [List.forall₂_map_left_iff, List.forall₂_map_right_iff]
    exact hfrom'.flip.imp fun _ _ hchain =>
      ChainFrom.stitchedFrom_wallOf hchain insetIdx
  · have hsources : ((done'.map (List.map (Piece.map place))).flatten.map Piece.source) =
        (done'.flatten.map Piece.source).map place := by
      rw [← List.map_flatten, List.map_map, List.map_map]
      rfl
    have hrows : (group.map Prod.snd).map (fun line => lineOf (insetIdx, line)) =
        group.map fun row => lineOf (insetIdx, row.2) := List.map_map
    have hplaces := ((hdone.flatten.map Piece.source).trans hperm).map place
    rw [map_lineAt_range, hrows] at hplaces
    rw [hsources]
    exact hplaces

/-! ### All lines -/

section

omit [Field F] [Sqrt F] [LinearOrder F]

theorem map_openLine (line : ExtrusionLine F) :
    (openLine line).map lineOf =
      if !(line.isClosed || line.junctions.length < 2) then some line else none := by
  rw [openLine]
  split_ifs with hopen hends hends
  · simp only [Option.map_some, lineOf, ← hopen.1]
  · have hshort := hopen.2
    simp [hopen.1] at hends
    omega
  · simp only [Bool.not_eq_true', Bool.or_eq_false_iff, decide_eq_false_iff_not, not_lt] at hends
    exact absurd hends hopen
  · rfl

/-- The lines with ends to join. -/
theorem map_filterMap_openLine (lines : List (ExtrusionLine F)) :
    (lines.filterMap openLine).map lineOf =
      lines.filter fun line => !(line.isClosed || line.junctions.length < 2) := by
  rw [List.map_filterMap, ← List.filterMap_eq_filter]
  exact List.filterMap_congr fun line _ => map_openLine line

end

/-- The open lines of each inset. -/
def openGroups (lines : List (ExtrusionLine F)) : List (Nat × List (Nat × Candidate F)) :=
  (BTreeMap.groupBy Prod.fst (lines.filterMap openLine)).toList

theorem stitchGroups_eq_some {walls : Nat × List (Nat × Candidate F) → List (ExtrusionLine F)}
    (hwalls : ∀ entry, stitchGroup maxGap entry.1 entry.2 = some (walls entry))
    (lines : List (ExtrusionLine F)) :
    stitchGroups lines maxGap = some ((openGroups lines).map walls).flatten := by
  rw [stitchGroups, ← openGroups, List.mapM_eq_some_map fun entry _ => hwalls entry]
  rfl

/-- Every line that has no ends to join is passed on, and every other one is part of exactly
one wall stitched from lines of its inset and parity. -/
theorem stitchExtrusions_conserves (lines : List (ExtrusionLine F)) (maxGap : F) :
    ∃ walls pieces,
      stitchExtrusions lines maxGap =
        some (lines.filter (fun line => line.isClosed || line.junctions.length < 2) ++ walls) ∧
      List.Forall₂ (StitchedFrom maxGap) pieces walls ∧
      (pieces.flatten.map Piece.source).Perm
        (lines.filter fun line => !(line.isClosed || line.junctions.length < 2)) := by
  choose walls pieces hwalls hfrom hperm using
    fun entry : Nat × List (Nat × Candidate F) => stitchGroup_conserves maxGap entry.1 entry.2
  set groups := openGroups lines with hgroups
  refine ⟨(groups.map walls).flatten, (groups.map pieces).flatten, ?_, ?_, ?_⟩
  · rw [stitchExtrusions, stitchGroups_eq_some hwalls]
    rfl
  · refine List.rel_flatten ?_
    rw [List.forall₂_map_left_iff, List.forall₂_map_right_iff, List.forall₂_same]
    exact fun entry _ => hfrom entry
  · -- group by group, and each group is the open lines of its inset
    have hgroup : ∀ entry ∈ groups,
        ((pieces entry).flatten.map Piece.source).Perm (entry.2.map lineOf) := by
      intro entry hentry
      refine (hperm entry).trans (.of_eq (List.map_congr_left fun row hrow => ?_))
      rw [BTreeMap.eq_filter_of_mem_groupBy hentry] at hrow
      have hkey : row.1 = entry.1 := of_decide_eq_true (List.mem_filter.mp hrow).2
      rw [← hkey]
    have hflatten : ((groups.map pieces).flatten.flatten.map Piece.source) =
        groups.flatMap fun entry => (pieces entry).flatten.map Piece.source := by
      rw [List.flatten_flatten, List.map_map, List.map_flatten, List.map_map]
      rfl
    have hvals : (groups.flatMap fun entry => entry.2.map lineOf) =
        (BTreeMap.vals (BTreeMap.groupBy Prod.fst (lines.filterMap openLine))).flatten.map
          lineOf := by
      rw [BTreeMap.vals, List.map_flatten, List.map_map]
      rfl
    rw [hflatten, ← map_filterMap_openLine]
    refine (List.Perm.flatMap_left groups hgroup).trans ?_
    rw [hvals]
    exact (BTreeMap.flatten_groupBy_perm Prod.fst (lines.filterMap openLine)).map lineOf

end Inset

end PinchNPrint.Walls
