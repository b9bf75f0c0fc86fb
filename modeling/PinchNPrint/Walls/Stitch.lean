/-
Arachne's open lines stitched into walls (`slicer-core`: `arachne/stitch.rs`).

The nested loops of `stitch_inset` are one machine here: a `Stitcher` has the flags of the
lines, the next seed, the chain under way and the chains put out, and `step` is one turn of
the innermost loop it is in. A walk keeps that its chain is not empty, a candidate that it has
two junctions, so the `expect`s of the source have nothing to refuse.

Coordinates are the elements of an ordered field; distances are the square roots of the host.
-/

import PinchNPrint.GCode.Command
import PinchNPrint.Lib.Grouping

namespace PinchNPrint.Walls

open PinchNPrint.GCode (Sqrt sqrt)
open PinchNPrint.Layer (Point3WithWidth)

structure ExtrusionJunction (F : Type) where
  p : Point3WithWidth F
  perimeterIndex : Nat := 0
deriving DecidableEq

structure ExtrusionLine (F : Type) where
  junctions : List (ExtrusionJunction F)
  insetIdx : Nat
  isOdd : Bool := false
  isClosed : Bool := false
deriving DecidableEq

/-- `Candidate`: an open line under stitching. -/
structure Candidate (F : Type) where
  junctions : List (ExtrusionJunction F)
  isOdd : Bool
  two_le : 2 ≤ junctions.length

structure Chain (F : Type) where
  junctions : List (ExtrusionJunction F)
  isOdd : Bool
  closed : Bool
  nonempty : junctions ≠ []

/-- What a seed has grown to, in one of the two directions. -/
structure Walk (F : Type) where
  chain : List (ExtrusionJunction F)
  isOdd : Bool
  shouldClose : Bool
  goInReverseDirection : Bool
  nonempty : chain ≠ []

/-- An end point the walk may go on with. -/
structure Offer (F : Type) where
  candidate : Nat
  line : Candidate F
  atLast : Bool
  segmentDist : F
  isClosingSegment : Bool
  dist : F

theorem Candidate.nonempty {F : Type} (line : Candidate F) : line.junctions ≠ [] := by
  intro hnil
  have hlong := line.two_le
  simp [hnil] at hlong

/-- The first or the last junction of a candidate. -/
def Candidate.point {F : Type} (line : Candidate F) (atLast : Bool) : ExtrusionJunction F :=
  if atLast then line.junctions.getLast line.nonempty else line.junctions.head line.nonempty

namespace Walk

variable {F : Type}

def back (walk : Walk F) : ExtrusionJunction F :=
  walk.chain.getLast walk.nonempty

def front (walk : Walk F) : ExtrusionJunction F :=
  walk.chain.head walk.nonempty

/-- The chain seen from its other end. -/
def turn (walk : Walk F) : Walk F :=
  { walk with
    chain := walk.chain.reverse
    goInReverseDirection := true
    nonempty := by simpa using walk.nonempty }

/-- The chain of a walk that found no next line in either direction. -/
def leave (walk : Walk F) : Chain F where
  junctions := if walk.isOdd then walk.chain else walk.chain.reverse
  isOdd := walk.isOdd
  closed := false
  nonempty := by
    split_ifs
    · exact walk.nonempty
    · simpa using walk.nonempty

/-- The chain of a walk that came back to its front. -/
def close (walk : Walk F) : Chain F where
  junctions := if walk.goInReverseDirection then walk.chain.reverse else walk.chain
  isOdd := walk.isOdd
  closed := true
  nonempty := by
    split_ifs
    · simpa using walk.nonempty
    · exact walk.nonempty

end Walk

variable {F : Type} [Field F]

def SNAP_DISTANCE_MM : F :=
  1 / 100

def CLOSING_BIAS_MM : F :=
  1 / 100

def distSqXy (a b : Point3WithWidth F) : F :=
  let dx := a.x - b.x
  let dy := a.y - b.y
  dx * dx + dy * dy

variable [Sqrt F]

def distXy (a b : Point3WithWidth F) : F :=
  sqrt (distSqXy a b)

def polylineLength : List (ExtrusionJunction F) → F
  | a :: b :: rest => distXy a.p b.p + polylineLength (b :: rest)
  | _ => 0

variable [LinearOrder F]

/-! ### The next line -/

/-- The inner loop's body up to the comparison: what an end point of a candidate offers to
the walk, if the gates let it. -/
def offer (maxGap : F) (processed : List Bool) (walk : Walk F) (candidate : Nat)
    (line : Candidate F) (atLast : Bool) : Option (Offer F) :=
  let p := (line.point atLast).p
  let raw := distXy walk.back.p p
  let isClosingSegment : Bool := distSqXy p walk.front.p < SNAP_DISTANCE_MM * SNAP_DISTANCE_MM
  if maxGap < raw then none
  else if isClosingSegment ∧
      (polylineLength walk.chain + raw < 3 * maxGap ∨ walk.chain.length ≤ 2) then none
  else if ¬ isClosingSegment ∧ processed.getD candidate false then none
  else if ¬ line.isOdd ∧ atLast ≠ walk.goInReverseDirection then none
  else if walk.isOdd ≠ line.isOdd then none
  else
    let dist := if isClosingSegment then
        if walk.shouldClose then raw - CLOSING_BIAS_MM else raw + CLOSING_BIAS_MM
      else raw
    some { candidate, line, atLast, segmentDist := raw, isClosingSegment, dist }

/-- The nearest of the offers; one that is near enough ends the search. -/
def closest {α : Type} (offer : α → Option (Offer F)) :
    Option (Offer F) → List α → Option (Offer F)
  | best, [] => best
  | best, point :: rest =>
      match offer point with
      | none => closest offer best rest
      | some new =>
          let best := if best.all (new.dist < ·.dist) then some new else best
          if new.dist < SNAP_DISTANCE_MM then best else closest offer best rest

/-- The end points of all candidates, in line order. -/
def endPoints (lines : List (Candidate F)) : List (Nat × Candidate F × Bool) :=
  lines.zipIdx.flatMap fun row => [(row.2, row.1, false), (row.2, row.1, true)]

/-- The search for the next line. -/
def search (maxGap : F) (lines : List (Candidate F)) (processed : List Bool) (walk : Walk F) :
    Option (Offer F) :=
  closest (fun point => offer maxGap processed walk point.1 point.2.1 point.2.2) none
    (endPoints lines)

/-- The chain extended by a line, which loses the end that repeats the chain's own. -/
def Walk.absorb (walk : Walk F) (next : Offer F) : Walk F :=
  let snapped := next.segmentDist < SNAP_DISTANCE_MM
  let junctions := next.line.junctions
  { walk with
    chain := walk.chain ++
      if next.atLast then (if snapped then junctions.dropLast else junctions).reverse
      else if snapped then junctions.tail
      else junctions
    shouldClose := walk.shouldClose && !next.line.isOdd
    nonempty := by simp [walk.nonempty] }

/-! ### One inset -/

/-- The state of `stitch_inset`. -/
structure Stitcher (F : Type) where
  processed : List Bool
  seed : Nat
  walk : Option (Walk F)
  out : List (Chain F)

/-- A seed's chain at the outset. -/
def Candidate.seedWalk (line : Candidate F) : Walk F where
  chain := line.junctions
  isOdd := line.isOdd
  shouldClose := line.isOdd
  goInReverseDirection := false
  nonempty := line.nonempty

/-- One turn of the loops of `stitch_inset`; `none` when they are over. -/
def step (maxGap : F) (lines : List (Candidate F)) (self : Stitcher F) : Option (Stitcher F) :=
  match self.walk with
  | none =>
      lines[self.seed]?.map fun line =>
        if self.processed.getD self.seed false then { self with seed := self.seed + 1 }
        else
          { self with
            processed := self.processed.set self.seed true
            seed := self.seed + 1
            walk := some line.seedWalk }
  | some walk =>
      match search maxGap lines self.processed walk with
      | none =>
          if walk.goInReverseDirection then
            some { self with walk := none, out := self.out ++ [walk.leave] }
          else some { self with walk := some walk.turn }
      | some next =>
          if next.isClosingSegment then
            some { self with walk := none, out := self.out ++ [walk.close] }
          else
            some
              { self with
                processed := self.processed.set next.candidate true
                walk := some (walk.absorb next) }

/-- Step on until the loops are over; `none` when the fuel is. -/
def run (maxGap : F) (lines : List (Candidate F)) : Nat → Stitcher F → Option (Stitcher F)
  | 0, _ => none
  | fuel + 1, self =>
      match step maxGap lines self with
      | none => some self
      | some next => run maxGap lines fuel next

/-- The state at the outset. -/
def Stitcher.start (lines : List (Candidate F)) : Stitcher F where
  processed := List.replicate lines.length false
  seed := 0
  walk := none
  out := []

/-- `stitch_inset`. A line is a seed or absorbed once, and a seed is turned and left once. -/
def stitchInset (lines : List (Candidate F)) (maxGap : F) : Option (List (Chain F)) :=
  (run maxGap lines (4 * lines.length + 1) (.start lines)).map Stitcher.out

/-! ### All insets -/

def closeChain (chain : Chain F) (insetIdx : Nat) (maxGap : F) : ExtrusionLine F :=
  let start := chain.junctions.head chain.nonempty
  let stop := chain.junctions.getLast chain.nonempty
  let differs := start.p.x ≠ stop.p.x ∨ start.p.y ≠ stop.p.y
  { junctions := if differs ∧ distXy stop.p start.p < maxGap then chain.junctions ++ [start]
      else chain.junctions
    insetIdx
    isOdd := chain.isOdd
    isClosed := true }

/-- An open chain as a line. -/
def openChain (chain : Chain F) (insetIdx : Nat) : ExtrusionLine F where
  junctions := chain.junctions
  insetIdx
  isOdd := chain.isOdd
  isClosed := false

/-- A line with ends to join, and its inset. -/
def openLine (line : ExtrusionLine F) : Option (Nat × Candidate F) :=
  if h : line.isClosed = false ∧ 2 ≤ line.junctions.length then
    some (line.insetIdx, { junctions := line.junctions, isOdd := line.isOdd, two_le := h.2 })
  else none

/-- The walls of one inset: the open ones before the closed ones. -/
def stitchGroup (maxGap : F) (insetIdx : Nat) (group : List (Nat × Candidate F)) :
    Option (List (ExtrusionLine F)) :=
  (stitchInset (group.map Prod.snd) maxGap).map fun chains =>
    (chains.filter (!·.closed)).map (openChain · insetIdx) ++
      (chains.filter (·.closed)).map (closeChain · insetIdx maxGap)

/-- The walls of all insets, from the outermost. -/
def stitchGroups (lines : List (ExtrusionLine F)) (maxGap : F) :
    Option (List (ExtrusionLine F)) :=
  ((BTreeMap.groupBy Prod.fst (lines.filterMap openLine)).toList.mapM fun entry =>
    stitchGroup maxGap entry.1 entry.2).map List.flatten

/-- `stitch_extrusions`: what has no ends to join is passed through. -/
def stitchExtrusions (lines : List (ExtrusionLine F)) (maxGap : F) :
    Option (List (ExtrusionLine F)) :=
  (stitchGroups lines maxGap).map fun stitched =>
    lines.filter (fun line => line.isClosed || line.junctions.length < 2) ++ stitched

end PinchNPrint.Walls
