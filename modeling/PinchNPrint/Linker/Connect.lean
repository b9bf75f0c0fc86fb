/-
Linking infill paths along the boundary
(`infill-linker`: `connect.rs`, `connect_infill`).

Every free end of a path is paired with its nearest compatible end on the same boundary
ring. The pairs are taken in the order of their distance; a pair is joined along the
contour, or each of its two ends is given a stub. A joined path lives in the lower of its
two slots, and the `merged_with` table leads from a slot that was emptied to the slot that
holds its path now.

`F` is the type of the numbers. What is measured or rounded on the boundary (the
projection of a point, the walk along a ring, the conversion to units, the remainder) is a
parameter, `Contour`. `none` stands for an index out of bounds or a loop that does not end.
-/

import Mathlib.Algebra.Field.Basic
import Mathlib.Algebra.Order.Group.Unbundled.Abs
import PinchNPrint.Layer.Ir
import PinchNPrint.Lib.Numerals
import PinchNPrint.Lib.OrderedForest
import PinchNPrint.Lib.Sequences

namespace PinchNPrint.Linker

open Layer OrderedForest

inductive RingDirection where
  | Forward
  | Backward
deriving DecidableEq

/-- `Point2`, in units. -/
structure Point2 where
  x : Int
  y : Int
deriving DecidableEq

structure BoundaryRing (F : Type) where
  polygon : List Point2
  posOfFirstPoint : F
  length : F
  polygonIndex : Nat := 0
  holeIndex : Option Nat := none
deriving DecidableEq

structure BoundaryPosition (F : Type) where
  ringIndex : Nat
  arcPosition : F
deriving DecidableEq

structure Endpoint (F : Type) where
  pathIndex : Nat
  atStart : Bool
  position : BoundaryPosition F
  point : F × F
deriving DecidableEq

structure Candidate (F : Type) where
  first : Endpoint F
  second : Endpoint F
  distance : F
deriving DecidableEq

structure AnchorParams (F : Type) where
  anchorLengthMm : F
  anchorLengthMaxMm : F
deriving DecidableEq

/-- What the linker takes of the boundary: `rem_euclid`, `mm_to_units`,
`boundary_position`, `contour_connector` and `contour_stub`. -/
structure Contour (F : Type) where
  remEuclid : F → F → F
  mmToUnits : F → F
  boundaryPosition : List (BoundaryRing F) → Point3WithWidth F → Option (BoundaryPosition F)
  contourConnector : BoundaryRing F → F → F → Point3WithWidth F → Point3WithWidth F →
    List (Point3WithWidth F)
  contourStub : BoundaryRing F → F → RingDirection → F → Point3WithWidth F →
    List (Point3WithWidth F)

variable {F : Type} [Field F] [LinearOrder F]

/-- `AnchorParams::dont_connect`. -/
def AnchorParams.dontConnect (anchor : AnchorParams F) : Bool :=
  anchor.anchorLengthMaxMm < 1 / 20

/-- An anchor length in units; a length that is not positive counts as zero. -/
def lengthUnits (contour : Contour F) (mm : F) : F :=
  if 0 < mm then contour.mmToUnits mm else 0

/-! ### Rings -/

section Rings

variable (contour : Contour F) (ring : BoundaryRing F)

/-- `BoundaryRing::local_position`. -/
def localPosition (position : F) : F :=
  if ring.length = 0 then 0
  else contour.remEuclid (position - ring.posOfFirstPoint) ring.length

/-- `BoundaryRing::directed_distance`. -/
def directedDistance (start stop : F) : F × RingDirection :=
  if ring.length = 0 then (0, .Forward)
  else
    let start := localPosition contour ring start
    let stop := localPosition contour ring stop
    let forward := contour.remEuclid (stop - start) ring.length
    let backward := contour.remEuclid (start - stop) ring.length
    if forward ≤ backward then (forward, .Forward) else (backward, .Backward)

def oppositeDirection : RingDirection → RingDirection
  | .Forward => .Backward
  | .Backward => .Forward

/-- `stub_budget`: a stub stops short of the next endpoint on the ring. -/
def stubBudget (start : F) (direction : RingDirection) (requested : F)
    (boundaryPositions : List F) : F :=
  if ring.length ≤ 0 then requested
  else
    let start := localPosition contour ring start
    let ahead := boundaryPositions.filterMap fun position =>
      let position := localPosition contour ring position
      let distance := match direction with
        | .Forward => contour.remEuclid (position - start) ring.length
        | .Backward => contour.remEuclid (start - position) ring.length
      if 0 < distance then some distance else none
    match minBy compare ahead with
    | none => requested
    | some next => min requested next

end Rings

/-! ### Candidates -/

def endpointOrder (left right : Endpoint F) : Ordering :=
  ((compare left.position.arcPosition right.position.arcPosition).then
    (compare left.pathIndex right.pathIndex)).then (compare left.atStart right.atStart)

def endpointWidthsCompatible (first second : ExtrusionPath3D F) : Bool :=
  match first.points.head?, first.points.getLast?, second.points.head?,
      second.points.getLast? with
  | some firstStart, some firstEnd, some secondStart, some secondEnd =>
    |firstStart.width - secondStart.width| ≤ 1 / 1000000 &&
      |firstEnd.width - secondEnd.width| ≤ 1 / 1000000
  | _, _, _, _ => false

def compatiblePaths (active : List (Option (ExtrusionPath3D F))) (firstIndex secondIndex : Nat) :
    Bool :=
  match active[firstIndex]?, active[secondIndex]? with
  | some (some first), some (some second) =>
    first.role = second.role && first.speedFactor = second.speedFactor &&
      first.toolIndex = second.toolIndex && endpointWidthsCompatible first second
  | _, _ => false

section Candidates

variable (contour : Contour F) (rings : List (BoundaryRing F))

/-- The ends of the path at `pathIndex` that lie on the boundary. -/
def endpointsOf (pathIndex : Nat) (path : Option (ExtrusionPath3D F)) : List (Endpoint F) :=
  match path with
  | none => []
  | some path =>
    match path.points.head?, path.points.getLast? with
    | some head, some tail =>
      let first := (contour.boundaryPosition rings head).map fun position =>
        { pathIndex, atStart := true, position, point := (head.x, head.y) : Endpoint F }
      let last := (contour.boundaryPosition rings tail).map fun position =>
        { pathIndex, atStart := false, position, point := (tail.x, tail.y) : Endpoint F }
      first.toList ++ last.toList
    | _, _ => []

/-- The endpoints of all paths, in `endpoint_order`. -/
def boundaryEndpoints (active : List (Option (ExtrusionPath3D F))) : List (Endpoint F) :=
  (active.zipIdx.flatMap fun entry => endpointsOf contour rings entry.2 entry.1).mergeSort
    fun left right => (endpointOrder left right).isLE

/-- The nearest endpoint that `endpoint` may be joined to, with its distance. -/
def nearestEndpoint (active : List (Option (ExtrusionPath3D F))) (endpoints : List (Endpoint F))
    (endpoint : Endpoint F) : Option (Endpoint F × F) :=
  let others := endpoints.filter fun other =>
    other.pathIndex ≠ endpoint.pathIndex &&
      compatiblePaths active endpoint.pathIndex other.pathIndex &&
      other.position.ringIndex = endpoint.position.ringIndex
  minBy (fun left right => (compare left.2 right.2).then (endpointOrder left.1 right.1))
    (others.filterMap fun other =>
      rings[endpoint.position.ringIndex]?.map fun ring =>
        (other, (directedDistance contour ring endpoint.position.arcPosition
          other.position.arcPosition).1))

def nearestPairCandidates (active : List (Option (ExtrusionPath3D F))) : List (Candidate F) :=
  let endpoints := boundaryEndpoints contour rings active
  endpoints.filterMap fun endpoint =>
    (nearestEndpoint contour rings active endpoints endpoint).map fun best =>
      { first := endpoint, second := best.1, distance := best.2 }

/-- The order in which the candidates are taken. -/
def candidateOrder (left right : Candidate F) : Ordering :=
  ((compare left.distance right.distance).then (endpointOrder left.first right.first)).then
    (endpointOrder left.second right.second)

/-- The positions that the candidates name on each ring, sorted. -/
def boundaryPositions (candidates : List (Candidate F)) : List (List F) :=
  (List.range rings.length).map fun ring =>
    (((candidates.flatMap fun candidate => [candidate.first, candidate.second]).filter
      fun endpoint => endpoint.position.ringIndex = ring).map
        (·.position.arcPosition)).mergeSort fun left right => left ≤ right

end Candidates

/-! ### Joining -/

/-- The state of the loop over the candidates. `joins` is a record of the joins made,
which the source does not keep. -/
structure LinkState (F : Type) where
  active : List (Option (ExtrusionPath3D F))
  consumed : List (Bool × Bool)
  mergedWith : List Nat
  joins : List (Candidate F) := []
deriving DecidableEq

/-- `endpoint_consumed`: slot 0 is the start of a path, slot 1 its end. -/
def endpointConsumed (consumed : List (Bool × Bool)) (endpoint : Endpoint F) : Option Bool :=
  consumed[endpoint.pathIndex]?.map fun slots => if endpoint.atStart then slots.1 else slots.2

def markEndpointConsumed (consumed : List (Bool × Bool)) (endpoint : Endpoint F) :
    Option (List (Bool × Bool)) :=
  consumed[endpoint.pathIndex]?.map fun slots =>
    consumed.set endpoint.pathIndex
      (if endpoint.atStart then (true, slots.2) else (slots.1, true))

/-- `merged_representative`: the slot that holds the path of `pathIndex` now, and the table
with `pathIndex` redirected to it. -/
def mergedRepresentative (mergedWith : List Nat) (pathIndex : Nat) : Option (Nat × List Nat) :=
  (chase mergedWith mergedWith.length pathIndex).map fun last => (last, mergedWith.set pathIndex last)

/-- `endpoint_side`: which end of the path carries the point. -/
def endpointSide (path : ExtrusionPath3D F) (point : F × F) : Option Bool :=
  let carries (candidate : Point3WithWidth F) : Bool :=
    candidate.x = point.1 && candidate.y = point.2
  if path.points.getLast?.any carries then some false
  else if path.points.head?.any carries then some true
  else none

/-- `path.points.reverse()`. -/
def reversePoints (path : ExtrusionPath3D F) : ExtrusionPath3D F :=
  { path with points := path.points.reverse }

section Joining

variable (contour : Contour F)

/-- Two oriented paths joined along the contour; the attributes are the first path's. -/
def joinPaths (ring : BoundaryRing F) (candidate : Candidate F)
    (first second : ExtrusionPath3D F) : ExtrusionPath3D F :=
  let connector := match first.points.getLast?, second.points.head? with
    | some start, some stop =>
      contour.contourConnector ring candidate.first.position.arcPosition
        candidate.second.position.arcPosition start stop
    | _, _ => []
  { first with points := first.points ++ connector ++ second.points }

/-- Two oriented paths, each with a stub along the contour. -/
def anchorPaths (ring : BoundaryRing F) (candidate : Candidate F) (anchorLengthUnits : F)
    (firstPositions secondPositions : List F) (first second : ExtrusionPath3D F) :
    ExtrusionPath3D F × ExtrusionPath3D F :=
  let firstArc := candidate.first.position.arcPosition
  let secondArc := candidate.second.position.arcPosition
  let direction := (directedDistance contour ring firstArc secondArc).2
  match first.points.getLast?, second.points.head? with
  | some firstAnchor, some secondAnchor =>
    let firstBudget := stubBudget contour ring firstArc direction anchorLengthUnits firstPositions
    let secondBudget := stubBudget contour ring secondArc (oppositeDirection direction)
      anchorLengthUnits secondPositions
    let firstStub := contour.contourStub ring firstArc direction firstBudget firstAnchor
    let secondStub := contour.contourStub ring secondArc (oppositeDirection direction)
      secondBudget secondAnchor
    ({ first with points := first.points ++ firstStub },
      { second with points := secondStub.reverse ++ second.points })
  | _, _ => (first, second)

variable (rings : List (BoundaryRing F)) (anchorLengthUnits anchorLengthMaxUnits : F)
  (positions : List (List F))

/-- The two paths of a candidate are out of their slots and both carry the endpoint that
the candidate names. -/
def splicePaths (ring : BoundaryRing F) (candidate : Candidate F) (st : LinkState F)
    (firstIndex secondIndex : Nat) (first second : ExtrusionPath3D F)
    (firstAtStart secondAtStart : Bool) : Option (LinkState F) := do
  let consumed ← markEndpointConsumed st.consumed candidate.first
  let consumed ← markEndpointConsumed consumed candidate.second
  -- The joined end becomes the last point of `first` and the first point of `second`.
  let orientedFirst := if firstAtStart then reversePoints first else first
  let orientedSecond := if secondAtStart then second else reversePoints second
  if candidate.distance < anchorLengthMaxUnits then
    let lower := min firstIndex secondIndex
    let upper := max firstIndex secondIndex
    let emptied := (st.active.set firstIndex none).set secondIndex none
    return {
      active := emptied.set lower
        (some (joinPaths contour ring candidate orientedFirst orientedSecond))
      consumed
      mergedWith := st.mergedWith.set upper lower
      joins := st.joins ++ [candidate] }
  else if 0 < anchorLengthUnits then
    let firstPositions ← positions[candidate.first.position.ringIndex]?
    let secondPositions ← positions[candidate.second.position.ringIndex]?
    let anchored := anchorPaths contour ring candidate anchorLengthUnits firstPositions
      secondPositions orientedFirst orientedSecond
    return { st with
      active := (st.active.set firstIndex (some anchored.1)).set secondIndex (some anchored.2)
      consumed }
  else
    return { st with
      active := (st.active.set firstIndex (some first)).set secondIndex (some second)
      consumed }

/-- The body of the loop over the candidates. -/
def linkCandidate (st : LinkState F) (candidate : Candidate F) : Option (LinkState F) := do
  if ← endpointConsumed st.consumed candidate.first then
    return st
  if ← endpointConsumed st.consumed candidate.second then
    return st
  match (rings[candidate.first.position.ringIndex]?).filter fun _ =>
      candidate.first.position.ringIndex = candidate.second.position.ringIndex with
  | none => return st
  | some ring =>
    let (firstIndex, mergedWith) ←
      mergedRepresentative st.mergedWith candidate.first.pathIndex
    let (secondIndex, mergedWith) ←
      mergedRepresentative mergedWith candidate.second.pathIndex
    let st := { st with mergedWith }
    if firstIndex = secondIndex then
      return st
    match ← st.active[firstIndex]?, ← st.active[secondIndex]? with
    | some first, some second =>
      match endpointSide first candidate.first.point,
          endpointSide second candidate.second.point with
      | some firstAtStart, some secondAtStart =>
        splicePaths contour anchorLengthUnits anchorLengthMaxUnits positions ring candidate st
          firstIndex secondIndex first second firstAtStart secondAtStart
      | _, _ => return st
    | _, _ => return st

end Joining

/-- The paths that take part in linking. -/
def activePaths (paths : List (ExtrusionPath3D F)) : List (Option (ExtrusionPath3D F)) :=
  (paths.filter fun path => 2 ≤ path.points.length).map some

/-- `connect_infill`, from the filtered paths to the end of the loop over the candidates. -/
def linkPaths (contour : Contour F) (rings : List (BoundaryRing F)) (anchor : AnchorParams F)
    (paths : List (ExtrusionPath3D F)) : Option (LinkState F) :=
  let active := activePaths paths
  let candidates := (nearestPairCandidates contour rings active).mergeSort fun left right =>
    (candidateOrder left right).isLE
  candidates.foldlM
    (linkCandidate contour rings (lengthUnits contour anchor.anchorLengthMm)
      (lengthUnits contour anchor.anchorLengthMaxMm) (boundaryPositions rings candidates))
    { active
      consumed := List.replicate active.length (false, false)
      mergedWith := List.range active.length }

def connectInfill (contour : Contour F) (rings : List (BoundaryRing F)) (anchor : AnchorParams F)
    (paths : List (ExtrusionPath3D F)) : Option (List (ExtrusionPath3D F)) :=
  if anchor.dontConnect then some paths
  else (linkPaths contour rings anchor paths).map fun st => st.active.filterMap id

end PinchNPrint.Linker
