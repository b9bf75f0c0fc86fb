/-
The loops of a sliced layer (`slicer-core`: `triangle_mesh_slicer.rs`).

`makeLoops` walks the intersection lines over the mesh topology, keeps a walk that
does not come back to its start as an open polyline, and joins the open polylines in
four further passes: two by the topology of their ends, two by distance.

A chain carries its `steps`, which no function reads: the lines it runs along and the
chords between them. Loops are kept as they were chained, and simplified at the end.
Coordinates are 64-bit integers that wrap, as in the release profile. `none` is a panic.
-/

import PinchNPrint.GCode.Command
import PinchNPrint.Region.Ir
import Mathlib.Data.Sym.Sym2

namespace PinchNPrint.Mesh

open GCode (Sqrt sqrt)
open Region (Point2)

/-! ### Lines, steps and chains -/

inductive EndpointTopology where
  | Vertex (id : ℤ)
  | Edge (key : Nat)
deriving DecidableEq

structure IntersectionLine where
  a : Point2
  b : Point2
  aTopology : EndpointTopology
  bTopology : EndpointTopology
deriving DecidableEq

/-- How a chain gets from one point to the next. -/
inductive Step where
  /-- Along the line at `index`, from its end `a` if `forward`. -/
  | line (index : Nat) (forward : Bool)
  /-- Over the chord between two polylines that an exact pass joined. -/
  | joined
  /-- Over the chord between two polylines that a gap pass joined. -/
  | bridged
  /-- Over the chord that closes a loop in a gap pass. -/
  | closing
deriving DecidableEq

/-- The same step the other way. -/
def Step.flip : Step → Step
  | .line index forward => .line index (!forward)
  | chord => chord

/-- The steps of the reversed chain. -/
def reverseSteps (steps : List Step) : List Step :=
  (steps.map Step.flip).reverse

/-- A closed chain: its last step leads back to the first point. -/
structure ClosedChain where
  points : List Point2
  steps : List Step
deriving DecidableEq

/-- `points.reverse()`: the reversed chain begins at what was the last point. -/
def ClosedChain.reverse (chain : ClosedChain) : ClosedChain where
  points := chain.points.reverse
  steps := (reverseSteps chain.steps).rotate 1

structure OpenPolyline (F : Type) where
  startTopo : EndpointTopology
  endTopo : EndpointTopology
  points : List Point2
  length : F
  consumed : Bool
  steps : List Step

/-- What the passes work on. A closed chain with fewer than three points is dropped;
`shortLoops` takes these down. -/
structure Chains (F : Type) where
  loops : List ClosedChain := []
  openPolylines : List (OpenPolyline F) := []
  shortLoops : List ClosedChain := []

/-- `if points.len() >= 3 { loops.push(..) }`. -/
def Chains.pushLoop {F : Type} (chains : Chains F) (chain : ClosedChain) : Chains F :=
  if 3 ≤ chain.points.length then { chains with loops := chains.loops ++ [chain] }
  else { chains with shortLoops := chains.shortLoops ++ [chain] }

/-- Change the polyline at `index`. -/
def Chains.update {F : Type} (chains : Chains F) (index : Nat)
    (f : OpenPolyline F → OpenPolyline F) : Chains F :=
  { chains with openPolylines := chains.openPolylines.modify index f }

/-- `points.clear()`. -/
def OpenPolyline.clear {F : Type} (polyline : OpenPolyline F) : OpenPolyline F :=
  { polyline with points := [], steps := [] }

/-! ### Arithmetic -/

/-- A 64-bit integer. -/
def wrapI64 (n : ℤ) : ℤ :=
  n.bmod (2 ^ 64)

/-- `(p.x - q.x).pow(2) + (p.y - q.y).pow(2)`. -/
def distance2 (p q : Point2) : ℤ :=
  wrapI64 ((p.x - q.x) ^ 2 + (p.y - q.y) ^ 2)

section Measures

variable {F : Type} [Field F]

def polylineLength [Sqrt F] : List Point2 → F
  | p :: q :: rest =>
    let dx : F := (wrapI64 (q.x - p.x) : ℤ)
    let dy : F := (wrapI64 (q.y - p.y) : ℤ)
    sqrt (dx * dx + dy * dy) + polylineLength (q :: rest)
  | _ => 0

def signedArea (points : List Point2) : F :=
  if points.length < 3 then 0
  else
    ((points.zip (points.rotate 1)).map fun (p, q) =>
      (p.x : F) * (q.y : F) - (q.x : F) * (p.y : F)).sum / 2

end Measures

def isCollinear (a b c : Point2) : Bool :=
  wrapI64 ((b.x - a.x) * (c.y - b.y) - (b.y - a.y) * (c.x - b.x)) == 0

/-- The first point on the line through its neighbours. -/
def firstCollinear (points : List Point2) : Option Nat :=
  let neighbours := (points.rotate (points.length - 1)).zip (points.zip (points.rotate 1))
  neighbours.findIdx? fun (previous, current, next) => isCollinear previous current next

variable {index : Nat} {used : List Bool}

theorem length_eraseIdx_firstCollinear {points : List Point2}
    (h : firstCollinear points = some index) : (points.eraseIdx index).length < points.length := by
  obtain ⟨hlt, _⟩ := List.findIdx?_eq_some_iff_getElem.mp h
  simp only [List.length_zip, List.length_rotate] at hlt
  have hindex : index < points.length := by omega
  rw [List.length_eraseIdx_of_lt hindex]
  omega

def simplifyPolygonPoints (points : List Point2) : List Point2 :=
  if points.length < 3 then points
  else
    match _h : firstCollinear points with
    | none => points
    | some index => simplifyPolygonPoints (points.eraseIdx index)
termination_by points.length
decreasing_by exact length_eraseIdx_firstCollinear _h

/-! ### The walk over the lines -/

/-- The key of `dedup_lines`: the two ends, in either order. -/
def lineKey (line : IntersectionLine) : Sym2 (Point2 × EndpointTopology) :=
  s((line.a, line.aTopology), (line.b, line.bTopology))

/-- The lines whose key is not seen before. -/
def dedupFrom (seen : List (Sym2 (Point2 × EndpointTopology))) :
    List IntersectionLine → List IntersectionLine
  | [] => []
  | line :: rest =>
    if lineKey line ∈ seen then dedupFrom seen rest
    else line :: dedupFrom (lineKey line :: seen) rest

def dedupLines (lines : List IntersectionLine) : List IntersectionLine :=
  dedupFrom [] lines

/-- An entry of `by_topo`: a line, its index, and whether it is met at its end `a`. -/
structure LineEnd where
  line : IntersectionLine
  index : Nat
  isA : Bool

/-- The other end of the line. -/
def LineEnd.far (lineEnd : LineEnd) : Point2 × EndpointTopology :=
  if lineEnd.isA then (lineEnd.line.b, lineEnd.line.bTopology)
  else (lineEnd.line.a, lineEnd.line.aTopology)

/-- `by_topo.get(topo)`. -/
def byTopo (lines : List IntersectionLine) (topo : EndpointTopology) : List LineEnd :=
  lines.zipIdx.flatMap fun (line, index) =>
    (if line.aTopology = topo then [⟨line, index, true⟩] else []) ++
      (if line.bTopology = topo then [⟨line, index, false⟩] else [])

/-- `used[index]`. -/
def isUsed (used : List Bool) (index : Nat) : Bool :=
  used[index]?.getD true

/-- The first line at `topo` that is not used. -/
def nextLine (lines : List IntersectionLine) (used : List Bool) (topo : EndpointTopology) :
    Option LineEnd :=
  (byTopo lines topo).find? fun lineEnd => !isUsed used lineEnd.index

/-- A walk at its end. -/
structure Walk where
  used : List Bool
  points : List Point2
  steps : List Step
  endTopo : EndpointTopology
  closed : Bool

theorem getElem?_of_isUsed (h : isUsed used index = false) : used[index]? = some false := by
  rw [isUsed] at h
  cases hused : used[index]? with
  | none => rw [hused] at h; exact absurd h (by decide)
  | some flag => rw [hused] at h; exact congrArg some h

theorem isUsed_of_nextLine {lines : List IntersectionLine} {topo : EndpointTopology}
    {next : LineEnd} (h : nextLine lines used topo = some next) :
    isUsed used next.index = false := by
  simpa using List.find?_some h

theorem count_set_used (h : isUsed used index = false) :
    (used.set index true).count false < used.count false := by
  have hget := getElem?_of_isUsed h
  obtain ⟨hlt, hval⟩ := List.getElem?_eq_some_iff.mp hget
  have hpos : 0 < used.count false := List.count_pos_iff.mpr (List.mem_of_getElem? hget)
  rw [List.count_set hlt, hval]
  simp only [beq_self_eq_true, if_true]
  simpa using hpos

/-- The loop of `chain_lines_by_triangle_connectivity` from `endTopo` on. -/
def extendWalk (lines : List IntersectionLine) (startTopo : EndpointTopology) (used : List Bool)
    (points : List Point2) (steps : List Step) (endTopo : EndpointTopology) : Walk :=
  match h : nextLine lines used endTopo with
  | none => { used, points, steps, endTopo, closed := decide (endTopo = startTopo) }
  | some next =>
    let used' := used.set next.index true
    let points' := points ++ [next.far.1]
    let steps' := steps ++ [.line next.index next.isA]
    if next.far.2 = startTopo then
      { used := used', points := points', steps := steps', endTopo := next.far.2, closed := true }
    else extendWalk lines startTopo used' points' steps' next.far.2
termination_by used.count false
decreasing_by exact count_set_used (isUsed_of_nextLine h)

/-! ### The passes -/

section Passes

variable {F : Type} [Field F] [LinearOrder F] [Sqrt F]

/-- The walk from one seed, if no walk has used it. -/
def chainSeed (lines : List IntersectionLine) (state : List Bool × Chains F)
    (seed : IntersectionLine × Nat) : List Bool × Chains F :=
  let (used, chains) := state
  let (line, index) := seed
  if isUsed used index then state
  else
    let walk := extendWalk lines line.aTopology (used.set index true) [line.a, line.b]
      [.line index true] line.bTopology
    if walk.closed then
      (walk.used, chains.pushLoop ⟨walk.points.dropLast, walk.steps⟩)
    else
      let polyline : OpenPolyline F :=
        { startTopo := line.aTopology
          endTopo := walk.endTopo
          points := walk.points
          length := polylineLength walk.points
          consumed := false
          steps := walk.steps }
      (walk.used, { chains with openPolylines := chains.openPolylines ++ [polyline] })

def chainLinesByTriangleConnectivity (lines : List IntersectionLine) : Chains F :=
  (lines.zipIdx.foldl (chainSeed lines) (List.replicate lines.length false, {})).2

omit [Field F] [LinearOrder F] [Sqrt F] in
def findExactMatch (polylines : List (OpenPolyline F)) (endTopo : EndpointTopology)
    (tryReversed : Bool) (exclude : Nat) : Option (Nat × Bool) :=
  polylines.zipIdx.findSome? fun (polyline, i) =>
    if i = exclude ∨ polyline.consumed then none
    else if polyline.startTopo = endTopo then some (i, true)
    else if tryReversed ∧ polyline.endTopo = endTopo then some (i, false)
    else none

/-- The polyline with `other` behind it. The first point of `other` is left out where it
is the last one of the polyline; otherwise a chord leads to it. -/
def OpenPolyline.append (polyline other : OpenPolyline F) (isStart : Bool) (chord : Step)
    (length : F) : Option (OpenPolyline F) :=
  polyline.points.getLast?.map fun tail =>
    let pts := if isStart then other.points else other.points.reverse
    let steps := if isStart then other.steps else reverseSteps other.steps
    let skip := decide (pts.head? = some tail)
    { polyline with
      points := polyline.points ++ if skip then pts.tail else pts
      length := length
      steps := polyline.steps ++ if skip then steps else chord :: steps }

/-- The chains with the polyline `joined` at `seed`, for which the one at `j` is used up. -/
def Chains.join (chains : Chains F) (seed j : Nat) (joined : OpenPolyline F) : Chains F :=
  (chains.update seed fun _ => joined).update j fun other => { other.clear with consumed := true }

/-- The topology of the end that a join leaves free. -/
def OpenPolyline.freeEnd (polyline : OpenPolyline F) (isStart : Bool) : EndpointTopology :=
  if isStart then polyline.endTopo else polyline.startTopo

/-- What one round of a pass's inner loop comes to: the seed is put back or closed, or
another polyline is joined to it. -/
inductive Round (F σ : Type) where
  | done (chains : Chains F)
  | extended (chains : Chains F) (carried : σ)

/-- Close the seed: push its loop and clear it. -/
def Chains.close (chains : Chains F) (seed : Nat) (chain : ClosedChain) (orient : Bool) :
    Chains F :=
  let chain := if orient ∧ signedArea (F := F) chain.points < 0 then chain.reverse else chain
  (chains.pushLoop chain).update seed OpenPolyline.clear

/-- One round of the inner loop of `chain_open_polylines_exact`. -/
def exactRound (tryReversed : Bool) (seed : Nat) (chains : Chains F)
    (curEnd : EndpointTopology) : Option (Round F EndpointTopology) :=
  match findExactMatch chains.openPolylines curEnd tryReversed seed with
  | none => some (.done (chains.update seed fun polyline => { polyline with consumed := false }))
  | some (j, isStart) => do
    let polyline ← chains.openPolylines[seed]?
    let other ← chains.openPolylines[j]?
    let joined ← polyline.append other isStart .joined (polyline.length + other.length)
    let chains := chains.join seed j joined
    let curEnd := other.freeEnd isStart
    if polyline.startTopo = curEnd then
      let chain : ClosedChain := ⟨joined.points.dropLast, joined.steps⟩
      return .done (chains.close seed chain tryReversed)
    else
      return .extended chains curEnd

omit [Field F] [LinearOrder F] [Sqrt F] in
/-- The ends a gap pass can join: an index, whether it is a start, and its point. -/
def openEnds (polylines : List (OpenPolyline F)) (seed : Nat) (tryReversed : Bool) :
    List (Nat × Bool × Point2) :=
  polylines.zipIdx.flatMap fun (polyline, i) =>
    if i = seed ∨ polyline.consumed then []
    else
      (polyline.points.head?.map fun p => (i, true, p)).toList ++
        if tryReversed then (polyline.points.getLast?.map fun p => (i, false, p)).toList else []

def findNearestEnd (polylines : List (OpenPolyline F)) (seed : Nat) (tail : Point2) (maxGap : ℤ)
    (tryReversed : Bool) : Option (Nat × Bool × ℤ) :=
  (openEnds polylines seed tryReversed).foldl (fun best (i, isStart, p) =>
    let d2 := distance2 p tail
    if d2 ≤ wrapI64 (maxGap * maxGap) ∧ ∀ nearest ∈ best, d2 < nearest.2.2 then
      some (i, isStart, d2)
    else best) none

/-- `loop_closed`: the seed closes over the gap between its ends. A tiny loop stays open
where a join is nearer. -/
def closesLoop (maxGap : ℤ) (points : List Point2) (closing2 : ℤ)
    (next : Option (Nat × Bool × ℤ)) : Bool :=
  let near := decide (closing2 < wrapI64 (maxGap * maxGap))
  match next with
  | some (_, _, dist2) =>
    if near ∧ closing2 < dist2 then
      decide (sqrt (closing2 : F) < 3 / 10 * polylineLength points)
    else near
  | none => near

/-- One round of the inner loop of `chain_open_polylines_close_gaps`. -/
def gapRound (maxGap : ℤ) (tryReversed : Bool) (seed : Nat) (chains : Chains F) (nJoined : Nat) :
    Option (Round F Nat) := do
  let polyline ← chains.openPolylines[seed]?
  let tail ← polyline.points.getLast?
  let head ← polyline.points.head?
  let closing2 := distance2 tail head
  let next := findNearestEnd chains.openPolylines seed tail maxGap tryReversed
  if closesLoop (F := F) maxGap polyline.points closing2 next then
    let chain : ClosedChain := if closing2 ≠ 0 then ⟨polyline.points, polyline.steps ++ [.closing]⟩
      else ⟨polyline.points.dropLast, polyline.steps⟩
    return .done (chains.close seed chain (tryReversed && decide (1 < nJoined)))
  else
    match next with
    | none => return .done (chains.update seed fun polyline => { polyline with consumed := false })
    | some (j, isStart, _) =>
      let other ← chains.openPolylines[j]?
      let joined ← polyline.append other isStart .bridged polyline.length
      return .extended (chains.join seed j joined) (nJoined + 1)

/-- The open polylines that are not consumed. -/
def Chains.unconsumed (chains : Chains F) : Nat :=
  (chains.openPolylines.map (·.consumed)).count false

omit [Field F] [LinearOrder F] [Sqrt F] in
theorem map_consumed_update (chains : Chains F) (index : Nat) (f : OpenPolyline F → OpenPolyline F)
    {b : Bool} (hf : ∀ polyline, chains.openPolylines[index]? = some polyline →
      (f polyline).consumed = b) :
    (chains.update index f).openPolylines.map (·.consumed) =
      (chains.openPolylines.map (·.consumed)).set index b := by
  refine List.ext_getElem? fun i => ?_
  rw [Chains.update, List.getElem?_map, List.getElem?_modify, List.getElem?_set, List.getElem?_map,
    List.length_map]
  by_cases hi : index = i
  case neg => simp [hi]
  case pos =>
    subst hi
    rw [if_pos rfl]
    cases hget : chains.openPolylines[index]? with
    | none => rw [if_neg (List.getElem?_eq_none_iff.mp hget).not_gt]; rfl
    | some polyline =>
      obtain ⟨hlt, _⟩ := List.getElem?_eq_some_iff.mp hget
      simp [hlt, hf polyline hget]

variable {isStart tryReversed : Bool} {chains : Chains F} {j seed : Nat}
  {polylines : List (OpenPolyline F)}

section

omit [Field F] [LinearOrder F] [Sqrt F]

theorem append_consumed {polyline other joined : OpenPolyline F} {chord : Step} {length : F}
    (h : polyline.append other isStart chord length = some joined) :
    joined.consumed = polyline.consumed := by
  obtain ⟨tail, _, rfl⟩ := Option.map_eq_some_iff.mp h
  rfl

theorem unconsumed_join {polyline other joined : OpenPolyline F}
    (hseed : chains.openPolylines[seed]? = some polyline)
    (hjoined : joined.consumed = polyline.consumed) (hj : chains.openPolylines[j]? = some other)
    (hother : other.consumed = false) :
    (chains.join seed j joined).unconsumed < chains.unconsumed := by
  obtain ⟨hlt, hflag⟩ := List.getElem?_eq_some_iff.mp
    (show (chains.openPolylines.map (·.consumed))[seed]? = some polyline.consumed by simp [hseed])
  have hkept := map_consumed_update chains seed (fun _ => joined) (b := polyline.consumed)
    fun _ _ => hjoined
  rw [Chains.join, Chains.unconsumed,
    map_consumed_update _ j (fun other => { other.clear with consumed := true }) fun _ _ => rfl,
    hkept, ← hflag, List.set_getElem_self hlt, Chains.unconsumed]
  refine count_set_used ?_
  rw [isUsed, List.getElem?_map, hj]
  exact hother

theorem findExactMatch_spec {endTopo : EndpointTopology} {exclude : Nat}
    (h : findExactMatch polylines endTopo tryReversed exclude = some (j, isStart)) :
    ∃ polyline, polylines[j]? = some polyline ∧ j ≠ exclude ∧ polyline.consumed = false ∧
      (isStart = true ∧ polyline.startTopo = endTopo ∨
        isStart = false ∧ tryReversed = true ∧ polyline.endTopo = endTopo) := by
  obtain ⟨⟨polyline, i⟩, hmem, hfound⟩ := List.exists_of_findSome?_eq_some h
  have hget := List.mem_zipIdx_iff_getElem?.mp hmem
  dsimp only at hfound hget
  split at hfound
  · cases hfound
  · rename_i hfree
    obtain ⟨hne, hopen⟩ := not_or.mp hfree
    have hconsumed : polyline.consumed = false := by simpa using hopen
    split at hfound
    · rename_i hstart
      cases hfound
      exact ⟨polyline, hget, hne, hconsumed, Or.inl ⟨rfl, hstart⟩⟩
    · split at hfound
      · rename_i hend
        cases hfound
        exact ⟨polyline, hget, hne, hconsumed, Or.inr ⟨rfl, hend⟩⟩
      · cases hfound

end

omit [Sqrt F] in
theorem unconsumed_exactRound {chains' : Chains F} {curEnd curEnd' : EndpointTopology}
    (h : exactRound tryReversed seed chains curEnd = some (.extended chains' curEnd')) :
    chains'.unconsumed < chains.unconsumed := by
  rw [exactRound] at h
  split at h
  · cases h
  · rename_i j isStart hmatch
    obtain ⟨polyline, hseed, h⟩ := Option.bind_eq_some_iff.mp h
    obtain ⟨other, hj, h⟩ := Option.bind_eq_some_iff.mp h
    obtain ⟨joined, hjoined, h⟩ := Option.bind_eq_some_iff.mp h
    dsimp only at h
    split at h
    · cases h
    · cases h
      obtain ⟨found, hfound, _, hopen, _⟩ := findExactMatch_spec hmatch
      exact unconsumed_join hseed (append_consumed hjoined) hfound hopen

/-- The inner loop of `chain_open_polylines_exact`. -/
def exactLoop (tryReversed : Bool) (seed : Nat) (chains : Chains F) (curEnd : EndpointTopology) :
    Option (Chains F) :=
  match _h : exactRound tryReversed seed chains curEnd with
  | none => none
  | some (.done chains) => some chains
  | some (.extended chains curEnd) => exactLoop tryReversed seed chains curEnd
termination_by chains.unconsumed
decreasing_by exact unconsumed_exactRound _h

section

omit [Field F] [LinearOrder F] [Sqrt F]

theorem mem_openEnds {p : Point2} (h : (j, isStart, p) ∈ openEnds polylines seed tryReversed) :
    ∃ polyline, polylines[j]? = some polyline ∧ j ≠ seed ∧ polyline.consumed = false ∧
      (if isStart then polyline.points.head? else polyline.points.getLast?) = some p := by
  obtain ⟨⟨polyline, i⟩, hmem, hfound⟩ := List.mem_flatMap.mp h
  have hget := List.mem_zipIdx_iff_getElem?.mp hmem
  dsimp only at hfound hget
  split at hfound
  · cases hfound
  · rename_i hfree
    obtain ⟨hne, hopen⟩ := not_or.mp hfree
    have hconsumed : polyline.consumed = false := by simpa using hopen
    rcases List.mem_append.mp hfound with hstart | hend
    · obtain ⟨q, hq, heq⟩ := Option.map_eq_some_iff.mp (Option.mem_toList.mp hstart)
      cases heq
      exact ⟨polyline, hget, hne, hconsumed, hq⟩
    · split at hend
      · obtain ⟨q, hq, heq⟩ := Option.map_eq_some_iff.mp (Option.mem_toList.mp hend)
        cases heq
        exact ⟨polyline, hget, hne, hconsumed, hq⟩
      · cases hend

theorem findNearestEnd_spec {tail : Point2} {maxGap d2 : ℤ}
    (h : findNearestEnd polylines seed tail maxGap tryReversed = some (j, isStart, d2)) :
    ∃ polyline p, polylines[j]? = some polyline ∧ j ≠ seed ∧ polyline.consumed = false ∧
      (if isStart then polyline.points.head? else polyline.points.getLast?) = some p ∧
      distance2 p tail ≤ wrapI64 (maxGap * maxGap) := by
  let Found := fun best : Option (Nat × Bool × ℤ) => ∀ nearest ∈ best,
    ∃ p, (nearest.1, nearest.2.1, p) ∈ openEnds polylines seed tryReversed ∧
      distance2 p tail ≤ wrapI64 (maxGap * maxGap)
  have hbest : Found (findNearestEnd polylines seed tail maxGap tryReversed) := by
    refine List.foldlRecOn (motive := Found) _ _ (fun nearest hnone => nomatch hnone) ?_
    intro best hbest candidate hcandidate nearest hnearest
    dsimp only at hnearest
    split at hnearest
    · rename_i hwithin
      cases hnearest
      exact ⟨candidate.2.2, hcandidate, hwithin.1⟩
    · exact hbest nearest hnearest
  obtain ⟨p, hp, hwithin⟩ := hbest _ h
  obtain ⟨polyline, hget, hne, hopen, hend⟩ := mem_openEnds hp
  exact ⟨polyline, p, hget, hne, hopen, hend, hwithin⟩

end

theorem unconsumed_gapRound {maxGap : ℤ} {chains' : Chains F} {nJoined nJoined' : Nat}
    (h : gapRound maxGap tryReversed seed chains nJoined = some (.extended chains' nJoined')) :
    chains'.unconsumed < chains.unconsumed := by
  obtain ⟨polyline, hseed, h⟩ := Option.bind_eq_some_iff.mp h
  obtain ⟨tail, _, h⟩ := Option.bind_eq_some_iff.mp h
  obtain ⟨head, _, h⟩ := Option.bind_eq_some_iff.mp h
  dsimp only at h
  split at h
  · cases h
  · split at h
    · cases h
    · rename_i j isStart d2 hnext
      obtain ⟨other, hj, h⟩ := Option.bind_eq_some_iff.mp h
      obtain ⟨joined, hjoined, h⟩ := Option.bind_eq_some_iff.mp h
      cases h
      obtain ⟨found, _, hfound, _, hopen, _⟩ := findNearestEnd_spec hnext
      exact unconsumed_join hseed (append_consumed hjoined) hfound hopen

/-- The inner loop of `chain_open_polylines_close_gaps`. -/
def gapLoop (maxGap : ℤ) (tryReversed : Bool) (seed : Nat) (chains : Chains F) (nJoined : Nat) :
    Option (Chains F) :=
  match _h : gapRound maxGap tryReversed seed chains nJoined with
  | none => none
  | some (.done chains) => some chains
  | some (.extended chains nJoined) => gapLoop maxGap tryReversed seed chains nJoined
termination_by chains.unconsumed
decreasing_by exact unconsumed_gapRound _h

/-- The polylines that are not consumed, the longest ones first. -/
def sortedByLength (polylines : List (OpenPolyline F)) : List Nat :=
  let unconsumed := polylines.zipIdx.filter fun (polyline, _) => !polyline.consumed
  (unconsumed.insertionSort fun first second => second.1.length ≤ first.1.length).map (·.2)

/-- The outer loop of a pass: `run` is its inner loop. -/
def forSeeds (run : Nat → OpenPolyline F → Chains F → Option (Chains F)) (chains : Chains F)
    (seed : Nat) : Option (Chains F) := do
  let polyline ← chains.openPolylines[seed]?
  if polyline.consumed then
    return chains
  else
    run seed polyline (chains.update seed fun polyline => { polyline with consumed := true })

def chainOpenPolylinesExact (chains : Chains F) (tryConnectReversed : Bool) : Option (Chains F) :=
  (sortedByLength chains.openPolylines).foldlM
    (forSeeds fun seed polyline chains =>
      exactLoop tryConnectReversed seed chains polyline.endTopo)
    chains

/-- The length of a polyline that is not consumed, measured again. -/
def OpenPolyline.remeasure (polyline : OpenPolyline F) : OpenPolyline F :=
  if polyline.consumed then polyline
  else { polyline with length := polylineLength polyline.points }

def chainOpenPolylinesCloseGaps (chains : Chains F) (maxGap : ℤ) (tryConnectReversed : Bool) :
    Option (Chains F) :=
  let chains := { chains with openPolylines := chains.openPolylines.map OpenPolyline.remeasure }
  (sortedByLength chains.openPolylines).foldlM
    (forSeeds fun seed _ chains => gapLoop maxGap tryConnectReversed seed chains 1) chains

/-- `mm_to_units(2.0) as i64`. -/
def MAX_GAP : ℤ :=
  20000

/-- The chains behind the last pass. -/
def chainLoops (lines : List IntersectionLine) : Option (Chains F) := do
  let chains := chainLinesByTriangleConnectivity (dedupLines lines)
  let chains ← chainOpenPolylinesExact chains false
  let chains ← chainOpenPolylinesExact chains true
  let chains ← chainOpenPolylinesCloseGaps chains MAX_GAP false
  chainOpenPolylinesCloseGaps chains MAX_GAP true

end Passes

def makeLoops (F : Type) [Field F] [LinearOrder F] [Sqrt F] (lines : List IntersectionLine) :
    Option (List (List Point2)) :=
  if lines.isEmpty then some []
  else (chainLoops (F := F) lines).map fun chains =>
    chains.loops.map fun chain => simplifyPolygonPoints chain.points

end PinchNPrint.Mesh
