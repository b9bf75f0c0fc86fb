/-
Strategies that divide the thickness of a wall into beads (`slicer-core`: `beading/`).

A decorator wraps a parent; it replaces some of the functions and forwards the others.
`createStack` is the stack the host builds.

Numbers are the elements of an ordered field with floor, lengths are in units of 100 nm.
A quarter of the circle constant is a parameter of the stack. Labels, the transition angle,
lengths of ramps and filter distances are left out: nothing here reads them. Positions in a
beading are in range when the maximal bead count is positive.
-/

import Mathlib.Data.Rat.Floor
import PinchNPrint.Lib.Numerals

namespace PinchNPrint.Walls

/-- `Beading`: outermost to innermost. -/
structure Beading (F : Type) where
  totalThickness : F
  beadWidths : List F
  toolpathLocations : List F
  leftOver : F
deriving DecidableEq

/-- `BeadingStrategy`: the base strategy, and the decorators with their parents. -/
inductive BeadingStrategy (F : Type) where
  | Distributed (optimalWidth : F) (distributionCount : Nat)
      (wallSplitMiddleThreshold wallAddMiddleThreshold : F)
  | Redistribute (parent : BeadingStrategy F) (optimalWidthOuter minimumVariableLineRatio : F)
  | Widening (parent : BeadingStrategy F) (optimalWidth minInputWidth minOutputWidth : F)
  | OuterWallInset (parent : BeadingStrategy F) (outerWallOffset : F)
  | Limited (parent : BeadingStrategy F) (maxBeadCount : Nat)
deriving DecidableEq

namespace BeadingStrategy

variable {F : Type} [Field F]

/-! ### Thicknesses and thresholds -/

def getSplitMiddleThreshold : BeadingStrategy F → F
  | Distributed _ _ split _ => split
  | Redistribute parent _ _ => parent.getSplitMiddleThreshold
  | Widening parent _ _ _ => parent.getSplitMiddleThreshold
  | OuterWallInset parent _ => parent.getSplitMiddleThreshold
  | Limited parent _ => parent.getSplitMiddleThreshold

def optimalThickness : BeadingStrategy F → Nat → F
  | Distributed optimalWidth _ _ _, beadCount => beadCount * optimalWidth
  | Redistribute parent outer _, beadCount =>
      let inner := beadCount - 2
      parent.optimalThickness inner + outer * (beadCount - inner : Nat)
  | Widening parent _ _ _, beadCount => parent.optimalThickness beadCount
  | OuterWallInset parent _, beadCount => parent.optimalThickness beadCount
  | Limited parent _, beadCount => parent.optimalThickness beadCount

/-- The threshold for one more bead: odd counts split the middle bead, even ones add one. -/
def middleThreshold (split add : F) (beadCount : Nat) : F :=
  if beadCount % 2 = 1 then split else add

def getTransitionThickness : BeadingStrategy F → Nat → F
  | Distributed optimalWidth _ split add, lowerBeadCount =>
      let lowerOptimum : F := lowerBeadCount * optimalWidth
      let upperOptimum : F := (lowerBeadCount + 1 : Nat) * optimalWidth
      lowerOptimum + (upperOptimum - lowerOptimum) * middleThreshold split add lowerBeadCount
  | Redistribute _ outer ratio, 0 => ratio * outer
  | Redistribute parent outer _, 1 => (1 + parent.getSplitMiddleThreshold) * outer
  | Redistribute parent outer _, lowerBeadCount + 2 =>
      parent.getTransitionThickness lowerBeadCount + 2 * outer
  | Widening _ _ minInputWidth _, 0 => minInputWidth
  | Widening parent _ _ _, lowerBeadCount + 1 => parent.getTransitionThickness (lowerBeadCount + 1)
  | OuterWallInset parent _, lowerBeadCount => parent.getTransitionThickness lowerBeadCount
  | Limited parent _, lowerBeadCount => parent.getTransitionThickness lowerBeadCount

variable [LinearOrder F]

def getTransitionAnchorPos : BeadingStrategy F → Nat → F
  | Distributed optimalWidth count split add, lowerBeadCount =>
      let base := Distributed optimalWidth count split add
      let transition := base.getTransitionThickness lowerBeadCount
      let lowerOptimum := base.optimalThickness lowerBeadCount
      let upperOptimum := base.optimalThickness (lowerBeadCount + 1)
      let denominator := upperOptimum - lowerOptimum
      if denominator ≤ 0 then 1 / 2 else 1 - (transition - lowerOptimum) / denominator
  | Redistribute parent _ _, lowerBeadCount => parent.getTransitionAnchorPos lowerBeadCount
  | Widening parent _ _ _, lowerBeadCount => parent.getTransitionAnchorPos lowerBeadCount
  | OuterWallInset parent _, lowerBeadCount => parent.getTransitionAnchorPos lowerBeadCount
  | Limited parent _, lowerBeadCount => parent.getTransitionAnchorPos lowerBeadCount

/-- Hundredths of a millimetre, in units. -/
def HUNDREDTH_MM : F :=
  100

variable [FloorRing F]

/-- `x.trunc()`. -/
def trunc (x : F) : ℤ :=
  if 0 ≤ x then ⌊x⌋ else ⌈x⌉

def optimalBeadCount : BeadingStrategy F → F → Nat
  | Distributed optimalWidth _ split add, thickness =>
      let naiveCount := trunc (thickness / optimalWidth)
      let remainder := thickness - naiveCount * optimalWidth
      let minimumLineWidth := optimalWidth * middleThreshold split add naiveCount.toNat
      naiveCount.toNat + if minimumLineWidth ≤ remainder then 1 else 0
  | Redistribute parent outer ratio, thickness =>
      if thickness < ratio * outer then 0
      else if thickness ≤ 2 * outer then
        if (1 + parent.getSplitMiddleThreshold) * outer < thickness then 2 else 1
      else parent.optimalBeadCount (thickness - 2 * outer) + 2
  | Widening parent _ minInputWidth _, thickness =>
      if thickness < minInputWidth then 0
      else if parent.optimalBeadCount thickness < 1 then 1
      else parent.optimalBeadCount thickness
  | OuterWallInset parent _, thickness => parent.optimalBeadCount thickness
  | Limited parent maxBeadCount, thickness =>
      let parentCount := parent.optimalBeadCount thickness
      if parentCount ≤ maxBeadCount then parentCount
      else if parentCount = maxBeadCount + 1 then
        if thickness < parent.optimalThickness (maxBeadCount + 1) - HUNDREDTH_MM then maxBeadCount
        else maxBeadCount + 1
      else maxBeadCount + 1

/-! ### Beads -/

omit [FloorRing F] in
/-- The share of bead `i` in what is to be divided. -/
def weight (distributionCount beadCount i : Nat) : F :=
  let radius : F := distributionCount
  let oneOverRSq := if 2 ≤ radius then 1 / (radius - 1) * (1 / (radius - 1)) else 1
  let middle : F := (beadCount - 1 : Nat) / 2
  let devFromMiddle := i - middle
  max (1 - oneOverRSq * devFromMiddle * devFromMiddle) 0

/-- The widths of more than two beads; the last one takes what remains. -/
def distributedWidths (optimalWidth : F) (distributionCount : Nat) (thickness : F)
    (beadCount : Nat) : List F :=
  let toBeDivided := thickness - beadCount * optimalWidth
  let weights := (List.range beadCount).map (weight (F := F) distributionCount beadCount)
  let widths := weights.dropLast.map fun w => optimalWidth + toBeDivided * (w / weights.sum)
  widths ++ [thickness - widths.sum]

/-- The centre lines behind one at `loc` of a bead as wide as `prev`. -/
def locationsFrom (loc prev : F) : List F → List F
  | [] => []
  | width :: widths =>
      (loc + (prev + width) / 2) :: locationsFrom (loc + (prev + width) / 2) width widths

/-- The centre lines of beads side by side. -/
def locations : List F → List F
  | [] => []
  | width :: widths => width / 2 :: locationsFrom (width / 2) width widths

/-- A sentinel at the inner edge of the innermost bead, when as many beads as allowed were
requested. -/
def markCap (maxBeadCount : Nat) (beading : Beading F) : Beading F :=
  let actualCount := beading.toolpathLocations.length
  if actualCount % 2 = 0 ∧ actualCount = maxBeadCount then
    let innerIdx := maxBeadCount / 2 - 1
    let sentinelLocation :=
      beading.toolpathLocations.getD innerIdx 0 + beading.beadWidths.getD innerIdx 0 / 2
    { beading with
      toolpathLocations := beading.toolpathLocations.insertIdx (maxBeadCount / 2) sentinelLocation
      beadWidths := beading.beadWidths.insertIdx (maxBeadCount / 2) 0 }
  else beading

/-- The beads for the optimal thickness, put to both sides of a region of another thickness. -/
def mirrored (thickness optimalThickness : F) (beading : Beading F) : Beading F :=
  let n := beading.toolpathLocations.length
  let odd := n % 2 = 1
  let locations := if odd then beading.toolpathLocations.set (n / 2) (thickness / 2)
    else beading.toolpathLocations
  { totalThickness := thickness
    beadWidths := if odd then beading.beadWidths.set (n / 2) (thickness - optimalThickness)
      else beading.beadWidths
    toolpathLocations := (List.range ((n + 1) / 2)).foldl
      (fun locations i => locations.set (n - 1 - i) (thickness - locations.getD i 0)) locations
    leftOver := beading.leftOver + (thickness - beading.totalThickness) }

/-- Two blocks of sentinels at the inner edges of the innermost beads. -/
def markElided (sentinelCount : Nat) (beading : Beading F) : Beading F :=
  let widths := beading.beadWidths
  let locations := beading.toolpathLocations
  let n := widths.length
  let leftIndex := n / 2
  let rightIndex := n - leftIndex
  let leftLocation := if 0 < leftIndex
    then locations.getD (leftIndex - 1) 0 + widths.getD (leftIndex - 1) 0 / 2 else 0
  let lastIdx := locations.length - 1
  let rightLocation := if rightIndex < n
    then locations.getD rightIndex 0 - widths.getD rightIndex 0 / 2
    else if 0 < lastIdx then locations.getD lastIdx 0 - widths.getD lastIdx 0 / 2 else 0
  let insertTwice := fun (l : List F) (left right : F) =>
    (·.insertIdx (rightIndex + sentinelCount) right)^[sentinelCount]
      ((·.insertIdx leftIndex left)^[sentinelCount] l)
  { beading with
    beadWidths := insertTwice widths 0 0
    toolpathLocations := insertTwice locations leftLocation rightLocation }

def compute : BeadingStrategy F → F → Nat → Beading F
  | Distributed optimalWidth distributionCount _ _, thickness, beadCount =>
      match beadCount with
      | 0 => ⟨thickness, [], [], thickness⟩
      | 1 => ⟨thickness, [thickness], [thickness / 2], 0⟩
      | 2 =>
          let outerWidth := thickness / 2
          ⟨thickness, [outerWidth, outerWidth], [outerWidth / 2, thickness - outerWidth / 2], 0⟩
      | beadCount =>
          let widths := distributedWidths optimalWidth distributionCount thickness beadCount
          ⟨thickness, widths, locations widths, 0⟩
  | Redistribute parent outer ratio, thickness, beadCount =>
      if beadCount = 0 ∨ thickness < ratio * outer then ⟨thickness, [], [], thickness⟩
      else
        let innerThickness := thickness - 2 * outer
        let inner := if 2 < beadCount ∧ 0 < innerThickness
          then parent.compute innerThickness (beadCount - 2) else ⟨innerThickness, [], [], 0⟩
        let actualOuterThickness :=
          if 2 < beadCount then min (thickness / 2) outer else thickness / beadCount
        let opposite := if 1 < beadCount then [actualOuterThickness] else []
        let widths := actualOuterThickness :: (inner.beadWidths ++ opposite)
        { totalThickness := thickness
          beadWidths := widths
          toolpathLocations := actualOuterThickness / 2 ::
            (inner.toolpathLocations.map (· + outer) ++ opposite.map (thickness - · / 2))
          leftOver := thickness - widths.sum }
  | Widening parent optimalWidth minInputWidth minOutputWidth, thickness, beadCount =>
      if thickness < optimalWidth then
        if minInputWidth ≤ thickness
        then ⟨thickness, [max thickness minOutputWidth], [thickness / 2], 0⟩
        else ⟨thickness, [], [], thickness⟩
      else parent.compute thickness beadCount
  | OuterWallInset parent offset, thickness, beadCount =>
      let beading := parent.compute thickness beadCount
      let effectiveBeadCount := beading.beadWidths.countP (0 < ·)
      if effectiveBeadCount < 2 then beading
      else { beading with
        toolpathLocations := beading.toolpathLocations.modifyHead
          fun location => min (location + offset) (thickness / 2) }
  | Limited parent maxBeadCount, thickness, beadCount =>
      if beadCount ≤ maxBeadCount then markCap maxBeadCount (parent.compute thickness beadCount)
      else
        let optimalThickness := parent.optimalThickness maxBeadCount
        markElided (beadCount - maxBeadCount)
          (mirrored thickness optimalThickness (parent.compute optimalThickness maxBeadCount))

end BeadingStrategy

/-! ### The stack -/

structure BeadingFactoryParams (F : Type) where
  optimalWidth : F
  distributionCount : Nat
  minInputWidth : F
  minOutputWidth : F
  outerWallOffset : F
  maxBeadCount : Nat
  minimumVariableLineRatio : F
  printThinWalls : Bool
  preferredBeadWidthOuter : F
  layerHeight : F
deriving DecidableEq

/-- `BeadingFactoryParams::default`. -/
instance {F : Type} [Field F] : Inhabited (BeadingFactoryParams F) where
  default :=
    { optimalWidth := 4000, distributionCount := 1, minInputWidth := 1000, minOutputWidth := 4000
      outerWallOffset := 0, maxBeadCount := 10, minimumVariableLineRatio := 1 / 2
      printThinWalls := false, preferredBeadWidthOuter := 4000, layerHeight := 2000 }

namespace BeadingFactoryParams

variable {F : Type} [Field F] [LinearOrder F]

def effectiveOptimalWidth (params : BeadingFactoryParams F) : F :=
  if params.maxBeadCount ≤ 2 then params.preferredBeadWidthOuter else params.optimalWidth

/-- `x.clamp(0.01, 0.99)`. -/
def clampThreshold (x : F) : F :=
  min (max x (1 / 100)) (99 / 100)

/-- `wall_split_middle_threshold`, of the outer extrusion width. -/
def wallSplitMiddleThreshold (fracPi4 : F) (params : BeadingFactoryParams F) : F :=
  let roundedRectangleBump := params.layerHeight * (1 - fracPi4)
  let externalPerimeterExtrusionWidth := params.preferredBeadWidthOuter + roundedRectangleBump
  clampThreshold (2 * params.minOutputWidth / externalPerimeterExtrusionWidth - 1)

/-- `wall_add_middle_threshold`, of the inner extrusion width. -/
def wallAddMiddleThreshold (fracPi4 : F) (params : BeadingFactoryParams F) : F :=
  let roundedRectangleBump := params.layerHeight * (1 - fracPi4)
  let perimeterExtrusionWidth := params.optimalWidth + roundedRectangleBump
  clampThreshold (params.minOutputWidth / perimeterExtrusionWidth)

/-- The base strategy of the stack. -/
def distributed (fracPi4 : F) (params : BeadingFactoryParams F) : BeadingStrategy F :=
  .Distributed params.effectiveOptimalWidth params.distributionCount
    (params.wallSplitMiddleThreshold fracPi4) (params.wallAddMiddleThreshold fracPi4)

/-- The outer walls apart, around the base strategy. -/
def redistribute (fracPi4 : F) (params : BeadingFactoryParams F) : BeadingStrategy F :=
  .Redistribute (params.distributed fracPi4) params.preferredBeadWidthOuter
    params.minimumVariableLineRatio

/-- Thin walls are widened only on request. -/
def preOuterWall (fracPi4 : F) (params : BeadingFactoryParams F) : BeadingStrategy F :=
  if params.printThinWalls then
    .Widening (params.redistribute fracPi4) params.effectiveOptimalWidth params.minInputWidth
      params.minOutputWidth
  else params.redistribute fracPi4

/-- The outer wall is moved only by an offset. -/
def preLimited (fracPi4 : F) (params : BeadingFactoryParams F) : BeadingStrategy F :=
  if params.outerWallOffset ≠ 0 then
    .OuterWallInset (params.preOuterWall fracPi4) params.outerWallOffset
  else params.preOuterWall fracPi4

/-- `BeadingStrategyFactory::create_stack`. -/
def createStack (fracPi4 : F) (params : BeadingFactoryParams F) : BeadingStrategy F :=
  .Limited (params.preLimited fracPi4) params.maxBeadCount

end BeadingFactoryParams

end PinchNPrint.Walls
