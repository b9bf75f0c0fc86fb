/-
The estimate of print time and filament (`slicer-gcode`: `estimator.rs`).

One walk over the commands plans a kinematic segment for every command that moves
an axis; a second pass over the segments gives each of them a time. The elapsed
times are one for each command (`length_elapsed`).

The circle constant is a parameter, as the square root is.
-/

import PinchNPrint.GCode.Command
import PinchNPrint.Lib.Collections

namespace PinchNPrint.GCode

open PinchNPrint.Layer

/-- The circle constant the host uses. -/
class CirclePi (F : Type) where
  pi : F

export CirclePi (pi)

/-- The first decimals. -/
instance : CirclePi ℚ where
  pi := 355 / 113

structure EstimatorLimits (F : Type) where
  maxAcceleration : F
  maxAccelerationTravel : F
  maxSpeedXy : F
  maxSpeedZ : F
  maxSpeedE : F
  jerkXy : F
  jerkZ : F
  jerkE : F

structure PrintEstimate (F : Type) where
  totalTimeS : F
  extrudedVolumeMm3 : BTreeMap Nat F
  filamentLengthMm : BTreeMap Nat F
  toolchangeCount : Nat

inductive AxisClass where
  | Xy
  | Z
  | E
deriving DecidableEq

structure Segment (F : Type) where
  dist : F
  vTarget : F
  accel : F
  jerk : F
  dir : F × F
  axis : AxisClass

/-- The state of the walk over the commands. -/
structure EstimatorState (F : Type) where
  pos : Option (F × F × F) := none
  eAccumulator : F
  feedMmS : F
  currentTool : Nat := 0
  segments : List (Nat × Segment F) := []
  filamentLengthMm : BTreeMap Nat F := ∅
  toolchangeCount : Nat := 0

section Estimate

variable {F : Type} [Field F] [LinearOrder F]

/-- `EstimatorLimits::default`. -/
instance : Inhabited (EstimatorLimits F) where
  default :=
    { maxAcceleration := 1500, maxAccelerationTravel := 1500, maxSpeedXy := 200, maxSpeedZ := 12
      maxSpeedE := 25, jerkXy := 9, jerkZ := 1 / 5, jerkE := 5 / 2 }

variable [Sqrt F]

/-- The smallest speed and acceleration. -/
def SPEED_FLOOR : F :=
  1 / 10 ^ 6

/-- Distances up to this are none. -/
def NO_DISTANCE : F :=
  1 / 10 ^ 9

/-- `segment_time`: the time over `dist` from the speed `ve` to `vx`, cruising at `vc`
at most. -/
def segmentTime (dist ve vx vc a : F) : F :=
  if dist ≤ 0 then 0
  else
    let a := max a SPEED_FLOOR
    let vc := max (max (max vc ve) vx) SPEED_FLOOR
    let dAcc := (vc * vc - ve * ve) / (2 * a)
    let dDec := (vc * vc - vx * vx) / (2 * a)
    if dAcc + dDec ≤ dist then (vc - ve) / a + (vc - vx) / a + (dist - dAcc - dDec) / vc
    else
      let vp2 := (2 * a * dist + ve * ve + vx * vx) / 2
      let vp := max (max (max (sqrt (max vp2 0)) ve) vx) SPEED_FLOOR
      (vp - ve) / a + (vp - vx) / a

def junctionSpeed (a b : Segment F) : F :=
  let v := min a.vTarget b.vTarget
  let cos := a.dir.1 * b.dir.1 + a.dir.2 * b.dir.2
  if a.axis = .Xy ∧ b.axis = .Xy ∧ 98 / 100 < cos then v
  else min (min a.jerk b.jerk) v

/-- The time of a segment between its neighbours. -/
def timeBetween (previous : Option (Segment F)) (seg : Segment F) (next : Option (Segment F)) : F :=
  let entry := match previous with
    | none => min seg.jerk seg.vTarget
    | some previous => junctionSpeed previous seg
  let exit := match next with
    | none => min seg.jerk seg.vTarget
    | some next => junctionSpeed seg next
  let vReach := fun speed : F => sqrt (speed * speed + 2 * seg.accel * seg.dist)
  let exit := min exit (vReach entry)
  let entry := min entry (vReach exit)
  segmentTime seg.dist entry exit seg.vTarget seg.accel

/-- The times of the segments behind `previous`. -/
def segmentTimesFrom (previous : Option (Segment F)) : List (Segment F) → List F
  | [] => []
  | seg :: rest => timeBetween previous seg rest.head? :: segmentTimesFrom (some seg) rest

def estimateSegmentsTime (segments : List (Segment F)) : List F :=
  segmentTimesFrom none segments

/-- A segment of the extruder alone. -/
def extruderSegment (limits : EstimatorLimits F) (dist vTarget : F) : Segment F where
  dist := dist
  vTarget := vTarget
  accel := limits.maxAcceleration
  jerk := limits.jerkE
  dir := (0, 0)
  axis := .E

/-- The segment of a move over `(dx, dy, dz)` that extrudes `eDelta`, if it has one. -/
def moveSegment (limits : EstimatorLimits F) (role : ExtrusionRole) (feedMmS dx dy dz eDelta : F) :
    Option (Segment F) :=
  let distXy := sqrt (dx * dx + dy * dy)
  let dist := sqrt (dx * dx + dy * dy + dz * dz)
  let accel := if isTravel role ∨ eDelta ≤ 0 then limits.maxAccelerationTravel
    else limits.maxAcceleration
  if NO_DISTANCE < dist then
    let planar := decide (NO_DISTANCE < distXy)
    let cap := if planar then limits.maxSpeedXy else limits.maxSpeedZ
    let v := if 0 < feedMmS then feedMmS else cap
    some
      { dist := dist
        vTarget := max (min v cap) SPEED_FLOOR
        accel := accel
        jerk := if planar then limits.jerkXy else limits.jerkZ
        dir := if planar then (dx / distXy, dy / distXy) else (0, 0)
        axis := if planar then .Xy else .Z }
  else if NO_DISTANCE < |eDelta| then
    let v := if 0 < feedMmS then feedMmS else limits.maxSpeedE
    some (extruderSegment limits |eDelta| (max (min v limits.maxSpeedE) SPEED_FLOOR))
  else none

/-- One command of the walk. -/
def estimateCommand (limits : EstimatorLimits F) (state : EstimatorState F) (commandIndex : Nat) :
    GCodeCommand F → EstimatorState F
  | .Move x y z e f role =>
      let feedMmS := (f.map fun value => max (value / 60) 0).getD state.feedMmS
      let (px, py, pz) := state.pos.getD (x.getD 0, y.getD 0, z.getD 0)
      let (nx, ny, nz) := (x.getD px, y.getD py, z.getD pz)
      let eDelta := (e.map fun value => value - state.eAccumulator).getD 0
      let lengths := if 0 < eDelta
        then state.filamentLengthMm.insert state.currentTool
          (state.filamentLengthMm.getD state.currentTool 0 + eDelta)
        else state.filamentLengthMm
      let moved := { state with
        pos := some (nx, ny, nz)
        eAccumulator := e.getD state.eAccumulator
        feedMmS := feedMmS
        filamentLengthMm := lengths }
      if state.pos.isNone then moved
      else
        match moveSegment limits role feedMmS (nx - px) (ny - py) (nz - pz) eDelta with
        | none => moved
        | some segment => { moved with segments := moved.segments ++ [(commandIndex, segment)] }
  | .Retract length speed _ =>
      let v := min (max (speed / 60) SPEED_FLOOR) limits.maxSpeedE
      { state with
        eAccumulator := state.eAccumulator - length
        segments := state.segments ++ [(commandIndex, extruderSegment limits |length| v)] }
  | .Unretract length speed _ =>
      let v := min (max (speed / 60) SPEED_FLOOR) limits.maxSpeedE
      { state with
        eAccumulator := state.eAccumulator + length
        segments := state.segments ++ [(commandIndex, extruderSegment limits |length| v)] }
  | .ToolChange _ _ target =>
      { state with toolchangeCount := state.toolchangeCount + 1, currentTool := target }
  | .Raw text =>
      { state with eAccumulator := (resetPosition text).getD state.eAccumulator }
  | .ExtrusionMode _ | .Comment _ | .FanSpeed _ | .Temperature _ _ _ => state

/-- The state behind all commands. -/
def walkCommands (limits : EstimatorLimits F) (commands : List (GCodeCommand F)) :
    EstimatorState F :=
  commands.zipIdx.foldl (fun state command => estimateCommand limits state command.2 command.1)
    { eAccumulator := 0, feedMmS := 0 }

/-- The time of each command: that of the segments it planned. -/
def elapsedDeltas (limits : EstimatorLimits F) (commands : List (GCodeCommand F)) : List F :=
  let segments := (walkCommands limits commands).segments
  let times := estimateSegmentsTime (segments.map (·.2))
  ((segments.map (·.1)).zip times).foldl (fun deltas timed =>
      deltas.modify timed.1 (· + timed.2))
    (List.replicate commands.length 0)

/-- Running sums. -/
def runningSums (sum : F) : List F → List F
  | [] => []
  | delta :: deltas => (sum + delta) :: runningSums (sum + delta) deltas

variable [CirclePi F]

def estimatePrintWithElapsed (commands : List (GCodeCommand F)) (limits : EstimatorLimits F)
    (toolDiameters : BTreeMap Nat F) : PrintEstimate F × List F :=
  let state := walkCommands limits commands
  let deltas := elapsedDeltas limits commands
  let volume := fun (tool : Nat) (len : F) =>
    let d := toolDiameters.getD tool (7 / 4)
    len * (pi * (d / 2) * (d / 2))
  ({ totalTimeS := deltas.sum
     extrudedVolumeMm3 := state.filamentLengthMm.map volume
     filamentLengthMm := state.filamentLengthMm
     toolchangeCount := state.toolchangeCount },
   runningSums 0 deltas)

end Estimate

/-! ### One value for each command -/

section Length

variable {F : Type} [Field F]

theorem length_runningSums (sum : F) (deltas : List F) :
    (runningSums sum deltas).length = deltas.length := by
  induction deltas generalizing sum with
  | nil => rfl
  | cons delta deltas ih => rw [runningSums, List.length_cons, List.length_cons, ih]

theorem getLast?_runningSums (sum : F) (deltas : List F) :
    (runningSums sum deltas).getLast?.getD sum = sum + deltas.sum := by
  induction deltas generalizing sum with
  | nil => simp [runningSums]
  | cons delta deltas ih =>
    rw [runningSums, List.getLast?_cons, Option.getD_some, ih, List.sum_cons, add_assoc]

/-- Adding times to the commands keeps a property of all of them, and their number. -/
theorem foldl_modify_add {p : F → Prop} {timed : List (Nat × F)}
    (hadd : ∀ entry ∈ timed, ∀ delta, p delta → p (delta + entry.2)) :
    ∀ deltas : List F, (∀ delta ∈ deltas, p delta) →
      (∀ delta ∈ timed.foldl (fun deltas entry => deltas.modify entry.1 (· + entry.2)) deltas,
        p delta) ∧
      (timed.foldl (fun deltas entry => deltas.modify entry.1 (· + entry.2)) deltas).length =
        deltas.length := by
  induction timed with
  | nil => exact fun deltas hdeltas => ⟨hdeltas, rfl⟩
  | cons entry timed ih =>
    intro deltas hdeltas
    have hmodified : ∀ delta ∈ deltas.modify entry.1 (· + entry.2), p delta := by
      intro delta hmem
      obtain ⟨i, hi⟩ := List.mem_iff_getElem?.mp hmem
      rw [List.getElem?_modify] at hi
      obtain ⟨old, hold, rfl⟩ := Option.map_eq_some_iff.mp hi
      split
      · exact hadd entry List.mem_cons_self old (hdeltas old (List.mem_of_getElem? hold))
      · exact hdeltas old (List.mem_of_getElem? hold)
    obtain ⟨hall, hlength⟩ :=
      ih (fun e he => hadd e (List.mem_cons_of_mem entry he)) _ hmodified
    exact ⟨hall, hlength.trans (List.length_modify _ _ _)⟩

variable [LinearOrder F] [Sqrt F]

theorem length_elapsedDeltas (limits : EstimatorLimits F) (commands : List (GCodeCommand F)) :
    (elapsedDeltas limits commands).length = commands.length :=
  ((foldl_modify_add (p := fun _ => True) (fun _ _ _ _ => trivial) _
    (fun _ _ => trivial)).2).trans List.length_replicate

theorem length_elapsed [CirclePi F] (commands : List (GCodeCommand F))
    (limits : EstimatorLimits F) (toolDiameters : BTreeMap Nat F) :
    (estimatePrintWithElapsed commands limits toolDiameters).2.length = commands.length :=
  (length_runningSums 0 _).trans (length_elapsedDeltas limits commands)

end Length

/-! ### No segment takes less than no time -/

section Nonneg

variable {F : Type} [Field F] [LinearOrder F] [IsStrictOrderedRing F]

theorem SPEED_FLOOR_pos : (0 : F) < SPEED_FLOOR := by
  rw [SPEED_FLOOR]
  positivity

/-- Running sums of what is not negative ascend, from the sum before them to the total. -/
theorem pairwise_runningSums {deltas : List F} (hnonneg : ∀ delta ∈ deltas, 0 ≤ delta) (sum : F) :
    (sum :: runningSums sum deltas).Pairwise (· ≤ ·) := by
  induction deltas generalizing sum with
  | nil => exact List.pairwise_singleton _ _
  | cons delta deltas ih =>
    obtain ⟨hdelta, hrest⟩ := List.forall_mem_cons.mp hnonneg
    have hsorted := ih hrest (sum + delta)
    rw [runningSums, List.pairwise_cons]
    refine ⟨?_, hsorted⟩
    have hstep : sum ≤ sum + delta := le_add_of_nonneg_right hdelta
    exact List.forall_mem_cons.mpr
      ⟨hstep, fun later hlater => hstep.trans (List.rel_of_pairwise_cons hsorted hlater)⟩

variable [Sqrt F]

/-- The peak speed is at least the speeds at both ends, and so is the cruising speed. -/
theorem segmentTime_nonneg (dist ve vx vc a : F) : 0 ≤ segmentTime dist ve vx vc a := by
  rw [segmentTime]
  split
  · exact le_rfl
  · have ha : 0 < max a SPEED_FLOOR := lt_max_of_lt_right SPEED_FLOOR_pos
    have hramp : ∀ v w : F, w ≤ v → 0 ≤ (v - w) / max a SPEED_FLOOR := fun v w hle =>
      div_nonneg (sub_nonneg.mpr hle) ha.le
    have hve : ∀ v : F, ve ≤ max (max (max v ve) vx) SPEED_FLOOR := fun v =>
      (le_max_right v ve).trans ((le_max_left _ vx).trans (le_max_left _ _))
    have hvx : ∀ v : F, vx ≤ max (max (max v ve) vx) SPEED_FLOOR := fun v =>
      (le_max_right _ vx).trans (le_max_left _ _)
    dsimp only
    split
    · rename_i hreached
      have hcruise : 0 < max (max (max vc ve) vx) SPEED_FLOOR :=
        lt_max_of_lt_right SPEED_FLOOR_pos
      have hrest := div_nonneg (sub_nonneg.mpr hreached) hcruise.le
      rw [← sub_sub] at hrest
      exact add_nonneg (add_nonneg (hramp _ _ (hve vc)) (hramp _ _ (hvx vc))) hrest
    · exact add_nonneg (hramp _ _ (hve _)) (hramp _ _ (hvx _))

theorem segmentTimesFrom_nonneg (previous : Option (Segment F)) (segments : List (Segment F)) :
    ∀ time ∈ segmentTimesFrom previous segments, 0 ≤ time := by
  induction segments generalizing previous with
  | nil => simp [segmentTimesFrom]
  | cons seg rest ih =>
    rw [segmentTimesFrom, List.forall_mem_cons]
    exact ⟨segmentTime_nonneg _ _ _ _ _, ih (some seg)⟩

theorem elapsedDeltas_nonneg (limits : EstimatorLimits F) (commands : List (GCodeCommand F)) :
    ∀ delta ∈ elapsedDeltas limits commands, 0 ≤ delta := by
  refine (foldl_modify_add (p := fun delta => 0 ≤ delta) ?_ _ ?_).1
  · intro entry hmem delta hdelta
    exact add_nonneg hdelta (segmentTimesFrom_nonneg none _ _ (List.of_mem_zip hmem).2)
  · intro delta hmem
    exact (List.eq_of_mem_replicate hmem).ge

end Nonneg

end PinchNPrint.GCode
