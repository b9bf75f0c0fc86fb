/-
The G-code intermediate representation and what emission is configured with
(`slicer-ir`: `slice_ir.rs`, `feedrate.rs`; `slicer-gcode`: `error.rs`,
`emit.rs`).

Numbers are the elements of an ordered field with floor: nothing rounds and
every number is finite, so the checks for finiteness of the source are
vacuous. The square root is a parameter. Of a resolved configuration the
fields that the emitter and the estimator read are kept.
-/

import Mathlib.Data.Rat.Sqrt
import PinchNPrint.Layer.Ir
import PinchNPrint.Lib.Decimal

namespace PinchNPrint.GCode

open PinchNPrint.Layer

/-- The square root the host computes. -/
class Sqrt (F : Type) where
  sqrt : F → F

/-- Exact on the squares of rationals. -/
instance : Sqrt ℚ where
  sqrt := Rat.sqrt

export Sqrt (sqrt)

inductive GCodeCommand (F : Type) where
  | Move (x y z e f : Option F) (role : ExtrusionRole)
  | Retract (length speed : F) (mode : RetractMode)
  | Unretract (length speed : F) (mode : RetractMode)
  | FanSpeed (value : Nat)
  | Temperature (tool : Nat) (celsius : F) (wait : Bool)
  | ToolChange (afterEntityIndex source target : Nat)
  | Comment (text : String)
  | Raw (text : String)
  | ExtrusionMode (absolute : Bool)
deriving DecidableEq

structure PrintMetadata (F : Type) where
  estimatedPrintTimeS : Nat
  filamentUsedMm : List F
  layerCount : Nat
  slicerVersion : String
deriving DecidableEq

/-- `GCodeIR`, without its schema version. -/
structure GCodeIR (F : Type) where
  commands : List (GCodeCommand F)
  metadata : PrintMetadata F
deriving DecidableEq

/-- The role of moves that extrude nothing. -/
def travelRole : ExtrusionRole :=
  .Custom "Travel"

/-- `matches!(role, ExtrusionRole::Custom(s) if s == "Travel")`. -/
def isTravel (role : ExtrusionRole) : Bool :=
  role == travelRole

/-- The text of the marker that opens a layer. -/
def layerChangeText : String :=
  ";LAYER_CHANGE"

/-- `matches!(command, GCodeCommand::Raw { text } if text == ";LAYER_CHANGE")`. -/
def isLayerChange {F : Type} : GCodeCommand F → Bool
  | .Raw text => text == layerChangeText
  | _ => false

/-- A word `E<digits>` or `e<digits>`: the character and what follows it. -/
def startsWithE (token : String) : Bool :=
  Text.startsWith token "E" || Text.startsWith token "e"

section Numbers

variable {F : Type} [Field F]

/-- The number after the first character of a word. -/
def wordValue (token : String) : Option F :=
  Decimal.parse (String.ofList (token.toList.drop 1))

/-- The position a raw `G92` sets, as the serializer and the estimator read it:
only the first word of the whole text names the command, and the first word
that starts with an E carries the value. -/
def resetPosition (text : String) : Option F :=
  let trimmed := Text.trim text
  if Text.startsWith trimmed "G92" then
    ((Text.splitWhitespace trimmed).find? startsWithE).bind wordValue
  else none

end Numbers

/-- `ResolvedConfig`: the fields that thinning reads. -/
structure ResolvedConfig (F : Type) where
  minSegmentLength : F
  gcodeResolution : F
  infillResolution : F
  supportResolution : F

/-- `ResolvedConfig::default`. -/
instance {F : Type} [Field F] : Inhabited (ResolvedConfig F) where
  default :=
    { minSegmentLength := 1 / 20, gcodeResolution := 1 / 80
      infillResolution := 1 / 25, supportResolution := 3 / 80 }

/-- `gcode_xy_decimals`: both constructors of the emitter and of the serializer
set it to three and nothing changes it. -/
def GCODE_XY_DECIMALS : Nat :=
  3

/-- `u32::MAX`. -/
def U32_MAX : Nat :=
  2 ^ 32 - 1

end PinchNPrint.GCode
