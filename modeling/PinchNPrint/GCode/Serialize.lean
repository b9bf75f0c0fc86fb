/-
G-code serialization (`slicer-gcode`: `serialize.rs`, `flavor.rs`).

The text is kept as lines. A line that the serializer composes keeps its
numbers exact, next to the format they are printed in; raw text and the text of a
comment are passed through verbatim, line feeds included. The header and width
comments that precede the commands are left out: they are comments and hold no
command. Lines are grouped by the command that produces them.
-/

import PinchNPrint.GCode.Command

namespace PinchNPrint.GCode

open PinchNPrint.Layer

variable {F : Type} [Field F]

/-- How a number is printed: `{:.n}`, the same with trailing zeros trimmed, or
`{}`. -/
inductive NumberFormat where
  | fixed (decimals : Nat)
  | trimmed (decimals : Nat)
  | plain
deriving DecidableEq

/-- A letter and a number, with a minus sign of its own where the code prints
one in front of the number. -/
structure Word (F : Type) where
  letter : Char
  format : NumberFormat
  value : F
  minus : Bool := false
deriving DecidableEq

/-- The number that stands in the text; two minus signs are none. -/
def Word.number [LinearOrder F] (word : Word F) : Option F :=
  if word.minus then if word.value < 0 then none else some (-word.value) else some word.value

/-- A line of the output. -/
inductive Line (F : Type) where
  | words (code : String) (arguments : List (Word F))
  | verbatim (text : String)
deriving DecidableEq

inductive GcodeFlavor where
  | Marlin
  | Marlin2
  | Klipper
  | RepRapFirmware
  | Repetier
deriving DecidableEq

/-- `GcodeFlavor::set_temperature`. -/
def GcodeFlavor.setTemperature (flavor : GcodeFlavor) (tool : Nat) (celsius : F) (wait : Bool) :
    List (Line F) :=
  match flavor with
  | .RepRapFirmware =>
      .words "G10" [⟨'P', .plain, tool, false⟩, ⟨'S', .plain, celsius, false⟩] ::
        if wait then [.words "M116" []] else []
  | _ =>
      [.words (if wait then "M109" else "M104")
        [⟨'T', .plain, tool, false⟩, ⟨'S', .plain, celsius, false⟩]]

/-- `DefaultGCodeSerializer`: what the commands are rendered with. -/
structure DefaultGCodeSerializer where
  flavor : GcodeFlavor := .Marlin
  relative : Bool := true
deriving DecidableEq

/-- A coordinate word, if there is a coordinate. -/
def coordinate (letter : Char) (value : Option F) : List (Word F) :=
  (value.map fun v => ⟨letter, .trimmed GCODE_XY_DECIMALS, v, false⟩).toList

/-- The E word of a move. -/
def extrusionWord (relative : Bool) (accumulator : F) (e : Option F) : List (Word F) :=
  (e.map fun absolute =>
    ⟨'E', .fixed 5, if relative then absolute - accumulator else absolute, false⟩).toList

/-- The line of a retraction driven by G-code. -/
def retractionLine (relative minus : Bool) (length speed : F) : Line F :=
  .words "G1"
    [⟨'E', if relative then .fixed 5 else .trimmed 4, length, minus⟩,
      ⟨'F', .trimmed 4, speed, false⟩]

/-- What one command prints. -/
def commandLines (serializer : DefaultGCodeSerializer) (accumulator : F) :
    GCodeCommand F → List (Line F)
  | .Move x y z e f role =>
      [.words (if isTravel role then "G0" else "G1")
        (coordinate 'X' x ++ coordinate 'Y' y ++ coordinate 'Z' z ++
          extrusionWord serializer.relative accumulator e ++
          (f.map fun v => ⟨'F', .trimmed 4, v, false⟩).toList)]
  | .Retract length speed .Gcode => [retractionLine serializer.relative true length speed]
  | .Retract _ _ .Firmware => [.words "G10" []]
  | .Unretract length speed .Gcode => [retractionLine serializer.relative false length speed]
  | .Unretract _ _ .Firmware => [.words "G11" []]
  | .Raw text => [.verbatim text]
  | .FanSpeed value => [.words "M106" [⟨'S', .plain, value, false⟩]]
  | .Temperature tool celsius wait => serializer.flavor.setTemperature tool celsius wait
  | .ToolChange _ _ target => [.words s!"T{target}" []]
  | .Comment text => [.verbatim ("; " ++ text)]
  | .ExtrusionMode absolute => [.words (if absolute then "M82" else "M83") []]

/-- How one command moves the accumulator. Outside relative mode only a raw
reset touches it. -/
def nextAccumulator (relative : Bool) (accumulator : F) : GCodeCommand F → F
  | .Move _ _ _ (some e) _ _ => if relative then e else accumulator
  | .Retract length _ .Gcode => if relative then accumulator - length else accumulator
  | .Unretract length _ .Gcode => if relative then accumulator + length else accumulator
  | .Raw text => (resetPosition text).getD accumulator
  | _ => accumulator

/-- The command loop, from a value of the accumulator. -/
def serializeCommands (serializer : DefaultGCodeSerializer) :
    F → List (GCodeCommand F) → List (List (Line F))
  | _, [] => []
  | accumulator, command :: rest =>
      commandLines serializer accumulator command ::
        serializeCommands serializer (nextAccumulator serializer.relative accumulator command) rest

/-- `DefaultGCodeSerializer::serialize_gcode`, from the end of the header. -/
def serializeGcode (serializer : DefaultGCodeSerializer) (gcodeIr : GCodeIR F) : List (Line F) :=
  (serializeCommands serializer 0 gcodeIr.commands).flatten

theorem serializeCommands_append (serializer : DefaultGCodeSerializer) (accumulator : F)
    (before after : List (GCodeCommand F)) :
    serializeCommands serializer accumulator (before ++ after) =
      serializeCommands serializer accumulator before ++ serializeCommands serializer
        (before.foldl (nextAccumulator serializer.relative) accumulator) after := by
  induction before generalizing accumulator with
  | nil => rfl
  | cons command rest ih =>
    rw [List.cons_append, serializeCommands, ih]
    rfl

/-! ### The printed E values -/

section Extrusion

variable [LinearOrder F]

/-- The value of the E word of a line. -/
def Line.extrusion : Line F → Option F
  | .words _ arguments => (arguments.find? (·.letter = 'E')).bind Word.number
  | .verbatim _ => none

omit [Field F] [LinearOrder F] in
theorem find?_coordinate {letter : Char} (hletter : letter ≠ 'E') (value : Option F) :
    (coordinate letter value).find? (·.letter = 'E') = none := by
  cases value <;> simp [coordinate, hletter]

/-- A move prints its E value between the coordinates and the feedrate. -/
theorem extrusion_move {x y z e f : Option F} (relative : Bool) (a : F)
    (code : String) :
    (Line.words code (coordinate 'X' x ++ coordinate 'Y' y ++ coordinate 'Z' z ++
      extrusionWord relative a e ++
      (f.map fun v => (⟨'F', .trimmed 4, v, false⟩ : Word F)).toList)).extrusion =
      e.map fun absolute => if relative then absolute - a else absolute := by
  have hf : ((f.map fun v => (⟨'F', .trimmed 4, v, false⟩ : Word F)).toList).find?
      (·.letter = 'E') = none := by
    cases f <;> simp
  rw [Line.extrusion, List.find?_append, List.find?_append, List.find?_append, List.find?_append,
    find?_coordinate (by decide), find?_coordinate (by decide), find?_coordinate (by decide), hf]
  cases e <;> simp [extrusionWord, Word.number]

end Extrusion

end PinchNPrint.GCode
