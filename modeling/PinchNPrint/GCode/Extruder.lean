/-
What the serialized text makes the extruder do.

The reader has one position of the extruder. In relative mode (`M83`) an E word of
a move is a distance, in absolute mode (`M82`) a position; firmware retraction
(`G10`, `G11`) does not touch it. Lines that are passed through are read by a
`Firmware`, of which this is known: it leaves the extruder alone on a line that
starts with a semicolon or has no E word. The text of a comment is printed as it
is, so behind a line feed in it a line starts that need not be a comment.

The nominal position is what a command list prescribes: a move names the position
it ends at, a retraction a distance. The relative text follows the nominal
positions. The absolute text prints the length of a retraction where a position is
read, so the two agree exactly when every retraction starts at position zero and
no comment has driven the extruder elsewhere.
-/

import PinchNPrint.GCode.Serialize
import PinchNPrint.Lib.Sequences

namespace PinchNPrint.GCode

open PinchNPrint.Layer

variable {F : Type} [Field F] [LinearOrder F]

/-! ### Reading the text -/

/-- Where an E word brings the extruder. -/
def drive (relative : Bool) (position value : F) : F :=
  if relative then position + value else value

/-- The commands whose E word moves the extruder. -/
def isLinearMove (code : String) : Bool :=
  code == "G0" || code == "G1"

/-- The value of a word that is an E followed by a number, as the serializer reads it. -/
def eWord (token : String) : Option F :=
  if startsWithE token then wordValue token else none

/-- A number starts behind the blanks. -/
def numberFollows (text : List Char) : Bool :=
  (text.dropWhile (· == ' ')).head?.any fun c => c.isDigit || c == '+' || c == '-' || c == '.'

/-- Somewhere a number follows an E that no letter stands before. -/
def hasEWord (behindLetter : Bool) : List Char → Bool
  | [] => false
  | c :: rest =>
      !behindLetter && (c == 'E' || c == 'e') && numberFollows rest || hasEWord c.isAlpha rest

/-- How lines that are passed through move the extruder. -/
structure Firmware (F : Type) where
  read : Bool → F → String → F
  read_comment : ∀ relative position line, Text.startsWith line ";" = true →
    read relative position line = position
  read_quiet : ∀ relative position line, hasEWord false line.toList = false →
    read relative position line = position

/-- The position of the extruder after a line. -/
def readLine (firmware : Firmware F) (relative : Bool) (position : F) (line : Line F) : F :=
  match line with
  | .words code _ =>
      if isLinearMove code then (line.extrusion.map (drive relative position)).getD position
      else position
  | .verbatim text => (Text.lines text).foldl (firmware.read relative) position

/-- The position of the extruder behind the text of the first `n` commands. -/
def positionAt (firmware : Firmware F) (flavor : GcodeFlavor) (relative : Bool) (gcodeIr : GCodeIR F)
    (n : Nat) : F :=
  (serializeGcode ⟨flavor, relative⟩ { gcodeIr with commands := gcodeIr.commands.take n }).foldl
    (readLine firmware relative) 0

omit [LinearOrder F] in
/-- The text of the first commands is where the whole text begins. -/
theorem serializeGcode_take_prefix (serializer : DefaultGCodeSerializer) (gcodeIr : GCodeIR F)
    (n : Nat) : serializeGcode serializer { gcodeIr with commands := gcodeIr.commands.take n } <+:
      serializeGcode serializer gcodeIr := by
  have hsplit := serializeCommands_append serializer 0 (gcodeIr.commands.take n)
    (gcodeIr.commands.drop n)
  rw [List.take_append_drop] at hsplit
  rw [serializeGcode, serializeGcode, hsplit, List.flatten_append]
  exact List.prefix_append ..

/-! ### What a command list prescribes -/

/-- The position after a command: a move names it, a retraction shifts it. -/
def nominal (position : F) : GCodeCommand F → F
  | .Move _ _ _ (some e) _ _ => e
  | .Retract length _ .Gcode => position - length
  | .Unretract length _ .Gcode => position + length
  | _ => position

/-- Moves, retractions and unretractions. -/
def GCodeCommand.movesExtruder : GCodeCommand F → Bool
  | .Move .. | .Retract .. | .Unretract .. => true
  | _ => false

/-- Retractions and unretractions that the slicer drives itself, with a length
that can be read. -/
def GCodeCommand.isGcodeRetraction : GCodeCommand F → Bool
  | .Retract length _ .Gcode => 0 ≤ length
  | .Unretract _ _ .Gcode => true
  | _ => false

/-- Raw text without E words, for the serializer and for a firmware. -/
structure QuietText (F : Type) [Field F] (text : String) : Prop where
  tokens : ∀ token ∈ Text.splitWhitespace text, (eWord token : Option F) = none
  lines : ∀ line ∈ Text.lines text, hasEWord false line.toList = false

/-- No raw command of the list has an E word. -/
def QuietRaws (commands : List (GCodeCommand F)) : Prop :=
  ∀ text, .Raw text ∈ commands → QuietText F text

/-- The relative and the absolute text drive the extruder in the same way and
reach every position a move names. -/
structure DrivesAlike (firmware : Firmware F) (flavor : GcodeFlavor) (gcodeIr : GCodeIR F) :
    Prop where
  displacement : ∀ (i : Nat) (command : GCodeCommand F), gcodeIr.commands[i]? = some command →
    command.movesExtruder = true →
      positionAt firmware flavor true gcodeIr (i + 1) - positionAt firmware flavor true gcodeIr i =
        positionAt firmware flavor false gcodeIr (i + 1) -
          positionAt firmware flavor false gcodeIr i
  position : ∀ (i : Nat) (x y z : Option F) (e : F) (f : Option F) (role : ExtrusionRole),
    gcodeIr.commands[i]? = some (.Move x y z (some e) f role) →
    ∀ relative, positionAt firmware flavor relative gcodeIr (i + 1) = e

/-- The position after a command where all moves before have reached theirs: an
absolute retraction goes to its length, and the lines of a comment are read. -/
def reached (firmware : Firmware F) (relative : Bool) (position : F) : GCodeCommand F → F
  | .Move _ _ _ (some e) _ _ => e
  | .Retract length _ .Gcode => if 0 ≤ length then drive relative position (-length) else position
  | .Unretract length _ .Gcode => drive relative position length
  | .Comment text => (Text.lines ("; " ++ text)).foldl (firmware.read relative) position
  | _ => position

/-- Every slicer-driven retraction starts at position zero in the absolute text,
and every move at the nominal position in both. -/
structure Undisturbed (firmware : Firmware F) (commands : List (GCodeCommand F)) : Prop where
  retractions : ∀ i command, commands[i]? = some command → command.isGcodeRetraction = true →
    (commands.take i).foldl (reached firmware false) 0 = 0
  moves : ∀ (i : Nat) (x y z : Option F) (e : F) (f : Option F) (role : ExtrusionRole),
    commands[i]? = some (.Move x y z (some e) f role) →
    ∀ relative, (commands.take i).foldl (reached firmware relative) 0 =
      (commands.take i).foldl nominal 0

/-! ### Text without E words leaves the extruder alone -/

variable {text : String} {firmware : Firmware F}

omit [LinearOrder F] in
theorem resetPosition_of_quiet (h : QuietText F text) : (resetPosition text : Option F) = none := by
  rw [resetPosition]
  split
  case isTrue =>
    rw [Text.splitWhitespace_trim]
    cases hfind : (Text.splitWhitespace text).find? startsWithE with
    | none => rfl
    | some token =>
      have hquiet := h.tokens token (List.mem_of_find?_eq_some hfind)
      rw [eWord, if_pos (List.find?_some hfind)] at hquiet
      exact hquiet
  case isFalse => rfl

omit [Field F] [LinearOrder F] in
theorem foldl_read_of_quiet {lines : List String} (h : ∀ line ∈ lines,
      Text.startsWith line ";" = true ∨ hasEWord false line.toList = false)
    (relative : Bool) (position : F) : lines.foldl (firmware.read relative) position = position := by
  induction lines with
  | nil => rfl
  | cons line rest ih =>
    obtain ⟨hfirst, hrest⟩ := List.forall_mem_cons.mp h
    have hline : firmware.read relative position line = position := by
      rcases hfirst with hcomment | hquiet
      · exact firmware.read_comment relative position line hcomment
      · exact firmware.read_quiet relative position line hquiet
    rw [List.foldl_cons, hline]
    exact ih hrest

/-! ### One command -/

theorem readLine_move {x y z e f : Option F} {role : ExtrusionRole} (relative : Bool)
    (a position : F) :
    readLine firmware relative position (.words (if isTravel role then "G0" else "G1")
      (coordinate 'X' x ++ coordinate 'Y' y ++ coordinate 'Z' z ++ extrusionWord relative a e ++
        (f.map fun v => (⟨'F', .trimmed 4, v, false⟩ : Word F)).toList)) =
      (e.map fun value => drive relative position (if relative then value - a else value)).getD
        position := by
  have hcode : isLinearMove (if isTravel role then "G0" else "G1") = true := by
    split <;> rfl
  rw [readLine, if_pos hcode, extrusion_move, Option.map_map]
  rfl

theorem readLine_words (code : String) (arguments : List (Word F))
    (h : isLinearMove code = false) (relative : Bool) (position : F) :
    readLine firmware relative position (.words code arguments) = position := by
  rw [readLine, h]
  rfl

theorem isLinearMove_toolChange (target : Nat) : isLinearMove s!"T{target}" = false := by
  have hfirst : ∀ code : String, code.toList.head? = some 'G' → s!"T{target}" ≠ code := by
    rintro code hcode rfl
    have hT : ("T" ++ toString target).toList.head? = some 'T' := by
      rw [String.toList_append]
      rfl
    exact absurd (hT.symm.trans hcode) (by decide)
  rw [isLinearMove, Bool.or_eq_false_iff, beq_eq_false_iff_ne, beq_eq_false_iff_ne]
  exact ⟨hfirst _ rfl, hfirst _ rfl⟩

section Steps

variable {commands : List (GCodeCommand F)} {command : GCodeCommand F} {gcodeIr : GCodeIR F}
  (flavor : GcodeFlavor)

theorem foldl_readLine_temperature (relative : Bool) (tool : Nat) (celsius : F) (wait : Bool)
    (position : F) :
    (flavor.setTemperature tool celsius wait).foldl (readLine firmware relative) position =
      position := by
  cases flavor <;> cases wait <;> rfl

/-- Where the lines of a command bring the extruder: a move by the E word it
prints, any other command as `reached` says. -/
def arrives (firmware : Firmware F) (relative : Bool) (a position : F) (command : GCodeCommand F) :
    F :=
  match command with
  | .Move _ _ _ (some e) _ _ => drive relative position (if relative then e - a else e)
  | command => reached firmware relative position command

theorem foldl_readLine_command (hquiet : ∀ text, command = .Raw text → QuietText F text)
    (relative : Bool) (a position : F) :
    (commandLines ⟨flavor, relative⟩ a command).foldl (readLine firmware relative) position =
      arrives firmware relative a position command := by
  cases command with
  | Move x y z e f role =>
    rw [commandLines, List.foldl_cons, List.foldl_nil, readLine_move]
    cases e <;> rfl
  | Retract length speed mode =>
    cases mode with
    | Gcode =>
      by_cases hlength : 0 ≤ length
      · simp [commandLines, readLine, retractionLine, isLinearMove, Line.extrusion, Word.number,
          arrives, reached, hlength, not_lt.mpr hlength]
      · simp [commandLines, readLine, retractionLine, isLinearMove, Line.extrusion, Word.number,
          arrives, reached, hlength, not_le.mp hlength]
    | Firmware => rfl
  | Unretract length speed mode =>
    cases mode with
    | Gcode => simp [commandLines, readLine, retractionLine, isLinearMove, Line.extrusion,
        Word.number, arrives, reached]
    | Firmware => rfl
  | Raw text =>
    exact foldl_read_of_quiet (fun line hline => .inr ((hquiet text rfl).lines line hline)) _ _
  | Temperature tool celsius wait =>
    exact foldl_readLine_temperature flavor relative tool celsius wait _
  | ToolChange index source target =>
    exact @readLine_words F _ _ firmware _ [] (isLinearMove_toolChange target) relative position
  | FanSpeed value =>
    exact @readLine_words F _ _ firmware "M106" [⟨'S', .plain, (value : F), false⟩] (by decide)
      relative position
  | Comment text => rfl
  | ExtrusionMode absolute =>
    cases absolute with
    | true => exact @readLine_words F _ _ firmware "M82" [] (by decide) relative position
    | false => exact @readLine_words F _ _ firmware "M83" [] (by decide) relative position

omit [LinearOrder F] in
theorem nextAccumulator_of_quiet (hquiet : ∀ text, command = .Raw text → QuietText F text)
    (a : F) : nextAccumulator true a command = nominal a command := by
  cases command with
  | Move x y z e f role => cases e <;> rfl
  | Retract length speed mode => cases mode <;> rfl
  | Unretract length speed mode => cases mode <;> rfl
  | Raw text =>
    rw [nextAccumulator, resetPosition_of_quiet (hquiet text rfl)]
    rfl
  | _ => rfl

omit [LinearOrder F] in
/-- In relative mode the accumulator follows the nominal position. -/
theorem foldl_nextAccumulator (hquiet : QuietRaws commands) (a : F) :
    commands.foldl (nextAccumulator true) a = commands.foldl nominal a := by
  induction commands generalizing a with
  | nil => rfl
  | cons command rest ih =>
    have hhead : ∀ text, command = .Raw text → QuietText F text := by
      rintro text rfl
      exact hquiet text List.mem_cons_self
    rw [List.foldl_cons, List.foldl_cons, nextAccumulator_of_quiet hhead]
    exact ih (fun text htext => hquiet text (List.mem_cons_of_mem _ htext)) _

/-! ### The text, command by command -/

omit [Field F] [LinearOrder F] in
theorem foldl_take_succ {i : Nat} (h : commands[i]? = some command)
    (step : F → GCodeCommand F → F) (position : F) :
    (commands.take (i + 1)).foldl step position =
      step ((commands.take i).foldl step position) command := by
  rw [List.take_add_one, h, Option.toList_some, List.foldl_append]
  rfl

variable (firmware)

theorem positionAt_succ (hquiet : QuietRaws gcodeIr.commands) {i : Nat}
    (h : gcodeIr.commands[i]? = some command) (relative : Bool) :
    positionAt firmware flavor relative gcodeIr (i + 1) = arrives firmware relative
      ((gcodeIr.commands.take i).foldl (nextAccumulator relative) 0)
      (positionAt firmware flavor relative gcodeIr i) command := by
  have hcommand : ∀ text, command = .Raw text → QuietText F text := by
    rintro text rfl
    exact hquiet text (List.mem_of_getElem? h)
  rw [← foldl_readLine_command flavor hcommand, positionAt, serializeGcode]
  simp only [List.take_add_one, h, Option.toList_some, serializeCommands_append,
    List.flatten_append, List.foldl_append]
  rw [serializeCommands, serializeCommands, List.flatten_singleton]
  rfl

/-- Where a move starts at the nominal position it reaches its own, in either mode. -/
theorem arrives_eq_reached {relative : Bool} {a position : F}
    (h : ∀ x y z e f role, command = .Move x y z (some e) f role → relative = true →
      position = a) : arrives firmware relative a position command =
        reached firmware relative position command := by
  cases command with
  | Move x y z e f role =>
    cases e with
    | none => rfl
    | some e =>
      cases relative with
      | false => rfl
      | true =>
        rw [h x y z e f role rfl rfl]
        exact add_sub_cancel a e
  | _ => rfl

/-- As long as the moves start at the nominal position, the text goes where `reached` says. -/
theorem positionAt_eq_reached (hquiet : QuietRaws gcodeIr.commands) (relative : Bool) {n : Nat}
    (h : ∀ i < n, ∀ (x y z : Option F) (e : F) (f : Option F) (role : ExtrusionRole),
      gcodeIr.commands[i]? = some (.Move x y z (some e) f role) →
      (gcodeIr.commands.take i).foldl (reached firmware relative) 0 =
        (gcodeIr.commands.take i).foldl nominal 0) :
    positionAt firmware flavor relative gcodeIr n =
      (gcodeIr.commands.take n).foldl (reached firmware relative) 0 := by
  induction n with
  | zero => rfl
  | succ n ih =>
    have hbefore := ih fun i hi => h i (Nat.lt_succ_of_lt hi)
    cases hn : gcodeIr.commands[n]? with
    | none =>
      have hlength : gcodeIr.commands.length ≤ n := List.getElem?_eq_none_iff.mp hn
      rw [positionAt, List.take_of_length_le (Nat.le_succ_of_le hlength)]
      rwa [positionAt, List.take_of_length_le hlength] at hbefore
    | some command =>
      rw [positionAt_succ firmware flavor hquiet hn, foldl_take_succ hn, ← hbefore]
      refine arrives_eq_reached firmware fun x y z e f role hcommand hrelative => ?_
      rw [hbefore, h n (Nat.lt_succ_self n) x y z e f role (hcommand ▸ hn), hrelative,
        foldl_nextAccumulator fun text htext => hquiet text (List.mem_of_mem_take htext)]

/-! ### Where the two texts agree -/

/-- The relative and the absolute text of a command list without E words in its
raw text drive the extruder alike exactly when nothing disturbs it. -/
theorem drives_alike_iff (gcodeIr : GCodeIR F)
    (hquiet : QuietRaws gcodeIr.commands) :
    DrivesAlike firmware flavor gcodeIr ↔ Undisturbed firmware gcodeIr.commands := by
  have hnominal : ∀ i, (gcodeIr.commands.take i).foldl (nextAccumulator true) 0 =
      (gcodeIr.commands.take i).foldl nominal 0 := fun i =>
    foldl_nextAccumulator (fun text htext => hquiet text (List.mem_of_mem_take htext)) 0
  constructor
  · intro h
    -- by strong induction: up to a move both texts have gone where `reached` says
    have hmoves : ∀ i, ∀ (x y z : Option F) (e : F) (f : Option F) (role : ExtrusionRole),
        gcodeIr.commands[i]? = some (.Move x y z (some e) f role) → ∀ relative,
        (gcodeIr.commands.take i).foldl (reached firmware relative) 0 =
          (gcodeIr.commands.take i).foldl nominal 0 := by
      intro i
      induction i using Nat.strong_induction_on with
      | _ i ih =>
        intro x y z e f role hi relative
        have hrel := positionAt_succ firmware flavor hquiet hi true
        have habs := positionAt_succ firmware flavor hquiet hi false
        rw [← positionAt_eq_reached firmware flavor hquiet relative fun j hj x y z e f role hmove =>
          ih j hj x y z e f role hmove relative]
        have hstart : positionAt firmware flavor true gcodeIr i =
            (gcodeIr.commands.take i).foldl nominal 0 := by
          have harrives := hrel.symm.trans (h.position i x y z e f role hi true)
          rw [hnominal] at harrives
          simp only [arrives, drive, if_true] at harrives
          linear_combination harrives
        cases relative with
        | true => exact hstart
        | false =>
          have hsame := h.displacement i _ hi rfl
          rw [h.position i x y z e f role hi, h.position i x y z e f role hi,
            sub_right_inj] at hsame
          exact hsame.symm.trans hstart
    refine ⟨fun i command hi hretraction => ?_, hmoves⟩
    have hreached := fun relative => positionAt_eq_reached firmware flavor hquiet
      relative (n := i) fun j _ x y z e f role hmove => hmoves j x y z e f role hmove relative
    have hmovesExtruder : command.movesExtruder = true := by
      cases command <;> first | rfl | cases hretraction
    have hsame := h.displacement i command hi hmovesExtruder
    rw [positionAt_succ firmware flavor hquiet hi, positionAt_succ firmware flavor hquiet hi]
      at hsame
    rw [← hreached]
    cases command with
    | Retract length speed mode =>
      cases mode with
      | Gcode =>
        have hlength : 0 ≤ length := of_decide_eq_true hretraction
        simp only [arrives, reached, drive, if_pos hlength, if_true, Bool.false_eq_true,
          if_false] at hsame
        linear_combination hsame
      | Firmware => cases hretraction
    | Unretract length speed mode =>
      cases mode with
      | Gcode =>
        simp only [arrives, reached, drive, if_true, Bool.false_eq_true, if_false] at hsame
        linear_combination hsame
      | Firmware => cases hretraction
    | _ => cases hretraction
  · intro h
    have hreached := fun relative n => positionAt_eq_reached firmware flavor hquiet
      relative (n := n) fun j _ x y z e f role hmove => h.moves j x y z e f role hmove relative
    constructor
    · intro i command hi _
      rw [hreached, hreached, hreached, hreached, foldl_take_succ hi, foldl_take_succ hi]
      cases command with
      | Move x y z e f role =>
        cases e with
        | none => simp [reached]
        | some e =>
          rw [h.moves i x y z e f role hi, h.moves i x y z e f role hi]
          rfl
      | Retract length speed mode =>
        cases mode with
        | Gcode =>
          by_cases hlength : 0 ≤ length
          · rw [h.retractions i _ hi (decide_eq_true hlength)]
            simp [reached, drive, hlength]
          · simp [reached, hlength]
        | Firmware => simp [reached]
      | Unretract length speed mode =>
        cases mode with
        | Gcode =>
          rw [h.retractions i _ hi rfl]
          simp [reached, drive]
        | Firmware => simp [reached]
      | _ => simp_all [GCodeCommand.movesExtruder]
    · intro i x y z e f role hi relative
      rw [hreached, foldl_take_succ hi]
      rfl

/-! ### Plain comments -/

/-- Every line that a comment prints is one or has no E word, and no retraction
has a negative length. -/
structure PlainCommands (commands : List (GCodeCommand F)) : Prop where
  comments : ∀ text, .Comment text ∈ commands → ∀ line ∈ Text.lines ("; " ++ text),
    Text.startsWith line ";" = true ∨ hasEWord false line.toList = false
  lengths : ∀ length speed, .Retract length speed .Gcode ∈ commands → 0 ≤ length

/-- Every slicer-driven retraction starts at nominal position zero. -/
def RetractsFromZero (commands : List (GCodeCommand F)) : Prop :=
  ∀ i command, commands[i]? = some command → command.isGcodeRetraction = true →
    (commands.take i).foldl nominal 0 = 0

theorem reached_eq_nominal (hplain : PlainCommands commands) (hmem : command ∈ commands)
    {relative : Bool} {position : F}
    (h : relative = false → command.isGcodeRetraction = true → position = 0) :
    reached firmware relative position command = nominal position command := by
  cases command with
  | Move x y z e f role => cases e <;> rfl
  | Retract length speed mode =>
    cases mode with
    | Gcode =>
      have hlength := hplain.lengths length speed hmem
      rw [reached, if_pos hlength, nominal, sub_eq_add_neg]
      cases relative with
      | true => rfl
      | false => rw [h rfl (decide_eq_true hlength), zero_add, drive, if_neg Bool.false_ne_true]
    | Firmware => rfl
  | Unretract length speed mode =>
    cases mode with
    | Gcode =>
      cases relative with
      | true => rfl
      | false => rw [reached, nominal, h rfl rfl, zero_add, drive, if_neg Bool.false_ne_true]
    | Firmware => rfl
  | Comment text => exact foldl_read_of_quiet (hplain.comments text hmem) relative position
  | _ => rfl

theorem foldl_reached_eq_nominal (hplain : PlainCommands commands) {relative : Bool} {n : Nat}
    (h : ∀ i < n, ∀ command, commands[i]? = some command → relative = false →
      command.isGcodeRetraction = true → (commands.take i).foldl nominal 0 = 0) :
    (commands.take n).foldl (reached firmware relative) 0 = (commands.take n).foldl nominal 0 := by
  induction n with
  | zero => rfl
  | succ n ih =>
    have hbefore := ih fun i hi => h i (Nat.lt_succ_of_lt hi)
    cases hn : commands[n]? with
    | none =>
      have hlength : commands.length ≤ n := List.getElem?_eq_none_iff.mp hn
      rw [List.take_of_length_le (Nat.le_succ_of_le hlength)]
      rwa [List.take_of_length_le hlength] at hbefore
    | some command =>
      rw [foldl_take_succ hn, foldl_take_succ hn, hbefore]
      exact reached_eq_nominal firmware hplain (List.mem_of_getElem? hn)
        (h n (Nat.lt_succ_self n) command hn)

/-- Where comments are plain, only retractions from elsewhere than zero disturb. -/
theorem undisturbed_iff_of_plain (hplain : PlainCommands commands) :
    Undisturbed firmware commands ↔ RetractsFromZero commands := by
  constructor
  · intro h i
    induction i using Nat.strong_induction_on with
    | _ i ih =>
      intro command hi hretraction
      rw [← foldl_reached_eq_nominal firmware hplain fun j hj other hother _ => ih j hj other hother]
      exact h.retractions i command hi hretraction
  · intro h
    have hreached := fun relative n => @foldl_reached_eq_nominal F _ _ firmware commands hplain
      relative n fun i _ command hi _ => h i command hi
    exact ⟨fun i command hi hretraction => (hreached false i).trans (h i command hi hretraction),
      fun i _ _ _ _ _ _ _ relative => hreached relative i⟩

end Steps

/-- A firmware that reads one command a line, in words between blanks. -/
def lineFirmware : Firmware ℚ where
  read relative position line :=
    if Text.startsWith line ";" || !hasEWord false line.toList then position
    else
      let words := Text.splitWhitespace line
      match words.head?, words.findSome? (eWord : String → Option ℚ) with
      | some code, some value =>
          if code = "G92" then value
          else if isLinearMove code then drive relative position value
          else position
      | _, _ => position
  read_comment relative position line h := if_pos (by rw [h, Bool.true_or])
  read_quiet relative position line h := if_pos (by rw [h, Bool.not_false, Bool.or_true])

/-- Commands of a print of one layer. -/
def gcodeOf (commands : List (GCodeCommand ℚ)) : GCodeIR ℚ where
  commands := commands
  metadata :=
    { estimatedPrintTimeS := 0, filamentUsedMm := [], layerCount := 1, slicerVersion := "1" }

/-- A comment of two lines, a dwell, and retractions from zero only. -/
def wipe : GCodeIR ℚ :=
  gcodeOf [.Comment "wipe\nM400", .Raw "G4 P10", .Retract 1 2400 .Gcode,
    .Move none none none (some 0) none .OuterWall, .Unretract (1 / 2) 2400 .Gcode,
    .Move (some 5) none none (some 3) none .OuterWall, .Retract 1 2400 .Firmware]

theorem drives_alike_from_zero : DrivesAlike lineFirmware .Marlin wipe := by
  have hplain : PlainCommands wipe.commands := by
    constructor
    · intro text htext
      simp only [wipe, gcodeOf, List.mem_cons, List.not_mem_nil, or_false, reduceCtorEq, or_self,
        GCodeCommand.Comment.injEq] at htext
      subst htext
      decide +kernel
    · intro length speed hmem
      simp only [wipe, gcodeOf, List.mem_cons, List.not_mem_nil, or_false, reduceCtorEq, or_self,
        GCodeCommand.Retract.injEq, false_or, and_true, and_false] at hmem
      rw [hmem.1]
      exact zero_le_one
  refine (drives_alike_iff lineFirmware .Marlin wipe ?_).mpr
    ((undisturbed_iff_of_plain lineFirmware hplain).mpr ?_)
  · intro text htext
    simp only [wipe, gcodeOf, List.mem_cons, List.not_mem_nil, or_false, reduceCtorEq, or_self,
      GCodeCommand.Raw.injEq, false_or] at htext
    subst htext
    exact ⟨by decide +kernel, by decide +kernel⟩
  · intro i command hi hretraction
    match i, hi with
    | 0, hi | 1, hi | 3, hi | 5, hi | 6, hi => cases hi; cases hretraction
    | 2, _ => rfl
    | 4, _ => rfl

/-- One millimetre forward and back. -/
def forwardAndBack : GCodeIR ℚ :=
  gcodeOf [.Move none none none (some 1) none .OuterWall, .Retract 1 2400 .Gcode]

/-- The retraction is one millimetre in the relative text and two in the
absolute one. -/
theorem absolute_retract_overshoots :
    QuietRaws forwardAndBack.commands ∧ ¬ DrivesAlike lineFirmware .Marlin forwardAndBack := by
  refine ⟨fun text htext => ?_, fun h => ?_⟩
  · simp [forwardAndBack, gcodeOf] at htext
  · have hsame := h.displacement 1 (.Retract 1 2400 .Gcode) rfl rfl
    exact absurd hsame (by decide +kernel)

end PinchNPrint.GCode
