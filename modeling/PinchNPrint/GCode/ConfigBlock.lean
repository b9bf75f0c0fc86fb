/-
The CONFIG_BLOCK (`slicer-gcode`: `serialize.rs`, `flavor.rs`).

A key is written once, by the first that writes it: the synthetic keys, the alias keys, the
defaults, the map itself and the padding, in this order. Texts of the map are escaped, but not
the flavour and not the sources of the alias keys; and the padding runs out at 77 keys, of which
none comes from the map (`configBlock_wellFormed_iff`).

The block is the list of the pairs that are written, and its text. How numbers print is a
parameter.
-/

import PinchNPrint.Config.Value
import PinchNPrint.GCode.Serialize

namespace PinchNPrint.GCode

open Config (ConfigValue Floats)

/-- The printing of numbers and of nested values, in which nothing breaks a line. -/
class Printing (F : Type) extends Floats F where
  /-- `f32::to_string`. -/
  display32 : F → String
  newline_display : ∀ value, '\n' ∉ (display value).toList
  newline_display32 : ∀ value, '\n' ∉ (display32 value).toList
  newline_debug : ∀ value, '\n' ∉ (debug value).toList
  newline_debugText : ∀ text, '\n' ∉ (debugText text).toList

/-- `GcodeFlavor::config_str`. -/
def GcodeFlavor.configStr : GcodeFlavor → String
  | .Marlin => "marlin"
  | .Marlin2 => "marlin2"
  | .Klipper => "klipper"
  | .RepRapFirmware => "reprapfirmware"
  | .Repetier => "repetier"

def ORCA_CONFIG_PADDING : List (String × String) :=
  [("single_extruder_multi_material", "1"), ("seam_position", "aligned"), ("spiral_mode", "0"),
    ("detect_thin_wall", "1"), ("detect_overhang_wall", "1"), ("enable_support", "0"),
    ("support_material", "0"), ("raft_layers", "0"), ("brim_type", "auto_brim"),
    ("brim_width", "0"), ("skirt_loops", "1"), ("skirt_distance", "2"),
    ("sparse_infill_density", "20%"), ("sparse_infill_pattern", "grid"),
    ("top_surface_pattern", "monotonic"), ("bottom_surface_pattern", "monotonic"),
    ("ironing_type", "no ironing"), ("fuzzy_skin", "none"), ("bottom_shell_layers", "3"),
    ("reduce_crossing_wall", "0"), ("max_travel_detour_distance", "0"), ("resolution", "0.012"),
    ("xy_hole_compensation", "0"), ("xy_contour_compensation", "0"),
    ("elefant_foot_compensation", "0"), ("seam_gap", "10%"), ("wipe_on_loops", "1"),
    ("reduce_infill_retraction", "1"), ("z_offset", "0"), ("printable_height", "250"),
    ("print_sequence", "by layer"), ("slow_down_for_layer_cooling", "1"),
    ("slow_down_layer_time", "8"), ("fan_cooling_layer_time", "100"),
    ("reduce_fan_stop_start_freq", "1"), ("prime_tower_brim_width", "3"),
    ("wipe_tower_rotation_angle", "0"), ("wall_loops", "2"), ("top_shell_layers", "4"),
    ("infill_direction", "45"), ("wall_generator", "arachne"), ("ironing_pattern", "rectilinear"),
    ("support_type", "normal(auto)"), ("support_style", "default"),
    ("tree_support_branch_angle", "40"), ("tree_support_branch_diameter", "5"),
    ("tree_support_branch_diameter_angle", "5"), ("interface_shells", "0"),
    ("seam_slope_type", "none"), ("brim_object_gap", "0"), ("skirt_height", "1"),
    ("raft_first_layer_density", "90%"), ("filter_out_gap_fill", "0"),
    ("fuzzy_skin_mode", "displacement"), ("fuzzy_skin_thickness", "0.2"),
    ("fuzzy_skin_point_distance", "0.3"), ("wipe_tower_no_sparse_layers", "0"),
    ("wipe_tower_x", "15"), ("wipe_tower_y", "220"), ("wipe_tower_width", "60"),
    ("ooze_prevention", "0"), ("gap_fill_target", "nowhere"), ("extra_perimeters", "0"),
    ("extra_perimeters_on_overhangs", "0"), ("wall_direction", "ccw"),
    ("outer_wall_direction", "ccw"), ("infill_first", "0"), ("solid_infill_filament", "0"),
    ("top_fill_pattern", "monotonic")]

def SUPPORT_CONFIG_DEFAULTS : List (String × String) :=
  [("support_expansion", "0"), ("support_top_z_distance", "0.2"),
    ("support_bottom_z_distance", "0.2")]

/-- `ORCA_CONFIG_ALIAS_KEYS`: a key of the block and the key of its source. -/
def ORCA_CONFIG_ALIAS_KEYS : List (String × String) :=
  [("wall_loops", "wall_count"), ("infill_direction", "infill_angle"),
    ("resolution", "gcode_resolution"), ("support_material", "enable_support"),
    ("seam_position", "seam_mode"), ("spiral_mode", "spiral_vase"),
    ("fuzzy_skin_thickness", "thickness"), ("fuzzy_skin_point_distance", "point_distance")]

/-! ### Values -/

/-- What `escape_cstyle` writes for a character. -/
def escapeChar : Char → List Char
  | '\n' => ['\\', 'n']
  | '\r' => ['\\', 'r']
  | '\\' => ['\\', '\\']
  | '"' => ['\\', '"']
  | other => [other]

def escapeCstyle (s : String) : String :=
  String.ofList (s.toList.flatMap escapeChar)

section Values

variable {F : Type} [Printing F]

def formatConfigFloat (value : F) : String :=
  if Floats.eq (Floats.narrow value) value then Printing.display32 value
  else Floats.display value

def renderAppendixAliasValue : ConfigValue F → Option String
  | .bool b => some (if b then "1" else "0")
  | .int i => some (toString i)
  | .float f => some (Floats.display f)
  | .string s => some s
  | .list _ | .percent _ | .floatOrPercent _ _ => none

/-- One of a list of numbers. -/
def isNumeric : ConfigValue F → Bool
  | .float _ | .int _ => true
  | _ => false

/-- An element of a list. -/
def listPart : ConfigValue F → String
  | .string s => escapeCstyle s
  | .float f => formatConfigFloat f
  | .int i => toString i
  | .bool b => if b then "1" else "0"
  | other => other.debug

/-- A value of the map, as it is written. -/
def configValueText : ConfigValue F → String
  | .bool b => toString b
  | .int i => toString i
  | .float f => formatConfigFloat f
  | .string s => escapeCstyle s
  | .percent p => Floats.display p ++ "%"
  | .floatOrPercent value isPercent =>
    if isPercent then Floats.display value ++ "%" else formatConfigFloat value
  | .list items =>
    let allNumeric := !items.isEmpty && items.all isNumeric
    Text.join (if allNumeric then ',' else ';') (items.map listPart)

/-- The diameter of the filament, if the map has no list of them. -/
def effectiveDiameter : Option (ConfigValue F) → Option String
  | some (.list _) => none
  | some (.float f) => some (formatConfigFloat f)
  | some (.int i) => some (toString i)
  | some (.string s) => some (escapeCstyle s)
  | _ => some "1.75"

/-! ### The block -/

/-- One colour for each filament, and at least one. -/
def filamentCount (filamentColourCsv : String) : Nat :=
  max ((Text.split ';' filamentColourCsv).countP fun s => Text.trim s ≠ "") 1

def emitConfigKv (entries : List (String × String)) (entry : String × String) :
    List (String × String) :=
  if entry.1 ∈ entries.map Prod.fst then entries else entries ++ [entry]

variable (rawConfig : BTreeMap String (ConfigValue F)) (filamentColourCsv : String)
  (flavor : GcodeFlavor)

/-- The value of the flavour. -/
def flavorValue : String :=
  match rawConfig["gcode_flavor"]? with
  | some (.string value) => value
  | _ => flavor.configStr

/-- A pair that is only written if the map does not have the key. -/
def whenAbsent (key value : String) : List (String × String) :=
  if key ∈ rawConfig then [] else [(key, value)]

/-- The synthetic keys. -/
def syntheticPairs : List (String × String) :=
  ((effectiveDiameter rawConfig["filament_diameter"]?).map fun effective =>
      ("filament_diameter",
        Text.join ',' (List.replicate (filamentCount filamentColourCsv) effective))).toList ++
    whenAbsent rawConfig "filament_colour" filamentColourCsv ++
    whenAbsent rawConfig "extruder_colour" filamentColourCsv ++
    whenAbsent rawConfig "printer_model" "Generic PNP Printer" ++
    [("gcode_flavor", flavorValue rawConfig flavor)]

/-- The alias keys whose source has a scalar rendering. -/
def aliasPairs : List (String × String) :=
  ORCA_CONFIG_ALIAS_KEYS.filterMap fun (appendixKey, pnpKey) =>
    (rawConfig[pnpKey]?.bind renderAppendixAliasValue).map (appendixKey, ·)

/-- What is written before the padding, in this order. -/
def configPairs : List (String × String) :=
  syntheticPairs rawConfig filamentColourCsv flavor ++
    aliasPairs rawConfig ++
    SUPPORT_CONFIG_DEFAULTS.flatMap (fun (key, value) => whenAbsent rawConfig key value) ++
    rawConfig.toList.map fun (key, value) => (key, configValueText value)

/-- The loop over the padding. -/
def emitPadding (entries : List (String × String)) :
    List (String × String) → List (String × String)
  | [] => entries
  | entry :: rest =>
    if entries.length ≥ 96 then entries else emitPadding (emitConfigKv entries entry) rest

/-- The pairs of the block. -/
def configEntries : List (String × String) :=
  emitPadding ((configPairs rawConfig filamentColourCsv flavor).foldl emitConfigKv [])
    ORCA_CONFIG_PADDING

/-- The line of a pair. -/
def configLine (entry : String × String) : String :=
  "; " ++ entry.1 ++ " = " ++ entry.2

def serializeConfigBlock : String :=
  "; CONFIG_BLOCK_START\n" ++
    String.join ((configEntries rawConfig filamentColourCsv flavor).map (configLine · ++ "\n")) ++
    "; CONFIG_BLOCK_END\n"

end Values

/-! ### Pairs that are written once -/

section Emit

variable {entries pairs : List (String × String)} {entry : String × String} {key : String}

theorem lookup_emitConfigKv :
    (emitConfigKv entries entry).lookup key = (entries.lookup key).or ([entry].lookup key) := by
  rw [emitConfigKv]
  split
  · rename_i hmem
    cases hlookup : entries.lookup key with
    | some value => rfl
    | none =>
      obtain ⟨other, hother, hkey⟩ := List.mem_map.mp hmem
      have hne : key ≠ entry.1 := by
        have := List.lookup_eq_none_iff.mp hlookup other hother
        rw [← hkey]
        simpa using this
      rw [Option.none_or, eq_comm, List.lookup_eq_none_iff]
      simpa using hne
  · rw [List.lookup_append]

/-- The first pair with a key is the one that is written. -/
theorem lookup_foldl_emitConfigKv :
    (pairs.foldl emitConfigKv entries).lookup key =
      (entries.lookup key).or (pairs.lookup key) := by
  induction pairs generalizing entries with
  | nil => simp
  | cons entry rest ih =>
    rw [List.foldl_cons, ih, lookup_emitConfigKv, Option.or_assoc, ← List.lookup_append,
      List.singleton_append]

theorem nodup_foldl_emitConfigKv (h : (entries.map Prod.fst).Nodup) :
    ((pairs.foldl emitConfigKv entries).map Prod.fst).Nodup := by
  induction pairs generalizing entries with
  | nil => exact h
  | cons entry rest ih =>
    refine ih ?_
    rw [emitConfigKv]
    split
    · exact h
    · rename_i hnew
      rw [List.map_append, List.nodup_append]
      exact ⟨h, List.nodup_singleton _, fun k hk k' hk' heq =>
        hnew (List.mem_singleton.mp hk' ▸ heq ▸ hk)⟩

theorem mem_of_mem_foldl_emitConfigKv (h : entry ∈ pairs.foldl emitConfigKv entries) :
    entry ∈ entries ∨ entry ∈ pairs := by
  induction pairs generalizing entries with
  | nil => exact Or.inl h
  | cons first rest ih =>
    rcases ih h with hmem | hmem
    · rw [emitConfigKv] at hmem
      split at hmem
      · exact Or.inl hmem
      · rcases List.mem_append.mp hmem with hold | hnew
        · exact Or.inl hold
        · exact Or.inr (List.mem_singleton.mp hnew ▸ List.mem_cons_self)
    · exact Or.inr (List.mem_cons_of_mem _ hmem)

theorem mem_keys_iff : key ∈ entries.map Prod.fst ↔ (entries.lookup key).isSome = true := by
  rw [List.lookup_isSome_iff, List.mem_map]
  constructor
  · rintro ⟨entry, hentry, rfl⟩
    exact ⟨entry, hentry, by simp⟩
  · rintro ⟨entry, hentry, hkey⟩
    exact ⟨entry, hentry, (eq_of_beq hkey).symm⟩

theorem mem_of_lookup {value : String} (h : entries.lookup key = some value) :
    (key, value) ∈ entries := by
  obtain ⟨before, after, rfl, _⟩ := List.lookup_eq_some_iff.mp h
  exact List.mem_append_right _ List.mem_cons_self

/-- The padding writes a part of its table, and all of it where few keys are written. -/
theorem exists_emitPadding (entries table : List (String × String)) :
    ∃ part, (∀ entry ∈ part, entry ∈ table) ∧
      emitPadding entries table = part.foldl emitConfigKv entries ∧
      (part = table ∨ 96 ≤ (emitPadding entries table).length) := by
  induction table generalizing entries with
  | nil => exact ⟨[], fun _ => id, rfl, Or.inl rfl⟩
  | cons entry rest ih =>
    rw [emitPadding]
    split
    · rename_i hfull
      exact ⟨[], by simp, rfl, Or.inr hfull⟩
    · obtain ⟨part, hpart, hemit, hall⟩ := ih (emitConfigKv entries entry)
      refine ⟨entry :: part, ?_, hemit, hall.imp (fun h => by rw [h]) id⟩
      exact List.forall_mem_cons.mpr ⟨List.mem_cons_self, fun e he =>
        List.mem_cons_of_mem _ (hpart e he)⟩

end Emit

/-! ### Keys -/

section Keys

variable {F : Type} [Printing F] {rawConfig : BTreeMap String (ConfigValue F)}
  {filamentColourCsv : String} {flavor : GcodeFlavor} {key : String}

/-- The keys of the synthetic pairs. -/
def SYNTHETIC_KEYS : List String :=
  ["filament_diameter", "filament_colour", "extruder_colour", "printer_model", "gcode_flavor"]

/-- All keys that the block knows by itself. -/
def tableKeys : List String :=
  SYNTHETIC_KEYS ++ SUPPORT_CONFIG_DEFAULTS.map Prod.fst ++ ORCA_CONFIG_PADDING.map Prod.fst

theorem nodup_tableKeys : tableKeys.Nodup := by
  decide +kernel

theorem length_tableKeys : tableKeys.length = 77 :=
  rfl

variable {entry : String × String}

omit [Printing F] in
theorem mem_whenAbsent {value : String} :
    entry ∈ whenAbsent rawConfig key value ↔ key ∉ rawConfig ∧ entry = (key, value) := by
  rw [whenAbsent]
  split <;> simp [*]

theorem lookup_of_mem {entries : List (String × String)} {value : String}
    (hnodup : (entries.map Prod.fst).Nodup) (h : (key, value) ∈ entries) :
    entries.lookup key = some value := by
  cases hlookup : entries.lookup key with
  | none => simpa using List.lookup_eq_none_iff.mp hlookup _ h
  | some value' =>
    have hsame := List.inj_on_of_nodup_map hnodup (mem_of_lookup hlookup) h rfl
    exact congrArg some (Prod.mk.inj hsame).2

theorem lookup_eq_none_of_forall {entries : List (String × String)}
    (h : ∀ entry ∈ entries, entry.1 ≠ key) : entries.lookup key = none := by
  rw [List.lookup_eq_none_iff]
  intro entry hentry
  simpa using (h entry hentry).symm

theorem lookup_rawPairs :
    (rawConfig.toList.map fun (key, value) => (key, configValueText value)).lookup key =
      rawConfig[key]?.map configValueText := by
  have hkeys : ((rawConfig.toList.map fun (key, value) => (key, configValueText value)).map
      Prod.fst).Nodup := by
    have hfst : (rawConfig.toList.map fun (key, value) => (key, configValueText value)).map
        Prod.fst = rawConfig.keys := by
      rw [List.map_map, ← Std.ExtTreeMap.map_fst_toList_eq_keys]
      rfl
    rw [hfst]
    exact Std.ExtTreeMap.nodup_keys
  cases hraw : rawConfig[key]? with
  | some value =>
    refine lookup_of_mem hkeys (List.mem_map.mpr ⟨(key, value), ?_, rfl⟩)
    exact Std.ExtTreeMap.mem_toList_iff_getElem?_eq_some.mpr hraw
  | none =>
    refine lookup_eq_none_of_forall fun entry hentry => ?_
    obtain ⟨⟨key', value⟩, hmem, rfl⟩ := List.mem_map.mp hentry
    rintro rfl
    rw [Std.ExtTreeMap.mem_toList_iff_getElem?_eq_some] at hmem
    exact absurd (hraw.symm.trans hmem) (by simp)

theorem mem_syntheticPairs (h : entry ∈ syntheticPairs rawConfig filamentColourCsv flavor) :
    entry.1 ∈ SYNTHETIC_KEYS ∧
      (entry.1 = "filament_diameter" ∨ entry.1 = "gcode_flavor" ∨ entry.1 ∉ rawConfig) := by
  simp only [syntheticPairs, List.mem_append, Option.mem_toList,
    Option.map_eq_some_iff, mem_whenAbsent, List.mem_singleton] at h
  rcases h with (((⟨_, _, rfl⟩ | ⟨hnew, rfl⟩) | ⟨hnew, rfl⟩) | ⟨hnew, rfl⟩) | rfl
  · exact ⟨by simp [SYNTHETIC_KEYS], Or.inl rfl⟩
  · exact ⟨by simp [SYNTHETIC_KEYS], Or.inr (Or.inr hnew)⟩
  · exact ⟨by simp [SYNTHETIC_KEYS], Or.inr (Or.inr hnew)⟩
  · exact ⟨by simp [SYNTHETIC_KEYS], Or.inr (Or.inr hnew)⟩
  · exact ⟨by simp [SYNTHETIC_KEYS], Or.inr (Or.inl rfl)⟩

theorem mem_aliasPairs_iff :
    entry ∈ aliasPairs rawConfig ↔ ∃ row ∈ ORCA_CONFIG_ALIAS_KEYS,
      row.1 = entry.1 ∧ rawConfig[row.2]?.bind renderAppendixAliasValue = some entry.2 := by
  rw [aliasPairs, List.mem_filterMap]
  constructor
  · rintro ⟨row, hrow, hentry⟩
    obtain ⟨value, hvalue, rfl⟩ := Option.map_eq_some_iff.mp hentry
    exact ⟨row, hrow, rfl, hvalue⟩
  · rintro ⟨row, hrow, hkey, hvalue⟩
    exact ⟨row, hrow, Option.map_eq_some_iff.mpr ⟨entry.2, hvalue, by rw [hkey]⟩⟩

theorem nodup_aliasPairs : ((aliasPairs rawConfig).map Prod.fst).Nodup := by
  have hsublist : ∀ table : List (String × String),
      ((table.filterMap fun row => (rawConfig[row.2]?.bind renderAppendixAliasValue).map
        (row.1, ·)).map Prod.fst).Sublist (table.map Prod.fst) := by
    intro table
    induction table with
    | nil => exact .slnil
    | cons row rest ih =>
      cases hrow : rawConfig[row.2]?.bind renderAppendixAliasValue with
      | none =>
        rw [List.filterMap_cons_none (by simp [hrow]), List.map_cons]
        exact ih.cons _
      | some value =>
        rw [List.filterMap_cons_some (by rw [hrow]; rfl), List.map_cons, List.map_cons]
        exact ih.cons_cons _
  have htable : (ORCA_CONFIG_ALIAS_KEYS.map Prod.fst).Nodup := by decide +kernel
  exact (hsublist ORCA_CONFIG_ALIAS_KEYS).nodup htable

omit [Printing F] in
theorem mem_defaultPairs
    (h : entry ∈ SUPPORT_CONFIG_DEFAULTS.flatMap fun (key, value) => whenAbsent rawConfig key value)
    : entry ∈ SUPPORT_CONFIG_DEFAULTS ∧ entry.1 ∉ rawConfig := by
  obtain ⟨row, hrow, hentry⟩ := List.mem_flatMap.mp h
  obtain ⟨hnew, rfl⟩ := mem_whenAbsent.mp hentry
  exact ⟨hrow, hnew⟩

omit [Printing F] in
theorem mem_rawConfig_iff : key ∈ rawConfig ↔ rawConfig[key]?.isSome = true := by
  rw [BTreeMap.mem_iff_getElem?_isSome, Option.isSome_iff_exists]

/-- The keys of the pairs are known or those of the map. -/
theorem mem_tableKeys_of_mem (h : entry ∈ configPairs rawConfig filamentColourCsv flavor) :
    entry.1 ∈ tableKeys ∨ entry.1 ∈ rawConfig := by
  simp only [configPairs, List.mem_append] at h
  rcases h with ((hsynthetic | halias) | hdefault) | hraw
  · refine Or.inl (List.mem_append_left _ (List.mem_append_left _ ?_))
    exact (mem_syntheticPairs hsynthetic).1
  · obtain ⟨row, hrow, hkey, _⟩ := mem_aliasPairs_iff.mp halias
    have hknown : ∀ row ∈ ORCA_CONFIG_ALIAS_KEYS, row.1 ∈ tableKeys := by decide +kernel
    exact Or.inl (hkey ▸ hknown row hrow)
  · refine Or.inl (List.mem_append_left _ (List.mem_append_right _ ?_))
    exact List.mem_map_of_mem (mem_defaultPairs hdefault).1
  · obtain ⟨⟨key, value⟩, hmem, rfl⟩ := List.mem_map.mp hraw
    rw [Std.ExtTreeMap.mem_toList_iff_getElem?_eq_some] at hmem
    exact Or.inr (mem_rawConfig_iff.mpr (by rw [hmem]; rfl))

theorem mem_keys_of_mem_rawConfig (h : key ∈ rawConfig) :
    key ∈ (configPairs rawConfig filamentColourCsv flavor).map Prod.fst := by
  rw [configPairs, List.map_append]
  refine List.mem_append_right _ ?_
  rw [mem_keys_iff, lookup_rawPairs, Option.isSome_map]
  exact mem_rawConfig_iff.mp h

theorem mem_keys_of_mem_synthetic
    (h : key ∈ SYNTHETIC_KEYS ++ SUPPORT_CONFIG_DEFAULTS.map Prod.fst) :
    key ∈ (configPairs rawConfig filamentColourCsv flavor).map Prod.fst := by
  by_cases hraw : key ∈ rawConfig
  · exact mem_keys_of_mem_rawConfig hraw
  · have hnone : rawConfig[key]? = none := by
      rw [mem_rawConfig_iff] at hraw
      simpa using hraw
    rcases List.mem_append.mp h with hsynthetic | hdefault
    · simp only [SYNTHETIC_KEYS, List.mem_cons, List.not_mem_nil, or_false] at hsynthetic
      rcases hsynthetic with rfl | rfl | rfl | rfl | rfl
      · simp [configPairs, syntheticPairs, hnone, effectiveDiameter]
      · simp [configPairs, syntheticPairs, whenAbsent, hraw]
      · simp [configPairs, syntheticPairs, whenAbsent, hraw]
      · simp [configPairs, syntheticPairs, whenAbsent, hraw]
      · simp [configPairs, syntheticPairs]
    · obtain ⟨row, hrow, rfl⟩ := List.mem_map.mp hdefault
      refine List.mem_map.mpr ⟨row, ?_, rfl⟩
      refine List.mem_append_left _ (List.mem_append_right _ ?_)
      exact List.mem_flatMap.mpr ⟨row, hrow, mem_whenAbsent.mpr ⟨hraw, rfl⟩⟩

/-- The keys of the map that the block does not know. -/
def ownKeys (rawConfig : BTreeMap String (ConfigValue F)) : List String :=
  rawConfig.keys.filter fun key => key ∉ tableKeys

omit [Printing F] in
theorem mem_ownKeys : key ∈ ownKeys rawConfig ↔ key ∈ rawConfig ∧ key ∉ tableKeys := by
  simp [ownKeys]

omit [Printing F] in
theorem nodup_append_ownKeys : (tableKeys ++ ownKeys rawConfig).Nodup := by
  rw [List.nodup_append]
  refine ⟨nodup_tableKeys, Std.ExtTreeMap.nodup_keys.filter _, ?_⟩
  rintro key hkey key' hkey' rfl
  exact (mem_ownKeys.mp hkey').2 hkey

/-- The block has eighty keys exactly if three come from the map alone. -/
theorem eighty_le_length_iff :
    80 ≤ (configEntries rawConfig filamentColourCsv flavor).length ↔
      3 ≤ (ownKeys rawConfig).length := by
  obtain ⟨part, hpart, hemit, hall⟩ := exists_emitPadding
    ((configPairs rawConfig filamentColourCsv flavor).foldl emitConfigKv []) ORCA_CONFIG_PADDING
  have hentries : configEntries rawConfig filamentColourCsv flavor =
      (configPairs rawConfig filamentColourCsv flavor ++ part).foldl emitConfigKv [] := by
    rw [configEntries, hemit, List.foldl_append]
  have hnodup : ((configEntries rawConfig filamentColourCsv flavor).map Prod.fst).Nodup := by
    rw [hentries]
    exact nodup_foldl_emitConfigKv List.nodup_nil
  have hsubset : (configEntries rawConfig filamentColourCsv flavor).map Prod.fst ⊆
      tableKeys ++ ownKeys rawConfig := by
    intro key hkey
    obtain ⟨entry, hentry, rfl⟩ := List.mem_map.mp hkey
    have hknown : entry.1 ∈ tableKeys ∨ entry.1 ∈ rawConfig := by
      rw [hentries] at hentry
      rcases List.mem_append.mp ((mem_of_mem_foldl_emitConfigKv hentry).resolve_left
        List.not_mem_nil) with hpair | hpadding
      · exact mem_tableKeys_of_mem hpair
      · exact Or.inl (List.mem_append_right _ (List.mem_map_of_mem (hpart entry hpadding)))
    by_cases htable : entry.1 ∈ tableKeys
    · exact List.mem_append_left _ htable
    · exact List.mem_append_right _ (mem_ownKeys.mpr ⟨hknown.resolve_left htable, htable⟩)
  have hlength : (tableKeys ++ ownKeys rawConfig).length = 77 + (ownKeys rawConfig).length := by
    rw [List.length_append, length_tableKeys]
  have hle := (List.subperm_of_subset hnodup hsubset).length_le
  rw [List.length_map, hlength] at hle
  rcases hall with rfl | hfull
  · have hsuperset : tableKeys ++ ownKeys rawConfig ⊆
        (configEntries rawConfig filamentColourCsv flavor).map Prod.fst := by
      intro key hkey
      rw [hentries, mem_keys_iff, lookup_foldl_emitConfigKv, List.lookup_nil, Option.none_or,
        ← mem_keys_iff, List.map_append]
      rcases List.mem_append.mp hkey with htable | hown
      · rcases List.mem_append.mp htable with hsynthetic | hpadding
        · exact List.mem_append_left _ (mem_keys_of_mem_synthetic hsynthetic)
        · exact List.mem_append_right _ hpadding
      · exact List.mem_append_left _ (mem_keys_of_mem_rawConfig (mem_ownKeys.mp hown).1)
    have hge := (List.subperm_of_subset nodup_append_ownKeys hsuperset).length_le
    rw [List.length_map, hlength] at hge
    omega
  · have hfull' : 96 ≤ (configEntries rawConfig filamentColourCsv flavor).length := hfull
    omega

end Keys

/-! ### Escapes -/

/-- What a reader makes of the escapes. -/
def unescapeChars : List Char → List Char
  | '\\' :: 'n' :: rest => '\n' :: unescapeChars rest
  | '\\' :: 'r' :: rest => '\r' :: unescapeChars rest
  | '\\' :: c :: rest => c :: unescapeChars rest
  | c :: rest => c :: unescapeChars rest
  | [] => []

/-- A text without its escapes. -/
def unescapeCstyle (s : String) : String :=
  String.ofList (unescapeChars s.toList)

theorem unescapeChars_cons {c : Char} (h : c ≠ '\\') (rest : List Char) :
    unescapeChars (c :: rest) = c :: unescapeChars rest := by
  rw [unescapeChars]
  · exact fun rest' heq => absurd heq h
  · exact fun rest' heq => absurd heq h
  · exact fun c' rest' heq => absurd heq h

/-- A character is escaped to two characters, or is neither a backslash nor a line break. -/
theorem escapeChar_cases (c : Char) :
    (∃ d, d ≠ '\n' ∧ escapeChar c = ['\\', d] ∧
        ∀ rest, unescapeChars ('\\' :: d :: rest) = c :: unescapeChars rest) ∨
      c ≠ '\\' ∧ c ≠ '\n' ∧ escapeChar c = [c] := by
  unfold escapeChar
  split
  · exact Or.inl ⟨'n', by decide, rfl, fun _ => rfl⟩
  · exact Or.inl ⟨'r', by decide, rfl, fun _ => rfl⟩
  · exact Or.inl ⟨'\\', by decide, rfl, fun _ => rfl⟩
  · exact Or.inl ⟨'"', by decide, rfl, fun _ => rfl⟩
  · rename_i hnewline _ hbackslash _
    exact Or.inr ⟨hbackslash, hnewline, rfl⟩

theorem unescapeChars_escapeChars (l : List Char) :
    unescapeChars (l.flatMap escapeChar) = l := by
  induction l with
  | nil => rfl
  | cons c rest ih =>
    rw [List.flatMap_cons]
    rcases escapeChar_cases c with ⟨d, _, hescape, hundo⟩ | ⟨hbackslash, _, hescape⟩
    · rw [hescape, List.cons_append, List.singleton_append, hundo, ih]
    · rw [hescape, List.singleton_append, unescapeChars_cons hbackslash, ih]

/-- Undoing the escapes gives the text. -/
theorem unescapeCstyle_escapeCstyle (s : String) : unescapeCstyle (escapeCstyle s) = s := by
  rw [unescapeCstyle, escapeCstyle, String.toList_ofList, unescapeChars_escapeChars,
    String.ofList_toList]

/-- No line breaks in a text. -/
def OneLine (text : String) : Prop :=
  '\n' ∉ text.toList

theorem oneLine_escapeCstyle (s : String) : OneLine (escapeCstyle s) := by
  rw [OneLine, escapeCstyle, String.toList_ofList, List.mem_flatMap]
  rintro ⟨c, _, hc⟩
  rcases escapeChar_cases c with ⟨d, hd, hescape, _⟩ | ⟨_, hnewline, hescape⟩
  · rw [hescape] at hc
    simp [Ne.symm hd] at hc
  · rw [hescape] at hc
    exact hnewline (List.mem_singleton.mp hc).symm

theorem oneLine_literal (text : String) (h : '\n' ∉ text.toList) : OneLine text :=
  h

theorem OneLine.append {s t : String} (hs : OneLine s) (ht : OneLine t) : OneLine (s ++ t) := by
  rw [OneLine, String.toList_append, List.mem_append]
  exact fun h => h.elim hs ht

theorem oneLine_join {c : Char} (hc : c ≠ '\n') {parts : List String}
    (h : ∀ part ∈ parts, OneLine part) : OneLine (Text.join c parts) := by
  have hchars : ∀ l : List (List Char), (∀ part ∈ l, '\n' ∉ part) → '\n' ∉ [c].intercalate l := by
    intro l hl
    induction l with
    | nil => exact List.not_mem_nil
    | cons part rest ih =>
      cases rest with
      | nil =>
        rw [List.intercalate_singleton]
        exact hl part List.mem_cons_self
      | cons next rest =>
        have hrest := ih fun p hp => hl p (List.mem_cons_of_mem _ hp)
        rw [List.intercalate_cons_cons]
        simp [hl part List.mem_cons_self, Ne.symm hc, hrest]
  rw [OneLine, Text.join, String.toList_ofList]
  refine hchars _ fun part hpart => ?_
  obtain ⟨text, htext, rfl⟩ := List.mem_map.mp hpart
  exact h text htext

section Values

variable {F : Type} [Printing F]

theorem oneLine_toString_int (i : ℤ) : OneLine (toString i) := by
  intro h
  rcases Text.mem_toList_toString h with h | h
  · simp at h
  · simp at h

theorem oneLine_formatConfigFloat (value : F) : OneLine (formatConfigFloat value) := by
  rw [formatConfigFloat]
  split
  · exact Printing.newline_display32 value
  · exact Printing.newline_display value

theorem oneLine_toString_bool (b : Bool) : OneLine (toString b) := by
  cases b <;> simp [OneLine, toString]

mutual

/-- A value under `{:?}` breaks no line. -/
theorem oneLine_debug : (value : ConfigValue F) → OneLine value.debug
  | .bool value =>
    ((oneLine_literal "Bool(" (by simp)).append (oneLine_toString_bool value)).append
      (oneLine_literal ")" (by simp))
  | .int value =>
    ((oneLine_literal "Int(" (by simp)).append (oneLine_toString_int value)).append
      (oneLine_literal ")" (by simp))
  | .float value =>
    ((oneLine_literal "Float(" (by simp)).append (Printing.newline_debug value)).append
      (oneLine_literal ")" (by simp))
  | .string value =>
    ((oneLine_literal "String(" (by simp)).append (Printing.newline_debugText (F := F) value)).append
      (oneLine_literal ")" (by simp))
  | .list items =>
    ((oneLine_literal "List(" (by simp)).append (oneLine_debugItems items)).append
      (oneLine_literal ")" (by simp))
  | .percent value =>
    ((oneLine_literal "Percent(" (by simp)).append (Printing.newline_debug value)).append
      (oneLine_literal ")" (by simp))
  | .floatOrPercent value isPercent =>
    ((((oneLine_literal "FloatOrPercent \x7b value: " (by simp)).append
      (Printing.newline_debug value)).append (oneLine_literal ", is_percent: " (by simp))).append
        (oneLine_toString_bool isPercent)).append (oneLine_literal " \x7d" (by simp))

theorem oneLine_debugItems : (items : List (ConfigValue F)) → OneLine (ConfigValue.debugItems items)
  | [] => oneLine_literal "[]" (by simp)
  | item :: rest =>
    ((oneLine_literal "[" (by simp)).append (oneLine_debug item)).append (oneLine_debugRest rest)

theorem oneLine_debugRest : (items : List (ConfigValue F)) → OneLine (ConfigValue.debugRest items)
  | [] => oneLine_literal "]" (by simp)
  | item :: rest =>
    ((oneLine_literal ", " (by simp)).append (oneLine_debug item)).append (oneLine_debugRest rest)

end

theorem oneLine_listPart (value : ConfigValue F) : OneLine (listPart value) := by
  unfold listPart
  split
  · exact oneLine_escapeCstyle _
  · exact oneLine_formatConfigFloat _
  · exact oneLine_toString_int _
  · split <;> simp [OneLine]
  · exact oneLine_debug _

/-- A value of the map is written on one line. -/
theorem oneLine_configValueText (value : ConfigValue F) : OneLine (configValueText value) := by
  have hpercent : OneLine "%" := by simp [OneLine]
  cases value with
  | bool b => exact oneLine_toString_bool b
  | int i => exact oneLine_toString_int i
  | float f => exact oneLine_formatConfigFloat f
  | string s => exact oneLine_escapeCstyle s
  | percent p => exact OneLine.append (Printing.newline_display p) hpercent
  | floatOrPercent value isPercent =>
    rw [configValueText]
    split
    · exact OneLine.append (Printing.newline_display value) hpercent
    · exact oneLine_formatConfigFloat value
  | list items =>
    rw [configValueText]
    refine oneLine_join ?_ fun part hpart => ?_
    · split <;> decide
    · obtain ⟨item, _, rfl⟩ := List.mem_map.mp hpart
      exact oneLine_listPart item

end Values

/-! ### A well-formed block -/

section Block

variable {F : Type} [Printing F] (rawConfig : BTreeMap String (ConfigValue F))
  (filamentColourCsv : String) (flavor : GcodeFlavor)

/-- The key of the map is written by another one: a synthetic or an alias key. -/
def Shadowed (key : String) : Prop :=
  key = "filament_diameter" ∨ key = "gcode_flavor" ∨ key ∈ (aliasPairs rawConfig).map Prod.fst

/-- One line for each key between the start and the end line, every key of the map among them,
texts that can be read back, and at least eighty keys. -/
structure WellFormed : Prop where
  lines : Text.split '\n' (serializeConfigBlock rawConfig filamentColourCsv flavor) =
    "; CONFIG_BLOCK_START" :: (configEntries rawConfig filamentColourCsv flavor).map configLine ++
      ["; CONFIG_BLOCK_END", ""]
  nodup : ((configEntries rawConfig filamentColourCsv flavor).map Prod.fst).Nodup
  present : ∀ key ∈ rawConfig,
    key ∈ (configEntries rawConfig filamentColourCsv flavor).map Prod.fst
  recovered : ∀ key s, rawConfig[key]? = some (.string s) → ¬ Shadowed rawConfig key →
    ∃ value, (key, value) ∈ configEntries rawConfig filamentColourCsv flavor ∧
      unescapeCstyle value = s
  enough : 80 ≤ (configEntries rawConfig filamentColourCsv flavor).length

/-- The texts that are not escaped have no line breaks. -/
def OneLineSources : Prop :=
  (∀ s, rawConfig["gcode_flavor"]? = some (.string s) → OneLine s) ∧
    ∀ row ∈ ORCA_CONFIG_ALIAS_KEYS, ∀ s, rawConfig[row.2]? = some (.string s) → OneLine s

variable {rawConfig filamentColourCsv flavor}

/-- The pairs are the first of each key, with a part of the padding behind them. -/
theorem lookup_configEntries {key value : String}
    (h : (configPairs rawConfig filamentColourCsv flavor).lookup key = some value) :
    (key, value) ∈ configEntries rawConfig filamentColourCsv flavor := by
  obtain ⟨part, _, hemit, _⟩ := exists_emitPadding
    ((configPairs rawConfig filamentColourCsv flavor).foldl emitConfigKv []) ORCA_CONFIG_PADDING
  refine mem_of_lookup ?_
  rw [configEntries, hemit, lookup_foldl_emitConfigKv, lookup_foldl_emitConfigKv, List.lookup_nil,
    Option.none_or, h, Option.some_or]

variable {entry : String × String}

theorem mem_of_mem_configEntries (h : entry ∈ configEntries rawConfig filamentColourCsv flavor) :
    entry ∈ configPairs rawConfig filamentColourCsv flavor ∨ entry ∈ ORCA_CONFIG_PADDING := by
  obtain ⟨part, hpart, hemit, _⟩ := exists_emitPadding
    ((configPairs rawConfig filamentColourCsv flavor).foldl emitConfigKv []) ORCA_CONFIG_PADDING
  rw [configEntries, hemit] at h
  rcases mem_of_mem_foldl_emitConfigKv h with hpair | hpadding
  · exact Or.inl ((mem_of_mem_foldl_emitConfigKv hpair).resolve_left List.not_mem_nil)
  · exact Or.inr (hpart entry hpadding)

theorem nodup_configEntries :
    ((configEntries rawConfig filamentColourCsv flavor).map Prod.fst).Nodup := by
  obtain ⟨part, _, hemit, _⟩ := exists_emitPadding
    ((configPairs rawConfig filamentColourCsv flavor).foldl emitConfigKv []) ORCA_CONFIG_PADDING
  rw [configEntries, hemit]
  exact nodup_foldl_emitConfigKv (nodup_foldl_emitConfigKv List.nodup_nil)

/-- A text of the map is written escaped, unless another key writes its own. -/
theorem mem_configEntries_of_string {key s : String}
    (hraw : rawConfig[key]? = some (.string s)) (hshadowed : ¬ Shadowed rawConfig key) :
    (key, escapeCstyle s) ∈ configEntries rawConfig filamentColourCsv flavor := by
  have hmem : key ∈ rawConfig := mem_rawConfig_iff.mpr (by rw [hraw]; rfl)
  simp only [Shadowed, not_or] at hshadowed
  obtain ⟨hdiameter, hflavor, halias⟩ := hshadowed
  refine lookup_configEntries ?_
  have hsynthetic : (syntheticPairs rawConfig filamentColourCsv flavor).lookup key = none := by
    refine lookup_eq_none_of_forall fun entry hentry => ?_
    rintro rfl
    rcases (mem_syntheticPairs hentry).2 with h | h | h
    · exact hdiameter h
    · exact hflavor h
    · exact h hmem
  have haliasNone : (aliasPairs rawConfig).lookup key = none :=
    lookup_eq_none_of_forall fun entry hentry heq => halias (heq ▸ List.mem_map_of_mem hentry)
  have hdefault : (SUPPORT_CONFIG_DEFAULTS.flatMap fun (key, value) =>
      whenAbsent rawConfig key value).lookup key = none :=
    lookup_eq_none_of_forall fun entry hentry heq => (mem_defaultPairs hentry).2 (heq ▸ hmem)
  rw [configPairs, List.lookup_append, List.lookup_append, List.lookup_append, hsynthetic,
    haliasNone, hdefault, lookup_rawPairs, hraw]
  rfl

/-- The flavour is written as it is. -/
theorem mem_configEntries_flavor :
    ("gcode_flavor", flavorValue rawConfig flavor) ∈
      configEntries rawConfig filamentColourCsv flavor := by
  refine lookup_configEntries ?_
  have hdiameter : ∀ value : Option String,
      (value.map fun effective => ("filament_diameter", Text.join ','
        (List.replicate (filamentCount filamentColourCsv) effective))).toList.lookup
          "gcode_flavor" = none := by
    intro value
    cases value <;> simp
  have habsent : ∀ key value, key ≠ "gcode_flavor" →
      (whenAbsent rawConfig key value).lookup "gcode_flavor" = none := fun key value hkey =>
    lookup_eq_none_of_forall fun entry hentry => by
      rw [(mem_whenAbsent.mp hentry).2]
      exact hkey
  rw [configPairs, List.lookup_append, List.lookup_append, List.lookup_append, syntheticPairs,
    List.lookup_append, List.lookup_append, List.lookup_append, List.lookup_append, hdiameter,
    habsent _ _ (by decide), habsent _ _ (by decide), habsent _ _ (by decide)]
  simp

theorem mem_configEntries_alias {row : String × String} (hrow : row ∈ ORCA_CONFIG_ALIAS_KEYS)
    {value : String} (hvalue : rawConfig[row.2]?.bind renderAppendixAliasValue = some value) :
    (row.1, value) ∈ configEntries rawConfig filamentColourCsv flavor := by
  refine lookup_configEntries ?_
  have hother : ∀ row ∈ ORCA_CONFIG_ALIAS_KEYS, row.1 ∉ SYNTHETIC_KEYS := by decide +kernel
  have hsynthetic : (syntheticPairs rawConfig filamentColourCsv flavor).lookup row.1 = none :=
    lookup_eq_none_of_forall fun entry hentry heq =>
      hother row hrow (heq ▸ (mem_syntheticPairs hentry).1)
  have hlookup : (aliasPairs rawConfig).lookup row.1 = some value :=
    lookup_of_mem nodup_aliasPairs (mem_aliasPairs_iff.mpr ⟨row, hrow, rfl, hvalue⟩)
  rw [configPairs, List.lookup_append, List.lookup_append, List.lookup_append, hsynthetic, hlookup]
  rfl

omit [Printing F] in
theorem oneLine_flavorValue (hsources : OneLineSources rawConfig) :
    OneLine (flavorValue rawConfig flavor) := by
  rw [flavorValue]
  split
  · rename_i value hvalue
    exact hsources.1 value hvalue
  · cases flavor <;> exact oneLine_literal _ (by simp [GcodeFlavor.configStr])

theorem oneLine_effectiveDiameter {value : Option (ConfigValue F)} {effective : String}
    (h : effectiveDiameter value = some effective) : OneLine effective := by
  unfold effectiveDiameter at h
  split at h
  · cases h
  · cases h
    exact oneLine_formatConfigFloat _
  · cases h
    exact oneLine_toString_int _
  · cases h
    exact oneLine_escapeCstyle _
  · cases h
    exact oneLine_literal _ (by simp)

theorem oneLine_syntheticPairs (hcsv : OneLine filamentColourCsv)
    (hsources : OneLineSources rawConfig)
    (h : entry ∈ syntheticPairs rawConfig filamentColourCsv flavor) : OneLine entry.2 := by
  simp only [syntheticPairs, List.mem_append, Option.mem_toList, Option.map_eq_some_iff,
    mem_whenAbsent, List.mem_singleton] at h
  rcases h with (((⟨effective, heffective, rfl⟩ | ⟨_, rfl⟩) | ⟨_, rfl⟩) | ⟨_, rfl⟩) | rfl
  · refine oneLine_join (by decide) fun part hpart => ?_
    rw [List.eq_of_mem_replicate hpart]
    exact oneLine_effectiveDiameter heffective
  · exact hcsv
  · exact hcsv
  · exact oneLine_literal _ (by simp)
  · exact oneLine_flavorValue hsources

theorem oneLine_renderAppendixAliasValue {value : ConfigValue F} {rendered : String}
    (hstring : ∀ s, value = .string s → OneLine s)
    (h : renderAppendixAliasValue value = some rendered) : OneLine rendered := by
  cases value with
  | bool b =>
    cases h
    cases b <;> exact oneLine_literal _ (by simp)
  | int i =>
    cases h
    exact oneLine_toString_int i
  | float f =>
    cases h
    exact Printing.newline_display f
  | string s =>
    cases h
    exact hstring rendered rfl
  | list _ => cases h
  | percent _ => cases h
  | floatOrPercent _ _ => cases h

/-- Only the sources that are not escaped can break a line. -/
theorem oneLine_configPairs (hkeys : ∀ key ∈ rawConfig, OneLine key)
    (hcsv : OneLine filamentColourCsv) (hsources : OneLineSources rawConfig)
    (h : entry ∈ configPairs rawConfig filamentColourCsv flavor) :
    OneLine entry.1 ∧ OneLine entry.2 := by
  have htable : ∀ key ∈ tableKeys, OneLine key := by
    unfold OneLine
    decide +kernel
  refine ⟨(mem_tableKeys_of_mem h).elim (htable _) (hkeys _), ?_⟩
  simp only [configPairs, List.mem_append] at h
  rcases h with ((hsynthetic | halias) | hdefault) | hraw
  · exact oneLine_syntheticPairs hcsv hsources hsynthetic
  · obtain ⟨row, hrow, _, hvalue⟩ := mem_aliasPairs_iff.mp halias
    obtain ⟨source, hsource, hrendered⟩ := Option.bind_eq_some_iff.mp hvalue
    exact oneLine_renderAppendixAliasValue
      (fun s hs => hsources.2 row hrow s (hs ▸ hsource)) hrendered
  · have hdefaults : ∀ entry ∈ SUPPORT_CONFIG_DEFAULTS, OneLine entry.2 := by
      unfold OneLine
      decide +kernel
    exact hdefaults entry (mem_defaultPairs hdefault).1
  · obtain ⟨⟨key, value⟩, _, rfl⟩ := List.mem_map.mp hraw
    exact oneLine_configValueText value

/-- The text is its lines. -/
theorem serializeConfigBlock_eq_join :
    serializeConfigBlock rawConfig filamentColourCsv flavor = Text.join '\n'
      ("; CONFIG_BLOCK_START" :: (configEntries rawConfig filamentColourCsv flavor).map configLine ++
        ["; CONFIG_BLOCK_END", ""]) := by
  have hjoin : ∀ (lines : List String) (last : String), Text.join '\n' (lines ++ [last, ""]) =
      String.join (lines.map (· ++ "\n")) ++ (last ++ "\n") := by
    intro lines last
    refine String.toList_inj.mp ?_
    simp only [Text.join, String.toList_ofList]
    induction lines with
    | nil => simp [List.intercalate_cons_cons]
    | cons line rest ih =>
      simp only [List.cons_append, List.map_cons]
      rw [List.intercalate_cons_of_ne_nil (by simp), ih]
      simp
  unfold serializeConfigBlock
  generalize configEntries rawConfig filamentColourCsv flavor = entries
  refine Eq.trans (String.toList_inj.mp ?_) (hjoin _ _).symm
  simp [Function.comp_def]

theorem oneLine_configLine_iff :
    OneLine (configLine entry) ↔ OneLine entry.1 ∧ OneLine entry.2 := by
  simp [OneLine, configLine, not_or]

/-- Every key has a line of its own if no value breaks one. -/
theorem lines_iff :
    Text.split '\n' (serializeConfigBlock rawConfig filamentColourCsv flavor) =
        "; CONFIG_BLOCK_START" ::
          (configEntries rawConfig filamentColourCsv flavor).map configLine ++
            ["; CONFIG_BLOCK_END", ""] ↔
      ∀ entry ∈ configEntries rawConfig filamentColourCsv flavor, OneLine (configLine entry) := by
  constructor
  · intro hlines entry hentry
    refine @Text.notMem_of_mem_split (serializeConfigBlock rawConfig filamentColourCsv flavor) _ _ ?_
    rw [hlines]
    exact List.mem_append_left _ (List.mem_cons_of_mem _ (List.mem_map_of_mem hentry))
  · intro hentries
    rw [serializeConfigBlock_eq_join]
    refine Text.split_join (fun part hpart => ?_) (by simp)
    rcases List.mem_append.mp hpart with hpart | hpart
    · rcases List.mem_cons.mp hpart with rfl | hpart
      · simp
      · obtain ⟨entry, hentry, rfl⟩ := List.mem_map.mp hpart
        exact hentries entry hentry
    · simp only [List.mem_cons, List.not_mem_nil, or_false] at hpart
      rcases hpart with rfl | rfl <;> simp

/-- No value breaks its line if the sources that are not escaped break none. -/
theorem oneLine_configEntries_iff (hkeys : ∀ key ∈ rawConfig, OneLine key)
    (hcsv : OneLine filamentColourCsv) :
    (∀ entry ∈ configEntries rawConfig filamentColourCsv flavor, OneLine (configLine entry)) ↔
      OneLineSources rawConfig := by
  constructor
  · intro hentries
    constructor
    · intro s hs
      have hline := (oneLine_configLine_iff.mp (hentries _ mem_configEntries_flavor)).2
      simpa [flavorValue, hs] using hline
    · intro row hrow s hs
      have hvalue : rawConfig[row.2]?.bind renderAppendixAliasValue = some s := by
        rw [hs]
        rfl
      exact (oneLine_configLine_iff.mp (hentries _ (mem_configEntries_alias hrow hvalue))).2
  · intro hsources entry hentry
    refine oneLine_configLine_iff.mpr ?_
    rcases mem_of_mem_configEntries hentry with hpair | hpadding
    · exact oneLine_configPairs hkeys hcsv hsources hpair
    · have hall : ∀ entry ∈ ORCA_CONFIG_PADDING, OneLine entry.1 ∧ OneLine entry.2 := by
        unfold OneLine
        decide +kernel
      exact hall entry hpadding

end Block

/-- The block is well formed exactly if no source that is not escaped breaks a line, and three
keys come from the map alone. -/
theorem configBlock_wellFormed_iff {F : Type} [Printing F]
    {rawConfig : BTreeMap String (ConfigValue F)} {filamentColourCsv : String}
    (hkeys : ∀ key ∈ rawConfig, OneLine key) (hcsv : OneLine filamentColourCsv)
    (flavor : GcodeFlavor) :
    WellFormed rawConfig filamentColourCsv flavor ↔
      OneLineSources rawConfig ∧ 3 ≤ (ownKeys rawConfig).length := by
  constructor
  · intro h
    exact ⟨(oneLine_configEntries_iff hkeys hcsv).mp (lines_iff.mp h.lines),
      eighty_le_length_iff.mp h.enough⟩
  · rintro ⟨hsources, hown⟩
    exact
      { lines := lines_iff.mpr ((oneLine_configEntries_iff hkeys hcsv).mpr hsources)
        nodup := nodup_configEntries
        present := fun key hkey => by
          have hpair : key ∈ (configPairs rawConfig filamentColourCsv flavor).map Prod.fst :=
            mem_keys_of_mem_rawConfig hkey
          rw [mem_keys_iff] at hpair
          obtain ⟨value, hvalue⟩ := Option.isSome_iff_exists.mp hpair
          exact List.mem_map.mpr ⟨(key, value), lookup_configEntries hvalue, rfl⟩
        recovered := fun key s hraw hshadowed =>
          ⟨escapeCstyle s, mem_configEntries_of_string hraw hshadowed,
            unescapeCstyle_escapeCstyle s⟩
        enough := eighty_le_length_iff.mpr hown }

/-- Exact numbers, whose texts are their numerators. -/
@[reducible]
def plainPrinting : Printing ℚ :=
  { (inferInstance : Floats ℚ) with
    display := fun value => toString value.num
    debug := fun value => toString value.num
    debugText := fun text => "\"" ++ escapeCstyle text ++ "\""
    display32 := fun value => toString value.num
    newline_display := fun value => oneLine_toString_int value.num
    newline_display32 := fun value => oneLine_toString_int value.num
    newline_debug := fun value => oneLine_toString_int value.num
    newline_debugText := fun text =>
      ((oneLine_literal "\"" (by simp)).append (oneLine_escapeCstyle text)).append
        (oneLine_literal "\"" (by simp)) }

/-- Three keys of a module, one value of which is two lines, and a firmware. -/
def moduleConfig : BTreeMap String (ConfigValue ℚ) :=
  Std.ExtTreeMap.ofList [("gcode_flavor", .string "klipper"), ("note", .string "a\nb"),
    ("note:count", .int 3), ("note:shown", .bool true)] compare

theorem configBlock_wellFormed_iff_moduleConfig :
    @WellFormed ℚ plainPrinting moduleConfig "#FF0000" .Marlin := by
  have hkeys : ∀ key ∈ moduleConfig, OneLine key := by
    intro key hkey
    have hall : ∀ key ∈ moduleConfig.keys, '\n' ∉ key.toList := by decide +kernel
    exact hall key (Std.ExtTreeMap.mem_keys.mpr hkey)
  have hsources : OneLineSources moduleConfig := by
    have hflavor : moduleConfig["gcode_flavor"]? = some (.string "klipper") := by decide +kernel
    have halias : ∀ row ∈ ORCA_CONFIG_ALIAS_KEYS, moduleConfig[row.2]? = none := by decide +kernel
    constructor
    · intro s hs
      obtain rfl : "klipper" = s := ConfigValue.string.inj (Option.some.inj (hflavor.symm.trans hs))
      exact oneLine_literal _ (by simp)
    · intro row hrow s hs
      cases (halias row hrow).symm.trans hs
  exact (@configBlock_wellFormed_iff ℚ plainPrinting _ _ hkeys (oneLine_literal _ (by simp))
    .Marlin).mpr ⟨hsources, by decide +kernel⟩

/-- An empty map leaves the block at seventy-seven keys. -/
theorem empty_config_is_too_short :
    ¬ ∀ (F : Type) (_ : Printing F) (rawConfig : BTreeMap String (ConfigValue F))
        (filamentColourCsv : String) (flavor : GcodeFlavor),
      (∀ key ∈ rawConfig, OneLine key) → OneLine filamentColourCsv →
        WellFormed rawConfig filamentColourCsv flavor := by
  intro h
  have hkeys : ∀ key ∈ (∅ : BTreeMap String (ConfigValue ℚ)), OneLine key := by simp
  have hblock := h ℚ plainPrinting ∅ "" .Marlin hkeys (oneLine_literal "" (by simp))
  have hown := (@eighty_le_length_iff ℚ plainPrinting ∅ "" .Marlin).mp
    (@WellFormed.enough ℚ plainPrinting _ _ _ hblock)
  have hnone : ownKeys (∅ : BTreeMap String (ConfigValue ℚ)) = [] :=
    List.eq_nil_iff_forall_not_mem.mpr fun key hkey => by simpa using (mem_ownKeys.mp hkey).1
  rw [hnone] at hown
  cases hown

end PinchNPrint.GCode
