/-
The resolved configuration (`slicer-ir`: `resolved_config.rs`).

`declare_resolved_config!` expands a table of rows into a struct, its default,
`apply_cli_key`, `to_config_map` and `typed_field_keys`. The model keeps the
table (`declaredFields`) and defines the generated functions over it: the typed
fields are a map from field names to typed values, and a `cli` row routes its
key to its field through its extractor. Display metadata of the rows is left
out; none of the generated functions modelled here reads it.
-/

import PinchNPrint.Config.Value

namespace PinchNPrint.Config

open Std

variable {F : Type}

/-- `WallGenerator`, rendered through `Debug`. -/
inductive WallGenerator where
  | Classic
  | Arachne
deriving DecidableEq

/-- `InfillType`, rendered through `Debug`. -/
inductive InfillType where
  | Grid
  | Triangles
  | Honeycomb
  | Gyroid
  | Lightning
  | Line
  | Concentric
deriving DecidableEq

inductive SupportType where
  | NormalAuto
  | TreeAuto
  | NormalManual
  | TreeManual
deriving DecidableEq

/-- `WallGenerator` under `{:?}`. -/
def WallGenerator.debug : WallGenerator → String
  | Classic => "Classic"
  | Arachne => "Arachne"

/-- `InfillType` under `{:?}`. -/
def InfillType.debug : InfillType → String
  | Grid => "Grid"
  | Triangles => "Triangles"
  | Honeycomb => "Honeycomb"
  | Gyroid => "Gyroid"
  | Lightning => "Lightning"
  | Line => "Line"
  | Concentric => "Concentric"

/-- `SupportType::as_canonical_str`. -/
def SupportType.asCanonicalStr : SupportType → String
  | NormalAuto => "normal(auto)"
  | TreeAuto => "tree(auto)"
  | NormalManual => "normal(manual)"
  | TreeManual => "tree(manual)"

/-- The value of a declared field; `absent` is the `None` of a `cli_opt` row. -/
inductive FieldValue (F : Type) where
  | f64 (value : F)
  | f32 (value : F)
  | u32 (value : Nat)
  | bool (value : Bool)
  | string (value : String)
  | floats (values : List F)
  | strings (values : List String)
  | floatOrPercent (value : F) (isPercent : Bool)
  | wallGenerator (value : WallGenerator)
  | infillType (value : InfillType)
  | supportType (value : SupportType)
  | absent
deriving DecidableEq

/-- `HostMapField::to_config_value`. -/
def FieldValue.toConfigValue : FieldValue F → Option (ConfigValue F)
  | f64 value | f32 value => some (.float value)
  | u32 value => some (.int value)
  | bool value => some (.bool value)
  | string value => some (.string value)
  | floats values => if values.isEmpty then none else some (.list (values.map .float))
  | strings values => some (.list (values.map .string))
  | floatOrPercent value isPercent => some (.floatOrPercent value isPercent)
  | wallGenerator value => some (.string value.debug)
  | infillType value => some (.string value.debug)
  | supportType value => some (.string value.asCanonicalStr)
  | absent => none

/-! ### Extractors -/

section Extractors

variable [Floats F]

/-- `TypeMismatch` for a value of the wrong variant. -/
def mismatch (key expected : String) (value : ConfigValue F) : ConfigResolutionError F :=
  .typeMismatch key expected value.variantName

def extractFloat (key : String) : ConfigValue F → Except (ConfigResolutionError F) (FieldValue F)
  | .float value => .ok (.f32 (Floats.narrow value))
  | .int value => .ok (.f32 (Floats.ofInt32 value))
  | other => .error (mismatch key "Float" other)

def extractFloatOrPercent (key : String) :
    ConfigValue F → Except (ConfigResolutionError F) (FieldValue F)
  | .float value => .ok (.floatOrPercent value false)
  | .int value => .ok (.floatOrPercent (Floats.ofInt value) false)
  | .floatOrPercent value isPercent => .ok (.floatOrPercent value isPercent)
  | other => .error (mismatch key "FloatOrPercent" other)

def extractF64 (key : String) : ConfigValue F → Except (ConfigResolutionError F) (FieldValue F)
  | .float value => .ok (.f64 value)
  | .int value => .ok (.f64 (Floats.ofInt value))
  | other => .error (mismatch key "Float" other)

def extractIntAsU32 (key : String) :
    ConfigValue F → Except (ConfigResolutionError F) (FieldValue F)
  | .int value =>
      if 0 ≤ value && value < 2 ^ 32 then .ok (.u32 value.toNat)
      else .error (.outOfRange key (Floats.ofInt value) (some (Floats.ofInt 0))
        (some (Floats.ofInt (2 ^ 32 - 1))) none)
  | other => .error (mismatch key "Int" other)

def extractBool (key : String) : ConfigValue F → Except (ConfigResolutionError F) (FieldValue F)
  | .bool value => .ok (.bool value)
  | .int 0 => .ok (.bool false)
  | .int 1 => .ok (.bool true)
  | other => .error (mismatch key "Bool" other)

def extractString (key : String) : ConfigValue F → Except (ConfigResolutionError F) (FieldValue F)
  | .string value => .ok (.string value)
  | other => .error (mismatch key "String" other)

/-- The items of a list, each under its indexed key; a scalar is one item. -/
def extractItems {α : Type}
    (element : String → ConfigValue F → Except (ConfigResolutionError F) α) (key : String) :
    ConfigValue F → Except (ConfigResolutionError F) (List α)
  | .list items => items.zipIdx.mapM fun (item, index) => element s!"{key}[{index}]" item
  | other => (element key other).map fun value => [value]

def extractStringList (key : String) (value : ConfigValue F) :
    Except (ConfigResolutionError F) (FieldValue F) :=
  .strings <$> extractItems (fun key value =>
    match value with
    | .string text => .ok text
    | other => .error (mismatch key "String" other)) key value

def extractFloatList (key : String) (value : ConfigValue F) :
    Except (ConfigResolutionError F) (FieldValue F) :=
  .floats <$> extractItems (fun key value =>
    match value with
    | .float value => .ok value
    | .int value => .ok (Floats.ofInt value)
    | .string text =>
        match Floats.parse (Text.trim text) with
        | some value => .ok value
        | none => .error (.typeMismatch key "Float" "String")
    | .bool value => .ok (Floats.ofInt (if value then 1 else 0))
    | other => .error (mismatch key "Float" other)) key value

/-- `extract_float_or_first`, on a scalar. -/
def extractFirstScalar (key : String) :
    ConfigValue F → Except (ConfigResolutionError F) (FieldValue F)
  | .float value => .ok (.f32 (Floats.narrow value))
  | .int value => .ok (.f32 (Floats.ofInt32 value))
  | .string text =>
      match Floats.parse32 (Text.trim text) with
      | some value => .ok (.f32 value)
      | none => .error (.typeMismatch key "Float" "String")
  | other => .error (mismatch key "Float" other)

def extractFloatOrFirst (key : String) :
    ConfigValue F → Except (ConfigResolutionError F) (FieldValue F)
  | .list (first :: _) => extractFirstScalar s!"{key}[0]" first
  | .list [] => .error (.typeMismatch key "non-empty List" "empty List")
  | other => extractFirstScalar key other

end Extractors

/-! ### The declaration table -/

/-- A row of `declare_resolved_config!`. -/
inductive FieldRow (F : Type) where
  /-- `plain field = default`: no configuration key routes to the field. -/
  | plain (field : String) (default : FieldValue F)
  /-- `cli "key" field = default => extractor`; the extractor of a `cli_opt` row
  fills the option. -/
  | cli (key field : String) (default : FieldValue F)
      (extractor : String → ConfigValue F → Except (ConfigResolutionError F) (FieldValue F))

namespace FieldRow

/-- The Rust field. -/
def field : FieldRow F → String
  | plain field _ => field
  | cli _ field _ _ => field

/-- The key of the row in the generated map and in `typed_field_keys`. -/
def key : FieldRow F → String
  | plain field _ => field
  | cli key _ _ _ => key

def default : FieldRow F → FieldValue F
  | plain _ default => default
  | cli _ _ default _ => default

/-- Whether `apply_cli_key` has an arm for the key in this row. -/
def binds (name : String) : FieldRow F → Bool
  | plain _ _ => false
  | cli key _ _ _ => key == name

end FieldRow

section Table

variable [Floats F]

/-- A `cli` row whose field has the name of its key. -/
def cli (key : String) (default : FieldValue F)
    (extractor : String → ConfigValue F → Except (ConfigResolutionError F) (FieldValue F)) :
    FieldRow F :=
  .cli key key default extractor

/-- An `f32` row. -/
def cliFloat (key : String) (digits : Int) (decimals : Nat) : FieldRow F :=
  cli key (.f32 (Floats.literal32 digits decimals)) extractFloat

/-- A `u32` row. -/
def cliInt (key : String) (default : Nat) : FieldRow F :=
  cli key (.u32 default) extractIntAsU32

/-- A `bool` row. -/
def cliBool (key : String) (default : Bool) : FieldRow F :=
  cli key (.bool default) extractBool

/-- A `String` row. -/
def cliString (key default : String) : FieldRow F :=
  cli key (.string default) extractString

/-- The fields of `ResolvedConfig`, in declaration order. -/
def declaredFields : List (FieldRow F) :=
  [cli "layer_height" (.f64 (Floats.literal 2 1)) extractF64,
    cli "line_width" (.f64 (Floats.literal 0 1)) extractF64,
    cli "first_layer_height" (.f64 (Floats.literal 2 1)) extractF64,
    cli "initial_layer_line_width" (.floatOrPercent (Floats.literal 0 1) false)
      extractFloatOrPercent,
    cli "filament_diameter" (.f32 (Floats.literal32 175 2)) extractFloatOrFirst,
    cliInt "wall_count" 2,
    cliFloat "outer_wall_speed" 500 1,
    cliFloat "inner_wall_speed" 500 1,
    .plain "wall_generator" (.wallGenerator .Classic),
    cli "arachne_min_feature_size" .absent extractFloat,
    .plain "infill_type" (.infillType .Grid),
    cliFloat "infill_density" 2 1,
    cliFloat "infill_angle" 450 1,
    cliFloat "infill_speed" 500 1,
    cliFloat "solid_infill_speed" 500 1,
    cliInt "top_shell_layers" 3,
    cliInt "bottom_shell_layers" 3,
    cliString "top_fill_holder" "rectilinear-infill",
    cliString "bottom_fill_holder" "rectilinear-infill",
    cliString "bridge_fill_holder" "rectilinear-infill",
    cliString "sparse_fill_holder" "rectilinear-infill",
    cli "fill_authored_coloring" (.strings []) extractStringList,
    cliFloat "gcode_resolution" 125 4,
    cliFloat "infill_resolution" 4 2,
    cliFloat "infill_overlap" 45 2,
    cliFloat "support_resolution" 375 4,
    cliFloat "min_segment_length" 5 2,
    cliInt "gcode_xy_decimals" 3,
    cliFloat "perimeter_arc_tolerance" 125 4,
    cliFloat "slice_closing_radius" 49 3,
    cliString "flat_bridge_closing_join" "miter",
    .cli "enable_support" "support_enabled" (.bool false) extractBool,
    cliBool "disable_m73" false,
    .plain "support_type" (.supportType .NormalAuto),
    cliFloat "support_threshold_angle" 300 1,
    cliFloat "support_layer_height_mm" 0 1,
    cliFloat "support_expansion" 0 1,
    cliFloat "support_top_z_distance" 2 1,
    cliFloat "support_bottom_z_distance" 2 1,
    cli "support_threshold_overlap" (.floatOrPercent (Floats.literal 500 1) true)
      extractFloatOrPercent,
    cli "support_line_width" (.floatOrPercent (Floats.literal 0 1) false) extractFloatOrPercent,
    cliBool "bridge_no_support" false,
    cliInt "enforce_support_layers" 0,
    cliBool "support_critical_regions_only" false,
    cliBool "support_remove_small_overhang" true,
    cliFloat "support_object_first_layer_gap" 2 1,
    cliBool "support_sharp_tails" true,
    cli "nonplanar_max_angle_deg" .absent extractFloat,
    cli "nonplanar_shell_count" .absent extractIntAsU32,
    cli "nonplanar_amplitude" .absent extractFloat,
    cli "smoothificator_target_height" .absent extractFloat,
    cli "smoothificator_adaptive" .absent extractBool,
    cli "bed_shape" (.floats ([0, 0, 2500, 0, 2500, 2500, 0, 2500].map fun n =>
      Floats.literal n 1)) extractFloatList,
    cliFloat "retract_length" 20 1,
    cliBool "wipe_tower_enabled" false,
    cliFloat "mmu_segmented_region_max_width" 0 1,
    cliFloat "mmu_segmented_region_interlocking_depth" 0 1,
    cliBool "mmu_segmented_region_interlocking_beam" false,
    cli "machine_max_acceleration_extruding" .absent extractFloatOrFirst,
    cli "machine_max_acceleration_travel" .absent extractFloatOrFirst,
    cli "machine_max_speed_x" .absent extractFloatOrFirst,
    cli "machine_max_speed_y" .absent extractFloatOrFirst,
    cli "machine_max_speed_z" .absent extractFloatOrFirst,
    cli "machine_max_speed_e" .absent extractFloatOrFirst,
    cli "machine_max_jerk_x" .absent extractFloatOrFirst,
    cli "machine_max_jerk_y" .absent extractFloatOrFirst,
    cli "machine_max_jerk_z" .absent extractFloatOrFirst,
    cli "machine_max_jerk_e" .absent extractFloatOrFirst,
    cli "filament_density" (.floats []) extractFloatList]

end Table

/-! ### The generated functions -/

structure ResolvedConfig (F : Type) where
  fields : BTreeMap String (FieldValue F)
  extensions : BTreeMap ConfigKey (ConfigValue F)

namespace ResolvedConfig

variable [Floats F]

/-- `ResolvedConfig::default`. -/
def default : ResolvedConfig F where
  fields := ExtTreeMap.ofList (declaredFields.map fun row => (row.field, row.default)) compare
  extensions := ∅

/-- `ResolvedConfig::typed_field_keys`. -/
def typedFieldKeys (F : Type) [Floats F] : List String :=
  (declaredFields (F := F)).map FieldRow.key ++ ["wall_loops"]

/-- Whether `apply_cli_key` has an arm for the key. -/
def cliBound (F : Type) [Floats F] (key : ConfigKey) : Bool :=
  (declaredFields (F := F)).any (FieldRow.binds key) || key == "wall_loops"

/-- `ResolvedConfig::apply_cli_key`: whether the key matched, and the config. -/
def applyCliKey (config : ResolvedConfig F) (key : ConfigKey) (value : ConfigValue F) :
    Except (ConfigResolutionError F) (Bool × ResolvedConfig F) :=
  match declaredFields.find? (FieldRow.binds key) with
  | some (.cli _ field _ extractor) => do
      let extracted ← extractor key value
      return (true, { config with fields := config.fields.insert field extracted })
  | some (.plain _ _) => .ok (false, config)
  | none =>
      if key == "wall_loops" then do
        let extracted ← extractIntAsU32 key value
        return (true, { config with fields := config.fields.insert "wall_count" extracted })
      else .ok (false, config)

/-- `ResolvedConfig::to_config_map`: extensions are merged last. -/
def toConfigMap (config : ResolvedConfig F) : BTreeMap ConfigKey (ConfigValue F) :=
  let typed := (declaredFields (F := F)).foldl (fun map row =>
    match config.fields[row.field]?.bind FieldValue.toConfigValue with
    | some value => map.insert row.key value
    | none => map) ∅
  config.extensions.toList.foldl (fun map row => map.insert row.1 row.2) typed

/-- The flattened config at a key is decided by the typed fields and the
extension at the key. -/
theorem toConfigMap_congr {config config' : ResolvedConfig F} {key : ConfigKey}
    (hfields : config.fields = config'.fields)
    (hextension : config.extensions[key]? = config'.extensions[key]?) :
    config.toConfigMap[key]? = config'.toConfigMap[key]? := by
  rw [toConfigMap, toConfigMap, BTreeMap.getElem?_foldl_insert_toList,
    BTreeMap.getElem?_foldl_insert_toList, hfields, hextension]

/-- Extensions shadow typed fields. -/
theorem toConfigMap_extension {config : ResolvedConfig F} {key : ConfigKey} {value : ConfigValue F}
    (h : config.extensions[key]? = some value) : config.toConfigMap[key]? = some value := by
  rw [toConfigMap, BTreeMap.getElem?_foldl_insert_toList, h, Option.some_or]

/-- An accepted key either is bound and leaves the extensions alone, or is not
bound and leaves everything alone. -/
theorem applyCliKey_eq_ok {config config' : ResolvedConfig F} {key : ConfigKey}
    {value : ConfigValue F} {matched : Bool}
    (h : config.applyCliKey key value = .ok (matched, config')) :
    matched = cliBound F key ∧ config'.extensions = config.extensions ∧
      (matched = false → config' = config) := by
  cases hfind : (declaredFields (F := F)).find? (FieldRow.binds key) with
  | none =>
    have hany : (declaredFields (F := F)).any (FieldRow.binds key) = false :=
      List.any_eq_false.mpr fun row hrow => List.find?_eq_none.mp hfind row hrow
    simp only [applyCliKey, hfind] at h
    rw [cliBound, hany, Bool.false_or]
    cases hwall : key == "wall_loops" with
    | true =>
      rw [hwall] at h
      obtain ⟨extracted, -, h⟩ := Except.of_bind_eq_ok h
      cases h
      exact ⟨rfl, rfl, nofun⟩
    | false =>
      rw [hwall] at h
      cases h
      exact ⟨rfl, rfl, fun _ => rfl⟩
  | some row =>
    have hbinds : FieldRow.binds key row = true := List.find?_some hfind
    have hany : (declaredFields (F := F)).any (FieldRow.binds key) = true :=
      List.any_eq_true.mpr ⟨row, List.mem_of_find?_eq_some hfind, hbinds⟩
    simp only [applyCliKey, hfind] at h
    rw [cliBound, hany, Bool.true_or]
    cases row with
    | plain field default => cases hbinds
    | cli name field default extractor =>
      obtain ⟨extracted, -, h⟩ := Except.of_bind_eq_ok h
      cases h
      exact ⟨rfl, rfl, nofun⟩

theorem mem_typedFieldKeys_of_cliBound {key : ConfigKey} (h : cliBound F key = true) :
    key ∈ typedFieldKeys F := by
  rw [cliBound, Bool.or_eq_true, List.any_eq_true] at h
  rw [typedFieldKeys, List.mem_append]
  rcases h with ⟨row, hrow, hbinds⟩ | hwall
  · cases row with
    | plain field default => cases hbinds
    | cli name field default extractor =>
      obtain rfl : name = key := beq_iff_eq.mp hbinds
      exact Or.inl (List.mem_map.mpr ⟨_, hrow, rfl⟩)
  · exact Or.inr (by simpa using hwall)

end ResolvedConfig

end PinchNPrint.Config
