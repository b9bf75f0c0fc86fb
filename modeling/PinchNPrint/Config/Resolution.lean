/-
Resolution of a scope stack (`slicer-config`: `resolution.rs`).

`applyDelta` checks a delta as a whole (no alias stated twice, no key the scope
may not state) and then applies its values in key order: a value either fills a
typed field or becomes an extension. `mergeScopeStack` is `resolve_scope_stack`
up to the expansion of automatic values.
-/

import PinchNPrint.Config.Expansion

namespace PinchNPrint.Config

open Std

variable {F : Type} [Floats F]

structure ResolutionTarget (F : Type) where
  objectId : ObjectId := ""
  modifierIds : List ModifierId := []
  paintSemantics : List String := []
  toolIndex : Option Nat := none
  layerTopZ : Option F := none

/-! ### Validation against the registry -/

def checkExtensionScalar (key : ConfigKey) (value : F) (entry : RegistryEntry F)
    (index : Option Nat) : Except (ConfigResolutionError F) Unit :=
  if Floats.isFinite value && entry.min.all (fun min => Floats.le min value) &&
      entry.max.all (fun max => Floats.le value max) then .ok ()
  else .error (.outOfRange key value entry.min entry.max index)

def checkExtensionPercent (key : ConfigKey) (value : F) (entry : RegistryEntry F) :
    Except (ConfigResolutionError F) Unit :=
  if Floats.isFinite value && entry.min.all (fun min => Floats.le min value) then .ok ()
  else .error (.outOfRange key value entry.min entry.max none)

/-- The `float` arm for text: `nil`, a percent form, or a number. -/
def checkFloatText (key : ConfigKey) (text : String) (entry : RegistryEntry F) :
    Except (ConfigResolutionError F) Unit :=
  let trimmed := Text.trim text
  if Text.eqIgnoreAsciiCase trimmed "nil" then .ok ()
  else
    match Text.stripSuffix '%' trimmed with
    | some percent =>
        match (Floats.parse (Text.trim percent)).filter Floats.isFinite with
        | some number => checkExtensionPercent key number entry
        | none => .error (mismatch key "Float" (.string text))
    | none =>
        match (Floats.parse trimmed).filter Floats.isFinite with
        | some number => checkExtensionScalar key number entry none
        | none => .error (mismatch key "Float" (.string text))

/-- The value an entry sees: a list stands for its first element under a scalar
type. -/
def envelope (fieldType : String) (value : ConfigValue F) : ConfigValue F :=
  match value with
  | .list (first :: _) => if Text.endsWith fieldType "-list" then value else first
  | other => other

/-- The arms of `validate_extension`. Every error of theirs is raised as
`ResolutionError::Application`. -/
def checkType (key : ConfigKey) (entry : RegistryEntry F) (value : ConfigValue F) :
    Except (ConfigResolutionError F) Unit :=
  match entry.fieldType with
  | "bool" =>
      match value with
      | .bool _ | .int 0 | .int 1 => .ok ()
      | .string text =>
          if (cliBoolSpelling text).isSome then .ok () else .error (mismatch key "Bool" value)
      | other => .error (mismatch key "Bool" other)
  | "int" =>
      match value with
      | .int number => checkExtensionScalar key (Floats.ofInt number) entry none
      | .float number =>
          if Floats.isFinite number && Floats.eq (Floats.fract number) (Floats.literal 0 1) then
            checkExtensionScalar key number entry none
          else .error (mismatch key "Int" value)
      | other => .error (mismatch key "Int" other)
  | "float" =>
      match value with
      | .float number => checkExtensionScalar key number entry none
      | .int number => checkExtensionScalar key (Floats.ofInt number) entry none
      | .string text => checkFloatText key text entry
      | other => .error (mismatch key "Float" other)
  | "string" | "enum" =>
      match value with
      | .string _ => .ok ()
      | other => .error (mismatch key "String" other)
  | "percent" =>
      match value with
      | .percent number => checkExtensionPercent key number entry
      | other => .error (mismatch key "Percent" other)
  | "float_or_percent" =>
      match value with
      | .floatOrPercent number true => checkExtensionPercent key number entry
      | .floatOrPercent number false => checkExtensionScalar key number entry none
      | .float number => checkExtensionScalar key number entry none
      | .int number => checkExtensionScalar key (Floats.ofInt number) entry none
      | .percent number => checkExtensionPercent key number entry
      | other => .error (mismatch key "FloatOrPercent" other)
  | "int-list" =>
      match value with
      | .list items => items.zipIdx.forM fun (item, index) =>
          match item with
          | .int number => checkExtensionScalar key (Floats.ofInt number) entry (some index)
          | other => .error (mismatch key "Int" other)
      | other => .error (mismatch key "List" other)
  | "float-list" =>
      match value with
      | .list items => items.zipIdx.forM fun (item, index) =>
          match item with
          | .float number => checkExtensionScalar key number entry (some index)
          | .int number => checkExtensionScalar key (Floats.ofInt number) entry (some index)
          | other => .error (mismatch key "Float" other)
      | .float number => checkExtensionScalar key number entry (some 0)
      | .int number => checkExtensionScalar key (Floats.ofInt number) entry (some 0)
      | other => .error (mismatch key "List" other)
  | "string-list" =>
      match value with
      | .list items => items.forM fun item =>
          match item with
          | .string _ => .ok ()
          | other => .error (mismatch key "String" other)
      | .string _ => .ok ()
      | other => .error (mismatch key "List" other)
  | _ => .ok ()

/-- `validate_extension`: an undeclared key is not typed. -/
def validateExtension (registry : ConfigSchemaRegistry F) (key : ConfigKey)
    (value : ConfigValue F) : Except (ResolutionError F) Unit :=
  match registry.entryOrWildcard key with
  | none => .ok ()
  | some entry => (checkType key entry (envelope entry.fieldType value)).mapError .application

/-! ### Applying one delta -/

/-- The first alias of which a delta states both spellings. -/
def aliasConflict (delta : ScopeDelta F) : Option (String × String) :=
  CONFIG_KEY_ALIASES.find? fun row => row.1 ∈ delta.values && row.2 ∈ delta.values

/-- The eligibility gate: the first key the scope may not state, canonically
spelt. -/
def firstDenied (registry : ConfigSchemaRegistry F) (scope : ConfigScope) (delta : ScopeDelta F) :
    Option ConfigKey :=
  (delta.values.keys.map canonicalConfigKey).find? fun key => key ∉ registry.admissionSet scope

/-- The body of the loop that applies the values of a delta. -/
def applyValue (registry : ConfigSchemaRegistry F) (config : ResolvedConfig F)
    (row : ConfigKey × ConfigValue F) : Except (ResolutionError F) (ResolvedConfig F) := do
  let key := canonicalConfigKey row.1
  validateExtension registry key row.2
  let (matched, config) ← (config.applyCliKey key row.2).mapError .application
  return if matched then config
    else { config with extensions := config.extensions.insert key row.2 }

def applyDelta (registry : ConfigSchemaRegistry F) (config : ResolvedConfig F)
    (scope : ConfigScope) : Option (ScopeDelta F) → Except (ResolutionError F) (ResolvedConfig F)
  | none => .ok config
  | some delta =>
      match aliasConflict delta with
      | some (legacy, canonical) => .error (.application (.typeMismatch
          s!"{canonical} and {legacy}" "one config key" "both config keys supplied"))
      | none =>
          match firstDenied registry scope delta with
          | some key => .error (.scopeDenied key scope)
          | none => delta.values.toList.foldlM (applyValue registry) config

/-! ### Registry defaults -/

def parseRegistryDefault (entry : RegistryEntry F) (default : String) : Option (ConfigValue F) :=
  let trimmed := Text.trim default
  match entry.fieldType with
  | "bool" =>
      match trimmed with
      | "true" => some (.bool true)
      | "false" => some (.bool false)
      | _ => none
  | "int" => (Text.parseI64 trimmed).map .int
  | "float" => (Floats.parse trimmed).map .float
  | "string" | "enum" => some (.string default)
  | "percent" =>
      (Floats.parse (Text.trim ((Text.stripSuffix '%' trimmed).getD trimmed))).map .percent
  | "float_or_percent" =>
      match Text.stripSuffix '%' trimmed with
      | some magnitude =>
          (Floats.parse (Text.trim magnitude)).map fun value => .floatOrPercent value true
      | none => (Floats.parse trimmed).map fun value => .floatOrPercent value false
  | "int-list" => ((Text.split ',' default).mapM fun item =>
      (Text.parseI64 (Text.trim item)).map .int).map .list
  | "float-list" => ((Text.split ',' default).mapM fun item =>
      (Floats.parse (Text.trim item)).map .float).map .list
  | "string-list" =>
      some (.list (if default.isEmpty then [] else (Text.split ',' default).map .string))
  | _ => none

def renderTypeName (fieldType : String) : String :=
  match fieldType with
  | "bool" => "Bool"
  | "int" => "Int"
  | "float" => "Float"
  | "string" | "enum" => "String"
  | "percent" => "Percent"
  | "float_or_percent" => "FloatOrPercent"
  | "int-list" => "List<Int>"
  | "float-list" => "List<Float>"
  | "string-list" => "List<String>"
  | _ => "registry-declared type"

/-- The default a key is seeded with, before it is parsed: the key is exact, it
is no selector, its canonical spelling is no typed field, and it has one. -/
def seedDefault (registry : ConfigSchemaRegistry F) (key : ConfigKey) :
    Option (RegistryEntry F × String) :=
  if key.toList.contains '*' then none
  else
    match registry.entry key with
    | none => none
    | some entry =>
        if entry.selector then none
        else if canonicalConfigKey key ∈ ResolvedConfig.typedFieldKeys F then none
        else entry.default.map fun default => (entry, default)

/-- The body of the loop of `seed_registry_defaults`. -/
def seedKey (registry : ConfigSchemaRegistry F) (config : ResolvedConfig F) (key : ConfigKey) :
    Except (ResolutionError F) (ResolvedConfig F) :=
  match seedDefault registry key with
  | none => .ok config
  | some (entry, default) =>
      match parseRegistryDefault entry default with
      | none => .error (.application (.typeMismatch key (renderTypeName entry.fieldType)
          s!"unrenderable default {Floats.debugText F default}"))
      | some value => do
          validateExtension registry key value
          return { config with
            extensions := if key ∈ config.extensions then config.extensions
              else config.extensions.insert key value }

def seedRegistryDefaults (registry : ConfigSchemaRegistry F) (config : ResolvedConfig F) :
    Except (ResolutionError F) (ResolvedConfig F) :=
  registry.keys.foldlM (seedKey registry) config

/-! ### The scope stack -/

/-- `resolve_scope_stack` up to expansion. -/
def mergeScopeStack (registry : ConfigSchemaRegistry F) (authored : ScopedConfig F)
    (target : ResolutionTarget F) : Except (ResolutionError F) (ResolvedConfig F) := do
  let config ← applyDelta registry ResolvedConfig.default .global authored.global
  let config ← applyDelta registry config (.object target.objectId)
    (authored.delta (.object target.objectId))
  let config ← match target.layerTopZ with
    | some layerTopZ =>
        (authored.rangesFor target.objectId).foldlM (fun config range =>
          if range.covers layerTopZ then applyDelta registry config range.scope (some range.delta)
          else pure config) config
    | none => pure config
  let config ← target.modifierIds.foldlM (fun config modifierId =>
    let scope := ConfigScope.modifier target.objectId modifierId
    applyDelta registry config scope (authored.delta scope)) config
  let config ← (sortDedup target.paintSemantics).foldlM (fun config semantic =>
    let scope := ConfigScope.paintSemantic semantic
    applyDelta registry config scope (authored.delta scope)) config
  let config ← match target.toolIndex with
    | some toolIndex =>
        applyDelta registry config (.tool toolIndex) (authored.delta (.tool toolIndex))
    | none => pure config
  seedRegistryDefaults registry config

def resolveScopeStack [DecidableEq F] (registry : ConfigSchemaRegistry F)
    (authored : ScopedConfig F) (target : ResolutionTarget F) (expansion : ExpansionContext F) :
    Except (ResolutionError F) (ResolvedConfig F) := do
  let config ← mergeScopeStack registry authored target
  (expandAutomaticValues registry config expansion target.toolIndex).mapError .expansion

end PinchNPrint.Config
