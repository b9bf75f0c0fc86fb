/-
Expansion of relative and automatic values (`slicer-config`: `lib.rs`).

`expandKey` computes the expanded value of one key of the merged snapshot,
expanding the key's base first and remembering every value it computed. The
set of keys being visited is inserted on entry and removed on exit, so nested
calls receive it as an argument. `expandAutomaticValues` expands every key and
then writes the values that changed back into a copy of the config.
-/

import PinchNPrint.Config.Registry
import PinchNPrint.Config.ResolvedConfig

namespace PinchNPrint.Config

open Std

variable {F : Type} [Floats F]

structure ExpansionContext (F : Type) where
  nozzleDiameterMm : F
  toolBases : BTreeMap Nat (BTreeMap String F) := ∅

/-- The read-only part of `ExpansionResolver`. -/
structure ExpansionResolver (F : Type) where
  registry : ConfigSchemaRegistry F
  source : BTreeMap ConfigKey (ConfigValue F)
  context : ExpansionContext F
  toolIndex : Option Nat

/-- The values expanded so far. -/
abbrev Expanded (F : Type) := BTreeMap ConfigKey (ConfigValue F)

def BOTTOM_AUTO_BASES : List (String × String) :=
  [("support_interface_bottom_layers", "support_interface_top_layers"),
    ("support_bottom_interface_spacing", "support_interface_spacing")]

omit [Floats F] in
def percentMagnitude : ConfigValue F → Option F
  | .percent value => some value
  | .floatOrPercent value true => some value
  | _ => none

def absoluteNumber : ConfigValue F → Option F
  | .float value => some value
  | .int value => some (Floats.ofInt value)
  | .floatOrPercent value false => some value
  | _ => none

/-- `base_number`: a list stands for its first element. -/
def baseNumber : ConfigValue F → Option F
  | .list items => items.head?.bind absoluteNumber
  | other => absoluteNumber other

omit [Floats F] in
def absoluteLike (original : ConfigValue F) (value : F) : ConfigValue F :=
  match original with
  | .floatOrPercent _ _ => .floatOrPercent value false
  | _ => .float value

/-- The shared shape of `is_plain_zero` and `is_plain_minus_one`. -/
def isPlain (n : Int) : ConfigValue F → Bool
  | .float value => Floats.eq value (Floats.literal (n * 10) 1)
  | .int value => value == n
  | .floatOrPercent value false => Floats.eq value (Floats.literal (n * 10) 1)
  | _ => false

def isPlainZero (value : ConfigValue F) : Bool :=
  isPlain 0 value

def isPlainMinusOne (value : ConfigValue F) : Bool :=
  isPlain (-1) value

def validateBase (key baseKey : String) (value : F) : Except (ExpansionError F) F :=
  if Floats.isFinite value && Floats.lt (Floats.literal 0 1) value then .ok value
  else .error (.nonPositiveBase key baseKey value)

namespace ExpansionResolver

def requiredNozzle (resolver : ExpansionResolver F) (key : String) : Except (ExpansionError F) F :=
  validateBase key "nozzle_diameter" resolver.context.nozzleDiameterMm

/-- The per-tool base of the selected tool. -/
def toolBase (resolver : ExpansionResolver F) (baseKey : String) : Option F := do
  let tool ← resolver.toolIndex
  let bases ← resolver.context.toolBases[tool]?
  bases[baseKey]?

/-- `required_base`; `expand` is `expand_key`. -/
def requiredBase (resolver : ExpansionResolver F)
    (expand : String → Expanded F →
      Except (ExpansionError F) (Option (ConfigValue F) × Expanded F))
    (key baseKey : String) (expanded : Expanded F) :
    Except (ExpansionError F) (F × Expanded F) :=
  match resolver.toolBase baseKey with
  | some value => (validateBase key baseKey value).map fun base => (base, expanded)
  | none => do
      let (found, expanded) ← expand baseKey expanded
      match found with
      | some value =>
          match baseNumber value with
          | some number => (validateBase key baseKey number).map fun base => (base, expanded)
          | none => .error (.unknownBaseKey key baseKey)
      | none =>
          if baseKey == "nozzle_diameter" then
            (resolver.requiredNozzle key).map fun base => (base, expanded)
          else .error (.unknownBaseKey key baseKey)

/-- The percent magnitude of a value and the base key its entry declares. -/
def relative (resolver : ExpansionResolver F) (key : String) (value : ConfigValue F) :
    Option (F × String) := do
  let percent ← percentMagnitude value
  let entry ← resolver.registry.entry key
  let baseKey ← entry.baseKey
  return (percent, baseKey)

/-- The cases of `expand_key` for a key that is neither expanded nor being
visited; `expand` is `expand_key`. -/
def expandValue (resolver : ExpansionResolver F)
    (expand : String → Expanded F →
      Except (ExpansionError F) (Option (ConfigValue F) × Expanded F))
    (key : String) (value : ConfigValue F) (expanded : Expanded F) :
    Except (ExpansionError F) (ConfigValue F × Expanded F) :=
  if key == "line_width" && isPlainZero value then do
    let (nozzle, expanded) ← resolver.requiredBase expand key "nozzle_diameter" expanded
    return (.float (Floats.mul (Floats.literal 1125 3) nozzle), expanded)
  else if key == "support_line_width" && isPlainZero value then do
    let (nozzle, expanded) ← resolver.requiredBase expand key "nozzle_diameter" expanded
    return (.float nozzle, expanded)
  else
    match BOTTOM_AUTO_BASES.find? fun row => row.1 == key && isPlainMinusOne value with
    | some (_, baseKey) => do
        let (found, expanded) ← expand baseKey expanded
        match found with
        | some result => return (result, expanded)
        | none => .error (.missingAutoBase key baseKey)
    | none =>
        match resolver.relative key value with
        | some (percent, baseKey) => do
            let (base, expanded) ← resolver.requiredBase expand key baseKey expanded
            return (absoluteLike value
              (Floats.mul (Floats.div percent (Floats.literal 1000 1)) base), expanded)
        | none => .ok (value, expanded)

/-- `expand_key`. A nested call visits one more key of the source, so depth
`source.size + 1` is never exceeded. -/
def expandKey (resolver : ExpansionResolver F) : Nat → BTreeSet String → String → Expanded F →
    Except (ExpansionError F) (Option (ConfigValue F) × Expanded F)
  | 0, _, key, expanded => .ok (resolver.source[key]?, expanded)
  | depth + 1, visiting, key, expanded =>
      match expanded[key]? with
      | some value => .ok (some value, expanded)
      | none =>
          match resolver.source[key]? with
          | none => .ok (none, expanded)
          | some value =>
              if key ∈ visiting then .ok (some value, expanded)
              else do
                let (result, expanded) ← resolver.expandValue
                  (resolver.expandKey depth (visiting.insert key)) key value expanded
                return (some result, expanded.insert key result)

/-- Every key of the source, in ascending order. -/
def expandAll (resolver : ExpansionResolver F) : Except (ExpansionError F) (Expanded F) :=
  resolver.source.keys.foldlM (fun expanded key =>
    (resolver.expandKey (resolver.source.size + 1) ∅ key expanded).map Prod.snd) ∅

/-- The commit of one expanded value into the candidate config. -/
def commit [DecidableEq F] (resolver : ExpansionResolver F) (candidate : ResolvedConfig F)
    (row : ConfigKey × ConfigValue F) : ResolvedConfig F :=
  let (key, expanded) := row
  let shadow := fun config : ResolvedConfig F =>
    { config with extensions := config.extensions.insert key expanded }
  if resolver.source[key]? = some expanded then candidate
  else if key ∈ candidate.extensions then shadow candidate
  else
    match candidate.applyCliKey key expanded with
    | .ok (true, updated) => if key == "support_line_width" then shadow updated else updated
    | .ok (false, _) | .error _ => shadow candidate

end ExpansionResolver

def expandAutomaticValues [DecidableEq F] (registry : ConfigSchemaRegistry F)
    (config : ResolvedConfig F) (context : ExpansionContext F) (toolIndex : Option Nat) :
    Except (ExpansionError F) (ResolvedConfig F) := do
  let resolver : ExpansionResolver F :=
    { registry, source := config.toConfigMap, context, toolIndex }
  let expanded ← resolver.expandAll
  return expanded.toList.foldl resolver.commit config

end PinchNPrint.Config
