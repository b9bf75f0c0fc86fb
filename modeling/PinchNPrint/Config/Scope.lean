/-
Configuration scopes and the deltas authored at them (`slicer-config`:
`ingestion.rs`, and the error types of `resolution.rs` and `lib.rs`).

A `ScopedConfig` holds one delta per scope and, separately, the world-Z ranges
of each object in stored order. A key may be authored under a legacy spelling;
`canonicalConfigKey` is the one place that says which key it means.
-/

import PinchNPrint.Config.Value

namespace PinchNPrint.Config

open Std

inductive ConfigScope where
  | global
  | object (objectId : ObjectId)
  | layerRange (objectId : ObjectId) (rangeIndex : Nat)
  | modifier (objectId : ObjectId) (modifierId : ModifierId)
  | paintSemantic (semantic : String)
  | tool (index : Nat)
deriving DecidableEq

namespace ConfigScope

/-- Position of the variant in the declaration. -/
def variant : ConfigScope → Nat
  | global => 0
  | object _ => 1
  | layerRange _ _ => 2
  | modifier _ _ => 3
  | paintSemantic _ => 4
  | tool _ => 5

/-- The textual fields, in order. -/
def names : ConfigScope → List String
  | global | tool _ => []
  | object objectId | layerRange objectId _ => [objectId]
  | modifier objectId modifierId => [objectId, modifierId]
  | paintSemantic semantic => [semantic]

/-- The numeric field. -/
def index : ConfigScope → Nat
  | layerRange _ index | tool index => index
  | _ => 0

/-- The derived `Ord`: by variant, then field by field. -/
instance : Ord ConfigScope where
  compare := compareLex (compareOn variant) (compareLex (compareOn names) (compareOn index))

instance : TransOrd ConfigScope :=
  inferInstanceAs <|
    TransCmp (compareLex (compareOn variant) (compareLex (compareOn names) (compareOn index)))

instance : LawfulEqOrd ConfigScope where
  eq_of_compare {a b} h := by
    change compareLex _ (compareLex _ _) a b = .eq at h
    rw [compareLex_eq_eq, compareLex_eq_eq] at h
    have hvariant : a.variant = b.variant := Std.compare_eq_iff_eq.mp h.1
    have hnames : a.names = b.names := Std.compare_eq_iff_eq.mp h.2.1
    have hindex : a.index = b.index := Std.compare_eq_iff_eq.mp h.2.2
    cases a <;> cases b <;> simp_all [variant, names, index]

end ConfigScope

/-- `scope_denial_label`: scope instances share their family's policy. -/
def scopeDenialLabel : ConfigScope → String
  | .global => "global"
  | .object _ => "object"
  | .layerRange _ _ => "layer_range"
  | .modifier _ _ => "modifier"
  | .paintSemantic _ => "paint_semantic"
  | .tool _ => "tool"

inductive ExpansionError (F : Type) where
  | unknownBaseKey (key baseKey : String)
  | missingAutoBase (key baseKey : String)
  | nonPositiveBase (key baseKey : String) (value : F)
deriving DecidableEq

inductive ResolutionError (F : Type) where
  | application (error : ConfigResolutionError F)
  | expansion (error : ExpansionError F)
  | invalidObjectHeight (objectId : String) (value : Option F)
  | scopeDenied (key : String) (scope : ConfigScope)
deriving DecidableEq

/-- `CONFIG_KEY_ALIASES`: legacy spelling and canonical key. -/
def CONFIG_KEY_ALIASES : List (String × String) :=
  [("first_layer_line_width", "initial_layer_line_width"),
    ("support_overhang_angle", "support_threshold_angle")]

def canonicalConfigKey (key : ConfigKey) : ConfigKey :=
  match CONFIG_KEY_ALIASES.find? fun row => key == row.1 with
  | some (_, canonical) => canonical
  | none => key

/-- A canonical spelling is its own canonical spelling. -/
@[simp] theorem canonicalConfigKey_idem (key : ConfigKey) :
    canonicalConfigKey (canonicalConfigKey key) = canonicalConfigKey key := by
  cases h : CONFIG_KEY_ALIASES.find? fun row => key == row.1 with
  | none => simp only [canonicalConfigKey, h]
  | some row =>
    have hkey : canonicalConfigKey key = row.2 := by simp only [canonicalConfigKey, h]
    have hrow : row ∈ CONFIG_KEY_ALIASES := List.mem_of_find?_eq_some h
    have hcanonical : ∀ row ∈ CONFIG_KEY_ALIASES, canonicalConfigKey row.2 = row.2 := by decide
    rw [hkey, hcanonical row hrow]

variable {F : Type}

/-- `ScopeDelta`: the values an author supplied at one scope. -/
structure ScopeDelta (F : Type) where
  values : BTreeMap ConfigKey (ConfigValue F) := ∅

/-- `LayerConfigRange`: one validated world-Z range. -/
structure LayerConfigRange (F : Type) where
  scope : ConfigScope
  minZ : F
  maxZ : F
  delta : ScopeDelta F

/-- `LayerConfigRange::covers`: each bound is the smaller of its authored value
and its `f32` image, unless narrowing overflows. -/
def LayerConfigRange.covers [Floats F] (range : LayerConfigRange F) (layerTopZ : F) : Bool :=
  let narrower := fun bound =>
    if Floats.isFinite (Floats.narrow bound) then Floats.narrow bound else bound
  let lower := Floats.min range.minZ (narrower range.minZ)
  let upper := Floats.min range.maxZ (narrower range.maxZ)
  Floats.le lower layerTopZ && Floats.lt layerTopZ upper

/-- `ScopedConfig`: all authored deltas, and the layer ranges of each object. -/
structure ScopedConfig (F : Type) where
  deltas : BTreeMap ConfigScope (ScopeDelta F) := ∅
  layerRanges : BTreeMap ObjectId (List (LayerConfigRange F)) := ∅

namespace ScopedConfig

/-- `ScopedConfig::delta`. -/
def delta (config : ScopedConfig F) (scope : ConfigScope) : Option (ScopeDelta F) :=
  config.deltas[scope]?

/-- `ScopedConfig::global`. -/
def global (config : ScopedConfig F) : Option (ScopeDelta F) :=
  config.delta .global

/-- `ScopedConfig::ranges_for`. -/
def rangesFor (config : ScopedConfig F) (objectId : ObjectId) : List (LayerConfigRange F) :=
  config.layerRanges[objectId]?.getD []

end ScopedConfig

end PinchNPrint.Config
