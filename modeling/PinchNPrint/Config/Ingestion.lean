/-
Typed ingestion of authored configuration (`slicer-config`: `ingestion.rs`).

Wire keys decode to a scope and a key; the key's registry entry, exact, through
a `prefix:*` wildcard, or under its canonical spelling, types the authored
value. A key without an entry is dropped with a warning. The authored spelling
is kept in the delta. Ingestion is transactional: a call that fails leaves the
ingestor as it was, so the model returns the new ingestor only on success.
-/

import PinchNPrint.Config.Registry

namespace PinchNPrint.Config

open Std

inductive IngestionWarning where
  | unrecognizedKey (wireKey key : String) (suggestion : Option String)
  | untypedValue (key declaredType authored : String)
deriving DecidableEq

inductive ConfigIngestionError where
  | malformedScopeKey (wireKey expected : String)
  | typeMismatch (key expected authored : String)
deriving DecidableEq

/-- `LayerRangeLoadError`, without the variant nothing raises. -/
inductive LayerRangeLoadError (F : Type) where
  | denied (error : ResolutionError F)
  | conflictingOverlap (objectId : ObjectId) (key : ConfigKey) (firstRange secondRange : Nat)
  | invalidInterval (objectId : ObjectId) (rangeIndex : Nat) (minZ maxZ : F)
  | invalidLayerHeight (objectId : ObjectId) (rangeIndex : Nat) (layerHeight : F)
  | ingestion (error : ConfigIngestionError)
deriving DecidableEq

structure LayerRangeInput (F : Type) where
  objectId : ObjectId
  sourceIndex : Nat
  minZ : F
  maxZ : F
  values : BTreeMap String String

structure IngestionOutcome (F : Type) where
  config : ScopedConfig F
  selectorValues : BTreeMap ConfigKey (ConfigValue F)
  warnings : List IngestionWarning

/-! ### Wire keys -/

/-- The pieces of a key of the shape `family:<middle>:<key>`, when `accept`
takes the middle and the key is not empty. -/
def scopedPieces {α : Type} (accept : String → Option α) (wireKey : String) :
    Option (α × ConfigKey) :=
  match Text.split ':' wireKey with
  | [_, middle, key] => if key.isEmpty then none else (accept middle).map fun m => (m, key)
  | _ => none

/-- Whether a wire key claims a scope family. -/
def claimsFamily (family wireKey : String) : Bool :=
  wireKey == family || Text.startsWith wireKey (family ++ ":")

/-- A nonempty middle piece. -/
def nonempty (text : String) : Option String :=
  if text.isEmpty then none else some text

def decodeWireKey (wireKey : String) : Except ConfigIngestionError (ConfigScope × ConfigKey) :=
  if claimsFamily "object_config" wireKey then
    match scopedPieces nonempty wireKey with
    | some (objectId, key) => .ok (.object objectId, key)
    | none => .error (.malformedScopeKey wireKey "object_config:<object_id>:<key>")
  else if claimsFamily "paint_config" wireKey then
    match scopedPieces nonempty wireKey with
    | some (semantic, key) => .ok (.paintSemantic semantic, key)
    | none => .error (.malformedScopeKey wireKey "paint_config:<semantic>:<key>")
  else if claimsFamily "tool_config" wireKey then
    match scopedPieces Text.parseU32 wireKey with
    | some (index, key) => .ok (.tool index, key)
    | none => .error (.malformedScopeKey wireKey "tool_config:<u32>:<key>")
  else .ok (.global, wireKey)

/-! ### Coercion -/

variable {F : Type} [Floats F]

def authoredText : ConfigValue F → String
  | .bool value => toString value
  | .int value => toString value
  | .float value => Floats.display value
  | .string value => value
  | .list items => ConfigValue.debugItems items
  | .percent value => Floats.display value ++ "%"
  | .floatOrPercent value isPercent =>
      if isPercent then Floats.display value ++ "%" else Floats.display value

/-- `parse_finite_float`: an optional trailing `%` is ignored. -/
def parseFiniteFloat (value : String) : Option F :=
  let trimmed := Text.trim value
  let trimmed := Text.trim ((Text.stripSuffix '%' trimmed).getD trimmed)
  (Floats.parse trimmed).filter Floats.isFinite

def parseBool (value : String) : Option Bool :=
  let trimmed := Text.trim value
  if Text.eqIgnoreAsciiCase trimmed "true" || trimmed == "1" then some true
  else if Text.eqIgnoreAsciiCase trimmed "false" || trimmed == "0" then some false
  else none

def parsePercent (value : String) : Option F :=
  (Text.stripSuffix '%' (Text.trim value)).bind parseFiniteFloat

def parseFloatOrPercent (value : String) : Option (F × Bool) :=
  let trimmed := Text.trim value
  match Text.stripSuffix '%' trimmed with
  | some number => (parseFiniteFloat number).map fun value => (value, true)
  | none => (parseFiniteFloat trimmed).map fun value => (value, false)

def parsePointPair (value : String) : Option (F × F) := do
  let (x, y) ← Text.splitOnce 'x' (Text.trim value)
  return (← parseFiniteFloat x, ← parseFiniteFloat y)

/-- The floats one entry of a `float-list` text stands for. -/
def floatListEntry (entry : String) : Option (List (ConfigValue F)) :=
  match parsePointPair entry with
  | some (x, y) => some [.float x, .float y]
  | none => (parseFiniteFloat entry).map fun value => [.float value]

/-- The floats one item of a `float-list` stands for. -/
def floatListItem : ConfigValue F → Option (List (ConfigValue F))
  | .float value => if Floats.isFinite value then some [.float value] else none
  | .int value => some [.float (Floats.ofInt value)]
  | .string text =>
      let entries := (Text.split ',' (Text.trim text)).filter fun part => !(Text.trim part).isEmpty
      (entries.mapM floatListEntry).map List.flatten
  | _ => none

/-- `coerce_list`, as an option. -/
def coerceList (convert : ConfigValue F → Option (ConfigValue F)) :
    ConfigValue F → Option (ConfigValue F)
  | .list items => (items.mapM convert).map .list
  | _ => none

/-- A float, when it is finite. -/
def finite (value : F) (result : ConfigValue F) : Option (ConfigValue F) :=
  if Floats.isFinite value then some result else none

/-- The arms of `coerce_value`; `none` is the type mismatch. -/
def coerce (fieldType : String) (authored : ConfigValue F) : Option (ConfigValue F) :=
  match fieldType with
  | "bool" =>
      match authored with
      | .bool value => some (.bool value)
      | .int 0 => some (.bool false)
      | .int 1 => some (.bool true)
      | .string text => (parseBool text).map .bool
      | _ => none
  | "int" =>
      match authored with
      | .int value => some (.int value)
      | .float value =>
          if Floats.isFinite value && Floats.eq (Floats.fract value) (Floats.literal 0 1) then
            some (.int (Floats.toInt value))
          else none
      | .string text => (Text.parseI64 (Text.trim text)).map .int
      | _ => none
  | "float" =>
      match authored with
      | .float value => finite value (.float value)
      | .int value => some (.float (Floats.ofInt value))
      | .string text => (parseFiniteFloat text).map .float
      | _ => none
  | "string" | "enum" =>
      match authored with
      | .string value => some (.string value)
      | _ => none
  | "percent" =>
      match authored with
      | .percent value => some (.percent value)
      | .floatOrPercent value _ => finite value (.percent value)
      | .int value => some (.percent (Floats.ofInt value))
      | .float value => finite value (.percent value)
      | .string text => (parsePercent text).map .percent
      | _ => none
  | "float_or_percent" =>
      match authored with
      | .floatOrPercent value isPercent => some (.floatOrPercent value isPercent)
      | .percent value => finite value (.floatOrPercent value true)
      | .int value => some (.floatOrPercent (Floats.ofInt value) false)
      | .float value => finite value (.floatOrPercent value false)
      | .string text => (parseFloatOrPercent text).map fun (value, isPercent) =>
          .floatOrPercent value isPercent
      | _ => none
  | "float-list" =>
      let entries := match authored with
        | .list items => items
        | other => [other]
      (entries.mapM floatListItem).map fun items => .list items.flatten
  | "int-list" => coerceList (fun item =>
      match item with
      | .int value => some (.int value)
      | .string text => (Text.parseI64 text).map .int
      | _ => none) authored
  | "string-list" => coerceList (fun item =>
      match item with
      | .string value => some (.string value)
      | _ => none) authored
  | _ => none

def coerceValue (key : ConfigKey) (authored : ConfigValue F) (fieldType : String) :
    Except ConfigIngestionError (ConfigValue F) :=
  match coerce fieldType authored with
  | some value => .ok value
  | none => .error (.typeMismatch key fieldType (authoredText authored))

def isNonFiniteFloatText (F : Type) [Floats F] (value : String) : Bool :=
  (Floats.parse (F := F) (Text.trim value)).any fun number => !Floats.isFinite number

def isNonFinitePercentText (F : Type) [Floats F] (value : String) : Bool :=
  (Text.stripSuffix '%' (Text.trim value)).any (isNonFiniteFloatText F)

def isNonFiniteFloatOrPercentText (F : Type) [Floats F] (value : String) : Bool :=
  match Text.stripSuffix '%' (Text.trim value) with
  | some number => isNonFiniteFloatText F number
  | none => isNonFiniteFloatText F value

def isNonFiniteScalarValue (authored : ConfigValue F) (fieldType : String) : Bool :=
  match fieldType, authored with
  | "float", .float value => !Floats.isFinite value
  | "float", .string text => isNonFiniteFloatText F text
  | "percent", .floatOrPercent value _ => !Floats.isFinite value
  | "percent", .float value => !Floats.isFinite value
  | "percent", .string text => isNonFinitePercentText F text
  | "float_or_percent", .percent value => !Floats.isFinite value
  | "float_or_percent", .float value => !Floats.isFinite value
  | "float_or_percent", .string text => isNonFiniteFloatOrPercentText F text
  | _, _ => false

def isNonFiniteTypeMismatch (authored : ConfigValue F) (fieldType : String) : Bool :=
  match authored with
  | .list items =>
      if Text.endsWith fieldType "-list" then
        fieldType == "float-list" && items.any fun item => isNonFiniteScalarValue item "float"
      else items.any fun item => isNonFiniteScalarValue item fieldType
  | _ => isNonFiniteScalarValue authored fieldType

/-- The loop of `coerce_scalar_list` over the items. -/
def coerceItems (key : ConfigKey) (fieldType : String) :
    List (ConfigValue F) → Except ConfigIngestionError (Option (List (ConfigValue F)))
  | [] => .ok (some [])
  | item :: rest =>
      match coerceValue key item fieldType with
      | .ok value => (coerceItems key fieldType rest).map fun items => items.map (value :: ·)
      | .error error =>
          if isNonFiniteScalarValue item fieldType then .error error else .ok none

def coerceScalarList (key : ConfigKey) (authored : ConfigValue F) (fieldType : String) :
    Except ConfigIngestionError (Option (ConfigValue F)) :=
  match authored with
  | .list items =>
      if Text.endsWith fieldType "-list" then .ok none
      else
        match items.head?.bind (coerce fieldType) with
        | some value => .ok (some value)
        | none => (coerceItems key fieldType items).map fun items => items.map .list
  | _ => .ok none

/-! ### The ingestor -/

/-- One row of the edit-distance table from the previous row: `left` is the
cell to the left, `previous` starts with the cell above it. -/
def distanceRow (c : Char) : Nat → List Nat → List Char → List Nat
  | left, diagonal :: above :: previous, d :: rest =>
      let cell := if c == d then diagonal else 1 + min (min diagonal above) left
      left :: distanceRow c cell (above :: previous) rest
  | left, _, _ => [left]

def levenshtein (first second : String) : Nat :=
  let target := second.toList
  let final := first.toList.zipIdx.foldl
    (fun previous (c, index) => distanceRow c (index + 1) previous target)
    (List.range (target.length + 1))
  final.getLast?.getD 0

def warningOrder : IngestionWarning → IngestionWarning → Ordering
  | .unrecognizedKey wire key suggestion, .unrecognizedKey wire' key' suggestion' =>
      (compare wire wire').then <| (compare key key').then (compare suggestion suggestion')
  | .untypedValue key type authored, .untypedValue key' type' authored' =>
      (compare key key').then <| (compare type type').then (compare authored authored')
  | .unrecognizedKey _ _ _, .untypedValue _ _ _ => .lt
  | .untypedValue _ _ _, .unrecognizedKey _ _ _ => .gt

/-- `sort_by(warning_order)`. -/
def sortWarnings (warnings : List IngestionWarning) : List IngestionWarning :=
  warnings.insertionSort fun first second => warningOrder first second ≠ .gt

structure ConfigIngestor (F : Type) where
  registry : ConfigSchemaRegistry F
  deltas : BTreeMap ConfigScope (ScopeDelta F) := ∅
  layerRanges : BTreeMap ObjectId (List (LayerConfigRange F)) := ∅
  warnings : List IngestionWarning := []
  untypedGlobalKeys : BTreeSet ConfigKey := ∅
  tolerant : Bool

/-- `PendingEntry`; `value` is `none` for an undeclared key. -/
structure PendingEntry (F : Type) where
  scope : ConfigScope
  key : ConfigKey
  value : Option (ConfigValue F)
  warning : Option IngestionWarning

structure PendingLayerRange (F : Type) where
  rangeIndex : Nat
  minZ : F
  maxZ : F
  delta : ScopeDelta F

/-- The entry that types a key at ingestion: exact, wildcard, or that of the
canonical spelling. -/
def typingEntry (registry : ConfigSchemaRegistry F) (key : ConfigKey) : Option (RegistryEntry F) :=
  (registry.entryOrWildcard key).or <|
    if canonicalConfigKey key ≠ key then registry.entryOrWildcard (canonicalConfigKey key) else none

/-- `suggestion`: the nearest registry key at distance at most two, the first
one in key order among equals. -/
def suggestion (registry : ConfigSchemaRegistry F) (key : ConfigKey) : Option String :=
  let near := registry.keys.filterMap fun candidate =>
    let distance := levenshtein key candidate
    if distance ≤ 2 then some (distance, candidate) else none
  let nearest := near.foldl (fun best row =>
    match best with
    | none => some row
    | some (distance, candidate) =>
        if row.1 < distance then some row else some (distance, candidate)) none
  nearest.map Prod.snd

/-- What `prepare_entry` does with a value its entry cannot type. -/
def prepareUntyped (tolerant : Bool) (key : ConfigKey) (authored : ConfigValue F)
    (fieldType : String) (error : ConfigIngestionError) :
    Except ConfigIngestionError (ConfigValue F × Option IngestionWarning) :=
  if !tolerant || isNonFiniteTypeMismatch authored fieldType then .error error
  else do
    let coerced ← coerceScalarList key authored fieldType
    return (coerced.getD authored, some (.untypedValue key fieldType (authoredText authored)))

namespace ConfigIngestor

/-- `ConfigIngestor::with_mode`; `new` is strict, `tolerant` tolerant. -/
def withMode (registry : ConfigSchemaRegistry F) (tolerant : Bool) : ConfigIngestor F :=
  { registry, tolerant }

def prepareEntry (self : ConfigIngestor F) (scope : ConfigScope) (key : ConfigKey)
    (wireKey : String) (authored : ConfigValue F) :
    Except ConfigIngestionError (PendingEntry F) :=
  match typingEntry self.registry key with
  | none => .ok
      { scope, key, value := none
        warning := some (.unrecognizedKey wireKey key (suggestion self.registry key)) }
  | some entry => do
      let (value, warning) ← match coerceValue key authored entry.fieldType with
        | .ok value => .ok (value, none)
        | .error error => prepareUntyped self.tolerant key authored entry.fieldType error
      return { scope, key, value := some value, warning }

/-- Whether a pending entry is an untyped value at the global scope. -/
def untypedGlobal (entry : PendingEntry F) : Bool :=
  match entry.scope, entry.warning with
  | .global, some (.untypedValue _ _ _) => true
  | _, _ => false

/-- The body of the loop in `commit`. -/
def commitEntry (self : ConfigIngestor F) (entry : PendingEntry F) : ConfigIngestor F :=
  { self with
    untypedGlobalKeys :=
      if untypedGlobal entry then self.untypedGlobalKeys.insert entry.key
      else self.untypedGlobalKeys
    deltas :=
      match entry.value with
      | some value =>
          let delta := self.deltas[entry.scope]?.getD {}
          self.deltas.insert entry.scope { values := delta.values.insert entry.key value }
      | none => self.deltas
    warnings := self.warnings ++ entry.warning.toList }

def commit (self : ConfigIngestor F) (pending : List (PendingEntry F)) : ConfigIngestor F :=
  let committed := pending.foldl commitEntry self
  { committed with warnings := sortWarnings committed.warnings }

/-- `ConfigIngestor::ingest_flat`. -/
def ingestFlat (self : ConfigIngestor F) (values : BTreeMap ConfigKey (ConfigValue F)) :
    Except ConfigIngestionError (ConfigIngestor F) := do
  let pending ← values.toList.mapM fun (wireKey, authored) => do
    let (scope, key) ← decodeWireKey wireKey
    self.prepareEntry scope key wireKey authored
  return self.commit pending

/-- `ConfigIngestor::ingest_delta`. -/
def ingestDelta (self : ConfigIngestor F) (scope : ConfigScope)
    (values : BTreeMap ConfigKey (ConfigValue F)) :
    Except ConfigIngestionError (ConfigIngestor F) := do
  let pending ← values.toList.mapM fun (key, authored) => self.prepareEntry scope key key authored
  return self.commit pending

/-- `ConfigIngestor::finish`. -/
def finish (self : ConfigIngestor F) : IngestionOutcome F where
  config := { deltas := self.deltas, layerRanges := self.layerRanges }
  selectorValues :=
    match self.deltas[ConfigScope.global]? with
    | none => ∅
    | some delta => delta.values.filter fun key _ =>
        (self.registry.entryOrWildcard key).any fun entry =>
          entry.selector && key ∉ self.untypedGlobalKeys
  warnings := self.warnings

end ConfigIngestor

/-! ### Layer ranges -/

def validLayerRangeInterval (minZ maxZ : F) : Bool :=
  Floats.isFinite minZ && Floats.isFinite maxZ && Floats.le (Floats.literal 0 1) minZ &&
    Floats.lt minZ maxZ

/-- `LayerConfigRange::new`. -/
def LayerConfigRange.new (objectId : ObjectId) (rangeIndex : Nat) (minZ maxZ : F)
    (delta : ScopeDelta F) : Except (LayerRangeLoadError F) (LayerConfigRange F) :=
  if validLayerRangeInterval minZ maxZ then
    .ok { scope := .layerRange objectId rangeIndex, minZ, maxZ, delta }
  else .error (.invalidInterval objectId rangeIndex minZ maxZ)

/-- The order of the ranges of one object. -/
def rangeOrder (first second : LayerRangeInput F) : Ordering :=
  (Floats.totalCmp first.minZ second.minZ).then <|
    (Floats.totalCmp first.maxZ second.maxZ).then (compare first.sourceIndex second.sourceIndex)

/-- The unusable `layer_height` a range states, if any. -/
def invalidLayerHeight (delta : ScopeDelta F) : Option F :=
  match delta.values["layer_height"]? with
  | none => none
  | some (.float height) =>
      if Floats.isFinite height && Floats.lt (Floats.literal 0 1) height then none else some height
  | some (.int height) => some (Floats.ofInt height)
  | some _ => some Floats.nan

/-- The values of one range and its warnings. -/
def rangeDelta (self : ConfigIngestor F) (scope : ConfigScope) (values : BTreeMap String String) :
    Except ConfigIngestionError (ScopeDelta F × List IngestionWarning) := do
  let entries ← values.toList.mapM fun (key, authored) =>
    self.prepareEntry scope key key (.string authored)
  let delta := entries.foldl (fun delta entry =>
    match entry.value with
    | some value => { values := delta.values.insert entry.key value }
    | none => delta) ({} : ScopeDelta F)
  return (delta, entries.filterMap PendingEntry.warning)

/-- The body of the loop over the sorted ranges of one object. -/
def prepareRange (self : ConfigIngestor F) (objectId : ObjectId)
    (row : LayerRangeInput F × Nat) :
    Except (LayerRangeLoadError F) (PendingLayerRange F × List IngestionWarning) := do
  let (input, rangeIndex) := row
  let scope := ConfigScope.layerRange objectId rangeIndex
  if !validLayerRangeInterval input.minZ input.maxZ then
    .error (.invalidInterval objectId rangeIndex input.minZ input.maxZ)
  else
    let (delta, warnings) ← (rangeDelta self scope input.values).mapError .ingestion
    match invalidLayerHeight delta with
    | some height => .error (.invalidLayerHeight objectId rangeIndex height)
    | none =>
        let admission := self.registry.admissionSet scope
        match delta.values.keys.find? fun key => key ∉ admission with
        | some key => .error (.denied (.scopeDenied key scope))
        | none =>
            return ({ rangeIndex, minZ := input.minZ, maxZ := input.maxZ, delta }, warnings)

/-- The first key other than `layer_height` on which two values differ. -/
def conflictingKey [DecidableEq F] (first second : ScopeDelta F) : Option ConfigKey :=
  first.values.toList.findSome? fun (key, value) =>
    if key == "layer_height" then none
    else second.values[key]?.bind fun other => if value = other then none else some key

def validateLayerRangeOverlaps [DecidableEq F]
    (pending : BTreeMap ObjectId (List (PendingLayerRange F))) :
    Except (LayerRangeLoadError F) Unit :=
  let conflict := pending.toList.findSome? fun (objectId, ranges) =>
    (orderedPairs ranges).findSome? fun (first, second) =>
      if Floats.lt first.minZ second.maxZ && Floats.lt second.minZ first.maxZ then
        (conflictingKey first.delta second.delta).map fun key =>
          LayerRangeLoadError.conflictingOverlap objectId key first.rangeIndex second.rangeIndex
      else none
  match conflict with
  | some error => .error error
  | none => .ok ()

/-- The inputs of each object, in input order. -/
def groupRanges (inputs : List (LayerRangeInput F)) :
    BTreeMap ObjectId (List (LayerRangeInput F)) :=
  inputs.foldl (fun grouped input =>
    grouped.insert input.objectId (grouped[input.objectId]?.getD [] ++ [input])) ∅

/-- The prepared ranges of one object. -/
def prepareObject (self : ConfigIngestor F) (row : ObjectId × List (LayerRangeInput F)) :
    Except (LayerRangeLoadError F) ((ObjectId × List (PendingLayerRange F)) ×
      List IngestionWarning) := do
  let (objectId, inputs) := row
  let sorted := inputs.insertionSort fun first second => rangeOrder first second ≠ .gt
  let ranges ← sorted.zipIdx.mapM (prepareRange self objectId)
  return ((objectId, ranges.map Prod.fst), ranges.flatMap Prod.snd)

/-- `ConfigIngestor::ingest_layer_ranges`. -/
def ConfigIngestor.ingestLayerRanges [DecidableEq F] (self : ConfigIngestor F)
    (inputs : List (LayerRangeInput F)) :
    Except (LayerRangeLoadError F) (ConfigIngestor F) := do
  let prepared ← (groupRanges inputs).toList.mapM (prepareObject self)
  let pending := ExtTreeMap.ofList (prepared.map Prod.fst) compare
  validateLayerRangeOverlaps pending
  let committed ← pending.toList.mapM fun (objectId, ranges) => do
    let ranges ← ranges.mapM fun range =>
      LayerConfigRange.new objectId range.rangeIndex range.minZ range.maxZ range.delta
    return (objectId, ranges)
  return { self with
    layerRanges := committed.foldl (fun map row => map.insert row.1 row.2) self.layerRanges
    warnings := sortWarnings (self.warnings ++ prepared.flatMap Prod.snd) }

end PinchNPrint.Config
