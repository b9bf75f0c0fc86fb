/-
Region mapping (`slicer-core`: `region_mapping.rs`; `slicer-ir`: `slice_ir.rs`,
`region_split_registry.rs`).

For every active region of every layer the map gets an entry for each chain of
the object's paint values, and for each chain and each modifier footprint. Keys
are in the order in which they are inserted; the source keeps them in a hash
map, which only the ranking of contributors in an error iterates.

The slicing of a mesh is a parameter. The stage invocations that every plan
carries along are left out: they are the same for all entries and nothing here
reads them.
-/

import PinchNPrint.Region.Ids

namespace PinchNPrint.Region

open Config
open Layer (PaintValue RegionKey)

variable {F : Type}

/-! ### Paint values and chains -/

namespace PaintSemantic

/-- Position of the variant in the declaration. -/
def variant : PaintSemantic → Nat
  | Material => 0
  | FuzzySkin => 1
  | SupportEnforcer => 2
  | SupportBlocker => 3
  | Custom _ => 4

/-- The name of a custom semantic. -/
def name : PaintSemantic → String
  | Custom name => name
  | _ => ""

/-- The derived `Ord`. -/
instance : Ord PaintSemantic where
  compare := compareLex (compareOn variant) (compareOn name)

instance : Std.TransOrd PaintSemantic :=
  inferInstanceAs <| Std.TransCmp (compareLex (compareOn variant) (compareOn name))

end PaintSemantic

/-- The rank of a variant in `paint_value_canonical_cmp`. -/
def discriminantRank : PaintValue F → Nat
  | .Flag _ => 0
  | .Scalar _ => 1
  | .ToolIndex _ => 2
  | .Custom _ => 3

def paintValueCanonicalCmp [FloatBits F] : PaintValue F → PaintValue F → Ordering
  | .Flag a, .Flag b => compare a b
  | .ToolIndex a, .ToolIndex b => compare a b
  | .Custom a, .Custom b => compare a b
  | .Scalar a, .Scalar b => compare (FloatBits.toBits a) (FloatBits.toBits b)
  | a, b => compare (discriminantRank a) (discriminantRank b)

/-- `BTreeSet::insert` on values in canonical order. -/
def insertValue [FloatBits F] [DecidableEq F] (values : List (PaintValue F)) (value : PaintValue F) :
    List (PaintValue F) :=
  if value ∈ values then values
  else values.orderedInsert (fun a b => paintValueCanonicalCmp a b ≠ .gt) value

/-- `enumerate_canonical_chains`, from a chain on. -/
def buildChains (variants : BTreeMap String (List (PaintValue F))) :
    List String → VariantChain F → List (VariantChain F)
  | [], chain => [chain]
  | semantic :: order, chain =>
      buildChains variants order chain ++ (variants[semantic]?.getD []).flatMap fun value =>
        buildChains variants order (chain ++ [(semantic, value)])

def enumerateCanonicalChains (variants : BTreeMap String (List (PaintValue F)))
    (canonicalOrder : List String) : List (VariantChain F) :=
  buildChains variants canonicalOrder []

/-! ### The map -/

structure RegionPlan (F : Type) where
  config : Nat
  paintOverrides : BTreeMap PaintSemantic (ResolvedConfig F) := ∅

/-- `RegionMapIR`; the pool starts with the default config. -/
structure RegionMapIR (F : Type) [Floats F] where
  entries : List (RegionKey F × RegionPlan F) := []
  configs : List (ResolvedConfig F) := [ResolvedConfig.default]

structure TopContributor where
  objectId : ObjectId
  regionCount : Nat
  layerCount : Nat
deriving DecidableEq

/-- `RegionMappingError`; a panic of the id functions is an error of its own. -/
inductive RegionMappingError (F : Type) where
  | CapExceeded (entryCount cap : Nat) (topContributors : List TopContributor)
      (remediation : String)
  | DuplicateRegionKey (key : RegionKey F)
  | ModifierParentRegionIdOutOfRange (key : RegionKey F)
  | ScalarInRegionSplitFacetValue (objectId : ObjectId) (semantic : String) (scalar : F)
  | Resolution (error : ResolutionError F)
  | Panicked (message : String)

section Values

variable [Floats F]

/-- The typed fields that `==` on configs reads: `disable_m73` is not among them. -/
def comparedFields (config : ResolvedConfig F) : List (String × FieldValue F) :=
  config.fields.toList.filter (·.1 != "disable_m73")

/-- `==` on configs: floats are compared by their bits, in fields and extensions. -/
def sameConfig [DecidableEq F] (a b : ResolvedConfig F) : Bool :=
  decide (comparedFields a = comparedFields b) && decide (a.extensions.toList = b.extensions.toList)

/-- `RegionMapIR::intern_config`. -/
def RegionMapIR.internConfig [DecidableEq F] (map : RegionMapIR F) (config : ResolvedConfig F) :
    RegionMapIR F × Nat :=
  match map.configs.findIdx? (sameConfig · config) with
  | some i => (map, i)
  | none => ({ map with configs := map.configs ++ [config] }, map.configs.length)

/-- The objects of a list of keys with their number, in order of appearance. -/
def objectCounts (objectIds : List ObjectId) : List (ObjectId × Nat) :=
  objectIds.eraseDups.map fun objectId => (objectId, objectIds.count objectId)

/-- The five objects with the most regions. -/
def topContributors (counts : List (ObjectId × Nat)) (layerCount : Nat) : List TopContributor :=
  ((counts.insertionSort fun a b => b.2 ≤ a.2).take 5).map fun count =>
    ⟨count.1, count.2, layerCount⟩

/-- `CapExceeded` with its contributors. -/
def capError (objectIds : List ObjectId) (layerCount cap entryCount : Nat) : RegionMappingError F :=
  .CapExceeded entryCount cap (topContributors (objectCounts objectIds) layerCount)
    "reduce region granularity, raise cap, or split job"

/-- The guard before an insert. -/
def RegionMapIR.checkCap (map : RegionMapIR F) (cap : Nat) : Except (RegionMappingError F) Unit :=
  if cap ≤ map.entries.length then
    .error (capError (map.entries.map fun entry => entry.1.objectId)
      (map.entries.map fun entry => entry.1.globalLayerIndex).eraseDups.length cap
      (map.entries.length + 1))
  else .ok ()

/-- An insert that must not find the key. -/
def RegionMapIR.insertEntry [DecidableEq F] (map : RegionMapIR F) (key : RegionKey F)
    (plan : RegionPlan F) : Except (RegionMappingError F) (RegionMapIR F) :=
  if key ∈ map.entries.map Prod.fst then .error (.DuplicateRegionKey key)
  else .ok { map with entries := map.entries ++ [(key, plan)] }

end Values

/-! ### Inputs -/

structure RegionResolutionAuthority (F : Type) where
  registry : ConfigSchemaRegistry F
  scopedConfig : ScopedConfig F
  expansion : ExpansionContext F

/-- The arguments of `execute_region_mapping_inner`. -/
structure RegionMappingInput (F : Type) where
  globalLayers : List (GlobalLayer F)
  paintSemanticConfigs : BTreeMap PaintSemantic (ResolvedConfig F) := ∅
  aggregatedRegionSplit : BTreeSet String := ∅
  objects : List (ObjectMesh F) := []
  hostConfig : Option (BTreeMap String (ResolvedConfig F) × ResolvedConfig F) := none
  toolConfigs : BTreeMap Nat (ResolvedConfig F) := ∅
  cap : Nat
  layerRangeAuthority : Option (RegionResolutionAuthority F) := none
  sliceMeshEx : IndexedTriangleSet F → List F → List (List ExPolygon)

/-! ### Scanning paint -/

section Scan

variable [FloatBits F] [DecidableEq F]

/-- One cell of a paint layer. -/
def scanCell (objectId : ObjectId) (semantic : String)
    (found : BTreeMap String (List (PaintValue F))) :
    Option (PaintValue F) → Except (RegionMappingError F) (BTreeMap String (List (PaintValue F)))
  | none => .ok found
  | some (.Scalar scalar) => .error (.ScalarInRegionSplitFacetValue objectId semantic scalar)
  | some value => .ok (found.insert semantic (insertValue (found[semantic]?.getD []) value))

/-- One paint layer; a semantic that did not opt in is skipped. -/
def scanLayer (objectId : ObjectId) (aggregated : BTreeSet String)
    (found : BTreeMap String (List (PaintValue F))) (layer : PaintLayer F) :
    Except (RegionMappingError F) (BTreeMap String (List (PaintValue F))) :=
  let semantic := paintSemanticNamespaceKey layer.semantic
  if semantic ∈ aggregated then layer.facetValues.foldlM (scanCell objectId semantic) found
  else .ok found

/-- One object; it is recorded when it has a value. -/
def scanObject (aggregated : BTreeSet String)
    (out : BTreeMap ObjectId (BTreeMap String (List (PaintValue F)))) (object : ObjectMesh F) :
    Except (RegionMappingError F) (BTreeMap ObjectId (BTreeMap String (List (PaintValue F)))) :=
  match object.paintData with
  | none => .ok out
  | some layers => do
      let found ← layers.foldlM (scanLayer object.id aggregated) ∅
      .ok (if found.isEmpty then out else out.insert object.id found)

def scanPaintData (objects : List (ObjectMesh F)) (aggregated : BTreeSet String) :
    Except (RegionMappingError F) (BTreeMap ObjectId (BTreeMap String (List (PaintValue F)))) :=
  objects.foldlM (scanObject aggregated) ∅

end Scan

/-! ### Modifier footprints -/

/-- Modifiers that the paint annotation path takes. -/
def isSupportModifier : ModifierKind → Bool
  | .ParameterModifier | .NegativePart => false
  | .SupportEnforcer | .SupportBlocker => true

/-- The footprint of a modifier at a height, if it takes part and has one. -/
def modifierFootprint (sliceMeshEx : IndexedTriangleSet F → List F → List (List ExPolygon))
    (z : F) (modifier : ModifierVolume F) : Option (List ExPolygon) :=
  if isSupportModifier modifier.kind || modifier.mesh.vertices.isEmpty ||
      modifier.mesh.indices.isEmpty then none
  else
    let footprint := (sliceMeshEx modifier.mesh [z]).headD []
    if footprint.isEmpty then none else some footprint

/-- A modifier joins the group of its footprint, or opens one. -/
def joinGroup (groups : List (List ExPolygon × List (ModifierVolume F)))
    (footprint : List ExPolygon) (modifier : ModifierVolume F) :
    List (List ExPolygon × List (ModifierVolume F)) :=
  match groups.findIdx? (·.1 == footprint) with
  | none => groups ++ [(footprint, [modifier])]
  | some i => groups.modify i fun group => (group.1, group.2 ++ [modifier])

/-- `modifier_footprint_groups`, and the loop of the same text that precedes the
base entries. -/
def modifierFootprintGroups
    (sliceMeshEx : IndexedTriangleSet F → List F → List (List ExPolygon))
    (object : ObjectMesh F) (z : F) : List (List ExPolygon × List (ModifierVolume F)) :=
  object.modifierVolumes.foldl (fun groups modifier =>
    match modifierFootprint sliceMeshEx z modifier with
    | none => groups
    | some footprint => joinGroup groups footprint modifier) []

/-! ### Configs -/

/-- `append_key_part`. -/
def keyPart (value : String) : String :=
  s!"{value.utf8ByteSize}:{value}"

def resolvedTargetKey (objectId : ObjectId) (modifierIds : List ModifierId)
    (paintSemantics : List String) (toolIndex : Option Nat) : String :=
  if modifierIds.isEmpty && paintSemantics.isEmpty && toolIndex.isNone then objectId
  else
    "\x00resolved-target:" ++ keyPart objectId ++ "|" ++
      String.join (modifierIds.map fun id => keyPart id ++ ",") ++ "|" ++
      String.join (paintSemantics.map fun semantic => keyPart semantic ++ ",") ++ "|" ++
      (toolIndex.map fun tool => toString tool).getD ""

/-- Modifiers by ascending priority, the later of two with the same first. -/
def orderedModifiers (modifierVolumes : List (ModifierVolume F)) : List (ModifierVolume F) :=
  (modifierVolumes.zipIdx.insertionSort fun a b =>
    a.1.priority < b.1.priority ∨ (a.1.priority = b.1.priority ∧ b.2 ≤ a.2)).map Prod.fst

/-- The target of an entry, without a height. -/
def entryTarget (objectId : ObjectId) (modifierVolumes : List (ModifierVolume F))
    (chain : VariantChain F) (toolIndex : Option Nat) : ResolutionTarget F where
  objectId := objectId
  modifierIds := (orderedModifiers modifierVolumes).map (·.id)
  paintSemantics := sortDedup (chain.map Prod.fst)
  toolIndex := toolIndex

def resolvedTargetConfig (resolvedConfigs : BTreeMap String (ResolvedConfig F))
    (target : ResolutionTarget F) : Option (ResolvedConfig F) :=
  resolvedConfigs[resolvedTargetKey target.objectId target.modifierIds target.paintSemantics
    target.toolIndex]?

/-- The material tool of a chain. -/
def chainTool (chain : VariantChain F) : Option Nat :=
  chain.findSome? fun (semantic, value) =>
    match value with
    | .ToolIndex index => if semantic == "material" then some index else none
    | _ => none

/-- The tool the loop over a chain ends with: that of its last material entry. -/
def lastChainTool (chain : VariantChain F) : Option Nat :=
  chainTool chain.reverse

/-- Whether stamping passes over a field. -/
def skipsField (key : ConfigKey) : ConfigValue F → Bool
  | .string value => key == "subtype" || value.isEmpty
  | .list items => key == "subtype" || items.isEmpty
  | _ => key == "subtype"

/-- The fields that stamping writes, in order. -/
def stampedFields (modifierVolumes : List (ModifierVolume F)) :
    List (ConfigKey × ConfigValue F) :=
  ((orderedModifiers modifierVolumes).filter (!isSupportModifier ·.kind)).flatMap fun modifier =>
    modifier.configDelta.toList.filter fun field => !skipsField field.1 field.2

/-- `stamp_pre_resolved_sub_region_configs`, the config of the sub-region: the raw
fields of the modifiers are written over the resolved ones. -/
def stampSubRegionConfig (subConfig : ResolvedConfig F)
    (modifierVolumes : List (ModifierVolume F)) : ResolvedConfig F :=
  (stampedFields modifierVolumes).foldl (fun config field =>
    { config with extensions := config.extensions.insert field.1 field.2 }) subConfig

section Mapping

variable [Floats F] [FloatBits F] [DecidableEq F] (input : RegionMappingInput F)

def resolvedTargetConfigForLayer (target : ResolutionTarget F) (layerTopZ : F) :
    Except (RegionMappingError F) (Option (ResolvedConfig F)) :=
  let lookup := input.hostConfig.bind fun host => resolvedTargetConfig host.1 target
  match input.layerRangeAuthority with
  | none => .ok lookup
  | some authority =>
      if !authority.scopedConfig.layerRanges.isEmpty &&
          (authority.scopedConfig.rangesFor target.objectId).any (·.covers layerTopZ) then
        ((resolveScopeStack authority.registry authority.scopedConfig
          { target with layerTopZ := some layerTopZ } authority.expansion).map some).mapError
            .Resolution
      else .ok lookup

/-- The config of a region before paint and modifiers. -/
def baseConfig (region : ActiveRegion F) : ResolvedConfig F :=
  match input.hostConfig with
  | some (perObject, default) => perObject[region.objectId]?.getD default
  | none => region.resolvedConfig

/-- The config of a modifier child. -/
def childConfig (layer : GlobalLayer F) (region : ActiveRegion F)
    (modifiers : List (ModifierVolume F)) (chain : VariantChain F) (toolIndex : Option Nat) :
    Except (RegionMappingError F) (ResolvedConfig F) := do
  let resolved ← resolvedTargetConfigForLayer input
    (entryTarget region.objectId modifiers chain toolIndex) layer.z
  .ok (stampSubRegionConfig (resolved.getD (baseConfig input region)) modifiers)

/-- The overrides of a chain: for each entry the first semantic of its name. -/
def chainOverrides (chain : VariantChain F) : List (PaintSemantic × ResolvedConfig F) :=
  chain.filterMap fun (semantic, _) =>
    input.paintSemanticConfigs.toList.find? (paintSemanticNamespaceKey ·.1 == semantic)

/-- The config of a base or painted entry. Without a host authority the last
override and the tool replace it. -/
def effectiveConfig (layer : GlobalLayer F) (region : ActiveRegion F) (chain : VariantChain F) :
    Except (RegionMappingError F) (ResolvedConfig F) := do
  let resolved ← resolvedTargetConfigForLayer input
    (entryTarget region.objectId [] chain (chainTool chain)) layer.z
  let effective := resolved.getD (baseConfig input region)
  .ok (match input.hostConfig with
    | some _ => effective
    | none =>
        let painted := (((chainOverrides input chain).getLast?).map (·.2)).getD effective
        ((lastChainTool chain).bind fun index => input.toolConfigs[index]?).getD painted)

/-- The groups of a region; a region of the modifier namespace has none. -/
def regionGroups (layer : GlobalLayer F) (region : ActiveRegion F) :
    List (List ExPolygon × List (ModifierVolume F)) :=
  if isModifierNamespaceId region.regionId then []
  else
    match input.objects.find? (·.id == region.objectId) with
    | none => []
    | some object => modifierFootprintGroups input.sliceMeshEx object layer.z

/-- The key of an entry of a region. -/
def entryKey (layer : GlobalLayer F) (region : ActiveRegion F) (regionId : Nat)
    (chain : VariantChain F) : RegionKey F :=
  ⟨layer.index, region.objectId, regionId, chain⟩

/-- The id, or the panic of its function. -/
def orPanic {ε : Type} (panic : ε) : Option Nat → Except ε Nat
  | none => .error panic
  | some id => .ok id

theorem orPanic_some {ε : Type} (panic : ε) (id : Nat) : orPanic panic (some id) = .ok id :=
  rfl

/-- The entry of a modifier child of the unpainted region. -/
def insertModifierEntry (layer : GlobalLayer F) (region : ActiveRegion F) (map : RegionMapIR F)
    (group : List ExPolygon × List (ModifierVolume F)) :
    Except (RegionMappingError F) (RegionMapIR F) :=
  if !modifierSubRegionIdFits region.regionId then
    .error (.ModifierParentRegionIdOutOfRange (entryKey layer region region.regionId []))
  else do
    let subId ← orPanic (.Panicked "modifier sub-region id payload overflow")
      (modifierSubRegionId region.regionId region.objectId group.1)
    map.checkCap input.cap
    let config ← childConfig input layer region group.2 [] none
    let (map, id) := map.internConfig config
    map.insertEntry (entryKey layer region subId []) { config := id }

/-- The entry of a modifier child of a painted region. -/
def insertPaintedModifierEntry (layer : GlobalLayer F) (region : ActiveRegion F)
    (chain : VariantChain F) (parentRegionId : Nat) (map : RegionMapIR F)
    (group : List ExPolygon × List (ModifierVolume F)) :
    Except (RegionMappingError F) (RegionMapIR F) := do
  let subId ← orPanic (.Panicked "modifier sub-region id payload overflow")
    (modifierSubRegionId parentRegionId region.objectId group.1)
  let config ← childConfig input layer region group.2 chain (lastChainTool chain)
  map.checkCap input.cap
  let (map, id) := map.internConfig config
  map.insertEntry (entryKey layer region subId chain)
    { config := id, paintOverrides := .ofList (chainOverrides input chain) compare }

/-- The entries of the modifier children of a painted region. -/
def insertPaintedModifierEntries (layer : GlobalLayer F) (region : ActiveRegion F)
    (chain : VariantChain F) (map : RegionMapIR F) :
    Except (RegionMappingError F) (RegionMapIR F) :=
  let groups := regionGroups input layer region
  if chain.isEmpty || groups.isEmpty then .ok map
  else do
    let parentRegionId ← orPanic
      (.Panicked "painted variant region id exceeds the non-modifier namespace")
      (paintVariantRegionId region.regionId chain)
    if !modifierSubRegionIdFits parentRegionId then
      .error (.ModifierParentRegionIdOutOfRange (entryKey layer region parentRegionId chain))
    else groups.foldlM (insertPaintedModifierEntry input layer region chain parentRegionId) map

/-- The entry of a base or painted region. -/
def insertChainEntry (layer : GlobalLayer F) (region : ActiveRegion F) (chain : VariantChain F)
    (effective : ResolvedConfig F) (map : RegionMapIR F) :
    Except (RegionMappingError F) (RegionMapIR F) := do
  let (map, id) := map.internConfig effective
  map.checkCap input.cap
  map.insertEntry (entryKey layer region region.regionId chain)
    { config := id, paintOverrides := .ofList (chainOverrides input chain) compare }

/-- The entries of a chain of a region. -/
def mapChain (layer : GlobalLayer F) (region : ActiveRegion F) (map : RegionMapIR F)
    (chain : VariantChain F) : Except (RegionMappingError F) (RegionMapIR F) := do
  let effective ← effectiveConfig input layer region chain
  let map ← insertPaintedModifierEntries input layer region chain map
  insertChainEntry input layer region chain effective map

/-- The chains of an object. -/
def objectChains (variants : BTreeMap ObjectId (BTreeMap String (List (PaintValue F))))
    (objectId : ObjectId) : List (VariantChain F) :=
  enumerateCanonicalChains (variants[objectId]?.getD ∅) input.aggregatedRegionSplit.toList

/-- The entries of a region: modifier children first, then chain by chain. -/
def mapRegion (variants : BTreeMap ObjectId (BTreeMap String (List (PaintValue F))))
    (layer : GlobalLayer F) (map : RegionMapIR F) (region : ActiveRegion F) :
    Except (RegionMappingError F) (RegionMapIR F) := do
  let map ← (regionGroups input layer region).foldlM (insertModifierEntry input layer region) map
  (objectChains input variants region.objectId).foldlM (mapChain input layer region) map

/-- The check before anything is mapped. -/
def precheckCap : Except (RegionMappingError F) Unit :=
  let regions := input.globalLayers.flatMap (·.activeRegions)
  if input.cap < regions.length then
    .error (capError (regions.map (·.objectId))
      (input.globalLayers.map (·.index)).eraseDups.length input.cap regions.length)
  else .ok ()

/-- `execute_region_mapping_inner`. -/
def executeRegionMapping : Except (RegionMappingError F) (RegionMapIR F) := do
  precheckCap input
  let variants ← scanPaintData input.objects input.aggregatedRegionSplit
  input.globalLayers.foldlM (fun map layer =>
    layer.activeRegions.foldlM (mapRegion input variants layer) map) {}

end Mapping

end PinchNPrint.Region
