/-
Module config views and the execution plan
(`slicer-scheduler`: `execution_plan.rs`, `region_split.rs`).

A module sees the resolved config only through its `ConfigView`:
`bindModuleConfigView` projects the flattened config onto the keys the module
declares. `buildExecutionPlan` checks resource bounds, checks every view again
with a match rule of its own, and compiles the sorted stages.

Hash maps are ordered maps here; the source reads them by key, or sorts what it
lists. A region plan is only counted, so its type stays a parameter `R`.
-/

import PinchNPrint.Config.Registry
import PinchNPrint.Config.ResolvedConfig
import PinchNPrint.Scheduler.Dag

namespace PinchNPrint.Scheduler

open Std PinchNPrint.Config

variable {F R : Type}

/-! ### Data -/

inductive RegionSplitValueType where
  | Flag
  | ToolIndex
  | CustomString
deriving DecidableEq

/-- `RegionSplitValueType` under `{:?}`. -/
def RegionSplitValueType.debug : RegionSplitValueType → String
  | Flag => "Flag"
  | ToolIndex => "ToolIndex"
  | CustomString => "CustomString"

structure RegionSplitDeclaration where
  semantic : String
  priority : Nat
  valueType : RegionSplitValueType
deriving DecidableEq

structure AggregatedRegionSplitEntry where
  priority : Nat
  valueType : RegionSplitValueType
  declaringModules : List ModuleId
deriving DecidableEq

/-- `LoadDiagnostic` at the warning level. -/
structure LoadDiagnostic where
  path : String
  field : Option String
  message : String
deriving DecidableEq

/-- A `LoadedModule` with what planning reads besides: the entries of its config
schema, its path and its region splits. -/
structure PlannedModule (F : Type) extends LoadedModule where
  configSchema : BTreeMap String (ConfigFieldEntry F) := ∅
  wasmPath : String := ""
  regionSplits : List RegionSplitDeclaration := []
  regionSplitSemantics : BTreeSet String := ∅

/-- `ActiveRegion`, without the geometry nothing here reads. -/
structure ActiveRegion (F : Type) where
  objectId : ObjectId
  regionId : Nat
  resolvedConfig : ResolvedConfig F
  toolIndex : Nat

/-- `GlobalLayer`, likewise. -/
structure GlobalLayer (F : Type) where
  index : Nat
  activeRegions : List (ActiveRegion F)

/-! ### Config views -/

structure ConfigView (F : Type) where
  fields : BTreeMap ConfigKey (ConfigValue F)

namespace ConfigView

/-- `ConfigView::from_declared`. -/
def fromDeclared (source : BTreeMap ConfigKey (ConfigValue F)) (declared : List ConfigKey) :
    ConfigView F where
  fields := declared.foldl (fun fields key =>
    match source[key]? with
    | some value => fields.insert key value
    | none => fields) ∅

/-- `ConfigView::keys`, sorted. -/
def keys (view : ConfigView F) : List ConfigKey :=
  view.fields.keys

end ConfigView

def SUPPORT_GENERATOR_CONFIG_KEY : ConfigKey := "support_type"

def SUPPORT_FAMILY_CONFIG_KEY : ConfigKey := "support_family"

/-- Whether one of the claims is a support-family claim. -/
def holdsSupportFamily (claims : List String) : Bool :=
  claims.any fun claim => Text.startsWith claim "support-family:"

def sourceKeyMatchesDeclared (declaredKey candidate : ConfigKey) : Bool :=
  match Text.stripEnd ":*" declaredKey with
  | some start => (Text.stripStart start candidate).any fun rest => Text.startsWith rest ":"
  | none => declaredKey == candidate

def configKeyDeclared (declared : BTreeMap String (ConfigFieldEntry F)) (key : ConfigKey) : Bool :=
  declared.keys.any fun declaredKey => sourceKeyMatchesDeclared declaredKey key

/-- The body of the loop that gives a declared legacy spelling the value of its
canonical key. -/
def backfillAlias (source : BTreeMap ConfigKey (ConfigValue F)) (declaredKey : ConfigKey) :
    BTreeMap ConfigKey (ConfigValue F) :=
  let canonical := canonicalConfigKey declaredKey
  if canonical ≠ declaredKey then
    match source[canonical]? with
    | some value => source.insert declaredKey value
    | none => source
  else source

/-- The keys a declared key stands for in a source. -/
def effectiveKeys (source : BTreeMap ConfigKey (ConfigValue F)) (declaredKey : ConfigKey) :
    List ConfigKey :=
  if Text.endsWith declaredKey ":*" then
    source.keys.filter fun key => sourceKeyMatchesDeclared declaredKey key
  else [declaredKey]

def projectDeclaredConfigView [Floats F] (resolved : ResolvedConfig F)
    (declared : List ConfigKey) : ConfigView F :=
  let source := declared.foldl backfillAlias resolved.toConfigMap
  ConfigView.fromDeclared source (declared.flatMap (effectiveKeys source))

/-- The read set `bind_module_config_view` authorizes. -/
def declaredReads (module : PlannedModule F) : List ConfigKey :=
  let declared := module.configSchema.keys
  if holdsSupportFamily module.claims then
    [SUPPORT_GENERATOR_CONFIG_KEY, SUPPORT_FAMILY_CONFIG_KEY].foldl (fun declared key =>
      if key ∈ declared then declared else declared ++ [key]) declared
  else declared

def bindModuleConfigView [Floats F] (module : PlannedModule F) (resolved : ResolvedConfig F) :
    ConfigView F :=
  projectDeclaredConfigView resolved (declaredReads module)

/-! ### The plan -/

structure SortedStageModules where
  stageId : StageId
  moduleIds : List ModuleId
deriving DecidableEq

structure ExecutionModuleBinding (F : Type) where
  module : PlannedModule F
  configView : ConfigView F

structure ExecutionPlanRequest (F R : Type) where
  sortedStages : List SortedStageModules
  moduleBindings : List (ExecutionModuleBinding F)
  globalLayers : List (GlobalLayer F)
  regionPlans : List R

/-- `CompiledModuleStatic`; an access mask is its list of paths. -/
structure CompiledModuleStatic (F : Type) where
  moduleId : ModuleId
  irReadMask : List String
  irWriteMask : List String
  configView : ConfigView F
  claims : List String
  requiresModules : List ModuleId
  regionSplitSemantics : BTreeSet String

structure CompiledStage (F : Type) where
  stageId : StageId
  modules : List (CompiledModuleStatic F)

structure ExecutionPlan (F R : Type) where
  prepassStages : List (CompiledStage F)
  perLayerStages : List (CompiledStage F)
  layerFinalizationStage : Option (CompiledStage F)
  postpassStages : List (CompiledStage F)
  globalLayers : List (GlobalLayer F)
  regionPlans : List R
  moduleRegionIndex : BTreeMap Nat (BTreeMap ModuleId (List (ActiveRegion F)))
  aggregatedRegionSplit : BTreeMap String AggregatedRegionSplitEntry

inductive ExecutionPlanError where
  | missingModuleBinding (stageId : StageId) (moduleId : ModuleId)
  | stageMismatch (moduleId : ModuleId) (expectedStage actualStage : StageId)
  | duplicateModuleBinding (moduleId : ModuleId)
  | layerIndexBudgetExceeded (layerIndex budget : Nat)
  | regionMapCapExceeded (entryCount cap : Nat)
  | undeclaredConfigKey (moduleId : ModuleId) (key : ConfigKey)
deriving DecidableEq

def MAX_LAYER_INDEX : Nat := 100000

def DEFAULT_REGION_MAP_CAP : Nat := 750000

/-- The declared-read guard: whether a key may be visible to a module. -/
def visibleAllowed (module : PlannedModule F) (key : ConfigKey) : Bool :=
  configKeyDeclared module.configSchema key ||
    (holdsSupportFamily module.claims &&
      (key == SUPPORT_GENERATOR_CONFIG_KEY || key == SUPPORT_FAMILY_CONFIG_KEY))

/-- The body of the loop over the bindings. -/
def addBinding (bindings : BTreeMap ModuleId (ExecutionModuleBinding F))
    (binding : ExecutionModuleBinding F) :
    Except ExecutionPlanError (BTreeMap ModuleId (ExecutionModuleBinding F)) :=
  match binding.configView.keys.find? fun key => !visibleAllowed binding.module key with
  | some key => .error (.undeclaredConfigKey binding.module.id key)
  | none =>
      if binding.module.id ∈ bindings then .error (.duplicateModuleBinding binding.module.id)
      else .ok (bindings.insert binding.module.id binding)

/-- One module of a sorted stage. -/
def compileModule (bindings : BTreeMap ModuleId (ExecutionModuleBinding F)) (stageId : StageId)
    (moduleId : ModuleId) : Except ExecutionPlanError (CompiledModuleStatic F) :=
  match bindings[moduleId]? with
  | none => .error (.missingModuleBinding stageId moduleId)
  | some binding =>
      if binding.module.stage ≠ stageId then
        .error (.stageMismatch binding.module.id stageId binding.module.stage)
      else .ok
        { moduleId := binding.module.id
          irReadMask := binding.module.irReads
          irWriteMask := binding.module.irWrites
          configView := binding.configView
          claims := binding.module.claims
          requiresModules := binding.module.requiresModules
          regionSplitSemantics := binding.module.regionSplitSemantics }

/-- One sorted stage. -/
def compileStage (bindings : BTreeMap ModuleId (ExecutionModuleBinding F))
    (stage : SortedStageModules) : Except ExecutionPlanError (CompiledStage F) := do
  let modules ← stage.moduleIds.mapM (compileModule bindings stage.stageId)
  return { stageId := stage.stageId, modules }

/-- The stages before which the host's paint annotation is inserted. -/
def paintSuccessors : List StageId :=
  ["Layer::SlicePostProcess", "Layer::Perimeters", "Layer::PerimetersPostProcess",
    "Layer::Infill", "Layer::InfillPostProcess", "Layer::Support", "Layer::SupportPostProcess",
    "Layer::PathOptimization"]

/-- The always-on `Layer::PaintRegionAnnotation` stage. -/
def ensurePaintStage (stages : List (CompiledStage F)) : List (CompiledStage F) :=
  let paint := "Layer::PaintRegionAnnotation"
  if stages.any fun stage => stage.stageId == paint then stages
  else
    let at_ := (stages.findIdx? fun stage => paintSuccessors.contains stage.stageId).getD
      stages.length
    stages.insertIdx at_ { stageId := paint, modules := [] }

/-- `SupportType::family_claim`. -/
def familyClaim : SupportType → Option String
  | .NormalAuto => none
  | other => some other.asCanonicalStr

def canonicalSupportFamily : Option String → String
  | some value =>
      if Text.startsWith value "tree" || Text.startsWith value "hybrid" then "tree"
      else "traditional"
  | none => "traditional"

/-- The text of an extension, if it is a string. -/
def extensionText (config : ResolvedConfig F) (key : ConfigKey) : Option String :=
  match config.extensions[key]? with
  | some (.string value) => some value
  | _ => none

/-- `select_support_family` for a region: an explicit `support_type` wins over
the canonical family, and the default type claims nothing. -/
def selectedFamily (config : ResolvedConfig F) : String :=
  let fieldClaim := match config.fields["support_type"]? with
    | some (.supportType value) => familyClaim value
    | _ => none
  canonicalSupportFamily
    (((extensionText config SUPPORT_GENERATOR_CONFIG_KEY).or fieldClaim).or
      (extensionText config SUPPORT_FAMILY_CONFIG_KEY))

def moduleClaimsMatchActiveRegion (claims : List String) (region : ActiveRegion F) : Bool :=
  let families := claims.filterMap (Text.stripStart "support-family:")
  families.isEmpty || families.contains (selectedFamily region.resolvedConfig)

/-- The active regions of every bound layer module on every layer. -/
def moduleRegionIndex (layers : List (GlobalLayer F)) (stages : List SortedStageModules)
    (bindings : BTreeMap ModuleId (ExecutionModuleBinding F)) :
    BTreeMap Nat (BTreeMap ModuleId (List (ActiveRegion F))) :=
  let moduleIds := (stages.filter fun stage => Text.startsWith stage.stageId "Layer::").flatMap
    SortedStageModules.moduleIds
  layers.foldl (fun index layer =>
    moduleIds.foldl (fun index moduleId =>
      match bindings[moduleId]? with
      | none => index
      | some binding =>
          let row := index[layer.index]?.getD ∅
          let regions := layer.activeRegions.filter
            (moduleClaimsMatchActiveRegion binding.module.claims)
          index.insert layer.index
            (row.insert moduleId (row[moduleId]?.getD [] ++ regions))) index) ∅

/-- The body of the loop of `aggregate_region_splits` over the declarations. -/
def aggregateSplit (module : PlannedModule F)
    (state : BTreeMap String AggregatedRegionSplitEntry × List LoadDiagnostic)
    (decl : RegionSplitDeclaration) :
    BTreeMap String AggregatedRegionSplitEntry × List LoadDiagnostic :=
  let (agg, diagnostics) := state
  match agg[decl.semantic]? with
  | some existing =>
      if existing.priority = decl.priority ∧ existing.valueType = decl.valueType then
        if module.id ∈ existing.declaringModules then (agg, diagnostics)
        else
          let declaring := (existing.declaringModules ++ [module.id]).insertionSort (· ≤ ·)
          (agg.insert decl.semantic { existing with declaringModules := declaring }, diagnostics)
      else (agg, diagnostics ++
        [{ path := module.wasmPath
           field := some "region_split"
           message := s!"Conflicting region-split declaration for semantic \"{decl.semantic}\": " ++
            s!"module \"{module.id}\" declares priority={decl.priority}/" ++
            s!"value_type={decl.valueType.debug} but earlier declaration has " ++
            s!"priority={existing.priority}/value_type={existing.valueType.debug}. " ++
            "Keeping first-seen entry." }])
  | none => (agg.insert decl.semantic
      { priority := decl.priority, valueType := decl.valueType, declaringModules := [module.id] },
      diagnostics)

/-- The warning about semantics that share a priority. -/
def tiedPriority (agg : BTreeMap String AggregatedRegionSplitEntry) (priority : Nat)
    (semantics : List String) : LoadDiagnostic :=
  let detail := semantics.map fun name =>
    let modules := ", ".intercalate ((agg[name]?.map (·.declaringModules)).getD [])
    s!"{name} (from {modules})"
  { path := ""
    field := some "region_split"
    message := s!"Tied region-split priority {priority}: " ++ ", ".intercalate detail ++
      ". Lex tiebreaker order: " ++ ", ".intercalate semantics ++ "." }

def aggregateRegionSplits (modules : List (PlannedModule F)) (diagnostics : List LoadDiagnostic) :
    BTreeMap String AggregatedRegionSplitEntry × List LoadDiagnostic :=
  let (agg, diagnostics) := modules.foldl (fun state module =>
    module.regionSplits.foldl (aggregateSplit module) state) (∅, diagnostics)
  -- Semantics are listed in name order, so each group is already sorted.
  let byPriority : BTreeMap Nat (List String) := agg.toList.foldl (fun groups row =>
    groups.insert row.2.priority (groups[row.2.priority]?.getD [] ++ [row.1])) ∅
  let ties := byPriority.toList.filterMap fun (priority, semantics) =>
    if semantics.length < 2 then none else some (tiedPriority agg priority semantics)
  (agg, diagnostics ++ ties)

/-- The resource bounds: the layer budget, then the cap of the region map. -/
def checkBounds (request : ExecutionPlanRequest F R) : Except ExecutionPlanError Unit :=
  match request.globalLayers.find? fun layer => MAX_LAYER_INDEX ≤ layer.index with
  | some layer => .error (.layerIndexBudgetExceeded layer.index MAX_LAYER_INDEX)
  | none =>
      if DEFAULT_REGION_MAP_CAP < request.regionPlans.length then
        .error (.regionMapCapExceeded request.regionPlans.length DEFAULT_REGION_MAP_CAP)
      else .ok ()

def buildExecutionPlan (request : ExecutionPlanRequest F R) (diagnostics : List LoadDiagnostic) :
    Except ExecutionPlanError (ExecutionPlan F R × List LoadDiagnostic) := do
  checkBounds request
  let bindings ← request.moduleBindings.foldlM addBinding ∅
  let compiled ← request.sortedStages.mapM (compileStage bindings)
  let stages := compiled.filter fun stage => !stage.modules.isEmpty
  let within := fun (family : String) =>
    stages.filter fun stage => Text.startsWith stage.stageId family
  let finalization := stages.filter fun stage => stage.stageId == "PostPass::LayerFinalization"
  let (aggregatedRegionSplit, diagnostics) :=
    aggregateRegionSplits (request.moduleBindings.map (·.module)) diagnostics
  return ({ prepassStages := within "PrePass::"
            perLayerStages := ensurePaintStage (within "Layer::")
            layerFinalizationStage := finalization.getLast?
            postpassStages := (within "PostPass::").filter fun stage =>
              stage.stageId ≠ "PostPass::LayerFinalization"
            globalLayers := request.globalLayers
            regionPlans := request.regionPlans
            moduleRegionIndex :=
              moduleRegionIndex request.globalLayers request.sortedStages bindings
            aggregatedRegionSplit }, diagnostics)

end PinchNPrint.Scheduler
