/-
Startup DAG validation (`slicer-scheduler/src/validation.rs`).

`validateStartupDag` runs the fourteen passes over a request and collects their
diagnostics. A pass of the source pushes into a shared report; here it returns
what it pushes, in order, and the report concatenates the passes in call order.
`deadWrites` is the only pass whose diagnostics are warnings.

The two graph helpers are modelled as the source writes them: a second Kahn
sort with a plain queue (`topologicalSort`, used by the cycle pass) and a
breadth-first closure per node (`computeReachability`, used by the write and
read passes).
-/

import PinchNPrint.Scheduler.Topology
import PinchNPrint.Lib.Worklist

namespace PinchNPrint.Scheduler

open Std Digraph

/-! ### Requests and diagnostics -/

/-- Scope used when reporting claim conflicts. -/
inductive ConflictScope where
  | global
  | region (objectId regionId : String) (globalLayerIndex : Option Nat)
deriving DecidableEq

/-- Runtime access classification used by undeclared-access diagnostics. -/
inductive AccessKind where
  | read
  | write
deriving DecidableEq

/-- The errors the fourteen passes construct. -/
inductive SchedulerError where
  | unknownStage (module : ModuleId) (declaredStage : StageId)
  | claimConflict (claim : String) (moduleA moduleB : ModuleId) (scope : ConflictScope)
  | incompatibleModules (declaredBy conflicting : ModuleId) (reason : String)
  | missingDependency (module required : ModuleId)
  | cyclicDependency (cycle : List ModuleId)
  | unfulfilledRead (module : ModuleId) (field : String) (suggestion : Option String)
  | irVersionIncompatible (module : ModuleId) (irType : String) (required available : SemVer)
  | hostVersionIncompatible (module : ModuleId) (required available : SemVer)
  | writeConflict (field : String) (moduleA moduleB : ModuleId) (stage : StageId)
      (orderable : Bool)
  | deadWrite (module : ModuleId) (field : String)
  | undeclaredAccess (module : ModuleId) (access : AccessKind) (path : String)
  | crossStageDependency (module required : ModuleId) (moduleStage requiredStage : StageId)
  | transitiveStageDependency (module : ModuleId) (path : List ModuleId)
      (moduleStage laterStage : StageId)
deriving DecidableEq

/-- One stage-local DAG supplied to the startup validator. -/
structure StageDag where
  stage : StageId
  nodes : List ModuleNode
deriving DecidableEq

/-- One effective claim holder observation. -/
structure ClaimHolder where
  claim : String
  moduleId : ModuleId
  scope : ConflictScope
deriving DecidableEq

/-- Recorded runtime access of one module; only the fields validation compares. -/
structure ModuleAccessAudit where
  moduleId : ModuleId
  runtimeReads : List String
  runtimeWrites : List String
deriving DecidableEq

/-- Startup validation input. -/
structure DagValidationRequest where
  modules : List LoadedModule
  stageDags : List StageDag
  hostIrSchemaVersion : SemVer
  hostVersion : SemVer
  claimHolders : List ClaimHolder
  accessAudits : List ModuleAccessAudit
deriving DecidableEq

/-- The fourteen startup DAG validation passes. -/
inductive DagValidationPass where
  | stageIdValidation
  | globalClaimConflicts
  | perRegionClaimConflicts
  | incompatibilityDeclarations
  | missingDependencies
  | irVersionCompatibility
  | cycleDetection
  | writeConflicts
  | unfulfilledReads
  | deadWrites
  | undeclaredAccess
  | crossStageDependencyLegality
  | transitiveDependencyLegality
  | hostVersionCompatibility
deriving DecidableEq

/-- One diagnostic: its pass and payload. Its level is the list it is in. -/
structure DagValidationDiagnostic where
  pass : DagValidationPass
  detail : SchedulerError
deriving DecidableEq

/-- Aggregated validation output. -/
structure DagValidationReport where
  errors : List DagValidationDiagnostic
  warnings : List DagValidationDiagnostic
deriving DecidableEq

/-! ### Shared helpers -/

/-- `str::starts_with` on characters. -/
def startsWith (text start : String) : Bool :=
  start.toList.isPrefixOf text.toList

/-- `str::splitn`: at most `n` pieces, the last one holding the remainder. -/
def splitn (sep : Char) : Nat → List Char → List (List Char)
  | 0, _ => []
  | 1, text => [text]
  | n + 2, text =>
      match text.span (· != sep) with
      | (piece, []) => [piece]
      | (piece, _ :: rest) => piece :: splitn sep (n + 1) rest

/-- `str::parse::<u32>`: an optional `+`, at least one digit, no overflow. -/
def parseU32 (text : String) : Option Nat :=
  let digits := match text.toList with
    | '+' :: rest => rest
    | chars => chars
  if digits.isEmpty || !digits.all Char.isDigit then none
  else
    let value := digits.foldl (fun n c => n * 10 + (c.toNat - '0'.toNat)) 0
    if value < 2 ^ 32 then some value else none

/-- Modules by id; a repeated id keeps the last module. -/
def modulesById (modules : List LoadedModule) : BTreeMap ModuleId LoadedModule :=
  ExtTreeMap.ofList (modules.map fun module => (module.id, module)) compare

theorem getElem?_modulesById {modules : List LoadedModule}
    (hids : (modules.map LoadedModule.id).Nodup) {id : ModuleId} {module : LoadedModule} :
    (modulesById modules)[id]? = some module ↔ module ∈ modules ∧ module.id = id := by
  have hkeys : ((modules.map fun module => (module.id, module)).map Prod.fst).Nodup := by
    rwa [List.map_map]
  constructor
  · intro h
    obtain ⟨module', hmodule', heq⟩ := List.mem_map.mp (BTreeMap.mem_of_getElem?_ofList h)
    obtain ⟨rfl, rfl⟩ := Prod.mk.inj heq
    exact ⟨hmodule', rfl⟩
  · rintro ⟨hmodule, rfl⟩
    exact BTreeMap.getElem?_ofList_of_nodup hkeys (List.mem_map.mpr ⟨module, hmodule, rfl⟩)

/-- Everything before the first `.` of an access path. -/
def irRoot (path : String) : List Char :=
  path.toList.takeWhile (· != '.')

/-! ### The validator's own graph algorithms -/

namespace Validation

/-- The outgoing edges of the first node with this id. -/
def edgesOf (nodes : List ModuleNode) (id : ModuleId) : List ModuleId :=
  match nodes.find? fun node => node.moduleId == id with
  | some node => node.edgesTo.map EdgeTo.dst
  | none => []

/-- In-degrees, parallel edges counted separately. -/
def inDegree (nodes : List ModuleNode) : BTreeMap ModuleId Nat :=
  (nodes.flatMap fun node => node.edgesTo.map EdgeTo.dst).foldl Kahn.bump (zeroDegrees nodes)

/-- The state the queue loop starts from. -/
def initial (nodes : List ModuleNode) : Kahn.State ModuleId (List ModuleId) where
  degree := inDegree nodes
  ready := Kahn.zeros (inDegree nodes)
  sorted := []

/-- The state when the queue loop stops. -/
def final (nodes : List ModuleNode) : Kahn.State ModuleId (List ModuleId) :=
  Kahn.drain (Kahn.queue ModuleId) (edgesOf nodes) nodes.length (initial nodes)

/-- `validation::topological_sort`: the error lists the nodes never emitted. -/
def topologicalSort (nodes : List ModuleNode) : Except (List ModuleId) (List ModuleId) :=
  let sorted := (final nodes).sorted
  if sorted.length = nodes.length then .ok sorted
  else .error ((nodeIds nodes).filter fun id => !(ExtTreeSet.ofList sorted compare).contains id)

/-- The adjacency of `compute_reachability`; a repeated id keeps the last node. -/
def adjacency (nodes : List ModuleNode) : BTreeMap ModuleId (List ModuleId) :=
  ExtTreeMap.ofList (nodes.map fun node =>
    (node.moduleId, node.edgesTo.map EdgeTo.dst)) compare

/-- The adjacent ids, none for an unlisted one. -/
def adjacent (nodes : List ModuleNode) (id : ModuleId) : List ModuleId :=
  ((adjacency nodes)[id]?).getD []

/-- The ids a breadth-first search from one id visits. Every id is expanded at
most once, which bounds the number of pops. -/
def reachableFrom (nodes : List ModuleNode) (id : ModuleId) : BTreeSet ModuleId :=
  Worklist.explore (adjacent nodes)
    ((adjacent nodes id).length + ((nodeIds nodes).map fun u => (adjacent nodes u).length).sum)
    (adjacent nodes id) ∅

def computeReachability (nodes : List ModuleNode) : BTreeMap ModuleId (BTreeSet ModuleId) :=
  ExtTreeMap.ofList (nodes.map fun node =>
    (node.moduleId, reachableFrom nodes node.moduleId)) compare

def canReach (reachability : BTreeMap ModuleId (BTreeSet ModuleId)) (source target : ModuleId) :
    Bool :=
  match reachability[source]? with
  | some reachable => reachable.contains target
  | none => false

/-- `shared_paths`: paths in both lists, sorted. -/
def sharedPaths (left right : List String) : List String :=
  sortDedup (left.filter fun path => right.contains path)

/-- `sorted_stage_dags`: by stage position, unknown stages last, then by name. -/
def sortedStageDags (stageDags : List StageDag) : List StageDag :=
  let key := fun dag : StageDag => (stageOrderIndex[dag.stage]?).getD (2 ^ 64 - 1)
  stageDags.insertionSort fun a b => key a < key b ∨ (key a = key b ∧ a.stage ≤ b.stage)

/-- Index of `(stage, module)` pairs by the fields a node lists. -/
def indexByField (fields : ModuleNode → List String) (stageDags : List StageDag) :
    BTreeMap String (List (StageId × ModuleId)) :=
  (sortedStageDags stageDags).foldl (fun index dag =>
    dag.nodes.foldl (fun index node =>
      (fields node).foldl (fun index field =>
        index.alter field fun entries => some (entries.getD [] ++ [(dag.stage, node.moduleId)]))
        index) index) ∅

def writersByField := indexByField ModuleNode.irWrites

def readersByField := indexByField ModuleNode.irReads

end Validation

/-! ### The passes -/

open Validation

/-- The four configured fill-role claim ids. -/
def FILL_CLAIM_IDS : List String :=
  ["claim:top-fill", "claim:bottom-fill", "claim:bridge-fill", "claim:sparse-fill"]

/-- Claims whose holders are scoped by support family. -/
def FAMILY_SCOPED_SUPPORT_CLAIMS : List String :=
  ["support-generator", "support-planner", "support-family:traditional", "support-family:tree"]

/-- Pass 1, over modules and then over the supplied stage DAGs. -/
def validateStageIds (request : DagValidationRequest) : List DagValidationDiagnostic :=
  (request.modules.filterMap fun module =>
    if module.stage ∈ stageOrderIndex then none
    else some ⟨.stageIdValidation, .unknownStage module.id module.stage⟩) ++
  request.stageDags.filterMap fun dag =>
    if dag.stage ∈ stageOrderIndex then none
    else
      let module := (dag.nodes.head?.map ModuleNode.moduleId).getD "<stage-dag>"
      some ⟨.stageIdValidation, .unknownStage module dag.stage⟩

def scopeKey : ConflictScope → String
  | .global => "global"
  | .region objectId regionId globalLayerIndex =>
      "region:" ++ objectId ++ ":" ++ regionId ++ ":" ++
        (match globalLayerIndex with
        | none => "none"
        | some value => toString value)

def scopeKeyWithoutLayer : ConflictScope → String
  | .global => "global"
  | .region objectId regionId _ => "region:" ++ objectId ++ ":" ++ regionId ++ ":_"

/-- `region_scope_from_key`: the inverse reading of a region scope key. -/
def regionScopeFromKey (key : String) : ConflictScope :=
  let parts := splitn ':' 4 key.toList
  let part := fun n => String.ofList ((parts[n]?).getD [])
  .region (part 1) (part 2)
    (match parts[3]? with
    | none => none
    | some value => if String.ofList value = "none" then none else parseU32 (String.ofList value))

/-- Claims that cannot change holder between layers. -/
def nonTransitionableClaims : List String :=
  ["perimeter-generator", "seam-placer", "layer-planner", "mesh-analyzer"]

/-- Holders grouped by claim and scope key, for one of the two claim passes. -/
def holdersByClaim (holders : List ClaimHolder) (globalOnly : Bool) :
    BTreeMap (String ×ₗ String) (List ModuleId) :=
  holders.foldl (fun grouped holder =>
    if decide (holder.scope = .global) != globalOnly then grouped
    else
      let key :=
        if globalOnly then scopeKey holder.scope
        else if nonTransitionableClaims.contains holder.claim then
          scopeKeyWithoutLayer holder.scope
        else scopeKey holder.scope
      grouped.alter (toLex (holder.claim, key)) fun ids =>
        some (ids.getD [] ++ [holder.moduleId])) ∅

/-- Passes 2 and 3. -/
def validateClaimConflicts (request : DagValidationRequest) (pass : DagValidationPass)
    (globalOnly : Bool) : List DagValidationDiagnostic :=
  let grouped := (holdersByClaim request.claimHolders globalOnly).toList
  let uncovered :=
    if globalOnly then
      FILL_CLAIM_IDS.filterMap fun fillClaim =>
        if grouped.any fun entry => (ofLex entry.1).1 == fillClaim then none
        else some ⟨.globalClaimConflicts,
          .missingDependency ("fill-role-claim:" ++ fillClaim) ("no module holds " ++ fillClaim)⟩
    else []
  uncovered ++ grouped.flatMap fun entry =>
    let claim := (ofLex entry.1).1
    let sortedModules := sortDedup entry.2
    if globalOnly && FILL_CLAIM_IDS.contains claim then []
    else if globalOnly && FAMILY_SCOPED_SUPPORT_CLAIMS.contains claim then []
    else
      let scope := if globalOnly then .global else regionScopeFromKey (ofLex entry.1).2
      (orderedPairs sortedModules).map fun pair =>
        ⟨pass, .claimConflict claim pair.1 pair.2 scope⟩

/-- Pass 4. -/
def validateIncompatibilities (byId : BTreeMap ModuleId LoadedModule) :
    List DagValidationDiagnostic :=
  (BTreeMap.vals byId).flatMap fun module =>
    module.incompatibleWith.filterMap fun conflicting =>
      if conflicting ∈ byId then
        some ⟨.incompatibilityDeclarations, .incompatibleModules module.id conflicting
          ("module '" ++ module.id ++ "' declares '" ++ conflicting ++ "' as incompatible")⟩
      else none

/-- Pass 5. -/
def validateMissingDependencies (request : DagValidationRequest)
    (byId : BTreeMap ModuleId LoadedModule) : List DagValidationDiagnostic :=
  let availableClaims := request.claimHolders.map ClaimHolder.claim
  request.modules.flatMap fun module =>
    (module.requiresModules.filterMap fun required =>
      if required ∈ byId then none
      else some ⟨.missingDependencies, .missingDependency module.id required⟩) ++
    module.requiresClaims.filterMap fun required =>
      if availableClaims.contains required then none
      else some ⟨.missingDependencies, .missingDependency module.id required⟩

/-- Pass 6. -/
def validateIrVersions (request : DagValidationRequest) : List DagValidationDiagnostic :=
  request.modules.filterMap fun module =>
    if request.hostIrSchemaVersion.lt module.minIrSchema ||
        !request.hostIrSchemaVersion.lt module.maxIrSchema then
      some ⟨.irVersionCompatibility, .irVersionIncompatible module.id "host-ir-schema"
        module.minIrSchema request.hostIrSchemaVersion⟩
    else none

/-- Pass 14. -/
def validateHostVersion (request : DagValidationRequest) : List DagValidationDiagnostic :=
  request.modules.filterMap fun module =>
    if request.hostVersion.lt module.minHostVersion then
      some ⟨.hostVersionCompatibility, .hostVersionIncompatible module.id module.minHostVersion
        request.hostVersion⟩
    else none

/-- Pass 7. -/
def validateCycles (request : DagValidationRequest) : List DagValidationDiagnostic :=
  request.stageDags.filterMap fun dag =>
    match Validation.topologicalSort dag.nodes with
    | .ok _ => none
    | .error cycle => some ⟨.cycleDetection, .cyclicDependency cycle⟩

/-- The path is `SupportPlanIR`, `SupportIR` or a field below one of them. -/
def isSupportPath (field : String) : Bool :=
  field == "SupportPlanIR" || startsWith field "SupportPlanIR." ||
    field == "SupportIR" || startsWith field "SupportIR."

/-- Ids of modules that hold a family-scoped support claim in some scope. -/
def familySupportModules (request : DagValidationRequest) : List ModuleId :=
  (request.claimHolders.filter fun holder =>
    FAMILY_SCOPED_SUPPORT_CLAIMS.contains holder.claim).map ClaimHolder.moduleId

/-- One shared field of two nodes is ordered: one of them transforms what the
other wrote, or both belong to support families whose outputs are aggregated. -/
def writeOrderable (request : DagValidationRequest)
    (reachability : BTreeMap ModuleId (BTreeSet ModuleId)) (left right : ModuleNode)
    (field : String) : Bool :=
  let leftTransformsRight :=
    right.irReads.contains field && canReach reachability left.moduleId right.moduleId
  let rightTransformsLeft :=
    left.irReads.contains field && canReach reachability right.moduleId left.moduleId
  let aggregationOrderable :=
    (familySupportModules request).contains left.moduleId &&
      (familySupportModules request).contains right.moduleId && isSupportPath field
  leftTransformsRight || rightTransformsLeft || aggregationOrderable

/-- Pass 8. -/
def validateWriteConflicts (request : DagValidationRequest) : List DagValidationDiagnostic :=
  request.stageDags.flatMap fun dag =>
    let reachability := computeReachability dag.nodes
    (orderedPairs dag.nodes).flatMap fun pair =>
      (sharedPaths pair.1.irWrites pair.2.irWrites).filterMap fun field =>
        if writeOrderable request reachability pair.1 pair.2 field then none
        else some ⟨.writeConflicts,
          .writeConflict field pair.1.moduleId pair.2.moduleId dag.stage false⟩

/-- A writer of the field runs before the reading module: in an earlier stage,
or upstream in the same stage. A module never satisfies its own read. -/
def writerSatisfies (module : LoadedModule) (currentStageIndex : Option Nat)
    (reachability : BTreeMap ModuleId (BTreeSet ModuleId)) (writer : StageId × ModuleId) : Bool :=
  if writer.2 = module.id then false
  else
    match currentStageIndex, stageOrderIndex[writer.1]? with
    | some readerIndex, some writerIndex =>
        if writerIndex < readerIndex then true
        else if writer.1 = module.stage then canReach reachability writer.2 module.id
        else false
    | _, _ => false

/-- Pass 9. -/
def validateUnfulfilledReads (request : DagValidationRequest) : List DagValidationDiagnostic :=
  let allWriters := writersByField request.stageDags
  let byId := modulesById request.modules
  request.stageDags.flatMap fun dag =>
    let reachability := computeReachability dag.nodes
    let currentStageIndex := stageOrderIndex[dag.stage]?
    dag.nodes.flatMap fun node =>
      match byId[node.moduleId]? with
      | none => []
      | some module =>
          module.irReads.filterMap fun field =>
            let satisfied := match allWriters[field]? with
              | none => false
              | some writers => writers.any (writerSatisfies module currentStageIndex reachability)
            if satisfied then none
            else some ⟨.unfulfilledReads, .unfulfilledRead module.id field none⟩

/-- Pass 10: warnings only. -/
def validateDeadWrites (request : DagValidationRequest) : List DagValidationDiagnostic :=
  let allReaders := readersByField request.stageDags
  request.stageDags.flatMap fun dag =>
    let reachability := computeReachability dag.nodes
    let currentStageIndex := stageOrderIndex[dag.stage]?
    dag.nodes.flatMap fun node =>
      node.irWrites.filterMap fun field =>
        let consumes := fun reader : StageId × ModuleId =>
          match currentStageIndex, stageOrderIndex[reader.1]? with
          | some writerIndex, some readerIndex =>
              if writerIndex < readerIndex then true
              else if reader.1 = dag.stage then canReach reachability node.moduleId reader.2
              else false
          | _, _ => false
        let consumed := match allReaders[field]? with
          | none => false
          | some readers => readers.any consumes
        if consumed then none
        else some ⟨.deadWrites, .deadWrite node.moduleId field⟩

/-- `read_is_declared`: reads match at root granularity. -/
def readIsDeclared (declared : List String) (runtimePath : String) : Bool :=
  declared.any fun path => irRoot path == irRoot runtimePath

/-- Pass 11: reads by root, writes exactly. -/
def validateUndeclaredAccess (request : DagValidationRequest)
    (byId : BTreeMap ModuleId LoadedModule) : List DagValidationDiagnostic :=
  request.accessAudits.flatMap fun audit =>
    match byId[audit.moduleId]? with
    | none => []
    | some module =>
        (audit.runtimeReads.filterMap fun path =>
          if readIsDeclared module.irReads path then none
          else some ⟨.undeclaredAccess, .undeclaredAccess module.id .read path⟩) ++
        audit.runtimeWrites.filterMap fun path =>
          if module.irWrites.contains path then none
          else some ⟨.undeclaredAccess, .undeclaredAccess module.id .write path⟩

/-- Pass 12. -/
def validateCrossStageDependencies (modules : List LoadedModule)
    (byId : BTreeMap ModuleId LoadedModule) : List DagValidationDiagnostic :=
  modules.flatMap fun module =>
    match stageOrderIndex[module.stage]? with
    | none => []
    | some moduleIndex =>
        module.requiresModules.filterMap fun requiredModule =>
          match byId[requiredModule]? with
          | none => none
          | some required =>
              match stageOrderIndex[required.stage]? with
              | none => none
              | some requiredIndex =>
                  if moduleIndex < requiredIndex then
                    some ⟨.crossStageDependencyLegality,
                      .crossStageDependency module.id required.id module.stage required.stage⟩
                  else none

/-- The dependency search of pass 13 from one module: paths in first-in
first-out order, each extended by the sorted requirements of its last module.
It stops at the first path that ends in a later stage. -/
def transitiveSearch (byId : BTreeMap ModuleId LoadedModule) (moduleIndex : Nat) :
    Nat → List (List ModuleId) → BTreeSet (List ModuleId) → Option (List ModuleId × StageId)
  | 0, _, _ => none
  | _ + 1, [], _ => none
  | fuel + 1, path :: queue, visited =>
      match path.getLast? with
      | none => transitiveSearch byId moduleIndex fuel queue visited
      | some currentId =>
          if path ∈ visited then transitiveSearch byId moduleIndex fuel queue visited
          else
            let visited := visited.insert path
            match byId[currentId]? with
            | none => transitiveSearch byId moduleIndex fuel queue visited
            | some current =>
                match stageOrderIndex[current.stage]? with
                | none => transitiveSearch byId moduleIndex fuel queue visited
                | some currentIndex =>
                    if moduleIndex < currentIndex then some (path, current.stage)
                    else
                      let nextIds := current.requiresModules.insertionSort (· ≤ ·)
                      let nextPaths := (nextIds.filter fun next => !path.contains next).map
                        fun next => path ++ [next]
                      transitiveSearch byId moduleIndex fuel (queue ++ nextPaths) visited

/-- Pass 13. A path repeats no id after its second, so it has at most
`modules.length + 2` ids, and each is extended by at most the total number of
requirements; the fuel covers every such path. -/
def validateTransitiveDependencies (modules : List LoadedModule)
    (byId : BTreeMap ModuleId LoadedModule) : List DagValidationDiagnostic :=
  let width := (modules.map fun module => module.requiresModules.length).sum
  modules.filterMap fun module =>
    match stageOrderIndex[module.stage]? with
    | none => none
    | some moduleIndex =>
        let queue := module.requiresModules.map fun required => [module.id, required]
        match transitiveSearch byId moduleIndex ((width + 1) ^ (modules.length + 2)) queue ∅ with
        | none => none
        | some (path, laterStage) =>
            some ⟨.transitiveDependencyLegality,
              .transitiveStageDependency module.id path module.stage laterStage⟩

/-- `validate_startup_dag`: all fourteen passes, in call order. -/
def validateStartupDag (request : DagValidationRequest) : DagValidationReport :=
  let byId := modulesById request.modules
  { errors :=
      validateStageIds request ++
      validateClaimConflicts request .globalClaimConflicts true ++
      validateClaimConflicts request .perRegionClaimConflicts false ++
      validateIncompatibilities byId ++
      validateMissingDependencies request byId ++
      validateIrVersions request ++
      validateHostVersion request ++
      validateCycles request ++
      validateWriteConflicts request ++
      validateUnfulfilledReads request ++
      validateUndeclaredAccess request byId ++
      validateCrossStageDependencies request.modules byId ++
      validateTransitiveDependencies request.modules byId
    warnings := validateDeadWrites request }

end PinchNPrint.Scheduler
