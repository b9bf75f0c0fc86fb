/-
Support aggregation (`slicer-wasm-host`: `support_aggregation.rs`, `support_territory.rs`;
`slicer-sdk`: `prepass_types.rs`; `slicer-ir`: `slice_ir.rs`).

The families of supports plan on their own. The host checks that every entry owns its region,
drops those that are declined or invalid, merges the entries of one family and region, and
keeps two families apart: by the territory of the modifiers where a layer has some, and by
rejecting both sides of an overlap where it has none.

`F` is the type of the numbers, areas included. Diagnostics carry the values their texts are
made of. The map of first families, which nothing reads, is left out.
-/

import PinchNPrint.Lib.Merging
import PinchNPrint.Lib.Numerals
import PinchNPrint.Prepass.SupportPlans
import PinchNPrint.Region.Ir
import Mathlib.Data.List.Sort
import Mathlib.Data.Prod.Lex
import Mathlib.Data.Sum.Order
import Mathlib.Algebra.Order.Field.Basic

namespace PinchNPrint.Support

open Layer (ObjectId PaintValue)
open Prepass (SemVer)
open Region (ExPolygon Point2 Point3 VariantChain)

variable {F : Type}

/-! ### Plans -/

structure SupportSourceKey (F : Type) where
  objectId : ObjectId
  regionId : Nat
  variantChain : VariantChain F := []
deriving DecidableEq

structure SupportGeometryKey (F : Type) where
  globalSupportLayerIndex : Nat
  objectId : ObjectId
  regionId : Nat
  variantChain : VariantChain F := []
deriving DecidableEq

inductive SupportPlanRole where
  | SupportBody
  | TopInterface
  | BaseInterface
  | BottomInterface
  | RaftRelated
deriving DecidableEq

structure SupportPlanRoleRegion where
  role : SupportPlanRole
  regions : List ExPolygon
deriving DecidableEq

structure SupportPlanSkeleton (F : Type) where
  points : List (Point3 F)
  wallCounts : List Nat := []
deriving DecidableEq

inductive SupportPlanDeclineReason where
  | DeclinedPolicy
  | NoRoute
  | Blocked
  | UnsupportedMode
deriving DecidableEq

/-- `{:?}`. -/
def SupportPlanDeclineReason.debug : SupportPlanDeclineReason → String
  | .DeclinedPolicy => "DeclinedPolicy"
  | .NoRoute => "NoRoute"
  | .Blocked => "Blocked"
  | .UnsupportedMode => "UnsupportedMode"

structure SupportPlanEntry (F : Type) where
  globalLayerIndex : ℤ
  objectId : ObjectId
  regionId : Nat
  familyId : String
  demandIds : List String := []
  bodyIds : List String := []
  anchorLayerIndex : Nat := 0
  anchorZ : ℤ := 0
  roles : List SupportPlanRoleRegion := []
  skeleton : Option (SupportPlanSkeleton F) := none
  capabilities : List String := []
  provenance : List String := []
  declineReason : Option SupportPlanDeclineReason := none
  variantChain : VariantChain F := []
deriving DecidableEq

structure RaftPlan (F : Type) where
  raftLayers : Nat
  raftFirstLayerDensity : F
  baseRaftLayers : Nat
  interfaceRaftLayers : Nat
deriving DecidableEq

structure SupportPlanIR (F : Type) where
  schemaVersion : SemVer := ⟨0, 0, 0⟩
  entries : List (SupportPlanEntry F) := []
  raftPlan : Option (RaftPlan F) := none
deriving DecidableEq

/-- The source region of an entry. -/
def SupportPlanEntry.source (entry : SupportPlanEntry F) : SupportSourceKey F :=
  ⟨entry.objectId, entry.regionId, entry.variantChain⟩

/-- The polygons of all roles. -/
def SupportPlanEntry.regions (entry : SupportPlanEntry F) : List ExPolygon :=
  entry.roles.flatMap (·.regions)

/-! ### Territory -/

def SUPPORT_TERRITORY_CLEARANCE_KEY : String :=
  "support_territory_clearance_mm"

/-- `SupportAnalysisIR`, as far as aggregation reads it; the maps in the order of their keys. -/
structure SupportAnalysisIR (F : Type) where
  sharedSettings : List (String × String) := []
  familyAssignments : List (SupportSourceKey F × String) := []
  supportTerritory : List (SupportGeometryKey F × List ExPolygon) := []
  nodup_familyAssignments : (familyAssignments.map Prod.fst).Nodup
  nodup_supportTerritory : (supportTerritory.map Prod.fst).Nodup

/-- `polygon_ops`, and the reading of an `f32`. -/
structure SupportOps (F : Type) where
  intersection : List ExPolygon → List ExPolygon → List ExPolygon
  difference : List ExPolygon → List ExPolygon → List ExPolygon
  offset : List ExPolygon → F → List ExPolygon
  parseF32 : String → Option F

structure TerritoryPartition where
  own : List ExPolygon
  foreign : List ExPolygon

namespace SupportAnalysisIR

variable [DecidableEq F] (analysis : SupportAnalysisIR F)

def familyOf (source : SupportSourceKey F) : Option String :=
  (analysis.familyAssignments.find? (·.1 = source)).map (·.2)

/-- The territory of an object on a layer. -/
def territoryAt (objectId : ObjectId) (layer : Nat) :
    List (SupportGeometryKey F × List ExPolygon) :=
  analysis.supportTerritory.filter fun entry =>
    entry.1.objectId = objectId ∧ entry.1.globalSupportLayerIndex = layer

def hasTerritory (objectId : ObjectId) (layer : Nat) : Bool :=
  !(analysis.territoryAt objectId layer).isEmpty

def regionTerritory (layer : Nat) (source : SupportSourceKey F) : Option (List ExPolygon) :=
  (analysis.supportTerritory.find?
    (·.1 = ⟨layer, source.objectId, source.regionId, source.variantChain⟩)).map (·.2)

/-- The family that an entry of the territory is assigned to. -/
def territoryFamily (key : SupportGeometryKey F) : Option String :=
  analysis.familyOf ⟨key.objectId, key.regionId, key.variantChain⟩

def territoryPartition (objectId : ObjectId) (layer : Nat) (familyId : String) :
    Option TerritoryPartition :=
  let entries := analysis.territoryAt objectId layer
  if entries.isEmpty then none
  else some
    { own := (entries.filter (analysis.territoryFamily ·.1 = some familyId)).flatMap (·.2)
      foreign := (entries.filter (analysis.territoryFamily ·.1 ≠ some familyId)).flatMap (·.2) }

def clearanceMm [LinearOrder F] [Zero F] (ops : SupportOps F) : F :=
  max (((analysis.sharedSettings.lookup SUPPORT_TERRITORY_CLEARANCE_KEY).bind
    ops.parseF32).getD 0) 0

end SupportAnalysisIR

def inflateForeign [LinearOrder F] [Zero F] (ops : SupportOps F) (foreign : List ExPolygon)
    (clearanceMm : F) : List ExPolygon :=
  if clearanceMm ≤ 0 then foreign
  else
    let grown := ops.offset foreign clearanceMm
    if grown.isEmpty then foreign else grown

def clip [LinearOrder F] [Zero F] (ops : SupportOps F) (analysis : SupportAnalysisIR F)
    (layer : Nat) (source : SupportSourceKey F) (familyId : String) (polygons : List ExPolygon) :
    Option (List ExPolygon) :=
  match analysis.regionTerritory layer source with
  | some own => some (ops.intersection polygons own)
  | none =>
    (analysis.territoryPartition source.objectId layer familyId).map fun partition =>
      if partition.foreign.isEmpty then polygons
      else ops.difference polygons
        (inflateForeign ops partition.foreign (analysis.clearanceMm ops))

/-! ### Input and result -/

structure SupportPlanProducer where
  moduleId : String := ""
  claims : List String := []
deriving DecidableEq

inductive FamilyConflictPolicy where
  | Degrade
  | Fail
deriving DecidableEq

/-- `SupportAggregationInput`; `exactZ` is the model's occupancy at the anchor of a source
region, if it can be queried. -/
structure SupportAggregationInput (F : Type) where
  plans : List (SupportPlanIR F)
  exactZ : SupportSourceKey F → ℤ → Option (List ExPolygon)
  territory : Option (SupportAnalysisIR F)
  producers : List SupportPlanProducer

inductive OwnershipReason where
  | NoAssignment
  | WrongFamily (owner : String)
  | MissingClaim (required : String)
deriving DecidableEq

structure OwnershipViolation where
  globalLayerIndex : ℤ
  objectId : ObjectId
  regionId : Nat
  familyId : String
  moduleId : String
  reason : OwnershipReason
  planIndex : Nat
deriving DecidableEq

structure SupportAggregationError where
  globalLayerIndex : ℤ
  objectId : ObjectId
  regionId : Nat
  familyId : String
  moduleId : String
  reason : OwnershipReason
deriving DecidableEq

structure UnmetSupportDemand where
  demandId : String
  bodyId : String
  reason : String
deriving DecidableEq

structure SupportRoutingDiagnostics where
  familyId : String
  bodyId : String
  demandId : String
  reason : String
deriving DecidableEq

structure ClippedSupportBody (F : Type) where
  familyId : String
  bodyIds : List String
  objectId : ObjectId
  globalLayerIndex : ℤ
  regionId : Nat
  removedArea : F
  dropped : Bool
deriving DecidableEq

structure DuplicateSupportPlanEntry where
  globalLayerIndex : ℤ
  objectId : ObjectId
  regionId : Nat
  firstFamilyId : String
  duplicateFamilyId : String
deriving DecidableEq

structure SupportAggregationResult (F : Type) where
  retained : List (SupportPlanEntry F) := []
  unmet : List UnmetSupportDemand := []
  degraded : Bool := false
  clipped : List (ClippedSupportBody F) := []
  duplicates : List DuplicateSupportPlanEntry := []
  ownershipViolations : List OwnershipViolation := []
  raftPlan : Option (RaftPlan F) := none
  diagnostics : List SupportRoutingDiagnostics := []

/-! ### The order of the entries -/

/-- A paint value in its order. -/
abbrev PaintKey (F : Type) := Bool ⊕ₗ F ⊕ₗ ℕ ⊕ₗ String

/-- `PaintValue::cmp`. -/
def paintKey : PaintValue F → PaintKey F
  | .Flag value => toLex (.inl value)
  | .Scalar value => toLex (.inr (toLex (.inl value)))
  | .ToolIndex value => toLex (.inr (toLex (.inr (toLex (.inl value)))))
  | .Custom value => toLex (.inr (toLex (.inr (toLex (.inr value)))))

/-- What the order of the entries compares. -/
abbrev SortKey (F : Type) :=
  ℤ ×ₗ ObjectId ×ₗ ℕ ×ₗ List (String ×ₗ PaintKey F) ×ₗ WithBot String ×ₗ String ×ₗ
    List String ×ₗ List String

/-- The first of the bodies, or else of the demands. -/
def SupportPlanEntry.candidate (entry : SupportPlanEntry F) : Option String :=
  entry.bodyIds.min?.or entry.demandIds.min?

/-- `compare_entries` compares these. -/
def SupportPlanEntry.sortKey (entry : SupportPlanEntry F) : SortKey F :=
  toLex (entry.globalLayerIndex, toLex (entry.objectId, toLex (entry.regionId,
    toLex (entry.variantChain.map fun link => toLex (link.1, paintKey link.2),
      toLex (entry.candidate, toLex (entry.familyId, toLex (entry.demandIds, entry.bodyIds)))))))

/-- The entries of all plans with the index of their plan. -/
def SupportAggregationInput.entries (input : SupportAggregationInput F) :
    List (Nat × SupportPlanEntry F) :=
  input.plans.zipIdx.flatMap fun (plan, planIndex) => plan.entries.map (planIndex, ·)

/-- The same in the order of `compare_entries`. -/
def SupportAggregationInput.sortedEntries [LinearOrder F] (input : SupportAggregationInput F) :
    List (Nat × SupportPlanEntry F) :=
  input.entries.insertionSort fun left right => left.2.sortKey ≤ right.2.sortKey

/-! ### Ownership and validation -/

def checkOwnership [DecidableEq F] (entry : SupportPlanEntry F) (planIndex : Nat)
    (input : SupportAggregationInput F) : Except OwnershipViolation Unit :=
  let producer := input.producers[planIndex]?
  let requiredClaim := "support-family:" ++ entry.familyId
  let owner := input.territory.bind fun analysis => analysis.familyOf entry.source
  let reason : Option OwnershipReason :=
    match owner with
    | none => some .NoAssignment
    | some owner =>
      if owner ≠ entry.familyId then some (.WrongFamily owner)
      else if ∃ producer' ∈ producer, requiredClaim ∈ producer'.claims then none
      else some (.MissingClaim requiredClaim)
  match reason with
  | none => .ok ()
  | some reason => .error
      { globalLayerIndex := entry.globalLayerIndex
        objectId := entry.objectId
        regionId := entry.regionId
        familyId := entry.familyId
        moduleId := (producer.map SupportPlanProducer.moduleId).getD ""
        reason := reason
        planIndex := planIndex }

def MAX_BODY_EXTENT_UNITS : ℤ :=
  2 ^ 22

/-- `i64::saturating_sub`. -/
def saturatingSub (a b : ℤ) : ℤ :=
  max (-2 ^ 63) (min (2 ^ 63 - 1) (a - b))

def bounds (poly : ExPolygon) : Option (ℤ × ℤ × ℤ × ℤ) :=
  match poly.contour with
  | [] => none
  | first :: rest => some (rest.foldl
      (fun (minx, maxx, miny, maxy) point =>
        (min minx point.x, max maxx point.x, min miny point.y, max maxy point.y))
      (first.x, first.x, first.y, first.y))

def inRoutingCell (entry : SupportPlanEntry F) : Bool :=
  entry.regions.all fun region =>
    match bounds region with
    | some (minx, maxx, miny, maxy) =>
      saturatingSub maxx minx ≤ MAX_BODY_EXTENT_UNITS && saturatingSub maxy miny ≤ MAX_BODY_EXTENT_UNITS
    | none => true

section Areas

variable [Field F] [LinearOrder F]

def ringArea (points : List Point2) : F :=
  if points.length < 3 then 0
  else
    |((points.zip (points.rotate 1)).map fun (a, b) =>
      (a.x : F) * (b.y : F) - (b.x : F) * (a.y : F)).sum| / 2

def expolygonArea (poly : ExPolygon) : F :=
  ringArea poly.contour - (poly.holes.map ringArea).sum

def rolesArea (entry : SupportPlanEntry F) : F :=
  (entry.regions.map expolygonArea).sum

/-- Two polygons overlap in a positive area. -/
def polygonsOverlap (ops : SupportOps F) (left right : ExPolygon) : Bool :=
  0 < ((ops.intersection [left] [right]).map (expolygonArea (F := F))).sum

def overlapsAny (ops : SupportOps F) (a : ExPolygon) (others : List ExPolygon) : Bool :=
  others.any fun other => polygonsOverlap ops a other

def entriesOverlap (ops : SupportOps F) (a b : SupportPlanEntry F) : Bool :=
  a.regions.any fun left => b.regions.any fun right => polygonsOverlap ops left right

def validateEntry (ops : SupportOps F) (entry : SupportPlanEntry F)
    (exactZ : SupportSourceKey F → ℤ → Option (List ExPolygon)) : Option String :=
  match exactZ entry.source entry.anchorZ with
  | none => some "body rejected: exact-Z query unavailable"
  | some occupancy =>
    if inRoutingCell entry = false then some "body rejected: max-body-extent violation"
    else if entry.regions.any fun body => overlapsAny ops body occupancy then
      some "body rejected: exact-Z occupancy"
    else none

end Areas

/-! ### Aggregation -/

/-- The diagnostics of an entry: one for each of its bodies and demands. -/
def routingDiagnostics (entry : SupportPlanEntry F) (reason : String) :
    List SupportRoutingDiagnostics :=
  entry.bodyIds.flatMap fun bodyId => entry.demandIds.map fun demandId =>
    { familyId := entry.familyId, bodyId := bodyId, demandId := demandId, reason := reason }

/-- The demands of an entry: one for each of its bodies and demands. -/
def unmetDemands (entry : SupportPlanEntry F) (reason : String) : List UnmetSupportDemand :=
  entry.bodyIds.flatMap fun bodyId => entry.demandIds.map fun demandId =>
    { demandId := demandId, bodyId := bodyId, reason := reason }

def recordRejection (result : SupportAggregationResult F) (entry : SupportPlanEntry F)
    (reason : String) : SupportAggregationResult F :=
  { result with
    unmet := result.unmet ++ unmetDemands entry reason
    diagnostics := result.diagnostics ++ routingDiagnostics entry reason }

def dedupSorted (values : List String) : List String :=
  values.eraseDups.insertionSort (· ≤ ·)

/-- The key of `union_same_family_entries`. -/
structure MergeKey (F : Type) where
  familyId : String
  globalLayerIndex : ℤ
  objectId : ObjectId
  regionId : Nat
  variantChain : VariantChain F
  anchorZ : ℤ
deriving DecidableEq

def SupportPlanEntry.mergeKey (entry : SupportPlanEntry F) : MergeKey F where
  familyId := entry.familyId
  globalLayerIndex := entry.globalLayerIndex
  objectId := entry.objectId
  regionId := entry.regionId
  variantChain := entry.variantChain
  anchorZ := entry.anchorZ

/-- The regions of a role joined to those of the first entry with this role. -/
def mergeRole (existing incoming : SupportPlanRoleRegion) : SupportPlanRoleRegion :=
  { existing with regions := existing.regions ++ incoming.regions }

/-- The body of the loop of `union_same_family_entries`. -/
def mergeEntry (existing entry : SupportPlanEntry F) : SupportPlanEntry F :=
  { existing with
    demandIds := dedupSorted (existing.demandIds ++ entry.demandIds)
    bodyIds := dedupSorted (existing.bodyIds ++ entry.bodyIds)
    roles := entry.roles.foldl (List.mergeInto SupportPlanRoleRegion.role mergeRole) existing.roles
    capabilities := dedupSorted (existing.capabilities ++ entry.capabilities)
    provenance := dedupSorted (existing.provenance ++ entry.provenance) }

def unionSameFamilyEntries [DecidableEq F] (entries : List (SupportPlanEntry F)) :
    List (SupportPlanEntry F) :=
  List.mergeBy SupportPlanEntry.mergeKey mergeEntry entries

def mergeRaftPlans [LinearOrder F] (current incoming : Option (RaftPlan F)) :
    Option (RaftPlan F) :=
  match current, incoming with
  | none, none => none
  | some plan, none => some plan
  | none, some plan => some plan
  | some current, some incoming => some
      { raftLayers := min current.raftLayers incoming.raftLayers
        raftFirstLayerDensity := min current.raftFirstLayerDensity incoming.raftFirstLayerDensity
        baseRaftLayers := min current.baseRaftLayers incoming.baseRaftLayers
        interfaceRaftLayers := min current.interfaceRaftLayers incoming.interfaceRaftLayers }

section Aggregate

variable [Field F] [LinearOrder F] (ops : SupportOps F) (input : SupportAggregationInput F)

/-- One round of the loop over the entries. -/
def admitEntry (policy : FamilyConflictPolicy) (result : SupportAggregationResult F)
    (tagged : Nat × SupportPlanEntry F) :
    Except SupportAggregationError (SupportAggregationResult F) :=
  let (planIndex, entry) := tagged
  match checkOwnership entry planIndex input with
  | .error violation =>
    match policy with
    | .Fail => .error
        { globalLayerIndex := violation.globalLayerIndex
          objectId := violation.objectId
          regionId := violation.regionId
          familyId := violation.familyId
          moduleId := violation.moduleId
          reason := violation.reason }
    | .Degrade => .ok
        { result with
          degraded := true
          ownershipViolations := result.ownershipViolations ++ [violation] }
  | .ok () =>
    match entry.declineReason with
    | some declineReason => .ok
        { result with
          diagnostics := result.diagnostics ++
            routingDiagnostics entry ("declined: " ++ declineReason.debug) }
    | none =>
      match validateEntry ops entry input.exactZ with
      | none => .ok { result with retained := result.retained ++ [entry] }
      | some reason => .ok (recordRejection { result with degraded := true } entry reason)

/-- `has_territory`, for an entry. -/
def entryHasTerritory (entry : SupportPlanEntry F) : Bool :=
  match input.territory with
  | none => false
  | some analysis =>
    0 ≤ entry.globalLayerIndex &&
      analysis.hasTerritory entry.objectId entry.globalLayerIndex.toNat

/-- The roles of an entry clipped, and those that are left. -/
def clipRoles (analysis : SupportAnalysisIR F) (entry : SupportPlanEntry F) : SupportPlanEntry F :=
  let clipped := entry.roles.map fun role =>
    match clip ops analysis entry.globalLayerIndex.toNat entry.source entry.familyId role.regions with
    | some kept => { role with regions := kept }
    | none => role
  { entry with roles := clipped.filter fun role => !role.regions.isEmpty }

/-- An entry that is clipped, as it is retained. -/
def clipEntry (entry : SupportPlanEntry F) : Option (SupportPlanEntry F) :=
  match input.territory with
  | none => some entry
  | some analysis =>
    if entryHasTerritory input entry then
      let clipped := clipRoles ops analysis entry
      if clipped.roles.isEmpty then none else some clipped
    else some entry

/-- What is recorded of an entry that loses something. -/
def clippedBody (entry : SupportPlanEntry F) : Option (ClippedSupportBody F) :=
  match input.territory with
  | none => none
  | some analysis =>
    if entryHasTerritory input entry then
      let clipped := clipRoles ops analysis entry
      let dropped := clipped.roles.isEmpty
      if dropped || decide (rolesArea clipped < rolesArea entry) then some
        { familyId := entry.familyId
          bodyIds := entry.bodyIds
          objectId := entry.objectId
          globalLayerIndex := entry.globalLayerIndex
          regionId := entry.regionId
          removedArea := rolesArea entry - rolesArea clipped
          dropped := dropped }
      else none
    else none

/-- The loop over the retained entries that clips them. -/
def clipRetained (result : SupportAggregationResult F) : SupportAggregationResult F :=
  { result with
    retained := result.retained.filterMap (clipEntry ops input)
    clipped := result.clipped ++ result.retained.filterMap (clippedBody ops input) }

/-- Two entries of different families overlap where there is no territory. -/
def familiesConflict (a b : SupportPlanEntry F) : Bool :=
  a.objectId = b.objectId && a.globalLayerIndex = b.globalLayerIndex && a.familyId ≠ b.familyId &&
    !entryHasTerritory input a && entriesOverlap ops a b

/-- The entries, each with whether it conflicts with one before or behind it. -/
def markRejected (before : List (SupportPlanEntry F)) :
    List (SupportPlanEntry F) → List (SupportPlanEntry F × Bool)
  | [] => []
  | entry :: rest =>
    (entry, before.any (familiesConflict ops input · entry) ||
      rest.any (familiesConflict ops input entry ·)) :: markRejected (before ++ [entry]) rest

/-- One round of the loop that takes the rejected entries out. -/
def takeRejected (result : SupportAggregationResult F) (marked : SupportPlanEntry F × Bool) :
    SupportAggregationResult F :=
  if marked.2 then
    recordRejection { result with degraded := true } marked.1
      "body rejected: cross-family positive-area overlap"
  else { result with retained := result.retained ++ [marked.1] }

/-- The conflict guard. -/
def rejectConflicts (result : SupportAggregationResult F) : SupportAggregationResult F :=
  (markRejected ops input [] result.retained).foldl takeRejected { result with retained := [] }

def tryAggregateSupportPlansWithPolicy (policy : FamilyConflictPolicy) :
    Except SupportAggregationError (SupportAggregationResult F) := do
  let raftPlan := input.plans.foldl (fun merged plan => mergeRaftPlans merged plan.raftPlan) none
  let result ← input.sortedEntries.foldlM (admitEntry ops input policy) { raftPlan := raftPlan }
  let result := { result with retained := unionSameFamilyEntries result.retained }
  return rejectConflicts ops input (clipRetained ops input result)

end Aggregate

/-! ### Diagnostics -/

/-- `DiagnosticSeverity`, of which these are raised here. -/
inductive DiagnosticSeverity where
  | Info
  | Warn
deriving DecidableEq

/-- The texts of the diagnostics, with the values in them. -/
inductive DiagnosticMessage (F : Type) where
  /-- "support demand '..' unmet for body '..': .." -/
  | unmet (demandId bodyId reason : String)
  /-- "support routing: family='..', body='..', demand='..': .." -/
  | routing (familyId bodyId demandId reason : String)
  /-- "duplicate support region rejected: layer=.., object='..', region=.., families '..' and '..'" -/
  | duplicateRegion (layer : ℤ) (objectId : ObjectId) (regionId : Nat)
      (firstFamilyId duplicateFamilyId : String)
  /-- "support region not owned by writer: family='..', object='..', region=.., layer=..,
  module='..': .." -/
  | notOwned (familyId : String) (objectId : ObjectId) (regionId : Nat) (layer : ℤ)
      (moduleId : String) (reason : OwnershipReason)
  /-- "support body clipped to family territory: family='..', bodies=.., region=..,
  removed_area=..", and ", entry dropped" -/
  | clipped (familyId : String) (bodyIds : List String) (regionId : Nat) (removedArea : F)
      (dropped : Bool)
  /-- "support demand '..' declined by family '..': .." -/
  | declined (demandId familyId : String) (reason : SupportPlanDeclineReason)
deriving DecidableEq

structure Diagnostic (F : Type) where
  severity : DiagnosticSeverity
  code : Nat
  layer : Option ℤ := none
  objectId : Option ObjectId := none
  message : DiagnosticMessage F
deriving DecidableEq

structure AttributedDiagnostic (F : Type) where
  planIndex : Option Nat
  diagnostic : Diagnostic F
deriving DecidableEq

/-- `family_to_plan`: the first plan with an entry of the family. -/
def familyToPlan (plans : List (SupportPlanIR F)) (familyId : String) : Option Nat :=
  plans.findIdx? fun plan => plan.entries.any (·.familyId = familyId)

/-- `body_to_plan`: the first plan with an entry of the body. -/
def bodyToPlan (plans : List (SupportPlanIR F)) (bodyId : String) : Option Nat :=
  plans.findIdx? fun plan => plan.entries.any (bodyId ∈ ·.bodyIds)

/-- The diagnostics of an aggregate. -/
def aggregateDiagnostics (plans : List (SupportPlanIR F)) (aggregate : SupportAggregationResult F) :
    List (AttributedDiagnostic F) :=
  (aggregate.unmet.map fun demand =>
    ⟨bodyToPlan plans demand.bodyId,
      { severity := .Warn, code := 1200,
        message := .unmet demand.demandId demand.bodyId demand.reason }⟩) ++
  (aggregate.diagnostics.map fun d =>
    ⟨familyToPlan plans d.familyId,
      { severity := .Warn, code := 1203,
        message := .routing d.familyId d.bodyId d.demandId d.reason }⟩) ++
  (aggregate.duplicates.map fun duplicate =>
    ⟨familyToPlan plans duplicate.duplicateFamilyId,
      { severity := .Warn, code := 1202, layer := some duplicate.globalLayerIndex,
        objectId := some duplicate.objectId,
        message := .duplicateRegion duplicate.globalLayerIndex duplicate.objectId
          duplicate.regionId duplicate.firstFamilyId duplicate.duplicateFamilyId }⟩) ++
  (aggregate.ownershipViolations.map fun violation =>
    ⟨some violation.planIndex,
      { severity := .Warn, code := 1206, layer := some violation.globalLayerIndex,
        objectId := some violation.objectId,
        message := .notOwned violation.familyId violation.objectId violation.regionId
          violation.globalLayerIndex violation.moduleId violation.reason }⟩) ++
  (aggregate.clipped.map fun clipped =>
    ⟨familyToPlan plans clipped.familyId,
      { severity := .Info, code := 1205, layer := some clipped.globalLayerIndex,
        objectId := some clipped.objectId,
        message := .clipped clipped.familyId clipped.bodyIds clipped.regionId clipped.removedArea
          clipped.dropped }⟩)

/-- The diagnostics of the declines, from the plans themselves. -/
def declineDiagnostics (input : SupportAggregationInput F) : List (AttributedDiagnostic F) :=
  input.entries.flatMap fun (planIndex, entry) =>
    match entry.declineReason with
    | none => []
    | some reason => entry.demandIds.map fun demandId =>
        ⟨some planIndex,
          { severity := .Warn, code := 1201, layer := some entry.globalLayerIndex,
            objectId := some entry.objectId,
            message := .declined demandId entry.familyId reason }⟩

def aggregateSupportPlanIrsWithPolicyAttributed [Field F] [LinearOrder F] (ops : SupportOps F)
    (input : SupportAggregationInput F) (policy : FamilyConflictPolicy) :
    Except SupportAggregationError (SupportPlanIR F × List (AttributedDiagnostic F)) := do
  let aggregate ← tryAggregateSupportPlansWithPolicy ops input policy
  let diagnostics := aggregateDiagnostics input.plans aggregate ++ declineDiagnostics input
  return (
    { schemaVersion := (input.plans.head?.map (·.schemaVersion)).getD ⟨0, 0, 0⟩
      entries := aggregate.retained
      raftPlan := aggregate.raftPlan }, diagnostics)

end PinchNPrint.Support
