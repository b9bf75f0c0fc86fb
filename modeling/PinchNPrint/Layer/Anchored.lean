/-
Anchored geometry and its commits
(`slicer-ir`: `slice_ir.rs`; `slicer-runtime`: `layer_executor.rs`,
`blackboard.rs`).

An anchored entity is printable work with a Z contract of its own. Modules hand
their entities to the layer arena in collections, alone or with support. The
arena has one slot for collections and a commit replaces what is in it, while
support entries of several modules are merged.

The overlap test of support entries is a parameter: it rests on polygon
clipping. Numbers are elements of an ordered field with floor, so the checks
for finiteness are vacuous.
-/

import PinchNPrint.Layer.Commit
import PinchNPrint.Lib.Decimal

namespace PinchNPrint.Layer

/-! ### Data -/

/-- `AnchoredGeometryContract`, heights in units of 100 nm. -/
inductive AnchoredGeometryContract where
  | Planar (z : ℤ)
  | ZSpanning (minZ maxZ : ℤ)
deriving DecidableEq

def COORDINATE_TOLERANCE_UNITS : ℤ :=
  10

structure AnchoredEntityProvenance where
  requestingFeature : String
  sourcePlanEntry : String
deriving DecidableEq

structure AnchoredEntity (F : Type) where
  localId : Nat
  anchorGlobalLayerIndex : Nat
  geometry : AnchoredGeometryContract
  inputCapabilities : List String := []
  outputCapabilities : List String := []
  provenance : AnchoredEntityProvenance
  pathPoints : List (Point3WithWidth F)
  role : ExtrusionRole
deriving DecidableEq

structure AnchoredEventRuntimeHooks where
  optimizePaths : Bool := true
  accountCooling : Bool := true
  accountTime : Bool := true
deriving DecidableEq

structure OrderedEventCollection (F : Type) where
  anchorGlobalLayerIndex : Nat
  events : List (AnchoredEntity F)
  runtimeHooks : AnchoredEventRuntimeHooks := {}
deriving DecidableEq

inductive SupportRole where
  | SupportBody
  | TopInterface
  | BottomInterface
  | Raft
  | Ironing
deriving DecidableEq

structure SupportEntry (F : Type) where
  familyId : String
  bodyId : String
  demandIds : List String
  objectId : ObjectId
  regionId : Nat
  role : SupportRole
  paths : List (ExtrusionPath3D F)
  variantChain : List (String × PaintValue F) := []
deriving DecidableEq

structure SupportIR (F : Type) where
  globalLayerIndex : Nat := 0
  entries : List (SupportEntry F) := []
deriving DecidableEq

structure SupportRoutingDiagnostic where
  familyId : String
  bodyId : String
  demandId : String
  reason : String
deriving DecidableEq

variable {F : Type}

/-! ### Ordering a collection -/

def orderingZ (entity : AnchoredEntity F) : ℤ :=
  match entity.geometry with
  | .Planar z => z
  | .ZSpanning minZ _ => minZ

/-- The order of the key `(ordering_z, local_id)`. -/
def eventLE (a b : AnchoredEntity F) : Prop :=
  orderingZ a < orderingZ b ∨ (orderingZ a = orderingZ b ∧ a.localId ≤ b.localId)

instance : DecidableRel (eventLE (F := F)) :=
  fun a b => inferInstanceAs (Decidable
    (orderingZ a < orderingZ b ∨ (orderingZ a = orderingZ b ∧ a.localId ≤ b.localId)))

/-- The entity printed backwards. -/
def AnchoredEntity.reversed (entity : AnchoredEntity F) : AnchoredEntity F :=
  { entity with pathPoints := entity.pathPoints.reverse }

/-- One round of `commit_ordered_event_collections`: a stable sort, and where
paths are optimized the proposal that takes every event backwards. -/
def commitCollection (collection : OrderedEventCollection F) : OrderedEventCollection F :=
  let sorted := collection.events.insertionSort eventLE
  { collection with
    events := if collection.runtimeHooks.optimizePaths then
        sorted.reverse.map AnchoredEntity.reversed
      else sorted }

/-! ### Validation -/

section Validation

variable [Field F] [LinearOrder F] [FloorRing F] [ToString F]

/-- `mm_to_units`: ten thousand units to the millimetre. -/
def mmToUnits (mm : F) : ℤ :=
  Decimal.roundAway (mm * 10000)

def unitsToMm (units : ℤ) : F :=
  units / 10000

/-- The check of one path point. -/
def validatePoint (geometry : AnchoredGeometryContract) (index : Nat) (point : Point3WithWidth F) :
    Except String Unit :=
  if point.width ≤ 0 then
    .error s!"anchored entity point[{index}].width must be finite and positive, got {point.width}"
  else if point.flowFactor ≤ 0 then
    .error s!"anchored entity point[{index}].flow_factor must be finite and positive, got {point.flowFactor}"
  else
    let z := mmToUnits point.z
    match geometry with
    | .Planar plane =>
        if |z - plane| > COORDINATE_TOLERANCE_UNITS then
          .error s!"anchored entity planar z mismatch: path point Z {z} differs from plane {plane}"
        else .ok ()
    | .ZSpanning minZ maxZ =>
        if z < minZ - COORDINATE_TOLERANCE_UNITS ∨ z > maxZ + COORDINATE_TOLERANCE_UNITS then
          .error s!"anchored entity z-span violation: path point Z {z} is outside [{minZ}, {maxZ}]"
        else .ok ()

def validateAnchoredEntity (entity : AnchoredEntity F) : Except String Unit :=
  entity.pathPoints.zipIdx.forM fun (point, index) => validatePoint entity.geometry index point

end Validation

/-! ### Commits -/

/-- The slots of `LayerArena` that support and anchored commits use. -/
structure SupportArena (F : Type) where
  support : Option (SupportIR F) := none
  supportRoutingDiagnostics : List SupportRoutingDiagnostic := []
  anchoredEventCollections : Option (List (OrderedEventCollection F)) := none
deriving DecidableEq

/-- `LayerStageCommit`: the arms that carry support or anchored geometry. -/
inductive LayerStageCommit (F : Type) where
  | AnchoredEvents (collections : List (OrderedEventCollection F))
  | Support (ir : SupportIR F)
  | SupportWithAnchoredEvents (support : SupportIR F)
      (anchoredEvents : List (OrderedEventCollection F))
  | SupportPostProcess (ir : SupportIR F)
  | SupportPostProcessWithAnchoredEvents (support : SupportIR F)
      (anchoredEvents : List (OrderedEventCollection F))
deriving DecidableEq

/-- The diagnostics of the entries that are dropped. -/
def overlapDiagnostics (dropped : List (SupportEntry F)) : List SupportRoutingDiagnostic :=
  dropped.flatMap fun entry => entry.demandIds.map fun demandId =>
    ⟨entry.familyId, entry.bodyId, demandId, "cross-family swept-path overlap"⟩

section Apply

variable (overlap : SupportEntry F → SupportEntry F → Bool)

/-- An entry of another family that it overlaps. -/
def clashes (entry other : SupportEntry F) : Bool :=
  entry.familyId ≠ other.familyId && overlap entry other

/-- `apply`, the `Support` arm: entries of different families that overlap are
dropped on both sides, the rest is merged. -/
def applySupport (arena : SupportArena F) (incoming : SupportIR F) : SupportArena F :=
  match arena.support with
  | none => { arena with support := some incoming }
  | some existing =>
      let dropsExisting := fun entry => incoming.entries.any fun new => clashes overlap new entry
      let dropsIncoming := fun new => existing.entries.any fun entry => clashes overlap new entry
      { arena with
        support := some
          { existing with
            entries := existing.entries.filter (!dropsExisting ·) ++
              incoming.entries.filter (!dropsIncoming ·) }
        supportRoutingDiagnostics := arena.supportRoutingDiagnostics ++
          overlapDiagnostics (existing.entries.filter dropsExisting) ++
          overlapDiagnostics (incoming.entries.filter dropsIncoming) }

variable [Field F] [LinearOrder F] [FloorRing F] [ToString F]

/-- `apply`, the `AnchoredEvents` arm: every entity is validated, then the
collections replace those in the slot. -/
def applyAnchoredEvents (ctx : StageApplyContext) (arena : SupportArena F)
    (collections : List (OrderedEventCollection F)) :
    Except LayerStageError (SupportArena F) := do
  (collections.flatMap (·.events)).forM fun entity =>
    (validateAnchoredEntity entity).mapError (.FatalModule ctx.stageId ctx.moduleId)
  .ok { arena with anchoredEventCollections := some (collections.map commitCollection) }

/-- `apply`, on these arms. -/
def apply (ctx : StageApplyContext) (arena : SupportArena F) :
    LayerStageCommit F → Except LayerStageError (SupportArena F)
  | .AnchoredEvents collections => applyAnchoredEvents ctx arena collections
  | .Support ir => .ok (applySupport overlap arena ir)
  | .SupportWithAnchoredEvents support anchoredEvents =>
      applyAnchoredEvents ctx (applySupport overlap arena support) anchoredEvents
  | .SupportPostProcess ir => .ok { arena with support := some ir }
  | .SupportPostProcessWithAnchoredEvents support anchoredEvents =>
      applyAnchoredEvents ctx { arena with support := some support } anchoredEvents

/-- The commits of a layer, one after the other, each from its module. -/
def applyAll (arena : SupportArena F) (commits : List (StageApplyContext × LayerStageCommit F)) :
    Except LayerStageError (SupportArena F) :=
  commits.foldlM (fun arena commit => apply overlap commit.1 arena commit.2) arena

end Apply

/-! ### What the slot holds in the end -/

/-- The collections a commit carries, if it carries any. -/
def LayerStageCommit.collections? : LayerStageCommit F → Option (List (OrderedEventCollection F))
  | .AnchoredEvents collections => some collections
  | .SupportWithAnchoredEvents _ collections => some collections
  | .SupportPostProcessWithAnchoredEvents _ collections => some collections
  | .Support _ | .SupportPostProcess _ => none

/-- The anchored entities of collections. -/
def entitiesOf (collections : List (OrderedEventCollection F)) : List (AnchoredEntity F) :=
  collections.flatMap (·.events)

/-- The same work, in one direction or the other. -/
def SameWork (a b : AnchoredEntity F) : Prop :=
  b = a ∨ b = a.reversed

/-- The entity is among the collections of the arena. -/
def SupportArena.Holds (arena : SupportArena F) (entity : AnchoredEntity F) : Prop :=
  ∃ held ∈ entitiesOf (arena.anchoredEventCollections.getD []), SameWork entity held

/-- The collections of the last commit that carries any. -/
def lastCollections (commits : List (StageApplyContext × LayerStageCommit F)) :
    Option (List (OrderedEventCollection F)) :=
  (commits.filterMap (·.2.collections?)).getLast?

@[simp] theorem reversed_reversed (a : AnchoredEntity F) : a.reversed.reversed = a := by
  simp [AnchoredEntity.reversed]

theorem SameWork.trans {a b c : AnchoredEntity F} (hab : SameWork a b) (hbc : SameWork b c) :
    SameWork a c := by
  rcases hab with rfl | rfl
  · exact hbc
  · rcases hbc with rfl | rfl
    · exact .inr rfl
    · exact .inl (reversed_reversed a)

theorem mem_commitCollection {collection : OrderedEventCollection F} {entity : AnchoredEntity F} :
    (∃ held ∈ (commitCollection collection).events, SameWork entity held) ↔
      ∃ held ∈ collection.events, SameWork entity held := by
  rw [commitCollection]
  by_cases hoptimize : collection.runtimeHooks.optimizePaths = true
  · simp only [hoptimize, if_true, List.mem_map, List.mem_reverse, List.mem_insertionSort]
    constructor
    · rintro ⟨_, ⟨held, hheld, rfl⟩, hsame⟩
      exact ⟨held, hheld, hsame.trans (.inr (reversed_reversed held).symm)⟩
    · rintro ⟨held, hheld, hsame⟩
      exact ⟨held.reversed, ⟨held, hheld, rfl⟩, hsame.trans (.inr rfl)⟩
  · simp only [hoptimize, Bool.false_eq_true, if_false, List.mem_insertionSort]

theorem mem_entitiesOf_commit {collections : List (OrderedEventCollection F)}
    {entity : AnchoredEntity F} :
    (∃ held ∈ entitiesOf (collections.map commitCollection), SameWork entity held) ↔
      ∃ held ∈ entitiesOf collections, SameWork entity held := by
  constructor
  · rintro ⟨held, hheld, hsame⟩
    obtain ⟨_, hmem, hheld⟩ := List.mem_flatMap.mp hheld
    obtain ⟨collection, hcollection, rfl⟩ := List.mem_map.mp hmem
    obtain ⟨held, hheld, hsame⟩ := mem_commitCollection.mp ⟨held, hheld, hsame⟩
    exact ⟨held, List.mem_flatMap.mpr ⟨collection, hcollection, hheld⟩, hsame⟩
  · rintro ⟨held, hheld, hsame⟩
    obtain ⟨collection, hcollection, hheld⟩ := List.mem_flatMap.mp hheld
    obtain ⟨held, hheld, hsame⟩ := mem_commitCollection.mpr ⟨held, hheld, hsame⟩
    exact ⟨held, List.mem_flatMap.mpr ⟨_, List.mem_map_of_mem hcollection, hheld⟩, hsame⟩

theorem applySupport_collections (overlap : SupportEntry F → SupportEntry F → Bool)
    (arena : SupportArena F) (ir : SupportIR F) :
    (applySupport overlap arena ir).anchoredEventCollections = arena.anchoredEventCollections := by
  rw [applySupport]
  split <;> rfl

section Runs

variable [Field F] [LinearOrder F] [FloorRing F] [ToString F]
  {overlap : SupportEntry F → SupportEntry F → Bool}

theorem applyAnchoredEvents_collections {ctx : StageApplyContext} {arena arena' : SupportArena F}
    {collections : List (OrderedEventCollection F)}
    (h : applyAnchoredEvents ctx arena collections = .ok arena') :
    arena'.anchoredEventCollections = some (collections.map commitCollection) := by
  obtain ⟨_, _, h⟩ := Except.of_bind_eq_ok h
  cases h
  rfl

/-- A commit with collections replaces the slot, any other leaves it alone. -/
theorem apply_collections {ctx : StageApplyContext} {arena arena' : SupportArena F}
    {commit : LayerStageCommit F} (h : apply overlap ctx arena commit = .ok arena') :
    arena'.anchoredEventCollections =
      (commit.collections?.map fun collections => collections.map commitCollection).or
        arena.anchoredEventCollections := by
  cases commit with
  | AnchoredEvents collections => exact applyAnchoredEvents_collections h
  | Support ir =>
    cases h
    exact applySupport_collections overlap arena ir
  | SupportWithAnchoredEvents support collections => exact applyAnchoredEvents_collections h
  | SupportPostProcess ir =>
    cases h
    rfl
  | SupportPostProcessWithAnchoredEvents support collections =>
    exact applyAnchoredEvents_collections h

/-- After a run the slot holds the collections of the last commit that had any. -/
theorem applyAll_collections {commits : List (StageApplyContext × LayerStageCommit F)}
    {arena arena' : SupportArena F} (h : applyAll overlap arena commits = .ok arena') :
    arena'.anchoredEventCollections =
      ((lastCollections commits).map fun collections => collections.map commitCollection).or
        arena.anchoredEventCollections := by
  induction commits generalizing arena with
  | nil =>
    cases h
    rfl
  | cons commit rest ih =>
    rw [applyAll, List.foldlM_cons] at h
    obtain ⟨next, hnext, hrest⟩ := Except.of_bind_eq_ok h
    rw [ih hrest, apply_collections hnext, lastCollections, lastCollections, List.filterMap_cons]
    cases hcommit : commit.2.collections? with
    | none => rfl
    | some collections =>
      rw [List.getLast?_cons]
      cases (rest.filterMap (·.2.collections?)).getLast? <;> rfl

/-- Every entity that was committed is in the arena at the end of the run exactly
when the last commit with collections has it too. -/
theorem committed_entities_kept_iff (overlap : SupportEntry F → SupportEntry F → Bool)
    (arena arena' : SupportArena F) (commits : List (StageApplyContext × LayerStageCommit F))
    (h : applyAll overlap arena commits = .ok arena') :
    (∀ commit ∈ commits, ∀ collections, commit.2.collections? = some collections →
      ∀ entity ∈ entitiesOf collections, arena'.Holds entity) ↔
      ∀ commit ∈ commits, ∀ collections, commit.2.collections? = some collections →
        ∀ entity ∈ entitiesOf collections, ∀ last, lastCollections commits = some last →
          ∃ held ∈ entitiesOf last, SameWork entity held := by
  have hlast : ∀ commit ∈ commits, ∀ collections, commit.2.collections? = some collections →
      ∃ last, lastCollections commits = some last := by
    intro commit hcommit collections hcollections
    have hmem : collections ∈ commits.filterMap (·.2.collections?) :=
      List.mem_filterMap.mpr ⟨commit, hcommit, hcollections⟩
    exact ⟨_, List.getLast?_eq_some_getLast (List.ne_nil_of_mem hmem)⟩
  have hslot := applyAll_collections h
  have hholds : ∀ last, lastCollections commits = some last → ∀ entity, arena'.Holds entity ↔
      ∃ held ∈ entitiesOf last, SameWork entity held := by
    intro last heq entity
    rw [SupportArena.Holds, hslot, heq]
    exact mem_entitiesOf_commit
  constructor
  · intro hkept commit hcommit collections hcollections entity hentity last heq
    exact (hholds last heq entity).mp (hkept commit hcommit collections hcollections entity hentity)
  · intro hrepeat commit hcommit collections hcollections entity hentity
    obtain ⟨last, heq⟩ := hlast commit hcommit collections hcollections
    exact (hholds last heq entity).mpr
      (hrepeat commit hcommit collections hcollections entity hentity last heq)

end Runs

/-! ### Two producers -/

/-- An entity without points, which every contract accepts. -/
def emptyEntity (localId : Nat) (z : ℤ) : AnchoredEntity ℚ where
  localId := localId
  anchorGlobalLayerIndex := 1
  geometry := .Planar z
  provenance := ⟨"same-z-support", "plan"⟩
  pathPoints := []
  role := .SupportMaterial

/-- A commit of entities by a module. -/
def entityCommit (moduleId : String) (entities : List (AnchoredEntity ℚ)) :
    StageApplyContext × LayerStageCommit ℚ :=
  (⟨"Layer::Support", moduleId⟩, .AnchoredEvents [⟨1, entities, {}⟩])

def noOverlap (_ _ : SupportEntry ℚ) : Bool :=
  false

/-- A second producer that commits the entity of the first one again keeps both. -/
theorem committed_entities_kept_again :
    ∃ arena', applyAll noOverlap {} [entityCommit "a" [emptyEntity 1 2000],
        entityCommit "b" [emptyEntity 1 2000, emptyEntity 2 3000]] = .ok arena' ∧
      arena'.Holds (emptyEntity 1 2000) ∧ arena'.Holds (emptyEntity 2 3000) := by
  refine ⟨_, rfl, ?_⟩
  have h := (committed_entities_kept_iff noOverlap {} _ [entityCommit "a" [emptyEntity 1 2000],
    entityCommit "b" [emptyEntity 1 2000, emptyEntity 2 3000]] rfl).mpr ?_
  · have hsecond := h _ (List.mem_cons_of_mem _ List.mem_cons_self) _ rfl
    exact ⟨hsecond _ List.mem_cons_self, hsecond _ (List.mem_cons_of_mem _ List.mem_cons_self)⟩
  · intro commit hcommit collections hcollections entity hentity last hlast
    cases hlast
    refine ⟨entity, ?_, .inl rfl⟩
    simp only [List.mem_cons, List.not_mem_nil, or_false] at hcommit
    rcases hcommit with rfl | rfl <;> cases hcollections
    · cases List.mem_singleton.mp hentity
      exact List.mem_cons_self
    · exact hentity

/-- The entity of the first of two producers is not in the arena. -/
theorem second_commit_drops_first :
    ∃ arena', applyAll noOverlap {}
        [entityCommit "a" [emptyEntity 1 2000], entityCommit "b" [emptyEntity 2 3000]] =
          .ok arena' ∧
      ¬ arena'.Holds (emptyEntity 1 2000) := by
  refine ⟨_, rfl, ?_⟩
  rintro ⟨held, hheld, hsame⟩
  have hid : ∀ held ∈ entitiesOf
      [commitCollection (⟨1, [emptyEntity 2 3000], {}⟩ : OrderedEventCollection ℚ)],
      held.localId = 2 := by decide +kernel
  rcases hsame with rfl | rfl
  · exact absurd (hid _ hheld) (by decide)
  · exact absurd (hid _ hheld) (by decide)

end PinchNPrint.Layer
