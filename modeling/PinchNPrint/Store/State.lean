/-
The prepared-owner store (`slicer-wasm-host/src/preparation_store.rs`): its data
and what each operation does under the store lock.

Every operation of the source locks the store, looks its owner up with
`check_owner`, and works on that one entry, so an operation is modelled as a
function of the entry and `StoreState.withEntry` is the shared frame around it.
`u64` counters are naturals with checked addition. Reference-counted identities
are numbers that are compared and never reused.

Scene geometry and the layer schedule enter only through `validate_scene`, so
both types and the validator are parameters (`SceneModel`); every result holds
for all of them. The metadata and diagnostics mutexes guard fields of the entry
and are modelled as such.
-/

import PinchNPrint.Lib.Collections

namespace PinchNPrint.Preparation

open Std

/-! ### Errors -/

/-- `PreparationTransportError`. -/
inductive TransportError where
  | notReady
  | invalidName
  | duplicateName
  | poisonedOutput
  | rangeError
  | arithmeticOverflow
  | accessDenied
deriving DecidableEq

/-- `PreparationProjectionError`. -/
inductive ProjectionError where
  | accessDenied
  | notRequested
  | undeclaredView
  | duplicateScene
  | missingScene
  | invalidReference
  | invalidShape
  | invalidCoordinate
  | arithmeticOverflow
  | poisonedOutput
deriving DecidableEq

/-- A recorded projection rejection. -/
structure ProjectionFault where
  view : String
  error : ProjectionError
  field : String
deriving DecidableEq

/-- `PreparationFailure`; payloads the store only passes on are kept as text. -/
inductive PreparationFailure where
  | declaration (detail : String)
  | transport (error : TransportError)
  | input (detail : String)
  | module (detail : String)
  | trap (detail : String)
  | disposed
  | busy
  | invalidOwner
  | alreadyStarted
  | publicationRejected (detail : String)
  | projectionRejected (view : String) (error : ProjectionError) (field : String)
deriving DecidableEq

def projectionRejection (fault : ProjectionFault) : PreparationFailure :=
  .projectionRejected fault.view fault.error fault.field

/-- `add`: checked `u64` addition. -/
def add (a b : Nat) : Except TransportError Nat :=
  if a + b < 2 ^ 64 then .ok (a + b) else .error .arithmeticOverflow

/-- `checked_add` of the projection accounting. -/
def checkedAdd (a b : Nat) : Except ProjectionError Nat :=
  if a + b < 2 ^ 64 then .ok (a + b) else .error .arithmeticOverflow

/-- `count`: a length as a `u64`. -/
def count (value : Nat) : Except TransportError Nat :=
  if value < 2 ^ 64 then .ok value else .error .arithmeticOverflow

/-! ### Scenes -/

/-- `PreparationProjectionScene`, its classes and primitives left abstract. -/
structure Scene (Content : Type) where
  sceneId : String
  view : String
  content : Content

/-- Scene contents, layer schedules, and the check that accepts a scene and
counts its diagnostic bytes. -/
structure SceneModel where
  Content : Type
  Schedule : Type
  validate : Scene Content → String → Schedule → Except ProjectionFault Nat

variable {M : SceneModel}

/-- `CommittedPreparationProjection`. -/
structure Committed (M : SceneModel) where
  scene : Scene M.Content
  ownerModuleId : String
  diagnosticBytes : Nat
  layerZ : M.Schedule

def validateScene (scene : Scene M.Content) (ownerModuleId : String) (layers : M.Schedule) :
    Except ProjectionFault (Committed M) :=
  (M.validate scene ownerModuleId layers).map fun bytes => ⟨scene, ownerModuleId, bytes, layers⟩

/-! ### Owners -/

/-- An `Arc<()>` compared by pointer. -/
abbrev Identity := Nat

/-- Preparation phase of an owner. -/
inductive Phase where
  | unready
  | staging
  | ready
  | disposed
deriving DecidableEq

/-- One staged or published payload. -/
structure Piece where
  id : Nat
  bytes : List UInt8
  len : Nat
deriving DecidableEq

structure PreparedPlanMetadata where
  moduleId : String
  phase : Phase
  ready : Bool
  pieces : List (String × Nat)
  retainedPayloadBytes : Nat
  retainedNameBytes : Nat
  stagedPayloadBytes : Nat
  stagedNameBytes : Nat
  putCalls : Nat
  readCalls : Nat
  requestedReadBytes : Nat
  returnedReadBytes : Nat
  prepareInvocations : Nat
deriving DecidableEq

/-- `PreparationDiagnosticAccounting`. -/
structure DiagnosticAccounting where
  stagedBytes : Nat
  retainedBytes : Nat
  publishedScenes : Nat
deriving DecidableEq

/-- Requested views and the scenes published for them. -/
structure ProjectionStaging (M : SceneModel) where
  views : List String
  layers : M.Schedule
  scenes : BTreeMap String (Committed M)

/-- What the store keeps for one owner. -/
structure OwnerState (M : SceneModel) where
  artifactIdentity : Identity
  pieces : BTreeMap String Piece
  metadata : PreparedPlanMetadata
  writerFault : Option TransportError
  activeReads : Nat
  callIdentity : Option Identity
  projection : Option (ProjectionStaging M)
  projectionFailure : Option ProjectionFault
  diagnostics : DiagnosticAccounting

/-- The owner token: which store, which owner, which artifact. -/
structure PreparationOwner where
  store : Identity
  id : Nat
  artifactIdentity : Identity
  declaredViews : List String
deriving DecidableEq

def PreparationOwner.sameOwner (owner other : PreparationOwner) : Bool :=
  owner.store == other.store && owner.id == other.id

/-- The parts of a frozen binding an owner copies. -/
structure FrozenPreparationBinding where
  moduleId : String
  artifactIdentity : Identity
  views : List String
deriving DecidableEq

/-- `StoreState`, with the identity of the mutex that holds it. -/
structure StoreState (M : SceneModel) where
  identity : Identity
  disposed : Bool
  nextOwner : Nat
  owners : BTreeMap Nat (OwnerState M)

/-! ### Operations on one entry -/

namespace OwnerState

/-- The entry of a new owner. -/
def new (binding : FrozenPreparationBinding) : OwnerState M where
  artifactIdentity := binding.artifactIdentity
  pieces := ∅
  metadata :=
    { moduleId := binding.moduleId, phase := .unready, ready := false, pieces := [],
      retainedPayloadBytes := 0, retainedNameBytes := 0, stagedPayloadBytes := 0,
      stagedNameBytes := 0, putCalls := 0, readCalls := 0, requestedReadBytes := 0,
      returnedReadBytes := 0, prepareInvocations := 0 }
  writerFault := none
  activeReads := 0
  callIdentity := none
  projection := none
  projectionFailure := none
  diagnostics := ⟨0, 0, 0⟩

def clear (phase : Phase) (entry : OwnerState M) : OwnerState M :=
  { entry with
    pieces := ∅
    projection := none
    callIdentity := none
    projectionFailure := if phase = .disposed then none else entry.projectionFailure
    diagnostics := { entry.diagnostics with stagedBytes := 0, retainedBytes := 0 }
    metadata := { entry.metadata with
      phase := phase, ready := false, pieces := [], retainedPayloadBytes := 0,
      retainedNameBytes := 0, stagedPayloadBytes := 0, stagedNameBytes := 0 } }

/-- A fault of either channel is recorded. -/
def poisoned (entry : OwnerState M) : Bool :=
  entry.writerFault.isSome || entry.projectionFailure.isSome

/-- The locked part of `begin`; `identity` is the inherited or fresh call
identity. -/
def begin (identity : Identity) (entry : OwnerState M) :
    OwnerState M × Except PreparationFailure Unit :=
  if entry.metadata.phase ≠ .unready then (entry, .error .alreadyStarted)
  else
    ({ entry with
      metadata := { entry.metadata with phase := .staging }
      writerFault := none
      projectionFailure := none
      callIdentity := some identity }, .ok ())

/-- `request_projections`. A new request replaces an earlier one with its
scenes; the first undeclared view is recorded as the failure. -/
def requestProjections (declaredViews views : List String) (layers : M.Schedule)
    (entry : OwnerState M) : OwnerState M × Except PreparationFailure Unit :=
  if views.isEmpty then (entry, .ok ())
  else
    let requested := { entry with projection := some ⟨views, layers, ∅⟩ }
    match views.find? fun view => !declaredViews.contains view with
    | none => (requested, .ok ())
    | some view =>
        let fault := ⟨view, .undeclaredView, "requested view"⟩
        ({ requested with projectionFailure := some fault }, .error (projectionRejection fault))

/-- `record_writer_fault`: the first fault stays. -/
def recordWriterFault (error : TransportError) (entry : OwnerState M) : OwnerState M :=
  { entry with writerFault := some (entry.writerFault.getD error) }

/-- The accepting part of `put`: all checks, then the insertion and the
counters. -/
def stagePiece (name : String) (bytes : List UInt8) (entry : OwnerState M) :
    Except TransportError (OwnerState M) :=
  if name = "" then .error .invalidName
  else if name ∈ entry.pieces then .error .duplicateName
  else do
    let len ← count bytes.length
    let nameLen ← count name.utf8ByteSize
    let id ← count entry.pieces.size
    let payload ← add entry.metadata.stagedPayloadBytes len
    let names ← add entry.metadata.stagedNameBytes nameLen
    let calls ← add entry.metadata.putCalls 1
    return { entry with
      pieces := entry.pieces.insert name ⟨id, bytes, len⟩
      metadata := { entry.metadata with
        stagedPayloadBytes := payload, stagedNameBytes := names, putCalls := calls } }

/-- `put`: a rejection is recorded as the writer fault. -/
def put (name : String) (bytes : List UInt8) (entry : OwnerState M) :
    OwnerState M × Except TransportError Unit :=
  if entry.poisoned then (entry, .error .poisonedOutput)
  else
    match entry.stagePiece name bytes with
    | .ok staged => (staged, .ok ())
    | .error error => ({ entry with writerFault := some error }, .error error)

/-- `with_entry` of the projection writer, once its owner is found: the call
identity and phase must match, and a rejection is recorded. -/
def withWriter {α : Type} (callIdentity : Identity)
    (operation : OwnerState M → Except ProjectionFault (OwnerState M × α)) (entry : OwnerState M) :
    OwnerState M × Except ProjectionError α :=
  if entry.callIdentity ≠ some callIdentity ∨ entry.metadata.phase ≠ .staging then
    (entry, .error .accessDenied)
  else if entry.poisoned then (entry, .error .poisonedOutput)
  else
    match operation entry with
    | .ok (staged, value) => (staged, .ok value)
    | .error fault => ({ entry with projectionFailure := some fault }, .error fault.error)

/-- The operation of `requested_views`. -/
def requestedViews (entry : OwnerState M) :
    Except ProjectionFault (OwnerState M × List String) :=
  match entry.projection with
  | none => .error ⟨"", .notRequested, "requested_views"⟩
  | some projection => .ok (entry, projection.views)

/-- The rejection `publish` builds for a scene. -/
def sceneFault (scene : Scene M.Content) (error : ProjectionError) (field : String) :
    ProjectionFault :=
  ⟨scene.view, error, "scene=" ++ scene.sceneId ++ " " ++ field⟩

/-- The operation of `publish`. -/
def stageScene (declaredViews : List String) (scene : Scene M.Content) (entry : OwnerState M) :
    Except ProjectionFault (OwnerState M × Unit) :=
  match entry.projection with
  | none => .error (sceneFault scene .notRequested "view")
  | some projection =>
      if scene.view = "" then .error (sceneFault scene .invalidReference "view")
      else if !declaredViews.contains scene.view then
        .error (sceneFault scene .undeclaredView "view")
      else if !projection.views.contains scene.view then
        .error (sceneFault scene .notRequested "view")
      else if scene.view ∈ projection.scenes then .error (sceneFault scene .duplicateScene "view")
      else if (BTreeMap.vals projection.scenes).any fun other =>
          other.scene.sceneId == scene.sceneId then
        .error (sceneFault scene .invalidReference "scene_id")
      else do
        let committed ← validateScene scene entry.metadata.moduleId projection.layers
        let staged ← (checkedAdd entry.diagnostics.stagedBytes committed.diagnosticBytes).mapError
          (sceneFault scene · "staged_bytes")
        let published ← (checkedAdd entry.diagnostics.publishedScenes 1).mapError
          (sceneFault scene · "published_scenes")
        return ({ entry with
          projection := some { projection with
            scenes := projection.scenes.insert scene.view committed }
          diagnostics := { entry.diagnostics with
            stagedBytes := staged, publishedScenes := published } }, ())

/-- The rejection for diagnostic bytes that cannot be retained. -/
def retainedFault (entry : OwnerState M) (error : ProjectionError) : ProjectionFault :=
  ⟨((entry.projection.bind fun projection => projection.views.head?).getD ""), error,
    "retained_bytes"⟩

/-- First recorded, else unretainable bytes, else a requested view without a
scene. -/
def finishFault (entry : OwnerState M) : Option ProjectionFault :=
  match entry.projectionFailure with
  | some fault => some fault
  | none =>
      match checkedAdd entry.diagnostics.retainedBytes entry.diagnostics.stagedBytes with
      | .error _ => some (entry.retainedFault .arithmeticOverflow)
      | .ok _ => do
          let projection ← entry.projection
          let view ← projection.views.find? fun view => view ∉ projection.scenes
          return ⟨view, .missingScene, "scene"⟩

/-- Names and lengths of the pieces. -/
def description (entry : OwnerState M) : List (String × Nat) :=
  entry.pieces.toList.map fun named => (named.1, named.2.len)

/-- The part of `finish` before the validator. -/
def finishCheck (entry : OwnerState M) :
    OwnerState M × Except PreparationFailure (List (String × Nat)) :=
  if entry.writerFault.isSome then (entry, .error (.transport .poisonedOutput))
  else
    match entry.finishFault with
    | some fault =>
        ({ entry with projectionFailure := some fault }, .error (projectionRejection fault))
    | none => (entry, .ok entry.description)

/-- The part of `finish` after the validator accepted `staged`. -/
def finishPublish (staged : List (String × Nat)) (entry : OwnerState M) :
    OwnerState M × Except PreparationFailure Unit :=
  if entry.writerFault.isSome then (entry, .error (.transport .poisonedOutput))
  else
    match entry.projectionFailure with
    | some fault => (entry, .error (projectionRejection fault))
    | none =>
        match checkedAdd entry.diagnostics.retainedBytes entry.diagnostics.stagedBytes with
        | .error error =>
            let fault := entry.retainedFault error
            ({ entry with projectionFailure := some fault }, .error (projectionRejection fault))
        | .ok retained =>
            ({ entry with
              diagnostics := { entry.diagnostics with retainedBytes := retained, stagedBytes := 0 }
              callIdentity := none
              metadata := { entry.metadata with
                pieces := staged
                retainedPayloadBytes := entry.metadata.stagedPayloadBytes
                retainedNameBytes := entry.metadata.stagedNameBytes
                stagedPayloadBytes := 0
                stagedNameBytes := 0
                phase := .ready
                ready := true } }, .ok ())

/-- `ReadGuard::acquire`. -/
def acquire (entry : OwnerState M) : Except TransportError (OwnerState M) := do
  let reads ← add entry.activeReads 1
  return { entry with activeReads := reads }

/-- Bytes `start..stop`, when the slice has them. -/
def slice (bytes : List UInt8) (start stop : Nat) : Except TransportError (List UInt8) :=
  if start ≤ stop ∧ stop ≤ bytes.length then .ok (bytes.extract start stop)
  else .error .arithmeticOverflow

/-- The locked part of `PreparedPieceHandle::read`. -/
def read (id offset maxBytes : Nat) (entry : OwnerState M) :
    Except TransportError (OwnerState M × List UInt8) :=
  if entry.metadata.ready = false then .error .notReady
  else
    match (BTreeMap.vals entry.pieces).find? fun piece => piece.id == id with
    | none => .error .accessDenied
    | some piece =>
        if piece.len < offset then .error .rangeError
        else do
          let take := min maxBytes (piece.len - offset)
          let take ← count take
          let start ← count offset
          let stop ← add start take
          let bounded ← slice piece.bytes start stop
          let calls ← add entry.metadata.readCalls 1
          let requested ← add entry.metadata.requestedReadBytes maxBytes
          let returned ← add entry.metadata.returnedReadBytes take
          return ({ entry with metadata := { entry.metadata with
            readCalls := calls
            requestedReadBytes := requested
            returnedReadBytes := returned } }, bounded)

/-- `dispose_owner` refuses this entry. -/
def busy (entry : OwnerState M) : Bool :=
  entry.metadata.phase = .staging || entry.activeReads != 0

end OwnerState

/-! ### Operations on the store -/

namespace StoreState

def checkOwner (state : StoreState M) (owner : PreparationOwner) :
    Except PreparationFailure (OwnerState M) :=
  match state.owners[owner.id]? with
  | none => .error .invalidOwner
  | some entry =>
      if entry.artifactIdentity ≠ owner.artifactIdentity then .error .invalidOwner
      else if state.disposed ∨ entry.metadata.phase = .disposed then .error .disposed
      else .ok entry

/-- `verify`: the token belongs to this store. -/
def verify (state : StoreState M) (owner : PreparationOwner) : Except PreparationFailure Unit :=
  if owner.store ≠ state.identity then .error .invalidOwner else .ok ()

/-- Write one entry back. -/
def set (state : StoreState M) (id : Nat) (entry : OwnerState M) : StoreState M :=
  { state with owners := state.owners.insert id entry }

/-- Look the owner up and run an operation on its entry. -/
def withEntry {ε α : Type} (state : StoreState M) (owner : PreparationOwner)
    (denied : PreparationFailure → ε) (operation : OwnerState M → OwnerState M × Except ε α) :
    StoreState M × Except ε α :=
  match state.checkOwner owner with
  | .error error => (state, .error (denied error))
  | .ok entry => (state.set owner.id (operation entry).1, (operation entry).2)

def createOwner (state : StoreState M) (binding : FrozenPreparationBinding) :
    StoreState M × Except PreparationFailure PreparationOwner :=
  if state.disposed then (state, .error .disposed)
  else
    match add state.nextOwner 1 with
    | .error error => (state, .error (.transport error))
    | .ok next =>
        ({ state with
          owners := state.owners.insert state.nextOwner (OwnerState.new binding)
          nextOwner := next },
          .ok ⟨state.identity, state.nextOwner, binding.artifactIdentity, binding.views⟩)

/-- `dispose_owner`, lock contention aside. -/
def disposeOwner (state : StoreState M) (owner : PreparationOwner) :
    StoreState M × Except PreparationFailure Unit :=
  match state.verify owner with
  | .error error => (state, .error error)
  | .ok () =>
      state.withEntry owner id fun entry =>
        if entry.busy then (entry, .error .busy) else (entry.clear .disposed, .ok ())

/-- `dispose`, lock contention aside. -/
def dispose (state : StoreState M) : StoreState M × Except PreparationFailure Unit :=
  if (BTreeMap.vals state.owners).any OwnerState.busy then (state, .error .busy)
  else
    ({ state with
      owners := state.owners.map fun _ entry => entry.clear .disposed
      disposed := true }, .ok ())

/-- `record_prepare_invocation`, which asks no authority but the token. -/
def recordPrepareInvocation (state : StoreState M) (owner : PreparationOwner) :
    StoreState M × Except PreparationFailure Unit :=
  match state.owners[owner.id]? with
  | none => (state, .error .invalidOwner)
  | some entry =>
      match add entry.metadata.prepareInvocations 1 with
      | .error error => (state, .error (.transport error))
      | .ok calls =>
          (state.set owner.id
            { entry with metadata := { entry.metadata with prepareInvocations := calls } }, .ok ())

/-- The store part of dropping a `ReadGuard`; `none` is the panic of an
unbalanced guard. -/
def release (state : StoreState M) (owner : PreparationOwner) : Option (StoreState M) :=
  match state.owners[owner.id]? with
  | none => some state
  | some entry =>
      if entry.activeReads = 0 then none
      else some (state.set owner.id { entry with activeReads := entry.activeReads - 1 })

end StoreState

end PinchNPrint.Preparation
