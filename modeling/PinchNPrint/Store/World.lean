/-
The store together with everything that holds authority over it.

A `World` is a store, the live transactions and read guards, and the active
invocation of each thread. `Op` lists every locked section of the source as one
atomic operation, so a run interleaves threads at the granularity of the store
lock:

* `finish` is two sections, `finish` and `validated`, with the user's validator
  running in between; a failing one is followed by `dropTransaction`, which is
  when the source's `finish` returns;
* a piece read is three sections, `acquireRead`, `read` and `dropGuard`;
* `active_guard` checks its owner before it acquires; the check changes nothing
  and is part of the acquiring section here.

Transactions and guards cannot be copied and are tracked by number. Owner
tokens, plan and piece handles and projection writers are plain values that any
operation may present, so the results also cover forged ones.

`step_effect` says once what each operation can do; every invariant is derived
from it.
-/

import PinchNPrint.Store.State
import PinchNPrint.Lib.Runs

namespace PinchNPrint.Preparation

open Std

variable {M : SceneModel}

/-! ### Authorities -/

/-- Weak readable plan authority. -/
structure PreparedPlanHandle where
  owner : PreparationOwner
deriving DecidableEq

/-- Weak readable piece authority with a captured length. -/
structure PreparedPieceHandle where
  owner : PreparationOwner
  id : Nat
  len : Nat
deriving DecidableEq

/-- Invocation-bound forwarding authority. -/
structure ProjectionWriter where
  owner : PreparationOwner
  callIdentity : Identity
deriving DecidableEq

/-- The invocation a thread is in. -/
structure ActivePreparationInvocation where
  owner : PreparationOwner
  callIdentity : Identity
deriving DecidableEq

/-- How far a transaction has come. -/
inductive Progress where
  | writing
  | validating (staged : List (String × Nat))
  | failing (error : PreparationFailure)
deriving DecidableEq

/-- A live `PreparationTransaction`. -/
structure PreparationTransaction where
  owner : PreparationOwner
  progress : Progress
deriving DecidableEq

/-- What a live `ReadGuard` protects: a whole call on one thread, with the
invocation it shadows, or one piece read. -/
inductive GuardScope where
  | call (thread : Nat) (previous : Option ActivePreparationInvocation)
  | pieceRead (id offset maxBytes : Nat)
deriving DecidableEq

/-- A live `ReadGuard`. -/
structure ReadGuard where
  owner : PreparationOwner
  scope : GuardScope
deriving DecidableEq

/-- The store and everything that refers to it. -/
structure World (M : SceneModel) where
  store : StoreState M
  transactions : BTreeMap Nat PreparationTransaction
  guards : BTreeMap Nat ReadGuard
  active : BTreeMap Nat ActivePreparationInvocation
  nextIdentity : Identity
  nextTransaction : Nat
  nextGuard : Nat

/-- A new store with no authority over it. -/
def World.initial (M : SceneModel) : World M where
  store := ⟨0, false, 0, ∅⟩
  transactions := ∅
  guards := ∅
  active := ∅
  nextIdentity := 0
  nextTransaction := 0
  nextGuard := 0

/-- One locked section of a store operation. -/
inductive Op (M : SceneModel) where
  | createOwner (binding : FrozenPreparationBinding)
  | begin (thread : Nat) (owner : PreparationOwner)
  | current (owner : PreparationOwner)
  | requestProjections (transaction : Nat) (views : List String) (layers : M.Schedule)
  | projectionWriter (transaction : Nat)
  | recordWriterFault (transaction : Nat) (error : TransportError)
  | put (transaction : Nat) (name : String) (bytes : List UInt8)
  | requestedViews (writer : ProjectionWriter)
  | publish (writer : ProjectionWriter) (scene : Scene M.Content)
  | finish (transaction : Nat) (result : Except PreparationFailure Unit)
  | validated (transaction : Nat) (verdict : Except PreparationFailure Unit)
  | dropTransaction (transaction : Nat)
  | projection (plan : PreparedPlanHandle) (view : String)
  | open (plan : PreparedPlanHandle) (name : String)
  | activeGuard (thread : Nat) (owner : PreparationOwner)
  | acquireRead (piece : PreparedPieceHandle) (offset maxBytes : Nat)
  | read (guard : Nat)
  | dropGuard (guard : Nat)
  | recordPrepareInvocation (owner : PreparationOwner)
  | disposeOwner (owner : PreparationOwner)
  | dispose

/-- What an operation answers. `returning` is a `finish` that has decided to
fail and still has to drop its transaction. -/
inductive Reply (M : SceneModel) where
  | done
  | owner (owner : PreparationOwner)
  | transaction (id : Nat)
  | plan (plan : PreparedPlanHandle)
  | piece (piece : Option PreparedPieceHandle)
  | bytes (bytes : List UInt8)
  | writer (writer : Option ProjectionWriter)
  | views (views : List String)
  | scene (scene : Option (Committed M))
  | guard (id : Nat)
  | staged (pieces : List (String × Nat))
  | returning
  | failure (error : PreparationFailure)
  | transport (error : TransportError)
  | projection (error : ProjectionError)
  | panic

/-! ### The operations -/

namespace World

/-- `current_call_identity` on a thread. -/
def currentCallIdentity (w : World M) (thread : Nat) (owner : PreparationOwner) :
    Option Identity :=
  match w.active[thread]? with
  | none => none
  | some active => if owner.sameOwner active.owner then some active.callIdentity else none

/-- The call identity `begin` gives its transaction: inherited, or a new one. -/
def beginIdentity (w : World M) (thread : Nat) (owner : PreparationOwner) : Identity :=
  (w.currentCallIdentity thread owner).getD w.nextIdentity

/-- Replace the store. -/
def withStore (w : World M) (store : StoreState M) : World M :=
  { w with store := store }

def begin (w : World M) (thread : Nat) (owner : PreparationOwner) : World M × Reply M :=
  match w.store.verify owner with
  | .error error => (w, .failure error)
  | .ok () =>
      match w.store.withEntry owner id (OwnerState.begin (w.beginIdentity thread owner)) with
      | (store, .error error) => (w.withStore store, .failure error)
      | (store, .ok ()) =>
          ({ w with
            store := store
            transactions := w.transactions.insert w.nextTransaction ⟨owner, .writing⟩
            nextIdentity := w.nextIdentity + 1
            nextTransaction := w.nextTransaction + 1 }, .transaction w.nextTransaction)

def current (w : World M) (owner : PreparationOwner) : Reply M :=
  match w.store.verify owner with
  | .error error => .failure error
  | .ok () =>
      match w.store.checkOwner owner with
      | .error error => .failure error
      | .ok entry =>
          if entry.metadata.ready then .plan ⟨owner⟩ else .failure (.transport .notReady)

def requestProjections (w : World M) (owner : PreparationOwner) (views : List String)
    (layers : M.Schedule) : World M × Reply M :=
  match w.store.withEntry owner id
      (OwnerState.requestProjections owner.declaredViews views layers) with
  | (store, .error error) => (w.withStore store, .failure error)
  | (store, .ok ()) => (w.withStore store, .done)

def projectionWriter (w : World M) (owner : PreparationOwner) : Reply M :=
  match w.store.checkOwner owner with
  | .error _ => .projection .accessDenied
  | .ok entry =>
      match entry.callIdentity with
      | none => .projection .accessDenied
      | some identity => .writer (entry.projection.map fun _ => ⟨owner, identity⟩)

def recordWriterFault (w : World M) (owner : PreparationOwner) (error : TransportError) :
    World M :=
  match w.store.checkOwner owner with
  | .error _ => w
  | .ok entry => w.withStore (w.store.set owner.id (entry.recordWriterFault error))

def put (w : World M) (owner : PreparationOwner) (name : String) (bytes : List UInt8) :
    World M × Reply M :=
  match w.store.withEntry owner (fun _ => .accessDenied) (OwnerState.put name bytes) with
  | (store, .error error) => (w.withStore store, .transport error)
  | (store, .ok ()) => (w.withStore store, .done)

/-- `with_entry` of a projection writer. -/
def withWriter {α : Type} (w : World M) (writer : ProjectionWriter)
    (operation : OwnerState M → Except ProjectionFault (OwnerState M × α)) (reply : α → Reply M) :
    World M × Reply M :=
  match w.store.withEntry writer.owner (fun _ => .accessDenied)
      (OwnerState.withWriter writer.callIdentity operation) with
  | (store, .error error) => (w.withStore store, .projection error)
  | (store, .ok value) => (w.withStore store, reply value)

/-- Note that the transaction's `finish` will return this error. -/
def failing (w : World M) (transaction : Nat) (owner : PreparationOwner)
    (error : PreparationFailure) : World M :=
  { w with transactions := w.transactions.insert transaction ⟨owner, .failing error⟩ }

/-- The `Drop` of an uncompleted transaction. -/
def dropTransaction (w : World M) (transaction : Nat) (owner : PreparationOwner) : World M :=
  let w := { w with transactions := w.transactions.erase transaction }
  match w.store.checkOwner owner with
  | .error _ => w
  | .ok entry => w.withStore (w.store.set owner.id (entry.clear .unready))

/-- The part of `finish` before the validator. A module error or trap returns at
once, so its only effect is the drop. -/
def finish (w : World M) (transaction : Nat) (owner : PreparationOwner)
    (result : Except PreparationFailure Unit) : World M × Reply M :=
  match result with
  | .error (.module detail) => (w.dropTransaction transaction owner, .failure (.module detail))
  | .error (.trap detail) => (w.dropTransaction transaction owner, .failure (.trap detail))
  | result =>
      match w.store.withEntry owner id OwnerState.finishCheck with
      | (store, .error error) => ((w.withStore store).failing transaction owner error, .returning)
      | (store, .ok staged) =>
          match result with
          | .error error => ((w.withStore store).failing transaction owner error, .returning)
          | .ok () =>
              ({ w with
                store := store
                transactions :=
                  w.transactions.insert transaction ⟨owner, .validating staged⟩ }, .staged staged)

/-- The part of `finish` after the validator. -/
def validated (w : World M) (transaction : Nat) (owner : PreparationOwner)
    (staged : List (String × Nat)) (verdict : Except PreparationFailure Unit) :
    World M × Reply M :=
  match verdict with
  | .error error => (w.failing transaction owner error, .returning)
  | .ok () =>
      match w.store.withEntry owner id (OwnerState.finishPublish staged) with
      | (store, .error error) => ((w.withStore store).failing transaction owner error, .returning)
      | (store, .ok ()) =>
          ({ w with
            store := store
            transactions := w.transactions.erase transaction }, .plan ⟨owner⟩)

/-- `PreparedPlanHandle::projection`. -/
def projection (w : World M) (plan : PreparedPlanHandle) (view : String) : Reply M :=
  match w.store.checkOwner plan.owner with
  | .error _ => .projection .accessDenied
  | .ok entry =>
      if entry.metadata.ready then .scene (entry.projection.bind fun staging => staging.scenes[view]?)
      else .projection .accessDenied

/-- `PreparedPlanHandle::open`. -/
def openPiece (w : World M) (plan : PreparedPlanHandle) (name : String) : Reply M :=
  match w.store.checkOwner plan.owner with
  | .error _ => .transport .accessDenied
  | .ok entry =>
      if entry.metadata.ready = false then .transport .notReady
      else if name = "" then .transport .invalidName
      else .piece ((entry.pieces[name]?).map fun piece => ⟨plan.owner, piece.id, piece.len⟩)

/-- Add a guard once its entry counts it. -/
def addGuard (w : World M) (store : StoreState M) (guard : ReadGuard) : World M :=
  { w with
    store := store
    guards := w.guards.insert w.nextGuard guard
    nextGuard := w.nextGuard + 1 }

/-- `ReadGuard::acquire` on a found entry. -/
def acquire (w : World M) (entry : OwnerState M) (guard : ReadGuard) :
    Except TransportError (World M) :=
  entry.acquire.map fun counted => w.addGuard (w.store.set guard.owner.id counted) guard

/-- `active_guard`: acquire, then bind a new invocation to the thread. -/
def activeGuard (w : World M) (thread : Nat) (owner : PreparationOwner) : World M × Reply M :=
  match w.store.checkOwner owner with
  | .error error => (w, .failure error)
  | .ok entry =>
      match w.acquire entry ⟨owner, .call thread w.active[thread]?⟩ with
      | .error error => (w, .failure (.transport error))
      | .ok acquired =>
          ({ acquired with
            active := acquired.active.insert thread ⟨owner, acquired.nextIdentity⟩
            nextIdentity := acquired.nextIdentity + 1 }, .guard w.nextGuard)

/-- The guard of a piece read. -/
def acquireRead (w : World M) (piece : PreparedPieceHandle) (offset maxBytes : Nat) :
    World M × Reply M :=
  match w.store.checkOwner piece.owner with
  | .error _ => (w, .transport .accessDenied)
  | .ok entry =>
      match w.acquire entry ⟨piece.owner, .pieceRead piece.id offset maxBytes⟩ with
      | .error error => (w, .transport error)
      | .ok acquired => (acquired, .guard w.nextGuard)

/-- A guarded piece read. -/
def read (w : World M) (owner : PreparationOwner) (id offset maxBytes : Nat) :
    World M × Reply M :=
  match w.store.checkOwner owner with
  | .error _ => (w, .transport .accessDenied)
  | .ok entry =>
      match entry.read id offset maxBytes with
      | .error error => (w, .transport error)
      | .ok (counted, bytes) => (w.withStore (w.store.set owner.id counted), .bytes bytes)

/-- Restore the invocation a whole-call guard shadowed. -/
def restore (w : World M) : GuardScope → BTreeMap Nat ActivePreparationInvocation
  | .pieceRead .. => w.active
  | .call thread none => w.active.erase thread
  | .call thread (some previous) => w.active.insert thread previous

/-- The `Drop` of a `ReadGuard`. -/
def dropGuard (w : World M) (guard : Nat) (held : ReadGuard) : World M × Reply M :=
  let w := { w with guards := w.guards.erase guard, active := w.restore held.scope }
  match w.store.release held.owner with
  | none => (w, .panic)
  | some store => (w.withStore store, .done)

/-- The reply of an operation without a value. -/
def answer (w : World M) (result : StoreState M × Except PreparationFailure Unit) :
    World M × Reply M :=
  match result with
  | (store, .error error) => (w.withStore store, .failure error)
  | (store, .ok ()) => (w.withStore store, .done)

def createOwner (w : World M) (binding : FrozenPreparationBinding) : World M × Reply M :=
  match w.store.createOwner binding with
  | (store, .error error) => (w.withStore store, .failure error)
  | (store, .ok owner) => (w.withStore store, .owner owner)

/-- One operation on a transaction that is still writing. -/
def writing (w : World M) (transaction : Nat)
    (operation : PreparationOwner → World M × Reply M) : Option (World M × Reply M) :=
  match w.transactions[transaction]? with
  | some ⟨owner, .writing⟩ => some (operation owner)
  | _ => none

/-- One step. An operation on a transaction or guard that is not live, or on a
transaction inside `finish`, cannot be issued. -/
def step (w : World M) : Op M → Option (World M × Reply M)
  | .createOwner binding => some (w.createOwner binding)
  | .begin thread owner => some (w.begin thread owner)
  | .current owner => some (w, w.current owner)
  | .requestProjections transaction views layers =>
      w.writing transaction fun owner => w.requestProjections owner views layers
  | .projectionWriter transaction =>
      w.writing transaction fun owner => (w, w.projectionWriter owner)
  | .recordWriterFault transaction error =>
      w.writing transaction fun owner => (w.recordWriterFault owner error, .done)
  | .put transaction name bytes => w.writing transaction fun owner => w.put owner name bytes
  | .requestedViews writer => some (w.withWriter writer OwnerState.requestedViews .views)
  | .publish writer scene =>
      some (w.withWriter writer (OwnerState.stageScene writer.owner.declaredViews scene)
        fun _ => .done)
  | .finish transaction result =>
      w.writing transaction fun owner => w.finish transaction owner result
  | .validated transaction verdict =>
      match w.transactions[transaction]? with
      | some ⟨owner, .validating staged⟩ => some (w.validated transaction owner staged verdict)
      | _ => none
  | .dropTransaction transaction =>
      match w.transactions[transaction]? with
      | none => none
      | some ⟨owner, .failing error⟩ => some (w.dropTransaction transaction owner, .failure error)
      | some ⟨owner, _⟩ => some (w.dropTransaction transaction owner, .done)
  | .projection plan view => some (w, w.projection plan view)
  | .open plan name => some (w, w.openPiece plan name)
  | .activeGuard thread owner => some (w.activeGuard thread owner)
  | .acquireRead piece offset maxBytes => some (w.acquireRead piece offset maxBytes)
  | .read guard =>
      match w.guards[guard]? with
      | some ⟨owner, .pieceRead id offset maxBytes⟩ => some (w.read owner id offset maxBytes)
      | _ => none
  | .dropGuard guard =>
      match w.guards[guard]? with
      | none => none
      | some held => some (w.dropGuard guard held)
  | .recordPrepareInvocation owner => some (w.answer (w.store.recordPrepareInvocation owner))
  | .disposeOwner owner => some (w.answer (w.store.disposeOwner owner))
  | .dispose => some (w.answer w.store.dispose)

end World

/-- The store and its authorities as a machine. -/
def machine (M : SceneModel) : Machine (World M) (Op M) (Reply M) where
  initial := World.initial M
  step := World.step

/-- Scenes without classes and primitives, which count their two names; the
smallest instance of the parameter. -/
def emptyScenes : SceneModel where
  Content := Unit
  Schedule := Unit
  validate scene _ _ :=
    if scene.sceneId = "" then .error ⟨scene.view, .invalidReference, "scene_id"⟩
    else if scene.view = "" then .error ⟨scene.view, .invalidReference, "view"⟩
    else .ok (scene.sceneId.utf8ByteSize + scene.view.utf8ByteSize)

end PinchNPrint.Preparation
