/-
What one step of the prepared-owner store can do.

`Effect` lists the outcomes of an operation with the guards under which each
happens; `step_effect` proves the list complete. Everything an operation can
answer without changing the world, its errors included, is the single outcome
`quiet`. Outcomes that rewrite one entry but leave its standing (artifact,
phase, readiness, call identity and guard count) alone share `SameStanding`, so
invariants about standing treat them together.
-/

import PinchNPrint.Store.World

namespace PinchNPrint.Preparation

open Std

variable {M : SceneModel}

/-! ### Looking an owner up -/

namespace StoreState

variable {state : StoreState M}

theorem checkOwner_ok_iff {owner : PreparationOwner} {entry : OwnerState M} :
    state.checkOwner owner = .ok entry ↔
      state.owners[owner.id]? = some entry ∧ entry.artifactIdentity = owner.artifactIdentity ∧
        state.disposed = false ∧ entry.metadata.phase ≠ .disposed := by
  unfold checkOwner
  cases hfound : state.owners[owner.id]? with
  | none => simp
  | some found =>
    by_cases hartifact : found.artifactIdentity = owner.artifactIdentity
    · by_cases hdisposed : state.disposed = true ∨ found.metadata.phase = .disposed
      · simp only [hartifact, hdisposed, ne_eq, not_true_eq_false, if_false, if_true, reduceCtorEq,
          Option.some.injEq, false_iff, not_and]
        rintro rfl _ hopen
        rcases hdisposed with h | h
        · exact absurd (h.symm.trans hopen) (by decide)
        · exact fun hphase => hphase h
      · simp only [hartifact, hdisposed, ne_eq, not_true_eq_false, if_false, Except.ok.injEq,
          Option.some.injEq]
        constructor
        · rintro rfl
          refine ⟨rfl, hartifact, ?_, fun h => hdisposed (Or.inr h)⟩
          cases hd : state.disposed with
          | false => rfl
          | true => exact absurd (Or.inl hd) hdisposed
        · rintro ⟨rfl, _⟩
          rfl
    · simp only [ne_eq, hartifact, not_false_eq_true, if_true, reduceCtorEq, Option.some.injEq,
        false_iff, not_and]
      rintro rfl h
      exact absurd h hartifact

@[simp] theorem owners_set (state : StoreState M) (id : Nat) (entry : OwnerState M) :
    (state.set id entry).owners = state.owners.insert id entry := rfl

/-- Writing an entry back unchanged changes nothing. -/
theorem set_self {id : Nat} {entry : OwnerState M} (h : state.owners[id]? = some entry) :
    state.set id entry = state := by
  have hinsert : state.owners.insert id entry = state.owners := by
    refine ExtTreeMap.ext_getElem? fun k => ?_
    by_cases hk : id = k
    · subst hk
      rw [ExtTreeMap.getElem?_insert_self, h]
    · exact BTreeMap.getElem?_insert_of_ne hk entry
  rw [set, hinsert]

theorem set_of_checkOwner {owner : PreparationOwner} {entry : OwnerState M}
    (h : state.checkOwner owner = .ok entry) : state.set owner.id entry = state :=
  set_self (checkOwner_ok_iff.mp h).1

theorem withEntry_cases {ε α : Type} {state' : StoreState M} {owner : PreparationOwner}
    {denied : PreparationFailure → ε} {operation : OwnerState M → OwnerState M × Except ε α}
    {result : Except ε α} (h : state.withEntry owner denied operation = (state', result)) :
    (∃ error, state' = state ∧ result = .error (denied error)) ∨
      ∃ entry, state.checkOwner owner = .ok entry ∧
        state' = state.set owner.id (operation entry).1 ∧ result = (operation entry).2 := by
  unfold withEntry at h
  cases hcheck : state.checkOwner owner with
  | error error =>
    rw [hcheck] at h
    cases h
    exact Or.inl ⟨error, rfl, rfl⟩
  | ok entry =>
    rw [hcheck] at h
    cases h
    exact Or.inr ⟨entry, rfl, rfl, rfl⟩

end StoreState

@[simp] theorem World.withStore_store (w : World M) : w.withStore w.store = w := rfl

/-! ### Outcomes -/

/-- The entry keeps its artifact and its place in the life cycle. -/
structure SamePhase (entry entry' : OwnerState M) : Prop where
  artifact : entry'.artifactIdentity = entry.artifactIdentity
  phase : entry'.metadata.phase = entry.metadata.phase

/-- The entry also keeps its authorities. -/
structure SameStanding (entry entry' : OwnerState M) : Prop extends SamePhase entry entry' where
  ready : entry'.metadata.ready = entry.metadata.ready
  identity : entry'.callIdentity = entry.callIdentity
  reads : entry'.activeReads = entry.activeReads

/-- What a writing transaction does to its entry. -/
inductive Staging (transaction : Nat) (owner : PreparationOwner) (entry : OwnerState M) :
    Op M → Reply M → OwnerState M → Prop
  | requested {views : List String} {layers : M.Schedule} {reply : Reply M} (hviews : views ≠ [])
      (hreply : reply = .done ∨ ∃ error, reply = .failure error) :
      Staging transaction owner entry (.requestProjections transaction views layers) reply
        (entry.requestProjections owner.declaredViews views layers).1
  | faulted {error : TransportError} :
      Staging transaction owner entry (.recordWriterFault transaction error) .done
        (entry.recordWriterFault error)
  | accepted {name : String} {bytes : List UInt8} {staged : OwnerState M}
      (hclean : entry.poisoned = false) (hstaged : entry.stagePiece name bytes = .ok staged) :
      Staging transaction owner entry (.put transaction name bytes) .done staged
  | refused {name : String} {bytes : List UInt8} {error : TransportError}
      (hclean : entry.poisoned = false) (hrefused : entry.stagePiece name bytes = .error error) :
      Staging transaction owner entry (.put transaction name bytes) (.transport error)
        { entry with writerFault := some error }

/-- What a projection writer does to the entry it is bound to. -/
inductive Forwarding (writer : ProjectionWriter) (entry : OwnerState M) :
    Op M → Reply M → OwnerState M → Prop
  | unrequested {fault : ProjectionFault} (h : entry.requestedViews = .error fault) :
      Forwarding writer entry (.requestedViews writer) (.projection fault.error)
        { entry with projectionFailure := some fault }
  | refused {scene : Scene M.Content} {fault : ProjectionFault}
      (h : entry.stageScene writer.owner.declaredViews scene = .error fault) :
      Forwarding writer entry (.publish writer scene) (.projection fault.error)
        { entry with projectionFailure := some fault }
  | accepted {scene : Scene M.Content} {staged : OwnerState M}
      (h : entry.stageScene writer.owner.declaredViews scene = .ok (staged, ())) :
      Forwarding writer entry (.publish writer scene) .done staged

/-- Replies that report a change, so that a step that changes nothing never
gives one of them. -/
def Reply.reportsChange : Op M → Reply M → Bool
  | .createOwner _, .owner _ => true
  | .begin .., .transaction _ => true
  | .put .., .done => true
  | .publish .., .done => true
  | .validated .., .plan _ => true
  | .activeGuard .., .guard _ => true
  | .acquireRead .., .guard _ => true
  | .read _, .bytes _ => true
  | .disposeOwner _, .done => true
  | .dispose, .done => true
  | _, _ => false

/-- The operation ends the transaction without publishing it. -/
inductive Ends (transaction : Nat) : Op M → Prop
  | dropped : Ends transaction (.dropTransaction transaction)
  | failed {error : PreparationFailure} : Ends transaction (.finish transaction (.error error))

/-- The outcomes of an operation. -/
inductive Effect (w : World M) : Op M → Reply M → World M → Prop
  | quiet {op : Op M} {reply : Reply M} (hreply : reply.reportsChange op = false) :
      Effect w op reply w
  | created {binding : FrozenPreparationBinding} (hopen : w.store.disposed = false)
      (hroom : w.store.nextOwner + 1 < 2 ^ 64) :
      Effect w (.createOwner binding)
        (.owner ⟨w.store.identity, w.store.nextOwner, binding.artifactIdentity, binding.views⟩)
        (w.withStore { w.store with
          owners := w.store.owners.insert w.store.nextOwner (OwnerState.new binding)
          nextOwner := w.store.nextOwner + 1 })
  | began {thread : Nat} {owner : PreparationOwner} {entry : OwnerState M}
      (hown : owner.store = w.store.identity) (hfound : w.store.checkOwner owner = .ok entry)
      (hphase : entry.metadata.phase = .unready) :
      Effect w (.begin thread owner) (.transaction w.nextTransaction)
        { w with
          store := w.store.set owner.id (entry.begin (w.beginIdentity thread owner)).1
          transactions := w.transactions.insert w.nextTransaction ⟨owner, .writing⟩
          nextIdentity := w.nextIdentity + 1
          nextTransaction := w.nextTransaction + 1 }
  | staged {op : Op M} {reply : Reply M} {transaction : Nat} {owner : PreparationOwner}
      {entry entry' : OwnerState M}
      (hlive : w.transactions[transaction]? = some ⟨owner, .writing⟩)
      (hfound : w.store.checkOwner owner = .ok entry)
      (hchange : Staging transaction owner entry op reply entry') :
      Effect w op reply (w.withStore (w.store.set owner.id entry'))
  | forwarded {op : Op M} {reply : Reply M} {writer : ProjectionWriter}
      {entry entry' : OwnerState M} (hfound : w.store.checkOwner writer.owner = .ok entry)
      (hidentity : entry.callIdentity = some writer.callIdentity)
      (hphase : entry.metadata.phase = .staging) (hclean : entry.poisoned = false)
      (hchange : Forwarding writer entry op reply entry') :
      Effect w op reply (w.withStore (w.store.set writer.owner.id entry'))
  | finishFailed {transaction : Nat} {owner : PreparationOwner}
      {result : Except PreparationFailure Unit} {entry : OwnerState M} {error : PreparationFailure}
      (hlive : w.transactions[transaction]? = some ⟨owner, .writing⟩)
      (hfound : w.store.checkOwner owner = .ok entry) :
      Effect w (.finish transaction result) .returning
        ((w.withStore (w.store.set owner.id entry.finishCheck.1)).failing transaction owner error)
  | validating {transaction : Nat} {owner : PreparationOwner} {entry : OwnerState M}
      (hlive : w.transactions[transaction]? = some ⟨owner, .writing⟩)
      (hfound : w.store.checkOwner owner = .ok entry)
      (hcheck : entry.finishCheck = (entry, .ok entry.description)) :
      Effect w (.finish transaction (.ok ())) (.staged entry.description)
        { w with
          transactions := w.transactions.insert transaction ⟨owner, .validating entry.description⟩ }
  | finishDenied {transaction : Nat} {owner : PreparationOwner} {op : Op M}
      {progress : Progress} {error : PreparationFailure}
      (hlive : w.transactions[transaction]? = some ⟨owner, progress⟩)
      (hop : (∃ result, op = .finish transaction result) ∨
        ∃ verdict, op = .validated transaction verdict)
      (hactive : ∀ error, progress ≠ .failing error) :
      Effect w op .returning (w.failing transaction owner error)
  | publishFailed {transaction : Nat} {owner : PreparationOwner} {staged : List (String × Nat)}
      {entry : OwnerState M} {error : PreparationFailure}
      (hlive : w.transactions[transaction]? = some ⟨owner, .validating staged⟩)
      (hfound : w.store.checkOwner owner = .ok entry)
      (hfailed : (entry.finishPublish staged).2 = .error error) :
      Effect w (.validated transaction (.ok ())) .returning
        ((w.withStore (w.store.set owner.id (entry.finishPublish staged).1)).failing transaction
          owner error)
  | published {transaction : Nat} {owner : PreparationOwner} {staged : List (String × Nat)}
      {entry ready : OwnerState M}
      (hlive : w.transactions[transaction]? = some ⟨owner, .validating staged⟩)
      (hfound : w.store.checkOwner owner = .ok entry)
      (hpublish : entry.finishPublish staged = (ready, .ok ())) :
      Effect w (.validated transaction (.ok ())) (.plan ⟨owner⟩)
        { w with
          store := w.store.set owner.id ready
          transactions := w.transactions.erase transaction }
  | ended {op : Op M} {reply : Reply M} {transaction : Nat} {tx : PreparationTransaction}
      (hlive : w.transactions[transaction]? = some tx) (hends : Ends transaction op) :
      Effect w op reply (w.dropTransaction transaction tx.owner)
  | guarded {thread : Nat} {owner : PreparationOwner} {entry : OwnerState M}
      (hfound : w.store.checkOwner owner = .ok entry) (hroom : entry.activeReads + 1 < 2 ^ 64) :
      Effect w (.activeGuard thread owner) (.guard w.nextGuard)
        { w.addGuard (w.store.set owner.id { entry with activeReads := entry.activeReads + 1 })
            ⟨owner, .call thread w.active[thread]?⟩ with
          active := w.active.insert thread ⟨owner, w.nextIdentity⟩
          nextIdentity := w.nextIdentity + 1 }
  | reading {piece : PreparedPieceHandle} {offset maxBytes : Nat} {entry : OwnerState M}
      (hfound : w.store.checkOwner piece.owner = .ok entry)
      (hroom : entry.activeReads + 1 < 2 ^ 64) :
      Effect w (.acquireRead piece offset maxBytes) (.guard w.nextGuard)
        (w.addGuard (w.store.set piece.owner.id { entry with activeReads := entry.activeReads + 1 })
          ⟨piece.owner, .pieceRead piece.id offset maxBytes⟩)
  | read {guard id offset maxBytes : Nat} {owner : PreparationOwner}
      {entry entry' : OwnerState M} {bytes : List UInt8}
      (hlive : w.guards[guard]? = some ⟨owner, .pieceRead id offset maxBytes⟩)
      (hfound : w.store.checkOwner owner = .ok entry)
      (hread : entry.read id offset maxBytes = .ok (entry', bytes)) :
      Effect w (.read guard) (.bytes bytes) (w.withStore (w.store.set owner.id entry'))
  | released {guard : Nat} {held : ReadGuard} (hlive : w.guards[guard]? = some held) :
      Effect w (.dropGuard guard) (w.dropGuard guard held).2 (w.dropGuard guard held).1
  | invoked {owner : PreparationOwner} {entry : OwnerState M}
      (hfound : w.store.owners[owner.id]? = some entry)
      (hroom : entry.metadata.prepareInvocations + 1 < 2 ^ 64) :
      Effect w (.recordPrepareInvocation owner) .done
        (w.withStore (w.store.set owner.id { entry with metadata := { entry.metadata with
          prepareInvocations := entry.metadata.prepareInvocations + 1 } }))
  | ownerDisposed {owner : PreparationOwner} {entry : OwnerState M}
      (hfound : w.store.checkOwner owner = .ok entry) (hidle : entry.busy = false) :
      Effect w (.disposeOwner owner) .done
        (w.withStore (w.store.set owner.id (entry.clear .disposed)))
  | storeDisposed (hidle : ∀ (k : Nat) (entry : OwnerState M), w.store.owners[k]? = some entry →
      entry.busy = false) :
      Effect w .dispose .done
        (w.withStore { w.store with
          owners := w.store.owners.map fun _ entry => entry.clear .disposed
          disposed := true })

/-! ### Arithmetic and accounting on one entry -/

private theorem ite_eq_ok_iff {ε α : Type} {p : Prop} [Decidable p] {value result : α} {error : ε} :
    (if p then Except.ok value else .error error) = .ok result ↔ p ∧ result = value := by
  by_cases h : p
  · rw [if_pos h, Except.ok.injEq]
    exact ⟨fun heq => ⟨h, heq.symm⟩, fun heq => heq.2.symm⟩
  · rw [if_neg h]
    exact ⟨fun heq => (by cases heq), fun heq => absurd heq.1 h⟩

theorem add_eq_ok_iff {a b c : Nat} : add a b = .ok c ↔ a + b < 2 ^ 64 ∧ c = a + b :=
  ite_eq_ok_iff

theorem checkedAdd_eq_ok_iff {a b c : Nat} :
    checkedAdd a b = .ok c ↔ a + b < 2 ^ 64 ∧ c = a + b :=
  ite_eq_ok_iff

theorem count_eq_ok_iff {n m : Nat} : count n = .ok m ↔ n < 2 ^ 64 ∧ m = n :=
  ite_eq_ok_iff

theorem OwnerState.acquire_eq_ok_iff {entry entry' : OwnerState M} :
    entry.acquire = .ok entry' ↔ entry.activeReads + 1 < 2 ^ 64 ∧
      entry' = { entry with activeReads := entry.activeReads + 1 } := by
  unfold acquire
  cases hadd : add entry.activeReads 1 with
  | error error =>
    simp only [bind, Except.bind, reduceCtorEq, false_iff, not_and]
    intro hroom
    rw [add_eq_ok_iff.mpr ⟨hroom, rfl⟩] at hadd
    cases hadd
  | ok reads =>
    obtain ⟨hroom, rfl⟩ := add_eq_ok_iff.mp hadd
    simp only [bind, Except.bind, pure, Except.pure, Except.ok.injEq, hroom, true_and]
    exact eq_comm

/-- A check that passes found no fault and changed nothing. -/
theorem OwnerState.finishCheck_of_ok {entry : OwnerState M} {staged : List (String × Nat)}
    (h : entry.finishCheck.2 = .ok staged) :
    entry.finishCheck = (entry, .ok entry.description) ∧ entry.writerFault = none ∧
      entry.finishFault = none := by
  unfold finishCheck at h ⊢
  cases hwriter : entry.writerFault with
  | some error => simp [hwriter] at h
  | none =>
    cases hfault : entry.finishFault with
    | some fault => simp [hwriter, hfault] at h
    | none => simp

namespace OwnerState

variable {entry : OwnerState M}

/-- Publication needs a clean entry whose diagnostic bytes can be retained. -/
theorem finishPublish_eq_ok {ready : OwnerState M} {staged : List (String × Nat)}
    (h : entry.finishPublish staged = (ready, .ok ())) :
    entry.poisoned = false ∧
      entry.diagnostics.retainedBytes + entry.diagnostics.stagedBytes < 2 ^ 64 ∧
      ready = { entry with
        diagnostics := { entry.diagnostics with
          retainedBytes := entry.diagnostics.retainedBytes + entry.diagnostics.stagedBytes
          stagedBytes := 0 }
        callIdentity := none
        metadata := { entry.metadata with
          pieces := staged
          retainedPayloadBytes := entry.metadata.stagedPayloadBytes
          retainedNameBytes := entry.metadata.stagedNameBytes
          stagedPayloadBytes := 0
          stagedNameBytes := 0
          phase := .ready
          ready := true } } := by
  unfold finishPublish at h
  cases hwriter : entry.writerFault with
  | some error => simp [hwriter] at h
  | none =>
    cases hfault : entry.projectionFailure with
    | some fault => simp [hwriter, hfault] at h
    | none =>
      cases hadd : checkedAdd entry.diagnostics.retainedBytes entry.diagnostics.stagedBytes with
      | error error => simp [hwriter, hfault, hadd] at h
      | ok retained =>
        obtain ⟨hroom, rfl⟩ := checkedAdd_eq_ok_iff.mp hadd
        simp only [hwriter, hfault, hadd] at h
        cases h
        exact ⟨by simp [poisoned, hwriter, hfault], hroom, rfl⟩

/-- A refused publication changes at most the recorded failure. -/
theorem finishPublish_of_error {staged : List (String × Nat)} {error : PreparationFailure}
    (h : (entry.finishPublish staged).2 = .error error) :
    (entry.finishPublish staged).1 = entry ∨ ∃ fault,
      (entry.finishPublish staged).1 = { entry with projectionFailure := some fault } := by
  unfold finishPublish at h ⊢
  cases hwriter : entry.writerFault with
  | some writerError => exact Or.inl rfl
  | none =>
    cases hfault : entry.projectionFailure with
    | some fault => exact Or.inl rfl
    | none =>
      cases hadd : checkedAdd entry.diagnostics.retainedBytes entry.diagnostics.stagedBytes with
      | error overflow => exact Or.inr ⟨_, rfl⟩
      | ok retained => simp [hwriter, hfault, hadd] at h

/-- A piece is accepted under a new nonempty name when no counter overflows. -/
theorem stagePiece_eq_ok {staged : OwnerState M} {name : String} {bytes : List UInt8}
    (h : entry.stagePiece name bytes = .ok staged) :
    name ≠ "" ∧ entry.pieces[name]? = none ∧ entry.pieces.size < 2 ^ 64 ∧
      entry.metadata.stagedPayloadBytes + bytes.length < 2 ^ 64 ∧
      entry.metadata.stagedNameBytes + name.utf8ByteSize < 2 ^ 64 ∧
      entry.metadata.putCalls + 1 < 2 ^ 64 ∧
      staged = { entry with
        pieces := entry.pieces.insert name ⟨entry.pieces.size, bytes, bytes.length⟩
        metadata := { entry.metadata with
          stagedPayloadBytes := entry.metadata.stagedPayloadBytes + bytes.length
          stagedNameBytes := entry.metadata.stagedNameBytes + name.utf8ByteSize
          putCalls := entry.metadata.putCalls + 1 } } := by
  unfold stagePiece at h
  split at h
  · cases h
  · rename_i hname
    split at h
    · cases h
    · rename_i hnew
      obtain ⟨len, hlen, h⟩ := Except.of_bind_eq_ok h
      obtain ⟨nameLen, hnameLen, h⟩ := Except.of_bind_eq_ok h
      obtain ⟨id, hid, h⟩ := Except.of_bind_eq_ok h
      obtain ⟨payload, hpayload, h⟩ := Except.of_bind_eq_ok h
      obtain ⟨names, hnames, h⟩ := Except.of_bind_eq_ok h
      obtain ⟨calls, hcalls, h⟩ := Except.of_bind_eq_ok h
      obtain ⟨_, rfl⟩ := count_eq_ok_iff.mp hlen
      obtain ⟨_, rfl⟩ := count_eq_ok_iff.mp hnameLen
      obtain ⟨hidRoom, rfl⟩ := count_eq_ok_iff.mp hid
      obtain ⟨hpayloadRoom, rfl⟩ := add_eq_ok_iff.mp hpayload
      obtain ⟨hnamesRoom, rfl⟩ := add_eq_ok_iff.mp hnames
      obtain ⟨hcallsRoom, rfl⟩ := add_eq_ok_iff.mp hcalls
      cases h
      have hnone : entry.pieces[name]? = none := by
        by_contra hsome
        obtain ⟨piece, hpiece⟩ := Option.ne_none_iff_exists'.mp hsome
        exact hnew (BTreeMap.mem_iff_getElem?_isSome.mpr ⟨piece, hpiece⟩)
      exact ⟨hname, hnone, hidRoom, hpayloadRoom, hnamesRoom, hcallsRoom, rfl⟩

/-- A scene is accepted for a requested view that has none yet. -/
theorem stageScene_eq_ok {staged : OwnerState M} {declaredViews : List String}
    {scene : Scene M.Content} (h : entry.stageScene declaredViews scene = .ok (staged, ())) :
    ∃ projection committed, entry.projection = some projection ∧
      validateScene scene entry.metadata.moduleId projection.layers = .ok committed ∧
      projection.scenes[scene.view]? = none ∧
      entry.diagnostics.stagedBytes + committed.diagnosticBytes < 2 ^ 64 ∧
      entry.diagnostics.publishedScenes + 1 < 2 ^ 64 ∧
      staged = { entry with
        projection := some { projection with
          scenes := projection.scenes.insert scene.view committed }
        diagnostics := { entry.diagnostics with
          stagedBytes := entry.diagnostics.stagedBytes + committed.diagnosticBytes
          publishedScenes := entry.diagnostics.publishedScenes + 1 } } := by
  unfold stageScene at h
  cases hprojection : entry.projection with
  | none => simp [hprojection] at h
  | some projection =>
    simp only [hprojection] at h
    split at h
    · cases h
    split at h
    · cases h
    split at h
    · cases h
    split at h
    · cases h
    rename_i hnew
    split at h
    · cases h
    obtain ⟨committed, hvalid, h⟩ := Except.of_bind_eq_ok h
    obtain ⟨staged', hstaged, h⟩ := Except.of_bind_eq_ok h
    obtain ⟨published, hpublished, h⟩ := Except.of_bind_eq_ok h
    have hok : ∀ {x : Except ProjectionError Nat} {field : String} {n : Nat},
        x.mapError (sceneFault scene · field) = .ok n → x = .ok n := by
      intro x field n hx
      cases x with
      | error error => cases hx
      | ok value => exact congrArg _ (Except.ok.inj hx)
    obtain ⟨hbytesRoom, rfl⟩ := checkedAdd_eq_ok_iff.mp (hok hstaged)
    obtain ⟨hscenesRoom, rfl⟩ := checkedAdd_eq_ok_iff.mp (hok hpublished)
    cases h
    have hnone : projection.scenes[scene.view]? = none := by
      by_contra hsome
      obtain ⟨other, hother⟩ := Option.ne_none_iff_exists'.mp hsome
      exact hnew (BTreeMap.mem_iff_getElem?_isSome.mpr ⟨other, hother⟩)
    exact ⟨projection, committed, rfl, hvalid, hnone, hbytesRoom, hscenesRoom, rfl⟩

/-- The published piece with this number. -/
def pieceWithId (entry : OwnerState M) (id : Nat) : Option Piece :=
  (BTreeMap.vals entry.pieces).find? fun piece => piece.id == id

theorem read_eq_ok {entry' : OwnerState M} {id offset maxBytes : Nat} {bytes : List UInt8}
    (h : entry.read id offset maxBytes = .ok (entry', bytes)) :
    entry.metadata.ready = true ∧ ∃ piece, entry.pieceWithId id = some piece ∧
      offset ≤ piece.len ∧
      bytes = piece.bytes.extract offset (offset + min maxBytes (piece.len - offset)) ∧
      entry.metadata.readCalls + 1 < 2 ^ 64 ∧
      entry.metadata.requestedReadBytes + maxBytes < 2 ^ 64 ∧
      entry.metadata.returnedReadBytes + min maxBytes (piece.len - offset) < 2 ^ 64 ∧
      entry' = { entry with metadata := { entry.metadata with
        readCalls := entry.metadata.readCalls + 1
        requestedReadBytes := entry.metadata.requestedReadBytes + maxBytes
        returnedReadBytes :=
          entry.metadata.returnedReadBytes + min maxBytes (piece.len - offset) } } := by
  unfold read at h
  split at h
  · cases h
  rename_i hready
  split at h
  · cases h
  rename_i piece hpiece
  split at h
  · cases h
  rename_i hoffset
  obtain ⟨take, htake, h⟩ := Except.of_bind_eq_ok h
  obtain ⟨start, hstart, h⟩ := Except.of_bind_eq_ok h
  obtain ⟨stop, hstop, h⟩ := Except.of_bind_eq_ok h
  obtain ⟨bounded, hbounded, h⟩ := Except.of_bind_eq_ok h
  obtain ⟨calls, hcalls, h⟩ := Except.of_bind_eq_ok h
  obtain ⟨requested, hrequested, h⟩ := Except.of_bind_eq_ok h
  obtain ⟨returned, hreturned, h⟩ := Except.of_bind_eq_ok h
  obtain ⟨_, rfl⟩ := count_eq_ok_iff.mp htake
  obtain ⟨_, hstartEq⟩ := count_eq_ok_iff.mp hstart
  rw [hstartEq] at hstop hbounded
  obtain ⟨_, rfl⟩ := add_eq_ok_iff.mp hstop
  obtain ⟨hcallsRoom, rfl⟩ := add_eq_ok_iff.mp hcalls
  obtain ⟨hrequestedRoom, rfl⟩ := add_eq_ok_iff.mp hrequested
  obtain ⟨hreturnedRoom, rfl⟩ := add_eq_ok_iff.mp hreturned
  cases h
  have hslice : bytes = piece.bytes.extract offset (offset + min maxBytes (piece.len - offset)) :=
    (ite_eq_ok_iff.mp hbounded).2
  exact ⟨by simpa using hready, piece, hpiece, Nat.le_of_not_lt hoffset, hslice, hcallsRoom,
    hrequestedRoom, hreturnedRoom, rfl⟩

end OwnerState

/-! ### Every step has one of the outcomes -/

namespace World

variable {w w' : World M} {reply : Reply M}

theorem createOwner_effect {binding : FrozenPreparationBinding}
    (h : w.createOwner binding = (w', reply)) : Effect w (.createOwner binding) reply w' := by
  unfold createOwner StoreState.createOwner at h
  split at h
  · rename_i hcreate
    split at hcreate
    · cases hcreate
      cases h
      exact .quiet rfl
    · split at hcreate
      · cases hcreate
        cases h
        exact .quiet rfl
      · cases hcreate
  · rename_i hcreate
    split at hcreate
    · cases hcreate
    · rename_i hopen
      split at hcreate
      · cases hcreate
      · rename_i next hnext
        obtain ⟨hroom, rfl⟩ := add_eq_ok_iff.mp hnext
        cases hcreate
        cases h
        exact .created (by simpa using hopen) hroom

variable {owner : PreparationOwner} {transaction : Nat} {writer : ProjectionWriter}

theorem begin_effect {thread : Nat} (h : w.begin thread owner = (w', reply)) :
    Effect w (.begin thread owner) reply w' := by
  unfold begin at h
  cases hverify : w.store.verify owner with
  | error error =>
    rw [hverify] at h
    cases h
    exact .quiet rfl
  | ok =>
    have hown : owner.store = w.store.identity := by
      by_contra hne
      simp [StoreState.verify, hne] at hverify
    rw [hverify] at h
    simp only at h
    split at h <;> rename_i store outcome hentry <;>
      rcases StoreState.withEntry_cases hentry with ⟨error', rfl, hresult⟩ | ⟨entry, hfound, rfl, hresult⟩
    · cases h
      exact .quiet rfl
    · by_cases hphase : entry.metadata.phase = .unready
      · simp [OwnerState.begin, hphase] at hresult
      · have hsame : (OwnerState.begin (w.beginIdentity thread owner) entry).1 = entry := by
          simp [OwnerState.begin, hphase]
        rw [hsame, StoreState.set_of_checkOwner hfound] at h
        cases h
        exact .quiet rfl
    · cases hresult
    · by_cases hphase : entry.metadata.phase = .unready
      · cases h
        exact .began hown hfound hphase
      · simp [OwnerState.begin, hphase] at hresult

theorem requestProjections_effect {views : List String} {layers : M.Schedule}
    (hlive : w.transactions[transaction]? = some ⟨owner, .writing⟩)
    (h : w.requestProjections owner views layers = (w', reply)) :
    Effect w (.requestProjections transaction views layers) reply w' := by
  unfold requestProjections at h
  have hviews : ∀ entry, views = [] →
      (OwnerState.requestProjections owner.declaredViews views layers entry).1 = entry := by
    rintro entry rfl
    rfl
  split at h <;> rename_i store outcome hentry <;>
    rcases StoreState.withEntry_cases hentry with ⟨error', rfl, hresult⟩ | ⟨entry, hfound, rfl, hresult⟩
  · cases h
    exact .quiet rfl
  · cases h
    by_cases hnil : views = []
    · rw [hviews entry hnil, StoreState.set_of_checkOwner hfound]
      exact .quiet rfl
    · exact .staged hlive hfound (.requested hnil (Or.inr ⟨_, rfl⟩))
  · cases hresult
  · cases h
    by_cases hnil : views = []
    · rw [hviews entry hnil, StoreState.set_of_checkOwner hfound]
      exact .quiet rfl
    · exact .staged hlive hfound (.requested hnil (Or.inl rfl))

theorem recordWriterFault_effect {error : TransportError}
    (hlive : w.transactions[transaction]? = some ⟨owner, .writing⟩) :
    Effect w (.recordWriterFault transaction error) .done (w.recordWriterFault owner error) := by
  unfold recordWriterFault
  cases hfound : w.store.checkOwner owner with
  | error denied => exact .quiet rfl
  | ok entry => exact .staged hlive hfound .faulted

theorem put_effect {name : String} {bytes : List UInt8}
    (hlive : w.transactions[transaction]? = some ⟨owner, .writing⟩)
    (h : w.put owner name bytes = (w', reply)) :
    Effect w (.put transaction name bytes) reply w' := by
  unfold put at h
  split at h <;> rename_i store outcome hentry <;>
    rcases StoreState.withEntry_cases hentry with ⟨error', rfl, hresult⟩ | ⟨entry, hfound, rfl, hresult⟩
  · cases h
    exact .quiet rfl
  · by_cases hclean : entry.poisoned = true
    · have hput : entry.put name bytes = (entry, .error .poisonedOutput) := if_pos hclean
      rw [hput, StoreState.set_of_checkOwner hfound] at h
      cases h
      exact .quiet rfl
    · cases hstage : entry.stagePiece name bytes with
      | ok staged => simp [OwnerState.put, hclean, hstage] at hresult
      | error error =>
        have hput : entry.put name bytes = ({ entry with writerFault := some error }, .error error) := by
          simp [OwnerState.put, hclean, hstage]
        rw [hput] at hresult h
        cases hresult
        cases h
        exact .staged hlive hfound (.refused (by simpa using hclean) hstage)
  · cases hresult
  · by_cases hclean : entry.poisoned = true
    · simp [OwnerState.put, hclean] at hresult
    · cases hstage : entry.stagePiece name bytes with
      | error error => simp [OwnerState.put, hclean, hstage] at hresult
      | ok staged =>
        have hput : entry.put name bytes = (staged, .ok ()) := by
          simp [OwnerState.put, hclean, hstage]
        rw [hput] at h
        cases h
        exact .staged hlive hfound (.accepted (by simpa using hclean) hstage)

/-- A writer's operation is denied, poisoned, rejected and recorded, or done. -/
theorem withWriter_cases {α : Type}
    {operation : OwnerState M → Except ProjectionFault (OwnerState M × α)} {answer : α → Reply M}
    (h : w.withWriter writer operation answer = (w', reply)) :
    (w' = w ∧ (reply = .projection .accessDenied ∨ reply = .projection .poisonedOutput)) ∨
      ∃ entry, w.store.checkOwner writer.owner = .ok entry ∧
        entry.callIdentity = some writer.callIdentity ∧ entry.metadata.phase = .staging ∧
        entry.poisoned = false ∧
        ((∃ fault, operation entry = .error fault ∧ reply = .projection fault.error ∧
            w' = w.withStore (w.store.set writer.owner.id
              { entry with projectionFailure := some fault })) ∨
          ∃ staged value, operation entry = .ok (staged, value) ∧ reply = answer value ∧
            w' = w.withStore (w.store.set writer.owner.id staged)) := by
  unfold withWriter at h
  generalize hentry : w.store.withEntry writer.owner (fun _ => ProjectionError.accessDenied)
    (OwnerState.withWriter writer.callIdentity operation) = outcome at h
  obtain ⟨store, result⟩ := outcome
  rcases StoreState.withEntry_cases hentry with ⟨_, rfl, rfl⟩ | ⟨entry, hfound, rfl, rfl⟩
  · cases h
    exact Or.inl ⟨rfl, Or.inl rfl⟩
  · have hself := StoreState.set_of_checkOwner hfound
    by_cases hauth : entry.callIdentity ≠ some writer.callIdentity ∨ entry.metadata.phase ≠ .staging
    · have heq : OwnerState.withWriter writer.callIdentity operation entry =
          (entry, .error .accessDenied) := if_pos hauth
      rw [heq, hself] at h
      cases h
      exact Or.inl ⟨rfl, Or.inl rfl⟩
    · push Not at hauth
      by_cases hclean : entry.poisoned = true
      · have heq : OwnerState.withWriter writer.callIdentity operation entry =
            (entry, .error .poisonedOutput) := by
          simp [OwnerState.withWriter, hauth, hclean]
        rw [heq, hself] at h
        cases h
        exact Or.inl ⟨rfl, Or.inr rfl⟩
      · refine Or.inr ⟨entry, hfound, hauth.1, hauth.2, by simpa using hclean, ?_⟩
        cases hop : operation entry with
        | error fault =>
          have heq : OwnerState.withWriter writer.callIdentity operation entry =
              ({ entry with projectionFailure := some fault }, .error fault.error) := by
            simp [OwnerState.withWriter, hauth, hclean, hop]
          rw [heq] at h
          cases h
          exact Or.inl ⟨fault, rfl, rfl, rfl⟩
        | ok outcome =>
          obtain ⟨staged, value⟩ := outcome
          have heq : OwnerState.withWriter writer.callIdentity operation entry =
              (staged, .ok value) := by
            simp [OwnerState.withWriter, hauth, hclean, hop]
          rw [heq] at h
          cases h
          exact Or.inr ⟨staged, value, rfl, rfl, rfl⟩

theorem requestedViews_effect
    (h : w.withWriter writer OwnerState.requestedViews .views = (w', reply)) :
    Effect w (.requestedViews writer) reply w' := by
  rcases withWriter_cases h with ⟨rfl, _⟩ | ⟨entry, hfound, hid, hphase, hclean, hdone⟩
  · exact .quiet (by cases reply <;> rfl)
  · rcases hdone with ⟨fault, hop, rfl, rfl⟩ | ⟨staged, value, hop, rfl, rfl⟩
    · exact .forwarded hfound hid hphase hclean (.unrequested hop)
    · have hsame : staged = entry := by
        unfold OwnerState.requestedViews at hop
        split at hop <;> cases hop
        rfl
      rw [hsame, StoreState.set_of_checkOwner hfound]
      exact .quiet rfl

theorem publish_effect {scene : Scene M.Content}
    (h : w.withWriter writer (OwnerState.stageScene writer.owner.declaredViews scene)
      (fun _ => .done) = (w', reply)) : Effect w (.publish writer scene) reply w' := by
  rcases withWriter_cases h with ⟨rfl, hdenied⟩ | ⟨entry, hfound, hid, hphase, hclean, hdone⟩
  · rcases hdenied with rfl | rfl
    · exact .quiet rfl
    · exact .quiet rfl
  · rcases hdone with ⟨fault, hop, rfl, rfl⟩ | ⟨staged, value, hop, rfl, rfl⟩
    · exact .forwarded hfound hid hphase hclean (.refused hop)
    · exact .forwarded hfound hid hphase hclean (.accepted hop)

/-- `finish` after the early return for module errors and traps. -/
theorem finish_effect {result : Except PreparationFailure Unit}
    (hlive : w.transactions[transaction]? = some ⟨owner, .writing⟩)
    (h : w.finish transaction owner result = (w', reply)) :
    Effect w (.finish transaction result) reply w' := by
  unfold finish at h
  split at h
  · cases h
    exact .ended hlive .failed
  · cases h
    exact .ended hlive .failed
  · split at h <;> rename_i store outcome hentry <;>
      rcases StoreState.withEntry_cases hentry with ⟨error', rfl, hresult⟩ | ⟨entry, hfound, rfl, hresult⟩
    · cases h
      exact .finishDenied hlive (Or.inl ⟨_, rfl⟩) fun _ h => by cases h
    · cases h
      exact .finishFailed hlive hfound
    · cases hresult
    · obtain ⟨hcheck, _⟩ := OwnerState.finishCheck_of_ok hresult.symm
      rw [hcheck, StoreState.set_of_checkOwner hfound] at h
      rw [hcheck] at hresult
      cases hresult
      split at h <;> cases h
      · exact .finishDenied hlive (Or.inl ⟨_, rfl⟩) fun _ h => by cases h
      · exact .validating hlive hfound hcheck

theorem validated_effect {staged : List (String × Nat)} {verdict : Except PreparationFailure Unit}
    (hlive : w.transactions[transaction]? = some ⟨owner, .validating staged⟩)
    (h : w.validated transaction owner staged verdict = (w', reply)) :
    Effect w (.validated transaction verdict) reply w' := by
  unfold validated at h
  split at h
  · cases h
    exact .finishDenied hlive (Or.inr ⟨_, rfl⟩) fun _ h => by cases h
  · split at h <;> rename_i store outcome hentry <;>
      rcases StoreState.withEntry_cases hentry with ⟨error', rfl, hresult⟩ | ⟨entry, hfound, rfl, hresult⟩
    · cases h
      exact .finishDenied hlive (Or.inr ⟨_, rfl⟩) fun _ h => by cases h
    · cases h
      exact .publishFailed hlive hfound hresult.symm
    · cases hresult
    · cases h
      exact .published hlive hfound (Prod.ext rfl hresult.symm)

theorem activeGuard_effect {thread : Nat} (h : w.activeGuard thread owner = (w', reply)) :
    Effect w (.activeGuard thread owner) reply w' := by
  unfold activeGuard acquire at h
  cases hfound : w.store.checkOwner owner with
  | error error =>
    simp only [hfound] at h
    cases h
    exact .quiet rfl
  | ok entry =>
    simp only [hfound] at h
    cases hacquire : entry.acquire with
    | error error =>
      simp only [hacquire, Except.map] at h
      cases h
      exact .quiet rfl
    | ok counted =>
      obtain ⟨hroom, rfl⟩ := OwnerState.acquire_eq_ok_iff.mp hacquire
      simp only [hacquire, Except.map] at h
      cases h
      exact .guarded hfound hroom

theorem acquireRead_effect {piece : PreparedPieceHandle} {offset maxBytes : Nat}
    (h : w.acquireRead piece offset maxBytes = (w', reply)) :
    Effect w (.acquireRead piece offset maxBytes) reply w' := by
  unfold acquireRead acquire at h
  cases hfound : w.store.checkOwner piece.owner with
  | error error =>
    simp only [hfound] at h
    cases h
    exact .quiet rfl
  | ok entry =>
    simp only [hfound] at h
    cases hacquire : entry.acquire with
    | error error =>
      simp only [hacquire, Except.map] at h
      cases h
      exact .quiet rfl
    | ok counted =>
      obtain ⟨hroom, rfl⟩ := OwnerState.acquire_eq_ok_iff.mp hacquire
      simp only [hacquire, Except.map] at h
      cases h
      exact .reading hfound hroom

theorem read_effect {guard id offset maxBytes : Nat}
    (hlive : w.guards[guard]? = some ⟨owner, .pieceRead id offset maxBytes⟩)
    (h : w.read owner id offset maxBytes = (w', reply)) : Effect w (.read guard) reply w' := by
  unfold read at h
  cases hfound : w.store.checkOwner owner with
  | error error =>
    simp only [hfound] at h
    cases h
    exact .quiet rfl
  | ok entry =>
    simp only [hfound] at h
    cases hread : entry.read id offset maxBytes with
    | error error =>
      simp only [hread] at h
      cases h
      exact .quiet rfl
    | ok outcome =>
      simp only [hread] at h
      cases h
      exact .read hlive hfound hread

theorem recordPrepareInvocation_effect
    (h : w.answer (w.store.recordPrepareInvocation owner) = (w', reply)) :
    Effect w (.recordPrepareInvocation owner) reply w' := by
  unfold StoreState.recordPrepareInvocation at h
  cases hfound : w.store.owners[owner.id]? with
  | none =>
    simp only [hfound] at h
    cases h
    exact .quiet rfl
  | some entry =>
    simp only [hfound] at h
    cases hadd : add entry.metadata.prepareInvocations 1 with
    | error error =>
      simp only [hadd] at h
      cases h
      exact .quiet rfl
    | ok calls =>
      obtain ⟨hroom, rfl⟩ := add_eq_ok_iff.mp hadd
      simp only [hadd] at h
      cases h
      exact .invoked hfound hroom

theorem disposeOwner_effect (h : w.answer (w.store.disposeOwner owner) = (w', reply)) :
    Effect w (.disposeOwner owner) reply w' := by
  unfold StoreState.disposeOwner at h
  cases hverify : w.store.verify owner with
  | error error =>
    simp only [hverify] at h
    cases h
    exact .quiet rfl
  | ok =>
    simp only [hverify, StoreState.withEntry] at h
    cases hfound : w.store.checkOwner owner with
    | error error =>
      simp only [hfound] at h
      cases h
      exact .quiet rfl
    | ok entry =>
      simp only [hfound] at h
      by_cases hbusy : entry.busy = true
      · simp only [hbusy, if_true] at h
        rw [StoreState.set_of_checkOwner hfound] at h
        cases h
        exact .quiet rfl
      · simp only [hbusy] at h
        cases h
        exact .ownerDisposed hfound (by simpa using hbusy)

theorem dispose_effect (h : w.answer w.store.dispose = (w', reply)) :
    Effect w .dispose reply w' := by
  unfold StoreState.dispose at h
  split at h
  · cases h
    exact .quiet rfl
  · rename_i hidle
    cases h
    refine .storeDisposed fun k entry hentry => ?_
    by_contra hbusy
    apply hidle
    exact List.any_eq_true.mpr ⟨entry, BTreeMap.mem_vals.mpr ⟨k, hentry⟩, by simpa using hbusy⟩

theorem writing_eq_some {operation : PreparationOwner → World M × Reply M}
    (h : w.writing transaction operation = some (w', reply)) :
    ∃ owner, w.transactions[transaction]? = some ⟨owner, .writing⟩ ∧
      operation owner = (w', reply) := by
  unfold writing at h
  split at h
  · rename_i owner hlive
    exact ⟨owner, hlive, Option.some.inj h⟩
  · cases h

/-- **Every step is one of the listed outcomes.** -/
theorem step_effect {op : Op M} (h : w.step op = some (w', reply)) : Effect w op reply w' := by
  cases op with
  | createOwner binding => exact createOwner_effect (Option.some.inj h)
  | begin thread owner => exact begin_effect (Option.some.inj h)
  | current owner =>
    cases h
    exact .quiet rfl
  | requestProjections transaction views layers =>
    obtain ⟨owner, hlive, h⟩ := writing_eq_some h
    exact requestProjections_effect hlive h
  | projectionWriter transaction =>
    obtain ⟨owner, hlive, h⟩ := writing_eq_some h
    cases h
    exact .quiet rfl
  | recordWriterFault transaction error =>
    obtain ⟨owner, hlive, h⟩ := writing_eq_some h
    cases h
    exact recordWriterFault_effect hlive
  | put transaction name bytes =>
    obtain ⟨owner, hlive, h⟩ := writing_eq_some h
    exact put_effect hlive h
  | requestedViews writer => exact requestedViews_effect (Option.some.inj h)
  | publish writer scene => exact publish_effect (Option.some.inj h)
  | finish transaction result =>
    obtain ⟨owner, hlive, h⟩ := writing_eq_some h
    exact finish_effect hlive h
  | validated transaction verdict =>
    simp only [step] at h
    split at h
    · rename_i owner staged hlive
      exact validated_effect hlive (Option.some.inj h)
    · cases h
  | dropTransaction transaction =>
    simp only [step] at h
    split at h
    · cases h
    · rename_i owner error hlive
      cases h
      exact .ended hlive .dropped
    · rename_i owner progress _ hlive
      cases h
      exact .ended hlive .dropped
  | projection plan view =>
    cases h
    exact .quiet rfl
  | «open» plan name =>
    cases h
    exact .quiet rfl
  | activeGuard thread owner => exact activeGuard_effect (Option.some.inj h)
  | acquireRead piece offset maxBytes => exact acquireRead_effect (Option.some.inj h)
  | read guard =>
    simp only [step] at h
    split at h
    · rename_i owner id offset maxBytes hlive
      exact read_effect hlive (Option.some.inj h)
    · cases h
  | dropGuard guard =>
    simp only [step] at h
    split at h
    · cases h
    · rename_i held hlive
      have heffect := Effect.released hlive
      rw [Option.some.inj h] at heffect
      exact heffect
  | recordPrepareInvocation owner => exact recordPrepareInvocation_effect (Option.some.inj h)
  | disposeOwner owner => exact disposeOwner_effect (Option.some.inj h)
  | dispose => exact dispose_effect (Option.some.inj h)

end World

end PinchNPrint.Preparation
