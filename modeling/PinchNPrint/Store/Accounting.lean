/-
Byte accounting of the prepared-owner store.

`Balanced` says what the six byte counters of an owner are in each phase: sums
over its pieces and scenes where the phase keeps them, zero elsewhere. `Bounded`
says that every counter is a `u64` value. Both are invariants of an owner's life
(`EntryStep`), the first as long as no transaction requests projections twice: a
second request drops the staged scenes and keeps their bytes.

Every addition is checked before anything is written, so an operation that would
overflow answers `ArithmeticOverflow` (`World.WouldOverflow`) and leaves pieces
and counters alone.
-/

import PinchNPrint.Store.Lifecycle

namespace PinchNPrint.Preparation

open Std

variable {M : SceneModel}

/-! ### The books of one owner -/

namespace OwnerState

/-- Payload bytes of the pieces. -/
def payloadBytes (entry : OwnerState M) : Nat :=
  ((BTreeMap.vals entry.pieces).map fun piece => piece.bytes.length).sum

/-- Name bytes of the pieces. -/
def nameBytes (entry : OwnerState M) : Nat :=
  (entry.pieces.toList.map fun named => named.1.utf8ByteSize).sum

/-- Diagnostic bytes of the scenes. -/
def sceneBytes (entry : OwnerState M) : Nat :=
  match entry.projection with
  | none => 0
  | some projection => ((BTreeMap.vals projection.scenes).map Committed.diagnosticBytes).sum

/-- The three staged counters are zero. -/
def NothingStaged (entry : OwnerState M) : Prop :=
  entry.metadata.stagedPayloadBytes = 0 ∧ entry.metadata.stagedNameBytes = 0 ∧
    entry.diagnostics.stagedBytes = 0

/-- The three retained counters are zero. -/
def NothingRetained (entry : OwnerState M) : Prop :=
  entry.metadata.retainedPayloadBytes = 0 ∧ entry.metadata.retainedNameBytes = 0 ∧
    entry.diagnostics.retainedBytes = 0

end OwnerState

/-- The byte counters are exact in every phase. -/
structure Balanced (entry : OwnerState M) : Prop where
  staging : entry.metadata.phase = .staging →
    entry.metadata.stagedPayloadBytes = entry.payloadBytes ∧
      entry.metadata.stagedNameBytes = entry.nameBytes ∧
      entry.diagnostics.stagedBytes = entry.sceneBytes ∧ entry.NothingRetained
  ready : entry.metadata.phase = .ready →
    entry.metadata.retainedPayloadBytes = entry.payloadBytes ∧
      entry.metadata.retainedNameBytes = entry.nameBytes ∧
      entry.diagnostics.retainedBytes = entry.sceneBytes ∧ entry.NothingStaged
  empty : entry.metadata.phase = .unready ∨ entry.metadata.phase = .disposed →
    entry.pieces = ∅ ∧ entry.projection = none ∧ entry.NothingStaged ∧ entry.NothingRetained
  flag : entry.metadata.ready = true ↔ entry.metadata.phase = .ready

/-- Every counter is a `u64` value. -/
structure Bounded (entry : OwnerState M) : Prop where
  stagedPayload : entry.metadata.stagedPayloadBytes < 2 ^ 64
  stagedName : entry.metadata.stagedNameBytes < 2 ^ 64
  retainedPayload : entry.metadata.retainedPayloadBytes < 2 ^ 64
  retainedName : entry.metadata.retainedNameBytes < 2 ^ 64
  stagedScenes : entry.diagnostics.stagedBytes < 2 ^ 64
  retainedScenes : entry.diagnostics.retainedBytes < 2 ^ 64
  publishedScenes : entry.diagnostics.publishedScenes < 2 ^ 64
  putCalls : entry.metadata.putCalls < 2 ^ 64
  readCalls : entry.metadata.readCalls < 2 ^ 64
  requestedRead : entry.metadata.requestedReadBytes < 2 ^ 64
  returnedRead : entry.metadata.returnedReadBytes < 2 ^ 64
  invocations : entry.metadata.prepareInvocations < 2 ^ 64
  activeReads : entry.activeReads < 2 ^ 64

/-! ### What each operation does to the books -/

namespace Balanced

variable {entry : OwnerState M}

/-- The books of an owner that is staging. -/
theorem of_staging (hphase : entry.metadata.phase = .staging)
    (hstaged : entry.metadata.stagedPayloadBytes = entry.payloadBytes ∧
      entry.metadata.stagedNameBytes = entry.nameBytes ∧
      entry.diagnostics.stagedBytes = entry.sceneBytes ∧ entry.NothingRetained)
    (hflag : entry.metadata.ready = true ↔ entry.metadata.phase = .ready) : Balanced entry where
  staging _ := hstaged
  ready hready := by cases hphase.symm.trans hready
  empty hempty := by rcases hempty with hempty | hempty <;> cases hphase.symm.trans hempty
  flag := hflag

theorem new (binding : FrozenPreparationBinding) :
    Balanced (OwnerState.new binding : OwnerState M) := by
  refine ⟨fun h => ?_, fun h => ?_, fun _ => ?_, ?_⟩
  · cases h
  · cases h
  · exact ⟨rfl, rfl, ⟨rfl, rfl, rfl⟩, ⟨rfl, rfl, rfl⟩⟩
  · simp [OwnerState.new]

/-- Clearing empties the books, whatever they were. -/
theorem clear {phase : Phase} (hphase : phase = .unready ∨ phase = .disposed) :
    Balanced (entry.clear phase) := by
  refine ⟨fun h => ?_, fun h => ?_, fun _ => ?_, ?_⟩
  · change phase = .staging at h
    rcases hphase with rfl | rfl <;> cases h
  · change phase = .ready at h
    rcases hphase with rfl | rfl <;> cases h
  · exact ⟨rfl, rfl, ⟨rfl, rfl, rfl⟩, ⟨rfl, rfl, rfl⟩⟩
  · show false = true ↔ phase = .ready
    rcases hphase with rfl | rfl <;> simp

theorem begin (h : Balanced entry) (hphase : entry.metadata.phase = .unready)
    (identity : Identity) : Balanced (entry.begin identity).1 := by
  obtain ⟨hpieces, hprojection, ⟨hp, hn, hd⟩, hretained⟩ := h.empty (Or.inl hphase)
  have hflag := h.flag
  rw [hphase] at hflag
  have hbegin : (entry.begin identity).1 = { entry with
      metadata := { entry.metadata with phase := .staging }
      writerFault := none
      projectionFailure := none
      callIdentity := some identity } := by
    simp [OwnerState.begin, hphase]
  rw [hbegin]
  refine of_staging rfl ⟨?_, ?_, ?_, hretained⟩ (by simpa using hflag)
  · simp [OwnerState.payloadBytes, hpieces, hp]
  · simp [OwnerState.nameBytes, hpieces, hn]
  · simp [OwnerState.sceneBytes, hprojection, hd]

/-- A first request stages no scene. -/
theorem request (h : Balanced entry) (hphase : entry.metadata.phase = .staging)
    (hfirst : entry.projection = none) (declaredViews views : List String)
    (layers : M.Schedule) :
    Balanced (entry.requestProjections declaredViews views layers).1 := by
  obtain ⟨hp, hn, hd, hretained⟩ := h.staging hphase
  have hzero : entry.diagnostics.stagedBytes = 0 := by
    rw [hd, OwnerState.sceneBytes, hfirst]
  have hrequested : ∀ failure : Option ProjectionFault, Balanced { entry with
      projection := some ⟨views, layers, ∅⟩, projectionFailure := failure } := by
    intro failure
    refine of_staging hphase ⟨hp, hn, ?_, hretained⟩ h.flag
    simp [OwnerState.sceneBytes, hzero]
  unfold OwnerState.requestProjections
  split
  · exact h
  · simp only
    split
    · exact hrequested entry.projectionFailure
    · exact hrequested _

/-- An accepted piece is counted once. -/
theorem put (h : Balanced entry) (hphase : entry.metadata.phase = .staging) {name : String}
    {bytes : List UInt8} {staged : OwnerState M} (hput : entry.stagePiece name bytes = .ok staged) :
    Balanced staged := by
  obtain ⟨hp, hn, hd, hretained⟩ := h.staging hphase
  obtain ⟨_, hnew, _, _, _, _, rfl⟩ := OwnerState.stagePiece_eq_ok hput
  refine of_staging hphase ⟨?_, ?_, hd, hretained⟩ h.flag
  · show entry.metadata.stagedPayloadBytes + bytes.length = _
    rw [hp, OwnerState.payloadBytes, OwnerState.payloadBytes,
      ((BTreeMap.vals_insert_perm hnew _).map _).sum_eq, List.map_cons, List.sum_cons]
    exact Nat.add_comm _ _
  · show entry.metadata.stagedNameBytes + name.utf8ByteSize = _
    rw [hn, OwnerState.nameBytes, OwnerState.nameBytes,
      ((BTreeMap.toList_insert_perm hnew _).map _).sum_eq, List.map_cons, List.sum_cons]
    exact Nat.add_comm _ _

/-- An accepted scene is counted once. -/
theorem publish (h : Balanced entry) (hphase : entry.metadata.phase = .staging)
    {declaredViews : List String} {scene : Scene M.Content} {staged : OwnerState M}
    (hpublish : entry.stageScene declaredViews scene = .ok (staged, ())) : Balanced staged := by
  obtain ⟨hp, hn, hd, hretained⟩ := h.staging hphase
  obtain ⟨projection, committed, hprojection, _, hnew, _, _, rfl⟩ :=
    OwnerState.stageScene_eq_ok hpublish
  refine of_staging hphase ⟨hp, hn, ?_, hretained⟩ h.flag
  show entry.diagnostics.stagedBytes + committed.diagnosticBytes = _
  rw [hd]
  simp only [OwnerState.sceneBytes, hprojection]
  rw [((BTreeMap.vals_insert_perm hnew _).map _).sum_eq, List.map_cons, List.sum_cons]
  exact Nat.add_comm _ _

/-- Publication moves the staged bytes to the retained ones. -/
theorem finish (h : Balanced entry) (hphase : entry.metadata.phase = .staging)
    {staged : List (String × Nat)} {ready : OwnerState M}
    (hfinish : entry.finishPublish staged = (ready, .ok ())) : Balanced ready := by
  obtain ⟨hp, hn, hd, _, _, hretained⟩ := h.staging hphase
  obtain ⟨_, _, rfl⟩ := OwnerState.finishPublish_eq_ok hfinish
  refine ⟨fun hstaging => ?_, fun _ => ⟨hp, hn, ?_, rfl, rfl, rfl⟩, fun hempty => ?_, ?_⟩
  · cases hstaging
  · show entry.diagnostics.retainedBytes + entry.diagnostics.stagedBytes = _
    rw [hretained, Nat.zero_add]
    exact hd
  · rcases hempty with hempty | hempty <;> cases hempty
  · simp

end Balanced

section EntryStep

variable {w : World M} {op : Op M} {reply : Reply M} {k : Nat} {entry entry' : OwnerState M}

/-- The step is a projection request by a transaction of owner `k`. -/
def RequestsFor (w : World M) (op : Op M) (k : Nat) : Prop :=
  ∃ (t : Nat) (owner : PreparationOwner) (views : List String) (layers : M.Schedule),
    op = .requestProjections t views layers ∧ w.transactions[t]? = some ⟨owner, .writing⟩ ∧
      owner.id = k

/-- Every step keeps the books balanced, provided a request is the first. -/
theorem EntryStep.balanced (h : EntryStep w op reply k entry entry') (hbooks : Balanced entry)
    (hfirst : RequestsFor w op k → entry.projection = none) : Balanced entry' := by
  cases h with
  | same _ => exact hbooks
  | began _ _ _ hphase => exact hbooks.begin hphase _
  | staged hlive hid hphase hchange =>
    cases hchange with
    | requested hviews hreply =>
      exact hbooks.request hphase (hfirst ⟨_, _, _, _, rfl, hlive, hid⟩) _ _ _
    | faulted => exact ⟨hbooks.staging, hbooks.ready, hbooks.empty, hbooks.flag⟩
    | accepted hclean hstaged => exact hbooks.put hphase hstaged
    | refused hclean hrefused => exact ⟨hbooks.staging, hbooks.ready, hbooks.empty, hbooks.flag⟩
  | forwarded hid hidentity hphase hclean hchange =>
    cases hchange with
    | unrequested _ => exact ⟨hbooks.staging, hbooks.ready, hbooks.empty, hbooks.flag⟩
    | refused _ => exact ⟨hbooks.staging, hbooks.ready, hbooks.empty, hbooks.flag⟩
    | accepted hpublish => exact hbooks.publish hphase hpublish
  | checked _ _ _ _ =>
    unfold OwnerState.finishCheck
    split
    · exact hbooks
    · split
      · exact ⟨hbooks.staging, hbooks.ready, hbooks.empty, hbooks.flag⟩
      · exact hbooks
  | unpublished _ _ _ _ _ hfailed =>
    rcases OwnerState.finishPublish_of_error hfailed with hsame | ⟨fault, hfault⟩
    · rw [hsame]
      exact hbooks
    · rw [hfault]
      exact ⟨hbooks.staging, hbooks.ready, hbooks.empty, hbooks.flag⟩
  | published _ _ _ _ hphase hpublish => exact hbooks.finish hphase hpublish
  | cleared _ _ _ _ => exact Balanced.clear (Or.inl rfl)
  | counted _ _ _ => exact ⟨hbooks.staging, hbooks.ready, hbooks.empty, hbooks.flag⟩
  | read _ _ _ _ _ hread =>
    obtain ⟨_, _, _, _, _, _, _, _, rfl⟩ := OwnerState.read_eq_ok hread
    exact ⟨hbooks.staging, hbooks.ready, hbooks.empty, hbooks.flag⟩
  | invoked _ _ => exact ⟨hbooks.staging, hbooks.ready, hbooks.empty, hbooks.flag⟩
  | disposed _ _ => exact Balanced.clear (Or.inr rfl)

/-- Without a request there is nothing to publish scenes into. -/
theorem EntryStep.projection_none (h : EntryStep w op reply k entry entry')
    (hnone : entry.projection = none) (hrequest : ¬ RequestsFor w op k) :
    entry'.projection = none := by
  cases h with
  | same _ => exact hnone
  | began _ _ _ hphase => simpa [OwnerState.begin, hphase] using hnone
  | staged hlive hid hphase hchange =>
    cases hchange with
    | requested hviews hreply => exact absurd ⟨_, _, _, _, rfl, hlive, hid⟩ hrequest
    | faulted => exact hnone
    | accepted hclean hstaged =>
      obtain ⟨_, _, _, _, _, _, rfl⟩ := OwnerState.stagePiece_eq_ok hstaged
      exact hnone
    | refused hclean hrefused => exact hnone
  | forwarded hid hidentity hphase hclean hchange =>
    cases hchange with
    | unrequested _ => exact hnone
    | refused _ => exact hnone
    | accepted hpublish =>
      obtain ⟨projection, _, hprojection, _⟩ := OwnerState.stageScene_eq_ok hpublish
      rw [hnone] at hprojection
      cases hprojection
  | checked _ _ _ _ =>
    unfold OwnerState.finishCheck
    split
    · exact hnone
    · split <;> exact hnone
  | unpublished _ _ _ _ _ hfailed =>
    rcases OwnerState.finishPublish_of_error hfailed with hsame | ⟨fault, hfault⟩
    · rw [hsame]
      exact hnone
    · rw [hfault]
      exact hnone
  | published _ _ _ _ _ hpublish =>
    obtain ⟨_, _, rfl⟩ := OwnerState.finishPublish_eq_ok hpublish
    exact hnone
  | cleared _ _ _ _ => rfl
  | counted _ _ _ => exact hnone
  | read _ _ _ _ _ hread =>
    obtain ⟨_, _, _, _, _, _, _, _, rfl⟩ := OwnerState.read_eq_ok hread
    exact hnone
  | invoked _ _ => exact hnone
  | disposed _ _ => rfl

theorem Bounded.new (binding : FrozenPreparationBinding) :
    Bounded (OwnerState.new binding : OwnerState M) := by
  constructor <;> simp [OwnerState.new]

theorem Bounded.clear {phase : Phase} (h : Bounded entry) : Bounded (entry.clear phase) := by
  obtain ⟨_, _, _, _, _, _, _, _, _, _, _, _, _⟩ := h
  constructor <;> first | assumption | exact Nat.two_pow_pos 64

/-- Every addition is checked. -/
theorem EntryStep.bounded (h : EntryStep w op reply k entry entry') (hbound : Bounded entry) :
    Bounded entry' := by
  have hbound' := hbound
  obtain ⟨h₁, h₂, h₃, h₄, h₅, h₆, h₇, h₈, h₉, h₁₀, h₁₁, h₁₂, h₁₃⟩ := hbound
  cases h with
  | same _ => exact hbound'
  | began _ _ _ hphase =>
    simp only [OwnerState.begin, hphase]
    exact ⟨h₁, h₂, h₃, h₄, h₅, h₆, h₇, h₈, h₉, h₁₀, h₁₁, h₁₂, h₁₃⟩
  | staged hlive hid hphase hchange =>
    cases hchange with
    | requested hviews hreply =>
      unfold OwnerState.requestProjections
      split
      · exact hbound'
      · simp only
        split <;> exact ⟨h₁, h₂, h₃, h₄, h₅, h₆, h₇, h₈, h₉, h₁₀, h₁₁, h₁₂, h₁₃⟩
    | faulted => exact ⟨h₁, h₂, h₃, h₄, h₅, h₆, h₇, h₈, h₉, h₁₀, h₁₁, h₁₂, h₁₃⟩
    | accepted hclean hstaged =>
      obtain ⟨_, _, _, hpayload, hnames, hcalls, rfl⟩ := OwnerState.stagePiece_eq_ok hstaged
      exact ⟨hpayload, hnames, h₃, h₄, h₅, h₆, h₇, hcalls, h₉, h₁₀, h₁₁, h₁₂, h₁₃⟩
    | refused hclean hrefused => exact ⟨h₁, h₂, h₃, h₄, h₅, h₆, h₇, h₈, h₉, h₁₀, h₁₁, h₁₂, h₁₃⟩
  | forwarded hid hidentity hphase hclean hchange =>
    cases hchange with
    | unrequested _ => exact ⟨h₁, h₂, h₃, h₄, h₅, h₆, h₇, h₈, h₉, h₁₀, h₁₁, h₁₂, h₁₃⟩
    | refused _ => exact ⟨h₁, h₂, h₃, h₄, h₅, h₆, h₇, h₈, h₉, h₁₀, h₁₁, h₁₂, h₁₃⟩
    | accepted hpublish =>
      obtain ⟨_, _, _, _, _, hbytes, hscenes, rfl⟩ := OwnerState.stageScene_eq_ok hpublish
      exact ⟨h₁, h₂, h₃, h₄, hbytes, h₆, hscenes, h₈, h₉, h₁₀, h₁₁, h₁₂, h₁₃⟩
  | checked _ _ _ _ =>
    unfold OwnerState.finishCheck
    split
    · exact hbound'
    · split <;> exact ⟨h₁, h₂, h₃, h₄, h₅, h₆, h₇, h₈, h₉, h₁₀, h₁₁, h₁₂, h₁₃⟩
  | unpublished _ _ _ _ _ hfailed =>
    rcases OwnerState.finishPublish_of_error hfailed with hsame | ⟨fault, hfault⟩
    · rw [hsame]
      exact hbound'
    · rw [hfault]
      exact ⟨h₁, h₂, h₃, h₄, h₅, h₆, h₇, h₈, h₉, h₁₀, h₁₁, h₁₂, h₁₃⟩
  | published _ _ _ _ _ hpublish =>
    obtain ⟨_, hroom, rfl⟩ := OwnerState.finishPublish_eq_ok hpublish
    have hzero : 0 < 2 ^ 64 := Nat.two_pow_pos 64
    exact ⟨hzero, hzero, h₁, h₂, hzero, hroom, h₇, h₈, h₉, h₁₀, h₁₁, h₁₂, h₁₃⟩
  | cleared _ _ _ _ => exact hbound'.clear
  | counted _ hroom _ =>
    refine ⟨h₁, h₂, h₃, h₄, h₅, h₆, h₇, h₈, h₉, h₁₀, h₁₁, h₁₂, ?_⟩
    rcases hroom with hroom | hroom
    · exact hroom
    · exact Nat.lt_of_le_of_lt hroom h₁₃
  | read _ _ _ _ _ hread =>
    obtain ⟨_, _, _, _, _, hcalls, hrequested, hreturned, rfl⟩ := OwnerState.read_eq_ok hread
    exact ⟨h₁, h₂, h₃, h₄, h₅, h₆, h₇, h₈, hcalls, hrequested, hreturned, h₁₂, h₁₃⟩
  | invoked _ hroom => exact ⟨h₁, h₂, h₃, h₄, h₅, h₆, h₇, h₈, h₉, h₁₀, h₁₁, hroom, h₁₃⟩
  | disposed _ _ => exact hbound'.clear

end EntryStep

/-! ### Overflow -/

private theorem ite_failsWith {ε α : Type} {P : ε → Prop} {p : Prop} [Decidable p] {value : α}
    {error : ε} (h : P error) :
    Except.FailsWith P (if p then Except.ok value else .error error) := by
  intro error' herror
  split at herror
  · cases herror
  · cases herror
    exact h

theorem add_failsWith (a b : Nat) : Except.FailsWith (· = .arithmeticOverflow) (add a b) :=
  ite_failsWith rfl

theorem count_failsWith (n : Nat) : Except.FailsWith (· = .arithmeticOverflow) (count n) :=
  ite_failsWith rfl

namespace OwnerState

variable {entry : OwnerState M}

/-- The piece is acceptable but for a sum that is no `u64`. -/
structure PutOverflows (entry : OwnerState M) (name : String) (bytes : List UInt8) : Prop where
  named : name ≠ ""
  fresh : name ∉ entry.pieces
  overflow : 2 ^ 64 ≤ entry.metadata.stagedPayloadBytes + bytes.length ∨
    2 ^ 64 ≤ entry.metadata.stagedNameBytes + name.utf8ByteSize ∨
    2 ^ 64 ≤ entry.metadata.putCalls + 1 ∨ 2 ^ 64 ≤ entry.pieces.size

theorem PutOverflows.stagePiece {name : String} {bytes : List UInt8}
    (h : entry.PutOverflows name bytes) :
    entry.stagePiece name bytes = .error .arithmeticOverflow := by
  cases hstage : entry.stagePiece name bytes with
  | ok staged =>
    obtain ⟨_, _, hid, hpayload, hnames, hcalls, _⟩ := stagePiece_eq_ok hstage
    have := h.overflow
    omega
  | error error =>
    have hfails : Except.FailsWith (· = .arithmeticOverflow) (entry.stagePiece name bytes) := by
      rw [OwnerState.stagePiece, if_neg h.named, if_neg h.fresh]
      refine .bind (count_failsWith _) fun len => ?_
      refine .bind (count_failsWith _) fun nameLen => ?_
      refine .bind (count_failsWith _) fun id => ?_
      refine .bind (add_failsWith _ _) fun payload => ?_
      refine .bind (add_failsWith _ _) fun names => ?_
      exact .bind (add_failsWith _ _) fun calls => .pure _
    rw [hfails error hstage]

/-- The scene is acceptable but for a sum that is no `u64`. -/
structure PublishOverflows (entry : OwnerState M) (declaredViews : List String)
    (scene : Scene M.Content) (projection : ProjectionStaging M) (committed : Committed M) :
    Prop where
  requested : entry.projection = some projection
  named : scene.view ≠ ""
  declared : scene.view ∈ declaredViews
  listed : scene.view ∈ projection.views
  fresh : scene.view ∉ projection.scenes
  distinct : ∀ other ∈ BTreeMap.vals projection.scenes, other.scene.sceneId ≠ scene.sceneId
  valid : validateScene scene entry.metadata.moduleId projection.layers = .ok committed
  overflow : 2 ^ 64 ≤ entry.diagnostics.stagedBytes + committed.diagnosticBytes ∨
    2 ^ 64 ≤ entry.diagnostics.publishedScenes + 1

theorem PublishOverflows.stageScene {declaredViews : List String} {scene : Scene M.Content}
    {projection : ProjectionStaging M} {committed : Committed M}
    (h : entry.PublishOverflows declaredViews scene projection committed) :
    ∃ fault, entry.stageScene declaredViews scene = .error fault ∧
      fault.error = .arithmeticOverflow := by
  cases hstage : entry.stageScene declaredViews scene with
  | ok outcome =>
    obtain ⟨staged, ⟨⟩⟩ := outcome
    obtain ⟨_, _, hprojection, hvalid, _, hbytes, hscenes, _⟩ := OwnerState.stageScene_eq_ok hstage
    cases h.requested.symm.trans hprojection
    cases h.valid.symm.trans hvalid
    have := h.overflow
    omega
  | error fault =>
    have hdistinct : ¬ ((BTreeMap.vals projection.scenes).any fun other =>
        other.scene.sceneId == scene.sceneId) = true := by
      simpa using h.distinct
    have hchecked : ∀ (a b : Nat) (field : String),
        Except.FailsWith (fun fault => fault.error = .arithmeticOverflow)
          ((checkedAdd a b).mapError (sceneFault scene · field)) := by
      intro a b field fault hfault
      unfold checkedAdd at hfault
      split at hfault <;> cases hfault
      rfl
    have hfails : Except.FailsWith (fun fault => fault.error = .arithmeticOverflow)
        (entry.stageScene declaredViews scene) := by
      rw [OwnerState.stageScene, h.requested]
      simp only [h.named, h.fresh, hdistinct, h.valid, if_false,
        List.contains_iff_mem.mpr h.declared, List.contains_iff_mem.mpr h.listed, Bool.not_true,
        Bool.false_eq_true]
      refine .bind (.pure committed) fun _ => ?_
      refine .bind (hchecked _ _ _) fun bytes => ?_
      exact .bind (hchecked _ _ _) fun published => .pure _
    exact ⟨fault, rfl, hfails fault hstage⟩

/-- The range is readable but for a sum that is no `u64`. -/
structure ReadOverflows (entry : OwnerState M) (id offset maxBytes : Nat) (piece : Piece) :
    Prop where
  ready : entry.metadata.ready = true
  found : entry.pieceWithId id = some piece
  inRange : offset ≤ piece.len
  overflow : 2 ^ 64 ≤ entry.metadata.readCalls + 1 ∨
    2 ^ 64 ≤ entry.metadata.requestedReadBytes + maxBytes ∨
    2 ^ 64 ≤ entry.metadata.returnedReadBytes + min maxBytes (piece.len - offset)

theorem ReadOverflows.read {id offset maxBytes : Nat} {piece : Piece}
    (h : entry.ReadOverflows id offset maxBytes piece) :
    entry.read id offset maxBytes = .error .arithmeticOverflow := by
  cases hread : entry.read id offset maxBytes with
  | ok outcome =>
    obtain ⟨entry', bytes⟩ := outcome
    obtain ⟨_, piece', hfound, _, _, hcalls, hrequested, hreturned, _⟩ := read_eq_ok hread
    obtain rfl : piece = piece' := Option.some.inj (h.found.symm.trans hfound)
    have := h.overflow
    omega
  | error error =>
    have hfound : (BTreeMap.vals entry.pieces).find? (fun piece => piece.id == id) = some piece :=
      h.found
    have hfails : Except.FailsWith (· = .arithmeticOverflow) (entry.read id offset maxBytes) := by
      rw [OwnerState.read, if_neg (by simp [h.ready]), hfound]
      simp only [Nat.not_lt.mpr h.inRange, if_false]
      refine .bind (count_failsWith _) fun take => ?_
      refine .bind (count_failsWith _) fun start => ?_
      refine .bind (add_failsWith _ _) fun stop => ?_
      refine .bind (ite_failsWith rfl) fun bounded => ?_
      refine .bind (add_failsWith _ _) fun calls => ?_
      refine .bind (add_failsWith _ _) fun requested => ?_
      exact .bind (add_failsWith _ _) fun returned => .pure _
    rw [hfails error hread]

end OwnerState

/-- The reply is an `ArithmeticOverflow` of either error type. -/
def Reply.isOverflow : Reply M → Bool
  | .transport .arithmeticOverflow => true
  | .projection .arithmeticOverflow => true
  | .failure (.transport .arithmeticOverflow) => true
  | _ => false

/-- Pieces, scenes and counters agree; recorded faults may differ. -/
structure SameBooks (entry entry' : OwnerState M) : Prop where
  pieces : entry'.pieces = entry.pieces
  projection : entry'.projection = entry.projection
  metadata : entry'.metadata = entry.metadata
  diagnostics : entry'.diagnostics = entry.diagnostics
  activeReads : entry'.activeReads = entry.activeReads

/-- The books of every owner agree. -/
structure Untouched (w w' : World M) : Prop where
  nextOwner : w'.store.nextOwner = w.store.nextOwner
  owners : ∀ k : Nat, Option.Rel SameBooks w.store.owners[k]? w'.store.owners[k]?

namespace Untouched

theorem refl (w : World M) : Untouched w w := by
  refine ⟨rfl, fun k => ?_⟩
  cases w.store.owners[k]? with
  | none => exact .none
  | some entry => exact .some ⟨rfl, rfl, rfl, rfl, rfl⟩

theorem set {w : World M} {id : Nat} {entry entry' : OwnerState M}
    (hentry : w.store.owners[id]? = some entry) (hsame : SameBooks entry entry') :
    Untouched w (w.withStore (w.store.set id entry')) := by
  refine ⟨rfl, fun k => ?_⟩
  show Option.Rel SameBooks w.store.owners[k]? (w.store.set id entry').owners[k]?
  rw [lookup_set]
  split
  · rename_i hid
    subst hid
    rw [hentry]
    exact .some hsame
  · exact (refl w).owners k

end Untouched

/-- The operation passes every other check and meets a sum that is no `u64`. -/
inductive WouldOverflow (w : World M) : Op M → Prop
  | createOwner {binding : FrozenPreparationBinding} (hopen : w.store.disposed = false)
      (hsum : 2 ^ 64 ≤ w.store.nextOwner + 1) : WouldOverflow w (.createOwner binding)
  | put {t : Nat} {owner : PreparationOwner} {entry : OwnerState M} {name : String}
      {bytes : List UInt8} (hlive : w.transactions[t]? = some ⟨owner, .writing⟩)
      (hfound : w.store.checkOwner owner = .ok entry) (hclean : entry.poisoned = false)
      (hsum : entry.PutOverflows name bytes) : WouldOverflow w (.put t name bytes)
  | publish {writer : ProjectionWriter} {scene : Scene M.Content} {entry : OwnerState M}
      {projection : ProjectionStaging M} {committed : Committed M}
      (hfound : w.store.checkOwner writer.owner = .ok entry)
      (hidentity : entry.callIdentity = some writer.callIdentity)
      (hphase : entry.metadata.phase = .staging) (hclean : entry.poisoned = false)
      (hsum : entry.PublishOverflows writer.owner.declaredViews scene projection committed) :
      WouldOverflow w (.publish writer scene)
  | finish {t : Nat} {owner : PreparationOwner} {entry : OwnerState M}
      {result : Except PreparationFailure Unit}
      (hlive : w.transactions[t]? = some ⟨owner, .writing⟩)
      (hfound : w.store.checkOwner owner = .ok entry)
      (hsum : 2 ^ 64 ≤ entry.diagnostics.retainedBytes + entry.diagnostics.stagedBytes) :
      WouldOverflow w (.finish t result)
  | validated {t : Nat} {owner : PreparationOwner} {entry : OwnerState M}
      {staged : List (String × Nat)} {verdict : Except PreparationFailure Unit}
      (hlive : w.transactions[t]? = some ⟨owner, .validating staged⟩)
      (hfound : w.store.checkOwner owner = .ok entry)
      (hsum : 2 ^ 64 ≤ entry.diagnostics.retainedBytes + entry.diagnostics.stagedBytes) :
      WouldOverflow w (.validated t verdict)
  | activeGuard {thread : Nat} {owner : PreparationOwner} {entry : OwnerState M}
      (hfound : w.store.checkOwner owner = .ok entry) (hsum : 2 ^ 64 ≤ entry.activeReads + 1) :
      WouldOverflow w (.activeGuard thread owner)
  | acquireRead {piece : PreparedPieceHandle} {offset maxBytes : Nat} {entry : OwnerState M}
      (hfound : w.store.checkOwner piece.owner = .ok entry)
      (hsum : 2 ^ 64 ≤ entry.activeReads + 1) : WouldOverflow w (.acquireRead piece offset maxBytes)
  | read {guard id offset maxBytes : Nat} {owner : PreparationOwner} {entry : OwnerState M}
      {piece : Piece} (hlive : w.guards[guard]? = some ⟨owner, .pieceRead id offset maxBytes⟩)
      (hfound : w.store.checkOwner owner = .ok entry)
      (hsum : entry.ReadOverflows id offset maxBytes piece) : WouldOverflow w (.read guard)
  | recordPrepareInvocation {owner : PreparationOwner} {entry : OwnerState M}
      (hfound : w.store.owners[owner.id]? = some entry)
      (hsum : 2 ^ 64 ≤ entry.metadata.prepareInvocations + 1) :
      WouldOverflow w (.recordPrepareInvocation owner)

/-- The diagnostic bytes of a staging owner can always be retained. -/
def Retainable (w : World M) : Prop :=
  ∀ (k : Nat) (entry : OwnerState M), w.store.owners[k]? = some entry →
    entry.metadata.phase = .staging →
      entry.diagnostics.retainedBytes + entry.diagnostics.stagedBytes < 2 ^ 64

theorem add_of_overflow {a b : Nat} (h : 2 ^ 64 ≤ a + b) : add a b = .error .arithmeticOverflow :=
  if_neg (Nat.not_lt.mpr h)

theorem OwnerState.acquire_of_overflow {entry : OwnerState M}
    (h : 2 ^ 64 ≤ entry.activeReads + 1) : entry.acquire = .error .arithmeticOverflow := by
  rw [OwnerState.acquire, add_of_overflow h]
  rfl

/-- An operation that would overflow is refused before it writes anything. -/
theorem WouldOverflow.refused {w : World M} {op : Op M} (h : WouldOverflow w op)
    (hw : Coherent w) (hroom : Retainable w) :
    ∃ w' reply, w.step op = some (w', reply) ∧ reply.isOverflow = true ∧ Untouched w w' := by
  cases h with
  | createOwner hopen hsum =>
    refine ⟨w, .failure (.transport .arithmeticOverflow), ?_, rfl, .refl w⟩
    simp [World.step, World.createOwner, StoreState.createOwner, hopen, add_of_overflow hsum]
  | @put t owner entry name bytes hlive hfound hclean hsum =>
    have hput : entry.put name bytes = ({ entry with writerFault := some .arithmeticOverflow },
        .error .arithmeticOverflow) := by
      simp [OwnerState.put, hclean, hsum.stagePiece]
    have hsame : SameBooks entry { entry with writerFault := some .arithmeticOverflow } :=
      ⟨rfl, rfl, rfl, rfl, rfl⟩
    refine ⟨_, .transport .arithmeticOverflow, ?_, rfl,
      .set (StoreState.checkOwner_ok_iff.mp hfound).1 hsame⟩
    simp [World.step, World.writing, hlive, World.put, StoreState.withEntry, hfound, hput]
  | @publish writer scene entry _ _ hfound hidentity hphase hclean hsum =>
    obtain ⟨fault, hstage, hfault⟩ := hsum.stageScene
    have hpublish : entry.withWriter writer.callIdentity
        (OwnerState.stageScene writer.owner.declaredViews scene) =
          ({ entry with projectionFailure := some fault }, .error fault.error) := by
      simp [OwnerState.withWriter, hidentity, hphase, hclean, hstage]
    have hsame : SameBooks entry { entry with projectionFailure := some fault } :=
      ⟨rfl, rfl, rfl, rfl, rfl⟩
    refine ⟨_, .projection .arithmeticOverflow, ?_, rfl,
      .set (StoreState.checkOwner_ok_iff.mp hfound).1 hsame⟩
    simp [World.step, World.withWriter, StoreState.withEntry, hfound, hpublish, hfault]
  | finish hlive hfound hsum =>
    have hphase := hw.transactional.staging_of_found hlive hfound
    have := hroom _ _ (StoreState.checkOwner_ok_iff.mp hfound).1 hphase
    omega
  | validated hlive hfound hsum =>
    have hphase := hw.transactional.staging_of_found hlive hfound
    have := hroom _ _ (StoreState.checkOwner_ok_iff.mp hfound).1 hphase
    omega
  | activeGuard hfound hsum =>
    refine ⟨w, .failure (.transport .arithmeticOverflow), ?_, rfl, .refl w⟩
    simp [World.step, World.activeGuard, World.acquire, hfound,
      OwnerState.acquire_of_overflow hsum, Except.map]
  | acquireRead hfound hsum =>
    refine ⟨w, .transport .arithmeticOverflow, ?_, rfl, .refl w⟩
    simp [World.step, World.acquireRead, World.acquire, hfound,
      OwnerState.acquire_of_overflow hsum, Except.map]
  | read hlive hfound hsum =>
    refine ⟨w, .transport .arithmeticOverflow, ?_, rfl, .refl w⟩
    simp [World.step, World.read, hlive, hfound, hsum.read]
  | recordPrepareInvocation hfound hsum =>
    refine ⟨w, .failure (.transport .arithmeticOverflow), ?_, rfl, .refl w⟩
    simp [World.step, World.answer, StoreState.recordPrepareInvocation, hfound,
      add_of_overflow hsum]

/-! ### Runs -/

section Runs

variable {trace : List (Event (World M) (Op M) (Reply M))} {w : World M}

/-- The transactions whose projections were requested, one occurrence a call. -/
def requesters (trace : List (Event (World M) (Op M) (Reply M))) : List Nat :=
  trace.filterMap fun e =>
    match e.op with
    | .requestProjections t _ _ => some t
    | _ => none

/-- `request_projections` is called at most once per transaction. -/
def RequestedOnce (trace : List (Event (World M) (Op M) (Reply M))) : Prop :=
  (requesters trace).Nodup

instance : Decidable (RequestedOnce trace) :=
  inferInstanceAs (Decidable (requesters trace).Nodup)

/-- The books balance, and a transaction that requested nothing has nothing to
publish into. -/
structure BooksKept (trace : List (Event (World M) (Op M) (Reply M))) (w : World M) : Prop where
  balanced : ∀ (k : Nat) (entry : OwnerState M), w.store.owners[k]? = some entry → Balanced entry
  unrequested : ∀ (t : Nat) (tx : PreparationTransaction) (entry : OwnerState M),
    w.transactions[t]? = some tx → w.store.owners[tx.owner.id]? = some entry →
      t ∉ requesters trace → entry.projection = none

theorem run_booksKept (run : (machine M).Run trace w) (honce : RequestedOnce trace) :
    BooksKept trace w := by
  refine run.invariant (P := fun trace w => RequestedOnce trace → BooksKept trace w) ?_ ?_ honce
  · intro _
    refine ⟨fun k entry hentry => ?_, fun t tx entry hlive => ?_⟩
    · simp [machine, World.initial] at hentry
    · simp [machine, World.initial] at hlive
  · intro trace w op w' reply run ih h honce
    have hw := run_coherent run
    have hsplit : requesters (trace ++ [⟨w, op, reply, w'⟩]) =
        requesters trace ++ requesters [⟨w, op, reply, w'⟩] := List.filterMap_append
    rw [RequestedOnce, hsplit, List.nodup_append] at honce
    obtain ⟨hpast, _, hdisjoint⟩ := honce
    have hkept := ih hpast
    have hrequester : ∀ {t : Nat} {views : List String} {layers : M.Schedule},
        op = .requestProjections t views layers → t ∈ requesters [⟨w, op, reply, w'⟩] := by
      rintro t views layers rfl
      simp [requesters]
    -- A requesting transaction has not requested before, so its entry has no projection.
    have hfirst : ∀ {k : Nat} {entry : OwnerState M}, w.store.owners[k]? = some entry →
        RequestsFor w op k → entry.projection = none := by
      rintro k entry hentry ⟨t, owner, views, layers, hop, hlive, rfl⟩
      refine hkept.unrequested t _ entry hlive hentry fun hmem => ?_
      exact hdisjoint t hmem t (hrequester hop) rfl
    refine ⟨?_, ?_⟩
    · intro k entry' hentry'
      rcases entry_origin hw h hentry' with ⟨entry, hentry, hmove⟩ | ⟨binding, _, _, _, rfl⟩
      · exact hmove.balanced (hkept.balanced k entry hentry) (hfirst hentry)
      · exact Balanced.new binding
    · intro t tx entry' hlive' hentry' hnot
      rw [hsplit, List.mem_append, not_or] at hnot
      rcases entry_origin hw h hentry' with ⟨entry, hentry, hmove⟩ | ⟨binding, _, _, _, rfl⟩
      · rcases transaction_origin hw h hlive' with ⟨old, hold, howner⟩ | ⟨_, hreply, _, hop⟩
        · have hnone := hkept.unrequested t old entry hold (by rw [howner]; exact hentry) hnot.1
          refine hmove.projection_none hnone ?_
          rintro ⟨u, owner, views, layers, hop, hu, hid⟩
          obtain rfl : u = t := hw.transactional.unique _ _ _ _ hu hold (by rw [howner]; exact hid)
          exact hnot.2 (hrequester hop)
        · subst hop
          subst hreply
          have hempty := (hkept.balanced _ entry hentry).empty (Or.inl hmove.unready_of_begin)
          refine hmove.projection_none hempty.2.1 ?_
          rintro ⟨u, owner, views, layers, hop, _⟩
          cases hop
      · rfl

/-- Every counter of every owner is a `u64` value in every run. -/
theorem run_bounded (run : (machine M).Run trace w) {k : Nat} {entry : OwnerState M}
    (hentry : w.store.owners[k]? = some entry) : Bounded entry := by
  refine entry_invariant (P := Bounded) Bounded.new ?_ run hentry
  intro w op reply k entry entry' _ hmove hbound
  exact hmove.bounded hbound

theorem run_nextOwner_lt (run : (machine M).Run trace w) : w.store.nextOwner < 2 ^ 64 := by
  induction run with
  | start => exact Nat.two_pow_pos 64
  | step run h ih =>
    have hw := run_coherent run
    have heffect := World.step_effect h
    cases heffect with
    | created hopen hroom => exact hroom
    | ended hlive hends =>
      obtain ⟨found, hfound, _⟩ := hw.transactional.staging _ _ hlive
      rw [dropTransaction_eq hfound]
      exact ih
    | released hlive =>
      obtain ⟨found, hfound⟩ := hw.guarded.owned _ _ hlive
      rw [dropGuard_eq hfound (hw.guarded.count_pos hlive hfound)]
      exact ih
    | _ => exact ih

/-- What holds of the byte accounting in a world that a run has reached. -/
structure AccountingLaws (w : World M) : Prop where
  balanced : ∀ (k : Nat) (entry : OwnerState M), w.store.owners[k]? = some entry → Balanced entry
  bounded : w.store.nextOwner < 2 ^ 64 ∧ ∀ (k : Nat) (entry : OwnerState M),
    w.store.owners[k]? = some entry → Bounded entry
  /-- Nothing is written by an operation that would overflow. -/
  overflow : ∀ op, WouldOverflow w op →
    ∃ w' reply, w.step op = some (w', reply) ∧ reply.isOverflow = true ∧ Untouched w w'

/-- **Byte accounting is exact in every reachable state.** -/
theorem accounting_exact (run : (machine M).Run trace w) (honce : RequestedOnce trace) :
    AccountingLaws w := by
  have hkept := run_booksKept run honce
  refine ⟨hkept.balanced, ⟨run_nextOwner_lt run, fun k entry => run_bounded run⟩, ?_⟩
  intro op hoverflow
  refine hoverflow.refused (run_coherent run) ?_
  intro k entry hentry hphase
  obtain ⟨_, _, _, _, _, hretained⟩ := (hkept.balanced k entry hentry).staging hphase
  rw [hretained, Nat.zero_add]
  exact (run_bounded run hentry).stagedScenes

end Runs

/-- A projection and a piece are staged and dropped, then staged again and
published. -/
def accountingOps : List (Op emptyScenes) :=
  let owner : PreparationOwner := ⟨0, 0, 7, ["top"]⟩
  [.createOwner ⟨"org.module", 7, ["top"]⟩, .begin 0 owner, .requestProjections 0 ["top"] (),
    .publish ⟨owner, 0⟩ ⟨"scene", "top", ()⟩, .put 0 "plan" [1, 2, 3], .dropTransaction 0,
    .begin 0 owner, .requestProjections 1 ["top"] (), .publish ⟨owner, 1⟩ ⟨"scene", "top", ()⟩,
    .put 1 "plan" [4, 5], .finish 1 (.ok ()), .validated 1 (.ok ())]

theorem accounting_exact_of_ops :
    ∃ trace w, (machine emptyScenes).Run trace w ∧ RequestedOnce trace ∧
      (w.store.owners[0]?.map fun entry => (entry.metadata.retainedPayloadBytes,
        entry.metadata.retainedNameBytes, entry.diagnostics.retainedBytes)) = some (2, 4, 8) ∧
      AccountingLaws w := by
  have hrun : ((machine emptyScenes).replay accountingOps).map (fun result =>
      (decide (RequestedOnce result.1), result.2.store.owners[0]?.map fun entry =>
        (entry.metadata.retainedPayloadBytes, entry.metadata.retainedNameBytes,
          entry.diagnostics.retainedBytes))) = some (true, some (2, 4, 8)) := by decide
  obtain ⟨⟨trace, w⟩, hreplay, hw⟩ := Option.map_eq_some_iff.mp hrun
  obtain ⟨honce, hbooks⟩ := Prod.mk.inj hw
  have run := Machine.run_of_replay hreplay
  have honce : RequestedOnce trace := of_decide_eq_true honce
  exact ⟨trace, w, run, honce, hbooks, accounting_exact run honce⟩

end PinchNPrint.Preparation
