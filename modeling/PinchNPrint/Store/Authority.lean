/-
Stale write authority.

A `ProjectionWriter` is bound to the call identity of the transaction it was
obtained from, and `begin` gives a transaction a fresh identity unless the
thread is inside an `active_guard` invocation of the owner, whose identity it
then inherits. A second transaction begun under the same invocation therefore
has the identity of the first, and a writer of the first still reaches it
(`stale_writer_publishes`).

Whether that can happen is decided by the transactions a run begins
(`FreshAuthority`): `stale_denied_iff` says that stale writers are denied in
every state of a run exactly when no transaction is begun under an identity
that a writer of its owner already carries.
-/

import PinchNPrint.Store.Lifecycle

namespace PinchNPrint.Preparation

open Std

variable {M : SceneModel}

/-! ### Identities are handed out in order -/

/-- Every identity in use has been handed out. -/
structure Minted (w : World M) : Prop where
  entries : ∀ (k : Nat) (entry : OwnerState M) (i : Identity), w.store.owners[k]? = some entry →
    entry.callIdentity = some i → i < w.nextIdentity
  active : ∀ (thread : Nat) (invocation : ActivePreparationInvocation),
    w.active[thread]? = some invocation → invocation.callIdentity < w.nextIdentity
  shadowed : ∀ (g thread : Nat) (owner : PreparationOwner)
    (previous : ActivePreparationInvocation),
    w.guards[g]? = some ⟨owner, .call thread (some previous)⟩ →
      previous.callIdentity < w.nextIdentity

section Step

variable {w w' : World M} {op : Op M} {reply : Reply M} {k : Nat} {entry entry' : OwnerState M}

theorem EntryStep.callIdentity (h : EntryStep w op reply k entry entry') {i : Identity}
    (hidentity : entry'.callIdentity = some i) :
    entry.callIdentity = some i ∨
      ∃ thread owner, op = .begin thread owner ∧ reply = .transaction w.nextTransaction ∧
        owner.id = k ∧ i = w.beginIdentity thread owner := by
  have hsame : ∀ {new : OwnerState M}, SameStanding entry new → new.callIdentity = some i →
      entry.callIdentity = some i := by
    intro new hstanding hnew
    rw [← hstanding.identity]
    exact hnew
  cases h with
  | same _ => exact Or.inl hidentity
  | began hop hreply hid hphase =>
    refine Or.inr ⟨_, _, hop, hreply, hid, ?_⟩
    simpa [OwnerState.begin, hphase, eq_comm] using hidentity
  | staged _ _ _ hchange => exact Or.inl (hsame (.of_staging hchange) hidentity)
  | forwarded _ _ _ _ hchange => exact Or.inl (hsame (.of_forwarding hchange) hidentity)
  | checked _ _ _ _ => exact Or.inl (hsame (.of_finishCheck entry) hidentity)
  | unpublished _ _ _ _ _ hfailed =>
    exact Or.inl (hsame (.of_finishPublish_error hfailed) hidentity)
  | published _ _ _ _ _ hpublish =>
    obtain ⟨_, _, rfl⟩ := OwnerState.finishPublish_eq_ok hpublish
    cases hidentity
  | cleared _ _ _ _ => cases hidentity
  | counted _ _ _ => exact Or.inl hidentity
  | read _ _ _ _ _ hread => exact Or.inl (hsame (.of_read hread) hidentity)
  | invoked _ _ => exact Or.inl hidentity
  | disposed _ _ => cases hidentity

theorem EntryStep.staging_of_identity (h : EntryStep w op reply k entry entry')
    (hold : entry.callIdentity ≠ none → entry.metadata.phase = .staging)
    (hidentity : entry'.callIdentity ≠ none) : entry'.metadata.phase = .staging := by
  have hsame : ∀ {new : OwnerState M}, SameStanding entry new → new.callIdentity ≠ none →
      new.metadata.phase = .staging := by
    intro new hstanding hnew
    rw [hstanding.identity] at hnew
    rw [hstanding.phase]
    exact hold hnew
  cases h with
  | same _ => exact hold hidentity
  | began _ _ _ hphase => simp [OwnerState.begin, hphase]
  | staged _ _ _ hchange => exact hsame (.of_staging hchange) hidentity
  | forwarded _ _ _ _ hchange => exact hsame (.of_forwarding hchange) hidentity
  | checked _ _ _ _ => exact hsame (.of_finishCheck entry) hidentity
  | unpublished _ _ _ _ _ hfailed => exact hsame (.of_finishPublish_error hfailed) hidentity
  | published _ _ _ _ _ hpublish =>
    obtain ⟨_, _, rfl⟩ := OwnerState.finishPublish_eq_ok hpublish
    exact absurd rfl hidentity
  | cleared _ _ _ _ => exact absurd rfl hidentity
  | counted _ _ _ => exact hold hidentity
  | read _ _ _ _ _ hread => exact hsame (.of_read hread) hidentity
  | invoked _ _ => exact hold hidentity
  | disposed _ _ => exact absurd rfl hidentity

/-- What a successful `begin` did. -/
theorem begin_effect_of_transaction {thread t : Nat} {owner : PreparationOwner}
    (h : w.step (.begin thread owner) = some (w', .transaction t)) :
    ∃ entry, w.store.checkOwner owner = .ok entry ∧ entry.metadata.phase = .unready ∧
      t = w.nextTransaction ∧ w' = { w with
        store := w.store.set owner.id (entry.begin (w.beginIdentity thread owner)).1
        transactions := w.transactions.insert w.nextTransaction ⟨owner, .writing⟩
        nextIdentity := w.nextIdentity + 1
        nextTransaction := w.nextTransaction + 1 } := by
  have heffect := World.step_effect h
  cases heffect with
  | quiet hreply => cases hreply
  | began hown hfound hphase => exact ⟨_, hfound, hphase, rfl, rfl⟩
  | staged _ _ hchange => cases hchange
  | forwarded _ _ _ _ hchange => cases hchange
  | ended _ hends => cases hends

theorem Minted.beginIdentity_le (hm : Minted w) (thread : Nat) (owner : PreparationOwner) :
    w.beginIdentity thread owner ≤ w.nextIdentity := by
  unfold World.beginIdentity World.currentCallIdentity
  cases hactive : w.active[thread]? with
  | none => exact Nat.le_refl _
  | some invocation =>
    have hlt := hm.active thread invocation hactive
    by_cases hsame : owner.sameOwner invocation.owner = true
    · simp only [hsame, if_true, Option.getD_some]
      exact Nat.le_of_lt hlt
    · simp [hsame]

/-- Restoring a shadowed invocation brings back a minted identity. -/
theorem Minted.restore (hm : Minted w) {g : Nat} {held : ReadGuard}
    (hlive : w.guards[g]? = some held) {thread : Nat} {invocation : ActivePreparationInvocation}
    (h : (w.restore held.scope)[thread]? = some invocation) :
    invocation.callIdentity < w.nextIdentity := by
  obtain ⟨owner, scope⟩ := held
  cases scope with
  | pieceRead id offset maxBytes => exact hm.active thread invocation h
  | call thread' previous =>
    cases previous with
    | none => exact hm.active thread invocation (BTreeMap.getElem?_erase_cases h).2
    | some previous =>
      rcases BTreeMap.getElem?_insert_cases h with ⟨_, rfl⟩ | hold
      · exact hm.shadowed g thread' owner _ hlive
      · exact hm.active thread invocation hold

theorem Minted.step (hm : Minted w) (hw : Coherent w) (h : w.step op = some (w', reply)) :
    Minted w' := by
  have hle := (numbers_le hw h).2.2
  constructor
  · intro k entry' i hentry' hidentity
    rcases entry_origin hw h hentry' with ⟨entry, hentry, hmove⟩ | ⟨binding, _, _, _, rfl⟩
    · rcases hmove.callIdentity hidentity with hold | ⟨thread, owner, rfl, rfl, _, rfl⟩
      · exact Nat.lt_of_lt_of_le (hm.entries k entry i hentry hold) hle
      · obtain ⟨_, _, _, _, rfl⟩ := begin_effect_of_transaction h
        exact Nat.lt_succ_of_le (hm.beginIdentity_le thread owner)
    · cases hidentity
  · intro thread invocation hinvocation
    have heffect := World.step_effect h
    cases heffect with
    | guarded _ _ =>
      rcases BTreeMap.getElem?_insert_cases hinvocation with ⟨_, rfl⟩ | hold
      · exact Nat.lt_succ_self _
      · exact Nat.lt_succ_of_lt (hm.active thread invocation hold)
    | ended hlive hends =>
      obtain ⟨found, hfound, _⟩ := hw.transactional.staging _ _ hlive
      rw [dropTransaction_eq hfound] at hinvocation ⊢
      exact hm.active thread invocation hinvocation
    | released hlive =>
      obtain ⟨found, hfound⟩ := hw.guarded.owned _ _ hlive
      rw [dropGuard_eq hfound (hw.guarded.count_pos hlive hfound)] at hinvocation ⊢
      exact hm.restore hlive hinvocation
    | _ => exact Nat.lt_of_lt_of_le (hm.active thread invocation hinvocation) hle
  · intro g thread owner previous hguard
    have heffect := World.step_effect h
    cases heffect with
    | guarded _ _ =>
      rcases BTreeMap.getElem?_insert_cases hguard with ⟨_, hnew⟩ | hold
      · obtain ⟨_, hscope⟩ := ReadGuard.mk.inj hnew
        obtain ⟨_, hprevious⟩ := GuardScope.call.inj hscope
        exact Nat.lt_succ_of_lt (hm.active _ previous hprevious.symm)
      · exact Nat.lt_succ_of_lt (hm.shadowed g thread owner previous hold)
    | reading _ _ =>
      rcases BTreeMap.getElem?_insert_cases hguard with ⟨_, hnew⟩ | hold
      · cases hnew
      · exact hm.shadowed g thread owner previous hold
    | ended hlive hends =>
      obtain ⟨found, hfound, _⟩ := hw.transactional.staging _ _ hlive
      rw [dropTransaction_eq hfound] at hguard ⊢
      exact hm.shadowed g thread owner previous hguard
    | released hlive =>
      obtain ⟨found, hfound⟩ := hw.guarded.owned _ _ hlive
      rw [dropGuard_eq hfound (hw.guarded.count_pos hlive hfound)] at hguard ⊢
      exact hm.shadowed g thread owner previous (BTreeMap.getElem?_erase_cases hguard).2
    | _ => exact Nat.lt_of_lt_of_le (hm.shadowed g thread owner previous hguard) hle

end Step

variable {trace : List (Event (World M) (Op M) (Reply M))}

theorem run_minted {w : World M} (run : (machine M).Run trace w) : Minted w := by
  induction run with
  | start =>
    constructor
    · intro k entry i hentry
      simp [machine, World.initial] at hentry
    · intro thread invocation hinvocation
      simp [machine, World.initial] at hinvocation
    · intro g thread owner previous hguard
      simp [machine, World.initial] at hguard
  | step run h ih => exact ih.step (run_coherent run) h

theorem run_staging_of_identity {w : World M} (run : (machine M).Run trace w) {k : Nat}
    {entry : OwnerState M} {i : Identity} (hentry : w.store.owners[k]? = some entry)
    (hidentity : entry.callIdentity = some i) : entry.metadata.phase = .staging := by
  refine entry_invariant
    (P := fun entry => entry.callIdentity ≠ none → entry.metadata.phase = .staging) ?_ ?_ run hentry
    (by rw [hidentity]; exact Option.some_ne_none i)
  · intro binding hnone
    exact absurd rfl hnone
  · intro w op reply k entry entry' _ hmove hold
    exact hmove.staging_of_identity hold

/-! ### Writers and the transactions they come from -/

/-- The run obtained this writer from transaction `t`. -/
def Handed (trace : List (Event (World M) (Op M) (Reply M))) (t : Nat)
    (writer : ProjectionWriter) : Prop :=
  ∃ e ∈ trace, e.op = .projectionWriter t ∧ e.reply = .writer (some writer)

/-- A writer of an ended transaction is denied and changes nothing. -/
def StaleDenied (trace : List (Event (World M) (Op M) (Reply M))) (w : World M) : Prop :=
  ∀ t writer, Handed trace t writer → w.transactions[t]? = none →
    ∀ op w' reply, (op = .requestedViews writer ∨ ∃ scene, op = .publish writer scene) →
      w.step op = some (w', reply) → reply = .projection .accessDenied ∧ w' = w

/-- No transaction is begun under an inherited identity that a writer of its
owner already carries. -/
def FreshAuthority (trace : List (Event (World M) (Op M) (Reply M))) : Prop :=
  ∀ past e future, trace = past ++ e :: future → ∀ thread owner t i, e.op = .begin thread owner →
    e.reply = .transaction t → e.before.currentCallIdentity thread owner = some i →
      ¬ ∃ u writer, Handed past u writer ∧ writer.owner.id = owner.id ∧ writer.callIdentity = i

/-- What is known of a writer: its transaction has begun, its identity is
minted, its owner exists, and while the transaction lives it is the writer's
owner's. -/
structure Origin (w : World M) (t : Nat) (writer : ProjectionWriter) : Prop where
  begun : t < w.nextTransaction
  minted : writer.callIdentity < w.nextIdentity
  known : ∃ entry, w.store.owners[writer.owner.id]? = some entry ∧
    entry.artifactIdentity = writer.owner.artifactIdentity
  owner : ∀ tx, w.transactions[t]? = some tx → tx.owner = writer.owner

section Step

variable {w w' : World M} {op : Op M} {reply : Reply M} {t : Nat} {writer : ProjectionWriter}

/-- A writer comes from a live transaction and carries its owner's identity. -/
theorem projectionWriter_some (h : w.step (.projectionWriter t) = some (w', .writer (some writer))) :
    w' = w ∧ ∃ entry, w.transactions[t]? = some ⟨writer.owner, .writing⟩ ∧
      w.store.checkOwner writer.owner = .ok entry ∧
      entry.callIdentity = some writer.callIdentity := by
  obtain ⟨owner, hlive, hwriter⟩ := World.writing_eq_some h
  obtain ⟨hsame, hreply⟩ := Prod.mk.inj hwriter
  unfold World.projectionWriter at hreply
  split at hreply
  · cases hreply
  · rename_i entry hfound
    split at hreply
    · cases hreply
    · rename_i identity hidentity
      obtain ⟨_, _, rfl⟩ := Option.map_eq_some_iff.mp (Reply.writer.inj hreply)
      exact ⟨hsame.symm, entry, hlive, hfound, hidentity⟩

theorem Origin.step (h : w.step op = some (w', reply)) (hw : Coherent w)
    (horigin : Origin w t writer) : Origin w' t writer := by
  constructor
  · exact Nat.lt_of_lt_of_le horigin.begun (numbers_le hw h).1
  · exact Nat.lt_of_lt_of_le horigin.minted (numbers_le hw h).2.2
  · obtain ⟨entry, hentry, hartifact⟩ := horigin.known
    obtain ⟨entry', hentry', hmove⟩ := step_entry hw h hentry
    exact ⟨entry', hentry', hmove.artifact.trans hartifact⟩
  · intro tx hlive
    rcases transaction_origin hw h hlive with ⟨old, hold, howner⟩ | ⟨hnext, _⟩
    · rw [← howner]
      exact horigin.owner old hold
    · have := horigin.begun
      omega

end Step

section Runs

variable {trace : List (Event (World M) (Op M) (Reply M))} {w w' : World M} {op : Op M}
  {reply : Reply M} {t : Nat} {writer : ProjectionWriter}

theorem Handed.append (h : Handed trace t writer)
    (more : List (Event (World M) (Op M) (Reply M))) : Handed (trace ++ more) t writer := by
  obtain ⟨e, he, hop, hreply⟩ := h
  exact ⟨e, List.mem_append_left _ he, hop, hreply⟩

theorem handed_snoc {e : Event (World M) (Op M) (Reply M)} (h : Handed (trace ++ [e]) t writer) :
    Handed trace t writer ∨ (e.op = .projectionWriter t ∧ e.reply = .writer (some writer)) := by
  obtain ⟨e', he', hop, hreply⟩ := h
  rcases List.mem_append.mp he' with he' | he'
  · exact Or.inl ⟨e', he', hop, hreply⟩
  · obtain rfl := List.mem_singleton.mp he'
    exact Or.inr ⟨hop, hreply⟩

theorem run_origin (run : (machine M).Run trace w) (h : Handed trace t writer) :
    Origin w t writer := by
  obtain ⟨e, he, hop, hreply⟩ := h
  obtain ⟨past, future, rfl⟩ := List.append_of_mem he
  obtain ⟨before, hstep⟩ := run.split
  apply run.stable (P := fun w => Origin w t writer)
  · rw [hop, hreply] at hstep
    obtain ⟨hsame, entry, hlive, hfound, hidentity⟩ := projectionWriter_some hstep
    obtain ⟨hentry, hartifact, _⟩ := StoreState.checkOwner_ok_iff.mp hfound
    rw [hsame]
    constructor
    · exact (run_coherent before).transactional.issued t _ hlive
    · exact (run_minted before).entries _ entry _ hentry hidentity
    · exact ⟨entry, hentry, hartifact⟩
    · intro tx htx
      rw [hlive] at htx
      cases htx
      rfl
  · intro trace w op w' reply run horigin h
    exact horigin.step h (run_coherent run)

theorem FreshAuthority.of_append {more : List (Event (World M) (Op M) (Reply M))}
    (h : FreshAuthority (trace ++ more)) : FreshAuthority trace := by
  intro past e future htrace
  exact h past e (future ++ more) (by rw [htrace]; simp)

/-- No owner carries the identity of a stale writer of its own. -/
def Revoked (trace : List (Event (World M) (Op M) (Reply M))) (w : World M) : Prop :=
  ∀ t writer entry, Handed trace t writer → w.transactions[t]? = none →
    w.store.owners[writer.owner.id]? = some entry → entry.callIdentity ≠ some writer.callIdentity

theorem identity_of_ended (run : (machine M).Run trace w) (h : w.step op = some (w', reply))
    {tx : PreparationTransaction} (hlive : w.transactions[t]? = some tx)
    (hended : w'.transactions[t]? = none) {entry' : OwnerState M}
    (hentry' : w'.store.owners[tx.owner.id]? = some entry') : entry'.callIdentity = none := by
  have hw := run_coherent run
  cases hidentity : entry'.callIdentity with
  | none => rfl
  | some i =>
    have hphase := run_staging_of_identity (run.step h) hentry' hidentity
    obtain ⟨u, tx', hlive', _, horigin⟩ := staging_transaction hw h hentry' hphase
    rcases horigin with ⟨old, hold, hid⟩ | ⟨_, thread, owner, rfl, rfl, hid⟩
    · obtain rfl : u = t := hw.transactional.unique _ _ _ _ hold hlive hid
      rw [hended] at hlive'
      cases hlive'
    · -- A staging owner cannot be begun.
      obtain ⟨entry, hfound, hunready, _⟩ := begin_effect_of_transaction h
      obtain ⟨staging, hstaging, hphase⟩ := hw.transactional.staging t tx hlive
      have hlookup := (StoreState.checkOwner_ok_iff.mp hfound).1
      rw [hid, (StoreState.checkOwner_ok_iff.mp hstaging).1] at hlookup
      cases hlookup
      rw [hunready] at hphase
      cases hphase

theorem run_revoked (run : (machine M).Run trace w) (hfresh : FreshAuthority trace) :
    Revoked trace w := by
  refine run.invariant (P := fun trace w => FreshAuthority trace → Revoked trace w) ?_ ?_ hfresh
  · rintro _ t writer entry ⟨e, he, _⟩
    cases he
  · intro trace w op w' reply run ih h hfresh
    have hw := run_coherent run
    have hold := ih hfresh.of_append
    intro t writer entry' hhanded hended hentry' hidentity
    rcases handed_snoc hhanded with hbefore | ⟨hop, hreply⟩
    · have horigin := run_origin run hbefore
      cases hlive : w.transactions[t]? with
      | some tx =>
        have howner := horigin.owner tx hlive
        rw [← howner] at hentry'
        rw [identity_of_ended run h hlive hended hentry'] at hidentity
        cases hidentity
      | none =>
        obtain ⟨entry, hentry, _⟩ := horigin.known
        obtain ⟨moved, hmoved, hmove⟩ := step_entry hw h hentry
        obtain rfl : moved = entry' := Option.some.inj (hmoved.symm.trans hentry')
        rcases hmove.callIdentity hidentity with hsame | ⟨thread, owner, rfl, rfl, hid, hbegin⟩
        · exact hold t writer entry hbefore hlive hentry hsame
        · -- The owner was begun anew: under a fresh identity, or an inherited one.
          cases hinherited : w.currentCallIdentity thread owner with
          | none =>
            rw [World.beginIdentity, hinherited, Option.getD_none] at hbegin
            have := horigin.minted
            rw [hbegin] at this
            exact Nat.lt_irrefl _ this
          | some i =>
            rw [World.beginIdentity, hinherited, Option.getD_some] at hbegin
            exact hfresh trace _ [] rfl thread owner _ i rfl rfl hinherited
              ⟨t, writer, hbefore, hid.symm, hbegin⟩
    · simp only at hop hreply
      subst hop hreply
      obtain ⟨rfl, _, hlive, _⟩ := projectionWriter_some h
      rw [hended] at hlive
      cases hlive

theorem withWriter_denied {α : Type}
    (operation : OwnerState M → Except ProjectionFault (OwnerState M × α)) (answer : α → Reply M)
    (hforeign : ∀ entry, w.store.owners[writer.owner.id]? = some entry →
      entry.callIdentity ≠ some writer.callIdentity) :
    w.withWriter writer operation answer = (w, .projection .accessDenied) := by
  unfold World.withWriter StoreState.withEntry
  cases hfound : w.store.checkOwner writer.owner with
  | error error => rfl
  | ok entry =>
    have hentry := (StoreState.checkOwner_ok_iff.mp hfound).1
    have hdenied : OwnerState.withWriter writer.callIdentity operation entry =
        (entry, .error .accessDenied) := if_pos (Or.inl (hforeign entry hentry))
    simp only [hdenied, StoreState.set_self hentry]
    rfl

theorem requestedViews_not_denied {entry : OwnerState M}
    (hfound : w.store.checkOwner writer.owner = .ok entry)
    (hidentity : entry.callIdentity = some writer.callIdentity)
    (hphase : entry.metadata.phase = .staging) (hclean : entry.poisoned = false) :
    ∃ w' reply, w.step (.requestedViews writer) = some (w', reply) ∧
      reply ≠ .projection .accessDenied := by
  refine ⟨(w.withWriter writer OwnerState.requestedViews .views).1,
    (w.withWriter writer OwnerState.requestedViews .views).2, rfl, ?_⟩
  unfold World.withWriter StoreState.withEntry
  cases hprojection : entry.projection with
  | none =>
    simp [hfound, OwnerState.withWriter, hidentity, hphase, hclean, OwnerState.requestedViews,
      hprojection]
  | some projection =>
    simp [hfound, OwnerState.withWriter, hidentity, hphase, hclean, OwnerState.requestedViews,
      hprojection]

/-- Where no owner carries a stale identity, stale writers are denied. -/
theorem Revoked.staleDenied (h : Revoked trace w) : StaleDenied trace w := by
  intro t writer hhanded hended op w' reply hop hstep
  have hforeign := fun entry hentry => h t writer entry hhanded hended hentry
  rcases hop with rfl | ⟨scene, rfl⟩
  · have hdenied := withWriter_denied OwnerState.requestedViews Reply.views hforeign
    rw [World.step, hdenied] at hstep
    cases hstep
    exact ⟨rfl, rfl⟩
  · have hdenied := withWriter_denied
      (OwnerState.stageScene writer.owner.declaredViews scene) (fun _ => .done) hforeign
    rw [World.step, hdenied] at hstep
    cases hstep
    exact ⟨rfl, rfl⟩

/-- A transaction begun under the identity of a writer of its owner makes that
writer work again. -/
theorem not_staleDenied_of_reuse (run : (machine M).Run trace w) {thread u : Nat}
    {owner : PreparationOwner} (h : w.step (.begin thread owner) = some (w', .transaction u))
    (hinherited : w.currentCallIdentity thread owner = some writer.callIdentity)
    (hhanded : Handed trace t writer) (hid : writer.owner.id = owner.id) :
    ¬ StaleDenied (trace ++ [⟨w, .begin thread owner, .transaction u, w'⟩]) w' := by
  intro hdenied
  have hw := run_coherent run
  have horigin := run_origin run hhanded
  obtain ⟨entry, hfound, hphase, rfl, hafter⟩ := begin_effect_of_transaction h
  obtain ⟨hentry, _, hopen, _⟩ := StoreState.checkOwner_ok_iff.mp hfound
  have hended : w.transactions[t]? = none := by
    by_contra hsome
    obtain ⟨tx, hlive⟩ := Option.ne_none_iff_exists'.mp hsome
    obtain ⟨staging, hstaging, hstagingPhase⟩ := hw.transactional.staging t tx hlive
    have hlookup := (StoreState.checkOwner_ok_iff.mp hstaging).1
    rw [horigin.owner tx hlive, hid, hentry] at hlookup
    cases hlookup
    rw [hphase] at hstagingPhase
    cases hstagingPhase
  have hended' : w'.transactions[t]? = none := by
    rw [hafter]
    exact (BTreeMap.getElem?_insert_of_ne (Nat.ne_of_gt horigin.begun) _).trans hended
  have hcurrent : w'.store.checkOwner writer.owner = .ok { entry with
      metadata := { entry.metadata with phase := .staging }
      writerFault := none
      projectionFailure := none
      callIdentity := some writer.callIdentity } := by
    obtain ⟨known, hknown, hartifact⟩ := horigin.known
    rw [hid, hentry] at hknown
    cases hknown
    rw [StoreState.checkOwner_ok_iff, hid, hafter, lookup_set, if_pos rfl]
    refine ⟨?_, hartifact, hopen, fun h => by cases h⟩
    simp [OwnerState.begin, hphase, World.beginIdentity, hinherited]
  obtain ⟨w'', reply, hstep, hreply⟩ := requestedViews_not_denied hcurrent rfl rfl rfl
  exact hreply (hdenied t writer (hhanded.append _) hended' _ w'' reply (Or.inl rfl) hstep).1

/-- **Stale write authority is dead exactly in the runs that begin every
transaction under an identity no writer of its owner carries.** -/
theorem stale_denied_iff (run : (machine M).Run trace w) :
    (∀ past future w', trace = past ++ future → (machine M).Run past w' → StaleDenied past w') ↔
      FreshAuthority trace := by
  constructor
  · rintro hdenied past e future rfl thread owner t i hop hreply hinherited
      ⟨u, writer, hhanded, hid, rfl⟩
    obtain ⟨before, hstep⟩ := run.split
    obtain ⟨start, op, reply, after⟩ := e
    simp only at hop hreply hinherited hstep before
    subst hop hreply
    apply not_staleDenied_of_reuse before hstep hinherited hhanded hid
    apply hdenied _ future after
    · simp
    · exact before.step hstep
  · rintro hfresh past future w' rfl before
    exact (run_revoked before hfresh.of_append).staleDenied

end Runs

/-- The writer an event handed out, with its transaction. -/
def handedWriter (e : Event (World M) (Op M) (Reply M)) : Option (Nat × ProjectionWriter) :=
  match e.op, e.reply with
  | .projectionWriter t, .writer (some writer) => some (t, writer)
  | _, _ => none

theorem handed_of_mem {t : Nat} {writer : ProjectionWriter}
    (h : (t, writer) ∈ trace.filterMap handedWriter) : Handed trace t writer := by
  obtain ⟨e, he, hwriter⟩ := List.mem_filterMap.mp h
  unfold handedWriter at hwriter
  split at hwriter
  · rename_i hop hreply
    cases hwriter
    exact ⟨e, he, hop, hreply⟩
  · cases hwriter

def Reply.isDone : Reply M → Bool
  | .done => true
  | _ => false

theorem Reply.eq_done_of_isDone {reply : Reply M} (h : reply.isDone = true) : reply = .done := by
  cases reply <;> first | rfl | cases h

/-- The owner both runs below work on. -/
def staleOwner : PreparationOwner := ⟨0, 0, 7, ["top"]⟩

/-- The first transaction is dropped and a second begun in one guarded call. -/
def staleOps : List (Op emptyScenes) :=
  [.createOwner ⟨"org.module", 7, ["top"]⟩, .activeGuard 0 staleOwner, .begin 0 staleOwner,
    .requestProjections 0 ["top"] (), .projectionWriter 0, .dropTransaction 0,
    .begin 0 staleOwner, .requestProjections 1 ["top"] ()]

/-- The writer of the dropped transaction publishes into the second one. -/
theorem stale_writer_publishes :
    ∃ trace w, (machine emptyScenes).Run trace w ∧ Handed trace 0 ⟨staleOwner, 0⟩ ∧
      w.transactions[0]? = none ∧ w.transactions[1]? = some ⟨staleOwner, .writing⟩ ∧
      (∃ w', w.step (.publish ⟨staleOwner, 0⟩ ⟨"scene", "top", ()⟩) = some (w', .done) ∧
        (w'.store.owners[0]?.map fun entry => entry.diagnostics.publishedScenes) = some 1) ∧
      ¬ StaleDenied trace w := by
  have hrun : ((machine emptyScenes).replay staleOps).map (fun result =>
      (result.1.filterMap handedWriter,
        (result.2.transactions[0]?.isNone,
          decide (result.2.transactions[1]? = some ⟨staleOwner, .writing⟩)),
        (result.2.step (.publish ⟨staleOwner, 0⟩ ⟨"scene", "top", ()⟩)).map fun next =>
          (next.2.isDone,
            next.1.store.owners[0]?.map fun entry => entry.diagnostics.publishedScenes))) =
      some ([(0, ⟨staleOwner, 0⟩)], (true, true), some (true, some 1)) := by
    decide
  obtain ⟨⟨trace, w⟩, hreplay, hw⟩ := Option.map_eq_some_iff.mp hrun
  simp only [Prod.mk.injEq, Option.isNone_iff_eq_none, decide_eq_true_eq] at hw
  obtain ⟨hwriters, ⟨hended, hlive⟩, hpublish⟩ := hw
  obtain ⟨⟨w', reply⟩, hstep, hdone⟩ := Option.map_eq_some_iff.mp hpublish
  obtain ⟨hreply, hscenes⟩ := Prod.mk.inj hdone
  have hhanded : Handed trace 0 ⟨staleOwner, 0⟩ := handed_of_mem (by rw [hwriters]; simp)
  obtain rfl := Reply.eq_done_of_isDone hreply
  refine ⟨trace, w, Machine.run_of_replay hreplay, hhanded, hended, hlive, ⟨w', hstep, hscenes⟩, ?_⟩
  intro hdenied
  have hcontra := (hdenied 0 _ hhanded hended _ w' _ (Or.inr ⟨_, rfl⟩) hstep).1
  cases hcontra

/-- Each transaction is begun in a guarded call of its own. -/
def freshOps : List (Op emptyScenes) :=
  [.createOwner ⟨"org.module", 7, ["top"]⟩, .activeGuard 0 staleOwner, .begin 0 staleOwner,
    .requestProjections 0 ["top"] (), .projectionWriter 0, .dropTransaction 0, .dropGuard 0,
    .activeGuard 0 staleOwner, .begin 0 staleOwner, .requestProjections 1 ["top"] (),
    .projectionWriter 1]

theorem stale_denied_iff_of_ops :
    ∃ trace w, (machine emptyScenes).Run trace w ∧ Handed trace 0 ⟨staleOwner, 0⟩ ∧
      Handed trace 1 ⟨staleOwner, 2⟩ ∧
      ((∀ past future w', trace = past ++ future → (machine emptyScenes).Run past w' →
        StaleDenied past w') ↔ FreshAuthority trace) := by
  have hrun : ((machine emptyScenes).replay freshOps).map (fun result =>
      result.1.filterMap handedWriter) = some [(0, ⟨staleOwner, 0⟩), (1, ⟨staleOwner, 2⟩)] := by
    decide
  obtain ⟨⟨trace, w⟩, hreplay, hwriters⟩ := Option.map_eq_some_iff.mp hrun
  have run := Machine.run_of_replay hreplay
  refine ⟨trace, w, run, handed_of_mem ?_, handed_of_mem ?_, stale_denied_iff run⟩
  · rw [hwriters]
    simp
  · rw [hwriters]
    simp

end PinchNPrint.Preparation
