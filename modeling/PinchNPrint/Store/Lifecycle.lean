/-
How one owner's entry evolves.

In a coherent world a step moves the entry of an owner by one `EntryStep`, with
the phase it starts from made explicit: transactions and writers act on staging
owners only, reads on ready ones, and nothing but the invocation count moves in
a disposed one. Facts about a single owner are proved by cases on `EntryStep`
and lifted to runs by `entry_invariant`.
-/

import PinchNPrint.Store.Coherence

namespace PinchNPrint.Preparation

open Std

variable {M : SceneModel}

/-- The reply reports a change to owner `k`. -/
def Addressed (w : World M) (k : Nat) : Op M → Reply M → Prop
  | .begin _ owner, .transaction _ => owner.id = k
  | .put t _ _, .done => ∃ tx, w.transactions[t]? = some tx ∧ tx.owner.id = k
  | .publish writer _, .done => writer.owner.id = k
  | .validated _ _, .plan plan => plan.owner.id = k
  | _, _ => False

variable {k : Nat} {w : World M}

theorem Addressed.reportsChange {op : Op M} {reply : Reply M} (h : Addressed w k op reply) :
    reply.reportsChange op = true := by
  unfold Addressed at h
  split at h <;> first | rfl | exact h.elim

/-- A step of `w` moves the entry of owner `k` from `entry` to another. -/
inductive EntryStep (w : World M) (op : Op M) (reply : Reply M) (k : Nat) (entry : OwnerState M) :
    OwnerState M → Prop
  | same (hother : ¬ Addressed w k op reply) : EntryStep w op reply k entry entry
  | began {thread : Nat} {owner : PreparationOwner} (hop : op = .begin thread owner)
      (hreply : reply = .transaction w.nextTransaction) (hid : owner.id = k)
      (hphase : entry.metadata.phase = .unready) :
      EntryStep w op reply k entry (entry.begin (w.beginIdentity thread owner)).1
  | staged {t : Nat} {owner : PreparationOwner} {entry' : OwnerState M}
      (hlive : w.transactions[t]? = some ⟨owner, .writing⟩) (hid : owner.id = k)
      (hphase : entry.metadata.phase = .staging)
      (hchange : Staging t owner entry op reply entry') : EntryStep w op reply k entry entry'
  | forwarded {writer : ProjectionWriter} {entry' : OwnerState M} (hid : writer.owner.id = k)
      (hidentity : entry.callIdentity = some writer.callIdentity)
      (hphase : entry.metadata.phase = .staging) (hclean : entry.poisoned = false)
      (hchange : Forwarding writer entry op reply entry') : EntryStep w op reply k entry entry'
  | checked {t : Nat} {owner : PreparationOwner} {result : Except PreparationFailure Unit}
      (hop : op = .finish t result) (hlive : w.transactions[t]? = some ⟨owner, .writing⟩)
      (hid : owner.id = k) (hphase : entry.metadata.phase = .staging) :
      EntryStep w op reply k entry entry.finishCheck.1
  | unpublished {t : Nat} {owner : PreparationOwner} {staged : List (String × Nat)}
      {error : PreparationFailure} (hop : op = .validated t (.ok ())) (hreply : reply = .returning)
      (hlive : w.transactions[t]? = some ⟨owner, .validating staged⟩) (hid : owner.id = k)
      (hphase : entry.metadata.phase = .staging)
      (hfailed : (entry.finishPublish staged).2 = .error error) :
      EntryStep w op reply k entry (entry.finishPublish staged).1
  | published {t : Nat} {owner : PreparationOwner} {staged : List (String × Nat)}
      {ready : OwnerState M} (hop : op = .validated t (.ok ())) (hreply : reply = .plan ⟨owner⟩)
      (hlive : w.transactions[t]? = some ⟨owner, .validating staged⟩) (hid : owner.id = k)
      (hphase : entry.metadata.phase = .staging)
      (hpublish : entry.finishPublish staged = (ready, .ok ())) :
      EntryStep w op reply k entry ready
  | cleared {t : Nat} {tx : PreparationTransaction} (hlive : w.transactions[t]? = some tx)
      (hid : tx.owner.id = k) (hphase : entry.metadata.phase = .staging) (hends : Ends t op) :
      EntryStep w op reply k entry (entry.clear .unready)
  | counted {reads : Nat} (hphase : entry.metadata.phase ≠ .disposed)
      (hroom : reads < 2 ^ 64 ∨ reads ≤ entry.activeReads) (hother : ¬ Addressed w k op reply) :
      EntryStep w op reply k entry { entry with activeReads := reads }
  | read {guard id offset maxBytes : Nat} {owner : PreparationOwner} {entry' : OwnerState M}
      {bytes : List UInt8} (hop : op = .read guard) (hreply : reply = .bytes bytes)
      (hlive : w.guards[guard]? = some ⟨owner, .pieceRead id offset maxBytes⟩) (hid : owner.id = k)
      (hphase : entry.metadata.phase ≠ .disposed)
      (hread : entry.read id offset maxBytes = .ok (entry', bytes)) :
      EntryStep w op reply k entry entry'
  | invoked (hop : ∃ owner, op = .recordPrepareInvocation owner)
      (hroom : entry.metadata.prepareInvocations + 1 < 2 ^ 64) :
      EntryStep w op reply k entry { entry with metadata := { entry.metadata with
        prepareInvocations := entry.metadata.prepareInvocations + 1 } }
  | disposed (hidle : entry.busy = false)
      (hop : op = .dispose ∨ ∃ owner, op = .disposeOwner owner ∧ owner.id = k) :
      EntryStep w op reply k entry (entry.clear .disposed)

section Step

variable {w w' : World M} {op : Op M} {reply : Reply M} {k : Nat}

variable {entry entry' : OwnerState M} {t : Nat}

/-- Rewriting one entry moves that owner and leaves the others. -/
private theorem step_of_set {id : Nat} {found : OwnerState M}
    (hstore : w'.store = w.store.set id entry') (hentry : w.store.owners[id]? = some entry)
    (hk : w.store.owners[k]? = some found) (hstep : id = k → EntryStep w op reply k entry entry')
    (hother : id ≠ k → ¬ Addressed w k op reply) :
    ∃ new, w'.store.owners[k]? = some new ∧ EntryStep w op reply k found new := by
  rw [hstore, lookup_set]
  by_cases hid : id = k
  · subst hid
    obtain rfl : entry = found := Option.some.inj (hentry.symm.trans hk)
    exact ⟨entry', by rw [if_pos rfl], hstep rfl⟩
  · exact ⟨found, by rw [if_neg hid]; exact hk, .same (hother hid)⟩

private theorem Staging.not_addressed {owner : PreparationOwner}
    (hlive : w.transactions[t]? = some ⟨owner, .writing⟩)
    (hchange : Staging t owner entry op reply entry') (hid : owner.id ≠ k) :
    ¬ Addressed w k op reply := by
  intro h
  cases hchange with
  | requested hviews hreply => exact h
  | faulted => exact h
  | accepted hclean hstaged =>
    obtain ⟨tx, htx, hk⟩ := h
    obtain rfl : _ = tx := Option.some.inj (hlive.symm.trans htx)
    exact hid hk
  | refused hclean hrefused => exact h

private theorem Forwarding.not_addressed {writer : ProjectionWriter}
    (hchange : Forwarding writer entry op reply entry') (hid : writer.owner.id ≠ k) :
    ¬ Addressed w k op reply := by
  intro h
  cases hchange with
  | unrequested _ => exact h
  | refused _ => exact h
  | accepted _ => exact hid h

/-- A live transaction's entry is the one it stages. -/
theorem Transactional.staging_of_found (hw : Transactional w) {tx : PreparationTransaction}
    (hlive : w.transactions[t]? = some tx) (hfound : w.store.checkOwner tx.owner = .ok entry) :
    entry.metadata.phase = .staging := by
  obtain ⟨staging, hstaging, hphase⟩ := hw.staging t tx hlive
  obtain rfl : staging = entry := Except.ok.inj (hstaging.symm.trans hfound)
  exact hphase

/-- **One step of one owner.** -/
theorem step_entry (hw : Coherent w) (h : w.step op = some (w', reply))
    (hk : w.store.owners[k]? = some entry) :
    ∃ entry', w'.store.owners[k]? = some entry' ∧ EntryStep w op reply k entry entry' := by
  have hlookup : ∀ {owner : PreparationOwner} {found : OwnerState M},
      w.store.checkOwner owner = .ok found → w.store.owners[owner.id]? = some found :=
    fun hfound => (StoreState.checkOwner_ok_iff.mp hfound).1
  have heffect := World.step_effect h
  cases heffect with
  | quiet hreply =>
    refine ⟨entry, hk, .same fun haddressed => ?_⟩
    rw [haddressed.reportsChange] at hreply
    cases hreply
  | created hopen hroom =>
    have hne : w.store.nextOwner ≠ k := (Nat.ne_of_lt (hw.transactional.keys k entry hk)).symm
    exact ⟨entry, (BTreeMap.getElem?_insert_of_ne hne _).trans hk, .same fun h => h⟩
  | began hown hfound hphase =>
    exact step_of_set rfl (hlookup hfound) hk (fun hid => .began rfl rfl hid hphase)
      fun hid h => hid h
  | staged hlive hfound hchange =>
    have hphase := hw.transactional.staging_of_found hlive hfound
    exact step_of_set rfl (hlookup hfound) hk (fun hid => .staged hlive hid hphase hchange)
      (hchange.not_addressed hlive)
  | forwarded hfound hidentity hphase hclean hchange =>
    exact step_of_set rfl (hlookup hfound) hk
      (fun hid => .forwarded hid hidentity hphase hclean hchange) hchange.not_addressed
  | finishFailed hlive hfound =>
    have hphase := hw.transactional.staging_of_found hlive hfound
    exact step_of_set rfl (hlookup hfound) hk (fun hid => .checked rfl hlive hid hphase)
      fun _ h => h
  | validating hlive hfound hcheck => exact ⟨entry, hk, .same fun h => h⟩
  | finishDenied hlive hop _ =>
    refine ⟨entry, hk, .same fun h => ?_⟩
    rcases hop with ⟨_, rfl⟩ | ⟨_, rfl⟩ <;> exact h
  | publishFailed hlive hfound hfailed =>
    have hphase := hw.transactional.staging_of_found hlive hfound
    exact step_of_set rfl (hlookup hfound) hk
      (fun hid => .unpublished rfl rfl hlive hid hphase hfailed) fun _ h => h
  | published hlive hfound hpublish =>
    have hphase := hw.transactional.staging_of_found hlive hfound
    exact step_of_set rfl (hlookup hfound) hk
      (fun hid => .published rfl rfl hlive hid hphase hpublish) fun hid h => hid h
  | ended hlive hends =>
    obtain ⟨found, hfound, hphase⟩ := hw.transactional.staging _ _ hlive
    rw [dropTransaction_eq hfound]
    refine step_of_set rfl (hlookup hfound) hk (fun hid => .cleared hlive hid hphase hends) ?_
    intro _ haddressed
    cases hends with
    | dropped => exact haddressed
    | failed => exact haddressed
  | guarded hfound hroom =>
    exact step_of_set rfl (hlookup hfound) hk (fun _ =>
      .counted (StoreState.checkOwner_ok_iff.mp hfound).2.2.2 (Or.inl hroom) fun h => h) fun _ h => h
  | reading hfound hroom =>
    exact step_of_set rfl (hlookup hfound) hk (fun _ =>
      .counted (StoreState.checkOwner_ok_iff.mp hfound).2.2.2 (Or.inl hroom) fun h => h) fun _ h => h
  | read hlive hfound hread =>
    exact step_of_set rfl (hlookup hfound) hk (fun hid =>
      .read rfl rfl hlive hid (StoreState.checkOwner_ok_iff.mp hfound).2.2.2 hread) fun _ h => h
  | released hlive =>
    obtain ⟨found, hfound⟩ := hw.guarded.owned _ _ hlive
    have hpos := hw.guarded.count_pos hlive hfound
    have hphase : found.metadata.phase ≠ .disposed := fun hdisposed =>
      hpos (hw.guarded.idle _ found hfound hdisposed)
    rw [dropGuard_eq hfound hpos]
    exact step_of_set rfl hfound hk
      (fun _ => .counted hphase (Or.inr (Nat.sub_le _ _)) fun h => h) fun _ h => h
  | invoked hfound hroom =>
    exact step_of_set rfl hfound hk (fun _ => .invoked ⟨_, rfl⟩ hroom) fun _ h => h
  | ownerDisposed hfound hidle =>
    exact step_of_set rfl (hlookup hfound) hk
      (fun hid => .disposed hidle (Or.inr ⟨_, rfl, hid⟩)) fun _ h => h
  | storeDisposed hidle =>
    refine ⟨entry.clear .disposed, ?_, .disposed (hidle k entry hk) (Or.inl rfl)⟩
    simp [World.withStore, ExtTreeMap.getElem?_map, hk]

/-- An entry is either moved from an earlier one or new. -/
theorem entry_origin (hw : Coherent w) (h : w.step op = some (w', reply))
    (hk : w'.store.owners[k]? = some entry') :
    (∃ entry, w.store.owners[k]? = some entry ∧ EntryStep w op reply k entry entry') ∨
      ∃ binding, w.store.owners[k]? = none ∧ k = w.store.nextOwner ∧ op = .createOwner binding ∧
        entry' = OwnerState.new binding := by
  cases hold : w.store.owners[k]? with
  | some entry =>
    obtain ⟨new, hnew, hstep⟩ := step_entry hw h hold
    obtain rfl : new = entry' := Option.some.inj (hnew.symm.trans hk)
    exact Or.inl ⟨entry, rfl, hstep⟩
  | none =>
    -- Rewriting an existing entry adds no owner.
    have hset : ∀ {id : Nat} {found new : OwnerState M}, w.store.owners[id]? = some found →
        (w.store.set id new).owners[k]? ≠ some entry' := by
      intro id found new hfound hnew
      rw [lookup_set] at hnew
      split at hnew
      · rename_i hid
        rw [hid, hold] at hfound
        cases hfound
      · rw [hold] at hnew
        cases hnew
    have hchecked : ∀ {owner : PreparationOwner} {found new : OwnerState M},
        w.store.checkOwner owner = .ok found →
          (w.store.set owner.id new).owners[k]? ≠ some entry' :=
      fun hfound => hset (StoreState.checkOwner_ok_iff.mp hfound).1
    have hnone : w.store.owners[k]? ≠ some entry' := by
      rw [hold]
      exact fun h => by cases h
    have heffect := World.step_effect h
    cases heffect with
    | quiet _ => exact absurd hk hnone
    | created hopen hroom =>
      rcases BTreeMap.getElem?_insert_cases hk with ⟨rfl, rfl⟩ | hsame
      · exact Or.inr ⟨_, rfl, rfl, rfl, rfl⟩
      · exact absurd hsame hnone
    | began hown hfound hphase => exact absurd hk (hchecked hfound)
    | staged hlive hfound hchange => exact absurd hk (hchecked hfound)
    | forwarded hfound hidentity hphase hclean hchange => exact absurd hk (hchecked hfound)
    | finishFailed hlive hfound => exact absurd hk (hchecked hfound)
    | validating hlive hfound hcheck => exact absurd hk hnone
    | finishDenied hlive hop _ => exact absurd hk hnone
    | publishFailed hlive hfound hfailed => exact absurd hk (hchecked hfound)
    | published hlive hfound hpublish => exact absurd hk (hchecked hfound)
    | ended hlive hends =>
      obtain ⟨found, hfound, _⟩ := hw.transactional.staging _ _ hlive
      rw [dropTransaction_eq hfound] at hk
      exact absurd hk (hchecked hfound)
    | guarded hfound hroom => exact absurd hk (hchecked hfound)
    | reading hfound hroom => exact absurd hk (hchecked hfound)
    | read hlive hfound hread => exact absurd hk (hchecked hfound)
    | released hlive =>
      obtain ⟨found, hfound⟩ := hw.guarded.owned _ _ hlive
      rw [dropGuard_eq hfound (hw.guarded.count_pos hlive hfound)] at hk
      exact absurd hk (hset hfound)
    | invoked hfound hroom => exact absurd hk (hset hfound)
    | ownerDisposed hfound hidle => exact absurd hk (hchecked hfound)
    | storeDisposed hidle =>
      simp [World.withStore, ExtTreeMap.getElem?_map, hold] at hk

/-- A live transaction was live before, for the same owner, or has just begun. -/
theorem transaction_origin (hw : Coherent w) (h : w.step op = some (w', reply))
    {tx : PreparationTransaction} (hlive : w'.transactions[t]? = some tx) :
    (∃ old, w.transactions[t]? = some old ∧ old.owner = tx.owner) ∨
      (t = w.nextTransaction ∧ reply = .transaction t ∧ ∃ thread, op = .begin thread tx.owner) := by
  have hprogress : ∀ {u : Nat} {owner : PreparationOwner} {before after : Progress},
      w.transactions[u]? = some ⟨owner, before⟩ →
      (w.transactions.insert u ⟨owner, after⟩)[t]? = some tx →
      ∃ old, w.transactions[t]? = some old ∧ old.owner = tx.owner := by
    intro u owner before after hu hinsert
    rcases BTreeMap.getElem?_insert_cases hinsert with ⟨rfl, rfl⟩ | hold
    · exact ⟨_, hu, rfl⟩
    · exact ⟨tx, hold, rfl⟩
  have herase : ∀ {u : Nat}, (w.transactions.erase u)[t]? = some tx →
      ∃ old, w.transactions[t]? = some old ∧ old.owner = tx.owner := by
    intro u hu
    exact ⟨tx, (BTreeMap.getElem?_erase_cases hu).2, rfl⟩
  have heffect := World.step_effect h
  cases heffect with
  | began hown hfound hphase =>
    rcases BTreeMap.getElem?_insert_cases hlive with ⟨rfl, rfl⟩ | hold
    · exact Or.inr ⟨rfl, rfl, _, rfl⟩
    · exact Or.inl ⟨tx, hold, rfl⟩
  | finishFailed hu hfound => exact Or.inl (hprogress hu hlive)
  | validating hu hfound hcheck => exact Or.inl (hprogress hu hlive)
  | finishDenied hu hop _ => exact Or.inl (hprogress hu hlive)
  | publishFailed hu hfound hfailed => exact Or.inl (hprogress hu hlive)
  | published hu hfound hpublish => exact Or.inl (herase hlive)
  | ended hu hends =>
    obtain ⟨found, hfound, _⟩ := hw.transactional.staging _ _ hu
    rw [dropTransaction_eq hfound] at hlive
    exact Or.inl (herase hlive)
  | released hg =>
    obtain ⟨found, hfound⟩ := hw.guarded.owned _ _ hg
    rw [dropGuard_eq hfound (hw.guarded.count_pos hg hfound)] at hlive
    exact Or.inl ⟨tx, hlive, rfl⟩
  | _ => exact Or.inl ⟨tx, hlive, rfl⟩

/-- The numbers of transactions, guards and calls are handed out in order. -/
theorem numbers_le (hw : Coherent w) (h : w.step op = some (w', reply)) :
    w.nextTransaction ≤ w'.nextTransaction ∧ w.nextGuard ≤ w'.nextGuard ∧
      w.nextIdentity ≤ w'.nextIdentity := by
  have heffect := World.step_effect h
  cases heffect with
  | began _ _ _ => exact ⟨Nat.le_succ _, Nat.le_refl _, Nat.le_succ _⟩
  | guarded _ _ => exact ⟨Nat.le_refl _, Nat.le_succ _, Nat.le_succ _⟩
  | reading _ _ => exact ⟨Nat.le_refl _, Nat.le_succ _, Nat.le_refl _⟩
  | ended hlive hends =>
    obtain ⟨found, hfound, _⟩ := hw.transactional.staging _ _ hlive
    rw [dropTransaction_eq hfound]
    exact ⟨Nat.le_refl _, Nat.le_refl _, Nat.le_refl _⟩
  | released hlive =>
    obtain ⟨found, hfound⟩ := hw.guarded.owned _ _ hlive
    rw [dropGuard_eq hfound (hw.guarded.count_pos hlive hfound)]
    exact ⟨Nat.le_refl _, Nat.le_refl _, Nat.le_refl _⟩
  | _ => exact ⟨Nat.le_refl _, Nat.le_refl _, Nat.le_refl _⟩

/-- The transaction of a staging owner after a step was its transaction before,
or the step began it. -/
theorem staging_transaction (hw : Coherent w) (h : w.step op = some (w', reply))
    (hentry' : w'.store.owners[k]? = some entry') (hphase : entry'.metadata.phase = .staging) :
    ∃ u tx, w'.transactions[u]? = some tx ∧ tx.owner.id = k ∧
      ((∃ old, w.transactions[u]? = some old ∧ old.owner.id = k) ∨
        (u = w.nextTransaction ∧ ∃ thread owner, op = .begin thread owner ∧
          reply = .transaction u ∧ owner.id = k)) := by
  obtain ⟨u, tx, hlive, hid⟩ := (hw.step h).transactional.covered k entry' hentry' hphase
  refine ⟨u, tx, hlive, hid, ?_⟩
  rcases transaction_origin hw h hlive with ⟨old, hold, howner⟩ | ⟨hnext, hreply, thread, hop⟩
  · exact Or.inl ⟨old, hold, by rw [howner]; exact hid⟩
  · exact Or.inr ⟨hnext, thread, tx.owner, hop, hreply, hid⟩

theorem ended_step (hw : Coherent w) (h : w.step op = some (w', reply))
    (hended : w.transactions[t]? = none) (hissued : t < w.nextTransaction) :
    w'.transactions[t]? = none := by
  by_contra hsome
  obtain ⟨tx, hlive⟩ := Option.ne_none_iff_exists'.mp hsome
  rcases transaction_origin hw h hlive with ⟨old, hold, _⟩ | ⟨hnext, _, _⟩
  · rw [hended] at hold
    cases hold
  · omega

/-- A live guard was live before or has just been acquired. -/
theorem guard_origin (hw : Coherent w) (h : w.step op = some (w', reply)) {g : Nat}
    {held : ReadGuard} (hlive : w'.guards[g]? = some held) :
    w.guards[g]? = some held ∨ (g = w.nextGuard ∧ reply = .guard g) := by
  have heffect := World.step_effect h
  cases heffect with
  | guarded hfound hroom =>
    rcases BTreeMap.getElem?_insert_cases hlive with ⟨rfl, _⟩ | hold
    · exact Or.inr ⟨rfl, rfl⟩
    · exact Or.inl hold
  | reading hfound hroom =>
    rcases BTreeMap.getElem?_insert_cases hlive with ⟨rfl, _⟩ | hold
    · exact Or.inr ⟨rfl, rfl⟩
    · exact Or.inl hold
  | ended htx hends =>
    obtain ⟨found, hfound, _⟩ := hw.transactional.staging _ _ htx
    rw [dropTransaction_eq hfound] at hlive
    exact Or.inl hlive
  | released hg =>
    obtain ⟨found, hfound⟩ := hw.guarded.owned _ _ hg
    rw [dropGuard_eq hfound (hw.guarded.count_pos hg hfound)] at hlive
    exact Or.inl (BTreeMap.getElem?_erase_cases hlive).2
  | _ => exact Or.inl hlive

end Step

/-! ### Facts about one owner -/

variable {trace : List (Event (World M) (Op M) (Reply M))}

/-- **Induction over an owner's life.** What a new entry has and every
`EntryStep` keeps holds of every entry in every reachable world. -/
theorem entry_invariant {P : OwnerState M → Prop} (hnew : ∀ binding, P (OwnerState.new binding))
    (hstep : ∀ {w : World M} {op : Op M} {reply : Reply M} {k : Nat} {entry entry' : OwnerState M},
      Coherent w → EntryStep w op reply k entry entry' → P entry → P entry')
    (run : (machine M).Run trace w) {entry : OwnerState M}
    (hentry : w.store.owners[k]? = some entry) : P entry := by
  induction run generalizing entry with
  | start => simp [machine, World.initial] at hentry
  | step run h ih =>
    have hw := run_coherent run
    rcases entry_origin hw h hentry with ⟨old, hold, hmove⟩ | ⟨binding, _, _, _, rfl⟩
    · exact hstep hw hmove (ih hold)
    · exact hnew binding

section EntryStep

variable {w : World M} {op : Op M} {reply : Reply M} {k : Nat} {entry entry' : OwnerState M}

/-- No step changes which artifact an owner belongs to. -/
theorem EntryStep.artifact (h : EntryStep w op reply k entry entry') :
    entry'.artifactIdentity = entry.artifactIdentity := by
  cases h with
  | same _ => rfl
  | began _ _ _ hphase => simp [OwnerState.begin, hphase]
  | staged _ _ _ hchange => exact (SameStanding.of_staging hchange).artifact
  | forwarded _ _ _ _ hchange => exact (SameStanding.of_forwarding hchange).artifact
  | checked _ _ _ _ => exact (SameStanding.of_finishCheck entry).artifact
  | unpublished _ _ _ _ _ hfailed => exact (SameStanding.of_finishPublish_error hfailed).artifact
  | published _ _ _ _ _ hpublish =>
    obtain ⟨_, _, rfl⟩ := OwnerState.finishPublish_eq_ok hpublish
    rfl
  | cleared _ _ _ _ => rfl
  | counted _ _ _ => rfl
  | read _ _ _ _ _ hread => exact (SameStanding.of_read hread).artifact
  | invoked _ _ => rfl
  | disposed _ _ => rfl

theorem EntryStep.unready_of_begin {thread t : Nat} {owner : PreparationOwner}
    (h : EntryStep w (.begin thread owner) (.transaction t) owner.id entry entry') :
    entry.metadata.phase = .unready := by
  cases h with
  | same hother => exact absurd rfl hother
  | began _ _ _ hphase => exact hphase
  | staged _ _ _ hchange => cases hchange
  | forwarded _ _ _ _ hchange => cases hchange
  | checked hop => cases hop
  | unpublished hop => cases hop
  | published hop => cases hop
  | cleared _ _ _ hends => cases hends
  | counted _ _ hother => exact absurd rfl hother
  | read hop => cases hop
  | invoked hop =>
    obtain ⟨_, hop⟩ := hop
    cases hop
  | disposed _ hop =>
    rcases hop with hop | ⟨_, hop, _⟩ <;> cases hop

theorem EntryStep.readyFlag (h : EntryStep w op reply k entry entry')
    (hflag : entry.metadata.ready = true ↔ entry.metadata.phase = .ready) :
    entry'.metadata.ready = true ↔ entry'.metadata.phase = .ready := by
  have hsame : ∀ {new : OwnerState M}, SameStanding entry new →
      (new.metadata.ready = true ↔ new.metadata.phase = .ready) := by
    intro new hstanding
    rw [hstanding.ready, hstanding.phase]
    exact hflag
  cases h with
  | same _ => exact hflag
  | began _ _ _ hphase =>
    rw [hphase] at hflag
    simpa [OwnerState.begin, hphase] using hflag
  | staged _ _ _ hchange => exact hsame (.of_staging hchange)
  | forwarded _ _ _ _ hchange => exact hsame (.of_forwarding hchange)
  | checked _ _ _ _ => exact hsame (.of_finishCheck entry)
  | unpublished _ _ _ _ _ hfailed => exact hsame (.of_finishPublish_error hfailed)
  | published _ _ _ _ _ hpublish =>
    obtain ⟨_, _, rfl⟩ := OwnerState.finishPublish_eq_ok hpublish
    simp
  | cleared _ _ _ _ => simp [OwnerState.clear]
  | counted _ _ _ => exact hflag
  | read _ _ _ _ _ hread => exact hsame (.of_read hread)
  | invoked _ _ => exact hflag
  | disposed _ _ => simp [OwnerState.clear]

/-- A ready or disposed owner keeps its phase and its pieces until it is disposed. -/
theorem EntryStep.settled (h : EntryStep w op reply k entry entry')
    (hphase : entry.metadata.phase = .ready ∨ entry.metadata.phase = .disposed) :
    (entry'.metadata.phase = entry.metadata.phase ∧ entry'.pieces = entry.pieces) ∨
      entry'.metadata.phase = .disposed := by
  have hunready : entry.metadata.phase ≠ .unready := by rcases hphase with h | h <;> simp [h]
  have hstaging : entry.metadata.phase ≠ .staging := by rcases hphase with h | h <;> simp [h]
  cases h with
  | same _ => exact Or.inl ⟨rfl, rfl⟩
  | began _ _ _ hbegin => exact absurd hbegin hunready
  | staged _ _ hopen _ => exact absurd hopen hstaging
  | forwarded _ _ hopen _ _ => exact absurd hopen hstaging
  | checked _ _ _ hopen => exact absurd hopen hstaging
  | unpublished _ _ _ _ hopen _ => exact absurd hopen hstaging
  | published _ _ _ _ hopen _ => exact absurd hopen hstaging
  | cleared _ _ hopen _ => exact absurd hopen hstaging
  | counted _ _ _ => exact Or.inl ⟨rfl, rfl⟩
  | read _ _ _ _ _ hread =>
    obtain ⟨_, _, _, _, _, _, _, _, rfl⟩ := OwnerState.read_eq_ok hread
    exact Or.inl ⟨rfl, rfl⟩
  | invoked _ _ => exact Or.inl ⟨rfl, rfl⟩
  | disposed _ _ => exact Or.inr rfl

/-- Disposal is final. -/
theorem EntryStep.phase_disposed (h : EntryStep w op reply k entry entry')
    (hphase : entry.metadata.phase = .disposed) : entry'.metadata.phase = .disposed :=
  (h.settled (Or.inr hphase)).elim (fun hkept => hkept.1.trans hphase) id

end EntryStep

theorem run_readyFlag (run : (machine M).Run trace w) {entry : OwnerState M}
    (hentry : w.store.owners[k]? = some entry) :
    entry.metadata.ready = true ↔ entry.metadata.phase = .ready := by
  refine entry_invariant
    (P := fun entry => entry.metadata.ready = true ↔ entry.metadata.phase = .ready) ?_ ?_ run hentry
  · intro binding
    simp [OwnerState.new]
  · intro w op reply k entry entry' _ hmove hflag
    exact hmove.readyFlag hflag

/-- The store knows the token. -/
def Known (w : World M) (owner : PreparationOwner) : Prop :=
  owner.store = w.store.identity ∧
    ∃ entry, w.store.owners[owner.id]? = some entry ∧
      entry.artifactIdentity = owner.artifactIdentity

theorem step_identity {w' : World M} {op : Op M} {reply : Reply M} (hw : Coherent w)
    (h : w.step op = some (w', reply)) : w'.store.identity = w.store.identity := by
  have heffect := World.step_effect h
  cases heffect with
  | ended hlive hends =>
    obtain ⟨found, hfound, _⟩ := hw.transactional.staging _ _ hlive
    rw [dropTransaction_eq hfound]
    rfl
  | released hlive =>
    obtain ⟨found, hfound⟩ := hw.guarded.owned _ _ hlive
    rw [dropGuard_eq hfound (hw.guarded.count_pos hlive hfound)]
    rfl
  | _ => rfl

/-- The run created this owner. -/
def Created (trace : List (Event (World M) (Op M) (Reply M))) (owner : PreparationOwner) : Prop :=
  ∃ e ∈ trace, ∃ binding, e.op = .createOwner binding ∧ e.reply = .owner owner

/-- A token `create_owner` returned stays known for the rest of the run. -/
theorem known_of_created (run : (machine M).Run trace w) {owner : PreparationOwner}
    (h : Created trace owner) : Known w owner := by
  obtain ⟨e, he, binding, hop, hreply⟩ := h
  obtain ⟨past, future, rfl⟩ := List.append_of_mem he
  obtain ⟨before, hstep⟩ := run.split
  refine run.stable (P := fun w => Known w owner) ?_ ?_
  · have heffect := World.step_effect hstep
    rw [hop, hreply] at heffect
    generalize e.after = after at heffect
    cases heffect with
    | quiet h => cases h
    | created hopen hroom => exact ⟨rfl, OwnerState.new binding, ExtTreeMap.getElem?_insert_self, rfl⟩
    | staged hlive hfound hchange => cases hchange
    | forwarded _ _ _ _ hchange => cases hchange
    | ended _ hends => cases hends
  · intro trace w op w' reply run hknown h
    obtain ⟨hstore, entry, hentry, hartifact⟩ := hknown
    have hw := run_coherent run
    obtain ⟨entry', hentry', hmove⟩ := step_entry hw h hentry
    exact ⟨hstore.trans (step_identity hw h).symm, entry', hentry',
      hmove.artifact.trans hartifact⟩

end PinchNPrint.Preparation
