/-
Disposal of the prepared-owner store.

`World.Working` is what keeps an owner from being disposed: it is staging, or a
read guard on it is live. Because the read counter counts live guards
(`Guarded`), the busy test of the source decides exactly this. A disposed owner
stays disposed, has neither transactions nor guards, and denies every authority
presented for it.
-/

import PinchNPrint.Store.Lifecycle

namespace PinchNPrint.Preparation

open Std

variable {M : SceneModel}

/-- The owner is staging or a read guard on it is live. -/
def World.Working (w : World M) (k : Nat) : Prop :=
  (∃ entry, w.store.owners[k]? = some entry ∧ entry.metadata.phase = .staging) ∨
    ∃ (g : Nat) (guard : ReadGuard), w.guards[g]? = some guard ∧ guard.owner.id = k

/-- The reply is an error. -/
def Reply.isError : Reply M → Bool
  | .failure _ | .transport _ | .projection _ => true
  | _ => false

/-- The owner whose token, handle or writer an operation presents. -/
def Op.presents : Op M → Option PreparationOwner
  | .begin _ owner | .current owner | .activeGuard _ owner => some owner
  | .requestedViews writer | .publish writer _ => some writer.owner
  | .projection plan _ | .open plan _ => some plan.owner
  | .acquireRead piece _ _ => some piece.owner
  | _ => none

/-- The owner is disposed. -/
def World.Disposed (w : World M) (k : Nat) : Prop :=
  ∃ entry, w.store.owners[k]? = some entry ∧ entry.metadata.phase = .disposed

section Busy

variable {w w' : World M} {reply : Reply M}

/-- The read counter is zero exactly when no guard is live. -/
theorem Guarded.activeReads_eq_zero_iff (hw : Guarded w) {k : Nat} {entry : OwnerState M}
    (hentry : w.store.owners[k]? = some entry) :
    entry.activeReads = 0 ↔
      ¬ ∃ (g : Nat) (guard : ReadGuard), w.guards[g]? = some guard ∧ guard.owner.id = k := by
  rw [hw.counted k entry hentry, World.guardCount, List.countP_eq_zero]
  constructor
  · rintro hnone ⟨g, guard, hguard, hid⟩
    exact hnone guard (BTreeMap.mem_vals.mpr ⟨g, hguard⟩) (by simpa using hid)
  · intro hnone guard hguard hid
    obtain ⟨g, hg⟩ := BTreeMap.mem_vals.mp hguard
    exact hnone ⟨g, guard, hg, by simpa using hid⟩

/-- The busy test of the source decides whether the owner is working. -/
theorem Coherent.busy_iff (hw : Coherent w) {k : Nat} {entry : OwnerState M}
    (hentry : w.store.owners[k]? = some entry) : entry.busy = true ↔ w.Working k := by
  have hreads := hw.guarded.activeReads_eq_zero_iff hentry
  simp only [OwnerState.busy, Bool.or_eq_true, decide_eq_true_eq, bne_iff_ne]
  constructor
  · rintro (hstaging | hcount)
    · exact Or.inl ⟨entry, hentry, hstaging⟩
    · exact Or.inr (not_not.mp (mt hreads.mpr hcount))
  · rintro (⟨found, hfound, hstaging⟩ | hguard)
    · obtain rfl : entry = found := Option.some.inj (hentry.symm.trans hfound)
      exact Or.inl hstaging
    · exact Or.inr fun hzero => hreads.mp hzero hguard

theorem Coherent.not_working_of_disposed (hw : Coherent w) {k : Nat} (h : w.Disposed k) :
    ¬ w.Working k := by
  obtain ⟨entry, hentry, hphase⟩ := h
  rw [← hw.busy_iff hentry]
  simp [OwnerState.busy, hphase, hw.guarded.idle k entry hentry hphase]

theorem Coherent.disposeOwner_busy_iff (hw : Coherent w) {owner : PreparationOwner}
    (hknown : Known w owner) (h : w.step (.disposeOwner owner) = some (w', reply)) :
    reply = .failure .busy ↔ w.Working owner.id := by
  obtain ⟨hstore, entry, hentry, hartifact⟩ := hknown
  have hverify : w.store.verify owner = .ok () := by simp [StoreState.verify, hstore]
  have hanswer := Option.some.inj h
  simp only [StoreState.disposeOwner, hverify, StoreState.withEntry] at hanswer
  cases hcheck : w.store.checkOwner owner with
  | error error =>
    simp only [hcheck] at hanswer
    cases hanswer
    -- The token is known, so only a disposed owner is denied.
    have hdisposed : w.Disposed owner.id := by
      refine ⟨entry, hentry, ?_⟩
      by_contra hphase
      have hopen : w.store.disposed = false := by
        cases hd : w.store.disposed with
        | false => rfl
        | true => exact absurd (hw.transactional.disposed hd _ entry hentry) hphase
      rw [StoreState.checkOwner_ok_iff.mpr ⟨hentry, hartifact, hopen, hphase⟩] at hcheck
      cases hcheck
    refine ⟨fun hbusy => ?_, fun hworking => absurd hworking (hw.not_working_of_disposed hdisposed)⟩
    cases hbusy
    simp only [StoreState.checkOwner, hentry, hartifact] at hcheck
    split at hcheck
    · cases hcheck
    · split at hcheck <;> cases hcheck
  | ok found =>
    obtain rfl : entry = found :=
      Option.some.inj (hentry.symm.trans (StoreState.checkOwner_ok_iff.mp hcheck).1)
    rw [← hw.busy_iff hentry]
    simp only [hcheck] at hanswer
    by_cases hbusy : entry.busy = true
    · simp only [hbusy, if_true] at hanswer
      cases hanswer
      simp [hbusy]
    · simp only [hbusy] at hanswer
      cases hanswer
      simp [hbusy]

theorem Coherent.dispose_busy_iff (hw : Coherent w) (h : w.step .dispose = some (w', reply)) :
    reply = .failure .busy ↔ ∃ k, w.Working k := by
  have hanswer := Option.some.inj h
  simp only [StoreState.dispose] at hanswer
  have hany : (BTreeMap.vals w.store.owners).any OwnerState.busy = true ↔ ∃ k, w.Working k := by
    rw [List.any_eq_true]
    constructor
    · rintro ⟨entry, hmem, hbusy⟩
      obtain ⟨k, hentry⟩ := BTreeMap.mem_vals.mp hmem
      exact ⟨k, (hw.busy_iff hentry).mp hbusy⟩
    · rintro ⟨k, hworking⟩
      -- Staging and guarded owners both have an entry.
      obtain ⟨entry, hentry⟩ : ∃ entry, w.store.owners[k]? = some entry := by
        rcases hworking with ⟨entry, hentry, _⟩ | ⟨g, guard, hguard, rfl⟩
        · exact ⟨entry, hentry⟩
        · exact hw.guarded.owned g guard hguard
      exact ⟨entry, BTreeMap.mem_vals.mpr ⟨k, hentry⟩, (hw.busy_iff hentry).mpr hworking⟩
  rw [← hany]
  split at hanswer
  · rename_i hbusy
    cases hanswer
    simp [hbusy]
  · rename_i hidle
    cases hanswer
    simp [hidle]

end Busy

/-! ### Disposed owners stay disposed -/

section Final

variable {w w' : World M} {op : Op M} {reply : Reply M} {k : Nat}

theorem Coherent.disposed_step (hw : Coherent w) (hdisposed : w.Disposed k)
    (h : w.step op = some (w', reply)) : w'.Disposed k := by
  obtain ⟨entry, hentry, hphase⟩ := hdisposed
  obtain ⟨entry', hentry', hmove⟩ := step_entry hw h hentry
  exact ⟨entry', hentry', hmove.phase_disposed hphase⟩

theorem World.Disposed.checkOwner (hdisposed : w.Disposed k) {owner : PreparationOwner}
    (hid : owner.id = k) : ∃ error, w.store.checkOwner owner = .error error := by
  obtain ⟨entry, hentry, hphase⟩ := hdisposed
  cases hcheck : w.store.checkOwner owner with
  | error error => exact ⟨error, rfl⟩
  | ok found =>
    obtain ⟨hfound, _, _, hopen⟩ := StoreState.checkOwner_ok_iff.mp hcheck
    rw [hid] at hfound
    obtain rfl : entry = found := Option.some.inj (hentry.symm.trans hfound)
    exact absurd hphase hopen

/-- Whatever is presented for a disposed owner is denied and changes nothing. -/
theorem World.Disposed.denies (hdisposed : w.Disposed k) {owner : PreparationOwner}
    (hpresents : op.presents = some owner) (hid : owner.id = k)
    (h : w.step op = some (w', reply)) : reply.isError = true ∧ w' = w := by
  obtain ⟨error, hcheck⟩ := hdisposed.checkOwner hid
  cases op with
  | begin thread token =>
    cases hpresents
    have hstep := Option.some.inj h
    unfold World.begin at hstep
    cases hverify : w.store.verify owner with
    | error denied =>
      rw [hverify] at hstep
      cases hstep
      exact ⟨rfl, rfl⟩
    | ok =>
      simp only [hverify, StoreState.withEntry, hcheck] at hstep
      cases hstep
      exact ⟨rfl, rfl⟩
  | current token =>
    cases hpresents
    cases h
    unfold World.current
    cases hverify : w.store.verify owner with
    | error denied => exact ⟨rfl, rfl⟩
    | ok => simp [hcheck, Reply.isError]
  | activeGuard thread token =>
    cases hpresents
    simp only [World.step, World.activeGuard, hcheck] at h
    cases h
    exact ⟨rfl, rfl⟩
  | requestedViews writer =>
    cases hpresents
    simp only [World.step, World.withWriter, StoreState.withEntry, hcheck] at h
    cases h
    exact ⟨rfl, rfl⟩
  | publish writer scene =>
    cases hpresents
    simp only [World.step, World.withWriter, StoreState.withEntry, hcheck] at h
    cases h
    exact ⟨rfl, rfl⟩
  | projection plan view =>
    cases hpresents
    simp only [World.step, World.projection, hcheck] at h
    cases h
    exact ⟨rfl, rfl⟩
  | «open» plan name =>
    cases hpresents
    simp only [World.step, World.openPiece, hcheck] at h
    cases h
    exact ⟨rfl, rfl⟩
  | acquireRead piece offset maxBytes =>
    cases hpresents
    simp only [World.step, World.acquireRead, hcheck] at h
    cases h
    exact ⟨rfl, rfl⟩
  | _ => cases hpresents

/-- A disposal that answers anything but success changed nothing. -/
theorem disposal_refused_unchanged (hop : op = .dispose ∨ ∃ owner, op = .disposeOwner owner)
    (h : w.step op = some (w', reply)) (hreply : reply ≠ .done) : w' = w := by
  have heffect := World.step_effect h
  rcases hop with rfl | ⟨owner, rfl⟩
  · cases heffect with
    | quiet _ => rfl
    | staged _ _ hchange => cases hchange
    | forwarded _ _ _ _ hchange => cases hchange
    | finishDenied _ hop => rcases hop with ⟨_, hop⟩ | ⟨_, hop⟩ <;> cases hop
    | ended _ hends => cases hends
    | storeDisposed _ => exact absurd rfl hreply
  · cases heffect with
    | quiet _ => rfl
    | staged _ _ hchange => cases hchange
    | forwarded _ _ _ _ hchange => cases hchange
    | finishDenied _ hop => rcases hop with ⟨_, hop⟩ | ⟨_, hop⟩ <;> cases hop
    | ended _ hends => cases hends
    | ownerDisposed _ _ => exact absurd rfl hreply

/-- Disposing one owner leaves every other entry as it is. -/
theorem disposeOwner_isolated {owner : PreparationOwner}
    (h : w.step (.disposeOwner owner) = some (w', reply)) (hk : k ≠ owner.id) :
    w'.store.owners[k]? = w.store.owners[k]? := by
  have heffect := World.step_effect h
  cases heffect with
  | quiet _ => rfl
  | staged _ _ hchange => cases hchange
  | forwarded _ _ _ _ hchange => cases hchange
  | finishDenied _ hop => rcases hop with ⟨_, hop⟩ | ⟨_, hop⟩ <;> cases hop
  | ended _ hends => cases hends
  | ownerDisposed _ _ =>
    show (w.store.set owner.id _).owners[k]? = _
    rw [lookup_set, if_neg (Ne.symm hk)]

/-- Dropping a live guard never panics. -/
theorem Coherent.dropGuard_balanced (hw : Coherent w) {g : Nat}
    (h : w.step (.dropGuard g) = some (w', reply)) : reply ≠ .panic := by
  simp only [World.step] at h
  split at h
  · cases h
  · rename_i held hlive
    obtain ⟨entry, hentry⟩ := hw.guarded.owned g held hlive
    rw [dropGuard_eq hentry (hw.guarded.count_pos hlive hentry)] at h
    cases h
    exact fun hpanic => by cases hpanic

end Final

/-! ### Disposal over whole runs -/

section Runs

variable {trace : List (Event (World M) (Op M) (Reply M))} {w : World M}

/-- The run disposed owner `k`, alone or with the store. -/
def DisposedIn (trace : List (Event (World M) (Op M) (Reply M))) (k : Nat) : Prop :=
  ∃ e ∈ trace, e.reply = .done ∧
    ((e.op = .dispose ∧ ∃ entry, e.before.store.owners[k]? = some entry) ∨
      ∃ owner, e.op = .disposeOwner owner ∧ owner.id = k)

/-- A successful disposal is never undone. -/
theorem disposed_of_disposedIn (run : (machine M).Run trace w) {k : Nat}
    (h : DisposedIn trace k) : w.Disposed k := by
  obtain ⟨e, he, hreply, hop⟩ := h
  obtain ⟨past, future, rfl⟩ := List.append_of_mem he
  obtain ⟨before, hstep⟩ := run.split
  refine run.stable (P := fun w => w.Disposed k) ?_ ?_
  · have heffect := World.step_effect hstep
    rw [hreply] at heffect
    rcases hop with ⟨hop, entry, hentry⟩ | ⟨owner, hop, rfl⟩
    · rw [hop] at heffect
      generalize e.after = after at heffect
      cases heffect with
      | quiet h => cases h
      | staged _ _ hchange => cases hchange
      | forwarded _ _ _ _ hchange => cases hchange
      | ended _ hends => cases hends
      | storeDisposed _ =>
        refine ⟨entry.clear .disposed, ?_, rfl⟩
        simp [World.withStore, ExtTreeMap.getElem?_map, hentry]
    · rw [hop] at heffect
      generalize e.after = after at heffect
      cases heffect with
      | quiet h => cases h
      | staged _ _ hchange => cases hchange
      | forwarded _ _ _ _ hchange => cases hchange
      | ended _ hends => cases hends
      | @ownerDisposed _ entry _ _ =>
        refine ⟨entry.clear .disposed, ?_, rfl⟩
        show (e.before.store.set owner.id (entry.clear .disposed)).owners[owner.id]? = _
        rw [lookup_set, if_pos rfl]
  · intro trace w op w' reply run hdisposed h
    exact (run_coherent run).disposed_step hdisposed h

/-- What holds of disposal in a world that a run has reached. -/
structure DisposalLaws (trace : List (Event (World M) (Op M) (Reply M))) (w : World M) : Prop where
  /-- A created owner is refused exactly while it works. -/
  ownerBusy : ∀ owner w' reply, Created trace owner →
    w.step (.disposeOwner owner) = some (w', reply) →
      (reply = .failure .busy ↔ w.Working owner.id)
  /-- The store is refused exactly while some owner works. -/
  storeBusy : ∀ w' reply, w.step .dispose = some (w', reply) →
    (reply = .failure .busy ↔ ∃ k, w.Working k)
  refusedUnchanged : ∀ op w' reply, (op = .dispose ∨ ∃ owner, op = .disposeOwner owner) →
    w.step op = some (w', reply) → reply ≠ .done → w' = w
  isolated : ∀ owner w' reply k, w.step (.disposeOwner owner) = some (w', reply) →
    k ≠ owner.id → w'.store.owners[k]? = w.store.owners[k]?
  /-- A disposed owner has no transaction and no guard left. -/
  finalAuthorities : ∀ k, DisposedIn trace k →
    (∀ (t : Nat) (tx : PreparationTransaction), w.transactions[t]? = some tx → tx.owner.id ≠ k) ∧
      ∀ (g : Nat) (guard : ReadGuard), w.guards[g]? = some guard → guard.owner.id ≠ k
  /-- Its tokens, handles and writers are denied and change nothing. -/
  finalDenied : ∀ k op owner w' reply, DisposedIn trace k → op.presents = some owner →
    owner.id = k → w.step op = some (w', reply) → reply.isError = true ∧ w' = w
  balanced : ∀ g w' reply, w.step (.dropGuard g) = some (w', reply) → reply ≠ .panic

/-- **Disposal is refused exactly while work is live, and is final.** -/
theorem disposal_exact_and_final (run : (machine M).Run trace w) : DisposalLaws trace w := by
  have hw := run_coherent run
  refine ⟨?_, ?_, ?_, ?_, ?_, ?_, ?_⟩
  · intro owner w' reply hcreated h
    exact hw.disposeOwner_busy_iff (known_of_created run hcreated) h
  · intro w' reply h
    exact hw.dispose_busy_iff h
  · intro op w' reply hop h hreply
    exact disposal_refused_unchanged hop h hreply
  · intro owner w' reply k h hk
    exact disposeOwner_isolated h hk
  · intro k hdisposed
    have hidle := hw.not_working_of_disposed (disposed_of_disposedIn run hdisposed)
    constructor
    · intro t tx hlive hid
      obtain ⟨entry, hfound, hphase⟩ := hw.transactional.staging t tx hlive
      exact hidle (Or.inl ⟨entry, hid ▸ (StoreState.checkOwner_ok_iff.mp hfound).1, hphase⟩)
    · intro g guard hguard hid
      exact hidle (Or.inr ⟨g, guard, hguard, hid⟩)
  · intro k op owner w' reply hdisposed hpresents hid h
    exact (disposed_of_disposedIn run hdisposed).denies hpresents hid h
  · intro g w' reply h
    exact hw.dropGuard_balanced h

end Runs

/-- One owner is prepared, read under a guard, refused disposal meanwhile, and
disposed with the store afterwards. -/
def disposalOps : List (Op emptyScenes) :=
  let owner : PreparationOwner := ⟨0, 0, 7, []⟩
  [.createOwner ⟨"org.module", 7, []⟩, .begin 0 owner, .put 0 "plan" [1, 2, 3], .dispose,
    .finish 0 (.ok ()), .validated 0 (.ok ()), .open ⟨owner⟩ "plan", .acquireRead ⟨owner, 0, 3⟩ 1 9,
    .disposeOwner owner, .read 0, .dropGuard 0, .dispose]

theorem disposal_exact_and_final_of_ops :
    ∃ trace w, (machine emptyScenes).Run trace w ∧ w.store.disposed = true ∧
      DisposalLaws trace w := by
  have hdisposed : ((machine emptyScenes).replay disposalOps).map
      (fun result => result.2.store.disposed) = some true := by decide
  obtain ⟨⟨trace, w⟩, hreplay, hw⟩ := Option.map_eq_some_iff.mp hdisposed
  have run := Machine.run_of_replay hreplay
  exact ⟨trace, w, run, hw, disposal_exact_and_final run⟩

end PinchNPrint.Preparation
