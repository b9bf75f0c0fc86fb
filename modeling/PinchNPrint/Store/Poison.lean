/-
Poison is permanent within a transaction.

A rejection on either channel leaves a fault in the entry of the transaction's
owner (`poisoned_of_poisons`). While the transaction lives no step removes it
(`EntryStep.stays_poisoned`): the only steps that do are the ones that end the
transaction. Everything a transaction can succeed in needs a clean entry, so a
poisoned one succeeds in nothing more. Rejections that a retained writer
provokes while the validator runs are steps like any other, and `finish` looks
at the faults again after it.
-/

import PinchNPrint.Store.Lifecycle

namespace PinchNPrint.Preparation

open Std

variable {M : SceneModel}

/-! ### Faults of one entry -/

section EntryStep

variable {w : World M} {op : Op M} {reply : Reply M} {k : Nat} {entry entry' : OwnerState M}

theorem OwnerState.poisoned_of_writerFault {error : TransportError}
    (h : entry.writerFault = some error) : entry.poisoned = true := by
  simp [OwnerState.poisoned, h]

theorem OwnerState.poisoned_of_projectionFailure {fault : ProjectionFault}
    (h : entry.projectionFailure = some fault) : entry.poisoned = true := by
  simp [OwnerState.poisoned, h]

/-- A new projection failure keeps the poison. -/
theorem OwnerState.poisoned_record (entry : OwnerState M) (fault : ProjectionFault) :
    { entry with projectionFailure := some fault }.poisoned = true :=
  poisoned_of_projectionFailure rfl

theorem EntryStep.stays_poisoned (h : EntryStep w op reply k entry entry')
    (hpoisoned : entry.poisoned = true) (hbefore : entry.metadata.phase = .staging)
    (hafter : entry'.metadata.phase = .staging) : entry'.poisoned = true := by
  have hdirty : ¬ entry.poisoned = false := by
    rw [hpoisoned]
    decide
  cases h with
  | same _ => exact hpoisoned
  | began _ _ _ hphase => rw [hbefore] at hphase; cases hphase
  | staged _ _ _ hchange =>
    cases hchange with
    | requested hviews hreply =>
      unfold OwnerState.requestProjections
      split
      · exact hpoisoned
      · simp only
        split
        · exact hpoisoned
        · exact OwnerState.poisoned_of_projectionFailure rfl
    | faulted => exact OwnerState.poisoned_of_writerFault rfl
    | accepted hclean _ => exact absurd hclean hdirty
    | refused hclean _ => exact absurd hclean hdirty
  | forwarded _ _ _ hclean _ => exact absurd hclean hdirty
  | checked _ _ _ _ =>
    unfold OwnerState.finishCheck
    split
    · exact hpoisoned
    · split
      · exact entry.poisoned_record _
      · exact hpoisoned
  | unpublished _ _ _ _ _ hfailed =>
    rcases OwnerState.finishPublish_of_error hfailed with hsame | ⟨fault, hfault⟩
    · rw [hsame]
      exact hpoisoned
    · rw [hfault]
      exact entry.poisoned_record fault
  | published _ _ _ _ _ hpublish =>
    exact absurd (OwnerState.finishPublish_eq_ok hpublish).1 hdirty
  | cleared _ _ _ _ => cases hafter
  | counted _ _ _ => exact hpoisoned
  | read _ _ _ _ _ hread =>
    obtain ⟨_, _, _, _, _, _, _, _, rfl⟩ := OwnerState.read_eq_ok hread
    exact hpoisoned
  | invoked _ _ => exact hpoisoned
  | disposed _ _ => cases hafter

/-- A rejected `put` is recorded, unless the entry was poisoned already. -/
theorem OwnerState.poisoned_of_put_error {name : String} {bytes : List UInt8}
    {error : TransportError} (h : (entry.put name bytes).2 = .error error) :
    (entry.put name bytes).1.poisoned = true := by
  unfold OwnerState.put at h ⊢
  by_cases hpoisoned : entry.poisoned = true
  · simp [hpoisoned]
  · simp only [hpoisoned] at h ⊢
    cases hstage : entry.stagePiece name bytes with
    | ok staged => simp [hstage] at h
    | error error' => exact poisoned_of_writerFault rfl

theorem OwnerState.poisoned_of_undeclared {declaredViews views : List String}
    {layers : M.Schedule} {view : String} (hview : view ∈ views)
    (hundeclared : view ∉ declaredViews) :
    (entry.requestProjections declaredViews views layers).1.poisoned = true := by
  have hsome : ∃ first, views.find? (fun view => !declaredViews.contains view) = some first := by
    rw [← Option.isSome_iff_exists, List.find?_isSome]
    exact ⟨view, hview, by simpa using hundeclared⟩
  obtain ⟨first, hfirst⟩ := hsome
  have hnonempty : ¬ views.isEmpty = true := by
    intro hempty
    rw [List.isEmpty_iff.mp hempty] at hview
    cases hview
  simp only [OwnerState.requestProjections, hnonempty, hfirst]
  exact poisoned_of_projectionFailure rfl

/-- A requested view without a scene fails the check of `finish`. -/
theorem OwnerState.poisoned_of_missing {projection : ProjectionStaging M} {view : String}
    (hprojection : entry.projection = some projection) (hview : view ∈ projection.views)
    (hmissing : view ∉ projection.scenes) : entry.finishCheck.1.poisoned = true := by
  have hfault : ∃ fault, entry.finishFault = some fault := by
    unfold OwnerState.finishFault
    split
    · exact ⟨_, rfl⟩
    · split
      · exact ⟨_, rfl⟩
      · have hsome : ∃ first, projection.views.find? (fun view => view ∉ projection.scenes) =
            some first := by
          rw [← Option.isSome_iff_exists, List.find?_isSome]
          exact ⟨view, hview, by simpa using hmissing⟩
        obtain ⟨first, hfirst⟩ := hsome
        refine ⟨⟨first, .missingScene, "scene"⟩, ?_⟩
        rw [hprojection]
        simp only [Option.bind_eq_bind, Option.bind_some, hfirst]
        rfl
  obtain ⟨fault, hfault⟩ := hfault
  unfold OwnerState.finishCheck
  split
  · rename_i hwriter
    obtain ⟨error, herror⟩ := Option.isSome_iff_exists.mp hwriter
    exact poisoned_of_writerFault herror
  · simp only [hfault]
    exact entry.poisoned_record fault

end EntryStep

/-! ### Poisoned transactions -/

/-- The transaction has ended, or its owner's entry is poisoned. -/
def PoisonedIn (w : World M) (t : Nat) : Prop :=
  t < w.nextTransaction ∧ ∀ (tx : PreparationTransaction) (entry : OwnerState M),
    w.transactions[t]? = some tx → w.store.owners[tx.owner.id]? = some entry →
      entry.poisoned = true

/-- The event rejects something during transaction `t`. -/
inductive Poisons (t : Nat) (e : Event (World M) (Op M) (Reply M)) : Prop
  | put {name : String} {bytes : List UInt8} {error : TransportError}
      (hop : e.op = .put t name bytes) (hreply : e.reply = .transport error)
  | recorded {writer : ProjectionWriter} {tx : PreparationTransaction}
      {before after : OwnerState M} {fault : ProjectionFault}
      (hop : e.op = .requestedViews writer ∨ ∃ scene, e.op = .publish writer scene)
      (hlive : e.before.transactions[t]? = some tx)
      (hbefore : e.before.store.owners[tx.owner.id]? = some before)
      (hclean : before.projectionFailure = none)
      (hafter : e.after.store.owners[tx.owner.id]? = some after)
      (hfault : after.projectionFailure = some fault)
  | undeclared {tx : PreparationTransaction} {views : List String} {layers : M.Schedule}
      {view : String} (hop : e.op = .requestProjections t views layers)
      (hlive : e.before.transactions[t]? = some tx) (hview : view ∈ views)
      (hundeclared : view ∉ tx.owner.declaredViews)
  | writerFault {error : TransportError} (hop : e.op = .recordWriterFault t error)
  | missing {result : Except PreparationFailure Unit} {tx : PreparationTransaction}
      {entry : OwnerState M} {projection : ProjectionStaging M} {view : String}
      (hop : e.op = .finish t result) (hlive : e.before.transactions[t]? = some tx)
      (hentry : e.before.store.owners[tx.owner.id]? = some entry)
      (hprojection : entry.projection = some projection) (hview : view ∈ projection.views)
      (hmissing : view ∉ projection.scenes)

/-- The event is a success of transaction `t`. -/
inductive Succeeds (t : Nat) (e : Event (World M) (Op M) (Reply M)) : Prop
  | finish {verdict : Except PreparationFailure Unit} {plan : PreparedPlanHandle}
      (hop : e.op = .validated t verdict) (hreply : e.reply = .plan plan)
  | put {name : String} {bytes : List UInt8} (hop : e.op = .put t name bytes)
      (hreply : e.reply = .done)
  | publish {writer : ProjectionWriter} {scene : Scene M.Content} {tx : PreparationTransaction}
      (hlive : e.before.transactions[t]? = some tx) (hid : writer.owner.id = tx.owner.id)
      (hop : e.op = .publish writer scene) (hreply : e.reply = .done)

section Step

variable {w w' : World M} {op : Op M} {reply : Reply M} {t : Nat}

/-- What is poisoned stays so. -/
theorem PoisonedIn.step (hpoisoned : PoisonedIn w t) (hw : Coherent w)
    (h : w.step op = some (w', reply)) : PoisonedIn w' t := by
  obtain ⟨hissued, hpoison⟩ := hpoisoned
  refine ⟨Nat.lt_of_lt_of_le hissued (numbers_le hw h).1, ?_⟩
  intro tx entry' hlive' hentry'
  rcases transaction_origin hw h hlive' with ⟨old, hlive, howner⟩ | ⟨hnext, _⟩
  · rw [← howner] at hentry'
    obtain ⟨entry, hfound, hphase⟩ := hw.transactional.staging t old hlive
    have hentry := (StoreState.checkOwner_ok_iff.mp hfound).1
    obtain ⟨moved, hmoved, hmove⟩ := step_entry hw h hentry
    obtain rfl : moved = entry' := Option.some.inj (hmoved.symm.trans hentry')
    obtain ⟨staging, hstaging, hphase'⟩ := (hw.step h).transactional.staging t tx hlive'
    have hlookup := (StoreState.checkOwner_ok_iff.mp hstaging).1
    rw [← howner, hmoved] at hlookup
    cases hlookup
    exact hmove.stays_poisoned (hpoison old entry hlive hentry) hphase hphase'
  · omega

/-- A live transaction whose owner's entry a step leaves poisoned. -/
theorem PoisonedIn.of_after (hw : Coherent w) (h : w.step op = some (w', reply))
    {tx : PreparationTransaction} (hlive : w.transactions[t]? = some tx) {entry' : OwnerState M}
    (hentry' : w'.store.owners[tx.owner.id]? = some entry') (hpoisoned : entry'.poisoned = true) :
    PoisonedIn w' t := by
  have hissued := hw.transactional.issued t tx hlive
  refine ⟨Nat.lt_of_lt_of_le hissued (numbers_le hw h).1, ?_⟩
  intro tx' found hlive' hfound
  rcases transaction_origin hw h hlive' with ⟨old, hold, howner⟩ | ⟨hnext, _⟩
  · obtain rfl : tx = old := Option.some.inj (hlive.symm.trans hold)
    rw [← howner, hentry'] at hfound
    cases hfound
    exact hpoisoned
  · omega

/-- What a writing transaction's operation does to its owner's entry. -/
theorem withEntry_of_live (hw : Coherent w) {owner : PreparationOwner} {progress : Progress}
    (hlive : w.transactions[t]? = some ⟨owner, progress⟩) {ε α : Type}
    (denied : PreparationFailure → ε) (operation : OwnerState M → OwnerState M × Except ε α) :
    ∃ entry, w.store.owners[owner.id]? = some entry ∧
      w.store.withEntry owner denied operation =
        (w.store.set owner.id (operation entry).1, (operation entry).2) := by
  obtain ⟨entry, hfound, _⟩ := hw.transactional.staging t _ hlive
  refine ⟨entry, (StoreState.checkOwner_ok_iff.mp hfound).1, ?_⟩
  rw [StoreState.withEntry, hfound]

theorem poisonedIn_of_put (hw : Coherent w) {name : String} {bytes : List UInt8}
    {error : TransportError} (h : w.step (.put t name bytes) = some (w', .transport error)) :
    PoisonedIn w' t := by
  obtain ⟨owner, hlive, hput⟩ := World.writing_eq_some h
  obtain ⟨entry, hentry, hwith⟩ :=
    withEntry_of_live hw hlive (fun _ => TransportError.accessDenied) (OwnerState.put name bytes)
  rw [World.put, hwith] at hput
  cases hresult : (entry.put name bytes).2 with
  | ok =>
    rw [hresult] at hput
    cases hput
  | error error' =>
    rw [hresult] at hput
    cases hput
    apply PoisonedIn.of_after hw h hlive
    · exact (lookup_set _ _ _ _).trans (if_pos rfl)
    · exact OwnerState.poisoned_of_put_error hresult

theorem poisonedIn_of_undeclared (hw : Coherent w) {views : List String} {layers : M.Schedule}
    {tx : PreparationTransaction} {view : String} (hlive : w.transactions[t]? = some tx)
    (hview : view ∈ views) (hundeclared : view ∉ tx.owner.declaredViews)
    (h : w.step (.requestProjections t views layers) = some (w', reply)) : PoisonedIn w' t := by
  obtain ⟨owner, hwriting, hrequest⟩ := World.writing_eq_some h
  obtain rfl : tx = _ := Option.some.inj (hlive.symm.trans hwriting)
  obtain ⟨entry, hentry, hwith⟩ := withEntry_of_live hw hwriting id
    (OwnerState.requestProjections owner.declaredViews views layers)
  have hstore : w'.store = w.store.set owner.id
      (entry.requestProjections owner.declaredViews views layers).1 := by
    rw [World.requestProjections, hwith] at hrequest
    cases hresult : (entry.requestProjections owner.declaredViews views layers).2 with
    | ok =>
      rw [hresult] at hrequest
      cases hrequest
      rfl
    | error error =>
      rw [hresult] at hrequest
      cases hrequest
      rfl
  apply PoisonedIn.of_after hw h hwriting
  · rw [hstore]
    exact (lookup_set _ _ _ _).trans (if_pos rfl)
  · exact OwnerState.poisoned_of_undeclared hview hundeclared

theorem poisonedIn_of_writerFault (hw : Coherent w) {error : TransportError}
    (h : w.step (.recordWriterFault t error) = some (w', reply)) : PoisonedIn w' t := by
  obtain ⟨owner, hlive, hrecord⟩ := World.writing_eq_some h
  obtain ⟨entry, hfound, _⟩ := hw.transactional.staging t _ hlive
  rw [World.recordWriterFault, hfound] at hrecord
  cases hrecord
  apply PoisonedIn.of_after hw h hlive
  · exact (lookup_set _ _ _ _).trans (if_pos rfl)
  · exact OwnerState.poisoned_of_writerFault rfl

theorem poisonedIn_of_missing (hw : Coherent w) {result : Except PreparationFailure Unit}
    {tx : PreparationTransaction} {entry : OwnerState M} {projection : ProjectionStaging M}
    {view : String} (hlive : w.transactions[t]? = some tx)
    (hentry : w.store.owners[tx.owner.id]? = some entry)
    (hprojection : entry.projection = some projection) (hview : view ∈ projection.views)
    (hmissing : view ∉ projection.scenes)
    (h : w.step (.finish t result) = some (w', reply)) : PoisonedIn w' t := by
  obtain ⟨owner, hwriting, hfinish⟩ := World.writing_eq_some h
  obtain rfl : tx = _ := Option.some.inj (hlive.symm.trans hwriting)
  obtain ⟨found, hfound, hwith⟩ := withEntry_of_live hw hwriting id OwnerState.finishCheck
  obtain rfl : entry = found := Option.some.inj (hentry.symm.trans hfound)
  have hstore : w'.transactions[t]? = none ∨
      w'.store = w.store.set owner.id entry.finishCheck.1 := by
    have hdropped : (w.dropTransaction t owner).transactions[t]? = none := by
      obtain ⟨_, hchecked, _⟩ := hw.transactional.staging t _ hwriting
      rw [dropTransaction_eq hchecked]
      exact ExtTreeMap.getElem?_erase_self
    unfold World.finish at hfinish
    split at hfinish
    · cases hfinish
      exact Or.inl hdropped
    · cases hfinish
      exact Or.inl hdropped
    · rw [hwith] at hfinish
      split at hfinish <;> rename_i heq
      · obtain ⟨rfl, _⟩ := Prod.mk.inj heq
        cases hfinish
        exact Or.inr rfl
      · obtain ⟨rfl, _⟩ := Prod.mk.inj heq
        split at hfinish <;> cases hfinish
        · exact Or.inr rfl
        · exact Or.inr rfl
  rcases hstore with hended | hstore
  · have hissued := hw.transactional.issued t _ hwriting
    refine ⟨Nat.lt_of_lt_of_le hissued (numbers_le hw h).1, fun tx _ hlive' => ?_⟩
    rw [hended] at hlive'
    cases hlive'
  · apply PoisonedIn.of_after hw h hwriting
    · rw [hstore]
      exact (lookup_set _ _ _ _).trans (if_pos rfl)
    · exact OwnerState.poisoned_of_missing hprojection hview hmissing

/-- **Every rejection poisons the transaction.** -/
theorem poisonedIn_of_poisons {e : Event (World M) (Op M) (Reply M)} (hw : Coherent e.before)
    (h : e.before.step e.op = some (e.after, e.reply)) (hpoisons : Poisons t e) :
    PoisonedIn e.after t := by
  cases hpoisons with
  | put hop hreply =>
    rw [hop, hreply] at h
    exact poisonedIn_of_put hw h
  | recorded _ hlive _ _ hafter hfault =>
    exact .of_after hw h hlive hafter (OwnerState.poisoned_of_projectionFailure hfault)
  | undeclared hop hlive hview hundeclared =>
    rw [hop] at h
    exact poisonedIn_of_undeclared hw hlive hview hundeclared h
  | writerFault hop =>
    rw [hop] at h
    exact poisonedIn_of_writerFault hw h
  | missing hop hlive hentry hprojection hview hmissing =>
    rw [hop] at h
    exact poisonedIn_of_missing hw hlive hentry hprojection hview hmissing h

/-- A poisoned transaction succeeds in nothing. -/
theorem PoisonedIn.not_succeeds {e : Event (World M) (Op M) (Reply M)}
    (h : e.before.step e.op = some (e.after, e.reply)) (hpoisoned : PoisonedIn e.before t) :
    ¬ Succeeds t e := by
  have hdirty : ∀ {tx : PreparationTransaction} {entry : OwnerState M},
      e.before.transactions[t]? = some tx →
      e.before.store.owners[tx.owner.id]? = some entry → ¬ entry.poisoned = false := by
    intro tx entry hlive hentry
    rw [hpoisoned.2 tx entry hlive hentry]
    decide
  have heffect := World.step_effect h
  intro hsucceeds
  cases hsucceeds with
  | finish hop hreply =>
    rw [hop, hreply] at heffect
    generalize e.after = after at heffect
    cases heffect with
    | quiet hquiet => cases hquiet
    | staged _ _ hchange => cases hchange
    | forwarded _ _ _ _ hchange => cases hchange
    | ended _ hends => cases hends
    | published hlive hfound hpublish =>
      exact hdirty hlive (StoreState.checkOwner_ok_iff.mp hfound).1
        (OwnerState.finishPublish_eq_ok hpublish).1
  | put hop hreply =>
    rw [hop, hreply] at heffect
    generalize e.after = after at heffect
    cases heffect with
    | quiet hquiet => cases hquiet
    | staged hlive hfound hchange =>
      cases hchange with
      | accepted hclean _ =>
        exact hdirty hlive (StoreState.checkOwner_ok_iff.mp hfound).1 hclean
    | forwarded _ _ _ _ hchange => cases hchange
    | ended _ hends => cases hends
  | publish hlive hid hop hreply =>
    rw [hop, hreply] at heffect
    generalize e.after = after at heffect
    cases heffect with
    | quiet hquiet => cases hquiet
    | staged _ _ hchange => cases hchange
    | forwarded hfound _ _ hclean hchange =>
      have hentry := (StoreState.checkOwner_ok_iff.mp hfound).1
      cases hchange with
      | accepted _ =>
        rw [hid] at hentry
        exact hdirty hlive hentry hclean
    | ended _ hends => cases hends

end Step

/-! ### Runs -/

/-- **Poison is permanent within a transaction.** After an event that rejects
something during a transaction, no later event is a success of it. -/
theorem poison_permanent {past future : List (Event (World M) (Op M) (Reply M))}
    {e : Event (World M) (Op M) (Reply M)} {w : World M} {t : Nat}
    (run : (machine M).Run (past ++ e :: future) w) (hpoisons : Poisons t e) :
    ∀ later ∈ future, ¬ Succeeds t later := by
  intro later hlater
  obtain ⟨mid, rest, rfl⟩ := List.append_of_mem hlater
  have hsplit : past ++ e :: (mid ++ later :: rest) = (past ++ e :: mid) ++ later :: rest := by
    simp
  rw [hsplit] at run
  obtain ⟨before, hstep⟩ := run.split
  apply PoisonedIn.not_succeeds hstep
  apply before.stable (P := fun w => PoisonedIn w t)
  · obtain ⟨first, hfirst⟩ := before.split
    exact poisonedIn_of_poisons (run_coherent first) hfirst hpoisons
  · intro trace w op w' reply run hpoisoned h
    exact hpoisoned.step (run_coherent run) h

/-- The event rejects a `put` of this transaction. -/
def rejectsPut (t : Nat) (e : Event (World M) (Op M) (Reply M)) : Bool :=
  match e.op, e.reply with
  | .put u _ _, .transport _ => u == t
  | _, _ => false

/-- A name is put twice; the transaction goes on regardless and is finished. -/
def poisonOps : List (Op emptyScenes) :=
  let owner : PreparationOwner := ⟨0, 0, 7, []⟩
  [.createOwner ⟨"org.module", 7, []⟩, .begin 0 owner, .put 0 "plan" [1], .put 0 "plan" [2],
    .put 0 "walls" [3], .finish 0 (.ok ()), .dropTransaction 0]

theorem poison_permanent_of_ops :
    ∃ past e future w, (machine emptyScenes).Run (past ++ e :: future) w ∧ Poisons 0 e ∧
      ∀ later ∈ future, ¬ Succeeds 0 later := by
  have hany : ((machine emptyScenes).replay poisonOps).map
      (fun result => result.1.any (rejectsPut 0)) = some true := by decide
  obtain ⟨⟨trace, w⟩, hreplay, hrejects⟩ := Option.map_eq_some_iff.mp hany
  obtain ⟨e, he, hreject⟩ := List.any_eq_true.mp hrejects
  obtain ⟨past, future, rfl⟩ := List.append_of_mem he
  have run := Machine.run_of_replay hreplay
  have hpoisons : Poisons 0 e := by
    unfold rejectsPut at hreject
    split at hreject
    · rename_i u name bytes error hop hreply
      obtain rfl : u = 0 := by simpa using hreject
      exact .put hop hreply
    · cases hreject
  exact ⟨past, e, future, w, run, hpoisons, poison_permanent run hpoisons⟩

end PinchNPrint.Preparation
