/-
The invariants that tie a store to the authorities over it.

`Transactional`: a live transaction's owner is staging, a staging owner has
exactly one live transaction, and a disposed store has only disposed owners.
`Guarded`: the read counter of an owner is the number of live guards on it, and
a disposed owner has none. Both hold in every state a run reaches
(`run_coherent`).

Outcomes that keep an entry's standing preserve both at once
(`Coherent.adjust`); what remains are the outcomes that move an owner through
its life cycle or add and drop authorities.
-/

import PinchNPrint.Store.Steps

namespace PinchNPrint.Preparation

open Std

variable {M : SceneModel}

/-! ### What keeps an entry's standing -/

namespace SameStanding

theorem refl (entry : OwnerState M) : SameStanding entry entry :=
  ⟨⟨rfl, rfl⟩, rfl, rfl, rfl⟩

variable {entry entry' : OwnerState M}

theorem of_staging {transaction : Nat} {owner : PreparationOwner} {op : Op M} {reply : Reply M}
    (h : Staging transaction owner entry op reply entry') : SameStanding entry entry' := by
  cases h with
  | requested hviews hreply =>
    unfold OwnerState.requestProjections
    split
    · exact refl entry
    · simp only
      split <;> exact ⟨⟨rfl, rfl⟩, rfl, rfl, rfl⟩
  | faulted => exact ⟨⟨rfl, rfl⟩, rfl, rfl, rfl⟩
  | accepted hclean hstaged =>
    obtain ⟨_, _, _, _, _, _, rfl⟩ := OwnerState.stagePiece_eq_ok hstaged
    exact ⟨⟨rfl, rfl⟩, rfl, rfl, rfl⟩
  | refused hclean hrefused => exact ⟨⟨rfl, rfl⟩, rfl, rfl, rfl⟩

theorem of_forwarding {writer : ProjectionWriter} {op : Op M} {reply : Reply M}
    (h : Forwarding writer entry op reply entry') : SameStanding entry entry' := by
  cases h with
  | unrequested h => exact ⟨⟨rfl, rfl⟩, rfl, rfl, rfl⟩
  | refused h => exact ⟨⟨rfl, rfl⟩, rfl, rfl, rfl⟩
  | accepted h =>
    obtain ⟨_, _, _, _, _, _, _, rfl⟩ := OwnerState.stageScene_eq_ok h
    exact ⟨⟨rfl, rfl⟩, rfl, rfl, rfl⟩

theorem of_finishCheck (entry : OwnerState M) : SameStanding entry entry.finishCheck.1 := by
  unfold OwnerState.finishCheck
  split
  · exact refl entry
  · split <;> exact ⟨⟨rfl, rfl⟩, rfl, rfl, rfl⟩

theorem of_finishPublish_error {staged : List (String × Nat)} {error : PreparationFailure}
    (h : (entry.finishPublish staged).2 = .error error) :
    SameStanding entry (entry.finishPublish staged).1 := by
  rcases OwnerState.finishPublish_of_error h with hsame | ⟨fault, hfault⟩
  · rw [hsame]
    exact refl entry
  · rw [hfault]
    exact ⟨⟨rfl, rfl⟩, rfl, rfl, rfl⟩

theorem of_read {id offset maxBytes : Nat} {bytes : List UInt8}
    (h : entry.read id offset maxBytes = .ok (entry', bytes)) : SameStanding entry entry' := by
  obtain ⟨_, _, _, _, _, _, _, _, rfl⟩ := OwnerState.read_eq_ok h
  exact ⟨⟨rfl, rfl⟩, rfl, rfl, rfl⟩

end SameStanding

/-! ### Transactions and phases -/

/-- Live transactions are the staging owners. -/
structure Transactional (w : World M) : Prop where
  staging : ∀ (t : Nat) (tx : PreparationTransaction), w.transactions[t]? = some tx →
    ∃ entry, w.store.checkOwner tx.owner = .ok entry ∧ entry.metadata.phase = .staging
  unique : ∀ (t t' : Nat) (tx tx' : PreparationTransaction), w.transactions[t]? = some tx →
    w.transactions[t']? = some tx' → tx.owner.id = tx'.owner.id → t = t'
  covered : ∀ (k : Nat) (entry : OwnerState M), w.store.owners[k]? = some entry →
    entry.metadata.phase = .staging →
      ∃ (t : Nat) (tx : PreparationTransaction), w.transactions[t]? = some tx ∧ tx.owner.id = k
  issued : ∀ (t : Nat) (tx : PreparationTransaction), w.transactions[t]? = some tx →
    t < w.nextTransaction
  keys : ∀ (k : Nat) (entry : OwnerState M), w.store.owners[k]? = some entry →
    k < w.store.nextOwner
  disposed : w.store.disposed = true → ∀ (k : Nat) (entry : OwnerState M),
    w.store.owners[k]? = some entry → entry.metadata.phase = .disposed

section Lookup

variable {state : StoreState M} {id k : Nat} {entry entry' found : OwnerState M}

theorem lookup_set (state : StoreState M) (id k : Nat) (entry : OwnerState M) :
    (state.set id entry).owners[k]? = if id = k then some entry else state.owners[k]? := by
  rw [StoreState.owners_set, ExtTreeMap.getElem?_insert]
  simp

/-- Every entry of an adjusted store had an entry of the same phase. -/
theorem exists_of_lookup_set (h : state.owners[id]? = some entry)
    (hsame : SamePhase entry entry') (hk : (state.set id entry').owners[k]? = some found) :
    ∃ old, state.owners[k]? = some old ∧ SamePhase old found := by
  rw [lookup_set] at hk
  split at hk
  · rename_i heq
    subst heq
    cases hk
    exact ⟨entry, h, hsame⟩
  · exact ⟨found, hk, ⟨rfl, rfl⟩⟩

/-- An adjusted store still finds every owner. -/
theorem checkOwner_set (h : state.owners[id]? = some entry) (hsame : SamePhase entry entry')
    {owner : PreparationOwner} (hfound : state.checkOwner owner = .ok found) :
    ∃ new, (state.set id entry').checkOwner owner = .ok new ∧ SamePhase found new := by
  obtain ⟨hlookup, hartifact, hopen, hphase⟩ := StoreState.checkOwner_ok_iff.mp hfound
  by_cases hid : id = owner.id
  · subst hid
    obtain rfl : entry = found := Option.some.inj (h.symm.trans hlookup)
    refine ⟨entry', StoreState.checkOwner_ok_iff.mpr ⟨?_, ?_, hopen, ?_⟩, hsame⟩
    · rw [lookup_set, if_pos rfl]
    · rw [hsame.artifact, hartifact]
    · rw [hsame.phase]
      exact hphase
  · refine ⟨found, StoreState.checkOwner_ok_iff.mpr ⟨?_, hartifact, hopen, hphase⟩,
      ⟨rfl, rfl⟩⟩
    rw [lookup_set, if_neg hid]
    exact hlookup

/-- Another owner is found as before. -/
theorem checkOwner_set_of_ne {owner : PreparationOwner} (hid : id ≠ owner.id) :
    (state.set id entry').checkOwner owner = state.checkOwner owner := by
  unfold StoreState.checkOwner
  rw [lookup_set, if_neg hid]
  rfl

end Lookup

namespace Transactional

variable {w : World M}

theorem initial : Transactional (World.initial M) := by
  refine ⟨?_, ?_, ?_, ?_, ?_, ?_⟩ <;> intros <;> simp_all [World.initial]

variable {entry : OwnerState M} {owner : PreparationOwner}

theorem adjust (hw : Transactional w) {id : Nat} {entry' : OwnerState M}
    (hentry : w.store.owners[id]? = some entry) (hsame : SamePhase entry entry') :
    Transactional (w.withStore (w.store.set id entry')) := by
  refine ⟨?_, hw.unique, ?_, hw.issued, ?_, ?_⟩
  · intro t tx hlive
    obtain ⟨found, hfound, hphase⟩ := hw.staging t tx hlive
    obtain ⟨new, hnew, hstanding⟩ := checkOwner_set hentry hsame hfound
    exact ⟨new, hnew, hstanding.phase.trans hphase⟩
  · intro k found hfound hphase
    obtain ⟨old, hold, hstanding⟩ := exists_of_lookup_set hentry hsame hfound
    exact hw.covered k old hold (hstanding.phase.symm.trans hphase)
  · intro k found hfound
    obtain ⟨old, hold, _⟩ := exists_of_lookup_set hentry hsame hfound
    exact hw.keys k old hold
  · intro hdisposed k found hfound
    obtain ⟨old, hold, hstanding⟩ := exists_of_lookup_set hentry hsame hfound
    exact hstanding.phase.trans (hw.disposed hdisposed k old hold)

/-- A live transaction changes its progress only. -/
theorem progress (hw : Transactional w) {t : Nat} {before after : Progress}
    (hlive : w.transactions[t]? = some ⟨owner, before⟩) :
    Transactional { w with transactions := w.transactions.insert t ⟨owner, after⟩ } := by
  have hold : ∀ {u : Nat} {tx : PreparationTransaction},
      (w.transactions.insert t ⟨owner, after⟩)[u]? = some tx →
      ∃ tx', w.transactions[u]? = some tx' ∧ tx'.owner = tx.owner := by
    intro u tx hu
    rcases BTreeMap.getElem?_insert_cases hu with ⟨rfl, rfl⟩ | hu
    · exact ⟨⟨owner, before⟩, hlive, rfl⟩
    · exact ⟨tx, hu, rfl⟩
  refine ⟨?_, ?_, ?_, ?_, hw.keys, hw.disposed⟩
  · intro u tx hu
    obtain ⟨tx', hu', howner⟩ := hold hu
    rw [← howner]
    exact hw.staging u tx' hu'
  · intro u v tx tx' hu hv hid
    obtain ⟨old, hu', howner⟩ := hold hu
    obtain ⟨old', hv', howner'⟩ := hold hv
    exact hw.unique u v old old' hu' hv' (by rw [howner, howner', hid])
  · intro k entry hentry hphase
    obtain ⟨u, tx, hu, hid⟩ := hw.covered k entry hentry hphase
    by_cases htu : t = u
    · subst htu
      obtain rfl : tx = ⟨owner, before⟩ := Option.some.inj (hu.symm.trans hlive)
      exact ⟨t, ⟨owner, after⟩, ExtTreeMap.getElem?_insert_self, hid⟩
    · exact ⟨u, tx, by rw [BTreeMap.getElem?_insert_of_ne htu]; exact hu, hid⟩
  · intro u tx hu
    obtain ⟨tx', hu', _⟩ := hold hu
    exact hw.issued u tx' hu'

/-- A live transaction ends and its owner leaves staging. -/
theorem finish (hw : Transactional w) {t : Nat} {tx : PreparationTransaction}
    (hlive : w.transactions[t]? = some tx) {entry' : OwnerState M}
    (hphase : entry'.metadata.phase ≠ .staging) :
    Transactional { w with
      store := w.store.set tx.owner.id entry'
      transactions := w.transactions.erase t } := by
  obtain ⟨entry, hfound, _⟩ := hw.staging t tx hlive
  obtain ⟨hentry, _, hopen, _⟩ := StoreState.checkOwner_ok_iff.mp hfound
  refine ⟨?_, ?_, ?_, ?_, ?_, ?_⟩
  · intro u tx' hu
    obtain ⟨hne, hu⟩ := BTreeMap.getElem?_erase_cases hu
    obtain ⟨found, hfound', hstaging⟩ := hw.staging u tx' hu
    have hid : tx.owner.id ≠ tx'.owner.id := fun hid => hne (hw.unique u t tx' tx hu hlive hid.symm)
    exact ⟨found, (checkOwner_set_of_ne hid).trans hfound', hstaging⟩
  · intro u v tx₁ tx₂ hu hv
    exact hw.unique u v tx₁ tx₂ (BTreeMap.getElem?_erase_cases hu).2
      (BTreeMap.getElem?_erase_cases hv).2
  · intro k found hfound' hstaging
    rw [lookup_set] at hfound'
    split at hfound'
    · cases hfound'
      exact absurd hstaging hphase
    · rename_i hid
      obtain ⟨u, tx', hu, hk⟩ := hw.covered k found hfound' hstaging
      refine ⟨u, tx', ?_, hk⟩
      have htu : t ≠ u := by
        rintro rfl
        obtain rfl : tx = tx' := Option.some.inj (hlive.symm.trans hu)
        exact hid hk
      simp [ExtTreeMap.getElem?_erase, htu, hu]
  · intro u tx' hu
    exact hw.issued u tx' (BTreeMap.getElem?_erase_cases hu).2
  · intro k found hfound'
    rw [lookup_set] at hfound'
    split at hfound'
    · rename_i hid
      exact hid ▸ hw.keys _ entry hentry
    · exact hw.keys k found hfound'
  · intro hdisposed
    exact absurd (hopen.symm.trans hdisposed) (by decide)

/-- An unready owner starts staging under a new transaction. -/
theorem begin (hw : Transactional w) {thread : Nat} (hfound : w.store.checkOwner owner = .ok entry)
    (hphase : entry.metadata.phase = .unready) :
    Transactional { w with
      store := w.store.set owner.id (entry.begin (w.beginIdentity thread owner)).1
      transactions := w.transactions.insert w.nextTransaction ⟨owner, .writing⟩
      nextIdentity := w.nextIdentity + 1
      nextTransaction := w.nextTransaction + 1 } := by
  obtain ⟨hentry, hartifact, hopen, _⟩ := StoreState.checkOwner_ok_iff.mp hfound
  have hbegun : (entry.begin (w.beginIdentity thread owner)).1.metadata.phase = .staging := by
    simp [OwnerState.begin, hphase]
  have hkept : (entry.begin (w.beginIdentity thread owner)).1.artifactIdentity =
      entry.artifactIdentity := by
    simp [OwnerState.begin, hphase]
  generalize hnew : (entry.begin (w.beginIdentity thread owner)).1 = begun at *
  -- No live transaction works on an unready owner.
  have hother : ∀ {u : Nat} {tx : PreparationTransaction}, w.transactions[u]? = some tx →
      owner.id ≠ tx.owner.id := by
    intro u tx hu hid
    obtain ⟨found, hfound', hstaging⟩ := hw.staging u tx hu
    have hlookup := (StoreState.checkOwner_ok_iff.mp hfound').1
    obtain rfl : entry = found := Option.some.inj (hentry.symm.trans (hid ▸ hlookup))
    rw [hphase] at hstaging
    cases hstaging
  refine ⟨?_, ?_, ?_, ?_, ?_, ?_⟩
  · intro u tx hu
    rcases BTreeMap.getElem?_insert_cases hu with ⟨rfl, rfl⟩ | hu
    · refine ⟨begun, StoreState.checkOwner_ok_iff.mpr ⟨?_, ?_, hopen, ?_⟩, hbegun⟩
      · rw [lookup_set, if_pos rfl]
      · rw [hkept, hartifact]
      · rw [hbegun]
        decide
    · obtain ⟨found, hfound', hstaging⟩ := hw.staging u tx hu
      exact ⟨found, (checkOwner_set_of_ne (hother hu)).trans hfound', hstaging⟩
  · intro u v tx tx' hu hv hid
    rcases BTreeMap.getElem?_insert_cases hu with ⟨rfl, rfl⟩ | hu
    · rcases BTreeMap.getElem?_insert_cases hv with ⟨rfl, rfl⟩ | hv
      · rfl
      · exact absurd hid (hother hv)
    · rcases BTreeMap.getElem?_insert_cases hv with ⟨rfl, rfl⟩ | hv
      · exact absurd hid.symm (hother hu)
      · exact hw.unique u v tx tx' hu hv hid
  · intro k found hfound' hstaging
    rw [lookup_set] at hfound'
    split at hfound'
    · rename_i hid
      exact ⟨w.nextTransaction, ⟨owner, .writing⟩, ExtTreeMap.getElem?_insert_self, hid⟩
    · obtain ⟨u, tx, hu, hid⟩ := hw.covered k found hfound' hstaging
      have hne : w.nextTransaction ≠ u := (Nat.ne_of_lt (hw.issued u tx hu)).symm
      exact ⟨u, tx, by rw [BTreeMap.getElem?_insert_of_ne hne]; exact hu, hid⟩
  · intro u tx hu
    rcases BTreeMap.getElem?_insert_cases hu with ⟨rfl, _⟩ | hu
    · exact Nat.lt_succ_self _
    · exact Nat.lt_succ_of_lt (hw.issued u tx hu)
  · intro k found hfound'
    rw [lookup_set] at hfound'
    split at hfound'
    · rename_i hid
      exact hid ▸ hw.keys _ entry hentry
    · exact hw.keys k found hfound'
  · intro hdisposed
    exact absurd (hopen.symm.trans hdisposed) (by decide)

theorem create (hw : Transactional w) {binding : FrozenPreparationBinding}
    (hopen : w.store.disposed = false) :
    Transactional (w.withStore { w.store with
      owners := w.store.owners.insert w.store.nextOwner (OwnerState.new binding)
      nextOwner := w.store.nextOwner + 1 }) := by
  refine ⟨?_, hw.unique, ?_, hw.issued, ?_, ?_⟩
  · intro t tx hlive
    obtain ⟨found, hfound, hstaging⟩ := hw.staging t tx hlive
    obtain ⟨hlookup, hartifact, hopen', hphase⟩ := StoreState.checkOwner_ok_iff.mp hfound
    refine ⟨found, StoreState.checkOwner_ok_iff.mpr ⟨?_, hartifact, hopen', hphase⟩, hstaging⟩
    have hne : w.store.nextOwner ≠ tx.owner.id := (Nat.ne_of_lt (hw.keys _ found hlookup)).symm
    exact (BTreeMap.getElem?_insert_of_ne hne _).trans hlookup
  · intro k found hk hstaging
    rcases BTreeMap.getElem?_insert_cases hk with ⟨_, rfl⟩ | hk
    · cases hstaging
    · exact hw.covered k found hk hstaging
  · intro k found hk
    rcases BTreeMap.getElem?_insert_cases hk with ⟨rfl, _⟩ | hk
    · exact Nat.lt_succ_self _
    · exact Nat.lt_succ_of_lt (hw.keys k found hk)
  · intro hdisposed
    exact absurd (hopen.symm.trans hdisposed) (by decide)

theorem disposeOwner (hw : Transactional w) (hfound : w.store.checkOwner owner = .ok entry)
    (hidle : entry.busy = false) :
    Transactional (w.withStore (w.store.set owner.id (entry.clear .disposed))) := by
  obtain ⟨hentry, _, hopen, _⟩ := StoreState.checkOwner_ok_iff.mp hfound
  have hnotStaging : entry.metadata.phase ≠ .staging := by
    intro hstaging
    simp [OwnerState.busy, hstaging] at hidle
  refine ⟨?_, hw.unique, ?_, hw.issued, ?_, ?_⟩
  · intro t tx hlive
    obtain ⟨found, hfound', hstaging⟩ := hw.staging t tx hlive
    have hid : owner.id ≠ tx.owner.id := by
      intro hid
      have hlookup := (StoreState.checkOwner_ok_iff.mp hfound').1
      obtain rfl : entry = found := Option.some.inj (hentry.symm.trans (hid ▸ hlookup))
      exact hnotStaging hstaging
    exact ⟨found, (checkOwner_set_of_ne hid).trans hfound', hstaging⟩
  · intro k found hk hstaging
    change (w.store.set owner.id (entry.clear .disposed)).owners[k]? = some found at hk
    rw [lookup_set] at hk
    split at hk
    · cases hk
      cases hstaging
    · exact hw.covered k found hk hstaging
  · intro k found hk
    change (w.store.set owner.id (entry.clear .disposed)).owners[k]? = some found at hk
    rw [lookup_set] at hk
    split at hk
    · rename_i hid
      exact hid ▸ hw.keys _ entry hentry
    · exact hw.keys k found hk
  · intro hdisposed
    exact absurd (hopen.symm.trans hdisposed) (by decide)

theorem dispose (hw : Transactional w)
    (hidle : ∀ (k : Nat) (entry : OwnerState M), w.store.owners[k]? = some entry →
      entry.busy = false) :
    Transactional (w.withStore { w.store with
      owners := w.store.owners.map fun _ entry => entry.clear .disposed
      disposed := true }) := by
  have hcleared : ∀ {k : Nat} {found : OwnerState M},
      (w.store.owners.map fun _ entry => entry.clear .disposed)[k]? = some found →
      ∃ old, w.store.owners[k]? = some old ∧ found = old.clear .disposed := by
    intro k found hk
    rw [ExtTreeMap.getElem?_map, Option.map_eq_some_iff] at hk
    obtain ⟨old, hold, rfl⟩ := hk
    exact ⟨old, hold, rfl⟩
  refine ⟨?_, hw.unique, ?_, hw.issued, ?_, ?_⟩
  · intro t tx hlive
    obtain ⟨found, hfound, hstaging⟩ := hw.staging t tx hlive
    have hbusy := hidle _ found (StoreState.checkOwner_ok_iff.mp hfound).1
    simp [OwnerState.busy, hstaging] at hbusy
  · intro k found hk hstaging
    obtain ⟨old, _, rfl⟩ := hcleared hk
    cases hstaging
  · intro k found hk
    obtain ⟨old, hold, _⟩ := hcleared hk
    exact hw.keys k old hold
  · intro _ k found hk
    obtain ⟨old, _, rfl⟩ := hcleared hk
    rfl

end Transactional

variable {w : World M}

/-- Dropping the last authority of a transaction, once its owner is found. -/
theorem dropTransaction_eq {t : Nat} {owner : PreparationOwner} {entry : OwnerState M}
    (hfound : w.store.checkOwner owner = .ok entry) :
    w.dropTransaction t owner = { w with
      store := w.store.set owner.id (entry.clear .unready)
      transactions := w.transactions.erase t } := by
  simp only [World.dropTransaction, hfound]
  rfl

/-- Dropping a guard whose owner the store knows and counts. -/
theorem dropGuard_eq {g : Nat} {held : ReadGuard} {entry : OwnerState M}
    (hentry : w.store.owners[held.owner.id]? = some entry) (hcount : entry.activeReads ≠ 0) :
    w.dropGuard g held = ({ w with
      store := w.store.set held.owner.id { entry with activeReads := entry.activeReads - 1 }
      guards := w.guards.erase g
      active := w.restore held.scope }, .done) := by
  simp only [World.dropGuard, StoreState.release, hentry, if_neg hcount]
  rfl

/-! ### Guards and read counters -/

/-- Live guards on one owner. -/
def World.guardCount (w : World M) (k : Nat) : Nat :=
  (BTreeMap.vals w.guards).countP fun guard => guard.owner.id == k

/-- Read counters count live guards. -/
structure Guarded (w : World M) : Prop where
  counted : ∀ (k : Nat) (entry : OwnerState M), w.store.owners[k]? = some entry →
    entry.activeReads = w.guardCount k
  owned : ∀ (g : Nat) (guard : ReadGuard), w.guards[g]? = some guard →
    ∃ entry, w.store.owners[guard.owner.id]? = some entry
  issued : ∀ (g : Nat) (guard : ReadGuard), w.guards[g]? = some guard → g < w.nextGuard
  idle : ∀ (k : Nat) (entry : OwnerState M), w.store.owners[k]? = some entry →
    entry.metadata.phase = .disposed → entry.activeReads = 0

namespace Guarded

variable {w : World M}

theorem initial : Guarded (World.initial M) := by
  refine ⟨?_, ?_, ?_, ?_⟩ <;> intros <;> simp_all [World.initial]

variable {w' : World M} {entry : OwnerState M}

/-- A store change that keeps every owner's guards, and disposes idle owners
only. -/
theorem restore (hw : Guarded w) (hguards : w'.guards = w.guards)
    (hnext : w'.nextGuard = w.nextGuard)
    (hkept : ∀ (k : Nat) (entry : OwnerState M), w.store.owners[k]? = some entry →
      ∃ new, w'.store.owners[k]? = some new)
    (hold : ∀ (k : Nat) (new : OwnerState M), w'.store.owners[k]? = some new →
      new.activeReads = w.guardCount k ∧ (new.metadata.phase = .disposed → new.activeReads = 0)) :
    Guarded w' := by
  have hcount : ∀ k, w'.guardCount k = w.guardCount k := by
    intro k
    rw [World.guardCount, hguards, World.guardCount]
  refine ⟨?_, ?_, ?_, ?_⟩
  · intro k new hnew
    rw [hcount]
    exact (hold k new hnew).1
  · intro g guard hguard
    rw [hguards] at hguard
    obtain ⟨entry, hentry⟩ := hw.owned g guard hguard
    exact hkept _ entry hentry
  · intro g guard hguard
    rw [hguards] at hguard
    rw [hnext]
    exact hw.issued g guard hguard
  · intro k new hnew
    exact (hold k new hnew).2

/-- One entry changes but not its guard count; it is disposed only when idle. -/
theorem set (hw : Guarded w) {id : Nat} {entry' : OwnerState M}
    (hentry : w.store.owners[id]? = some entry) (hstore : w'.store = w.store.set id entry')
    (hguards : w'.guards = w.guards) (hnext : w'.nextGuard = w.nextGuard)
    (hreads : entry'.activeReads = entry.activeReads)
    (hdisposed : entry'.metadata.phase = .disposed →
      entry.metadata.phase = .disposed ∨ entry.activeReads = 0) : Guarded w' := by
  refine hw.restore hguards hnext ?_ ?_
  · intro k old hold
    rw [hstore, lookup_set]
    split
    · exact ⟨entry', rfl⟩
    · exact ⟨old, hold⟩
  · intro k new hnew
    rw [hstore, lookup_set] at hnew
    split at hnew
    · rename_i hid
      subst hid
      cases hnew
      refine ⟨hreads.trans (hw.counted _ entry hentry), fun hphase => ?_⟩
      rw [hreads]
      rcases hdisposed hphase with hold | hold
      · exact hw.idle _ entry hentry hold
      · exact hold
    · exact ⟨hw.counted k new hnew, hw.idle k new hnew⟩

/-- A guard is added on a found owner and counted. -/
theorem acquire (hw : Guarded w) {owner : PreparationOwner} {scope : GuardScope}
    (hfound : w.store.checkOwner owner = .ok entry)
    (hstore : w'.store = w.store.set owner.id { entry with activeReads := entry.activeReads + 1 })
    (hguards : w'.guards = w.guards.insert w.nextGuard ⟨owner, scope⟩)
    (hnext : w'.nextGuard = w.nextGuard + 1) : Guarded w' := by
  obtain ⟨hentry, _, _, hphase⟩ := StoreState.checkOwner_ok_iff.mp hfound
  have hfresh : w.guards[w.nextGuard]? = none := by
    by_contra hsome
    obtain ⟨guard, hguard⟩ := Option.ne_none_iff_exists'.mp hsome
    exact Nat.lt_irrefl _ (hw.issued _ guard hguard)
  have hcount : ∀ k, w'.guardCount k = w.guardCount k + if owner.id = k then 1 else 0 := by
    intro k
    rw [World.guardCount, hguards, (BTreeMap.vals_insert_perm hfresh _).countP_eq,
      List.countP_cons]
    simp [World.guardCount]
  have hcases : ∀ {g : Nat} {guard : ReadGuard}, w'.guards[g]? = some guard →
      (g = w.nextGuard ∧ guard = ⟨owner, scope⟩) ∨ w.guards[g]? = some guard := by
    intro g guard hguard
    rw [hguards] at hguard
    exact BTreeMap.getElem?_insert_cases hguard
  have hlookup : ∀ k, w'.store.owners[k]? = if owner.id = k then
      some { entry with activeReads := entry.activeReads + 1 } else w.store.owners[k]? := by
    intro k
    rw [hstore, lookup_set]
  refine ⟨?_, ?_, ?_, ?_⟩
  · intro k new hnew
    rw [hlookup] at hnew
    rw [hcount]
    split at hnew
    · rename_i hid
      subst hid
      cases hnew
      simp [hw.counted _ entry hentry]
    · rename_i hid
      simpa [hid] using hw.counted k new hnew
  · intro g guard hguard
    rw [hlookup]
    rcases hcases hguard with ⟨_, rfl⟩ | hguard
    · simp
    · obtain ⟨old, hold⟩ := hw.owned g guard hguard
      split
      · exact ⟨_, rfl⟩
      · exact ⟨old, hold⟩
  · intro g guard hguard
    rw [hnext]
    rcases hcases hguard with ⟨rfl, _⟩ | hguard
    · exact Nat.lt_succ_self _
    · exact Nat.lt_succ_of_lt (hw.issued g guard hguard)
  · intro k new hnew hdisposed
    rw [hlookup] at hnew
    split at hnew
    · cases hnew
      exact absurd hdisposed hphase
    · exact hw.idle k new hnew hdisposed

/-- A live guard is counted, so its drop does not underflow. -/
theorem count_pos (hw : Guarded w) {g : Nat} {held : ReadGuard} (hlive : w.guards[g]? = some held)
    (hentry : w.store.owners[held.owner.id]? = some entry) : entry.activeReads ≠ 0 := by
  rw [hw.counted _ entry hentry, World.guardCount, (BTreeMap.vals_erase_perm hlive).countP_eq,
    List.countP_cons]
  simp

/-- A live guard is dropped and no longer counted. -/
theorem release (hw : Guarded w) {g : Nat} {held : ReadGuard}
    (hlive : w.guards[g]? = some held) : Guarded (w.dropGuard g held).1 := by
  obtain ⟨entry, hentry⟩ := hw.owned g held hlive
  have hpos := hw.count_pos hlive hentry
  rw [dropGuard_eq hentry hpos]
  have hcount : ∀ k, w.guardCount k =
      (BTreeMap.vals (w.guards.erase g)).countP (fun guard => guard.owner.id == k) +
        if held.owner.id = k then 1 else 0 := by
    intro k
    rw [World.guardCount, (BTreeMap.vals_erase_perm hlive).countP_eq, List.countP_cons]
    simp
  refine ⟨?_, ?_, ?_, ?_⟩
  · intro k new hnew
    rw [lookup_set] at hnew
    have hk := hcount k
    show new.activeReads =
      (BTreeMap.vals (w.guards.erase g)).countP fun guard => guard.owner.id == k
    split at hnew
    · rename_i hid
      subst hid
      cases hnew
      have := hw.counted _ entry hentry
      rw [if_pos rfl] at hk
      show entry.activeReads - 1 = _
      omega
    · rename_i hid
      have := hw.counted k new hnew
      rw [if_neg hid] at hk
      omega
  · intro g' guard hguard
    rw [lookup_set]
    obtain ⟨old, hentry'⟩ := hw.owned g' guard (BTreeMap.getElem?_erase_cases hguard).2
    split
    · exact ⟨_, rfl⟩
    · exact ⟨old, hentry'⟩
  · intro g' guard hguard
    exact hw.issued g' guard (BTreeMap.getElem?_erase_cases hguard).2
  · intro k new hnew hdisposed
    rw [lookup_set] at hnew
    split at hnew
    · cases hnew
      have := hw.idle _ entry hentry hdisposed
      exact absurd this hpos
    · exact hw.idle k new hnew hdisposed

end Guarded

/-! ### Every reachable world is coherent -/

/-- Both invariants. -/
structure Coherent (w : World M) : Prop where
  transactional : Transactional w
  guarded : Guarded w

namespace Coherent

variable {w w' : World M} {op : Op M} {reply : Reply M}

variable {entry : OwnerState M}

theorem adjust (hw : Coherent w) {id : Nat} {entry' : OwnerState M}
    (hentry : w.store.owners[id]? = some entry) (hsame : SameStanding entry entry') :
    Coherent (w.withStore (w.store.set id entry')) := by
  refine ⟨hw.transactional.adjust hentry hsame.toSamePhase, ?_⟩
  exact hw.guarded.set hentry rfl rfl rfl hsame.reads fun hphase =>
    Or.inl (hsame.phase.symm.trans hphase)

theorem progress (hw : Coherent w) {t : Nat} {owner : PreparationOwner} {before after : Progress}
    (hlive : w.transactions[t]? = some ⟨owner, before⟩) :
    Coherent { w with transactions := w.transactions.insert t ⟨owner, after⟩ } :=
  ⟨hw.transactional.progress hlive,
    ⟨hw.guarded.counted, hw.guarded.owned, hw.guarded.issued, hw.guarded.idle⟩⟩

/-- A transaction ends and its owner leaves staging undisposed. -/
theorem finish (hw : Coherent w) {t : Nat} {tx : PreparationTransaction} {entry' : OwnerState M}
    (hlive : w.transactions[t]? = some tx) (hfound : w.store.checkOwner tx.owner = .ok entry)
    (hreads : entry'.activeReads = entry.activeReads) (hstaging : entry'.metadata.phase ≠ .staging)
    (hdisposed : entry'.metadata.phase ≠ .disposed) :
    Coherent { w with
      store := w.store.set tx.owner.id entry'
      transactions := w.transactions.erase t } := by
  refine ⟨hw.transactional.finish hlive hstaging, ?_⟩
  exact hw.guarded.set (StoreState.checkOwner_ok_iff.mp hfound).1 rfl rfl rfl hreads
    fun hphase => absurd hphase hdisposed

theorem acquire (hw : Coherent w) {owner : PreparationOwner} {scope : GuardScope}
    (hfound : w.store.checkOwner owner = .ok entry) (htx : w'.transactions = w.transactions)
    (hnextTx : w'.nextTransaction = w.nextTransaction)
    (hstore : w'.store = w.store.set owner.id { entry with activeReads := entry.activeReads + 1 })
    (hguards : w'.guards = w.guards.insert w.nextGuard ⟨owner, scope⟩)
    (hnext : w'.nextGuard = w.nextGuard + 1) : Coherent w' := by
  refine ⟨?_, hw.guarded.acquire hfound hstore hguards hnext⟩
  have hsame : SamePhase entry { entry with activeReads := entry.activeReads + 1 } := ⟨rfl, rfl⟩
  have hadjusted := hw.transactional.adjust (StoreState.checkOwner_ok_iff.mp hfound).1 hsame
  obtain ⟨h₁, h₂, h₃, h₄, h₅, h₆⟩ := hadjusted
  refine ⟨?_, ?_, ?_, ?_, ?_, ?_⟩ <;> simp only [htx, hnextTx, hstore]
  · exact h₁
  · exact h₂
  · exact h₃
  · exact h₄
  · exact h₅
  · exact h₆

/-- Every step keeps the world coherent. -/
theorem step (hw : Coherent w) (h : w.step op = some (w', reply)) : Coherent w' := by
  have heffect := World.step_effect h
  cases heffect with
  | quiet _ => exact hw
  | created hopen hroom =>
    refine ⟨hw.transactional.create hopen, ?_⟩
    refine hw.guarded.restore rfl rfl ?_ ?_
    · intro k entry hentry
      have hne : w.store.nextOwner ≠ k :=
        (Nat.ne_of_lt (hw.transactional.keys k entry hentry)).symm
      exact ⟨entry, (BTreeMap.getElem?_insert_of_ne hne _).trans hentry⟩
    · intro k new hnew
      change (w.store.owners.insert w.store.nextOwner _)[k]? = some new at hnew
      by_cases hk : w.store.nextOwner = k
      · subst hk
        rw [ExtTreeMap.getElem?_insert_self] at hnew
        cases hnew
        refine ⟨?_, fun hphase => by cases hphase⟩
        -- Every guard is on an owner with a smaller number.
        show 0 = w.guardCount w.store.nextOwner
        symm
        rw [World.guardCount, List.countP_eq_zero]
        intro guard hguard hid
        obtain ⟨g, hg⟩ := BTreeMap.mem_vals.mp hguard
        obtain ⟨entry, hentry⟩ := hw.guarded.owned g guard hg
        have hlt := hw.transactional.keys _ entry hentry
        have heq : guard.owner.id = w.store.nextOwner := by simpa using hid
        omega
      · rw [BTreeMap.getElem?_insert_of_ne hk] at hnew
        exact ⟨hw.guarded.counted k new hnew, hw.guarded.idle k new hnew⟩
  | began hown hfound hphase =>
    refine ⟨hw.transactional.begin hfound hphase, ?_⟩
    refine hw.guarded.set (StoreState.checkOwner_ok_iff.mp hfound).1 rfl rfl rfl ?_ ?_
    · simp [OwnerState.begin, hphase]
    · simp [OwnerState.begin, hphase]
  | staged hlive hfound hchange =>
    exact hw.adjust (StoreState.checkOwner_ok_iff.mp hfound).1 (.of_staging hchange)
  | forwarded hfound hidentity hphase hclean hchange =>
    exact hw.adjust (StoreState.checkOwner_ok_iff.mp hfound).1 (.of_forwarding hchange)
  | finishFailed hlive hfound =>
    have hadjusted := hw.adjust (StoreState.checkOwner_ok_iff.mp hfound).1
      (SameStanding.of_finishCheck _)
    exact hadjusted.progress hlive
  | validating hlive hfound hcheck => exact hw.progress hlive
  | finishDenied hlive hop _ => exact hw.progress hlive
  | publishFailed hlive hfound hfailed =>
    have hadjusted := hw.adjust (StoreState.checkOwner_ok_iff.mp hfound).1
      (.of_finishPublish_error hfailed)
    exact hadjusted.progress hlive
  | published hlive hfound hpublish =>
    obtain ⟨_, _, rfl⟩ := OwnerState.finishPublish_eq_ok hpublish
    exact hw.finish hlive hfound rfl (fun h => by cases h) (fun h => by cases h)
  | ended hlive hends =>
    obtain ⟨entry, hfound, _⟩ := hw.transactional.staging _ _ hlive
    rw [dropTransaction_eq hfound]
    exact hw.finish hlive hfound rfl (fun h => by cases h) (fun h => by cases h)
  | guarded hfound hroom => exact hw.acquire hfound rfl rfl rfl rfl rfl
  | reading hfound hroom => exact hw.acquire hfound rfl rfl rfl rfl rfl
  | read hlive hfound hread =>
    exact hw.adjust (StoreState.checkOwner_ok_iff.mp hfound).1 (.of_read hread)
  | released hlive =>
    refine ⟨?_, hw.guarded.release hlive⟩
    obtain ⟨entry, hentry⟩ := hw.guarded.owned _ _ hlive
    rw [dropGuard_eq hentry (hw.guarded.count_pos hlive hentry)]
    have hsame : SamePhase entry { entry with activeReads := entry.activeReads - 1 } := ⟨rfl, rfl⟩
    have hadjusted := hw.transactional.adjust hentry hsame
    exact ⟨hadjusted.staging, hadjusted.unique, hadjusted.covered, hadjusted.issued,
      hadjusted.keys, hadjusted.disposed⟩
  | invoked hfound hroom => exact hw.adjust hfound ⟨⟨rfl, rfl⟩, rfl, rfl, rfl⟩
  | ownerDisposed hfound hidle =>
    refine ⟨hw.transactional.disposeOwner hfound hidle, ?_⟩
    refine hw.guarded.set (StoreState.checkOwner_ok_iff.mp hfound).1 rfl rfl rfl rfl fun _ => ?_
    simp only [OwnerState.busy, Bool.or_eq_false_iff, bne_eq_false_iff_eq] at hidle
    exact Or.inr hidle.2
  | storeDisposed hidle =>
    refine ⟨hw.transactional.dispose hidle, ?_⟩
    refine hw.guarded.restore rfl rfl ?_ ?_
    · intro k entry hentry
      refine ⟨entry.clear .disposed, ?_⟩
      simp [World.withStore, ExtTreeMap.getElem?_map, hentry]
    · intro k new hnew
      simp only [World.withStore, ExtTreeMap.getElem?_map, Option.map_eq_some_iff] at hnew
      obtain ⟨entry, hentry, rfl⟩ := hnew
      have hbusy := hidle k entry hentry
      simp only [OwnerState.busy, Bool.or_eq_false_iff, bne_eq_false_iff_eq] at hbusy
      exact ⟨hw.guarded.counted k entry hentry, fun _ => hbusy.2⟩

end Coherent

/-- **Coherence.** Every world a run reaches is coherent. -/
theorem run_coherent {trace : List (Event (World M) (Op M) (Reply M))}
    (run : (machine M).Run trace w) : Coherent w := by
  induction run with
  | start => exact ⟨Transactional.initial, Guarded.initial⟩
  | step _ hstep ih => exact ih.step hstep

end PinchNPrint.Preparation
