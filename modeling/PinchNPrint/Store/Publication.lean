/-
Publication is all-or-nothing and faithful.

What a transaction put and which transaction published an owner are read off
the history (`accepted`, `published`). `Standing` relates an owner's entry to
that history in each phase: a staging owner holds what its live transaction put
so far, a ready one what the single transaction put that published it. Pieces
are found by number when they are read, so reads also need that numbers are
unique (`Numbered`).
-/

import PinchNPrint.Store.Accounting

namespace PinchNPrint.Preparation

open Std

variable {M : SceneModel}

/-! ### Pieces along a step -/

section EntryStep

variable {w : World M} {op : Op M} {reply : Reply M} {k : Nat} {entry entry' : OwnerState M}

/-- The reply moves owner `k` through its life or adds one of its pieces. -/
def Moves (w : World M) (k : Nat) : Op M → Reply M → Prop
  | .begin _ owner, .transaction _ => owner.id = k
  | .put t _ _, .done => ∃ tx, w.transactions[t]? = some tx ∧ tx.owner.id = k
  | .validated _ _, .plan plan => plan.owner.id = k
  | _, _ => False

theorem Moves.addressed (h : Moves w k op reply) : Addressed w k op reply := by
  unfold Moves at h
  split at h
  · exact h
  · exact h
  · exact h
  · exact h.elim

/-- What a step does to an owner's phase and pieces. -/
inductive Motion (w : World M) (op : Op M) (reply : Reply M) (k : Nat)
    (entry entry' : OwnerState M) : Prop
  | kept (hphase : entry'.metadata.phase = entry.metadata.phase)
      (hpieces : entry'.pieces = entry.pieces) (hquiet : ¬ Moves w k op reply)
  | began (hbefore : entry.metadata.phase = .unready) (hafter : entry'.metadata.phase = .staging)
      (hpieces : entry'.pieces = entry.pieces) (hop : ∃ thread owner, op = .begin thread owner)
  | put {t : Nat} {owner : PreparationOwner} {name : String} {bytes : List UInt8}
      (hbefore : entry.metadata.phase = .staging) (hafter : entry'.metadata.phase = .staging)
      (hop : op = .put t name bytes) (hreply : reply = .done)
      (hlive : w.transactions[t]? = some ⟨owner, .writing⟩) (hid : owner.id = k)
      (hnew : entry.pieces[name]? = none)
      (hpieces : entry'.pieces =
        entry.pieces.insert name ⟨entry.pieces.size, bytes, bytes.length⟩)
  | published {t : Nat} {owner : PreparationOwner} {staged : List (String × Nat)}
      (hbefore : entry.metadata.phase = .staging) (hafter : entry'.metadata.phase = .ready)
      (hop : op = .validated t (.ok ())) (hreply : reply = .plan ⟨owner⟩)
      (hlive : w.transactions[t]? = some ⟨owner, .validating staged⟩) (hid : owner.id = k)
      (hpieces : entry'.pieces = entry.pieces)
  | cleared (hbefore : entry.metadata.phase = .staging)
      (hafter : entry'.metadata.phase = .unready) (hpieces : entry'.pieces = ∅)
      (hquiet : ¬ Moves w k op reply)
  | disposed (hafter : entry'.metadata.phase = .disposed) (hpieces : entry'.pieces = ∅)

theorem EntryStep.motion (h : EntryStep w op reply k entry entry') :
    Motion w op reply k entry entry' := by
  cases h with
  | same hother => exact .kept rfl rfl fun hmoves => hother hmoves.addressed
  | began hop _ _ hphase =>
    refine .began hphase ?_ ?_ ⟨_, _, hop⟩
    · simp [OwnerState.begin, hphase]
    · simp [OwnerState.begin, hphase]
  | staged hlive hid hphase hchange =>
    have hstanding := SameStanding.of_staging hchange
    cases hchange with
    | requested hviews hreply =>
      refine .kept hstanding.phase ?_ fun hmoves => hmoves
      unfold OwnerState.requestProjections
      split
      · rfl
      · simp only
        split <;> rfl
    | faulted => exact .kept rfl rfl fun hmoves => hmoves
    | accepted hclean hstaged =>
      obtain ⟨_, hnew, _, _, _, _, rfl⟩ := OwnerState.stagePiece_eq_ok hstaged
      exact .put hphase hphase rfl rfl hlive hid hnew rfl
    | refused hclean hrefused => exact .kept rfl rfl fun hmoves => hmoves
  | forwarded _ _ _ _ hchange =>
    cases hchange with
    | unrequested _ => exact .kept rfl rfl fun hmoves => hmoves
    | refused _ => exact .kept rfl rfl fun hmoves => hmoves
    | accepted hpublish =>
      obtain ⟨_, _, _, _, _, _, _, rfl⟩ := OwnerState.stageScene_eq_ok hpublish
      exact .kept rfl rfl fun hmoves => hmoves
  | checked hop _ _ _ =>
    subst hop
    refine .kept (SameStanding.of_finishCheck entry).phase ?_ fun hmoves => hmoves
    unfold OwnerState.finishCheck
    split
    · rfl
    · split <;> rfl
  | unpublished hop hreply _ _ _ hfailed =>
    subst hop hreply
    refine .kept (SameStanding.of_finishPublish_error hfailed).phase ?_ fun hmoves => hmoves
    rcases OwnerState.finishPublish_of_error hfailed with hsame | ⟨fault, hfault⟩
    · rw [hsame]
    · rw [hfault]
  | published hop hreply hlive hid hphase hpublish =>
    obtain ⟨_, _, rfl⟩ := OwnerState.finishPublish_eq_ok hpublish
    exact .published hphase rfl hop hreply hlive hid rfl
  | cleared _ _ hphase hends =>
    refine .cleared hphase rfl rfl fun hmoves => ?_
    cases hends with
    | dropped => exact hmoves
    | failed => exact hmoves
  | counted _ _ hother => exact .kept rfl rfl fun hmoves => hother hmoves.addressed
  | read hop hreply _ _ _ hread =>
    subst hop hreply
    obtain ⟨_, _, _, _, _, _, _, _, rfl⟩ := OwnerState.read_eq_ok hread
    exact .kept rfl rfl fun hmoves => hmoves
  | invoked hop _ =>
    obtain ⟨owner, rfl⟩ := hop
    exact .kept rfl rfl fun hmoves => hmoves
  | disposed _ _ => exact .disposed rfl rfl

/-! ### Piece numbers -/

/-- Pieces are numbered without repetition and know their lengths. -/
structure Numbered (entry : OwnerState M) : Prop where
  length : ∀ (name : String) (piece : Piece), entry.pieces[name]? = some piece →
    piece.len = piece.bytes.length
  bound : ∀ (name : String) (piece : Piece), entry.pieces[name]? = some piece →
    piece.id < entry.pieces.size
  distinct : ∀ (name name' : String) (piece piece' : Piece), entry.pieces[name]? = some piece →
    entry.pieces[name']? = some piece' → piece.id = piece'.id → name = name'

theorem Numbered.of_empty (h : entry.pieces = ∅) : Numbered entry := by
  refine ⟨?_, ?_, ?_⟩ <;> intros <;> simp_all

/-- The next piece gets a number no piece has. -/
theorem Numbered.insert (hold : Numbered entry) {name : String} {bytes : List UInt8}
    (hnew : entry.pieces[name]? = none)
    (hpieces : entry'.pieces =
      entry.pieces.insert name ⟨entry.pieces.size, bytes, bytes.length⟩) : Numbered entry' := by
  have hcases : ∀ {other : String} {piece : Piece}, entry'.pieces[other]? = some piece →
      (other = name ∧ piece = ⟨entry.pieces.size, bytes, bytes.length⟩) ∨
        entry.pieces[other]? = some piece := by
    intro other piece hpiece
    rw [hpieces] at hpiece
    exact BTreeMap.getElem?_insert_cases hpiece
  have hsize : entry'.pieces.size = entry.pieces.size + 1 := by
    have hmem : name ∉ entry.pieces := by
      rw [BTreeMap.mem_iff_getElem?_isSome, hnew]
      rintro ⟨_, h⟩
      cases h
    rw [hpieces, ExtTreeMap.size_insert]
    simp [hmem]
  refine ⟨?_, ?_, ?_⟩
  · intro other piece hpiece
    rcases hcases hpiece with ⟨_, rfl⟩ | hpiece
    · rfl
    · exact hold.length other piece hpiece
  · intro other piece hpiece
    rw [hsize]
    rcases hcases hpiece with ⟨_, rfl⟩ | hpiece
    · exact Nat.lt_succ_self _
    · exact Nat.lt_succ_of_lt (hold.bound other piece hpiece)
  · intro other other' piece piece' hpiece hpiece' hid
    rcases hcases hpiece with ⟨rfl, rfl⟩ | hpiece
    · rcases hcases hpiece' with ⟨rfl, rfl⟩ | hpiece'
      · rfl
      · exact absurd hid.symm (Nat.ne_of_lt (hold.bound other' piece' hpiece'))
    · rcases hcases hpiece' with ⟨rfl, rfl⟩ | hpiece'
      · exact absurd hid (Nat.ne_of_lt (hold.bound other piece hpiece))
      · exact hold.distinct other other' piece piece' hpiece hpiece' hid

theorem Numbered.congr (hold : Numbered entry) (hpieces : entry'.pieces = entry.pieces) :
    Numbered entry' := by
  obtain ⟨hlength, hbound, hdistinct⟩ := hold
  rw [← hpieces] at hlength hbound hdistinct
  exact ⟨hlength, hbound, hdistinct⟩

theorem EntryStep.numbered (h : EntryStep w op reply k entry entry') (hold : Numbered entry) :
    Numbered entry' := by
  cases h.motion with
  | kept _ hpieces _ => exact hold.congr hpieces
  | began _ _ hpieces _ => exact hold.congr hpieces
  | put _ _ _ _ _ _ hnew hpieces => exact hold.insert hnew hpieces
  | published _ _ _ _ _ _ hpieces => exact hold.congr hpieces
  | cleared _ _ hpieces _ => exact .of_empty hpieces
  | disposed _ hpieces => exact .of_empty hpieces

end EntryStep

theorem run_numbered {trace : List (Event (World M) (Op M) (Reply M))} {w : World M}
    (run : (machine M).Run trace w) {k : Nat} {entry : OwnerState M}
    (hentry : w.store.owners[k]? = some entry) : Numbered entry := by
  refine entry_invariant (P := Numbered) (fun _ => .of_empty rfl) ?_ run hentry
  intro w op reply k entry entry' _ hmove hold
  exact hmove.numbered hold

/-- A piece number denotes the piece it was given to. -/
theorem Numbered.pieceWithId {entry : OwnerState M} (h : Numbered entry) {name : String}
    {piece found : Piece} (hpiece : entry.pieces[name]? = some piece)
    (hfound : entry.pieceWithId piece.id = some found) : found = piece := by
  obtain ⟨other, hother⟩ := BTreeMap.mem_vals.mp (List.mem_of_find?_eq_some hfound)
  have hid : found.id = piece.id := by simpa using List.find?_some hfound
  obtain rfl := h.distinct other name found piece hother hpiece hid
  exact Option.some.inj (hother.symm.trans hpiece)

/-! ### What the history says -/

/-- The piece an event put for transaction `t`. -/
def putFor (t : Nat) (e : Event (World M) (Op M) (Reply M)) : Option (String × List UInt8) :=
  match e.op, e.reply with
  | .put u name bytes, .done => if u = t then some (name, bytes) else none
  | _, _ => none

/-- The pieces transaction `t` has put. -/
def accepted (trace : List (Event (World M) (Op M) (Reply M))) (t : Nat) :
    List (String × List UInt8) :=
  trace.filterMap (putFor t)

/-- The transaction whose `finish` returned a plan of owner `k`. -/
def publishedBy (k : Nat) (e : Event (World M) (Op M) (Reply M)) : Option Nat :=
  match e.op, e.reply with
  | .validated t _, .plan plan => if plan.owner.id = k then some t else none
  | _, _ => none

/-- The transactions that published owner `k`. -/
def published (trace : List (Event (World M) (Op M) (Reply M))) (k : Nat) : List Nat :=
  trace.filterMap (publishedBy k)

/-- The entry holds exactly these payloads. -/
def Holds (entry : OwnerState M) (puts : List (String × List UInt8)) : Prop :=
  ∀ name payload, (name, payload) ∈ puts ↔ (entry.pieces[name]?).map Piece.bytes = some payload

/-- How an owner stands to the history in each phase. -/
inductive Standing (trace : List (Event (World M) (Op M) (Reply M))) (w : World M) (k : Nat)
    (entry : OwnerState M) : Prop
  | unready (hphase : entry.metadata.phase = .unready) (hpieces : entry.pieces = ∅)
      (hnone : published trace k = [])
  | staging {t : Nat} {tx : PreparationTransaction} (hphase : entry.metadata.phase = .staging)
      (hlive : w.transactions[t]? = some tx) (hid : tx.owner.id = k)
      (hholds : Holds entry (accepted trace t)) (hnone : published trace k = [])
  | ready {t : Nat} (hphase : entry.metadata.phase = .ready) (hended : w.transactions[t]? = none)
      (hissued : t < w.nextTransaction) (hone : published trace k = [t])
      (hholds : Holds entry (accepted trace t))
  | disposed (hphase : entry.metadata.phase = .disposed)

section History

variable {trace : List (Event (World M) (Op M) (Reply M))} {w w' : World M} {op : Op M}
  {reply : Reply M} {k t : Nat} {entry entry' : OwnerState M}

theorem accepted_snoc (e : Event (World M) (Op M) (Reply M)) :
    accepted (trace ++ [e]) t = accepted trace t ++ (putFor t e).toList := by
  rw [accepted, List.filterMap_append, ← accepted]
  cases hput : putFor t e with
  | none => simp [hput]
  | some put => simp [hput]

theorem published_snoc (e : Event (World M) (Op M) (Reply M)) :
    published (trace ++ [e]) k = published trace k ++ (publishedBy k e).toList := by
  rw [published, List.filterMap_append, ← published]
  cases hpublished : publishedBy k e with
  | none => simp [hpublished]
  | some t => simp [hpublished]

theorem publishedBy_of_not_moves (h : ¬ Moves w k op reply) :
    publishedBy k ⟨w, op, reply, w'⟩ = none := by
  unfold publishedBy
  split
  · rename_i t verdict plan hop hreply
    simp only at hop hreply
    subst hop hreply
    exact if_neg h
  · rfl

theorem putFor_of_not_moves (h : ¬ Moves w k op reply) {tx : PreparationTransaction}
    (hlive : w.transactions[t]? = some tx) (hid : tx.owner.id = k) :
    putFor t ⟨w, op, reply, w'⟩ = none := by
  unfold putFor
  split
  · rename_i u name bytes hop hreply
    simp only at hop hreply
    subst hop hreply
    refine if_neg fun hu => ?_
    subst hu
    exact h ⟨tx, hlive, hid⟩
  · rfl

theorem putFor_of_not_live (h : w.step op = some (w', reply)) (hdead : w.transactions[t]? = none) :
    putFor t ⟨w, op, reply, w'⟩ = none := by
  unfold putFor
  split
  · rename_i u name bytes hop hreply
    simp only at hop hreply
    subst hop
    refine if_neg fun hu => ?_
    subst hu
    obtain ⟨owner, hlive, _⟩ := World.writing_eq_some h
    rw [hdead] at hlive
    cases hlive
  · rfl

theorem Holds.congr {puts : List (String × List UInt8)} (h : Holds entry puts)
    (hpieces : entry'.pieces = entry.pieces) : Holds entry' puts := by
  intro name payload
  rw [hpieces]
  exact h name payload

/-- A new piece adds its payload. -/
theorem Holds.insert {puts : List (String × List UInt8)} (h : Holds entry puts) {name : String}
    {bytes : List UInt8} (hnew : entry.pieces[name]? = none)
    (hpieces : entry'.pieces =
      entry.pieces.insert name ⟨entry.pieces.size, bytes, bytes.length⟩) :
    Holds entry' (puts ++ [(name, bytes)]) := by
  intro other payload
  rw [List.mem_append, List.mem_singleton, h other payload, hpieces]
  by_cases hname : name = other
  · subst hname
    rw [ExtTreeMap.getElem?_insert_self, hnew]
    simp [eq_comm]
  · have hne : ¬ (other, payload) = (name, bytes) := fun heq => hname (Prod.mk.inj heq).1.symm
    rw [BTreeMap.getElem?_insert_of_ne hname]
    simp [hne]

/-! ### The standing of an owner along a run -/

theorem Standing.kept (hw : Coherent w) (h : w.step op = some (w', reply))
    (hentry' : w'.store.owners[k]? = some entry')
    (hphase : entry'.metadata.phase = entry.metadata.phase)
    (hpieces : entry'.pieces = entry.pieces) (hquiet : ¬ Moves w k op reply)
    (hold : Standing trace w k entry) :
    Standing (trace ++ [⟨w, op, reply, w'⟩]) w' k entry' := by
  have hpublished : published (trace ++ [⟨w, op, reply, w'⟩]) k = published trace k := by
    rw [published_snoc, publishedBy_of_not_moves hquiet, Option.toList_none, List.append_nil]
  cases hold with
  | unready hbefore hempty hnone =>
    exact .unready (hphase.trans hbefore) (hpieces.trans hempty) (hpublished.trans hnone)
  | @staging t tx hbefore hlive hid hholds hnone =>
    obtain ⟨u, tx', hlive', hid', horigin⟩ :=
      staging_transaction hw h hentry' (hphase.trans hbefore)
    rcases horigin with ⟨old, hu, holdId⟩ | ⟨_, _, _, rfl, rfl, hbegun⟩
    · obtain rfl : u = t := hw.transactional.unique _ _ _ _ hu hlive (holdId.trans hid.symm)
      refine .staging (hphase.trans hbefore) hlive' hid' ?_ (hpublished.trans hnone)
      rw [accepted_snoc, putFor_of_not_moves hquiet hlive hid, Option.toList_none, List.append_nil]
      exact hholds.congr hpieces
    · exact absurd hbegun hquiet
  | @ready t hbefore hended hissued hone hholds =>
    refine .ready (hphase.trans hbefore) (ended_step hw h hended hissued)
      (Nat.lt_of_lt_of_le hissued (numbers_le hw h).1) (hpublished.trans hone) ?_
    rw [accepted_snoc, putFor_of_not_live h hended, Option.toList_none, List.append_nil]
    exact hholds.congr hpieces
  | disposed hbefore => exact .disposed (hphase.trans hbefore)

theorem Standing.step (hw : Coherent w) (h : w.step op = some (w', reply))
    (hfresh : accepted trace w.nextTransaction = []) (hentry : w.store.owners[k]? = some entry)
    (hentry' : w'.store.owners[k]? = some entry') (hmove : EntryStep w op reply k entry entry')
    (hold : Standing trace w k entry) :
    Standing (trace ++ [⟨w, op, reply, w'⟩]) w' k entry' := by
  cases hmove.motion with
  | kept hphase hpieces hquiet => exact hold.kept hw h hentry' hphase hpieces hquiet
  | began hbefore hafter hpieces hop =>
    obtain ⟨thread, owner, rfl⟩ := hop
    cases hold with
    | unready _ hempty hnone =>
      obtain ⟨u, tx, hlive, hid, horigin⟩ := staging_transaction hw h hentry' hafter
      rcases horigin with ⟨old, hu, holdId⟩ | ⟨rfl, _⟩
      · -- An unready owner has no live transaction.
        obtain ⟨found, hfound, hstaging⟩ := hw.transactional.staging _ _ hu
        have hlookup := (StoreState.checkOwner_ok_iff.mp hfound).1
        rw [holdId, hentry] at hlookup
        cases hlookup
        rw [hbefore] at hstaging
        cases hstaging
      · refine .staging hafter hlive hid ?_ ?_
        · rw [accepted_snoc, hfresh]
          intro name payload
          rw [hpieces, hempty]
          simp [putFor]
        · rw [published_snoc, hnone]
          rfl
    | staging hphase => rw [hbefore] at hphase; cases hphase
    | ready hphase => rw [hbefore] at hphase; cases hphase
    | disposed hphase => rw [hbefore] at hphase; cases hphase
  | @put t owner name bytes hbefore hafter hop hreply hlive hid hnew hpieces =>
    subst hop hreply
    cases hold with
    | @staging u tx _ hu huid hholds hnone =>
      obtain rfl : t = u := hw.transactional.unique _ _ _ _ hlive hu (hid.trans huid.symm)
      obtain ⟨v, tx', hv, hvid, horigin⟩ := staging_transaction hw h hentry' hafter
      rcases horigin with ⟨old, hold, holdId⟩ | ⟨_, _, _, hop, _⟩
      · obtain rfl : v = t := hw.transactional.unique _ _ _ _ hold hlive (holdId.trans hid.symm)
        refine .staging hafter hv hvid ?_ ?_
        · rw [accepted_snoc]
          simpa [putFor] using hholds.insert hnew hpieces
        · rw [published_snoc, hnone]
          rfl
      · cases hop
    | unready hphase => rw [hbefore] at hphase; cases hphase
    | ready hphase => rw [hbefore] at hphase; cases hphase
    | disposed hphase => rw [hbefore] at hphase; cases hphase
  | @published t owner staged hbefore hafter hop hreply hlive hid hpieces =>
    have hended : w'.transactions[t]? = none := by
      by_contra hsome
      obtain ⟨tx, hlive'⟩ := Option.ne_none_iff_exists'.mp hsome
      obtain ⟨found, hfound, hstaging⟩ := (hw.step h).transactional.staging t tx hlive'
      rcases transaction_origin hw h hlive' with ⟨old, hlive'', howner⟩ | ⟨_, hbegun, _⟩
      · obtain rfl : _ = old := Option.some.inj (hlive.symm.trans hlive'')
        have hlookup := (StoreState.checkOwner_ok_iff.mp hfound).1
        rw [← howner, hid, hentry'] at hlookup
        cases hlookup
        rw [hafter] at hstaging
        cases hstaging
      · rw [hreply] at hbegun
        cases hbegun
    subst hop hreply
    cases hold with
    | @staging u tx _ hu huid hholds hnone =>
      obtain rfl : t = u := hw.transactional.unique _ _ _ _ hlive hu (hid.trans huid.symm)
      refine .ready hafter hended ?_ ?_ ?_
      · exact Nat.lt_of_lt_of_le (hw.transactional.issued _ _ hlive) (numbers_le hw h).1
      · rw [published_snoc, hnone]
        simp [publishedBy, hid]
      · rw [accepted_snoc]
        simpa [putFor] using hholds.congr hpieces
    | unready hphase => rw [hbefore] at hphase; cases hphase
    | ready hphase => rw [hbefore] at hphase; cases hphase
    | disposed hphase => rw [hbefore] at hphase; cases hphase
  | cleared hbefore hafter hpieces hquiet =>
    cases hold with
    | staging _ _ _ _ hnone =>
      refine .unready hafter hpieces ?_
      rw [published_snoc, publishedBy_of_not_moves hquiet, hnone]
      rfl
    | unready hphase => rw [hbefore] at hphase; cases hphase
    | ready hphase => rw [hbefore] at hphase; cases hphase
    | disposed hphase => rw [hbefore] at hphase; cases hphase
  | disposed hafter _ => exact .disposed hafter

end History

/-! ### Runs -/

section Runs

variable {trace : List (Event (World M) (Op M) (Reply M))} {w w' : World M} {op : Op M}
  {reply : Reply M} {k t : Nat} {entry : OwnerState M}

/-- Every owner stands to the history as its phase says. -/
structure Faithful (trace : List (Event (World M) (Op M) (Reply M))) (w : World M) : Prop where
  standing : ∀ (k : Nat) (entry : OwnerState M), w.store.owners[k]? = some entry →
    Standing trace w k entry
  fresh : ∀ t, w.nextTransaction ≤ t → accepted trace t = []
  absent : ∀ k : Nat, w.store.owners[k]? = none → published trace k = []

theorem publishedBy_of_absent (h : w.step op = some (w', reply))
    (hnone : w.store.owners[k]? = none) : publishedBy k ⟨w, op, reply, w'⟩ = none := by
  unfold publishedBy
  split
  · rename_i t verdict plan hop hreply
    simp only at hop hreply
    subst hop hreply
    refine if_neg fun hid => ?_
    have heffect := World.step_effect h
    cases heffect with
    | quiet hreply => cases hreply
    | staged _ _ hchange => cases hchange
    | forwarded _ _ _ _ hchange => cases hchange
    | ended _ hends => cases hends
    | published _ hfound _ =>
      have hlookup := (StoreState.checkOwner_ok_iff.mp hfound).1
      rw [← hid] at hnone
      exact absurd (hnone.symm.trans hlookup) (by simp)
  · rfl

theorem run_faithful (run : (machine M).Run trace w) : Faithful trace w := by
  induction run with
  | start =>
    refine ⟨fun k entry hentry => ?_, fun _ _ => rfl, fun _ _ => rfl⟩
    simp [machine, World.initial] at hentry
  | @step trace w w' op reply run h ih =>
    have hw := run_coherent run
    refine ⟨?_, ?_, ?_⟩
    · intro k entry' hentry'
      rcases entry_origin hw h hentry' with ⟨entry, hentry, hmove⟩ | ⟨binding, hnone, _, rfl, rfl⟩
      · exact (ih.standing k entry hentry).step hw h (ih.fresh _ (Nat.le_refl _)) hentry hentry'
          hmove
      · refine .unready rfl rfl ?_
        rw [published_snoc, ih.absent k hnone]
        rfl
    · intro t ht
      have hold := Nat.le_trans (numbers_le hw h).1 ht
      have hdead : w.transactions[t]? = none := by
        by_contra hsome
        obtain ⟨tx, hlive⟩ := Option.ne_none_iff_exists'.mp hsome
        exact Nat.not_lt.mpr hold (hw.transactional.issued t tx hlive)
      rw [accepted_snoc, ih.fresh t hold, putFor_of_not_live h hdead]
      rfl
    · intro k hnone
      have hold : w.store.owners[k]? = none := by
        by_contra hsome
        obtain ⟨entry, hentry⟩ := Option.ne_none_iff_exists'.mp hsome
        obtain ⟨entry', hentry', _⟩ := step_entry hw h hentry
        rw [hnone] at hentry'
        cases hentry'
      rw [published_snoc, ih.absent k hold, publishedBy_of_absent h hold]
      rfl

theorem run_ready (run : (machine M).Run trace w) (hentry : w.store.owners[k]? = some entry)
    (hphase : entry.metadata.phase = .ready) :
    ∃ t, published trace k = [t] ∧ Holds entry (accepted trace t) := by
  cases (run_faithful run).standing k entry hentry with
  | ready _ _ _ hone hholds => exact ⟨_, hone, hholds⟩
  | unready hother => rw [hphase] at hother; cases hother
  | staging hother => rw [hphase] at hother; cases hother
  | disposed hother => rw [hphase] at hother; cases hother

/-! ### Reading -/

/-- The operation read something published by owner `k`. -/
inductive ReadsOwner (w : World M) (k : Nat) : Op M → Reply M → Prop
  | current {owner : PreparationOwner} {plan : PreparedPlanHandle} (hid : owner.id = k) :
      ReadsOwner w k (.current owner) (.plan plan)
  | projection {plan : PreparedPlanHandle} {view : String} {scene : Option (Committed M)}
      (hid : plan.owner.id = k) : ReadsOwner w k (.projection plan view) (.scene scene)
  | open {plan : PreparedPlanHandle} {name : String} {piece : Option PreparedPieceHandle}
      (hid : plan.owner.id = k) : ReadsOwner w k (.open plan name) (.piece piece)
  | read {guard : Nat} {held : ReadGuard} {bytes : List UInt8}
      (hlive : w.guards[guard]? = some held) (hid : held.owner.id = k) :
      ReadsOwner w k (.read guard) (.bytes bytes)

variable {plan : PreparedPlanHandle} {name : String} {guard : Nat} {handle : PreparedPieceHandle}

theorem current_ready {owner : PreparationOwner} (h : w.current owner = .plan plan) :
    ∃ entry, w.store.owners[owner.id]? = some entry ∧ entry.metadata.ready = true := by
  unfold World.current at h
  split at h
  · cases h
  · split at h
    · cases h
    · rename_i entry hfound
      split at h
      · rename_i hready
        exact ⟨entry, (StoreState.checkOwner_ok_iff.mp hfound).1, hready⟩
      · cases h

theorem projection_ready {view : String} {scene : Option (Committed M)}
    (h : w.projection plan view = .scene scene) :
    ∃ entry, w.store.owners[plan.owner.id]? = some entry ∧ entry.metadata.ready = true := by
  unfold World.projection at h
  split at h
  · cases h
  · rename_i entry hfound
    split at h
    · rename_i hready
      exact ⟨entry, (StoreState.checkOwner_ok_iff.mp hfound).1, hready⟩
    · cases h

theorem openPiece_ready {piece : Option PreparedPieceHandle}
    (h : w.openPiece plan name = .piece piece) :
    ∃ entry, w.store.owners[plan.owner.id]? = some entry ∧ entry.metadata.ready = true ∧
      piece = (entry.pieces[name]?).map fun piece => ⟨plan.owner, piece.id, piece.len⟩ := by
  unfold World.openPiece at h
  split at h
  · cases h
  · rename_i entry hfound
    split at h
    · cases h
    · rename_i hready
      split at h
      · cases h
      · cases h
        exact ⟨entry, (StoreState.checkOwner_ok_iff.mp hfound).1, by simpa using hready, rfl⟩

theorem read_of_bytes {held : ReadGuard} {bytes : List UInt8} (hlive : w.guards[guard]? = some held)
    (h : w.step (.read guard) = some (w', .bytes bytes)) :
    ∃ entry entry' id offset maxBytes, held.scope = .pieceRead id offset maxBytes ∧
      w.store.owners[held.owner.id]? = some entry ∧
      entry.read id offset maxBytes = .ok (entry', bytes) := by
  have heffect := World.step_effect h
  cases heffect with
  | quiet hreply => cases hreply
  | staged _ _ hchange => cases hchange
  | forwarded _ _ _ _ hchange => cases hchange
  | ended _ hends => cases hends
  | read hguard hfound hread =>
    obtain rfl : held = _ := Option.some.inj (hlive.symm.trans hguard)
    exact ⟨_, _, _, _, _, rfl, (StoreState.checkOwner_ok_iff.mp hfound).1, hread⟩

theorem ReadsOwner.ready (hreads : ReadsOwner w k op reply) (h : w.step op = some (w', reply)) :
    ∃ entry, w.store.owners[k]? = some entry ∧ entry.metadata.ready = true := by
  cases hreads with
  | current hid =>
    subst hid
    exact current_ready (Prod.mk.inj (Option.some.inj h)).2
  | projection hid =>
    subst hid
    exact projection_ready (Prod.mk.inj (Option.some.inj h)).2
  | «open» hid =>
    subst hid
    obtain ⟨entry, hentry, hready, _⟩ := openPiece_ready (Prod.mk.inj (Option.some.inj h)).2
    exact ⟨entry, hentry, hready⟩
  | read hlive hid =>
    subst hid
    obtain ⟨entry, _, _, _, _, _, hentry, hread⟩ := read_of_bytes hlive h
    exact ⟨entry, hentry, (OwnerState.read_eq_ok hread).1⟩

/-- The run opened this handle under this name. -/
def Opened (trace : List (Event (World M) (Op M) (Reply M))) (name : String)
    (handle : PreparedPieceHandle) : Prop :=
  ∃ e ∈ trace, ∃ plan, e.op = .open plan name ∧ e.reply = .piece (some handle)

/-- The run began reading this range through this handle, under this guard. -/
def Reading (trace : List (Event (World M) (Op M) (Reply M))) (guard : Nat)
    (handle : PreparedPieceHandle) (offset maxBytes : Nat) : Prop :=
  ∃ e ∈ trace, e.op = .acquireRead handle offset maxBytes ∧ e.reply = .guard guard

/-- The handle denotes the piece with this name as long as its owner is ready. -/
def Denotes (w : World M) (handle : PreparedPieceHandle) (name : String) : Prop :=
  ∃ entry, w.store.owners[handle.owner.id]? = some entry ∧
    (entry.metadata.phase = .disposed ∨ entry.metadata.phase = .ready ∧
      ∃ piece, entry.pieces[name]? = some piece ∧ piece.id = handle.id)

theorem denotes_of_opened (run : (machine M).Run trace w) (h : Opened trace name handle) :
    Denotes w handle name := by
  obtain ⟨e, he, plan, hop, hreply⟩ := h
  obtain ⟨past, future, rfl⟩ := List.append_of_mem he
  obtain ⟨before, hstep⟩ := run.split
  apply run.stable (P := fun w => Denotes w handle name)
  · rw [hop, hreply] at hstep
    obtain ⟨hafter, hopen⟩ := Prod.mk.inj (Option.some.inj hstep)
    obtain ⟨entry, hentry, hready, hsome⟩ := openPiece_ready hopen
    obtain ⟨piece, hpiece, hhandle⟩ := Option.map_eq_some_iff.mp hsome.symm
    subst hhandle
    rw [← hafter]
    exact ⟨entry, hentry, Or.inr ⟨(run_readyFlag before hentry).mp hready, piece, hpiece, rfl⟩⟩
  · intro trace w op w' reply run hdenotes hstep
    obtain ⟨entry, hentry, hphase⟩ := hdenotes
    obtain ⟨entry', hentry', hmove⟩ := step_entry (run_coherent run) hstep hentry
    refine ⟨entry', hentry', ?_⟩
    rcases hphase with hdisposed | ⟨hready, hpiece⟩
    · exact Or.inl (hmove.phase_disposed hdisposed)
    · rcases hmove.settled (Or.inl hready) with ⟨hready', hpieces⟩ | hdisposed
      · rw [← hpieces] at hpiece
        exact Or.inr ⟨hready'.trans hready, hpiece⟩
      · exact Or.inl hdisposed

/-- A read guard keeps what it was acquired for. -/
theorem guard_of_reading (run : (machine M).Run trace w) {offset maxBytes : Nat}
    (h : Reading trace guard handle offset maxBytes) {held : ReadGuard}
    (hlive : w.guards[guard]? = some held) :
    held = ⟨handle.owner, .pieceRead handle.id offset maxBytes⟩ := by
  obtain ⟨e, he, hop, hreply⟩ := h
  obtain ⟨past, future, rfl⟩ := List.append_of_mem he
  obtain ⟨before, hstep⟩ := run.split
  have hstable : guard < w.nextGuard ∧ ∀ held, w.guards[guard]? = some held →
      held = ⟨handle.owner, .pieceRead handle.id offset maxBytes⟩ := by
    apply run.stable (P := fun w => guard < w.nextGuard ∧ ∀ held, w.guards[guard]? = some held →
      held = ⟨handle.owner, .pieceRead handle.id offset maxBytes⟩)
    · have heffect := World.step_effect hstep
      rw [hop, hreply] at heffect
      generalize e.after = after at heffect
      cases heffect with
      | quiet hreply => cases hreply
      | staged _ _ hchange => cases hchange
      | forwarded _ _ _ _ hchange => cases hchange
      | ended _ hends => cases hends
      | reading hfound hroom =>
        refine ⟨Nat.lt_succ_self _, fun held hheld => ?_⟩
        exact Option.some.inj (hheld.symm.trans ExtTreeMap.getElem?_insert_self)
    · intro trace w op w' reply run hold hstep
      have hw := run_coherent run
      refine ⟨Nat.lt_of_lt_of_le hold.1 (numbers_le hw hstep).2.1, fun held hheld => ?_⟩
      rcases guard_origin hw hstep hheld with hbefore | ⟨hnext, _⟩
      · exact hold.2 held hbefore
      · omega
  exact hstable.2 held hlive

/-- A read through an opened handle returns the bytes that were put. -/
theorem read_faithful (run : (machine M).Run trace w) {offset maxBytes : Nat} {bytes : List UInt8}
    (hopened : Opened trace name handle) (hreading : Reading trace guard handle offset maxBytes)
    (h : w.step (.read guard) = some (w', .bytes bytes)) :
    ∃ t payload, published trace handle.owner.id = [t] ∧
      (∀ p, (name, p) ∈ accepted trace t ↔ p = payload) ∧ offset ≤ payload.length ∧
      bytes = payload.extract offset (min (offset + maxBytes) payload.length) := by
  have hguard : ∃ held, w.guards[guard]? = some held := by
    cases hlive : w.guards[guard]? with
    | some held => exact ⟨held, rfl⟩
    | none => simp [World.step, hlive] at h
  obtain ⟨held, hlive⟩ := hguard
  obtain rfl := guard_of_reading run hreading hlive
  obtain ⟨entry, entry', _, _, _, hscope, hentry, hread⟩ := read_of_bytes hlive h
  cases hscope
  obtain ⟨hready, found, hfound, hoffset, hbytes, _⟩ := OwnerState.read_eq_ok hread
  have hphase := (run_readyFlag run hentry).mp hready
  obtain ⟨entry₀, hentry₀, hdenotes⟩ := denotes_of_opened run hopened
  obtain rfl : entry = entry₀ := Option.some.inj (hentry.symm.trans hentry₀)
  rcases hdenotes with hdisposed | ⟨_, piece, hpiece, hid⟩
  · rw [hphase] at hdisposed
    cases hdisposed
  · have hnumbered := run_numbered run hentry
    rw [← hid] at hfound
    obtain rfl := hnumbered.pieceWithId hpiece hfound
    have hlen := hnumbered.length name found hpiece
    obtain ⟨t, hone, hholds⟩ := run_ready run hentry hphase
    refine ⟨t, found.bytes, hone, fun p => ?_, by omega, ?_⟩
    · rw [hholds name p, hpiece]
      simp [eq_comm]
    · rw [hbytes]
      congr 1
      omega

/-! ### Rolling back -/

/-- Nothing of a transaction is left. -/
structure RolledBack (entry : OwnerState M) : Prop where
  phase : entry.metadata.phase = .unready
  ready : entry.metadata.ready = false
  pieces : entry.pieces = ∅
  described : entry.metadata.pieces = []
  scenes : entry.projection = none
  staged : entry.NothingStaged
  retained : entry.NothingRetained

theorem RolledBack.clear (entry : OwnerState M) : RolledBack (entry.clear .unready) :=
  ⟨rfl, rfl, rfl, rfl, rfl, ⟨rfl, rfl, rfl⟩, ⟨rfl, rfl, rfl⟩⟩

theorem published_or_rolledBack (hw : Coherent w) (h : w.step op = some (w', reply))
    {tx : PreparationTransaction} (hlive : w.transactions[t]? = some tx)
    (hended : w'.transactions[t]? = none) :
    (∃ verdict, op = .validated t verdict ∧ reply = .plan ⟨tx.owner⟩) ∨
      ∃ entry, w'.store.owners[tx.owner.id]? = some entry ∧ RolledBack entry := by
  have hkept : w'.transactions = w.transactions → False := by
    intro hsame
    rw [hsame, hlive] at hended
    cases hended
  -- Progress inside `finish` keeps the transaction.
  have hprogress : ∀ {u : Nat} {progress : PreparationTransaction},
      w'.transactions = w.transactions.insert u progress → False := by
    intro u progress hinsert
    rw [hinsert] at hended
    by_cases hu : u = t
    · subst hu
      rw [ExtTreeMap.getElem?_insert_self] at hended
      cases hended
    · rw [BTreeMap.getElem?_insert_of_ne hu, hlive] at hended
      cases hended
  have heffect := World.step_effect h
  cases heffect with
  | began _ _ _ => exact (hprogress rfl).elim
  | finishFailed _ _ => exact (hprogress rfl).elim
  | validating _ _ _ => exact (hprogress rfl).elim
  | finishDenied _ _ _ => exact (hprogress rfl).elim
  | publishFailed _ _ _ => exact (hprogress rfl).elim
  | @published u owner staged entry ready hu hfound hpublish =>
    by_cases hut : u = t
    · subst hut
      obtain rfl : tx = _ := Option.some.inj (hlive.symm.trans hu)
      exact Or.inl ⟨_, rfl, rfl⟩
    · change (w.transactions.erase u)[t]? = none at hended
      simp [ExtTreeMap.getElem?_erase, hut, hlive] at hended
  | @ended _ _ u tx' hu hends =>
    obtain ⟨found, hfound, _⟩ := hw.transactional.staging _ _ hu
    rw [dropTransaction_eq hfound] at hended ⊢
    by_cases hut : u = t
    · subst hut
      obtain rfl : tx = tx' := Option.some.inj (hlive.symm.trans hu)
      refine Or.inr ⟨found.clear .unready, ?_, .clear found⟩
      show (w.store.set tx.owner.id (found.clear .unready)).owners[tx.owner.id]? = _
      rw [lookup_set, if_pos rfl]
    · simp [ExtTreeMap.getElem?_erase, hut, hlive] at hended
  | released hg =>
    obtain ⟨found, hfound⟩ := hw.guarded.owned _ _ hg
    rw [dropGuard_eq hfound (hw.guarded.count_pos hg hfound)] at hended
    rw [hlive] at hended
    cases hended
  | _ => exact (hkept rfl).elim

/-- A `finish` that has decided to fail can only drop its transaction. -/
theorem failing_step (hw : Coherent w) (h : w.step op = some (w', reply))
    {owner : PreparationOwner} {error : PreparationFailure}
    (hlive : w.transactions[t]? = some ⟨owner, .failing error⟩) :
    w'.transactions[t]? = some ⟨owner, .failing error⟩ ∨
      (op = .dropTransaction t ∧ reply = .failure error ∧ w'.transactions[t]? = none) := by
  -- The other outcomes that touch transactions need one that has not failed.
  have hother : ∀ {u : Nat} {progress : Progress} {owner' : PreparationOwner}
      {new : PreparationTransaction}, w.transactions[u]? = some ⟨owner', progress⟩ →
      (∀ error, progress ≠ .failing error) →
      (w.transactions.insert u new)[t]? = some ⟨owner, .failing error⟩ := by
    intro u progress owner' new hu hactive
    by_cases hut : u = t
    · subst hut
      rw [hlive] at hu
      cases hu
      exact absurd rfl (hactive error)
    · rw [BTreeMap.getElem?_insert_of_ne hut]
      exact hlive
  have herased : ∀ {u : Nat}, u ≠ t →
      (w.transactions.erase u)[t]? = some ⟨owner, .failing error⟩ := by
    intro u hut
    simp [ExtTreeMap.getElem?_erase, hut, hlive]
  have heffect := World.step_effect h
  cases heffect with
  | began _ _ _ =>
    refine Or.inl ((BTreeMap.getElem?_insert_of_ne ?_ _).trans hlive)
    exact (Nat.ne_of_lt (hw.transactional.issued _ _ hlive)).symm
  | finishFailed hu _ => exact Or.inl (hother hu fun _ h => by cases h)
  | validating hu _ _ => exact Or.inl (hother hu fun _ h => by cases h)
  | finishDenied hu _ hactive => exact Or.inl (hother hu hactive)
  | publishFailed hu _ _ => exact Or.inl (hother hu fun _ h => by cases h)
  | published hu _ _ =>
    refine Or.inl (herased ?_)
    rintro rfl
    rw [hlive] at hu
    cases hu
  | @ended _ _ u tx hu hends =>
    by_cases hut : u = t
    · subst hut
      cases hends with
      | dropped =>
        simp only [World.step, hlive, Option.some.injEq, Prod.mk.injEq] at h
        refine Or.inr ⟨rfl, h.2.symm, ?_⟩
        obtain ⟨found, hfound, _⟩ := hw.transactional.staging _ _ hu
        rw [dropTransaction_eq hfound]
        exact ExtTreeMap.getElem?_erase_self
      | failed =>
        obtain ⟨_, hwriting, _⟩ := World.writing_eq_some h
        rw [hlive] at hwriting
        cases hwriting
    · obtain ⟨found, hfound, _⟩ := hw.transactional.staging _ _ hu
      rw [dropTransaction_eq hfound]
      exact Or.inl (herased hut)
  | released hg =>
    obtain ⟨found, hfound⟩ := hw.guarded.owned _ _ hg
    rw [dropGuard_eq hfound (hw.guarded.count_pos hg hfound)]
    exact Or.inl hlive
  | _ => exact Or.inl hlive

/-- What holds of publication in a world that a run has reached. -/
structure PublicationLaws (trace : List (Event (World M) (Op M) (Reply M))) (w : World M) :
    Prop where
  /-- An owner is readable only after one transaction's `finish` returned. -/
  readable : ∀ k op w' reply, ReadsOwner w k op reply → w.step op = some (w', reply) →
    ∃ t, published trace k = [t]
  /-- A transaction that ends otherwise leaves nothing behind. -/
  rolledBack : ∀ t tx op w' reply, w.transactions[t]? = some tx → w.step op = some (w', reply) →
    w'.transactions[t]? = none →
      (∃ verdict, op = .validated t verdict ∧ reply = .plan ⟨tx.owner⟩) ∨
        ∃ entry, w'.store.owners[tx.owner.id]? = some entry ∧ RolledBack entry
  /-- A failed `finish` ends by rolling back. -/
  failing : ∀ t owner error op w' reply, w.transactions[t]? = some ⟨owner, .failing error⟩ →
    w.step op = some (w', reply) →
      w'.transactions[t]? = some ⟨owner, .failing error⟩ ∨
        (op = .dropTransaction t ∧ reply = .failure error ∧ w'.transactions[t]? = none)
  /-- What is read through a handle is what was put under its name. -/
  faithful : ∀ name handle guard offset maxBytes w' bytes, Opened trace name handle →
    Reading trace guard handle offset maxBytes →
    w.step (.read guard) = some (w', .bytes bytes) →
      ∃ t payload, published trace handle.owner.id = [t] ∧
        (∀ p, (name, p) ∈ accepted trace t ↔ p = payload) ∧ offset ≤ payload.length ∧
        bytes = payload.extract offset (min (offset + maxBytes) payload.length)

/-- **Publication is all-or-nothing and faithful.** -/
theorem publication_atomic_and_faithful (run : (machine M).Run trace w) :
    PublicationLaws trace w := by
  have hw := run_coherent run
  constructor
  · intro k op w' reply hreads h
    obtain ⟨entry, hentry, hready⟩ := hreads.ready h
    obtain ⟨t, hone, _⟩ := run_ready run hentry ((run_readyFlag run hentry).mp hready)
    exact ⟨t, hone⟩
  · intro t tx op w' reply hlive h hended
    exact published_or_rolledBack hw h hlive hended
  · intro t owner error op w' reply hlive h
    exact failing_step hw h hlive
  · intro name handle guard offset maxBytes w' bytes hopened hreading h
    exact read_faithful run hopened hreading h

end Runs

/-- One transaction is dropped, the next publishes two pieces, and the second
of them is opened for reading. -/
def publicationOps : List (Op emptyScenes) :=
  let owner : PreparationOwner := ⟨0, 0, 7, []⟩
  [.createOwner ⟨"org.module", 7, []⟩, .begin 0 owner, .put 0 "plan" [9, 9], .dropTransaction 0,
    .begin 0 owner, .put 1 "walls" [1], .put 1 "plan" [2, 3, 4], .finish 1 (.ok ()),
    .validated 1 (.ok ()), .open ⟨owner⟩ "plan", .acquireRead ⟨owner, 1, 3⟩ 1 9]

theorem publication_atomic_and_faithful_of_ops :
    ∃ trace w, (machine emptyScenes).Run trace w ∧ published trace 0 = [1] ∧
      accepted trace 1 = [("walls", [1]), ("plan", [2, 3, 4])] ∧ PublicationLaws trace w := by
  have hrun : ((machine emptyScenes).replay publicationOps).map (fun result =>
      (published result.1 0, accepted result.1 1)) =
        some ([1], [("walls", [1]), ("plan", [2, 3, 4])]) := by decide
  obtain ⟨⟨trace, w⟩, hreplay, hw⟩ := Option.map_eq_some_iff.mp hrun
  obtain ⟨hpublished, haccepted⟩ := Prod.mk.inj hw
  have run := Machine.run_of_replay hreplay
  exact ⟨trace, w, run, hpublished, haccepted, publication_atomic_and_faithful run⟩

end PinchNPrint.Preparation
