/-
Speed profiles through finalization.

A profile is checked against the points of its entity when it is set, and not
again when the points are replaced: the producer sets the profile after the
points. `speed_profiles_fit` says that this order is enough.
-/

import PinchNPrint.Layer.Pushes

namespace PinchNPrint.Layer

variable {F : Type}

/-! ### Profiles that fit -/

/-- A profile has as many factors as every entity with its id has points. -/
def Fits (entities : List (PrintEntity F)) (profile : EntitySpeedProfile F) : Prop :=
  ∀ e ∈ entities, e.entityId = profile.entityId → profile.factors.length = e.path.points.length

/-- At most one profile for an entity, each of an entity of the layer, and each
fits unless its id is in `owed`. -/
structure ProfilesFit (owed : Nat → Prop) (layer : LayerCollectionIR F) : Prop where
  distinct : (layer.speedProfiles.map (·.entityId)).Nodup
  known : ∀ profile ∈ layer.speedProfiles,
    ∃ e ∈ layer.orderedEntities, e.entityId = profile.entityId
  fits : ∀ profile ∈ layer.speedProfiles,
    owed profile.entityId ∨ Fits layer.orderedEntities profile

section Profiles

variable {owed owed' : Nat → Prop} {layer layer' : LayerCollectionIR F}

theorem ProfilesFit.mono (h : ProfilesFit owed layer) (howed : ∀ id, owed id → owed' id) :
    ProfilesFit owed' layer :=
  ⟨h.distinct, h.known, fun profile hprofile => (h.fits profile hprofile).imp_left (howed _)⟩

/-- Profiles stay when every entity keeps its id and the number of its points, and
new entities have new ids. -/
theorem ProfilesFit.of_entities (h : ProfilesFit owed layer)
    (hprofiles : layer'.speedProfiles = layer.speedProfiles)
    (hkept : ∀ e ∈ layer.orderedEntities, ∃ e' ∈ layer'.orderedEntities, e'.entityId = e.entityId)
    (hfrom : ∀ e' ∈ layer'.orderedEntities, (∃ e ∈ layer.orderedEntities,
      e.entityId = e'.entityId ∧ e.path.points.length = e'.path.points.length) ∨
      e'.entityId ∉ layer.orderedEntities.map (·.entityId)) : ProfilesFit owed layer' where
  distinct := by
    rw [hprofiles]
    exact h.distinct
  known profile hprofile := by
    rw [hprofiles] at hprofile
    obtain ⟨e, he, hid⟩ := h.known profile hprofile
    obtain ⟨e', he', hid'⟩ := hkept e he
    exact ⟨e', he', hid'.trans hid⟩
  fits profile hprofile := by
    rw [hprofiles] at hprofile
    refine (h.fits profile hprofile).imp_right fun hfits e' he' hid => ?_
    rcases hfrom e' he' with ⟨e, he, hsame, hlength⟩ | hnew
    · rw [← hlength]
      exact hfits e he (hsame.trans hid)
    · obtain ⟨e, he, hknown⟩ := h.known profile hprofile
      exact absurd (List.mem_map.mpr ⟨e, he, hknown.trans hid.symm⟩) hnew

theorem ProfilesFit.of_mem_iff (h : ProfilesFit owed layer)
    (hprofiles : layer'.speedProfiles = layer.speedProfiles)
    (hmem : ∀ e, e ∈ layer'.orderedEntities ↔ e ∈ layer.orderedEntities) :
    ProfilesFit owed layer' :=
  h.of_entities hprofiles (fun e he => ⟨e, (hmem e).mpr he, rfl⟩)
    fun e he => .inl ⟨e, (hmem e).mp he, rfl, rfl⟩

/-- A new entity with a new id. -/
theorem ProfilesFit.of_added (h : ProfilesFit owed layer)
    (hprofiles : layer'.speedProfiles = layer.speedProfiles) {added : PrintEntity F}
    (hnew : added.entityId ∉ layer.orderedEntities.map (·.entityId))
    (hmem : ∀ e, e ∈ layer'.orderedEntities ↔ e = added ∨ e ∈ layer.orderedEntities) :
    ProfilesFit owed layer' := by
  refine h.of_entities hprofiles (fun e he => ⟨e, (hmem e).mpr (.inr he), rfl⟩) fun e he => ?_
  rcases (hmem e).mp he with rfl | he
  · exact .inr hnew
  · exact .inl ⟨e, he, rfl, rfl⟩

theorem pushEntity_fit (h : ProfilesFit owed layer) (push : PriorityPush F) :
    ProfilesFit owed (pushEntity layer push) := by
  obtain ⟨added, hrow, hid⟩ : ∃ added, (pushEntity layer push).orderedEntities =
      layer.orderedEntities ++ [added] ∧ added.entityId = nextEntityId layer.orderedEntities :=
    ⟨_, rfl, rfl⟩
  refine h.of_added rfl (hid ▸ nextEntityId_notMem layer.orderedEntities) fun e => ?_
  rw [hrow, List.mem_append, List.mem_singleton, or_comm]

theorem sortPushed_fit {pushes : List (PriorityPush F)} (h : ProfilesFit owed layer)
    (hsort : sortPushed pushes layer = .ok layer') : ProfilesFit owed layer' := by
  refine h.of_mem_iff ?_ fun e => sortPushed_mem_iff hsort
  unfold sortPushed at hsort
  split at hsort
  · cases hsort
    rfl
  · obtain ⟨_, -, hsort⟩ := Except.of_bind_eq_ok hsort
    cases hsort
    rfl

theorem sortLayer_fit {key : SortKey} (h : ProfilesFit owed layer)
    (hsort : sortLayer key layer = .ok layer') : ProfilesFit owed layer' := by
  refine h.of_mem_iff ?_ fun e => sortLayer_mem_iff hsort
  obtain ⟨_, -, hsort⟩ := Except.of_bind_eq_ok hsort
  cases hsort
  rfl

theorem insertEntityAt_fit {position toolIndex : Nat} {path : ExtrusionPath3D F}
    {regionKey : RegionKey F} (h : ProfilesFit owed layer)
    (hinsert : insertEntityAt position path toolIndex regionKey layer = .ok layer') :
    ProfilesFit owed layer' := by
  unfold insertEntityAt at hinsert
  split at hinsert
  · cases hinsert
  rename_i hrange
  cases hinsert
  exact h.of_added rfl (nextEntityId_notMem layer.orderedEntities) fun e =>
    List.mem_insertIdx (Nat.le_of_not_lt hrange)

theorem setEntityOrder_fit {items : List (Nat × Bool)} (h : ProfilesFit owed layer)
    (horder : setEntityOrder items layer = .ok layer') : ProfilesFit owed layer' := by
  refine h.of_mem_iff ?_ fun e => setEntityOrder_mem_iff horder
  unfold setEntityOrder at horder
  simp only at horder
  split at horder
  · cases horder
  · obtain ⟨_, -, horder⟩ := Except.of_bind_eq_ok horder
    obtain ⟨_, -, horder⟩ := Except.of_bind_eq_ok horder
    cases horder
    rfl

/-- Another path for an entity: profiles stay when it has as many points, and
otherwise only those of its id are owed. -/
theorem setPath_fit {position : Nat} {e : PrintEntity F} {path : ExtrusionPath3D F}
    (h : ProfilesFit owed layer) (he : layer.orderedEntities[position]? = some e)
    (howed : owed e.entityId ∨ ∀ profile ∈ layer.speedProfiles, profile.entityId = e.entityId →
      Fits layer.orderedEntities profile → profile.factors.length = path.points.length) :
    ProfilesFit owed (setPath layer position e path) where
  distinct := h.distinct
  known profile hprofile := by
    obtain ⟨e₀, he₀, hid⟩ := h.known profile hprofile
    have hmem : e₀.entityId ∈ (setPath layer position e path).orderedEntities.map (·.entityId) := by
      rw [setPath_ids he]
      exact List.mem_map_of_mem he₀
    obtain ⟨e', he', hid'⟩ := List.mem_map.mp hmem
    exact ⟨e', he', hid'.trans hid⟩
  fits profile hprofile := by
    rcases h.fits profile hprofile with hdebt | hfits
    · exact .inl hdebt
    · by_cases hid : profile.entityId = e.entityId
      · rcases howed with hdebt | hlength
        · exact .inl (hid ▸ hdebt)
        · refine .inr fun e' he' hid' => ?_
          rcases List.mem_or_eq_of_mem_set he' with he' | rfl
          · exact hfits e' he' hid'
          · exact hlength profile hprofile hid hfits
      · refine .inr fun e' he' hid' => ?_
        rcases List.mem_or_eq_of_mem_set he' with he' | rfl
        · exact hfits e' he' hid'
        · exact absurd hid'.symm hid

variable {entityId : Nat} {factors : List F}

/-- What an upsert leaves: the new profile, and the others. -/
theorem mem_upsertProfile {profiles : List (EntitySpeedProfile F)} {profile : EntitySpeedProfile F}
    (hdistinct : (profiles.map (·.entityId)).Nodup)
    (h : profile ∈ upsertProfile profiles entityId factors) :
    profile = ⟨entityId, factors⟩ ∨ profile ∈ profiles ∧ profile.entityId ≠ entityId := by
  induction profiles with
  | nil => exact .inl (List.mem_singleton.mp h)
  | cons first rest ih =>
    obtain ⟨hfirst, hrest⟩ := List.nodup_cons.mp hdistinct
    unfold upsertProfile at h
    split at h
    case isTrue hid =>
      rcases List.mem_cons.mp h with rfl | hmem
      · exact .inl (congrArg (EntitySpeedProfile.mk · factors) hid)
      · refine .inr ⟨List.mem_cons_of_mem _ hmem, fun hsame => hfirst ?_⟩
        exact List.mem_map.mpr ⟨profile, hmem, hsame.trans hid.symm⟩
    case isFalse hid =>
      rcases List.mem_cons.mp h with rfl | hmem
      · exact .inr ⟨List.mem_cons_self, hid⟩
      · exact (ih hrest hmem).imp_right fun hold => ⟨List.mem_cons_of_mem _ hold.1, hold.2⟩

theorem upsertProfile_nodup {profiles : List (EntitySpeedProfile F)}
    (hdistinct : (profiles.map (·.entityId)).Nodup) :
    ((upsertProfile profiles entityId factors).map (·.entityId)).Nodup := by
  induction profiles with
  | nil => exact List.nodup_singleton _
  | cons first rest ih =>
    obtain ⟨hfirst, hrest⟩ := List.nodup_cons.mp hdistinct
    unfold upsertProfile
    split
    case isTrue hid => exact List.nodup_cons.mpr ⟨hfirst, hrest⟩
    case isFalse hid =>
      refine List.nodup_cons.mpr ⟨fun hmem => ?_, ih hrest⟩
      obtain ⟨profile, hprofile, hsame⟩ := List.mem_map.mp hmem
      rcases mem_upsertProfile hrest hprofile with rfl | ⟨hold, -⟩
      · exact hid hsame.symm
      · exact hfirst (hsame ▸ List.mem_map_of_mem hold)

theorem upsertProfile_fit (h : ProfilesFit owed layer)
    (hknown : ∃ e ∈ layer.orderedEntities, e.entityId = entityId)
    (hfits : Fits layer.orderedEntities ⟨entityId, factors⟩) :
    ProfilesFit (fun id => owed id ∧ id ≠ entityId)
      { layer with speedProfiles := upsertProfile layer.speedProfiles entityId factors } where
  distinct := upsertProfile_nodup h.distinct
  known profile hprofile := by
    rcases mem_upsertProfile h.distinct hprofile with rfl | ⟨hold, -⟩
    · exact hknown
    · exact h.known profile hold
  fits profile hprofile := by
    rcases mem_upsertProfile h.distinct hprofile with rfl | ⟨hold, hother⟩
    · exact .inr hfits
    · exact (h.fits profile hold).imp_left fun hdebt => ⟨hdebt, hother⟩

/-- A mutation: replaced points may leave the profile of their entity owed, and new
factors pay it. -/
theorem modifyEntity_fit [DecidableEq F] {layerIdx : Nat} {mutation : EntityMutation F}
    (h : ProfilesFit owed layer)
    (hmodify : modifyEntity layerIdx entityId mutation layer = .ok layer')
    (hfactors : ∀ v, mutation = .SetPointSpeedFactors v → ∀ e ∈ layer.orderedEntities,
      e.entityId = entityId → v.length = e.path.points.length)
    (hpoints : ∀ v, mutation = .SetPathPoints v → owed' entityId ∨
      ∀ profile ∈ layer.speedProfiles, profile.entityId = entityId →
        profile.factors.length = v.length)
    (hpaid : ∀ id, owed id → owed' id ∨ id = entityId ∧ ∃ v, mutation = .SetPointSpeedFactors v) :
    ProfilesFit owed' layer' := by
  obtain ⟨position, e, he, hid, hmutate⟩ := modifyEntity_spec hmodify
  have hmem := List.mem_of_getElem? he
  cases mutation with
  | SetSpeedFactor v =>
    cases hmutate
    have hkeep := h.mono fun id hdebt => (hpaid id hdebt).resolve_right fun hno => nomatch hno.2
    refine setPath_fit hkeep he (.inr fun profile _ hsame hfits => ?_)
    exact hfits e hmem hsame.symm
  | SetFlowFactor v =>
    cases hmutate
    have hkeep := h.mono fun id hdebt => (hpaid id hdebt).resolve_right fun hno => nomatch hno.2
    refine setPath_fit hkeep he (.inr fun profile _ hsame hfits => ?_)
    rw [List.length_map]
    exact hfits e hmem hsame.symm
  | SetPathPoints v =>
    obtain ⟨_, -, hmutate⟩ := Except.of_bind_eq_ok hmutate
    cases hmutate
    have hkeep := h.mono fun id hdebt => (hpaid id hdebt).resolve_right fun hno => nomatch hno.2
    refine setPath_fit hkeep he ?_
    rw [hid]
    exact (hpoints v rfl).imp_right fun hlength profile hprofile hsame _ =>
      hlength profile hprofile hsame
  | SetPointSpeedFactors v =>
    simp only [mutateEntity] at hmutate
    split at hmutate
    · cases hmutate
    · cases hmutate
      refine (upsertProfile_fit h ⟨e, hmem, hid⟩ fun e' he' hid' => ?_).mono fun id hdebt => ?_
      · exact hfactors v rfl e' he' hid'
      · exact (hpaid id hdebt.1).resolve_right fun hsame => hdebt.2 hsame.1

end Profiles

/-! ### The merge -/

/-- Factors for the entity are still to be set, and no synthetic layer takes the index of its
layer before. -/
def Owed (ops : List (MergeOp F)) (index entityId : Nat) : Prop :=
  ∃ mid factors rest,
    ops = mid ++ .ModifyEntity index entityId (.SetPointSpeedFactors factors) :: rest ∧
    ∀ idx data, MergeOp.InsertSynthLayer idx data ∈ mid → idx + 1 ≠ index

/-- What the step of an operation asks of the layers before it and the operations
after it: factors fit every entity of their id, and points that do not fit a profile
of their entity are followed by factors. -/
def OpFits (layers : List (LayerCollectionIR F)) (op : MergeOp F) (later : List (MergeOp F)) :
    Prop :=
  match op with
  | .ModifyEntity index entityId (.SetPointSpeedFactors v) =>
    ∀ p layer, findLayer layers index = some (p, layer) → ∀ e ∈ layer.orderedEntities,
      e.entityId = entityId → v.length = e.path.points.length
  | .ModifyEntity index entityId (.SetPathPoints v) =>
    ∀ p layer, findLayer layers index = some (p, layer) → Owed later index entityId ∨
      ∀ profile ∈ layer.speedProfiles, profile.entityId = entityId →
        profile.factors.length = v.length
  | _ => True

/-- Every operation of the merge meets `OpFits` on the layers it is applied to. -/
def StepsFit [DecidableEq F] (builder : FinalizationOutputBuilder F)
    (layers : List (LayerCollectionIR F)) : Prop :=
  ∀ pushed sorted before op after state,
    pushEntities layers builder.priorityPushes = .ok pushed →
    pushed.mapM (sortPushed builder.priorityPushes) = .ok sorted →
    builder.mergeOps = before ++ op :: after → before.foldlM applyMergeOp sorted = .ok state →
    OpFits state op after

section Merge

variable {layers layers' : List (LayerCollectionIR F)} {op : MergeOp F} {ops : List (MergeOp F)}

/-- The first operation pays, or what is owed stays owed. -/
theorem Owed.of_cons {index entityId : Nat} (h : Owed (op :: ops) index entityId) :
    (∃ v, op = .ModifyEntity index entityId (.SetPointSpeedFactors v)) ∨
      (∀ idx data, op = .InsertSynthLayer idx data → idx + 1 ≠ index) ∧
        Owed ops index entityId := by
  obtain ⟨mid, factors, rest, hsplit, hmid⟩ := h
  cases mid with
  | nil =>
    cases hsplit
    exact .inl ⟨factors, rfl⟩
  | cons first mid =>
    cases hsplit
    refine .inr ⟨?_, mid, factors, rest, rfl, fun idx data hmem => hmid idx data
      (List.mem_cons_of_mem _ hmem)⟩
    rintro idx data rfl
    exact hmid idx data List.mem_cons_self

/-- The profiles fit, but for those owed to the row that an index still finds. -/
def RowsFit (later : List (MergeOp F)) (rows : List (LayerCollectionIR F)) : Prop :=
  ∀ (p : Nat) (row : LayerCollectionIR F), rows[p]? = some row →
    ProfilesFit (fun entityId => Owed later row.globalLayerIndex entityId ∧
      findLayer rows row.globalLayerIndex = some (p, row)) row

/-- An operation on the row it names. -/
theorem update_fit [DecidableEq F] {index p : Nat} {layer layer' : LayerCollectionIR F}
    (hindex : op.layer = some index) (hfind : findLayer layers index = some (p, layer))
    (hop : OpFits layers op ops) (h : ProfilesFit (Owed (op :: ops) index) layer)
    (hupdate : op.update layer = .ok layer') : ProfilesFit (Owed ops index) layer' := by
  -- operations other than factors pay nothing
  have hkeep : (∀ entityId v, op ≠ .ModifyEntity index entityId (.SetPointSpeedFactors v)) →
      ProfilesFit (Owed ops index) layer := fun hother => h.mono fun entityId hdebt => by
    rcases hdebt.of_cons with ⟨v, hv⟩ | ⟨-, hlater⟩
    · exact absurd hv (hother entityId v)
    · exact hlater
  cases op with
  | ModifyEntity index' entityId mutation =>
    cases hindex
    refine modifyEntity_fit h hupdate ?_ ?_ fun id hdebt => ?_
    · rintro v rfl
      exact hop p layer hfind
    · rintro v rfl
      exact hop p layer hfind
    · rcases hdebt.of_cons with ⟨v, hv⟩ | ⟨-, hlater⟩
      · cases hv
        exact .inr ⟨rfl, v, rfl⟩
      · exact .inl hlater
  | SortLayer index' key => exact sortLayer_fit (hkeep fun _ _ => nofun) hupdate
  | InsertSynthLayer idx data => cases hindex
  | InsertEntityAt index' position path toolIndex regionKey =>
    exact insertEntityAt_fit (hkeep fun _ _ => nofun) hupdate
  | SetEntityOrder index' items => exact setEntityOrder_fit (hkeep fun _ _ => nofun) hupdate

/-- One step of the merge. -/
theorem applyMergeOp_fit [DecidableEq F] (h : applyMergeOp layers op = .ok layers')
    (hop : OpFits layers op ops) (hfit : RowsFit (op :: ops) layers) : RowsFit ops layers' := by
  rcases applyMergeOp_cases h with ⟨rfl, index, key, rfl⟩ |
    ⟨index, q, old, new, hindex, hfind, hnew, rfl⟩ | ⟨idx, data, rfl, -, rfl⟩
  · intro p row hrow
    refine (hfit p row hrow).mono fun entityId hdebt => ⟨?_, hdebt.2⟩
    rcases hdebt.1.of_cons with ⟨v, hv⟩ | ⟨-, hlater⟩
    · cases hv
    · exact hlater
  · obtain ⟨hold, holdIndex, -⟩ := findLayer_eq_some_iff.mp hfind
    have hsame := MergeOp.update_index hnew
    intro p row hrow
    by_cases hpq : q = p
    · subst hpq
      rw [List.getElem?_set_self (List.getElem?_eq_some_iff.mp hold).1] at hrow
      cases hrow
      have hfound := findLayer_set hfind hsame hfind
      rw [if_pos rfl] at hfound
      have hupdated := update_fit hindex hfind hop
        ((hfit q old hold).mono fun _ hdebt => holdIndex ▸ hdebt.1) hnew
      rw [hsame, holdIndex]
      exact hupdated.mono fun _ hdebt => ⟨hdebt, hfound⟩
    · rw [List.getElem?_set_ne hpq] at hrow
      refine (hfit p row hrow).mono fun entityId hdebt => ?_
      have hother : row.globalLayerIndex ≠ index := by
        intro heq
        have hp := hdebt.2
        rw [heq, hfind] at hp
        cases hp
        exact hpq rfl
      have hfound := findLayer_set hfind hsame hdebt.2
      rw [if_neg hother] at hfound
      rcases hdebt.1.of_cons with ⟨v, rfl⟩ | ⟨-, hlater⟩
      · cases hindex
        exact absurd rfl hother
      · exact ⟨hlater, hfound⟩
  · -- a synthetic layer leaves the rows that are owed something where their index finds them
    have hkept : ∀ q row, layers[q]? = some row → ProfilesFit (fun entityId =>
        Owed ops row.globalLayerIndex entityId ∧
          findLayer (layers.insertIdx (idx + 1) (synthLayer layers idx data))
            row.globalLayerIndex = some (shiftFrom (idx + 1) q, row)) row := by
      intro q row hq
      refine (hfit q row hq).mono fun entityId hdebt => ?_
      rcases hdebt.1.of_cons with ⟨v, hv⟩ | ⟨hother, hlater⟩
      · cases hv
      · exact ⟨hlater, findLayer_insertIdx (hother idx data rfl) hdebt.2⟩
    intro p row hrow
    rcases getElem?_insertIdx_cases hrow with ⟨hlt, hold⟩ | ⟨-, rfl⟩ | ⟨q, hle, rfl, hold⟩
    · have hfits := hkept p row hold
      rwa [shiftFrom, if_neg (by omega)] at hfits
    · exact ⟨List.nodup_nil, fun _ h => (nomatch h), fun _ h => (nomatch h)⟩
    · have hfits := hkept q row hold
      rwa [shiftFrom, if_pos hle] at hfits

theorem foldlM_applyMergeOp_fit [DecidableEq F] (h : ops.foldlM applyMergeOp layers = .ok layers')
    (hops : ∀ before op after state, ops = before ++ op :: after →
      before.foldlM applyMergeOp layers = .ok state → OpFits state op after)
    (hfit : RowsFit ops layers) : RowsFit [] layers' := by
  induction ops generalizing layers with
  | nil =>
    cases h
    exact hfit
  | cons op rest ih =>
    rw [List.foldlM_cons] at h
    obtain ⟨mid, hmid, h⟩ := Except.of_bind_eq_ok h
    refine ih h (fun before op' after state hsplit hrun => ?_)
      (applyMergeOp_fit hmid (hops [] op rest layers rfl rfl) hfit)
    refine hops (op :: before) op' after state (by rw [hsplit]; rfl) ?_
    rw [List.foldlM_cons, hmid]
    exact hrun

theorem not_owed_nil (index entityId : Nat) : ¬ Owed ([] : List (MergeOp F)) index entityId := by
  rintro ⟨mid, factors, rest, hsplit, -⟩
  cases mid <;> cases hsplit

variable {owed : Nat → Prop}

theorem pushEntities_fit {pushes : List (PriorityPush F)}
    (h : pushEntities layers pushes = .ok layers') (hfit : ∀ layer ∈ layers, ProfilesFit owed layer)
    : ∀ layer ∈ layers', ProfilesFit owed layer := by
  refine Except.foldlM_invariant
    (P := fun state : List (LayerCollectionIR F) => ∀ layer ∈ state, ProfilesFit owed layer) ?_ hfit h
  intro push _ state state' hstate hstep
  rcases updateLayer_cases hstep with hmiss | ⟨p, layer, layer', hfind, hpush, rfl⟩
  · cases hmiss
    exact hstate
  · cases hpush
    intro row hrow
    rcases List.mem_or_eq_of_mem_set hrow with hrow | rfl
    · exact hstate row hrow
    · exact pushEntity_fit (hstate layer (List.mem_of_getElem? (getElem?_of_findLayer hfind))) push

theorem pushAnnotations_fit {annotations : List (Nat × LayerAnnotation)}
    (h : pushAnnotations layers annotations = .ok layers')
    (hfit : ∀ layer ∈ layers, ProfilesFit owed layer) :
    ∀ layer ∈ layers', ProfilesFit owed layer := by
  refine Except.foldlM_invariant
    (P := fun state : List (LayerCollectionIR F) => ∀ layer ∈ state, ProfilesFit owed layer) ?_ hfit h
  intro entry _ state state' hstate hstep
  rcases updateLayer_cases hstep with hmiss | ⟨p, layer, layer', hfind, hannotate, rfl⟩
  · cases hmiss
  · cases hannotate
    intro row hrow
    rcases List.mem_or_eq_of_mem_set hrow with hrow | rfl
    · exact hstate row hrow
    · have hold := hstate layer (List.mem_of_getElem? (getElem?_of_findLayer hfind))
      exact ⟨hold.distinct, hold.known, hold.fits⟩

theorem RelockedLayer.fit {layer layer' : LayerCollectionIR F} (h : RelockedLayer layer layer')
    (hfit : ProfilesFit owed layer) : ProfilesFit owed layer' := by
  obtain ⟨entities, rfl, hentities⟩ := h
  refine hfit.of_entities rfl (fun e he => ?_) fun e' he' => .inl ?_
  · obtain ⟨e', he', lock, -, rfl⟩ := hentities.exists_of_mem_left he
    exact ⟨_, he', rfl⟩
  · obtain ⟨e, he, lock, -, rfl⟩ := hentities.exists_of_mem_right he'
    exact ⟨e, he, rfl, rfl⟩

/-- Speed profiles through finalization: when factors fit every entity of the id
they are set for, and points that do not fit a profile of their entity are followed
by factors for it, the profiles of every merged layer fit as those of the layers
before did. -/
theorem speed_profiles_fit [DecidableEq F] (builder : FinalizationOutputBuilder F)
    (layers layers' : List (LayerCollectionIR F)) (h : applyTo builder layers = .ok layers')
    (hsteps : StepsFit builder layers)
    (hfit : ∀ layer ∈ layers, ProfilesFit (fun _ => False) layer) :
    ∀ layer ∈ layers', ProfilesFit (fun _ => False) layer := by
  obtain ⟨pushed, hpushed, h⟩ := Except.of_bind_eq_ok h
  obtain ⟨sorted, hsorted, h⟩ := Except.of_bind_eq_ok h
  obtain ⟨merged, hmerged, h⟩ := Except.of_bind_eq_ok h
  obtain ⟨annotated, hannotated, h⟩ := Except.of_bind_eq_ok h
  have hstart : RowsFit builder.mergeOps sorted := by
    intro p row hrow
    obtain ⟨layer, hlayer, hsort⟩ :=
      (Except.forall₂_of_mapM_eq_ok hsorted).exists_of_mem_right (List.mem_of_getElem? hrow)
    exact (sortPushed_fit (pushEntities_fit hpushed hfit layer hlayer) hsort).mono
      fun _ hfalse => hfalse.elim
  have hrun := foldlM_applyMergeOp_fit hmerged (fun before op after state =>
    hsteps pushed sorted before op after state hpushed hsorted) hstart
  have hmergedFit : ∀ layer ∈ merged, ProfilesFit (fun _ => False) layer := by
    intro layer hlayer
    obtain ⟨p, hp⟩ := List.mem_iff_getElem?.mp hlayer
    exact (hrun p layer hp).mono fun _ hdebt => not_owed_nil _ _ hdebt.1
  have hannotatedFit := pushAnnotations_fit hannotated hmergedFit
  intro layer' hlayer'
  obtain ⟨layer, hlayer, hrelocked⟩ := (remapLayers_relocked h).exists_of_mem_right hlayer'
  exact hrelocked.fit (hannotatedFit layer hlayer)

end Merge

/-- A point on a line. -/
def linePoint (x : ℚ) : Point3WithWidth ℚ := ⟨x, 0, 1, 1, 1, none, 0, none⟩

/-- An infill entity with id 1. -/
def infillEntity (points : List ℚ) : PrintEntity ℚ :=
  { entityId := 1
    path := { points := points.map linePoint, role := .SparseInfill, speedFactor := 1 }
    role := .SparseInfill, regionKey := {}, topoOrder := 0, toolIndex := 0 }

/-- A layer with one entity, and its profile. -/
def profiledLayer (points factors : List ℚ) : LayerCollectionIR ℚ :=
  { globalLayerIndex := 0, z := 1, orderedEntities := [infillEntity points]
    speedProfiles := [⟨1, factors⟩] }

theorem profiledLayer_fit {points factors : List ℚ} (h : factors.length = points.length) :
    ∀ layer ∈ [profiledLayer points factors], ProfilesFit (fun _ => False) layer := by
  intro layer hlayer
  rw [List.mem_singleton] at hlayer
  subst hlayer
  refine ⟨List.nodup_singleton _, fun profile hprofile => ?_, fun profile hprofile => .inr ?_⟩
  · rw [List.mem_singleton.mp hprofile]
    exact ⟨_, List.mem_singleton_self _, rfl⟩
  · intro e he _
    rw [List.mem_singleton.mp hprofile, List.mem_singleton.mp he, infillEntity, List.length_map]
    exact h

/-- Three points, then a synthetic layer above, then three factors. -/
def resizingBuilder : FinalizationOutputBuilder ℚ :=
  { mergeOps := [.ModifyEntity 0 1 (.SetPathPoints ([0, 1, 2].map linePoint)),
      .InsertSynthLayer 0 ⟨2, []⟩, .ModifyEntity 0 1 (.SetPointSpeedFactors [1, 2, 3])] }

theorem resizingBuilder_fits : StepsFit resizingBuilder [profiledLayer [0, 2] [1, 1]] := by
  intro pushed sorted before op after state hpushed hsorted hsplit hrun
  cases hpushed
  cases hsorted
  match before with
  | [] =>
    cases hsplit
    refine fun p layer _ => .inl ⟨[.InsertSynthLayer 0 ⟨2, []⟩], [1, 2, 3], [], rfl, ?_⟩
    intro idx data hmem
    cases List.mem_singleton.mp hmem
    decide
  | [_] =>
    cases hsplit
    exact trivial
  | [_, _] =>
    cases hsplit
    have hstate : (resizingBuilder.mergeOps.take 2).foldlM applyMergeOp
        [profiledLayer [0, 2] [1, 1]] =
          .ok [profiledLayer [0, 1, 2] [1, 1], { globalLayerIndex := 1, z := 2 }] := by
      decide +kernel
    obtain rfl := Except.ok.inj (hrun.symm.trans hstate)
    intro p layer hfind e he _
    cases hfind
    rw [List.mem_singleton.mp he]
    rfl
  | [_, _, _] => cases hsplit
  | _ :: _ :: _ :: _ :: _ => cases hsplit

theorem speed_profiles_fit_resized :
    ProfilesFit (fun _ => False) (profiledLayer [0, 1, 2] [1, 2, 3]) :=
  speed_profiles_fit resizingBuilder [profiledLayer [0, 2] [1, 1]]
    [profiledLayer [0, 1, 2] [1, 2, 3], { globalLayerIndex := 1, z := 2 }] (by decide +kernel)
    resizingBuilder_fits (profiledLayer_fit rfl) _ List.mem_cons_self

/-- Three points for an entity with two factors. -/
def pointsBuilder : FinalizationOutputBuilder ℚ :=
  { mergeOps := [.ModifyEntity 0 1 (.SetPathPoints ([0, 1, 2].map linePoint))] }

/-- Two entities of one id, of different lengths. -/
def sharedIdLayer (profiles : List (EntitySpeedProfile ℚ)) : LayerCollectionIR ℚ :=
  { globalLayerIndex := 0, z := 1, orderedEntities := [infillEntity [0, 2], infillEntity [0, 1, 2]]
    speedProfiles := profiles }

/-- Two factors for the first of them. -/
def factorsBuilder : FinalizationOutputBuilder ℚ :=
  { mergeOps := [.ModifyEntity 0 1 (.SetPointSpeedFactors [1, 1])] }

/-- Points that are replaced after the profile was set leave it as it was, and
factors are compared with the first entity of their id alone. -/
theorem profiles_left_unfit :
    ((∀ layer ∈ [profiledLayer [0, 2] [1, 1]], ProfilesFit (fun _ => False) layer) ∧
      applyTo pointsBuilder [profiledLayer [0, 2] [1, 1]] = .ok [profiledLayer [0, 1, 2] [1, 1]] ∧
      ¬ ∀ layer ∈ [profiledLayer [0, 1, 2] [1, 1]], ProfilesFit (fun _ => False) layer) ∧
    (∀ layer ∈ [sharedIdLayer []], ProfilesFit (fun _ => False) layer) ∧
      applyTo factorsBuilder [sharedIdLayer []] = .ok [sharedIdLayer [⟨1, [1, 1]⟩]] ∧
      ¬ ∀ layer ∈ [sharedIdLayer [⟨1, [1, 1]⟩]], ProfilesFit (fun _ => False) layer := by
  refine ⟨⟨profiledLayer_fit rfl, by decide +kernel, fun hfit => ?_⟩, ?_, by decide +kernel,
    fun hfit => ?_⟩
  · rcases (hfit _ (List.mem_singleton_self _)).fits _ (List.mem_singleton_self _) with hfalse | hfits
    · exact hfalse
    · have hlength := hfits _ (List.mem_singleton_self _) rfl
      cases hlength
  · intro layer hlayer
    rw [List.mem_singleton] at hlayer
    subst hlayer
    exact ⟨List.nodup_nil, fun _ h => (nomatch h), fun _ h => (nomatch h)⟩
  · rcases (hfit _ (List.mem_singleton_self _)).fits _ (List.mem_singleton_self _) with hfalse | hfits
    · exact hfalse
    · have hlength := hfits (infillEntity [0, 1, 2]) (List.mem_cons_of_mem _ List.mem_cons_self) rfl
      cases hlength

end PinchNPrint.Layer
