/-
Order locks from the producer to the emitted order.

A lock is one local tag of one infill invocation in one region. The remap gives
every locked sparse path a tag of its own and leaves the other paths alone; the
order check then forms blocks by equality of tags. `locked_sequences_stay_atomic`
says for which commits that keeps a lock in one piece and apart from the others.
-/

import PinchNPrint.Layer.LockTags
import PinchNPrint.Layer.Proposals

namespace PinchNPrint.Layer

variable {F : Type}

/-! ### Runs of commits -/

/-- The infill commits of a layer, from an empty arena. -/
def applyInfillCommits [DecidableEq F] (commits : List (InfillIR F)) :
    Except LayerStageError (LayerArena F) :=
  commits.foldlM applyInfill {}

/-- The path optimization commits of a layer. -/
def applyPathCommits [LT F] [DecidableLT F] [Zero F] [ToString F] (arena : LayerArena F)
    (commits : List (StageApplyContext × PathOptimizationCommit F)) :
    Except LayerStageError (LayerArena F) :=
  commits.foldlM (fun arena commit => applyPathOptimization commit.1 arena commit.2) arena

/-- The regions staged on an arena. -/
def LayerArena.stagedRegions (arena : LayerArena F) :
    Option (List (InfillRegion F (ExtrusionPath3D F))) :=
  arena.infill.map (·.regions)

variable {arena arena' : LayerArena F}

theorem applyInfill_spec [DecidableEq F] {ir : InfillIR F} (h : applyInfill arena ir = .ok arena') :
    ∃ regions',
      remapInfillOrderLocksFrom ir.regions (nextGlobalInfillTag (arena.stagedRegions.getD [])) =
        .ok regions' ∧
      arena'.stagedRegions = some (stageRegions arena.stagedRegions regions') ∧
      arena'.layerCollection = arena.layerCollection := by
  have hnext : (arena.infill.map fun staged => nextGlobalInfillTag staged.regions).getD 0 =
      nextGlobalInfillTag (arena.stagedRegions.getD []) := by
    unfold LayerArena.stagedRegions
    cases arena.infill <;> rfl
  unfold applyInfill at h
  simp only [hnext] at h
  obtain ⟨regions', hremap, h⟩ := Except.of_bind_eq_ok h
  cases hremap' : remapInfillOrderLocksFrom ir.regions
      (nextGlobalInfillTag (arena.stagedRegions.getD [])) with
  | error message =>
    rw [hremap'] at hremap
    cases hremap
  | ok regions =>
    rw [hremap'] at hremap
    cases hremap
    cases h
    exact ⟨_, rfl, rfl, rfl⟩

/-- Every commit of the run meets the condition on the arena it is applied to. -/
def CommitsApart [DecidableEq F] (commits : List (InfillIR F)) : Prop :=
  ∀ (before after : List (InfillIR F)) (ir : InfillIR F) (arena : LayerArena F),
    commits = before ++ ir :: after → applyInfillCommits before = .ok arena →
    LocksApart arena.stagedRegions ir

theorem applyInfillCommits_append [DecidableEq F] {before : List (InfillIR F)} {ir : InfillIR F}
    (h : applyInfillCommits (before ++ [ir]) = .ok arena) :
    ∃ mid, applyInfillCommits before = .ok mid ∧ applyInfill mid ir = .ok arena := by
  rw [applyInfillCommits, List.foldlM_append] at h
  obtain ⟨mid, hmid, h⟩ := Except.of_bind_eq_ok h
  rw [List.foldlM_cons] at h
  obtain ⟨last, hlast, h⟩ := Except.of_bind_eq_ok h
  cases h
  exact ⟨mid, hmid, hlast⟩

/-- A run of commits that meet the condition has a table of tags. -/
theorem exists_tagTable [DecidableEq F] {commits : List (InfillIR F)}
    (h : applyInfillCommits commits = .ok arena) (happart : CommitsApart commits) :
    (∃ tagOf, TagTable commits arena.stagedRegions tagOf) ∧ arena.layerCollection = none := by
  induction commits using List.reverseRecOn generalizing arena with
  | nil =>
    cases h
    refine ⟨⟨fun _ => none, .none, Nat.zero_le _, ?_, ?_, ?_, ?_⟩, rfl⟩
    · intro p hp
      cases hp
    · intro o l hl
      simp [lockOf, regionAt] at hl
    · intro o l hl
      simp [lockOf, regionAt] at hl
    · intro o o' l l' hl
      simp [lockOf, regionAt] at hl
  | append_singleton before ir ih =>
    obtain ⟨mid, hmid, hlast⟩ := applyInfillCommits_append h
    have hbefore : CommitsApart before := by
      intro before' after ir' arena' hsplit hrun
      exact happart before' (after ++ [ir]) ir' arena' (by simp [hsplit]) hrun
    obtain ⟨⟨tagOf, table⟩, hcollection⟩ := ih hmid hbefore
    obtain ⟨regions', hremap, hstaged, hsame⟩ := applyInfill_spec hlast
    have hstep := table.step (happart before [] ir mid rfl hmid) hremap
    rw [← hstaged] at hstep
    exact ⟨⟨_, hstep⟩, hsame.trans hcollection⟩

theorem applyPathOptimization_collection [LT F] [DecidableLT F] [Zero F] [ToString F]
    {ctx : StageApplyContext} {c : PathOptimizationCommit F} {collection : LayerCollectionIR F}
    (h : applyPathOptimization ctx arena c = .ok arena')
    (hcollection : arena.layerCollection = some collection) :
    ∃ entities, arena'.layerCollection = some { collection with orderedEntities := entities } ∧
      (entities = collection.orderedEntities ∨ ∃ proposal,
        validateEntityOrderLocks collection.orderedEntities proposal = .ok () ∧
        applyOrderProposal collection.orderedEntities proposal = .ok entities) := by
  obtain ⟨mid, hmid, h⟩ := Except.of_bind_eq_ok h
  obtain ⟨hops, -, h⟩ := Except.of_bind_eq_ok h
  cases h
  unfold applyProposal at hmid
  cases hproposal : c.orderProposal with
  | none =>
    simp only [hproposal] at hmid
    cases hmid
    exact ⟨collection.orderedEntities, hcollection, .inl rfl⟩
  | some proposal =>
    simp only [hproposal] at hmid
    have happly : applyEntityOrderProposal arena proposal = .ok mid := by
      cases hresult : applyEntityOrderProposal arena proposal with
      | error message =>
        rw [hresult] at hmid
        cases hmid
      | ok arena₁ =>
        rw [hresult] at hmid
        cases hmid
        rfl
    simp only [applyEntityOrderProposal, hcollection] at happly
    obtain ⟨⟨⟩, hlocks, happly⟩ := Except.of_bind_eq_ok happly
    obtain ⟨entities, hentities, happly⟩ := Except.of_bind_eq_ok happly
    cases happly
    exact ⟨entities, rfl, .inr ⟨proposal, hlocks, hentities⟩⟩

/-- What every accepted proposal keeps of the entities, a run of path
optimization commits keeps. -/
theorem applyPathCommits_invariant [LT F] [DecidableLT F] [Zero F] [ToString F]
    {P : List (PrintEntity F) → Prop}
    (hstep : ∀ entities entities' proposal, P entities →
      validateEntityOrderLocks entities proposal = .ok () →
      applyOrderProposal entities proposal = .ok entities' → P entities')
    {commits : List (StageApplyContext × PathOptimizationCommit F)}
    (h : applyPathCommits arena commits = .ok arena')
    (hstart : ∃ collection, arena.layerCollection = some collection ∧ P collection.orderedEntities)
    : ∃ collection, arena'.layerCollection = some collection ∧ P collection.orderedEntities := by
  refine Except.foldlM_invariant (P := fun arena : LayerArena F =>
    ∃ collection, arena.layerCollection = some collection ∧ P collection.orderedEntities)
    ?_ hstart h
  rintro ⟨ctx, c⟩ - s s' ⟨collection, hcollection, hP⟩ happly
  obtain ⟨entities, hentities, hsame | ⟨proposal, hlocks, hproposal⟩⟩ :=
    applyPathOptimization_collection happly hcollection
  · exact ⟨_, hentities, hsame ▸ hP⟩
  · exact ⟨_, hentities, hstep _ _ proposal hP hlocks hproposal⟩

/-! ### Atomic sequences -/

/-- The entity was made of the path emitted at the origin. -/
def Prints [DecidableEq F] (layer : LayerInput F) (commits : List (InfillIR F)) (o : Origin)
    (e : PrintEntity F) : Prop :=
  ∃ j : Nat, (stagedOrigins commits)[j]? = some o ∧
    e.entityId = layer.perimeterParts.length + j + 1

/-- The order locks of the commits are kept by the staged entities: paths emitted
one after the other with one local tag are still in a row and not turned around,
and distinct locks have different tags. -/
structure LocksKept [DecidableEq F] (layer : LayerInput F) (commits : List (InfillIR F))
    (entities : List (PrintEntity F)) : Prop where
  neighbours : ∀ (o : Origin) (path path' : ExtrusionPath3D F) (tag : Nat),
    emitted commits o = some path → emitted commits o.next = some path' → IsLocal tag →
    path.orderLock = some tag → path'.orderLock = some tag →
    ∃ (i : Nat) (e e' : PrintEntity F), entities[i]? = some e ∧ entities[i + 1]? = some e' ∧
      Prints layer commits o e ∧ Prints layer commits o.next e' ∧
      e.path.points = path.points ∧ e'.path.points = path'.points
  distinct : ∀ (o o' : Origin) (l l' : Lock F), lockOf commits o = some l →
    lockOf commits o' = some l' → l ≠ l' → ∀ e ∈ entities, ∀ e' ∈ entities,
    Prints layer commits o e → Prints layer commits o' e' → e.path.orderLock ≠ e'.path.orderLock

section Atomic

variable [DecidableEq F] {layer : LayerInput F} {commits : List (InfillIR F)}
  {staged : Option (List (InfillRegion F (ExtrusionPath3D F)))} {tagOf : Origin → Option Nat}

omit [DecidableEq F] in
theorem map_path_infillParts :
    (infillParts layer staged).map (·.path) = (staged.getD []).flatMap (·.drain) := by
  rw [infillParts, List.map_flatMap]
  congr
  funext region
  rw [List.map_map]
  exact List.map_id _

omit [DecidableEq F] in
theorem getElem?_pushParts {parts : List (Part F)} {i : Nat} {e : PrintEntity F}
    (h : (pushParts parts)[i]? = some e) :
    ∃ part, parts[i]? = some part ∧ e.entityId = i + 1 ∧ e.path = part.path := by
  rw [pushParts, List.getElem?_mapIdx] at h
  obtain ⟨part, hpart, rfl⟩ := Option.map_eq_some_iff.mp h
  exact ⟨part, hpart, rfl, rfl⟩

variable {o : Origin}

theorem TagTable.assembled (table : TagTable commits staged tagOf) (hraft : layer.isRaft = false)
    {j : Nat} (ho : (stagedOrigins commits)[j]? = some o) :
    ∃ e q, (assembleOrderedEntities layer staged)[layer.perimeterParts.length + j]? = some e ∧
      e.entityId = layer.perimeterParts.length + j + 1 ∧ emitted commits o = some q ∧
      e.path = { q with orderLock := tagOf o } := by
  have hregions : List.Forall₂ (RegionAligned (Stands commits tagOf))
      ((originRegions commits).getD []) (staged.getD []) := by
    have haligned := table.aligned
    generalize originRegions commits = origins at haligned ⊢
    cases haligned with
    | none => exact .nil
    | some h => exact h
  have hdrain : List.Forall₂ (Stands commits tagOf) (stagedOrigins commits)
      ((staged.getD []).flatMap (·.drain)) :=
    List.rel_flatMap hregions fun ⦃_ _⦄ h => h.drain
  obtain ⟨path, hpath, q, hq, rfl⟩ := hdrain.getElem?_some ho
  rw [← @map_path_infillParts _ layer, List.getElem?_map] at hpath
  obtain ⟨part, hpart, hpath⟩ := Option.map_eq_some_iff.mp hpath
  have hj := (List.getElem?_eq_some_iff.mp hpart).1
  have hat : (layer.perimeterParts ++ infillParts layer staged ++ layer.raftParts ++
      layer.supportParts)[layer.perimeterParts.length + j]? = some part := by
    rw [List.append_assoc, List.append_assoc, List.getElem?_append_right (Nat.le_add_right _ j),
      Nat.add_sub_cancel_left, List.getElem?_append_left hj]
    exact hpart
  obtain ⟨e, he⟩ : ∃ e, (assembleOrderedEntities layer staged)[layer.perimeterParts.length + j]? =
      some e := by
    rw [assembleOrderedEntities, hraft, if_neg Bool.false_ne_true, pushParts, List.getElem?_mapIdx,
      hat]
    exact ⟨_, rfl⟩
  have hpush := he
  rw [assembleOrderedEntities, hraft, if_neg Bool.false_ne_true] at hpush
  obtain ⟨part', hpart', hid, hsame⟩ := getElem?_pushParts hpush
  rw [hat] at hpart'
  cases hpart'
  exact ⟨e, q, he, hid, hq, hsame.trans hpath⟩

section

omit [DecidableEq F]

theorem entityId_of_assembled {i : Nat} {e : PrintEntity F}
    (h : (assembleOrderedEntities layer staged)[i]? = some e) : e.entityId = i + 1 := by
  unfold assembleOrderedEntities at h
  split at h
  · exact (getElem?_pushParts h).choose_spec.2.1
  · exact (getElem?_pushParts h).choose_spec.2.1

/-- Two paths emitted in a row are neighbours in one region. -/
theorem exists_region_of_emitted {path path' : ExtrusionPath3D F}
    (h : emitted commits o = some path) (h' : emitted commits o.next = some path') :
    ∃ region ir, commits[o.commit]? = some ir ∧ ir.regions[o.region]? = some region ∧
      (region.paths o.kind)[o.position]? = some path ∧
      (region.paths o.kind)[o.position + 1]? = some path' := by
  obtain ⟨region, hregion, hpath⟩ := Option.bind_eq_some_iff.mp h
  obtain ⟨region', hregion', hpath'⟩ := Option.bind_eq_some_iff.mp h'
  obtain rfl : region = region' := Option.some.inj (hregion.symm.trans hregion')
  obtain ⟨ir, hir, hat⟩ := Option.bind_eq_some_iff.mp hregion
  exact ⟨region, ir, hir, hat, hpath, hpath'⟩

end

theorem stagedOrigins_neighbours {path path' : ExtrusionPath3D F}
    (h : emitted commits o = some path) (h' : emitted commits o.next = some path') :
    ∃ j : Nat, (stagedOrigins commits)[j]? = some o ∧
      (stagedOrigins commits)[j + 1]? = some o.next := by
  obtain ⟨region, ir, hir, hat, hpath, hpath'⟩ := exists_region_of_emitted h h'
  obtain ⟨stagedRegion, hmem, hwithin⟩ := nameRegion_within hir hat
  rw [← List.pair_infix_iff]
  have hnames : [o, o.next] <:+: (nameRegion o.commit o.region region).paths o.kind := by
    rw [paths_nameRegion, List.pair_infix_iff]
    have hlt := (List.getElem?_eq_some_iff.mp hpath).1
    have hlt' := (List.getElem?_eq_some_iff.mp hpath').1
    refine ⟨o.position, ?_, ?_⟩
    · rw [List.getElem?_map, List.getElem?_range hlt]
      rfl
    · rw [List.getElem?_map, List.getElem?_range hlt']
      rfl
  refine hnames.trans ((hwithin o.kind).trans ((stagedRegion.paths_infix_drain o.kind).trans ?_))
  rw [stagedOrigins, List.flatMap_def]
  exact List.infix_of_mem_flatten (List.mem_map_of_mem hmem)

/-- Sparse paths in a row have different tags in a run that meets the condition. -/
theorem CommitsApart.sparse {arena : LayerArena F} (happart : CommitsApart commits)
    (hrun : applyInfillCommits commits = .ok arena) {path path' : ExtrusionPath3D F} {tag : Nat}
    (h : emitted commits o = some path) (h' : emitted commits o.next = some path')
    (hlocal : IsLocal tag) (htag : path.orderLock = some tag) (htag' : path'.orderLock = some tag) :
    o.kind ≠ .sparse := by
  intro hkind
  obtain ⟨region, ir, hir, hat, hpath, hpath'⟩ := exists_region_of_emitted h h'
  obtain ⟨hlt, rfl⟩ := List.getElem?_eq_some_iff.mp hir
  have hsplit : commits = commits.take o.commit ++ commits[o.commit] :: commits.drop (o.commit + 1) := by
    rw [← List.drop_eq_getElem_cons hlt, List.take_append_drop]
  have hbefore : ∃ mid, applyInfillCommits (commits.take o.commit) = .ok mid := by
    rw [hsplit, applyInfillCommits, List.foldlM_append] at hrun
    obtain ⟨mid, hmid, -⟩ := Except.of_bind_eq_ok hrun
    exact ⟨mid, hmid⟩
  obtain ⟨mid, hmid⟩ := hbefore
  have hcond := happart _ _ _ mid hsplit hmid
  rw [hkind] at hpath hpath'
  exact hcond.sparse region (List.mem_of_getElem? hat) o.position path path' tag hpath hpath' hlocal
    htag htag'

end Atomic

/-- Locked sequences stay atomic. In every run of infill commits whose locks are
apart, followed by path optimization commits that are all accepted, paths emitted
in a row under one local tag stay in a row, in their order and direction, and
distinct locks never share a tag. A raft layer stages no infill. -/
theorem locked_sequences_stay_atomic [DecidableEq F] [LT F] [DecidableLT F] [Zero F] [ToString F]
    (layer : LayerInput F) (hraft : layer.isRaft = false) (commits : List (InfillIR F))
    (happart : CommitsApart commits) (arena : LayerArena F)
    (hinfill : applyInfillCommits commits = .ok arena)
    (pathCommits : List (StageApplyContext × PathOptimizationCommit F)) (final : LayerArena F)
    (hpath : applyPathCommits (prestageLayerCollection layer arena) pathCommits = .ok final) :
    ∃ collection, final.layerCollection = some collection ∧
      LocksKept layer commits collection.orderedEntities := by
  obtain ⟨⟨tagOf, table⟩, hnone⟩ := exists_tagTable hinfill happart
  have hstaged : ∃ collection, (prestageLayerCollection layer arena).layerCollection =
      some collection ∧
      collection.orderedEntities = assembleOrderedEntities layer arena.stagedRegions := by
    simp only [prestageLayerCollection, hnone]
    exact ⟨_, rfl, rfl⟩
  obtain ⟨start, hstart, hentities⟩ := hstaged
  -- entities keep their id and their lock
  obtain ⟨collection, hcollection, hsame⟩ := applyPathCommits_invariant
    (P := fun entities => ∀ e ∈ entities, ∃ e₀ ∈ assembleOrderedEntities layer arena.stagedRegions,
      e.entityId = e₀.entityId ∧ e.path.orderLock = e₀.path.orderLock)
    (by
      intro entities entities' proposal hP _ happly e he
      obtain ⟨e₁, he₁, hid, hlock⟩ := applyOrderProposal_mem happly he
      obtain ⟨e₀, he₀, hid', hlock'⟩ := hP e₁ he₁
      exact ⟨e₀, he₀, hid.trans hid', hlock.trans hlock'⟩)
    hpath ⟨start, hstart, fun e he => ⟨e, hentities ▸ he, rfl, rfl⟩⟩
  refine ⟨collection, hcollection, ?_, ?_⟩
  · intro o path path' tag ho ho' hlocal htag htag'
    have hkind := happart.sparse hinfill ho ho' hlocal htag htag'
    have hlockOf : ∀ {o : Origin} {path : ExtrusionPath3D F}, emitted commits o = some path →
        path.orderLock = some tag → o.kind ≠ .sparse → tagOf o = some tag := by
      intro o path ho htag hkind
      obtain ⟨region, hregion, hat⟩ := Option.bind_eq_some_iff.mp ho
      have hlock : lockOf commits o = some ⟨o.commit, region.source, tag⟩ := by
        simp [lockOf, hregion, hat, htag, hlocal]
      exact (table.other o _ hlock hkind).1
    obtain ⟨j, hj, hj'⟩ := stagedOrigins_neighbours ho ho'
    obtain ⟨a, q, ha, hida, hq, hpatha⟩ := table.assembled hraft hj
    obtain ⟨b, q', hb, hidb, hq', hpathb⟩ := table.assembled hraft hj'
    obtain rfl : q = path := Option.some.inj (hq.symm.trans ho)
    obtain rfl : q' = path' := Option.some.inj (hq'.symm.trans ho')
    have hlocka : a.path.orderLock = some tag := by
      rw [hpatha]
      exact hlockOf ho htag hkind
    have hlockb : b.path.orderLock = some tag := by
      rw [hpathb]
      exact hlockOf ho' htag' hkind
    -- the two entities stay neighbours through every proposal
    obtain ⟨collection', hcollection', i, t, t', hi, hi'⟩ := applyPathCommits_invariant
      (P := fun entities => ∃ i t t' : Nat, entities[i]? = some { a with topoOrder := t } ∧
        entities[i + 1]? = some { b with topoOrder := t' })
      (by
        rintro entities entities' proposal ⟨i, t, t', hi, hi'⟩ hlocks happly
        obtain ⟨k, hk, hk'⟩ := applyOrderProposal_neighbours hlocks happly hi hi' hlocka hlockb
        exact ⟨k, k, k + 1, hk, hk'⟩)
      hpath ⟨start, hstart, layer.perimeterParts.length + j, a.topoOrder, b.topoOrder,
        by rw [hentities]; exact ha, by rw [hentities]; exact hb⟩
    obtain rfl : collection = collection' :=
      Option.some.inj (hcollection.symm.trans hcollection')
    refine ⟨i, _, _, hi, hi', ⟨j, hj, hida⟩, ⟨j + 1, hj', hidb⟩, ?_, ?_⟩
    · rw [hpatha]
    · rw [hpathb]
  · intro o o' l l' hl hl' hne e he e' he' hprints hprints'
    have hlock : ∀ {o : Origin} {e : PrintEntity F}, e ∈ collection.orderedEntities →
        Prints layer commits o e → e.path.orderLock = tagOf o := by
      rintro o e he ⟨j, hj, hid⟩
      obtain ⟨e₀, he₀, hid₀, hlock₀⟩ := hsame e he
      obtain ⟨k, hk⟩ := List.mem_iff_getElem?.mp he₀
      obtain ⟨a, q, ha, -, -, hpatha⟩ := table.assembled hraft hj
      have hkj : k = layer.perimeterParts.length + j := by
        have := entityId_of_assembled hk
        omega
      rw [hkj, ha] at hk
      cases hk
      rw [hlock₀, hpatha]
    rw [hlock he hprints, hlock he' hprints']
    exact table.apart o o' l l' hl hl' hne

/-- A path along the x axis under a lock. -/
def lockedPath (role : ExtrusionRole) (y : ℚ) (tag : Nat) : ExtrusionPath3D ℚ :=
  { points := [⟨0, y, 1, 1, 1, none, 0, none⟩, ⟨5, y, 1, 1, 1, none, 0, none⟩]
    role := role
    speedFactor := 1
    orderLock := some tag }

/-- A layer that drains nothing but its infill. -/
def bareLayer : LayerInput ℚ :=
  { index := 0, z := 1, isRaft := false, perimeterParts := [], raftParts := [], supportParts := []
    variantToolByRegion := fun _ => none, lookupToolByPointMm := fun _ _ => none, toolCount := 1 }

/-- One sparse path, and two solid paths under one lock. -/
def solidBlock : InfillIR ℚ :=
  { regions := [{ sparseInfill := [lockedPath .SparseInfill 0 3]
                  solidInfill := [lockedPath .TopSolidInfill 1 7, lockedPath .TopSolidInfill 2 7] }] }

theorem solidBlock_apart : CommitsApart [solidBlock] := by
  intro before after ir arena hsplit hrun
  obtain ⟨rfl, rfl, rfl⟩ : before = [] ∧ after = [] ∧ ir = solidBlock := by
    cases before with
    | nil =>
      cases hsplit
      exact ⟨rfl, rfl, rfl⟩
    | cons first rest =>
      have := congrArg List.length hsplit
      simp at this
  cases hrun
  refine ⟨?_, ?_, ?_, by decide +kernel⟩
  · intro region hregion i p p' tag _ hp'
    rw [List.mem_singleton.mp hregion] at hp'
    cases hp'
  · intro kind kind' _ _ p _ q hq
    cases hq
  · intro region hregion region' hregion' hne
    rw [List.mem_singleton.mp hregion, List.mem_singleton.mp hregion'] at hne
    exact absurd rfl hne

/-- The path optimization commit that only proposes an order. -/
def proposeOrder (proposal : List (Nat × Bool)) :
    List (StageApplyContext × PathOptimizationCommit ℚ) :=
  [(⟨"Layer::PathOptimization", "path-optimization"⟩, { orderProposal := some proposal })]

/-- The entity of the bare layer with an id, in a slot. -/
def bareEntity (entityId slot : Nat) (path : ExtrusionPath3D ℚ) : PrintEntity ℚ :=
  { entityId := entityId, path := path, role := path.role, regionKey := {}, topoOrder := slot
    toolIndex := 0 }

/-- The arena of the bare layer with one staged region. -/
def bareArena (region : InfillRegion ℚ (ExtrusionPath3D ℚ)) : LayerArena ℚ :=
  { infill := some { regions := [region] } }

/-- The arena of the bare layer with its entities. -/
def bareStaged (region : InfillRegion ℚ (ExtrusionPath3D ℚ)) (entities : List (PrintEntity ℚ)) :
    LayerArena ℚ :=
  { bareArena region with
    layerCollection := some { globalLayerIndex := 0, z := 1, orderedEntities := entities } }

theorem locked_sequences_stay_atomic_solid :
    LocksKept bareLayer [solidBlock]
      [bareEntity 2 0 (lockedPath .TopSolidInfill 1 7),
       bareEntity 3 1 (lockedPath .TopSolidInfill 2 7),
       bareEntity 1 2 (lockedPath .SparseInfill 0 (2 ^ 63))] := by
  let region : InfillRegion ℚ (ExtrusionPath3D ℚ) :=
    { sparseInfill := [lockedPath .SparseInfill 0 (2 ^ 63)]
      solidInfill := [lockedPath .TopSolidInfill 1 7, lockedPath .TopSolidInfill 2 7] }
  obtain ⟨collection, hcollection, hkept⟩ := locked_sequences_stay_atomic bareLayer rfl [solidBlock]
    solidBlock_apart (bareArena region) (by decide +kernel)
    (proposeOrder [(1, false), (2, false), (0, false)])
    (bareStaged region
      [bareEntity 2 0 (lockedPath .TopSolidInfill 1 7),
       bareEntity 3 1 (lockedPath .TopSolidInfill 2 7),
       bareEntity 1 2 (lockedPath .SparseInfill 0 (2 ^ 63))])
    (by decide +kernel)
  cases hcollection
  exact hkept

/-- Two sparse paths under one lock. -/
def sparseBlock : InfillIR ℚ :=
  { regions := [{ sparseInfill :=
      [lockedPath .SparseInfill 0 7, lockedPath .SparseInfill 1 7] }] }

/-- The two sparse paths as they are staged. -/
def sparseBlockStaged : InfillRegion ℚ (ExtrusionPath3D ℚ) :=
  { sparseInfill :=
      [lockedPath .SparseInfill 0 (2 ^ 63), lockedPath .SparseInfill 1 (2 ^ 63 + 1)] }

/-- The entities of the two sparse paths, the second first. -/
def sparseBlockSwapped : List (PrintEntity ℚ) :=
  [bareEntity 2 0 (lockedPath .SparseInfill 1 (2 ^ 63 + 1)),
   bareEntity 1 1 (lockedPath .SparseInfill 0 (2 ^ 63))]

/-- Two sparse paths emitted in a row under one tag get tags of their own, and an
accepted proposal swaps them. -/
theorem sparse_block_is_swapped :
    applyInfillCommits [sparseBlock] = .ok (bareArena sparseBlockStaged) ∧
    applyPathCommits (prestageLayerCollection bareLayer (bareArena sparseBlockStaged))
      (proposeOrder [(1, false), (0, false)]) =
        .ok (bareStaged sparseBlockStaged sparseBlockSwapped) ∧
    ¬ LocksKept bareLayer [sparseBlock] sparseBlockSwapped := by
  refine ⟨by decide +kernel, by decide +kernel, fun hkept => ?_⟩
  obtain ⟨i, e, e', hi, hi', ⟨j, hj, hid⟩, -⟩ := hkept.neighbours ⟨0, 0, .sparse, 0⟩
    (lockedPath .SparseInfill 0 7) (lockedPath .SparseInfill 1 7) 7 rfl rfl (by decide) rfl rfl
  have horigins : stagedOrigins [sparseBlock] = [⟨0, 0, .sparse, 0⟩, ⟨0, 0, .sparse, 1⟩] := by
    decide +kernel
  rw [horigins] at hj
  match i with
  | 0 =>
    -- the first entity was made of the second path
    cases hi
    have hj1 : j = 1 := by
      simp only [bareEntity, bareLayer, List.length_nil] at hid
      omega
    subst hj1
    cases hj
  | i + 1 => cases hi'

end PinchNPrint.Layer
