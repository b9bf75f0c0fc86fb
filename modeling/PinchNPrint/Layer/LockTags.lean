/-
The tags of the staged paths.

The remap gives every locked sparse path a tag of its own and leaves the other
paths alone. `TagTable` is the invariant of a layer's infill commits: which tag
each emitted path has, and that paths of distinct locks have different ones.
-/

import PinchNPrint.Layer.Staging

namespace PinchNPrint.Layer

variable {F α : Type}

/-! ### Tags -/

variable {n tag m m' n' next next' : Nat}
  {regions regions' : List (InfillRegion F (ExtrusionPath3D F))} {commits : List (InfillIR F)}
  {o : Origin} {region : InfillRegion F (ExtrusionPath3D F)}

/-- Tags below `2 ^ 63` are added to the global bit. -/
theorem globalBit_or (hn : n < globalBit) : globalBit ||| n = globalBit + n := by
  have h := Nat.two_pow_add_eq_or_of_lt (i := 63) hn 1
  simpa [globalBit] using h.symm

theorem not_isLocal_globalBit_add (hn : n < globalBit) : ¬ IsLocal (globalBit + n) := by
  rw [← globalBit_or hn, IsLocal, globalBit, Nat.and_two_pow, Nat.testBit_or,
    Nat.testBit_two_pow_self, Bool.true_or]
  decide

theorem le_of_not_isLocal (h : ¬ IsLocal tag) : globalBit ≤ tag := by
  by_contra hlt
  apply h
  rw [IsLocal, globalBit, Nat.and_two_pow, Nat.testBit_lt_two_pow]
  · rfl
  · exact Nat.lt_of_not_le hlt

/-- What the remap makes of one lock: nothing of no lock, a new tag of a local
one, and itself of a global one that was allocated before. -/
inductive RemapsTo (next next' : Nat) : Option Nat → Option Nat → Prop
  | unlocked : RemapsTo next next' none none
  | fresh {tag g : Nat} (hlocal : IsLocal tag) (hlo : next ≤ g) (hhi : g < next') :
      RemapsTo next next' (some tag) (some (globalBit + g))
  | known {tag : Nat} (hglobal : ¬ IsLocal tag) (hhi : tag < globalBit + next') :
      RemapsTo next next' (some tag) (some tag)

theorem RemapsTo.mono {lock lock' : Option Nat} (h : RemapsTo n n' lock lock') (hlo : m ≤ n)
    (hhi : n' ≤ m') : RemapsTo m m' lock lock' := by
  cases h with
  | unlocked => exact .unlocked
  | fresh hlocal h₁ h₂ => exact .fresh hlocal (by omega) (by omega)
  | known hglobal h₁ => exact .known hglobal (by omega)

/-- Two local tags remapped one after the other differ. -/
theorem RemapsTo.ne {tag' : Nat} {lock lock' : Option Nat} (h : RemapsTo n n' (some tag) lock)
    (h' : RemapsTo m m' (some tag') lock') (htag : IsLocal tag) (htag' : IsLocal tag')
    (hnm : n' ≤ m) : lock ≠ lock' := by
  cases h with
  | known hglobal => exact absurd htag hglobal
  | fresh _ _ hhi =>
    cases h' with
    | known hglobal => exact absurd htag' hglobal
    | fresh _ hlo' _ =>
      intro heq
      have := Option.some.inj heq
      omega

theorem remapTag_spec {tag' : Nat} (h : remapTag tag next = .ok (tag', next'))
    (hroom : next < globalBit) :
    RemapsTo next next' (some tag) (some tag') ∧ next ≤ next' ∧ next' ≤ next + 1 := by
  unfold remapTag at h
  rw [globalBit_or hroom] at h
  split at h
  case isTrue hlocal =>
    split at h
    · cases h
    · cases h
      exact ⟨.fresh hlocal le_rfl (Nat.lt_succ_self next), Nat.le_succ next, le_rfl⟩
  case isFalse hglobal =>
    split at h
    · cases h
    case isFalse hknown =>
      cases h
      exact ⟨.known hglobal (Nat.lt_of_not_le hknown), le_rfl, Nat.le_succ next⟩

/-- Only the lock of a remapped path changes. -/
def PathRemapped (next next' : Nat) (p p' : ExtrusionPath3D F) : Prop :=
  p' = { p with orderLock := p'.orderLock } ∧ RemapsTo next next' p.orderLock p'.orderLock

theorem PathRemapped.mono {p p' : ExtrusionPath3D F} (h : PathRemapped n n' p p') (hlo : m ≤ n)
    (hhi : n' ≤ m') : PathRemapped m m' p p' :=
  ⟨h.1, h.2.mono hlo hhi⟩

/-- What the remap of a list of paths does, position by position. -/
structure Remapped (paths paths' : List (ExtrusionPath3D F)) (next next' : Nat) : Prop where
  mono : next ≤ next'
  room : next' ≤ next + paths.length
  each : List.Forall₂ (PathRemapped next next') paths paths'
  distinct : ∀ (i j : Nat) (p q p' q' : ExtrusionPath3D F) (tag tag' : Nat), i < j →
    paths[i]? = some p → paths[j]? = some q → paths'[i]? = some p' → paths'[j]? = some q' →
    p.orderLock = some tag → q.orderLock = some tag' → IsLocal tag → IsLocal tag' →
    p'.orderLock ≠ q'.orderLock

theorem remapOrderLocksToGlobal_spec {paths paths' : List (ExtrusionPath3D F)}
    (h : remapOrderLocksToGlobal paths next = .ok (paths', next'))
    (hroom : next + paths.length ≤ globalBit) : Remapped paths paths' next next' := by
  induction paths generalizing paths' next with
  | nil =>
    cases h
    exact ⟨le_rfl, le_rfl, .nil, fun _ _ _ _ _ _ _ _ _ h => by simp at h⟩
  | cons path rest ih =>
    rw [List.length_cons] at hroom
    unfold remapOrderLocksToGlobal at h
    cases hlock : path.orderLock with
    | none =>
      simp only [hlock] at h
      obtain ⟨⟨others, last⟩, hothers, h⟩ := Except.of_bind_eq_ok h
      cases h
      have hrest := ih hothers (by omega)
      refine ⟨hrest.mono, by have := hrest.room; rw [List.length_cons]; omega,
        .cons ⟨rfl, hlock ▸ .unlocked⟩ hrest.each, ?_⟩
      intro i j p q p' q' tag tag' hij hp hq hp' hq' htag
      obtain ⟨j, rfl⟩ := Nat.exists_eq_succ_of_ne_zero (Nat.ne_zero_of_lt hij)
      cases i with
      | zero =>
        cases hp
        rw [hlock] at htag
        cases htag
      | succ i =>
        exact hrest.distinct i j p q p' q' tag tag' (Nat.lt_of_succ_lt_succ hij) hp hq hp' hq' htag
    | some first =>
      simp only [hlock] at h
      obtain ⟨⟨tag₀, mid⟩, htag₀, h⟩ := Except.of_bind_eq_ok h
      obtain ⟨⟨others, last⟩, hothers, h⟩ := Except.of_bind_eq_ok h
      cases h
      obtain ⟨hhead, hmono, hstep⟩ := remapTag_spec htag₀ (by omega)
      have hrest := ih hothers (by omega)
      have hmono' := hrest.mono
      refine ⟨by omega, by have := hrest.room; rw [List.length_cons]; omega, .cons ⟨rfl, ?_⟩ ?_, ?_⟩
      · exact hlock ▸ hhead.mono le_rfl hmono'
      · exact hrest.each.imp fun p p' hp => hp.mono hmono le_rfl
      · intro i j p q p' q' tag tag' hij hp hq hp' hq' htag htag' hlocal hlocal'
        obtain ⟨j, rfl⟩ := Nat.exists_eq_succ_of_ne_zero (Nat.ne_zero_of_lt hij)
        cases i with
        | zero =>
          cases hp
          cases hp'
          have hlater := (hrest.each.rel_of_getElem? hq hq').2
          rw [hlock] at htag
          cases htag
          rw [htag'] at hlater
          exact hhead.ne hlater hlocal hlocal' le_rfl
        | succ i =>
          exact hrest.distinct i j p q p' q' tag tag' (Nat.lt_of_succ_lt_succ hij) hp hq hp' hq'
            htag htag' hlocal hlocal'

/-- The sparse paths of the regions. -/
def sparsePaths (regions : List (InfillRegion F α)) : List α :=
  regions.flatMap (·.sparseInfill)

/-- The sparse path at a position of a region. -/
def sparseAt (regions : List (InfillRegion F α)) (r i : Nat) : Option α :=
  regions[r]?.bind fun region => region.sparseInfill[i]?

/-- What the remap of one region does: its sparse paths are remapped, and all
else stays. -/
def RegionRemapped (next next' : Nat) (region region' : InfillRegion F (ExtrusionPath3D F)) :
    Prop :=
  region' = { region with sparseInfill := region'.sparseInfill } ∧
    List.Forall₂ (PathRemapped next next') region.sparseInfill region'.sparseInfill

/-- What the remap of a commit does. -/
structure RemappedRegions (regions regions' : List (InfillRegion F (ExtrusionPath3D F)))
    (next next' : Nat) : Prop where
  mono : next ≤ next'
  room : next' ≤ next + (sparsePaths regions).length
  each : List.Forall₂ (RegionRemapped next next') regions regions'
  distinct : ∀ (r i s j : Nat) (p q p' q' : ExtrusionPath3D F) (tag tag' : Nat),
    r < s ∨ r = s ∧ i < j → sparseAt regions r i = some p → sparseAt regions s j = some q →
    sparseAt regions' r i = some p' → sparseAt regions' s j = some q' →
    p.orderLock = some tag → q.orderLock = some tag' → IsLocal tag → IsLocal tag' →
    p'.orderLock ≠ q'.orderLock

theorem RegionRemapped.sparseAt (h : List.Forall₂ (RegionRemapped next next') regions regions')
    {r i : Nat} {p p' : ExtrusionPath3D F} (hp : sparseAt regions r i = some p)
    (hp' : sparseAt regions' r i = some p') : PathRemapped next next' p p' := by
  obtain ⟨region, hregion, hp⟩ := Option.bind_eq_some_iff.mp hp
  obtain ⟨region', hregion', hp'⟩ := Option.bind_eq_some_iff.mp hp'
  exact (h.rel_of_getElem? hregion hregion').2.rel_of_getElem? hp hp'

theorem remapInfillOrderLocksFrom_spec (h : remapInfillOrderLocksFrom regions next = .ok regions')
    (hroom : next + (sparsePaths regions).length ≤ globalBit) :
    ∃ next', RemappedRegions regions regions' next next' := by
  induction regions generalizing regions' next with
  | nil =>
    cases h
    exact ⟨next, le_rfl, le_rfl, .nil, fun _ _ _ _ _ _ _ _ _ _ _ h => by simp [sparseAt] at h⟩
  | cons region rest ih =>
    obtain ⟨⟨sparse, mid⟩, hsparse, h⟩ := Except.of_bind_eq_ok h
    obtain ⟨others, hothers, h⟩ := Except.of_bind_eq_ok h
    cases h
    have hcount : (sparsePaths (region :: rest)).length =
        region.sparseInfill.length + (sparsePaths rest).length := by
      simp [sparsePaths]
    have hhead := remapOrderLocksToGlobal_spec hsparse (by omega)
    have hmid := hhead.room
    obtain ⟨last, hrest⟩ := ih hothers (by omega)
    have hmono := hhead.mono
    have hmono' := hrest.mono
    have hlast := hrest.room
    refine ⟨last, by omega, by omega, .cons ⟨rfl, ?_⟩ ?_, ?_⟩
    · exact hhead.each.imp fun p p' hp => hp.mono le_rfl hmono'
    · exact hrest.each.imp fun a b hab => ⟨hab.1, hab.2.imp fun p p' hp => hp.mono hmono le_rfl⟩
    · intro r i s j p q p' q' tag tag' hlt hp hq hp' hq' htag htag' hlocal hlocal'
      cases r with
      | zero =>
        cases s with
        | zero =>
          have hij : i < j := by omega
          exact hhead.distinct i j p q p' q' tag tag' hij hp hq hp' hq' htag htag' hlocal hlocal'
        | succ s =>
          have hfirst := hhead.each.rel_of_getElem? hp hp'
          have hlater := RegionRemapped.sparseAt hrest.each hq hq'
          exact (htag ▸ hfirst.2).ne (htag' ▸ hlater.2) hlocal hlocal' le_rfl
      | succ r =>
        obtain ⟨s, rfl⟩ := Nat.exists_eq_succ_of_ne_zero (show s ≠ 0 by omega)
        exact hrest.distinct r i s j p q p' q' tag tag' (by omega) hp hq hp' hq' htag htag'
          hlocal hlocal'

/-! ### The table of tags -/

/-- The next tag is above every staged one, and no more than the count of the
staged sparse paths while those were numbered in turn. -/
theorem nextGlobalInfillTag_spec (hn : n ≤ globalBit)
    (h : ∀ p ∈ sparsePaths regions, ∀ tag, p.orderLock = some tag →
      ¬ IsLocal tag ∧ tag < globalBit + n) :
    nextGlobalInfillTag regions ≤ n ∧ ∀ p ∈ sparsePaths regions, ∀ tag, p.orderLock = some tag →
      tag < globalBit + nextGlobalInfillTag regions := by
  have hlow : ∀ tag, ¬ IsLocal tag → tag < globalBit + n →
      globalBit + (tag &&& (globalBit - 1)) = tag := by
    intro tag hglobal hlt
    have hle := le_of_not_isLocal hglobal
    rw [globalBit, Nat.and_two_pow_sub_one_eq_mod, ← globalBit]
    rw [Nat.mod_eq_sub_mod hle, Nat.mod_eq_of_lt (by omega)]
    omega
  generalize hlows : (((regions.flatMap (·.sparseInfill)).filterMap (·.orderLock)).filter
    (¬ IsLocal ·)).map (· &&& (globalBit - 1)) = lows
  have hmem : ∀ p ∈ sparsePaths regions, ∀ tag, p.orderLock = some tag →
      (tag &&& (globalBit - 1)) ∈ lows := by
    intro p hp tag htag
    rw [← hlows]
    apply List.mem_map_of_mem
    rw [List.mem_filter]
    exact ⟨List.mem_filterMap.mpr ⟨p, hp, htag⟩, by simpa using (h p hp tag htag).1⟩
  have hlt : ∀ low ∈ lows, low < n := by
    intro low hlowmem
    rw [← hlows] at hlowmem
    obtain ⟨tag, htag, rfl⟩ := List.mem_map.mp hlowmem
    obtain ⟨p, hp, hlock⟩ := List.mem_filterMap.mp (List.mem_filter.mp htag).1
    have hbound := h p hp tag hlock
    have := hlow tag hbound.1 hbound.2
    omega
  cases hmax : lows.max? with
  | none =>
    have hnext : nextGlobalInfillTag regions = 0 := by
      simp only [nextGlobalInfillTag, hlows, hmax]
    refine ⟨hnext ▸ Nat.zero_le n, fun p hp tag htag => ?_⟩
    have := hmem p hp tag htag
    rw [List.max?_eq_none_iff.mp hmax] at this
    cases this
  | some max =>
    have hnext : nextGlobalInfillTag regions = max + 1 := by
      simp only [nextGlobalInfillTag, hlows, hmax]
    obtain ⟨hmaxmem, hmaxle⟩ := List.max?_eq_some_iff.mp hmax
    refine ⟨hnext ▸ hlt max hmaxmem, fun p hp tag htag => ?_⟩
    have hbound := h p hp tag htag
    have hle := hmaxle _ (hmem p hp tag htag)
    have := hlow tag hbound.1 hbound.2
    omega

/-- A staged path is the emitted one with the lock of the table. -/
def Stands (commits : List (InfillIR F)) (tagOf : Origin → Option Nat) (o : Origin)
    (path : ExtrusionPath3D F) : Prop :=
  ∃ q, emitted commits o = some q ∧ path = { q with orderLock := tagOf o }

/-- The locks of a commit are apart from each other and from the staged ones: no
two sparse paths in a row share a local tag, the other paths share none with
another region or with what is staged, and there are tags left. -/
structure LocksApart (staged : Option (List (InfillRegion F (ExtrusionPath3D F))))
    (ir : InfillIR F) : Prop where
  sparse : ∀ region ∈ ir.regions, ∀ (i : Nat) (p p' : ExtrusionPath3D F) (tag : Nat),
    region.sparseInfill[i]? = some p → region.sparseInfill[i + 1]? = some p' →
    IsLocal tag → p.orderLock = some tag → p'.orderLock ≠ some tag
  commits : ∀ kind kind', kind ≠ .sparse → kind' ≠ .sparse → ∀ p ∈ pathsOf ir.regions kind,
    ∀ q ∈ pathsOf (staged.getD []) kind', ∀ tag, IsLocal tag →
    p.orderLock = some tag → q.orderLock ≠ some tag
  regions : ∀ region ∈ ir.regions, ∀ region' ∈ ir.regions, region.source ≠ region'.source →
    ∀ kind kind', kind ≠ .sparse → kind' ≠ .sparse → ∀ p ∈ region.paths kind,
    ∀ q ∈ region'.paths kind', ∀ tag, IsLocal tag →
    p.orderLock = some tag → q.orderLock ≠ some tag
  room : (sparsePaths (staged.getD [])).length + (sparsePaths ir.regions).length ≤ globalBit

/-- The tags of the staged paths. -/
structure TagTable [DecidableEq F] (commits : List (InfillIR F))
    (staged : Option (List (InfillRegion F (ExtrusionPath3D F)))) (tagOf : Origin → Option Nat) :
    Prop where
  aligned : Option.Rel (List.Forall₂ (RegionAligned (Stands commits tagOf)))
    (originRegions commits) staged
  room : (sparsePaths (staged.getD [])).length ≤ globalBit
  bounded : ∀ p ∈ sparsePaths (staged.getD []), ∀ tag, p.orderLock = some tag →
    ¬ IsLocal tag ∧ tag < globalBit + (sparsePaths (staged.getD [])).length
  sparse : ∀ o l, lockOf commits o = some l → o.kind = .sparse →
    ∃ p ∈ sparsePaths (staged.getD []), p.orderLock = tagOf o ∧ (tagOf o).isSome
  other : ∀ o l, lockOf commits o = some l → o.kind ≠ .sparse →
    tagOf o = some l.tag ∧ ∃ q ∈ pathsOf (staged.getD []) o.kind, q.orderLock = some l.tag
  apart : ∀ o o' l l', lockOf commits o = some l → lockOf commits o' = some l' → l ≠ l' →
    tagOf o ≠ tagOf o'

/-- A path of a commit. -/
def pathAt (regions : List (InfillRegion F α)) (o : Origin) : Option α :=
  regions[o.region]?.bind fun region => (region.paths o.kind)[o.position]?

theorem regionAt_append_left (ho : o.commit < commits.length) (ir : InfillIR F) :
    regionAt (commits ++ [ir]) o = regionAt commits o := by
  simp [regionAt, List.getElem?_append_left ho]

theorem regionAt_append_right (ho : o.commit = commits.length) (ir : InfillIR F) :
    regionAt (commits ++ [ir]) o = ir.regions[o.region]? := by
  simp [regionAt, ho]

theorem lt_or_eq_of_regionAt {ir : InfillIR F} (h : regionAt (commits ++ [ir]) o = some region) :
    o.commit < commits.length ∨ o.commit = commits.length := by
  obtain ⟨ir', hir', -⟩ := Option.bind_eq_some_iff.mp h
  have := (List.getElem?_eq_some_iff.mp hir').1
  rw [List.length_append, List.length_singleton] at this
  omega

/-- What a lock says of the emitted path. -/
theorem lockOf_eq_some {l : Lock F} (h : lockOf commits o = some l) :
    ∃ region path, regionAt commits o = some region ∧
      (region.paths o.kind)[o.position]? = some path ∧ path.orderLock = some l.tag ∧
      IsLocal l.tag ∧ l = ⟨o.commit, region.source, l.tag⟩ := by
  obtain ⟨region, hregion, h⟩ := Option.bind_eq_some_iff.mp h
  obtain ⟨path, hpath, h⟩ := Option.bind_eq_some_iff.mp h
  obtain ⟨tag, htag, rfl⟩ := Option.map_eq_some_iff.mp h
  obtain ⟨hlock, hlocal⟩ := Option.filter_eq_some_iff.mp htag
  exact ⟨region, path, hregion, hpath, hlock, by simpa using hlocal, rfl⟩

/-- The table after a commit: the tags of the commit are read off its remapped
paths. -/
def extendTags (tagOf : Origin → Option Nat) (n : Nat)
    (regions' : List (InfillRegion F (ExtrusionPath3D F))) (o : Origin) : Option Nat :=
  if o.commit < n then tagOf o else (pathAt regions' o).bind (·.orderLock)

theorem Stands.append {tagOf : Origin → Option Nat} {path : ExtrusionPath3D F}
    (h : Stands commits tagOf o path) (ir : InfillIR F)
    (regions' : List (InfillRegion F (ExtrusionPath3D F))) :
    Stands (commits ++ [ir]) (extendTags tagOf commits.length regions') o path := by
  obtain ⟨q, hq, rfl⟩ := h
  obtain ⟨region, hregion, hpath⟩ := Option.bind_eq_some_iff.mp hq
  obtain ⟨ir', hir', -⟩ := Option.bind_eq_some_iff.mp hregion
  have ho := (List.getElem?_eq_some_iff.mp hir').1
  refine ⟨q, ?_, by rw [extendTags, if_pos ho]⟩
  rw [emitted, regionAt_append_left ho]
  exact hq

theorem RegionRemapped.paths {region' : InfillRegion F (ExtrusionPath3D F)}
    (h : RegionRemapped next next' region region') (kind : FillKind) :
    List.Forall₂ (fun p p' => p' = { p with orderLock := p'.orderLock })
      (region.paths kind) (region'.paths kind) := by
  cases kind with
  | sparse => exact h.2.imp fun p p' hp => hp.1
  | solid => rw [h.1]; exact List.forall₂_same.mpr fun _ _ => rfl
  | ironing => rw [h.1]; exact List.forall₂_same.mpr fun _ _ => rfl
  | internalBridge => rw [h.1]; exact List.forall₂_same.mpr fun _ _ => rfl

theorem RegionRemapped.paths_other {region' : InfillRegion F (ExtrusionPath3D F)}
    (h : RegionRemapped next next' region region') {kind : FillKind} (hkind : kind ≠ .sparse) :
    region'.paths kind = region.paths kind := by
  cases kind with
  | sparse => exact absurd rfl hkind
  | solid => rw [h.1]; rfl
  | ironing => rw [h.1]; rfl
  | internalBridge => rw [h.1]; rfl

theorem nameRegions_aligned {ir : InfillIR F} (h : RemappedRegions ir.regions regions' next next')
    (tagOf : Origin → Option Nat) :
    List.Forall₂ (RegionAligned
        (Stands (commits ++ [ir]) (extendTags tagOf commits.length regions')))
      (nameRegions commits.length ir.regions) regions' := by
  apply List.forall₂_of_getElem?
  · rw [nameRegions, List.length_mapIdx, h.each.length_eq]
  · intro r named region' hnamed hregion'
    rw [nameRegions, List.getElem?_mapIdx] at hnamed
    obtain ⟨region, hregion, rfl⟩ := Option.map_eq_some_iff.mp hnamed
    have hremap := h.each.rel_of_getElem? hregion hregion'
    refine ⟨by rw [hremap.1]; rfl, fun kind => ?_⟩
    have hpaths := hremap.paths kind
    rw [paths_nameRegion]
    apply List.forall₂_of_getElem?
    · rw [List.length_map, List.length_range, hpaths.length_eq]
    · intro i o p' ho hp'
      rw [List.getElem?_map] at ho
      obtain ⟨i', hi', rfl⟩ := Option.map_eq_some_iff.mp ho
      obtain rfl : i' = i := by
        have := List.getElem?_eq_some_iff.mp hi'
        simpa using this.2.symm
      have hi : i' < (region.paths kind).length := by
        rw [hpaths.length_eq]
        exact (List.getElem?_eq_some_iff.mp hp').1
      obtain ⟨p, hp⟩ : ∃ p, (region.paths kind)[i']? = some p :=
        ⟨_, List.getElem?_eq_getElem hi⟩
      refine ⟨p, ?_, ?_⟩
      · rw [emitted, regionAt_append_right rfl, hregion]
        exact hp
      · have htag : extendTags tagOf commits.length regions' ⟨commits.length, r, kind, i'⟩ =
            p'.orderLock := by
          rw [extendTags, if_neg (Nat.lt_irrefl _), pathAt, hregion']
          simp only [Option.bind_some, hp']
        rw [htag]
        exact hpaths.rel_of_getElem? hp hp'

theorem mem_pathsOf_of_pathAt {regions : List (InfillRegion F α)} {a : α}
    (h : pathAt regions o = some a) : a ∈ pathsOf regions o.kind := by
  obtain ⟨region, hregion, ha⟩ := Option.bind_eq_some_iff.mp h
  exact List.mem_flatMap.mpr ⟨region, List.mem_of_getElem? hregion, List.mem_of_getElem? ha⟩

section NewCommit

variable {commits : List (InfillIR F)} {ir : InfillIR F}
  {regions' : List (InfillRegion F (ExtrusionPath3D F))} {next next' : Nat} {o : Origin} {l : Lock F}

theorem lockOf_last (hremap : RemappedRegions ir.regions regions' next next')
    (ho : o.commit = commits.length) (h : lockOf (commits ++ [ir]) o = some l) :
    ∃ region region' p p', ir.regions[o.region]? = some region ∧
      regions'[o.region]? = some region' ∧ RegionRemapped next next' region region' ∧
      (region.paths o.kind)[o.position]? = some p ∧
      (region'.paths o.kind)[o.position]? = some p' ∧ p.orderLock = some l.tag ∧
      IsLocal l.tag ∧ l = ⟨commits.length, region.source, l.tag⟩ := by
  obtain ⟨region, p, hregion, hp, hlock, hlocal, hl⟩ := lockOf_eq_some h
  rw [regionAt_append_right ho] at hregion
  obtain ⟨region', hregion', hrel⟩ := hremap.each.getElem?_some hregion
  obtain ⟨p', hp', -⟩ := (hrel.paths o.kind).getElem?_some hp
  exact ⟨region, region', p, p', hregion, hregion', hrel, hp, hp', hlock, hlocal, ho ▸ hl⟩

theorem lockOf_last_sparse (hremap : RemappedRegions ir.regions regions' next next')
    (ho : o.commit = commits.length) (h : lockOf (commits ++ [ir]) o = some l)
    (hkind : o.kind = .sparse) (tagOf : Origin → Option Nat) :
    ∃ p p' g, sparseAt ir.regions o.region o.position = some p ∧
      sparseAt regions' o.region o.position = some p' ∧ p.orderLock = some l.tag ∧
      IsLocal l.tag ∧ next ≤ g ∧ g < next' ∧ p'.orderLock = some (globalBit + g) ∧
      extendTags tagOf commits.length regions' o = p'.orderLock := by
  obtain ⟨region, region', p, p', hregion, hregion', hrel, hp, hp', hlock, hlocal, -⟩ :=
    lockOf_last hremap ho h
  have htag : extendTags tagOf commits.length regions' o = p'.orderLock := by
    rw [extendTags, if_neg (by omega), pathAt, hregion']
    simp only [Option.bind_some, hp']
  rw [hkind] at hp hp'
  have hmap := hrel.2.rel_of_getElem? hp hp'
  have hp₀ : sparseAt ir.regions o.region o.position = some p := by
    rw [sparseAt, hregion]
    exact hp
  have hp₁ : sparseAt regions' o.region o.position = some p' := by
    rw [sparseAt, hregion']
    exact hp'
  have hto := hmap.2
  rw [hlock] at hto
  cases hlock' : p'.orderLock with
  | none =>
    rw [hlock'] at hto
    cases hto
  | some tag' =>
    rw [hlock'] at hto
    cases hto with
    | fresh _ hlo hhi => exact ⟨p, p', _, hp₀, hp₁, hlock, hlocal, hlo, hhi, hlock', htag⟩
    | known hglobal _ => exact absurd hlocal hglobal

/-- A locked path of another list keeps its tag. -/
theorem lockOf_last_other (hremap : RemappedRegions ir.regions regions' next next')
    (ho : o.commit = commits.length) (h : lockOf (commits ++ [ir]) o = some l)
    (hkind : o.kind ≠ .sparse) (tagOf : Origin → Option Nat) :
    ∃ region ∈ ir.regions, ∃ p ∈ region.paths o.kind, p ∈ pathsOf regions' o.kind ∧
      p.orderLock = some l.tag ∧ IsLocal l.tag ∧ l = ⟨commits.length, region.source, l.tag⟩ ∧
      extendTags tagOf commits.length regions' o = some l.tag := by
  obtain ⟨region, region', p, p', hregion, hregion', hrel, hp, hp', hlock, hlocal, hl⟩ :=
    lockOf_last hremap ho h
  rw [hrel.paths_other hkind, hp] at hp'
  cases hp'
  have hat : pathAt regions' o = some p := by
    rw [pathAt, hregion', Option.bind_some, hrel.paths_other hkind]
    exact hp
  refine ⟨region, List.mem_of_getElem? hregion, p, List.mem_of_getElem? hp,
    mem_pathsOf_of_pathAt hat, hlock, hlocal, hl, ?_⟩
  rw [extendTags, if_neg (by omega), hat]
  exact hlock

end NewCommit

section Step

variable [DecidableEq F] {commits : List (InfillIR F)} {ir : InfillIR F}
  {staged : Option (List (InfillRegion F (ExtrusionPath3D F)))} {tagOf : Origin → Option Nat}
  {regions' : List (InfillRegion F (ExtrusionPath3D F))} {next' : Nat}

variable {o : Origin}

/-- The tags of a path of an earlier commit and one of the last commit differ
when their locks do. -/
theorem TagTable.apart_last (table : TagTable commits staged tagOf) (happart : LocksApart staged ir)
    (hremap : RemappedRegions ir.regions regions' (nextGlobalInfillTag (staged.getD [])) next')
    (hroom : next' ≤ globalBit) {o' : Origin} {l l' : Lock F} (ho' : o'.commit = commits.length)
    (hl : lockOf commits o = some l) (hl' : lockOf (commits ++ [ir]) o' = some l') :
    tagOf o ≠ extendTags tagOf commits.length regions' o' := by
  have hbelow := (nextGlobalInfillTag_spec table.room table.bounded).2
  by_cases hkind' : o'.kind = .sparse
  · obtain ⟨p, p', g, -, -, -, -, hlo, hhi, hp', htag'⟩ :=
      lockOf_last_sparse hremap ho' hl' hkind' tagOf
    rw [htag', hp']
    by_cases hkind : o.kind = .sparse
    · obtain ⟨q, hq, hlock, -⟩ := table.sparse o l hl hkind
      rw [← hlock]
      intro heq
      have := hbelow q hq _ heq
      omega
    · rw [(table.other o l hl hkind).1]
      intro heq
      have hlocal : IsLocal l.tag := (lockOf_eq_some hl).choose_spec.choose_spec.2.2.2.1
      rw [Option.some.inj heq] at hlocal
      exact not_isLocal_globalBit_add (by omega) hlocal
  · obtain ⟨region, hregion, p, hp, -, hlock', hlocal', -, htag'⟩ :=
      lockOf_last_other hremap ho' hl' hkind' tagOf
    rw [htag']
    by_cases hkind : o.kind = .sparse
    · obtain ⟨q, hq, hlock, -⟩ := table.sparse o l hl hkind
      rw [← hlock]
      intro heq
      exact (table.bounded q hq _ heq).1 hlocal'
    · obtain ⟨htag, q, hq, hlock⟩ := table.other o l hl hkind
      rw [htag]
      intro heq
      rw [Option.some.inj heq] at hlock
      exact happart.commits o'.kind o.kind hkind' hkind p (List.mem_flatMap.mpr ⟨region, hregion, hp⟩)
        q hq l'.tag hlocal' hlock' hlock

omit [DecidableEq F] in
theorem apart_of_last (happart : LocksApart staged ir) {next : Nat}
    (hremap : RemappedRegions ir.regions regions' next next') (hroom : next' ≤ globalBit)
    {o' : Origin} {l l' : Lock F} (ho : o.commit = commits.length)
    (ho' : o'.commit = commits.length) (hl : lockOf (commits ++ [ir]) o = some l)
    (hl' : lockOf (commits ++ [ir]) o' = some l') (hne : l ≠ l') :
    extendTags tagOf commits.length regions' o ≠ extendTags tagOf commits.length regions' o' := by
  by_cases hkind : o.kind = .sparse
  · obtain ⟨p, q, g, hp, hq, hlock, hlocal, hlo, hhi, hg, htag⟩ :=
      lockOf_last_sparse hremap ho hl hkind tagOf
    by_cases hkind' : o'.kind = .sparse
    · obtain ⟨p', q', -, hp', hq', hlock', hlocal', -, -, -, htag'⟩ :=
        lockOf_last_sparse hremap ho' hl' hkind' tagOf
      rw [htag, htag']
      have hpos : ¬ (o.region = o'.region ∧ o.position = o'.position) := by
        rintro ⟨hregion, hposition⟩
        have : o = o' := by
          cases o
          cases o'
          simp_all
        subst this
        exact hne (Option.some.inj (hl.symm.trans hl'))
      rcases Nat.lt_trichotomy o.region o'.region with hlt | heq | hgt
      · exact hremap.distinct _ _ _ _ p p' q q' _ _ (.inl hlt) hp hp' hq hq' hlock hlock' hlocal hlocal'
      · rcases Nat.lt_trichotomy o.position o'.position with hlt | heq' | hgt
        · exact hremap.distinct _ _ _ _ p p' q q' _ _ (.inr ⟨heq, hlt⟩) hp hp' hq hq' hlock hlock'
            hlocal hlocal'
        · exact absurd ⟨heq, heq'⟩ hpos
        · exact (hremap.distinct _ _ _ _ p' p q' q _ _ (.inr ⟨heq.symm, hgt⟩) hp' hp hq' hq hlock' hlock
            hlocal' hlocal).symm
      · exact (hremap.distinct _ _ _ _ p' p q' q _ _ (.inl hgt) hp' hp hq' hq hlock' hlock hlocal'
          hlocal).symm
    · obtain ⟨-, -, -, -, -, -, hlocal', -, htag'⟩ :=
        lockOf_last_other hremap ho' hl' hkind' tagOf
      rw [htag, htag', hg]
      intro heq
      rw [← Option.some.inj heq] at hlocal'
      exact not_isLocal_globalBit_add (by omega) hlocal'
  · obtain ⟨region, hregion, p, hp, -, hlock, hlocal, hleq, htag⟩ :=
      lockOf_last_other hremap ho hl hkind tagOf
    rw [htag]
    by_cases hkind' : o'.kind = .sparse
    · obtain ⟨-, q', g, -, -, -, -, -, hhi, hg, htag'⟩ :=
        lockOf_last_sparse hremap ho' hl' hkind' tagOf
      rw [htag', hg]
      intro heq
      rw [Option.some.inj heq] at hlocal
      exact not_isLocal_globalBit_add (by omega) hlocal
    · obtain ⟨region', hregion', p', hp', -, hlock', -, hleq', htag'⟩ :=
        lockOf_last_other hremap ho' hl' hkind' tagOf
      rw [htag']
      intro heq
      have hsame := Option.some.inj heq
      have hsource : region.source ≠ region'.source := by
        intro hsource
        apply hne
        rw [hleq, hleq', hsource, hsame]
      exact happart.regions region hregion region' hregion' hsource _ _ hkind hkind' p hp p' hp'
        l.tag hlocal hlock (hsame ▸ hlock')

omit [DecidableEq F] in
theorem lockOf_append_left (ho : o.commit < commits.length) :
    lockOf (commits ++ [ir]) o = lockOf commits o := by
  rw [lockOf, lockOf, regionAt_append_left ho]

theorem TagTable.step (table : TagTable commits staged tagOf) (happart : LocksApart staged ir)
    (h : remapInfillOrderLocksFrom ir.regions (nextGlobalInfillTag (staged.getD [])) =
      .ok regions') :
    TagTable (commits ++ [ir]) (some (stageRegions staged regions'))
      (extendTags tagOf commits.length regions') := by
  have hroom := happart.room
  obtain ⟨hnext, -⟩ := nextGlobalInfillTag_spec table.room table.bounded
  obtain ⟨next', hremap⟩ := remapInfillOrderLocksFrom_spec h (by omega)
  have hnext' := hremap.room
  have hperm : ∀ kind, (pathsOf (stageRegions staged regions') kind).Perm
      (pathsOf (staged.getD []) kind ++ pathsOf regions' kind) :=
    pathsOf_stageRegions staged regions'
  have hlength : (sparsePaths regions').length = (sparsePaths ir.regions).length := by
    have hrel := List.rel_flatMap hremap.each (fun ⦃_ _⦄ hregion => hregion.2)
    exact hrel.length_eq.symm
  have hcount : (sparsePaths (stageRegions staged regions')).length =
      (sparsePaths (staged.getD [])).length + (sparsePaths ir.regions).length := by
    rw [← hlength]
    exact (hperm .sparse).length_eq.trans List.length_append
  have hsplit : ∀ {o l}, lockOf (commits ++ [ir]) o = some l →
      o.commit < commits.length ∧ lockOf commits o = some l ∨ o.commit = commits.length := by
    intro o l hl
    obtain ⟨region, -, hregion, -⟩ := lockOf_eq_some hl
    rcases lt_or_eq_of_regionAt hregion with ho | ho
    · exact .inl ⟨ho, by rwa [lockOf_append_left ho] at hl⟩
    · exact .inr ho
  have hold : ∀ {o : Origin}, o.commit < commits.length →
      extendTags tagOf commits.length regions' o = tagOf o := fun ho => if_pos ho
  refine ⟨?aligned, ?room, ?bounded, ?sparse, ?other, ?apart⟩
  case aligned =>
    rw [originRegions_append]
    refine .some (stageRegions_aligned ?_ (nameRegions_aligned hremap tagOf))
    have haligned := table.aligned
    generalize originRegions commits = origins at haligned ⊢
    cases haligned with
    | none => exact .none
    | some haligned =>
      exact .some (haligned.imp fun a b hab =>
        ⟨hab.1, fun kind => (hab.2 kind).imp fun o p ho => ho.append ir regions'⟩)
  case room =>
    rw [Option.getD_some, hcount]
    exact hroom
  case bounded =>
    rw [Option.getD_some, hcount]
    intro p hp tag htag
    rcases List.mem_append.mp ((hperm .sparse).mem_iff.mp hp) with hp | hp
    · obtain ⟨hglobal, hlt⟩ := table.bounded p hp tag htag
      exact ⟨hglobal, by omega⟩
    · -- a path of the commit: its tag is new, or it named a staged one
      obtain ⟨region', hregion', hp⟩ := List.mem_flatMap.mp hp
      obtain ⟨r, hr⟩ := List.mem_iff_getElem?.mp hregion'
      obtain ⟨i, hi⟩ := List.mem_iff_getElem?.mp hp
      obtain ⟨region, hregion, hrel⟩ := (hremap.each.flip).getElem?_some hr
      obtain ⟨q, hq, hqp⟩ := (hrel.2.flip).getElem?_some hi
      have hto := hqp.2
      rw [htag] at hto
      generalize q.orderLock = lock at hto
      cases hto with
      | fresh _ hlo hhi => exact ⟨not_isLocal_globalBit_add (by omega), by omega⟩
      | known hglobal hhi => exact ⟨hglobal, by omega⟩
  case sparse =>
    intro o l hl hkind
    rcases hsplit hl with ⟨ho, hl⟩ | ho
    · obtain ⟨p, hp, hlock, hsome⟩ := table.sparse o l hl hkind
      rw [hold ho]
      exact ⟨p, (hperm .sparse).mem_iff.mpr (List.mem_append_left _ hp), hlock, hsome⟩
    · obtain ⟨-, p', g, -, hp', -, -, -, -, hg, htag⟩ :=
        lockOf_last_sparse hremap ho hl hkind tagOf
      refine ⟨p', (hperm .sparse).mem_iff.mpr (List.mem_append_right _ ?_), htag.symm, ?_⟩
      · obtain ⟨region', hregion', hp'⟩ := Option.bind_eq_some_iff.mp hp'
        exact List.mem_flatMap.mpr
          ⟨region', List.mem_of_getElem? hregion', List.mem_of_getElem? hp'⟩
      · rw [htag, hg]
        rfl
  case other =>
    intro o l hl hkind
    rcases hsplit hl with ⟨ho, hl⟩ | ho
    · obtain ⟨htag, q, hq, hlock⟩ := table.other o l hl hkind
      rw [hold ho]
      exact ⟨htag, q, (hperm o.kind).mem_iff.mpr (List.mem_append_left _ hq), hlock⟩
    · obtain ⟨-, -, p, -, hp, hlock, -, -, htag⟩ := lockOf_last_other hremap ho hl hkind tagOf
      exact ⟨htag, p, (hperm o.kind).mem_iff.mpr (List.mem_append_right _ hp), hlock⟩
  case apart =>
    intro o o' l l' hl hl' hne
    rcases hsplit hl with ⟨ho, hlo⟩ | ho
    · rcases hsplit hl' with ⟨ho', hlo'⟩ | ho'
      · rw [hold ho, hold ho']
        exact table.apart o o' l l' hlo hlo' hne
      · rw [hold ho]
        exact table.apart_last happart hremap (by omega) ho' hlo hl'
    · rcases hsplit hl' with ⟨ho', hlo'⟩ | ho'
      · rw [hold ho']
        exact (table.apart_last happart hremap (by omega) ho hlo' hl).symm
      · exact apart_of_last happart hremap (by omega) ho ho' hl hl' hne

end Step

end PinchNPrint.Layer
