/-
Aggregation and the order in which the plans arrive.

The entries are sorted before they are merged, and a merged entry takes its anchor layer and its
skeleton from the first of its group. The sort compares neither, nor the anchor's height, so that
among entries that tie the first is the one whose plan arrived first.

`aggregate_reordered`: where no such tie at the head of a group differs, the order of the plans
does not matter.
-/

import PinchNPrint.Support.Groups

namespace PinchNPrint.Support

open Carving
open Region (ExPolygon)

variable {F P : Type}

/-- The polygons of some roles, each with its role. -/
def rolePolygons (roles : List SupportPlanRoleRegion) : List (SupportPlanRole × ExPolygon) :=
  roles.flatMap fun role => role.regions.map (role.role, ·)

/-- The points that an entry prints in a role. -/
def rolePoints (points : ExPolygon → Set P) (entry : SupportPlanEntry F) (role : SupportPlanRole) :
    Set P :=
  {x | ∃ polygon, (role, polygon) ∈ rolePolygons entry.roles ∧ x ∈ points polygon}

/-- The same plans with their producers in another order. -/
structure Reordered (input input' : SupportAggregationInput F) : Prop where
  plans : (input.plans.zip input.producers).Perm (input'.plans.zip input'.producers)
  producers : input.plans.length = input.producers.length
  producers' : input'.plans.length = input'.producers.length
  exactZ : input.exactZ = input'.exactZ
  territory : input.territory = input'.territory

/-- Two entries agree in all but their roles, and print the same in every role. The polygons
are the same where nothing is clipped. -/
structure SameEntry (points : ExPolygon → Set P) (input : SupportAggregationInput F)
    (a b : SupportPlanEntry F) : Prop where
  fields : { a with roles := [] } = { b with roles := [] }
  polygons : entryHasTerritory input a = false → (rolePolygons a.roles).Perm (rolePolygons b.roles)
  area : ∀ role, rolePoints points a role = rolePoints points b role

/-- A violation, with the plan and the producer it is about instead of their index. -/
def attributed (input : SupportAggregationInput F) (violation : OwnershipViolation) :
    OwnershipViolation × Option (SupportPlanIR F × SupportPlanProducer) :=
  ({ violation with planIndex := 0 }, (input.plans.zip input.producers)[violation.planIndex]?)

/-- Two results agree but for the order of what they list. -/
structure SameOutcome (points : ExPolygon → Set P) (input input' : SupportAggregationInput F)
    (result result' : SupportAggregationResult F) : Prop where
  retained : ∃ l, result'.retained.Perm l ∧
    List.Forall₂ (SameEntry points input) result.retained l
  unmet : result.unmet.Perm result'.unmet
  violations : (result.ownershipViolations.map (attributed input)).Perm
    (result'.ownershipViolations.map (attributed input'))
  degraded : result.degraded = result'.degraded
  raftPlan : result.raftPlan = result'.raftPlan

/-- Aggregation gives the same for two inputs, and fails for one if it fails for the other. -/
def SameAggregate [Field F] [LinearOrder F] (points : ExPolygon → Set P) (ops : SupportOps F)
    (input input' : SupportAggregationInput F) : Prop :=
  (∃ result result',
    tryAggregateSupportPlansWithPolicy ops input .Degrade = .ok result ∧
    tryAggregateSupportPlansWithPolicy ops input' .Degrade = .ok result' ∧
    SameOutcome points input input' result result') ∧
  ((∃ result, tryAggregateSupportPlansWithPolicy ops input .Fail = .ok result) ↔
    ∃ result, tryAggregateSupportPlansWithPolicy ops input' .Fail = .ok result)

/-- The admitted entries of a group that come first in the sort, where several tie, agree on what
the first of a group decides. -/
def TiesAgree [Field F] [LinearOrder F] (ops : SupportOps F) (input : SupportAggregationInput F) :
    Prop :=
  ∀ a ∈ admitted ops input, ∀ b ∈ admitted ops input, a.mergeKey = b.mergeKey →
    a.sortKey = b.sortKey → (∀ c ∈ admitted ops input, c.mergeKey = a.mergeKey →
      a.sortKey ≤ c.sortKey) →
    a.anchorLayerIndex = b.anchorLayerIndex ∧ a.skeleton = b.skeleton

/-! ### Entries and their plans -/

/-- An entry with the plan and the producer it comes from. -/
def authored (input : SupportAggregationInput F) (tagged : Nat × SupportPlanEntry F) :
    Option (SupportPlanIR F × SupportPlanProducer) × SupportPlanEntry F :=
  ((input.plans.zip input.producers)[tagged.1]?, tagged.2)

theorem map_authored_entries {input : SupportAggregationInput F}
    (h : input.plans.length = input.producers.length) :
    input.entries.map (authored input) =
      (input.plans.zip input.producers).flatMap fun pair => pair.1.entries.map (some pair, ·) := by
  set pairs := input.plans.zip input.producers with hpairs
  have hplans : input.plans = pairs.map Prod.fst := (List.map_fst_zip h.le).symm
  have hentries : input.entries.map (authored input) =
      pairs.zipIdx.flatMap fun pair => pair.1.1.entries.map (pairs[pair.2]?, ·) := by
    rw [SupportAggregationInput.entries, hplans, List.zipIdx_map, List.map_flatMap,
      List.flatMap_map]
    simp [authored, Function.comp_def, ← hpairs]
  have hindexed : ∀ pair ∈ pairs.zipIdx, pair.1.1.entries.map (pairs[pair.2]?, ·) =
      pair.1.1.entries.map (some pair.1, ·) := by
    intro pair hpair
    rw [List.mem_zipIdx_iff_getElem?.mp hpair]
  calc input.entries.map (authored input)
    _ = pairs.zipIdx.flatMap fun pair => pair.1.1.entries.map (some pair.1, ·) := by
      rw [hentries]
      exact List.flatMap_congr hindexed
    _ = (pairs.zipIdx.map Prod.fst).flatMap fun pair => pair.1.entries.map (some pair, ·) := by
      rw [List.flatMap_map]
    _ = pairs.flatMap fun pair => pair.1.entries.map (some pair, ·) := by
      rw [List.zipIdx_map_fst]

namespace Reordered

variable {input input' : SupportAggregationInput F}

theorem symm (h : Reordered input input') : Reordered input' input where
  plans := h.plans.symm
  producers := h.producers'
  producers' := h.producers
  exactZ := h.exactZ.symm
  territory := h.territory.symm

theorem map_entries (h : Reordered input input') :
    (input.entries.map (authored input)).Perm (input'.entries.map (authored input')) := by
  rw [map_authored_entries h.producers, map_authored_entries h.producers']
  exact h.plans.flatMap_right _

section Entry

variable [LinearOrder F] {tagged tagged' : Nat × SupportPlanEntry F}

/-- What depends on an entry, its plan and its producer is the same for all entries. -/
theorem map_sortedEntries {γ : Type} {g g' : Nat × SupportPlanEntry F → γ}
    (h : Reordered input input')
    (hg : ∀ tagged tagged', authored input tagged = authored input' tagged' →
      g tagged = g' tagged') :
    (input.sortedEntries.map g).Perm (input'.sortedEntries.map g') := by
  have hsorted : input.sortedEntries.Perm input.entries := List.perm_insertionSort _ _
  have hsorted' : input'.sortedEntries.Perm input'.entries := List.perm_insertionSort _ _
  refine List.perm_map_of_perm_map ?_ hg
  exact ((hsorted.map _).trans h.map_entries).trans (hsorted'.map _).symm

theorem refusal (h : Reordered input input')
    (hsame : authored input tagged = authored input' tagged') :
    (refusal input tagged).map (attributed input) =
      (Support.refusal input' tagged').map (attributed input') := by
  obtain ⟨planIndex, entry⟩ := tagged
  obtain ⟨planIndex', entry'⟩ := tagged'
  obtain ⟨hpair, hentry⟩ := Prod.mk.inj hsame
  have hplan : (input.plans.zip input.producers)[planIndex]? =
      (input'.plans.zip input'.producers)[planIndex']? := hpair
  obtain rfl : entry = entry' := hentry
  have hproducer : input.producers[planIndex]? = input'.producers[planIndex']? := by
    rw [← List.map_snd_zip h.producers.ge, ← List.map_snd_zip h.producers'.ge, List.getElem?_map,
      List.getElem?_map, hplan]
  simp only [Support.refusal, checkOwnership, hproducer, h.territory]
  cases input'.territory.bind fun analysis => analysis.familyOf entry.source with
  | none => simp [attributed, hplan]
  | some owner =>
    by_cases howner : owner = entry.familyId
    · by_cases hclaim : ∃ producer ∈ input'.producers[planIndex']?,
          "support-family:" ++ entry.familyId ∈ producer.claims
      · simp only [howner, hclaim, ne_eq, not_true_eq_false, if_false, if_true]
        rfl
      · simp only [howner, hclaim, ne_eq, not_true_eq_false, if_false]
        simp [attributed, hplan]
    · simp [howner, attributed, hplan]

theorem refusal_eq_none_iff (h : Reordered input input')
    (hsame : authored input tagged = authored input' tagged') :
    Support.refusal input tagged = none ↔ Support.refusal input' tagged' = none := by
  rw [← Option.map_eq_none_iff (f := attributed input), h.refusal hsame, Option.map_eq_none_iff]

end Entry

section Aggregate

variable [Field F] [LinearOrder F] {ops : SupportOps F} {tagged tagged' : Nat × SupportPlanEntry F}

theorem rejection (h : Reordered input input')
    (hsame : authored input tagged = authored input' tagged') :
    rejection ops input tagged = Support.rejection ops input' tagged' := by
  have hentry : tagged.2 = tagged'.2 := (Prod.mk.inj hsame).2
  simp only [Support.rejection, h.refusal_eq_none_iff hsame, hentry, h.exactZ]

theorem admits_iff (h : Reordered input input')
    (hsame : authored input tagged = authored input' tagged') :
    Admits ops input tagged ↔ Admits ops input' tagged' := by
  have hentry : tagged.2 = tagged'.2 := (Prod.mk.inj hsame).2
  rw [Admits, Admits, h.refusal_eq_none_iff hsame, hentry, h.exactZ]

/-- The same entries are admitted. -/
theorem admitted (h : Reordered input input') :
    (admitted ops input).Perm (Support.admitted ops input') := by
  have hflat : ∀ input : SupportAggregationInput F, Support.admitted ops input =
      (input.sortedEntries.map fun tagged =>
        if Admits ops input tagged then [tagged.2] else []).flatten := by
    intro input
    rw [Support.admitted, List.map_eq_flatMap, List.flatMap_filter, ← List.flatMap_def]
    simp
  rw [hflat, hflat]
  refine (h.map_sortedEntries fun tagged tagged' hsame => ?_).flatten
  have hentry : tagged.2 = tagged'.2 := (Prod.mk.inj hsame).2
  simp only [h.admits_iff hsame, hentry]

theorem symm_ties (h : Reordered input input') (hties : TiesAgree ops input) :
    TiesAgree ops input' := fun a ha b hb hkey htie hfirst =>
  hties a (h.admitted.mem_iff.mpr ha) b (h.admitted.mem_iff.mpr hb) hkey htie fun c hc =>
    hfirst c (h.admitted.mem_iff.mp hc)

omit [Field F] [LinearOrder F] in
theorem entryHasTerritory (h : Reordered input input') (entry : SupportPlanEntry F) :
    entryHasTerritory input entry = Support.entryHasTerritory input' entry := by
  rw [Support.entryHasTerritory, Support.entryHasTerritory, h.territory]

end Aggregate

end Reordered

/-! ### Merged entries -/

section Merged

variable {merged merged' entry a b : SupportPlanEntry F} {group group' : List (SupportPlanEntry F)}

theorem rolePolygons_mergeInto (roles : List SupportPlanRoleRegion)
    (incoming : SupportPlanRoleRegion) :
    (rolePolygons (List.mergeInto SupportPlanRoleRegion.role mergeRole roles incoming)).Perm
      (rolePolygons roles ++ incoming.regions.map (incoming.role, ·)) := by
  induction roles with
  | nil => simp [List.mergeInto, rolePolygons]
  | cons first rest ih =>
    rw [List.mergeInto]
    split
    · rename_i hrole
      simp only [rolePolygons, List.flatMap_cons, mergeRole, List.map_append, hrole,
        List.append_assoc]
      exact List.perm_append_comm.append_left _
    · simp only [rolePolygons, List.flatMap_cons, List.append_assoc] at ih ⊢
      exact ih.append_left _

theorem rolePolygons_foldl (incoming roles : List SupportPlanRoleRegion) :
    (rolePolygons (incoming.foldl (List.mergeInto SupportPlanRoleRegion.role mergeRole)
      roles)).Perm (rolePolygons roles ++ rolePolygons incoming) := by
  induction incoming generalizing roles with
  | nil => simp [rolePolygons]
  | cons first rest ih =>
    refine (ih _).trans ?_
    simp only [rolePolygons, List.flatMap_cons, ← List.append_assoc]
    exact (rolePolygons_mergeInto roles first).append_right _

theorem rolePolygons_merged (h : List.mergeGroup mergeEntry group = some merged) :
    (rolePolygons merged.roles).Perm (group.flatMap fun entry => rolePolygons entry.roles) := by
  refine List.mergeGroup_induction
    (P := fun group (merged : SupportPlanEntry F) => (rolePolygons merged.roles).Perm
      (group.flatMap fun entry => rolePolygons entry.roles))
    (fun a => by simp) (fun group m a ih => ?_) h
  rw [List.flatMap_append, List.flatMap_singleton]
  exact (rolePolygons_foldl a.roles m.roles).trans (ih.append_right _)

/-- What merging keeps is that of the first entry. -/
theorem kept_merged {γ : Type} {f : SupportPlanEntry F → γ} (hf : ∀ a b, f (mergeEntry a b) = f a)
    (h : List.mergeGroup mergeEntry (entry :: group) = some merged) : f merged = f entry := by
  induction group generalizing entry with
  | nil =>
    cases h
    rfl
  | cons next rest ih => exact (ih h).trans (hf entry next)

/-- What is listed does not depend on the order of the group. -/
theorem list_merged_congr {f : SupportPlanEntry F → List String}
    (hf : ∀ a b, f (mergeEntry a b) = dedupSorted (f a ++ f b))
    (h : List.mergeGroup mergeEntry group = some merged)
    (h' : List.mergeGroup mergeEntry group' = some merged') (hperm : group.Perm group') :
    f merged = f merged' := by
  by_cases hlength : 2 ≤ group.length
  · rw [(list_merged hf h).2 hlength, (list_merged hf h').2 (hperm.length_eq ▸ hlength)]
    exact dedupSorted_congr fun value => (hperm.flatMap_right f).mem_iff
  · cases group with
    | nil => cases h
    | cons entry rest =>
      have hrest : rest = [] := by simpa using hlength
      subst hrest
      rw [List.singleton_perm.mp hperm] at h
      rw [h] at h'
      cases h'
      rfl

theorem fields_eq (hkey : a.mergeKey = b.mergeKey)
    (hhead : (a.anchorLayerIndex, a.skeleton, a.declineReason) =
      (b.anchorLayerIndex, b.skeleton, b.declineReason))
    (hdemands : a.demandIds = b.demandIds) (hbodies : a.bodyIds = b.bodyIds)
    (hcapabilities : a.capabilities = b.capabilities) (hprovenance : a.provenance = b.provenance) :
    { a with roles := [] } = { b with roles := [] } := by
  cases a
  cases b
  simp only [SupportPlanEntry.mergeKey, MergeKey.mk.injEq, Prod.mk.injEq] at *
  simp [*]

end Merged

/-! ### The same groups -/

section Groups

variable [Field F] [LinearOrder F] {points : ExPolygon → Set P} {ops : SupportOps F}
  {input input' : SupportAggregationInput F} {merged merged' a b : SupportPlanEntry F}

theorem pairwise_admitted :
    (admitted ops input).Pairwise fun left right => left.sortKey ≤ right.sortKey := by
  have htotal : Std.Total fun left right : Nat × SupportPlanEntry F =>
      left.2.sortKey ≤ right.2.sortKey := ⟨fun left right => le_total _ _⟩
  have htrans : IsTrans (Nat × SupportPlanEntry F) fun left right =>
      left.2.sortKey ≤ right.2.sortKey := ⟨fun _ _ _ => le_trans⟩
  rw [admitted, List.pairwise_map]
  exact (List.pairwise_insertionSort _ _).filter _

omit [Field F] in
theorem sortKey_head_le {first other : SupportPlanEntry F} {l : List (SupportPlanEntry F)}
    (hsorted : (first :: l).Pairwise fun left right => left.sortKey ≤ right.sortKey)
    (hother : other ∈ first :: l) : first.sortKey ≤ other.sortKey := by
  rcases List.mem_cons.mp hother with rfl | hother
  · exact le_rfl
  · exact List.rel_of_pairwise_cons hsorted hother

omit [Field F] in
/-- The first entries of a group and of the same group in another order tie. -/
theorem sortKey_head_eq {entry entry' : SupportPlanEntry F} {rest rest' : List (SupportPlanEntry F)}
    (hperm : (entry :: rest).Perm (entry' :: rest'))
    (hsorted : (entry :: rest).Pairwise fun left right => left.sortKey ≤ right.sortKey)
    (hsorted' : (entry' :: rest').Pairwise fun left right => left.sortKey ≤ right.sortKey) :
    entry.sortKey = entry'.sortKey :=
  le_antisymm (sortKey_head_le hsorted (hperm.mem_iff.mpr List.mem_cons_self))
    (sortKey_head_le hsorted' (hperm.mem_iff.mp List.mem_cons_self))

theorem Reordered.filter_mergeKey (h : Reordered input input') (key : MergeKey F) :
    ((Support.admitted ops input).filter (·.mergeKey = key)).Perm
      ((Support.admitted ops input').filter (·.mergeKey = key)) :=
  h.admitted.filter _

/-- What the first of a group decides is the same in both orders. -/
theorem Reordered.head_merged (h : Reordered input input') (hties : TiesAgree ops input)
    (hmerged : merged ∈ unionSameFamilyEntries (Support.admitted ops input))
    (hmerged' : merged' ∈ unionSameFamilyEntries (Support.admitted ops input'))
    (hkey : merged.mergeKey = merged'.mergeKey) :
    (merged.anchorLayerIndex, merged.skeleton, merged.declineReason) =
      (merged'.anchorLayerIndex, merged'.skeleton, merged'.declineReason) := by
  have hgroup := mem_unionSameFamilyEntries.mp hmerged
  have hgroup' := mem_unionSameFamilyEntries.mp hmerged'
  have hperm : ((Support.admitted ops input).filter (·.mergeKey = merged.mergeKey)).Perm
      ((Support.admitted ops input').filter (·.mergeKey = merged.mergeKey)) :=
    h.filter_mergeKey merged.mergeKey
  have hpairwise : ∀ input : SupportAggregationInput F,
      ((Support.admitted ops input).filter (·.mergeKey = merged.mergeKey)).Pairwise
        fun left right => left.sortKey ≤ right.sortKey := fun _ => pairwise_admitted.filter _
  have hsorted := hpairwise input
  have hsorted' := hpairwise input'
  rw [← hkey] at hgroup'
  cases hl : (Support.admitted ops input).filter (·.mergeKey = merged.mergeKey) with
  | nil => simp [hl, List.mergeGroup] at hgroup
  | cons entry rest =>
    cases hl' : (Support.admitted ops input').filter (·.mergeKey = merged.mergeKey) with
    | nil => simp [hl', List.mergeGroup] at hgroup'
    | cons entry' rest' =>
      obtain ⟨hentry, hentryKey⟩ := List.mem_filter.mp (hl ▸ List.mem_cons_self (l := rest))
      obtain ⟨hentry', hentryKey'⟩ := List.mem_filter.mp (hl' ▸ List.mem_cons_self (l := rest'))
      have hkeys : entry.mergeKey = entry'.mergeKey :=
        (of_decide_eq_true hentryKey).trans (of_decide_eq_true hentryKey').symm
      have hfirst : ∀ c ∈ Support.admitted ops input, c.mergeKey = entry.mergeKey →
          entry.sortKey ≤ c.sortKey := by
        intro c hc hcKey
        rw [hl] at hsorted
        refine sortKey_head_le hsorted (hl ▸ List.mem_filter.mpr ⟨hc, ?_⟩)
        rw [hcKey]
        exact hentryKey
      rw [hl] at hgroup hperm hsorted
      rw [hl'] at hgroup' hperm hsorted'
      obtain ⟨hlayer, hskeleton⟩ := hties entry hentry entry' (h.admitted.mem_iff.mpr hentry')
        hkeys (sortKey_head_eq hperm hsorted hsorted') hfirst
      have hdecline : entry.declineReason = entry'.declineReason := by
        obtain ⟨_, _, _, hnone, _⟩ := mem_admitted.mp hentry
        obtain ⟨_, _, _, hnone', _⟩ := mem_admitted.mp hentry'
        exact hnone.trans hnone'.symm
      have hkept : ∀ {first m : SupportPlanEntry F} {rest : List (SupportPlanEntry F)},
          List.mergeGroup mergeEntry (first :: rest) = some m →
          (m.anchorLayerIndex, m.skeleton, m.declineReason) =
            (first.anchorLayerIndex, first.skeleton, first.declineReason) := fun hm =>
        kept_merged (f := fun entry => (entry.anchorLayerIndex, entry.skeleton,
          entry.declineReason)) (fun _ _ => rfl) hm
      rw [hkept hgroup, hkept hgroup', hlayer, hskeleton, hdecline]

/-- A group merges to the same entry in both orders. -/
theorem Reordered.same_merged (h : Reordered input input') (hties : TiesAgree ops input)
    (hmerged : merged ∈ unionSameFamilyEntries (Support.admitted ops input))
    (hmerged' : merged' ∈ unionSameFamilyEntries (Support.admitted ops input'))
    (hkey : merged.mergeKey = merged'.mergeKey) :
    { merged with roles := [] } = { merged' with roles := [] } ∧
      (rolePolygons merged.roles).Perm (rolePolygons merged'.roles) := by
  have hgroup := mem_unionSameFamilyEntries.mp hmerged
  have hgroup' := mem_unionSameFamilyEntries.mp hmerged'
  rw [← hkey] at hgroup'
  have hperm : ((Support.admitted ops input).filter (·.mergeKey = merged.mergeKey)).Perm
      ((Support.admitted ops input').filter (·.mergeKey = merged.mergeKey)) :=
    h.filter_mergeKey merged.mergeKey
  have hlists : ∀ f : SupportPlanEntry F → List String,
      (∀ a b, f (mergeEntry a b) = dedupSorted (f a ++ f b)) → f merged = f merged' :=
    fun f hf => list_merged_congr hf hgroup hgroup' hperm
  constructor
  · exact fields_eq hkey (h.head_merged hties hmerged hmerged' hkey) (hlists _ fun _ _ => rfl)
      (hlists _ fun _ _ => rfl) (hlists _ fun _ _ => rfl) (hlists _ fun _ _ => rfl)
  · exact ((rolePolygons_merged hgroup).trans (hperm.flatMap_right _)).trans
      (rolePolygons_merged hgroup').symm

/-! ### Clipping the same groups -/

section

omit [Field F] [LinearOrder F]

theorem mem_rolePoints {entry : SupportPlanEntry F} {role : SupportPlanRole} {x : P} :
    x ∈ rolePoints points entry role ↔
      ∃ part ∈ entry.roles, part.role = role ∧ x ∈ covered points part.regions := by
  constructor
  · rintro ⟨polygon, hpolygon, hx⟩
    obtain ⟨part, hpart, hmem⟩ := List.mem_flatMap.mp hpolygon
    obtain ⟨_, hregion, heq⟩ := List.mem_map.mp hmem
    cases heq
    exact ⟨part, hpart, rfl, polygon, hregion, hx⟩
  · rintro ⟨part, hpart, rfl, polygon, hregion, hx⟩
    exact ⟨polygon, List.mem_flatMap.mpr ⟨part, hpart, List.mem_map.mpr ⟨polygon, hregion, rfl⟩⟩, hx⟩

theorem rolePoints_congr (h : (rolePolygons a.roles).Perm (rolePolygons b.roles))
    (role : SupportPlanRole) : rolePoints points a role = rolePoints points b role := by
  ext x
  exact exists_congr fun polygon => by rw [h.mem_iff]

end

/-- Clipping cuts the points of every role. -/
theorem rolePoints_clipRoles {analysis : SupportAnalysisIR F} {allowed : Set P}
    (hallowed : ∀ regions, covered points (keptRegions ops analysis a regions) =
      covered points regions ∩ allowed) (role : SupportPlanRole) :
    rolePoints points (clipRoles ops analysis a) role = rolePoints points a role ∩ allowed := by
  ext x
  rw [mem_rolePoints, Set.mem_inter_iff, mem_rolePoints]
  constructor
  · rintro ⟨_, hpart, hrole, hx⟩
    obtain ⟨before, hbefore, _, rfl⟩ := mem_clipRoles.mp hpart
    rw [hallowed] at hx
    exact ⟨⟨before, hbefore, hrole, hx.1⟩, hx.2⟩
  · rintro ⟨⟨before, hbefore, hrole, hx⟩, hmem⟩
    have hkept : x ∈ covered points (keptRegions ops analysis a before.regions) := by
      rw [hallowed]
      exact ⟨hx, hmem⟩
    have hne : keptRegions ops analysis a before.regions ≠ [] := by
      intro hnil
      rw [hnil, covered_nil] at hkept
      exact hkept
    exact ⟨_, mem_clipRoles.mpr ⟨before, hbefore, hne, rfl⟩, hrole, hkept⟩

/-- Clipping leaves nothing of a group in one order if it leaves nothing in the other. -/
theorem Reordered.isEmpty_clipRoles_eq (h : Reordered input input')
    (hops : ExactSupportOps points ops) {analysis : SupportAnalysisIR F}
    (hmerged : merged ∈ unionSameFamilyEntries (Support.admitted ops input))
    (hmerged' : merged' ∈ unionSameFamilyEntries (Support.admitted ops input'))
    (hkey : merged.mergeKey = merged'.mergeKey) :
    (clipRoles ops analysis merged).roles.isEmpty =
      (clipRoles ops analysis merged').roles.isEmpty := by
  have hleft : ∀ {input : SupportAggregationInput F} {m : SupportPlanEntry F},
      m ∈ unionSameFamilyEntries (Support.admitted ops input) → m.mergeKey = merged.mergeKey →
      ((clipRoles ops analysis m).roles.isEmpty = false ↔
        ∃ part ∈ (Support.admitted ops input).filter (·.mergeKey = merged.mergeKey),
          ∃ role ∈ part.roles, keptRegions ops analysis merged role.regions ≠ []) := by
    intro input m hm hmkey
    have hgroup := mem_unionSameFamilyEntries.mp hm
    rw [hmkey] at hgroup
    rw [isEmpty_clipRoles, keptRegions_congr hmkey]
    exact exists_role_merged (hops.additive_keptRegions analysis merged) hgroup
  have hparts : (clipRoles ops analysis merged).roles.isEmpty = false ↔
      (clipRoles ops analysis merged').roles.isEmpty = false := by
    rw [hleft hmerged rfl, hleft hmerged' hkey.symm]
    exact exists_congr fun part => by rw [(h.filter_mergeKey merged.mergeKey).mem_iff]
  rw [Bool.eq_iff_iff, ← not_iff_not, Bool.not_eq_true, Bool.not_eq_true]
  exact hparts

/-- What clipping leaves of a group is the same in both orders. -/
theorem Reordered.exists_clipped (h : Reordered input input') (hops : ExactSupportOps points ops)
    (hties : TiesAgree ops input) (ha : a ∈ clippedGroups ops input) :
    ∃ b ∈ clippedGroups ops input', SameEntry points input a b := by
  obtain ⟨merged, hmerged, hclip⟩ := mem_clippedGroups.mp ha
  obtain ⟨entry, hentry, hentryKey⟩ := exists_part hmerged
  obtain ⟨merged', hmerged', hkey⟩ := exists_merged (h.admitted.mem_iff.mp hentry)
  have hkey : merged.mergeKey = merged'.mergeKey := (hkey.trans hentryKey).symm
  obtain ⟨hfields, hpolygons⟩ := h.same_merged hties hmerged hmerged' hkey
  have hterritory : Support.entryHasTerritory input' merged' =
      Support.entryHasTerritory input merged := by
    rw [h.entryHasTerritory]
    exact entryHasTerritory_congr (congrArg MergeKey.objectId hkey.symm)
      (congrArg MergeKey.globalLayerIndex hkey.symm)
  cases howns : Support.entryHasTerritory input merged with
  | false =>
    rw [clipEntry_of_no_territory howns] at hclip
    cases hclip
    exact ⟨merged', mem_clippedGroups.mpr ⟨merged', hmerged',
      clipEntry_of_no_territory (hterritory.trans howns)⟩,
      { fields := hfields, polygons := fun _ => hpolygons, area := rolePoints_congr hpolygons }⟩
  | true =>
    obtain ⟨analysis, hanalysis, _⟩ := exists_analysis howns
    obtain ⟨allowed, hallowed, _⟩ := hops.keptRegions analysis merged
    have hallowed' : ∀ regions, covered points (keptRegions ops analysis merged' regions) =
        covered points regions ∩ allowed := by
      rw [← keptRegions_congr hkey]
      exact hallowed
    rw [clipEntry_of_territory hanalysis howns] at hclip
    split at hclip
    · cases hclip
    · rename_i hempty
      cases hclip
      refine ⟨clipRoles ops analysis merged', mem_clippedGroups.mpr ⟨merged', hmerged', ?_⟩,
        { fields := hfields
          polygons := fun hnone => absurd (hnone.symm.trans howns) Bool.false_ne_true
          area := fun role => ?_ }⟩
      · rw [clipEntry_of_territory (h.territory ▸ hanalysis) (hterritory.trans howns), if_neg]
        rw [← h.isEmpty_clipRoles_eq hops hmerged hmerged' hkey]
        exact hempty
      · rw [rolePoints_clipRoles hallowed, rolePoints_clipRoles hallowed',
          rolePoints_congr hpolygons]

section

omit [Field F] [LinearOrder F]

/-- The same entries agree on all that does not depend on their roles. -/
theorem SameEntry.congr {γ : Type} (h : SameEntry points input a b) (f : SupportPlanEntry F → γ)
    (hf : ∀ entry, f { entry with roles := [] } = f entry) : f a = f b := by
  rw [← hf a, ← hf b, h.fields]

theorem SameEntry.mergeKey (h : SameEntry points input a b) : a.mergeKey = b.mergeKey :=
  h.congr SupportPlanEntry.mergeKey fun _ => rfl

end

/-- An entry conflicts in one order if it does in the other. -/
theorem Reordered.conflicted (h : Reordered input input') (ha : a ∈ clippedGroups ops input)
    (hb : b ∈ clippedGroups ops input') (hkey : a.mergeKey = b.mergeKey) :
    conflicted ops input a = Support.conflicted ops input' b := by
  have hfields := hkey
  simp only [SupportPlanEntry.mergeKey, MergeKey.mk.injEq] at hfields
  have hterritory : Support.entryHasTerritory input' b = Support.entryHasTerritory input a := by
    rw [h.entryHasTerritory]
    exact entryHasTerritory_congr hfields.2.2.1.symm hfields.2.1.symm
  cases howns : Support.entryHasTerritory input a with
  | true => rw [conflicted_of_territory howns, conflicted_of_territory (hterritory.trans howns)]
  | false =>
    have hunclipped : ∀ {input : SupportAggregationInput F} {c : SupportPlanEntry F},
        c ∈ clippedGroups ops input → Support.entryHasTerritory input c = false →
        c ∈ unionSameFamilyEntries (Support.admitted ops input) := by
      intro input c hc hnone
      obtain ⟨merged, hmerged, hclip⟩ := mem_clippedGroups.mp hc
      have hsame := clipEntry_eq_some hclip
      have hobject : c.objectId = merged.objectId := by rw [hsame]
      have hlayer : c.globalLayerIndex = merged.globalLayerIndex := by rw [hsame]
      rw [clipEntry_of_no_territory ((entryHasTerritory_congr hobject hlayer).symm.trans hnone)]
        at hclip
      cases hclip
      exact hmerged
    have hparts : (partsOf ops input a).Perm (partsOf ops input' b) := by
      rw [partsOf, partsOf, ← hkey]
      exact h.filter_mergeKey a.mergeKey
    rw [Bool.eq_iff_iff, Support.conflicted, Support.conflicted, List.any_eq_true,
      List.any_eq_true, exists_conflict_iff (hunclipped ha howns) howns,
      exists_conflict_iff (hunclipped hb (hterritory.trans howns)) (hterritory.trans howns)]
    simp only [hparts.mem_iff, h.admitted.mem_iff, hfields.1, hfields.2.1, hfields.2.2.1]

theorem nodup_mergeKey_clippedGroups :
    ((clippedGroups ops input).map SupportPlanEntry.mergeKey).Nodup := by
  have hsublist : ∀ l : List (SupportPlanEntry F),
      ((l.filterMap (clipEntry ops input)).map SupportPlanEntry.mergeKey).Sublist
        (l.map SupportPlanEntry.mergeKey) := by
    intro l
    induction l with
    | nil => exact .slnil
    | cons entry rest ih =>
      cases hclip : clipEntry ops input entry with
      | none =>
        rw [List.filterMap_cons_none hclip, List.map_cons]
        exact ih.cons _
      | some clipped =>
        have hkey : clipped.mergeKey = entry.mergeKey := by
          rw [clipEntry_eq_some hclip]
          rfl
        rw [List.filterMap_cons_some hclip, List.map_cons, List.map_cons, hkey]
        exact ih.cons_cons _
  exact (hsublist _).nodup (List.nodup_keys_mergeBy mergeKey_mergeEntry _)

/-- The clipped groups of both orders side by side. -/
theorem Reordered.clippedGroups (h : Reordered input input') (hops : ExactSupportOps points ops)
    (hties : TiesAgree ops input) :
    ∃ l, (Support.clippedGroups ops input').Perm l ∧
      List.Forall₂ (fun a b => SameEntry points input a b ∧
        Support.conflicted ops input a = Support.conflicted ops input' b)
        (Support.clippedGroups ops input) l := by
  refine List.exists_perm_forall₂_of_keys nodup_mergeKey_clippedGroups
    nodup_mergeKey_clippedGroups (fun a ha => ?_) (fun b hb => ?_)
  · obtain ⟨b, hb, hsame⟩ := h.exists_clipped hops hties ha
    exact ⟨b, hb, hsame.mergeKey.symm, hsame, h.conflicted ha hb hsame.mergeKey⟩
  · obtain ⟨a, ha, hsame⟩ := h.symm.exists_clipped hops (h.symm_ties hties) hb
    exact ⟨a, ha, hsame.mergeKey.symm⟩

end Groups

/-! ### The same aggregate -/

section Aggregate

variable [LinearOrder F]

theorem mergeRaftPlans_right_comm (a b c : Option (RaftPlan F)) :
    mergeRaftPlans (mergeRaftPlans a b) c = mergeRaftPlans (mergeRaftPlans a c) b := by
  cases a <;> cases b <;> cases c <;> simp [mergeRaftPlans, min_comm, min_left_comm]

theorem Reordered.raftPlan {input input' : SupportAggregationInput F}
    (h : Reordered input input') :
    input.plans.foldl (fun merged plan => mergeRaftPlans merged plan.raftPlan) none =
      input'.plans.foldl (fun merged plan => mergeRaftPlans merged plan.raftPlan) none := by
  have hplans : input.plans.Perm input'.plans := by
    rw [← List.map_fst_zip h.producers.le, ← List.map_fst_zip h.producers'.le]
    exact h.plans.map _
  have : RightCommutative fun (merged : Option (RaftPlan F)) (plan : SupportPlanIR F) =>
      mergeRaftPlans merged plan.raftPlan :=
    ⟨fun merged plan plan' => mergeRaftPlans_right_comm merged plan.raftPlan plan'.raftPlan⟩
  exact hplans.foldl_eq none

end Aggregate

section Outcome

variable [Field F] [LinearOrder F] {points : ExPolygon → Set P} {ops : SupportOps F}
  {input input' : SupportAggregationInput F}

theorem Reordered.unmet (h : Reordered input input')
    {l : List (SupportPlanEntry F)} (hperm : (Support.clippedGroups ops input').Perm l)
    (hsame : List.Forall₂ (fun a b => SameEntry points input a b ∧
      Support.conflicted ops input a = Support.conflicted ops input' b)
      (Support.clippedGroups ops input) l) :
    (outcome ops input).unmet.Perm (outcome ops input').unmet := by
  have hunmet : ∀ input : SupportAggregationInput F, (outcome ops input).unmet =
      (input.sortedEntries.map fun tagged =>
        (Support.rejection ops input tagged).toList.flatMap (unmetDemands tagged.2)).flatten ++
      ((Support.clippedGroups ops input).filter (Support.conflicted ops input ·)).flatMap
        (unmetDemands · "body rejected: cross-family positive-area overlap") := by
    intro input
    simp [Support.outcome, admission, startResult, List.flatMap_def]
  rw [hunmet, hunmet]
  refine List.Perm.append (List.Perm.flatten (h.map_sortedEntries fun tagged tagged' hauthor => ?_)) ?_
  · rw [h.rejection hauthor, (Prod.mk.inj hauthor).2]
  · have hrejected := List.rel_filter (p := Support.conflicted ops input)
      (q := Support.conflicted ops input') (fun a b hab => by simp only [hab.2]) hsame
    rw [List.flatMap_def,
      List.map_eq_of_forall₂ (hrejected.imp fun a b hab => hab.1.congr (unmetDemands · _) fun _ => rfl),
      ← List.flatMap_def]
    exact (hperm.symm.filter _).flatMap_right _

/-- The outcome does not depend on the order of the plans, where no tie differs. -/
theorem Reordered.outcome (h : Reordered input input') (hops : ExactSupportOps points ops)
    (hties : TiesAgree ops input) :
    SameOutcome points input input' (outcome ops input) (Support.outcome ops input') := by
  obtain ⟨l, hperm, hsame⟩ := h.clippedGroups hops hties
  exact
    { retained := by
        refine ⟨l.filter fun entry => !Support.conflicted ops input' entry, hperm.filter _, ?_⟩
        exact (List.rel_filter (fun a b hab => by simp only [hab.2]) hsame).imp fun a b hab => hab.1
      unmet := h.unmet hperm hsame
      violations := by
        have hviolations : ∀ input : SupportAggregationInput F,
            (Support.outcome ops input).ownershipViolations.map (attributed input) =
              (input.sortedEntries.map fun tagged =>
                (Support.refusal input tagged).map (attributed input)).filterMap id := by
          intro input
          simp [Support.outcome, admission, startResult, List.map_filterMap, List.filterMap_map]
        rw [hviolations, hviolations]
        exact (h.map_sortedEntries fun _ _ => h.refusal).filterMap id
      degraded := by
        have hdegraded : ∀ input : SupportAggregationInput F, (Support.outcome ops input).degraded =
            ((input.sortedEntries.map fun tagged => (Support.refusal input tagged).isSome ||
                (Support.rejection ops input tagged).isSome).any id ||
              ((Support.clippedGroups ops input).map (Support.conflicted ops input)).any id) := by
          intro input
          simp [Support.outcome, admission, startResult]
        rw [hdegraded, hdegraded]
        congr 1
        · refine (h.map_sortedEntries fun tagged tagged' hauthor => ?_).any_eq
          rw [h.rejection hauthor, ← Option.isSome_map (f := attributed input), h.refusal hauthor,
            Option.isSome_map]
        · rw [List.map_eq_of_forall₂ (hsame.imp fun a b hab => hab.2)]
          exact (hperm.symm.map _).any_eq
      raftPlan := h.raftPlan }

omit [Field F] in
theorem Reordered.refusal_eq_none (h : Reordered input input')
    (hnone : ∀ tagged ∈ input.entries, Support.refusal input tagged = none) :
    ∀ tagged ∈ input'.entries, Support.refusal input' tagged = none := by
  intro tagged htagged
  have hmem : authored input' tagged ∈ input.entries.map (authored input) :=
    h.map_entries.mem_iff.mpr (List.mem_map_of_mem htagged)
  obtain ⟨tagged', htagged', hauthor⟩ := List.mem_map.mp hmem
  exact (h.refusal_eq_none_iff hauthor).mp (hnone tagged' htagged')

end Outcome

/-- Where no tie differs, the order in which the plans arrive does not matter. -/
theorem aggregate_reordered [Field F] [LinearOrder F] {points : ExPolygon → Set P}
    {ops : SupportOps F} (hops : ExactSupportOps points ops)
    {input input' : SupportAggregationInput F} (h : Reordered input input')
    (hties : TiesAgree ops input) : SameAggregate points ops input input' := by
  constructor
  · exact ⟨_, _, tryAggregate_degrade hops.symmetricOverlap input,
      tryAggregate_degrade hops.symmetricOverlap input', h.outcome hops hties⟩
  · have hok : ∀ input : SupportAggregationInput F,
        (∃ result, tryAggregateSupportPlansWithPolicy ops input .Fail = .ok result) ↔
          ∀ tagged ∈ input.entries, refusal input tagged = none := by
      intro input
      obtain ⟨hnone, hresult⟩ | ⟨⟨tagged, htagged, hrefused⟩, error, herror⟩ :=
        tryAggregate_fail hops.symmetricOverlap input
      · exact ⟨fun _ => hnone, fun _ => ⟨_, hresult⟩⟩
      · constructor
        · rintro ⟨_, hresult⟩
          cases herror.symm.trans hresult
        · exact fun hnone => absurd (hnone tagged htagged) hrefused
    rw [hok, hok]
    exact ⟨h.refusal_eq_none, h.symm.refusal_eq_none⟩

/-- An entry of a body with an anchor layer. -/
def arrivingEntry (bodyId : String) (anchorLayerIndex : Nat) : SupportPlanEntry ℚ where
  globalLayerIndex := 0
  objectId := "o"
  regionId := 1
  familyId := "tree"
  demandIds := ["d"]
  bodyIds := [bodyId]
  anchorLayerIndex := anchorLayerIndex
  roles := [⟨.SupportBody, [unitSquare ⟨0, 0⟩]⟩]

/-- Plans of one entry each, by producers of the family that owns the region. -/
def arrivingInput (entries : List (SupportPlanEntry ℚ)) : SupportAggregationInput ℚ where
  plans := entries.map fun entry => { entries := [entry] }
  exactZ _ _ := some []
  territory := some
    { familyAssignments := [(⟨"o", 1, []⟩, "tree")]
      nodup_familyAssignments := by decide
      nodup_supportTerritory := by decide }
  producers := entries.map fun _ => { claims := ["support-family:tree"] }

theorem reordered_arrivingInput (a b : SupportPlanEntry ℚ) :
    Reordered (arrivingInput [a, b]) (arrivingInput [b, a]) where
  plans := .swap _ _ _
  producers := rfl
  producers' := rfl
  exactZ := rfl
  territory := rfl

theorem aggregate_reordered_bodies :
    SameAggregate squarePoints squareOps
      (arrivingInput [arrivingEntry "a" 1, arrivingEntry "b" 2])
      (arrivingInput [arrivingEntry "b" 2, arrivingEntry "a" 1]) :=
  aggregate_reordered exact_squareOps (reordered_arrivingInput _ _)
    (by unfold TiesAgree; decide +kernel)

/-- Two entries tie, and the merged one has the anchor layer of the plan that arrived first. -/
theorem arrival_decides_anchor_layer :
    ¬ ∀ (P : Type) (points : ExPolygon → Set P) (ops : SupportOps ℚ)
        (input input' : SupportAggregationInput ℚ), ExactSupportOps points ops →
      Reordered input input' → SameAggregate points ops input input' := by
  intro h
  obtain ⟨⟨result, result', hresult, hresult', hsame⟩, _⟩ := h _ squarePoints squareOps _ _
    exact_squareOps (reordered_arrivingInput (arrivingEntry "b" 1) (arrivingEntry "b" 2))
  rw [tryAggregate_degrade exact_squareOps.symmetricOverlap] at hresult hresult'
  cases hresult
  cases hresult'
  obtain ⟨l, hperm, hforall⟩ := hsame.retained
  have hlayers : (outcome squareOps (arrivingInput
      [arrivingEntry "b" 1, arrivingEntry "b" 2])).retained.map (·.anchorLayerIndex) =
        l.map (·.anchorLayerIndex) :=
    List.map_eq_of_forall₂ (hforall.imp fun a b hab =>
      hab.congr SupportPlanEntry.anchorLayerIndex fun _ => rfl)
  have hlayers' := hperm.map SupportPlanEntry.anchorLayerIndex
  rw [← hlayers] at hlayers'
  revert hlayers'
  decide +kernel

end PinchNPrint.Support
