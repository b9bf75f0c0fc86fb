/-
No demand vanishes.

An entry can be refused, declined, rejected, merged with others, clipped to nothing, or lose a
conflict. A rejection is reported for every pair of a body and a demand, so that an entry
without bodies is dropped without a word, and clipping reports the bodies only.

`demands_heard_iff`: every demand is retained or named exactly if it has an entry that does not
go one of these ways.
-/

import PinchNPrint.Support.Groups

namespace PinchNPrint.Support

open Region (ExPolygon)

variable {F : Type}

/-- The demand that a diagnostic names. -/
def DiagnosticMessage.demandId? : DiagnosticMessage F → Option String
  | .unmet demandId _ _ => some demandId
  | .routing _ _ demandId _ => some demandId
  | .declined demandId _ _ => some demandId
  | _ => none

section Reports

variable [Field F] [LinearOrder F] (ops : SupportOps F) (input : SupportAggregationInput F)

omit [Field F] in
/-- The demand is carried by a retained entry, or named by an unmet demand, by the violation of
an entry that carries it, or by a diagnostic. -/
def Accounted (result : SupportAggregationResult F)
    (diagnostics : List (AttributedDiagnostic F)) (demandId : String) : Prop :=
  (∃ entry ∈ result.retained, demandId ∈ entry.demandIds) ∨
  (∃ demand ∈ result.unmet, demand.demandId = demandId) ∨
  (∃ tagged ∈ input.entries, demandId ∈ tagged.2.demandIds ∧
    ∃ violation ∈ result.ownershipViolations,
      checkOwnership tagged.2 tagged.1 input = .error violation) ∨
  ∃ d ∈ diagnostics, d.diagnostic.message.demandId? = some demandId

/-- Every demand of the plans is accounted for by what aggregation returns. -/
def DemandsAccounted : Prop :=
  ∃ result plan diagnostics,
    tryAggregateSupportPlansWithPolicy ops input .Degrade = .ok result ∧
    aggregateSupportPlanIrsWithPolicyAttributed ops input .Degrade = .ok (plan, diagnostics) ∧
    ∀ tagged ∈ input.entries, ∀ demandId ∈ tagged.2.demandIds,
      Accounted input result diagnostics demandId

/-- The group of an admitted entry: where there is territory, clipping leaves something of it;
elsewhere it overlaps no other family, or has a body. -/
def GroupHeard (entry : SupportPlanEntry F) : Prop :=
  if entryHasTerritory input entry then
    ∃ analysis, input.territory = some analysis ∧ ∃ part ∈ partsOf ops input entry,
      ∃ role ∈ part.roles, keptRegions ops analysis part role.regions ≠ []
  else
    (∀ part ∈ partsOf ops input entry, ∀ rival ∈ admitted ops input,
      rival.objectId = entry.objectId → rival.globalLayerIndex = entry.globalLayerIndex →
      rival.familyId ≠ entry.familyId → entriesOverlap ops part rival = false) ∨
    ∃ part ∈ partsOf ops input entry, part.bodyIds ≠ []

/-- The entry is refused or declined, or rejected with a body, or its group is heard. -/
def Heard (tagged : Nat × SupportPlanEntry F) : Prop :=
  refusal input tagged ≠ none ∨ tagged.2.declineReason ≠ none ∨
  (rejection ops input tagged ≠ none ∧ tagged.2.bodyIds ≠ []) ∨
  Admits ops input tagged ∧ GroupHeard ops input tagged.2

variable {ops input} {entry merged : SupportPlanEntry F} {demandId : String}

/-! ### Reports of one entry -/

section

omit [Field F] [LinearOrder F]

/-- An entry's demands are listed for each of its bodies. -/
theorem exists_unmetDemands_iff {reason : String} :
    (∃ demand ∈ unmetDemands entry reason, demand.demandId = demandId) ↔
      entry.bodyIds ≠ [] ∧ demandId ∈ entry.demandIds := by
  rw [← List.length_pos_iff, List.length_pos_iff_exists_mem]
  constructor
  · rintro ⟨demand, hdemand, rfl⟩
    obtain ⟨bodyId, hbody, hdemand⟩ := List.mem_flatMap.mp hdemand
    obtain ⟨demandId, hid, rfl⟩ := List.mem_map.mp hdemand
    exact ⟨⟨bodyId, hbody⟩, hid⟩
  · rintro ⟨⟨bodyId, hbody⟩, hid⟩
    exact ⟨⟨demandId, bodyId, reason⟩,
      List.mem_flatMap.mpr ⟨bodyId, hbody, List.mem_map.mpr ⟨demandId, hid, rfl⟩⟩, rfl⟩

theorem exists_routingDiagnostics_iff {reason : String} :
    (∃ d ∈ routingDiagnostics entry reason, d.demandId = demandId) ↔
      entry.bodyIds ≠ [] ∧ demandId ∈ entry.demandIds := by
  rw [← List.length_pos_iff, List.length_pos_iff_exists_mem]
  constructor
  · rintro ⟨d, hd, rfl⟩
    obtain ⟨bodyId, hbody, hd⟩ := List.mem_flatMap.mp hd
    obtain ⟨demandId, hid, rfl⟩ := List.mem_map.mp hd
    exact ⟨⟨bodyId, hbody⟩, hid⟩
  · rintro ⟨⟨bodyId, hbody⟩, hid⟩
    exact ⟨⟨entry.familyId, bodyId, demandId, reason⟩,
      List.mem_flatMap.mpr ⟨bodyId, hbody, List.mem_map.mpr ⟨demandId, hid, rfl⟩⟩, rfl⟩

end

theorem groupHeard_iff {P : Type} {points : ExPolygon → Set P} (h : ExactSupportOps points ops)
    (hmerged : merged ∈ unionSameFamilyEntries (admitted ops input))
    (hkey : entry.mergeKey = merged.mergeKey) :
    GroupHeard ops input entry ↔ ∃ clipped, clipEntry ops input merged = some clipped ∧
      (conflicted ops input clipped = false ∨ merged.bodyIds ≠ []) := by
  have hgroup := mem_unionSameFamilyEntries.mp hmerged
  have hfields := hkey
  simp only [SupportPlanEntry.mergeKey, MergeKey.mk.injEq] at hfields
  have hparts : partsOf ops input entry = partsOf ops input merged := by
    rw [partsOf, partsOf, hkey]
  rw [GroupHeard, entryHasTerritory_congr hfields.2.2.1 hfields.2.1, hparts]
  cases hterritory : entryHasTerritory input merged with
  | true =>
    obtain ⟨analysis, hanalysis, _⟩ := exists_analysis hterritory
    rw [if_pos rfl, clipEntry_of_territory hanalysis hterritory]
    have hleft : (∃ part ∈ partsOf ops input merged,
        ∃ role ∈ part.roles, keptRegions ops analysis part role.regions ≠ []) ↔
        (clipRoles ops analysis merged).roles.isEmpty = false := by
      rw [isEmpty_clipRoles, exists_role_merged (h.additive_keptRegions analysis merged) hgroup]
      refine exists_congr fun part => and_congr_right fun hpart => ?_
      rw [keptRegions_congr (of_decide_eq_true (List.mem_filter.mp hpart).2)]
    constructor
    · rintro ⟨analysis', hanalysis', hpart⟩
      rw [hanalysis] at hanalysis'
      cases hanalysis'
      rw [hleft.mp hpart]
      exact ⟨_, rfl, Or.inl (conflicted_of_territory hterritory)⟩
    · rintro ⟨clipped, hclip, _⟩
      refine ⟨analysis, hanalysis, hleft.mpr ?_⟩
      split at hclip
      · cases hclip
      · rename_i hempty
        simpa using hempty
  | false =>
    rw [if_neg Bool.false_ne_true, clipEntry_of_no_territory hterritory]
    have hconflict : conflicted ops input merged = false ↔
        ∀ part ∈ partsOf ops input merged, ∀ rival ∈ admitted ops input,
          rival.objectId = entry.objectId → rival.globalLayerIndex = entry.globalLayerIndex →
          rival.familyId ≠ entry.familyId → entriesOverlap ops part rival = false := by
      rw [← Bool.not_eq_true, conflicted, List.any_eq_true, exists_conflict_iff hmerged hterritory,
        hfields.1, hfields.2.1, hfields.2.2.1]
      simp only [not_exists, not_and, Bool.not_eq_true]
    have hbody : merged.bodyIds ≠ [] ↔ ∃ part ∈ partsOf ops input merged, part.bodyIds ≠ [] := by
      have hbodies := (list_merged (f := SupportPlanEntry.bodyIds) (fun _ _ => rfl) hgroup).1
      simp only [← List.length_pos_iff, List.length_pos_iff_exists_mem, hbodies]
      constructor
      · rintro ⟨bodyId, part, hpart, hbody⟩
        exact ⟨part, hpart, bodyId, hbody⟩
      · rintro ⟨part, hpart, bodyId, hbody⟩
        exact ⟨bodyId, part, hpart, hbody⟩
    rw [← hconflict, ← hbody]
    simp

/-! ### Reports of the whole run -/

omit [Field F] in
theorem refusal_eq_some_iff {tagged : Nat × SupportPlanEntry F} {violation : OwnershipViolation} :
    refusal input tagged = some violation ↔
      checkOwnership tagged.2 tagged.1 input = .error violation := by
  rw [refusal]
  split
  · rename_i howns
    simp [howns]
  · rename_i howns
    simp [howns]

theorem exists_unmet_iff :
    (∃ demand ∈ (outcome ops input).unmet, demand.demandId = demandId) ↔
      (∃ tagged ∈ input.entries, rejection ops input tagged ≠ none ∧ tagged.2.bodyIds ≠ [] ∧
          demandId ∈ tagged.2.demandIds) ∨
        ∃ entry ∈ clippedGroups ops input, conflicted ops input entry = true ∧
          entry.bodyIds ≠ [] ∧ demandId ∈ entry.demandIds := by
  have hunmet : (outcome ops input).unmet =
      (input.sortedEntries.flatMap fun tagged =>
        (rejection ops input tagged).toList.flatMap (unmetDemands tagged.2)) ++
      ((clippedGroups ops input).filter (conflicted ops input ·)).flatMap
        (unmetDemands · "body rejected: cross-family positive-area overlap") := by
    simp [outcome, admission, startResult]
  rw [hunmet]
  simp only [List.mem_append, or_and_right, exists_or]
  refine or_congr ?_ ?_
  · constructor
    · rintro ⟨demand, hdemand, heq⟩
      obtain ⟨tagged, htagged, hdemand⟩ := List.mem_flatMap.mp hdemand
      obtain ⟨reason, hreason, hdemand⟩ := List.mem_flatMap.mp hdemand
      obtain ⟨hbody, hid⟩ := exists_unmetDemands_iff.mp ⟨demand, hdemand, heq⟩
      exact ⟨tagged, mem_sortedEntries.mp htagged, by simp [Option.mem_toList.mp hreason], hbody, hid⟩
    · rintro ⟨tagged, htagged, hrejected, hbody, hid⟩
      obtain ⟨reason, hreason⟩ := Option.ne_none_iff_exists'.mp hrejected
      obtain ⟨demand, hdemand, heq⟩ := exists_unmetDemands_iff.mpr ⟨hbody, hid⟩
      exact ⟨demand, List.mem_flatMap.mpr ⟨tagged, mem_sortedEntries.mpr htagged,
        List.mem_flatMap.mpr ⟨reason, Option.mem_toList.mpr hreason, hdemand⟩⟩, heq⟩
  · constructor
    · rintro ⟨demand, hdemand, heq⟩
      obtain ⟨entry, hentry, hdemand⟩ := List.mem_flatMap.mp hdemand
      obtain ⟨hentry, hconflicted⟩ := List.mem_filter.mp hentry
      exact ⟨entry, hentry, hconflicted, exists_unmetDemands_iff.mp ⟨demand, hdemand, heq⟩⟩
    · rintro ⟨entry, hentry, hconflicted, hnamed⟩
      obtain ⟨demand, hdemand, heq⟩ := exists_unmetDemands_iff.mpr hnamed
      exact ⟨demand, List.mem_flatMap.mpr
        ⟨entry, List.mem_filter.mpr ⟨hentry, hconflicted⟩, hdemand⟩, heq⟩

theorem of_mem_diagnostics {d : SupportRoutingDiagnostics}
    (hd : d ∈ (outcome ops input).diagnostics) :
    (∃ demand ∈ (outcome ops input).unmet, demand.demandId = d.demandId) ∨
      ∃ tagged ∈ input.entries, tagged.2.declineReason ≠ none ∧
        d.demandId ∈ tagged.2.demandIds := by
  have hdiagnostics : (outcome ops input).diagnostics =
      input.sortedEntries.flatMap (entryDiagnostics ops input) ++
      ((clippedGroups ops input).filter (conflicted ops input ·)).flatMap
        (routingDiagnostics · "body rejected: cross-family positive-area overlap") := by
    simp [outcome, admission, startResult]
  rw [hdiagnostics, List.mem_append] at hd
  rcases hd with hd | hd
  · obtain ⟨tagged, htagged, hd⟩ := List.mem_flatMap.mp hd
    rw [entryDiagnostics] at hd
    split at hd
    · rename_i reason _ hreason
      exact Or.inr ⟨tagged, mem_sortedEntries.mp htagged, by simp [hreason],
        (exists_routingDiagnostics_iff.mp ⟨d, hd, rfl⟩).2⟩
    · obtain ⟨reason, hreason, hd⟩ := List.mem_flatMap.mp hd
      obtain ⟨hbody, hid⟩ := exists_routingDiagnostics_iff.mp ⟨d, hd, rfl⟩
      exact Or.inl (exists_unmet_iff.mpr (Or.inl ⟨tagged, mem_sortedEntries.mp htagged,
        by simp [Option.mem_toList.mp hreason], hbody, hid⟩))
  · obtain ⟨entry, hentry, hd⟩ := List.mem_flatMap.mp hd
    obtain ⟨hentry, hconflicted⟩ := List.mem_filter.mp hentry
    exact Or.inl (exists_unmet_iff.mpr (Or.inr ⟨entry, hentry, hconflicted,
      exists_routingDiagnostics_iff.mp ⟨d, hd, rfl⟩⟩))

omit [Field F] [LinearOrder F] in
/-- A decline is reported for each of the entry's demands. -/
theorem exists_declineDiagnostics_iff :
    (∃ d ∈ declineDiagnostics input, d.diagnostic.message.demandId? = some demandId) ↔
      ∃ tagged ∈ input.entries, tagged.2.declineReason ≠ none ∧ demandId ∈ tagged.2.demandIds := by
  constructor
  · rintro ⟨d, hd, hnamed⟩
    obtain ⟨⟨planIndex, entry⟩, htagged, hd⟩ := List.mem_flatMap.mp hd
    dsimp only at hd
    split at hd
    · cases hd
    · rename_i reason hreason
      obtain ⟨demandId', hid, rfl⟩ := List.mem_map.mp hd
      cases hnamed
      exact ⟨(planIndex, entry), htagged, by simp [hreason], hid⟩
  · rintro ⟨⟨planIndex, entry⟩, htagged, hdeclined, hid⟩
    obtain ⟨reason, hreason⟩ := Option.ne_none_iff_exists'.mp hdeclined
    have hreason' : entry.declineReason = some reason := hreason
    let diagnostic : Diagnostic F :=
      { severity := .Warn
        code := 1201
        layer := some entry.globalLayerIndex
        objectId := some entry.objectId
        message := .declined demandId entry.familyId reason }
    refine ⟨⟨some planIndex, diagnostic⟩,
      List.mem_flatMap.mpr ⟨(planIndex, entry), htagged, ?_⟩, rfl⟩
    simp only [hreason']
    exact List.mem_map.mpr ⟨demandId, hid, rfl⟩

theorem of_mem_aggregateDiagnostics {d : AttributedDiagnostic F}
    (hd : d ∈ aggregateDiagnostics input.plans (outcome ops input))
    (hnamed : d.diagnostic.message.demandId? = some demandId) :
    (∃ demand ∈ (outcome ops input).unmet, demand.demandId = demandId) ∨
      ∃ tagged ∈ input.entries, tagged.2.declineReason ≠ none ∧ demandId ∈ tagged.2.demandIds := by
  simp only [aggregateDiagnostics, List.mem_append, List.mem_map, or_assoc] at hd
  rcases hd with ⟨demand, hdemand, rfl⟩ | ⟨routed, hrouted, rfl⟩ | ⟨_, _, rfl⟩ | ⟨_, _, rfl⟩ |
    ⟨_, _, rfl⟩
  · cases hnamed
    exact Or.inl ⟨demand, hdemand, rfl⟩
  · cases hnamed
    exact of_mem_diagnostics hrouted
  · cases hnamed
  · cases hnamed
  · cases hnamed

theorem accounted_iff {P : Type} {points : ExPolygon → Set P} (h : ExactSupportOps points ops) :
    Accounted input (outcome ops input)
        (aggregateDiagnostics input.plans (outcome ops input) ++ declineDiagnostics input) demandId ↔
      ∃ tagged ∈ input.entries, demandId ∈ tagged.2.demandIds ∧ Heard ops input tagged := by
  -- A group that carries the demand, and what clipping leaves of it.
  have hgroup : ∀ merged ∈ unionSameFamilyEntries (admitted ops input),
      demandId ∈ merged.demandIds → ∀ clipped, clipEntry ops input merged = some clipped →
      (conflicted ops input clipped = false ∨ merged.bodyIds ≠ []) →
      ∃ tagged ∈ input.entries, demandId ∈ tagged.2.demandIds ∧ Heard ops input tagged := by
    intro merged hmerged hid clipped hclip hheard
    obtain ⟨part, hpart, hid⟩ := ((list_merged (fun _ _ => rfl) (mem_unionSameFamilyEntries.mp hmerged)).1 _).mp hid
    obtain ⟨hpart, hkey⟩ := List.mem_filter.mp hpart
    obtain ⟨planIndex, htagged, hadmits⟩ := mem_admitted.mp hpart
    exact ⟨(planIndex, part), htagged, hid, Or.inr (Or.inr (Or.inr ⟨hadmits,
      (groupHeard_iff h hmerged (of_decide_eq_true hkey)).mpr ⟨clipped, hclip, hheard⟩⟩))⟩
  have hunmet : (∃ demand ∈ (outcome ops input).unmet, demand.demandId = demandId) →
      ∃ tagged ∈ input.entries, demandId ∈ tagged.2.demandIds ∧ Heard ops input tagged := by
    intro hdemand
    rcases exists_unmet_iff.mp hdemand with ⟨tagged, htagged, hrejected, hbody, hid⟩ |
      ⟨clipped, hclipped, _, hbody, hid⟩
    · exact ⟨tagged, htagged, hid, Or.inr (Or.inr (Or.inl ⟨hrejected, hbody⟩))⟩
    · obtain ⟨merged, hmerged, hclip⟩ := mem_clippedGroups.mp hclipped
      have hids := congrArg SupportPlanEntry.demandIds (clipEntry_eq_some hclip)
      have hbodies := congrArg SupportPlanEntry.bodyIds (clipEntry_eq_some hclip)
      exact hgroup merged hmerged (hids ▸ hid) clipped hclip (Or.inr (hbodies ▸ hbody))
  have hdeclined : (∃ tagged ∈ input.entries, tagged.2.declineReason ≠ none ∧
        demandId ∈ tagged.2.demandIds) →
      ∃ tagged ∈ input.entries, demandId ∈ tagged.2.demandIds ∧ Heard ops input tagged :=
    fun ⟨tagged, htagged, hreason, hid⟩ => ⟨tagged, htagged, hid, Or.inr (Or.inl hreason)⟩
  constructor
  · rintro (⟨entry, hentry, hid⟩ | hdemand | ⟨tagged, htagged, hid, violation, _, howns⟩ |
      ⟨d, hd, hnamed⟩)
    · obtain ⟨hclipped, hnone⟩ := mem_retained_iff.mp hentry
      obtain ⟨merged, hmerged, hclip⟩ := mem_clippedGroups.mp hclipped
      have hids := congrArg SupportPlanEntry.demandIds (clipEntry_eq_some hclip)
      refine hgroup merged hmerged (hids ▸ hid) entry hclip (Or.inl ?_)
      simpa [conflicted] using hnone
    · exact hunmet hdemand
    · exact ⟨tagged, htagged, hid, Or.inl (by rw [refusal_eq_some_iff.mpr howns]; simp)⟩
    · rcases List.mem_append.mp hd with hd | hd
      · exact (of_mem_aggregateDiagnostics hd hnamed).elim hunmet hdeclined
      · exact hdeclined (exists_declineDiagnostics_iff.mp ⟨d, hd, hnamed⟩)
  · rintro ⟨tagged, htagged, hid, hrefused | hreason | ⟨hrejected, hbody⟩ | ⟨hadmits, hheard⟩⟩
    · obtain ⟨violation, hviolation⟩ := Option.ne_none_iff_exists'.mp hrefused
      refine Or.inr (Or.inr (Or.inl ⟨tagged, htagged, hid, violation, ?_,
        refusal_eq_some_iff.mp hviolation⟩))
      have hviolations : (outcome ops input).ownershipViolations =
          input.sortedEntries.filterMap (refusal input) := by
        simp [outcome, admission, startResult]
      rw [hviolations]
      exact List.mem_filterMap.mpr ⟨tagged, mem_sortedEntries.mpr htagged, hviolation⟩
    · obtain ⟨d, hd, hnamed⟩ := exists_declineDiagnostics_iff.mpr ⟨tagged, htagged, hreason, hid⟩
      exact Or.inr (Or.inr (Or.inr ⟨d, List.mem_append_right _ hd, hnamed⟩))
    · exact Or.inr (Or.inl (exists_unmet_iff.mpr (Or.inl ⟨tagged, htagged, hrejected, hbody, hid⟩)))
    · obtain ⟨planIndex, entry⟩ := tagged
      have hadmitted := mem_admitted.mpr ⟨planIndex, htagged, hadmits⟩
      obtain ⟨merged, hmerged, hkey⟩ := exists_merged hadmitted
      have hid' : demandId ∈ merged.demandIds :=
        ((list_merged (fun _ _ => rfl) (mem_unionSameFamilyEntries.mp hmerged)).1 _).mpr
          ⟨entry, List.mem_filter.mpr ⟨hadmitted, decide_eq_true hkey.symm⟩, hid⟩
      obtain ⟨clipped, hclip, hor⟩ := (groupHeard_iff h hmerged hkey.symm).mp hheard
      have hids := congrArg SupportPlanEntry.demandIds (clipEntry_eq_some hclip)
      have hbodies := congrArg SupportPlanEntry.bodyIds (clipEntry_eq_some hclip)
      have hclipped := mem_clippedGroups.mpr ⟨merged, hmerged, hclip⟩
      cases hconflicted : conflicted ops input clipped with
      | false =>
        refine Or.inl ⟨clipped, mem_retained_iff.mpr ⟨hclipped, ?_⟩, hids.symm ▸ hid'⟩
        simpa [conflicted] using hconflicted
      | true =>
        have hbody := hor.resolve_left (by simp [hconflicted])
        exact Or.inr (Or.inl (exists_unmet_iff.mpr (Or.inr
          ⟨clipped, hclipped, hconflicted, hbodies.symm ▸ hbody, hids.symm ▸ hid'⟩)))

end Reports

/-- Every demand is accounted for exactly if each has an entry that is heard. -/
theorem demands_heard_iff {P : Type} [Field F] [LinearOrder F] {points : ExPolygon → Set P}
    {ops : SupportOps F} (h : ExactSupportOps points ops) (input : SupportAggregationInput F) :
    DemandsAccounted ops input ↔
      ∀ tagged ∈ input.entries, ∀ demandId ∈ tagged.2.demandIds,
        ∃ carrier ∈ input.entries, demandId ∈ carrier.2.demandIds ∧ Heard ops input carrier := by
  have hresult := tryAggregate_degrade h.symmetricOverlap input
  have hattributed : ∃ plan, aggregateSupportPlanIrsWithPolicyAttributed ops input .Degrade =
      .ok (plan, aggregateDiagnostics input.plans (outcome ops input) ++ declineDiagnostics input) := by
    rw [aggregateSupportPlanIrsWithPolicyAttributed, hresult]
    exact ⟨_, rfl⟩
  obtain ⟨plan, hattributed⟩ := hattributed
  constructor
  · rintro ⟨result, plan', diagnostics, hresult', hattributed', hall⟩ tagged htagged demandId hid
    rw [hresult] at hresult'
    rw [hattributed] at hattributed'
    cases hresult'
    cases hattributed'
    exact (accounted_iff h).mp (hall tagged htagged demandId hid)
  · intro hall
    exact ⟨_, plan, _, hresult, hattributed, fun tagged htagged demandId hid =>
      (accounted_iff h).mpr (hall tagged htagged demandId hid)⟩

/-- An entry that owns its region. -/
def ownedEntry (bodyIds : List String) : SupportPlanEntry ℚ where
  globalLayerIndex := 0
  objectId := "o"
  regionId := 1
  familyId := "tree"
  demandIds := ["d"]
  bodyIds := bodyIds
  roles := [⟨.SupportBody, [unitSquare ⟨0, 0⟩]⟩]

theorem nodup_ownedFamily :
    ([((⟨"o", 1, []⟩ : SupportSourceKey ℚ), "tree")].map Prod.fst).Nodup := by
  decide

theorem nodup_noTerritory :
    (([] : List (SupportGeometryKey ℚ × List ExPolygon)).map Prod.fst).Nodup :=
  List.nodup_nil

/-- The entry alone, on the model or not. -/
def ownedInput (bodyIds : List String) (occupancy : List ExPolygon) :
    SupportAggregationInput ℚ where
  plans := [{ entries := [ownedEntry bodyIds] }]
  exactZ _ _ := some occupancy
  territory := some
    { familyAssignments := [(⟨"o", 1, []⟩, "tree")]
      nodup_familyAssignments := nodup_ownedFamily
      nodup_supportTerritory := nodup_noTerritory }
  producers := [{ claims := ["support-family:tree"] }]

theorem demands_heard_iff_owned :
    DemandsAccounted squareOps (ownedInput ["b"] [unitSquare ⟨0, 0⟩]) := by
  refine (demands_heard_iff exact_squareOps _).mpr fun tagged htagged demandId hid =>
    ⟨tagged, htagged, hid, ?_⟩
  have hrejected : ∀ tagged ∈ (ownedInput ["b"] [unitSquare ⟨0, 0⟩]).entries,
      rejection squareOps (ownedInput ["b"] [unitSquare ⟨0, 0⟩]) tagged ≠ none ∧
        tagged.2.bodyIds ≠ [] := by decide +kernel
  exact Or.inr (Or.inr (Or.inl (hrejected tagged htagged)))

/-- An entry without bodies is rejected, as it lies on the model, and nothing names its demand. -/
theorem bodiless_demand_vanishes :
    ¬ ∀ (P : Type) (points : ExPolygon → Set P) (ops : SupportOps ℚ)
        (input : SupportAggregationInput ℚ), ExactSupportOps points ops →
      DemandsAccounted ops input := by
  intro h
  obtain ⟨result, plan, diagnostics, hresult, hattributed, hall⟩ :=
    h _ squarePoints squareOps (ownedInput [] [unitSquare ⟨0, 0⟩]) exact_squareOps
  have hsame := tryAggregate_degrade exact_squareOps.symmetricOverlap
    (ownedInput [] [unitSquare ⟨0, 0⟩])
  rw [aggregateSupportPlanIrsWithPolicyAttributed, hsame] at hattributed
  rw [hsame] at hresult
  cases hresult
  cases hattributed
  have hentries : (ownedInput [] [unitSquare ⟨0, 0⟩]).entries = [(0, ownedEntry [])] := rfl
  obtain ⟨carrier, hcarrier, _, hheard⟩ := (accounted_iff exact_squareOps).mp
    (hall (0, ownedEntry []) (hentries ▸ List.mem_cons_self) "d" (by decide))
  obtain rfl := List.mem_singleton.mp (hentries ▸ hcarrier)
  rcases hheard with hrefused | hdeclined | ⟨_, hbody⟩ | ⟨hadmits, _⟩
  · exact hrefused (by decide +kernel)
  · exact hdeclined rfl
  · exact hbody rfl
  · revert hadmits
    decide +kernel

end PinchNPrint.Support
