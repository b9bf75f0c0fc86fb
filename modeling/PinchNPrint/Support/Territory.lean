/-
Two families print in different places.

On a layer without territory the conflict guard rejects both sides of an overlap. On a layer
with territory the regions of a modifier are cut to their own territory and the others are
freed of foreign territory. That keeps a modifier apart from any other family, but not two
regions that both have no territory of their own: the guard is off for the whole object on
such a layer.

`families_apart_iff`: the families are kept apart exactly if no two such regions overlap.
-/

import PinchNPrint.Support.Groups

namespace PinchNPrint.Support

open Carving
open Layer (ObjectId)
open Region (ExPolygon Point2)

variable {F P : Type}

/-- Retained entries of different families on one layer of an object have no point in common. -/
def FamiliesApart (points : ExPolygon → Set P) (result : SupportAggregationResult F) : Prop :=
  ∀ a ∈ result.retained, ∀ b ∈ result.retained, a.objectId = b.objectId →
    a.globalLayerIndex = b.globalLayerIndex → a.familyId ≠ b.familyId →
      Disjoint (footprint points a) (footprint points b)

/-- The territories of different families on one layer of an object have no point in common. -/
def TerritoriesApart [DecidableEq F] (points : ExPolygon → Set P)
    (analysis : SupportAnalysisIR F) : Prop :=
  ∀ s ∈ analysis.supportTerritory, ∀ t ∈ analysis.supportTerritory,
    s.1.objectId = t.1.objectId →
    s.1.globalSupportLayerIndex = t.1.globalSupportLayerIndex →
    ∀ family family', analysis.territoryFamily s.1 = some family →
      analysis.territoryFamily t.1 = some family' → family ≠ family' →
        Disjoint (covered points s.2) (covered points t.2)

section Lookup

variable [DecidableEq F] {analysis : SupportAnalysisIR F} {entry : SupportPlanEntry F}

variable {layer : Nat} {objectId : ObjectId} {territory : SupportGeometryKey F × List ExPolygon}

/-- A region with territory of its own is an entry of the table. -/
theorem mem_of_regionTerritory {source : SupportSourceKey F} {own : List ExPolygon}
    (h : analysis.regionTerritory layer source = some own) :
    (⟨layer, source.objectId, source.regionId, source.variantChain⟩, own) ∈
      analysis.supportTerritory := by
  obtain ⟨⟨key, polygons⟩, hfind, rfl⟩ := Option.map_eq_some_iff.mp h
  have hkey := List.find?_some hfind
  have hmem := List.mem_of_find?_eq_some hfind
  rw [decide_eq_true_iff] at hkey
  rw [← hkey]
  exact hmem

omit [DecidableEq F] in
theorem mem_territoryAt :
    territory ∈ analysis.territoryAt objectId layer ↔ territory ∈ analysis.supportTerritory ∧
      territory.1.objectId = objectId ∧ territory.1.globalSupportLayerIndex = layer := by
  simp [SupportAnalysisIR.territoryAt]

/-- The foreign territory is that of all other families. -/
theorem covered_subset_foreign {points : ExPolygon → Set P} {familyId : String}
    {partition : TerritoryPartition} (hmem : territory ∈ analysis.territoryAt objectId layer)
    (hpartition : analysis.territoryPartition objectId layer familyId = some partition)
    (hforeign : analysis.territoryFamily territory.1 ≠ some familyId) :
    covered points territory.2 ⊆ covered points partition.foreign := by
  rintro x ⟨polygon, hpolygon, hx⟩
  rw [SupportAnalysisIR.territoryPartition] at hpartition
  split at hpartition
  · cases hpartition
  · cases hpartition
    exact ⟨polygon, List.mem_flatMap.mpr
      ⟨territory, List.mem_filter.mpr ⟨hmem, by simpa using hforeign⟩, hpolygon⟩, hx⟩

theorem exists_territoryPartition (hmem : territory ∈ analysis.territoryAt objectId layer)
    (familyId : String) :
    ∃ partition, analysis.territoryPartition objectId layer familyId = some partition := by
  rw [SupportAnalysisIR.territoryPartition, if_neg (by simpa using List.ne_nil_of_mem hmem)]
  exact ⟨_, rfl⟩

end Lookup

section Apart

variable [Field F] [LinearOrder F] {points : ExPolygon → Set P} {ops : SupportOps F}
  {input : SupportAggregationInput F} {analysis : SupportAnalysisIR F}
  {a b entry : SupportPlanEntry F} {x : P}

/-- Growing foreign territory keeps it. -/
theorem ExactSupportOps.subset_inflateForeign (h : ExactSupportOps points ops)
    (foreign : List ExPolygon) (clearanceMm : F) :
    covered points foreign ⊆ covered points (inflateForeign ops foreign clearanceMm) := by
  rw [inflateForeign]
  split
  · exact subset_rfl
  · rename_i hpositive
    dsimp only
    split
    · exact subset_rfl
    · exact h.grows foreign clearanceMm (not_le.mp hpositive)

omit [Field F] in
/-- An entry that owns its region is of the family the region is assigned to. -/
theorem familyOf_of_refusal {planIndex : Nat} (h : refusal input (planIndex, entry) = none)
    (hanalysis : input.territory = some analysis) :
    analysis.familyOf entry.source = some entry.familyId := by
  rw [refusal, checkOwnership, hanalysis] at h
  dsimp only [Option.bind_some] at h
  cases howner : analysis.familyOf entry.source with
  | none => simp [howner] at h
  | some owner =>
    by_cases hfamily : owner = entry.familyId
    · rw [hfamily]
    · simp [howner, hfamily] at h

theorem mem_covered_keptRegions (h : ExactSupportOps points ops) :
    x ∈ covered points (keptRegions ops analysis entry entry.regions) ↔
      ∃ role ∈ entry.roles, x ∈ covered points (keptRegions ops analysis entry role.regions) := by
  obtain ⟨allowed, hcovered, _⟩ := h.keptRegions analysis entry
  simp only [hcovered, Set.mem_inter_iff]
  have hfootprint : x ∈ covered points entry.regions ↔
      ∃ role ∈ entry.roles, x ∈ covered points role.regions := mem_footprint
  rw [hfootprint]
  constructor
  · rintro ⟨⟨role, hrole, hx⟩, hallowed⟩
    exact ⟨role, hrole, hx, hallowed⟩
  · rintro ⟨role, hrole, hx, hallowed⟩
    exact ⟨⟨role, hrole, hx⟩, hallowed⟩

/-- A merged entry with territory has what clipping keeps of its group. -/
theorem mem_footprint_clipRoles_merged (h : ExactSupportOps points ops)
    (hmerged : entry ∈ unionSameFamilyEntries (admitted ops input)) :
    x ∈ footprint points (clipRoles ops analysis entry) ↔
      ∃ part ∈ admitted ops input, part.mergeKey = entry.mergeKey ∧
        x ∈ covered points (keptRegions ops analysis part part.regions) := by
  have hgroup := mem_unionSameFamilyEntries.mp hmerged
  rw [mem_footprint_clipRoles,
    exists_role_merged (h.additive_mem_keptRegions analysis entry x) hgroup]
  constructor
  · rintro ⟨part, hpart, hx⟩
    obtain ⟨hpart, hkey⟩ := List.mem_filter.mp hpart
    have hkey' : part.mergeKey = entry.mergeKey := of_decide_eq_true hkey
    rw [← keptRegions_congr hkey'] at hx
    exact ⟨part, hpart, hkey', (mem_covered_keptRegions h).mpr hx⟩
  · rintro ⟨part, hpart, hkey, hx⟩
    rw [mem_covered_keptRegions h, keptRegions_congr hkey] at hx
    exact ⟨part, List.mem_filter.mpr ⟨hpart, decide_eq_true hkey⟩, hx⟩

theorem exists_part_of_mem_footprint (h : ExactSupportOps points ops)
    (hentry : entry ∈ clippedGroups ops input) (hanalysis : input.territory = some analysis)
    (hterritory : entryHasTerritory input entry = true) (hx : x ∈ footprint points entry) :
    ∃ part ∈ admitted ops input, part.mergeKey = entry.mergeKey ∧
      x ∈ covered points (keptRegions ops analysis part part.regions) := by
  obtain ⟨merged, hmerged, hclip⟩ := mem_clippedGroups.mp hentry
  cases hunclipped : entryHasTerritory input merged with
  | false =>
    rw [clipEntry_of_no_territory hunclipped] at hclip
    cases hclip
    rw [hunclipped] at hterritory
    cases hterritory
  | true =>
    rw [clipEntry_of_territory hanalysis hunclipped] at hclip
    split at hclip
    · cases hclip
    · cases hclip
      exact (mem_footprint_clipRoles_merged h hmerged).mp hx

theorem exists_clippedGroup (h : ExactSupportOps points ops) (ha : a ∈ admitted ops input)
    (hanalysis : input.territory = some analysis) (hterritory : entryHasTerritory input a = true)
    (hx : x ∈ covered points (keptRegions ops analysis a a.regions)) :
    ∃ entry ∈ clippedGroups ops input, entry.mergeKey = a.mergeKey ∧ x ∈ footprint points entry := by
  obtain ⟨merged, hmerged, hkey⟩ := exists_merged ha
  have hobject : merged.objectId = a.objectId := congrArg MergeKey.objectId hkey
  have hlayer : merged.globalLayerIndex = a.globalLayerIndex :=
    congrArg MergeKey.globalLayerIndex hkey
  have hclipped : x ∈ footprint points (clipRoles ops analysis merged) :=
    (mem_footprint_clipRoles_merged h hmerged).mpr ⟨a, ha, hkey.symm, hx⟩
  have hleft : (clipRoles ops analysis merged).roles.isEmpty = false := by
    obtain ⟨role, hrole, _⟩ := mem_footprint.mp hclipped
    simpa using List.ne_nil_of_mem hrole
  refine ⟨clipRoles ops analysis merged, mem_clippedGroups.mpr ⟨merged, hmerged, ?_⟩, hkey, hclipped⟩
  rw [clipEntry_of_territory hanalysis
    ((entryHasTerritory_congr hobject hlayer).trans hterritory), hleft]
  rfl

/-- A region with territory of its own and one of another family have nothing in common. -/
theorem disjoint_of_own (h : ExactSupportOps points ops) (hanalysis : input.territory = some analysis)
    (hterritories : TerritoriesApart points analysis) (ha : a ∈ admitted ops input)
    (hb : b ∈ admitted ops input) (hobject : a.objectId = b.objectId)
    (hlayer : a.globalLayerIndex = b.globalLayerIndex) (hfamily : a.familyId ≠ b.familyId)
    {own : List ExPolygon}
    (hown : analysis.regionTerritory a.globalLayerIndex.toNat a.source = some own) :
    Disjoint (covered points (keptRegions ops analysis a a.regions))
      (covered points (keptRegions ops analysis b b.regions)) := by
  rw [Set.disjoint_left]
  intro x hxa hxb
  obtain ⟨_, _, hadmits⟩ := mem_admitted.mp ha
  obtain ⟨_, _, hadmits'⟩ := mem_admitted.mp hb
  have hfamilyA := familyOf_of_refusal hadmits.1 hanalysis
  have hfamilyB := familyOf_of_refusal hadmits'.1 hanalysis
  -- The point lies in the territory of the first region, which is foreign to the second one.
  have hmem := mem_of_regionTerritory hown
  have hx : x ∈ covered points own := by
    rcases keptRegions_cases ops analysis a with ⟨own', hown', hkept⟩ | ⟨hnone, _⟩
    · rw [hown] at hown'
      cases hown'
      rw [hkept, h.intersection.covered_op] at hxa
      exact hxa.2
    · rw [hown] at hnone
      cases hnone
  have hat := mem_territoryAt.mpr ⟨hmem, hobject, congrArg Int.toNat hlayer⟩
  have hforeign : analysis.territoryFamily
      ⟨a.globalLayerIndex.toNat, a.source.objectId, a.source.regionId, a.source.variantChain⟩ ≠
        some b.familyId := fun heq =>
    hfamily (Option.some.inj (hfamilyA.symm.trans heq))
  rcases keptRegions_cases ops analysis b with ⟨own', hown', hkept⟩ |
    ⟨_, ⟨partition, hpartition, _, hkept⟩ | ⟨hempty, _⟩⟩
  · rw [hkept, h.intersection.covered_op] at hxb
    exact Set.disjoint_left.mp (hterritories _ hmem _ (mem_of_regionTerritory hown') hobject
      (congrArg Int.toNat hlayer) a.familyId b.familyId hfamilyA hfamilyB hfamily) hx hxb.2
  · rw [hkept, h.difference.covered_op] at hxb
    exact hxb.2 (h.subset_inflateForeign _ _ (covered_subset_foreign hat hpartition hforeign hx))
  · obtain ⟨partition, hpartition⟩ := exists_territoryPartition hat b.familyId
    have hx' := covered_subset_foreign hat hpartition hforeign hx
    rw [hempty partition hpartition, covered_nil] at hx'
    exact hx'

/-- No two regions without territory of their own, on a layer where their object has some,
overlap in what their entries of different families keep. -/
def BasesApart (points : ExPolygon → Set P) (ops : SupportOps F)
    (input : SupportAggregationInput F) : Prop :=
  ∀ analysis, input.territory = some analysis →
    ∀ a ∈ admitted ops input, ∀ b ∈ admitted ops input,
      entryHasTerritory input a = true → a.objectId = b.objectId →
      a.globalLayerIndex = b.globalLayerIndex → a.familyId ≠ b.familyId →
      analysis.regionTerritory a.globalLayerIndex.toNat a.source = none →
      analysis.regionTerritory b.globalLayerIndex.toNat b.source = none →
        Disjoint (covered points (keptRegions ops analysis a a.regions))
          (covered points (keptRegions ops analysis b b.regions))

/-- What is left of the admitted entries of different families is disjoint. -/
theorem disjoint_keptRegions (h : ExactSupportOps points ops)
    (hanalysis : input.territory = some analysis) (hterritories : TerritoriesApart points analysis)
    (hbases : BasesApart points ops input) (ha : a ∈ admitted ops input)
    (hb : b ∈ admitted ops input) (hterritory : entryHasTerritory input a = true)
    (hobject : a.objectId = b.objectId) (hlayer : a.globalLayerIndex = b.globalLayerIndex)
    (hfamily : a.familyId ≠ b.familyId) :
    Disjoint (covered points (keptRegions ops analysis a a.regions))
      (covered points (keptRegions ops analysis b b.regions)) := by
  cases hownA : analysis.regionTerritory a.globalLayerIndex.toNat a.source with
  | some own =>
    exact disjoint_of_own h hanalysis hterritories ha hb hobject hlayer hfamily hownA
  | none =>
    cases hownB : analysis.regionTerritory b.globalLayerIndex.toNat b.source with
    | some own =>
      exact (disjoint_of_own h hanalysis hterritories hb ha hobject.symm hlayer.symm hfamily.symm
        hownB).symm
    | none => exact hbases analysis hanalysis a ha b hb hterritory hobject hlayer hfamily hownA hownB

theorem familiesApart_outcome (h : ExactSupportOps points ops)
    (hterritories : ∀ analysis, input.territory = some analysis → TerritoriesApart points analysis)
    (hbases : BasesApart points ops input) : FamiliesApart points (outcome ops input) := by
  intro a ha b hb hobject hlayer hfamily
  obtain ⟨hgroupA, hnone⟩ := mem_retained_iff.mp ha
  obtain ⟨hgroupB, _⟩ := mem_retained_iff.mp hb
  rw [Set.disjoint_left]
  intro x hxa hxb
  cases hterritory : entryHasTerritory input a with
  | false =>
    have hconflict : familiesConflict ops input a b = true :=
      familiesConflict_iff.mpr ⟨hobject, hlayer, hfamily, hterritory,
        h.entriesOverlap_iff.mpr ⟨x, hxa, hxb⟩⟩
    rw [hnone b hgroupB] at hconflict
    cases hconflict
  | true =>
    obtain ⟨analysis, hanalysis, _⟩ := exists_analysis hterritory
    obtain ⟨a', ha', hkeyA, hxa'⟩ := exists_part_of_mem_footprint h hgroupA hanalysis hterritory hxa
    obtain ⟨b', hb', hkeyB, hxb'⟩ := exists_part_of_mem_footprint h hgroupB hanalysis
      ((entryHasTerritory_congr hobject hlayer).symm.trans hterritory) hxb
    simp only [SupportPlanEntry.mergeKey, MergeKey.mk.injEq] at hkeyA hkeyB
    have hobject' : a'.objectId = b'.objectId := by rw [hkeyA.2.2.1, hkeyB.2.2.1, hobject]
    have hlayer' : a'.globalLayerIndex = b'.globalLayerIndex := by
      rw [hkeyA.2.1, hkeyB.2.1, hlayer]
    have hfamily' : a'.familyId ≠ b'.familyId := by rwa [hkeyA.1, hkeyB.1]
    exact Set.disjoint_left.mp (disjoint_keptRegions h hanalysis (hterritories _ hanalysis) hbases
      ha' hb' ((entryHasTerritory_congr hkeyA.2.2.1 hkeyA.2.1).trans hterritory) hobject' hlayer'
      hfamily') hxa' hxb'

/-- An overlap of two regions without territory of their own is retained. -/
theorem basesApart_of_familiesApart (h : ExactSupportOps points ops)
    (hapart : FamiliesApart points (outcome ops input)) : BasesApart points ops input := by
  intro analysis hanalysis a ha b hb hterritory hobject hlayer hfamily _ _
  rw [Set.disjoint_left]
  intro x hxa hxb
  have hterritory' : entryHasTerritory input b = true :=
    (entryHasTerritory_congr hobject hlayer).symm.trans hterritory
  obtain ⟨entryA, hgroupA, hkeyA, hfootA⟩ := exists_clippedGroup h ha hanalysis hterritory hxa
  obtain ⟨entryB, hgroupB, hkeyB, hfootB⟩ := exists_clippedGroup h hb hanalysis hterritory' hxb
  simp only [SupportPlanEntry.mergeKey, MergeKey.mk.injEq] at hkeyA hkeyB
  have hretained : ∀ entry ∈ clippedGroups ops input, entryHasTerritory input entry = true →
      entry ∈ (outcome ops input).retained := by
    intro entry hentry hentryTerritory
    refine mem_retained_iff.mpr ⟨hentry, fun other _ => ?_⟩
    simp [familiesConflict, hentryTerritory]
  have hdisjoint := hapart entryA
    (hretained entryA hgroupA ((entryHasTerritory_congr hkeyA.2.2.1 hkeyA.2.1).trans hterritory))
    entryB
    (hretained entryB hgroupB ((entryHasTerritory_congr hkeyB.2.2.1 hkeyB.2.1).trans hterritory'))
    (by rw [hkeyA.2.2.1, hkeyB.2.2.1, hobject]) (by rw [hkeyA.2.1, hkeyB.2.1, hlayer])
    (by rwa [hkeyA.1, hkeyB.1])
  exact Set.disjoint_left.mp hdisjoint hfootA hfootB

end Apart

/-- Retained entries of different families are kept apart exactly if no two regions without
territory of their own overlap where their object has territory. -/
theorem families_apart_iff [Field F] [LinearOrder F] {points : ExPolygon → Set P}
    {ops : SupportOps F} {input : SupportAggregationInput F} (h : ExactSupportOps points ops)
    (hterritories : ∀ analysis, input.territory = some analysis → TerritoriesApart points analysis) :
    (∀ policy result, tryAggregateSupportPlansWithPolicy ops input policy = .ok result →
        FamiliesApart points result) ↔ BasesApart points ops input := by
  constructor
  · intro hapart
    exact basesApart_of_familiesApart h
      (hapart .Degrade _ (tryAggregate_degrade h.symmetricOverlap input))
  · intro hbases policy result hresult
    rw [eq_outcome_of_tryAggregate h.symmetricOverlap hresult]
    exact familiesApart_outcome h hterritories hbases

/-- A modifier with the unit square at (5, 5), and two regions of the object without territory. -/
def modifierAnalysis : SupportAnalysisIR ℚ where
  familyAssignments := [(⟨"o", 1, []⟩, "tree"), (⟨"o", 2, []⟩, "normal"), (⟨"o", 3, []⟩, "normal")]
  supportTerritory := [(⟨0, "o", 3, []⟩, [unitSquare ⟨5, 5⟩])]
  nodup_familyAssignments := by decide
  nodup_supportTerritory := by decide

/-- An entry with one body, the unit square at the origin. -/
def bodyEntry (regionId : Nat) (familyId : String) : SupportPlanEntry ℚ where
  globalLayerIndex := 0
  objectId := "o"
  regionId := regionId
  familyId := familyId
  demandIds := ["d"]
  bodyIds := ["b"]
  roles := [⟨.SupportBody, [unitSquare ⟨0, 0⟩]⟩]

/-- The tree supports of one region, and the normal ones of another. -/
def modifierInput (regionId : Nat) : SupportAggregationInput ℚ where
  plans := [{ entries := [bodyEntry 1 "tree"] }, { entries := [bodyEntry regionId "normal"] }]
  exactZ _ _ := some []
  territory := some modifierAnalysis
  producers := [{ claims := ["support-family:tree"] }, { claims := ["support-family:normal"] }]

theorem territoriesApart_modifierAnalysis : TerritoriesApart squarePoints modifierAnalysis := by
  intro s hs t ht _ _ family family' hs' ht' hfamily
  obtain rfl := List.mem_singleton.mp hs
  obtain rfl := List.mem_singleton.mp ht
  exact absurd (Option.some.inj (hs'.symm.trans ht')) hfamily

theorem families_apart_iff_modifier :
    ∃ result, tryAggregateSupportPlansWithPolicy squareOps (modifierInput 3) .Degrade =
        .ok result ∧ FamiliesApart squarePoints result := by
  have hresult := tryAggregate_degrade exact_squareOps.symmetricOverlap (modifierInput 3)
  refine ⟨_, hresult, (families_apart_iff exact_squareOps fun analysis h => ?_).mpr ?_ _ _ hresult⟩
  · cases h
    exact territoriesApart_modifierAnalysis
  · intro analysis hanalysis a ha b hb _ _ _ hfamily hownA hownB
    cases hanalysis
    obtain ⟨i, hentryA, -⟩ := mem_admitted.mp ha
    obtain ⟨j, hentryB, -⟩ := mem_admitted.mp hb
    -- Only the tree entry has no territory of its own.
    have hsole : ∀ tagged ∈ (modifierInput 3).entries,
        modifierAnalysis.regionTerritory tagged.2.globalLayerIndex.toNat tagged.2.source = none →
          tagged.2.familyId = "tree" := by decide +kernel
    exact absurd ((hsole _ hentryA hownA).trans (hsole _ hentryB hownB).symm) hfamily

/-- Two regions without territory of their own overlap, as the object has territory elsewhere. -/
theorem bases_overlap :
    ¬ ∀ (P : Type) (points : ExPolygon → Set P) (ops : SupportOps ℚ)
        (input : SupportAggregationInput ℚ), ExactSupportOps points ops →
      (∀ analysis, input.territory = some analysis → TerritoriesApart points analysis) →
      ∀ policy result, tryAggregateSupportPlansWithPolicy ops input policy = .ok result →
        FamiliesApart points result := by
  intro h
  have hapart := h _ squarePoints squareOps (modifierInput 2) exact_squareOps
    (fun analysis heq => by cases heq; exact territoriesApart_modifierAnalysis)
    .Degrade _ (tryAggregate_degrade exact_squareOps.symmetricOverlap _)
  have hbases := basesApart_of_familiesApart exact_squareOps hapart modifierAnalysis rfl
  have hadmitted : ∀ tagged ∈ (modifierInput 2).entries,
      Admits squareOps (modifierInput 2) tagged := by decide +kernel
  have hkept : ∀ tagged ∈ (modifierInput 2).entries, (⟨0, 0⟩ : Point2) ∈ covered squarePoints
      (keptRegions squareOps modifierAnalysis tagged.2 tagged.2.regions) := by
    simp only [mem_covered_squares]
    decide +kernel
  have htree : (0, bodyEntry 1 "tree") ∈ (modifierInput 2).entries := by decide +kernel
  have hnormal : (1, bodyEntry 2 "normal") ∈ (modifierInput 2).entries := by decide +kernel
  have hdisjoint := hbases (bodyEntry 1 "tree") (mem_admitted.mpr ⟨0, htree, hadmitted _ htree⟩)
    (bodyEntry 2 "normal") (mem_admitted.mpr ⟨1, hnormal, hadmitted _ hnormal⟩)
    (by decide +kernel) rfl rfl (by decide) (by decide +kernel) (by decide +kernel)
  exact Set.disjoint_left.mp hdisjoint (hkept _ htree) (hkept _ hnormal)

end PinchNPrint.Support
