/-
What aggregation retains and reports.

Under the degrading policy every entry is admitted, refused, declined or rejected by itself
(`foldlM_admitEntry`). The entries that are admitted are merged into groups, and an entry is
retained if it is what clipping leaves of a group and conflicts with no other one
(`mem_retained_iff`).
-/

import PinchNPrint.Lib.Carving
import PinchNPrint.Support.Aggregation

namespace PinchNPrint.Support

open Carving
open Region (ExPolygon Point2)

section Admission

variable {F : Type} [Field F] [LinearOrder F] (ops : SupportOps F)
  (input : SupportAggregationInput F)

/-! ### One entry -/

omit [Field F] in
/-- The violation of an entry that does not own its region. -/
def refusal (tagged : Nat × SupportPlanEntry F) : Option OwnershipViolation :=
  match checkOwnership tagged.2 tagged.1 input with
  | .error violation => some violation
  | .ok () => none

/-- Why an entry is rejected that owns its region and is not declined. -/
def rejection (tagged : Nat × SupportPlanEntry F) : Option String :=
  if refusal input tagged = none ∧ tagged.2.declineReason = none then
    validateEntry ops tagged.2 input.exactZ
  else none

/-- The entry owns its region and is neither declined nor rejected. -/
def Admits (tagged : Nat × SupportPlanEntry F) : Prop :=
  refusal input tagged = none ∧ tagged.2.declineReason = none ∧
    validateEntry ops tagged.2 input.exactZ = none

instance (tagged : Nat × SupportPlanEntry F) : Decidable (Admits ops input tagged) :=
  inferInstanceAs (Decidable (_ ∧ _ ∧ _))

/-- The diagnostics of an entry that is declined or rejected. -/
def entryDiagnostics (tagged : Nat × SupportPlanEntry F) : List SupportRoutingDiagnostics :=
  match refusal input tagged, tagged.2.declineReason with
  | none, some reason => routingDiagnostics tagged.2 ("declined: " ++ reason.debug)
  | _, _ => (rejection ops input tagged).toList.flatMap (routingDiagnostics tagged.2)

/-- What the loop over the entries adds to a result. -/
def admission (start : SupportAggregationResult F) (l : List (Nat × SupportPlanEntry F)) :
    SupportAggregationResult F :=
  { start with
    retained := start.retained ++ (l.filter (Admits ops input ·)).map Prod.snd
    unmet := start.unmet ++ l.flatMap fun tagged =>
      (rejection ops input tagged).toList.flatMap (unmetDemands tagged.2)
    degraded := start.degraded || l.any fun tagged =>
      (refusal input tagged).isSome || (rejection ops input tagged).isSome
    ownershipViolations := start.ownershipViolations ++ l.filterMap (refusal input)
    diagnostics := start.diagnostics ++ l.flatMap (entryDiagnostics ops input) }

theorem admitEntry_degrade (result : SupportAggregationResult F)
    (tagged : Nat × SupportPlanEntry F) :
    admitEntry ops input .Degrade result tagged = .ok (admission ops input result [tagged]) := by
  obtain ⟨planIndex, entry⟩ := tagged
  cases howns : checkOwnership entry planIndex input with
  | error violation =>
    simp [admitEntry, admission, howns, refusal, rejection, Admits, entryDiagnostics]
  | ok _ =>
    cases hdecline : entry.declineReason with
    | some reason =>
      simp [admitEntry, admission, howns, hdecline, refusal, rejection, Admits, entryDiagnostics]
    | none =>
      cases hvalid : validateEntry ops entry input.exactZ with
      | none =>
        simp [admitEntry, admission, howns, hdecline, hvalid, refusal, rejection, Admits,
          entryDiagnostics]
      | some reason =>
        simp [admitEntry, admission, howns, hdecline, hvalid, refusal, rejection, Admits,
          entryDiagnostics, recordRejection]

theorem admission_append (start : SupportAggregationResult F) (l l' : List (Nat × SupportPlanEntry F)) :
    admission ops input (admission ops input start l) l' = admission ops input start (l ++ l') := by
  simp [admission, Bool.or_assoc]

/-- The loop over the entries: each is admitted or reported by itself. -/
theorem foldlM_admitEntry (start : SupportAggregationResult F)
    (l : List (Nat × SupportPlanEntry F)) :
    l.foldlM (admitEntry ops input .Degrade) start = .ok (admission ops input start l) := by
  induction l generalizing start with
  | nil =>
    simp [admission]
    rfl
  | cons tagged l ih =>
    rw [List.foldlM_cons, admitEntry_degrade, Except.ok_bind, ih, admission_append]
    rfl

theorem admitEntry_fail (result : SupportAggregationResult F)
    (tagged : Nat × SupportPlanEntry F) :
    (refusal input tagged = none ∧
        admitEntry ops input .Fail result tagged = .ok (admission ops input result [tagged])) ∨
      refusal input tagged ≠ none ∧ ∃ error,
        admitEntry ops input .Fail result tagged = .error error := by
  have hsame := admitEntry_degrade ops input result tagged
  obtain ⟨planIndex, entry⟩ := tagged
  cases howns : checkOwnership entry planIndex input with
  | error violation =>
    exact Or.inr ⟨by simp [refusal, howns], _, by simp only [admitEntry, howns]; rfl⟩
  | ok _ =>
    refine Or.inl ⟨by simp [refusal, howns], ?_⟩
    rw [← hsame]
    simp only [admitEntry, howns]

/-- Under the failing policy the loop comes to an end if every entry owns its region. -/
theorem foldlM_admitEntry_fail (start : SupportAggregationResult F)
    (l : List (Nat × SupportPlanEntry F)) :
    ((∀ tagged ∈ l, refusal input tagged = none) ∧
        l.foldlM (admitEntry ops input .Fail) start = .ok (admission ops input start l)) ∨
      (∃ tagged ∈ l, refusal input tagged ≠ none) ∧
        ∃ error, l.foldlM (admitEntry ops input .Fail) start = .error error := by
  induction l generalizing start with
  | nil => exact Or.inl ⟨by simp, by simp [admission]; rfl⟩
  | cons tagged l ih =>
    rw [List.foldlM_cons]
    rcases admitEntry_fail ops input start tagged with ⟨howns, hok⟩ | ⟨hrefused, error, herror⟩
    · rw [hok, Except.ok_bind]
      rcases ih (admission ops input start [tagged]) with ⟨hall, hfold⟩ | ⟨⟨other, hmem, h⟩, hfold⟩
      · refine Or.inl ⟨List.forall_mem_cons.mpr ⟨howns, hall⟩, ?_⟩
        rw [hfold, admission_append]
        rfl
      · exact Or.inr ⟨⟨other, List.mem_cons_of_mem _ hmem, h⟩, hfold⟩
    · rw [herror]
      exact Or.inr ⟨⟨tagged, List.mem_cons_self, hrefused⟩, error, rfl⟩

/-! ### The groups -/

/-- The entries that are admitted, in their order. -/
def admitted : List (SupportPlanEntry F) :=
  (input.sortedEntries.filter (Admits ops input ·)).map Prod.snd

/-- The merged entries as they are clipped. -/
def clippedGroups : List (SupportPlanEntry F) :=
  (unionSameFamilyEntries (admitted ops input)).filterMap (clipEntry ops input)

/-- The entry conflicts with one of another family. -/
def conflicted (entry : SupportPlanEntry F) : Bool :=
  (clippedGroups ops input).any (familiesConflict ops input entry ·)

/-- The result before the loop over the entries. -/
def startResult : SupportAggregationResult F :=
  { raftPlan := input.plans.foldl (fun merged plan => mergeRaftPlans merged plan.raftPlan) none }

/-- The result under the degrading policy. -/
def outcome : SupportAggregationResult F :=
  let loop := admission ops input (startResult input) input.sortedEntries
  let rejected := (clippedGroups ops input).filter (conflicted ops input ·)
  let reason := "body rejected: cross-family positive-area overlap"
  { loop with
    retained := (clippedGroups ops input).filter fun entry => !conflicted ops input entry
    unmet := loop.unmet ++ rejected.flatMap (unmetDemands · reason)
    degraded := loop.degraded || (clippedGroups ops input).any (conflicted ops input)
    clipped := (unionSameFamilyEntries (admitted ops input)).filterMap (clippedBody ops input)
    diagnostics := loop.diagnostics ++ rejected.flatMap (routingDiagnostics · reason) }

/-- Whether two polygons overlap does not depend on which comes first. -/
def SymmetricOverlap : Prop :=
  ∀ left right, polygonsOverlap ops left right = polygonsOverlap ops right left

variable {ops input} {entry : SupportPlanEntry F}

theorem mem_admitted :
    entry ∈ admitted ops input ↔
      ∃ planIndex, (planIndex, entry) ∈ input.entries ∧ Admits ops input (planIndex, entry) := by
  simp [admitted, SupportAggregationInput.sortedEntries]

omit [Field F] in
theorem mem_sortedEntries {tagged : Nat × SupportPlanEntry F} :
    tagged ∈ input.sortedEntries ↔ tagged ∈ input.entries :=
  List.mem_insertionSort _

theorem entriesOverlap_comm (hsymm : SymmetricOverlap ops) (a b : SupportPlanEntry F) :
    entriesOverlap ops a b = entriesOverlap ops b a := by
  rw [Bool.eq_iff_iff]
  simp only [entriesOverlap, List.any_eq_true]
  constructor
  · rintro ⟨left, hleft, right, hright, hoverlap⟩
    exact ⟨right, hright, left, hleft, hsymm left right ▸ hoverlap⟩
  · rintro ⟨right, hright, left, hleft, hoverlap⟩
    exact ⟨left, hleft, right, hright, hsymm left right ▸ hoverlap⟩

omit [Field F] [LinearOrder F] in
theorem entryHasTerritory_congr {a b : SupportPlanEntry F} (hobject : a.objectId = b.objectId)
    (hlayer : a.globalLayerIndex = b.globalLayerIndex) :
    entryHasTerritory input a = entryHasTerritory input b := by
  rw [entryHasTerritory, entryHasTerritory, hobject, hlayer]

theorem familiesConflict_iff {a b : SupportPlanEntry F} :
    familiesConflict ops input a b = true ↔
      a.objectId = b.objectId ∧ a.globalLayerIndex = b.globalLayerIndex ∧
        a.familyId ≠ b.familyId ∧ entryHasTerritory input a = false ∧
          entriesOverlap ops a b = true := by
  simp [familiesConflict, and_assoc]

theorem familiesConflict_comm (hsymm : SymmetricOverlap ops) (a b : SupportPlanEntry F) :
    familiesConflict ops input a b = familiesConflict ops input b a := by
  have hone : ∀ a b : SupportPlanEntry F, familiesConflict ops input a b = true →
      familiesConflict ops input b a = true := by
    intro a b h
    obtain ⟨hobject, hlayer, hfamily, hterritory, hoverlap⟩ := familiesConflict_iff.mp h
    refine familiesConflict_iff.mpr ⟨hobject.symm, hlayer.symm, hfamily.symm, ?_, ?_⟩
    · rw [← entryHasTerritory_congr hobject hlayer, hterritory]
    · rw [entriesOverlap_comm hsymm, hoverlap]
  rw [Bool.eq_iff_iff]
  exact ⟨hone a b, hone b a⟩

theorem markRejected_eq (hsymm : SymmetricOverlap ops) (before l : List (SupportPlanEntry F)) :
    markRejected ops input before l =
      l.map fun entry => (entry, (before ++ l).any (familiesConflict ops input entry ·)) := by
  induction l generalizing before with
  | nil => rfl
  | cons entry rest ih =>
    have hself : familiesConflict ops input entry entry = false := by
      simp [familiesConflict]
    have hbefore : before.any (familiesConflict ops input · entry) =
        before.any (familiesConflict ops input entry ·) :=
      List.any_congr rfl fun other => familiesConflict_comm hsymm other entry
    rw [markRejected, ih, hbefore]
    simp [hself]

omit [Field F] [LinearOrder F] in
theorem foldl_takeRejected (start : SupportAggregationResult F)
    (l : List (SupportPlanEntry F × Bool)) :
    l.foldl takeRejected start =
      { start with
        retained := start.retained ++ (l.filter (!·.2)).map Prod.fst
        unmet := start.unmet ++ (l.filter (·.2)).flatMap fun marked =>
          unmetDemands marked.1 "body rejected: cross-family positive-area overlap"
        degraded := start.degraded || l.any (·.2)
        diagnostics := start.diagnostics ++ (l.filter (·.2)).flatMap fun marked =>
          routingDiagnostics marked.1 "body rejected: cross-family positive-area overlap" } := by
  induction l generalizing start with
  | nil => simp
  | cons marked rest ih =>
    obtain ⟨entry, flag⟩ := marked
    rw [List.foldl_cons, ih]
    cases flag with
    | true => simp [takeRejected, recordRejection]
    | false => simp [takeRejected]

theorem rejectConflicts_eq (hsymm : SymmetricOverlap ops) (result : SupportAggregationResult F) :
    rejectConflicts ops input result =
      let conflicts := fun entry => result.retained.any (familiesConflict ops input entry ·)
      let reason := "body rejected: cross-family positive-area overlap"
      { result with
        retained := result.retained.filter fun entry => !conflicts entry
        unmet := result.unmet ++ (result.retained.filter conflicts).flatMap (unmetDemands · reason)
        degraded := result.degraded || result.retained.any conflicts
        diagnostics := result.diagnostics ++
          (result.retained.filter conflicts).flatMap (routingDiagnostics · reason) } := by
  rw [rejectConflicts, markRejected_eq hsymm, foldl_takeRejected]
  simp [List.filter_map, List.flatMap_map, Function.comp_def]

/-- Aggregation under the degrading policy. -/
theorem tryAggregate_degrade (hsymm : SymmetricOverlap ops) (input : SupportAggregationInput F) :
    tryAggregateSupportPlansWithPolicy ops input .Degrade = .ok (outcome ops input) := by
  rw [tryAggregateSupportPlansWithPolicy]
  simp only [foldlM_admitEntry, Except.ok_bind]
  rw [rejectConflicts_eq hsymm]
  rfl

/-- Under the failing policy the result is the same, if every entry owns its region. -/
theorem tryAggregate_fail (hsymm : SymmetricOverlap ops) (input : SupportAggregationInput F) :
    ((∀ tagged ∈ input.entries, refusal input tagged = none) ∧
        tryAggregateSupportPlansWithPolicy ops input .Fail = .ok (outcome ops input)) ∨
      (∃ tagged ∈ input.entries, refusal input tagged ≠ none) ∧
        ∃ error, tryAggregateSupportPlansWithPolicy ops input .Fail = .error error := by
  have hsame := tryAggregate_degrade hsymm input
  have hmem : ∀ tagged, tagged ∈ input.sortedEntries ↔ tagged ∈ input.entries := fun _ =>
    List.mem_insertionSort _
  rw [tryAggregateSupportPlansWithPolicy] at hsame ⊢
  simp only [foldlM_admitEntry, Except.ok_bind] at hsame
  simp only [← hmem]
  obtain ⟨hall, hfold⟩ | ⟨hrefused, error, hfold⟩ :=
    foldlM_admitEntry_fail ops input (startResult input) input.sortedEntries
  · refine Or.inl ⟨hall, ?_⟩
    rw [startResult] at hfold
    rw [hfold]
    exact hsame
  · refine Or.inr ⟨hrefused, error, ?_⟩
    rw [startResult] at hfold
    rw [hfold]
    rfl

/-- Under either policy there is only one result. -/
theorem eq_outcome_of_tryAggregate (hsymm : SymmetricOverlap ops) {policy : FamilyConflictPolicy}
    {result : SupportAggregationResult F}
    (h : tryAggregateSupportPlansWithPolicy ops input policy = .ok result) :
    result = outcome ops input := by
  cases policy with
  | Degrade =>
    rw [tryAggregate_degrade hsymm] at h
    cases h
    rfl
  | Fail =>
    obtain ⟨_, hok⟩ | ⟨_, _, herror⟩ := tryAggregate_fail hsymm input
    · rw [hok] at h
      cases h
      rfl
    · rw [herror] at h
      cases h

theorem mem_clippedGroups :
    entry ∈ clippedGroups ops input ↔
      ∃ merged ∈ unionSameFamilyEntries (admitted ops input),
        clipEntry ops input merged = some entry :=
  List.mem_filterMap

theorem mem_retained_iff :
    entry ∈ (outcome ops input).retained ↔
      entry ∈ clippedGroups ops input ∧
        ∀ other ∈ clippedGroups ops input, familiesConflict ops input entry other = false := by
  simp only [outcome, conflicted, List.mem_filter, Bool.not_eq_true', List.any_eq_false,
    Bool.not_eq_true]

end Admission

/-! ### Merged entries -/

section Merged

variable {F : Type} {merged entry : SupportPlanEntry F} {group : List (SupportPlanEntry F)}

theorem mem_dedupSorted {values : List String} {value : String} :
    value ∈ dedupSorted values ↔ value ∈ values := by
  simp [dedupSorted]

theorem pairwise_dedupSorted (values : List String) : (dedupSorted values).Pairwise (· ≤ ·) :=
  List.pairwise_insertionSort _ _

theorem dedupSorted_congr {values values' : List String}
    (h : ∀ value, value ∈ values ↔ value ∈ values') : dedupSorted values = dedupSorted values' := by
  have hperm : (dedupSorted values).Perm (dedupSorted values') := by
    rw [List.perm_ext_iff_of_nodup]
    · intro value
      rw [mem_dedupSorted, mem_dedupSorted, h]
    · exact (List.perm_insertionSort _ _).nodup_iff.mpr (List.nodup_eraseDups _)
    · exact (List.perm_insertionSort _ _).nodup_iff.mpr (List.nodup_eraseDups _)
  exact hperm.eq_of_pairwise' (pairwise_dedupSorted _) (pairwise_dedupSorted _)

theorem mergeKey_mergeEntry (a b : SupportPlanEntry F) : (mergeEntry a b).mergeKey = a.mergeKey :=
  rfl

theorem mem_unionSameFamilyEntries [DecidableEq F] {entries : List (SupportPlanEntry F)} :
    merged ∈ unionSameFamilyEntries entries ↔
      List.mergeGroup mergeEntry (entries.filter (·.mergeKey = merged.mergeKey)) = some merged :=
  List.mem_mergeBy_iff mergeKey_mergeEntry

theorem exists_merged [DecidableEq F] {entries : List (SupportPlanEntry F)} (h : entry ∈ entries) :
    ∃ merged ∈ unionSameFamilyEntries entries, merged.mergeKey = entry.mergeKey :=
  List.exists_mem_mergeBy mergeKey_mergeEntry h

theorem exists_part [DecidableEq F] {entries : List (SupportPlanEntry F)}
    (h : merged ∈ unionSameFamilyEntries entries) :
    ∃ entry ∈ entries, entry.mergeKey = merged.mergeKey := by
  have hgroup := mem_unionSameFamilyEntries.mp h
  have hne : entries.filter (·.mergeKey = merged.mergeKey) ≠ [] :=
    List.mergeGroup_isSome_iff.mp (Option.isSome_iff_exists.mpr ⟨merged, hgroup⟩)
  obtain ⟨entry, hentry⟩ := List.exists_mem_of_ne_nil _ hne
  obtain ⟨hentry, hkey⟩ := List.mem_filter.mp hentry
  exact ⟨entry, hentry, of_decide_eq_true hkey⟩

theorem list_merged {f : SupportPlanEntry F → List String}
    (hf : ∀ a b, f (mergeEntry a b) = dedupSorted (f a ++ f b))
    (h : List.mergeGroup mergeEntry group = some merged) :
    (∀ value, value ∈ f merged ↔ ∃ entry ∈ group, value ∈ f entry) ∧
      (2 ≤ group.length → f merged = dedupSorted (group.flatMap f)) := by
  refine List.mergeGroup_induction
    (P := fun group merged => (∀ value, value ∈ f merged ↔ ∃ entry ∈ group, value ∈ f entry) ∧
      (2 ≤ group.length → f merged = dedupSorted (group.flatMap f)))
    (fun a => by simp) (fun group m a ih => ?_) h
  rw [hf]
  constructor
  · intro value
    simp [mem_dedupSorted, ih.1, or_and_right, exists_or]
  · intro _
    refine dedupSorted_congr fun value => ?_
    simp [ih.1]

/-- A property that regions have together if a part of them has it. -/
def Additive (Q : List ExPolygon → Prop) : Prop :=
  ∀ regions more, Q (regions ++ more) ↔ Q regions ∨ Q more

variable {Q : List ExPolygon → Prop}

theorem exists_role_mergeInto (hQ : Additive Q) (roles : List SupportPlanRoleRegion)
    (incoming : SupportPlanRoleRegion) :
    (∃ role ∈ List.mergeInto SupportPlanRoleRegion.role mergeRole roles incoming, Q role.regions) ↔
      (∃ role ∈ roles, Q role.regions) ∨ Q incoming.regions := by
  induction roles with
  | nil => simp [List.mergeInto]
  | cons first rest ih =>
    rw [List.mergeInto]
    split
    · have hmerged : Q (mergeRole first incoming).regions ↔ Q first.regions ∨ Q incoming.regions :=
        hQ _ _
      simp only [List.mem_cons, exists_eq_or_imp, hmerged]
      exact or_right_comm
    · simp only [List.mem_cons, exists_eq_or_imp, ih, or_assoc]

theorem exists_role_foldl (hQ : Additive Q) (incoming : List SupportPlanRoleRegion)
    (roles : List SupportPlanRoleRegion) :
    (∃ role ∈ incoming.foldl (List.mergeInto SupportPlanRoleRegion.role mergeRole) roles,
        Q role.regions) ↔
      (∃ role ∈ roles, Q role.regions) ∨ ∃ role ∈ incoming, Q role.regions := by
  induction incoming generalizing roles with
  | nil => simp
  | cons first rest ih =>
    rw [List.foldl_cons, ih, exists_role_mergeInto hQ]
    simp only [List.mem_cons, exists_eq_or_imp, or_assoc]

theorem exists_role_merged (hQ : Additive Q) (h : List.mergeGroup mergeEntry group = some merged) :
    (∃ role ∈ merged.roles, Q role.regions) ↔
      ∃ entry ∈ group, ∃ role ∈ entry.roles, Q role.regions := by
  refine List.mergeGroup_induction
    (P := fun group (merged : SupportPlanEntry F) => (∃ role ∈ merged.roles, Q role.regions) ↔
      ∃ entry ∈ group, ∃ role ∈ entry.roles, Q role.regions)
    (fun a => by simp) (fun group m a ih => ?_) h
  rw [show (mergeEntry m a).roles =
    a.roles.foldl (List.mergeInto SupportPlanRoleRegion.role mergeRole) m.roles from rfl,
    exists_role_foldl hQ, ih]
  simp only [List.mem_append, List.mem_singleton, or_and_right, exists_or, exists_eq_left]

end Merged

/-! ### Exact polygon operations -/

section Clipping

variable {F P : Type} [Field F] [LinearOrder F]

/-- The booleans are the operations on sets of points, growing a shape covers it, and an
intersection has a positive area exactly where it has points. -/
structure ExactSupportOps (points : ExPolygon → Set P) (ops : SupportOps F) : Prop where
  intersection : ExactOp points ops.intersection (· ∩ ·)
  difference : ExactOp points ops.difference (· \ ·)
  grows : ∀ shapes distance, 0 < distance →
    covered points shapes ⊆ covered points (ops.offset shapes distance)
  positive : ∀ a b, 0 < ((ops.intersection a b).map (expolygonArea (F := F))).sum ↔
    (covered points (ops.intersection a b)).Nonempty

/-- The points of an entry. -/
def footprint (points : ExPolygon → Set P) (entry : SupportPlanEntry F) : Set P :=
  covered points entry.regions

/-- What clipping an entry keeps of the regions of one of its roles. -/
def keptRegions (ops : SupportOps F) (analysis : SupportAnalysisIR F) (entry : SupportPlanEntry F)
    (regions : List ExPolygon) : List ExPolygon :=
  (clip ops analysis entry.globalLayerIndex.toNat entry.source entry.familyId regions).getD regions

variable {points : ExPolygon → Set P} {ops : SupportOps F} {analysis : SupportAnalysisIR F}
  {input : SupportAggregationInput F} {entry a b : SupportPlanEntry F}

theorem ExactSupportOps.polygonsOverlap_iff (h : ExactSupportOps points ops)
    {left right : ExPolygon} :
    polygonsOverlap ops left right = true ↔ (points left ∩ points right).Nonempty := by
  rw [polygonsOverlap, decide_eq_true_iff, h.positive, h.intersection.covered_op,
    covered_singleton, covered_singleton]

theorem ExactSupportOps.symmetricOverlap (h : ExactSupportOps points ops) : SymmetricOverlap ops := by
  intro left right
  rw [Bool.eq_iff_iff, h.polygonsOverlap_iff, h.polygonsOverlap_iff, Set.inter_comm]

omit [Field F] [LinearOrder F] in
theorem mem_footprint {x : P} :
    x ∈ footprint points entry ↔ ∃ role ∈ entry.roles, x ∈ covered points role.regions := by
  constructor
  · rintro ⟨region, hregion, hx⟩
    obtain ⟨role, hrole, hregion⟩ := List.mem_flatMap.mp hregion
    exact ⟨role, hrole, region, hregion, hx⟩
  · rintro ⟨role, hrole, region, hregion, hx⟩
    exact ⟨region, List.mem_flatMap.mpr ⟨role, hrole, hregion⟩, hx⟩

theorem ExactSupportOps.entriesOverlap_iff (h : ExactSupportOps points ops) :
    entriesOverlap ops a b = true ↔ (footprint points a ∩ footprint points b).Nonempty := by
  simp only [entriesOverlap, List.any_eq_true, h.polygonsOverlap_iff]
  constructor
  · rintro ⟨left, hleft, right, hright, x, hx, hx'⟩
    exact ⟨x, ⟨left, hleft, hx⟩, right, hright, hx'⟩
  · rintro ⟨x, ⟨left, hleft, hx⟩, right, hright, hx'⟩
    exact ⟨left, hleft, right, hright, x, hx, hx'⟩

omit [Field F] [LinearOrder F] in
@[simp] theorem objectId_source (entry : SupportPlanEntry F) :
    entry.source.objectId = entry.objectId := rfl

/-- What clipping does to the regions of an entry: they are cut to the territory of their
region, or freed of that of other families, or kept. -/
theorem keptRegions_cases (ops : SupportOps F) (analysis : SupportAnalysisIR F)
    (entry : SupportPlanEntry F) :
    let layer := entry.globalLayerIndex.toNat
    (∃ own, analysis.regionTerritory layer entry.source = some own ∧
      ∀ regions, keptRegions ops analysis entry regions = ops.intersection regions own) ∨
    analysis.regionTerritory layer entry.source = none ∧
      ((∃ partition, analysis.territoryPartition entry.objectId layer entry.familyId =
            some partition ∧ partition.foreign ≠ [] ∧
          ∀ regions, keptRegions ops analysis entry regions = ops.difference regions
            (inflateForeign ops partition.foreign (analysis.clearanceMm ops))) ∨
        (∀ partition, analysis.territoryPartition entry.objectId layer entry.familyId =
            some partition → partition.foreign = []) ∧
          ∀ regions, keptRegions ops analysis entry regions = regions) := by
  intro layer
  cases hown : analysis.regionTerritory layer entry.source with
  | some own => exact Or.inl ⟨own, rfl, fun regions => by simp [keptRegions, clip, layer, hown]⟩
  | none =>
    refine Or.inr ⟨rfl, ?_⟩
    cases hpartition : analysis.territoryPartition entry.objectId layer entry.familyId with
    | none =>
      refine Or.inr ⟨fun _ h => ?_, fun regions => ?_⟩
      · cases h
      · simp [keptRegions, clip, layer, hown, hpartition]
    | some partition =>
      by_cases hforeign : partition.foreign = []
      · refine Or.inr ⟨fun _ h => ?_, fun regions => by
          simp [keptRegions, clip, layer, hown, hpartition, hforeign]⟩
        cases h
        exact hforeign
      · exact Or.inl ⟨partition, rfl, hforeign, fun regions => by
          simp [keptRegions, clip, layer, hown, hpartition, hforeign]⟩

/-- Clipping cuts the regions to one set of points, and leaves none without a point. -/
theorem ExactSupportOps.keptRegions (h : ExactSupportOps points ops)
    (analysis : SupportAnalysisIR F) (entry : SupportPlanEntry F) :
    ∃ allowed : Set P,
      (∀ regions, covered points (Support.keptRegions ops analysis entry regions) =
        covered points regions ∩ allowed) ∧
      ((∀ regions, Support.keptRegions ops analysis entry regions = [] ↔
          covered points regions ∩ allowed = ∅) ∨
        ∀ regions, Support.keptRegions ops analysis entry regions = regions) := by
  rcases keptRegions_cases ops analysis entry with ⟨own, _, hkept⟩ |
    ⟨_, ⟨partition, _, _, hkept⟩ | ⟨_, hkept⟩⟩
  · refine ⟨covered points own, fun regions => ?_, Or.inl fun regions => ?_⟩
    · rw [hkept, h.intersection.covered_op]
    · rw [hkept, ← List.isEmpty_iff, h.intersection.isEmpty_iff]
  · refine ⟨(covered points (inflateForeign ops partition.foreign (analysis.clearanceMm ops)))ᶜ,
      fun regions => ?_, Or.inl fun regions => ?_⟩
    · rw [hkept, h.difference.covered_op, Set.sdiff_eq]
    · rw [hkept, ← List.isEmpty_iff, h.difference.isEmpty_iff, Set.sdiff_eq]
  · exact ⟨Set.univ, fun regions => by rw [hkept, Set.inter_univ], Or.inr hkept⟩

theorem ExactSupportOps.additive_mem_keptRegions (h : ExactSupportOps points ops)
    (analysis : SupportAnalysisIR F) (entry : SupportPlanEntry F) (x : P) :
    Additive fun regions => x ∈ covered points (Support.keptRegions ops analysis entry regions) := by
  obtain ⟨allowed, hcovered, _⟩ := h.keptRegions analysis entry
  intro regions more
  simp only [hcovered, covered_append, Set.mem_inter_iff, Set.mem_union, or_and_right]

theorem ExactSupportOps.additive_keptRegions (h : ExactSupportOps points ops)
    (analysis : SupportAnalysisIR F) (entry : SupportPlanEntry F) :
    Additive fun regions => Support.keptRegions ops analysis entry regions ≠ [] := by
  obtain ⟨allowed, _, hempty | hkept⟩ := h.keptRegions analysis entry
  · intro regions more
    show ¬ _ ↔ ¬ _ ∨ ¬ _
    rw [hempty, hempty, hempty, covered_append, Set.union_inter_distrib_right, Set.union_empty_iff,
      not_and_or]
  · intro regions more
    show ¬ _ ↔ ¬ _ ∨ ¬ _
    rw [hkept, hkept, hkept, List.append_eq_nil_iff, not_and_or]

/-- Clipping reads nothing of an entry but its merge key. -/
theorem keptRegions_congr (hkey : a.mergeKey = b.mergeKey) :
    keptRegions ops analysis a = keptRegions ops analysis b := by
  simp only [SupportPlanEntry.mergeKey, MergeKey.mk.injEq] at hkey
  obtain ⟨hfamily, hlayer, hobject, hregion, hchain, _⟩ := hkey
  funext regions
  rw [keptRegions, keptRegions, SupportPlanEntry.source, SupportPlanEntry.source, hfamily, hlayer,
    hobject, hregion, hchain]

theorem roles_clipRoles :
    (clipRoles ops analysis entry).roles =
      (entry.roles.map fun role =>
        { role with regions := keptRegions ops analysis entry role.regions }).filter
          fun role => !role.regions.isEmpty := by
  rw [clipRoles]
  refine congrArg (List.filter _) (List.map_congr_left fun role _ => ?_)
  rw [keptRegions]
  cases clip ops analysis entry.globalLayerIndex.toNat entry.source entry.familyId role.regions with
  | none => rfl
  | some kept => rfl

theorem mem_clipRoles {role : SupportPlanRoleRegion} :
    role ∈ (clipRoles ops analysis entry).roles ↔
      ∃ before ∈ entry.roles, keptRegions ops analysis entry before.regions ≠ [] ∧
        role = { before with regions := keptRegions ops analysis entry before.regions } := by
  rw [roles_clipRoles, List.mem_filter, List.mem_map]
  constructor
  · rintro ⟨⟨before, hbefore, rfl⟩, hne⟩
    exact ⟨before, hbefore, by simpa using hne, rfl⟩
  · rintro ⟨before, hbefore, hne, rfl⟩
    exact ⟨⟨before, hbefore, rfl⟩, by simpa using hne⟩

theorem isEmpty_clipRoles :
    (clipRoles ops analysis entry).roles.isEmpty = false ↔
      ∃ role ∈ entry.roles, keptRegions ops analysis entry role.regions ≠ [] := by
  rw [← Bool.not_eq_true, List.isEmpty_iff, List.eq_nil_iff_forall_not_mem]
  simp only [not_forall, not_not]
  constructor
  · rintro ⟨_, hrole⟩
    obtain ⟨before, hbefore, hne, _⟩ := mem_clipRoles.mp hrole
    exact ⟨before, hbefore, hne⟩
  · rintro ⟨before, hbefore, hne⟩
    exact ⟨_, mem_clipRoles.mpr ⟨before, hbefore, hne, rfl⟩⟩

theorem mem_footprint_clipRoles {x : P} :
    x ∈ footprint points (clipRoles ops analysis entry) ↔
      ∃ role ∈ entry.roles, x ∈ covered points (keptRegions ops analysis entry role.regions) := by
  rw [mem_footprint]
  constructor
  · rintro ⟨_, hrole, hx⟩
    obtain ⟨before, hbefore, _, rfl⟩ := mem_clipRoles.mp hrole
    exact ⟨before, hbefore, hx⟩
  · rintro ⟨before, hbefore, hx⟩
    have hne : keptRegions ops analysis entry before.regions ≠ [] := by
      intro hnil
      rw [hnil, covered_nil] at hx
      exact hx
    exact ⟨_, mem_clipRoles.mpr ⟨before, hbefore, hne, rfl⟩, hx⟩

/-- An entry without territory is retained as it is. -/
theorem clipEntry_of_no_territory (h : entryHasTerritory input entry = false) :
    clipEntry ops input entry = some entry := by
  rw [clipEntry]
  split
  · rfl
  · rw [h]
    rfl

/-- An entry with territory is clipped, and retained if something is left. -/
theorem clipEntry_of_territory (hanalysis : input.territory = some analysis)
    (h : entryHasTerritory input entry = true) :
    clipEntry ops input entry =
      if (clipRoles ops analysis entry).roles.isEmpty then none
      else some (clipRoles ops analysis entry) := by
  rw [clipEntry, hanalysis]
  simp [h]

/-- Clipping changes the roles only. -/
theorem clipEntry_eq_some (h : clipEntry ops input a = some b) : b = { a with roles := b.roles } := by
  rw [clipEntry] at h
  split at h
  · cases h
    rfl
  · split at h
    · dsimp only at h
      split at h
      · cases h
      · cases h
        rfl
    · cases h
      rfl

theorem conflicted_of_territory (h : entryHasTerritory input entry = true) :
    conflicted ops input entry = false := by
  simp [conflicted, familiesConflict, h]

omit [Field F] [LinearOrder F] in
theorem exists_analysis (h : entryHasTerritory input entry = true) :
    ∃ analysis, input.territory = some analysis ∧ 0 ≤ entry.globalLayerIndex ∧
      analysis.hasTerritory entry.objectId entry.globalLayerIndex.toNat = true := by
  rw [entryHasTerritory] at h
  split at h
  · cases h
  · rename_i analysis hanalysis
    rw [Bool.and_eq_true, decide_eq_true_iff] at h
    exact ⟨analysis, hanalysis, h⟩

end Clipping

/-! ### Overlaps of merged entries -/

section Overlaps

variable {F : Type} [Field F] [LinearOrder F] {ops : SupportOps F}
  {input : SupportAggregationInput F} {entry merged : SupportPlanEntry F}

/-- The entries that are merged with an admitted one. -/
def partsOf (ops : SupportOps F) (input : SupportAggregationInput F) (entry : SupportPlanEntry F) :
    List (SupportPlanEntry F) :=
  (admitted ops input).filter (·.mergeKey = entry.mergeKey)

section

omit [Field F] [LinearOrder F]

theorem exists_region_iff {Q : ExPolygon → Prop} :
    (∃ region ∈ entry.regions, Q region) ↔
      ∃ role ∈ entry.roles, ∃ region ∈ role.regions, Q region := by
  constructor
  · rintro ⟨region, hregion, hQ⟩
    obtain ⟨role, hrole, hregion⟩ := List.mem_flatMap.mp hregion
    exact ⟨role, hrole, region, hregion, hQ⟩
  · rintro ⟨role, hrole, region, hregion, hQ⟩
    exact ⟨region, List.mem_flatMap.mpr ⟨role, hrole, hregion⟩, hQ⟩

theorem exists_region_merged {Q : ExPolygon → Prop} {group : List (SupportPlanEntry F)}
    (h : List.mergeGroup mergeEntry group = some merged) :
    (∃ region ∈ merged.regions, Q region) ↔ ∃ part ∈ group, ∃ region ∈ part.regions, Q region := by
  have hadditive : Additive fun regions => ∃ region ∈ regions, Q region := by
    intro regions more
    simp only [List.mem_append, or_and_right, exists_or]
  simp only [exists_region_iff]
  exact exists_role_merged hadditive h

end

theorem entriesOverlap_merged {rival : SupportPlanEntry F}
    {group rivals : List (SupportPlanEntry F)}
    (h : List.mergeGroup mergeEntry group = some merged)
    (hrival : List.mergeGroup mergeEntry rivals = some rival) :
    entriesOverlap ops merged rival = true ↔
      ∃ part ∈ group, ∃ part' ∈ rivals, entriesOverlap ops part part' = true := by
  have hregions : ∀ a b : SupportPlanEntry F, entriesOverlap ops a b = true ↔
      ∃ left ∈ a.regions, ∃ right ∈ b.regions, polygonsOverlap ops left right = true := by
    intro a b
    simp only [entriesOverlap, List.any_eq_true]
  simp only [hregions, exists_region_merged h, exists_region_merged hrival]
  constructor
  · rintro ⟨part, hpart, left, hleft, part', hpart', hright⟩
    exact ⟨part, hpart, part', hpart', left, hleft, hright⟩
  · rintro ⟨part, hpart, part', hpart', left, hleft, hright⟩
    exact ⟨part, hpart, left, hleft, part', hpart', hright⟩

theorem exists_conflict_iff (hmerged : merged ∈ unionSameFamilyEntries (admitted ops input))
    (hterritory : entryHasTerritory input merged = false) :
    (∃ other ∈ clippedGroups ops input, familiesConflict ops input merged other = true) ↔
      ∃ part ∈ partsOf ops input merged, ∃ rival ∈ admitted ops input,
        rival.objectId = merged.objectId ∧ rival.globalLayerIndex = merged.globalLayerIndex ∧
        rival.familyId ≠ merged.familyId ∧ entriesOverlap ops part rival = true := by
  have hgroup := mem_unionSameFamilyEntries.mp hmerged
  constructor
  · rintro ⟨other, hother, hconflict⟩
    obtain ⟨hobject, hlayer, hfamily, _, hoverlap⟩ := familiesConflict_iff.mp hconflict
    obtain ⟨unclipped, hunclipped, hclip⟩ := mem_clippedGroups.mp hother
    have hother' : unclipped = other := by
      cases hunclippedTerritory : entryHasTerritory input unclipped with
      | false =>
        rw [clipEntry_of_no_territory hunclippedTerritory] at hclip
        exact Option.some.inj hclip
      | true =>
        obtain ⟨analysis, hanalysis, _⟩ := exists_analysis hunclippedTerritory
        rw [clipEntry_of_territory hanalysis hunclippedTerritory] at hclip
        split at hclip
        · cases hclip
        · cases hclip
          rw [entryHasTerritory_congr hobject hlayer] at hterritory
          exact absurd (hterritory.symm.trans hunclippedTerritory) Bool.false_ne_true
    subst hother'
    obtain ⟨part, hpart, rival, hrival, hoverlap⟩ :=
      (entriesOverlap_merged hgroup (mem_unionSameFamilyEntries.mp hunclipped)).mp hoverlap
    obtain ⟨hrival, hkey⟩ := List.mem_filter.mp hrival
    have hkey' : rival.mergeKey = unclipped.mergeKey := of_decide_eq_true hkey
    simp only [SupportPlanEntry.mergeKey, MergeKey.mk.injEq] at hkey'
    refine ⟨part, hpart, rival, hrival, ?_, ?_, ?_, hoverlap⟩
    · rw [hkey'.2.2.1, hobject]
    · rw [hkey'.2.1, hlayer]
    · rw [hkey'.1]
      exact hfamily.symm
  · rintro ⟨part, hpart, rival, hrival, hobject, hlayer, hfamily, hoverlap⟩
    obtain ⟨other, hother, hkey⟩ := exists_merged hrival
    have hfields := hkey
    simp only [SupportPlanEntry.mergeKey, MergeKey.mk.injEq] at hfields
    have hobject' : merged.objectId = other.objectId := by rw [hfields.2.2.1, hobject]
    have hlayer' : merged.globalLayerIndex = other.globalLayerIndex := by rw [hfields.2.1, hlayer]
    have hunclipped : clipEntry ops input other = some other :=
      clipEntry_of_no_territory ((entryHasTerritory_congr hobject' hlayer').symm.trans hterritory)
    refine ⟨other, mem_clippedGroups.mpr ⟨other, hother, hunclipped⟩, ?_⟩
    refine familiesConflict_iff.mpr ⟨hobject', hlayer', ?_, hterritory, ?_⟩
    · rw [hfields.1]
      exact hfamily.symm
    · exact (entriesOverlap_merged hgroup (mem_unionSameFamilyEntries.mp hother)).mpr
        ⟨part, hpart, rival, List.mem_filter.mpr ⟨hrival, decide_eq_true hkey.symm⟩, hoverlap⟩

end Overlaps

/-! ### Unit squares -/

/-- The unit square at a point. -/
def unitSquare (p : Point2) : ExPolygon where
  contour := [p, ⟨p.x + 1, p.y⟩, ⟨p.x + 1, p.y + 1⟩, ⟨p.x, p.y + 1⟩]

/-- The squares of some polygons; each stands for the square at its first point. -/
def squares (polygons : List ExPolygon) : List Point2 :=
  polygons.filterMap (·.contour.head?)

/-- The square of a polygon, as a set. -/
def squarePoints (polygon : ExPolygon) : Set Point2 :=
  {p | polygon.contour.head? = some p}

/-- Operations on unit squares, which nothing grows. -/
def squareOps : SupportOps ℚ where
  intersection a b := ((squares a).filter (· ∈ squares b)).map unitSquare
  difference a b := ((squares a).filter (· ∉ squares b)).map unitSquare
  offset polygons _ := polygons
  parseF32 _ := none

theorem mem_covered_squares {polygons : List ExPolygon} {p : Point2} :
    p ∈ covered squarePoints polygons ↔ p ∈ squares polygons := by
  simp [covered, squares, squarePoints]

theorem squares_map_unitSquare (l : List Point2) : squares (l.map unitSquare) = l := by
  simp [squares, List.filterMap_map, unitSquare, Function.comp_def]

theorem expolygonArea_unitSquare (p : Point2) : expolygonArea (F := ℚ) (unitSquare p) = 1 := by
  have hsum : (p.x : ℚ) * p.y - (p.x + 1) * p.y + ((p.x + 1) * (p.y + 1) - (p.x + 1) * p.y +
      ((p.x + 1) * (p.y + 1) - p.x * (p.y + 1) + (p.x * p.y - p.x * (p.y + 1)))) = 2 := by
    ring
  simp [expolygonArea, ringArea, unitSquare, hsum]

theorem exact_squareOps : ExactSupportOps squarePoints squareOps where
  intersection :=
    { covered_op := fun a b => by
        ext p
        simp [mem_covered_squares, squareOps, squares_map_unitSquare]
      nonempty := fun a b polygon hpolygon => by
        obtain ⟨p, _, rfl⟩ := List.mem_map.mp hpolygon
        exact ⟨p, rfl⟩ }
  difference :=
    { covered_op := fun a b => by
        ext p
        simp [mem_covered_squares, squareOps, squares_map_unitSquare]
      nonempty := fun a b polygon hpolygon => by
        obtain ⟨p, _, rfl⟩ := List.mem_map.mp hpolygon
        exact ⟨p, rfl⟩ }
  grows _ _ _ := subset_rfl
  positive a b := by
    have harea : ((squareOps.intersection a b).map (expolygonArea (F := ℚ))).sum =
        ((squares a).filter (· ∈ squares b)).length := by
      simp [squareOps, List.map_map, Function.comp_def, expolygonArea_unitSquare]
    rw [harea, Nat.cast_pos, List.length_pos_iff_exists_mem]
    exact exists_congr fun p => by
      rw [mem_covered_squares, squareOps, squares_map_unitSquare]

end PinchNPrint.Support
