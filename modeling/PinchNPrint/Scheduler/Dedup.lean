/-
Claim deduplication (`slicer-scheduler`: `execution_plan.rs`).

Before a plan is built, the modules of a stage that hold the same claim are cut
down to one. The winner of each claim is fixed first; a module is then dropped as
a whole when it loses one of its claims. A module that wins a claim and loses
another takes the claim it won with it, so
`dedup_keeps_one_holder_iff` asks that no module both wins and loses.
-/

import PinchNPrint.Scheduler.Plan
import PinchNPrint.Scheduler.ClaimScopes

namespace PinchNPrint.Scheduler

open Std hiding compare_eq_iff_eq
open PinchNPrint.Config

variable {F : Type}

/-! ### The passes -/

def PERIMETER_GENERATOR_CLAIM : String := "perimeter-generator"

def CLASSIC_PERIMETERS_MODULE_ID : ModuleId := "com.core.classic-perimeters"

def ARACHNE_PERIMETERS_MODULE_ID : ModuleId := "com.core.arachne-perimeters"

def SUPPORT_GENERATOR_CLAIM : String := "support-generator"

def SUPPORT_PLANNER_CLAIM : String := "support-planner"

inductive DiagnosticLevel where
  | Info
  | Warning
  | Error
deriving DecidableEq

/-- `LoadDiagnostic` at any level. -/
structure LeveledDiagnostic extends LoadDiagnostic where
  level : DiagnosticLevel
deriving DecidableEq

def wallGeneratorPreferredModuleId (wallGenerator : Option (ConfigValue F)) : ModuleId :=
  match wallGenerator with
  | some (.string value) =>
      if value = "arachne" then ARACHNE_PERIMETERS_MODULE_ID else CLASSIC_PERIMETERS_MODULE_ID
  | _ => CLASSIC_PERIMETERS_MODULE_ID

/-- The wall generator that wins the perimeter claim when it is a candidate. -/
def preferredWallGenerator (wallGenerator : Option (ConfigValue F)) (spiralVase : Bool) :
    ModuleId :=
  if spiralVase then CLASSIC_PERIMETERS_MODULE_ID else wallGeneratorPreferredModuleId wallGenerator

namespace Dedup

/-- Claims pass 1 leaves out: the fill roles and the support families. -/
def skippedClaim (claim : String) : Bool :=
  FILL_CLAIM_IDS.contains claim || Text.startsWith claim "support-family:"

/-- The inner loop body of pass 1. -/
def collectCandidate (module : PlannedModule F)
    (candidates : BTreeMap (StageId ×ₗ String) (List ModuleId)) (claim : String) :
    BTreeMap (StageId ×ₗ String) (List ModuleId) :=
  if skippedClaim claim then candidates
  else
    let key := toLex (module.stage, claim)
    candidates.insert key (candidates[key]?.getD [] ++ [module.id])

/-- Pass 1: the modules that hold each claim of a stage. -/
def candidatesFor (sorted : List (PlannedModule F)) :
    BTreeMap (StageId ×ₗ String) (List ModuleId) :=
  sorted.foldl (fun candidates module =>
    module.claims.foldl (collectCandidate module) candidates) ∅

/-- The modules with a support-family claim. -/
def familyScoped (sorted : List (PlannedModule F)) : List ModuleId :=
  (sorted.filter fun module => holdsSupportFamily module.claims).map (·.id)

/-- The loop body of pass 2. -/
def resolveWinner (familyIds : List ModuleId) (preferred : ModuleId) (claim : String)
    (candidateIds : List ModuleId) : Option ModuleId :=
  if candidateIds.length < 2 then none
  else if claim = PERIMETER_GENERATOR_CLAIM ∧ preferred ∈ candidateIds then some preferred
  -- support renderers are selected per region
  else if claim = SUPPORT_GENERATOR_CLAIM then none
  else if claim = SUPPORT_PLANNER_CLAIM then
    let globalCandidates := candidateIds.filter fun id => !familyIds.contains id
    if globalCandidates.length < 2 then none else globalCandidates.head?
  else candidateIds.head?

/-- Pass 2: one winner per contested claim of a stage. -/
def winnerFor (familyIds : List ModuleId) (preferred : ModuleId)
    (candidates : BTreeMap (StageId ×ₗ String) (List ModuleId)) :
    BTreeMap (StageId ×ₗ String) ModuleId :=
  candidates.filterMap fun key ids => resolveWinner familyIds preferred (ofLex key).2 ids

/-- The first claim a module loses, with the winner. -/
def losingClaim (familyIds : List ModuleId) (winners : BTreeMap (StageId ×ₗ String) ModuleId)
    (module : PlannedModule F) : Option (String × ModuleId) :=
  module.claims.findSome? fun claim =>
    if FILL_CLAIM_IDS.contains claim || claim == SUPPORT_GENERATOR_CLAIM ||
        (claim == SUPPORT_PLANNER_CLAIM && familyIds.contains module.id) then none
    else
      match winners[toLex (module.stage, claim)]? with
      | some winner => if winner ≠ module.id then some (claim, winner) else none
      | none => none

/-- The diagnostic of a dropped module. -/
def droppedDiagnostic (module : PlannedModule F) (claim : String) (winner : ModuleId) :
    LeveledDiagnostic where
  level := .Info
  path := module.wasmPath
  field := some "claims.holds"
  message := "module '" ++ module.id ++ "' in stage '" ++ module.stage ++ "' dropped: claim '" ++
    claim ++ "' already held by '" ++ winner ++ "' (first-winner dedup; docs/04 §2)"

/-- The loop body of pass 3. -/
def keepOrDrop (familyIds : List ModuleId) (winners : BTreeMap (StageId ×ₗ String) ModuleId)
    (state : List (PlannedModule F) × List LeveledDiagnostic) (module : PlannedModule F) :
    List (PlannedModule F) × List LeveledDiagnostic :=
  match losingClaim familyIds winners module with
  | some (claim, winner) => (state.1, state.2 ++ [droppedDiagnostic module claim winner])
  | none => (state.1 ++ [module], state.2)

end Dedup

open Dedup

/-- `dedup_same_claim_modules_typed`: the kept modules and the diagnostics. The
support type is not read. -/
def dedupSameClaimModulesTyped (modules : List (PlannedModule F))
    (diagnostics : List LeveledDiagnostic) (wallGenerator : Option (ConfigValue F))
    (spiralVase : Bool) (_supportType : Option String) :
    List (PlannedModule F) × List LeveledDiagnostic :=
  let sorted := modules.insertionSort fun a b => a.id ≤ b.id
  let familyIds := familyScoped sorted
  let winners := winnerFor familyIds (preferredWallGenerator wallGenerator spiralVase)
    (candidatesFor sorted)
  sorted.foldl (keepOrDrop familyIds winners) ([], diagnostics)

/-! ### Who should keep a claim -/

/-- A module may share this claim with others. -/
def SharedClaim (module : PlannedModule F) (claim : String) : Prop :=
  skippedClaim claim = true ∨ claim = SUPPORT_GENERATOR_CLAIM ∨
    (claim = SUPPORT_PLANNER_CLAIM ∧ holdsSupportFamily module.claims = true)

instance (module : PlannedModule F) (claim : String) : Decidable (SharedClaim module claim) :=
  inferInstanceAs (Decidable (_ ∨ _ ∨ _))

/-- The module holds the claim in the stage, for itself alone. -/
def HoldsAlone (module : PlannedModule F) (stage : StageId) (claim : String) : Prop :=
  module.stage = stage ∧ claim ∈ module.claims ∧ ¬ SharedClaim module claim

instance (module : PlannedModule F) (stage : StageId) (claim : String) :
    Decidable (HoldsAlone module stage claim) :=
  inferInstanceAs (Decidable (_ ∧ _ ∧ _))

/-- The first module is preferred to the second for a claim: the selected wall
generator before the others, then by id. -/
def Outranks (preferred : ModuleId) (claim : String) (a b : ModuleId) : Prop :=
  (claim = PERIMETER_GENERATOR_CLAIM ∧ a = preferred) ∨
    (¬ (claim = PERIMETER_GENERATOR_CLAIM ∧ b = preferred) ∧ a < b)

/-- The module is preferred to every other holder of the claim in its stage. -/
def Wins (modules : List (PlannedModule F)) (preferred : ModuleId) (module : PlannedModule F)
    (claim : String) : Prop :=
  HoldsAlone module module.stage claim ∧
    ∀ other ∈ modules, HoldsAlone other module.stage claim → other.id ≠ module.id →
      Outranks preferred claim module.id other.id

/-! ### Candidates -/

/-- The candidates of a claim in a stage, in the order they are collected. -/
def candidateIds (sorted : List (PlannedModule F)) (stage : StageId) (claim : String) :
    List ModuleId :=
  sorted.flatMap fun module =>
    if module.stage = stage then List.replicate (module.claims.count claim) module.id else []

variable {claim : String} {preferred : ModuleId}

theorem mem_candidateIds {sorted : List (PlannedModule F)} {stage : StageId} {id : ModuleId} :
    id ∈ candidateIds sorted stage claim ↔
      ∃ module ∈ sorted, module.stage = stage ∧ claim ∈ module.claims ∧ module.id = id := by
  unfold candidateIds
  simp only [List.mem_flatMap]
  constructor
  · rintro ⟨module, hmem, hid⟩
    split at hid
    · next hstage =>
        obtain ⟨hcount, rfl⟩ := List.mem_replicate.mp hid
        exact ⟨module, hmem, hstage, List.count_pos_iff.mp (Nat.pos_of_ne_zero hcount), rfl⟩
    · exact absurd hid List.not_mem_nil
  · rintro ⟨module, hmem, hstage, hclaim, rfl⟩
    refine ⟨module, hmem, ?_⟩
    rw [if_pos hstage]
    exact List.mem_replicate.mpr ⟨(List.count_pos_iff.mpr hclaim).ne', rfl⟩

theorem pairwise_candidateIds {sorted : List (PlannedModule F)}
    (hsorted : sorted.Pairwise fun a b => a.id ≤ b.id) (stage : StageId) (claim : String) :
    (candidateIds sorted stage claim).Pairwise (· ≤ ·) := by
  unfold candidateIds
  refine List.pairwise_flatMap.mpr ⟨?_, hsorted.imp ?_⟩
  · intro module _
    split
    · exact List.pairwise_replicate.mpr (.inr (String.le_refl _))
    · exact .nil
  · intro a b hab x hx y hy
    have hxa : x = a.id := by
      split at hx
      · exact (List.mem_replicate.mp hx).2
      · exact absurd hx List.not_mem_nil
    have hyb : y = b.id := by
      split at hy
      · exact (List.mem_replicate.mp hy).2
      · exact absurd hy List.not_mem_nil
    rw [hxa, hyb]
    exact hab

theorem getD_foldl_collectCandidate (module : PlannedModule F) (claims : List String)
    (candidates : BTreeMap (StageId ×ₗ String) (List ModuleId)) (stage : StageId) (claim : String) :
    (claims.foldl (collectCandidate module) candidates)[toLex (stage, claim)]?.getD [] =
      candidates[toLex (stage, claim)]?.getD [] ++
        if module.stage = stage ∧ skippedClaim claim = false then
          List.replicate (claims.count claim) module.id else [] := by
  induction claims generalizing candidates with
  | nil => simp
  | cons first rest ih =>
      rw [List.foldl_cons, ih]
      unfold collectCandidate
      by_cases hkey : toLex (module.stage, first) = toLex (stage, claim)
      · obtain ⟨rfl, rfl⟩ : module.stage = stage ∧ first = claim := by
          simpa using hkey
        by_cases hskip : skippedClaim first = true
        · simp [hskip]
        · simp [hskip, List.replicate_succ]
      · have hcount : module.stage = stage → (first :: rest).count claim = rest.count claim := by
          intro hstage
          refine List.count_cons_of_ne ?_
          rintro rfl
          exact hkey (by rw [hstage])
        have hlookup : (if skippedClaim first = true then candidates
            else candidates.insert (toLex (module.stage, first))
              (candidates[toLex (module.stage, first)]?.getD [] ++ [module.id]))[toLex (stage, claim)]? =
            candidates[toLex (stage, claim)]? := by
          split
          · rfl
          · exact BTreeMap.getElem?_insert_of_ne hkey _
        rw [hlookup]
        congr 1
        by_cases hstage : module.stage = stage
        · simp [hstage, hcount hstage]
        · simp [hstage]

theorem getD_candidatesFor (sorted : List (PlannedModule F)) (stage : StageId) (claim : String) :
    (candidatesFor sorted)[toLex (stage, claim)]?.getD [] =
      if skippedClaim claim then [] else candidateIds sorted stage claim := by
  have hfold : ∀ candidates : BTreeMap (StageId ×ₗ String) (List ModuleId),
      (sorted.foldl (fun candidates module =>
        module.claims.foldl (collectCandidate module) candidates)
          candidates)[toLex (stage, claim)]?.getD [] =
        candidates[toLex (stage, claim)]?.getD [] ++
          if skippedClaim claim then [] else candidateIds sorted stage claim := by
    induction sorted with
    | nil => simp [candidateIds]
    | cons module rest ih =>
        intro candidates
        rw [List.foldl_cons, ih, getD_foldl_collectCandidate, List.append_assoc]
        by_cases hskip : skippedClaim claim = true
        · simp [hskip]
        · simp [hskip, candidateIds]
  simpa [candidatesFor] using hfold ∅

/-! ### Winners -/

/-- The candidates that may not share the claim. -/
def rivalIds (familyIds : List ModuleId) (claim : String) (ids : List ModuleId) : List ModuleId :=
  if claim = SUPPORT_PLANNER_CLAIM then ids.filter fun id => !familyIds.contains id else ids

theorem resolveWinner_eq {familyIds : List ModuleId} (hclaim : claim ≠ SUPPORT_GENERATOR_CLAIM)
    (ids : List ModuleId) :
    resolveWinner familyIds preferred claim ids =
      let rivals := rivalIds familyIds claim ids
      if rivals.length < 2 then none
      else if claim = PERIMETER_GENERATOR_CLAIM ∧ preferred ∈ rivals then some preferred
      else rivals.head? := by
  unfold resolveWinner rivalIds
  by_cases hplanner : claim = SUPPORT_PLANNER_CLAIM
  · subst hplanner
    have hperimeter : SUPPORT_PLANNER_CLAIM ≠ PERIMETER_GENERATOR_CLAIM := by decide
    have hlength := List.length_filter_le (fun id => !familyIds.contains id) ids
    simp only [hperimeter, hclaim, if_true, if_false, false_and]
    by_cases hshort : ids.length < 2
    · rw [if_pos hshort, if_pos (Nat.lt_of_le_of_lt hlength hshort)]
    · rw [if_neg hshort]
  · simp only [hplanner, hclaim, if_false]

theorem winnerFor_getElem? (familyIds : List ModuleId) (preferred : ModuleId)
    (candidates : BTreeMap (StageId ×ₗ String) (List ModuleId)) (stage : StageId) (claim : String) :
    (winnerFor familyIds preferred candidates)[toLex (stage, claim)]? =
      resolveWinner familyIds preferred claim (candidates[toLex (stage, claim)]?.getD []) := by
  rw [winnerFor, ExtTreeMap.getElem?_filterMap']
  cases candidates[toLex (stage, claim)]? with
  | none => simp [resolveWinner]
  | some ids => simp

/-- The first holder wins exactly when it outranks the other rivals. -/
theorem winner_eq_iff {rivals : List ModuleId} (hsorted : rivals.Pairwise (· ≤ ·)) {id : ModuleId}
    (hid : id ∈ rivals) :
    (∀ winner, (if rivals.length < 2 then none
        else if claim = PERIMETER_GENERATOR_CLAIM ∧ preferred ∈ rivals then some preferred
        else rivals.head?) = some winner → winner = id) ↔
      ∀ other ∈ rivals, other ≠ id → Outranks preferred claim id other := by
  by_cases hshort : rivals.length < 2
  · obtain ⟨only, rfl⟩ : ∃ only, rivals = [only] := by
      refine List.length_eq_one_iff.mp ?_
      have := List.length_pos_of_mem hid
      omega
    simp_all
  · simp only [hshort, if_false]
    by_cases hpreferred : claim = PERIMETER_GENERATOR_CLAIM ∧ preferred ∈ rivals
    · rw [if_pos hpreferred]
      simp only [Option.some.injEq, forall_eq']
      constructor
      · rintro rfl other _ _
        exact .inl ⟨hpreferred.1, rfl⟩
      · intro hbeats
        by_contra hne
        obtain ⟨_, heq⟩ | ⟨hnot, _⟩ := hbeats preferred hpreferred.2 hne
        · exact hne heq.symm
        · exact hnot ⟨hpreferred.1, rfl⟩
    · simp only [hpreferred, if_false]
      obtain ⟨first, rest, rfl⟩ : ∃ first rest, rivals = first :: rest :=
        List.exists_cons_of_ne_nil (List.ne_nil_of_mem hid)
      simp only [List.head?_cons, Option.some.injEq, forall_eq']
      have hleast := (List.pairwise_cons.mp hsorted).1
      constructor
      · rintro rfl other hother hne
        have hrest : other ∈ rest := (List.mem_cons.mp hother).resolve_left hne
        refine .inr ⟨fun h => hpreferred ⟨h.1, h.2 ▸ hother⟩, ?_⟩
        exact Std.lt_of_le_of_ne (hleast other hrest) (Ne.symm hne)
      · intro hbeats
        by_contra hne
        have hrest : id ∈ rest := (List.mem_cons.mp hid).resolve_left (Ne.symm hne)
        obtain ⟨hperimeter, heq⟩ | ⟨_, hlt⟩ := hbeats first List.mem_cons_self hne
        · exact hpreferred ⟨hperimeter, heq ▸ hid⟩
        · exact absurd (hleast id hrest) (Std.not_le_of_gt hlt)

theorem exists_outranks_all {preferred : ModuleId} {claim : String} {rivals : List ModuleId}
    (hsorted : rivals.Pairwise (· ≤ ·)) (hne : rivals ≠ []) :
    ∃ id ∈ rivals, ∀ other ∈ rivals, other ≠ id → Outranks preferred claim id other := by
  by_cases hpreferred : claim = PERIMETER_GENERATOR_CLAIM ∧ preferred ∈ rivals
  · exact ⟨preferred, hpreferred.2, fun _ _ _ => .inl ⟨hpreferred.1, rfl⟩⟩
  · obtain ⟨first, rest, rfl⟩ := List.exists_cons_of_ne_nil hne
    refine ⟨first, List.mem_cons_self, fun other hother hother' => .inr ⟨?_, ?_⟩⟩
    · intro h
      exact hpreferred ⟨h.1, h.2 ▸ hother⟩
    · have hrest : other ∈ rest := (List.mem_cons.mp hother).resolve_left hother'
      exact Std.lt_of_le_of_ne ((List.pairwise_cons.mp hsorted).1 other hrest) (Ne.symm hother')

section

variable {sorted : List (PlannedModule F)} (hids : (sorted.map (·.id)).Nodup)
include hids

variable {module : PlannedModule F}

theorem contains_familyScoped (hmodule : module ∈ sorted) :
    (familyScoped sorted).contains module.id = holdsSupportFamily module.claims := by
  rw [Bool.eq_iff_iff, List.contains_iff_mem]
  constructor
  · intro h
    obtain ⟨other, hother, hid⟩ := List.mem_map.mp h
    obtain ⟨hmem, hfamily⟩ := List.mem_filter.mp hother
    rwa [← List.inj_on_of_nodup_map hids hmem hmodule hid]
  · intro h
    exact List.mem_map.mpr ⟨module, List.mem_filter.mpr ⟨hmodule, h⟩, rfl⟩

theorem mem_rivalIds {stage : StageId} {claim : String} (hskip : skippedClaim claim = false)
    (hclaim : claim ≠ SUPPORT_GENERATOR_CLAIM) {id : ModuleId} :
    id ∈ rivalIds (familyScoped sorted) claim (candidateIds sorted stage claim) ↔
      ∃ module ∈ sorted, HoldsAlone module stage claim ∧ module.id = id := by
  unfold rivalIds HoldsAlone SharedClaim
  by_cases hplanner : claim = SUPPORT_PLANNER_CLAIM
  · simp only [hplanner, if_true, List.mem_filter, mem_candidateIds]
    rw [hplanner] at hskip hclaim
    constructor
    · rintro ⟨⟨module, hmodule, hstage, hmem, rfl⟩, hfamily⟩
      rw [contains_familyScoped hids hmodule] at hfamily
      refine ⟨module, hmodule, ⟨hstage, hmem, ?_⟩, rfl⟩
      simpa [hskip, hclaim] using hfamily
    · rintro ⟨module, hmodule, ⟨hstage, hmem, halone⟩, rfl⟩
      refine ⟨⟨module, hmodule, hstage, hmem, rfl⟩, ?_⟩
      rw [contains_familyScoped hids hmodule]
      simpa [hskip, hclaim] using halone
  · simp [hplanner, hskip, hclaim, mem_candidateIds, and_assoc]

theorem winner_eq_iff_wins (hsorted : sorted.Pairwise fun a b => a.id ≤ b.id) {preferred : ModuleId}
    (hmodule : module ∈ sorted) {claim : String} (hholds : HoldsAlone module module.stage claim) :
    (∀ winner, (winnerFor (familyScoped sorted) preferred
        (candidatesFor sorted))[toLex (module.stage, claim)]? = some winner → winner = module.id) ↔
      Wins sorted preferred module claim := by
  have halone := hholds.2.2
  have hskip : skippedClaim claim = false := by
    rw [← Bool.not_eq_true]
    exact fun h => halone (.inl h)
  have hclaim : claim ≠ SUPPORT_GENERATOR_CLAIM := fun h => halone (.inr (.inl h))
  have hrivals := @mem_rivalIds F sorted hids module.stage claim hskip hclaim
  have hpairwise : (rivalIds (familyScoped sorted) claim
      (candidateIds sorted module.stage claim)).Pairwise (· ≤ ·) := by
    unfold rivalIds
    split
    · exact (pairwise_candidateIds hsorted _ _).filter _
    · exact pairwise_candidateIds hsorted _ _
  have hid := hrivals.mpr ⟨module, hmodule, hholds, rfl⟩
  simp only [winnerFor_getElem?, getD_candidatesFor, hskip, Bool.false_eq_true, if_false]
  rw [resolveWinner_eq hclaim, winner_eq_iff hpairwise hid]
  constructor
  · intro h
    exact ⟨hholds, fun other hother hother' hne =>
      h other.id (hrivals.mpr ⟨other, hother, hother', rfl⟩) hne⟩
  · rintro ⟨_, h⟩ id hid' hne
    obtain ⟨other, hother, hother', rfl⟩ := hrivals.mp hid'
    exact h other hother hother' hne

theorem losingClaim_eq_none_iff (hsorted : sorted.Pairwise fun a b => a.id ≤ b.id)
    {preferred : ModuleId} (hmodule : module ∈ sorted) :
    losingClaim (familyScoped sorted) (winnerFor (familyScoped sorted) preferred
        (candidatesFor sorted)) module = none ↔
      ∀ claim, HoldsAlone module module.stage claim → Wins sorted preferred module claim := by
  unfold losingClaim
  rw [List.findSome?_eq_none_iff]
  constructor
  · intro h claim hholds
    refine (winner_eq_iff_wins hids hsorted hmodule hholds).mp fun winner hwinner => ?_
    have hnone := h claim hholds.2.1
    rw [if_neg ?_, hwinner] at hnone
    · simpa using hnone
    · rw [contains_familyScoped hids hmodule, Bool.or_eq_true, Bool.or_eq_true, Bool.and_eq_true,
        beq_iff_eq, beq_iff_eq]
      rintro ((hfill | hgenerator) | hplanner)
      · exact hholds.2.2 (.inl (by simp [skippedClaim, List.contains_iff_mem.mp hfill]))
      · exact hholds.2.2 (.inr (.inl hgenerator))
      · exact hholds.2.2 (.inr (.inr hplanner))
  · intro h claim hclaim
    split
    · rfl
    next hnot =>
      rw [contains_familyScoped hids hmodule, Bool.or_eq_true, Bool.or_eq_true, Bool.and_eq_true,
        beq_iff_eq, beq_iff_eq] at hnot
      by_cases hskip : skippedClaim claim = true
      -- a support family is never a candidate
      · rw [winnerFor_getElem?, getD_candidatesFor, if_pos hskip]
        rfl
      · have hholds : HoldsAlone module module.stage claim := by
          refine ⟨rfl, hclaim, ?_⟩
          rintro (hskip' | hgenerator | hplanner)
          · exact hskip hskip'
          · exact hnot (.inl (.inr hgenerator))
          · exact hnot (.inr hplanner)
        have hwins := (winner_eq_iff_wins hids hsorted hmodule hholds).mpr (h claim hholds)
        split
        · next winner hwinner => simp [hwins winner hwinner]
        · rfl

end

/-! ### The kept modules -/

theorem fst_foldl_keepOrDrop (familyIds : List ModuleId)
    (winners : BTreeMap (StageId ×ₗ String) ModuleId) (modules : List (PlannedModule F))
    (state : List (PlannedModule F) × List LeveledDiagnostic) :
    (modules.foldl (keepOrDrop familyIds winners) state).1 =
      state.1 ++ modules.filter fun module => (losingClaim familyIds winners module).isNone := by
  induction modules generalizing state with
  | nil => simp
  | cons module rest ih =>
      rw [List.foldl_cons, ih]
      unfold keepOrDrop
      cases hlosing : losingClaim familyIds winners module with
      | some found => simp [hlosing]
      | none => simp [hlosing]

variable {modules : List (PlannedModule F)}

theorem mem_dedup_iff (hids : (modules.map (·.id)).Nodup) (diagnostics : List LeveledDiagnostic)
    (wallGenerator : Option (ConfigValue F)) (spiralVase : Bool) (supportType : Option String)
    {module : PlannedModule F} :
    module ∈ (dedupSameClaimModulesTyped modules diagnostics wallGenerator spiralVase
        supportType).1 ↔
      module ∈ modules ∧ ∀ claim, HoldsAlone module module.stage claim →
        Wins modules (preferredWallGenerator wallGenerator spiralVase) module claim := by
  have hperm := modules.perm_insertionSort fun a b => a.id ≤ b.id
  have hsorted : (modules.insertionSort fun a b => a.id ≤ b.id).Pairwise fun a b => a.id ≤ b.id := by
    have : Std.Total fun a b : PlannedModule F => a.id ≤ b.id := ⟨fun a b => String.le_total _ _⟩
    have : IsTrans (PlannedModule F) fun a b => a.id ≤ b.id := ⟨fun a b c => String.le_trans⟩
    exact List.pairwise_insertionSort _ _
  have hids' : ((modules.insertionSort fun a b => a.id ≤ b.id).map (·.id)).Nodup :=
    (hperm.map _).nodup_iff.mpr hids
  have hwins : ∀ claim, Wins (modules.insertionSort fun a b => a.id ≤ b.id)
      (preferredWallGenerator wallGenerator spiralVase) module claim ↔
      Wins modules (preferredWallGenerator wallGenerator spiralVase) module claim := by
    simp [Wins]
  simp only [dedupSameClaimModulesTyped, fst_foldl_keepOrDrop, List.nil_append, List.mem_filter,
    Option.isNone_iff_eq_none, List.mem_insertionSort]
  refine and_congr_right fun hmodule => ?_
  rw [losingClaim_eq_none_iff hids' hsorted (hperm.mem_iff.mpr hmodule)]
  simp only [hwins]

theorem exists_wins (preferred : ModuleId) {module : PlannedModule F} (hmodule : module ∈ modules)
    {stage : StageId} (hholds : HoldsAlone module stage claim) :
    ∃ winner ∈ modules, winner.stage = stage ∧ Wins modules preferred winner claim := by
  classical
  let rivals := ((modules.filter fun module => HoldsAlone module stage claim).map
    (·.id)).insertionSort (· ≤ ·)
  have hrivals : ∀ id, id ∈ rivals ↔
      ∃ module ∈ modules, HoldsAlone module stage claim ∧ module.id = id := by
    intro id
    simp [rivals, List.mem_insertionSort, and_assoc]
  have hne : rivals ≠ [] := List.ne_nil_of_mem ((hrivals _).mpr ⟨module, hmodule, hholds, rfl⟩)
  obtain ⟨id, hid, hfirst⟩ :=
    @exists_outranks_all preferred claim rivals (List.pairwise_insertionSort _ _) hne
  obtain ⟨winner, hwinner, halone, rfl⟩ := (hrivals id).mp hid
  obtain rfl := halone.1
  refine ⟨winner, hwinner, rfl, halone, fun other hother hother' hdiffers => ?_⟩
  exact hfirst other.id ((hrivals _).mpr ⟨other, hother, hother', rfl⟩) hdiffers

theorem Outranks.asymm {a b : ModuleId} (hne : a ≠ b) (hab : Outranks preferred claim a b) :
    ¬ Outranks preferred claim b a := by
  rintro (⟨hperimeter, rfl⟩ | ⟨hnot, hba⟩)
  · obtain ⟨_, rfl⟩ | ⟨hnot, _⟩ := hab
    · exact hne rfl
    · exact hnot ⟨hperimeter, rfl⟩
  · obtain hpreferred | ⟨_, hab⟩ := hab
    · exact hnot hpreferred
    · exact String.lt_asymm hab hba

theorem Wins.unique (hids : (modules.map (·.id)).Nodup) {a b : PlannedModule F} (ha : a ∈ modules)
    (hb : b ∈ modules) (hstage : a.stage = b.stage) (hwinsa : Wins modules preferred a claim)
    (hwinsb : Wins modules preferred b claim) : a = b := by
  by_contra hne
  have hdiffers : a.id ≠ b.id := fun h => hne (List.inj_on_of_nodup_map hids ha hb h)
  have hab := hwinsa.2 b hb (hstage ▸ hwinsb.1) (Ne.symm hdiffers)
  have hba := hwinsb.2 a ha (hstage ▸ hwinsa.1) hdiffers
  exact hab.asymm hdiffers hba

/-- After deduplication every claim that some module held alone is held alone in its
stage by exactly one module, and no module that won all its claims is missing, exactly
when no module wins one of its claims and loses another. -/
theorem dedup_keeps_one_holder_iff (modules : List (PlannedModule F))
    (hids : (modules.map (·.id)).Nodup) (diagnostics : List LeveledDiagnostic)
    (wallGenerator : Option (ConfigValue F)) (spiralVase : Bool) (supportType : Option String) :
    ((∀ stage claim, (∃ module ∈ modules, HoldsAlone module stage claim) →
        ∃! module, module ∈ (dedupSameClaimModulesTyped modules diagnostics wallGenerator spiralVase
          supportType).1 ∧ HoldsAlone module stage claim) ∧
      ∀ module ∈ modules,
        (∀ claim, HoldsAlone module module.stage claim →
          Wins modules (preferredWallGenerator wallGenerator spiralVase) module claim) →
        module ∈ (dedupSameClaimModulesTyped modules diagnostics wallGenerator spiralVase
          supportType).1) ↔
      ∀ module ∈ modules, ∀ won lost,
        Wins modules (preferredWallGenerator wallGenerator spiralVase) module won →
        HoldsAlone module module.stage lost →
        Wins modules (preferredWallGenerator wallGenerator spiralVase) module lost := by
  simp only [mem_dedup_iff hids]
  constructor
  · rintro ⟨hone, _⟩ module hmodule won lost hwon hlost
    -- the one kept holder of the claim wins it, so it is this module
    obtain ⟨keeper, ⟨⟨hkeeper, hall⟩, halone⟩, _⟩ :=
      hone module.stage won ⟨module, hmodule, hwon.1⟩
    have hstage := halone.1
    obtain rfl : keeper = module :=
      Wins.unique hids hkeeper hmodule hstage (hall won (hstage.symm ▸ halone)) hwon
    exact hall lost hlost
  · intro hwhole
    refine ⟨?_, fun module hmodule hall => ⟨hmodule, hall⟩⟩
    rintro stage claim ⟨module, hmodule, hholds⟩
    obtain ⟨winner, hwinner, rfl, hwins⟩ := exists_wins
      (preferredWallGenerator wallGenerator spiralVase) hmodule hholds
    refine ⟨winner, ⟨⟨hwinner, fun lost hlost => hwhole winner hwinner claim lost hwins hlost⟩,
      hwins.1⟩, ?_⟩
    rintro other ⟨⟨hother, hall⟩, halone⟩
    have hstage := halone.1
    exact Wins.unique hids hother hwinner hstage (hall claim (hstage.symm ▸ halone)) hwins

/-- A module that holds claims in a stage. -/
def claimingModule (id : ModuleId) (stage : StageId) (claims : List String) : PlannedModule Nat where
  id := id
  stage := stage
  irReads := []
  irWrites := []
  claims := claims
  requiresClaims := []
  incompatibleWith := []
  requiresModules := []
  minHostVersion := ⟨0, 1, 0⟩
  minIrSchema := ⟨1, 0, 0⟩
  maxIrSchema := ⟨2, 0, 0⟩
  wasmPath := id ++ ".wasm"

/-- Two wall generators contend for the perimeter claim. -/
def wallGenerators : List (PlannedModule Nat) :=
  [claimingModule CLASSIC_PERIMETERS_MODULE_ID "Layer::Perimeters" [PERIMETER_GENERATOR_CLAIM],
    claimingModule ARACHNE_PERIMETERS_MODULE_ID "Layer::Perimeters" [PERIMETER_GENERATOR_CLAIM]]

theorem wallGenerators_keep_one :
    ∃! module, module ∈ (dedupSameClaimModulesTyped wallGenerators [] (some (.string "arachne"))
      false none).1 ∧ HoldsAlone module "Layer::Perimeters" PERIMETER_GENERATOR_CLAIM := by
  have hsingle : ∀ module ∈ wallGenerators, ∀ claim, HoldsAlone module module.stage claim →
      claim = PERIMETER_GENERATOR_CLAIM := by
    rintro module hmodule claim ⟨_, hclaim, _⟩
    have hclaims : module.claims = [PERIMETER_GENERATOR_CLAIM] := by
      obtain rfl | rfl := List.mem_pair.mp hmodule
      · rfl
      · rfl
    rwa [hclaims, List.mem_singleton] at hclaim
  have hkept := ((dedup_keeps_one_holder_iff wallGenerators (by decide) [] (some (.string "arachne"))
    false none).mpr fun module hmodule won lost hwon hlost => by
      rwa [hsingle module hmodule lost hlost, ← hsingle module hmodule won hwon.1]).1
  exact hkept "Layer::Perimeters" PERIMETER_GENERATOR_CLAIM
    ⟨_, List.mem_cons_self, by decide⟩

/-- The second module loses the claim it shares and takes the other with it. -/
def overlappingModules : List (PlannedModule Nat) :=
  [claimingModule "com.example.aligned-seam" "Layer::PerimetersPostProcess" ["seam-placer"],
    claimingModule "com.example.scarf-seam" "Layer::PerimetersPostProcess"
      ["seam-placer", "scarf-joints"]]

theorem overlappingModules_lose_claim :
    (overlappingModules.map (·.id)).Nodup ∧
      (∃ module ∈ overlappingModules,
        HoldsAlone module "Layer::PerimetersPostProcess" "scarf-joints") ∧
      ¬ ∃ module ∈ (dedupSameClaimModulesTyped overlappingModules [] none false none).1,
        HoldsAlone module "Layer::PerimetersPostProcess" "scarf-joints" := by
  refine ⟨by decide, ⟨_, List.mem_cons_of_mem _ List.mem_cons_self, by decide⟩, ?_⟩
  rintro ⟨module, hmodule, _, hclaim, _⟩
  have hkept : (dedupSameClaimModulesTyped overlappingModules [] none false none).1.map
      (·.claims) = [["seam-placer"]] := by decide +kernel
  have hclaims := List.mem_map_of_mem (f := (·.claims)) hmodule
  rw [hkept, List.mem_singleton] at hclaims
  rw [hclaims] at hclaim
  exact absurd hclaim (by decide)

end PinchNPrint.Scheduler
