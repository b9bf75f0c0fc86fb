/-
Support plans on the blackboard (`slicer-runtime`: `blackboard.rs`; `slicer-ir`:
`slice_ir.rs`).

Every family of supports plans on its own and commits its plan to one slot. A commit reads the
stored plan, merges its own into it and puts the result back: entries are appended and must not
share an identity, and of two raft plans the smaller one counts.

`support_plans_order_free`: a commit fails exactly when identities or versions clash and then
changes nothing; whether all commits of some plans succeed, and what they leave, does not
depend on their order.
-/

import PinchNPrint.Layer.Ir
import PinchNPrint.Lib.Collections

namespace PinchNPrint.Prepass

open Layer (ObjectId PaintValue)

-- the numbers in paint values, and what else an entry records
variable {F R : Type}

/-! ### Plans -/

structure SemVer where
  major : Nat
  minor : Nat
  patch : Nat
deriving DecidableEq

/-- `RaftPlan`; the density by its bits. -/
structure RaftPlan where
  raftLayers : Nat
  raftFirstLayerDensity : BitVec 32
  baseRaftLayers : Nat
  interfaceRaftLayers : Nat
deriving DecidableEq

/-- The identity of an entry. -/
structure RegionIdentity (F : Type) where
  globalLayerIndex : Int
  objectId : ObjectId
  regionId : Nat
  variantChain : List (String × PaintValue F) := []
deriving DecidableEq

/-- `SupportPlanEntry`; what commits do not read is `record`. -/
structure SupportPlanEntry (F R : Type) extends RegionIdentity F where
  record : R
deriving DecidableEq

structure SupportPlanIR (F R : Type) where
  schemaVersion : SemVer
  entries : List (SupportPlanEntry F R) := []
  raftPlan : Option RaftPlan := none
deriving DecidableEq

/-- The identities of the entries, in order. -/
def SupportPlanIR.identities (plan : SupportPlanIR F R) : List (RegionIdentity F) :=
  plan.entries.map (·.toRegionIdentity)

/-- The first value that stands behind an equal one. -/
def firstRepeated {α : Type} [DecidableEq α] : List α → List α → Option α
  | _, [] => none
  | seen, a :: rest => if a ∈ seen then some a else firstRepeated (a :: seen) rest

def SupportPlanIR.duplicateRegionIdentity [DecidableEq F] (plan : SupportPlanIR F R) :
    Option (RegionIdentity F) :=
  firstRepeated [] plan.identities

/-! ### Commits -/

/-- `BlackboardPrepassSlot`, of which this one is named here. -/
inductive BlackboardPrepassSlot where
  | SupportPlan
deriving DecidableEq

/-- `BlackboardError`, of which these are raised here. -/
inductive BlackboardError (F : Type) where
  | DuplicateSupportPlanEntry (identity : RegionIdentity F)
  | DuplicatePrepassCommit (slot : BlackboardPrepassSlot)

/-- The key that `raft_plan_min` compares. -/
def raftKey (plan : RaftPlan) : ℕ ×ₗ ℕ ×ₗ ℕ ×ₗ ℕ :=
  toLex (plan.raftLayers, toLex (plan.raftFirstLayerDensity.toNat,
    toLex (plan.baseRaftLayers, plan.interfaceRaftLayers)))

def raftPlanMin (a b : RaftPlan) : RaftPlan :=
  if raftKey a ≤ raftKey b then a else b

/-- The raft plan of a merge. -/
def mergeRaft : Option RaftPlan → Option RaftPlan → Option RaftPlan
  | none, none => none
  | some current, none => some current
  | none, some incoming => some incoming
  | some current, some incoming => some (raftPlanMin current incoming)

/-- The merge of a plan into the stored one. -/
def SupportPlanIR.merge (existing plan : SupportPlanIR F R) : SupportPlanIR F R :=
  { existing with
    entries := existing.entries ++ plan.entries
    raftPlan := mergeRaft existing.raftPlan plan.raftPlan }

/-- The `support_plan` of a `Blackboard`. -/
abbrev Slot (F R : Type) := Option (SupportPlanIR F R)

section Commit

variable [DecidableEq F]

/-- `commit_support_plan`: what the slot holds after it, and what it returns. -/
def commitSupportPlan (slot : Slot F R) (plan : SupportPlanIR F R) :
    Slot F R × Except (BlackboardError F) Unit :=
  match slot with
  | none =>
      match plan.duplicateRegionIdentity with
      | some identity => (slot, .error (.DuplicateSupportPlanEntry identity))
      | none => (some plan, .ok ())
  | some existing =>
      if existing.schemaVersion ≠ plan.schemaVersion then
        (slot, .error (.DuplicatePrepassCommit .SupportPlan))
      else
        match (existing.merge plan).duplicateRegionIdentity with
        | some identity => (slot, .error (.DuplicateSupportPlanEntry identity))
        | none => (some (existing.merge plan), .ok ())

/-- Commits, one after the other, with what they return. -/
def commitAll (slot : Slot F R) :
    List (SupportPlanIR F R) → Slot F R × List (Except (BlackboardError F) Unit)
  | [] => (slot, [])
  | plan :: rest =>
      let (next, outcome) := commitSupportPlan slot plan
      let (final, outcomes) := commitAll next rest
      (final, outcome :: outcomes)

/-- Every commit succeeds. -/
def AllSucceed (slot : Slot F R) (plans : List (SupportPlanIR F R)) : Prop :=
  ∀ outcome ∈ (commitAll slot plans).2, outcome = .ok ()

end Commit

/-! ### Raft plans -/

theorem raftKey_injective : Function.Injective raftKey := by
  rintro ⟨layers, density, base, interface⟩ ⟨layers', density', base', interface'⟩ h
  simp only [raftKey, EmbeddingLike.apply_eq_iff_eq, Prod.mk.injEq] at h
  obtain ⟨rfl, hdensity, rfl, rfl⟩ := h
  rw [BitVec.eq_of_toNat_eq hdensity]

theorem raftPlanMin_comm (a b : RaftPlan) : raftPlanMin a b = raftPlanMin b a := by
  unfold raftPlanMin
  rcases lt_trichotomy (raftKey a) (raftKey b) with h | h | h
  · rw [if_pos h.le, if_neg h.not_ge]
  · rw [raftKey_injective h]
  · rw [if_neg h.not_ge, if_pos h.le]

theorem raftKey_raftPlanMin (a b : RaftPlan) :
    raftKey (raftPlanMin a b) = min (raftKey a) (raftKey b) := by
  unfold raftPlanMin
  split
  case isTrue h => exact (min_eq_left h).symm
  case isFalse h => exact (min_eq_right (not_le.mp h).le).symm

theorem raftPlanMin_assoc (a b c : RaftPlan) :
    raftPlanMin (raftPlanMin a b) c = raftPlanMin a (raftPlanMin b c) :=
  raftKey_injective (by simp only [raftKey_raftPlanMin, min_assoc])

/-- Two plans can be merged into a third in either order. -/
theorem mergeRaft_right_comm (a b c : Option RaftPlan) :
    mergeRaft (mergeRaft a b) c = mergeRaft (mergeRaft a c) b := by
  have hswap : ∀ x y z : RaftPlan,
      raftPlanMin (raftPlanMin x y) z = raftPlanMin (raftPlanMin x z) y := fun x y z => by
    rw [raftPlanMin_assoc, raftPlanMin_comm y, ← raftPlanMin_assoc]
  cases a <;> cases b <;> cases c <;> simp [mergeRaft, hswap, raftPlanMin_comm]

theorem mergeRaft_none (plan : Option RaftPlan) : mergeRaft none plan = plan := by
  cases plan <;> rfl

/-! ### One commit -/

section OneCommit

variable [DecidableEq F] {slot : Slot F R} {existing plan : SupportPlanIR F R}

theorem firstRepeated_eq_none_iff {α : Type} [DecidableEq α] {seen l : List α} :
    firstRepeated seen l = none ↔ l.Nodup ∧ ∀ a ∈ l, a ∉ seen := by
  induction l generalizing seen with
  | nil => simp [firstRepeated]
  | cons a rest ih =>
    rw [firstRepeated, List.nodup_cons, List.forall_mem_cons]
    split
    case isTrue h => simp [h]
    case isFalse h =>
      rw [ih]
      constructor
      · rintro ⟨hnodup, hseen⟩
        refine ⟨⟨fun hmem => hseen a hmem List.mem_cons_self, hnodup⟩, h, fun b hb hmem => ?_⟩
        exact hseen b hb (List.mem_cons_of_mem a hmem)
      · rintro ⟨⟨hnew, hnodup⟩, -, hseen⟩
        refine ⟨hnodup, fun b hb hmem => ?_⟩
        rcases List.mem_cons.mp hmem with rfl | hmem
        · exact hnew hb
        · exact hseen b hb hmem

theorem duplicateRegionIdentity_eq_none_iff :
    plan.duplicateRegionIdentity = none ↔ plan.identities.Nodup := by
  rw [SupportPlanIR.duplicateRegionIdentity, firstRepeated_eq_none_iff]
  simp

/-- The plan that a commit makes of the stored one and its own. -/
def absorb : Slot F R → SupportPlanIR F R → SupportPlanIR F R
  | none, plan => plan
  | some existing, plan => existing.merge plan

omit [DecidableEq F] in
theorem identities_merge :
    (existing.merge plan).identities = existing.identities ++ plan.identities :=
  List.map_append

/-- The merged plan has distinct identities, and the versions agree. -/
def Compatible (slot : Slot F R) (plan : SupportPlanIR F R) : Prop :=
  (absorb slot plan).identities.Nodup ∧
    ∀ existing, slot = some existing → existing.schemaVersion = plan.schemaVersion

/-- A commit that is compatible stores the merged plan; any other changes nothing. -/
theorem commitSupportPlan_ok (h : Compatible slot plan) :
    commitSupportPlan slot plan = (some (absorb slot plan), .ok ()) := by
  obtain ⟨hnodup, hversion⟩ := h
  have hnone := duplicateRegionIdentity_eq_none_iff.mpr hnodup
  cases slot with
  | none =>
    rw [absorb] at hnone
    simp only [commitSupportPlan, hnone, absorb]
  | some existing =>
    rw [absorb] at hnone
    simp only [commitSupportPlan, hversion existing rfl, ne_eq, not_true, if_false, hnone, absorb]

theorem commitSupportPlan_error (h : ¬ Compatible slot plan) :
    ∃ error, commitSupportPlan slot plan = (slot, .error error) := by
  have hrepeated : ¬ (absorb slot plan).identities.Nodup →
      ∃ identity, (absorb slot plan).duplicateRegionIdentity = some identity := by
    intro hnodup
    rw [← duplicateRegionIdentity_eq_none_iff] at hnodup
    exact Option.ne_none_iff_exists'.mp hnodup
  cases slot with
  | none =>
    obtain ⟨identity, hidentity⟩ := hrepeated fun hnodup => h ⟨hnodup, fun _ heq => nomatch heq⟩
    rw [absorb] at hidentity
    exact ⟨.DuplicateSupportPlanEntry identity, by simp only [commitSupportPlan, hidentity]⟩
  | some existing =>
    by_cases hversion : existing.schemaVersion = plan.schemaVersion
    · obtain ⟨identity, hidentity⟩ := hrepeated fun hnodup => h ⟨hnodup, by
        rintro _ ⟨⟩
        exact hversion⟩
      rw [absorb] at hidentity
      exact ⟨.DuplicateSupportPlanEntry identity, by
        simp only [commitSupportPlan, hversion, ne_eq, not_true, if_false, hidentity]⟩
    · exact ⟨.DuplicatePrepassCommit .SupportPlan, by
        simp only [commitSupportPlan, ne_eq, hversion, not_false_eq_true, if_true]⟩

end OneCommit

/-! ### All commits -/

section AllCommits

variable [DecidableEq F] {slot : Slot F R} {existing plan : SupportPlanIR F R}
  {plans plans' : List (SupportPlanIR F R)}

theorem allSucceed_cons :
    AllSucceed slot (plan :: plans) ↔
      Compatible slot plan ∧ AllSucceed (some (absorb slot plan)) plans := by
  rw [AllSucceed, commitAll]
  by_cases h : Compatible slot plan
  · rw [commitSupportPlan_ok h]
    simp [h, AllSucceed]
  · obtain ⟨error, herror⟩ := commitSupportPlan_error h
    rw [herror]
    simp [h]

theorem commitAll_of_allSucceed (h : AllSucceed (some existing) plans) :
    (commitAll (some existing) plans).1 =
      some { existing with
        entries := existing.entries ++ plans.flatMap (·.entries)
        raftPlan := (plans.map (·.raftPlan)).foldl mergeRaft existing.raftPlan } := by
  induction plans generalizing existing with
  | nil => simp [commitAll]
  | cons plan rest ih =>
    obtain ⟨hplan, hrest⟩ := allSucceed_cons.mp h
    rw [commitAll, commitSupportPlan_ok hplan]
    dsimp only
    rw [ih hrest]
    simp [absorb, SupportPlanIR.merge]

/-- All commits to a stored plan succeed when all identities are distinct and all versions its
own. -/
theorem allSucceed_some_iff (hexisting : existing.identities.Nodup) :
    AllSucceed (some existing) plans ↔
      (existing.identities ++ plans.flatMap (·.identities)).Nodup ∧
        ∀ plan ∈ plans, existing.schemaVersion = plan.schemaVersion := by
  induction plans generalizing existing with
  | nil => simpa [AllSucceed, commitAll] using hexisting
  | cons plan rest ih =>
    rw [allSucceed_cons, List.flatMap_cons, ← List.append_assoc, ← identities_merge,
      List.forall_mem_cons]
    constructor
    · rintro ⟨⟨hnodup, hversion⟩, hrest⟩
      obtain ⟨hrestNodup, hversions⟩ := (ih hnodup).mp hrest
      exact ⟨hrestNodup, hversion existing rfl, hversions⟩
    · rintro ⟨hnodup, hversion, hversions⟩
      have hmerged : (existing.merge plan).identities.Nodup := (List.nodup_append.mp hnodup).1
      refine ⟨⟨hmerged, ?_⟩, (ih hmerged).mpr ⟨hnodup, hversions⟩⟩
      rintro _ ⟨⟩
      exact hversion

/-- All commits to a fresh blackboard succeed when all identities are distinct and all versions
agree. -/
theorem allSucceed_iff :
    AllSucceed none plans ↔ (plans.flatMap (·.identities)).Nodup ∧
      ∀ a ∈ plans, ∀ b ∈ plans, a.schemaVersion = b.schemaVersion := by
  cases plans with
  | nil => simp [AllSucceed, commitAll]
  | cons plan rest =>
    rw [allSucceed_cons, List.flatMap_cons]
    constructor
    · rintro ⟨⟨hnodup, -⟩, hrest⟩
      obtain ⟨hall, hversions⟩ := (allSucceed_some_iff hnodup).mp hrest
      have hfirst : ∀ a ∈ plan :: rest, plan.schemaVersion = a.schemaVersion :=
        List.forall_mem_cons.mpr ⟨rfl, hversions⟩
      exact ⟨hall, fun a ha b hb => (hfirst a ha).symm.trans (hfirst b hb)⟩
    · rintro ⟨hall, hversions⟩
      have hplan : plan.identities.Nodup := (List.nodup_append.mp hall).1
      exact ⟨⟨hplan, fun _ h => nomatch h⟩, (allSucceed_some_iff hplan).mpr
        ⟨hall, fun b hb => hversions plan List.mem_cons_self b (List.mem_cons_of_mem plan hb)⟩⟩

/-- What all commits to a fresh blackboard leave. -/
theorem commitAll_fresh (h : AllSucceed none (plan :: plans)) :
    (commitAll none (plan :: plans)).1 =
      some { schemaVersion := plan.schemaVersion
             entries := (plan :: plans).flatMap (·.entries)
             raftPlan := ((plan :: plans).map (·.raftPlan)).foldl mergeRaft none } := by
  obtain ⟨hplan, hrest⟩ := allSucceed_cons.mp h
  rw [commitAll, commitSupportPlan_ok hplan]
  dsimp only [absorb] at hrest ⊢
  rw [commitAll_of_allSucceed hrest, List.map_cons, List.foldl_cons, mergeRaft_none]
  rfl

/-- Two slots hold the same plan, but for the order of its entries. -/
def SamePlan : Slot F R → Slot F R → Prop :=
  Option.Rel fun a b => a.schemaVersion = b.schemaVersion ∧ a.entries.Perm b.entries ∧
    a.raftPlan = b.raftPlan

theorem samePlan_of_perm (hperm : plans.Perm plans') (h : AllSucceed none plans)
    (h' : AllSucceed none plans') :
    SamePlan (commitAll none plans).1 (commitAll none plans').1 := by
  cases plans with
  | nil =>
    rw [← hperm.nil_eq]
    exact .none
  | cons plan rest =>
    cases plans' with
    | nil => exact absurd hperm.symm.nil_eq (List.cons_ne_nil _ _).symm
    | cons plan' rest' =>
      rw [commitAll_fresh h, commitAll_fresh h']
      refine .some ⟨?_, hperm.flatMap_right _, ?_⟩
      · exact (allSucceed_iff.mp h).2 plan List.mem_cons_self plan'
          (hperm.mem_iff.mpr List.mem_cons_self)
      · exact (hperm.map _).foldl_eq' (fun a _ b _ c => mergeRaft_right_comm c a b) _

end AllCommits

/-! ### Order -/

section Order

variable [DecidableEq F]

/-- Commits fail exactly for clashes and then change nothing, and their order does not matter:
neither for whether all succeed, nor for what they leave. -/
theorem support_plans_order_free :
    (∀ (slot : Slot F R) (plan : SupportPlanIR F R),
      (∃ error, (commitSupportPlan slot plan).2 = .error error) ↔
        ¬ (absorb slot plan).identities.Nodup ∨
          ∃ existing, slot = some existing ∧ existing.schemaVersion ≠ plan.schemaVersion) ∧
    (∀ (slot : Slot F R) (plan : SupportPlanIR F R) (error : BlackboardError F),
      (commitSupportPlan slot plan).2 = .error error → (commitSupportPlan slot plan).1 = slot) ∧
    ∀ plans plans' : List (SupportPlanIR F R), plans.Perm plans' →
      (AllSucceed none plans ↔ AllSucceed none plans') ∧
        (AllSucceed none plans → SamePlan (commitAll none plans).1 (commitAll none plans').1) := by
  refine ⟨fun slot plan => ?_, fun slot plan error h => ?_, fun plans plans' hperm => ?_⟩
  · have hclash : (¬ (absorb slot plan).identities.Nodup ∨
        ∃ existing, slot = some existing ∧ existing.schemaVersion ≠ plan.schemaVersion) ↔
          ¬ Compatible slot plan := by
      simp only [Compatible, not_and_or, not_forall, exists_prop, ne_eq]
    rw [hclash]
    constructor
    · rintro ⟨error, herror⟩ hok
      rw [commitSupportPlan_ok hok] at herror
      cases herror
    · intro h
      obtain ⟨error, herror⟩ := commitSupportPlan_error h
      exact ⟨error, by rw [herror]⟩
  · by_cases hok : Compatible slot plan
    · rw [commitSupportPlan_ok hok] at h
      cases h
    · obtain ⟨_, herror⟩ := commitSupportPlan_error hok
      rw [herror]
  · have hiff : AllSucceed none plans ↔ AllSucceed none plans' := by
      rw [allSucceed_iff, allSucceed_iff]
      simp only [(hperm.flatMap_right (·.identities)).nodup_iff, hperm.mem_iff]
    exact ⟨hiff, fun h => samePlan_of_perm hperm h (hiff.mp h)⟩

end Order

end PinchNPrint.Prepass
