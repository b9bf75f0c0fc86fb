/-
Region-scoped claim conflicts.

The per-region pass groups holders by a colon-joined key and reads the reported
scope back from the key. The key is exact for ids without a colon
(`regionScopeFromKey_plain`). An id with a colon shifts the parts: the scope that
is read back is named by the first two segments, without a layer
(`regionScopeFromKey_misread`). `regionConflicts_exact_iff` says for which holders
the pass still reports exactly the conflicts there are.
-/

import PinchNPrint.Scheduler.Validation

namespace PinchNPrint.Scheduler

open Std hiding compare_eq_iff_eq

instance lawfulEqOrd_holderKey : LawfulEqOrd (String ×ₗ String) where
  eq_of_compare h := compare_eq_iff_eq.mp h

/-! ### Keys -/

/-- The key one holder is grouped by in the per-region pass. -/
def groupKey (claim : String) (scope : ConflictScope) : String :=
  if nonTransitionableClaims.contains claim then scopeKeyWithoutLayer scope else scopeKey scope

/-- The last part of a group key. -/
def layerPart (claim : String) (layer : Option Nat) : List Char :=
  if nonTransitionableClaims.contains claim then ['_']
  else
    match layer with
    | none => "none".toList
    | some value => Nat.toDigits 10 value

/-- The object and the region id as they stand in a key. -/
def joinedIds (objectId regionId : String) : List Char :=
  objectId.toList ++ ':' :: regionId.toList

/-- The ids hold a further colon: cut at its first two colons, the joined text
names another object and another region. -/
def Misread (objectId regionId objectId' regionId' : String) : Prop :=
  ':' ∉ objectId'.toList ∧ ':' ∉ regionId'.toList ∧
    ∃ rest, joinedIds objectId regionId = joinedIds objectId' regionId' ++ ':' :: rest

theorem toList_groupKey (claim objectId regionId : String) (layer : Option Nat) :
    (groupKey claim (.region objectId regionId layer)).toList =
      "region".toList ++ ':' :: (joinedIds objectId regionId ++ ':' :: layerPart claim layer) := by
  unfold groupKey layerPart
  split
  · simp [scopeKeyWithoutLayer, joinedIds]
  · cases layer with
    | none => simp [scopeKey, joinedIds]
    | some value => simp [scopeKey, joinedIds]

theorem colon_notMem_toDigits (value : Nat) : ':' ∉ Nat.toDigits 10 value := by
  intro hmem
  have hdigit := Nat.isDigit_of_mem_toDigits (by decide) (by decide) hmem
  exact absurd hdigit (by decide)

theorem colon_notMem_layerPart (claim : String) (layer : Option Nat) :
    ':' ∉ layerPart claim layer := by
  unfold layerPart
  split
  · decide
  · cases layer with
    | none => decide
    | some value => exact colon_notMem_toDigits value

variable {claim objectId objectId' regionId regionId' : String} {layer layer' : Option Nat}

/-- The last part tells layers apart, for claims that may change holder. -/
theorem layerPart_eq_iff :
    layerPart claim layer = layerPart claim layer' ↔
      nonTransitionableClaims.contains claim = true ∨ layer = layer' := by
  unfold layerPart
  split
  · rename_i hfixed
    exact iff_of_true rfl (.inl hfixed)
  · rename_i hfree
    have hdigits : ∀ value, "none".toList ≠ Nat.toDigits 10 value := by
      intro value heq
      have hmem : 'n' ∈ Nat.toDigits 10 value := by
        rw [← heq]
        decide
      exact absurd (Nat.isDigit_of_mem_toDigits (by decide) (by decide) hmem) (by decide)
    rw [or_iff_right hfree]
    cases layer with
    | none =>
      cases layer' with
      | none => simp
      | some value => simpa using hdigits value
    | some value =>
      cases layer' with
      | none => simpa using (hdigits value).symm
      | some value' =>
        simp only [Option.some_inj]
        constructor
        · intro heq
          rw [← Nat.ofDigitChars_ten_toDigits (n := value), heq, Nat.ofDigitChars_ten_toDigits]
        · rintro rfl
          rfl

/-- Cutting at the last colon. -/
theorem append_colon_inj {left left' right right' : List Char} (hright : ':' ∉ right)
    (hright' : ':' ∉ right') (h : left ++ ':' :: right = left' ++ ':' :: right') :
    left = left' ∧ right = right' := by
  have hreverse := congrArg List.reverse h
  simp only [List.reverse_append, List.reverse_cons, List.append_assoc, List.singleton_append]
    at hreverse
  have hspan : ∀ {x y : List Char}, ':' ∉ x →
      (x.reverse ++ ':' :: y).takeWhile (· != ':') = x.reverse := by
    intro x y hx
    rw [List.takeWhile_append_of_pos]
    · simp
    · intro c hc
      have hne : c ≠ ':' := fun heq => hx (heq ▸ List.mem_reverse.mp hc)
      simpa using hne
  have hfront := congrArg (List.takeWhile (· != ':')) hreverse
  rw [hspan hright, hspan hright', List.reverse_inj] at hfront
  subst hfront
  rw [List.append_cancel_right_eq] at h
  exact ⟨h, rfl⟩

/-- Two holders of a claim share a group exactly when their joined ids agree and,
for claims that may change holder, their layers do. -/
theorem groupKey_eq_iff :
    groupKey claim (.region objectId regionId layer) =
        groupKey claim (.region objectId' regionId' layer') ↔
      joinedIds objectId regionId = joinedIds objectId' regionId' ∧
        (nonTransitionableClaims.contains claim = true ∨ layer = layer') := by
  rw [← String.toList_inj, toList_groupKey, toList_groupKey, List.append_cancel_left_eq,
    List.cons_inj_right, ← layerPart_eq_iff]
  constructor
  · intro h
    exact append_colon_inj (colon_notMem_layerPart _ _) (colon_notMem_layerPart _ _) h
  · rintro ⟨hids, hlayer⟩
    rw [hids, hlayer]

/-! ### Reading a key back -/

theorem splitn_append {piece : List Char} (hpiece : ':' ∉ piece) (n : Nat) (rest : List Char) :
    splitn ':' (n + 2) (piece ++ ':' :: rest) = piece :: splitn ':' (n + 1) rest := by
  have hspan : (piece ++ ':' :: rest).span (· != ':') = (piece, ':' :: rest) := by
    have hkeep : ∀ c ∈ piece, (c != ':') = true := by
      intro c hc
      have hne : c ≠ ':' := fun heq => hpiece (heq ▸ hc)
      simpa using hne
    rw [List.span_eq_takeWhile_dropWhile, List.takeWhile_append_of_pos hkeep,
      List.dropWhile_append_of_pos hkeep]
    simp
  rw [splitn, hspan]

/-- The scope read back from a key with four parts. -/
theorem regionScopeFromKey_parts {key : String} {objectId regionId last : List Char}
    (hobject : ':' ∉ objectId) (hregion : ':' ∉ regionId)
    (hkey : key.toList = "region".toList ++ ':' :: (objectId ++ ':' :: (regionId ++ ':' :: last))) :
    regionScopeFromKey key = .region (String.ofList objectId) (String.ofList regionId)
      (if String.ofList last = "none" then none else parseU32 (String.ofList last)) := by
  rw [regionScopeFromKey, hkey, splitn_append (by decide), splitn_append hobject,
    splitn_append hregion]
  rfl

/-- What `parseU32` reads after an optional sign. -/
theorem parseU32_of_digits {digits : List Char} (hne : digits ≠ [])
    (hdigits : ∀ c ∈ digits, c.isDigit = true) (hvalue : Nat.ofDigitChars 10 digits 0 < 2 ^ 32) :
    parseU32 (String.ofList digits) = some (Nat.ofDigitChars 10 digits 0) := by
  have hplus : ∀ rest, digits ≠ '+' :: rest := by
    rintro rest rfl
    exact absurd (hdigits '+' List.mem_cons_self) (by decide)
  have hfold : digits.foldl (fun n c => n * 10 + (c.toNat - '0'.toNat)) 0 =
      Nat.ofDigitChars 10 digits 0 := by
    rw [Nat.ofDigitChars_eq_foldl]
    simp only [Nat.mul_comm]
  have hall : digits.all Char.isDigit = true := List.all_eq_true.mpr hdigits
  unfold parseU32
  rw [String.toList_ofList]
  split
  · exact absurd rfl (hplus _)
  · simp only [List.isEmpty_eq_false_iff.mpr hne, hall, hfold, hvalue]
    simp

theorem parseU32_colon {text : List Char} (h : ':' ∈ text) : parseU32 (String.ofList text) = none := by
  have hbad : ∀ digits : List Char, ':' ∈ digits → digits.all Char.isDigit = false := by
    intro digits hmem
    exact List.all_eq_false.mpr ⟨':', hmem, by decide⟩
  unfold parseU32
  rw [String.toList_ofList]
  split
  · have hmem := (List.mem_cons.mp h).resolve_left (by decide)
    simp [hbad _ hmem]
  · simp [hbad text h]

/-- The layer of a scope is an unsigned 32-bit number. -/
def ConflictScope.InRange : ConflictScope → Prop
  | .global => True
  | .region _ _ layer => ∀ value, layer = some value → value < 2 ^ 32

/-- The layer a conflict over a claim is reported with. -/
def reportedLayer (claim : String) (layer : Option Nat) : Option Nat :=
  if nonTransitionableClaims.contains claim then none else layer

/-- Ids without a colon are read back. -/
theorem regionScopeFromKey_plain (hobject : ':' ∉ objectId.toList) (hregion : ':' ∉ regionId.toList)
    (hrange : (ConflictScope.region objectId regionId layer).InRange) :
    regionScopeFromKey (groupKey claim (.region objectId regionId layer)) =
      .region objectId regionId (reportedLayer claim layer) := by
  have hkey := toList_groupKey claim objectId regionId layer
  rw [joinedIds, List.append_assoc, List.cons_append] at hkey
  rw [regionScopeFromKey_parts hobject hregion hkey, String.ofList_toList, String.ofList_toList]
  congr 1
  unfold layerPart reportedLayer
  split
  · decide
  · cases layer with
    | none => simp
    | some value =>
      have hdigits : ∀ c ∈ Nat.toDigits 10 value, c.isDigit = true := fun c hc =>
        Nat.isDigit_of_mem_toDigits (by decide) (by decide) hc
      have hne : String.ofList (Nat.toDigits 10 value) ≠ "none" := by
        intro heq
        have hlist := congrArg String.toList heq
        rw [String.toList_ofList] at hlist
        exact absurd (hdigits 'n' (by rw [hlist]; decide)) (by decide)
      have hvalue : Nat.ofDigitChars 10 (Nat.toDigits 10 value) 0 = value :=
        Nat.ofDigitChars_ten_toDigits
      rw [if_neg hne, parseU32_of_digits Nat.toDigits_ne_nil hdigits (by
        rw [hvalue]
        exact hrange value rfl), hvalue]

/-- Ids with a colon are read back as the first two segments, without a layer. -/
theorem regionScopeFromKey_misread (h : Misread objectId regionId objectId' regionId') :
    regionScopeFromKey (groupKey claim (.region objectId regionId layer)) =
      .region objectId' regionId' none := by
  obtain ⟨hobject, hregion, rest, hrest⟩ := h
  have hkey := toList_groupKey claim objectId regionId layer
  rw [hrest, joinedIds, List.append_assoc, List.append_assoc, List.cons_append,
    List.cons_append] at hkey
  rw [regionScopeFromKey_parts hobject hregion hkey, String.ofList_toList, String.ofList_toList]
  have hcolon : ':' ∈ rest ++ ':' :: layerPart claim layer := by simp
  rw [parseU32_colon hcolon, ite_self]

/-- The ids are free of colons, or they are misread. -/
theorem plain_or_misread (objectId regionId : String) :
    (':' ∉ objectId.toList ∧ ':' ∉ regionId.toList) ∨
      ∃ objectId' regionId', Misread objectId regionId objectId' regionId' := by
  have hcut : ∀ {text : List Char}, ':' ∈ text →
      ∃ front rest, ':' ∉ front ∧ text = front ++ ':' :: rest := by
    intro text hmem
    obtain ⟨front, rest, htext, hfront⟩ := List.eq_append_cons_of_mem hmem
    exact ⟨front, rest, hfront, htext⟩
  by_cases hobject : ':' ∈ objectId.toList
  · right
    obtain ⟨front, rest, hfront, htext⟩ := hcut hobject
    have hcolon : ':' ∈ rest ++ ':' :: regionId.toList := by simp
    obtain ⟨second, rest', hsecond, htext'⟩ := hcut hcolon
    refine ⟨String.ofList front, String.ofList second, by simpa using hfront,
      by simpa using hsecond, rest', ?_⟩
    simp [joinedIds, htext, htext']
  · by_cases hregion : ':' ∈ regionId.toList
    · right
      obtain ⟨front, rest, hfront, htext⟩ := hcut hregion
      refine ⟨objectId, String.ofList front, hobject, by simpa using hfront, rest, ?_⟩
      simp [joinedIds, htext]
    · exact .inl ⟨hobject, hregion⟩

theorem Misread.not_plain (h : Misread objectId regionId objectId' regionId') :
    ¬ (':' ∉ objectId.toList ∧ ':' ∉ regionId.toList) := by
  rintro ⟨hobject, hregion⟩
  obtain ⟨-, -, rest, hrest⟩ := h
  have hcount := congrArg (List.count ':') hrest
  simp [joinedIds, List.count_eq_zero_of_not_mem hobject,
    List.count_eq_zero_of_not_mem hregion] at hcount
  omega

/-! ### Groups and reports -/

/-- A module is grouped under a key exactly when it holds the claim in a region
with that key. -/
theorem mem_holdersByClaim {holders : List ClaimHolder} {key : String} {module : ModuleId} :
    module ∈ ((holdersByClaim holders false)[toLex (claim, key)]?).getD [] ↔
      ∃ holder ∈ holders, holder.scope ≠ .global ∧ holder.claim = claim ∧
        groupKey claim holder.scope = key ∧ holder.moduleId = module := by
  let Has := fun grouped : BTreeMap (String ×ₗ String) (List ModuleId) =>
    module ∈ (grouped[toLex (claim, key)]?).getD []
  have hempty : ¬ Has ∅ := by simp [Has]
  unfold holdersByClaim
  refine (@List.foldl_collects _ _ _ Has
    (fun holder => holder.scope ≠ .global ∧ holder.claim = claim ∧
      groupKey claim holder.scope = key ∧ holder.moduleId = module) ?_ holders ∅).trans ?_
  · intro grouped holder
    by_cases hscope : holder.scope = .global
    · simp [hscope]
    · have hkey : (if nonTransitionableClaims.contains holder.claim = true then
          scopeKeyWithoutLayer holder.scope else scopeKey holder.scope) =
          groupKey holder.claim holder.scope := rfl
      simp only [hscope, decide_false, bne_self_eq_false, Bool.false_eq_true, if_false, hkey, Has,
        ExtTreeMap.getElem?_alter]
      by_cases hsame : toLex (holder.claim, groupKey holder.claim holder.scope) = toLex (claim, key)
      · obtain ⟨hclaim, hgroup⟩ := Prod.mk.inj (toLex.injective hsame)
        subst hclaim
        simp [hgroup, hscope, eq_comm (a := module)]
      · have hother : ¬ (holder.claim = claim ∧ groupKey claim holder.scope = key) := by
          rintro ⟨rfl, rfl⟩
          exact hsame rfl
        have hcompare : ¬ compare (toLex (holder.claim, groupKey holder.claim holder.scope))
            (toLex (claim, key)) = .eq := fun heq => hsame (compare_eq_iff_eq.mp heq)
        rw [if_neg hcompare]
        constructor
        · exact .inl
        · rintro (h | ⟨-, hclaim, hgroup, -⟩)
          · exact h
          · exact absurd ⟨hclaim, hgroup⟩ hother
  · simp [hempty]

/-- The modules of a group. -/
def groupOf (holders : List ClaimHolder) (claim key : String) : List ModuleId :=
  ((holdersByClaim holders false)[toLex (claim, key)]?).getD []

/-- The pass reports the ascending pairs of every group, in the scope that is read
back from its key. -/
theorem mem_regionConflicts {request : DagValidationRequest} {pass : DagValidationPass}
    {a b : ModuleId} {scope : ConflictScope} :
    ⟨pass, .claimConflict claim a b scope⟩ ∈ validateClaimConflicts request pass false ↔
      ∃ key, a ∈ groupOf request.claimHolders claim key ∧
        b ∈ groupOf request.claimHolders claim key ∧ compare a b = .lt ∧
          regionScopeFromKey key = scope := by
  simp only [validateClaimConflicts, Bool.false_eq_true, if_false, Bool.false_and, List.nil_append,
    List.mem_flatMap, List.mem_map, DagValidationDiagnostic.mk.injEq,
    SchedulerError.claimConflict.injEq, true_and]
  constructor
  · rintro ⟨⟨groupKey, ids⟩, hentry, ⟨x, y⟩, hpair, hclaim, rfl, rfl, hscope⟩
    obtain ⟨hx, hy, hlt⟩ := BTreeSet.mem_orderedPairs_sortDedup.mp hpair
    have hids := ExtTreeMap.mem_toList_iff_getElem?_eq_some.mp hentry
    have hgroup : groupOf request.claimHolders claim (ofLex groupKey).2 = ids := by
      rw [groupOf, ← hclaim]
      exact congrArg (Option.getD · []) hids
    refine ⟨(ofLex groupKey).2, ?_, ?_, hlt, hscope⟩
    · rwa [hgroup]
    · rwa [hgroup]
  · rintro ⟨key, ha, hb, hlt, hscope⟩
    cases hids : (holdersByClaim request.claimHolders false)[toLex (claim, key)]? with
    | none =>
      rw [groupOf, hids] at ha
      cases ha
    | some ids =>
      rw [groupOf, hids] at ha hb
      exact ⟨(toLex (claim, key), ids), ExtTreeMap.mem_toList_iff_getElem?_eq_some.mpr hids,
        (a, b), BTreeSet.mem_orderedPairs_sortDedup.mpr ⟨ha, hb, hlt⟩, rfl, rfl, rfl, hscope⟩

/-- A module holds a claim for an object and a region; for a claim that may change
holder, on the given layer. -/
def HoldsIn (holders : List ClaimHolder) (claim : String) (module : ModuleId)
    (objectId regionId : String) (layer : Option Nat) : Prop :=
  ∃ holder ∈ holders, holder.claim = claim ∧ holder.moduleId = module ∧
    ∃ held, holder.scope = .region objectId regionId held ∧ reportedLayer claim held = layer

/-- The pass reports a conflict between two modules over a claim in a scope. -/
def ReportsConflict (request : DagValidationRequest) (claim : String) (a b : ModuleId)
    (scope : ConflictScope) : Prop :=
  ⟨.perRegionClaimConflicts, .claimConflict claim a b scope⟩ ∈
      validateClaimConflicts request .perRegionClaimConflicts false ∨
    ⟨.perRegionClaimConflicts, .claimConflict claim b a scope⟩ ∈
      validateClaimConflicts request .perRegionClaimConflicts false

/-- Two distinct modules are reported exactly in the scopes where both hold the
claim. -/
def ConflictsExact (request : DagValidationRequest) : Prop :=
  ∀ claim a b objectId regionId layer, a ≠ b →
    (ReportsConflict request claim a b (.region objectId regionId layer) ↔
      HoldsIn request.claimHolders claim a objectId regionId layer ∧
        HoldsIn request.claimHolders claim b objectId regionId layer)

/-- Holders that share a group over ids with a colon name different regions, and
both of their modules hold the claim where the key is read back as well. -/
def MisreadsHarmless (holders : List ClaimHolder) : Prop :=
  ∀ claim a b objectId regionId layer objectId' regionId' layer' shownObject shownRegion,
    ⟨claim, a, .region objectId regionId layer⟩ ∈ holders →
    ⟨claim, b, .region objectId' regionId' layer'⟩ ∈ holders → a ≠ b →
    joinedIds objectId regionId = joinedIds objectId' regionId' →
    (nonTransitionableClaims.contains claim = true ∨ layer = layer') →
    Misread objectId regionId shownObject shownRegion →
      (objectId, regionId) ≠ (objectId', regionId') ∧
        HoldsIn holders claim a shownObject shownRegion none ∧
        HoldsIn holders claim b shownObject shownRegion none

theorem reportsConflict_iff {request : DagValidationRequest} {a b : ModuleId}
    {scope : ConflictScope} (hne : a ≠ b) :
    ReportsConflict request claim a b scope ↔
      ∃ objectId regionId layer objectId' regionId' layer',
        ⟨claim, a, .region objectId regionId layer⟩ ∈ request.claimHolders ∧
        ⟨claim, b, .region objectId' regionId' layer'⟩ ∈ request.claimHolders ∧
        joinedIds objectId regionId = joinedIds objectId' regionId' ∧
        (nonTransitionableClaims.contains claim = true ∨ layer = layer') ∧
        regionScopeFromKey (groupKey claim (.region objectId regionId layer)) = scope := by
  have hgroup : ∀ {module key}, module ∈ groupOf request.claimHolders claim key ↔
      ∃ objectId regionId layer, ⟨claim, module, .region objectId regionId layer⟩ ∈
        request.claimHolders ∧ groupKey claim (.region objectId regionId layer) = key := by
    intro module key
    rw [groupOf, mem_holdersByClaim]
    constructor
    · rintro ⟨⟨claim', module', scope'⟩, hholder, hscope, rfl, hkey, rfl⟩
      cases scope' with
      | global => exact absurd rfl hscope
      | region objectId regionId layer => exact ⟨objectId, regionId, layer, hholder, hkey⟩
    · rintro ⟨objectId, regionId, layer, hholder, hkey⟩
      exact ⟨_, hholder, nofun, rfl, hkey, rfl⟩
  simp only [ReportsConflict, mem_regionConflicts]
  constructor
  · rintro (⟨key, hina, hinb, -, hscope⟩ | ⟨key, hinb, hina, -, hscope⟩)
    all_goals
      obtain ⟨objectId, regionId, layer, ha, rfl⟩ := hgroup.mp hina
      obtain ⟨objectId', regionId', layer', hb, hkey⟩ := hgroup.mp hinb
      obtain ⟨hids, hlayer⟩ := groupKey_eq_iff.mp hkey.symm
      exact ⟨objectId, regionId, layer, objectId', regionId', layer', ha, hb, hids, hlayer, hscope⟩
  · rintro ⟨objectId, regionId, layer, objectId', regionId', layer', ha, hb, hids, hlayer, hscope⟩
    have hina := hgroup.mpr ⟨objectId, regionId, layer, ha, rfl⟩
    have hinb := hgroup.mpr ⟨objectId', regionId', layer', hb,
      (groupKey_eq_iff.mpr ⟨hids, hlayer⟩).symm⟩
    cases hcompare : compare a b with
    | lt => exact .inl ⟨_, hina, hinb, rfl, hscope⟩
    | eq => exact absurd (compare_eq_iff_eq.mp hcompare) hne
    | gt => exact .inr ⟨_, hinb, hina, OrientedCmp.lt_of_gt hcompare, hscope⟩

theorem holdsIn_iff {holders : List ClaimHolder} {module : ModuleId} :
    HoldsIn holders claim module objectId regionId layer ↔
      ∃ held, ⟨claim, module, .region objectId regionId held⟩ ∈ holders ∧
        reportedLayer claim held = layer := by
  constructor
  · rintro ⟨⟨_, _, _⟩, hholder, rfl, rfl, held, rfl, hlayer⟩
    exact ⟨held, hholder, hlayer⟩
  · rintro ⟨held, hholder, hlayer⟩
    exact ⟨_, hholder, rfl, rfl, held, rfl, hlayer⟩

theorem reportedLayer_eq_iff :
    reportedLayer claim layer = reportedLayer claim layer' ↔
      nonTransitionableClaims.contains claim = true ∨ layer = layer' := by
  unfold reportedLayer
  split
  · rename_i hfixed
    exact iff_of_true rfl (.inl hfixed)
  · rename_i hfree
    exact (or_iff_right hfree).symm

/-- **When region-scoped conflicts are exact.** For layers that are 32-bit
numbers, the per-region pass reports exactly the conflicts there are if and only
if no two holders collide over ids with a colon, unless harmlessly. -/
theorem regionConflicts_exact_iff (request : DagValidationRequest)
    (hrange : ∀ holder ∈ request.claimHolders, holder.scope.InRange) :
    ConflictsExact request ↔ MisreadsHarmless request.claimHolders := by
  constructor
  · intro hexact claim a b objectId regionId layer objectId' regionId' layer' shownObject
      shownRegion ha hb hne hids hlayer hmisread
    have hshown := @regionScopeFromKey_misread claim _ _ _ _ layer hmisread
    refine ⟨fun heq => ?_, (hexact claim a b shownObject shownRegion none hne).mp
      ((reportsConflict_iff hne).mpr ⟨objectId, regionId, layer, objectId', regionId', layer', ha,
        hb, hids, hlayer, hshown⟩)⟩
    -- Both modules hold the claim in one scope, and no report can name it.
    obtain ⟨rfl, rfl⟩ := Prod.mk.inj heq
    have hreport := (hexact claim a b objectId regionId (reportedLayer claim layer) hne).mpr
      ⟨holdsIn_iff.mpr ⟨layer, ha, rfl⟩,
        holdsIn_iff.mpr ⟨layer', hb, (reportedLayer_eq_iff.mpr hlayer).symm⟩⟩
    obtain ⟨object₁, region₁, layer₁, -, -, -, hholder, -, -, -, hread⟩ :=
      (reportsConflict_iff hne).mp hreport
    rcases plain_or_misread object₁ region₁ with hplain | ⟨object₂, region₂, hmisread'⟩
    · rw [regionScopeFromKey_plain hplain.1 hplain.2 (hrange _ hholder)] at hread
      obtain ⟨rfl, rfl, -⟩ := ConflictScope.region.inj hread
      exact hmisread.not_plain hplain
    · rw [regionScopeFromKey_misread hmisread'] at hread
      obtain ⟨rfl, rfl, -⟩ := ConflictScope.region.inj hread
      exact hmisread.not_plain ⟨hmisread'.1, hmisread'.2.1⟩
  · intro hharmless claim a b objectId regionId layer hne
    rw [reportsConflict_iff hne]
    constructor
    · rintro ⟨object₁, region₁, layer₁, object₂, region₂, layer₂, ha, hb, hids, hlayer, hread⟩
      rcases plain_or_misread object₁ region₁ with hplain | ⟨object, region, hmisread⟩
      · rw [regionScopeFromKey_plain hplain.1 hplain.2 (hrange _ ha)] at hread
        cases hread
        obtain ⟨hobject, -, hregion⟩ :=
          (List.append_cons_inj_of_notMem hplain.1 hplain.2).mp hids
        rw [String.toList_inj] at hobject hregion
        subst hobject hregion
        exact ⟨holdsIn_iff.mpr ⟨layer₁, ha, rfl⟩,
          holdsIn_iff.mpr ⟨layer₂, hb, (reportedLayer_eq_iff.mpr hlayer).symm⟩⟩
      · rw [regionScopeFromKey_misread hmisread] at hread
        cases hread
        exact (hharmless claim a b _ _ _ _ _ _ _ _ ha hb hne hids hlayer hmisread).2
    · rintro ⟨hholds, hholds'⟩
      obtain ⟨held, ha, hlayer⟩ := holdsIn_iff.mp hholds
      obtain ⟨held', hb, hlayer'⟩ := holdsIn_iff.mp hholds'
      have hsame := reportedLayer_eq_iff.mp (hlayer.trans hlayer'.symm)
      refine ⟨objectId, regionId, held, objectId, regionId, held', ha, hb, rfl, hsame, ?_⟩
      rcases plain_or_misread objectId regionId with hplain | ⟨object, region, hmisread⟩
      · rw [regionScopeFromKey_plain hplain.1 hplain.2 (hrange _ ha), hlayer]
      · exact absurd rfl
          (hharmless claim a b _ _ _ _ _ _ _ _ ha hb hne rfl hsame hmisread).1

/-- A request with nothing but claim holders. -/
def holderRequest (holders : List ClaimHolder) : DagValidationRequest where
  modules := []
  stageDags := []
  hostIrSchemaVersion := ⟨1, 0, 0⟩
  hostVersion := ⟨0, 1, 0⟩
  claimHolders := holders
  accessAudits := []

/-- Two modules in different regions whose ids join to the same text. -/
def collidingHolders : List ClaimHolder :=
  [⟨"infill-generator", "com.example.a", .region "plate:cube" "wall" (some 3)⟩,
    ⟨"infill-generator", "com.example.b", .region "plate" "cube:wall" (some 3)⟩]

/-- The pass reports them in a region neither of them names. -/
theorem collidingHolders_reported :
    ReportsConflict (holderRequest collidingHolders) "infill-generator" "com.example.a"
        "com.example.b" (.region "plate" "cube" none) ∧
      ¬ ConflictsExact (holderRequest collidingHolders) := by
  have hreport : ReportsConflict (holderRequest collidingHolders) "infill-generator"
      "com.example.a" "com.example.b" (.region "plate" "cube" none) := by
    refine (reportsConflict_iff (by decide)).mpr ⟨_, _, _, _, _, _, List.mem_cons_self,
      List.mem_cons_of_mem _ List.mem_cons_self, by decide, by decide, by decide⟩
  refine ⟨hreport, fun hexact => ?_⟩
  obtain ⟨held, hholder, -⟩ := holdsIn_iff.mp ((hexact _ _ _ _ _ _ (by decide)).mp hreport).1
  simp [holderRequest, collidingHolders] at hholder

theorem regionConflicts_exact_iff_cube :
    ConflictsExact (holderRequest
      [⟨"infill-generator", "com.example.a", .region "cube" "1" (some 3)⟩,
        ⟨"infill-generator", "com.example.b", .region "cube" "1" (some 3)⟩]) := by
  refine (regionConflicts_exact_iff _ ?_).mpr ?_
  · intro holder hholder
    simp only [holderRequest, List.mem_cons, List.not_mem_nil, or_false] at hholder
    rcases hholder with rfl | rfl
    all_goals
      intro value hvalue
      cases hvalue
      decide
  · intro claim a b objectId regionId layer objectId' regionId' layer' shownObject shownRegion ha _
      _ _ _ hmisread
    have hids : objectId = "cube" ∧ regionId = "1" := by
      simp only [holderRequest, List.mem_cons, ClaimHolder.mk.injEq, ConflictScope.region.injEq,
        List.not_mem_nil, or_false] at ha
      rcases ha with ⟨-, -, rfl, rfl, -⟩ | ⟨-, -, rfl, rfl, -⟩
      all_goals exact ⟨rfl, rfl⟩
    obtain ⟨rfl, rfl⟩ := hids
    exact absurd ⟨by decide, by decide⟩ hmisread.not_plain

end PinchNPrint.Scheduler
