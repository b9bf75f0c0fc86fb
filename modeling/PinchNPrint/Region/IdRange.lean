/-
Ids without room (`slicer-core`: `region_mapping.rs`).

The ids of modifier children are made of the id of their region, and the painted id of the
region in between. The functions panic where an id leaves its namespace; mapping checks the
base before it makes a painted id of it, and the painted id before the id of a child.

`region_mapping_reports_ids`: mapping never panics, and a region with a modifier on its layer
whose id, or whose painted id of some chain, has no room for a child ends in an error. A
painted id is made for the modifier children only: the painted entry itself has the key of the
base, so a base without room for it is no error (`painted_base_without_room`).
-/

import PinchNPrint.Region.Keys

namespace PinchNPrint.Region

open Config hiding ObjectId
open Layer (ObjectId PaintValue RegionKey)

variable {F : Type}

/-! ### Room for painted ids -/

/-- A base that has room for modifier children has room for painted ids. -/
theorem exists_paintVariantRegionId [FloatBits F] {base : Nat}
    (h : modifierSubRegionIdFits base = true) (chain : VariantChain F) :
    ∃ id, paintVariantRegionId base chain = some id := by
  unfold paintVariantRegionId
  split
  case isTrue => exact ⟨base, rfl⟩
  case isFalse =>
    unfold modifierSubRegionIdFits at h
    obtain ⟨top, htop, hbound⟩ := (Option.any_eq_true ..).mp h
    rw [decide_eq_true_eq, bind_checked htop] at hbound
    unfold MODIFIER_VARIANT_REGION_ID_STRIDE MODIFIER_VARIANT_REGION_ID_FLAG at hbound
    have hhash : (paintVariantHash chain - 1) % (PAINT_VARIANT_REGION_ID_STRIDE - 1) + 1 <
        PAINT_VARIANT_REGION_ID_STRIDE := by
      unfold PAINT_VARIANT_REGION_ID_STRIDE
      omega
    dsimp only
    generalize (paintVariantHash chain - 1) % (PAINT_VARIANT_REGION_ID_STRIDE - 1) + 1 = hash at *
    unfold PAINT_VARIANT_REGION_ID_STRIDE at hhash ⊢
    rw [Nat.mul_comm] at hbound
    rw [checkedMul, Nat.mul_comm, if_pos (by omega), Option.bind_some, checkedAdd,
      if_pos (by omega)]
    refine ⟨_, Option.filter_eq_some_iff.mpr ⟨rfl, ?_⟩⟩
    rw [Bool.and_eq_true, decide_eq_true_eq, bne_iff_ne]
    omega

/-! ### No panic -/

/-- An error other than a panic. -/
def IsReported : RegionMappingError F → Prop
  | .Panicked _ => False
  | _ => True

theorem IsInputError.reported {error : RegionMappingError F} (h : IsInputError error) :
    IsReported error := by
  cases error with
  | Panicked => exact h
  | _ => exact trivial

section Reported

variable [Floats F]

theorem checkCap_reported {map : RegionMapIR F} {cap : Nat} :
    Except.FailsWith IsReported (map.checkCap cap) := by
  intro error h
  unfold RegionMapIR.checkCap at h
  split at h
  · cases h
    exact trivial
  · cases h

variable [DecidableEq F]

theorem insertEntry_reported {map : RegionMapIR F} {key : RegionKey F} {plan : RegionPlan F} :
    Except.FailsWith IsReported (map.insertEntry key plan) := by
  intro error h
  unfold RegionMapIR.insertEntry at h
  split at h
  · cases h
    exact trivial
  · cases h

variable [FloatBits F] {input : RegionMappingInput F} {layer : GlobalLayer F}
  {region : ActiveRegion F} {chain : VariantChain F} {map : RegionMapIR F}

omit [Floats F] [FloatBits F] [DecidableEq F] in
theorem reported_of_input {α : Type} {x : Except (RegionMappingError F) α}
    (h : Except.FailsWith IsInputError x) : Except.FailsWith IsReported x :=
  fun error herror => (h error herror).reported

omit [FloatBits F] in
theorem insertModifierEntry_reported {group : List ExPolygon × List (ModifierVolume F)} :
    Except.FailsWith IsReported (insertModifierEntry input layer region map group) := by
  unfold insertModifierEntry
  split
  case isTrue =>
    intro error h
    cases h
    exact trivial
  case isFalse hfits =>
    rw [Bool.not_eq_true', Bool.not_eq_false] at hfits
    obtain ⟨subId, hid⟩ := exists_modifierSubRegionId hfits region.objectId group.1
    rw [hid]
    exact checkCap_reported.bind fun _ =>
      (reported_of_input childConfig_failsWith).bind fun _ => insertEntry_reported

omit [FloatBits F] in
theorem insertPaintedModifierEntry_reported {parentRegionId : Nat}
    (hfits : modifierSubRegionIdFits parentRegionId = true)
    {group : List ExPolygon × List (ModifierVolume F)} :
    Except.FailsWith IsReported
      (insertPaintedModifierEntry input layer region chain parentRegionId map group) := by
  obtain ⟨subId, hid⟩ := exists_modifierSubRegionId hfits region.objectId group.1
  unfold insertPaintedModifierEntry
  rw [hid, orPanic_some, Except.ok_bind]
  exact (reported_of_input childConfig_failsWith).bind fun _ =>
    checkCap_reported.bind fun _ => insertEntry_reported

/-- If the base has room where there are modifiers, no painted id panics. -/
theorem insertPaintedModifierEntries_reported
    (hfits : regionGroups input layer region ≠ [] → modifierSubRegionIdFits region.regionId = true) :
    Except.FailsWith IsReported (insertPaintedModifierEntries input layer region chain map) := by
  unfold insertPaintedModifierEntries
  dsimp only
  split
  case isTrue => exact .pure _
  case isFalse hgroups =>
    rw [Bool.or_eq_true, not_or, List.isEmpty_iff, List.isEmpty_iff] at hgroups
    obtain ⟨parent, hparent⟩ := exists_paintVariantRegionId (hfits hgroups.2) chain
    rw [hparent, orPanic_some, Except.ok_bind]
    split
    case isTrue =>
      intro error h
      cases h
      exact trivial
    case isFalse hroom =>
      rw [Bool.not_eq_true', Bool.not_eq_false] at hroom
      exact .foldlM (fun group _ map => insertPaintedModifierEntry_reported hroom) map

theorem mapChain_reported
    (hfits : regionGroups input layer region ≠ [] → modifierSubRegionIdFits region.regionId = true) :
    Except.FailsWith IsReported (mapChain input layer region map chain) := by
  unfold mapChain
  refine (reported_of_input effectiveConfig_failsWith).bind fun effective => ?_
  refine (insertPaintedModifierEntries_reported hfits).bind fun map => ?_
  unfold insertChainEntry
  exact checkCap_reported.bind fun _ => insertEntry_reported

/-- The children of the unpainted region come first and check the base. -/
theorem mapRegion_reported {variants : BTreeMap ObjectId (BTreeMap String (List (PaintValue F)))} :
    Except.FailsWith IsReported (mapRegion input variants layer map region) := by
  unfold mapRegion
  by_cases hfits : regionGroups input layer region ≠ [] →
      modifierSubRegionIdFits region.regionId = true
  · refine (Except.FailsWith.foldlM (fun group _ map => insertModifierEntry_reported) map).bind
      fun map => ?_
    exact Except.FailsWith.foldlM (fun chain _ map => mapChain_reported hfits) map
  · obtain ⟨hgroups, hroom⟩ := Classical.not_imp.mp hfits
    obtain ⟨group, rest, heq⟩ := List.exists_cons_of_ne_nil hgroups
    rw [Bool.not_eq_true] at hroom
    intro error h
    rw [heq, List.foldlM_cons, insertModifierEntry, hroom] at h
    cases h
    exact trivial

theorem executeRegionMapping_reported :
    Except.FailsWith IsReported (executeRegionMapping input) := by
  unfold executeRegionMapping
  have hprecheck : Except.FailsWith IsReported (precheckCap input) := by
    intro error h
    unfold precheckCap at h
    dsimp only at h
    split at h
    · cases h
      exact trivial
    · cases h
  refine hprecheck.bind fun _ => ?_
  refine (reported_of_input scanPaintData_failsWith).bind fun variants => ?_
  refine Except.FailsWith.foldlM (fun layer _ map => ?_) _
  exact Except.FailsWith.foldlM (fun region _ map => mapRegion_reported) map

/-! ### Ids that are reported -/

/-- The region, painted as the chain says, has no room for modifier children. -/
def LacksRoom (region : ActiveRegion F) (chain : VariantChain F) : Prop :=
  ∀ parent, paintVariantRegionId region.regionId chain = some parent →
    modifierSubRegionIdFits parent = false

omit [Floats F] [DecidableEq F] in
theorem LacksRoom.childRegionId (h : LacksRoom region chain) (footprint : List ExPolygon) :
    childRegionId region chain footprint = none := by
  unfold Region.childRegionId
  cases hparent : paintVariantRegionId region.regionId chain with
  | none => rfl
  | some parent => rw [Option.bind_some, modifierSubRegionId, h parent hparent, if_neg (by simp)]

/-- Mapping does not panic, and reports the regions without room for the children they have. -/
theorem region_mapping_reports_ids (input : RegionMappingInput F) :
    (∀ message, executeRegionMapping input ≠ .error (.Panicked message)) ∧
      ∀ layer ∈ input.globalLayers, ∀ region ∈ layer.activeRegions,
        regionFootprints input layer region ≠ [] →
        ∀ chain, CanonicalChain input region.objectId chain → LacksRoom region chain →
          ∃ error, executeRegionMapping input = .error error := by
  refine ⟨fun message h => executeRegionMapping_reported _ h, ?_⟩
  intro layer hlayer region hregion hfootprints chain hchain hroom
  cases hmap : executeRegionMapping input with
  | error error => exact ⟨error, rfl⟩
  | ok map =>
    obtain ⟨footprint, hfootprint⟩ := List.exists_mem_of_ne_nil _ hfootprints
    obtain ⟨group, hgroup, -⟩ := List.mem_map.mp ((grouped_regionGroups.2 footprint).mpr hfootprint)
    obtain ⟨_, -, id, hid, -⟩ := exists_child_entry hmap hlayer hregion hchain hgroup
    rw [hroom.childRegionId] at hid
    cases hid

end Reported

/-! ### A tile with a large id -/

/-- The tile under another id. -/
def largeTileRegion (regionId : Nat) : ActiveRegion ℚ :=
  { tileRegion with regionId := regionId }

def largeTileLayer (regionId : Nat) : GlobalLayer ℚ :=
  { tileLayer with activeRegions := [largeTileRegion regionId] }

def largeTileInput (regionId : Nat) : RegionMappingInput ℚ :=
  { tileInput with globalLayers := [largeTileLayer regionId] }

/-- The painted id of a base has room, that of its children has none. -/
theorem region_mapping_reports_ids_tile :
    paintVariantRegionId (2 ^ 40) ([("material", .ToolIndex 1)] : VariantChain ℚ) =
        some (2 ^ 40 * 1000000 + 2) ∧
      ∃ error, executeRegionMapping (largeTileInput (2 ^ 40)) = .error error := by
  refine ⟨by decide +kernel, ?_⟩
  refine (region_mapping_reports_ids (largeTileInput (2 ^ 40))).2 (largeTileLayer (2 ^ 40))
    (List.mem_singleton.mpr rfl) (largeTileRegion (2 ^ 40)) (List.mem_singleton.mpr rfl)
    (by decide +kernel) [("material", .ToolIndex 1)] ?_ ?_
  · exact ⟨by decide +kernel, by decide +kernel⟩
  · intro parent hparent
    have hid : paintVariantRegionId (2 ^ 40) ([("material", .ToolIndex 1)] : VariantChain ℚ) =
        some (2 ^ 40 * 1000000 + 2) := by decide +kernel
    cases hid.symm.trans hparent
    decide +kernel

/-- Without modifiers a painted region is mapped, whether its painted id has room or not. -/
theorem painted_base_without_room :
    CanonicalChain { largeTileInput (2 ^ 62) with objects := [{ tile with modifierVolumes := [] }] }
        "tile" [("material", .ToolIndex 1)] ∧
      paintVariantRegionId (2 ^ 62) ([("material", .ToolIndex 1)] : VariantChain ℚ) = none ∧
      ∃ map, executeRegionMapping
        { largeTileInput (2 ^ 62) with objects := [{ tile with modifierVolumes := [] }] } =
          .ok map := by
  refine ⟨⟨by decide +kernel, by decide +kernel⟩, by decide +kernel, ?_⟩
  have hok : (executeRegionMapping { largeTileInput (2 ^ 62) with
      objects := [{ tile with modifierVolumes := [] }] }).toOption.isSome = true := by
    decide +kernel
  obtain ⟨map, hmap⟩ := Option.isSome_iff_exists.mp hok
  exact ⟨map, Except.of_toOption_eq_some hmap⟩

end PinchNPrint.Region
