/-
Region identities (`slicer-ir`: `slice_ir.rs`; `slicer-core`:
`paint_segmentation/mod.rs`; `slicer-wasm-host`: `selection.rs`).

Painted regions and modifier children get ids made of the id of their parent and
a hash: a stride times the parent plus a hash between one and the stride, below
or above the bit of the modifier namespace. Ids are naturals below `2 ^ 64`;
where the source multiplies with a check and panics, the model returns `none`.

`paintVariantRegionId_spec` and `modifierSubRegionId_spec` say what the two ids
are made of, and that division takes them apart again.
-/

import PinchNPrint.Region.Ir

namespace PinchNPrint.Region

open Layer (ObjectId PaintValue RegionKey)

variable {F : Type}

/-! ### Words of 64 bits -/

/-- `u64::wrapping_mul`. -/
def wrappingMul (a b : Nat) : Nat :=
  a * b % 2 ^ 64

/-- `u64::wrapping_add`. -/
def wrappingAdd (a b : Nat) : Nat :=
  (a + b) % 2 ^ 64

/-- `u64::checked_mul`. -/
def checkedMul (a b : Nat) : Option Nat :=
  if a * b < 2 ^ 64 then some (a * b) else none

/-- `u64::checked_add`. -/
def checkedAdd (a b : Nat) : Option Nat :=
  if a + b < 2 ^ 64 then some (a + b) else none

/-- `u64::from_le_bytes`, on at most eight bytes. -/
def fromLeBytes (bytes : List UInt8) : Nat :=
  bytes.foldr (fun byte word => byte.toNat + 256 * word) 0

/-- The chunks of eight bytes of a text, the last one filled up with zeros. -/
def wordsOf (text : String) : List Nat :=
  let bytes := text.toUTF8.toList
  (List.range ((bytes.length + 7) / 8)).map fun k => fromLeBytes ((bytes.drop (8 * k)).take 8)

/-- `(v as u64).to_le_bytes()`. -/
def leBytes (v : ℤ) : List Nat :=
  let word := (v % 2 ^ 64).toNat
  (List.range 8).map fun k => word / 256 ^ k % 256

/-- `f32::to_bits`. -/
class FloatBits (F : Type) where
  toBits : F → Nat

/-- For tests, whose scalars are naturals. -/
instance : FloatBits ℚ where
  toBits a := a.num.toNat

/-! ### Painted regions -/

def PAINT_VARIANT_REGION_ID_STRIDE : Nat :=
  1000000

/-- One round of the fold over words. -/
def foldWord (h word : Nat) : Nat :=
  wrappingMul (h ^^^ word) 0x100000001B3

/-- The prime and the payload of a value. -/
def valuePayload [FloatBits F] : PaintValue F → Nat × Nat
  | .Flag value => (0x9E3779B97F4A7C15, value.toNat)
  | .Scalar value => (0xBF58476D1CE4E5B9, FloatBits.toBits value)
  | .ToolIndex value => (0x94D049BB133111EB, value)
  | .Custom value => (0x0A0B0C0D0E0F0101, (wordsOf value).foldl foldWord 0)

/-- One entry of the chain. -/
def hashEntry [FloatBits F] (h : Nat) (entry : String × PaintValue F) : Nat :=
  let (prime, payload) := valuePayload entry.2
  wrappingMul (wrappingAdd ((wordsOf entry.1).foldl foldWord h) prime) 0x9E3779B97F4A7C15 ^^^ payload

/-- `paint_variant_hash`: zero is the base chain, and a single tool has a payload
of its own. -/
def paintVariantHash [FloatBits F] : VariantChain F → Nat
  | [] => 0
  | [("material", .ToolIndex n)] => n + 1
  | chain =>
      let h := chain.foldl hashEntry 0xCBF29CE484222325
      if h = 0 then 1 else h

/-- `paint_variant_region_id`; it panics where the id leaves its namespace. -/
def paintVariantRegionId [FloatBits F] (baseRegionId : Nat) (chain : VariantChain F) :
    Option Nat :=
  if chain.isEmpty then some baseRegionId
  else
    let hash := (paintVariantHash chain - 1) % (PAINT_VARIANT_REGION_ID_STRIDE - 1) + 1
    ((checkedMul baseRegionId PAINT_VARIANT_REGION_ID_STRIDE).bind (checkedAdd · hash)).filter
      fun id => id < 2 ^ 63 && id != 2 ^ 64 - 1

/-! ### Modifier children -/

def MODIFIER_FOOTPRINT_REGION_ID : Nat :=
  2 ^ 64 - 1

def MODIFIER_VARIANT_REGION_ID_STRIDE : Nat :=
  1000003

def MODIFIER_VARIANT_REGION_ID_FLAG : Nat :=
  2 ^ 63

def modifierSubRegionIdFits (parentRegionId : Nat) : Bool :=
  ((checkedMul parentRegionId MODIFIER_VARIANT_REGION_ID_STRIDE).bind
    (checkedAdd · (MODIFIER_VARIANT_REGION_ID_STRIDE - 1))).any
      (· < MODIFIER_VARIANT_REGION_ID_FLAG - 1)

/-- The bytes a footprint is hashed from; a hole starts with `0xff`. -/
def footprintBytes (objectId : ObjectId) (footprint : List ExPolygon) : List Nat :=
  let pointBytes := fun point : Point2 => leBytes point.x ++ leBytes point.y
  objectId.toUTF8.toList.map (·.toNat) ++ footprint.flatMap fun polygon =>
    polygon.contour.flatMap pointBytes ++
      polygon.holes.flatMap fun hole => 0xff :: hole.flatMap pointBytes

/-- The hash of a footprint, FNV-1a cut down to the stride. -/
def footprintHash (objectId : ObjectId) (footprint : List ExPolygon) : Nat :=
  (footprintBytes objectId footprint).foldl foldWord 0xcbf29ce484222325 %
    (MODIFIER_VARIANT_REGION_ID_STRIDE - 1) + 1

/-- `modifier_sub_region_id`; it panics for a parent that does not fit. -/
def modifierSubRegionId (parentRegionId : Nat) (objectId : ObjectId)
    (footprint : List ExPolygon) : Option Nat :=
  if modifierSubRegionIdFits parentRegionId then
    ((checkedMul parentRegionId MODIFIER_VARIANT_REGION_ID_STRIDE).bind
      (checkedAdd · (footprintHash objectId footprint))).map (MODIFIER_VARIANT_REGION_ID_FLAG ||| ·)
  else none

def isModifierNamespaceId (id : Nat) : Bool :=
  id != MODIFIER_FOOTPRINT_REGION_ID && (id &&& MODIFIER_VARIANT_REGION_ID_FLAG) != 0

/-- `modifier_base_region_id`; the complement of the flag is the mask below it. -/
def modifierBaseRegionId (id : Nat) : Option Nat :=
  if isModifierNamespaceId id then
    some ((id &&& (MODIFIER_VARIANT_REGION_ID_FLAG - 1)) / MODIFIER_VARIANT_REGION_ID_STRIDE)
  else none

/-! ### Addresses -/

def mapSpaceRegionId (regionId : Nat) (variantChain : VariantChain F) : Nat :=
  if (modifierBaseRegionId regionId).isSome || variantChain.isEmpty then regionId
  else regionId / PAINT_VARIANT_REGION_ID_STRIDE

def regionMapKeyForSlicedRegion (globalLayerIndex : Nat) (region : SlicedRegion F) : RegionKey F where
  globalLayerIndex := globalLayerIndex
  objectId := region.objectId
  regionId := mapSpaceRegionId region.regionId region.variantChain
  variantChain := region.variantChain

/-! ### What ids are made of -/

theorem bind_checked {a b c n : Nat} (h : (checkedMul a b).bind (checkedAdd · c) = some n) :
    n = a * b + c := by
  obtain ⟨m, hm, h⟩ := Option.bind_eq_some_iff.mp h
  unfold checkedMul at hm
  unfold checkedAdd at h
  split at hm
  · cases hm
    split at h
    · cases h
      rfl
    · cases h
  · cases hm

theorem footprintHash_bounds (objectId : ObjectId) (footprint : List ExPolygon) :
    1 ≤ footprintHash objectId footprint ∧
      footprintHash objectId footprint < MODIFIER_VARIANT_REGION_ID_STRIDE := by
  unfold footprintHash MODIFIER_VARIANT_REGION_ID_STRIDE
  omega

/-- A painted id is the stride times its base and a hash, below the namespace of
modifiers. -/
theorem paintVariantRegionId_spec [FloatBits F] {base id : Nat} {chain : VariantChain F}
    (hchain : chain ≠ []) (h : paintVariantRegionId base chain = some id) :
    ∃ hash, 1 ≤ hash ∧ hash < PAINT_VARIANT_REGION_ID_STRIDE ∧
      id = base * PAINT_VARIANT_REGION_ID_STRIDE + hash ∧ id < 2 ^ 63 := by
  unfold paintVariantRegionId at h
  rw [if_neg (by rwa [List.isEmpty_iff])] at h
  obtain ⟨hid, hbound⟩ := Option.filter_eq_some_iff.mp h
  refine ⟨(paintVariantHash chain - 1) % (PAINT_VARIANT_REGION_ID_STRIDE - 1) + 1, by omega, ?_,
    bind_checked hid, ?_⟩
  · unfold PAINT_VARIANT_REGION_ID_STRIDE
    omega
  · rw [Bool.and_eq_true, decide_eq_true_eq] at hbound
    exact hbound.1

/-- The id of a modifier child is the flag over the stride times its parent and
the hash of its footprint. -/
theorem modifierSubRegionId_spec {parent id : Nat} {objectId : ObjectId}
    {footprint : List ExPolygon} (h : modifierSubRegionId parent objectId footprint = some id) :
    id = 2 ^ 63 + (parent * MODIFIER_VARIANT_REGION_ID_STRIDE + footprintHash objectId footprint) ∧
      parent * MODIFIER_VARIANT_REGION_ID_STRIDE + footprintHash objectId footprint < 2 ^ 63 - 1 := by
  unfold modifierSubRegionId at h
  split at h
  case isFalse => cases h
  case isTrue hfits =>
    obtain ⟨payload, hpayload, rfl⟩ := Option.map_eq_some_iff.mp h
    have hhash := footprintHash_bounds objectId footprint
    have hvalue := bind_checked hpayload
    unfold modifierSubRegionIdFits at hfits
    obtain ⟨top, htop, hbound⟩ := (Option.any_eq_true ..).mp hfits
    rw [decide_eq_true_eq, bind_checked htop] at hbound
    unfold MODIFIER_VARIANT_REGION_ID_FLAG at hbound ⊢
    have hsmall : payload < 2 ^ 63 - 1 := by omega
    rw [← hvalue]
    refine ⟨?_, hsmall⟩
    have := Nat.two_pow_add_eq_or_of_lt (show payload < 2 ^ 63 by omega) 1
    rw [Nat.mul_one] at this
    exact this.symm

/-- A parent that fits has children, whatever the footprint. -/
theorem exists_modifierSubRegionId {parent : Nat} (h : modifierSubRegionIdFits parent = true)
    (objectId : ObjectId) (footprint : List ExPolygon) :
    ∃ id, modifierSubRegionId parent objectId footprint = some id := by
  have hhash := footprintHash_bounds objectId footprint
  unfold modifierSubRegionId
  rw [if_pos h]
  unfold modifierSubRegionIdFits at h
  obtain ⟨top, htop, hbound⟩ := (Option.any_eq_true ..).mp h
  rw [decide_eq_true_eq, bind_checked htop] at hbound
  obtain ⟨product, hproduct, -⟩ := Option.bind_eq_some_iff.mp htop
  have hvalue : product = parent * MODIFIER_VARIANT_REGION_ID_STRIDE := by
    unfold checkedMul at hproduct
    split at hproduct
    · exact (Option.some.inj hproduct).symm
    · cases hproduct
  unfold MODIFIER_VARIANT_REGION_ID_FLAG at hbound
  rw [hproduct, Option.bind_some, checkedAdd, if_pos (by omega)]
  exact ⟨_, rfl⟩

theorem isModifierNamespaceId_of_lt {id : Nat} (h : id < 2 ^ 63) :
    isModifierNamespaceId id = false := by
  unfold isModifierNamespaceId MODIFIER_VARIANT_REGION_ID_FLAG
  rw [Nat.and_two_pow, Nat.testBit_lt_two_pow h]
  simp

theorem isModifierNamespaceId_flag {payload : Nat} (h : payload < 2 ^ 63 - 1) :
    isModifierNamespaceId (2 ^ 63 + payload) = true := by
  unfold isModifierNamespaceId MODIFIER_VARIANT_REGION_ID_FLAG MODIFIER_FOOTPRINT_REGION_ID
  rw [Nat.and_two_pow, Nat.testBit_two_pow_add_eq, Nat.testBit_lt_two_pow (by omega),
    Bool.and_eq_true, bne_iff_ne]
  exact ⟨by omega, rfl⟩

theorem modifierBaseRegionId_sub {parent id : Nat} {objectId : ObjectId}
    {footprint : List ExPolygon} (h : modifierSubRegionId parent objectId footprint = some id) :
    isModifierNamespaceId id = true ∧ id ≠ MODIFIER_FOOTPRINT_REGION_ID ∧
      modifierBaseRegionId id = some parent := by
  obtain ⟨rfl, hbound⟩ := modifierSubRegionId_spec h
  have hhash := footprintHash_bounds objectId footprint
  have hnamespace := isModifierNamespaceId_flag hbound
  refine ⟨hnamespace, ?_, ?_⟩
  · unfold MODIFIER_FOOTPRINT_REGION_ID
    omega
  · unfold modifierBaseRegionId MODIFIER_VARIANT_REGION_ID_FLAG
    rw [if_pos hnamespace, Nat.and_two_pow_sub_one_eq_mod, Nat.add_mod_left,
      Nat.mod_eq_of_lt (by omega), Nat.mul_comm, Nat.mul_add_div (by decide),
      Nat.div_eq_of_lt hhash.2, Nat.add_zero]

theorem mapSpaceRegionId_paint [FloatBits F] {base id : Nat} {chain : VariantChain F}
    (hchain : chain ≠ []) (h : paintVariantRegionId base chain = some id) :
    mapSpaceRegionId id chain = base := by
  obtain ⟨hash, -, hhash, rfl, hbound⟩ := paintVariantRegionId_spec hchain h
  unfold mapSpaceRegionId modifierBaseRegionId
  rw [isModifierNamespaceId_of_lt hbound, if_neg Bool.false_ne_true, if_neg (by simpa using hchain),
    Nat.mul_comm, Nat.mul_add_div (by decide), Nat.div_eq_of_lt hhash, Nat.add_zero]

theorem mapSpaceRegionId_modifier {id : Nat} (h : isModifierNamespaceId id = true)
    (chain : VariantChain F) : mapSpaceRegionId id chain = id := by
  unfold mapSpaceRegionId modifierBaseRegionId
  rw [if_pos h]
  rfl

end PinchNPrint.Region
