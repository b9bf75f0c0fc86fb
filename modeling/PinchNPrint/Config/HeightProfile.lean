/-
The composed layer-height profile (`slicer-config`: `resolution.rs`).

The first layer and the ranges that state a height are retained in order, each trimmed
to what is not covered yet (`retainRange`); the gaps between them and the tail take the
base height (`fillProfileGaps`), and equal neighbours become one segment
(`pushProfileSegment`). Read in an ordered field, the segments tile the profile and
every point of it has the height of the first range that contains it
(`HeightCover`).
-/

import PinchNPrint.Config.ExpansionOrder
import PinchNPrint.Config.LayerRanges
import PinchNPrint.Lib.Tiling

namespace PinchNPrint.Config

variable {F : Type} [Floats F]

structure HeightProfileSegment (F : Type) where
  zStart : F
  zEnd : F
  height : F
deriving DecidableEq

/-- A range that states a height. -/
structure ProfileRange (F : Type) where
  minZ : F
  maxZ : F
  rangeIndex : Nat
  height : F
deriving DecidableEq

def layerRangeIndex : ConfigScope → Nat
  | .layerRange _ rangeIndex => rangeIndex
  | _ => 0

/-- A height a profile can be made of. -/
def usableHeight (height : F) : Bool :=
  Floats.isFinite height && Floats.lt (Floats.literal 0 1) height

def validateHeight (objectId : ObjectId) (height : F) : Except (ResolutionError F) Unit :=
  if usableHeight height then .ok ()
  else .error (.invalidObjectHeight objectId (if Floats.isFinite height then some height else none))

/-- The value of a field of type `f64`. -/
def ResolvedConfig.f64Field (config : ResolvedConfig F) (field : String) : F :=
  match config.fields[field]? with
  | some (.f64 value) => value
  | _ => Floats.literal 0 1

/-- The height a range states, with its bounds and index. -/
def profileRange (range : LayerConfigRange F) : Option (ProfileRange F) :=
  match range.delta.values["layer_height"]? with
  | some (.float height) =>
      if usableHeight height then
        some { minZ := range.minZ, maxZ := range.maxZ, rangeIndex := layerRangeIndex range.scope,
               height }
      else none
  | _ => none

/-- The order the ranges of a profile are taken in. -/
def profileOrder (first second : ProfileRange F) : Ordering :=
  (Floats.totalCmp first.minZ second.minZ).then <|
    (Floats.totalCmp first.maxZ second.maxZ).then (compare first.rangeIndex second.rangeIndex)

/-- The ranges that state a height, in order. -/
def profileRanges (ranges : List (LayerConfigRange F)) : List (ProfileRange F) :=
  (ranges.filterMap profileRange).insertionSort fun first second => profileOrder first second ≠ .gt

/-- The body of the loop over the ranges: the retained segments and the end of the last. -/
def retainRange [Sub F] (raftOffset : F) (state : List (HeightProfileSegment F) × F)
    (range : ProfileRange F) : List (HeightProfileSegment F) × F :=
  let (retained, coverageHigh) := state
  let minZ := Floats.max (range.minZ - raftOffset) (Floats.literal 0 1)
  let maxZ := range.maxZ - raftOffset
  if Floats.le maxZ (Floats.literal 0 1) then state
  else if Floats.le maxZ coverageHigh then state
  else
    (retained ++ [{ zStart := Floats.max minZ coverageHigh, zEnd := maxZ, height := range.height }],
      maxZ)

/-- The retained segments of a profile, the first layer first, and the end of the last. -/
def retainRanges [Sub F] (raftOffset firstLayerHeight : F) (ranges : List (ProfileRange F)) :
    List (HeightProfileSegment F) × F :=
  ranges.foldl (retainRange raftOffset)
    ([{ zStart := Floats.literal 0 1, zEnd := firstLayerHeight, height := firstLayerHeight }],
      firstLayerHeight)

def pushProfileSegment (profile : List (HeightProfileSegment F)) (zStart zEnd height : F) :
    List (HeightProfileSegment F) :=
  if Floats.le zEnd zStart then profile
  else
    match profile.getLast? with
    | some last =>
        if Floats.eq last.height height && Floats.eq last.zEnd zStart then
          profile.dropLast ++ [{ last with zEnd }]
        else profile ++ [{ zStart, zEnd, height }]
    | none => profile ++ [{ zStart, zEnd, height }]

/-- The body of the loop of `fill_profile_gaps`: the profile and the cursor. -/
def fillGap (baseHeight : F) (state : List (HeightProfileSegment F) × F)
    (segment : HeightProfileSegment F) : List (HeightProfileSegment F) × F :=
  let (profile, cursor) := state
  let profile :=
    if Floats.lt cursor segment.zStart then
      pushProfileSegment profile cursor segment.zStart baseHeight
    else profile
  (pushProfileSegment profile segment.zStart segment.zEnd segment.height, segment.zEnd)

def fillProfileGaps (retained : List (HeightProfileSegment F))
    (coverageHigh objectHeight baseHeight : F) : List (HeightProfileSegment F) :=
  let target := Floats.max objectHeight coverageHigh
  let (profile, cursor) := retained.foldl (fillGap baseHeight) ([], Floats.literal 0 1)
  if Floats.lt cursor target then pushProfileSegment profile cursor target baseHeight else profile

def queryLayerHeightProfile [Sub F] [DecidableEq F] (registry : ConfigSchemaRegistry F)
    (authored : ScopedConfig F) (objectId : ObjectId) (objectHeight raftOffset : F)
    (expansion : ExpansionContext F) :
    Except (ResolutionError F) (List (HeightProfileSegment F)) := do
  validateHeight objectId objectHeight
  let config ← resolveScopeStack registry authored { objectId } expansion
  let layerHeight := config.f64Field "layer_height"
  let firstLayerHeight := config.f64Field "first_layer_height"
  validateHeight objectId layerHeight
  validateHeight objectId firstLayerHeight
  let (retained, coverageHigh) := retainRanges raftOffset firstLayerHeight
    (profileRanges (authored.rangesFor objectId))
  return fillProfileGaps retained coverageHigh objectHeight layerHeight

/-! ### What a profile is for -/

/-- What is assumed of the numbers: they are those of an ordered field, with its order. -/
structure ReadAsOrder (F : Type) [Field F] [LinearOrder F] [Floats F] : Prop
    extends ReadAsField F where
  le_iff : ∀ a b : F, Floats.le a b = true ↔ a ≤ b
  max_eq : ∀ a b : F, Floats.max a b = max a b
  totalCmp_eq : ∀ a b : F, Floats.totalCmp a b = cmp a b

section Field

variable [Field F] [LinearOrder F]

/-- The interval of a range, shifted to the axis of the profile, contains the point. -/
def ProfileRange.Contains (raftOffset : F) (range : ProfileRange F) (z : F) : Prop :=
  range.minZ - raftOffset ≤ z ∧ z < range.maxZ - raftOffset

instance (raftOffset : F) (range : ProfileRange F) (z : F) :
    Decidable (range.Contains raftOffset z) :=
  inferInstanceAs (Decidable (_ ∧ _))

/-- The first of the ranges that contains a point. -/
def firstContaining (raftOffset : F) (ranges : List (ProfileRange F)) (z : F) :
    Option (ProfileRange F) :=
  ranges.find? fun range => range.Contains raftOffset z

/-- The height at a point: that of the first layer below its top, above it that of the
first range that contains the point, and the base height where none does. -/
def heightAt (raftOffset firstLayerHeight baseHeight : F) (ranges : List (ProfileRange F)) (z : F) :
    F :=
  if z < firstLayerHeight then firstLayerHeight
  else ((firstContaining raftOffset ranges z).map ProfileRange.height).getD baseHeight

/-- The end of the last retained segment: the highest of the ends of the first layer and of
the ranges. -/
def coverageEnd (raftOffset firstLayerHeight : F) (ranges : List (ProfileRange F)) : F :=
  ranges.foldl (fun high range => max high (range.maxZ - raftOffset)) firstLayerHeight

/-- The segments are the exact cover of the profile by the fewest segments of one height. -/
structure HeightCover (raftOffset firstLayerHeight baseHeight objectHeight : F)
    (ranges : List (ProfileRange F)) (profile : List (HeightProfileSegment F)) : Prop where
  starts : ∃ first, profile.head? = some first ∧ first.zStart = 0 ∧ first.height = firstLayerHeight
  contiguous : profile.IsChain fun segment next => segment.zEnd = next.zStart
  increasing : ∀ segment ∈ profile, segment.zStart < segment.zEnd
  ends : ∃ last, profile.getLast? = some last ∧
    last.zEnd = max objectHeight (coverageEnd raftOffset firstLayerHeight ranges)
  positive : ∀ segment ∈ profile, 0 < segment.height
  minimal : profile.IsChain fun segment next => segment.height ≠ next.height
  exact : ∀ segment ∈ profile, ∀ z, segment.zStart ≤ z → z < segment.zEnd →
    segment.height = heightAt raftOffset firstLayerHeight baseHeight ranges z

variable [IsStrictOrderedRing F] (hread : ReadAsOrder F)
include hread

section

omit [IsStrictOrderedRing F]

theorem literal_zero : (Floats.literal 0 1 : F) = 0 := by
  rw [hread.literal]
  simp

theorem usableHeight_iff (height : F) : usableHeight height = true ↔ 0 < height := by
  rw [usableHeight, Bool.and_eq_true, hread.lt_iff, literal_zero hread]
  exact and_iff_right (hread.isFinite height)

end

/-! ### Filling the gaps -/

/-- What holds of a profile that is filled up to a cursor. -/
structure Filled (label : F → F) (profile : List (HeightProfileSegment F)) (cursor : F) : Prop where
  tiling : Tiling HeightProfileSegment.zStart HeightProfileSegment.zEnd profile 0 cursor
  labelled : ∀ segment ∈ profile, ∀ z, segment.zStart ≤ z → z < segment.zEnd →
    segment.height = label z
  positive : ∀ segment ∈ profile, 0 < segment.height
  minimal : profile.IsChain fun segment next => segment.height ≠ next.height

omit [Floats F] [IsStrictOrderedRing F] hread in
theorem Filled.concat {label : F → F} {profile : List (HeightProfileSegment F)}
    {segment : HeightProfileSegment F} (h : Filled label profile segment.zStart)
    (hlt : segment.zStart < segment.zEnd) (hheight : 0 < segment.height)
    (hlabel : ∀ z, segment.zStart ≤ z → z < segment.zEnd → segment.height = label z)
    (hlast : ∀ last, profile.getLast? = some last → last.height ≠ segment.height) :
    Filled label (profile ++ [segment]) segment.zEnd := by
  refine ⟨.snoc h.tiling hlt, ?_, ?_, ?_⟩
  · intro other hother
    rcases List.mem_append.mp hother with hother | hother
    · exact h.labelled other hother
    · rw [List.mem_singleton.mp hother]
      exact hlabel
  · intro other hother
    rcases List.mem_append.mp hother with hother | hother
    · exact h.positive other hother
    · rw [List.mem_singleton.mp hother]
      exact hheight
  · refine List.isChain_append.mpr ⟨h.minimal, .singleton _, ?_⟩
    rintro last hlast' next ⟨⟩
    exact hlast last hlast'

variable {cursor baseHeight firstLayerHeight high raftOffset : F} {label : F → F}
  {retained : List (HeightProfileSegment F)} {ranges : List (ProfileRange F)}

omit [Floats F] [IsStrictOrderedRing F] hread in
theorem Filled.lengthen {front : List (HeightProfileSegment F)} {last : HeightProfileSegment F}
    {zEnd : F} (h : Filled label (front ++ [last]) cursor) (hlt : cursor < zEnd)
    (hlabel : ∀ z, cursor ≤ z → z < zEnd → last.height = label z) :
    Filled label (front ++ [{ last with zEnd }]) zEnd := by
  have hmem : last ∈ front ++ [last] := List.mem_append_right _ List.mem_cons_self
  have hcursor : last.zEnd = cursor := h.tiling.stop_last List.getLast?_concat
  refine ⟨@Tiling.extend _ _ _ _ _ _ _ _ last { last with zEnd } h.tiling rfl hlt, ?_, ?_, ?_⟩
  · intro segment hsegment z hlo hhi
    rcases List.mem_append.mp hsegment with hsegment | hsegment
    · exact h.labelled segment (List.mem_append_left _ hsegment) z hlo hhi
    · rw [List.mem_singleton.mp hsegment] at hlo hhi ⊢
      rcases lt_or_ge z cursor with hz | hz
      · exact h.labelled last hmem z hlo (hcursor.symm ▸ hz)
      · exact hlabel z hz hhi
  · intro segment hsegment
    rcases List.mem_append.mp hsegment with hsegment | hsegment
    · exact h.positive segment (List.mem_append_left _ hsegment)
    · rw [List.mem_singleton.mp hsegment]
      exact h.positive last hmem
  · obtain ⟨hfront, -, hjoin⟩ := List.isChain_append.mp h.minimal
    refine List.isChain_append.mpr ⟨hfront, .singleton _, ?_⟩
    rintro segment hsegment next ⟨⟩
    exact hjoin segment hsegment last rfl

omit [IsStrictOrderedRing F] in
theorem Filled.push {profile : List (HeightProfileSegment F)} {zEnd height : F}
    (h : Filled label profile cursor) (hlt : cursor < zEnd) (hheight : 0 < height)
    (hlabel : ∀ z, cursor ≤ z → z < zEnd → height = label z) :
    Filled label (pushProfileSegment profile cursor zEnd height) zEnd := by
  rw [pushProfileSegment, if_neg (by rw [hread.le_iff]; exact hlt.not_ge)]
  rcases List.eq_nil_or_concat' profile with rfl | ⟨front, last, rfl⟩
  · exact @Filled.concat _ _ _ label [] { zStart := cursor, zEnd, height } h hlt hheight hlabel
      (by simp)
  · have hcursor : last.zEnd = cursor := h.tiling.stop_last List.getLast?_concat
    simp only [List.getLast?_concat, List.dropLast_concat]
    split
    · -- the new segment is one with the last
      rename_i hsame
      rw [Bool.and_eq_true, hread.eq_iff, hread.eq_iff] at hsame
      exact h.lengthen hlt (hsame.1.symm ▸ hlabel)
    · rename_i hsame
      rw [Bool.and_eq_true, hread.eq_iff, hread.eq_iff] at hsame
      refine @Filled.concat _ _ _ label (front ++ [last]) { zStart := cursor, zEnd, height } h hlt
        hheight hlabel ?_
      intro other hother
      rw [List.getLast?_concat] at hother
      cases hother
      exact fun heq => hsame ⟨heq, hcursor⟩

/-- What the retained segments must be for the gaps to be filled from a cursor on. -/
structure Fillable (label : F → F) (baseHeight : F) (retained : List (HeightProfileSegment F))
    (cursor : F) : Prop where
  above : ∀ segment ∈ retained, cursor ≤ segment.zStart
  separated : retained.Pairwise fun segment next => segment.zEnd ≤ next.zStart
  proper : ∀ segment ∈ retained, segment.zStart < segment.zEnd
  positive : ∀ segment ∈ retained, 0 < segment.height
  labelled : ∀ segment ∈ retained, ∀ z, segment.zStart ≤ z → z < segment.zEnd →
    segment.height = label z
  gaps : ∀ z, cursor ≤ z → (∀ segment ∈ retained, z < segment.zStart ∨ segment.zEnd ≤ z) →
    baseHeight = label z

section

omit [IsStrictOrderedRing F]

theorem Filled.fillGap (hbase : 0 < baseHeight) {profile rest : List (HeightProfileSegment F)}
    {segment : HeightProfileSegment F} (h : Filled label profile cursor)
    (hfill : Fillable label baseHeight (segment :: rest) cursor) :
    Filled label (fillGap baseHeight (profile, cursor) segment).1 segment.zEnd ∧
      Fillable label baseHeight rest segment.zEnd := by
  have hmem : segment ∈ segment :: rest := List.mem_cons_self
  obtain ⟨hnext, hseparated⟩ := List.pairwise_cons.mp hfill.separated
  have hproper := hfill.proper segment hmem
  have hstart : Filled label (if Floats.lt cursor segment.zStart = true then
      pushProfileSegment profile cursor segment.zStart baseHeight else profile) segment.zStart := by
    split
    · rename_i hlt
      refine h.push hread ((hread.lt_iff _ _).mp hlt) hbase fun z hlo hhi => hfill.gaps z hlo ?_
      intro other hother
      rcases List.mem_cons.mp hother with rfl | hother
      · exact .inl hhi
      · exact .inl (hhi.trans (hproper.trans_le (hnext other hother)))
    · rename_i hlt
      rw [hread.lt_iff, not_lt] at hlt
      rwa [(hfill.above segment hmem).antisymm hlt] at h
  refine ⟨hstart.push hread hproper (hfill.positive segment hmem) (hfill.labelled segment hmem), ?_⟩
  refine ⟨hnext, hseparated, fun other hother => hfill.proper other (List.mem_cons_of_mem _ hother),
    fun other hother => hfill.positive other (List.mem_cons_of_mem _ hother),
    fun other hother => hfill.labelled other (List.mem_cons_of_mem _ hother), ?_⟩
  intro z hlo houtside
  have hcursor := (hfill.above segment hmem).trans (hproper.le.trans hlo)
  exact hfill.gaps z hcursor (List.forall_mem_cons.mpr ⟨.inr hlo, houtside⟩)

theorem Filled.foldl (hbase : 0 < baseHeight) :
    ∀ {profile : List (HeightProfileSegment F)} {cursor : F}, Filled label profile cursor →
      Fillable label baseHeight retained cursor →
      Filled label (retained.foldl (Config.fillGap baseHeight) (profile, cursor)).1
          (retained.foldl (Config.fillGap baseHeight) (profile, cursor)).2 ∧
        Fillable label baseHeight [] (retained.foldl (Config.fillGap baseHeight) (profile, cursor)).2 ∧
        ∀ high, cursor ≤ high → (∀ segment ∈ retained, segment.zEnd ≤ high) →
          (retained.foldl (Config.fillGap baseHeight) (profile, cursor)).2 ≤ high := by
  induction retained with
  | nil => exact fun h hfill => ⟨h, hfill, fun high hcursor _ => hcursor⟩
  | cons segment rest ih =>
    intro profile cursor h hfill
    obtain ⟨hfilled, hrest⟩ := h.fillGap hread hbase hfill
    obtain ⟨hdone, htail, hhigh⟩ := ih hfilled hrest
    refine ⟨hdone, htail, fun high _ hends => ?_⟩
    obtain ⟨hend, hends⟩ := List.forall_mem_cons.mp hends
    exact hhigh high hend hends

end

/-! ### Retaining the ranges -/

/-- What holds of the retained segments after some of the ranges. -/
structure Retains (raftOffset firstLayerHeight : F) (ranges : List (ProfileRange F))
    (retained : List (HeightProfileSegment F)) (high : F) : Prop where
  first : retained.head? =
    some { zStart := 0, zEnd := firstLayerHeight, height := firstLayerHeight }
  separated : retained.Pairwise fun segment next => segment.zEnd ≤ next.zStart
  proper : ∀ segment ∈ retained, segment.zStart < segment.zEnd
  positive : ∀ segment ∈ retained, 0 < segment.height
  below : ∀ segment ∈ retained, segment.zEnd ≤ high
  highest : high = coverageEnd raftOffset firstLayerHeight ranges
  labelled : ∀ segment ∈ retained, ∀ z, firstLayerHeight ≤ z → segment.zStart ≤ z →
    z < segment.zEnd → ∃ range, firstContaining raftOffset ranges z = some range ∧
      range.height = segment.height
  uncovered : ∀ z, firstLayerHeight ≤ z →
    (∀ segment ∈ retained, z < segment.zStart ∨ segment.zEnd ≤ z) →
    firstContaining raftOffset ranges z = none

section

omit [Floats F] [IsStrictOrderedRing F] hread

theorem coverageEnd_concat (raftOffset firstLayerHeight : F) (ranges : List (ProfileRange F))
    (range : ProfileRange F) : coverageEnd raftOffset firstLayerHeight (ranges ++ [range]) =
      max (coverageEnd raftOffset firstLayerHeight ranges) (range.maxZ - raftOffset) := by
  rw [coverageEnd, List.foldl_append]
  rfl

theorem coverageEnd_spec (raftOffset firstLayerHeight : F) (ranges : List (ProfileRange F)) :
    firstLayerHeight ≤ coverageEnd raftOffset firstLayerHeight ranges ∧
      (∀ range ∈ ranges, range.maxZ - raftOffset ≤
        coverageEnd raftOffset firstLayerHeight ranges) ∧
      (coverageEnd raftOffset firstLayerHeight ranges = firstLayerHeight ∨
        ∃ range ∈ ranges, range.maxZ - raftOffset =
          coverageEnd raftOffset firstLayerHeight ranges) := by
  induction ranges using List.reverseRecOn with
  | nil => exact ⟨le_refl _, by simp, .inl rfl⟩
  | append_singleton ranges range ih =>
    obtain ⟨hfirst, hranges, hends⟩ := ih
    rw [coverageEnd_concat]
    refine ⟨hfirst.trans (le_max_left _ _), ?_, ?_⟩
    · intro other hother
      rcases List.mem_append.mp hother with hother | hother
      · exact (hranges other hother).trans (le_max_left _ _)
      · rw [List.mem_singleton.mp hother]
        exact le_max_right _ _
    · rcases max_choice (coverageEnd raftOffset firstLayerHeight ranges)
        (range.maxZ - raftOffset) with hmax | hmax
      · rw [hmax]
        exact hends.imp_right fun ⟨other, hother, heq⟩ =>
          ⟨other, List.mem_append_left _ hother, heq⟩
      · rw [hmax]
        exact .inr ⟨range, List.mem_append_right _ List.mem_cons_self, rfl⟩

theorem firstContaining_concat (raftOffset : F) (ranges : List (ProfileRange F))
    (range : ProfileRange F) (z : F) : firstContaining raftOffset (ranges ++ [range]) z =
      (firstContaining raftOffset ranges z).or
        (if range.Contains raftOffset z then some range else none) := by
  rw [firstContaining, List.find?_append, firstContaining]
  congr 1
  by_cases h : range.Contains raftOffset z <;> simp [h]

/-- Below the coverage, a range that starts no earlier than those before it contains no
point that none of them contains. -/
theorem Retains.not_contains [IsStrictOrderedRing F]
    (h : Retains raftOffset firstLayerHeight ranges retained high) {range : ProfileRange F}
    (hordered : ∀ earlier ∈ ranges, earlier.minZ ≤ range.minZ) {z : F} (hz : firstLayerHeight ≤ z)
    (hnone : firstContaining raftOffset ranges z = none) (hbelow : z < high) :
    ¬ range.Contains raftOffset z := by
  rintro ⟨hlo, -⟩
  obtain ⟨-, -, hends⟩ := coverageEnd_spec raftOffset firstLayerHeight ranges
  rw [h.highest] at hbelow
  rcases hends with hends | ⟨earlier, hearlier, hends⟩
  · exact absurd (hends ▸ hbelow) hz.not_gt
  · have hcontains : earlier.Contains raftOffset z :=
      ⟨(sub_le_sub_right (hordered earlier hearlier) raftOffset).trans hlo, hends.symm ▸ hbelow⟩
    have := List.find?_eq_none.mp hnone earlier hearlier
    exact this (decide_eq_true hcontains)

end

/-- One more range, in order, keeps what holds of the retained segments. -/
theorem Retains.retainRange (h : Retains raftOffset firstLayerHeight ranges retained high)
    (hfirst : 0 < firstLayerHeight) {range : ProfileRange F}
    (hordered : ∀ earlier ∈ ranges, earlier.minZ ≤ range.minZ) (hproper : range.minZ < range.maxZ)
    (hheight : 0 < range.height) :
    Retains raftOffset firstLayerHeight (ranges ++ [range])
      (Config.retainRange raftOffset (retained, high) range).1
      (Config.retainRange raftOffset (retained, high) range).2 := by
  obtain ⟨hlow, hhighest, -⟩ := coverageEnd_spec raftOffset firstLayerHeight ranges
  rw [← h.highest] at hlow
  -- a range within the coverage changes nothing
  have hskip : range.maxZ - raftOffset ≤ high →
      Retains raftOffset firstLayerHeight (ranges ++ [range]) retained high := by
    intro hcovered
    refine ⟨h.first, h.separated, h.proper, h.positive, h.below, ?_, ?_, ?_⟩
    · rw [coverageEnd_concat, ← h.highest, max_eq_left hcovered]
    · intro segment hsegment z hz hlo hhi
      obtain ⟨found, hfound, hlabel⟩ := h.labelled segment hsegment z hz hlo hhi
      exact ⟨found, by rw [firstContaining_concat, hfound, Option.some_or], hlabel⟩
    · intro z hz houtside
      have hnone := h.uncovered z hz houtside
      rw [firstContaining_concat, hnone, Option.none_or, if_neg]
      intro hcontains
      exact h.not_contains hordered hz hnone (hcontains.2.trans_le hcovered) hcontains
  unfold Config.retainRange
  simp only [hread.le_iff, hread.max_eq, literal_zero hread]
  split
  · exact hskip ((‹_› : range.maxZ - raftOffset ≤ 0).trans (hfirst.le.trans hlow))
  split
  · exact hskip ‹_›
  rename_i hpositive hbeyond
  rw [not_le] at hpositive hbeyond
  set zStart := max (max (range.minZ - raftOffset) 0) high with hzStart
  have hstart : zStart < range.maxZ - raftOffset :=
    max_lt (max_lt (sub_lt_sub_right hproper raftOffset) hpositive) hbeyond
  refine ⟨?_, ?_, ?_, ?_, ?_, ?_, ?_, ?_⟩
  · rw [List.head?_append, h.first, Option.some_or]
  · refine List.pairwise_append.mpr ⟨h.separated, List.pairwise_singleton _ _, ?_⟩
    intro segment hsegment next hnext
    rw [List.mem_singleton.mp hnext]
    exact (h.below segment hsegment).trans (le_max_right _ _)
  · exact List.forall_mem_append.mpr ⟨h.proper, by simpa using hstart⟩
  · exact List.forall_mem_append.mpr ⟨h.positive, by simpa using hheight⟩
  · exact List.forall_mem_append.mpr
      ⟨fun segment hsegment => (h.below segment hsegment).trans hbeyond.le, by simp⟩
  · rw [coverageEnd_concat, ← h.highest, max_eq_right hbeyond.le]
  · refine List.forall_mem_append.mpr ⟨?_, ?_⟩
    · intro segment hsegment z hz hlo hhi
      obtain ⟨found, hfound, hlabel⟩ := h.labelled segment hsegment z hz hlo hhi
      exact ⟨found, by rw [firstContaining_concat, hfound, Option.some_or], hlabel⟩
    · intro segment hsegment z hz hlo hhi
      rw [List.mem_singleton.mp hsegment] at hlo hhi ⊢
      have hcovered : high ≤ z := (le_max_right _ _).trans hlo
      have hnone : firstContaining raftOffset ranges z = none := by
        refine List.find?_eq_none.mpr fun earlier hearlier hcontains => ?_
        have hend := hhighest earlier hearlier
        rw [← h.highest] at hend
        exact absurd (of_decide_eq_true hcontains).2 (hend.trans hcovered).not_gt
      have hcontains : range.Contains raftOffset z :=
        ⟨(le_max_left _ _).trans ((le_max_left _ _).trans hlo), hhi⟩
      exact ⟨range, by rw [firstContaining_concat, hnone, Option.none_or, if_pos hcontains], rfl⟩
  · intro z hz houtside
    obtain ⟨houtside, hnew⟩ := List.forall_mem_append.mp houtside
    have hnone := h.uncovered z hz houtside
    rw [firstContaining_concat, hnone, Option.none_or, if_neg]
    intro hcontains
    rcases hnew _ List.mem_cons_self with hbefore | hafter
    · -- a point of the range before the new segment is within the coverage
      have hhigh : z < high := by
        rcases lt_max_iff.mp hbefore with hmax | hhigh
        · exact absurd hmax (max_le hcontains.1 (hfirst.le.trans hz)).not_gt
        · exact hhigh
      exact h.not_contains hordered hz hnone hhigh hcontains
    · exact absurd hcontains.2 hafter.not_gt

/-- Ranges in order leave the retained segments of all of them. -/
theorem retains_retainRanges {raftOffset firstLayerHeight : F} (hfirst : 0 < firstLayerHeight)
    {ranges : List (ProfileRange F)}
    (hordered : ranges.Pairwise fun earlier later => earlier.minZ ≤ later.minZ)
    (hproper : ∀ range ∈ ranges, range.minZ < range.maxZ)
    (hheight : ∀ range ∈ ranges, 0 < range.height) :
    Retains raftOffset firstLayerHeight ranges (retainRanges raftOffset firstLayerHeight ranges).1
      (retainRanges raftOffset firstLayerHeight ranges).2 := by
  induction ranges using List.reverseRecOn with
  | nil =>
    rw [retainRanges, List.foldl_nil, literal_zero hread]
    refine ⟨rfl, List.pairwise_singleton _ _, by simpa using hfirst, by simpa using hfirst,
      by simp, rfl, ?_, fun _ _ _ => rfl⟩
    intro segment hsegment z hz hlo hhi
    rw [List.mem_singleton.mp hsegment] at hhi
    exact absurd hhi hz.not_gt
  | append_singleton ranges range ih =>
    obtain ⟨hordered, -, hlast⟩ := List.pairwise_append.mp hordered
    obtain ⟨hproper, hproper'⟩ := List.forall_mem_append.mp hproper
    obtain ⟨hheight, hheight'⟩ := List.forall_mem_append.mp hheight
    have hretains := ih hordered hproper hheight
    rw [retainRanges, List.foldl_append]
    exact hretains.retainRange hread hfirst
      (fun earlier hearlier => hlast earlier hearlier range List.mem_cons_self)
      (hproper' range List.mem_cons_self) (hheight' range List.mem_cons_self)

/-! ### The profile -/

section

omit [Floats F] [IsStrictOrderedRing F] hread

theorem Retains.exists_rest (h : Retains raftOffset firstLayerHeight ranges retained high) :
    ∃ rest, retained = { zStart := 0, zEnd := firstLayerHeight, height := firstLayerHeight } ::
      rest ∧ ∀ segment ∈ rest, firstLayerHeight ≤ segment.zStart := by
  have hfirst := h.first
  cases retained with
  | nil => cases hfirst
  | cons segment rest =>
    cases hfirst
    exact ⟨rest, rfl, (List.pairwise_cons.mp h.separated).1⟩

/-- The retained segments carry the heights of the profile, and leave the base height. -/
theorem Retains.fillable (h : Retains raftOffset firstLayerHeight ranges retained high)
    (hfirst : 0 < firstLayerHeight) :
    Fillable (heightAt raftOffset firstLayerHeight baseHeight ranges) baseHeight retained 0 := by
  obtain ⟨rest, hretained, hrest⟩ := h.exists_rest
  refine ⟨?_, h.separated, h.proper, h.positive, ?_, ?_⟩
  · rw [hretained]
    exact List.forall_mem_cons.mpr
      ⟨le_refl _, fun segment hsegment => hfirst.le.trans (hrest segment hsegment)⟩
  · intro segment hsegment z hlo hhi
    rcases lt_or_ge z firstLayerHeight with hz | hz
    · rw [heightAt, if_pos hz]
      rw [hretained] at hsegment
      rcases List.mem_cons.mp hsegment with rfl | hsegment
      · rfl
      · exact absurd hz ((hrest segment hsegment).trans hlo).not_gt
    · obtain ⟨range, hrange, hheight⟩ := h.labelled segment hsegment z hz hlo hhi
      rw [heightAt, if_neg hz.not_gt, hrange, Option.map_some, Option.getD_some, hheight]
  · intro z hlo houtside
    have hz : firstLayerHeight ≤ z := by
      rcases houtside _ (hretained ▸ List.mem_cons_self) with hbefore | hafter
      · exact absurd hbefore hlo.not_gt
      · exact hafter
    rw [heightAt, if_neg hz.not_gt, h.uncovered z hz houtside]
    rfl

end

section

omit [IsStrictOrderedRing F]

theorem Retains.filled (h : Retains raftOffset firstLayerHeight ranges retained high)
    (hfirst : 0 < firstLayerHeight) (hlow : firstLayerHeight ≤ high) (hbase : 0 < baseHeight)
    (objectHeight : F) :
    Filled (heightAt raftOffset firstLayerHeight baseHeight ranges)
      (fillProfileGaps retained high objectHeight baseHeight) (max objectHeight high) := by
  have hstart : Filled (heightAt raftOffset firstLayerHeight baseHeight ranges) [] 0 :=
    ⟨.nil 0, by simp, by simp, .nil⟩
  obtain ⟨hdone, htail, hcursor⟩ := hstart.foldl hread hbase (h.fillable hfirst)
  have hcursor := hcursor high (hfirst.le.trans hlow) h.below
  unfold fillProfileGaps
  simp only [hread.max_eq, literal_zero hread, hread.lt_iff]
  generalize retained.foldl (Config.fillGap baseHeight) ([], 0) = state at hdone htail hcursor
  split
  · exact hdone.push hread ‹_› hbase fun z hlo _ => htail.gaps z hlo (by simp)
  · rename_i hreached
    rw [not_lt] at hreached
    rwa [(hcursor.trans (le_max_right _ _)).antisymm hreached] at hdone

theorem Retains.heightCover (h : Retains raftOffset firstLayerHeight ranges retained high)
    (hfirst : 0 < firstLayerHeight) (hbase : 0 < baseHeight) (objectHeight : F) :
    HeightCover raftOffset firstLayerHeight baseHeight objectHeight ranges
      (fillProfileGaps retained high objectHeight baseHeight) := by
  have hlow : firstLayerHeight ≤ high := by
    rw [h.highest]
    exact (coverageEnd_spec raftOffset firstLayerHeight ranges).1
  have hfilled := h.filled hread hfirst hlow hbase objectHeight
  have hpositive : 0 < max objectHeight high := hfirst.trans_le (hlow.trans (le_max_right _ _))
  have hne := hfilled.tiling.ne_nil_of_lt hpositive
  refine ⟨?_, hfilled.tiling.isChain, fun segment hsegment => (hfilled.tiling.bounds hsegment).2.1,
    ?_, hfilled.positive, hfilled.minimal, hfilled.labelled⟩
  · have hhead := List.head?_eq_some_head hne
    have hzStart := hfilled.tiling.start_head hhead
    refine ⟨_, hhead, hzStart, ?_⟩
    have hmem := List.head_mem hne
    rw [hfilled.labelled _ hmem 0 hzStart.le (hzStart ▸ (hfilled.tiling.bounds hmem).2.1), heightAt,
      if_pos hfirst]
  · have hlast := List.getLast?_eq_some_getLast hne
    exact ⟨_, hlast, (hfilled.tiling.stop_last hlast).trans (by rw [h.highest])⟩

end

/-- The place of a range in the order of the profile. -/
def ProfileRange.key (range : ProfileRange F) : F ×ₗ F ×ₗ Nat :=
  toLex (range.minZ, toLex (range.maxZ, range.rangeIndex))

omit [Floats F] [Field F] [IsStrictOrderedRing F] hread in
theorem then_ne_gt_iff {α : Type} [LinearOrder α] (a b : α) (next : Ordering) :
    (cmp a b).then next ≠ .gt ↔ a < b ∨ (a = b ∧ next ≠ .gt) := by
  rcases lt_trichotomy a b with h | rfl | h
  · simp [(cmp_eq_lt_iff a b).mpr h, h]
  · simp
  · simp [(cmp_eq_gt_iff a b).mpr h, h.not_gt, h.ne']

section

omit [IsStrictOrderedRing F]

theorem profileOrder_ne_gt_iff (first second : ProfileRange F) :
    profileOrder first second ≠ .gt ↔ first.key ≤ second.key := by
  have hindex : compare first.rangeIndex second.rangeIndex =
      (cmp first.rangeIndex second.rangeIndex).then .eq := by
    rw [Ordering.then_eq, cmp_eq_compare]
  rw [profileOrder, hread.totalCmp_eq, hread.totalCmp_eq, hindex, then_ne_gt_iff, then_ne_gt_iff,
    then_ne_gt_iff, ProfileRange.key, ProfileRange.key, Prod.Lex.toLex_le_toLex,
    Prod.Lex.toLex_le_toLex]
  simp [le_iff_lt_or_eq]

theorem pairwise_profileRanges (ranges : List (LayerConfigRange F)) :
    (profileRanges ranges).Pairwise fun earlier later => earlier.key ≤ later.key := by
  have htotal : Std.Total fun first second : ProfileRange F => profileOrder first second ≠ .gt :=
    ⟨fun first second => by
      rw [profileOrder_ne_gt_iff hread, profileOrder_ne_gt_iff hread]
      exact le_total _ _⟩
  have htrans : IsTrans (ProfileRange F) fun first second => profileOrder first second ≠ .gt :=
    ⟨fun first second third => by
      rw [profileOrder_ne_gt_iff hread, profileOrder_ne_gt_iff hread, profileOrder_ne_gt_iff hread]
      exact le_trans⟩
  exact (List.pairwise_insertionSort _ _).imp fun h => (profileOrder_ne_gt_iff hread _ _).mp h

/-- What is known of the ranges of a profile whose source ranges are proper. -/
theorem profileRanges_spec {ranges : List (LayerConfigRange F)}
    (hvalid : ∀ range ∈ ranges, validLayerRangeInterval range.minZ range.maxZ = true) :
    ∀ range ∈ profileRanges ranges, range.minZ < range.maxZ ∧ 0 < range.height := by
  intro range hrange
  obtain ⟨source, hsource, hprofile⟩ := List.mem_filterMap.mp ((List.mem_insertionSort _).mp hrange)
  have hinterval := hvalid source hsource
  rw [validLayerRangeInterval, Bool.and_eq_true, hread.lt_iff] at hinterval
  rw [profileRange] at hprofile
  split at hprofile
  · split at hprofile
    · rename_i husable
      cases hprofile
      exact ⟨hinterval.2, (usableHeight_iff hread _).mp husable⟩
    · cases hprofile
  · cases hprofile

end

/-- In every run of an ingestor, for every object, positive heights and raft offset, the
composed profile is the exact cover of the object by the fewest segments: it starts at
zero with the first layer, its segments follow one another without gaps up to the object
height or the end of the coverage, neighbours differ in height, and above the first layer
every point has the height of the first range, in the order of lower bound, upper bound
and index, that contains it, or the base height. -/
theorem height_profile_exact {registry : ConfigSchemaRegistry F} {tolerant : Bool}
    {trace : List (Event (ConfigIngestor F) (IngestCall F) Unit)} {ingestor : ConfigIngestor F}
    (run : (ingestion registry tolerant).Run trace ingestor) (objectId : ObjectId)
    (objectHeight raftOffset : F) (expansion : ExpansionContext F) (config : ResolvedConfig F)
    (hresolve : resolveScopeStack registry ingestor.finish.config { objectId } expansion =
      .ok config)
    (hobject : 0 < objectHeight) (hbase : 0 < config.f64Field "layer_height")
    (hfirst : 0 < config.f64Field "first_layer_height") :
    ∃ profile, queryLayerHeightProfile registry ingestor.finish.config objectId objectHeight
        raftOffset expansion = .ok profile ∧
      (profileRanges (ingestor.finish.config.rangesFor objectId)).Pairwise
        (fun earlier later => earlier.key ≤ later.key) ∧
      HeightCover raftOffset (config.f64Field "first_layer_height")
        (config.f64Field "layer_height") objectHeight
        (profileRanges (ingestor.finish.config.rangesFor objectId)) profile := by
  have hvalid : ∀ range ∈ ingestor.finish.config.rangesFor objectId,
      validLayerRangeInterval range.minZ range.maxZ = true := by
    intro range hrange
    change range ∈ ingestor.layerRanges[objectId]?.getD [] at hrange
    cases hlookup : ingestor.layerRanges[objectId]? with
    | none =>
      rw [hlookup] at hrange
      cases hrange
    | some ranges =>
      rw [hlookup] at hrange
      obtain ⟨event, -, inputs, -, hcommitted⟩ := run_committed run hlookup
      obtain ⟨input, -, pending, hspec, rfl⟩ := hcommitted.prepared hrange
      exact hspec.valid
  have hspec := profileRanges_spec hread hvalid
  have hsorted := pairwise_profileRanges hread (ingestor.finish.config.rangesFor objectId)
  have hordered : (profileRanges (ingestor.finish.config.rangesFor objectId)).Pairwise
      fun earlier later => earlier.minZ ≤ later.minZ :=
    hsorted.imp fun h => Prod.Lex.monotone_fst _ _ h
  have hretains := @retains_retainRanges F _ _ _ _ hread raftOffset _ hfirst _ hordered
    (fun range hrange => (hspec range hrange).1) (fun range hrange => (hspec range hrange).2)
  refine ⟨_, ?_, hsorted, hretains.heightCover hread hfirst hbase objectHeight⟩
  have hok : ∀ height : F, 0 < height → validateHeight objectId height = .ok () := fun height h =>
    if_pos ((usableHeight_iff hread height).mpr h)
  rw [queryLayerHeightProfile, hok objectHeight hobject, hresolve]
  change (validateHeight objectId (config.f64Field "layer_height") >>= fun _ =>
    validateHeight objectId (config.f64Field "first_layer_height") >>= fun _ => .ok _) = _
  rw [hok _ hbase, hok _ hfirst]
  rfl

end Field

/-! ### A profile of three segments -/

theorem readAsOrder_rat : ReadAsOrder ℚ where
  toReadAsField := readAsField_rat
  le_iff _ _ := decide_eq_true_iff
  max_eq a b := (max_def a b).symm
  totalCmp_eq a b := (cmp_eq_compare a b).symm

/-- A module that declares the layer height. -/
def heightPlanner : ModuleDeclaration ℚ where
  moduleId := "com.core.layer-planner-default"
  schema := Std.ExtTreeMap.ofList [("layer_height", { fieldType := "float" })] compare

/-- The registry of that module. -/
def heightRegistry : ConfigSchemaRegistry ℚ :=
  match assembleRegistry [heightPlanner] {} with
  | .ok outcome => outcome.registry
  | .error _ => default

/-- Layers of a tenth of a millimetre from the first millimetre to the second. -/
def fineRange : LayerRangeInput ℚ where
  objectId := "cube"
  sourceIndex := 0
  minZ := 1
  maxZ := 2
  values := Std.ExtTreeMap.ofList [("layer_height", "0.1")] compare

/-- The profile of a cube of three millimetres is of three segments. -/
theorem height_profile_exact_cube :
    ∃ (trace : List (Event (ConfigIngestor ℚ) (IngestCall ℚ) Unit)) (ingestor : ConfigIngestor ℚ)
      (profile : List (HeightProfileSegment ℚ)),
      (ingestion heightRegistry false).Run trace ingestor ∧
      queryLayerHeightProfile heightRegistry ingestor.finish.config "cube" 3 0
        { nozzleDiameterMm := 2 / 5 } = .ok profile ∧
      profile = [⟨0, 1, 1 / 5⟩, ⟨1, 2, 1 / 10⟩, ⟨2, 3, 1 / 5⟩] ∧
      HeightCover 0 (1 / 5) (1 / 5) 3 (profileRanges (ingestor.finish.config.rangesFor "cube"))
        profile := by
  have hreplay : ((ingestion heightRegistry false).replay [.layerRanges [fineRange]]).map
      (fun result =>
        ((resolveScopeStack heightRegistry result.2.finish.config { objectId := "cube" }
          { nozzleDiameterMm := 2 / 5 }).toOption.map fun config =>
            (config.f64Field "layer_height", config.f64Field "first_layer_height"),
          (queryLayerHeightProfile heightRegistry result.2.finish.config "cube" 3 0
            { nozzleDiameterMm := 2 / 5 }).toOption)) =
      some (some (1 / 5, 1 / 5), some [⟨0, 1, 1 / 5⟩, ⟨1, 2, 1 / 10⟩, ⟨2, 3, 1 / 5⟩]) := by
    decide +kernel
  obtain ⟨⟨trace, ingestor⟩, hrun, hvalues⟩ := Option.map_eq_some_iff.mp hreplay
  obtain ⟨hresolve, hquery⟩ := Prod.mk.inj hvalues
  obtain ⟨config, hconfig, hheights⟩ := Option.map_eq_some_iff.mp hresolve
  obtain ⟨hbase, hfirst⟩ := Prod.mk.inj hheights
  have hrun := Machine.run_of_replay hrun
  have hquery := Except.of_toOption_eq_some hquery
  obtain ⟨profile, hprofile, -, hcover⟩ := height_profile_exact readAsOrder_rat hrun "cube" 3 0
    { nozzleDiameterMm := 2 / 5 } config (Except.of_toOption_eq_some hconfig) (by norm_num)
    (by rw [hbase]; norm_num) (by rw [hfirst]; norm_num)
  rw [hbase, hfirst] at hcover
  cases hquery.symm.trans hprofile
  exact ⟨trace, ingestor, _, hrun, hquery, rfl, hcover⟩

end PinchNPrint.Config
