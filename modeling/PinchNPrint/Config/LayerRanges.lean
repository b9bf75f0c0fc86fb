/-
Overlapping layer ranges (`slicer-config`: `ingestion.rs`).

Overlaps are rejected on the authored bounds, while membership of a layer top is
tested on lowered ones: each bound is the smaller of its authored value and its
narrowed image. Narrowing keeps the order, so lowering does (`le_lowered`), and two
ranges that cover one top overlap as authored (`overlap_of_covers`). In every run of
the ingestor the ranges of an object are those one call committed (`run_committed`),
and the call compared them pair by pair.
-/

import PinchNPrint.Config.Admission
import PinchNPrint.Lib.Grouping

namespace PinchNPrint.Config

open Std

variable {F : Type} [Floats F]

/-! ### Lowered bounds -/

/-- What is assumed of the host's floating point: comparisons order the numbers, a
value that is not a number is not comparable to itself, the finite numbers are an
interval with the narrowed zero in it, and narrowing is monotone. -/
structure OrderedFloats (F : Type) [Floats F] : Prop where
  le_self_left : ∀ a b : F, Floats.le a b = true → Floats.le a a = true
  le_self_right : ∀ a b : F, Floats.le a b = true → Floats.le b b = true
  le_trans : ∀ a b c : F, Floats.le a b = true → Floats.le b c = true → Floats.le a c = true
  lt_or_le : ∀ a b : F, Floats.le a a = true → Floats.le b b = true →
    Floats.lt a b = true ∨ Floats.le b a = true
  not_lt_of_le : ∀ a b : F, Floats.le a b = true → Floats.lt b a = false
  le_of_lt : ∀ a b : F, Floats.lt a b = true → Floats.le a b = true
  min_eq : ∀ a b : F, Floats.le a a = true → Floats.le b b = true →
    (Floats.min a b = a ∧ Floats.le a b = true) ∨ (Floats.min a b = b ∧ Floats.le b a = true)
  le_self_of_isFinite : ∀ a : F, Floats.isFinite a = true → Floats.le a a = true
  isFinite_between : ∀ a b c : F, Floats.isFinite a = true → Floats.isFinite c = true →
    Floats.le a b = true → Floats.le b c = true → Floats.isFinite b = true
  isFinite_narrow_zero : Floats.isFinite (Floats.narrow (Floats.literal 0 1 : F)) = true
  narrow_mono : ∀ a b : F, Floats.le a b = true →
    Floats.le (Floats.narrow a) (Floats.narrow b) = true

/-- A bound as `covers` compares it. -/
def lowered (bound : F) : F :=
  Floats.min bound
    (if Floats.isFinite (Floats.narrow bound) then Floats.narrow bound else bound)

theorem covers_iff {range : LayerConfigRange F} {layerTopZ : F} :
    range.covers layerTopZ = true ↔ Floats.le (lowered range.minZ) layerTopZ = true ∧
      Floats.lt layerTopZ (lowered range.maxZ) = true := by
  rw [LayerConfigRange.covers, Bool.and_eq_true]
  rfl

/-- A bound a range may have: a finite number from zero on. -/
def IsBound (bound : F) : Prop :=
  Floats.isFinite bound = true ∧ Floats.le (Floats.literal 0 1) bound = true

section Lowered

variable (horder : OrderedFloats F) {a b : F}
include horder

theorem lowered_cases (ha : IsBound a) :
    (lowered a = a ∧ (Floats.isFinite (Floats.narrow a) = true →
        Floats.le a (Floats.narrow a) = true)) ∨
      (lowered a = Floats.narrow a ∧ Floats.isFinite (Floats.narrow a) = true ∧
        Floats.le (Floats.narrow a) a = true) := by
  have hself := horder.le_self_of_isFinite a ha.1
  unfold lowered
  split
  · rename_i hfinite
    rcases horder.min_eq a (Floats.narrow a) hself (horder.le_self_of_isFinite _ hfinite) with
      ⟨hmin, hle⟩ | ⟨hmin, hle⟩
    · exact .inl ⟨hmin, fun _ => hle⟩
    · exact .inr ⟨hmin, hfinite, hle⟩
  · rename_i hinfinite
    refine .inl ⟨?_, fun hfinite => absurd hfinite hinfinite⟩
    rcases horder.min_eq a a hself hself with ⟨hmin, _⟩ | ⟨hmin, _⟩ <;> exact hmin

/-- Lowering keeps the order of bounds. -/
theorem le_lowered (ha : IsBound a) (hb : IsBound b) (hle : Floats.le a b = true) :
    Floats.le (lowered a) (lowered b) = true := by
  rcases lowered_cases horder ha with ⟨hla, haNarrow⟩ | ⟨hla, _, haLe⟩
  · rcases lowered_cases horder hb with ⟨hlb, _⟩ | ⟨hlb, hbFinite, _⟩
    · rw [hla, hlb]
      exact hle
    · -- the narrowed image of the smaller bound lies between those of zero and of the larger
      have hnarrow := horder.narrow_mono a b hle
      have haFinite := horder.isFinite_between _ _ _ horder.isFinite_narrow_zero hbFinite
        (horder.narrow_mono _ _ ha.2) hnarrow
      rw [hla, hlb]
      exact horder.le_trans _ _ _ (haNarrow haFinite) hnarrow
  · rcases lowered_cases horder hb with ⟨hlb, _⟩ | ⟨hlb, _, _⟩
    · rw [hla, hlb]
      exact horder.le_trans _ _ _ haLe hle
    · rw [hla, hlb]
      exact horder.narrow_mono a b hle

theorem le_self_lowered (ha : IsBound a) :
    Floats.le (lowered a) (lowered a) = true :=
  le_lowered horder ha ha (horder.le_self_of_isFinite a ha.1)

/-- A top that reaches one bound and stays below another separates them as authored. -/
theorem lt_of_covered {z : F} (ha : IsBound a) (hb : IsBound b)
    (hlo : Floats.le (lowered a) z = true) (hhi : Floats.lt z (lowered b) = true) :
    Floats.lt a b = true := by
  rcases horder.lt_or_le a b (horder.le_self_of_isFinite a ha.1)
    (horder.le_self_of_isFinite b hb.1) with hlt | hle
  · exact hlt
  · have hba := horder.le_trans _ _ _ (le_lowered horder hb ha hle) hlo
    rw [horder.not_lt_of_le _ _ hba] at hhi
    cases hhi

end Lowered

/-! ### Ranges of one object -/

/-- The bounds of a range are an interval `validate` accepts. -/
def ValidBounds (range : LayerConfigRange F) : Prop :=
  IsBound range.minZ ∧ IsBound range.maxZ

theorem isBound_of_valid (horder : OrderedFloats F) {minZ maxZ : F}
    (h : validLayerRangeInterval minZ maxZ = true) : IsBound minZ ∧ IsBound maxZ := by
  simp only [validLayerRangeInterval, Bool.and_eq_true] at h
  obtain ⟨⟨⟨hmin, hmax⟩, hzero⟩, hlt⟩ := h
  exact ⟨⟨hmin, hzero⟩, hmax, horder.le_trans _ _ _ hzero (horder.le_of_lt _ _ hlt)⟩

/-- The authored half-open intervals intersect. -/
def Overlap (first second : LayerConfigRange F) : Prop :=
  Floats.lt first.minZ second.maxZ = true ∧ Floats.lt second.minZ first.maxZ = true

/-- The two deltas state equal values for every key other than `layer_height`. -/
def DeltasAgree (first second : ScopeDelta F) : Prop :=
  ∀ (key : ConfigKey) (value other : ConfigValue F), key ≠ "layer_height" →
    first.values[key]? = some value → second.values[key]? = some other → value = other

/-- Two ranges that cover one top overlap as authored. -/
theorem overlap_of_covers (horder : OrderedFloats F) {first second : LayerConfigRange F}
    (hfirst : ValidBounds first) (hsecond : ValidBounds second) {z : F}
    (hcovers : first.covers z = true) (hcovers' : second.covers z = true) :
    Overlap first second := by
  obtain ⟨hlo, hhi⟩ := covers_iff.mp hcovers
  obtain ⟨hlo', hhi'⟩ := covers_iff.mp hcovers'
  exact ⟨lt_of_covered horder hfirst.1 hsecond.2 hlo hhi',
    lt_of_covered horder hsecond.1 hfirst.2 hlo' hhi⟩

/-- Two adjacent ranges leave no gap between the lower bound of the one and the upper
bound of the other. -/
theorem covers_of_adjacent (horder : OrderedFloats F) {first second : LayerConfigRange F}
    (hfirst : ValidBounds first) (hadjacent : first.maxZ = second.minZ) {z : F}
    (hlo : Floats.le (lowered first.minZ) z = true)
    (hhi : Floats.lt z (lowered second.maxZ) = true) :
    first.covers z = true ∨ second.covers z = true := by
  have hz := horder.le_self_right _ _ hlo
  rcases horder.lt_or_le z (lowered first.maxZ) hz (le_self_lowered horder hfirst.2) with hlt | hge
  · exact .inl (covers_iff.mpr ⟨hlo, hlt⟩)
  · exact .inr (covers_iff.mpr ⟨hadjacent ▸ hge, hhi⟩)

/-! ### What ingestion commits -/

/-- A prepared range as it is committed. -/
def PendingLayerRange.committed (objectId : ObjectId) (pending : PendingLayerRange F) :
    LayerConfigRange F where
  scope := .layerRange objectId pending.rangeIndex
  minZ := pending.minZ
  maxZ := pending.maxZ
  delta := pending.delta

/-- The ranges of an object as one call commits them: its inputs in range order, prepared
one by one, which passed the overlap check. -/
def Committed [DecidableEq F] (inputs : List (LayerRangeInput F)) (objectId : ObjectId)
    (ranges : List (LayerConfigRange F)) : Prop :=
  ∃ (ingestor : ConfigIngestor F) (sorted : List (LayerRangeInput F))
    (prepared : List (PendingLayerRange F × List IngestionWarning)),
    (∀ input ∈ sorted, input ∈ inputs) ∧
    sorted.zipIdx.mapM (prepareRange ingestor objectId) = .ok prepared ∧
    (∀ pair ∈ orderedPairs (prepared.map Prod.fst),
      Floats.lt pair.1.minZ pair.2.maxZ = true → Floats.lt pair.2.minZ pair.1.maxZ = true →
      conflictingKey pair.1.delta pair.2.delta = none) ∧
    ranges = (prepared.map Prod.fst).map (PendingLayerRange.committed objectId)

variable {ingestor : ConfigIngestor F} {inputs : List (LayerRangeInput F)} {objectId : ObjectId}
  {ranges : List (LayerConfigRange F)}

/-- After an accepted call the ranges of an object are those it had or those the call
commits. -/
theorem ingestLayerRanges_cases [DecidableEq F] {ingestor' : ConfigIngestor F}
    (hcall : ingestor.ingestLayerRanges inputs = .ok ingestor')
    (h : ingestor'.layerRanges[objectId]? = some ranges) :
    ingestor.layerRanges[objectId]? = some ranges ∨ Committed inputs objectId ranges := by
  obtain ⟨prepared, hprepared, hcall⟩ := Except.of_bind_eq_ok hcall
  obtain ⟨⟨⟩, hoverlaps, hcall⟩ := Except.of_bind_eq_ok hcall
  obtain ⟨committed, hcommitted, hcall⟩ := Except.of_bind_eq_ok hcall
  cases hcall
  rcases BTreeMap.getElem?_foldl_insert_cases h with hnew | hold
  swap
  · exact .inl hold
  right
  obtain ⟨⟨object, pending⟩, hpending, hbuild⟩ := Except.of_mapM_eq_ok hcommitted hnew
  obtain ⟨built, hbuilt, hbuild⟩ := Except.of_bind_eq_ok hbuild
  cases hbuild
  have hranges : ranges = pending.map (PendingLayerRange.committed objectId) := by
    have hforall : List.Forall₂ (fun range source => range = source.committed objectId)
        ranges pending := by
      refine (Except.forall₂_of_mapM_eq_ok hbuilt).flip.imp fun range source hconstruct => ?_
      rw [LayerConfigRange.new] at hconstruct
      split at hconstruct
      · cases hconstruct
        rfl
      · cases hconstruct
    have hmap := List.forall₂_map_right_iff.mpr hforall
    rwa [List.forall₂_eq_eq_eq] at hmap
  have hmember := ExtTreeMap.mem_toList_iff_getElem?_eq_some.mp hpending
  obtain ⟨result, hresult, heq⟩ := List.mem_map.mp (BTreeMap.mem_of_getElem?_ofList hmember)
  obtain ⟨⟨object', group⟩, hgroup, hobject⟩ := Except.of_mapM_eq_ok hprepared hresult
  obtain ⟨rows, hrows, hobject⟩ := Except.of_bind_eq_ok hobject
  cases hobject
  cases heq
  have hgroup' := ExtTreeMap.mem_toList_iff_getElem?_eq_some.mp hgroup
  have hinputs : ∀ input ∈ group, input ∈ inputs := by
    change (BTreeMap.groupBy LayerRangeInput.objectId inputs)[objectId]? = some group at hgroup'
    rw [BTreeMap.getElem?_groupBy] at hgroup'
    split at hgroup'
    · cases hgroup'
    · cases hgroup'
      exact fun input hinput => (List.mem_filter.mp hinput).1
  refine ⟨ingestor, _, rows, fun input hinput =>
    hinputs input ((List.mem_insertionSort _).mp hinput), hrows, ?_, hranges⟩
  intro pair hpair hlt hlt'
  unfold validateLayerRangeOverlaps at hoverlaps
  simp only at hoverlaps
  split at hoverlaps
  · cases hoverlaps
  · rename_i hnone
    have hobject := List.findSome?_eq_none_iff.mp hnone _ hpending
    have hpairNone := List.findSome?_eq_none_iff.mp hobject pair hpair
    simpa [hlt, hlt'] using hpairNone

omit [Floats F] in
/-- Committing entries leaves the layer ranges alone. -/
theorem layerRanges_commit (ingestor : ConfigIngestor F) (pending : List (PendingEntry F)) :
    (ingestor.commit pending).layerRanges = ingestor.layerRanges := by
  change (pending.foldl ConfigIngestor.commitEntry ingestor).layerRanges = _
  induction pending generalizing ingestor with
  | nil => rfl
  | cons entry rest ih => exact ih (ingestor.commitEntry entry)

/-- A prepared entry is stored under the key it was prepared for. -/
theorem prepareEntry_key {scope : ConfigScope} {key : ConfigKey} {wireKey : String}
    {authored : ConfigValue F} {pending : PendingEntry F}
    (h : ingestor.prepareEntry scope key wireKey authored = .ok pending) :
    pending.scope = scope ∧ pending.key = key := by
  cases hentry : typingEntry ingestor.registry key with
  | none =>
    rw [ConfigIngestor.prepareEntry, hentry] at h
    cases h
    exact ⟨rfl, rfl⟩
  | some entry =>
    obtain ⟨value, warning, rfl⟩ := prepareEntry_of_typed hentry h
    exact ⟨rfl, rfl⟩

/-- A range states only keys its input states. -/
theorem mem_of_rangeDelta {scope : ConfigScope} {values : BTreeMap String String}
    {delta : ScopeDelta F} {warnings : List IngestionWarning}
    (h : rangeDelta ingestor scope values = .ok (delta, warnings)) {key : ConfigKey}
    {value : ConfigValue F} (hkey : delta.values[key]? = some value) : key ∈ values := by
  obtain ⟨entries, hentries, hpure⟩ := Except.of_bind_eq_ok h
  cases hpure
  have hstated : ∀ entry ∈ entries, entry.key ∈ values := by
    intro entry hentry
    obtain ⟨⟨stated, authored⟩, hrow, hprepare⟩ := Except.of_mapM_eq_ok hentries hentry
    rw [(prepareEntry_key hprepare).2, BTreeMap.mem_iff_getElem?_isSome]
    exact ⟨authored, ExtTreeMap.mem_toList_iff_getElem?_eq_some.mp hrow⟩
  clear hentries h
  induction entries using List.reverseRecOn with
  | nil => simp at hkey
  | append_singleton entries entry ih =>
    have hstated' : ∀ other ∈ entries, other.key ∈ values :=
      fun other hother => hstated other (List.mem_append_left _ hother)
    rw [List.foldl_concat] at hkey
    cases hvalue : entry.value with
    | none =>
      simp only [hvalue] at hkey
      exact ih hkey hstated'
    | some inserted =>
      simp only [hvalue] at hkey
      rcases BTreeMap.getElem?_insert_cases hkey with ⟨rfl, _⟩ | hold
      · exact hstated entry (List.mem_append_right _ List.mem_cons_self)
      · exact ih hold hstated'

/-- What is checked of one range before it is committed. -/
structure Prepared (input : LayerRangeInput F) (pending : PendingLayerRange F) : Prop where
  minZ_eq : pending.minZ = input.minZ
  maxZ_eq : pending.maxZ = input.maxZ
  valid : validLayerRangeInterval pending.minZ pending.maxZ = true
  height : invalidLayerHeight pending.delta = none
  keys : ∀ (key : ConfigKey) (value : ConfigValue F), pending.delta.values[key]? = some value →
    key ∈ input.values

theorem prepareRange_spec {input : LayerRangeInput F} {index : Nat} {pending : PendingLayerRange F}
    {warnings : List IngestionWarning}
    (h : prepareRange ingestor objectId (input, index) = .ok (pending, warnings)) :
    pending.rangeIndex = index ∧ Prepared input pending := by
  rw [prepareRange] at h
  split at h
  · cases h
  rename_i hvalid
  obtain ⟨⟨delta, found⟩, hdelta, h⟩ := Except.of_bind_eq_ok h
  simp only at h
  split at h
  · cases h
  rename_i hheight
  split at h
  · cases h
  cases h
  have hrange := Except.of_mapError_eq_ok hdelta
  exact ⟨rfl, rfl, rfl, by simpa using hvalid, hheight, fun key value hkey =>
    mem_of_rangeDelta hrange hkey⟩

section

omit [Floats F]

theorem deltasAgree_of_conflictingKey [DecidableEq F] {first second : ScopeDelta F}
    (h : conflictingKey first second = none) : DeltasAgree first second := by
  intro key value other hkey hvalue hother
  have hrow := List.findSome?_eq_none_iff.mp h (key, value)
    (ExtTreeMap.mem_toList_iff_getElem?_eq_some.mpr hvalue)
  simpa [hkey, hother] using hrow

theorem DeltasAgree.symm {first second : ScopeDelta F} (h : DeltasAgree first second) :
    DeltasAgree second first :=
  fun key value other hkey hvalue hother => (h key other value hkey hother hvalue).symm

theorem DeltasAgree.refl (delta : ScopeDelta F) : DeltasAgree delta delta := by
  intro key value other _ hvalue hother
  rw [hvalue] at hother
  exact Option.some.inj hother

end

theorem pairwise_of_orderedPairs {α : Type} {R : α → α → Prop} {l : List α}
    (h : ∀ pair ∈ orderedPairs l, R pair.1 pair.2) : l.Pairwise R := by
  induction l with
  | nil => exact .nil
  | cons a rest ih =>
    refine List.pairwise_cons.mpr ⟨fun b hb => ?_, ih fun pair hpair => ?_⟩
    · exact h (a, b) (List.mem_append_left _ (List.mem_map_of_mem hb))
    · exact h pair (List.mem_append_right _ hpair)

/-- What holds of the ranges of one object in every run. -/
structure RangesAgree (ranges : List (LayerConfigRange F)) : Prop where
  valid : ∀ range ∈ ranges, validLayerRangeInterval range.minZ range.maxZ = true
  canonical : ∀ range ∈ ranges, ∀ (key : ConfigKey) (value : ConfigValue F),
    range.delta.values[key]? = some value → canonicalConfigKey key = key
  agree : ∀ first ∈ ranges, ∀ second ∈ ranges, Overlap first second →
    DeltasAgree first.delta second.delta

/-- The keys a call states for layer ranges are canonical spellings. -/
def IngestCall.Canonical : IngestCall F → Prop
  | .layerRanges inputs => ∀ input ∈ inputs, ∀ key ∈ input.values, canonicalConfigKey key = key
  | _ => True

theorem Committed.prepared [DecidableEq F] (h : Committed inputs objectId ranges)
    {range : LayerConfigRange F} (hrange : range ∈ ranges) :
    ∃ input ∈ inputs, ∃ pending, Prepared input pending ∧ range = pending.committed objectId := by
  obtain ⟨ingestor, sorted, prepared, hinputs, hprepared, -, rfl⟩ := h
  obtain ⟨pending, hpending, rfl⟩ := List.mem_map.mp hrange
  obtain ⟨⟨found, warnings⟩, hfound, rfl⟩ := List.mem_map.mp hpending
  obtain ⟨⟨input, index⟩, hrow, hprepare⟩ := Except.of_mapM_eq_ok hprepared hfound
  exact ⟨input, hinputs input (List.fst_mem_of_mem_zipIdx hrow), found,
    (prepareRange_spec hprepare).2, rfl⟩

theorem Committed.rangesAgree [DecidableEq F] (h : Committed inputs objectId ranges)
    (hcanonical : IngestCall.Canonical (.layerRanges inputs)) : RangesAgree ranges := by
  refine ⟨?_, ?_, ?_⟩
  · intro range hrange
    obtain ⟨input, _, pending, hspec, rfl⟩ := h.prepared hrange
    exact hspec.valid
  · intro range hrange key value hvalue
    obtain ⟨input, hinput, pending, hspec, rfl⟩ := h.prepared hrange
    exact hcanonical input hinput key (hspec.keys key value hvalue)
  · obtain ⟨ingestor, sorted, prepared, -, -, hpairs, rfl⟩ := h
    have hagree : (prepared.map Prod.fst).Pairwise fun first second =>
        Floats.lt first.minZ second.maxZ = true → Floats.lt second.minZ first.maxZ = true →
          DeltasAgree first.delta second.delta :=
      pairwise_of_orderedPairs fun pair hpair hlt hlt' =>
        deltasAgree_of_conflictingKey (hpairs pair hpair hlt hlt')
    intro first hfirst second hsecond hoverlap
    obtain ⟨first, hfirst', rfl⟩ := List.mem_map.mp hfirst
    obtain ⟨second, hsecond', rfl⟩ := List.mem_map.mp hsecond
    have hsymm : Std.Symm fun first second : PendingLayerRange F =>
        Floats.lt first.minZ second.maxZ = true → Floats.lt second.minZ first.maxZ = true →
          DeltasAgree first.delta second.delta :=
      ⟨fun a b hab hlt hlt' => (hab hlt' hlt).symm⟩
    exact List.Pairwise.forall_of_forall (fun a _ _ _ => DeltasAgree.refl a.delta) hagree
      hfirst' hsecond' hoverlap.1 hoverlap.2

theorem run_committed [DecidableEq F] {registry : ConfigSchemaRegistry F} {tolerant : Bool}
    {trace : List (Event (ConfigIngestor F) (IngestCall F) Unit)}
    (run : (ingestion registry tolerant).Run trace ingestor)
    (h : ingestor.layerRanges[objectId]? = some ranges) :
    ∃ event ∈ trace, ∃ inputs, event.op = .layerRanges inputs ∧
      Committed inputs objectId ranges := by
  induction run with
  | start => simp [ingestion, ConfigIngestor.withMode] at h
  | @step trace before after call reply run hstep ih =>
    have hold : ∀ last : Event (ConfigIngestor F) (IngestCall F) Unit,
        before.layerRanges[objectId]? = some ranges →
        ∃ event ∈ trace ++ [last], ∃ inputs, event.op = .layerRanges inputs ∧
          Committed inputs objectId ranges := by
      intro last hbefore
      obtain ⟨event, hevent, hcommitted⟩ := ih hbefore
      exact ⟨event, List.mem_append_left _ hevent, hcommitted⟩
    obtain ⟨result, hresult, heq⟩ := Option.map_eq_some_iff.mp hstep
    cases heq
    cases call with
    | flat values =>
      obtain ⟨pending, _, hcommit⟩ := Except.of_bind_eq_ok (Except.of_toOption_eq_some hresult)
      cases hcommit
      rw [layerRanges_commit] at h
      exact hold _ h
    | delta scope values =>
      obtain ⟨pending, _, hcommit⟩ := Except.of_bind_eq_ok (Except.of_toOption_eq_some hresult)
      cases hcommit
      rw [layerRanges_commit] at h
      exact hold _ h
    | layerRanges inputs =>
      rcases ingestLayerRanges_cases (Except.of_toOption_eq_some hresult) h with hsame | hnew
      · exact hold _ hsame
      · exact ⟨_, List.mem_append_right _ List.mem_cons_self, inputs, rfl, hnew⟩

/-- Overlapping layer ranges never make resolution depend on their order. In every run
of an ingestor whose range keys are canonical spellings, and for every object: ranges
that cover one layer top state equal values for every key but `layer_height`; ranges
that do not overlap as authored never cover one top; and adjacent ranges leave no top
between their outer bounds uncovered. -/
theorem overlapping_ranges_agree [DecidableEq F] (horder : OrderedFloats F)
    {registry : ConfigSchemaRegistry F} {tolerant : Bool}
    {trace : List (Event (ConfigIngestor F) (IngestCall F) Unit)} {ingestor : ConfigIngestor F}
    (run : (ingestion registry tolerant).Run trace ingestor)
    (hcanonical : ∀ event ∈ trace, event.op.Canonical) (objectId : ObjectId)
    {first second : LayerConfigRange F} (hfirst : first ∈ ingestor.finish.config.rangesFor objectId)
    (hsecond : second ∈ ingestor.finish.config.rangesFor objectId) (z : F) :
    (∀ (key spelling spelling' : ConfigKey) (value other : ConfigValue F), key ≠ "layer_height" →
      first.covers z = true → second.covers z = true →
      canonicalConfigKey spelling = key → first.delta.values[spelling]? = some value →
      canonicalConfigKey spelling' = key → second.delta.values[spelling']? = some other →
      value = other) ∧
    (¬ Overlap first second → ¬ (first.covers z = true ∧ second.covers z = true)) ∧
    (first.maxZ = second.minZ → Floats.le (lowered first.minZ) z = true →
      Floats.lt z (lowered second.maxZ) = true →
      first.covers z = true ∨ second.covers z = true) := by
  have hranges : RangesAgree (ingestor.finish.config.rangesFor objectId) := by
    change RangesAgree (ingestor.layerRanges[objectId]?.getD [])
    cases hlookup : ingestor.layerRanges[objectId]? with
    | none => exact ⟨by simp, by simp, by simp⟩
    | some ranges =>
      obtain ⟨event, hevent, inputs, hop, hcommitted⟩ := run_committed run hlookup
      have hcall := hcanonical event hevent
      rw [hop] at hcall
      exact hcommitted.rangesAgree hcall
  have hbounds : ∀ range ∈ ingestor.finish.config.rangesFor objectId, ValidBounds range :=
    fun range hrange => isBound_of_valid horder (hranges.valid range hrange)
  have hoverlap := fun hcovers hcovers' => overlap_of_covers horder (hbounds first hfirst)
    (hbounds second hsecond) (z := z) hcovers hcovers'
  refine ⟨?_, ?_, fun hadjacent hlo hhi =>
    covers_of_adjacent horder (hbounds first hfirst) hadjacent hlo hhi⟩
  · intro key spelling spelling' value other hkey hcovers hcovers' hspelling hvalue hspelling' hother
    rw [hranges.canonical first hfirst spelling value hvalue] at hspelling
    rw [hranges.canonical second hsecond spelling' other hother] at hspelling'
    rw [hspelling] at hvalue
    rw [hspelling'] at hother
    exact hranges.agree first hfirst second hsecond (hoverlap hcovers hcovers') key value other
      hkey hvalue hother
  · rintro hapart ⟨hcovers, hcovers'⟩
    exact hapart (hoverlap hcovers hcovers')

/-! ### Two ranges that overlap -/

/-- Exact arithmetic has the assumed comparisons. -/
theorem orderedFloats_rat : OrderedFloats ℚ where
  le_self_left _ _ _ := decide_eq_true Rat.le_refl
  le_self_right _ _ _ := decide_eq_true Rat.le_refl
  le_trans _ _ _ hab hbc := decide_eq_true ((of_decide_eq_true hab).trans (of_decide_eq_true hbc))
  lt_or_le a b _ _ := (lt_or_ge a b).imp decide_eq_true decide_eq_true
  not_lt_of_le _ _ hle := decide_eq_false (of_decide_eq_true hle).not_gt
  le_of_lt _ _ hlt := decide_eq_true (of_decide_eq_true hlt).le
  min_eq a b _ _ := by
    rcases le_total a b with hle | hle
    · exact .inl ⟨if_pos hle, decide_eq_true hle⟩
    · refine .inr ⟨?_, decide_eq_true hle⟩
      change (if a ≤ b then a else b) = b
      split
      · exact Rat.le_antisymm ‹_› hle
      · rfl
  le_self_of_isFinite _ _ := decide_eq_true Rat.le_refl
  isFinite_between _ _ _ _ _ _ _ := rfl
  isFinite_narrow_zero := rfl
  narrow_mono _ _ hle := hle

/-- A range of `cube` that states three raft layers. -/
def raftRange (minZ maxZ : ℚ) (sourceIndex : Nat) : LayerRangeInput ℚ where
  objectId := "cube"
  minZ
  maxZ
  values := ExtTreeMap.ofList [("support_raft_layers", "3")] compare
  sourceIndex

/-- The ingestor that accepted two overlapping ranges. -/
def rangedIngestor : ConfigIngestor ℚ :=
  match (ConfigIngestor.withMode raftRegistry false).ingestLayerRanges
      [raftRange 0 2 0, raftRange 1 3 1] with
  | .ok ingestor => ingestor
  | .error _ => .withMode raftRegistry false

theorem rangedIngestor_run :
    ∃ event : Event (ConfigIngestor ℚ) (IngestCall ℚ) Unit,
      (ingestion raftRegistry false).Run [event] rangedIngestor ∧ event.op.Canonical := by
  have hok : ((ConfigIngestor.withMode raftRegistry false).ingestLayerRanges
      [raftRange 0 2 0, raftRange 1 3 1]).isOk = true := by
    decide +kernel
  refine ⟨⟨.withMode raftRegistry false, .layerRanges [raftRange 0 2 0, raftRange 1 3 1], (),
    rangedIngestor⟩, Machine.Run.step Machine.Run.start ?_, ?_⟩
  · cases hcall : (ConfigIngestor.withMode raftRegistry false).ingestLayerRanges
        [raftRange 0 2 0, raftRange 1 3 1] with
    | error error =>
      rw [hcall] at hok
      cases hok
    | ok ingestor =>
      simp only [ingestion, rangedIngestor, hcall]
      rfl
  · have hkeys : ∀ (minZ maxZ : ℚ) (index : Nat), ∀ key ∈ (raftRange minZ maxZ index).values,
        canonicalConfigKey key = key := by
      intro minZ maxZ index key hkey
      obtain ⟨value, hvalue⟩ := (BTreeMap.mem_iff_getElem?_isSome).mp hkey
      have hrow := BTreeMap.mem_of_getElem?_ofList hvalue
      cases List.mem_singleton.mp hrow
      decide +kernel
    intro input hinput
    simp only [List.mem_cons, List.not_mem_nil, or_false] at hinput
    rcases hinput with rfl | rfl
    · exact hkeys 0 2 0
    · exact hkeys 1 3 1

/-- Between the bounds of both ranges the two state the same number of raft layers. -/
theorem overlapping_ranges_agree_raft :
    ∃ first ∈ rangedIngestor.finish.config.rangesFor "cube",
      ∃ second ∈ rangedIngestor.finish.config.rangesFor "cube",
        first.maxZ ≠ second.maxZ ∧
        first.covers (3 / 2) = true ∧ second.covers (3 / 2) = true ∧
        ∀ value other, first.delta.values["support_raft_layers"]? = some value →
          second.delta.values["support_raft_layers"]? = some other → value = other := by
  obtain ⟨event, hrun, hcanonical⟩ := rangedIngestor_run
  have hlength : (rangedIngestor.finish.config.rangesFor "cube").length = 2 := by decide +kernel
  obtain ⟨first, second, hranges⟩ := List.length_eq_two.mp hlength
  have hcovered : ((rangedIngestor.finish.config.rangesFor "cube").map fun range =>
      (range.maxZ, range.covers (3 / 2))) = [(2, true), (3, true)] := by
    decide +kernel
  have hfirst : first ∈ rangedIngestor.finish.config.rangesFor "cube" := by simp [hranges]
  have hsecond : second ∈ rangedIngestor.finish.config.rangesFor "cube" := by simp [hranges]
  simp only [hranges, List.map_cons, List.map_nil, List.cons.injEq, Prod.mk.injEq] at hcovered
  obtain ⟨⟨hmax, hcovers⟩, ⟨hmax', hcovers'⟩, -⟩ := hcovered
  refine ⟨first, hfirst, second, hsecond, by rw [hmax, hmax']; decide, hcovers, hcovers', ?_⟩
  intro value other hvalue hother
  exact (overlapping_ranges_agree orderedFloats_rat hrun (by simpa using hcanonical) "cube" hfirst
    hsecond (3 / 2)).1 "support_raft_layers" "support_raft_layers" "support_raft_layers" value other
    (by decide) hcovers hcovers' (by decide +kernel) hvalue (by decide +kernel) hother

end PinchNPrint.Config
