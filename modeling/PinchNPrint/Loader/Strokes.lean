/-
Which painted sub-triangles reach a layer.

The strokes of a slot are those of its facets, one after the other. So it remains to see which
facets are read before their vertices, and which slots get no layer.
-/

import PinchNPrint.Lib.Sequences
import PinchNPrint.Loader.Leaves

namespace PinchNPrint.Loader

open List
open Region (IndexedTriangleSet PaintSemantic Point3)

/-! ### The facets of a mesh -/

/-- A facet, with the vertices that are there when it is read. -/
structure Facet (F : Type) where
  element : TriangleElement
  vertices : List (Point3 F)

/-- The facets of a mesh that has these vertices already. -/
def facetsFrom {F : Type} : List (Point3 F) → List (MeshEvent F) → List (Facet F)
  | _, [] => []
  | vertices, .vertex p :: rest => facetsFrom (vertices ++ [p]) rest
  | vertices, .triangle element :: rest => { element, vertices } :: facetsFrom vertices rest

/-- The facets of a mesh. -/
def facets {F : Type} (events : List (MeshEvent F)) : List (Facet F) :=
  facetsFrom [] events

/-- The vertex of an event. -/
def MeshEvent.point? {F : Type} : MeshEvent F → Option (Point3 F)
  | vertex p => some p
  | triangle _ => none

/-- The vertices of a mesh. -/
def verticesOf {F : Type} (events : List (MeshEvent F)) : List (Point3 F) :=
  events.filterMap MeshEvent.point?

theorem prefix_of_mem_facetsFrom {F : Type} {vertices : List (Point3 F)}
    {events : List (MeshEvent F)} {facet : Facet F} (h : facet ∈ facetsFrom vertices events) :
    facet.vertices <+: vertices ++ verticesOf events := by
  induction events generalizing vertices with
  | nil => cases h
  | cons event rest ih =>
    cases event with
    | vertex p =>
      have hrest := ih h
      rwa [List.append_assoc] at hrest
    | triangle element =>
      rcases List.mem_cons.mp h with rfl | h
      · exact List.prefix_append _ _
      · exact ih h

/-- A facet is read before the vertices that follow it. -/
theorem prefix_of_mem_facets {F : Type} {events : List (MeshEvent F)} {facet : Facet F}
    (h : facet ∈ facets events) : facet.vertices <+: verticesOf events := by
  simpa using prefix_of_mem_facetsFrom h

section Collected

variable {F : Type} [Field F] [DecidableEq F] {file : ModelFile}

/-- The state of a channel that is kept of a facet. -/
def Facet.kept (file : ModelFile) (facet : Facet F) : Channel → Option Nat :=
  keptState file facet.element.majority (facet.element.leafStrokes facet.vertices)

/-- The strokes of a slot that are read with a facet. -/
def Facet.slotStrokes (facet : Facet F) (slot : Slot) : List (PaintStroke F) :=
  (facet.element.leafStrokes facet.vertices slot.channel).filter fun stroke =>
    slot.channel.slot stroke = slot

/-- A facet that is read without an error. -/
def Facet.IsRead (file : ModelFile) (facet : Facet F) : Prop :=
  ∀ channel, facet.element.readState channel = .ok (facet.element.majority channel) ∧
    ∃ strokes, facet.element.readStrokes file facet.vertices (facet.element.majority channel)
      channel = .ok strokes

/-- What the collector has read of these facets. -/
structure Collected (file : ModelFile) (mc mc' : MeshCollector F) (read : List (Facet F)) :
    Prop where
  indices : mc'.indices.length = mc.indices.length + 3 * read.length
  hasAnyPaint : ∀ facet ∈ read, ∀ channel, facet.element.majority channel ≠ none →
    mc'.hasAnyPaint = true
  keepsPaint : mc.hasAnyPaint = true → mc'.hasAnyPaint = true
  states : ∀ channel, mc'.states channel = mc.states channel ++ read.map fun facet =>
    facet.kept file channel
  strokes : ∀ slot, mc'.strokes slot = mc.strokes slot ++ read.flatMap fun facet =>
    facet.slotStrokes slot
  isRead : ∀ facet ∈ read, facet.IsRead file

variable {element : TriangleElement} {mc mc' : MeshCollector F}

theorem readStates_eq_ok {states : Channel → Option Nat} (h : element.readStates = .ok states)
    (channel : Channel) : element.readState channel = .ok (states channel) := by
  obtain ⟨fuzzy, hfuzzy, h⟩ := Except.of_bind_eq_ok h
  obtain ⟨support, hsupport, h⟩ := Except.of_bind_eq_ok h
  obtain ⟨seam, hseam, h⟩ := Except.of_bind_eq_ok h
  obtain ⟨color, hcolor, h⟩ := Except.of_bind_eq_ok h
  cases h
  cases channel with
  | fuzzySkin => exact hfuzzy
  | supports => exact hsupport
  | seam => exact hseam
  | color => exact hcolor

theorem readAllStrokes_eq_ok {vertices : List (Point3 F)} {states : Channel → Option Nat}
    {strokes : Channel → List (PaintStroke F)}
    (h : element.readAllStrokes file vertices states = .ok strokes) (channel : Channel) :
    element.readStrokes file vertices (states channel) channel = .ok (strokes channel) := by
  obtain ⟨color, hcolor, h⟩ := Except.of_bind_eq_ok h
  obtain ⟨support, hsupport, h⟩ := Except.of_bind_eq_ok h
  obtain ⟨seam, hseam, h⟩ := Except.of_bind_eq_ok h
  obtain ⟨fuzzy, hfuzzy, h⟩ := Except.of_bind_eq_ok h
  cases h
  cases channel with
  | fuzzySkin => exact hfuzzy
  | supports => exact hsupport
  | seam => exact hseam
  | color => exact hcolor

/-- A triangle that is read adds its facet. -/
theorem readTriangle_spec (h : mc.readTriangle file element = .ok mc') :
    mc'.vertices = mc.vertices ∧
      Collected file mc mc' [{ element, vertices := mc.vertices }] := by
  obtain ⟨states, hstates, h⟩ := Except.of_bind_eq_ok h
  obtain ⟨strokes, hstrokes, h⟩ := Except.of_bind_eq_ok h
  obtain ⟨v1, -, h⟩ := Except.of_bind_eq_ok h
  obtain ⟨v2, -, h⟩ := Except.of_bind_eq_ok h
  obtain ⟨v3, -, h⟩ := Except.of_bind_eq_ok h
  cases h
  have hread : element.readStates = .ok states := by
    cases hresult : element.readStates with
    | error e =>
      rw [hresult] at hstates
      cases hstates
    | ok found =>
      rw [hresult] at hstates
      cases hstates
      rfl
  have hmajority : states = element.majority := by
    funext channel
    exact (TriangleElement.majority_of_readState (readStates_eq_ok hread channel)).symm
  have hleaves : strokes = element.leafStrokes mc.vertices := by
    funext channel
    exact TriangleElement.readStrokes_eq (readStates_eq_ok hread channel)
      (readAllStrokes_eq_ok hstrokes channel)
  refine ⟨rfl, ?_, ?_, ?_, ?_, ?_, ?_⟩
  · simp [MeshCollector.addFacet]
  · intro facet hfacet channel hpainted
    rw [List.mem_singleton] at hfacet
    subst hfacet
    have hsome : (states channel).isSome = true := by
      rw [hmajority]
      exact Option.isSome_iff_ne_none.mpr hpainted
    have hany : MeshCollector.isPainted states = true := by
      rw [MeshCollector.isPainted]
      cases channel with
      | fuzzySkin => simp [hsome]
      | supports => simp [hsome]
      | seam => simp [hsome]
      | color => simp [hsome]
    simp [MeshCollector.addFacet, hany]
  · intro hpaint
    simp [MeshCollector.addFacet, hpaint]
  · intro channel
    rw [List.map_singleton, Facet.kept, ← hmajority, ← hleaves]
    rfl
  · intro slot
    rw [List.flatMap_singleton, Facet.slotStrokes, ← hleaves]
    rfl
  · intro facet hfacet channel
    rw [List.mem_singleton] at hfacet
    subst hfacet
    rw [← hmajority]
    exact ⟨readStates_eq_ok hread channel, strokes channel, readAllStrokes_eq_ok hstrokes channel⟩

theorem Collected.trans {mc'' : MeshCollector F} {read read' : List (Facet F)}
    (h : Collected file mc mc' read) (h' : Collected file mc' mc'' read') :
    Collected file mc mc'' (read ++ read') where
  indices := by
    rw [h'.indices, h.indices, List.length_append]
    omega
  hasAnyPaint := by
    intro facet hfacet channel hpainted
    rcases List.mem_append.mp hfacet with hfacet | hfacet
    · exact h'.keepsPaint (h.hasAnyPaint facet hfacet channel hpainted)
    · exact h'.hasAnyPaint facet hfacet channel hpainted
  keepsPaint := fun hpaint => h'.keepsPaint (h.keepsPaint hpaint)
  states := by
    intro channel
    rw [h'.states, h.states, List.append_assoc, List.map_append]
  strokes := by
    intro slot
    rw [h'.strokes, h.strokes, List.append_assoc, List.flatMap_append]
  isRead := fun facet hfacet => (List.mem_append.mp hfacet).elim (h.isRead facet) (h'.isRead facet)

theorem readEvents_spec {events : List (MeshEvent F)}
    (h : events.foldlM (MeshCollector.readEvent file) mc = .ok mc') :
    mc'.vertices = mc.vertices ++ verticesOf events ∧
      Collected file mc mc' (facetsFrom mc.vertices events) := by
  induction events generalizing mc with
  | nil =>
    cases h
    refine ⟨by simp [verticesOf], rfl, fun _ hfacet => absurd hfacet List.not_mem_nil, id, ?_, ?_,
      fun _ hfacet => absurd hfacet List.not_mem_nil⟩
    · simp [facetsFrom]
    · simp [facetsFrom]
  | cons event rest ih =>
    rw [List.foldlM_cons] at h
    obtain ⟨next, hnext, h⟩ := Except.of_bind_eq_ok h
    obtain ⟨hvertices, hcollected⟩ := ih h
    cases event with
    | vertex p =>
      cases hnext
      refine ⟨?_, ?_⟩
      · rw [hvertices, List.append_assoc]
        rfl
      · exact ⟨hcollected.indices, hcollected.hasAnyPaint, hcollected.keepsPaint,
          hcollected.states, hcollected.strokes, hcollected.isRead⟩
    | triangle element =>
      obtain ⟨hsame, hfacet⟩ := readTriangle_spec hnext
      rw [hsame] at hvertices hcollected
      exact ⟨hvertices, hfacet.trans hcollected⟩

end Collected

/-! ### The layers -/

theorem Slot.filterMap_all {α : Type} (slot : Slot) (x : Option α) :
    (all.filterMap fun other => if other = slot then x else none) = x.toList := by
  cases slot <;> cases x <;> rfl

section Layers

variable {F : Type} {mc : MeshCollector F}

theorem filter_layers (mc : MeshCollector F) (slot : Slot) :
    ((Slot.all.filterMap mc.layer).filter fun layer => layer.semantic = slot.semantic) =
      (mc.layer slot).toList := by
  rw [List.filter_filterMap, ← Slot.filterMap_all slot]
  congr 1
  funext other
  by_cases hother : other = slot
  · subst hother
    rw [if_pos rfl]
    cases hlayer : mc.layer other with
    | none => rfl
    | some layer => simp [semantic_of_layer hlayer]
  · rw [if_neg hother]
    cases hlayer : mc.layer other with
    | none => rfl
    | some layer =>
      have hdiffers : layer.semantic ≠ slot.semantic := fun hsame =>
        hother (Slot.semantic_injective ((semantic_of_layer hlayer).symm.trans hsame))
      simp [hdiffers]

theorem strokesOf_finish {mesh : MeshData F} (h : mc.finish = .ok (some mesh)) (slot : Slot) :
    strokesOf mesh slot.semantic =
      if mc.hasAnyPaint ∧ (mc.states slot.channel).any slot.asks then mc.strokes slot else [] := by
  rw [strokesOf, strokesIn, (finish_spec h).2.2.1]
  by_cases hpaint : mc.hasAnyPaint = true
  · rw [if_pos hpaint, filter_layers, MeshCollector.layer]
    simp only [hpaint, true_and]
    split_ifs
    · exact List.flatMap_singleton _ _
    · rfl
  · rw [if_neg hpaint, if_neg fun hboth => hpaint hboth.1]
    rfl

end Layers

/-! ### Which strokes are kept -/

section Kept

variable {F : Type} [Field F] [DecidableEq F]

/-- The painted leaves of a mesh. -/
def leavesOf (events : List (MeshEvent F)) (vertices : List (Point3 F)) (channel : Channel)
    (semantic : PaintSemantic) : List (PaintStroke F) :=
  (facets events).flatMap fun facet =>
    (facet.element.leafStrokes vertices channel).filter fun stroke => stroke.semantic = semantic

/-- Every painted leaf of a subdivided string is a stroke of a layer of its semantic. -/
def StrokesKept (events : List (MeshEvent F)) (mesh : MeshData F) : Prop :=
  ∀ channel semantic,
    (leavesOf events mesh.1.vertices channel semantic).Subperm (strokesOf mesh semantic)

/-- The slots for which it may be that no facet asks though there are strokes. -/
def Slot.mayGoUnasked (file : ModelFile) : Slot → Bool
  | fuzzy => false
  | color => file = .sub
  | supportEnforcer | supportBlocker | seamEnforcer | seamBlocker => true

/-- When strokes reach their layers. -/
structure StrokesReachLayers (file : ModelFile) (events : List (MeshEvent F)) : Prop where
  /-- In a sub-model a facet with painted leaves follows its vertices. -/
  vertices_first : file = .sub → ∀ facet ∈ facets events, ∀ channel,
    facet.element.leafStrokes (verticesOf events) channel ≠ [] →
      (facet.element.corners facet.vertices).isSome = true
  /-- Some facet has the majority state of the leaf, and for a colour of a sub-model no strokes
  of its own. -/
  asked : ∀ slot : Slot, slot.mayGoUnasked file = true →
    (∃ facet ∈ facets events, ∃ stroke ∈
      facet.element.leafStrokes (verticesOf events) slot.channel,
        stroke.semantic = slot.semantic) →
      ∃ facet ∈ facets events, slot.asks (facet.element.majority slot.channel) = true ∧
        (slot = .color → facet.element.leafStrokes facet.vertices .color = [])

variable {file : ModelFile} {events : List (MeshEvent F)}

theorem slotStrokes_eq (facet : Facet F) (slot : Slot) :
    facet.slotStrokes slot = (facet.element.leafStrokes facet.vertices slot.channel).filter
      fun stroke => stroke.semantic = slot.semantic := by
  rw [Facet.slotStrokes]
  apply List.filter_congr
  intro stroke hstroke
  have hslot := (TriangleElement.slot_of_mem_leafStrokes hstroke).2
  rw [decide_eq_decide, ← hslot]
  exact ⟨fun h => by rw [h], fun h => Slot.semantic_injective h⟩

/-- A facet asks with the state that is kept just when its majority state asks and is not
forgotten. -/
theorem asks_kept_iff (facet : Facet F) (slot : Slot) :
    slot.asks (facet.kept file slot.channel) = true ↔
      slot.asks (facet.element.majority slot.channel) = true ∧
        (file = .sub → slot = .color → facet.element.leafStrokes facet.vertices .color = []) := by
  have hnone : slot.asks none = false := by cases slot <;> rfl
  have hcolor : slot.channel = .color ↔ slot = .color := by
    cases slot <;> simp [Slot.channel]
  rw [Facet.kept, keptState]
  split_ifs with hforgotten
  · rw [hnone]
    refine iff_of_false Bool.false_ne_true fun hasks => hforgotten.2.2 ?_
    rw [hasks.2 hforgotten.1 (hcolor.mp hforgotten.2.1)]
    rfl
  · refine (and_iff_left ?_).symm
    intro hsub hslot
    by_contra hleaves
    exact hforgotten ⟨hsub, hcolor.mpr hslot, by simpa using hleaves⟩

variable {facet : Facet F} {mesh : MeshData F}

/-- The leaves of a facet whose vertices are there make its slot ask, if it always does. -/
theorem asks_of_leaf {slot : Slot} {vertices : List (Point3 F)} (hread : facet.IsRead file)
    (halways : slot.mayGoUnasked file = false)
    (hleaves : facet.element.leafStrokes vertices slot.channel ≠ []) :
    slot.asks (facet.kept file slot.channel) = true := by
  have hstate := (hread slot.channel).1
  rw [asks_kept_iff]
  cases hmajority : facet.element.majority slot.channel with
  | none =>
    rw [hmajority] at hstate
    exact absurd (TriangleElement.leafStrokes_eq_nil hstate) hleaves
  | some state =>
    rw [hmajority] at hstate
    obtain ⟨hpos, hmax⟩ := TriangleElement.readState_bounds hstate
    cases slot with
    | fuzzy =>
      have hone : state = 1 := le_antisymm hmax hpos
      subst hone
      exact ⟨rfl, fun _ hslot => by cases hslot⟩
    | color =>
      refine ⟨rfl, fun hsub _ => ?_⟩
      rw [hsub] at halways
      cases halways
    | supportEnforcer => cases halways
    | supportBlocker => cases halways
    | seamEnforcer => cases halways
    | seamBlocker => cases halways

theorem collectMesh_spec (h : collectMesh file events = .ok (some mesh)) :
    mesh.1.vertices = verticesOf events ∧ (∀ facet ∈ facets events, facet.IsRead file) ∧
      ∀ slot : Slot, strokesOf mesh slot.semantic =
        if ∃ facet ∈ facets events, slot.asks (facet.kept file slot.channel) = true then
          (facets events).flatMap fun facet => facet.slotStrokes slot
        else [] := by
  obtain ⟨mc, hread, hfinish⟩ := Except.of_bind_eq_ok h
  obtain ⟨hvertices, hcollected⟩ := readEvents_spec hread
  have hmesh : mesh.1.vertices = mc.vertices := by rw [(finish_spec hfinish).2.1]
  refine ⟨hmesh.trans hvertices, hcollected.isRead, fun slot => ?_⟩
  have hstates : mc.states slot.channel =
      (facets events).map fun facet => facet.kept file slot.channel :=
    hcollected.states slot.channel
  have hslot : mc.strokes slot = (facets events).flatMap fun facet => facet.slotStrokes slot :=
    hcollected.strokes slot
  have hasked : (mc.hasAnyPaint = true ∧ (mc.states slot.channel).any slot.asks = true) ↔
      ∃ facet ∈ facets events, slot.asks (facet.kept file slot.channel) = true := by
    rw [hstates, List.any_map, List.any_eq_true]
    refine and_iff_right_of_imp ?_
    rintro ⟨facet, hfacet, hasks⟩
    apply hcollected.hasAnyPaint facet hfacet slot.channel
    intro hnone
    have hmajority := ((asks_kept_iff facet slot).mp hasks).1
    rw [hnone] at hmajority
    cases slot <;> cases hmajority
  rw [strokesOf_finish hfinish slot, hslot]
  exact if_congr hasked rfl rfl

/-- The strokes of a slot that are read with a facet are among its leaves. -/
theorem slotStrokes_sublist (hfacet : facet ∈ facets events) (slot : Slot) :
    facet.slotStrokes slot <+
      (facet.element.leafStrokes (verticesOf events) slot.channel).filter
        fun stroke => stroke.semantic = slot.semantic := by
  rw [slotStrokes_eq]
  exact (TriangleElement.leafStrokes_sublist (prefix_of_mem_facets hfacet) _).filter _

theorem flatMap_slotStrokes {slot : Slot}
    (hcorners : ∀ facet ∈ facets events,
      facet.element.leafStrokes (verticesOf events) slot.channel ≠ [] →
        (facet.element.corners facet.vertices).isSome = true) :
    ((facets events).flatMap fun facet => facet.slotStrokes slot) =
      leavesOf events (verticesOf events) slot.channel slot.semantic := by
  refine List.flatMap_congr fun facet hfacet => ?_
  rw [slotStrokes_eq]
  by_cases hleaves : facet.element.leafStrokes (verticesOf events) slot.channel = []
  · have hless : facet.element.leafStrokes facet.vertices slot.channel <+
        facet.element.leafStrokes (verticesOf events) slot.channel :=
      TriangleElement.leafStrokes_sublist (prefix_of_mem_facets hfacet) slot.channel
    rw [hleaves] at hless ⊢
    rw [List.sublist_nil.mp hless]
  · rw [TriangleElement.leafStrokes_of_corners (prefix_of_mem_facets hfacet)
      (hcorners facet hfacet hleaves)]

theorem mem_leavesOf (hfacet : facet ∈ facets events) {channel : Channel}
    {vertices : List (Point3 F)} {stroke : PaintStroke F}
    (hstroke : stroke ∈ facet.element.leafStrokes vertices channel) :
    stroke ∈ leavesOf events vertices channel stroke.semantic :=
  List.mem_flatMap.mpr ⟨facet, hfacet, List.mem_filter.mpr ⟨hstroke, by simp⟩⟩

/-- If no leaf is lost, the strokes reach their layers. -/
theorem strokesReachLayers_of_kept (h : collectMesh file events = .ok (some mesh))
    (hkept : StrokesKept events mesh) : StrokesReachLayers file events := by
  obtain ⟨hvertices, -, hstrokes⟩ := collectMesh_spec h
  rw [StrokesKept, hvertices] at hkept
  refine ⟨fun hsub facet hfacet channel hleaves => ?_, fun slot hmay => ?_⟩
  · obtain ⟨stroke, hstroke⟩ := List.exists_mem_of_ne_nil _ hleaves
    obtain ⟨hchannel, hsemantic⟩ := TriangleElement.slot_of_mem_leafStrokes hstroke
    generalize channel.slot stroke = slot at hchannel hsemantic
    subst hchannel
    -- no stroke of the slot is missing, so none of this facet is
    have hlength : (leavesOf events (verticesOf events) slot.channel slot.semantic).length ≤
        ((facets events).flatMap fun facet => facet.slotStrokes slot).length := by
      refine (hkept slot.channel slot.semantic).length_le.trans ?_
      rw [hstrokes slot]
      split_ifs
      · exact le_rfl
      · exact Nat.zero_le _
    have hsame := List.eq_of_flatMap_length_le
      (fun facet hfacet => slotStrokes_sublist hfacet slot) hlength hfacet
    have hmem : stroke ∈ facet.slotStrokes slot := by
      rw [hsame]
      exact List.mem_filter.mpr ⟨hstroke, by simp [hsemantic]⟩
    obtain ⟨attr, triVerts, pairs, -, hcorners, -⟩ :=
      TriangleElement.exists_of_mem_leafStrokes (List.mem_of_mem_filter hmem)
    rw [hcorners]
    rfl
  · rintro ⟨facet, hfacet, stroke, hstroke, hsemantic⟩
    have hmem : stroke ∈ strokesOf mesh slot.semantic := by
      apply (hkept slot.channel slot.semantic).subset
      rw [← hsemantic]
      exact mem_leavesOf hfacet hstroke
    rw [hstrokes slot] at hmem
    split_ifs at hmem with hasked
    · obtain ⟨asking, hasking, hasks⟩ := hasked
      obtain ⟨hmajority, hcolor⟩ := (asks_kept_iff asking slot).mp hasks
      refine ⟨asking, hasking, hmajority, fun hslot => ?_⟩
      subst hslot
      exact hcolor (by simpa [Slot.mayGoUnasked] using hmay) rfl
    · cases hmem

/-- If the strokes reach their layers, no leaf is lost. -/
theorem strokesKept_of_reach (h : collectMesh file events = .ok (some mesh))
    (hreach : StrokesReachLayers file events) : StrokesKept events mesh := by
  obtain ⟨hvertices, hread, hstrokes⟩ := collectMesh_spec h
  rw [StrokesKept, hvertices]
  intro channel semantic
  by_cases hnone : leavesOf events (verticesOf events) channel semantic = []
  · rw [hnone]
    exact List.nil_subperm
  obtain ⟨stroke, hstroke⟩ := List.exists_mem_of_ne_nil _ hnone
  obtain ⟨facet, hfacet, hmem⟩ := List.mem_flatMap.mp hstroke
  obtain ⟨hleaf, hof⟩ := List.mem_filter.mp hmem
  obtain ⟨hchannel, hsemantic⟩ := TriangleElement.slot_of_mem_leafStrokes hleaf
  generalize channel.slot stroke = slot at hchannel hsemantic
  subst hchannel
  rw [← of_decide_eq_true hof, ← hsemantic, hstrokes slot]
  have hcorners : ∀ other ∈ facets events,
      other.element.leafStrokes (verticesOf events) slot.channel ≠ [] →
        (other.element.corners other.vertices).isSome = true := by
    intro other hother hleaves
    cases file with
    | main =>
      obtain ⟨hstate, strokes, hstrokes⟩ := hread other hother slot.channel
      exact TriangleElement.corners_isSome_of_main hstate hstrokes hleaves
    | sub => exact hreach.vertices_first rfl other hother slot.channel hleaves
  have hasks : ∃ facet ∈ facets events, slot.asks (facet.kept file slot.channel) = true := by
    cases hmay : slot.mayGoUnasked file with
    | false => exact ⟨facet, hfacet, asks_of_leaf (hread facet hfacet) hmay
        (List.ne_nil_of_mem hleaf)⟩
    | true =>
      obtain ⟨asking, hasking, hmajority, hcolor⟩ :=
        hreach.asked slot hmay ⟨facet, hfacet, stroke, hleaf, hsemantic.symm⟩
      exact ⟨asking, hasking, (asks_kept_iff asking slot).mpr
        ⟨hmajority, fun _ hslot => hcolor hslot⟩⟩
  rw [if_pos hasks, flatMap_slotStrokes hcorners]

/-- The painted leaves of a mesh are kept just when its strokes reach their layers. -/
theorem strokesKept_iff {mesh : MeshData F} (h : collectMesh file events = .ok (some mesh)) :
    StrokesKept events mesh ↔ StrokesReachLayers file events :=
  ⟨strokesReachLayers_of_kept h, strokesKept_of_reach h⟩

end Kept

/-- A facet split in four of which three parts have the state 1 and one the state 2. -/
def mixedFacet (channel : Channel) : List (MeshEvent ℚ) :=
  [.vertex { x := 1, y := 0, z := 0 }, .vertex { x := 0, y := 1, z := 0 },
    .vertex { x := 0, y := 0, z := 1 },
    .triangle { v1 := some 0, v2 := some 1, v3 := some 2,
                paint := fun c => if c = channel then some { hex := "84443" } else none }]

theorem not_strokesKept_of_collects {file : ModelFile} {events : List (MeshEvent ℚ)}
    (channel : Channel) (semantic : PaintSemantic)
    (h : (collectMesh file events).toOption.join.any (fun mesh =>
      (strokesOf mesh semantic).isEmpty &&
        !(leavesOf events mesh.1.vertices channel semantic).isEmpty) = true) :
    ∃ mesh, collectMesh file events = .ok (some mesh) ∧ ¬ StrokesKept events mesh := by
  obtain ⟨mesh, hmesh, hlost⟩ := (Option.any_eq_true _ _).mp h
  obtain ⟨hnone, hleaves⟩ := Bool.and_eq_true_iff.mp hlost
  refine ⟨mesh, Except.of_toOption_eq_some (Option.join_eq_some_iff.mp hmesh), fun hkept => ?_⟩
  have hsubperm := hkept channel semantic
  rw [List.isEmpty_iff.mp hnone, List.subperm_nil] at hsubperm
  rw [hsubperm] at hleaves
  cases hleaves

/-- No facet asks for the layer of the one part that is a support blocker. -/
theorem strokesKept_iff_mixedFacet : ¬ StrokesReachLayers .main (mixedFacet .supports) := by
  obtain ⟨mesh, hcollect, hlost⟩ : ∃ mesh,
      collectMesh .main (mixedFacet .supports) = .ok (some mesh) ∧
        ¬ StrokesKept (mixedFacet .supports) mesh :=
    not_strokesKept_of_collects .supports .SupportBlocker (by decide +kernel)
  exact fun hreach => hlost ((strokesKept_iff hcollect).mpr hreach)

/-- The part of a support blocker is lost, and in a sub-model every part of a colour. -/
theorem not_strokesKept_mixedFacet :
    (∃ mesh, collectMesh .main (mixedFacet .supports) = .ok (some mesh) ∧
        ¬ StrokesKept (mixedFacet .supports) mesh) ∧
      ∃ mesh, collectMesh .sub (mixedFacet .color) = .ok (some mesh) ∧
        ¬ StrokesKept (mixedFacet .color) mesh :=
  ⟨not_strokesKept_of_collects .supports .SupportBlocker (by decide +kernel),
    not_strokesKept_of_collects .color .Material (by decide +kernel)⟩

end PinchNPrint.Loader
