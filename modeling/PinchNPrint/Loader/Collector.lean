/-
The meshes of a 3MF file and their paint (`slicer-model-io`: `loader.rs`).

The parsers of the main model and of a sub-model collect the vertices and triangles of a mesh
in the order of the file. A triangle has up to four painted attributes, the channels; each has
a majority state, and strokes where its string is subdivided. At the end of the object the
states of a channel become layers, and the strokes go with the layer of their semantic.

The numbers of a triangle are read already, and an attribute occurs at most once. The order in
which the hash map of a decoding yields its entries comes with the attribute.
-/

import PinchNPrint.Loader.PaintTree

namespace PinchNPrint.Loader

open Layer (PaintValue)
open Region (IndexedTriangleSet PaintSemantic Point3)

/-! ### Paint -/

structure PaintStroke (F : Type) where
  triangles : List (Triangle F)
  semantic : PaintSemantic
  value : PaintValue F
deriving DecidableEq

/-- `PaintLayer`, with its strokes. -/
structure PaintLayer (F : Type) extends Region.PaintLayer F where
  strokes : List (PaintStroke F)
deriving DecidableEq

structure FacetPaintData (F : Type) where
  layers : List (PaintLayer F)
deriving DecidableEq

/-- A mesh and its paint, if it has any. -/
abbrev MeshData (F : Type) := IndexedTriangleSet F × Option (FacetPaintData F)

/-- The number of facets. -/
def facetCount {F : Type} (mesh : IndexedTriangleSet F) : Nat :=
  mesh.indices.length / 3

/-- The layers of a paint that may be missing. -/
def layersOf {F : Type} (paint : Option (FacetPaintData F)) : List (PaintLayer F) :=
  (paint.map FacetPaintData.layers).getD []

/-- The strokes of the layers of a semantic. -/
def strokesIn {F : Type} (layers : List (PaintLayer F)) (semantic : PaintSemantic) :
    List (PaintStroke F) :=
  (layers.filter fun layer => layer.semantic = semantic).flatMap fun layer => layer.strokes

/-- The strokes of a semantic. -/
def strokesOf {F : Type} (mesh : MeshData F) (semantic : PaintSemantic) : List (PaintStroke F) :=
  strokesIn (layersOf mesh.2) semantic

/-- A mesh as the parsers leave it: it has vertices, three corners a facet, and its layers have
one value a facet and semantics of their own. -/
structure WellFormed {F : Type} (mesh : MeshData F) : Prop where
  has_vertices : mesh.1.vertices ≠ []
  whole_facets : 3 ∣ mesh.1.indices.length
  aligned : ∀ layer ∈ layersOf mesh.2, layer.facetValues.length = facetCount mesh.1
  distinct : ((layersOf mesh.2).map fun layer => layer.semantic).Nodup

/-! ### Channels -/

/-- The painted attributes of a triangle. -/
inductive Channel where
  | fuzzySkin
  | supports
  | seam
  | color
deriving DecidableEq

namespace Channel

/-- The name of the attribute. -/
def attributeName : Channel → String
  | fuzzySkin => "paint_fuzzy_skin"
  | supports => "paint_supports"
  | seam => "paint_seam"
  | color => "paint_color"

/-- The last state that is valid. -/
def maxState : Channel → Nat
  | fuzzySkin => 1
  | supports => 2
  | seam => 2
  | color => 16

/-- How an error says which states are valid. -/
def validStates : Channel → String
  | fuzzySkin => "only state 1 is valid"
  | supports => "only states 1-2 are valid"
  | seam => "only states 1-2 are valid"
  | color => "only states 1-16 are valid"

/-- The semantic and the value of a leaf: `map_state`. -/
def mapState {F : Type} : Channel → Nat → Option (PaintSemantic × PaintValue F)
  | fuzzySkin, state => if state = 0 then none else some (.FuzzySkin, .Flag true)
  | supports, 1 => some (.SupportEnforcer, .Flag true)
  | supports, 2 => some (.SupportBlocker, .Flag true)
  | supports, _ => none
  | seam, 1 => some (.Custom "seam_enforcer", .Flag true)
  | seam, 2 => some (.Custom "seam_blocker", .Flag true)
  | seam, _ => none
  | color, state => if state = 0 then none else some (.Material, .ToolIndex (state - 1))

end Channel

/-- The lists in which the collector keeps its strokes, in the order of their layers. -/
inductive Slot where
  | fuzzy
  | supportEnforcer
  | supportBlocker
  | seamEnforcer
  | seamBlocker
  | color
deriving DecidableEq

namespace Slot

/-- Every slot. -/
def all : List Slot :=
  [fuzzy, supportEnforcer, supportBlocker, seamEnforcer, seamBlocker, color]

/-- The channel whose states ask for the layer. -/
def channel : Slot → Channel
  | fuzzy => .fuzzySkin
  | supportEnforcer | supportBlocker => .supports
  | seamEnforcer | seamBlocker => .seam
  | color => .color

/-- The semantic of the layer. -/
def semantic : Slot → PaintSemantic
  | fuzzy => .FuzzySkin
  | supportEnforcer => .SupportEnforcer
  | supportBlocker => .SupportBlocker
  | seamEnforcer => .Custom "seam_enforcer"
  | seamBlocker => .Custom "seam_blocker"
  | color => .Material

/-- The semantic, as an error shows it. -/
def debug : Slot → String
  | fuzzy => "FuzzySkin"
  | supportEnforcer => "SupportEnforcer"
  | supportBlocker => "SupportBlocker"
  | seamEnforcer => "Custom(\"seam_enforcer\")"
  | seamBlocker => "Custom(\"seam_blocker\")"
  | color => "Material"

/-- Does a facet with this state ask for the layer? -/
def asks : Slot → Option Nat → Bool
  | fuzzy, state | supportEnforcer, state | seamEnforcer, state => state = some 1
  | supportBlocker, state | seamBlocker, state => state = some 2
  | color, state => state.isSome

/-- The value of a facet in the layer. -/
def facetValue {F : Type} : Slot → Option Nat → Option (PaintValue F)
  | color, state => state.map fun v => .ToolIndex (v - 1)
  | slot, state => if slot.asks state then some (.Flag true) else none

end Slot

/-- The slot of a stroke. -/
def Channel.slot {F : Type} : Channel → PaintStroke F → Slot
  | fuzzySkin, _ => .fuzzy
  | supports, stroke =>
      if stroke.semantic = .SupportEnforcer then .supportEnforcer else .supportBlocker
  | seam, stroke =>
      if stroke.semantic = .Custom "seam_enforcer" then .seamEnforcer else .seamBlocker
  | color, _ => .color

/-! ### Triangles -/

/-- The order in which a hash map yields its entries. -/
structure HashOrder where
  order : List Nat → List Nat
  perm : ∀ l, (order l).Perm l

/-- The order of insertion. -/
def HashOrder.insertion : HashOrder where
  order := id
  perm := List.Perm.refl

/-- A painted attribute: its string, and the order of the hash map of its decoding. -/
structure PaintAttribute where
  hex : String
  hashOrder : HashOrder := .insertion

/-- Is the string subdivided? -/
def PaintAttribute.isSubdivided (attr : PaintAttribute) : Bool :=
  2 < attr.hex.utf8ByteSize

/-- A `triangle` element. -/
structure TriangleElement where
  v1 : Option Nat
  v2 : Option Nat
  v3 : Option Nat
  paint : Channel → Option PaintAttribute := fun _ => none
  byteOffset : Nat := 0

/-- The file of a mesh. -/
inductive ModelFile where
  | main
  | sub
deriving DecidableEq

def decodeStrokesForChannel {F : Type} [Field F] [DecidableEq F] (channel : Channel) (hex : String)
    (triVerts : Triangle F) (byteOffset : Nat) : Except LoadFailure (List (PaintStroke F)) :=
  (decodePaintHexStrokes hex triVerts byteOffset).map fun pairs =>
    pairs.filterMap fun (subVerts, subState) =>
      (channel.mapState subState).map fun (semantic, value) =>
        { triangles := [subVerts], semantic, value }

namespace TriangleElement

/-- The majority state of a channel, if it is painted. -/
def readState (element : TriangleElement) (channel : Channel) :
    Except ModelLoadError (Option Nat) :=
  match element.paint channel with
  | none => .ok none
  | some attr => do
      let state ← decodePaintHexState attr.hashOrder.order attr.hex element.byteOffset
      if channel.maxState < state then
        .error (.PaintMetadata
          s!"{channel.attributeName} state {state} is not supported ({channel.validStates})"
          element.byteOffset)
      else .ok (if 0 < state then some state else none)

/-- The majority states of the channels. -/
def readStates (element : TriangleElement) : Except ModelLoadError (Channel → Option Nat) := do
  let fuzzyState ← element.readState .fuzzySkin
  let supportState ← element.readState .supports
  let seamState ← element.readState .seam
  let colorState ← element.readState .color
  .ok fun
    | .fuzzySkin => fuzzyState
    | .supports => supportState
    | .seam => seamState
    | .color => colorState

/-- The vertices of the triangle, if they are all there; a missing index is the first. -/
def corners {F : Type} (element : TriangleElement) (vertices : List (Point3 F)) :
    Option (Triangle F) := do
  let v0 ← vertices[element.v1.getD 0]?
  let v1 ← vertices[element.v2.getD 0]?
  let v2 ← vertices[element.v3.getD 0]?
  some { v0, v1, v2 }

section Strokes

variable {F : Type} [Field F] [DecidableEq F]

/-- The strokes of a channel. The main parser indexes the vertices, that of a sub-model checks
first that they are there. -/
def readStrokes (element : TriangleElement) (file : ModelFile) (vertices : List (Point3 F))
    (state : Option Nat) (channel : Channel) : Except LoadFailure (List (PaintStroke F)) :=
  match element.paint channel with
  | none => .ok []
  | some attr =>
      if attr.isSubdivided ∧ state.any (· ≠ 0) then
        match file, element.corners vertices with
        | _, some triVerts => decodeStrokesForChannel channel attr.hex triVerts element.byteOffset
        | .main, none => .error .panic
        | .sub, none => .ok []
      else .ok []

/-- The strokes of the channels. -/
def readAllStrokes (element : TriangleElement) (file : ModelFile) (vertices : List (Point3 F))
    (states : Channel → Option Nat) : Except LoadFailure (Channel → List (PaintStroke F)) := do
  let colorStrokes ← element.readStrokes file vertices (states .color) .color
  let supportStrokes ← element.readStrokes file vertices (states .supports) .supports
  let seamStrokes ← element.readStrokes file vertices (states .seam) .seam
  let fuzzyStrokes ← element.readStrokes file vertices (states .fuzzySkin) .fuzzySkin
  .ok fun
    | .fuzzySkin => fuzzyStrokes
    | .supports => supportStrokes
    | .seam => seamStrokes
    | .color => colorStrokes

end Strokes

/-- An index that must be there. -/
def requireIndex (name : String) (index : Option Nat) : Except LoadFailure Nat :=
  match index with
  | some v => .ok v
  | none => .error (.error (.ThreeMfParse s!"triangle missing {name}"))

end TriangleElement

/-- The state of a channel that is kept: a sub-model forgets that of a colour with strokes. -/
def keptState {F : Type} (file : ModelFile) (states : Channel → Option Nat)
    (strokes : Channel → List (PaintStroke F)) (channel : Channel) : Option Nat :=
  if file = .sub ∧ channel = .color ∧ ¬ (strokes .color).isEmpty then none else states channel

/-! ### The collector -/

structure MeshCollector (F : Type) where
  vertices : List (Point3 F) := []
  indices : List Nat := []
  hasAnyPaint : Bool := false
  states : Channel → List (Option Nat) := fun _ => []
  strokes : Slot → List (PaintStroke F) := fun _ => []

/-- What the elements of a mesh give. -/
inductive MeshEvent (F : Type) where
  | vertex (p : Point3 F)
  | triangle (element : TriangleElement)

namespace MeshCollector

variable {F : Type}

/-- Does any channel have a state? -/
def isPainted (states : Channel → Option Nat) : Bool :=
  (states .fuzzySkin).isSome || (states .supports).isSome || (states .seam).isSome ||
    (states .color).isSome

/-- A facet is added. -/
def addFacet (mc : MeshCollector F) (file : ModelFile) (v1 v2 v3 : Nat)
    (states : Channel → Option Nat) (strokes : Channel → List (PaintStroke F)) :
    MeshCollector F where
  vertices := mc.vertices
  indices := mc.indices ++ [v1, v2, v3]
  hasAnyPaint := mc.hasAnyPaint || isPainted states
  states channel := mc.states channel ++ [keptState file states strokes channel]
  strokes slot := mc.strokes slot ++
    (strokes slot.channel).filter fun stroke => slot.channel.slot stroke = slot

variable [Field F] [DecidableEq F]

/-- A `triangle` element is read. -/
def readTriangle (file : ModelFile) (mc : MeshCollector F) (element : TriangleElement) :
    Except LoadFailure (MeshCollector F) := do
  let states ← element.readStates.mapError .error
  let strokes ← element.readAllStrokes file mc.vertices states
  let v1 ← TriangleElement.requireIndex "v1" element.v1
  let v2 ← TriangleElement.requireIndex "v2" element.v2
  let v3 ← TriangleElement.requireIndex "v3" element.v3
  .ok (mc.addFacet file v1 v2 v3 states strokes)

/-- An element of the mesh is read. -/
def readEvent (file : ModelFile) (mc : MeshCollector F) :
    MeshEvent F → Except LoadFailure (MeshCollector F)
  | .vertex p => .ok { mc with vertices := mc.vertices ++ [p] }
  | .triangle element => mc.readTriangle file element

omit [Field F] [DecidableEq F]

/-- The layer of a slot, if a facet asks for it. -/
def layer (mc : MeshCollector F) (slot : Slot) : Option (PaintLayer F) :=
  let states := mc.states slot.channel
  if states.any slot.asks then
    some { semantic := slot.semantic, facetValues := states.map slot.facetValue,
           strokes := mc.strokes slot }
  else none

/-- The text of the error of a layer with too few or too many values. -/
def lengthMismatch (slot : Slot) (layer : PaintLayer F) (facetCount : Nat) : String :=
  s!"paint layer {slot.debug} facet_values length {layer.facetValues.length} does not match " ++
    s!"triangle count {facetCount}"

/-- `MeshCollector::build_paint_data`. -/
def buildPaintData (mc : MeshCollector F) (facetCount : Nat) :
    Except ModelLoadError (FacetPaintData F) := do
  let layers := Slot.all.filterMap fun slot => (mc.layer slot).map fun layer => (slot, layer)
  layers.forM fun (slot, layer) =>
    if layer.facetValues.length ≠ facetCount then
      .error (.PaintMetadata (lengthMismatch slot layer facetCount) 0)
    else .ok ()
  .ok { layers := layers.map Prod.snd }

/-- The end of an object: a mesh without vertices is none. -/
def finish (mc : MeshCollector F) : Except LoadFailure (Option (MeshData F)) :=
  if mc.vertices.isEmpty then .ok none
  else
    let its : IndexedTriangleSet F := { vertices := mc.vertices, indices := mc.indices }
    if mc.hasAnyPaint then
      ((mc.buildPaintData (mc.indices.length / 3)).mapError .error).map fun paint =>
        some (its, some paint)
    else .ok (some (its, none))

end MeshCollector

/-- The mesh of an object, by the elements of its file: `parse_3mf_model_xml` and
`parse_sub_model_objects`. -/
def collectMesh {F : Type} [Field F] [DecidableEq F] (file : ModelFile)
    (events : List (MeshEvent F)) : Except LoadFailure (Option (MeshData F)) := do
  let mc ← events.foldlM (MeshCollector.readEvent file) {}
  mc.finish

/-! ### What the parsers leave -/

theorem Slot.semantic_injective : Function.Injective Slot.semantic := by
  intro slot slot' h
  cases slot <;> cases slot' <;> first | rfl | (revert h; decide)

section Finished

variable {F : Type} {mc : MeshCollector F} {mesh : MeshData F}

theorem semantic_of_layer {slot : Slot} {layer : PaintLayer F} (h : mc.layer slot = some layer) :
    layer.semantic = slot.semantic := by
  rw [MeshCollector.layer] at h
  split_ifs at h
  cases h
  rfl

theorem layers_of_buildPaintData {facetCount : Nat} {paint : FacetPaintData F}
    (h : mc.buildPaintData facetCount = .ok paint) :
    paint.layers = Slot.all.filterMap mc.layer := by
  obtain ⟨-, -, h⟩ := Except.of_bind_eq_ok h
  rw [← congrArg FacetPaintData.layers (Except.ok.inj h), List.map_filterMap]
  refine List.filterMap_congr fun slot _ => ?_
  cases mc.layer slot with
  | none => rfl
  | some layer => rfl

/-- The end of an object checks that every layer has a value for each facet. -/
theorem aligned_of_buildPaintData {facetCount : Nat} {paint : FacetPaintData F}
    (h : mc.buildPaintData facetCount = .ok paint) :
    ∀ layer ∈ paint.layers, layer.facetValues.length = facetCount := by
  obtain ⟨_, hchecked, h⟩ := Except.of_bind_eq_ok h
  rw [← congrArg FacetPaintData.layers (Except.ok.inj h)]
  intro layer hlayer
  obtain ⟨⟨slot, layer⟩, hentry, rfl⟩ := List.mem_map.mp hlayer
  have hlength := Except.of_forM_eq_ok hchecked hentry
  simp only at hlength
  split_ifs at hlength with hdiffers
  exact not_not.mp hdiffers

theorem nodup_semantics (mc : MeshCollector F) :
    ((Slot.all.filterMap mc.layer).map fun layer => layer.semantic).Nodup := by
  rw [List.map_filterMap]
  refine List.Nodup.filterMap (fun slot slot' semantic h h' => ?_) (by decide)
  obtain ⟨layer, hlayer, rfl⟩ := Option.map_eq_some_iff.mp h
  obtain ⟨layer', hlayer', hsame⟩ := Option.map_eq_some_iff.mp h'
  rw [semantic_of_layer hlayer, semantic_of_layer hlayer'] at hsame
  exact Slot.semantic_injective hsame.symm

/-- The mesh of an object is that of its collector, with the layers that are asked for, and these
have a value for each facet. -/
theorem finish_spec (h : mc.finish = .ok (some mesh)) :
    mc.vertices ≠ [] ∧ mesh.1 = { vertices := mc.vertices, indices := mc.indices } ∧
      layersOf mesh.2 = (if mc.hasAnyPaint then Slot.all.filterMap mc.layer else []) ∧
      ∀ layer ∈ layersOf mesh.2, layer.facetValues.length = facetCount mesh.1 := by
  rw [MeshCollector.finish] at h
  split_ifs at h with hempty hpaint
  · cases h
  · cases hbuild : mc.buildPaintData (mc.indices.length / 3) with
    | error e =>
      rw [hbuild] at h
      cases h
    | ok paint =>
      rw [hbuild] at h
      cases h
      refine ⟨by simpa using hempty, rfl, ?_, aligned_of_buildPaintData hbuild⟩
      rw [if_pos hpaint]
      exact layers_of_buildPaintData hbuild
  · cases h
    refine ⟨by simpa using hempty, rfl, ?_, fun _ hlayer => absurd hlayer List.not_mem_nil⟩
    rw [if_neg hpaint]
    rfl

theorem finish_wellFormed (h : mc.finish = .ok (some mesh)) (hwhole : 3 ∣ mc.indices.length) :
    WellFormed mesh := by
  obtain ⟨hvertices, hmesh, hlayers, haligned⟩ := finish_spec h
  refine ⟨by rw [hmesh]; exact hvertices, by rw [hmesh]; exact hwhole, haligned, ?_⟩
  rw [hlayers]
  split_ifs
  · exact nodup_semantics mc
  · exact List.nodup_nil

variable [Field F] [DecidableEq F] {file : ModelFile}

/-- An element adds a whole facet or none. -/
theorem dvd_indices_of_readEvent {event : MeshEvent F} {mc' : MeshCollector F}
    (h : mc.readEvent file event = .ok mc') (hwhole : 3 ∣ mc.indices.length) :
    3 ∣ mc'.indices.length := by
  cases event with
  | vertex p =>
    cases h
    exact hwhole
  | triangle element =>
    obtain ⟨states, -, h⟩ := Except.of_bind_eq_ok h
    obtain ⟨strokes, -, h⟩ := Except.of_bind_eq_ok h
    obtain ⟨v1, -, h⟩ := Except.of_bind_eq_ok h
    obtain ⟨v2, -, h⟩ := Except.of_bind_eq_ok h
    obtain ⟨v3, -, h⟩ := Except.of_bind_eq_ok h
    cases h
    rw [MeshCollector.addFacet, List.length_append]
    exact hwhole.add (Nat.dvd_refl 3)

/-- The parsers leave well-formed meshes. -/
theorem collectMesh_wellFormed {events : List (MeshEvent F)}
    (h : collectMesh file events = .ok (some mesh)) : WellFormed mesh := by
  obtain ⟨mc, hread, hfinish⟩ := Except.of_bind_eq_ok h
  exact finish_wellFormed hfinish (Except.foldlM_invariant (P := fun mc => 3 ∣ mc.indices.length)
    (fun _ _ _ _ hwhole hstep => dvd_indices_of_readEvent hstep hwhole) (Nat.dvd_zero 3) hread)

end Finished

end PinchNPrint.Loader
