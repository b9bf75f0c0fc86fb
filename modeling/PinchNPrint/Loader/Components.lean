/-
The component trees of a 3MF file (`slicer-model-io`: `loader.rs`).

An object has a mesh or components, which are objects again. Resolving an object gives one
mesh: that of a mesh object is moved, those of normal parts are merged in order, and the other
parts become modifier volumes. Where a component lacks the paint of a semantic, or another has
it first, the values are padded.

The recursion is bounded by fuel. The lists of a hash map are looked up by their keys.
-/

import PinchNPrint.Loader.Collector
import PinchNPrint.Loader.Transforms

namespace PinchNPrint.Loader

open Config (ConfigKey ConfigValue)
open Region (IndexedTriangleSet ModifierKind ModifierVolume PaintSemantic Point3)

/-! ### The sidecar -/

inductive PartSubtype where
  | NormalPart
  | ModifierPart
  | NegativePart
  | SupportEnforcer
  | SupportBlocker
deriving DecidableEq

structure PartSidecarInfo where
  subtype : PartSubtype
  metadata : List (String × String) := []
deriving DecidableEq

/-- `ParsedSidecar`: what is known of a part of an object. -/
abbrev ParsedSidecar := Nat → Nat → Option PartSidecarInfo

/-- The subtype of a part; one that is not mentioned is normal. -/
def subtypeOf (sidecar : ParsedSidecar) (objectId partId : Nat) : PartSubtype :=
  ((sidecar objectId partId).map PartSidecarInfo.subtype).getD .NormalPart

/-! ### Modifier volumes -/

section Modifiers

variable {F : Type}

def rebasedExtruder (value : String) : Option (ConfigValue F) :=
  (Text.parseI64 value).map fun parsed => .int (if 1 ≤ parsed then parsed - 1 else 0)

def authoredBool (value : String) : Option (ConfigValue F) :=
  if value = "1" ∨ Text.eqIgnoreAsciiCase value "true" then some (.bool true)
  else if value = "0" ∨ Text.eqIgnoreAsciiCase value "false" then some (.bool false)
  else none

/-- What an entry of a part's metadata says of its configuration. -/
def configField (entry : String × String) : Option (ConfigKey × ConfigValue F) :=
  if entry.1 = "subtype" then none
  else if entry.1 = "extruder" then (rebasedExtruder entry.2).map (entry.1, ·)
  else if entry.1 = "enable_support" then (authoredBool entry.2).map (entry.1, ·)
  else some (entry.1, .string entry.2)

/-- How a part that is not normal modifies: its name, its priority and its kind. -/
def PartSubtype.modifier : PartSubtype → Option (String × Nat × ModifierKind)
  | NormalPart => none
  | ModifierPart => some ("modifier_part", 0, .ParameterModifier)
  | NegativePart => some ("negative_part", 100, .NegativePart)
  | SupportEnforcer => some ("support_enforcer", 200, .SupportEnforcer)
  | SupportBlocker => some ("support_blocker", 300, .SupportBlocker)

/-- The modifier volume of a part. -/
def modifierVolume (objectId partId : Nat) (part : Option PartSidecarInfo)
    (modifier : String × Nat × ModifierKind) (mesh : IndexedTriangleSet F) : ModifierVolume F where
  id := s!"{objectId}-{partId}-{modifier.1}"
  mesh := mesh
  configDelta := .ofList (((part.map PartSidecarInfo.metadata).getD []).filterMap configField)
  priority := modifier.2.1
  kind := modifier.2.2

end Modifiers

/-! ### Objects -/

section Objects

variable {F : Type} [Field F]

structure ParsedComponent (F : Type) [Field F] where
  objectid : Nat
  transform : Option (Transform F) := none

/-- A mesh of the file, as a parser has left it (`parseMesh`). -/
structure ParsedMesh (F : Type) where
  data : MeshData F
  wellFormed : WellFormed data

/-- `collectMesh`, with what is known of the mesh. -/
def parseMesh [DecidableEq F] (file : ModelFile) (events : List (MeshEvent F)) :
    Except LoadFailure (Option (ParsedMesh F)) :=
  match h : collectMesh file events with
  | .error e => .error e
  | .ok none => .ok none
  | .ok (some data) => .ok (some { data, wellFormed := collectMesh_wellFormed h })

/-- What is parsed is what is collected. -/
theorem parseMesh_data [DecidableEq F] (file : ModelFile) (events : List (MeshEvent F)) :
    (parseMesh file events).map (Option.map ParsedMesh.data) = collectMesh file events := by
  rw [parseMesh]
  split <;> next h => exact h.symm

structure Parsed3mfObject (F : Type) [Field F] where
  mesh : Option (ParsedMesh F) := none
  components : List (ParsedComponent F) := []
  transform : Option (Transform F) := none

/-- The objects of a file, by their ids. -/
abbrev ObjectTable (F : Type) [Field F] := List (Nat × Parsed3mfObject F)

/-- A transform, followed by one that may be missing. -/
def Transform.composeOpt (a : Transform F) (b : Option (Transform F)) : Transform F :=
  match b with
  | some t => a.compose t
  | none => a

/-! ### Moving -/

variable [DecidableEq F]

def applyTransformToMesh (mesh : IndexedTriangleSet F) (t : Transform F) : IndexedTriangleSet F :=
  { mesh with vertices := mesh.vertices.map fun v => applyTransformToVertex v t.matrix }

/-- A triangle whose vertices are moved. -/
def Triangle.move (place : Point3 F → Point3 F) (tri : Triangle F) : Triangle F where
  v0 := place tri.v0
  v1 := place tri.v1
  v2 := place tri.v2

/-- A stroke whose triangles are moved, less those that degenerate. -/
def PaintStroke.move (place : Point3 F → Point3 F) (stroke : PaintStroke F) : PaintStroke F :=
  { stroke with
    triangles := (stroke.triangles.map (Triangle.move place)).filter fun tri =>
      !isDegenerateTriangle tri }

/-- The strokes that are moved, less those that have no triangles. -/
def moveStrokes (place : Point3 F → Point3 F) (strokes : List (PaintStroke F)) :
    List (PaintStroke F) :=
  (strokes.map (PaintStroke.move place)).filter fun stroke => !stroke.triangles.isEmpty

def applyTransformToPaintData (paint : FacetPaintData F) (t : Transform F) : FacetPaintData F where
  layers := paint.layers.map fun layer =>
    { layer with strokes := moveStrokes (fun v => applyTransformToVertex v t.matrix) layer.strokes }

/-! ### Merging -/

/-- What an object resolves to. -/
structure Resolved (F : Type) where
  mesh : IndexedTriangleSet F
  paint : Option (FacetPaintData F) := none
  modifiers : List (ModifierVolume F) := []

/-- What is merged of the components of an object. -/
structure Merged (F : Type) where
  mesh : IndexedTriangleSet F := { vertices := [], indices := [] }
  paint : Option (FacetPaintData F) := none
  accumulatedFacetCount : Nat := 0
  modifiers : List (ModifierVolume F) := []

namespace Merged

omit [Field F] [DecidableEq F]

/-- A layer that is there already, with the values of a component. -/
def extendLayer (compLayers : List (PaintLayer F)) (compFacetCount : Nat) (layer : PaintLayer F) :
    PaintLayer F :=
  match compLayers.find? fun compLayer => compLayer.semantic = layer.semantic with
  | some compLayer =>
      { layer with
        facetValues := layer.facetValues ++ compLayer.facetValues
        strokes := layer.strokes ++ compLayer.strokes }
  | none =>
      { layer with facetValues := layer.facetValues ++ List.replicate compFacetCount none }

/-- A layer that a component has first, if none has its semantic. -/
def addLayer (accumulated : Nat) (layers : List (PaintLayer F)) (compLayer : PaintLayer F) :
    List (PaintLayer F) :=
  if layers.any fun layer => layer.semantic = compLayer.semantic then layers
  else
    layers ++ [{ compLayer with
      facetValues := List.replicate accumulated none ++ compLayer.facetValues }]

/-- The paint of the components so far, with that of another. -/
def mergePaint (accumulated compFacetCount : Nat) (merged compPaint : Option (FacetPaintData F)) :
    Option (FacetPaintData F) :=
  let merged := if merged.isNone ∧ compPaint.isSome then some { layers := [] } else merged
  merged.map fun paint =>
    { layers := (layersOf compPaint).foldl (addLayer accumulated)
        (paint.layers.map (extendLayer (layersOf compPaint) compFacetCount)) }

/-- A normal part is merged. -/
def mergeNormal (merged : Merged F) (child : Resolved F) : Merged F where
  mesh :=
    { vertices := merged.mesh.vertices ++ child.mesh.vertices
      indices := merged.mesh.indices ++
        child.mesh.indices.map fun i => i + merged.mesh.vertices.length }
  paint := mergePaint merged.accumulatedFacetCount (facetCount child.mesh) merged.paint child.paint
  accumulatedFacetCount := merged.accumulatedFacetCount + facetCount child.mesh
  modifiers := merged.modifiers ++ child.modifiers

/-- A component is merged, or becomes a modifier volume. -/
def addComponent (sidecar : ParsedSidecar) (objectId partId : Nat) (merged : Merged F)
    (child : Resolved F) : Merged F :=
  match (subtypeOf sidecar objectId partId).modifier with
  | some modifier =>
      { merged with
        modifiers := merged.modifiers ++ child.modifiers ++
          [modifierVolume objectId partId (sidecar objectId partId) modifier child.mesh] }
  | none => merged.mergeNormal child

/-- The end of the components: there must be some geometry, if only of modifiers. -/
def finish (merged : Merged F) : Except ModelLoadError (Resolved F) :=
  if merged.mesh.vertices.isEmpty ∧ merged.modifiers.isEmpty then
    .error (.ThreeMfParse "no geometry in 3MF component chain")
  else if merged.mesh.vertices.isEmpty then
    .ok { mesh := { vertices := [], indices := [] }, modifiers := merged.modifiers }
  else .ok { mesh := merged.mesh, paint := merged.paint, modifiers := merged.modifiers }

end Merged

/-! ### Resolving -/

/-- How an object may not be resolved. -/
inductive ResolveFailure where
  | error (e : ModelLoadError)
  | outOfFuel
deriving DecidableEq

def resolveObject (objects : ObjectTable F) (sidecar : ParsedSidecar) :
    Nat → Nat → Transform F → List Nat → Except ResolveFailure (Resolved F)
  | 0, _, _, _ => .error .outOfFuel
  | fuel + 1, objectId, incoming, visited =>
      if objectId ∈ visited then
        .error (.error (.ThreeMfParse
          s!"3MF circular component reference detected for object {objectId}"))
      else
        match objects.lookup objectId with
        | none =>
            .error (.error (.ThreeMfParse s!"3MF references undefined object id {objectId}"))
        | some obj =>
            let effective := incoming.composeOpt obj.transform
            match obj.mesh with
            | some mesh =>
                .ok { mesh := applyTransformToMesh mesh.data.1 effective
                      paint := mesh.data.2.map fun paint =>
                        applyTransformToPaintData paint effective }
            | none =>
                if obj.components.isEmpty then
                  .error (.error (.ThreeMfParse
                    s!"3MF object {objectId} has neither mesh nor components"))
                else do
                  let merged ← obj.components.foldlM (fun (merged : Merged F) comp => do
                    let child ← resolveObject objects sidecar fuel comp.objectid
                      (effective.composeOpt comp.transform) (visited ++ [objectId])
                    .ok (merged.addComponent sidecar objectId comp.objectid child)) {}
                  merged.finish.mapError .error

/-- An object, with fuel for as many levels as there are objects. -/
def resolve (objects : ObjectTable F) (sidecar : ParsedSidecar) (objectId : Nat)
    (incoming : Transform F) : Except ResolveFailure (Resolved F) :=
  resolveObject objects sidecar (objects.length + 1) objectId incoming []

end Objects

end PinchNPrint.Loader
