/-
Flattening keeps geometry and paint together.

`Leaves` are the mesh objects below the normal parts, in order, each with the composition of
the transforms on its path. A mesh is `Flattened` from leaves when its vertices, corners,
values and strokes are theirs, one leaf after the other. A leaf that is moved is flattened from
itself, and merging puts leaves one after the other.
-/

import PinchNPrint.Loader.PaintLayers

namespace PinchNPrint.Loader

open Layer (PaintValue)
open Region (IndexedTriangleSet PaintSemantic Point3)

variable {F : Type} [Field F] [DecidableEq F]

/-! ### The leaves of a component tree -/

/-- A mesh of the file, and where it is placed. -/
structure Leaf (F : Type) where
  mesh : ParsedMesh F
  place : Point3 F → Point3 F

/-- An object, and where it is placed. -/
structure Part (F : Type) where
  id : Nat
  place : Point3 F → Point3 F

/-- How a transform that may be missing moves a point. -/
def ownPlace (t : Option (Transform F)) : Point3 F → Point3 F :=
  match t with
  | some t => t.rowMap
  | none => id

/-- The normal parts of an object that is placed. -/
def normalParts (sidecar : ParsedSidecar) (part : Part F) (obj : Parsed3mfObject F) :
    List (Part F) :=
  (obj.components.filter fun comp => subtypeOf sidecar part.id comp.objectid = .NormalPart).map
    fun comp =>
      { id := comp.objectid,
        place := part.place ∘ ownPlace obj.transform ∘ ownPlace comp.transform }

/-- The leaves of some parts, in order. -/
inductive Leaves (objects : ObjectTable F) (sidecar : ParsedSidecar) :
    List (Part F) → List (Leaf F) → Prop
  | nil : Leaves objects sidecar [] []
  | mesh {part : Part F} {rest : List (Part F)} {leaves : List (Leaf F)}
      {obj : Parsed3mfObject F} {mesh : ParsedMesh F}
      (hobj : objects.lookup part.id = some obj) (hmesh : obj.mesh = some mesh)
      (hrest : Leaves objects sidecar rest leaves) :
      Leaves objects sidecar (part :: rest)
        ({ mesh, place := part.place ∘ ownPlace obj.transform } :: leaves)
  | components {part : Part F} {rest : List (Part F)} {inner leaves : List (Leaf F)}
      {obj : Parsed3mfObject F} (hobj : objects.lookup part.id = some obj)
      (hmesh : obj.mesh = none)
      (hinner : Leaves objects sidecar (normalParts sidecar part obj) inner)
      (hrest : Leaves objects sidecar rest leaves) :
      Leaves objects sidecar (part :: rest) (inner ++ leaves)

/-! ### Flattened meshes -/

/-- The corners of the facets, three of each. -/
def corners (mesh : IndexedTriangleSet F) : List (Option (Point3 F)) :=
  mesh.indices.map fun i => mesh.vertices[i]?

/-- A corner that is a vertex is that point. -/
def SameCorner (source corner : Option (Point3 F)) : Prop :=
  ∀ p, source = some p → corner = some p

/-- The values of a semantic, facet by facet. -/
def valuesOf (mesh : MeshData F) (semantic : PaintSemantic) : List (Option (PaintValue F)) :=
  valuesIn (layersOf mesh.2) (facetCount mesh.1) semantic

namespace Leaf

/-- The vertices, where they are placed. -/
def vertices (leaf : Leaf F) : List (Point3 F) :=
  leaf.mesh.data.1.vertices.map leaf.place

/-- The corners, where they are placed. -/
def corners (leaf : Leaf F) : List (Option (Point3 F)) :=
  (Loader.corners leaf.mesh.data.1).map (Option.map leaf.place)

/-- The values of a semantic. -/
def values (leaf : Leaf F) (semantic : PaintSemantic) : List (Option (PaintValue F)) :=
  valuesOf leaf.mesh.data semantic

/-- The strokes of a semantic, where they are placed. -/
def strokes (leaf : Leaf F) (semantic : PaintSemantic) : List (PaintStroke F) :=
  moveStrokes leaf.place (strokesOf leaf.mesh.data semantic)

end Leaf

/-- A mesh has what its leaves have, in order. -/
structure Flattened (mesh : MeshData F) (leaves : List (Leaf F)) : Prop where
  vertices : mesh.1.vertices = leaves.flatMap Leaf.vertices
  facets : mesh.1.indices.length = 3 * (leaves.map fun leaf => facetCount leaf.mesh.data.1).sum
  corners : List.Forall₂ SameCorner (leaves.flatMap Leaf.corners) (corners mesh.1)
  paint : PaintsFacets (layersOf mesh.2) (facetCount mesh.1)
  values : ∀ semantic, valuesOf mesh semantic = leaves.flatMap fun leaf => leaf.values semantic
  strokes : ∀ semantic, strokesOf mesh semantic = leaves.flatMap fun leaf => leaf.strokes semantic

/-! ### A leaf that is moved -/

omit [Field F] in
theorem moveStrokes_flatMap {α : Type} (place : Point3 F → Point3 F)
    (f : α → List (PaintStroke F)) (l : List α) :
    moveStrokes place (l.flatMap f) = l.flatMap fun a => moveStrokes place (f a) := by
  rw [moveStrokes, List.map_flatMap, List.filter_flatMap]
  rfl

theorem applyTransform_eq (t : Transform F) :
    (fun v => applyTransformToVertex v t.matrix) = t.rowMap :=
  funext t.applyTransformToVertex_eq

theorem layersOf_applyTransform (paint : Option (FacetPaintData F)) (t : Transform F) :
    layersOf (paint.map fun paint => applyTransformToPaintData paint t) =
      (layersOf paint).map fun layer =>
        { layer with strokes := moveStrokes t.rowMap layer.strokes } := by
  rw [← applyTransform_eq]
  cases paint with
  | none => rfl
  | some paint => rfl

/-- A mesh that is moved is flattened from itself. -/
theorem flattened_leaf (mesh : ParsedMesh F) (t : Transform F) :
    Flattened (applyTransformToMesh mesh.data.1 t,
        mesh.data.2.map fun paint => applyTransformToPaintData paint t)
      [{ mesh, place := t.rowMap }] := by
  have hsemantic : ∀ layer : PaintLayer F, ({ layer with
      strokes := moveStrokes t.rowMap layer.strokes } : PaintLayer F).semantic = layer.semantic :=
    fun _ => rfl
  have hlayers := layersOf_applyTransform mesh.data.2 t
  constructor
  · rw [List.flatMap_singleton, Leaf.vertices, ← applyTransform_eq]
    rfl
  · rw [List.map_singleton, List.sum_singleton, facetCount,
      Nat.mul_div_cancel' mesh.wellFormed.whole_facets]
    rfl
  · rw [List.flatMap_singleton, Leaf.corners, corners, corners, applyTransformToMesh,
      applyTransform_eq, List.map_map]
    refine List.forall₂_iff_get.mpr ⟨by simp, fun i _ _ p hp => ?_⟩
    simpa using hp
  · rw [hlayers]
    constructor
    · intro layer hlayer
      obtain ⟨before, hbefore, rfl⟩ := List.mem_map.mp hlayer
      exact mesh.wellFormed.aligned before hbefore
    · rw [map_semantic hsemantic]
      exact mesh.wellFormed.distinct
  · intro semantic
    rw [List.flatMap_singleton, Leaf.values, valuesOf, valuesOf, hlayers, valuesIn,
      layerOf_map hsemantic, valuesIn]
    cases layerOf (layersOf mesh.data.2) semantic with
    | none => rfl
    | some layer => rfl
  · intro semantic
    rw [List.flatMap_singleton, Leaf.strokes, strokesOf, strokesOf, hlayers, strokesIn, strokesIn,
      moveStrokes_flatMap, List.filter_map, List.flatMap_map]
    rfl

/-! ### Merging -/

omit [Field F] in
/-- Nothing is flattened from no leaves. -/
theorem flattened_nil : Flattened ({ vertices := [], indices := [] }, none) ([] : List (Leaf F)) where
  vertices := rfl
  facets := rfl
  corners := .nil
  paint := ⟨fun _ hlayer => absurd hlayer List.not_mem_nil, List.nodup_nil⟩
  values := fun _ => by simp [valuesOf, valuesIn, layerOf, layersOf, facetCount]
  strokes := fun _ => rfl

omit [Field F] [DecidableEq F] in
/-- The corners of a mesh whose vertices follow others. -/
theorem sameCorners_append {source corners' : List (Option (Point3 F))}
    (mesh child : IndexedTriangleSet F) (hmesh : List.Forall₂ SameCorner source (corners mesh))
    (hchild : List.Forall₂ SameCorner corners' (corners child)) :
    List.Forall₂ SameCorner (source ++ corners')
      (corners
        { vertices := mesh.vertices ++ child.vertices
          indices := mesh.indices ++ child.indices.map fun i => i + mesh.vertices.length }) := by
  rw [corners, List.map_append, List.map_map]
  refine List.rel_append ?_ ?_
  · rw [corners, List.forall₂_map_right_iff] at hmesh
    rw [List.forall₂_map_right_iff]
    refine hmesh.imp fun corner i hsame p hp => ?_
    have hi := hsame p hp
    rw [List.getElem?_append_left (List.getElem?_eq_some_iff.mp hi).1, hi]
  · rw [corners, List.forall₂_map_right_iff] at hchild
    rw [List.forall₂_map_right_iff]
    refine hchild.imp fun corner i hsame p hp => ?_
    rw [Function.comp_apply, List.getElem?_append_right (Nat.le_add_left _ _),
      Nat.add_sub_cancel]
    exact hsame p hp

omit [Field F] in
theorem Flattened.facetCount_eq {mesh : MeshData F} {leaves : List (Leaf F)}
    (h : Flattened mesh leaves) :
    facetCount mesh.1 = (leaves.map fun leaf => facetCount leaf.mesh.data.1).sum := by
  rw [facetCount, h.facets, Nat.mul_div_cancel_left _ (by omega)]

omit [Field F] in
/-- Merging puts the leaves of a component after those before. -/
theorem Flattened.merge {merged : Merged F} {child : Resolved F} {leaves leaves' : List (Leaf F)}
    (h : Flattened (merged.mesh, merged.paint) leaves)
    (hcount : merged.accumulatedFacetCount = facetCount merged.mesh)
    (hchild : Flattened (child.mesh, child.paint) leaves') :
    Flattened ((merged.mergeNormal child).mesh, (merged.mergeNormal child).paint)
        (leaves ++ leaves') ∧
      (merged.mergeNormal child).accumulatedFacetCount =
        facetCount (merged.mergeNormal child).mesh := by
  have hlength : (merged.mergeNormal child).mesh.indices.length =
      merged.mesh.indices.length + child.mesh.indices.length := by
    simp [Merged.mergeNormal]
  have hfacets : facetCount (merged.mergeNormal child).mesh =
      facetCount merged.mesh + facetCount child.mesh := by
    rw [facetCount, hlength, h.facets, hchild.facets, ← Nat.mul_add,
      Nat.mul_div_cancel_left _ (by omega), h.facetCount_eq, hchild.facetCount_eq]
  have hlayers : layersOf (merged.mergeNormal child).paint =
      mergeLayers (facetCount merged.mesh) (facetCount child.mesh) (layersOf merged.paint)
        (layersOf child.paint) := by
    rw [← hcount]
    exact layersOf_mergePaint _ _ _ _
  refine ⟨⟨?_, ?_, ?_, ?_, fun semantic => ?_, fun semantic => ?_⟩, ?_⟩
  · rw [List.flatMap_append, ← h.vertices, ← hchild.vertices]
    rfl
  · rw [List.map_append, List.sum_append, Nat.mul_add, ← h.facets, ← hchild.facets]
    exact hlength
  · rw [List.flatMap_append]
    exact sameCorners_append merged.mesh child.mesh h.corners hchild.corners
  · rw [hlayers, hfacets]
    exact h.paint.merge hchild.paint
  · rw [valuesOf, hlayers, hfacets, valuesIn_mergeLayers _ _ hchild.paint.distinct,
      List.flatMap_append, ← h.values semantic, ← hchild.values semantic]
    rfl
  · rw [strokesOf, hlayers, strokesIn_mergeLayers h.paint hchild.paint, List.flatMap_append,
      ← h.strokes semantic, ← hchild.strokes semantic]
    rfl
  · rw [hfacets, ← hcount]
    rfl

/-! ### Resolving -/

section Resolving

variable {objects : ObjectTable F} {sidecar : ParsedSidecar}

variable {leaves leaves' : List (Leaf F)} {merged : Merged F}

section

omit [DecidableEq F]

theorem Leaves.append {parts parts' : List (Part F)} (h : Leaves objects sidecar parts leaves)
    (h' : Leaves objects sidecar parts' leaves') :
    Leaves objects sidecar (parts ++ parts') (leaves ++ leaves') := by
  induction h with
  | nil => exact h'
  | mesh hobj hmesh _ ih => exact .mesh hobj hmesh ih
  | components hobj hmesh hinner _ _ ih =>
    rw [List.append_assoc]
    exact .components hobj hmesh hinner ih

/-- The leaves are determined. -/
theorem Leaves.unique {parts : List (Part F)} (h : Leaves objects sidecar parts leaves)
    (h' : Leaves objects sidecar parts leaves') : leaves = leaves' := by
  induction h generalizing leaves' with
  | nil =>
    cases h'
    rfl
  | mesh hobj hmesh _ ih =>
    cases h' with
    | mesh hobj' hmesh' hrest' =>
      cases hobj.symm.trans hobj'
      cases hmesh.symm.trans hmesh'
      rw [ih hrest']
    | components hobj' hmesh' _ _ =>
      cases hobj.symm.trans hobj'
      cases hmesh.symm.trans hmesh'
  | components hobj hmesh _ _ ihinner ih =>
    cases h' with
    | mesh hobj' hmesh' _ =>
      cases hobj.symm.trans hobj'
      cases hmesh.symm.trans hmesh'
    | components hobj' _ hinner' hrest' =>
      cases hobj.symm.trans hobj'
      rw [ihinner hinner', ih hrest']

theorem rowMap_composeOpt (a : Transform F) (b : Option (Transform F)) :
    (a.composeOpt b).rowMap = a.rowMap ∘ ownPlace b := by
  cases b with
  | none => rfl
  | some t => exact a.rowMap_compose t

end

omit [Field F] [DecidableEq F] in
theorem modifier_eq_none_iff {subtype : PartSubtype} :
    subtype.modifier = none ↔ subtype = .NormalPart := by
  cases subtype <;> simp [PartSubtype.modifier]

/-- What is merged so far is flattened from these leaves. -/
structure MergedFrom (merged : Merged F) (leaves : List (Leaf F)) : Prop where
  flattened : Flattened (merged.mesh, merged.paint) leaves
  count : merged.accumulatedFacetCount = facetCount merged.mesh

section

omit [Field F]

theorem mergedFrom_nil : MergedFrom ({} : Merged F) ([] : List (Leaf F)) :=
  ⟨flattened_nil, by simp [facetCount]⟩

theorem MergedFrom.addComponent {child : Resolved F} (h : MergedFrom merged leaves)
    (hchild : Flattened (child.mesh, child.paint) leaves') (objectId partId : Nat) :
    MergedFrom (merged.addComponent sidecar objectId partId child)
      (if subtypeOf sidecar objectId partId = .NormalPart then leaves ++ leaves' else leaves) := by
  rw [Merged.addComponent]
  cases hmodifier : (subtypeOf sidecar objectId partId).modifier with
  | none =>
    obtain ⟨hflat, hcount⟩ := h.flattened.merge h.count hchild
    rw [if_pos (modifier_eq_none_iff.mp hmodifier)]
    exact ⟨hflat, hcount⟩
  | some modifier =>
    have hother : subtypeOf sidecar objectId partId ≠ .NormalPart := by
      rw [ne_eq, ← modifier_eq_none_iff, hmodifier]
      exact Option.some_ne_none modifier
    rw [if_neg hother]
    exact ⟨h.flattened, h.count⟩

theorem Flattened.eq_nil {mesh : MeshData F} (h : Flattened mesh leaves)
    (hempty : mesh.1.vertices = []) : leaves = [] := by
  rw [h.vertices, List.flatMap_eq_nil_iff] at hempty
  rw [List.eq_nil_iff_forall_not_mem]
  intro leaf hleaf
  exact leaf.mesh.wellFormed.has_vertices (List.map_eq_nil_iff.mp (hempty leaf hleaf))

/-- What the merged components give is flattened from the leaves too. -/
theorem MergedFrom.finish (h : MergedFrom merged leaves) {resolved : Resolved F}
    (hfinish : merged.finish = .ok resolved) :
    Flattened (resolved.mesh, resolved.paint) leaves := by
  rw [Merged.finish] at hfinish
  split_ifs at hfinish with hnothing hempty
  · cases hfinish
    rw [h.flattened.eq_nil (List.isEmpty_iff.mp hempty)]
    exact flattened_nil
  · cases hfinish
    exact h.flattened

end

theorem foldlM_components {part : Part F} {obj : Parsed3mfObject F}
    {resolveComponent : ParsedComponent F → Except ResolveFailure (Resolved F)}
    (hresolve : ∀ comp child, resolveComponent comp = .ok child →
      ∃ leaves, Leaves objects sidecar
        [{ id := comp.objectid,
           place := part.place ∘ ownPlace obj.transform ∘ ownPlace comp.transform }] leaves ∧
        Flattened (child.mesh, child.paint) leaves) {comps : List (ParsedComponent F)}
    {merged' : Merged F} (hmerged : MergedFrom merged leaves)
    (h : comps.foldlM (fun (merged : Merged F) comp => do
        let child ← resolveComponent comp
        .ok (merged.addComponent sidecar part.id comp.objectid child)) merged = .ok merged') :
    ∃ leaves', Leaves objects sidecar
        (normalParts sidecar part { obj with components := comps }) leaves' ∧
      MergedFrom merged' (leaves ++ leaves') := by
  induction comps generalizing merged leaves with
  | nil =>
    cases h
    exact ⟨[], .nil, by rwa [List.append_nil]⟩
  | cons comp rest ih =>
    rw [List.foldlM_cons] at h
    obtain ⟨next, hnext, h⟩ := Except.of_bind_eq_ok h
    obtain ⟨child, hchild, hnext⟩ := Except.of_bind_eq_ok hnext
    cases hnext
    obtain ⟨own, hown, hflat⟩ := hresolve comp child hchild
    obtain ⟨others, hothers, hall⟩ := ih (hmerged.addComponent hflat part.id comp.objectid) h
    rw [normalParts, List.filter_cons]
    by_cases hnormal : subtypeOf sidecar part.id comp.objectid = .NormalPart
    · rw [if_pos hnormal, List.append_assoc] at hall
      rw [if_pos (decide_eq_true hnormal), List.map_cons]
      exact ⟨own ++ others, hown.append hothers, hall⟩
    · rw [if_neg hnormal] at hall
      rw [if_neg (by simpa using hnormal)]
      exact ⟨others, hothers, hall⟩

theorem resolveObject_flattened {fuel objectId : Nat} {incoming : Transform F} {visited : List Nat}
    {resolved : Resolved F}
    (h : resolveObject objects sidecar fuel objectId incoming visited = .ok resolved) :
    ∃ leaves, Leaves objects sidecar [{ id := objectId, place := incoming.rowMap }] leaves ∧
      Flattened (resolved.mesh, resolved.paint) leaves := by
  induction fuel generalizing objectId incoming visited resolved with
  | zero => cases h
  | succ fuel ih =>
    rw [resolveObject] at h
    split_ifs at h with hvisited
    cases hobj : objects.lookup objectId with
    | none =>
      rw [hobj] at h
      cases h
    | some obj =>
      rw [hobj] at h
      cases hmesh : obj.mesh with
      | some mesh =>
        simp only [hmesh] at h
        cases h
        refine ⟨_, .mesh hobj hmesh .nil, ?_⟩
        rw [← rowMap_composeOpt]
        exact flattened_leaf mesh _
      | none =>
        simp only [hmesh] at h
        split_ifs at h with hnone
        obtain ⟨merged, hmerged, hfinish⟩ := Except.of_bind_eq_ok h
        have hfinish' : merged.finish = .ok resolved := by
          cases hresult : merged.finish with
          | error e =>
            rw [hresult] at hfinish
            cases hfinish
          | ok found =>
            rw [hresult] at hfinish
            cases hfinish
            rfl
        set part : Part F := { id := objectId, place := incoming.rowMap } with hpart
        have hresolve : ∀ (comp : ParsedComponent F) child,
            resolveObject objects sidecar fuel comp.objectid
                ((incoming.composeOpt obj.transform).composeOpt comp.transform)
                (visited ++ [part.id]) = .ok child →
              ∃ leaves, Leaves objects sidecar
                [{ id := comp.objectid,
                   place := part.place ∘ ownPlace obj.transform ∘ ownPlace comp.transform }]
                leaves ∧ Flattened (child.mesh, child.paint) leaves := by
          intro comp child hchild
          obtain ⟨leaves, hleaves, hflat⟩ := ih hchild
          rw [rowMap_composeOpt, rowMap_composeOpt] at hleaves
          exact ⟨leaves, hleaves, hflat⟩
        obtain ⟨leaves, hleaves, hfrom⟩ := foldlM_components hresolve mergedFrom_nil hmerged
        refine ⟨leaves ++ [], .components hobj hmesh hleaves .nil, ?_⟩
        rw [List.append_nil]
        exact hfrom.finish hfinish'

end Resolving

end PinchNPrint.Loader
