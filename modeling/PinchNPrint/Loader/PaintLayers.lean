/-
Merging the paint of components.

A semantic has at most one layer, so the values and the strokes of a semantic are those of its
layer, or none. Merged layers have the values of a component after those before it, whichever
of the two is padded.
-/

import PinchNPrint.Loader.Components

namespace PinchNPrint.Loader

open Layer (PaintValue)
open Region (PaintSemantic)

/-! ### Layers of a semantic -/

section Layers

variable {F : Type} {layers compLayers : List (PaintLayer F)}

/-- The layer of a semantic. -/
def layerOf (layers : List (PaintLayer F)) (semantic : PaintSemantic) : Option (PaintLayer F) :=
  layers.find? fun layer => layer.semantic = semantic

/-- The values of a semantic, one for each of so many facets. -/
def valuesIn (layers : List (PaintLayer F)) (facets : Nat) (semantic : PaintSemantic) :
    List (Option (PaintValue F)) :=
  match layerOf layers semantic with
  | some layer => layer.facetValues
  | none => List.replicate facets none

/-- Layers with a value for each of so many facets, and semantics of their own. -/
structure PaintsFacets (layers : List (PaintLayer F)) (facets : Nat) : Prop where
  aligned : ∀ layer ∈ layers, layer.facetValues.length = facets
  distinct : (layers.map fun layer => layer.semantic).Nodup

theorem semantic_of_layerOf {semantic : PaintSemantic} {layer : PaintLayer F}
    (h : layerOf layers semantic = some layer) : layer.semantic = semantic := by
  rw [layerOf] at h
  simpa using List.find?_some h

theorem filter_eq_layerOf (hdistinct : (layers.map fun layer => layer.semantic).Nodup)
    (semantic : PaintSemantic) :
    (layers.filter fun layer => layer.semantic = semantic) =
      (layerOf layers semantic).toList := by
  induction layers with
  | nil => rfl
  | cons first rest ih =>
    obtain ⟨hfirst, hrest⟩ := List.nodup_cons.mp hdistinct
    rw [layerOf, List.find?_cons, List.filter_cons]
    by_cases hsemantic : first.semantic = semantic
    · have hnone : (rest.filter fun layer => layer.semantic = semantic) = [] := by
        rw [List.filter_eq_nil_iff]
        intro layer hlayer hsame
        have hfirst' : first.semantic = layer.semantic :=
          hsemantic.trans (of_decide_eq_true hsame).symm
        exact hfirst (List.mem_map.mpr ⟨layer, hlayer, hfirst'.symm⟩)
      simp [hsemantic, hnone]
    · rw [layerOf] at ih
      simpa [hsemantic] using ih hrest

theorem strokesIn_eq (hdistinct : (layers.map fun layer => layer.semantic).Nodup)
    (semantic : PaintSemantic) :
    strokesIn layers semantic = ((layerOf layers semantic).map PaintLayer.strokes).getD [] := by
  rw [strokesIn, filter_eq_layerOf hdistinct]
  cases layerOf layers semantic with
  | none => rfl
  | some layer => exact List.flatMap_singleton _ _

/-- What keeps the semantics of the layers keeps where they are. -/
theorem layerOf_map {f : PaintLayer F → PaintLayer F}
    (hf : ∀ layer, (f layer).semantic = layer.semantic) (semantic : PaintSemantic) :
    layerOf (layers.map f) semantic = (layerOf layers semantic).map f := by
  rw [layerOf, List.find?_map]
  congr 2
  funext layer
  simp [hf]

theorem map_semantic {f : PaintLayer F → PaintLayer F}
    (hf : ∀ layer, (f layer).semantic = layer.semantic) :
    (layers.map f).map (fun layer => layer.semantic) = layers.map fun layer => layer.semantic := by
  rw [List.map_map]
  exact List.map_congr_left fun layer _ => hf layer

/-- The layers of some components, followed by those of another. -/
def mergeLayers (accumulated compFacetCount : Nat) (layers compLayers : List (PaintLayer F)) :
    List (PaintLayer F) :=
  compLayers.foldl (Merged.addLayer accumulated)
    (layers.map (Merged.extendLayer compLayers compFacetCount))

theorem layersOf_mergePaint (n m : Nat) (merged compPaint : Option (FacetPaintData F)) :
    layersOf (Merged.mergePaint n m merged compPaint) =
      mergeLayers n m (layersOf merged) (layersOf compPaint) := by
  cases merged with
  | some paint => rfl
  | none =>
    cases compPaint with
    | some compPaint => rfl
    | none => rfl

/-- A layer that a component has first, padded for the facets before it. -/
def backPad (accumulated : Nat) (layer : PaintLayer F) : PaintLayer F :=
  { layer with facetValues := List.replicate accumulated none ++ layer.facetValues }

theorem semantic_extendLayer (compLayers : List (PaintLayer F)) (m : Nat) (layer : PaintLayer F) :
    (Merged.extendLayer compLayers m layer).semantic = layer.semantic := by
  rw [Merged.extendLayer]
  cases compLayers.find? fun compLayer => compLayer.semantic = layer.semantic with
  | none => rfl
  | some compLayer => rfl

theorem foldl_addLayer (n : Nat) (hdistinct : (compLayers.map fun layer => layer.semantic).Nodup)
    (layers : List (PaintLayer F)) :
    compLayers.foldl (Merged.addLayer n) layers =
      layers ++ (compLayers.filter fun compLayer =>
        (layerOf layers compLayer.semantic).isNone).map (backPad n) := by
  induction compLayers generalizing layers with
  | nil => simp
  | cons first rest ih =>
    obtain ⟨hfirst, hrest⟩ := List.nodup_cons.mp hdistinct
    have hsome : (layers.any fun layer => layer.semantic = first.semantic) =
        (layerOf layers first.semantic).isSome := by
      rw [layerOf, List.isSome_find?]
    rw [List.foldl_cons, Merged.addLayer, hsome, List.filter_cons]
    cases hlayer : layerOf layers first.semantic with
    | some layer =>
      simp only [Option.isSome_some, if_true, Option.isNone_some, Bool.false_eq_true, if_false]
      exact ih hrest layers
    | none =>
      simp only [Option.isSome_none, Bool.false_eq_true, if_false, Option.isNone_none, if_true]
      rw [ih hrest, List.map_cons, List.append_assoc, List.singleton_append]
      congr 3
      refine List.filter_congr fun layer hmem => ?_
      have hother : first.semantic ≠ layer.semantic := fun hsame =>
        hfirst (List.mem_map.mpr ⟨layer, hmem, hsame.symm⟩)
      rw [layerOf, layerOf, List.find?_append]
      simp [hother]

theorem mergeLayers_eq (n m : Nat)
    (hdistinct : (compLayers.map fun layer => layer.semantic).Nodup) :
    mergeLayers n m layers compLayers =
      layers.map (Merged.extendLayer compLayers m) ++
        (compLayers.filter fun compLayer =>
          (layerOf layers compLayer.semantic).isNone).map (backPad n) := by
  rw [mergeLayers, foldl_addLayer n hdistinct]
  congr 2
  refine List.filter_congr fun compLayer _ => ?_
  rw [layerOf_map (semantic_extendLayer compLayers m)]
  cases layerOf layers compLayer.semantic with
  | none => rfl
  | some layer => rfl

theorem layerOf_mergeLayers (n m : Nat)
    (hdistinct : (compLayers.map fun layer => layer.semantic).Nodup) (semantic : PaintSemantic) :
    layerOf (mergeLayers n m layers compLayers) semantic =
      ((layerOf layers semantic).map (Merged.extendLayer compLayers m)).or
        ((layerOf compLayers semantic).map (backPad n)) := by
  have hpad : ∀ layer : PaintLayer F, (backPad n layer).semantic = layer.semantic := fun _ => rfl
  have happend : ∀ l l' : List (PaintLayer F), layerOf (l ++ l') semantic =
      (layerOf l semantic).or (layerOf l' semantic) := fun _ _ => List.find?_append
  rw [mergeLayers_eq n m hdistinct, happend, layerOf_map (semantic_extendLayer compLayers m),
    layerOf_map hpad]
  cases hlayer : layerOf layers semantic with
  | some layer => rfl
  | none =>
    rw [Option.map_none, Option.none_or, Option.none_or, layerOf, List.find?_filter]
    congr 2
    funext layer
    by_cases hsemantic : layer.semantic = semantic
    · simp [hsemantic, hlayer]
    · simp [hsemantic]

theorem extendLayer_eq (compLayers : List (PaintLayer F)) (m : Nat) (layer : PaintLayer F) :
    (Merged.extendLayer compLayers m layer).facetValues =
        layer.facetValues ++ valuesIn compLayers m layer.semantic ∧
      (Merged.extendLayer compLayers m layer).strokes = layer.strokes ++
        ((layerOf compLayers layer.semantic).map PaintLayer.strokes).getD [] := by
  rw [Merged.extendLayer, valuesIn, layerOf]
  cases compLayers.find? fun compLayer => compLayer.semantic = layer.semantic with
  | none => exact ⟨rfl, (List.append_nil _).symm⟩
  | some compLayer => exact ⟨rfl, rfl⟩

theorem length_valuesIn {n : Nat} (h : PaintsFacets layers n) (semantic : PaintSemantic) :
    (valuesIn layers n semantic).length = n := by
  rw [valuesIn]
  cases hlayer : layerOf layers semantic with
  | none => exact List.length_replicate
  | some layer => exact h.aligned layer (List.mem_of_find?_eq_some hlayer)

/-- Merging keeps a value for each facet, and the semantics apart. -/
theorem PaintsFacets.merge {n m : Nat} (h : PaintsFacets layers n)
    (hcomp : PaintsFacets compLayers m) :
    PaintsFacets (mergeLayers n m layers compLayers) (n + m) := by
  rw [mergeLayers_eq n m hcomp.distinct]
  constructor
  · intro layer hlayer
    rcases List.mem_append.mp hlayer with hlayer | hlayer
    · obtain ⟨before, hbefore, rfl⟩ := List.mem_map.mp hlayer
      rw [(extendLayer_eq compLayers m before).1, List.length_append, h.aligned before hbefore,
        length_valuesIn hcomp]
    · obtain ⟨before, hbefore, rfl⟩ := List.mem_map.mp hlayer
      rw [backPad, List.length_append, List.length_replicate,
        hcomp.aligned before (List.mem_of_mem_filter hbefore)]
  · rw [List.map_append, map_semantic (semantic_extendLayer compLayers m), List.map_map]
    refine List.Nodup.append h.distinct ((List.filter_sublist.map _).nodup hcomp.distinct) ?_
    intro semantic hsemantic hnew
    obtain ⟨layer, hlayer, rfl⟩ := List.mem_map.mp hsemantic
    obtain ⟨compLayer, hcompLayer, hsame⟩ := List.mem_map.mp hnew
    obtain ⟨-, hnone⟩ := List.mem_filter.mp hcompLayer
    rw [layerOf, Option.isNone_iff_eq_none, List.find?_eq_none] at hnone
    have hsemantic' : layer.semantic = compLayer.semantic := hsame.symm
    exact hnone layer hlayer (decide_eq_true hsemantic')

/-- The values of the component follow those before. -/
theorem valuesIn_mergeLayers (n m : Nat)
    (hdistinct : (compLayers.map fun layer => layer.semantic).Nodup) (semantic : PaintSemantic) :
    valuesIn (mergeLayers n m layers compLayers) (n + m) semantic =
      valuesIn layers n semantic ++ valuesIn compLayers m semantic := by
  rw [valuesIn, layerOf_mergeLayers n m hdistinct, valuesIn]
  cases hlayer : layerOf layers semantic with
  | some layer =>
    have hextend := (extendLayer_eq compLayers m layer).1
    rw [semantic_of_layerOf hlayer] at hextend
    exact hextend
  | none =>
    rw [valuesIn]
    cases layerOf compLayers semantic with
    | none => exact List.replicate_add n m none
    | some compLayer => rfl

theorem strokesIn_mergeLayers {n m : Nat} (h : PaintsFacets layers n)
    (hcomp : PaintsFacets compLayers m) (semantic : PaintSemantic) :
    strokesIn (mergeLayers n m layers compLayers) semantic =
      strokesIn layers semantic ++ strokesIn compLayers semantic := by
  rw [strokesIn_eq (h.merge hcomp).distinct, strokesIn_eq h.distinct, strokesIn_eq hcomp.distinct,
    layerOf_mergeLayers n m hcomp.distinct]
  cases hlayer : layerOf layers semantic with
  | some layer =>
    have hextend := (extendLayer_eq compLayers m layer).2
    rw [semantic_of_layerOf hlayer] at hextend
    exact hextend
  | none =>
    cases layerOf compLayers semantic with
    | none => rfl
    | some compLayer => rfl

end Layers

end PinchNPrint.Loader
