/-
Objects, planned layers and sliced regions (`slicer-ir`: `slice_ir.rs`), as far
as region mapping, paint segmentation and modifier splitting read them.

Polygons have integer coordinates, in units of 100 nm. Numbers are those of the
configuration model. Of an object the placement is left out, of a sliced region
the fields that no modelled function reads or writes.
-/

import PinchNPrint.Config.Resolution
import PinchNPrint.Layer.Ir

namespace PinchNPrint.Region

open Config (ConfigKey ConfigValue ModifierId ResolvedConfig)
open Layer (ObjectId PaintValue RegionKey)

structure Point2 where
  x : ℤ
  y : ℤ
deriving DecidableEq, Repr

/-- `ExPolygon`: a contour and its holes, each a list of points. -/
structure ExPolygon where
  contour : List Point2
  holes : List (List Point2) := []
deriving DecidableEq, Repr

/-- `variant_chain`: ordered pairs of a paint semantic and its value. -/
abbrev VariantChain (F : Type) := List (String × PaintValue F)

/-! ### Objects -/

structure Point3 (F : Type) where
  x : F
  y : F
  z : F
deriving DecidableEq, Repr

structure IndexedTriangleSet (F : Type) where
  vertices : List (Point3 F)
  indices : List Nat
deriving DecidableEq, Repr

inductive ModifierKind where
  | ParameterModifier
  | NegativePart
  | SupportEnforcer
  | SupportBlocker
deriving DecidableEq, Repr

structure ModifierVolume (F : Type) where
  id : ModifierId
  mesh : IndexedTriangleSet F
  configDelta : BTreeMap ConfigKey (ConfigValue F) := ∅
  priority : Nat := 0
  kind : ModifierKind := .ParameterModifier

inductive PaintSemantic where
  | Material
  | FuzzySkin
  | SupportEnforcer
  | SupportBlocker
  | Custom (name : String)
deriving DecidableEq, Repr

def paintSemanticNamespaceKey : PaintSemantic → String
  | .Material => "material"
  | .FuzzySkin => "fuzzy_skin"
  | .SupportEnforcer => "support_enforcer"
  | .SupportBlocker => "support_blocker"
  | .Custom name => name

/-- `PaintLayer`: one value per triangle. -/
structure PaintLayer (F : Type) where
  semantic : PaintSemantic
  facetValues : List (Option (PaintValue F))
deriving DecidableEq, Repr

structure ObjectMesh (F : Type) where
  id : ObjectId
  modifierVolumes : List (ModifierVolume F) := []
  paintData : Option (List (PaintLayer F)) := none

/-! ### Planned layers -/

structure ActiveRegion (F : Type) where
  objectId : ObjectId
  regionId : Nat
  resolvedConfig : ResolvedConfig F

structure GlobalLayer (F : Type) where
  index : Nat
  z : F
  activeRegions : List (ActiveRegion F)

/-! ### Sliced regions -/

structure SlicedRegion (F : Type) where
  objectId : ObjectId
  regionId : Nat
  variantChain : VariantChain F := []
  polygons : List ExPolygon := []
  infillAreas : List ExPolygon := []
  segmentAnnotations : List (PaintSemantic × List (List (Option (PaintValue F)))) := []
  bridgeAreas : List ExPolygon := []
  bottomSolidFill : List ExPolygon := []
  topSolidFill : List ExPolygon := []
  sparseInfillArea : List ExPolygon := []
  internalSolidFill : List ExPolygon := []
  internalBridgeAreas : List ExPolygon := []
  internalBridgeAnglesDeg : List F := []
  bridgeOrientationDeg : F
  raftFill : List ExPolygon := []
deriving DecidableEq, Repr

structure SliceIR (F : Type) where
  globalLayerIndex : Nat
  z : F
  regions : List (SlicedRegion F)
deriving DecidableEq, Repr

end PinchNPrint.Region
