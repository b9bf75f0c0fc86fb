/-
The layer representation that per-layer stages, finalization and G-code
emission share (`slicer-ir`: `slice_ir.rs`, `entity_id.rs`).

`F` is the type of the numbers. Indices, tools and ids are naturals; an order
lock is the number a `u64` holds. Schema versions are left out: no modelled
function reads them.
-/

import Mathlib.Tactic.Common

namespace PinchNPrint.Layer

/-- Object identifier. -/
abbrev ObjectId := String

variable {F : Type}

structure Point3WithWidth (F : Type) where
  x : F
  y : F
  z : F
  width : F
  flowFactor : F
  overhangQuartile : Option Nat := none
  distToTopMm : F
  overhangDistanceMm : Option F := none
deriving DecidableEq, Repr

inductive ExtrusionRole where
  | OuterWall
  | InnerWall
  | ThinWall
  | TopSolidInfill
  | BottomSolidInfill
  | InternalSolidInfill
  | SparseInfill
  | RaftInfill
  | SupportMaterial
  | SupportInterface
  | SupportBaseInterface
  | WipeTower
  | PrimeTower
  | Ironing
  | BridgeInfill
  | InternalBridgeInfill
  | Skirt
  | Brim
  | Custom (name : String)
  | GapFill
deriving DecidableEq, Repr

namespace ExtrusionRole

/-- `ExtrusionRole::default_priority`. -/
def defaultPriority : ExtrusionRole → Nat
  | Skirt => 0
  | Brim => 110
  | OuterWall => 1000
  | InnerWall => 1500
  | ThinWall => 1700
  | SparseInfill => 3000
  | BridgeInfill => 3500
  | InternalBridgeInfill => 3500
  | InternalSolidInfill => 3800
  | BottomSolidInfill => 4000
  | TopSolidInfill => 4500
  | SupportMaterial => 5000
  | SupportBaseInterface => 5250
  | SupportInterface => 5500
  | Ironing => 6000
  | WipeTower => 8000
  | PrimeTower => 8500
  | Custom _ => 9000
  | GapFill => 2000
  | RaftInfill => 50

/-- `ExtrusionRole::is_loop`. -/
def isLoop : ExtrusionRole → Bool
  | OuterWall | InnerWall | ThinWall | Skirt | Brim => true
  | _ => false

end ExtrusionRole

structure ExtrusionPath3D (F : Type) where
  points : List (Point3WithWidth F)
  role : ExtrusionRole
  speedFactor : F
  toolIndex : Option Nat := none
  orderLock : Option Nat := none
deriving DecidableEq, Repr

/-- `ExtrusionPath3D::is_closed`: the last point repeats the first. -/
def ExtrusionPath3D.isClosed [DecidableEq F] (path : ExtrusionPath3D F) : Bool :=
  match path.points.head?, path.points.getLast? with
  | some first, some last => 2 ≤ path.points.length && first.x = last.x && first.y = last.y
  | _, _ => false

inductive PaintValue (F : Type) where
  | Flag (value : Bool)
  | Scalar (value : F)
  | ToolIndex (value : Nat)
  | Custom (value : String)
deriving DecidableEq, Repr

structure RegionKey (F : Type) where
  globalLayerIndex : Nat := 0
  objectId : ObjectId := ""
  regionId : Nat := 0
  variantChain : List (String × PaintValue F) := []
deriving DecidableEq, Repr

structure PrintEntity (F : Type) where
  entityId : Nat
  path : ExtrusionPath3D F
  role : ExtrusionRole
  regionKey : RegionKey F
  topoOrder : Nat
  toolIndex : Nat
deriving DecidableEq, Repr

structure ToolChange where
  afterEntityIndex : Nat
  fromTool : Nat
  toTool : Nat
deriving DecidableEq, Repr

structure ZHop (F : Type) where
  afterEntityIndex : Nat
  hopHeight : F
deriving DecidableEq, Repr

inductive RetractMode where
  | Gcode
  | Firmware
deriving DecidableEq, Repr

structure TravelRetract (F : Type) where
  afterEntityIndex : Nat
  length : F
  speed : F
  isUnretract : Bool
  mode : RetractMode
deriving DecidableEq, Repr

structure TravelMove (F : Type) where
  entityId : Nat
  x : Option F
  y : Option F
  z : Option F
  f : Option F
deriving DecidableEq, Repr

inductive LayerAnnotationKind where
  | Comment (text : String)
  | Raw (text : String)
deriving DecidableEq, Repr

structure LayerAnnotation where
  afterEntityIndex : Nat
  kind : LayerAnnotationKind
deriving DecidableEq, Repr

structure EntitySpeedProfile (F : Type) where
  entityId : Nat
  factors : List F
deriving DecidableEq, Repr

/-- `LayerCollectionIR`, without the support attribution nothing here reads. -/
structure LayerCollectionIR (F : Type) where
  globalLayerIndex : Nat
  z : F
  orderedEntities : List (PrintEntity F) := []
  toolChanges : List ToolChange := []
  zHops : List (ZHop F) := []
  annotations : List LayerAnnotation := []
  retracts : List (TravelRetract F) := []
  travelMoves : List (TravelMove F) := []
  speedProfiles : List (EntitySpeedProfile F) := []
deriving DecidableEq, Repr

end PinchNPrint.Layer
