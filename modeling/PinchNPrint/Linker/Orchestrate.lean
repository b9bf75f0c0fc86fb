/-
The infill linker
(`infill-linker`: `orchestrate.rs`, `connect.rs`, `lib.rs`; `slicer-wasm-host`: `marshal/out.rs`).

The linker re-emits the staged infill. A region without a perimeter view is passed
through. Of the others, the paths of each bucket are taken role by role: first the locked
paths of the role, as they are, then its unlocked paths, clipped to the boundary of the
role and linked, alone or with the regions that share a wall. What is emitted is grouped by
its source again.

`P` is the type of a polygon. Clipping and the other operations on polygons are a
parameter, `LinkGeometry`. `none` is a panic.
-/

import PinchNPrint.Layer.Commit
import PinchNPrint.Linker.Connect

namespace PinchNPrint.Linker

open Layer

variable {F P : Type}

/-- What a region is known by: object, region and ordered variant chain. -/
abbrev Source (F : Type) := ObjectId × Nat × List (String × PaintValue F)

/-- What the linker takes of the geometry: `BoundaryInfillGraph::new`, `union_ex`,
`difference_ex`, `swept_footprint_polygons`, the offset of `ExPolygonWithOffset`,
`mixed_boundary` given the offset and the boundaries, the pieces of a path that
`PreparedPolylineClip` and `remove_short_polylines` leave, and the length of a linked path
along the paths of an owner. -/
structure LinkGeometry (F P : Type) where
  contour : Contour F
  rings : List P → List (BoundaryRing F)
  unionEx : List P → List P
  differenceEx : List P → List P → List P
  sweptFootprintPolygons : List (ExtrusionPath3D F) → List P
  polygonsOuter : List P → F → F → List P
  replaceShared : List P → List P → List (List P) → List P
  clip : List P → F → ExtrusionPath3D F → List (List (Point3WithWidth F))
  ownedLength : List (Nat × ExtrusionPath3D F) → ExtrusionPath3D F → Nat → F

structure RoleBoundaries (P : Type) where
  sparse : List P := []
  top : List P := []
  bottom : List P := []
  bridge : List P := []
  union : List P := []
deriving DecidableEq

/-- `RoleBoundaries::is_partitioned`. -/
def RoleBoundaries.isPartitioned (areas : RoleBoundaries P) : Bool :=
  !(areas.sparse.isEmpty && areas.top.isEmpty && areas.bottom.isEmpty && areas.bridge.isEmpty)

/-- `RoleBoundaries::for_role`. -/
def RoleBoundaries.forRole (geometry : LinkGeometry F P) (areas : RoleBoundaries P)
    (role : ExtrusionRole) : Option (List P) :=
  let partitioned := match role with
    | .SparseInfill => some areas.sparse
    | .TopSolidInfill => some areas.top
    | .BottomSolidInfill => some areas.bottom
    | .BridgeInfill | .InternalBridgeInfill => some areas.bridge
    | .InternalSolidInfill => some (geometry.unionEx (areas.top ++ areas.bottom))
    | _ => none
  let union := if areas.union.isEmpty then none else some areas.union
  match partitioned with
  | some polygons => if areas.isPartitioned then some polygons else union
  | none => union

structure RegionConfig (F : Type) where
  lineWidth : F
  density : F
  anchorLength : F
  anchorLengthMax : F
deriving DecidableEq

/-- `PerimeterRegionView`, with what `orchestrate_infill` resolves from its config: an error
where a required key is missing. -/
structure PerimeterRegionView (F P : Type) where
  source : Source F
  toolIndex : Nat := 0
  wallSourceRegionId : Option Nat := none
  areas : RoleBoundaries P := {}
  config : Except String (RegionConfig F)

structure RegionRecord (F P : Type) where
  priorIndex : Nat
  source : Source F
  toolIndex : Nat
  wallSourceRegionId : Option Nat
  boundaries : RoleBoundaries P
  config : RegionConfig F
  sparsePaths : List (ExtrusionPath3D F)
  solidPaths : List (ExtrusionPath3D F)

inductive PathBucket where
  | Sparse
  | Solid
deriving DecidableEq

structure BucketPaths (F : Type) where
  sparse : List (ExtrusionPath3D F) := []
  solid : List (ExtrusionPath3D F) := []
deriving DecidableEq

/-- `append_paths`. -/
def BucketPaths.append (paths : BucketPaths F) (bucket : PathBucket)
    (more : List (ExtrusionPath3D F)) : BucketPaths F :=
  match bucket with
  | .Sparse => { paths with sparse := paths.sparse ++ more }
  | .Solid => { paths with solid := paths.solid ++ more }

/-- `append_paths` to the bucket of a prior region. -/
def appendPaths (buckets : List (BucketPaths F)) (index : Nat) (bucket : PathBucket)
    (more : List (ExtrusionPath3D F)) : List (BucketPaths F) :=
  buckets.modify index (·.append bucket more)

def RegionRecord.allPaths (record : RegionRecord F P) : PathBucket → List (ExtrusionPath3D F)
  | .Sparse => record.sparsePaths
  | .Solid => record.solidPaths

def RegionRecord.selectedPaths (record : RegionRecord F P) (bucket : PathBucket)
    (role : ExtrusionRole) : List (ExtrusionPath3D F) :=
  (record.allPaths bucket).filter fun path => path.role = role

/-- The roles of the paths, each where it first appears. -/
def rolesOf (paths : List (ExtrusionPath3D F)) : List ExtrusionRole :=
  paths.foldl (fun roles path => if path.role ∈ roles then roles else roles ++ [path.role]) []

def rolesForBucket (records : List (RegionRecord F P)) (bucket : PathBucket) :
    List ExtrusionRole :=
  rolesOf (records.flatMap fun record => record.allPaths bucket)

/-- A record without its locked paths. -/
def RegionRecord.unlocked (record : RegionRecord F P) : RegionRecord F P :=
  { record with
    sparsePaths := record.sparsePaths.filter fun path => path.orderLock.isNone
    solidPaths := record.solidPaths.filter fun path => path.orderLock.isNone }

/-! ### Groups of regions -/

inductive WallGroupKey (F : Type) where
  | Shared (source : Nat) (variantChain : List (String × PaintValue F))
  | Owned (priorIndex : Nat)
deriving DecidableEq

def wallGroupKey (record : RegionRecord F P) (sharedSources : List Nat) : WallGroupKey F :=
  match record.wallSourceRegionId with
  | some source => .Shared source record.source.2.2
  | none =>
    if record.source.2.1 ∈ sharedSources then .Shared record.source.2.1 record.source.2.2
    else .Owned record.priorIndex

variable [Field F] [LinearOrder F]

/-- One round of `wall_groups`: join the group of the key, or open one. -/
def addToGroup (key : WallGroupKey F) (index : Nat) :
    List (WallGroupKey F × List Nat) → List (WallGroupKey F × List Nat)
  | [] => [(key, [index])]
  | group :: groups =>
    if group.1 = key then (group.1, group.2 ++ [index]) :: groups
    else group :: addToGroup key index groups

/-- The groups of `wall_groups`, with their keys. -/
def keyedGroups (records : List (RegionRecord F P)) (active sharedSources : List Nat) :
    List (WallGroupKey F × List Nat) :=
  active.foldl (fun groups index =>
    match records[index]? with
    | none => groups
    | some record => addToGroup (wallGroupKey record sharedSources) index groups) []

def wallGroups (records : List (RegionRecord F P)) (active sharedSources : List Nat) :
    List (List Nat) :=
  (keyedGroups records active sharedSources).map Prod.snd

def pathsCompatible (first second : ExtrusionPath3D F) : Bool :=
  first.role = second.role && first.speedFactor = second.speedFactor &&
    first.toolIndex = second.toolIndex && endpointWidthsCompatible first second

def compatibleRegions (first second : RegionRecord F P) (bucket : PathBucket)
    (role : ExtrusionRole) (sameGroup : Bool) : Bool :=
  first.source.1 = second.source.1 && first.toolIndex = second.toolIndex &&
    first.source.2.2 = second.source.2.2 && sameGroup &&
    (first.selectedPaths bucket role).all fun left =>
      (second.selectedPaths bucket role).all (pathsCompatible left)

/-! ### Ordering linked paths -/

/-- The coordinates `chain_or_connect_infill` orders by; a path without points has none,
and comes last. -/
def coordinates (point : Option (Point3WithWidth F)) : Option (F × F × F) :=
  point.map fun point => (point.x, point.y, point.z)

def endpointOrderCmp : Option (F × F × F) → Option (F × F × F) → Ordering
  | some left, some right =>
    ((compare left.1 right.1).then (compare left.2.1 right.2.1)).then
      (compare left.2.2 right.2.2)
  | some _, none => .lt
  | none, some _ => .gt
  | none, none => .eq

def pointDistanceSquared (first second : Point3WithWidth F) : F :=
  (first.x - second.x) * (first.x - second.x) + ((first.y - second.y) * (first.y - second.y) +
    (first.z - second.z) * (first.z - second.z))

/-- How far the nearer end of a path is, and whether it is its last point; `none` for a path
without points. -/
def nearerEnd (current : Point3WithWidth F) (path : ExtrusionPath3D F) : Bool × Option F :=
  match path.points.head?, path.points.getLast? with
  | some start, some stop =>
    if pointDistanceSquared current stop < pointDistanceSquared current start then
      (true, some (pointDistanceSquared current stop))
    else (false, some (pointDistanceSquared current start))
  | _, _ => (false, none)

/-- The order of distances, without a distance last. -/
def distanceOrder : Option F → Option F → Ordering
  | some left, some right => compare left right
  | some _, none => .lt
  | none, some _ => .gt
  | none, none => .eq

/-- The path to print after `current`, and whether backwards. -/
def nextPath (current : Point3WithWidth F) (paths : List (ExtrusionPath3D F)) :
    Option (Nat × Bool) :=
  (minBy (fun left right => (distanceOrder left.2.2 right.2.2).then (compare left.1 right.1))
    (paths.zipIdx.map fun entry => (entry.2, nearerEnd current entry.1))).map
      fun nearest => (nearest.1, nearest.2.1)

/-- `Vec::swap_remove`. -/
def swapRemove {α : Type} (l : List α) (index : Nat) : Option (α × List α) := do
  let removed ← l[index]?
  let last ← l.getLast?
  return (removed, (l.set index last).dropLast)

/-- The loop of `chain_or_connect_infill`: each time the path with the nearest end. -/
def orderFrom (ordered : List (ExtrusionPath3D F)) :
    Nat → List (ExtrusionPath3D F) → Option (List (ExtrusionPath3D F))
  | _, [] => some ordered
  | 0, _ :: _ => none
  | fuel + 1, path :: rest => do
    let current ← ordered.getLast?.bind (·.points.getLast?)
    let (index, reverse) ← nextPath current (path :: rest)
    let (next, rest) ← swapRemove (path :: rest) index
    orderFrom (ordered ++ [if reverse then reversePoints next else next]) fuel rest

/-- The second half of `chain_or_connect_infill`: the path with the least first point is
turned so that it starts at its lesser end, and the others follow. -/
def orderPaths (paths : List (ExtrusionPath3D F)) : Option (List (ExtrusionPath3D F)) :=
  if paths.length < 2 then some paths
  else do
    let firstIndex ← minBy (fun left right =>
      endpointOrderCmp (coordinates (paths[left]?.bind (·.points.head?)))
        (coordinates (paths[right]?.bind (·.points.head?)))) (List.range paths.length)
    let first ← paths[firstIndex]?
    let head ← paths.head?
    let rest := (paths.set firstIndex head).tail
    let turned :=
      endpointOrderCmp (coordinates first.points.getLast?) (coordinates first.points.head?) = .lt
    orderFrom [if turned then reversePoints first else first] rest.length rest

def chainOrConnectInfill (contour : Contour F) (rings : List (BoundaryRing F))
    (anchor : AnchorParams F) (paths : List (ExtrusionPath3D F)) :
    Option (List (ExtrusionPath3D F)) :=
  (if anchor.dontConnect then some paths else connectInfill contour rings anchor paths).bind
    orderPaths

/-! ### One role -/

section Role

variable (geometry : LinkGeometry F P) (infillOverlap : F)

def spacing (record : RegionRecord F P) : PathBucket → F
  | .Sparse => max (record.config.lineWidth / record.config.density) (1 / 2 ^ 23)
  | .Solid => max record.config.lineWidth (1 / 2 ^ 23)

/-- `anchor`. -/
def anchorFor (record : RegionRecord F P) : PathBucket → AnchorParams F
  | .Sparse => ⟨record.config.anchorLength, record.config.anchorLengthMax⟩
  | .Solid => ⟨1000, 1000⟩

/-- `link_paths_without_offset`, without the source segments. -/
def linkPathsWithoutOffset (tagged : List (Nat × ExtrusionPath3D F)) (boundary : List P)
    (spacing : F) (anchor : AnchorParams F) : Option (List (ExtrusionPath3D F)) :=
  let clipped := tagged.flatMap fun entry =>
    if entry.2.points.length < 2 then []
    else (geometry.clip boundary spacing entry.2).map fun points => { entry.2 with points }
  chainOrConnectInfill geometry.contour (geometry.rings boundary) anchor clipped

def linkPathsAgainst (tagged : List (Nat × ExtrusionPath3D F)) (boundary rawBoundary : List P)
    (spacing : F) (anchor : AnchorParams F) : Option (List (ExtrusionPath3D F)) := do
  let linked ← linkPathsWithoutOffset geometry tagged boundary spacing anchor
  if !linked.isEmpty then
    return linked
  linkPathsWithoutOffset geometry tagged rawBoundary spacing anchor

/-- `majority_owner`: most of the path's length, then the lower region id, then the lower
index. -/
def majorityOwner (records : List (RegionRecord F P)) (tagged : List (Nat × ExtrusionPath3D F))
    (group : List Nat) (path : ExtrusionPath3D F) : Option Nat :=
  let regionId (index : Nat) : Nat := (records[index]?.map (·.source.2.1)).getD 0
  minBy (fun left right =>
    ((compare (geometry.ownedLength tagged path right) (geometry.ownedLength tagged path left)).then
      (compare (regionId left) (regionId right))).then (compare left right)) group

/-- The paths of a group's regions, each with the index of its region. -/
def taggedPaths (records : List (RegionRecord F P)) (bucket : PathBucket) (role : ExtrusionRole)
    (group : List Nat) : List (Nat × ExtrusionPath3D F) :=
  group.flatMap fun index =>
    match records[index]? with
    | none => []
    | some record => (record.selectedPaths bucket role).map fun path => (index, path)

variable (records : List (RegionRecord F P)) (boundaries : List (Option (List P)))

def boundaryFor (index : Nat) : List P :=
  (boundaries[index]?.join).getD []

def linkUnionGroup (group : List Nat) (bucket : PathBucket) (role : ExtrusionRole)
    (buckets : List (BucketPaths F)) : Option (List (BucketPaths F)) := do
  let boundary := geometry.unionEx (group.flatMap (boundaryFor boundaries))
  let record ← group.head?.bind (records[·]?)
  let tagged := taggedPaths records bucket role group
  let offset := geometry.polygonsOuter boundary infillOverlap (spacing record bucket)
  let linked ← linkPathsAgainst geometry tagged offset boundary (spacing record bucket)
    (anchorFor record bucket)
  linked.foldlM (fun buckets path => do
    let owner ← majorityOwner geometry records tagged group path
    let record ← records[owner]?
    return appendPaths buckets record.priorIndex bucket [path]) buckets

def mixedBoundary (group : List Nat) (index : Nat) (spacing : F) : List P :=
  let outer := geometry.polygonsOuter (boundaryFor boundaries index) infillOverlap spacing
  let peers := (group.filter (· ≠ index)).map (boundaryFor boundaries)
  geometry.replaceShared outer (boundaryFor boundaries index) peers

/-- The linked paths of one region of a group. -/
def linkRegion (group : List Nat) (bucket : PathBucket) (role : ExtrusionRole) (index : Nat)
    (record : RegionRecord F P) : Option (List (ExtrusionPath3D F)) :=
  let spacing := spacing record bucket
  let anchor := anchorFor record bucket
  let raw := boundaryFor boundaries index
  let tagged := taggedPaths records bucket role [index]
  if group.length = 1 then
    linkPathsAgainst geometry tagged (geometry.polygonsOuter raw infillOverlap spacing) raw
      spacing anchor
  else
    linkPathsWithoutOffset geometry tagged
      (mixedBoundary geometry infillOverlap boundaries group index spacing) spacing anchor

def linkRegionGroup (group : List Nat) (bucket : PathBucket) (role : ExtrusionRole)
    (buckets : List (BucketPaths F)) : Option (List (BucketPaths F)) :=
  group.foldlM (fun buckets index => do
    let record ← records[index]?
    let linked ←
      linkRegion geometry infillOverlap records boundaries group bucket role index record
    return appendPaths buckets record.priorIndex bucket linked) buckets

/-- Whether a group is linked as one: the same config, and all pairs compatible. -/
def linksAsUnion (sharedSources : List Nat) (group : List Nat) (bucket : PathBucket)
    (role : ExtrusionRole) : Bool :=
  let members := group.filterMap (records[·]?)
  let sameConfig := (members.zip members.tail).all fun pair => pair.1.config = pair.2.config
  let compatible := (orderedPairs members).all fun pair =>
    compatibleRegions pair.1 pair.2 bucket role
      (wallGroupKey pair.1 sharedSources = wallGroupKey pair.2 sharedSources)
  1 < group.length && sameConfig && compatible

end Role

/-- The boundaries of a role, without the footprint of the locked paths. -/
def roleBoundaries (geometry : LinkGeometry F P) (records : List (RegionRecord F P))
    (role : ExtrusionRole) : List (Option (List P)) :=
  records.map fun record =>
    (record.boundaries.forRole geometry role).map fun boundary =>
      let locked := (record.sparsePaths ++ record.solidPaths).filter
        fun path => path.orderLock.isSome
      let footprint := geometry.sweptFootprintPolygons locked
      if footprint.isEmpty then boundary else geometry.differenceEx boundary footprint

/-- The regions that have unlocked paths of the role and a boundary for it. -/
def activeRegions (records : List (RegionRecord F P)) (boundaries : List (Option (List P)))
    (bucket : PathBucket) (role : ExtrusionRole) : List Nat :=
  ((records.zip boundaries).zipIdx.filter fun entry =>
    !(entry.1.1.selectedPaths bucket role).isEmpty && entry.1.2.isSome).map Prod.snd

/-- The first loop of `process_bucket_role`: the locked paths of the role, as they are. -/
def appendLocked (records : List (RegionRecord F P)) (bucket : PathBucket) (role : ExtrusionRole)
    (buckets : List (BucketPaths F)) : List (BucketPaths F) :=
  records.foldl (fun buckets record =>
    appendPaths buckets record.priorIndex bucket
      ((record.selectedPaths bucket role).filter fun path => path.orderLock.isSome)) buckets

/-- The second loop of `process_bucket_role`: what has no boundary is passed through. -/
def passUnbounded (records : List (RegionRecord F P)) (boundaries : List (Option (List P)))
    (bucket : PathBucket) (role : ExtrusionRole) (buckets : List (BucketPaths F)) :
    List (BucketPaths F) :=
  (records.zip boundaries).foldl (fun buckets entry =>
    let selected := entry.1.selectedPaths bucket role
    if selected.isEmpty || entry.2.isNone then
      appendPaths buckets entry.1.priorIndex bucket selected
    else buckets) buckets

def processBucketRole (geometry : LinkGeometry F P) (infillOverlap : F)
    (records : List (RegionRecord F P)) (bucket : PathBucket) (role : ExtrusionRole)
    (buckets : List (BucketPaths F)) : Option (List (BucketPaths F)) :=
  let buckets := appendLocked records bucket role buckets
  let boundaries := roleBoundaries geometry records role
  let records := records.map (·.unlocked)
  let buckets := passUnbounded records boundaries bucket role buckets
  let sharedSources := records.filterMap (·.wallSourceRegionId)
  let groups := wallGroups records (activeRegions records boundaries bucket role) sharedSources
  groups.foldlM (fun buckets group =>
    if linksAsUnion records sharedSources group bucket role then
      linkUnionGroup geometry infillOverlap records boundaries group bucket role buckets
    else linkRegionGroup geometry infillOverlap records boundaries group bucket role buckets)
    buckets

def processBucket (geometry : LinkGeometry F P) (infillOverlap : F)
    (records : List (RegionRecord F P)) (bucket : PathBucket) (buckets : List (BucketPaths F)) :
    Option (List (BucketPaths F)) :=
  (rolesForBucket records bucket).foldlM (fun buckets role =>
    processBucketRole geometry infillOverlap records bucket role buckets) buckets

/-! ### The whole linker -/

/-- The view a prior region is joined to: the first of the same source. -/
def viewOf (views : List (PerimeterRegionView F P))
    (region : InfillRegion F (ExtrusionPath3D F)) : Option (PerimeterRegionView F P) :=
  views.find? fun view => view.source = region.source

/-- The record of a prior region that has a view. -/
def regionRecord (priorIndex : Nat) (region : InfillRegion F (ExtrusionPath3D F))
    (view : PerimeterRegionView F P) : Except String (RegionRecord F P) := do
  let config ← view.config
  return {
    priorIndex
    source := region.source
    toolIndex := view.toolIndex
    wallSourceRegionId := view.wallSourceRegionId
    boundaries := view.areas
    config
    sparsePaths := region.sparseInfill
    solidPaths := region.solidInfill }

/-- The records of the regions that have a view, in the order of the regions. -/
def regionRecords (views : List (PerimeterRegionView F P))
    (prior : List (InfillRegion F (ExtrusionPath3D F))) : Except String (List (RegionRecord F P)) :=
  (prior.zipIdx.filterMap fun entry =>
    (viewOf views entry.1).map fun view => (entry, view)).mapM fun joined =>
      regionRecord joined.1.2 joined.1.1 joined.2

/-- The buckets before linking: a region without a view is passed through. -/
def startBucket (views : List (PerimeterRegionView F P))
    (region : InfillRegion F (ExtrusionPath3D F)) : BucketPaths F :=
  match viewOf views region with
  | none => { sparse := region.sparseInfill, solid := region.solidInfill }
  | some _ => {}

/-- `orchestrate_infill`, up to the buckets it emits. -/
def orchestrateInfill (geometry : LinkGeometry F P) (infillOverlap : F)
    (prior : List (InfillRegion F (ExtrusionPath3D F))) (views : List (PerimeterRegionView F P)) :
    Option (Except String (List (BucketPaths F))) :=
  match regionRecords views prior with
  | .error error => some (.error error)
  | .ok records => do
    let buckets := prior.map (startBucket views)
    let buckets ← processBucket geometry infillOverlap records .Sparse buckets
    let buckets ← processBucket geometry infillOverlap records .Solid buckets
    return .ok buckets

/-- `InfillOutputCollected`: the emitted paths, each with its origin. -/
structure InfillOutputCollected (F : Type) where
  sparsePaths : List (Source F × ExtrusionPath3D F)
  solidPaths : List (Source F × ExtrusionPath3D F)
  ironingPaths : List (Source F × ExtrusionPath3D F)

/-- What the linker emits: the buckets region by region, then the ironing as it was. -/
def emit (prior : List (InfillRegion F (ExtrusionPath3D F))) (buckets : List (BucketPaths F)) :
    InfillOutputCollected F where
  sparsePaths := (prior.zip buckets).flatMap fun entry =>
    entry.2.sparse.map fun path => (entry.1.source, path)
  solidPaths := (prior.zip buckets).flatMap fun entry =>
    entry.2.solid.map fun path => (entry.1.source, path)
  ironingPaths := prior.flatMap fun region =>
    region.ironing.map fun path => (region.source, path)

/-- `AuthoredColoringContext`: the tools a region may author, and its own tool. -/
structure AuthoredColoringContext (F : Type) where
  allows : Source F → Nat → Bool
  regionTools : Source F → Option Nat

/-- The tool of a committed path. -/
def committedTool (authored : Option (AuthoredColoringContext F)) (source : Source F)
    (tool : Option Nat) : Option Nat :=
  match authored with
  | none => none
  | some context => (tool.filter (context.allows source)).or (context.regionTools source)

/-- A path with its committed tool. -/
def recolor (authored : Option (AuthoredColoringContext F)) (source : Source F)
    (path : ExtrusionPath3D F) : ExtrusionPath3D F :=
  { path with toolIndex := committedTool authored source path.toolIndex }

/-- `enforce_authored_coloring` on one region. -/
def enforceAuthoredColoring (authored : Option (AuthoredColoringContext F))
    (region : InfillRegion F (ExtrusionPath3D F)) : InfillRegion F (ExtrusionPath3D F) :=
  { region with
    sparseInfill := region.sparseInfill.map (recolor authored region.source)
    solidInfill := region.solidInfill.map (recolor authored region.source)
    ironing := region.ironing.map (recolor authored region.source) }

/-- The region that a path is minted into. -/
def mintInfillRegion (source : Source F) : InfillRegion F (ExtrusionPath3D F) where
  objectId := source.1
  regionId := source.2.1
  variantChain := source.2.2

/-- The paths grouped by origin, kind by kind (`OriginBucket`). -/
def groupByOrigin (collected : InfillOutputCollected F) :
    List (InfillRegion F (ExtrusionPath3D F)) :=
  let regions := mergeInfillIr [] (collected.sparsePaths.map fun entry =>
    { mintInfillRegion entry.1 with sparseInfill := [entry.2] })
  let regions := mergeInfillIr regions (collected.solidPaths.map fun entry =>
    { mintInfillRegion entry.1 with solidInfill := [entry.2] })
  mergeInfillIr regions (collected.ironingPaths.map fun entry =>
    { mintInfillRegion entry.1 with ironing := [entry.2] })

def convertInfillOutput (authored : Option (AuthoredColoringContext F)) (layerIndex : Nat)
    (collected : InfillOutputCollected F) : InfillIR F where
  globalLayerIndex := layerIndex
  regions := (groupByOrigin collected).map (enforceAuthoredColoring authored)

/-- A run of the infill linker over the staged infill: `run_infill_postprocess` and the
conversion of its output. -/
def infillLinker (geometry : LinkGeometry F P) (infillOverlap : F)
    (views : List (PerimeterRegionView F P)) (authored : Option (AuthoredColoringContext F))
    (staged : InfillIR F) : Option (Except String (InfillIR F)) := do
  match ← orchestrateInfill geometry infillOverlap staged.regions views with
  | .error error => return .error error
  | .ok buckets =>
    return .ok (convertInfillOutput authored staged.globalLayerIndex (emit staged.regions buckets))

end PinchNPrint.Linker
