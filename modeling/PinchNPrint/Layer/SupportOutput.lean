/-
The support output of a module
(`slicer-wasm-host`: `marshal/out.rs`, `marshal/origin.rs`, `marshal/leaf.rs`).

A module pushes support, interface and raft paths, each under the origin of the slice region
that was active. The host groups them by origin and makes entries of each group: under every
identity the support plan has for the origin, one entry for each role with paths.

`support_paths_conserved_iff`: each path goes to one entry, under a planned identity, exactly
when the plan has one identity for the origin of every path. An origin with two bodies has
its paths in the entries of both (`two_bodies_duplicate_path`).
-/

import PinchNPrint.Layer.Anchored

namespace PinchNPrint.Layer

variable {F : Type}

/-! ### Paths at the module interface -/

/-- `extrusion-role`. Built-in roles that have no case travel as tags. -/
inductive WitExtrusionRole where
  | OuterWall
  | InnerWall
  | ThinWall
  | TopSolidInfill
  | BottomSolidInfill
  | SparseInfill
  | SupportMaterial
  | SupportInterface
  | SupportBaseInterface
  | Ironing
  | BridgeInfill
  | InternalBridgeInfill
  | WipeTower
  | GapFill
  | RaftInfill
  | Custom (tag : String)
deriving DecidableEq

def convertExtrusionRole : WitExtrusionRole → ExtrusionRole
  | .OuterWall => .OuterWall
  | .InnerWall => .InnerWall
  | .ThinWall => .ThinWall
  | .TopSolidInfill => .TopSolidInfill
  | .BottomSolidInfill => .BottomSolidInfill
  | .SparseInfill => .SparseInfill
  | .SupportMaterial => .SupportMaterial
  | .SupportInterface => .SupportInterface
  | .SupportBaseInterface => .SupportBaseInterface
  | .Ironing => .Ironing
  | .BridgeInfill => .BridgeInfill
  | .InternalBridgeInfill => .InternalBridgeInfill
  | .WipeTower => .WipeTower
  | .GapFill => .GapFill
  | .RaftInfill => .RaftInfill
  | .Custom "slicer.builtin/prime-tower@1" => .PrimeTower
  | .Custom "slicer.builtin/skirt@1" => .Skirt
  | .Custom "slicer.builtin/brim@1" => .Brim
  | .Custom "slicer.builtin/internal-solid-infill@1" => .InternalSolidInfill
  | .Custom tag => .Custom tag

/-- `extrusion-path3d`. -/
structure ExtrusionPath3d (F : Type) where
  points : List (Point3WithWidth F)
  role : WitExtrusionRole
  speedFactor : F
  toolIndex : Option Nat := none
  orderLock : Option Nat := none
deriving DecidableEq

/-- The path as the host has it: the same points, and the role behind the tag. -/
def ExtrusionPath3d.converted (path : ExtrusionPath3d F) : ExtrusionPath3D F where
  points := path.points
  role := convertExtrusionRole path.role
  speedFactor := path.speedFactor
  toolIndex := path.toolIndex
  orderLock := path.orderLock

section Convert

variable [ToString F] (isFinite : F → Bool)

def validateFinite (value : F) (field : String) (index : Nat) : Except String Unit :=
  if isFinite value then .ok ()
  else .error s!"point[{index}].{field} is NaN or Inf ({value})"

def convertPoint (p : Point3WithWidth F) (index : Nat) : Except String (Point3WithWidth F) := do
  validateFinite isFinite p.x "x" index
  validateFinite isFinite p.y "y" index
  validateFinite isFinite p.z "z" index
  validateFinite isFinite p.width "width" index
  validateFinite isFinite p.flowFactor "flow_factor" index
  match p.overhangDistanceMm with
  | none => .ok p
  | some d => do
      validateFinite isFinite d "overhang_distance_mm" index
      .ok p

def convertExtrusionPath (path : ExtrusionPath3d F) : Except String (ExtrusionPath3D F) :=
  if !isFinite path.speedFactor then .error s!"speed_factor is NaN or Inf ({path.speedFactor})"
  else do
    let points ← path.points.zipIdx.mapM fun (p, i) => convertPoint isFinite p i
    .ok {
      points := points
      role := convertExtrusionRole path.role
      speedFactor := path.speedFactor
      toolIndex := path.toolIndex
      orderLock := path.orderLock }

end Convert

/-! ### Origins -/

structure OriginId (F : Type) where
  objectId : ObjectId
  regionId : Nat
  variantChain : List (String × PaintValue F) := []
deriving DecidableEq

/-- `MarshalError`, of the tagged mode. -/
inductive MarshalError where
  | UntaggedPayload (kind : String) (index : Nat)
  | OriginLengthMismatch (kind : String) (origins payloads : Nat)
deriving DecidableEq

def supportUntaggedMsg (kind : String) : MarshalError → String
  | .UntaggedPayload _ index =>
      s!"{kind} path[{index}] was emitted without an active slice source region; " ++
        "guest must access a slice-region-view (object-id/region-id/polygons/" ++
        "infill-areas/effective-layer-height/z/has-nonplanar/boundary-paint) " ++
        "before pushing support output for identity-preserving commit"
  | .OriginLengthMismatch kind origins payloads =>
      s!"origin/payload length mismatch: kind={kind}, origins={origins}, payloads={payloads}"

section Bucket

variable {R T : Type} [DecidableEq F] (mint : OriginId F → R) (place : R → T → R)

/-- A payload placed in the region of its origin, which is minted on first sight. -/
def placeAt (origin : OriginId F) (payload : T) : List (OriginId F × R) → List (OriginId F × R)
  | [] => [(origin, place (mint origin) payload)]
  | (id, region) :: rest =>
      if id = origin then (id, place region payload) :: rest
      else (id, region) :: placeAt origin payload rest

/-- One round of `OriginBucket::drain`. -/
def drainPayload (kind : String) (regions : List (OriginId F × R))
    (entry : (T × Option (OriginId F)) × Nat) : Except MarshalError (List (OriginId F × R)) :=
  match entry.1.2 with
  | none => .error (.UntaggedPayload kind entry.2)
  | some origin => .ok (placeAt mint place origin entry.1.1 regions)

/-- `OriginBucket::drain`, in tagged mode. -/
def drainTagged (kind : String) (payloads : List T) (origins : List (Option (OriginId F)))
    (regions : List (OriginId F × R)) : Except MarshalError (List (OriginId F × R)) :=
  if origins.length ≠ payloads.length then
    .error (.OriginLengthMismatch kind origins.length payloads.length)
  else (payloads.zip origins).zipIdx.foldlM (drainPayload mint place kind) regions

end Bucket

/-! ### The support plan -/

/-- `SupportPlanEntry`, as far as the conversion reads it. -/
structure SupportPlanEntry (F : Type) where
  globalLayerIndex : ℤ
  objectId : ObjectId
  regionId : Nat
  familyId : String
  demandIds : List String := []
  bodyIds : List String := []
  variantChain : List (String × PaintValue F) := []
deriving DecidableEq

/-- `SupportPlanIR`, as far as the conversion reads it. -/
structure SupportPlanIR (F : Type) where
  entries : List (SupportPlanEntry F) := []
deriving DecidableEq

/-- `u32 as i32`. -/
def asI32 (n : Nat) : ℤ :=
  Int.bmod n (2 ^ 32)

/-- An identity of support: family, body and demands. -/
abbrev SupportIdentity := String × String × List String

/-- The identities of an entry; one without bodies stands for itself. -/
def SupportPlanEntry.identities (entry : SupportPlanEntry F) : List SupportIdentity :=
  let bodyIds := if entry.bodyIds.isEmpty then [""] else entry.bodyIds
  bodyIds.map fun bodyId => (entry.familyId, bodyId, entry.demandIds)

section Plan

variable [DecidableEq F]

/-- The entries of the plan for an origin on a layer, joined by the full origin. -/
def joinedEntries (plan : Option (SupportPlanIR F)) (layerIndex : Nat) (origin : OriginId F) :
    List (SupportPlanEntry F) :=
  (plan.toList.flatMap (·.entries)).filter fun entry =>
    entry.globalLayerIndex = asI32 layerIndex ∧ entry.objectId = origin.objectId ∧
      entry.regionId = origin.regionId ∧ entry.variantChain = origin.variantChain

/-- The identities the plan has for an origin on a layer. -/
def planIdentities (plan : Option (SupportPlanIR F)) (layerIndex : Nat) (origin : OriginId F) :
    List SupportIdentity :=
  (joinedEntries plan layerIndex origin).flatMap (·.identities)

end Plan

/-! ### The conversion -/

structure SupportOutputCollected (F : Type) where
  supportPaths : List (ExtrusionPath3d F) := []
  interfacePaths : List (ExtrusionPath3d F × Bool) := []
  raftPaths : List (ExtrusionPath3d F) := []
  supportPathOrigins : List (Option (OriginId F)) := []
  interfacePathOrigins : List (Option (OriginId F)) := []
  raftPathOrigins : List (Option (OriginId F)) := []

structure SupportRegion (F : Type) where
  objectId : ObjectId
  regionId : Nat
  variantChain : List (String × PaintValue F)
  familyId : String := ""
  bodyId : String := ""
  demandIds : List String := []
  support : List (ExtrusionPath3D F) := []
  interfaceTop : List (ExtrusionPath3D F) := []
  interfaceBottom : List (ExtrusionPath3D F) := []
  raft : List (ExtrusionPath3D F) := []
deriving DecidableEq

def mintSupportRegion (o : OriginId F) : SupportRegion F where
  objectId := o.objectId
  regionId := o.regionId
  variantChain := o.variantChain

namespace SupportRegion

def origin (region : SupportRegion F) : OriginId F :=
  ⟨region.objectId, region.regionId, region.variantChain⟩

/-- The paths, role by role. -/
def roles (region : SupportRegion F) : List (SupportRole × List (ExtrusionPath3D F)) :=
  [(.SupportBody, region.support), (.TopInterface, region.interfaceTop),
    (.BottomInterface, region.interfaceBottom), (.Raft, region.raft)]

def pushSupport (region : SupportRegion F) (path : ExtrusionPath3D F) : SupportRegion F :=
  { region with support := region.support ++ [path] }

def pushInterface (region : SupportRegion F) (path : ExtrusionPath3D F × Bool) : SupportRegion F :=
  if path.2 then { region with interfaceTop := region.interfaceTop ++ [path.1] }
  else { region with interfaceBottom := region.interfaceBottom ++ [path.1] }

def pushRaft (region : SupportRegion F) (path : ExtrusionPath3D F) : SupportRegion F :=
  { region with raft := region.raft ++ [path] }

/-- The entry of a role under an identity. -/
def entry (region : SupportRegion F) (identity : SupportIdentity)
    (role : SupportRole × List (ExtrusionPath3D F)) : SupportEntry F where
  familyId := identity.1
  bodyId := identity.2.1
  demandIds := identity.2.2
  objectId := region.objectId
  regionId := region.regionId
  variantChain := region.variantChain
  role := role.1
  paths := role.2

/-- The identities of a region; without a plan it has the one it was minted with. -/
def identities [DecidableEq F] (plan : Option (SupportPlanIR F)) (layerIndex : Nat)
    (region : SupportRegion F) : List SupportIdentity :=
  let planned := planIdentities plan layerIndex region.origin
  if planned.isEmpty then [(region.familyId, region.bodyId, region.demandIds)] else planned

/-- The entries of a region. -/
def entries [DecidableEq F] (plan : Option (SupportPlanIR F)) (layerIndex : Nat)
    (region : SupportRegion F) : List (SupportEntry F) :=
  (region.identities plan layerIndex).flatMap fun identity =>
    (region.roles.filter (!·.2.isEmpty)).map (region.entry identity)

end SupportRegion

/-- The entries of output without any origin. -/
def untaggedEntries (support : List (ExtrusionPath3D F))
    (interface : List (ExtrusionPath3D F × Bool)) (raft : List (ExtrusionPath3D F)) :
    List (SupportEntry F) :=
  let buckets := [(SupportRole.SupportBody, support),
    (.TopInterface, (interface.filter (·.2)).map Prod.fst),
    (.BottomInterface, (interface.filter (!·.2)).map Prod.fst), (.Raft, raft)]
  (buckets.filter (!·.2.isEmpty)).map fun bucket =>
    { familyId := "", bodyId := "", demandIds := [], objectId := "", regionId := 0,
      role := bucket.1, paths := bucket.2 }

/-- The origins of all collections. -/
def SupportOutputCollected.origins (collected : SupportOutputCollected F) :
    List (Option (OriginId F)) :=
  collected.supportPathOrigins ++ collected.interfacePathOrigins ++ collected.raftPathOrigins

section Conversion

variable [DecidableEq F]

/-- One bucket takes all three collections, so that origins are in the order of their first
path. -/
def supportRegions (collected : SupportOutputCollected F) (support : List (ExtrusionPath3D F))
    (interface : List (ExtrusionPath3D F × Bool)) (raft : List (ExtrusionPath3D F)) :
    Except String (List (OriginId F × SupportRegion F)) := do
  let regions ← (drainTagged mintSupportRegion SupportRegion.pushSupport "support" support
    collected.supportPathOrigins []).mapError (supportUntaggedMsg "support")
  let regions ← (drainTagged mintSupportRegion SupportRegion.pushInterface "interface" interface
    collected.interfacePathOrigins regions).mapError (supportUntaggedMsg "interface")
  (drainTagged mintSupportRegion SupportRegion.pushRaft "raft" raft
    collected.raftPathOrigins regions).mapError (supportUntaggedMsg "raft")

def convertSupportOutputWithPlan [ToString F] (isFinite : F → Bool)
    (collected : SupportOutputCollected F) (layerIndex : Nat) (plan : Option (SupportPlanIR F)) :
    Except String (SupportIR F) := do
  let support ← collected.supportPaths.mapM (convertExtrusionPath isFinite)
  let interface ← collected.interfacePaths.mapM fun (path, isTop) =>
    (convertExtrusionPath isFinite path).map fun path => (path, isTop)
  let raft ← collected.raftPaths.mapM (convertExtrusionPath isFinite)
  if collected.origins.any Option.isSome then
    let regions ← supportRegions collected support interface raft
    .ok { globalLayerIndex := layerIndex
          entries := regions.flatMap fun region => region.2.entries plan layerIndex }
  else
    .ok { globalLayerIndex := layerIndex, entries := untaggedEntries support interface raft }

end Conversion

/-! ### What is conserved -/

/-- A collected path: its origin, the role of its collection, and the path as the host has
it. -/
structure CollectedPath (F : Type) where
  origin : Option (OriginId F)
  role : SupportRole
  path : ExtrusionPath3D F
deriving DecidableEq

/-- The paths of a collection with their origins. -/
def collectedPaths (origins : List (Option (OriginId F)))
    (paths : List (SupportRole × ExtrusionPath3D F)) : List (CollectedPath F) :=
  paths.zipIdx.map fun (path, i) => ⟨origins[i]?.join, path.1, path.2⟩

/-- The role an interface path is pushed for. -/
def interfaceRole (isTop : Bool) : SupportRole :=
  if isTop then .TopInterface else .BottomInterface

/-- All collected paths. -/
def SupportOutputCollected.paths (collected : SupportOutputCollected F) : List (CollectedPath F) :=
  collectedPaths collected.supportPathOrigins
      (collected.supportPaths.map fun path => (.SupportBody, path.converted)) ++
    collectedPaths collected.interfacePathOrigins
      (collected.interfacePaths.map fun path => (interfaceRole path.2, path.1.converted)) ++
    collectedPaths collected.raftPathOrigins
      (collected.raftPaths.map fun path => (.Raft, path.converted))

/-- The origin of an entry. -/
def SupportEntry.origin (entry : SupportEntry F) : OriginId F :=
  ⟨entry.objectId, entry.regionId, entry.variantChain⟩

/-- The plan declares the family and the body of an entry for its origin; no body is the
empty name. -/
def Declares [DecidableEq F] (plan : Option (SupportPlanIR F)) (layerIndex : Nat)
    (entry : SupportEntry F) : Prop :=
  ∃ planned ∈ joinedEntries plan layerIndex entry.origin, planned.familyId = entry.familyId ∧
    (entry.bodyId ∈ planned.bodyIds ∨ planned.bodyIds = [] ∧ entry.bodyId = "")

/-- The path occurrences of entries. -/
def carriedPaths (entries : List (SupportEntry F)) : List (SupportEntry F × ExtrusionPath3D F) :=
  entries.flatMap fun entry => entry.paths.map fun path => (entry, path)

/-- Every collected path goes to one entry, where it stands with its role under an identity
that is declared for its origin, and nothing else is in the entries. -/
def PathsConserved [DecidableEq F] (plan : Option (SupportPlanIR F)) (layerIndex : Nat)
    (collected : List (CollectedPath F)) (entries : List (SupportEntry F)) : Prop :=
  ∃ routes : List (CollectedPath F × SupportEntry F),
    (routes.map Prod.fst).Perm collected ∧
    (routes.map fun route => (route.2, route.1.path)).Perm (carriedPaths entries) ∧
    ∀ route ∈ routes, route.1.origin = some route.2.origin ∧ route.2.role = route.1.role ∧
      Declares plan layerIndex route.2

/-- The plan has one entry for an origin on a layer, of at most one body. -/
def HasSoleIdentity [DecidableEq F] (plan : Option (SupportPlanIR F)) (layerIndex : Nat)
    (origin : OriginId F) : Prop :=
  ∃ planned, joinedEntries plan layerIndex origin = [planned] ∧ planned.bodyIds.length ≤ 1

/-! ### Conversion of paths -/

/-- Converting a list whose elements convert one by one. -/
theorem of_mapM_converted {α β : Type} {convert : α → Except String β} {f : α → β}
    (hconvert : ∀ a b, convert a = .ok b → b = f a) {l : List α} {results : List β}
    (h : l.mapM convert = .ok results) : results = l.map f := by
  have hall := (Except.forall₂_of_mapM_eq_ok h).imp fun a b hab => hconvert a b hab
  clear h
  induction hall with
  | nil => rfl
  | cons hab _ ih => rw [hab, List.map_cons, ← ih]

section Converted

variable [ToString F] {isFinite : F → Bool}

theorem of_convertPoint_ok {p q : Point3WithWidth F} {index : Nat}
    (h : convertPoint isFinite p index = .ok q) : q = p := by
  unfold convertPoint at h
  obtain ⟨_, _, h⟩ := Except.of_bind_eq_ok h
  obtain ⟨_, _, h⟩ := Except.of_bind_eq_ok h
  obtain ⟨_, _, h⟩ := Except.of_bind_eq_ok h
  obtain ⟨_, _, h⟩ := Except.of_bind_eq_ok h
  obtain ⟨_, _, h⟩ := Except.of_bind_eq_ok h
  split at h
  · cases h
    rfl
  · obtain ⟨_, _, h⟩ := Except.of_bind_eq_ok h
    cases h
    rfl

theorem of_convertExtrusionPath_ok {path : ExtrusionPath3d F} {result : ExtrusionPath3D F}
    (h : convertExtrusionPath isFinite path = .ok result) : result = path.converted := by
  unfold convertExtrusionPath at h
  split at h
  · cases h
  · obtain ⟨points, hpoints, h⟩ := Except.of_bind_eq_ok h
    cases h
    have hsame : points = path.points.zipIdx.map Prod.fst :=
      of_mapM_converted (fun _ _ => of_convertPoint_ok) hpoints
    rw [ExtrusionPath3d.converted, hsame, List.zipIdx_map_fst]

end Converted

/-! ### What a bucket holds -/

section Contents

variable {R T : Type} [DecidableEq F] {mint : OriginId F → R} {place : R → T → R}
  {pieces : R → List (SupportRole × ExtrusionPath3D F)} {piece : T → SupportRole × ExtrusionPath3D F}

/-- The pieces of a bucket, under their origins. -/
def contents (pieces : R → List (SupportRole × ExtrusionPath3D F))
    (regions : List (OriginId F × R)) : List (CollectedPath F) :=
  regions.flatMap fun region =>
    (pieces region.2).map fun piece => ⟨some region.1, piece.1, piece.2⟩

theorem contents_placeAt (hmint : ∀ origin, pieces (mint origin) = [])
    (hplace : ∀ region payload, (pieces (place region payload)).Perm
      (pieces region ++ [piece payload])) (origin : OriginId F) (payload : T)
    (regions : List (OriginId F × R)) :
    (contents pieces (placeAt mint place origin payload regions)).Perm
      (contents pieces regions ++ [⟨some origin, (piece payload).1, (piece payload).2⟩]) := by
  induction regions with
  | nil =>
    have hnew := (hplace (mint origin) payload).map
      fun piece => (⟨some origin, piece.1, piece.2⟩ : CollectedPath F)
    rw [hmint] at hnew
    simpa [placeAt, contents] using hnew
  | cons region rest ih =>
    unfold placeAt
    split
    case isTrue heq =>
      -- the payload joins the first region, before what the others hold
      have hnew := (hplace region.2 payload).map
        fun piece => (⟨some region.1, piece.1, piece.2⟩ : CollectedPath F)
      rw [List.map_append] at hnew
      rw [← heq]
      simp only [contents, List.flatMap_cons, List.append_assoc]
      refine (hnew.append_right _).trans ?_
      rw [List.append_assoc]
      exact List.perm_append_comm.append_left _
    case isFalse =>
      simp only [contents, List.flatMap_cons, List.append_assoc]
      exact ih.append_left _

variable {kind : String} {new regions : List (OriginId F × R)}

theorem contents_drainPayloads (hmint : ∀ origin, pieces (mint origin) = [])
    (hplace : ∀ region payload, (pieces (place region payload)).Perm
      (pieces region ++ [piece payload])) {n : Nat} {entries : List (T × Option (OriginId F))}
    (h : (entries.zipIdx n).foldlM (drainPayload mint place kind) regions = .ok new) :
    (contents pieces new).Perm (contents pieces regions ++
      entries.map fun entry => ⟨entry.2, (piece entry.1).1, (piece entry.1).2⟩) := by
  induction entries generalizing n regions with
  | nil =>
    cases h
    simp
  | cons entry rest ih =>
    rw [List.zipIdx_cons, List.foldlM_cons] at h
    obtain ⟨next, hnext, hrest⟩ := Except.of_bind_eq_ok h
    unfold drainPayload at hnext
    split at hnext
    · cases hnext
    · rename_i origin horigin
      cases hnext
      refine (ih hrest).trans ?_
      refine ((contents_placeAt hmint hplace origin entry.1 regions).append_right _).trans ?_
      have horigin' : entry.2 = some origin := horigin
      rw [List.append_assoc, List.map_cons, horigin']
      rfl

omit [DecidableEq F] in
theorem collectedPaths_of_length {origins : List (Option (OriginId F))}
    {paths : List (SupportRole × ExtrusionPath3D F)} (h : origins.length = paths.length) :
    collectedPaths origins paths =
      (paths.zip origins).map fun entry => ⟨entry.2, entry.1.1, entry.1.2⟩ := by
  apply List.ext_getElem?
  intro i
  rw [collectedPaths, List.getElem?_map, List.getElem?_zipIdx, List.getElem?_map, List.zip,
    List.getElem?_zipWith]
  rcases Nat.lt_or_ge i paths.length with hi | hi
  · rw [List.getElem?_eq_getElem hi, List.getElem?_eq_getElem (h ▸ hi : i < origins.length)]
    simp [h ▸ hi]
  · rw [List.getElem?_eq_none hi]
    rfl

/-- What draining a collection adds to a bucket: its paths, all of which have an origin. -/
theorem contents_drainTagged (hmint : ∀ origin, pieces (mint origin) = [])
    (hplace : ∀ region payload, (pieces (place region payload)).Perm
      (pieces region ++ [piece payload])) {payloads : List T} {origins : List (Option (OriginId F))}
    (h : drainTagged mint place kind payloads origins regions = .ok new) :
    (contents pieces new).Perm
      (contents pieces regions ++ collectedPaths origins (payloads.map piece)) := by
  unfold drainTagged at h
  split at h
  · cases h
  · rename_i hlength
    have hlength : origins.length = payloads.length := not_not.mp hlength
    have hpaths : collectedPaths origins (payloads.map piece) =
        (payloads.zip origins).map
          fun entry => ⟨entry.2, (piece entry.1).1, (piece entry.1).2⟩ := by
      rw [collectedPaths_of_length (by simpa using hlength), List.zip_map_left, List.map_map]
      rfl
    rw [hpaths]
    exact contents_drainPayloads hmint hplace h

/-- A relation of ids and regions that minting starts and placing keeps. -/
theorem drainTagged_invariant {P : OriginId F → R → Prop} (hmint : ∀ origin, P origin (mint origin))
    (hplace : ∀ origin region payload, P origin region → P origin (place region payload))
    {payloads : List T} {origins : List (Option (OriginId F))}
    (hregions : ∀ region ∈ regions, P region.1 region.2)
    (h : drainTagged mint place kind payloads origins regions = .ok new) :
    ∀ region ∈ new, P region.1 region.2 := by
  have hplaceAt : ∀ origin payload (regions : List (OriginId F × R)),
      (∀ region ∈ regions, P region.1 region.2) →
        ∀ region ∈ placeAt mint place origin payload regions, P region.1 region.2 := by
    intro origin payload regions hregions
    induction regions with
    | nil =>
      simp only [placeAt, List.forall_mem_singleton]
      exact hplace _ _ _ (hmint origin)
    | cons region rest ih =>
      obtain ⟨hfirst, hrest⟩ := List.forall_mem_cons.mp hregions
      unfold placeAt
      split
      · exact List.forall_mem_cons.mpr ⟨hplace _ _ _ hfirst, hrest⟩
      · exact List.forall_mem_cons.mpr ⟨hfirst, ih hrest⟩
  unfold drainTagged at h
  split at h
  · cases h
  · refine Except.foldlM_invariant (P := fun regions => ∀ region ∈ regions, P region.1 region.2)
      ?_ hregions h
    intro entry _ regions next hregions hnext
    unfold drainPayload at hnext
    split at hnext
    · cases hnext
    · cases hnext
      exact hplaceAt _ _ regions hregions

end Contents

/-! ### The regions of tagged output -/

namespace SupportRegion

/-- The paths of a region with their roles. -/
def pieces (region : SupportRegion F) : List (SupportRole × ExtrusionPath3D F) :=
  region.roles.flatMap fun role => role.2.map fun path => (role.1, path)

theorem pieces_eq (region : SupportRegion F) : region.pieces =
    region.support.map (.SupportBody, ·) ++ (region.interfaceTop.map (.TopInterface, ·) ++
      (region.interfaceBottom.map (.BottomInterface, ·) ++ region.raft.map (.Raft, ·))) := by
  simp [pieces, roles]

theorem pieces_mint (origin : OriginId F) : (mintSupportRegion origin).pieces = [] :=
  rfl

/-- A piece behind the first part is a piece at the end. -/
theorem perm_piece {α : Type} (before : List α) (piece : α) (after : List α) :
    (before ++ [piece] ++ after).Perm (before ++ after ++ [piece]) := by
  rw [List.append_assoc, List.append_assoc]
  exact List.perm_append_comm.append_left before

theorem pieces_pushSupport (region : SupportRegion F) (path : ExtrusionPath3D F) :
    (region.pushSupport path).pieces.Perm (region.pieces ++ [(.SupportBody, path)]) := by
  rw [pieces_eq, pieces_eq, pushSupport, List.map_append]
  exact perm_piece _ _ _

theorem pieces_pushInterface (region : SupportRegion F) (path : ExtrusionPath3D F × Bool) :
    (region.pushInterface path).pieces.Perm
      (region.pieces ++ [(interfaceRole path.2, path.1)]) := by
  unfold pushInterface interfaceRole
  cases path.2 with
  | true =>
    have hpiece := (perm_piece (region.interfaceTop.map (SupportRole.TopInterface, ·))
      (.TopInterface, path.1) (region.interfaceBottom.map (SupportRole.BottomInterface, ·) ++
        region.raft.map (SupportRole.Raft, ·))).append_left
          (region.support.map (SupportRole.SupportBody, ·))
    simpa only [if_true, pieces_eq, List.map_append, List.map_cons, List.map_nil,
      List.append_assoc] using hpiece
  | false =>
    have hpiece := (perm_piece (region.interfaceBottom.map (SupportRole.BottomInterface, ·))
      (.BottomInterface, path.1) (region.raft.map (SupportRole.Raft, ·))).append_left
        (region.support.map (SupportRole.SupportBody, ·) ++
          region.interfaceTop.map (SupportRole.TopInterface, ·))
    simpa only [Bool.false_eq_true, if_false, pieces_eq, List.map_append, List.map_cons,
      List.map_nil, List.append_assoc] using hpiece

theorem pieces_pushRaft (region : SupportRegion F) (path : ExtrusionPath3D F) :
    (region.pushRaft path).pieces.Perm (region.pieces ++ [(.Raft, path)]) := by
  simp [pieces_eq, pushRaft]

theorem origin_pushInterface (region : SupportRegion F) (path : ExtrusionPath3D F × Bool) :
    (region.pushInterface path).origin = region.origin := by
  unfold pushInterface
  split <;> rfl

end SupportRegion

section Regions

variable [DecidableEq F] {collected : SupportOutputCollected F}
  {support raft : List (ExtrusionPath3D F)} {interface : List (ExtrusionPath3D F × Bool)}
  {regions : List (OriginId F × SupportRegion F)}

theorem contents_supportRegions (h : supportRegions collected support interface raft = .ok regions) :
    (contents SupportRegion.pieces regions).Perm
      (collectedPaths collected.supportPathOrigins (support.map (.SupportBody, ·)) ++
        collectedPaths collected.interfacePathOrigins
          (interface.map fun path => (interfaceRole path.2, path.1)) ++
        collectedPaths collected.raftPathOrigins (raft.map (.Raft, ·))) := by
  unfold supportRegions at h
  obtain ⟨bodies, hbodies, h⟩ := Except.of_bind_eq_ok h
  obtain ⟨interfaces, hinterfaces, h⟩ := Except.of_bind_eq_ok h
  have hfirst := contents_drainTagged SupportRegion.pieces_mint SupportRegion.pieces_pushSupport
    (Except.of_mapError_eq_ok hbodies)
  have hsecond := contents_drainTagged SupportRegion.pieces_mint SupportRegion.pieces_pushInterface
    (Except.of_mapError_eq_ok hinterfaces)
  have hthird := contents_drainTagged SupportRegion.pieces_mint SupportRegion.pieces_pushRaft
    (Except.of_mapError_eq_ok h)
  exact hthird.trans ((hsecond.trans (hfirst.append_right _)).append_right _)

theorem origin_supportRegions (h : supportRegions collected support interface raft = .ok regions) :
    ∀ region ∈ regions, region.2.origin = region.1 := by
  unfold supportRegions at h
  obtain ⟨bodies, hbodies, h⟩ := Except.of_bind_eq_ok h
  obtain ⟨interfaces, hinterfaces, h⟩ := Except.of_bind_eq_ok h
  let P := fun id (region : SupportRegion F) => region.origin = id
  have hmint : ∀ origin, P origin (mintSupportRegion origin) := fun _ => rfl
  have hbodies : ∀ region ∈ bodies, P region.1 region.2 := by
    refine drainTagged_invariant hmint ?_ (by simp) (Except.of_mapError_eq_ok hbodies)
    exact fun _ _ _ h => h
  have hinterfaces : ∀ region ∈ interfaces, P region.1 region.2 := by
    refine drainTagged_invariant hmint ?_ hbodies (Except.of_mapError_eq_ok hinterfaces)
    exact fun _ _ _ h => (SupportRegion.origin_pushInterface _ _).trans h
  refine drainTagged_invariant hmint ?_ hinterfaces (Except.of_mapError_eq_ok h)
  exact fun _ _ _ h => h

variable {plan : Option (SupportPlanIR F)} {layerIndex : Nat}

/-- The paths of a region in the entries of an identity. -/
def SupportRegion.occurrences (region : SupportRegion F) (identity : SupportIdentity) :
    List (SupportEntry F × ExtrusionPath3D F) :=
  region.roles.flatMap fun role => role.2.map fun path => (region.entry identity role, path)

omit [DecidableEq F] in
theorem length_occurrences (region : SupportRegion F) (identity : SupportIdentity) :
    (region.occurrences identity).length = region.pieces.length := by
  simp [SupportRegion.occurrences, SupportRegion.pieces, List.length_flatMap]

/-- What the entries of a region carry: its paths, once for each identity. -/
theorem carriedPaths_entries (region : SupportRegion F) :
    carriedPaths (region.entries plan layerIndex) =
      (region.identities plan layerIndex).flatMap region.occurrences := by
  unfold carriedPaths SupportRegion.entries
  rw [List.flatMap_assoc]
  congr 1
  funext identity
  rw [List.flatMap_map, SupportRegion.occurrences]
  -- a role without paths carries nothing
  generalize region.roles = roles
  induction roles with
  | nil => rfl
  | cons role rest ih =>
    rw [List.filter_cons, List.flatMap_cons]
    cases hpaths : role.2 with
    | nil => simpa [hpaths] using ih
    | cons path paths => simpa [hpaths, SupportRegion.entry] using ih

omit [DecidableEq F] in
/-- An entry of the plan has an identity, and one only when it has no second body. -/
theorem length_identities (entry : SupportPlanEntry F) :
    1 ≤ entry.identities.length ∧ (entry.identities.length = 1 ↔ entry.bodyIds.length ≤ 1) := by
  unfold SupportPlanEntry.identities
  cases hbodies : entry.bodyIds with
  | nil => simp
  | cons body rest =>
    simp only [List.isEmpty_cons, Bool.false_eq_true, if_false, List.length_map, List.length_cons]
    omega

/-- One identity comes from one entry. -/
theorem hasSoleIdentity_iff {origin : OriginId F} :
    HasSoleIdentity plan layerIndex origin ↔ (planIdentities plan layerIndex origin).length = 1 := by
  unfold HasSoleIdentity planIdentities
  cases hjoined : joinedEntries plan layerIndex origin with
  | nil => simp
  | cons entry rest =>
    have hentry := length_identities entry
    cases rest with
    | nil => simp [hentry.2]
    | cons next rest =>
      have hnext := length_identities next
      simp only [List.cons.injEq, List.flatMap_cons, List.length_append, reduceCtorEq, and_false,
        false_and, exists_false, false_iff]
      omega

end Regions

/-! ### Where paths go -/

section Conserved

variable [DecidableEq F] {plan : Option (SupportPlanIR F)} {layerIndex : Nat}
  {collected : List (CollectedPath F)} {regions : List (OriginId F × SupportRegion F)}

/-- The entries of the regions. -/
def regionEntries (plan : Option (SupportPlanIR F)) (layerIndex : Nat)
    (regions : List (OriginId F × SupportRegion F)) : List (SupportEntry F) :=
  regions.flatMap fun region => region.2.entries plan layerIndex

theorem carriedPaths_regionEntries : carriedPaths (regionEntries plan layerIndex regions) =
    regions.flatMap fun region => carriedPaths (region.2.entries plan layerIndex) := by
  unfold carriedPaths regionEntries
  rw [List.flatMap_assoc]

theorem declares_of_identity {region : SupportRegion F} {identity : SupportIdentity}
    {role : SupportRole × List (ExtrusionPath3D F)}
    (h : identity ∈ planIdentities plan layerIndex region.origin) :
    Declares plan layerIndex (region.entry identity role) := by
  obtain ⟨planned, hplanned, hidentity⟩ := List.mem_flatMap.mp h
  refine ⟨planned, hplanned, ?_⟩
  unfold SupportPlanEntry.identities at hidentity
  obtain ⟨body, hbody, rfl⟩ := List.mem_map.mp hidentity
  refine ⟨rfl, ?_⟩
  cases hbodies : planned.bodyIds with
  | nil =>
    rw [hbodies, List.isEmpty_nil, if_pos rfl] at hbody
    exact .inr ⟨rfl, List.mem_singleton.mp hbody⟩
  | cons first rest =>
    rw [hbodies, List.isEmpty_cons, if_neg Bool.false_ne_true] at hbody
    exact .inl hbody

theorem planIdentities_ne_nil {entry : SupportEntry F} (h : Declares plan layerIndex entry) :
    planIdentities plan layerIndex entry.origin ≠ [] := by
  obtain ⟨planned, hplanned, _⟩ := h
  intro hnil
  have hnone := List.flatMap_eq_nil_iff.mp hnil planned hplanned
  have hsome := (length_identities planned).1
  rw [hnone] at hsome
  cases hsome

/-- The routes of a region under an identity. -/
def regionRoutes (region : SupportRegion F) (identity : SupportIdentity) :
    List (CollectedPath F × SupportEntry F) :=
  region.roles.flatMap fun role => role.2.map fun path =>
    (⟨some region.origin, role.1, path⟩, region.entry identity role)

omit [DecidableEq F] in
theorem map_regionRoutes (region : SupportRegion F) (identity : SupportIdentity) :
    (regionRoutes region identity).map (fun route => (route.2, route.1.path)) =
      region.occurrences identity := by
  simp only [regionRoutes, SupportRegion.occurrences, List.map_flatMap, List.map_map]
  rfl

/-- A region with one planned identity has no other. -/
theorem exists_identities_eq {region : SupportRegion F}
    (h : (planIdentities plan layerIndex region.origin).length = 1) :
    ∃ identity ∈ planIdentities plan layerIndex region.origin,
      region.identities plan layerIndex = [identity] := by
  obtain ⟨identity, hidentity⟩ := List.length_eq_one_iff.mp h
  refine ⟨identity, by simp [hidentity], ?_⟩
  simp [SupportRegion.identities, hidentity]

theorem pathsConserved_of_sole (horigin : ∀ region ∈ regions, region.2.origin = region.1)
    (hcontents : (contents SupportRegion.pieces regions).Perm collected)
    (hsole : ∀ region ∈ regions, region.2.pieces ≠ [] →
      (planIdentities plan layerIndex region.2.origin).length = 1) :
    PathsConserved plan layerIndex collected (regionEntries plan layerIndex regions) := by
  let identity := fun region : SupportRegion F =>
    (region.identities plan layerIndex).headD ("", "", [])
  refine ⟨regions.flatMap fun region => regionRoutes region.2 (identity region.2), ?_, ?_, ?_⟩
  · refine List.Perm.trans (List.Perm.of_eq ?_) hcontents
    rw [List.map_flatMap, contents]
    apply List.flatMap_congr
    intro region hregion
    simp only [regionRoutes, SupportRegion.pieces, List.map_flatMap, List.map_map,
      horigin region hregion]
    rfl
  · apply List.Perm.of_eq
    rw [carriedPaths_regionEntries, List.map_flatMap]
    apply List.flatMap_congr
    intro region hregion
    rw [carriedPaths_entries, map_regionRoutes]
    by_cases hpieces : region.2.pieces = []
    · -- a region without paths is in no entry
      have hnil : ∀ identity, region.2.occurrences identity = [] := by
        intro identity
        rw [← List.length_eq_zero_iff, length_occurrences, hpieces, List.length_nil]
      simp [hnil]
    · obtain ⟨_, _, hidentities⟩ := exists_identities_eq (hsole region hregion hpieces)
      simp [identity, hidentities]
  · intro route hroute
    obtain ⟨region, hregion, hroute⟩ := List.mem_flatMap.mp hroute
    obtain ⟨role, hrole, hroute⟩ := List.mem_flatMap.mp hroute
    obtain ⟨path, hpath, rfl⟩ := List.mem_map.mp hroute
    have hpieces : region.2.pieces ≠ [] := List.ne_nil_of_mem
      (List.mem_flatMap.mpr ⟨role, hrole, List.mem_map_of_mem hpath⟩)
    obtain ⟨sole, hsole, hidentities⟩ := exists_identities_eq (hsole region hregion hpieces)
    have hidentity : identity region.2 = sole := by simp [identity, hidentities]
    refine ⟨rfl, rfl, declares_of_identity ?_⟩
    rwa [hidentity]

/-- Sums that agree although no summand exceeds its counterpart agree term by term. -/
theorem eq_of_sum_map_eq {α : Type} {f g : α → Nat} {l : List α} (hle : ∀ a ∈ l, f a ≤ g a)
    (hsum : (l.map g).sum = (l.map f).sum) : ∀ a ∈ l, g a = f a := by
  induction l with
  | nil => simp
  | cons a rest ih =>
    obtain ⟨hfirst, hrest⟩ := List.forall_mem_cons.mp hle
    have hlater : (rest.map f).sum ≤ (rest.map g).sum := List.sum_le_sum hrest
    simp only [List.map_cons, List.sum_cons] at hsum
    exact List.forall_mem_cons.mpr ⟨by omega, ih hrest (by omega)⟩

/-- If all paths are conserved, every region with paths has one identity: the entries have
as many paths as the regions. -/
theorem length_identities_of_conserved
    (hcontents : (contents SupportRegion.pieces regions).Perm collected)
    (h : PathsConserved plan layerIndex collected (regionEntries plan layerIndex regions)) :
    ∀ region ∈ regions, region.2.pieces ≠ [] →
      (region.2.identities plan layerIndex).length = 1 := by
  obtain ⟨routes, hroutes, hcarried, _⟩ := h
  have hlength : (carriedPaths (regionEntries plan layerIndex regions)).length =
      (contents SupportRegion.pieces regions).length := by
    rw [← hcarried.length_eq, List.length_map, hcontents.length_eq, ← hroutes.length_eq,
      List.length_map]
  have hcarry : ∀ region : OriginId F × SupportRegion F,
      (carriedPaths (region.2.entries plan layerIndex)).length =
        (region.2.identities plan layerIndex).length * region.2.pieces.length := by
    intro region
    simp [carriedPaths_entries, List.length_flatMap, length_occurrences]
  have hsome : ∀ region : SupportRegion F, 1 ≤ (region.identities plan layerIndex).length := by
    intro region
    unfold SupportRegion.identities
    dsimp only
    split
    · exact le_rfl
    · rename_i hplanned
      rw [List.isEmpty_iff] at hplanned
      exact List.length_pos_iff.mpr hplanned
  have hsum : (regions.map fun region =>
      (region.2.identities plan layerIndex).length * region.2.pieces.length).sum =
        (regions.map fun region => region.2.pieces.length).sum := by
    rw [carriedPaths_regionEntries, contents, List.length_flatMap, List.length_flatMap] at hlength
    simpa only [hcarry, List.length_map] using hlength
  intro region hregion hpieces
  have hle : ∀ region ∈ regions, region.2.pieces.length ≤
      (region.2.identities plan layerIndex).length * region.2.pieces.length :=
    fun region _ => Nat.le_mul_of_pos_left _ (hsome region.2)
  have heq := eq_of_sum_map_eq hle hsum region hregion
  exact (Nat.mul_eq_right (List.length_pos_iff.mpr hpieces).ne').mp heq

omit [DecidableEq F] in
theorem origin_of_untagged {output : SupportOutputCollected F}
    (h : ¬ output.origins.any Option.isSome = true) {path : CollectedPath F}
    (hpath : path ∈ output.paths) : path.origin = none := by
  have hnone : ∀ origins : List (Option (OriginId F)), (∀ origin ∈ origins, origin ∈ output.origins) →
      ∀ (i : Nat), origins[i]?.join = none := by
    intro origins hsub i
    cases horigin : origins[i]? with
    | none => rfl
    | some origin =>
      cases origin with
      | none => rfl
      | some origin =>
        exact absurd (List.any_eq_true.mpr ⟨_, hsub _ (List.mem_of_getElem? horigin), rfl⟩) h
  unfold SupportOutputCollected.origins at hnone
  have hcollection : ∀ (origins : List (Option (OriginId F)))
      (paths : List (SupportRole × ExtrusionPath3D F)),
      (∀ i : Nat, origins[i]?.join = none) → path ∈ collectedPaths origins paths →
        path.origin = none := by
    intro origins paths hjoin hmem
    obtain ⟨entry, _, rfl⟩ := List.mem_map.mp hmem
    exact hjoin entry.2
  rcases List.mem_append.mp hpath with hpath | hpath
  · rcases List.mem_append.mp hpath with hpath | hpath
    · exact hcollection _ _ (hnone _ fun origin h => by simp [h]) hpath
    · exact hcollection _ _ (hnone _ fun origin h => by simp [h]) hpath
  · exact hcollection _ _ (hnone _ fun origin h => by simp [h]) hpath

/-- The conversion sends every path to one entry, under an identity declared for its origin,
exactly if each path has an origin with one planned identity. -/
theorem support_paths_conserved_iff [ToString F] (isFinite : F → Bool)
    (collected : SupportOutputCollected F) (layerIndex : Nat) (plan : Option (SupportPlanIR F))
    (ir : SupportIR F)
    (h : convertSupportOutputWithPlan isFinite collected layerIndex plan = .ok ir) :
    PathsConserved plan layerIndex collected.paths ir.entries ↔
      ∀ path ∈ collected.paths, ∃ origin, path.origin = some origin ∧
        HasSoleIdentity plan layerIndex origin := by
  unfold convertSupportOutputWithPlan at h
  obtain ⟨support, hsupport, h⟩ := Except.of_bind_eq_ok h
  obtain ⟨interface, hinterface, h⟩ := Except.of_bind_eq_ok h
  obtain ⟨raft, hraft, h⟩ := Except.of_bind_eq_ok h
  have hsupport : support = collected.supportPaths.map (·.converted) :=
    of_mapM_converted (fun _ _ => of_convertExtrusionPath_ok) hsupport
  have hraft : raft = collected.raftPaths.map (·.converted) :=
    of_mapM_converted (fun _ _ => of_convertExtrusionPath_ok) hraft
  have hinterface : interface = collected.interfacePaths.map fun path => (path.1.converted, path.2) := by
    refine of_mapM_converted ?_ hinterface
    rintro ⟨path, isTop⟩ result hresult
    dsimp only at hresult
    cases hconverted : convertExtrusionPath isFinite path with
    | error error =>
      rw [hconverted] at hresult
      cases hresult
    | ok converted =>
      rw [hconverted] at hresult
      cases hresult
      rw [of_convertExtrusionPath_ok hconverted]
  split at h
  case isTrue htagged =>
    obtain ⟨regions, hregions, h⟩ := Except.of_bind_eq_ok h
    cases h
    have horigin := origin_supportRegions hregions
    have hcontents := contents_supportRegions hregions
    rw [hsupport, hinterface, hraft, List.map_map, List.map_map, List.map_map] at hcontents
    have hcollected : (contents SupportRegion.pieces regions).Perm collected.paths := hcontents
    constructor
    · intro hconserved path hpath
      obtain ⟨region, hregion, hpiece⟩ := List.mem_flatMap.mp (hcollected.mem_iff.mpr hpath)
      obtain ⟨piece, hmem, rfl⟩ := List.mem_map.mp hpiece
      have hone := length_identities_of_conserved hcollected hconserved region hregion
        (List.ne_nil_of_mem hmem)
      -- the path's entry has a declared identity, so the region's identities are planned
      obtain ⟨routes, hroutes, _, hrouted⟩ := hconserved
      obtain ⟨route, hroute, hfst⟩ := List.mem_map.mp (hroutes.mem_iff.mpr hpath)
      obtain ⟨hsame, _, hdeclares⟩ := hrouted route hroute
      rw [hfst] at hsame
      have hplanned := planIdentities_ne_nil hdeclares
      rw [← Option.some.inj hsame, ← horigin region hregion] at hplanned
      rw [SupportRegion.identities, if_neg (by rwa [List.isEmpty_iff])] at hone
      rw [horigin region hregion] at hone
      exact ⟨region.1, rfl, hasSoleIdentity_iff.mpr hone⟩
    · intro hsole
      refine pathsConserved_of_sole horigin hcollected fun region hregion hpieces => ?_
      obtain ⟨piece, hpiece⟩ := List.exists_mem_of_ne_nil _ hpieces
      have hpath := hcollected.mem_iff.mp
        (List.mem_flatMap.mpr ⟨region, hregion, List.mem_map_of_mem hpiece⟩)
      obtain ⟨origin, hsome, hidentity⟩ := hsole _ hpath
      rw [horigin region hregion, Option.some.inj hsome]
      exact hasSoleIdentity_iff.mp hidentity
  case isFalse htagged =>
    cases h
    constructor
    · rintro ⟨routes, hroutes, _, hrouted⟩ path hpath
      obtain ⟨route, hroute, rfl⟩ := List.mem_map.mp (hroutes.mem_iff.mpr hpath)
      have hsome := (hrouted route hroute).1
      rw [origin_of_untagged htagged hpath] at hsome
      cases hsome
    · intro hsole
      have hnil : collected.paths = [] := by
        apply List.eq_nil_iff_forall_not_mem.mpr
        intro path hpath
        obtain ⟨origin, hsome, _⟩ := hsole path hpath
        rw [origin_of_untagged htagged hpath] at hsome
        cases hsome
      have hempty := hnil
      simp only [SupportOutputCollected.paths, collectedPaths, List.append_eq_nil_iff,
        List.map_eq_nil_iff, List.zipIdx_eq_nil_iff] at hempty
      obtain ⟨⟨hnosupport, hnointerface⟩, hnoraft⟩ := hempty
      rw [hsupport, hinterface, hraft, hnosupport, hnointerface, hnoraft, hnil]
      exact ⟨[], List.Perm.refl _, List.Perm.refl _, by simp⟩

end Conserved

/-! ### One body and two -/

/-- A support path of no points, pushed under region 0 of the object. -/
def onePath : SupportOutputCollected ℚ where
  supportPaths := [{ points := [], role := .SupportMaterial, speedFactor := 1 }]
  supportPathOrigins := [some ⟨"object", 0, []⟩]

/-- A plan with one entry for that region on layer 0. -/
def onePlan (bodyIds : List String) : SupportPlanIR ℚ where
  entries := [{ globalLayerIndex := 0, objectId := "object", regionId := 0, familyId := "tree",
                bodyIds := bodyIds }]

/-- A line along the x axis. -/
def supportLine (y : ℚ) : ExtrusionPath3d ℚ where
  points := [0, 10].map fun x =>
    { x, y, z := 1 / 5, width := 2 / 5, flowFactor := 1, distToTopMm := 0 }
  role := .SupportMaterial
  speedFactor := 1

/-- Two lines of the body, one of the interface and one of the raft, all of region 0. -/
def fourLines : SupportOutputCollected ℚ where
  supportPaths := [supportLine 0, supportLine 1]
  supportPathOrigins := [some ⟨"object", 0, []⟩, some ⟨"object", 0, []⟩]
  interfacePaths := [(supportLine 2, true)]
  interfacePathOrigins := [some ⟨"object", 0, []⟩]
  raftPaths := [supportLine 3]
  raftPathOrigins := [some ⟨"object", 0, []⟩]

/-- With one body the lines are conserved. -/
theorem support_paths_conserved_one_body :
    ∃ ir, convertSupportOutputWithPlan (fun _ => true) fourLines 0 (some (onePlan ["a"])) = .ok ir ∧
      PathsConserved (some (onePlan ["a"])) 0 fourLines.paths ir.entries := by
  refine ⟨_, rfl, (support_paths_conserved_iff (fun _ => true) fourLines 0
    (some (onePlan ["a"])) _ rfl).mpr fun path hpath => ⟨⟨"object", 0, []⟩, ?_, _, rfl, le_rfl⟩⟩
  revert path
  decide +kernel

/-- With two bodies the path is in the entries of both. -/
theorem two_bodies_duplicate_path :
    ∃ ir, convertSupportOutputWithPlan (fun _ => true) onePath 0 (some (onePlan ["a", "b"])) =
        .ok ir ∧
      ¬ PathsConserved (some (onePlan ["a", "b"])) 0 onePath.paths ir.entries := by
  refine ⟨_, rfl, ?_⟩
  rintro ⟨routes, hroutes, hcarried, _⟩
  have hone := hroutes.length_eq
  have htwo := hcarried.length_eq
  rw [List.length_map] at hone htwo
  exact absurd (hone.symm.trans htwo) (by decide)

end PinchNPrint.Layer
