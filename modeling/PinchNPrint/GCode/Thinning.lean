/-
The points the emitter prints of a path (`slicer-gcode`: `emit.rs`, `serialize.rs`).

A path without an order lock is thinned. The helpers return coordinates, so the
emitter looks each of them up again, from behind the vertex it found last. That finds
the kept vertices themselves exactly when no dropped vertex before one of them has the
same coordinates (`keeps_own_vertices_iff`).
-/

import PinchNPrint.GCode.Command
import PinchNPrint.GCode.Decimate

namespace PinchNPrint.GCode

open PinchNPrint.Layer

variable {F α : Type} [Field F] [LinearOrder F]

/-! ### The points of a path -/

def toleranceForRole (role : ExtrusionRole) (config : ResolvedConfig F) : F :=
  match role with
  | .OuterWall | .InnerWall | .ThinWall | .Skirt | .Brim => config.gcodeResolution
  | .SparseInfill | .TopSolidInfill | .BottomSolidInfill | .InternalSolidInfill | .BridgeInfill
  | .InternalBridgeInfill | .Ironing | .WipeTower | .PrimeTower => config.infillResolution
  | .SupportMaterial | .SupportInterface | .SupportBaseInterface => config.supportResolution
  | .Custom _ => 0
  | .GapFill => config.gcodeResolution
  | .RaftInfill => config.gcodeResolution

/-- The coordinates that decide what is kept. -/
def planar (point : Point3WithWidth F) : F × F :=
  (point.x, point.y)

/-- What the helpers keep of the vertices of a path. -/
def thin (config : ResolvedConfig F) (role : ExtrusionRole) (xy : α → F × F) (vertices : List α) :
    List α :=
  let tolerance := toleranceForRole role config
  let simplified := if 0 < tolerance then simplifyPolylineMm xy vertices tolerance else vertices
  if 0 < config.minSegmentLength ∧ ¬ isTravel role then
    dropShortSegmentsMm xy simplified config.minSegmentLength
  else simplified

/-- The first point from `searchFrom` on with the coordinates, and its index. -/
def findPoint (points : List (Point3WithWidth F)) (searchFrom : Nat) (key : F × F) :
    Option (Point3WithWidth F × Nat) :=
  (points.zipIdx.drop searchFrom).find? fun entry => planar entry.1 = key

/-- Looks the kept coordinates up again, each behind the one before. -/
def recoverPoints (points : List (Point3WithWidth F)) :
    Nat → List (F × F) → List (Point3WithWidth F × Nat)
  | _, [] => []
  | searchFrom, key :: keys =>
      match findPoint points searchFrom key with
      | some found => found :: recoverPoints points (found.2 + 1) keys
      | none => recoverPoints points searchFrom keys

/-- The points of the path that are printed, with their indices in the path. -/
def simplifiedPoints (config : ResolvedConfig F) (path : ExtrusionPath3D F) :
    List (Point3WithWidth F × Nat) :=
  if path.orderLock.isSome then path.points.zipIdx
  else if 2 ≤ path.points.length then
    recoverPoints path.points 0 (thin config path.role id (path.points.map planar))
  else path.points.zipIdx

/-- The vertices the helpers keep, with their indices in the path. -/
def retainedPoints (config : ResolvedConfig F) (path : ExtrusionPath3D F) :
    List (Point3WithWidth F × Nat) :=
  thin config path.role (fun vertex => planar vertex.1) path.points.zipIdx

/-! ### Recovering the indices -/

section Recovery

variable {points : List (Point3WithWidth F)} {searchFrom : Nat} {key : F × F}

omit [Field F] [LinearOrder F] in
theorem getElem?_drop_zipIdx {i : Nat} {entry : Point3WithWidth F × Nat} :
    (points.zipIdx.drop searchFrom)[i]? = some entry ↔
      entry.2 = searchFrom + i ∧ points[searchFrom + i]? = some entry.1 := by
  rw [List.getElem?_drop, List.getElem?_zipIdx, Option.map_eq_some_iff]
  constructor
  · rintro ⟨p, hp, rfl⟩
    exact ⟨Nat.zero_add _, hp⟩
  · rintro ⟨hindex, hp⟩
    exact ⟨entry.1, hp, by rw [Nat.zero_add, ← hindex]⟩

omit [Field F] in
/-- A point further on is found, or one before it. -/
theorem findPoint_ne_none {vertex : Point3WithWidth F × Nat} (hstart : searchFrom ≤ vertex.2)
    (hp : points[vertex.2]? = some vertex.1) :
    findPoint points searchFrom (planar vertex.1) ≠ none := by
  have hshift : searchFrom + (vertex.2 - searchFrom) = vertex.2 := by omega
  have hentry := getElem?_drop_zipIdx.mpr ⟨hshift.symm, by rwa [hshift]⟩
  intro hnone
  have hne := List.find?_eq_none.mp hnone vertex (List.mem_of_getElem? hentry)
  simp at hne

omit [Field F] in
theorem findPoint_eq_some_iff {vertex : Point3WithWidth F × Nat} :
    findPoint points searchFrom key = some vertex ↔
      searchFrom ≤ vertex.2 ∧ points[vertex.2]? = some vertex.1 ∧ planar vertex.1 = key ∧
        ∀ i p, searchFrom ≤ i → i < vertex.2 → points[i]? = some p → planar p ≠ key := by
  rw [findPoint, List.find?_eq_some_iff_getElem]
  constructor
  · rintro ⟨hkey, i, hi, hget, hnone⟩
    obtain ⟨hindex, hp⟩ := getElem?_drop_zipIdx.mp (List.getElem?_eq_some_iff.mpr ⟨hi, hget⟩)
    refine ⟨by omega, hindex ▸ hp, by simpa using hkey, fun j p hj hj' hp' => ?_⟩
    have hshift : searchFrom + (j - searchFrom) = j := by omega
    obtain ⟨hlt, hearlier⟩ := List.getElem?_eq_some_iff.mp
      (getElem?_drop_zipIdx.mpr ⟨hshift.symm, by rwa [hshift]⟩ :
        (points.zipIdx.drop searchFrom)[j - searchFrom]? = some (p, j))
    have hne := hnone (j - searchFrom) (by omega)
    rw [hearlier] at hne
    simpa using hne
  · rintro ⟨hstart, hp, hkey, hnone⟩
    have hshift : searchFrom + (vertex.2 - searchFrom) = vertex.2 := by omega
    obtain ⟨hlt, hget⟩ := List.getElem?_eq_some_iff.mp (getElem?_drop_zipIdx.mpr ⟨hshift.symm, by rwa [hshift]⟩)
    refine ⟨by simpa using hkey, vertex.2 - searchFrom, hlt, hget, fun j hj => ?_⟩
    obtain ⟨hindex, hp'⟩ := getElem?_drop_zipIdx.mp (List.getElem?_eq_getElem (hj.trans hlt))
    have hne := hnone (searchFrom + j) _ (Nat.le_add_right _ _) (by omega) hp'
    simpa using hne

/-- No point from `searchFrom` on and before `vertex` has its coordinates. -/
def NoTwin (points : List (Point3WithWidth F)) (searchFrom : Nat)
    (vertex : Point3WithWidth F × Nat) : Prop :=
  ∀ i p, searchFrom ≤ i → i < vertex.2 → points[i]? = some p → planar p ≠ planar vertex.1

omit [Field F] in
/-- The lookup finds the vertices again when none has a twin before it. -/
theorem recoverPoints_eq_iff {vertices : List (Point3WithWidth F × Nat)}
    (hmem : ∀ vertex ∈ vertices, points[vertex.2]? = some vertex.1)
    (horder : vertices.Pairwise fun a b => a.2 < b.2)
    (hfrom : ∀ vertex ∈ vertices, searchFrom ≤ vertex.2) :
    recoverPoints points searchFrom (vertices.map fun vertex => planar vertex.1) = vertices ↔
      (∀ vertex ∈ vertices.head?, NoTwin points searchFrom vertex) ∧
        vertices.IsChain fun a b => NoTwin points (a.2 + 1) b := by
  induction vertices generalizing searchFrom with
  | nil => simp [recoverPoints]
  | cons vertex vertices ih =>
    obtain ⟨hlater, horder⟩ := List.pairwise_cons.mp horder
    have hvertex := hmem vertex (by simp)
    have hstart := hfrom vertex (by simp)
    have hrest := ih (fun v hv => hmem v (by simp [hv])) horder hlater
    rw [List.isChain_cons, List.map_cons, recoverPoints]
    have hfound : findPoint points searchFrom (planar vertex.1) = some vertex ↔
        NoTwin points searchFrom vertex := by
      rw [findPoint_eq_some_iff, and_iff_right hstart, and_iff_right hvertex, and_iff_right rfl]
      rfl
    have hhead : (∀ v ∈ (vertex :: vertices).head?, NoTwin points searchFrom v) ↔
        NoTwin points searchFrom vertex := by
      simp
    rw [hhead, ← hfound, ← hrest]
    cases hfind : findPoint points searchFrom (planar vertex.1) with
    | none => exact absurd hfind (findPoint_ne_none hstart hvertex)
    | some found =>
      by_cases heq : found = vertex
      · subst heq
        simp
      · simp [heq]

end Recovery

/-! ### What the helpers keep -/

section Kept

variable {β : Type} (config : ResolvedConfig F) (role : ExtrusionRole)

theorem thin_sublist (xy : α → F × F) (vertices : List α) :
    (thin config role xy vertices).Sublist vertices := by
  have hsimplified : (if 0 < toleranceForRole role config then
      simplifyPolylineMm xy vertices (toleranceForRole role config) else vertices).Sublist
      vertices := by
    split
    · exact simplifyPolylineMm_sublist xy vertices _
    · exact List.Sublist.refl _
  unfold thin
  dsimp only
  split
  · exact (dropShortSegmentsMm_sublist xy _ _).trans hsimplified
  · exact hsimplified

theorem thin_ends (xy : α → F × F) (vertices : List α) :
    (thin config role xy vertices).head? = vertices.head? ∧
      (thin config role xy vertices).getLast? = vertices.getLast? := by
  have hsimplified : (if 0 < toleranceForRole role config then
      simplifyPolylineMm xy vertices (toleranceForRole role config) else vertices).head? =
        vertices.head? ∧
      (if 0 < toleranceForRole role config then
      simplifyPolylineMm xy vertices (toleranceForRole role config) else vertices).getLast? =
        vertices.getLast? := by
    split
    · exact simplifyPolylineMm_ends xy vertices _
    · exact ⟨rfl, rfl⟩
  unfold thin
  dsimp only
  split
  · rw [(dropShortSegmentsMm_ends xy _ _).1, (dropShortSegmentsMm_ends xy _ _).2]
    exact hsimplified
  · exact hsimplified

/-- Only the coordinates are read. -/
theorem map_thin (xy : α → F × F) (f : β → α) (vertices : List β) :
    (thin config role (fun vertex => xy (f vertex)) vertices).map f =
      thin config role xy (vertices.map f) := by
  unfold thin
  dsimp only
  split <;> split <;> simp only [map_dropShortSegmentsMm, map_simplifyPolylineMm]

end Kept

/-! ### Points and their own indices -/

/-- The printed points are the kept vertices with their own indices, as many as the
helpers keep, from the first vertex of the path to the last. -/
structure KeepsOwnVertices (config : ResolvedConfig F) (path : ExtrusionPath3D F) : Prop where
  own : simplifiedPoints config path = retainedPoints config path
  kept : ∀ entry ∈ simplifiedPoints config path, path.points[entry.2]? = some entry.1
  increasing : (simplifiedPoints config path).Pairwise fun a b => a.2 < b.2
  first : (simplifiedPoints config path).head?.map (·.2) = some 0
  last : (simplifiedPoints config path).getLast?.map (·.2) = some (path.points.length - 1)
  count : (simplifiedPoints config path).length =
    (thin config path.role id (path.points.map planar)).length

/-- No vertex dropped between two neighbouring kept ones has the coordinates of the
second. -/
def NoEarlierTwin (config : ResolvedConfig F) (path : ExtrusionPath3D F) : Prop :=
  ∀ a b, [a, b] <:+: retainedPoints config path → ∀ i p, a.2 < i → i < b.2 →
    path.points[i]? = some p → planar p ≠ planar b.1

variable {config : ResolvedConfig F} {path : ExtrusionPath3D F}

theorem map_retainedPoints (config : ResolvedConfig F) (path : ExtrusionPath3D F) :
    (retainedPoints config path).map (fun vertex => planar vertex.1) =
      thin config path.role id (path.points.map planar) := by
  have hplanar : (path.points.zipIdx.map Prod.fst).map planar =
      path.points.zipIdx.map fun vertex => planar vertex.1 := List.map_map
  rw [List.zipIdx_map_fst] at hplanar
  rw [hplanar]
  exact map_thin config path.role id (fun vertex => planar vertex.1) path.points.zipIdx

theorem keeps_own_vertices_iff (hlock : path.orderLock = none) (hlong : 2 ≤ path.points.length) :
    KeepsOwnVertices config path ↔ NoEarlierTwin config path := by
  have hsublist : (retainedPoints config path).Sublist path.points.zipIdx := thin_sublist _ _ _ _
  have hmem : ∀ vertex ∈ retainedPoints config path,
      path.points[vertex.2]? = some vertex.1 := fun vertex h =>
    List.mk_mem_zipIdx_iff_getElem?.mp (hsublist.subset h)
  have horder : (retainedPoints config path).Pairwise fun a b => a.2 < b.2 := by
    refine List.Pairwise.sublist hsublist ?_
    rw [← List.pairwise_map, List.zipIdx_map_snd]
    exact List.pairwise_lt_range'
  have hpoints : simplifiedPoints config path = recoverPoints path.points 0
      ((retainedPoints config path).map fun vertex => planar vertex.1) := by
    rw [simplifiedPoints, hlock, map_retainedPoints]
    simp [hlong]
  have hends := thin_ends config path.role (fun vertex => planar vertex.1) path.points.zipIdx
  have hhead : ∀ vertex ∈ (retainedPoints config path).head?,
      NoTwin path.points 0 vertex := by
    intro vertex hvertex i p _ hi
    rw [retainedPoints, hends.1, List.head?_eq_getElem?, List.getElem?_zipIdx] at hvertex
    obtain ⟨q, -, rfl⟩ := Option.map_eq_some_iff.mp hvertex
    exact absurd hi (Nat.not_lt_zero i)
  have hown : simplifiedPoints config path = retainedPoints config path ↔
      NoEarlierTwin config path := by
    rw [hpoints, recoverPoints_eq_iff hmem horder fun vertex _ => Nat.zero_le _,
      and_iff_right hhead, List.isChain_iff_forall_rel_of_append_cons_cons]
    constructor
    · rintro h a b ⟨before, after, hsplit⟩ i p hi
      exact @h a b before after (by rw [← hsplit]; simp) i p hi
    · rintro h a b before after hsplit i p hi
      exact h a b ⟨before, after, by rw [hsplit]; simp⟩ i p hi
  constructor
  · intro h
    exact hown.mp h.own
  · intro h
    have heq := hown.mpr h
    refine ⟨heq, fun entry hentry => hmem entry (heq ▸ hentry), heq ▸ horder, ?_, ?_, ?_⟩
    · rw [heq, retainedPoints, hends.1, List.head?_eq_getElem?, List.getElem?_zipIdx,
        List.getElem?_eq_getElem (by omega)]
      rfl
    · rw [heq, retainedPoints, hends.2, List.getLast?_eq_getElem?, List.getElem?_zipIdx,
        List.length_zipIdx, List.getElem?_eq_getElem (by omega)]
      exact congrArg some (Nat.zero_add _)
    · rw [heq, ← map_retainedPoints, List.length_map]

/-- A point of a wall. -/
def wallPoint (x y z : ℚ) : Point3WithWidth ℚ :=
  { x := x, y := y, z := z, width := 2 / 5, flowFactor := 1, distToTopMm := 0 }

/-- A wall whose middle vertex is on the line between the others. -/
def straightWall : ExtrusionPath3D ℚ where
  points := [wallPoint 0 0 (1 / 5), wallPoint 1 0 (1 / 5), wallPoint 2 0 (1 / 5)]
  role := .OuterWall
  speedFactor := 1

/-- Dropping the middle vertex leaves the others their indices. -/
theorem keeps_own_vertices_straight : KeepsOwnVertices default straightWall := by
  refine (keeps_own_vertices_iff rfl (by decide)).mpr ?_
  have hretained : retainedPoints default straightWall =
      [(wallPoint 0 0 (1 / 5), 0), (wallPoint 2 0 (1 / 5), 2)] := by
    decide +kernel
  rintro a b ⟨before, after, hsplit⟩ i p hi hi' hp
  rw [hretained] at hsplit
  have hbefore : before = [] := by
    have hlength := congrArg List.length hsplit
    simp at hlength
    exact List.eq_nil_of_length_eq_zero (by omega)
  subst hbefore
  simp only [List.nil_append, List.cons_append, List.cons.injEq] at hsplit
  obtain ⟨rfl, rfl, -⟩ := hsplit
  have hmiddle : i = 1 := by
    dsimp only at hi hi'
    omega
  subst hmiddle
  cases hp
  decide +kernel

/-- A wall that ends by rising. -/
def risingWall : ExtrusionPath3D ℚ where
  points := [wallPoint 0 0 (1 / 5), wallPoint 1 0 (1 / 5), wallPoint 1 0 (2 / 5)]
  role := .OuterWall
  speedFactor := 1

/-- The middle vertex is dropped and the last one kept, but the middle one is printed: it
has the coordinates of the last. -/
theorem dropped_vertex_is_printed : ¬ KeepsOwnVertices default risingWall := by
  intro h
  have hprinted : (simplifiedPoints default risingWall).map (·.2) = [0, 1] := by
    decide +kernel
  have hretained : (retainedPoints default risingWall).map (·.2) = [0, 2] := by
    decide +kernel
  rw [h.own, hretained] at hprinted
  simp at hprinted

end PinchNPrint.GCode
