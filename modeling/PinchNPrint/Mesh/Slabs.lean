/-
The faces of a mesh projected into slabs (`slicer-core`: `triangle_mesh_slicer.rs`).

Every face that is not vertical is projected into the slabs its heights overlap, top faces and
bottom faces apart. Both the search for the slabs and the test in the loop are strict, so a
face is projected into the slab between two heights just when it reaches above the lower and
below the upper one (`mem_faceSlabs_iff`). `keepsFace_iff` is the exact condition for no face to
get lost that meets the heights: a horizontal face that lies on one of them has no slab.

Coordinates are the elements of a linear order. No law of their arithmetic is used, and rounding
them is a parameter, as is the union of the projections.
-/

import PinchNPrint.Lib.Decimal
import PinchNPrint.Region.Ir

namespace PinchNPrint.Mesh

open Region (ExPolygon IndexedTriangleSet Point2 Point3)

/-- Which way a face looks. -/
inductive Side where
  | top
  | bottom
deriving DecidableEq

/-- A face of a mesh. -/
structure Face (F : Type) where
  v0 : Point3 F
  v1 : Point3 F
  v2 : Point3 F
deriving DecidableEq

/-- The projections of each slab. -/
structure SlabAccumulators where
  top : List (List (List Point2))
  bottom : List (List (List Point2))
deriving DecidableEq

namespace SlabAccumulators

/-- The accumulator of a side. -/
def get (acc : SlabAccumulators) : Side → List (List (List Point2))
  | .top => acc.top
  | .bottom => acc.bottom

/-- The accumulator of a side, changed. -/
def modify (acc : SlabAccumulators) (side : Side)
    (f : List (List (List Point2)) → List (List (List Point2))) : SlabAccumulators :=
  match side with
  | .top => { acc with top := f acc.top }
  | .bottom => { acc with bottom := f acc.bottom }

@[simp]
theorem get_modify (acc : SlabAccumulators) (side : Side)
    (f : List (List (List Point2)) → List (List (List Point2))) :
    (acc.modify side f).get side = f (acc.get side) := by
  cases side <;> rfl

theorem get_modify_of_ne (acc : SlabAccumulators) {side other : Side} (hne : other ≠ side)
    (f : List (List (List Point2)) → List (List (List Point2))) :
    (acc.modify side f).get other = acc.get other := by
  cases side <;> cases other <;> first | rfl | exact absurd rfl hne

end SlabAccumulators

/-- `chunks(3)`; a shorter last chunk is passed over. -/
def chunks3 : List Nat → List (Nat × Nat × Nat)
  | i0 :: i1 :: i2 :: rest => (i0, i1, i2) :: chunks3 rest
  | _ => []

/-- `windows(2)`. -/
def windows2 {α : Type} (l : List α) : List (α × α) :=
  l.zip l.tail

/-- `Iterator::rposition`. -/
def rposition {α : Type} (p : α → Bool) (l : List α) : Option Nat :=
  (l.reverse.findIdx? p).map fun i => l.length - 1 - i

variable {F : Type} [LinearOrder F]

namespace Face

variable (face : Face F)

/-- The face of three indices, if the mesh has its vertices. -/
def ofChunk (vertices : List (Point3 F)) (chunk : Nat × Nat × Nat) : Option (Face F) := do
  let v0 ← vertices[chunk.1]?
  let v1 ← vertices[chunk.2.1]?
  let v2 ← vertices[chunk.2.2]?
  return { v0, v1, v2 }

def minZ : F :=
  min (min face.v0.z face.v1.z) face.v2.z

def maxZ : F :=
  max (max face.v0.z face.v1.z) face.v2.z

variable [Sub F] [Mul F] [Neg F] [OfScientific F]

/-- The height of the normal. -/
def nz : F :=
  (face.v1.x - face.v0.x) * (face.v2.y - face.v0.y) -
    (face.v1.y - face.v0.y) * (face.v2.x - face.v0.x)

/-- The side of a face that is not vertical. -/
def side : Side :=
  if 0.0 < face.nz then .top else .bottom

/-- A face that is not treated as vertical. -/
def Slanted : Prop :=
  1e-12 ≤ max face.nz (-face.nz)

instance : Decidable face.Slanted :=
  inferInstanceAs (Decidable (_ ≤ _))

end Face

/-- The slabs a face is projected into. -/
def faceSlabs (zs : List F) (face : Face F) : List Nat :=
  let slabCount := zs.length - 1
  let slabStart := ((windows2 zs).findIdx? fun w => face.minZ < w.2).getD slabCount
  let slabEnd := ((rposition (fun w => w.1 < face.maxZ) (windows2 zs)).map (· + 1)).getD 0
  if slabCount ≤ slabStart ∨ slabEnd = 0 ∨ slabEnd ≤ slabStart then []
  else
    (List.range' slabStart (min slabEnd slabCount - slabStart)).filter fun i =>
      (windows2 zs)[i]?.any fun w => w.1 < face.maxZ ∧ face.minZ < w.2

section Projection

variable [Sub F] [Mul F] [Neg F] [OfScientific F] (round : F → ℤ)

def mmToUnits (mm : F) : ℤ :=
  max (-2 ^ 63) (min (round (mm * 10000.0)) (2 ^ 63 - 1))

def projectFaceXy (face : Face F) : List Point2 :=
  [face.v0, face.v1, face.v2].map fun v => { x := mmToUnits round v.x, y := mmToUnits round v.y }

/-- One turn of the loop over the faces. -/
def pushFace (vertices : List (Point3 F)) (zs : List F) (acc : SlabAccumulators)
    (chunk : Nat × Nat × Nat) : SlabAccumulators :=
  (Face.ofChunk vertices chunk).elim acc fun face =>
    if face.Slanted then
      acc.modify face.side fun slabs =>
        (faceSlabs zs face).foldl
          (fun slabs i => slabs.modify i (· ++ [projectFaceXy round face])) slabs
    else acc

/-- The accumulators after the first faces. -/
def accumulate (mesh : IndexedTriangleSet F) (zs : List F) (chunks : List (Nat × Nat × Nat)) :
    SlabAccumulators :=
  chunks.foldl (pushFace round mesh.vertices zs)
    { top := List.replicate (zs.length - 1) []
      bottom := List.replicate (zs.length - 1) [] }

def unionSlab (unionEx : List ExPolygon → List ExPolygon) (polys : List (List Point2)) :
    List ExPolygon :=
  if polys = [] then [] else unionEx (polys.map fun contour => { contour })

def sliceMeshSlabs (unionEx : List ExPolygon → List ExPolygon) (mesh : IndexedTriangleSet F)
    (zs : List F) : List (List ExPolygon) × List (List ExPolygon) :=
  if zs.length - 1 = 0 then ([], [])
  else
    let acc := accumulate round mesh zs (chunks3 mesh.indices)
    (acc.top.map (unionSlab unionEx), acc.bottom.map (unionSlab unionEx))

end Projection

/-! ### The slabs of a face -/

section Slabs

variable {zs : List F} {face : Face F} {i : Nat}

omit [LinearOrder F] in
theorem getElem?_windows2 {lo hi : F} :
    (windows2 zs)[i]? = some (lo, hi) ↔ zs[i]? = some lo ∧ zs[i + 1]? = some hi := by
  rw [windows2, List.getElem?_zip_eq_some, List.getElem?_tail]

/-- The first place with a property is not after any other one. -/
theorem position_le {α : Type} {p : α → Bool} {l : List α} {a : α} (ha : l[i]? = some a)
    (hp : p a = true) : ∃ first, l.findIdx? p = some first ∧ first ≤ i := by
  obtain ⟨hi, rfl⟩ := List.getElem?_eq_some_iff.mp ha
  have hfirst : l.findIdx? p = some (l.findIdx p) :=
    List.findIdx?_eq_some_of_exists ⟨_, List.getElem_mem hi, hp⟩
  obtain ⟨_, _, hbefore⟩ := List.findIdx?_eq_some_iff_getElem.mp hfirst
  exact ⟨_, hfirst, not_lt.mp fun hlt => hbefore i hlt hp⟩

/-- The last place with a property is not before any other one. -/
theorem le_rposition {α : Type} {p : α → Bool} {l : List α} {a : α} (ha : l[i]? = some a)
    (hp : p a = true) : ∃ last, rposition p l = some last ∧ i ≤ last := by
  have hi : i < l.length := (List.getElem?_eq_some_iff.mp ha).1
  have hreversed : l.reverse[l.length - 1 - i]? = some a := by
    rw [List.getElem?_reverse (by omega), ← ha]
    congr 1
    omega
  obtain ⟨first, hfirst, hle⟩ := position_le hreversed hp
  exact ⟨l.length - 1 - first, by rw [rposition, hfirst]; rfl, by omega⟩

/-- A face is projected into a slab just when it reaches above the lower and below the upper
height. -/
theorem mem_faceSlabs_iff : i ∈ faceSlabs zs face ↔
    ∃ lo hi, zs[i]? = some lo ∧ zs[i + 1]? = some hi ∧ lo < face.maxZ ∧ face.minZ < hi := by
  have htest : ((windows2 zs)[i]?.any fun w => w.1 < face.maxZ ∧ face.minZ < w.2) = true ↔
      ∃ lo hi, zs[i]? = some lo ∧ zs[i + 1]? = some hi ∧ lo < face.maxZ ∧ face.minZ < hi := by
    rw [Option.any_eq_true]
    constructor
    · rintro ⟨⟨lo, hi⟩, hwindow, hoverlap⟩
      obtain ⟨hlo, hhi⟩ := getElem?_windows2.mp hwindow
      exact ⟨lo, hi, hlo, hhi, of_decide_eq_true hoverlap⟩
    · rintro ⟨lo, hi, hlo, hhi, hoverlap⟩
      exact ⟨(lo, hi), getElem?_windows2.mpr ⟨hlo, hhi⟩, decide_eq_true hoverlap⟩
  rw [faceSlabs, ← htest]
  constructor
  · intro hmem
    split_ifs at hmem
    · cases hmem
    · exact (List.mem_filter.mp hmem).2
  · intro hmem
    -- the searches leave out no slab that passes the test
    obtain ⟨lo, hi, hlo, hhi, habove, hbelow⟩ := htest.mp hmem
    have hwindow := getElem?_windows2.mpr ⟨hlo, hhi⟩
    obtain ⟨first, hfirst, hstart⟩ :=
      position_le (p := fun w : F × F => decide (face.minZ < w.2)) hwindow (decide_eq_true hbelow)
    obtain ⟨last, hlast, hend⟩ :=
      le_rposition (p := fun w : F × F => decide (w.1 < face.maxZ)) hwindow (decide_eq_true habove)
    have hslab : i + 1 < zs.length := (List.getElem?_eq_some_iff.mp hhi).1
    simp only [hfirst, hlast, Option.map_some, Option.getD_some]
    rw [if_neg (by omega)]
    refine List.mem_filter.mpr ⟨List.mem_range'_1.mpr ?_, hmem⟩
    omega

theorem nodup_faceSlabs : (faceSlabs zs face).Nodup := by
  rw [faceSlabs]
  split_ifs
  · exact .nil
  · exact List.Nodup.filter _ List.nodup_range'

theorem le_of_head? (hzs : zs.Pairwise (· < ·)) {first z : F} (hfirst : zs.head? = some first)
    (hz : zs[i]? = some z) : first ≤ z := by
  cases zs with
  | nil => cases hfirst
  | cons a rest =>
    cases hfirst
    rcases List.mem_cons.mp (List.mem_of_getElem? hz) with rfl | hmem
    · exact le_rfl
    · exact ((List.pairwise_cons.mp hzs).1 z hmem).le

theorem le_of_getLast? (hzs : zs.Pairwise (· < ·)) {last z : F} (hlast : zs.getLast? = some last)
    (hz : zs[i]? = some z) : z ≤ last := by
  obtain ⟨before, rfl⟩ := List.getLast?_eq_some_iff.mp hlast
  rcases List.mem_append.mp (List.mem_of_getElem? hz) with hmem | hmem
  · exact ((List.pairwise_append.mp hzs).2.2 z hmem last List.mem_cons_self).le
  · exact (List.mem_singleton.mp hmem).le

/-- A range that reaches into the heights overlaps some slab, unless it is one of the heights. -/
theorem exists_slab (hzs : zs.Pairwise (· < ·)) (hlong : 2 ≤ zs.length) {first last : F}
    (hfirst : zs.head? = some first) (hlast : zs.getLast? = some last) {low high : F}
    (hrange : low ≤ high) (habove : first < high) (hbelow : low < last)
    (hflat : ¬ (low = high ∧ low ∈ zs)) :
    ∃ i lo hi, zs[i]? = some lo ∧ zs[i + 1]? = some hi ∧ lo < high ∧ low < hi := by
  induction zs generalizing first with
  | nil => cases hfirst
  | cons a rest ih =>
    cases hfirst
    cases rest with
    | nil => simp at hlong
    | cons b rest =>
      by_cases hfits : low < b
      · exact ⟨0, a, b, rfl, rfl, habove, hfits⟩
      · -- the range starts at the next height or above it
        have hnext : b < high := by
          refine lt_of_le_of_ne ((not_lt.mp hfits).trans hrange) ?_
          rintro rfl
          have hlow : low = b := le_antisymm hrange (not_lt.mp hfits)
          exact hflat ⟨hlow, by simp [hlow]⟩
        have hmore : 2 ≤ (b :: rest).length := by
          cases rest with
          | nil =>
            cases hlast
            exact absurd hbelow hfits
          | cons c rest => simp
        have hflat' : ¬ (low = high ∧ low ∈ b :: rest) := fun hboth =>
          hflat ⟨hboth.1, List.mem_cons_of_mem a hboth.2⟩
        rw [List.getLast?_cons_cons] at hlast
        obtain ⟨i, lo, hi, hlo, hhi, hoverlap⟩ :=
          ih (List.pairwise_cons.mp hzs).2 hmore rfl hlast hnext hflat'
        exact ⟨i + 1, lo, hi, hlo, hhi, hoverlap⟩

theorem exists_slab_iff (hzs : zs.Pairwise (· < ·)) (hlong : 2 ≤ zs.length) {first last : F}
    (hfirst : zs.head? = some first) (hlast : zs.getLast? = some last) {low high : F}
    (hrange : low ≤ high) :
    (∃ i lo hi, zs[i]? = some lo ∧ zs[i + 1]? = some hi ∧ lo < high ∧ low < hi) ↔
      first < high ∧ low < last ∧ ¬ (low = high ∧ low ∈ zs) := by
  constructor
  · rintro ⟨i, lo, hi, hlo, hhi, habove, hbelow⟩
    refine ⟨(le_of_head? hzs hfirst hlo).trans_lt habove,
      hbelow.trans_le (le_of_getLast? hzs hlast hhi), ?_⟩
    rintro ⟨rfl, hmem⟩
    -- no height lies between two neighbours
    obtain ⟨j, hj, hlow⟩ := List.mem_iff_getElem.mp hmem
    obtain ⟨hi', rfl⟩ := List.getElem?_eq_some_iff.mp hlo
    obtain ⟨hnext, rfl⟩ := List.getElem?_eq_some_iff.mp hhi
    rw [List.pairwise_iff_getElem] at hzs
    have hstart : i < j := by
      by_contra hle
      rcases Nat.lt_or_eq_of_le (not_lt.mp hle) with hlt | rfl
      · exact lt_asymm (hlow ▸ hzs j i hj hi' hlt) habove
      · exact (hlow ▸ habove).false
    have hstop : j < i + 1 := by
      by_contra hle
      rcases Nat.lt_or_eq_of_le (not_lt.mp hle) with hlt | rfl
      · exact lt_asymm (hlow ▸ hzs (i + 1) j hnext hj hlt) hbelow
      · exact (hlow ▸ hbelow).false
    omega
  · rintro ⟨habove, hbelow, hflat⟩
    exact exists_slab hzs hlong hfirst hlast hrange habove hbelow hflat

end Slabs

/-! ### Faces that get lost -/

theorem getElem?_foldl_modify {α : Type} (f : α → α) {indices : List Nat} (hnodup : indices.Nodup)
    (l : List α) (i : Nat) :
    (indices.foldl (fun l j => l.modify j f) l)[i]? =
      if i ∈ indices then l[i]?.map f else l[i]? := by
  induction indices generalizing l with
  | nil => rfl
  | cons j rest ih =>
    obtain ⟨hfirst, hrest⟩ := List.nodup_cons.mp hnodup
    rw [List.foldl_cons, ih hrest, List.getElem?_modify]
    by_cases heq : j = i
    · subst heq
      simp [hfirst]
    · simp [heq, Ne.symm heq]

theorem length_foldl_modify {α : Type} (f : α → α) (indices : List Nat) (l : List α) :
    (indices.foldl (fun l j => l.modify j f) l).length = l.length := by
  induction indices generalizing l with
  | nil => rfl
  | cons j rest ih => rw [List.foldl_cons, ih, List.length_modify]

section Kept

variable [Sub F] [Mul F] [Neg F] [OfScientific F] {round : F → ℤ} {mesh : IndexedTriangleSet F}
  {zs : List F} {k : Nat}
  {chunk : Nat × Nat × Nat} {face : Face F}

/-- The accumulators when the loop is at a face, and after it. -/
def accumulatedAt (round : F → ℤ) (mesh : IndexedTriangleSet F) (zs : List F) (k : Nat) :
    SlabAccumulators :=
  accumulate round mesh zs ((chunks3 mesh.indices).take k)

/-- In the turn of the face at `k` its projection is added to slab `i` of a side. -/
def AddedTo (round : F → ℤ) (mesh : IndexedTriangleSet F) (zs : List F) (k : Nat) (face : Face F)
    (side : Side) (i : Nat) : Prop :=
  ∃ polys, ((accumulatedAt round mesh zs k).get side)[i]? = some polys ∧
    ((accumulatedAt round mesh zs (k + 1)).get side)[i]? = some (polys ++ [projectFaceXy round face])

/-- The face at `k` is projected into a slab of its side, and only into slabs that it meets. -/
structure KeepsFace (round : F → ℤ) (mesh : IndexedTriangleSet F) (zs : List F) (k : Nat)
    (face : Face F) : Prop where
  added : ∃ i, AddedTo round mesh zs k face face.side i
  meets : ∀ side i, AddedTo round mesh zs k face side i → side = face.side ∧
    ∃ lo hi, zs[i]? = some lo ∧ zs[i + 1]? = some hi ∧ lo ≤ face.maxZ ∧ face.minZ ≤ hi

theorem length_get_accumulate (round : F → ℤ) (mesh : IndexedTriangleSet F) (zs : List F)
    (chunks : List (Nat × Nat × Nat)) (side : Side) :
    ((accumulate round mesh zs chunks).get side).length = zs.length - 1 := by
  induction chunks using List.reverseRecOn with
  | nil => cases side <;> exact List.length_replicate
  | append_singleton chunks chunk ih =>
    rw [accumulate, List.foldl_append, ← accumulate, List.foldl_cons, List.foldl_nil, pushFace]
    cases Face.ofChunk mesh.vertices chunk with
    | none => exact ih
    | some face =>
      rw [Option.elim_some]
      split_ifs
      · by_cases hside : side = face.side
        · subst hside
          rw [SlabAccumulators.get_modify, length_foldl_modify, ih]
        · rw [SlabAccumulators.get_modify_of_ne _ hside, ih]
      · exact ih

theorem accumulatedAt_succ (hchunk : (chunks3 mesh.indices)[k]? = some chunk)
    (hface : Face.ofChunk mesh.vertices chunk = some face) (hslanted : face.Slanted) :
    accumulatedAt round mesh zs (k + 1) =
      (accumulatedAt round mesh zs k).modify face.side fun slabs =>
        (faceSlabs zs face).foldl
          (fun slabs i => slabs.modify i (· ++ [projectFaceXy round face])) slabs := by
  rw [accumulatedAt, List.take_add_one, hchunk, accumulate, List.foldl_append, ← accumulate,
    ← accumulatedAt]
  simp only [Option.toList_some, List.foldl_cons, List.foldl_nil, pushFace, hface,
    Option.elim_some, if_pos hslanted]

theorem addedTo_iff (hchunk : (chunks3 mesh.indices)[k]? = some chunk)
    (hface : Face.ofChunk mesh.vertices chunk = some face) (hslanted : face.Slanted) (side : Side)
    (i : Nat) : AddedTo round mesh zs k face side i ↔ side = face.side ∧ i ∈ faceSlabs zs face := by
  rw [AddedTo, accumulatedAt_succ hchunk hface hslanted]
  by_cases hside : side = face.side
  · subst hside
    rw [SlabAccumulators.get_modify, getElem?_foldl_modify _ nodup_faceSlabs]
    constructor
    · rintro ⟨polys, hbefore, hafter⟩
      refine ⟨rfl, ?_⟩
      by_contra hout
      rw [if_neg hout, hbefore] at hafter
      simp at hafter
    · rintro ⟨-, hslab⟩
      obtain ⟨lo, hi, -, hhi, -⟩ := mem_faceSlabs_iff.mp hslab
      have hlt : i < ((accumulatedAt round mesh zs k).get face.side).length := by
        have hslab' := (List.getElem?_eq_some_iff.mp hhi).1
        rw [accumulatedAt, length_get_accumulate]
        omega
      refine ⟨_, List.getElem?_eq_getElem hlt, ?_⟩
      rw [if_pos hslab, List.getElem?_eq_getElem hlt, Option.map_some]
  · rw [SlabAccumulators.get_modify_of_ne _ hside]
    refine iff_of_false ?_ fun h => hside h.1
    rintro ⟨polys, hbefore, hafter⟩
    rw [hbefore] at hafter
    simp at hafter

omit [Sub F] [Mul F] [Neg F] [OfScientific F] in
theorem Face.minZ_le_maxZ (face : Face F) : face.minZ ≤ face.maxZ :=
  ((min_le_left _ _).trans (min_le_left _ _)).trans
    ((le_max_left _ _).trans (le_max_left _ _))

/-- No face gets lost that reaches above the first and below the last height and does not lie
flat on a height; every other one does. -/
theorem keepsFace_iff (hzs : zs.Pairwise (· < ·)) (hlong : 2 ≤ zs.length) {first last : F}
    (hfirst : zs.head? = some first) (hlast : zs.getLast? = some last)
    (hchunk : (chunks3 mesh.indices)[k]? = some chunk)
    (hface : Face.ofChunk mesh.vertices chunk = some face) (hslanted : face.Slanted) :
    KeepsFace round mesh zs k face ↔
      first < face.maxZ ∧ face.minZ < last ∧ ¬ (face.minZ = face.maxZ ∧ face.minZ ∈ zs) := by
  rw [← exists_slab_iff hzs hlong hfirst hlast face.minZ_le_maxZ]
  constructor
  · intro hkeeps
    obtain ⟨i, hadded⟩ := hkeeps.added
    exact ⟨i, mem_faceSlabs_iff.mp ((addedTo_iff hchunk hface hslanted _ _).mp hadded).2⟩
  · rintro ⟨i, hslab⟩
    refine ⟨⟨i, (addedTo_iff hchunk hface hslanted _ _).mpr ⟨rfl, mem_faceSlabs_iff.mpr hslab⟩⟩, ?_⟩
    intro side j hadded
    obtain ⟨hside, hslab'⟩ := (addedTo_iff hchunk hface hslanted _ _).mp hadded
    obtain ⟨lo, hi, hlo, hhi, habove, hbelow⟩ := mem_faceSlabs_iff.mp hslab'
    exact ⟨hside, lo, hi, hlo, hhi, habove.le, hbelow.le⟩

/-! ### The slabs that are united -/

/-- A turn of the loop takes no projection away. -/
theorem pushFace_grows (round : F → ℤ) (vertices : List (Point3 F)) (zs : List F)
    (acc : SlabAccumulators) (chunk : Nat × Nat × Nat) {side : Side} {i : Nat}
    {polys : List (List Point2)} (h : (acc.get side)[i]? = some polys) :
    ∃ polys', ((pushFace round vertices zs acc chunk).get side)[i]? = some polys' ∧
      polys ⊆ polys' := by
  rw [pushFace]
  cases Face.ofChunk vertices chunk with
  | none => exact ⟨polys, h, List.Subset.refl _⟩
  | some face =>
    rw [Option.elim_some]
    split_ifs
    · by_cases hside : side = face.side
      · subst hside
        rw [SlabAccumulators.get_modify, getElem?_foldl_modify _ nodup_faceSlabs, h]
        split_ifs
        · exact ⟨_, rfl, List.subset_append_left _ _⟩
        · exact ⟨polys, rfl, List.Subset.refl _⟩
      · rw [SlabAccumulators.get_modify_of_ne _ hside]
        exact ⟨polys, h, List.Subset.refl _⟩
    · exact ⟨polys, h, List.Subset.refl _⟩

/-- What is added to a slab is there at the end. -/
theorem mem_accumulate_of_addedTo {side : Side} {i : Nat}
    (h : AddedTo round mesh zs k face side i) :
    ∃ polys, ((accumulate round mesh zs (chunks3 mesh.indices)).get side)[i]? = some polys ∧
      projectFaceXy round face ∈ polys := by
  obtain ⟨before, -, hadded⟩ := h
  rw [← List.take_append_drop (k + 1) (chunks3 mesh.indices), accumulate, List.foldl_append,
    ← accumulate, ← accumulatedAt]
  have hmem : projectFaceXy round face ∈ before ++ [projectFaceXy round face] :=
    List.mem_append_right _ List.mem_cons_self
  generalize accumulatedAt round mesh zs (k + 1) = acc at hadded ⊢
  generalize before ++ [projectFaceXy round face] = polys at hadded hmem
  induction (chunks3 mesh.indices).drop (k + 1) generalizing acc polys with
  | nil => exact ⟨polys, hadded, hmem⟩
  | cons chunk rest ih =>
    obtain ⟨polys', hpolys', hsub⟩ := pushFace_grows round mesh.vertices zs acc chunk hadded
    exact ih _ polys' hpolys' (hsub hmem)

/-- A face that is kept is in one of the unions of its side. -/
theorem sliceMeshSlabs_of_keepsFace (unionEx : List ExPolygon → List ExPolygon)
    (hlong : 2 ≤ zs.length) (h : KeepsFace round mesh zs k face) :
    ∃ (i : Nat) (polys : List (List Point2)), projectFaceXy round face ∈ polys ∧
      (match face.side with
        | .top => (sliceMeshSlabs round unionEx mesh zs).1
        | .bottom => (sliceMeshSlabs round unionEx mesh zs).2)[i]? =
        some (unionEx (polys.map fun contour => { contour })) := by
  obtain ⟨i, hadded⟩ := h.added
  obtain ⟨polys, hpolys, hmem⟩ := mem_accumulate_of_addedTo hadded
  have hunion : unionSlab unionEx polys = unionEx (polys.map fun contour => { contour }) :=
    if_neg (List.ne_nil_of_mem hmem)
  refine ⟨i, polys, hmem, ?_⟩
  rw [sliceMeshSlabs, if_neg (by omega), ← hunion]
  cases hside : face.side <;> rw [hside] at hpolys <;>
    exact (List.getElem?_map ..).trans (congrArg (Option.map _) hpolys)

end Kept

/-- A horizontal triangle that looks up. -/
def flatFace (z : ℚ) : Face ℚ where
  v0 := { x := 0, y := 0, z }
  v1 := { x := 1, y := 0, z }
  v2 := { x := 0, y := 1, z }

/-- The triangle as a mesh. -/
def flatMesh (z : ℚ) : IndexedTriangleSet ℚ where
  vertices := [(flatFace z).v0, (flatFace z).v1, (flatFace z).v2]
  indices := [0, 1, 2]

theorem keepsFace_flatFace :
    KeepsFace Decimal.roundAway (flatMesh (1 / 2)) [0, 1, 2] 0 (flatFace (1 / 2)) := by
  have hheights : ([0, 1, 2] : List ℚ).Pairwise (· < ·) := by decide +kernel
  have hslanted : (flatFace (1 / 2)).Slanted := by decide +kernel
  refine (keepsFace_iff hheights (Nat.le_succ 2) rfl rfl rfl rfl hslanted).mpr ?_
  decide +kernel

/-- A flat face on a height between two slabs is in neither of them. -/
theorem not_keepsFace_flatFace :
    (flatFace 1).Slanted ∧ 0 ≤ (flatFace 1).maxZ ∧ (flatFace 1).minZ ≤ 2 ∧
      ¬ KeepsFace Decimal.roundAway (flatMesh 1) [0, 1, 2] 0 (flatFace 1) := by
  refine ⟨by decide +kernel, by decide +kernel, by decide +kernel, fun hkeeps => ?_⟩
  obtain ⟨i, polys, hbefore, hafter⟩ := hkeeps.added
  have hsame : accumulatedAt Decimal.roundAway (flatMesh 1) [0, 1, 2] 1 =
      accumulatedAt Decimal.roundAway (flatMesh 1) [0, 1, 2] 0 := by
    decide +kernel
  rw [hsame, hbefore] at hafter
  simp at hafter

end PinchNPrint.Mesh
