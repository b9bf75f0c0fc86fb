/-
The containment forest of sliced polygons (`slicer-core`: `polygon_tree.rs`, and the winding
test of `slicer-ir`: `polygon_predicate.rs`).

Every polygon gets the smallest of those that contain its first vertex as its parent, and the
tree is built down from the polygons without one. When the containment test behaves like the
nesting of contours that do not cross, no polygon is lost in a cycle of parents, and the depth
of a node is the number of its containers (`containmentForest_of_nests`). An index is kept in 32
bits, so this holds up to 2^32 polygons and fails beyond (`containmentForest_iff`).

The type of `f64` is a parameter, and no law of its arithmetic is used. Integers wrap, as in the
release profile. Recursion has fuel, one for each polygon.
-/

import PinchNPrint.Lib.Cyclic
import PinchNPrint.Lib.Grouping
import PinchNPrint.Lib.Nesting
import PinchNPrint.Region.Ir
import Mathlib.Data.List.Sort

namespace PinchNPrint.Mesh

open Nesting
open Region (ExPolygon Point2)

variable {F : Type} [Add F] [Sub F] [Mul F] [Div F] [IntCast F] [LinearOrder F]

/-! ### The winding test -/

def unitsToMm (units : ℤ) : F :=
  (units : F) / ((10000 : ℤ) : F)

def isLeft (a b : Point2) (pxMm pyMm : F) : F :=
  let ax : F := unitsToMm a.x
  let ay : F := unitsToMm a.y
  let bx : F := unitsToMm b.x
  let by' : F := unitsToMm b.y
  (bx - ax) * (pyMm - ay) - (pxMm - ax) * (by' - ay)

/-- `f64::clamp`. -/
def clamp (lo hi x : F) : F :=
  if x < lo then lo else if hi < x then hi else x

def dist2PointToSegmentMm (a b : Point2) (pxMm pyMm : F) : F :=
  let ax : F := unitsToMm a.x
  let ay : F := unitsToMm a.y
  let dx := unitsToMm b.x - ax
  let dy := unitsToMm b.y - ay
  let len2 := dx * dx + dy * dy
  if len2 = ((0 : ℤ) : F) then
    let ex := pxMm - ax
    let ey := pyMm - ay
    ex * ex + ey * ey
  else
    let t := clamp ((0 : ℤ) : F) ((1 : ℤ) : F) (((pxMm - ax) * dx + (pyMm - ay) * dy) / len2)
    let ex := pxMm - (ax + t * dx)
    let ey := pyMm - (ay + t * dy)
    ex * ex + ey * ey

/-- What an edge adds to the winding number. -/
def windingStep (pxMm pyMm : F) (wn : ℤ) (edge : Point2 × Point2) : ℤ :=
  let (a, b) := edge
  if unitsToMm a.y ≤ pyMm then
    if pyMm < unitsToMm b.y ∧ ((0 : ℤ) : F) < isLeft a b pxMm pyMm then wn + 1 else wn
  else if unitsToMm b.y ≤ pyMm ∧ isLeft a b pxMm pyMm < ((0 : ℤ) : F) then wn - 1
  else wn

def pointInContourWinding (ring : List Point2) (pxMm pyMm epsMm : F) : Bool :=
  if ring.length < 3 then false
  else if ring.cyclicPairs.any fun edge =>
      dist2PointToSegmentMm edge.1 edge.2 pxMm pyMm ≤ epsMm * epsMm then true
  else (ring.cyclicPairs.foldl (windingStep pxMm pyMm) 0).bmod (2 ^ 32) ≠ 0

def pointInPolygonWinding (poly : ExPolygon) (pxMm pyMm epsMm : F) : Bool :=
  pointInContourWinding poly.contour pxMm pyMm epsMm

/-- What an edge adds to twice the area. -/
def shoelaceStep (edge : Point2 × Point2) : ℤ :=
  edge.1.x * edge.2.y - edge.2.x * edge.1.y

def contourAreaAbs (pts : List Point2) : F :=
  if pts.length < 3 then ((0 : ℤ) : F)
  else
    let area := (pts.cyclicPairs.map shoelaceStep).sum.bmod (2 ^ 128)
    ((area.natAbs : ℤ) : F) * (((1 : ℤ) : F) / ((2 : ℤ) : F))

/-! ### The forest -/

structure PolygonTreeNode where
  polygonIndex : Nat
  isContour : Bool
  children : List PolygonTreeNode
deriving Inhabited

/-- `build_node`, on so many levels at most. -/
def buildNode (childrenOf : Nat → List Nat) : Nat → Nat → Nat → Option PolygonTreeNode
  | 0, _, _ => none
  | fuel + 1, idx, depth =>
    ((childrenOf idx).mapM fun childIdx => buildNode childrenOf fuel childIdx (depth + 1)).map
      fun children => { polygonIndex := idx % 2 ^ 32, isContour := depth % 2 = 0, children }

section Forest

variable (F)

/-- The first vertex of a polygon lies inside another. -/
def firstVertexInside (outer inner : ExPolygon) : Bool :=
  match inner.contour with
  | [] => false
  | p :: _ =>
    pointInPolygonWinding outer (unitsToMm p.x : F) (unitsToMm p.y) ((0 : ℤ) : F)

/-- The test of one polygon as the parent: the best one so far, with its area. -/
def offerParent (polygon : ExPolygon) (i : Nat) (best : Option (Nat × F))
    (other : ExPolygon × Nat) : Option (Nat × F) :=
  if i = other.2 then best
  else if firstVertexInside F other.1 polygon then
    let aj : F := contourAreaAbs other.1.contour
    if best.all fun found => aj < found.2 then some (other.2, aj) else best
  else best

/-- The smallest polygon that contains the first vertex of this one. -/
def bestParent (polygons : List ExPolygon) (polygon : ExPolygon) (i : Nat) : Option Nat :=
  (polygons.zipIdx.foldl (offerParent F polygon i) none).map Prod.fst

/-- `parent`: the parent of each polygon. -/
def parents (polygons : List ExPolygon) : List (Option Nat) :=
  polygons.zipIdx.map fun (polygon, i) => bestParent F polygons polygon i

/-- The polygons with this parent, sorted: an entry of `children_of`, or `roots`. -/
def withParent (parents : List (Option Nat)) (parent : Option Nat) : List Nat :=
  ((List.range parents.length).filter fun i => parents[i]? = some parent).insertionSort (· ≤ ·)

def buildPolygonTree (polygons : List ExPolygon) : Option (List PolygonTreeNode) :=
  let parents := parents F polygons
  (withParent parents none).mapM fun i =>
    buildNode (fun p => withParent parents (some p)) polygons.length i 0

end Forest

/-! ### What the forest says -/

mutual

/-- The indices of a tree. -/
def PolygonTreeNode.indices : PolygonTreeNode → List Nat
  | ⟨polygonIndex, _, children⟩ => polygonIndex :: forestIndices children

/-- The indices of a forest. -/
def forestIndices : List PolygonTreeNode → List Nat
  | [] => []
  | node :: rest => node.indices ++ forestIndices rest

end

/-- A node of a forest, below these ancestors. -/
inductive Occurs (forest : List PolygonTreeNode) : List Nat → PolygonTreeNode → Prop
  | root {node : PolygonTreeNode} : node ∈ forest → Occurs forest [] node
  | child {ancestors : List Nat} {node child : PolygonTreeNode} : Occurs forest ancestors node →
      child ∈ node.children → Occurs forest (node.polygonIndex :: ancestors) child

section Spec

variable (F)
  (polygons : List ExPolygon)

/-- The containment test of `build_polygon_tree`: one polygon against another. -/
def Contains (j i : Nat) : Prop :=
  i ≠ j ∧ ∃ outer inner, polygons[j]? = some outer ∧ polygons[i]? = some inner ∧
    firstVertexInside F outer inner = true

instance (j i : Nat) : Decidable (Contains F polygons j i) :=
  match hj : polygons[j]?, hi : polygons[i]? with
  | some outer, some inner =>
    decidable_of_iff (i ≠ j ∧ firstVertexInside F outer inner = true) (by
      simp [Contains, hj, hi])
  | none, _ => .isFalse (by simp [Contains, hj])
  | some _, none => .isFalse (by simp [Contains, hi])

/-- The area of a polygon. -/
def areaAt (i : Nat) : F :=
  contourAreaAbs ((polygons[i]?.map ExPolygon.contour).getD [])

/-- The polygons that contain this one. -/
def containers (i : Nat) : List Nat :=
  (List.range polygons.length).filter fun j => Contains F polygons j i

/-- The forest lists every polygon once, below the polygons that contain it, as a contour or a
hole by their number, and everything in ascending order. -/
structure ContainmentForest (forest : List PolygonTreeNode) : Prop where
  once : (forestIndices forest).Perm (List.range polygons.length)
  ancestors : ∀ {ancestors node}, Occurs forest ancestors node →
    ∀ j, j ∈ ancestors ↔ Contains F polygons j node.polygonIndex
  contours : ∀ {ancestors node}, Occurs forest ancestors node →
    (node.isContour = true ↔ Even (containers F polygons node.polygonIndex).length)
  roots : (forest.map PolygonTreeNode.polygonIndex).Pairwise (· < ·)
  children : ∀ {ancestors node}, Occurs forest ancestors node →
    (node.children.map PolygonTreeNode.polygonIndex).Pairwise (· < ·)

end Spec

/-! ### The parents -/

section Parents

variable {polygons : List ExPolygon} {i j : Nat}

theorem Contains.lt (h : Contains F polygons j i) : j < polygons.length ∧ i < polygons.length := by
  obtain ⟨-, outer, inner, hj, hi, -⟩ := h
  exact ⟨(List.getElem?_eq_some_iff.mp hj).1, (List.getElem?_eq_some_iff.mp hi).1⟩

/-- What the search for the parent of a polygon has found among these. -/
structure Best (F : Type) [Add F] [Sub F] [Mul F] [Div F] [IntCast F] [LinearOrder F]
    (polygons : List ExPolygon) (i : Nat) (seen : List Nat) (best : Option (Nat × F)) : Prop where
  of_none : best = none → ∀ j ∈ seen, ¬ Contains F polygons j i
  of_some : ∀ found, best = some found → Contains F polygons found.1 i ∧
    found.2 = areaAt F polygons found.1 ∧
    ∀ j ∈ seen, Contains F polygons j i → found.2 ≤ areaAt F polygons j

variable {polygon : ExPolygon}

theorem Best.offer {other : ExPolygon} {i j : Nat} {seen : List Nat} {best : Option (Nat × F)}
    (h : Best F polygons i seen best) (hi : polygons[i]? = some polygon)
    (hj : polygons[j]? = some other) :
    Best F polygons i (seen ++ [j]) (offerParent F polygon i best (other, j)) := by
  have harea : areaAt F polygons j = contourAreaAbs other.contour := by
    simp [areaAt, hj]
  -- A polygon that is no parent, or no smaller than the best one, leaves the search as it is.
  have hkeep : (Contains F polygons j i → best ≠ none ∧
      ∀ found, best = some found → found.2 ≤ areaAt F polygons j) →
      Best F polygons i (seen ++ [j]) best := by
    intro hpassed
    constructor
    · intro hnone k hk
      rcases List.mem_append.mp hk with hk | hk
      · exact h.of_none hnone k hk
      · rw [List.mem_singleton.mp hk]
        exact fun hcontains => (hpassed hcontains).1 hnone
    · intro found hfound
      obtain ⟨hcontains, hsize, hleast⟩ := h.of_some found hfound
      refine ⟨hcontains, hsize, fun k hk hki => ?_⟩
      rcases List.mem_append.mp hk with hk | hk
      · exact hleast k hk hki
      · rw [List.mem_singleton.mp hk] at hki ⊢
        exact (hpassed hki).2 found hfound
  dsimp only [offerParent]
  split_ifs with hself hinside hless
  · exact hkeep fun hcontains => absurd hself hcontains.1
  · have hcontains : Contains F polygons j i := ⟨hself, other, polygon, hj, hi, hinside⟩
    constructor
    · intro hnone
      cases hnone
    · intro found hfound
      cases hfound
      refine ⟨hcontains, harea.symm, fun k hk hki => ?_⟩
      rcases List.mem_append.mp hk with hk | hk
      · cases hbest : best with
        | none => exact absurd hki (h.of_none hbest k hk)
        | some old =>
          rw [hbest] at hless
          have hlt : contourAreaAbs other.contour < old.2 := by
            simpa using hless
          exact hlt.le.trans ((h.of_some old hbest).2.2 k hk hki)
      · rw [List.mem_singleton.mp hk, harea]
  · refine hkeep fun _ => ⟨fun hnone => ?_, fun found hfound => ?_⟩
    · rw [hnone] at hless
      exact hless rfl
    · rw [hfound] at hless
      rw [harea]
      simpa using hless
  · refine hkeep fun hcontains => absurd ?_ hinside
    obtain ⟨-, outer, inner, houter, hinner, htest⟩ := hcontains
    rw [hj] at houter
    rw [hi] at hinner
    cases houter
    cases hinner
    exact htest

theorem best_foldl {i : Nat} (hi : polygons[i]? = some polygon) (n : Nat) (hn : n ≤ polygons.length)
    :
    Best F polygons i (List.range n)
      ((polygons.zipIdx.take n).foldl (offerParent F polygon i) none) := by
  induction n with
  | zero =>
    constructor
    · intro _ j hj
      cases hj
    · intro _ hfound
      cases hfound
  | succ n ih =>
    have hlt : n < polygons.zipIdx.length := by
      simpa using hn
    rw [List.take_succ_eq_append_getElem hlt, List.foldl_append, List.range_succ]
    simp only [List.getElem_zipIdx, Nat.zero_add, List.foldl_cons, List.foldl_nil]
    exact (ih (by omega)).offer hi (List.getElem?_eq_getElem (by omega))

theorem best_bestParent {i : Nat} (hi : polygons[i]? = some polygon) :
    ∃ best, bestParent F polygons polygon i = best.map Prod.fst ∧
      Best F polygons i (List.range polygons.length) best := by
  refine ⟨_, rfl, ?_⟩
  have h := best_foldl (F := F) hi polygons.length le_rfl
  rwa [List.take_of_length_le (by simp)] at h

/-- The parent of a polygon. -/
def parentAt (F : Type) [Add F] [Sub F] [Mul F] [Div F] [IntCast F] [LinearOrder F]
    (polygons : List ExPolygon) (i : Nat) : Option Nat :=
  ((parents F polygons)[i]?).join

theorem length_parents : (parents F polygons).length = polygons.length := by
  simp [parents]

theorem getElem?_parents {i : Nat} (hi : i < polygons.length) :
    (parents F polygons)[i]? = some (parentAt F polygons i) := by
  simp [parentAt, parents, hi]

theorem best_parentAt {i : Nat} (hi : i < polygons.length) :
    ∃ best, parentAt F polygons i = best.map Prod.fst ∧
      Best F polygons i (List.range polygons.length) best := by
  obtain ⟨best, hbest, h⟩ := best_bestParent (F := F) (List.getElem?_eq_getElem hi)
  refine ⟨best, ?_, h⟩
  rw [← hbest]
  simp [parentAt, parents, hi]

theorem lt_of_parentAt {i p : Nat} (h : parentAt F polygons i = some p) : i < polygons.length := by
  by_contra hi
  have hnone : (parents F polygons)[i]? = none := by
    rw [List.getElem?_eq_none_iff, length_parents]
    omega
  rw [parentAt, hnone] at h
  cases h

/-- The parent of a polygon is its smallest container. -/
theorem picks_parentAt :
    Picks (Contains F polygons) (areaAt F polygons) (parentAt F polygons) where
  of_none := by
    intro i hnone j hcontains
    obtain ⟨hj, hi⟩ := hcontains.lt
    obtain ⟨best, hbest, h⟩ := best_parentAt (F := F) hi
    exact h.of_none (Option.map_eq_none_iff.mp (hbest.symm.trans hnone)) j
      (List.mem_range.mpr hj) hcontains
  of_some := by
    intro i p hsome
    obtain ⟨best, hbest, h⟩ := best_parentAt (F := F) (lt_of_parentAt hsome)
    obtain ⟨found, hfound, rfl⟩ := Option.map_eq_some_iff.mp (hbest.symm.trans hsome)
    exact (h.of_some found hfound).1
  least := by
    intro i p hsome j hcontains
    obtain ⟨best, hbest, h⟩ := best_parentAt (F := F) (lt_of_parentAt hsome)
    obtain ⟨found, hfound, rfl⟩ := Option.map_eq_some_iff.mp (hbest.symm.trans hsome)
    obtain ⟨-, hsize, hleast⟩ := h.of_some found hfound
    rw [← hsize]
    exact hleast j (List.mem_range.mpr hcontains.lt.1) hcontains

theorem mem_withParent {i : Nat} {parent : Option Nat} :
    i ∈ withParent (parents F polygons) parent ↔
      i < polygons.length ∧ parentAt F polygons i = parent := by
  rw [withParent, (List.perm_insertionSort _ _).mem_iff, List.mem_filter, List.mem_range,
    length_parents]
  refine and_congr_right fun hi => ?_
  rw [getElem?_parents hi, decide_eq_true_eq, Option.some_inj]

/-- Roots and siblings are in ascending order. -/
theorem withParent_ascending (parents : List (Option Nat)) (parent : Option Nat) :
    (withParent parents parent).Pairwise (· < ·) := by
  have hlt : ((List.range parents.length).filter fun i => parents[i]? = some parent).Pairwise
      (· < ·) := List.Pairwise.filter _ List.pairwise_lt_range
  rw [withParent, List.Pairwise.insertionSort_eq (hlt.imp Nat.le_of_lt)]
  exact hlt

end Parents

/-! ### The depth of a node -/

section Depth

variable {polygons : List ExPolygon} {i : Nat}

theorem mem_containers {j : Nat} : j ∈ containers F polygons i ↔ Contains F polygons j i := by
  rw [containers, List.mem_filter, List.mem_range, decide_eq_true_eq]
  exact ⟨fun h => h.2, fun h => ⟨h.lt.1, h⟩⟩

theorem nodup_containers : (containers F polygons i).Nodup :=
  List.nodup_range.filter _

theorem length_containers_lt (hi : i < polygons.length) :
    (containers F polygons i).length < polygons.length := by
  have hnodup : (i :: containers F polygons i).Nodup :=
    List.nodup_cons.mpr ⟨fun h => (mem_containers.mp h).1 rfl, nodup_containers⟩
  have hsub : i :: containers F polygons i ⊆ List.range polygons.length := by
    refine List.cons_subset.mpr ⟨List.mem_range.mpr hi, fun j hj => ?_⟩
    exact List.mem_range.mpr (mem_containers.mp hj).lt.1
  simpa using (hnodup.subperm hsub).length_le

variable (h : Nests (Contains F polygons) (areaAt F polygons))
include h

/-- A polygon lies one level below its parent. -/
theorem length_containers_of_parentAt {c p : Nat} (hc : parentAt F polygons c = some p) :
    (containers F polygons c).length = (containers F polygons p).length + 1 := by
  have hperm : (containers F polygons c).Perm (p :: containers F polygons p) := by
    rw [List.perm_ext_iff_of_nodup nodup_containers
      (List.nodup_cons.mpr ⟨fun hp => h.irrefl p (mem_containers.mp hp), nodup_containers⟩)]
    intro j
    rw [List.mem_cons, mem_containers, mem_containers]
    exact contains_iff_of_pick h picks_parentAt hc j
  rw [hperm.length_eq, List.length_cons]

omit h in
theorem containers_of_parentAt_none (hi : parentAt F polygons i = none) :
    containers F polygons i = [] := by
  refine List.eq_nil_iff_forall_not_mem.mpr fun j hj => ?_
  exact picks_parentAt.of_none hi j (mem_containers.mp hj)

end Depth

/-! ### Building the trees -/

section Build

variable {polygons : List ExPolygon}

instance (a c : Nat) : Decidable (Covers (Contains F polygons) a c) :=
  inferInstanceAs (Decidable (a = c ∨ Contains F polygons a c))

variable (F polygons) in
/-- The children of a polygon. -/
def childrenAt (p : Nat) : List Nat :=
  withParent (parents F polygons) (some p)

theorem forestIndices_eq_flatMap (forest : List PolygonTreeNode) :
    forestIndices forest = forest.flatMap PolygonTreeNode.indices := by
  induction forest with
  | nil => rfl
  | cons node rest ih => rw [forestIndices, ih, List.flatMap_cons]

/-- A tree with a given root lists just what the root covers, once. -/
def ListsCovered (F : Type) [Add F] [Sub F] [Mul F] [Div F] [IntCast F] [LinearOrder F]
    (polygons : List ExPolygon) (idx : Nat) (node : PolygonTreeNode) : Prop :=
  ∀ i, node.indices.count i = if Covers (Contains F polygons) idx i then 1 else 0

theorem count_forestIndices {roots : List Nat} {forest : List PolygonTreeNode}
    (h : List.Forall₂ (ListsCovered F polygons) roots forest) (i : Nat) :
    (forestIndices forest).count i =
      roots.countP fun root => Covers (Contains F polygons) root i := by
  induction h with
  | nil => rfl
  | @cons root node roots rest hroot _ ih =>
    rw [forestIndices, List.count_append, ih, hroot i, List.countP_cons, Nat.add_comm]
    simp only [decide_eq_true_eq]

variable (h : Nests (Contains F polygons) (areaAt F polygons))
include h

/-- Of the polygons with a given parent one covers what the parent contains, and with no
parent one covers anything. -/
theorem countP_withParent {parent : Option Nat} {i : Nat} (hi : i < polygons.length)
    (hparent : ∀ p, parent = some p → Contains F polygons p i) :
    (withParent (parents F polygons) parent).countP
      (fun c => Covers (Contains F polygons) c i) = 1 := by
  obtain ⟨c, ⟨hc, hpick, hcovers⟩, honly⟩ := existsUnique_child h picks_parentAt
    (Finset.range polygons.length) (fun hab => Finset.mem_range.mpr hab.lt.1)
    (Finset.mem_range.mpr hi) hparent
  have hperm : ((withParent (parents F polygons) parent).filter
      fun c => Covers (Contains F polygons) c i).Perm [c] := by
    rw [List.perm_ext_iff_of_nodup
      (((withParent_ascending _ _).imp Nat.ne_of_lt).filter _) (List.nodup_singleton c)]
    intro j
    rw [List.mem_filter, mem_withParent, decide_eq_true_eq, List.mem_singleton]
    constructor
    · rintro ⟨⟨hj, hjparent⟩, hjcovers⟩
      exact honly j ⟨Finset.mem_range.mpr hj, hjparent, hjcovers⟩
    · rintro rfl
      exact ⟨⟨Finset.mem_range.mp hc, hpick⟩, hcovers⟩
  rw [List.countP_eq_length_filter, hperm.length_eq, List.length_singleton]

/-- Nothing below a polygon covers what it does not contain. -/
theorem countP_childrenAt_of_not {p i : Nat} (hnot : ¬ Contains F polygons p i) :
    (childrenAt F polygons p).countP (fun c => Covers (Contains F polygons) c i) = 0 := by
  rw [List.countP_eq_zero]
  intro c hc
  rw [decide_eq_true_eq]
  exact fun hcovers => hnot (hcovers.of_pick h picks_parentAt (mem_withParent.mp hc).2)

/-- A level for each polygon is enough to build the tree below a polygon. -/
theorem exists_buildNode (hsmall : polygons.length ≤ 2 ^ 32) (fuel : Nat) {idx : Nat}
    (hidx : idx < polygons.length)
    (hfuel : polygons.length ≤ (containers F polygons idx).length + fuel) :
    ∃ node, buildNode (childrenAt F polygons) fuel idx (containers F polygons idx).length =
      some node ∧ ListsCovered F polygons idx node := by
  induction fuel generalizing idx with
  | zero =>
    have := length_containers_lt (F := F) hidx
    omega
  | succ fuel ih =>
    have hchildren : ∀ c ∈ childrenAt F polygons idx, ∃ node,
        buildNode (childrenAt F polygons) fuel c ((containers F polygons idx).length + 1) =
          some node ∧ ListsCovered F polygons c node := by
      intro c hc
      obtain ⟨hlt, hparent⟩ := mem_withParent.mp hc
      have hdepth := length_containers_of_parentAt h hparent
      rw [← hdepth]
      exact ih hlt (by omega)
    choose! tree htree hlists using hchildren
    refine ⟨⟨idx % 2 ^ 32, (containers F polygons idx).length % 2 = 0,
      (childrenAt F polygons idx).map tree⟩, ?_, ?_⟩
    · rw [buildNode, List.mapM_eq_some_map htree]
      rfl
    · intro i
      have hrest : List.Forall₂ (ListsCovered F polygons) (childrenAt F polygons idx)
          ((childrenAt F polygons idx).map tree) :=
        List.forall₂_map_right_iff.mpr (List.forall₂_same.mpr hlists)
      rw [PolygonTreeNode.indices, List.count_cons, count_forestIndices hrest,
        Nat.mod_eq_of_lt (by omega)]
      by_cases hcontains : Contains F polygons idx i
      · have hne : idx ≠ i := fun heq => hcontains.1 heq.symm
        have hcovers : Covers (Contains F polygons) idx i := Or.inr hcontains
        rw [childrenAt, countP_withParent h hcontains.lt.2 fun p hp => Option.some.inj hp ▸ hcontains,
          if_pos hcovers]
        simp [hne]
      · rw [countP_childrenAt_of_not h hcontains]
        simp [Covers, hcontains]

theorem exists_buildPolygonTree (hsmall : polygons.length ≤ 2 ^ 32) :
    ∃ forest, buildPolygonTree F polygons = some forest ∧
      List.Forall₂ (fun root node => ListsCovered F polygons root node ∧
        buildNode (childrenAt F polygons) polygons.length root
          (containers F polygons root).length = some node)
        (withParent (parents F polygons) none) forest := by
  have hroots : ∀ root ∈ withParent (parents F polygons) none, ∃ node,
      buildNode (childrenAt F polygons) polygons.length root
        (containers F polygons root).length = some node ∧ ListsCovered F polygons root node :=
    fun root hroot => exists_buildNode h hsmall polygons.length (mem_withParent.mp hroot).1
      (Nat.le_add_left _ _)
  choose! tree htree hlists using hroots
  refine ⟨(withParent (parents F polygons) none).map tree, ?_, ?_⟩
  · refine List.mapM_eq_some_map fun root hroot => ?_
    have := htree root hroot
    rwa [containers_of_parentAt_none (mem_withParent.mp hroot).2] at this
  · refine List.forall₂_map_right_iff.mpr (List.forall₂_same.mpr fun root hroot => ?_)
    exact ⟨hlists root hroot, htree root hroot⟩

end Build

/-! ### The forest of a list of polygons -/

section Result

variable {polygons : List ExPolygon}

/-- A node that was built, below the containers of its polygon. -/
structure Built (F : Type) [Add F] [Sub F] [Mul F] [Div F] [IntCast F] [LinearOrder F]
    (polygons : List ExPolygon) (ancestors : List Nat) (node : PolygonTreeNode) : Prop where
  inRange : node.polygonIndex < polygons.length
  built : ∃ fuel, buildNode (childrenAt F polygons) fuel node.polygonIndex
    (containers F polygons node.polygonIndex).length = some node
  ancestors : ∀ j, j ∈ ancestors ↔ Contains F polygons j node.polygonIndex

variable {depth fuel : Nat} {node : PolygonTreeNode}

theorem polygonIndex_of_buildNode {childrenOf : Nat → List Nat} {idx : Nat}
    (h : buildNode childrenOf fuel idx depth = some node) : node.polygonIndex = idx % 2 ^ 32 := by
  cases fuel with
  | zero => cases h
  | succ fuel =>
    obtain ⟨children, -, rfl⟩ := Option.map_eq_some_iff.mp h
    rfl

/-- What the children of a node were built from. -/
theorem children_of_buildNode {childrenOf : Nat → List Nat} {idx : Nat}
    (h : buildNode childrenOf fuel idx depth = some node) :
    node.isContour = decide (depth % 2 = 0) ∧ ∃ fuel', List.Forall₂
      (fun c child => buildNode childrenOf fuel' c (depth + 1) = some child)
      (childrenOf idx) node.children := by
  cases fuel with
  | zero => cases h
  | succ fuel =>
    obtain ⟨children, hchildren, rfl⟩ := Option.map_eq_some_iff.mp h
    exact ⟨rfl, fuel, List.forall₂_of_mapM_eq_some hchildren⟩

variable (h : Nests (Contains F polygons) (areaAt F polygons))
  (hsmall : polygons.length ≤ 2 ^ 32)
include h hsmall

theorem built_of_occurs {forest : List PolygonTreeNode}
    (hforest : buildPolygonTree F polygons = some forest) {ancestors : List Nat}
    (hnode : Occurs forest ancestors node) : Built F polygons ancestors node := by
  induction hnode with
  | @root node hmem =>
    obtain ⟨root, hroot, hbuilt⟩ :=
      (List.forall₂_of_mapM_eq_some hforest).exists_of_mem_right hmem
    obtain ⟨hlt, hparent⟩ := mem_withParent.mp hroot
    have hindex : node.polygonIndex = root := by
      rw [polygonIndex_of_buildNode hbuilt, Nat.mod_eq_of_lt (by omega)]
    have hcontainers := containers_of_parentAt_none hparent
    refine ⟨by omega, ⟨polygons.length, ?_⟩, fun j => ?_⟩
    · rw [hindex, hcontainers]
      exact hbuilt
    · rw [hindex, ← mem_containers, hcontainers]
  | @child ancestors node child _ hmem ih =>
    obtain ⟨fuel, hbuilt⟩ := ih.built
    obtain ⟨-, fuel', hchildren⟩ := children_of_buildNode hbuilt
    obtain ⟨c, hc, hchild⟩ := hchildren.exists_of_mem_right hmem
    obtain ⟨hlt, hparent⟩ := mem_withParent.mp hc
    have hindex : child.polygonIndex = c := by
      rw [polygonIndex_of_buildNode hchild, Nat.mod_eq_of_lt (by omega)]
    refine ⟨by omega, ⟨fuel', ?_⟩, fun j => ?_⟩
    · rw [hindex, length_containers_of_parentAt h hparent]
      exact hchild
    · rw [hindex, List.mem_cons, ih.ancestors]
      exact (contains_iff_of_pick h picks_parentAt hparent j).symm

omit h in
/-- A list of trees has the indices it was built from, in their order. -/
theorem pairwise_polygonIndex {parent : Option Nat} {nodes : List PolygonTreeNode}
    (hnodes : List.Forall₂ (fun c node => buildNode (childrenAt F polygons) fuel c depth =
      some node) (withParent (parents F polygons) parent) nodes) :
    (nodes.map PolygonTreeNode.polygonIndex).Pairwise (· < ·) := by
  have heq : nodes.map PolygonTreeNode.polygonIndex = withParent (parents F polygons) parent := by
    refine List.ext_getElem (by simp [hnodes.length_eq]) fun k hk hk' => ?_
    have hbuilt := (List.forall₂_iff_get.mp hnodes).2 k hk' (by simpa using hk)
    have hlt := (mem_withParent.mp (List.getElem_mem hk')).1
    rw [List.getElem_map]
    exact (polygonIndex_of_buildNode hbuilt).trans (Nat.mod_eq_of_lt (hlt.trans_le hsmall))
  rw [heq]
  exact withParent_ascending _ _

theorem containmentForest_of_nests :
    ∃ forest, buildPolygonTree F polygons = some forest ∧
      ContainmentForest F polygons forest := by
  obtain ⟨forest, hforest, htrees⟩ := exists_buildPolygonTree h hsmall
  refine ⟨forest, hforest, ?_, ?_, ?_, ?_, ?_⟩
  · rw [List.perm_iff_count]
    intro i
    rw [count_forestIndices (htrees.imp fun _ _ htree => htree.1)]
    by_cases hi : i < polygons.length
    · rw [countP_withParent h hi (by simp), List.count_eq_one_of_mem List.nodup_range
        (List.mem_range.mpr hi)]
    · rw [List.count_eq_zero_of_not_mem (by simpa using hi), List.countP_eq_zero]
      intro root hroot
      rw [decide_eq_true_eq]
      rintro (rfl | hcontains)
      · exact hi (mem_withParent.mp hroot).1
      · exact hi hcontains.lt.2
  · exact fun hnode => (built_of_occurs h hsmall hforest hnode).ancestors
  · intro ancestors node hnode
    obtain ⟨fuel, hbuilt⟩ := (built_of_occurs h hsmall hforest hnode).built
    rw [(children_of_buildNode hbuilt).1, decide_eq_true_eq, Nat.even_iff]
  · exact pairwise_polygonIndex hsmall (List.forall₂_of_mapM_eq_some hforest)
  · intro ancestors node hnode
    obtain ⟨fuel, hbuilt⟩ := (built_of_occurs h hsmall hforest hnode).built
    obtain ⟨-, fuel', hchildren⟩ := children_of_buildNode hbuilt
    exact pairwise_polygonIndex hsmall hchildren

end Result

/-! ### Indices that do not fit -/

section Large

variable {polygons : List ExPolygon}

theorem indices_lt {childrenOf : Nat → List Nat} {fuel idx depth : Nat} {node : PolygonTreeNode}
    (h : buildNode childrenOf fuel idx depth = some node) : ∀ i ∈ node.indices, i < 2 ^ 32 := by
  induction fuel generalizing idx depth node with
  | zero => cases h
  | succ fuel ih =>
    obtain ⟨children, hchildren, rfl⟩ := Option.map_eq_some_iff.mp h
    intro i hi
    rw [PolygonTreeNode.indices, forestIndices_eq_flatMap] at hi
    rcases List.mem_cons.mp hi with rfl | hi
    · exact Nat.mod_lt _ (by norm_num)
    · obtain ⟨child, hchild, hi⟩ := List.mem_flatMap.mp hi
      obtain ⟨c, -, hbuilt⟩ :=
        (List.forall₂_of_mapM_eq_some hchildren).exists_of_mem_right hchild
      exact ih hbuilt i hi

/-- With more than 2^32 polygons some index is not listed. -/
theorem not_containmentForest_of_large (hlarge : 2 ^ 32 < polygons.length) :
    ¬ ∃ forest, buildPolygonTree F polygons = some forest ∧
      ContainmentForest F polygons forest := by
  rintro ⟨forest, hforest, hlists⟩
  have hmem : 2 ^ 32 ∈ forestIndices forest :=
    hlists.once.mem_iff.mpr (List.mem_range.mpr hlarge)
  rw [forestIndices_eq_flatMap] at hmem
  obtain ⟨node, hnode, hindex⟩ := List.mem_flatMap.mp hmem
  obtain ⟨root, -, hbuilt⟩ := (List.forall₂_of_mapM_eq_some hforest).exists_of_mem_right hnode
  exact lt_irrefl _ (indices_lt hbuilt _ hindex)

/-- The forest is built, and is the containment forest, just up to 2^32 polygons. -/
theorem containmentForest_iff (h : Nests (Contains F polygons) (areaAt F polygons)) :
    (∃ forest, buildPolygonTree F polygons = some forest ∧
      ContainmentForest F polygons forest) ↔ polygons.length ≤ 2 ^ 32 := by
  constructor
  · intro hforest
    by_contra hlarge
    exact not_containmentForest_of_large (not_le.mp hlarge) hforest
  · exact containmentForest_of_nests h

end Large

/-- Nesting may be tested on the polygons there are. -/
theorem nests_of_forall {F : Type} [Add F] [Sub F] [Mul F] [Div F] [IntCast F] [LinearOrder F]
    {polygons : List ExPolygon}
    (htrans : ∀ a < polygons.length, ∀ b < polygons.length, ∀ c < polygons.length,
      Contains F polygons a b → Contains F polygons b c → Contains F polygons a c)
    (hlarger : ∀ a < polygons.length, ∀ b < polygons.length,
      Contains F polygons a b → areaAt F polygons b < areaAt F polygons a)
    (hareas : ∀ a < polygons.length, ∀ b < polygons.length, ∀ c < polygons.length,
      Contains F polygons a c ∧ Contains F polygons b c ∧
        areaAt F polygons a = areaAt F polygons b → a = b)
    (hnested : ∀ a < polygons.length, ∀ b < polygons.length, ∀ c < polygons.length,
      Contains F polygons a c ∧ Contains F polygons b c ∧
        areaAt F polygons a < areaAt F polygons b → Contains F polygons b a) :
    Nests (Contains F polygons) (areaAt F polygons) where
  trans := fun hab hbc => htrans _ hab.lt.1 _ hab.lt.2 _ hbc.lt.2 hab hbc
  larger := fun hab => hlarger _ hab.lt.1 _ hab.lt.2 hab
  nested := by
    intro a b c hac hbc hne
    rcases lt_trichotomy (areaAt F polygons a) (areaAt F polygons b) with hlt | heq | hlt
    · exact Or.inl ⟨hlt, hnested a hac.lt.1 b hbc.lt.1 c hac.lt.2 ⟨hac, hbc, hlt⟩⟩
    · exact absurd (hareas a hac.lt.1 b hbc.lt.1 c hac.lt.2 ⟨hac, hbc, heq⟩) hne
    · exact Or.inr ⟨hlt, hnested b hbc.lt.1 a hac.lt.1 c hac.lt.2 ⟨hbc, hac, hlt⟩⟩

/-- A square. -/
def square (lo hi : ℤ) : ExPolygon where
  contour := [⟨lo, lo⟩, ⟨hi, lo⟩, ⟨hi, hi⟩, ⟨lo, hi⟩]

/-- An island in a hole, listed before both, and a square apart. -/
def nestedSquares : List ExPolygon :=
  [square 4 6, square 20 30, square 0 10, square 2 8]

theorem containmentForest_iff_nestedSquares :
    ∃ forest, buildPolygonTree ℚ nestedSquares = some forest ∧
      ContainmentForest ℚ nestedSquares forest :=
  (containmentForest_iff
    (nests_of_forall (by decide +kernel) (by decide +kernel) (by decide +kernel)
      (by decide +kernel))).mpr (by decide)

/-- So many polygons without a point that the index of the last one does not fit. -/
theorem not_containmentForest_replicate :
    Nests (Contains ℚ (List.replicate (2 ^ 32 + 1) ⟨[], []⟩))
        (areaAt ℚ (List.replicate (2 ^ 32 + 1) ⟨[], []⟩)) ∧
      ¬ ∃ forest, buildPolygonTree ℚ (List.replicate (2 ^ 32 + 1) ⟨[], []⟩) = some forest ∧
        ContainmentForest ℚ (List.replicate (2 ^ 32 + 1) ⟨[], []⟩) forest := by
  constructor
  · have hnone : ∀ a b, ¬ Contains ℚ (List.replicate (2 ^ 32 + 1) ⟨[], []⟩) a b := by
      rintro a b ⟨-, outer, inner, -, hinner, htest⟩
      rw [(List.mem_replicate.mp (List.mem_of_getElem? hinner)).2] at htest
      cases htest
    exact ⟨fun h => absurd h (hnone _ _), fun h => absurd h (hnone _ _),
      fun h => absurd h (hnone _ _)⟩
  · refine not_containmentForest_of_large ?_
    rw [List.length_replicate]
    norm_num

end PinchNPrint.Mesh
