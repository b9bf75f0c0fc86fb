/-
Splitting a mesh into its connected components (`slicer-helpers`: `split.rs`).

Two faces are adjacent when one has a directed edge and the other has it reversed. The split finds
the faces with a given edge through a map, labels the components by a search with a stack, and
builds one mesh for each label, whose vertices are numbered as they are first used. The parts are
the components, each with its faces and vertices (`splitConnectedComponents_exact`).

Maps that are only looked up are functions. Indices are in 32 bits, and so are the new numbers.
-/

import PinchNPrint.Lib.Labelling
import PinchNPrint.Mesh.Slabs

namespace PinchNPrint.Mesh

open Labelling Relation
open Region (IndexedTriangleSet Point3)

/-! ### Adjacent faces -/

/-- The directed edges of a face. -/
def directedEdges : Nat × Nat × Nat → List (Nat × Nat)
  | (i0, i1, i2) => [(i0, i1), (i1, i2), (i2, i0)]

/-- The corners of a face. -/
def corners : Nat × Nat × Nat → List Nat
  | (i0, i1, i2) => [i0, i1, i2]

/-- An entry of `directed_edge_to_faces` gets one more face. -/
def pushEdgeFace (t : Nat) (map : Nat × Nat → List Nat) (edge : Nat × Nat) : Nat × Nat → List Nat :=
  Function.update map edge (map edge ++ [t])

def directedEdgeToFaces (faces : List (Nat × Nat × Nat)) : Nat × Nat → List Nat :=
  faces.zipIdx.foldl (fun map (face, t) => (directedEdges face).foldl (pushEdgeFace t) map)
    fun _ => []

def faceAdjacency (faces : List (Nat × Nat × Nat)) (t : Nat) : List Nat :=
  match faces[t]? with
  | none => []
  | some face =>
    (directedEdges face).flatMap fun (a, b) =>
      (directedEdgeToFaces faces (b, a)).filter fun nbr => nbr ≠ t

/-! ### The parts -/

section Model

variable {F : Type}

/-- An entry of `components` with its entry of `vertex_maps`. -/
structure Component (F : Type) where
  vertices : List (Point3 F) := []
  indices : List Nat := []
  vertexMap : List (Nat × Nat) := []

/-- `remap`: the number of a vertex in the part. -/
def remap (set : IndexedTriangleSet F) (comp : Component F) (orig : Nat) :
    Option (Nat × Component F) :=
  match comp.vertexMap.lookup orig with
  | some known => some (known, comp)
  | none => do
    let next := comp.vertexMap.length % 2 ^ 32
    let vertex ← set.vertices[orig]?
    return (next, { comp with
      vertices := comp.vertices ++ [vertex]
      vertexMap := comp.vertexMap ++ [(orig, next)] })

/-- A face is added to its part. -/
def addFace (set : IndexedTriangleSet F) (comp : Component F) :
    Nat × Nat × Nat → Option (Component F)
  | (i0, i1, i2) => do
    let (r0, comp) ← remap set comp i0
    let (r1, comp) ← remap set comp i1
    let (r2, comp) ← remap set comp i2
    return { comp with indices := comp.indices ++ [r0, r1, r2] }

/-- A face is added to the part of its label. -/
def addLabelled (set : IndexedTriangleSet F) (componentId : Nat → Option Nat)
    (components : Nat → Component F) (face : (Nat × Nat × Nat) × Nat) :
    Option (Nat → Component F) := do
  let cid ← componentId face.2
  let comp ← addFace set (components cid) face.1
  return Function.update components cid comp

def splitConnectedComponents (set : IndexedTriangleSet F) : Option (List (IndexedTriangleSet F)) :=
  let faces := chunks3 set.indices
  if faces.length = 0 then some []
  else do
    let (componentId, numComponents) ←
      labelAll (faceAdjacency faces) faces.length (List.range faces.length)
    let components ← faces.zipIdx.foldlM (addLabelled set componentId) fun _ => {}
    return (List.range numComponents).map fun cid =>
      { vertices := (components cid).vertices, indices := (components cid).indices }

end Model

/-! ### What a split says -/

section Spec

variable {F : Type}

/-- Two faces share an edge with opposite winding. -/
def SharesEdge (faces : List (Nat × Nat × Nat)) (t u : Nat) : Prop :=
  ∃ face other, faces[t]? = some face ∧ faces[u]? = some other ∧
    ∃ a b, (a, b) ∈ directedEdges face ∧ (b, a) ∈ directedEdges other

/-- Two faces are connected through shared edges. -/
def Connected (faces : List (Nat × Nat × Nat)) : Nat → Nat → Prop :=
  ReflTransGen (SharesEdge faces)

/-- The corners of these faces. -/
def cornersOf (faces : List (Nat × Nat × Nat)) (cls : List Nat) : List Nat :=
  cls.flatMap fun t => ((faces[t]?).map corners).getD []

/-- A part lists these faces, with the vertices they use: each once, and no other. -/
structure IsPart (set : IndexedTriangleSet F) (cls : List Nat) (part : IndexedTriangleSet F)
    (sources : List Nat) : Prop where
  nodup : sources.Nodup
  vertices : List.Forall₂ (fun s p => set.vertices[s]? = some p) sources part.vertices
  indices : part.indices.map (fun i => sources[i]?) =
    (cornersOf (chunks3 set.indices) cls).map some
  positions : part.indices.map (fun i => part.vertices[i]?) =
    (cornersOf (chunks3 set.indices) cls).map fun s => set.vertices[s]?
  used : ∀ i < part.vertices.length, i ∈ part.indices

/-- The parts are the components of the faces, in the order of their first faces. -/
structure IsSplit (set : IndexedTriangleSet F) (parts : List (IndexedTriangleSet F))
    (classes : List (List Nat)) : Prop where
  once : classes.flatten.Perm (List.range (chunks3 set.indices).length)
  ascending : ∀ cls ∈ classes, cls.Pairwise (· < ·)
  connected : ∀ cls ∈ classes, ∀ t ∈ cls, ∀ u,
    u ∈ cls ↔ Connected (chunks3 set.indices) t u
  ordered : ∃ firsts : List Nat, classes.map List.head? = firsts.map some ∧
    firsts.Pairwise (· < ·)
  parts : List.Forall₂ (fun cls part => ∃ sources, IsPart set cls part sources) classes parts

end Spec

/-! ### Adjacency -/

section Adjacency

variable {faces : List (Nat × Nat × Nat)} {t u : Nat}

theorem mem_pushEdgeFace {map : Nat × Nat → List Nat} {edge e : Nat × Nat} :
    u ∈ pushEdgeFace t map edge e ↔ u ∈ map e ∨ edge = e ∧ u = t := by
  rw [pushEdgeFace]
  by_cases he : e = edge
  · subst he
    simp
  · rw [Function.update_of_ne he]
    simp [Ne.symm he]

theorem mem_directedEdgeToFaces {e : Nat × Nat} :
    u ∈ directedEdgeToFaces faces e ↔ ∃ face, faces[u]? = some face ∧ e ∈ directedEdges face := by
  have hstep : ∀ (map : Nat × Nat → List Nat) (face : (Nat × Nat × Nat) × Nat),
      u ∈ (directedEdges face.1).foldl (pushEdgeFace face.2) map e ↔
        u ∈ map e ∨ e ∈ directedEdges face.1 ∧ u = face.2 := by
    intro map face
    rw [@List.foldl_collects _ _ _ (fun map : Nat × Nat → List Nat => u ∈ map e)
      (fun edge => edge = e ∧ u = face.2) fun map edge => mem_pushEdgeFace]
    simp
  rw [directedEdgeToFaces,
    @List.foldl_collects _ _ _ (fun map : Nat × Nat → List Nat => u ∈ map e) _ hstep]
  constructor
  · rintro (hnil | ⟨⟨face, t⟩, hmem, he, rfl⟩)
    · cases hnil
    · exact ⟨face, List.mem_zipIdx_iff_getElem?.mp hmem, he⟩
  · rintro ⟨face, hface, he⟩
    exact Or.inr ⟨(face, u), List.mem_zipIdx_iff_getElem?.mpr hface, he, rfl⟩

theorem mem_faceAdjacency :
    u ∈ faceAdjacency faces t ↔ u ≠ t ∧ SharesEdge faces t u := by
  rw [faceAdjacency, SharesEdge]
  cases hface : faces[t]? with
  | none => simp
  | some face =>
    simp only [List.mem_flatMap, List.mem_filter, mem_directedEdgeToFaces, decide_eq_true_eq]
    constructor
    · rintro ⟨⟨a, b⟩, hab, ⟨other, hother, hba⟩, hne⟩
      exact ⟨hne, face, other, rfl, hother, a, b, hab, hba⟩
    · rintro ⟨hne, face', other, hface', hother, a, b, hab, hba⟩
      cases hface'
      exact ⟨(a, b), hab, ⟨other, hother, hba⟩, hne⟩

theorem SharesEdge.symm (h : SharesEdge faces t u) : SharesEdge faces u t := by
  obtain ⟨face, other, hface, hother, a, b, hab, hba⟩ := h
  exact ⟨other, face, hother, hface, b, a, hba, hab⟩

theorem faceAdjacency_symm (t u : Nat) (h : u ∈ faceAdjacency faces t) :
    t ∈ faceAdjacency faces u := by
  obtain ⟨hne, hshares⟩ := mem_faceAdjacency.mp h
  exact mem_faceAdjacency.mpr ⟨hne.symm, hshares.symm⟩

theorem faceAdjacency_subset (t : Nat) :
    faceAdjacency faces t ⊆ List.range faces.length := by
  intro u hu
  obtain ⟨-, face, other, -, hother, -⟩ := mem_faceAdjacency.mp hu
  exact List.mem_range.mpr (List.getElem?_eq_some_iff.mp hother).1

theorem reaches_iff_connected : Reaches (faceAdjacency faces) t u ↔ Connected faces t u := by
  constructor
  · intro h
    exact ReflTransGen.mono (fun v w hw => (mem_faceAdjacency.mp hw).2) _ _ h
  · intro h
    induction h with
    | refl => exact ReflTransGen.refl
    | @tail v w _ hshares ih =>
      by_cases hvw : w = v
      · rwa [hvw]
      · exact ih.tail (mem_faceAdjacency.mpr ⟨hvw, hshares⟩)

end Adjacency

/-! ### Building a part -/

section Building

variable {F : Type} {set : IndexedTriangleSet F} {comp : Component F}
  {corners sources numbers : List Nat}

/-- A part under way: these corners, numbered so, use just these vertices. -/
structure Building (set : IndexedTriangleSet F) (corners sources : List Nat) (comp : Component F)
    (numbers : List Nat) : Prop where
  map : comp.vertexMap = sources.zipIdx
  nodup : sources.Nodup
  small : ∀ s ∈ sources, s < 2 ^ 32
  vertices : List.Forall₂ (fun s p => set.vertices[s]? = some p) sources comp.vertices
  numbered : numbers.map (fun i => sources[i]?) = corners.map some
  used : ∀ i < sources.length, i ∈ numbers

/-- Fewer vertices than there are indices have a number. -/
theorem length_lt_of_notMem (hnodup : sources.Nodup) (hsmall : ∀ s ∈ sources, s < 2 ^ 32)
    {orig : Nat} (horig : orig < 2 ^ 32) (hnew : orig ∉ sources) : sources.length < 2 ^ 32 := by
  have hsubset : orig :: sources ⊆ List.range (2 ^ 32) := by
    intro s hs
    rcases List.mem_cons.mp hs with rfl | hs
    · exact List.mem_range.mpr horig
    · exact List.mem_range.mpr (hsmall s hs)
  have hle := (List.subperm_of_subset (List.nodup_cons.mpr ⟨hnew, hnodup⟩) hsubset).length_le
  rw [List.length_cons, List.length_range] at hle
  omega

theorem Building.lookup_eq_some (h : Building set corners sources comp numbers) {orig known : Nat}
    (hlookup : comp.vertexMap.lookup orig = some known) : sources[known]? = some orig := by
  obtain ⟨before, after, hsplit, -⟩ := List.lookup_eq_some_iff.mp hlookup
  rw [h.map] at hsplit
  have hmem : (orig, known) ∈ sources.zipIdx := by simp [hsplit]
  exact List.mem_zipIdx_iff_getElem?.mp hmem

theorem Building.lookup_eq_none (h : Building set corners sources comp numbers) {orig : Nat}
    (hlookup : comp.vertexMap.lookup orig = none) : orig ∉ sources := by
  intro hmem
  obtain ⟨i, hi⟩ := List.mem_iff_getElem?.mp hmem
  have hpair : (orig, i) ∈ comp.vertexMap := by
    rw [h.map]
    exact List.mem_zipIdx_iff_getElem?.mpr hi
  simpa using List.lookup_eq_none_iff.mp hlookup _ hpair

theorem Building.remap (h : Building set corners sources comp numbers) (orig : Nat)
    (hin : orig < set.vertices.length) (hsmall : orig < 2 ^ 32) :
    ∃ new comp' sources', remap set comp orig = some (new, comp') ∧
      comp'.indices = comp.indices ∧
      Building set (corners ++ [orig]) sources' comp' (numbers ++ [new]) := by
  rw [Mesh.remap]
  cases hlookup : comp.vertexMap.lookup orig with
  | some known =>
    have hknown := h.lookup_eq_some hlookup
    refine ⟨known, comp, sources, rfl, rfl, h.map, h.nodup, h.small, h.vertices, ?_, ?_⟩
    · simp [h.numbered, hknown]
    · exact fun i hi => List.mem_append_left _ (h.used i hi)
  | none =>
    have hnew := h.lookup_eq_none hlookup
    have hlength : comp.vertexMap.length % 2 ^ 32 = sources.length := by
      rw [h.map, List.length_zipIdx]
      exact Nat.mod_eq_of_lt (length_lt_of_notMem h.nodup h.small hsmall hnew)
    have hget : set.vertices[orig]? = some set.vertices[orig] := List.getElem?_eq_getElem hin
    have hbound : ∀ i ∈ numbers, i < sources.length := by
      intro i hi
      have hmem : sources[i]? ∈ corners.map some := by
        rw [← h.numbered]
        exact List.mem_map_of_mem hi
      obtain ⟨s, -, hs⟩ := List.mem_map.mp hmem
      exact (List.getElem?_eq_some_iff.mp hs.symm).1
    refine ⟨sources.length, { comp with
      vertices := comp.vertices ++ [set.vertices[orig]]
      vertexMap := comp.vertexMap ++ [(orig, sources.length)] }, sources ++ [orig], ?_, rfl, ?_⟩
    · simp only [hget, hlength, Option.bind_eq_bind, Option.bind_some]
      rfl
    · constructor
      · simp [h.map, List.zipIdx_append]
      · exact List.nodup_append_comm.mp (List.nodup_cons.mpr ⟨hnew, h.nodup⟩)
      · intro s hs
        rcases List.mem_append.mp hs with hs | hs
        · exact h.small s hs
        · rwa [List.mem_singleton.mp hs]
      · exact List.rel_append h.vertices (List.Forall₂.cons hget List.Forall₂.nil)
      · have hold : numbers.map (fun i => (sources ++ [orig])[i]?) = corners.map some := by
          rw [← h.numbered]
          exact List.map_congr_left fun i hi => List.getElem?_append_left (hbound i hi)
        rw [List.map_append, List.map_append, hold]
        simp
      · intro i hi
        rw [List.length_append, List.length_singleton] at hi
        by_cases hlast : i = sources.length
        · simp [hlast]
        · exact List.mem_append_left _ (h.used i (by omega))

theorem Building.addFace (face : Nat × Nat × Nat)
    (h : Building set corners sources comp comp.indices)
    (hin : ∀ i ∈ Mesh.corners face, i < set.vertices.length)
    (hsmall : ∀ i ∈ Mesh.corners face, i < 2 ^ 32) :
    ∃ comp' sources', addFace set comp face = some comp' ∧
      Building set (corners ++ Mesh.corners face) sources' comp' comp'.indices := by
  obtain ⟨i0, i1, i2⟩ := face
  obtain ⟨r0, comp0, sources0, h0, hindices0, hbuild0⟩ :=
    h.remap i0 (hin _ (by simp [Mesh.corners])) (hsmall _ (by simp [Mesh.corners]))
  obtain ⟨r1, comp1, sources1, h1, hindices1, hbuild1⟩ :=
    hbuild0.remap i1 (hin _ (by simp [Mesh.corners])) (hsmall _ (by simp [Mesh.corners]))
  obtain ⟨r2, comp2, sources2, h2, hindices2, hbuild2⟩ :=
    hbuild1.remap i2 (hin _ (by simp [Mesh.corners])) (hsmall _ (by simp [Mesh.corners]))
  have hindices : comp2.indices ++ [r0, r1, r2] = comp.indices ++ [r0] ++ [r1] ++ [r2] := by
    rw [hindices2, hindices1, hindices0]
    simp
  refine ⟨{ comp2 with indices := comp2.indices ++ [r0, r1, r2] }, sources2, ?_, ?_⟩
  · simp [Mesh.addFace, h0, h1, h2]
  · have hcorners : corners ++ Mesh.corners (i0, i1, i2) = corners ++ [i0] ++ [i1] ++ [i2] := by
      simp [Mesh.corners]
    rw [hcorners]
    exact ⟨hbuild2.map, hbuild2.nodup, hbuild2.small, hbuild2.vertices,
      by rw [hindices]; exact hbuild2.numbered, by rw [hindices]; exact hbuild2.used⟩

theorem getElem?_vertices {vertices : List (Point3 F)}
    (h : List.Forall₂ (fun s p => set.vertices[s]? = some p) sources vertices) (i : Nat) :
    vertices[i]? = (sources[i]?).bind fun s => set.vertices[s]? := by
  induction h generalizing i with
  | nil => rfl
  | cons hget _ ih =>
    cases i with
    | zero => simp [hget]
    | succ i => simpa using ih i

theorem Building.isPart {cls : List Nat}
    (h : Building set (cornersOf (chunks3 set.indices) cls) sources comp comp.indices) :
    IsPart set cls ⟨comp.vertices, comp.indices⟩ sources where
  nodup := h.nodup
  vertices := h.vertices
  indices := h.numbered
  positions := by
    calc
      comp.indices.map (fun i => comp.vertices[i]?)
        = (comp.indices.map fun i => sources[i]?).map
            fun source => source.bind fun s => set.vertices[s]? := by
          rw [List.map_map]
          exact List.map_congr_left fun i _ => getElem?_vertices h.vertices i
      _ = (cornersOf (chunks3 set.indices) cls).map fun s => set.vertices[s]? := by
          rw [h.numbered, List.map_map]
          rfl
  used := by
    intro i hi
    rw [← h.vertices.length_eq] at hi
    exact h.used i hi

end Building

/-! ### The whole split -/

section Result

variable {F : Type} {set : IndexedTriangleSet F}

/-- The corners of the faces are indices of the mesh. -/
theorem mem_of_mem_chunks3 {indices : List Nat} {face : Nat × Nat × Nat}
    (hface : face ∈ chunks3 indices) : ∀ i ∈ corners face, i ∈ indices := by
  fun_induction chunks3 indices with
  | case1 i0 i1 i2 rest ih =>
    intro i hi
    rcases List.mem_cons.mp hface with rfl | hface
    · simp only [corners, List.mem_cons, List.not_mem_nil, or_false] at hi
      rcases hi with rfl | rfl | rfl <;> simp
    · have hrest := ih hface i hi
      simp [hrest]
  | case2 => cases hface

theorem exists_components (hin : ∀ i ∈ set.indices, i < set.vertices.length)
    (hsmall : ∀ i ∈ set.indices, i < 2 ^ 32) {componentId : Nat → Option Nat}
    (hcovers : ∀ t < (chunks3 set.indices).length, componentId t ≠ none) {k : Nat}
    (hk : k ≤ (chunks3 set.indices).length) :
    ∃ components, ((chunks3 set.indices).zipIdx.take k).foldlM (addLabelled set componentId)
        (fun _ => {}) = some components ∧
      ∀ c, ∃ sources, Building set (cornersOf (chunks3 set.indices)
        ((List.range k).filter fun t => componentId t = some c)) sources (components c)
          (components c).indices := by
  induction k with
  | zero =>
    exact ⟨_, rfl, fun c => ⟨[], rfl, List.nodup_nil, by simp, List.Forall₂.nil, rfl, by simp⟩⟩
  | succ k ih =>
    obtain ⟨components, hfold, hparts⟩ := ih (by omega)
    have hlt : k < (chunks3 set.indices).zipIdx.length := by
      rw [List.length_zipIdx]
      omega
    set face := (chunks3 set.indices)[k] with hface
    have hmem : ∀ i ∈ corners face, i ∈ set.indices :=
      mem_of_mem_chunks3 (List.getElem_mem _)
    obtain ⟨cid, hcid⟩ := Option.ne_none_iff_exists'.mp (hcovers k (by omega))
    obtain ⟨sources, hbuilding⟩ := hparts cid
    obtain ⟨comp, sources', hadd, hbuilding'⟩ := hbuilding.addFace face
      (fun i hi => hin i (hmem i hi)) (fun i hi => hsmall i (hmem i hi))
    refine ⟨Function.update components cid comp, ?_, fun c => ?_⟩
    · rw [List.take_succ_eq_append_getElem hlt, List.foldlM_append, hfold]
      simp only [List.getElem_zipIdx, Nat.zero_add, ← hface, Option.bind_eq_bind,
        Option.bind_some, List.foldlM_cons, List.foldlM_nil, addLabelled, hcid, hadd]
      rfl
    · rw [List.range_succ, List.filter_append, cornersOf, List.flatMap_append]
      by_cases hc : c = cid
      · subst hc
        refine ⟨sources', ?_⟩
        rw [Function.update_self]
        have hlast : cornersOf (chunks3 set.indices)
            ([k].filter fun t => componentId t = some c) = corners face := by
          simp [cornersOf, hcid, hface, List.getElem?_eq_getElem (show
            k < (chunks3 set.indices).length by omega)]
        have hcorners := congrArg (cornersOf (chunks3 set.indices)
          ((List.range k).filter fun t => componentId t = some c) ++ ·) hlast
        exact hcorners ▸ hbuilding'
      · have hlast : [k].filter (fun t => componentId t = some c) = [] := by
          simp [hcid, Ne.symm hc]
        rw [hlast, List.flatMap_nil, List.append_nil, Function.update_of_ne hc]
        exact hparts c

/-- The faces with one label. -/
def labelledFaces (labels : Nat → Option Nat) (n c : Nat) : List Nat :=
  (List.range n).filter fun t => labels t = some c

section Labels

variable {faces : List (Nat × Nat × Nat)} {labels : Nat → Option Nat} {roots : List Nat} {c t : Nat}

theorem mem_labelledFaces {n : Nat} :
    t ∈ labelledFaces labels n c ↔ t < n ∧ labels t = some c := by
  simp [labelledFaces]

theorem lt_of_label (h : Labelled (faceAdjacency faces) (List.range faces.length) labels roots)
    (hlabel : labels t = some c) : c < roots.length := by
  obtain ⟨r, hr, -⟩ := (h.label_iff t c).mp hlabel
  exact (List.getElem?_eq_some_iff.mp hr).1

theorem flatten_labelledFaces
    (h : Labelled (faceAdjacency faces) (List.range faces.length) labels roots) :
    ((List.range roots.length).map (labelledFaces labels faces.length)).flatten.Perm
      (List.range faces.length) := by
  refine (List.perm_ext_iff_of_nodup ?_ List.nodup_range).mpr fun t => ?_
  · rw [List.nodup_flatten, List.pairwise_map]
    constructor
    · intro cls hcls
      obtain ⟨c, -, rfl⟩ := List.mem_map.mp hcls
      exact List.nodup_range.filter _
    · refine List.nodup_range.imp fun {c c'} hne t ht ht' => hne ?_
      have hc := (mem_labelledFaces.mp ht).2
      rw [(mem_labelledFaces.mp ht').2] at hc
      exact (Option.some.inj hc).symm
  · rw [List.mem_flatten, List.mem_range]
    constructor
    · rintro ⟨cls, hcls, ht⟩
      obtain ⟨c, -, rfl⟩ := List.mem_map.mp hcls
      exact (mem_labelledFaces.mp ht).1
    · intro ht
      obtain ⟨c, hc⟩ := Option.ne_none_iff_exists'.mp (h.covers t (List.mem_range.mpr ht))
      exact ⟨_, List.mem_map_of_mem (List.mem_range.mpr (lt_of_label h hc)),
        mem_labelledFaces.mpr ⟨ht, hc⟩⟩

theorem mem_labelledFaces_iff_connected
    (h : Labelled (faceAdjacency faces) (List.range faces.length) labels roots)
    (ht : t ∈ labelledFaces labels faces.length c) {u : Nat} :
    u ∈ labelledFaces labels faces.length c ↔ Connected faces t u := by
  obtain ⟨hlt, hlabel⟩ := mem_labelledFaces.mp ht
  rw [mem_labelledFaces, h.label_eq_iff faceAdjacency_symm hlabel, reaches_iff_connected,
    and_iff_right_iff_imp]
  intro hconnected
  cases hconnected with
  | refl => exact hlt
  | tail _ hshares =>
    obtain ⟨-, other, -, hother, -⟩ := hshares
    exact (List.getElem?_eq_some_iff.mp hother).1

theorem map_head?_labelledFaces
    (h : Labelled (faceAdjacency faces) (List.range faces.length) labels roots) :
    ((List.range roots.length).map (labelledFaces labels faces.length)).map List.head? =
      roots.map some := by
  refine List.ext_getElem? fun c => ?_
  by_cases hc : c < roots.length
  · simp only [List.getElem?_map, List.getElem?_range hc, List.getElem?_eq_getElem hc,
      Option.map_some, Option.some.injEq]
    rw [labelledFaces, List.head?_filter]
    exact h.first c _ (List.getElem?_eq_getElem hc)
  · rw [List.getElem?_eq_none (by simpa using hc), List.getElem?_eq_none (by simpa using hc)]

end Labels

/-- A mesh is split into its components. -/
theorem splitConnectedComponents_exact (hin : ∀ i ∈ set.indices, i < set.vertices.length)
    (hsmall : ∀ i ∈ set.indices, i < 2 ^ 32) :
    ∃ parts classes, splitConnectedComponents set = some parts ∧ IsSplit set parts classes := by
  set faces := chunks3 set.indices with hfaces
  by_cases hempty : faces.length = 0
  · refine ⟨[], [], by simp [splitConnectedComponents, ← hfaces, hempty], ?_⟩
    rw [List.length_eq_zero_iff] at hempty
    exact ⟨by simp [← hfaces, hempty], by simp, by simp, ⟨[], rfl, List.Pairwise.nil⟩,
      List.Forall₂.nil⟩
  · obtain ⟨labels, roots, hlabels, hlabelled⟩ := @exists_labelAll _ _ (faceAdjacency faces) _
      faceAdjacency_symm (List.nodup_range (n := faces.length)) faceAdjacency_subset
    rw [List.length_range] at hlabels
    obtain ⟨components, hfold, hparts⟩ := exists_components hin hsmall
      (fun t ht => hlabelled.covers t (List.mem_range.mpr ht)) le_rfl
    rw [List.take_of_length_le (by simp), ← hfaces] at hfold
    refine ⟨(List.range roots.length).map fun c =>
        { vertices := (components c).vertices, indices := (components c).indices },
      (List.range roots.length).map (labelledFaces labels faces.length), ?_, ?_⟩
    · rw [splitConnectedComponents]
      simp only [← hfaces, hempty, if_false, hlabels, Option.bind_eq_bind, Option.bind_some, hfold]
      rfl
    · constructor
      · exact flatten_labelledFaces hlabelled
      · intro cls hcls
        obtain ⟨c, -, rfl⟩ := List.mem_map.mp hcls
        exact List.pairwise_lt_range.filter _
      · intro cls hcls t ht u
        obtain ⟨c, -, rfl⟩ := List.mem_map.mp hcls
        exact mem_labelledFaces_iff_connected hlabelled ht
      · exact ⟨roots, map_head?_labelledFaces hlabelled,
          List.pairwise_lt_range.sublist hlabelled.sublist⟩
      · rw [List.forall₂_map_left_iff, List.forall₂_map_right_iff, List.forall₂_same]
        intro c _
        obtain ⟨sources, hbuilding⟩ := hparts c
        exact ⟨sources, hbuilding.isPart⟩

end Result

/-- Two triangles that share an edge, and one that only touches them in a vertex. -/
def touchingFaces : IndexedTriangleSet ℚ where
  vertices := [⟨0, 0, 0⟩, ⟨1, 0, 0⟩, ⟨0, 1, 0⟩, ⟨1, 1, 0⟩, ⟨2, 1, 0⟩, ⟨2, 2, 0⟩]
  indices := [0, 1, 2, 3, 4, 5, 1, 3, 2]

theorem splitConnectedComponents_exact_touchingFaces :
    ∃ parts classes, splitConnectedComponents touchingFaces = some parts ∧
      IsSplit touchingFaces parts classes :=
  splitConnectedComponents_exact (by decide) (by decide)

end PinchNPrint.Mesh
