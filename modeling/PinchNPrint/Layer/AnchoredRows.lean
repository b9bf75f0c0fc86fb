/-
Rows from a committed event stream (`slicer-runtime`: `anchored_rows.rs`,
`layer_executor.rs`).

Ordinary layers are model rows. Z-spanning entities go to the row of their
anchor layer; planar entities are gathered into planes, planes within the
tolerance of the one that opened a run are joined, and a walk over rows and
planes merges a plane into a row within the tolerance or gives it a row of its
own.

A row is kept as a draft, next to the anchored entities that are appended to
it: the source appends in place, `build` does it at the end.

`rows_synthesized_iff`: everything is conserved, and rows stay apart unless a
model row has one plane below and one above it, both within the tolerance.
-/

import PinchNPrint.Layer.Anchored
import PinchNPrint.Lib.Sequences

namespace PinchNPrint.Layer

variable {F : Type}

/-! ### Drafts -/

def anchoredEntityToPrintEntity [One F] (entity : AnchoredEntity F) (topoOrder : Nat) :
    PrintEntity F where
  entityId := entity.localId
  path := { points := entity.pathPoints, role := entity.role, speedFactor := 1 }
  role := entity.role
  regionKey := {}
  topoOrder := topoOrder
  toolIndex := 0

/-- `append_entities`: the order of the row is continued. -/
def appendEntities [One F] (row : LayerCollectionIR F) (entities : List (AnchoredEntity F)) :
    LayerCollectionIR F :=
  { row with
    orderedEntities := row.orderedEntities ++ entities.mapIdx fun k entity =>
      anchoredEntityToPrintEntity entity (row.orderedEntities.length + k) }

/-- A row and the anchored entities that are appended to it. -/
structure RowDraft (F : Type) where
  row : LayerCollectionIR F
  added : List (AnchoredEntity F) := []
deriving DecidableEq

def RowDraft.build [One F] (draft : RowDraft F) : LayerCollectionIR F :=
  appendEntities draft.row draft.added

/-- Append to a draft. -/
def RowDraft.append (draft : RowDraft F) (entities : List (AnchoredEntity F)) : RowDraft F :=
  { draft with added := draft.added ++ entities }

inductive CommittedLayerEvent (F : Type) where
  | Anchored (collection : OrderedEventCollection F)
  | Model (row : RowDraft F)
deriving DecidableEq

def CommittedLayerEvent.collection? : CommittedLayerEvent F → Option (OrderedEventCollection F)
  | .Anchored collection => some collection
  | .Model _ => none

def CommittedLayerEvent.row? : CommittedLayerEvent F → Option (RowDraft F)
  | .Anchored _ => none
  | .Model row => some row

/-- `LayerExecutionError`, of which these two are raised here; the first keeps the
error of the stage in place of its text. -/
inductive LayerExecutionError where
  | FatalLayer (layerIndex : Nat) (source : LayerStageError)
  | AnchoredGeometry (localId : Nat) (message : String)
deriving DecidableEq

/-! ### Planes -/

def MERGE_EPSILON_UNITS : ℤ :=
  COORDINATE_TOLERANCE_UNITS

structure AnchoredPlane (F : Type) where
  zUnits : ℤ
  events : List (AnchoredEntity F)
deriving DecidableEq

def isSpanning (entity : AnchoredEntity F) : Bool :=
  match entity.geometry with
  | .Planar _ => false
  | .ZSpanning _ _ => true

/-- The planes of one collection: its planar entities by height. -/
def collectionPlanes (collection : OrderedEventCollection F) : List (AnchoredPlane F) :=
  List.gather (fun plane event => plane.zUnits == orderingZ event)
    (fun plane event => { plane with events := plane.events ++ [event] })
    (fun event => ⟨orderingZ event, [event]⟩)
    ((collection.events.filter (!isSpanning ·)).insertionSort eventLE)

/-- The order of the key `(z_units, ordinal)`. -/
def planeLE (a b : AnchoredPlane F × Nat) : Prop :=
  a.1.zUnits < b.1.zUnits ∨ (a.1.zUnits = b.1.zUnits ∧ a.2 ≤ b.2)

instance : DecidableRel (planeLE (F := F)) :=
  fun a b => inferInstanceAs (Decidable
    (a.1.zUnits < b.1.zUnits ∨ (a.1.zUnits = b.1.zUnits ∧ a.2 ≤ b.2)))

/-- The planes of all collections, by height and collection. -/
def sortedPlanes (collections : List (OrderedEventCollection F)) : List (AnchoredPlane F) :=
  ((collections.zipIdx.flatMap fun (collection, ordinal) =>
    (collectionPlanes collection).map (·, ordinal)).insertionSort planeLE).map Prod.fst

/-- Join planes within the tolerance of the plane that opened the run. -/
def coalesce (planes : List (AnchoredPlane F)) : List (AnchoredPlane F) :=
  List.gather (fun run plane => decide (|plane.zUnits - run.zUnits| ≤ MERGE_EPSILON_UNITS))
    (fun run plane => { run with events := run.events ++ plane.events }) id planes

/-! ### The walk -/

/-- The Z-spanning entities of a collection go to the first row of its anchor. -/
def routeSpanning (rows : List (RowDraft F)) (collection : OrderedEventCollection F) :
    Except LayerExecutionError (List (RowDraft F)) :=
  match (collection.events.filter isSpanning).insertionSort eventLE with
  | [] => .ok rows
  | first :: rest =>
      let anchor := collection.anchorGlobalLayerIndex
      match rows.findIdx? (·.row.globalLayerIndex == anchor) with
      | none => .error (.AnchoredGeometry first.localId
          s!"z-spanning entity anchors to global layer {anchor}, which has no committed model row")
      | some i => .ok (rows.modify i (·.append (first :: rest)))

section Walk

variable [Field F] [LinearOrder F] [FloorRing F]

def soloRow (plane : AnchoredPlane F) (globalLayerIndex : Nat) : RowDraft F where
  row := { globalLayerIndex := globalLayerIndex, z := unitsToMm plane.zUnits }
  added := plane.events

/-- The walk over rows and planes. A side is taken when it is within the
tolerance of the lower one. -/
def mergeWalk (lastModelIndex : Option Nat) :
    List (RowDraft F) → List (AnchoredPlane F) → List (RowDraft F)
  | [], [] => []
  | row :: rows, [] => row :: mergeWalk lastModelIndex rows []
  | [], plane :: planes =>
      soloRow plane (lastModelIndex.getD 0) :: mergeWalk lastModelIndex [] planes
  | row :: rows, plane :: planes =>
      let objectZ := mmToUnits row.row.z
      let printZMin := min objectZ plane.zUnits
      if objectZ ≤ printZMin + MERGE_EPSILON_UNITS then
        if plane.zUnits ≤ printZMin + MERGE_EPSILON_UNITS then
          row.append plane.events :: mergeWalk lastModelIndex rows planes
        else row :: mergeWalk lastModelIndex rows (plane :: planes)
      else
        soloRow plane row.row.globalLayerIndex :: mergeWalk lastModelIndex (row :: rows) planes
termination_by rows planes => rows.length + planes.length

/-- `synthesize_anchored_rows`, as drafts. -/
def synthesizeDrafts (committed : List (CommittedLayerEvent F)) :
    Except LayerExecutionError (List (RowDraft F)) := do
  let collections := committed.filterMap (·.collection?)
  let rows ← collections.foldlM routeSpanning (committed.filterMap (·.row?))
  .ok (mergeWalk (rows.getLast?.map (·.row.globalLayerIndex)) rows
    (coalesce (sortedPlanes collections)))

def synthesizeAnchoredRows (committed : List (CommittedLayerEvent F)) :
    Except LayerExecutionError (List (LayerCollectionIR F)) :=
  (synthesizeDrafts committed).map fun drafts => drafts.map RowDraft.build

end Walk

/-! ### What synthesis promises -/

/-- The model rows of a stream. -/
def modelRows [One F] (committed : List (CommittedLayerEvent F)) : List (LayerCollectionIR F) :=
  (committed.filterMap (·.row?)).map RowDraft.build

/-- The collections of a stream. -/
def anchoredCollections (committed : List (CommittedLayerEvent F)) :
    List (OrderedEventCollection F) :=
  committed.filterMap (·.collection?)

/-- A row with anchored entities behind its own. -/
def ExtendedBy [One F] (row out : LayerCollectionIR F) : Prop :=
  ∃ added, out = appendEntities row added

/-- The model rows, each extended, with stand-alone rows between them that carry
the index of the next model row. -/
inductive Woven [One F] : List (LayerCollectionIR F) → List (LayerCollectionIR F) → Prop
  | nil : Woven [] []
  | model {row out : LayerCollectionIR F} {rows outs : List (LayerCollectionIR F)} :
      ExtendedBy row out → Woven rows outs → Woven (row :: rows) (out :: outs)
  | solo {out : LayerCollectionIR F} {rows outs : List (LayerCollectionIR F)} :
      ExtendedBy { globalLayerIndex := out.globalLayerIndex, z := out.z } out →
      (∀ next ∈ rows.head?, out.globalLayerIndex = next.globalLayerIndex) →
      Woven rows outs → Woven rows (out :: outs)

/-- An entity without its position in a row. -/
def PrintEntity.unplaced (entity : PrintEntity F) : PrintEntity F :=
  { entity with topoOrder := 0 }

/-- The positions of a row's entities are counted from zero. -/
def TopoCounted (row : LayerCollectionIR F) : Prop :=
  row.orderedEntities.map (·.topoOrder) = List.range row.orderedEntities.length

section Promise

variable [Field F] [LinearOrder F] [FloorRing F]

/-- The height of a row in units. -/
def rowUnits (row : LayerCollectionIR F) : ℤ :=
  mmToUnits row.z

/-- What becomes of model rows and collections. -/
structure RowsConserved (rows : List (LayerCollectionIR F))
    (collections : List (OrderedEventCollection F)) (out : List (LayerCollectionIR F)) : Prop where
  entities : ((out.flatMap (·.orderedEntities)).map PrintEntity.unplaced).Perm
    ((rows.flatMap (·.orderedEntities)).map PrintEntity.unplaced ++
      (entitiesOf collections).map (anchoredEntityToPrintEntity · 0))
  rows : Woven rows out
  ascending : out.Pairwise fun a b => a.z < b.z
  apart : out.Pairwise fun a b => rowUnits a + MERGE_EPSILON_UNITS < rowUnits b
  topo : ∀ row ∈ out, TopoCounted row

/-- A row with a plane below and a plane above it, both within the tolerance. -/
def Straddled (z : ℤ) (planes : List (AnchoredPlane F)) : Prop :=
  ∃ below ∈ planes, ∃ above ∈ planes,
    below.zUnits < z ∧ z ≤ below.zUnits + MERGE_EPSILON_UNITS ∧
      z < above.zUnits ∧ above.zUnits ≤ z + MERGE_EPSILON_UNITS

instance (z : ℤ) (planes : List (AnchoredPlane F)) : Decidable (Straddled z planes) :=
  inferInstanceAs (Decidable (∃ below ∈ planes, ∃ above ∈ planes,
    below.zUnits < z ∧ z ≤ below.zUnits + MERGE_EPSILON_UNITS ∧
      z < above.zUnits ∧ above.zUnits ≤ z + MERGE_EPSILON_UNITS))

end Promise

/-! ### Drafts and the rows they build -/

section Build

variable [One F]

theorem appendEntities_append (row : LayerCollectionIR F) (a b : List (AnchoredEntity F)) :
    appendEntities (appendEntities row a) b = appendEntities row (a ++ b) := by
  simp only [appendEntities, List.append_assoc, List.length_append, List.length_mapIdx,
    List.mapIdx_append, Nat.add_assoc, Nat.add_comm a.length]

theorem build_append (draft : RowDraft F) (entities : List (AnchoredEntity F)) :
    (draft.append entities).build = appendEntities draft.build entities :=
  (appendEntities_append ..).symm

theorem appendEntities_nil (row : LayerCollectionIR F) : appendEntities row [] = row := by
  rw [appendEntities, List.mapIdx_nil, List.append_nil]

theorem ExtendedBy.refl (row : LayerCollectionIR F) : ExtendedBy row row :=
  ⟨[], (appendEntities_nil row).symm⟩

theorem ExtendedBy.trans {a b c : LayerCollectionIR F} (hab : ExtendedBy a b)
    (hbc : ExtendedBy b c) : ExtendedBy a c := by
  obtain ⟨x, rfl⟩ := hab
  obtain ⟨y, rfl⟩ := hbc
  exact ⟨x ++ y, appendEntities_append a x y⟩

/-- The contents of a draft: its own entities and the added ones, unplaced. -/
def RowDraft.contents (draft : RowDraft F) : List (PrintEntity F) :=
  draft.row.orderedEntities.map PrintEntity.unplaced ++
    draft.added.map (anchoredEntityToPrintEntity · 0)

theorem map_unplaced_build (draft : RowDraft F) :
    draft.build.orderedEntities.map PrintEntity.unplaced = draft.contents := by
  rw [RowDraft.build, appendEntities, List.map_append, RowDraft.contents]
  congr 1
  refine List.ext_getElem? fun k => ?_
  rw [List.getElem?_map, List.getElem?_mapIdx, List.getElem?_map, Option.map_map]
  rfl

theorem topoCounted_appendEntities {row : LayerCollectionIR F} (h : TopoCounted row)
    (entities : List (AnchoredEntity F)) : TopoCounted (appendEntities row entities) := by
  have hadded : ∀ n, (entities.mapIdx fun k entity =>
      anchoredEntityToPrintEntity entity (n + k)).map (·.topoOrder) =
      (List.range entities.length).map (n + ·) := by
    intro n
    refine List.ext_getElem? fun k => ?_
    rw [List.getElem?_map, List.getElem?_mapIdx, List.getElem?_map, Option.map_map]
    by_cases hk : k < entities.length
    · rw [List.getElem?_eq_getElem hk, List.getElem?_range hk]
      rfl
    · rw [List.getElem?_eq_none (Nat.le_of_not_lt hk),
        List.getElem?_eq_none (by rw [List.length_range]; exact Nat.le_of_not_lt hk)]
      rfl
  simp only [TopoCounted, appendEntities, List.map_append, List.length_append, List.length_mapIdx,
    List.range_add, hadded]
  rw [h]

theorem extendedBy_build (draft : RowDraft F) (entities : List (AnchoredEntity F)) :
    ExtendedBy draft.build (draft.append entities).build :=
  ⟨entities, build_append draft entities⟩

theorem Woven.refl : ∀ rows : List (LayerCollectionIR F), Woven rows rows
  | [] => .nil
  | row :: rows => .model (.refl row) (Woven.refl rows)

theorem contents_append (draft : RowDraft F) (entities : List (AnchoredEntity F)) :
    (draft.append entities).contents =
      draft.contents ++ entities.map (anchoredEntityToPrintEntity · 0) := by
  rw [RowDraft.append, RowDraft.contents, RowDraft.contents, List.map_append, List.append_assoc]

end Build

/-! ### The walk -/

section WalkFacts

variable [Field F] [LinearOrder F] [FloorRing F] {last : Option Nat}
  {rows : List (RowDraft F)} {planes : List (AnchoredPlane F)}

/-- The walk by the height of the next row and the next plane. -/
theorem mergeWalk_cons {row : RowDraft F} {plane : AnchoredPlane F} :
    mergeWalk last (row :: rows) (plane :: planes) =
      if plane.zUnits + MERGE_EPSILON_UNITS < mmToUnits row.row.z then
        soloRow plane row.row.globalLayerIndex :: mergeWalk last (row :: rows) planes
      else if mmToUnits row.row.z + MERGE_EPSILON_UNITS < plane.zUnits then
        row :: mergeWalk last rows (plane :: planes)
      else row.append plane.events :: mergeWalk last rows planes := by
  have hpos : 0 ≤ MERGE_EPSILON_UNITS := by decide
  rw [mergeWalk]
  generalize mmToUnits row.row.z = z
  generalize plane.zUnits = p
  generalize MERGE_EPSILON_UNITS = ε at hpos
  by_cases hbelow : p + ε < z
  · rw [if_pos hbelow, if_neg (by omega)]
  · rw [if_neg hbelow, if_pos (by omega)]
    by_cases habove : z + ε < p
    · rw [if_pos habove, if_neg (by omega)]
    · rw [if_neg habove, if_pos (by omega)]

theorem mergeWalk_nil_planes : mergeWalk last rows ([] : List (AnchoredPlane F)) = rows := by
  induction rows with
  | nil => rw [mergeWalk]
  | cons row rows ih => rw [mergeWalk, ih]

/-- The rows of the walk, one step at a time: a property of the list of rows that
its four branches keep. -/
theorem mergeWalk_induction {P : List (RowDraft F) → List (AnchoredPlane F) → Prop}
    (rowsOnly : ∀ rows, P rows [])
    (planesOnly : ∀ plane planes, P [] planes → P [] (plane :: planes))
    (solo : ∀ row rows plane planes, plane.zUnits + MERGE_EPSILON_UNITS < mmToUnits row.row.z →
      P (row :: rows) planes → P (row :: rows) (plane :: planes))
    (alone : ∀ row rows plane planes, mmToUnits row.row.z + MERGE_EPSILON_UNITS < plane.zUnits →
      P rows (plane :: planes) → P (row :: rows) (plane :: planes))
    (merged : ∀ row rows plane planes, mmToUnits row.row.z ≤ plane.zUnits + MERGE_EPSILON_UNITS →
      plane.zUnits ≤ mmToUnits row.row.z + MERGE_EPSILON_UNITS →
      P rows planes → P (row :: rows) (plane :: planes)) :
    ∀ rows planes, P rows planes := by
  intro rows planes
  induction rows generalizing planes with
  | nil =>
    induction planes with
    | nil => exact rowsOnly []
    | cons plane planes ih => exact planesOnly plane planes ih
  | cons row rows ihRows =>
    induction planes with
    | nil => exact rowsOnly _
    | cons plane planes ih =>
      by_cases hbelow : plane.zUnits + MERGE_EPSILON_UNITS < mmToUnits row.row.z
      · exact solo row rows plane planes hbelow ih
      · by_cases habove : mmToUnits row.row.z + MERGE_EPSILON_UNITS < plane.zUnits
        · exact alone row rows plane planes habove (ihRows _)
        · exact merged row rows plane planes (not_lt.mp hbelow) (not_lt.mp habove) (ihRows _)

omit [LinearOrder F] [FloorRing F] in
theorem soloRow_extended (plane : AnchoredPlane F) (index : Nat) :
    ExtendedBy { globalLayerIndex := index, z := unitsToMm plane.zUnits }
      (soloRow plane index).build :=
  ⟨plane.events, rfl⟩

/-- The walk weaves stand-alone rows between the model rows. -/
theorem mergeWalk_woven (last : Option Nat) (rows : List (RowDraft F))
    (planes : List (AnchoredPlane F)) :
    Woven (rows.map RowDraft.build) ((mergeWalk last rows planes).map RowDraft.build) := by
  induction rows, planes using mergeWalk_induction with
  | rowsOnly rows =>
    rw [mergeWalk_nil_planes]
    exact .refl _
  | planesOnly plane planes ih =>
    rw [mergeWalk, List.map_cons]
    exact .solo (soloRow_extended plane _) (fun next hnext => nomatch hnext) ih
  | solo row rows plane planes hbelow ih =>
    rw [mergeWalk_cons, if_pos hbelow, List.map_cons]
    refine .solo (soloRow_extended plane _) (fun next hnext => ?_) ih
    cases hnext
    rfl
  | alone row rows plane planes habove ih =>
    rw [mergeWalk_cons, if_neg (by have : 0 ≤ MERGE_EPSILON_UNITS := (by decide); omega),
      if_pos habove, List.map_cons, List.map_cons]
    exact .model (.refl _) ih
  | merged row rows plane planes hbelow habove ih =>
    rw [mergeWalk_cons, if_neg (not_lt.mpr hbelow), if_neg (not_lt.mpr habove), List.map_cons,
      List.map_cons]
    exact .model (extendedBy_build row _) ih

theorem mergeWalk_holds {γ : Type} {g : RowDraft F → List γ} {f : AnchoredEntity F → γ}
    (happend : ∀ draft entities, g (draft.append entities) = g draft ++ entities.map f)
    (hsolo : ∀ plane index, g (soloRow plane index) = plane.events.map f)
    (last : Option Nat) (rows : List (RowDraft F)) (planes : List (AnchoredPlane F)) :
    ((mergeWalk last rows planes).flatMap g).Perm
      (rows.flatMap g ++ (planes.flatMap (·.events)).map f) := by
  induction rows, planes using mergeWalk_induction with
  | rowsOnly rows =>
    rw [mergeWalk_nil_planes, List.flatMap_nil, List.map_nil, List.append_nil]
  | planesOnly plane planes ih =>
    rw [mergeWalk, List.flatMap_cons, List.flatMap_cons, List.map_append, hsolo]
    exact ih.append_left _
  | solo row rows plane planes hbelow ih =>
    rw [mergeWalk_cons, if_pos hbelow, List.flatMap_cons, List.flatMap_cons (x := plane),
      List.map_append, hsolo]
    exact (ih.append_left _).trans (List.perm_append_comm_assoc ..)
  | alone row rows plane planes habove ih =>
    rw [mergeWalk_cons, if_neg (by have : 0 ≤ MERGE_EPSILON_UNITS := (by decide); omega),
      if_pos habove, List.flatMap_cons, List.flatMap_cons, List.append_assoc]
    exact ih.append_left _
  | merged row rows plane planes hbelow habove ih =>
    rw [mergeWalk_cons, if_neg (not_lt.mpr hbelow), if_neg (not_lt.mpr habove), List.flatMap_cons,
      List.flatMap_cons, List.flatMap_cons, happend, List.map_append, List.append_assoc,
      List.append_assoc]
    exact ((ih.append_left _).trans (List.perm_append_comm_assoc ..)).append_left _

theorem mmToUnits_soloRow [IsStrictOrderedRing F] (plane : AnchoredPlane F) (index : Nat) :
    mmToUnits (soloRow plane index).row.z = plane.zUnits := by
  rw [soloRow, mmToUnits, unitsToMm, div_mul_cancel₀ _ (by norm_num), Decimal.roundAway_intCast]

theorem mem_mergeWalk_units [IsStrictOrderedRing F] {draft : RowDraft F}
    (h : draft ∈ mergeWalk last rows planes) :
    (∃ row ∈ rows, mmToUnits draft.row.z = mmToUnits row.row.z) ∨
      ∃ plane ∈ planes, mmToUnits draft.row.z = plane.zUnits := by
  induction rows, planes using mergeWalk_induction with
  | rowsOnly rows =>
    rw [mergeWalk_nil_planes] at h
    exact .inl ⟨draft, h, rfl⟩
  | planesOnly plane planes ih =>
    rw [mergeWalk, List.mem_cons] at h
    rcases h with rfl | h
    · exact .inr ⟨plane, List.mem_cons_self .., mmToUnits_soloRow ..⟩
    · exact (ih h).imp_right fun ⟨p, hp, heq⟩ => ⟨p, List.mem_cons_of_mem _ hp, heq⟩
  | solo row rows plane planes hbelow ih =>
    rw [mergeWalk_cons, if_pos hbelow, List.mem_cons] at h
    rcases h with rfl | h
    · exact .inr ⟨plane, List.mem_cons_self .., mmToUnits_soloRow ..⟩
    · exact (ih h).imp_right fun ⟨p, hp, heq⟩ => ⟨p, List.mem_cons_of_mem _ hp, heq⟩
  | alone row rows plane planes habove ih =>
    rw [mergeWalk_cons, if_neg (by have : 0 ≤ MERGE_EPSILON_UNITS := (by decide); omega),
      if_pos habove, List.mem_cons] at h
    rcases h with rfl | h
    · exact .inl ⟨draft, List.mem_cons_self .., rfl⟩
    · exact (ih h).imp_left fun ⟨r, hr, heq⟩ => ⟨r, List.mem_cons_of_mem _ hr, heq⟩
  | merged row rows plane planes hbelow habove ih =>
    rw [mergeWalk_cons, if_neg (not_lt.mpr hbelow), if_neg (not_lt.mpr habove), List.mem_cons] at h
    rcases h with rfl | h
    · exact .inl ⟨row, List.mem_cons_self .., rfl⟩
    · refine (ih h).imp (fun ⟨r, hr, heq⟩ => ?_) fun ⟨p, hp, heq⟩ => ?_
      · exact ⟨r, List.mem_cons_of_mem _ hr, heq⟩
      · exact ⟨p, List.mem_cons_of_mem _ hp, heq⟩

end WalkFacts

/-! ### Planes and Z-spanning entities -/

section Planes

theorem eventLE_perm (events : List (AnchoredEntity F)) :
    (events.insertionSort eventLE).Perm events :=
  List.perm_insertionSort _ _

/-- The planes of a collection hold its planar entities. -/
theorem collectionPlanes_events (collection : OrderedEventCollection F) :
    ((collectionPlanes collection).flatMap (·.events)).Perm
      (collection.events.filter (!isSpanning ·)) := by
  rw [collectionPlanes, List.flatMap_gather (g := fun event => [event])
    (fun _ _ => rfl) (fun _ => rfl), List.flatMap_singleton']
  exact eventLE_perm _

theorem coalesce_events (planes : List (AnchoredPlane F)) :
    (coalesce planes).flatMap (·.events) = planes.flatMap (·.events) :=
  List.flatMap_gather (fun _ _ => rfl) (fun _ => rfl) planes

theorem sortedPlanes_events (collections : List (OrderedEventCollection F)) :
    ((sortedPlanes collections).flatMap (·.events)).Perm
      ((entitiesOf collections).filter (!isSpanning ·)) := by
  have hsort := (List.perm_insertionSort planeLE (collections.zipIdx.flatMap fun x =>
    (collectionPlanes x.1).map (·, x.2))).map Prod.fst
  refine (hsort.flatMap_right _).trans ?_
  rw [List.map_flatMap]
  clear hsort
  generalize 0 = n
  induction collections generalizing n with
  | nil => rfl
  | cons collection collections ih =>
    rw [List.zipIdx_cons, List.flatMap_cons, List.flatMap_append, List.map_map, entitiesOf,
      List.flatMap_cons, List.filter_append]
    refine List.Perm.append ?_ (ih (n + 1))
    rw [show Prod.fst ∘ (·, n) = id (α := AnchoredPlane F) from rfl, List.map_id]
    exact collectionPlanes_events collection

theorem sortedPlanes_sorted (collections : List (OrderedEventCollection F)) :
    (sortedPlanes collections).Pairwise fun a b => a.zUnits ≤ b.zUnits := by
  have : Std.Total (planeLE (F := F)) := ⟨fun a b => by unfold planeLE; omega⟩
  have : IsTrans (AnchoredPlane F × Nat) planeLE := ⟨fun a b c => by unfold planeLE; omega⟩
  refine List.pairwise_map.mpr ((List.pairwise_insertionSort planeLE _).imp ?_)
  intro a b hab
  unfold planeLE at hab
  omega

/-- Joined planes are more than the tolerance apart. -/
theorem coalesce_apart {planes : List (AnchoredPlane F)}
    (h : planes.Pairwise fun a b => a.zUnits ≤ b.zUnits) :
    (coalesce planes).Pairwise fun a b => a.zUnits + MERGE_EPSILON_UNITS < b.zUnits := by
  rw [coalesce]
  refine List.pairwise_gather (g := AnchoredPlane.zUnits)
    (R := fun a b => a + MERGE_EPSILON_UNITS < b) ?_ ?_ ?_ (fun hab hbc => hab.trans_le hbc) h
  · exact fun _ _ => rfl
  · exact fun _ => rfl
  intro run plane hjoins hle
  rw [decide_eq_false_iff_not, abs_of_nonneg (sub_nonneg.mpr hle)] at hjoins
  omega

end Planes

section Spanning

variable [One F]

/-- Drafts that differ by what was appended to them. -/
def Continues (draft draft' : RowDraft F) : Prop :=
  ∃ entities, draft' = draft.append entities

omit [One F] in
theorem Continues.refl (draft : RowDraft F) : Continues draft draft :=
  ⟨[], by rw [RowDraft.append, List.append_nil]⟩

omit [One F] in
theorem Continues.trans {a b c : RowDraft F} (hab : Continues a b) (hbc : Continues b c) :
    Continues a c := by
  obtain ⟨x, rfl⟩ := hab
  obtain ⟨y, rfl⟩ := hbc
  exact ⟨x ++ y, by rw [RowDraft.append, RowDraft.append, RowDraft.append, List.append_assoc]⟩

theorem Continues.extended {draft draft' : RowDraft F} (h : Continues draft draft') :
    ExtendedBy draft.build draft'.build := by
  obtain ⟨entities, rfl⟩ := h
  exact extendedBy_build draft entities

omit [One F] in
theorem continues_modify (rows : List (RowDraft F)) (i : Nat)
    (entities : List (AnchoredEntity F)) :
    List.Forall₂ Continues rows (rows.modify i (·.append entities)) := by
  induction rows generalizing i with
  | nil =>
    rw [List.modify_nil]
    exact .nil
  | cons row rows ih =>
    cases i with
    | zero => exact .cons ⟨entities, rfl⟩ (List.forall₂_same.mpr fun row _ => .refl row)
    | succ i => exact .cons (.refl row) (ih i)

section Holds

variable {γ : Type} {g : RowDraft F → List γ} {f : AnchoredEntity F → γ}
  (happend : ∀ draft entities, g (draft.append entities) = g draft ++ entities.map f)

include happend

variable {rows : List (RowDraft F)}

section

omit [One F]

theorem holds_modify {i : Nat} (hi : i < rows.length) (entities : List (AnchoredEntity F)) :
    ((rows.modify i (·.append entities)).flatMap g).Perm (rows.flatMap g ++ entities.map f) := by
  induction rows generalizing i with
  | nil => cases hi
  | cons row rows ih =>
    cases i with
    | zero =>
      rw [List.modify_zero_cons, List.flatMap_cons, List.flatMap_cons, happend,
        List.append_assoc, List.append_assoc]
      exact List.perm_append_comm.append_left _
    | succ i =>
      rw [List.modify_succ_cons, List.flatMap_cons, List.flatMap_cons, List.append_assoc]
      exact (ih (Nat.lt_of_succ_lt_succ hi)).append_left _

/-- One collection: its Z-spanning entities are appended to a row. -/
theorem routeSpanning_spec {rows' : List (RowDraft F)} {collection : OrderedEventCollection F}
    (h : routeSpanning rows collection = .ok rows') :
    List.Forall₂ Continues rows rows' ∧
      (rows'.flatMap g).Perm
        (rows.flatMap g ++ (collection.events.filter isSpanning).map f) := by
  have hperm := eventLE_perm (collection.events.filter isSpanning)
  unfold routeSpanning at h
  split at h
  case h_1 heq =>
    cases h
    rw [heq] at hperm
    rw [hperm.nil_eq.symm, List.map_nil, List.append_nil]
    exact ⟨List.forall₂_same.mpr fun row _ => .refl row, .refl _⟩
  case h_2 first rest heq =>
    dsimp only at h
    split at h
    case h_1 => cases h
    case h_2 i hi =>
      cases h
      rw [heq] at hperm
      obtain ⟨hlt, -⟩ := List.findIdx?_eq_some_iff_getElem.mp hi
      refine ⟨continues_modify .., (holds_modify happend hlt _).trans ?_⟩
      exact (hperm.map _).append_left _

theorem foldlM_routeSpanning {rows' : List (RowDraft F)}
    {collections : List (OrderedEventCollection F)}
    (h : collections.foldlM routeSpanning rows = .ok rows') :
    List.Forall₂ Continues rows rows' ∧
      (rows'.flatMap g).Perm
        (rows.flatMap g ++ ((entitiesOf collections).filter isSpanning).map f) := by
  induction collections generalizing rows with
  | nil =>
    cases h
    refine ⟨List.forall₂_same.mpr fun row _ => .refl row, ?_⟩
    rw [entitiesOf, List.flatMap_nil, List.filter_nil, List.map_nil, List.append_nil]
  | cons collection collections ih =>
    rw [List.foldlM_cons] at h
    obtain ⟨between, hone, h⟩ := Except.of_bind_eq_ok h
    obtain ⟨hfirst, hfirstPerm⟩ := routeSpanning_spec happend hone
    obtain ⟨hrest, hrestPerm⟩ := ih h
    refine ⟨hfirst.trans_of (fun _ _ _ => .trans) hrest, ?_⟩
    rw [entitiesOf, List.flatMap_cons, List.filter_append, List.map_append, ← List.append_assoc]
    exact hrestPerm.trans (hfirstPerm.append_right _)

end

end Holds

/-- Rows that were extended before the walk. -/
theorem Woven.of_extended {rows rows' outs : List (LayerCollectionIR F)}
    (h : List.Forall₂ ExtendedBy rows rows') (hwoven : Woven rows' outs) : Woven rows outs := by
  induction hwoven generalizing rows with
  | nil =>
    cases h
    exact .nil
  | model hout _ ih =>
    cases h with
    | cons hrow hrows => exact .model (hrow.trans hout) (ih hrows)
  | solo hout hnext _ ih =>
    refine .solo hout (fun next hmem => ?_) (ih h)
    cases h with
    | nil => cases hmem
    | cons hrow _ =>
      cases hmem
      obtain ⟨added, rfl⟩ := hrow
      exact hnext (appendEntities _ added) rfl

end Spanning

/-! ### How far rows are apart -/

section Apart

variable [Field F] [LinearOrder F] [FloorRing F] [IsStrictOrderedRing F] {last : Option Nat}

theorem mergeEpsilon_pos : 0 < MERGE_EPSILON_UNITS := by
  decide

variable {plane : AnchoredPlane F} {planes : List (AnchoredPlane F)} {rows : List (RowDraft F)}

/-- A plane below all rows that are left gets a row of its own. -/
theorem solo_mem_mergeWalk
    (h : ∀ row ∈ rows, plane.zUnits + MERGE_EPSILON_UNITS < mmToUnits row.row.z) :
    ∃ draft ∈ mergeWalk last rows (plane :: planes), mmToUnits draft.row.z = plane.zUnits := by
  cases rows with
  | nil =>
    rw [mergeWalk]
    exact ⟨_, List.mem_cons_self .., mmToUnits_soloRow ..⟩
  | cons row rows =>
    rw [mergeWalk_cons, if_pos (h row (List.mem_cons_self ..))]
    exact ⟨_, List.mem_cons_self .., mmToUnits_soloRow ..⟩

omit [Field F] [FloorRing F] [IsStrictOrderedRing F] in
/-- A plane that is not within the tolerance of a row takes no part. -/
theorem straddled_cons_iff {z : ℤ}
    (h : plane.zUnits + MERGE_EPSILON_UNITS < z ∨ z + MERGE_EPSILON_UNITS < plane.zUnits) :
    Straddled z (plane :: planes) ↔ Straddled z planes := by
  constructor
  · rintro ⟨below, hbelow, above, habove, h₁, h₂, h₃, h₄⟩
    refine ⟨below, ?_, above, ?_, h₁, h₂, h₃, h₄⟩
    · rcases List.mem_cons.mp hbelow with rfl | hbelow
      · omega
      · exact hbelow
    · rcases List.mem_cons.mp habove with rfl | habove
      · omega
      · exact habove
  · rintro ⟨below, hbelow, above, habove, hz⟩
    exact ⟨below, List.mem_cons_of_mem _ hbelow, above, List.mem_cons_of_mem _ habove, hz⟩

theorem apart_of_merged_iff {z : ℤ} (hlow : z ≤ plane.zUnits + MERGE_EPSILON_UNITS)
    (hrows : ∀ row ∈ rows, z + 2 * MERGE_EPSILON_UNITS < mmToUnits row.row.z)
    (hplanes : (plane :: planes).Pairwise fun a b => a.zUnits + MERGE_EPSILON_UNITS < b.zUnits) :
    (∀ draft ∈ mergeWalk last rows planes, z + MERGE_EPSILON_UNITS < mmToUnits draft.row.z) ↔
      ¬ Straddled z (plane :: planes) := by
  have hε := mergeEpsilon_pos
  obtain ⟨hplane, hrest⟩ := List.pairwise_cons.mp hplanes
  constructor
  · rintro happart ⟨below, hbelow, above, habove, h₁, h₂, h₃, h₄⟩
    -- the plane above is the next one, and no row is near enough to take it
    have hmem : above ∈ planes := by
      rcases List.mem_cons.mp habove with rfl | habove
      · rcases List.mem_cons.mp hbelow with rfl | hbelow
        · omega
        · have := hplane below hbelow
          omega
      · exact habove
    cases planes with
    | nil => cases hmem
    | cons next planes =>
      have hnext : above = next := by
        rcases List.mem_cons.mp hmem with rfl | hmem
        · rfl
        · have := (List.pairwise_cons.mp hrest).1 above hmem
          have := hplane next (List.mem_cons_self ..)
          omega
      subst hnext
      have hfree : ∀ row ∈ rows, above.zUnits + MERGE_EPSILON_UNITS < mmToUnits row.row.z := by
        intro row hrow
        have := hrows row hrow
        omega
      obtain ⟨draft, hdraft, hunits⟩ := solo_mem_mergeWalk hfree
      have := happart draft hdraft
      omega
  · intro hnot draft hdraft
    rcases mem_mergeWalk_units hdraft with ⟨row, hrow, heq⟩ | ⟨q, hq, heq⟩
    · have := hrows row hrow
      omega
    · have hpq := hplane q hq
      by_contra hnear
      exact hnot ⟨plane, List.mem_cons_self .., q, List.mem_cons_of_mem _ hq,
        by omega, hlow, by omega, by omega⟩

theorem mergeWalk_apart_iff (hrows : rows.Pairwise fun a b =>
      mmToUnits a.row.z + 2 * MERGE_EPSILON_UNITS < mmToUnits b.row.z)
    (hplanes : planes.Pairwise fun a b => a.zUnits + MERGE_EPSILON_UNITS < b.zUnits) :
    ((mergeWalk last rows planes).Pairwise fun a b =>
      mmToUnits a.row.z + MERGE_EPSILON_UNITS < mmToUnits b.row.z) ↔
      ∀ row ∈ rows, ¬ Straddled (mmToUnits row.row.z) planes := by
  have hε := mergeEpsilon_pos
  induction rows, planes using mergeWalk_induction with
  | rowsOnly rows =>
    rw [mergeWalk_nil_planes]
    refine iff_of_true (hrows.imp fun h => by omega) fun row _ ⟨below, hbelow, _⟩ => ?_
    cases hbelow
  | planesOnly plane planes ih =>
    obtain ⟨hplane, hrest⟩ := List.pairwise_cons.mp hplanes
    rw [mergeWalk, List.pairwise_cons]
    refine (and_congr_right' (ih hrows hrest)).trans ?_
    refine iff_of_true ⟨fun draft hdraft => ?_, fun row hrow => nomatch hrow⟩
      fun row hrow => nomatch hrow
    rcases mem_mergeWalk_units hdraft with ⟨row, hrow, -⟩ | ⟨q, hq, heq⟩
    · cases hrow
    · rw [heq, mmToUnits_soloRow]
      exact hplane q hq
  | solo row rows plane planes hbelow ih =>
    obtain ⟨hplane, hrest⟩ := List.pairwise_cons.mp hplanes
    have hall : ∀ r ∈ row :: rows, plane.zUnits + MERGE_EPSILON_UNITS < mmToUnits r.row.z := by
      intro r hr
      rcases List.mem_cons.mp hr with rfl | hr
      · exact hbelow
      · have := (List.pairwise_cons.mp hrows).1 r hr
        omega
    rw [mergeWalk_cons, if_pos hbelow, List.pairwise_cons]
    have hfirst : ∀ draft ∈ mergeWalk last (row :: rows) planes,
        mmToUnits (soloRow plane row.row.globalLayerIndex).row.z + MERGE_EPSILON_UNITS <
          mmToUnits draft.row.z := by
      intro draft hdraft
      rw [mmToUnits_soloRow]
      rcases mem_mergeWalk_units hdraft with ⟨r, hr, heq⟩ | ⟨q, hq, heq⟩
      · rw [heq]
        exact hall r hr
      · rw [heq]
        exact hplane q hq
    rw [and_iff_right hfirst]
    refine (ih hrows hrest).trans ?_
    exact forall₂_congr fun r hr => not_congr (straddled_cons_iff (.inl (hall r hr))).symm
  | alone row rows plane planes habove ih =>
    obtain ⟨hrow, hrest⟩ := List.pairwise_cons.mp hrows
    rw [mergeWalk_cons, if_neg (by omega), if_pos habove, List.pairwise_cons, List.forall_mem_cons]
    have hallPlanes : ∀ q ∈ plane :: planes,
        mmToUnits row.row.z + MERGE_EPSILON_UNITS < q.zUnits := by
      intro q hq
      rcases List.mem_cons.mp hq with rfl | hq
      · exact habove
      · have := (List.pairwise_cons.mp hplanes).1 q hq
        omega
    refine and_congr (iff_of_true (fun draft hdraft => ?_) ?_) (ih hrest hplanes)
    · rcases mem_mergeWalk_units hdraft with ⟨r, hr, heq⟩ | ⟨q, hq, heq⟩
      · have := hrow r hr
        omega
      · rw [heq]
        exact hallPlanes q hq
    · rintro ⟨below, hbelow, -, -, hlt, -⟩
      have := hallPlanes below hbelow
      omega
  | merged row rows plane planes hbelow habove ih =>
    obtain ⟨hrow, hrest⟩ := List.pairwise_cons.mp hrows
    rw [mergeWalk_cons, if_neg (not_lt.mpr hbelow), if_neg (not_lt.mpr habove),
      List.pairwise_cons, List.forall_mem_cons]
    refine and_congr (apart_of_merged_iff hbelow hrow hplanes) ?_
    refine (ih hrest (List.pairwise_cons.mp hplanes).2).trans ?_
    refine forall₂_congr fun r hr => not_congr (straddled_cons_iff (.inl ?_)).symm
    have := hrow r hr
    omega

end Apart

/-! ### Synthesis -/

section Synthesis

variable [Field F] [LinearOrder F] [FloorRing F]

variable {committed : List (CommittedLayerEvent F)} {out : List (LayerCollectionIR F)}

/-- Synthesis routes the Z-spanning entities and walks. -/
theorem synthesizeDrafts_ok {drafts : List (RowDraft F)}
    (h : synthesizeDrafts committed = .ok drafts) :
    ∃ rows last, (anchoredCollections committed).foldlM routeSpanning
        (committed.filterMap (·.row?)) = .ok rows ∧
      drafts = mergeWalk last rows (coalesce (sortedPlanes (anchoredCollections committed))) := by
  obtain ⟨rows, hroute, h⟩ := Except.of_bind_eq_ok h
  cases h
  exact ⟨rows, _, hroute, rfl⟩

theorem synthesizeAnchoredRows_ok (h : synthesizeAnchoredRows committed = .ok out) :
    ∃ drafts, synthesizeDrafts committed = .ok drafts ∧ out = drafts.map RowDraft.build := by
  unfold synthesizeAnchoredRows at h
  cases hdrafts : synthesizeDrafts committed with
  | error e =>
    rw [hdrafts] at h
    cases h
  | ok drafts =>
    rw [hdrafts] at h
    cases h
    exact ⟨drafts, rfl, rfl⟩

theorem synthesizeDrafts_holds {γ : Type} {g : RowDraft F → List γ} {f : AnchoredEntity F → γ}
    (happend : ∀ draft entities, g (draft.append entities) = g draft ++ entities.map f)
    (hsolo : ∀ plane index, g (soloRow plane index) = plane.events.map f)
    {drafts : List (RowDraft F)} (h : synthesizeDrafts committed = .ok drafts) :
    (drafts.flatMap g).Perm ((committed.filterMap (·.row?)).flatMap g ++
      (entitiesOf (anchoredCollections committed)).map f) := by
  obtain ⟨rows, last, hroute, rfl⟩ := synthesizeDrafts_ok h
  obtain ⟨-, hspanning⟩ := foldlM_routeSpanning happend hroute
  generalize anchoredCollections committed = collections at hspanning ⊢
  refine (mergeWalk_holds happend hsolo ..).trans ?_
  rw [coalesce_events]
  refine (hspanning.append ((sortedPlanes_events collections).map _)).trans ?_
  rw [List.append_assoc, ← List.map_append]
  exact ((List.filter_append_perm isSpanning (entitiesOf collections)).map _).append_left _

theorem synthesized_entities (h : synthesizeAnchoredRows committed = .ok out) :
    ((out.flatMap (·.orderedEntities)).map PrintEntity.unplaced).Perm
      (((modelRows committed).flatMap (·.orderedEntities)).map PrintEntity.unplaced ++
        (entitiesOf (anchoredCollections committed)).map (anchoredEntityToPrintEntity · 0)) := by
  obtain ⟨drafts, hdrafts, rfl⟩ := synthesizeAnchoredRows_ok h
  have hcontents : ∀ drafts : List (RowDraft F),
      ((drafts.map RowDraft.build).flatMap (·.orderedEntities)).map PrintEntity.unplaced =
        drafts.flatMap RowDraft.contents := by
    intro drafts
    rw [List.flatMap_map, List.map_flatMap]
    exact congrArg (drafts.flatMap ·) (funext map_unplaced_build)
  rw [modelRows, hcontents, hcontents]
  exact synthesizeDrafts_holds contents_append (fun _ _ => rfl) hdrafts

theorem synthesized_woven (h : synthesizeAnchoredRows committed = .ok out) :
    Woven (modelRows committed) out := by
  obtain ⟨drafts, hdrafts, rfl⟩ := synthesizeAnchoredRows_ok h
  obtain ⟨rows, last, hroute, rfl⟩ := synthesizeDrafts_ok hdrafts
  refine .of_extended ?_ (mergeWalk_woven last rows _)
  rw [modelRows, List.forall₂_map_left_iff, List.forall₂_map_right_iff]
  exact (foldlM_routeSpanning contents_append hroute).1.imp fun _ _ => Continues.extended

omit [LinearOrder F] [FloorRing F] in
theorem Woven.topoCounted {rows outs : List (LayerCollectionIR F)} (h : Woven rows outs)
    (hrows : ∀ row ∈ rows, TopoCounted row) : ∀ out ∈ outs, TopoCounted out := by
  induction h with
  | nil => exact fun out hout => nomatch hout
  | model hout _ ih =>
    obtain ⟨hrow, hrest⟩ := List.forall_mem_cons.mp hrows
    obtain ⟨added, rfl⟩ := hout
    exact List.forall_mem_cons.mpr ⟨topoCounted_appendEntities hrow added, ih hrest⟩
  | solo hout _ _ ih =>
    obtain ⟨added, hadded⟩ := hout
    have hbare : ∀ (index : Nat) (z : F), TopoCounted { globalLayerIndex := index, z := z } :=
      fun _ _ => rfl
    refine List.forall_mem_cons.mpr ⟨?_, ih hrows⟩
    rw [hadded]
    exact topoCounted_appendEntities (hbare ..) added

variable [IsStrictOrderedRing F]

theorem lt_of_rowUnits_lt {a b : LayerCollectionIR F} (h : rowUnits a < rowUnits b) :
    a.z < b.z := by
  by_contra hle
  refine absurd h (not_lt.mpr (Decimal.roundAway_mono ?_))
  exact mul_le_mul_of_nonneg_right (not_lt.mp hle) (by norm_num)

theorem synthesized_apart_iff (h : synthesizeAnchoredRows committed = .ok out)
    (hrows : (modelRows committed).Pairwise fun a b =>
      rowUnits a + 2 * MERGE_EPSILON_UNITS < rowUnits b) :
    (out.Pairwise fun a b => rowUnits a + MERGE_EPSILON_UNITS < rowUnits b) ↔
      ∀ row ∈ modelRows committed,
        ¬ Straddled (rowUnits row) (coalesce (sortedPlanes (anchoredCollections committed))) := by
  obtain ⟨drafts, hdrafts, rfl⟩ := synthesizeAnchoredRows_ok h
  obtain ⟨rows, last, hroute, rfl⟩ := synthesizeDrafts_ok hdrafts
  -- routing appends entities: the rows stay where they are
  have hsame : (committed.filterMap (·.row?)).map RowDraft.row = rows.map RowDraft.row := by
    refine List.forall₂_eq_eq_eq ▸ ?_
    rw [List.forall₂_map_left_iff, List.forall₂_map_right_iff]
    refine (foldlM_routeSpanning contents_append hroute).1.imp ?_
    rintro draft _ ⟨entities, rfl⟩
    rfl
  have hheights : (modelRows committed).map rowUnits =
      rows.map fun draft => mmToUnits draft.row.z := by
    calc (modelRows committed).map rowUnits
        = ((committed.filterMap (·.row?)).map RowDraft.row).map rowUnits := by
          rw [modelRows, List.map_map, List.map_map]
          rfl
      _ = rows.map fun draft => mmToUnits draft.row.z := by
          rw [hsame, List.map_map]
          rfl
  have hunits : rows.Pairwise fun a b =>
      mmToUnits a.row.z + 2 * MERGE_EPSILON_UNITS < mmToUnits b.row.z := by
    have hmapped : ((modelRows committed).map rowUnits).Pairwise fun a b =>
        a + 2 * MERGE_EPSILON_UNITS < b := List.pairwise_map.mpr hrows
    rw [hheights] at hmapped
    exact List.pairwise_map.mp hmapped
  have hstraddled : (∀ row ∈ modelRows committed,
      ¬ Straddled (rowUnits row) (coalesce (sortedPlanes (anchoredCollections committed)))) ↔
      ∀ row ∈ rows, ¬ Straddled (mmToUnits row.row.z)
        (coalesce (sortedPlanes (anchoredCollections committed))) := by
    rw [← List.forall_mem_map (f := rowUnits) (P := fun z => ¬ Straddled z _), hheights,
      List.forall_mem_map]
  rw [hstraddled, List.pairwise_map]
  exact mergeWalk_apart_iff hunits (coalesce_apart (sortedPlanes_sorted _))

/-- Synthesis keeps its promise unless a plane below and a plane above a model
row are both within the tolerance of it: the row takes the lower one, and the
other gets a row that is too near. -/
theorem rows_synthesized_iff {committed : List (CommittedLayerEvent F)}
    {out : List (LayerCollectionIR F)} (h : synthesizeAnchoredRows committed = .ok out)
    (hrows : (modelRows committed).Pairwise fun a b =>
      rowUnits a + 2 * MERGE_EPSILON_UNITS < rowUnits b)
    (htopo : ∀ row ∈ modelRows committed, TopoCounted row) :
    RowsConserved (modelRows committed) (anchoredCollections committed) out ↔
      ∀ row ∈ modelRows committed,
        ¬ Straddled (rowUnits row) (coalesce (sortedPlanes (anchoredCollections committed))) := by
  rw [← synthesized_apart_iff h hrows]
  constructor
  · exact RowsConserved.apart
  · intro happart
    have hwoven := synthesized_woven h
    exact {
      entities := synthesized_entities h
      rows := hwoven
      ascending := happart.imp fun hab => lt_of_rowUnits_lt (by
        have := mergeEpsilon_pos
        omega)
      apart := happart
      topo := hwoven.topoCounted htopo }

end Synthesis

/-- A planar entity without a path. -/
def planarEntity (localId : Nat) (z : ℤ) : AnchoredEntity ℚ where
  localId := localId
  anchorGlobalLayerIndex := 0
  geometry := .Planar z
  provenance := ⟨"support-planner", "demand"⟩
  pathPoints := []
  role := .SupportMaterial

/-- A model row at 100 units and planes at 90 and `above`. -/
def nearPlanes (above : ℤ) : List (CommittedLayerEvent ℚ) :=
  [.Anchored ⟨0, [planarEntity 1 90, planarEntity 2 above], {}⟩,
    .Model { row := { globalLayerIndex := 0, z := 1 / 100 } }]

/-- The rows of this stream: the plane at 90 joins the model row. -/
def nearRows (above : ℤ) : List (LayerCollectionIR ℚ) :=
  [appendEntities { globalLayerIndex := 0, z := 1 / 100 } [planarEntity 1 90],
    appendEntities { globalLayerIndex := 0, z := unitsToMm above } [planarEntity 2 above]]

theorem nearPlanes_rows (above : ℤ) :
    ((modelRows (nearPlanes above)).Pairwise fun a b =>
      rowUnits a + 2 * MERGE_EPSILON_UNITS < rowUnits b) ∧
    ∀ row ∈ modelRows (nearPlanes above), TopoCounted row := by
  refine ⟨List.pairwise_singleton .., fun row hrow => ?_⟩
  cases List.mem_singleton.mp hrow
  rfl

/-- A plane at 111 units is far enough from the row at 100. -/
theorem rows_synthesized_near :
    RowsConserved (modelRows (nearPlanes 111)) (anchoredCollections (nearPlanes 111))
      (nearRows 111) :=
  (rows_synthesized_iff (by decide +kernel) (nearPlanes_rows 111).1 (nearPlanes_rows 111).2).mpr
    (by decide +kernel)

/-- A plane at 101 units gets a row one unit above the row at 100, which has
already taken the plane at 90. -/
theorem straddled_row_too_near :
    ((modelRows (nearPlanes 101)).Pairwise fun a b =>
      rowUnits a + 2 * MERGE_EPSILON_UNITS < rowUnits b) ∧
    (∀ row ∈ modelRows (nearPlanes 101), TopoCounted row) ∧
    synthesizeAnchoredRows (nearPlanes 101) = .ok (nearRows 101) ∧
    ¬ RowsConserved (modelRows (nearPlanes 101)) (anchoredCollections (nearPlanes 101))
      (nearRows 101) := by
  refine ⟨(nearPlanes_rows 101).1, (nearPlanes_rows 101).2, by decide +kernel, fun h => ?_⟩
  have hnear : ¬ ((nearRows 101).Pairwise fun a b =>
      rowUnits a + MERGE_EPSILON_UNITS < rowUnits b) := by
    decide +kernel
  exact hnear h.apart

end PinchNPrint.Layer
