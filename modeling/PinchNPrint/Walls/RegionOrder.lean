/-
Which wall has to come before which (`slicer-core`: `arachne/region_order.rs` and
`arachne/sparse_point_grid.rs`).

The junctions are scanned in order. Each is put into a grid of cells as wide as the search
radius, and compared with what the grid has nearby; the cells are 64-bit integers that
saturate. The grid leaves out no pair that is near enough (`mem_getRegionOrder_iff`), and the
requirements have no cycle (`acyclicOn_getRegionOrder`).

Coordinates and widths are the elements of an ordered field.
-/

import Mathlib.Data.Prod.Lex
import PinchNPrint.Lib.Digraph
import PinchNPrint.Walls.Stitch

namespace PinchNPrint.Walls

open Std (LawfulEqOrd TransCmp TransOrd)

/-! ### The grid -/

structure Point2 (F : Type) where
  x : F
  y : F
deriving DecidableEq

/-- `SparsePointGrid`, the hash map as a function. -/
structure SparsePointGrid (T F : Type) where
  cellSize : F
  locator : T → Point2 F
  cells : Int × Int → List T

/-- A cast to a 64-bit integer, which saturates. -/
def toI64 (z : Int) : Int :=
  max (-2 ^ 63) (min z (2 ^ 63 - 1))

theorem toI64_mono {a b : Int} (h : a ≤ b) : toI64 a ≤ toI64 b :=
  max_le_max le_rfl (min_le_min h le_rfl)

/-- `first..=last`. -/
def inclusiveRange (first last : Int) : List Int :=
  (List.range (last + 1 - first).toNat).map fun i : Nat => first + i

theorem mem_inclusiveRange {first last i : Int} :
    i ∈ inclusiveRange first last ↔ first ≤ i ∧ i ≤ last := by
  rw [inclusiveRange, List.mem_map]
  constructor
  · rintro ⟨n, hn, rfl⟩
    rw [List.mem_range] at hn
    omega
  · rintro ⟨hfirst, hlast⟩
    exact ⟨(i - first).toNat, by rw [List.mem_range]; omega, by omega⟩

namespace SparsePointGrid

variable {T F : Type} [Field F] [LinearOrder F] [FloorRing F]

/-- `SparsePointGrid::cell_for`. -/
def cellFor (point : Point2 F) (cellSize : F) : Int × Int :=
  (toI64 ⌊point.x / cellSize⌋, toI64 ⌊point.y / cellSize⌋)

/-- `SparsePointGrid::insert`. -/
def insert (grid : SparsePointGrid T F) (item : T) : SparsePointGrid T F :=
  if grid.cellSize = 0 then grid
  else
    let cell := cellFor (grid.locator item) grid.cellSize
    { grid with
      cells := Function.update grid.cells cell (grid.cells cell ++ [item]) }

/-- `SparsePointGrid::get_nearby`. -/
def getNearby (grid : SparsePointGrid T F) (query : Point2 F) (radius : F) : List T :=
  if grid.cellSize = 0 ∨ radius < 0 then []
  else
    let xMin := toI64 ⌊(query.x - radius) / grid.cellSize⌋
    let xMax := toI64 ⌊(query.x + radius) / grid.cellSize⌋
    let yMin := toI64 ⌊(query.y - radius) / grid.cellSize⌋
    let yMax := toI64 ⌊(query.y + radius) / grid.cellSize⌋
    (inclusiveRange xMin xMax).flatMap fun x =>
      (inclusiveRange yMin yMax).flatMap fun y => grid.cells (x, y)

/-- What a grid holds that started empty. -/
structure Holds (grid : SparsePointGrid T F) (items : List T) : Prop where
  mem_cells : ∀ item, ∀ cell, item ∈ grid.cells cell ↔
    item ∈ items ∧ cellFor (grid.locator item) grid.cellSize = cell

variable {grid : SparsePointGrid T F} {items : List T}

theorem Holds.insert (h : Holds grid items) (hcell : grid.cellSize ≠ 0) (item : T) :
    Holds (grid.insert item) (items ++ [item]) where
  mem_cells := by
    intro other cell
    simp only [SparsePointGrid.insert, if_neg hcell, List.mem_append, List.mem_singleton]
    rw [Function.update_apply]
    split_ifs with heq
    · rw [List.mem_append, List.mem_singleton, h.mem_cells, heq]
      constructor
      · rintro (⟨hold, hplace⟩ | rfl)
        · exact ⟨.inl hold, hplace⟩
        · exact ⟨.inr rfl, rfl⟩
      · rintro ⟨hold | hnew, hplace⟩
        · exact .inl ⟨hold, hplace⟩
        · exact .inr hnew
    · rw [h.mem_cells]
      refine and_congr_left fun hplace => ⟨.inl, fun hmem => hmem.resolve_right ?_⟩
      rintro rfl
      exact heq hplace.symm

theorem Holds.mem_of_mem_getNearby (h : Holds grid items) {query : Point2 F} {radius : F} {item : T}
    (hmem : item ∈ grid.getNearby query radius) : item ∈ items := by
  rw [getNearby] at hmem
  split_ifs at hmem
  · cases hmem
  · obtain ⟨x, -, hmem⟩ := List.mem_flatMap.mp hmem
    obtain ⟨y, -, hmem⟩ := List.mem_flatMap.mp hmem
    exact ((h.mem_cells item _).mp hmem).1

theorem cell_between [IsStrictOrderedRing F] {a b radius cellSize : F} (hcell : 0 < cellSize)
    (hnear : |a - b| ≤ radius) :
    toI64 ⌊(b - radius) / cellSize⌋ ≤ toI64 ⌊a / cellSize⌋ ∧
      toI64 ⌊a / cellSize⌋ ≤ toI64 ⌊(b + radius) / cellSize⌋ := by
  obtain ⟨hlow, hhigh⟩ := abs_le.mp hnear
  constructor
  · exact toI64_mono (Int.floor_mono (div_le_div_of_nonneg_right (by linarith) hcell.le))
  · exact toI64_mono (Int.floor_mono (div_le_div_of_nonneg_right (by linarith) hcell.le))

/-- The query finds every item within the radius. -/
theorem Holds.mem_getNearby [IsStrictOrderedRing F] (h : Holds grid items)
    (hcell : 0 < grid.cellSize) {query : Point2 F} {radius : F} (hradius : 0 ≤ radius) {item : T}
    (hitem : item ∈ items) (hx : |(grid.locator item).x - query.x| ≤ radius)
    (hy : |(grid.locator item).y - query.y| ≤ radius) : item ∈ grid.getNearby query radius := by
  rw [getNearby, if_neg (by rintro (hzero | hneg); exacts [hcell.ne' hzero, hradius.not_gt hneg])]
  refine List.mem_flatMap.mpr ⟨_, mem_inclusiveRange.mpr (cell_between hcell hx), ?_⟩
  refine List.mem_flatMap.mpr ⟨_, mem_inclusiveRange.mpr (cell_between hcell hy), ?_⟩
  exact (h.mem_cells item _).mpr ⟨hitem, rfl⟩

end SparsePointGrid

/-! ### The requirements -/

/-- A constraint between two lines, by their places. -/
structure Requirement where
  before : Nat
  after : Nat
deriving DecidableEq

instance : Ord Requirement where
  compare := compareLex (compareOn Requirement.before) (compareOn Requirement.after)

instance transOrd_requirement : TransOrd Requirement :=
  inferInstanceAs <| TransCmp
    (compareLex (compareOn Requirement.before) (compareOn Requirement.after))

instance lawfulEqOrd_requirement : LawfulEqOrd Requirement where
  eq_of_compare {a b} h := by
    change compareLex _ _ a b = .eq at h
    rw [compareLex_eq_eq] at h
    have hbefore : a.before = b.before := LawfulEqOrd.eq_of_compare h.1
    have hafter : a.after = b.after := LawfulEqOrd.eq_of_compare h.2
    cases a
    cases b
    simp only at hbefore hafter
    rw [hbefore, hafter]

/-- A junction with its line and the places of both. -/
structure PlacedJunction (F : Type) where
  lineIndex : Nat
  junctionIndex : Nat
  line : ExtrusionLine F
  junction : ExtrusionJunction F
deriving DecidableEq

section Order

variable {F : Type} [Field F] [LinearOrder F]

/-- The junctions of all lines, in the order of the scan. -/
def placedJunctions (input : List (ExtrusionLine F)) : List (PlacedJunction F) :=
  input.zipIdx.flatMap fun row => row.1.junctions.zipIdx.map fun column =>
    { lineIndex := row.2, junctionIndex := column.2, line := row.1, junction := column.1 }

/-- The position of a junction. -/
def PlacedJunction.point (placed : PlacedJunction F) : Point2 F where
  x := placed.junction.p.x
  y := placed.junction.p.y

def maxLineW (input : List (ExtrusionLine F)) : F :=
  ((input.flatMap ExtrusionLine.junctions).map fun junction => junction.p.width).foldl max 0

/-- Which of two near lines of neighbouring insets is put first. -/
def orderOf (outerToInner : Bool) (here nearby : PlacedJunction F) : Option Requirement :=
  if here.line.isOdd || nearby.line.isOdd then
    -- the two tests of the source exclude each other
    if here.line.isOdd && !nearby.line.isOdd && nearby.line.insetIdx < here.line.insetIdx then
      some { before := nearby.lineIndex, after := here.lineIndex }
    else if nearby.line.isOdd && !here.line.isOdd && here.line.insetIdx < nearby.line.insetIdx then
      some { before := here.lineIndex, after := nearby.lineIndex }
    else none
  else if decide (nearby.line.insetIdx < here.line.insetIdx) = outerToInner then
    some { before := nearby.lineIndex, after := here.lineIndex }
  else some { before := here.lineIndex, after := nearby.lineIndex }

/-- The square of the distance of two junctions. -/
def squaredGap (here nearby : PlacedJunction F) : F :=
  let dx := here.junction.p.x - nearby.junction.p.x
  let dy := here.junction.p.y - nearby.junction.p.y
  dx * dx + dy * dy

def widthLimit (here nearby : PlacedJunction F) : F :=
  (here.junction.p.width + nearby.junction.p.width) / 2 * (19 / 10)

/-- What the scan requires for a junction and one that the grid has nearby. -/
def requirement (outerToInner : Bool) (here nearby : PlacedJunction F) : Option Requirement :=
  if nearby.lineIndex = here.lineIndex ∧ nearby.junctionIndex = here.junctionIndex then none
  else if here.lineIndex = nearby.lineIndex ∨ here.line.insetIdx = nearby.line.insetIdx ∨
      1 < here.line.insetIdx - nearby.line.insetIdx ∨
      1 < nearby.line.insetIdx - here.line.insetIdx then none
  else if widthLimit here nearby * widthLimit here nearby < squaredGap here nearby then none
  else orderOf outerToInner here nearby

variable [FloorRing F]

/-- One junction is put into the grid and compared with those near it. -/
def scanJunction (outerToInner : Bool) (searchingRadius : F)
    (scan : SparsePointGrid (PlacedJunction F) F × List Requirement) (here : PlacedJunction F) :
    SparsePointGrid (PlacedJunction F) F × List Requirement :=
  let grid := scan.1.insert here
  (grid, scan.2 ++
    (grid.getNearby here.point searchingRadius).filterMap (requirement outerToInner here))

def getRegionOrder (input : List (ExtrusionLine F)) (outerToInner : Bool) : List Requirement :=
  let maxLineW := maxLineW input
  if maxLineW = 0 then []
  else
    let searchingRadius := maxLineW * (19 / 10)
    let grid : SparsePointGrid (PlacedJunction F) F :=
      { cellSize := searchingRadius, locator := PlacedJunction.point, cells := fun _ => [] }
    sortDedup ((placedJunctions input).foldl (scanJunction outerToInner searchingRadius)
      (grid, [])).2

end Order

/-! ### One pair of junctions -/

section Pair

variable {F : Type} {outerToInner : Bool} {here nearby : PlacedJunction F} {required : Requirement}

/-- A wall that is put before another: an even one, before an odd one or before the next one in
the direction of the sequence. -/
structure ComesFirst (outerToInner : Bool) (first last : ExtrusionLine F) : Prop where
  even : first.isOdd = false
  towards : last.isOdd = true ∨ last.isOdd = false ∧
    if outerToInner then first.insetIdx < last.insetIdx else last.insetIdx < first.insetIdx

theorem orderOf_comm (hinset : here.line.insetIdx ≠ nearby.line.insetIdx) :
    orderOf outerToInner here nearby = orderOf outerToInner nearby here := by
  rcases Nat.lt_or_gt_of_ne hinset with hlt | hlt
  all_goals
    cases hhere : here.line.isOdd <;> cases hnear : nearby.line.isOdd <;> cases outerToInner <;>
      simp [orderOf, hhere, hnear, hlt, hlt.le]

theorem comesFirst_of_orderOf (hinset : here.line.insetIdx ≠ nearby.line.insetIdx)
    (h : orderOf outerToInner here nearby = some required) :
    (required = ⟨nearby.lineIndex, here.lineIndex⟩ ∧
        ComesFirst outerToInner nearby.line here.line) ∨
      (required = ⟨here.lineIndex, nearby.lineIndex⟩ ∧
        ComesFirst outerToInner here.line nearby.line) := by
  rw [orderOf] at h
  split_ifs at h with hodd hhere hnear hdirection
  · simp only [Bool.and_eq_true, Bool.not_eq_true'] at hhere
    cases h
    exact .inl ⟨rfl, hhere.1.2, .inl hhere.1.1⟩
  · simp only [Bool.and_eq_true, Bool.not_eq_true'] at hnear
    cases h
    exact .inr ⟨rfl, hnear.1.2, .inl hnear.1.1⟩
  all_goals
    rw [Bool.or_eq_true, not_or, Bool.not_eq_true, Bool.not_eq_true] at hodd
    cases h
  · refine .inl ⟨rfl, hodd.2, .inr ⟨hodd.1, ?_⟩⟩
    cases outerToInner
    · have hle := of_decide_eq_false hdirection
      simp
      omega
    · exact of_decide_eq_true hdirection
  · refine .inr ⟨rfl, hodd.1, .inr ⟨hodd.2, ?_⟩⟩
    cases outerToInner
    · simpa using hdirection
    · have hle : ¬ nearby.line.insetIdx < here.line.insetIdx := by simpa using hdirection
      simp
      omega

variable [Field F] [LinearOrder F]

/-- What the guards of a requirement say. -/
structure Admitted (here nearby : PlacedJunction F) : Prop where
  line_ne : here.lineIndex ≠ nearby.lineIndex
  inset_ne : here.line.insetIdx ≠ nearby.line.insetIdx
  near : squaredGap here nearby ≤ widthLimit here nearby * widthLimit here nearby

theorem requirement_eq_some (h : requirement outerToInner here nearby = some required) :
    Admitted here nearby ∧ orderOf outerToInner here nearby = some required := by
  rw [requirement] at h
  split_ifs at h with hself hguard hfar
  simp only [not_or] at hguard
  exact ⟨⟨hguard.1, hguard.2.1, not_lt.mp hfar⟩, h⟩

/-- A pair may be looked at from either side. -/
theorem requirement_comm (h : requirement outerToInner here nearby = some required) :
    requirement outerToInner nearby here = some required := by
  have hgap : squaredGap nearby here = squaredGap here nearby := by
    simp only [squaredGap]
    ring
  have hlimit : widthLimit nearby here = widthLimit here nearby := by
    rw [widthLimit, widthLimit, add_comm]
  rw [requirement] at h ⊢
  split_ifs at h with hself hguard hfar
  rw [if_neg fun hsame => hself ⟨hsame.1.symm, hsame.2.symm⟩, if_neg (by omega), hgap, hlimit,
    if_neg hfar, orderOf_comm fun hinset => hguard (.inr (.inl hinset.symm)), h]

/-- Junctions near enough for their widths are within the search radius. -/
theorem Admitted.abs_le [IsStrictOrderedRing F] (h : Admitted here nearby) {maxLineW : F}
    (hhere : 0 < here.junction.p.width ∧ here.junction.p.width ≤ maxLineW)
    (hnearby : 0 < nearby.junction.p.width ∧ nearby.junction.p.width ≤ maxLineW) :
    |nearby.point.x - here.point.x| ≤ maxLineW * (19 / 10) ∧
      |nearby.point.y - here.point.y| ≤ maxLineW * (19 / 10) := by
  have hlimit : widthLimit here nearby ≤ maxLineW * (19 / 10) := by
    rw [widthLimit]
    linarith [hhere.2, hnearby.2]
  have hpos : 0 ≤ widthLimit here nearby := by
    rw [widthLimit]
    linarith [hhere.1, hnearby.1]
  have hnear := h.near
  rw [squaredGap] at hnear
  have hsides : ∀ dx dy : F, dx * dx + dy * dy ≤ widthLimit here nearby * widthLimit here nearby →
      |dx| ≤ widthLimit here nearby := by
    intro dx dy hsum
    refine abs_le_of_sq_le_sq ?_ hpos
    linarith [mul_self_nonneg dy, pow_two dx, pow_two (widthLimit here nearby)]
  constructor
  · rw [abs_sub_comm]
    exact (hsides _ _ hnear).trans hlimit
  · rw [abs_sub_comm]
    rw [add_comm] at hnear
    exact (hsides _ _ hnear).trans hlimit

end Pair

/-! ### The whole scan -/

section Scan

variable {F : Type} [Field F] [LinearOrder F] {outerToInner : Bool}
  {input : List (ExtrusionLine F)}

omit [Field F] [LinearOrder F] in
theorem mem_placedJunctions {placed : PlacedJunction F} :
    placed ∈ placedJunctions input ↔ input[placed.lineIndex]? = some placed.line ∧
      placed.line.junctions[placed.junctionIndex]? = some placed.junction := by
  rw [placedJunctions, List.mem_flatMap]
  constructor
  · rintro ⟨row, hrow, hplaced⟩
    obtain ⟨column, hcolumn, rfl⟩ := List.mem_map.mp hplaced
    exact ⟨List.mem_zipIdx_iff_getElem?.mp hrow, List.mem_zipIdx_iff_getElem?.mp hcolumn⟩
  · rintro ⟨hline, hjunction⟩
    exact ⟨(placed.line, placed.lineIndex), List.mem_zipIdx_iff_getElem?.mpr hline,
      List.mem_map.mpr ⟨(placed.junction, placed.junctionIndex),
        List.mem_zipIdx_iff_getElem?.mpr hjunction, rfl⟩⟩

omit [Field F] in
theorem le_foldl_max (widths : List F) (start : F) :
    start ≤ widths.foldl max start ∧ ∀ width ∈ widths, width ≤ widths.foldl max start := by
  induction widths generalizing start with
  | nil => exact ⟨le_rfl, fun width hwidth => by cases hwidth⟩
  | cons first rest ih =>
    obtain ⟨hstart, hrest⟩ := ih (max start first)
    refine ⟨(le_max_left _ _).trans hstart, fun width hwidth => ?_⟩
    rcases List.mem_cons.mp hwidth with rfl | hwidth
    · exact (le_max_right _ _).trans hstart
    · exact hrest width hwidth

theorem width_le_maxLineW {placed : PlacedJunction F} (h : placed ∈ placedJunctions input) :
    placed.junction.p.width ≤ maxLineW input := by
  obtain ⟨hline, hjunction⟩ := mem_placedJunctions.mp h
  refine (le_foldl_max _ 0).2 _ (List.mem_map.mpr ⟨placed.junction, ?_, rfl⟩)
  exact List.mem_flatMap.mpr ⟨placed.line, List.mem_of_getElem? hline,
    List.mem_of_getElem? hjunction⟩

variable [FloorRing F] [IsStrictOrderedRing F]

/-- After some junctions are scanned: the grid holds them, and what is required is required by
their pairs. -/
structure Scanned (outerToInner : Bool) (searchingRadius : F) (placed : List (PlacedJunction F))
    (scan : SparsePointGrid (PlacedJunction F) F × List Requirement) : Prop where
  cellSize : scan.1.cellSize = searchingRadius
  locator : scan.1.locator = PlacedJunction.point
  holds : scan.1.Holds placed
  mem_requirements : ∀ required, required ∈ scan.2 ↔
    ∃ here ∈ placed, ∃ nearby ∈ placed, requirement outerToInner here nearby = some required

/-- A junction is scanned: it meets every junction before it that is near enough. -/
theorem Scanned.step {maxLineW : F} (hmax : 0 < maxLineW) {placed : List (PlacedJunction F)}
    {here : PlacedJunction F}
    (hwidth : ∀ other ∈ placed ++ [here],
      0 < other.junction.p.width ∧ other.junction.p.width ≤ maxLineW)
    {scan : SparsePointGrid (PlacedJunction F) F × List Requirement}
    (h : Scanned outerToInner (maxLineW * (19 / 10)) placed scan) :
    Scanned outerToInner (maxLineW * (19 / 10)) (placed ++ [here])
      (scanJunction outerToInner (maxLineW * (19 / 10)) scan here) := by
  have hradius : 0 < maxLineW * (19 / 10) := by linarith
  have hcell : scan.1.cellSize ≠ 0 := by
    rw [h.cellSize]
    exact hradius.ne'
  have hinserted : scan.1.insert here =
      { scan.1 with cells := (scan.1.insert here).cells } := by
    rw [SparsePointGrid.insert, if_neg hcell]
  have hholds := h.holds.insert hcell here
  refine
    { cellSize := by
        rw [scanJunction, hinserted]
        exact h.cellSize
      locator := by
        rw [scanJunction, hinserted]
        exact h.locator
      holds := hholds
      mem_requirements := ?_ }
  intro required
  have hmeets : ∀ nearby ∈ placed ++ [here], requirement outerToInner here nearby = some required →
      nearby ∈ (scan.1.insert here).getNearby here.point (maxLineW * (19 / 10)) := by
    intro nearby hnearby hrequired
    obtain ⟨hx, hy⟩ := (requirement_eq_some hrequired).1.abs_le
      (hwidth here (by simp)) (hwidth nearby hnearby)
    have hlocator : (scan.1.insert here).locator = PlacedJunction.point := by
      rw [hinserted]
      exact h.locator
    refine hholds.mem_getNearby ?_ hradius.le hnearby ?_ ?_
    · rw [hinserted]
      exact hradius.trans_eq h.cellSize.symm
    · rwa [hlocator]
    · rwa [hlocator]
  rw [scanJunction, List.mem_append, List.mem_filterMap, h.mem_requirements]
  constructor
  · rintro (⟨first, hfirst, second, hsecond, hrequired⟩ | ⟨nearby, hnearby, hrequired⟩)
    · exact ⟨first, List.mem_append_left _ hfirst, second, List.mem_append_left _ hsecond,
        hrequired⟩
    · exact ⟨here, by simp, nearby, hholds.mem_of_mem_getNearby hnearby, hrequired⟩
  · rintro ⟨first, hfirst, second, hsecond, hrequired⟩
    rcases List.mem_append.mp hfirst with hfirst' | hfirst'
    · rcases List.mem_append.mp hsecond with hsecond' | hsecond'
      · exact .inl ⟨first, hfirst', second, hsecond', hrequired⟩
      · -- the later of the two finds the earlier one
        cases List.mem_singleton.mp hsecond'
        have hswapped := requirement_comm hrequired
        exact .inr ⟨first, hmeets first hfirst hswapped, hswapped⟩
    · cases List.mem_singleton.mp hfirst'
      exact .inr ⟨second, hmeets second hsecond hrequired, hrequired⟩

theorem scanned {maxLineW : F} (hmax : 0 < maxLineW) {placed : List (PlacedJunction F)}
    (hwidth : ∀ here ∈ placed, 0 < here.junction.p.width ∧ here.junction.p.width ≤ maxLineW) :
    Scanned outerToInner (maxLineW * (19 / 10)) placed
      (placed.foldl (scanJunction outerToInner (maxLineW * (19 / 10)))
        ({ cellSize := maxLineW * (19 / 10)
           locator := PlacedJunction.point
           cells := fun _ => [] }, [])) := by
  induction placed using List.reverseRecOn with
  | nil =>
    exact
      { cellSize := rfl
        locator := rfl
        holds := ⟨fun item cell => by simp⟩
        mem_requirements := fun required => by simp }
  | append_singleton placed here ih =>
    rw [List.foldl_append]
    exact (ih fun other hother => hwidth other (List.mem_append_left _ hother)).step hmax hwidth

/-- The requirements of all pairs of junctions, without the grid. -/
def RequiredDirectly (input : List (ExtrusionLine F)) (outerToInner : Bool)
    (required : Requirement) : Prop :=
  ∃ here ∈ placedJunctions input, ∃ nearby ∈ placedJunctions input,
    here.lineIndex ≠ nearby.lineIndex ∧ requirement outerToInner here nearby = some required

/-- The grid leaves out no pair that is near enough. -/
theorem mem_getRegionOrder_iff
    (hwidth : ∀ line ∈ input, ∀ junction ∈ line.junctions, 0 < junction.p.width)
    (required : Requirement) :
    required ∈ getRegionOrder input outerToInner ↔
      RequiredDirectly input outerToInner required := by
  have hwidths : ∀ here ∈ placedJunctions input,
      0 < here.junction.p.width ∧ here.junction.p.width ≤ maxLineW input := by
    intro here hhere
    obtain ⟨hline, hjunction⟩ := mem_placedJunctions.mp hhere
    exact ⟨hwidth _ (List.mem_of_getElem? hline) _ (List.mem_of_getElem? hjunction),
      width_le_maxLineW hhere⟩
  simp only [getRegionOrder]
  split_ifs with hzero
  · refine iff_of_false List.not_mem_nil ?_
    rintro ⟨here, hhere, -⟩
    obtain ⟨hpos, hle⟩ := hwidths here hhere
    exact (hpos.trans_le hle).ne' hzero
  · have hmax : 0 < maxLineW input :=
      lt_of_le_of_ne (le_foldl_max _ 0).1 (Ne.symm hzero)
    rw [sortDedup, Std.ExtTreeSet.mem_toList, BTreeSet.mem_ofList_iff,
      (scanned hmax hwidths).mem_requirements]
    constructor
    · rintro ⟨here, hhere, nearby, hnearby, hrequired⟩
      exact ⟨here, hhere, nearby, hnearby, (requirement_eq_some hrequired).1.line_ne, hrequired⟩
    · rintro ⟨here, hhere, nearby, hnearby, -, hrequired⟩
      exact ⟨here, hhere, nearby, hnearby, hrequired⟩

theorem comesFirst_of_mem_getRegionOrder
    (hwidth : ∀ line ∈ input, ∀ junction ∈ line.junctions, 0 < junction.p.width)
    {required : Requirement} (h : required ∈ getRegionOrder input outerToInner) :
    ∃ first last, input[required.before]? = some first ∧ input[required.after]? = some last ∧
      ComesFirst outerToInner first last := by
  obtain ⟨here, hhere, nearby, hnearby, -, hrequired⟩ := (mem_getRegionOrder_iff hwidth _).mp h
  obtain ⟨hline, -⟩ := mem_placedJunctions.mp hhere
  obtain ⟨hline', -⟩ := mem_placedJunctions.mp hnearby
  obtain ⟨hadmitted, horder⟩ := requirement_eq_some hrequired
  rcases comesFirst_of_orderOf hadmitted.inset_ne horder with ⟨rfl, hfirst⟩ | ⟨rfl, hfirst⟩
  · exact ⟨_, _, hline', hline, hfirst⟩
  · exact ⟨_, _, hline, hline', hfirst⟩

/-- Even lines in the direction of the sequence, then the odd ones. -/
def rankOf (outerToInner : Bool) (line : ExtrusionLine F) : Bool ×ₗ ℤ :=
  toLex (line.isOdd, if outerToInner then (line.insetIdx : ℤ) else -line.insetIdx)

omit [Field F] [LinearOrder F] [FloorRing F] [IsStrictOrderedRing F] in
theorem ComesFirst.rank_lt {first last : ExtrusionLine F} (h : ComesFirst outerToInner first last) :
    rankOf outerToInner first < rankOf outerToInner last := by
  rw [rankOf, rankOf, Prod.Lex.toLex_lt_toLex, h.even]
  rcases h.towards with hodd | ⟨heven, hinset⟩
  · exact .inl (by rw [hodd]; exact Bool.false_lt_true)
  · refine .inr ⟨heven.symm, ?_⟩
    cases outerToInner
    · simpa using hinset
    · simpa using hinset

/-- The requirements have no cycle. -/
theorem acyclicOn_getRegionOrder
    (hwidth : ∀ line ∈ input, ∀ junction ∈ line.junctions, 0 < junction.p.width) :
    Digraph.AcyclicOn (List.range input.length) fun before after =>
      ⟨before, after⟩ ∈ getRegionOrder input outerToInner := by
  refine Digraph.acyclicOn_of_rank
    (fun i => (input[i]?.map (rankOf outerToInner)).getD (toLex (false, 0))) ?_
  intro before _ after _ hrequired
  obtain ⟨first, last, hfirst, hlast, hcomes⟩ := comesFirst_of_mem_getRegionOrder hwidth hrequired
  simp only [hfirst, hlast, Option.map_some, Option.getD_some]
  exact hcomes.rank_lt

end Scan

end PinchNPrint.Walls
