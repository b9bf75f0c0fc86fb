/-
The walk over the intersection lines.

`Takes` is the run of one walk: the line ends it takes, one after the other, from a
topology to another. What holds of `chainLinesByTriangleConnectivity` is proved by
`chainLines_induction`, with one case for a seed that is used already and one for
each end of its walk.
-/

import PinchNPrint.Lib.Sequences
import PinchNPrint.Mesh.Chaining

namespace PinchNPrint.Mesh

open GCode (Sqrt)
open Region (Point2)

/-! ### Steps over the mesh topology -/

/-- The index of the line a step runs along. -/
def Step.index? : Step → Option Nat
  | .line index _ => some index
  | _ => none

/-- The lines the steps run along. -/
def lineUses (steps : List Step) : Multiset Nat :=
  steps.filterMap Step.index?

@[simp] theorem lineUses_nil : lineUses [] = 0 := rfl

@[simp] theorem lineUses_append (first second : List Step) :
    lineUses (first ++ second) = lineUses first + lineUses second := by
  simp [lineUses, List.filterMap_append]

@[simp] theorem lineUses_line (index : Nat) (forward : Bool) (rest : List Step) :
    lineUses (.line index forward :: rest) = {index} + lineUses rest := rfl

/-- All lines that the chains run along. -/
def Chains.lineUses {F : Type} (chains : Chains F) : Multiset Nat :=
  (chains.loops.map fun chain => Mesh.lineUses chain.steps).sum +
    (chains.shortLoops.map fun chain => Mesh.lineUses chain.steps).sum +
      (chains.openPolylines.map fun polyline => Mesh.lineUses polyline.steps).sum

theorem Chains.lineUses_pushLoop {F : Type} (chains : Chains F) (chain : ClosedChain) :
    (chains.pushLoop chain).lineUses = Mesh.lineUses chain.steps + chains.lineUses := by
  rw [Chains.pushLoop]
  split <;> simp [Chains.lineUses] <;> abel

theorem Chains.mem_pushLoop {F : Type} {chains : Chains F} {chain chain' : ClosedChain} :
    chain' ∈ (chains.pushLoop chain).loops ++ (chains.pushLoop chain).shortLoops ↔
      chain' ∈ chains.loops ++ chains.shortLoops ∨ chain' = chain := by
  rw [Chains.pushLoop]
  split <;> simp [or_comm, or_left_comm]

@[simp] theorem Chains.openPolylines_pushLoop {F : Type} (chains : Chains F)
    (chain : ClosedChain) : (chains.pushLoop chain).openPolylines = chains.openPolylines := by
  rw [Chains.pushLoop]
  split <;> rfl

/-- The topology a line is entered at. -/
def IntersectionLine.entry (line : IntersectionLine) (forward : Bool) : EndpointTopology :=
  if forward then line.aTopology else line.bTopology

/-- `Trail lines s steps t`: the steps lead from `s` to `t`, and each begins at the topology
the last one ended at, also over the chord of an exact join. -/
inductive Trail (lines : List IntersectionLine) :
    EndpointTopology → List Step → EndpointTopology → Prop where
  | nil (t) : Trail lines t [] t
  | line {index forward line steps t} : lines[index]? = some line →
      Trail lines (line.entry (!forward)) steps t →
      Trail lines (line.entry forward) (.line index forward :: steps) t
  | joined {s steps t} : Trail lines s steps t → Trail lines s (.joined :: steps) t

/-- The end at which the walk meets the line. -/
def LineEnd.near (lineEnd : LineEnd) : Point2 × EndpointTopology :=
  if lineEnd.isA then (lineEnd.line.a, lineEnd.line.aTopology)
  else (lineEnd.line.b, lineEnd.line.bTopology)

/-- The step along the line. -/
def LineEnd.step (lineEnd : LineEnd) : Step :=
  .line lineEnd.index lineEnd.isA

/-- The walk at `s` takes the line ends in order and is then at `t`. -/
inductive Takes (lines : List IntersectionLine) :
    List Bool → EndpointTopology → List LineEnd → List Bool → EndpointTopology → Prop where
  | nil (used t) : Takes lines used t [] used t
  | cons {used s next taken used' t} : nextLine lines used s = some next →
      Takes lines (used.set next.index true) next.far.2 taken used' t →
      Takes lines used s (next :: taken) used' t

section Walk

variable {lines : List IntersectionLine} {used used' : List Bool} {s t : EndpointTopology}

/-! ### The lines at a topology -/

theorem mem_byTopo {lineEnd : LineEnd} :
    lineEnd ∈ byTopo lines t ↔
      lines[lineEnd.index]? = some lineEnd.line ∧ lineEnd.near.2 = t := by
  obtain ⟨line, index, isA⟩ := lineEnd
  simp only [byTopo, List.mem_flatMap, Prod.exists, List.mem_zipIdx_iff_getElem?, LineEnd.near]
  constructor
  · rintro ⟨line', index', hget, hmem⟩
    rcases List.mem_append.mp hmem with ha | hb
    · split at ha
      · cases List.mem_singleton.mp ha
        exact ⟨hget, by assumption⟩
      · cases ha
    · split at hb
      · cases List.mem_singleton.mp hb
        exact ⟨hget, by assumption⟩
      · cases hb
  · rintro ⟨hget, hnear⟩
    refine ⟨line, index, hget, ?_⟩
    cases isA with
    | true => simp [show line.aTopology = t from hnear]
    | false => simp [show line.bTopology = t from hnear]

theorem nextLine_spec {next : LineEnd} (h : nextLine lines used t = some next) :
    lines[next.index]? = some next.line ∧ next.near.2 = t ∧ isUsed used next.index = false := by
  obtain ⟨hget, hnear⟩ := mem_byTopo.mp (List.mem_of_find?_eq_some h)
  exact ⟨hget, hnear, isUsed_of_nextLine h⟩

/-- A walk that finds no line has used all lines at its end. -/
theorem isUsed_of_nextLine_eq_none (h : nextLine lines used t = none) {index : Nat}
    {line : IntersectionLine} (hget : lines[index]? = some line)
    (hend : line.aTopology = t ∨ line.bTopology = t) : isUsed used index = true := by
  rw [nextLine, List.find?_eq_none] at h
  rcases hend with ha | hb
  · simpa using h ⟨line, index, true⟩ (mem_byTopo.mpr ⟨hget, ha⟩)
  · simpa using h ⟨line, index, false⟩ (mem_byTopo.mpr ⟨hget, hb⟩)

/-! ### The run of a walk -/

/-- The walk takes lines until it is back at its start or finds no more. -/
theorem extendWalk_takes (lines : List IntersectionLine) (startTopo : EndpointTopology)
    (used : List Bool) (points : List Point2) (steps : List Step) (endTopo : EndpointTopology) :
    let walk := extendWalk lines startTopo used points steps endTopo
    ∃ taken, Takes lines used endTopo taken walk.used walk.endTopo ∧
      walk.points = points ++ taken.map (·.far.1) ∧ walk.steps = steps ++ taken.map LineEnd.step ∧
      (walk.closed = true ∧ walk.endTopo = startTopo ∨
        walk.closed = false ∧ walk.endTopo ≠ startTopo ∧
          nextLine lines walk.used walk.endTopo = none) := by
  fun_induction extendWalk lines startTopo used points steps endTopo with
  | case1 used points steps endTopo hnone =>
    refine ⟨[], .nil _ _, by simp, by simp, ?_⟩
    by_cases hclosed : endTopo = startTopo
    · exact Or.inl ⟨by simp [hclosed], hclosed⟩
    · exact Or.inr ⟨by simp [hclosed], hclosed, hnone⟩
  | case2 used points steps endTopo next hnext used' points' steps' hback =>
    exact ⟨[next], .cons hnext (.nil _ _), by simp [points'], by simp [steps', LineEnd.step],
      Or.inl ⟨rfl, hback⟩⟩
  | case3 used points steps endTopo next hnext used' points' steps' hon ih =>
    obtain ⟨taken, htakes, hpoints, hsteps, hend⟩ := ih
    exact ⟨next :: taken, .cons hnext htakes, by simp [hpoints, points'],
      by simp [hsteps, steps', LineEnd.step], hend⟩

theorem isUsed_set (used : List Bool) (index i : Nat) :
    isUsed (used.set index true) i = (isUsed used i || decide (index = i)) := by
  rw [isUsed, isUsed, List.getElem?_set]
  by_cases hi : index = i
  case neg => simp [hi]
  case pos =>
    subst hi
    rw [if_pos rfl]
    split <;> simp

/-- A walk leaves used what is used. -/
theorem Takes.isUsed {taken : List LineEnd} (h : Takes lines used s taken used' t) {i : Nat}
    (hi : isUsed used i = true) : isUsed used' i = true := by
  induction h with
  | nil => exact hi
  | cons _ _ ih => exact ih (by rw [isUsed_set, hi, Bool.true_or])

theorem LineEnd.far_snd (lineEnd : LineEnd) :
    lineEnd.far.2 = lineEnd.line.entry (!lineEnd.isA) := by
  cases h : lineEnd.isA <;> simp [LineEnd.far, IntersectionLine.entry, h]

theorem LineEnd.near_snd (lineEnd : LineEnd) :
    lineEnd.near.2 = lineEnd.line.entry lineEnd.isA := by
  cases h : lineEnd.isA <;> simp [LineEnd.near, IntersectionLine.entry, h]

theorem Takes.trail {taken : List LineEnd} (h : Takes lines used s taken used' t) :
    Trail lines s (taken.map LineEnd.step) t := by
  induction h with
  | nil used t => exact .nil t
  | cons hnext _ ih =>
    obtain ⟨hget, hnear, _⟩ := nextLine_spec hnext
    rw [LineEnd.far_snd] at ih
    rw [LineEnd.near_snd] at hnear
    rw [← hnear]
    exact .line hget ih

end Walk

/-! ### The lines that remain -/

section Free

variable {lines : List IntersectionLine} {used used' : List Bool} {s t : EndpointTopology}

/-- The lines that no walk has used, with their indices. -/
def freeLines (lines : List IntersectionLine) (used : List Bool) :
    List (IntersectionLine × Nat) :=
  lines.zipIdx.filter fun entry => !isUsed used entry.2

theorem mem_freeLines {entry : IntersectionLine × Nat} :
    entry ∈ freeLines lines used ↔
      lines[entry.2]? = some entry.1 ∧ isUsed used entry.2 = false := by
  simp [freeLines, List.mem_zipIdx_iff_getElem?]

theorem nodup_freeLines (lines : List IntersectionLine) (used : List Bool) :
    (freeLines lines used).Nodup := by
  have hindices : (lines.zipIdx.map (·.2)).Nodup := by
    rw [List.zipIdx_map_snd]
    exact List.nodup_range'
  exact hindices.of_map.filter _

/-- Using a line takes it from those that remain. -/
theorem freeLines_perm {index : Nat} {line : IntersectionLine} (hget : lines[index]? = some line)
    (hfree : isUsed used index = false) :
    (freeLines lines used).Perm ((line, index) :: freeLines lines (used.set index true)) := by
  have hnotMem : (line, index) ∉ freeLines lines (used.set index true) := by
    intro hmem
    have hused := (mem_freeLines.mp hmem).2
    rw [isUsed_set, decide_eq_true rfl, Bool.or_true] at hused
    cases hused
  rw [List.perm_ext_iff_of_nodup (nodup_freeLines _ _)
    (List.nodup_cons.mpr ⟨hnotMem, nodup_freeLines _ _⟩)]
  intro entry
  rw [List.mem_cons, mem_freeLines, mem_freeLines, isUsed_set, Bool.or_eq_false_iff]
  constructor
  · rintro ⟨hentry, hunused⟩
    by_cases hindex : index = entry.2
    · rw [← hindex, hget] at hentry
      exact Or.inl (Prod.ext (Option.some.inj hentry).symm hindex.symm)
    · exact Or.inr ⟨hentry, hunused, by simpa using hindex⟩
  · rintro (rfl | ⟨hentry, hunused, _⟩)
    · exact ⟨hget, hfree⟩
    · exact ⟨hentry, hunused⟩

/-- The indices of the lines that remain. -/
def freeIndices (lines : List IntersectionLine) (used : List Bool) : Multiset Nat :=
  (freeLines lines used).map (·.2)

theorem freeIndices_set {index : Nat} {line : IntersectionLine} (hget : lines[index]? = some line)
    (hfree : isUsed used index = false) :
    freeIndices lines used = {index} + freeIndices lines (used.set index true) :=
  Multiset.coe_eq_coe.mpr ((freeLines_perm hget hfree).map (·.2))

/-- The lines of a walk are those it takes from the ones that remain. -/
theorem Takes.freeIndices {taken : List LineEnd} (h : Takes lines used s taken used' t) :
    freeIndices lines used = lineUses (taken.map LineEnd.step) + freeIndices lines used' := by
  induction h with
  | nil => simp
  | cons hnext _ ih =>
    obtain ⟨hget, _, hfree⟩ := nextLine_spec hnext
    rw [freeIndices_set hget hfree, ih, List.map_cons, LineEnd.step, lineUses_line, add_assoc]

/-- Before the first walk all lines remain. -/
theorem freeLines_replicate (lines : List IntersectionLine) :
    freeLines lines (List.replicate lines.length false) = lines.zipIdx := by
  refine List.filter_eq_self.mpr fun entry hentry => ?_
  have hlt : entry.2 < lines.length := List.snd_lt_of_mem_zipIdx hentry
  simp [isUsed, hlt]

theorem freeIndices_replicate (lines : List IntersectionLine) :
    Mesh.freeIndices lines (List.replicate lines.length false) =
      Multiset.range lines.length := by
  rw [Mesh.freeIndices, freeLines_replicate, List.zipIdx_map_snd]
  simp [Multiset.range, List.range_eq_range']

/-- When every index is used, no line remains. -/
theorem freeIndices_eq_zero (h : ∀ index < lines.length, isUsed used index = true) :
    Mesh.freeIndices lines used = 0 := by
  have hnone : freeLines lines used = [] := by
    refine List.eq_nil_iff_forall_not_mem.mpr fun entry hentry => ?_
    obtain ⟨hget, hfree⟩ := mem_freeLines.mp hentry
    rw [h _ (List.getElem?_eq_some_iff.mp hget).1] at hfree
    cases hfree
  rw [Mesh.freeIndices, hnone]
  rfl

/-! The walk from a seed, the seed itself included. -/

variable {index : Nat} {line : IntersectionLine} {taken : List LineEnd}

theorem seeded_succ (hdone : ∀ i < index, isUsed used i = true)
    (htakes : Takes lines (used.set index true) line.bTopology taken used' t) :
    ∀ i < index + 1, isUsed used' i = true := by
  intro i hi
  refine htakes.isUsed ?_
  rw [isUsed_set]
  rcases Nat.lt_succ_iff_lt_or_eq.mp hi with hi | rfl
  · rw [hdone i hi, Bool.true_or]
  · rw [decide_eq_true rfl, Bool.or_true]

theorem lineUses_seed (hget : lines[index]? = some line) (hfree : isUsed used index = false)
    (htakes : Takes lines (used.set index true) line.bTopology taken used' t) :
    freeIndices lines used =
      lineUses (.line index true :: taken.map LineEnd.step) + freeIndices lines used' := by
  rw [freeIndices_set hget hfree, htakes.freeIndices, lineUses_line, add_assoc]

theorem trail_seed (hget : lines[index]? = some line)
    (htakes : Takes lines (used.set index true) line.bTopology taken used' t) :
    Trail lines line.aTopology (.line index true :: taken.map LineEnd.step) t :=
  @Trail.line lines index true line _ _ hget htakes.trail

end Free

/-! ### The walks from all seeds -/

section Seeds

variable {F : Type} [Field F] [Sqrt F] {lines : List IntersectionLine}

theorem chainSeed_cases {used : List Bool} {chains : Chains F} {line : IntersectionLine}
    {index : Nat} (hfree : isUsed used index = false) :
    ∃ taken used' t, Takes lines (used.set index true) line.bTopology taken used' t ∧
      let points := line.a :: line.b :: taken.map (·.far.1)
      let steps := .line index true :: taken.map LineEnd.step
      (t = line.aTopology ∧ chainSeed lines (used, chains) (line, index) =
          (used', chains.pushLoop ⟨points.dropLast, steps⟩) ∨
        t ≠ line.aTopology ∧ nextLine lines used' t = none ∧
          chainSeed lines (used, chains) (line, index) =
            (used', { chains with openPolylines := chains.openPolylines ++
              [⟨line.aTopology, t, points, polylineLength points, false, steps⟩] })) := by
  obtain ⟨taken, htakes, hpoints, hsteps, hend⟩ := extendWalk_takes lines line.aTopology
    (used.set index true) [line.a, line.b] [.line index true] line.bTopology
  refine ⟨taken, _, _, htakes, ?_⟩
  simp only [chainSeed, hfree, Bool.false_eq_true, if_false]
  rcases hend with ⟨hclosed, hback⟩ | ⟨hopen, hends, hnone⟩
  · refine Or.inl ⟨hback, ?_⟩
    rw [if_pos hclosed, hpoints, hsteps]
    rfl
  · refine Or.inr ⟨hends, hnone, ?_⟩
    rw [if_neg (by simp [hopen]), hpoints, hsteps]
    rfl

/-- What holds before the first walk and is kept by every seed holds behind the last one. -/
theorem chainLines_induction {P : Nat → List Bool → Chains F → Prop}
    (hinitial : P 0 (List.replicate lines.length false) {})
    (hskip : ∀ index used chains, isUsed used index = true → P index used chains →
      P (index + 1) used chains)
    (hclosed : ∀ index line used chains taken used', lines[index]? = some line →
      isUsed used index = false → P index used chains →
      Takes lines (used.set index true) line.bTopology taken used' line.aTopology →
      P (index + 1) used' (chains.pushLoop
        ⟨(line.a :: line.b :: taken.map (·.far.1)).dropLast,
          .line index true :: taken.map LineEnd.step⟩))
    (hopen : ∀ index line used chains taken used' t, lines[index]? = some line →
      isUsed used index = false → P index used chains →
      Takes lines (used.set index true) line.bTopology taken used' t → t ≠ line.aTopology →
      nextLine lines used' t = none →
      P (index + 1) used' { chains with openPolylines := chains.openPolylines ++
        [⟨line.aTopology, t, line.a :: line.b :: taken.map (·.far.1),
          polylineLength (line.a :: line.b :: taken.map (·.far.1)), false,
          .line index true :: taken.map LineEnd.step⟩] }) :
    ∃ used, P lines.length used (chainLinesByTriangleConnectivity lines) := by
  have hrun : ∀ (done rest : List (IntersectionLine × Nat)), lines.zipIdx = done ++ rest →
      ∀ state : List Bool × Chains F, P done.length state.1 state.2 →
        P lines.length (rest.foldl (chainSeed lines) state).1
          (rest.foldl (chainSeed lines) state).2 := by
    intro done rest
    induction rest generalizing done with
    | nil =>
      intro hsplit state hstate
      have hlength := congrArg List.length hsplit
      rw [List.length_zipIdx, List.append_nil] at hlength
      exact hlength ▸ hstate
    | cons entry rest ih =>
      intro hsplit state hstate
      obtain ⟨line, index⟩ := entry
      have hentry : lines.zipIdx[done.length]? = some (line, index) := by
        rw [hsplit, List.getElem?_append_right le_rfl, Nat.sub_self]
        rfl
      obtain ⟨hget, hindex⟩ : lines[done.length]? = some line ∧ done.length = index := by
        rw [List.getElem?_zipIdx, Option.map_eq_some_iff] at hentry
        obtain ⟨line', hget, heq⟩ := hentry
        cases heq
        exact ⟨hget, (Nat.zero_add _).symm⟩
      subst hindex
      have hsplit' : lines.zipIdx = (done ++ [(line, done.length)]) ++ rest := by
        rw [hsplit, List.append_assoc, List.singleton_append]
      have hlength : (done ++ [(line, done.length)]).length = done.length + 1 := by simp
      refine ih (done ++ [(line, done.length)]) hsplit' _ ?_
      rw [hlength]
      obtain ⟨used, chains⟩ := state
      cases hused : isUsed used done.length with
      | true =>
        rw [chainSeed, if_pos hused]
        exact hskip _ used chains hused hstate
      | false =>
        obtain ⟨taken, used', t, htakes, hcases⟩ :=
          @chainSeed_cases F _ _ lines used chains line _ hused
        rcases hcases with ⟨rfl, heq⟩ | ⟨hends, hnone, heq⟩
        · rw [heq]
          exact hclosed _ line used chains taken used' hget hused hstate htakes
        · rw [heq]
          exact hopen _ line used chains taken used' t hget hused hstate htakes hends hnone
  exact ⟨_, hrun [] lines.zipIdx rfl _ hinitial⟩

end Seeds

end PinchNPrint.Mesh
