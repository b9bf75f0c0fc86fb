/-
The joins of the exact passes.

A walk that gets stuck has used every line at its end. So the ends of the open polylines
are all different, and only a polyline that was opened earlier can start where one
ends (`Apart`). The passes never change the `startTopo` and `endTopo` of a polyline, from
which it follows that they join a polyline at its start only, and that they close no
loop.
-/

import PinchNPrint.Mesh.Walks

namespace PinchNPrint.Mesh

open GCode (Sqrt)
open Region (Point2)

/-- The topologies an open polyline is said to start and to end at. -/
def OpenPolyline.label {F : Type} (polyline : OpenPolyline F) :
    EndpointTopology × EndpointTopology :=
  (polyline.startTopo, polyline.endTopo)

/-- The labels of the open polylines. -/
def Chains.labels {F : Type} (chains : Chains F) : List (EndpointTopology × EndpointTopology) :=
  chains.openPolylines.map OpenPolyline.label

/-- The ends differ, and what starts where another one ends comes before it. -/
def Apart (labels : List (EndpointTopology × EndpointTopology)) : Prop :=
  ∀ (i j : Nat) (p q : EndpointTopology × EndpointTopology),
    labels[i]? = some p → labels[j]? = some q → (p.2 = q.2 → i = j) ∧ (p.2 = q.1 → j < i)

section Update

variable {F : Type} {chains : Chains F}

theorem getElem?_update (index i : Nat) (f : OpenPolyline F → OpenPolyline F) :
    (chains.update index f).openPolylines[i]? =
      if index = i then chains.openPolylines[i]?.map f else chains.openPolylines[i]? := by
  rw [Chains.update, List.getElem?_modify]
  by_cases hi : index = i
  · simp [hi]
  · simp [hi]

theorem labels_update {index : Nat} {f : OpenPolyline F → OpenPolyline F}
    (hf : ∀ polyline, chains.openPolylines[index]? = some polyline →
      (f polyline).label = polyline.label) :
    (chains.update index f).labels = chains.labels := by
  refine List.ext_getElem? fun i => ?_
  rw [Chains.labels, Chains.labels, List.getElem?_map, List.getElem?_map, getElem?_update]
  split
  · rename_i hi
    subst hi
    cases hget : chains.openPolylines[index]? with
    | none => rfl
    | some polyline => exact congrArg some (hf polyline hget)
  · rfl

variable {polyline : OpenPolyline F}

theorem getElem?_labels {i : Nat} (h : chains.openPolylines[i]? = some polyline) :
    chains.labels[i]? = some polyline.label := by
  rw [Chains.labels, List.getElem?_map, h]
  rfl

/-- Mark the seed. -/
def Chains.mark (chains : Chains F) (seed : Nat) : Chains F :=
  chains.update seed fun polyline => { polyline with consumed := true }

/-- Put the seed back. -/
def Chains.putBack (chains : Chains F) (seed : Nat) : Chains F :=
  chains.update seed fun polyline => { polyline with consumed := false }

theorem labels_putBack (chains : Chains F) (seed : Nat) :
    (chains.putBack seed).labels = chains.labels :=
  labels_update fun _ _ => rfl

theorem labels_mark (chains : Chains F) (seed : Nat) : (chains.mark seed).labels = chains.labels :=
  labels_update fun _ _ => rfl

theorem length_of_labels {chains chains' : Chains F} (h : chains'.labels = chains.labels) :
    chains'.openPolylines.length = chains.openPolylines.length := by
  simpa [Chains.labels] using congrArg List.length h

theorem append_eq_some {other joined : OpenPolyline F} {isStart : Bool} {chord : Step} {length : F}
    (h : polyline.append other isStart chord length = some joined) :
    joined.label = polyline.label ∧ joined.points ≠ [] := by
  obtain ⟨tail, htail, rfl⟩ := Option.map_eq_some_iff.mp h
  refine ⟨rfl, ?_⟩
  have hne : polyline.points ≠ [] := by
    rintro hnil
    rw [hnil] at htail
    cases htail
  simp [hne]

/-- What stands at an index behind a join. -/
theorem getElem?_join {seed j : Nat} (hne : j ≠ seed) (joined : OpenPolyline F) (i : Nat) :
    (chains.join seed j joined).openPolylines[i]? =
      if i = j then chains.openPolylines[i]?.map fun other => { other.clear with consumed := true }
      else if i = seed then chains.openPolylines[i]?.map fun _ => joined
      else chains.openPolylines[i]? := by
  rw [Chains.join, getElem?_update, getElem?_update]
  by_cases hj : i = j
  · rw [if_pos hj.symm, if_pos hj, if_neg (by rw [hj]; exact hne.symm)]
  · rw [if_neg (Ne.symm hj), if_neg hj]
    simp only [eq_comm]

theorem labels_join {seed j : Nat} {joined : OpenPolyline F}
    (hseed : chains.openPolylines[seed]? = some polyline) (hjoined : joined.label = polyline.label)
    : (chains.join seed j joined).labels = chains.labels := by
  have hkept : (chains.update seed fun _ => joined).labels = chains.labels := by
    refine labels_update fun polyline' hget => ?_
    rw [hseed] at hget
    cases hget
    exact hjoined
  refine Eq.trans ?_ hkept
  exact labels_update (f := fun other => { other.clear with consumed := true }) fun _ _ => rfl

end Update

/-! ### One pass -/

section Pass

variable {F : Type} [Field F] [LinearOrder F]

/-- `Joins seed chains s chains' t`: at the seed, whose end is labelled `s`, polylines are
joined at their starts; the last one is labelled to end at `t`. -/
inductive Joins (seed : Nat) :
    Chains F → EndpointTopology → Chains F → EndpointTopology → Prop where
  | nil (chains t) : Joins seed chains t chains t
  | cons {chains s j polyline other joined chains' t} :
      chains.openPolylines[seed]? = some polyline → chains.openPolylines[j]? = some other →
      j ≠ seed → other.consumed = false → other.startTopo = s →
      polyline.append other true .joined (polyline.length + other.length) = some joined →
      Joins seed (chains.join seed j joined) other.endTopo chains' t →
      Joins seed chains s chains' t

/-- What the passes rely on: the labels, and that no polyline they read is empty. -/
structure Ready (chains : Chains F) : Prop where
  apart : Apart chains.labels
  filled : ∀ polyline ∈ chains.openPolylines, polyline.consumed = false → polyline.points ≠ []

/-- The state within a seed's loop: the seed is marked, and `curEnd` is the end of the seed or
of a polyline before it that is used up. -/
structure Seeded (seed : Nat) (chains : Chains F) (curEnd : EndpointTopology) : Prop where
  ready : Ready chains
  seedFilled : ∃ polyline, chains.openPolylines[seed]? = some polyline ∧
    polyline.consumed = true ∧ polyline.points ≠ []
  curEnd_eq : ∃ m polyline, chains.openPolylines[m]? = some polyline ∧ m ≤ seed ∧
    polyline.consumed = true ∧ polyline.endTopo = curEnd

variable {chains : Chains F} {seed : Nat}

theorem exactRound_cases {tryReversed : Bool} {curEnd : EndpointTopology}
    (h : Seeded seed chains curEnd) :
    (findExactMatch chains.openPolylines curEnd tryReversed seed = none ∧
      exactRound tryReversed seed chains curEnd = some (.done (chains.putBack seed))) ∨
    ∃ j polyline other joined, chains.openPolylines[seed]? = some polyline ∧
      chains.openPolylines[j]? = some other ∧ j ≠ seed ∧ other.consumed = false ∧
      other.startTopo = curEnd ∧
      polyline.append other true .joined (polyline.length + other.length) = some joined ∧
      exactRound tryReversed seed chains curEnd =
        some (.extended (chains.join seed j joined) other.endTopo) ∧
      Seeded seed (chains.join seed j joined) other.endTopo := by
  obtain ⟨polyline, hseed, hmarked, hpoints⟩ := h.seedFilled
  obtain ⟨m, last, hlast, hm, hused, rfl⟩ := h.curEnd_eq
  have hapart := h.ready.apart
  cases hmatch : findExactMatch chains.openPolylines last.endTopo tryReversed seed with
  | none => exact Or.inl ⟨rfl, by rw [exactRound, hmatch]; rfl⟩
  | some found =>
    obtain ⟨j, isStart⟩ := found
    obtain ⟨other, hj, hne, hopen, hmeets⟩ := findExactMatch_spec hmatch
    have hmj := hapart m j _ _ (getElem?_labels hlast) (getElem?_labels hj)
    rcases hmeets with ⟨rfl, hstart⟩ | ⟨_, _, hend⟩
    case inr =>
      -- Only the polyline itself ends where it does, and that one is used up.
      obtain rfl := hmj.1 hend.symm
      rw [hlast] at hj
      cases hj
      rw [hused] at hopen
      cases hopen
    case inl =>
      have hjm : j < m := hmj.2 hstart.symm
      have hjoin : ∃ joined, polyline.append other true .joined
          (polyline.length + other.length) = some joined := by
        rw [OpenPolyline.append, List.getLast?_eq_some_getLast hpoints]
        exact ⟨_, rfl⟩
      obtain ⟨joined, hjoined⟩ := hjoin
      obtain ⟨hlabel, hfilled⟩ := append_eq_some hjoined
      -- A loop would close at a polyline that comes behind the seed.
      have hstays : polyline.startTopo ≠ other.endTopo := fun hcloses => by
        have := (hapart j seed _ _ (getElem?_labels hj) (getElem?_labels hseed)).2 hcloses.symm
        omega
      refine Or.inr ⟨j, polyline, other, joined, hseed, hj, hne, hopen, hstart, hjoined, ?_, ?_⟩
      · rw [exactRound, hmatch]
        simp [hseed, hj, hjoined, OpenPolyline.freeEnd, hstays]
      · refine ⟨⟨(labels_join hseed hlabel).symm ▸ hapart, ?_⟩, ⟨joined, ?_, ?_, hfilled⟩,
          j, { other.clear with consumed := true }, ?_, by omega, rfl, rfl⟩
        · intro entry hentry hunused
          obtain ⟨i, hi⟩ := List.mem_iff_getElem?.mp hentry
          rw [getElem?_join hne] at hi
          split at hi
          · obtain ⟨_, _, rfl⟩ := Option.map_eq_some_iff.mp hi
            cases hunused
          · split at hi
            · obtain ⟨_, _, rfl⟩ := Option.map_eq_some_iff.mp hi
              exact hfilled
            · exact h.ready.filled entry (List.mem_of_getElem? hi) hunused
        · rw [getElem?_join hne, if_neg hne.symm, if_pos rfl, hseed]
          rfl
        · rw [append_consumed hjoined, hmarked]
        · rw [getElem?_join hne, if_pos rfl, hj]
          rfl

theorem exactLoop_joins {tryReversed : Bool} {seed : Nat} {chains : Chains F}
    {curEnd : EndpointTopology} (h : Seeded seed chains curEnd) :
    ∃ chains' curEnd', Joins seed chains curEnd chains' curEnd' ∧
      Seeded seed chains' curEnd' ∧
      findExactMatch chains'.openPolylines curEnd' tryReversed seed = none ∧
      exactLoop tryReversed seed chains curEnd = some (chains'.putBack seed) := by
  fun_induction exactLoop tryReversed seed chains curEnd with
  | case1 chains curEnd hround =>
    rcases exactRound_cases h with ⟨_, hdone⟩ | ⟨j, _, _, joined, _, _, _, _, _, _, hmore, _⟩
    · rw [hdone] at hround; cases hround
    · rw [hmore] at hround; cases hround
  | case2 chains curEnd chains' hround =>
    rcases exactRound_cases h with ⟨hnone, hdone⟩ | ⟨j, _, _, joined, _, _, _, _, _, _, hmore, _⟩
    · rw [hdone] at hround
      cases hround
      exact ⟨chains, curEnd, .nil _ _, h, hnone, rfl⟩
    · rw [hmore] at hround; cases hround
  | case3 chains curEnd chains' curEnd' hround ih =>
    rcases exactRound_cases h with ⟨_, hdone⟩ |
      ⟨j, polyline, other, joined, hseed, hj, hne, hopen, hstart, hjoined, hmore, hseeded⟩
    · rw [hdone] at hround; cases hround
    · rw [hmore] at hround
      cases hround
      obtain ⟨chains', curEnd', hjoins, hseeded', hnone, hloop⟩ := ih hseeded
      exact ⟨chains', curEnd', .cons hseed hj hne hopen hstart hjoined hjoins, hseeded', hnone, hloop⟩

omit [LinearOrder F] in
theorem Joins.labels {chains' : Chains F} {s t : EndpointTopology}
    (h : Joins seed chains s chains' t) : chains'.labels = chains.labels := by
  induction h with
  | nil => rfl
  | cons hseed _ _ _ _ hjoined _ ih =>
    exact ih.trans (labels_join hseed (append_eq_some hjoined).1)

section

omit [Field F] [LinearOrder F]

/-- Marking a seed that is not used up starts its loop. -/
theorem Ready.seeded {polyline : OpenPolyline F} (h : Ready chains)
    (hseed : chains.openPolylines[seed]? = some polyline) (hopen : polyline.consumed = false) :
    Seeded seed (chains.mark seed) polyline.endTopo := by
  have hmarked : (chains.mark seed).openPolylines[seed]? =
      some { polyline with consumed := true } := by
    rw [Chains.mark, getElem?_update, if_pos rfl, hseed]
    rfl
  refine ⟨⟨(labels_mark chains seed).symm ▸ h.apart, ?_⟩,
    ⟨_, hmarked, rfl, h.filled polyline (List.mem_of_getElem? hseed) hopen⟩,
    seed, _, hmarked, le_rfl, rfl, rfl⟩
  intro entry hentry hunused
  obtain ⟨i, hi⟩ := List.mem_iff_getElem?.mp hentry
  rw [Chains.mark, getElem?_update] at hi
  split at hi
  · obtain ⟨_, _, rfl⟩ := Option.map_eq_some_iff.mp hi
    cases hunused
  · exact h.filled entry (List.mem_of_getElem? hi) hunused

theorem Seeded.putBack {curEnd : EndpointTopology} (h : Seeded seed chains curEnd) :
    Ready (chains.putBack seed) := by
  refine ⟨(labels_putBack chains seed).symm ▸ h.ready.apart, ?_⟩
  intro entry hentry hunused
  obtain ⟨i, hi⟩ := List.mem_iff_getElem?.mp hentry
  rw [Chains.putBack, getElem?_update] at hi
  split at hi
  · rename_i hseed
    obtain ⟨polyline, hget, _, hpoints⟩ := h.seedFilled
    rw [← hseed, hget] at hi
    cases hi
    exact hpoints
  · exact h.ready.filled entry (List.mem_of_getElem? hi) hunused

end

section

omit [Field F]

theorem mem_sortedByLength {polylines : List (OpenPolyline F)} {i : Nat} :
    i ∈ sortedByLength polylines ↔
      ∃ polyline, polylines[i]? = some polyline ∧ polyline.consumed = false := by
  simp [sortedByLength, List.mem_zipIdx_iff_getElem?]

theorem nodup_sortedByLength (polylines : List (OpenPolyline F)) :
    (sortedByLength polylines).Nodup := by
  have hindices : (polylines.zipIdx.map (·.2)).Nodup := by
    rw [List.zipIdx_map_snd]
    exact List.nodup_range'
  have hfiltered : ((polylines.zipIdx.filter fun entry => !entry.1.consumed).map (·.2)).Nodup :=
    hindices.sublist (List.filter_sublist.map _)
  exact ((List.perm_insertionSort _ _).map _).nodup_iff.mpr hfiltered

theorem lt_of_mem_sortedByLength {polylines : List (OpenPolyline F)} {i : Nat}
    (h : i ∈ sortedByLength polylines) : i < polylines.length := by
  obtain ⟨_, hget, _⟩ := mem_sortedByLength.mp h
  exact (List.getElem?_eq_some_iff.mp hget).1

end

/-- An exact pass over the seeds comes to an end. What holds before it and is kept by the
joins at each seed holds behind it. -/
theorem exactPass_run (tryReversed : Bool) {P : List Nat → Chains F → Prop}
    (hskip : ∀ seed rest chains polyline, P (seed :: rest) chains →
      chains.openPolylines[seed]? = some polyline → polyline.consumed = true → P rest chains)
    (hjoin : ∀ seed rest chains polyline chains' curEnd', P (seed :: rest) chains →
      chains.openPolylines[seed]? = some polyline → polyline.consumed = false →
      Joins seed (chains.mark seed) polyline.endTopo chains' curEnd' →
      findExactMatch chains'.openPolylines curEnd' tryReversed seed = none →
      P rest (chains'.putBack seed))
    (seeds : List Nat) : ∀ chains : Chains F, Ready chains →
      (∀ seed ∈ seeds, seed < chains.openPolylines.length) → P seeds chains →
      ∃ chains', seeds.foldlM (forSeeds fun seed polyline chains =>
          exactLoop tryReversed seed chains polyline.endTopo) chains = some chains' ∧
        Ready chains' ∧ P [] chains' := by
  induction seeds with
  | nil => exact fun chains hready _ h => ⟨chains, rfl, hready, h⟩
  | cons seed rest ih =>
    intro chains hready hrange h
    obtain ⟨hlt, hrest⟩ := List.forall_mem_cons.mp hrange
    have hseed := List.getElem?_eq_getElem hlt
    set polyline := chains.openPolylines[seed]
    cases hused : polyline.consumed with
    | true =>
      obtain ⟨chains', hfold, hdone⟩ :=
        ih chains hready hrest (hskip seed rest chains polyline h hseed hused)
      exact ⟨chains', by simp [forSeeds, hseed, hused, hfold], hdone⟩
    | false =>
      obtain ⟨joined, curEnd', hjoins, hseeded, hnone, hloop⟩ :=
        @exactLoop_joins F _ _ tryReversed _ _ _ (hready.seeded hseed hused)
      have hlabels : (joined.putBack seed).labels = chains.labels :=
        (labels_putBack _ _).trans (hjoins.labels.trans (labels_mark _ _))
      obtain ⟨chains', hfold, hdone⟩ := ih (joined.putBack seed) hseeded.putBack
        (fun i hi => (hrest i hi).trans_eq (length_of_labels hlabels).symm)
        (hjoin seed rest chains polyline joined curEnd' h hseed hused hjoins hnone)
      refine ⟨chains', ?_, hdone⟩
      rw [Chains.mark] at hloop
      simp [forSeeds, hseed, hused, hloop, hfold]

end Pass

/-! ### The polylines that the walks leave open -/

section Open

variable {F : Type} [Field F] [Sqrt F] {lines : List IntersectionLine}
  {used used' : List Bool} {s t x : EndpointTopology}

theorem nextLine_eq_none_iff :
    nextLine lines used t = none ↔ ∀ index line, lines[index]? = some line →
      line.aTopology = t ∨ line.bTopology = t → isUsed used index = true := by
  constructor
  · exact fun h index line hget hend => isUsed_of_nextLine_eq_none h hget hend
  · intro h
    rw [nextLine, List.find?_eq_none]
    intro lineEnd hmem
    obtain ⟨hget, hnear⟩ := mem_byTopo.mp hmem
    have hend : lineEnd.line.aTopology = t ∨ lineEnd.line.bTopology = t := by
      rw [LineEnd.near_snd, IntersectionLine.entry] at hnear
      split at hnear
      · exact Or.inl hnear
      · exact Or.inr hnear
    simp [h _ _ hget hend]

variable {taken : List LineEnd} {index : Nat}

/-- What has no line left has none left later. -/
theorem Takes.exhausted (h : Takes lines used s taken used' t) (hx : nextLine lines used x = none) :
    nextLine lines used' x = none :=
  nextLine_eq_none_iff.mpr fun index line hget hend =>
    h.isUsed (nextLine_eq_none_iff.mp hx index line hget hend)

theorem exhausted_set (hx : nextLine lines used x = none) :
    nextLine lines (used.set index true) x = none :=
  nextLine_eq_none_iff.mpr fun i line hget hend => by
    rw [isUsed_set, nextLine_eq_none_iff.mp hx i line hget hend, Bool.true_or]

/-- No walk gets to a topology that has no line left. -/
theorem Takes.ne_of_exhausted (h : Takes lines used s taken used' t)
    (hx : nextLine lines used x = none) (hs : s ≠ x) : t ≠ x := by
  induction h with
  | nil => exact hs
  | @cons used s next taken used' t hnext _ ih =>
    obtain ⟨hget, _, hfree⟩ := nextLine_spec hnext
    refine ih (exhausted_set hx) fun hfar => ?_
    have hend : next.line.aTopology = x ∨ next.line.bTopology = x := by
      rw [LineEnd.far_snd, IntersectionLine.entry] at hfar
      split at hfar
      · exact Or.inl hfar
      · exact Or.inr hfar
    rw [nextLine_eq_none_iff.mp hx _ _ hget hend] at hfree
    cases hfree

/-- A polyline as a walk leaves it. -/
structure OpenPolyline.Walked (lines : List IntersectionLine) (polyline : OpenPolyline F) :
    Prop where
  unconsumed : polyline.consumed = false
  trail : Trail lines polyline.startTopo polyline.steps polyline.endTopo
  begins : ∃ index rest, polyline.steps = .line index true :: rest
  filled : polyline.points ≠ []

/-- What holds behind some walks. -/
structure Walked (lines : List IntersectionLine) (used : List Bool) (chains : Chains F) :
    Prop where
  opened : ∀ polyline ∈ chains.openPolylines, polyline.Walked lines
  exhausted : ∀ polyline ∈ chains.openPolylines, nextLine lines used polyline.endTopo = none
  apart : Apart chains.labels
  closed : ∀ chain ∈ chains.loops ++ chains.shortLoops, ∃ t, Trail lines t chain.steps t

/-- One more open polyline, which has lines left where no other one ends. -/
theorem Apart.concat {labels : List (EndpointTopology × EndpointTopology)}
    {label : EndpointTopology × EndpointTopology} (h : Apart labels) (hne : label.2 ≠ label.1)
    (hstart : ∀ p ∈ labels, p.2 ≠ label.1) (hend : ∀ p ∈ labels, p.2 ≠ label.2) :
    Apart (labels ++ [label]) := by
  intro i j p q hi hj
  rw [List.getElem?_append] at hi hj
  split at hi
  · rename_i hilt
    split at hj
    · exact h i j p q hi hj
    · rename_i hjge
      have hq := List.mem_singleton.mp (List.mem_of_getElem? hj)
      subst hq
      exact ⟨fun heq => absurd heq (hend p (List.mem_of_getElem? hi)),
        fun heq => absurd heq (hstart p (List.mem_of_getElem? hi))⟩
  · rename_i hige
    have hp := List.mem_singleton.mp (List.mem_of_getElem? hi)
    subst hp
    have hilt := (List.getElem?_eq_some_iff.mp hi).1
    rw [List.length_singleton] at hilt
    split at hj
    · exact ⟨fun heq => absurd heq.symm (hend q (List.mem_of_getElem? hj)), fun _ => by omega⟩
    · have hq := List.mem_singleton.mp (List.mem_of_getElem? hj)
      subst hq
      have hjlt := (List.getElem?_eq_some_iff.mp hj).1
      rw [List.length_singleton] at hjlt
      exact ⟨fun _ => by omega, fun heq => absurd heq hne⟩

section

omit [Field F] [Sqrt F]

/-- No exhausted topology is an end of a line that is free. -/
theorem ne_of_exhausted {line : IntersectionLine} (hx : nextLine lines used x = none)
    (hget : lines[index]? = some line) (hfree : isUsed used index = false) :
    x ≠ line.aTopology ∧ x ≠ line.bTopology := by
  have hused := nextLine_eq_none_iff.mp hx index line hget
  rw [hfree] at hused
  exact ⟨fun ha => absurd (hused (Or.inl ha.symm)) Bool.false_ne_true,
    fun hb => absurd (hused (Or.inr hb.symm)) Bool.false_ne_true⟩

/-- One more walk that gets stuck. -/
theorem Walked.open_walk {chains : Chains F} {line : IntersectionLine}
    (h : Walked lines used chains) (hget : lines[index]? = some line)
    (hfree : isUsed used index = false)
    (htakes : Takes lines (used.set index true) line.bTopology taken used' t)
    (hends : t ≠ line.aTopology) (hstuck : nextLine lines used' t = none) (points : List Point2)
    (hpoints : points ≠ []) (length : F) :
    Walked lines used' { chains with openPolylines := chains.openPolylines ++
      [⟨line.aTopology, t, points, length, false, .line index true :: taken.map LineEnd.step⟩] } where
  opened := List.forall_mem_append.mpr ⟨h.opened, List.forall_mem_singleton.mpr
    ⟨rfl, trail_seed hget htakes, ⟨index, _, rfl⟩, hpoints⟩⟩
  exhausted := List.forall_mem_append.mpr
    ⟨fun polyline hmem => htakes.exhausted (exhausted_set (h.exhausted polyline hmem)),
      List.forall_mem_singleton.mpr hstuck⟩
  apart := by
    have hothers : ∀ p ∈ chains.labels, p.2 ≠ line.aTopology ∧ p.2 ≠ t := by
      intro p hp
      obtain ⟨polyline, hmem, rfl⟩ := List.mem_map.mp hp
      have hx := h.exhausted polyline hmem
      obtain ⟨ha, hb⟩ := ne_of_exhausted hx hget hfree
      exact ⟨ha, (htakes.ne_of_exhausted (exhausted_set hx) hb.symm).symm⟩
    rw [Chains.labels, List.map_append]
    exact h.apart.concat hends (fun p hp => (hothers p hp).1) fun p hp => (hothers p hp).2
  closed := h.closed

end

/-- The polylines that the walks leave open. -/
theorem chainLines_walked (lines : List IntersectionLine) :
    ∃ used, Walked lines used (chainLinesByTriangleConnectivity lines : Chains F) := by
  refine chainLines_induction (P := fun _ used chains => Walked lines used chains) ?_ ?_ ?_ ?_
  · exact ⟨by simp, by simp, fun i j p q hi => by simp [Chains.labels] at hi, by simp⟩
  · exact fun _ _ _ _ h => h
  · intro index line used chains taken used' hget hfree h htakes
    refine ⟨?_, ?_, ?_, ?_⟩
    · rw [Chains.openPolylines_pushLoop]
      exact h.opened
    · rw [Chains.openPolylines_pushLoop]
      exact fun polyline hmem => htakes.exhausted (exhausted_set (h.exhausted polyline hmem))
    · rw [Chains.labels, Chains.openPolylines_pushLoop]
      exact h.apart
    · intro chain hchain
      rcases Chains.mem_pushLoop.mp hchain with hchain | rfl
      · exact h.closed chain hchain
      · exact ⟨_, trail_seed hget htakes⟩
  · intro index line used chains taken used' t hget hfree h htakes hends hstuck
    exact h.open_walk hget hfree htakes hends hstuck _ (List.cons_ne_nil _ _) _

omit [Field F] [Sqrt F] in
theorem Walked.ready {chains : Chains F} (h : Walked lines used chains) : Ready chains :=
  ⟨h.apart, fun polyline hmem _ => (h.opened polyline hmem).filled⟩

end Open

end PinchNPrint.Mesh
