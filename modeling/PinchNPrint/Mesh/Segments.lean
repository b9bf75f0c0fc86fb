/-
Loop chaining neither duplicates nor invents segments.

`Path` says what the segments of a chain are: the input lines its steps run along, and
the chords between them, of which those of the gap passes are no longer than the gap.
Every operation of the passes keeps the paths and the lines they use: joining two
polylines, closing one, putting one back.
-/

import PinchNPrint.Mesh.ExactJoins

namespace PinchNPrint.Mesh

open GCode (Sqrt)
open Region (Point2)

/-! ### Paths -/

/-- The square of the distance, as it is. -/
def squaredDistance (p q : Point2) : ℤ :=
  (p.x - q.x) ^ 2 + (p.y - q.y) ^ 2

/-- The step leads from `p` to `q`: along its line, or over a chord. -/
def Step.Leads (lines : List IntersectionLine) (maxGap : ℤ) (p q : Point2) : Step → Prop
  | .line index forward => ∃ line, lines[index]? = some line ∧
      if forward then line.a = p ∧ line.b = q else line.b = p ∧ line.a = q
  | .joined => True
  | .bridged => squaredDistance p q ≤ maxGap ^ 2
  | .closing => squaredDistance p q ≤ maxGap ^ 2

/-- `Path lines maxGap points steps`: the steps lead from each of the points to the next. -/
inductive Path (lines : List IntersectionLine) (maxGap : ℤ) : List Point2 → List Step → Prop where
  | single (p) : Path lines maxGap [p] []
  | cons {p q rest step steps} : step.Leads lines maxGap p q →
      Path lines maxGap (q :: rest) steps → Path lines maxGap (p :: q :: rest) (step :: steps)

/-- The steps lead through the points and back to the first one. -/
def ClosedPath (lines : List IntersectionLine) (maxGap : ℤ) (chain : ClosedChain) : Prop :=
  ∃ p rest, chain.points = p :: rest ∧ Path lines maxGap (p :: rest ++ [p]) chain.steps

section Paths

variable {lines : List IntersectionLine} {maxGap : ℤ} {points : List Point2} {steps : List Step}
  {step : Step} {p q : Point2}

theorem squaredDistance_comm (p q : Point2) : squaredDistance p q = squaredDistance q p := by
  simp only [squaredDistance]
  ring

theorem Step.Leads.flip (h : step.Leads lines maxGap p q) : step.flip.Leads lines maxGap q p := by
  cases step with
  | line index forward =>
    obtain ⟨line, hget, hends⟩ := h
    refine ⟨line, hget, ?_⟩
    cases forward with
    | true => exact ⟨hends.2, hends.1⟩
    | false => exact ⟨hends.2, hends.1⟩
  | joined => trivial
  | bridged => exact (squaredDistance_comm q p).trans_le h
  | closing => exact (squaredDistance_comm q p).trans_le h

theorem Path.ne_nil (h : Path lines maxGap points steps) : points ≠ [] := by
  cases h <;> simp

/-- Two paths one behind the other. -/
theorem Path.append {before rest : List Point2} {steps' : List Step}
    (h : Path lines maxGap (before ++ [p]) steps) (h' : Path lines maxGap (p :: rest) steps') :
    Path lines maxGap (before ++ p :: rest) (steps ++ steps') := by
  induction before generalizing steps with
  | nil =>
    cases h
    exact h'
  | cons b before ih =>
    cases before with
    | nil =>
      obtain _ | ⟨hleads, hpath⟩ := h
      cases hpath
      exact .cons hleads h'
    | cons b' before =>
      obtain _ | ⟨hleads, hpath⟩ := h
      exact .cons hleads (ih hpath)

theorem Path.concat {before : List Point2} (h : Path lines maxGap (before ++ [p]) steps)
    (hleads : step.Leads lines maxGap p q) :
    Path lines maxGap (before ++ [p, q]) (steps ++ [step]) :=
  h.append (.cons hleads (.single q))

theorem reverseSteps_cons (step : Step) (steps : List Step) :
    reverseSteps (step :: steps) = reverseSteps steps ++ [step.flip] := by
  simp [reverseSteps]

/-- The path the other way. -/
theorem Path.reverse (h : Path lines maxGap points steps) :
    Path lines maxGap points.reverse (reverseSteps steps) := by
  induction h with
  | single p => exact .single p
  | @cons p q rest step steps hleads _ ih =>
    rw [List.reverse_cons] at ih
    rw [List.reverse_cons, List.reverse_cons, List.append_assoc, reverseSteps_cons]
    exact ih.concat hleads.flip

theorem lineUses_reverseSteps (steps : List Step) :
    lineUses (reverseSteps steps) = lineUses steps := by
  induction steps with
  | nil => rfl
  | cons step steps ih =>
    have hflip : lineUses [step.flip] = lineUses [step] := by cases step <;> rfl
    rw [reverseSteps_cons, lineUses_append, ih, hflip, add_comm, ← lineUses_append]
    rfl

/-- A path that ends where it starts is closed without its last point. -/
theorem Path.closedPath_dropLast (h : Path lines maxGap points steps) (hhead : points.head? = some p)
    (hlast : points.getLast? = some p) (hsteps : steps ≠ []) :
    ClosedPath lines maxGap ⟨points.dropLast, steps⟩ := by
  obtain _ | ⟨hleads, hpath⟩ := h
  · exact absurd rfl hsteps
  · rename_i q rest step steps
    cases hhead
    refine ⟨p, (q :: rest).dropLast, rfl, ?_⟩
    have hjoin : p :: (q :: rest).dropLast ++ [p] = p :: q :: rest := by
      have hlast' : (q :: rest).getLast (List.cons_ne_nil _ _) = p := by
        rw [List.getLast?_cons_cons, List.getLast?_eq_some_getLast (List.cons_ne_nil _ _)] at hlast
        exact Option.some.inj hlast
      rw [List.cons_append, ← hlast']
      exact congrArg _ (List.dropLast_append_getLast _)
    rw [hjoin]
    exact .cons hleads hpath

/-- A chord back to the start closes a path. -/
theorem Path.closedPath_chord (h : Path lines maxGap points steps) (hhead : points.head? = some p)
    (hlast : points.getLast? = some q) (hleads : step.Leads lines maxGap q p) :
    ClosedPath lines maxGap ⟨points, steps ++ [step]⟩ := by
  obtain ⟨before, rfl⟩ := List.getLast?_eq_some_iff.mp hlast
  have hclosed := h.concat hleads
  cases hpoints : before ++ [q] with
  | nil => simp at hpoints
  | cons first rest =>
    rw [hpoints] at hhead
    cases hhead
    refine ⟨p, rest, rfl, ?_⟩
    rw [← hpoints, List.append_assoc]
    exact hclosed

/-- The closed path the other way begins at its last point. -/
theorem ClosedPath.reverse {chain : ClosedChain} (h : ClosedPath lines maxGap chain) :
    ClosedPath lines maxGap chain.reverse := by
  obtain ⟨points, steps⟩ := chain
  obtain ⟨p, rest, rfl, hpath⟩ := h
  have hreversed := hpath.reverse
  rw [List.reverse_append, List.reverse_singleton, List.singleton_append] at hreversed
  cases hpoints : (p :: rest).reverse with
  | nil => simp at hpoints
  | cons q tl =>
    rw [hpoints] at hreversed
    refine ⟨q, tl, hpoints, ?_⟩
    cases hsteps : reverseSteps steps with
    | nil =>
      rw [hsteps] at hreversed
      cases hreversed
    | cons step steps' =>
      rw [hsteps] at hreversed
      obtain _ | ⟨hleads, hrest⟩ := hreversed
      rw [ClosedChain.reverse, hsteps, List.rotate_cons_succ, List.rotate_zero, ← hpoints,
        List.reverse_cons, List.append_assoc]
      rw [← hpoints, List.reverse_cons] at hrest
      exact hrest.concat hleads

end Paths

/-! ### Lines with consistent ends -/

/-- The ends of all lines. -/
def endpoints (lines : List IntersectionLine) : List (Point2 × EndpointTopology) :=
  lines.flatMap fun line => [(line.a, line.aTopology), (line.b, line.bTopology)]

/-- Equal topologies carry equal points. -/
def Consistent (lines : List IntersectionLine) : Prop :=
  ∀ e ∈ endpoints lines, ∀ e' ∈ endpoints lines, e.2 = e'.2 → e.1 = e'.1

/-- No squared distance between two ends overflows. -/
def InRange (lines : List IntersectionLine) : Prop :=
  ∀ e ∈ endpoints lines, ∀ e' ∈ endpoints lines, squaredDistance e.1 e'.1 < 2 ^ 63

section Ends

variable {lines : List IntersectionLine} {maxGap : ℤ} {used used' : List Bool}
  {s t : EndpointTopology}

theorem mem_endpoints_a {index : Nat} {line : IntersectionLine} (h : lines[index]? = some line) :
    (line.a, line.aTopology) ∈ endpoints lines :=
  List.mem_flatMap.mpr ⟨line, List.mem_of_getElem? h, List.mem_cons_self⟩

theorem mem_endpoints_b {index : Nat} {line : IntersectionLine} (h : lines[index]? = some line) :
    (line.b, line.bTopology) ∈ endpoints lines :=
  List.mem_flatMap.mpr ⟨line, List.mem_of_getElem? h, by simp⟩

theorem LineEnd.near_mem {lineEnd : LineEnd} (h : lines[lineEnd.index]? = some lineEnd.line) :
    lineEnd.near ∈ endpoints lines := by
  rw [LineEnd.near]
  split
  · exact mem_endpoints_a h
  · exact mem_endpoints_b h

theorem LineEnd.far_mem {lineEnd : LineEnd} (h : lines[lineEnd.index]? = some lineEnd.line) :
    lineEnd.far ∈ endpoints lines := by
  rw [LineEnd.far]
  split
  · exact mem_endpoints_b h
  · exact mem_endpoints_a h

theorem LineEnd.leads {lineEnd : LineEnd} (h : lines[lineEnd.index]? = some lineEnd.line) :
    lineEnd.step.Leads lines maxGap lineEnd.near.1 lineEnd.far.1 := by
  refine ⟨lineEnd.line, h, ?_⟩
  rw [LineEnd.near, LineEnd.far]
  split
  · exact ⟨rfl, rfl⟩
  · exact ⟨rfl, rfl⟩

/-- A walk that is at the point of its topology is a path, and stays at such a point. -/
theorem Takes.path {taken : List LineEnd} (h : Takes lines used s taken used' t)
    (hlines : Consistent lines) (maxGap : ℤ) {p : Point2} (hp : (p, s) ∈ endpoints lines) :
    Path lines maxGap (p :: taken.map (·.far.1)) (taken.map LineEnd.step) ∧
      (∀ q ∈ p :: taken.map (·.far.1), q ∈ (endpoints lines).map Prod.fst) ∧
      ∃ q, (p :: taken.map (·.far.1)).getLast? = some q ∧ (q, t) ∈ endpoints lines := by
  induction h generalizing p with
  | nil used t =>
    exact ⟨.single p, by simpa using ⟨t, hp⟩, p, rfl, hp⟩
  | @cons used s next taken used' t hnext _ ih =>
    obtain ⟨hget, hnear, _⟩ := nextLine_spec hnext
    obtain ⟨hpath, hends, q, hlast, hq⟩ := ih (LineEnd.far_mem hget)
    have hmeets : p = next.near.1 :=
      hlines (p, s) hp next.near (LineEnd.near_mem hget) hnear.symm
    refine ⟨.cons (hmeets ▸ LineEnd.leads hget) hpath, ?_, q, ?_, hq⟩
    · exact List.forall_mem_cons.mpr ⟨List.mem_map.mpr ⟨(p, s), hp, rfl⟩, hends⟩
    · rw [List.map_cons, List.getLast?_cons_cons]
      exact hlast

end Ends

/-! ### What the passes keep -/

/-- A polyline as the passes find it. -/
structure OpenPolyline.Strung {F : Type} (lines : List IntersectionLine) (maxGap : ℤ)
    (polyline : OpenPolyline F) : Prop where
  path : Path lines maxGap polyline.points polyline.steps
  ends : ∀ p ∈ polyline.points, p ∈ (endpoints lines).map Prod.fst
  joined : polyline.steps ≠ []

/-- A polyline that is used up. -/
def OpenPolyline.Cleared {F : Type} (polyline : OpenPolyline F) : Prop :=
  polyline.points = [] ∧ polyline.steps = []

/-- Every line is used exactly once by the loops, the open polylines and the chains dropped for
having fewer than three points. -/
structure Conserves {F : Type} (lines : List IntersectionLine) (maxGap : ℤ) (chains : Chains F) :
    Prop where
  uses : chains.lineUses = Multiset.range lines.length
  loops : ∀ chain ∈ chains.loops, 3 ≤ chain.points.length ∧ ClosedPath lines maxGap chain
  shortLoops : ∀ chain ∈ chains.shortLoops,
    chain.points.length < 3 ∧ ClosedPath lines maxGap chain
  opened : ∀ polyline ∈ chains.openPolylines, polyline.consumed = false →
    polyline.Strung lines maxGap
  cleared : ∀ polyline ∈ chains.openPolylines, polyline.consumed = true → polyline.Cleared

/-- The same within the loop of a seed, which is marked but not cleared. -/
structure ConservesAt {F : Type} (lines : List IntersectionLine) (maxGap : ℤ) (seed : Nat)
    (chains : Chains F) : Prop where
  uses : chains.lineUses = Multiset.range lines.length
  loops : ∀ chain ∈ chains.loops, 3 ≤ chain.points.length ∧ ClosedPath lines maxGap chain
  shortLoops : ∀ chain ∈ chains.shortLoops,
    chain.points.length < 3 ∧ ClosedPath lines maxGap chain
  atSeed : ∃ polyline, chains.openPolylines[seed]? = some polyline ∧
    polyline.consumed = true ∧ polyline.Strung lines maxGap
  opened : ∀ (i : Nat) (polyline : OpenPolyline F), chains.openPolylines[i]? = some polyline →
    i ≠ seed → polyline.consumed = false → polyline.Strung lines maxGap
  cleared : ∀ (i : Nat) (polyline : OpenPolyline F), chains.openPolylines[i]? = some polyline →
    i ≠ seed → polyline.consumed = true → polyline.Cleared

section Operations

variable {F : Type} {lines : List IntersectionLine} {maxGap : ℤ} {seed j : Nat}
  {chains : Chains F} {polyline other joined : OpenPolyline F}

/-- A change of one polyline changes the lines used by what it changes there. -/
theorem lineUses_update (f : OpenPolyline F → OpenPolyline F)
    (hget : chains.openPolylines[seed]? = some polyline) :
    (chains.update seed f).lineUses + lineUses polyline.steps =
      chains.lineUses + lineUses (f polyline).steps := by
  have hsum : ∀ (polylines : List (OpenPolyline F)) (i : Nat), polylines[i]? = some polyline →
      ((polylines.modify i f).map fun polyline => lineUses polyline.steps).sum +
          lineUses polyline.steps =
        (polylines.map fun polyline => lineUses polyline.steps).sum +
          lineUses (f polyline).steps := by
    intro polylines
    induction polylines with
    | nil => intro i hi; cases hi
    | cons first polylines ih =>
      intro i hi
      cases i with
      | zero =>
        cases hi
        simp only [List.modify_zero_cons, List.map_cons, List.sum_cons]
        abel
      | succ i =>
        simp only [List.modify_succ_cons, List.map_cons, List.sum_cons, add_assoc]
        rw [ih i hi]
  rw [Chains.lineUses, Chains.lineUses, Chains.update, add_assoc, hsum _ _ hget, ← add_assoc]

/-- A change that keeps the steps keeps the lines used. -/
theorem lineUses_update_of_steps (f : OpenPolyline F → OpenPolyline F)
    (hf : ∀ polyline, (f polyline).steps = polyline.steps) :
    (chains.update seed f).lineUses = chains.lineUses := by
  cases hget : chains.openPolylines[seed]? with
  | none =>
    rw [Chains.update, List.modify_eq_self (List.getElem?_eq_none_iff.mp hget)]
  | some polyline =>
    have hsum := lineUses_update f hget
    rw [hf polyline] at hsum
    exact add_right_cancel hsum

/-- The two polylines one behind the other, with a chord between them if they do not meet. -/
theorem OpenPolyline.Strung.append {isStart : Bool} {chord : Step} {length : F}
    (h : polyline.Strung lines maxGap) (h' : other.Strung lines maxGap)
    (hchord : lineUses [chord] = 0)
    (hleads : ∀ tail first, polyline.points.getLast? = some tail →
      (if isStart then other.points.head? else other.points.getLast?) = some first →
      chord.Leads lines maxGap tail first)
    (hjoined : polyline.append other isStart chord length = some joined) :
    joined.Strung lines maxGap ∧
      lineUses joined.steps = lineUses polyline.steps + lineUses other.steps := by
  obtain ⟨tail, htail, rfl⟩ := Option.map_eq_some_iff.mp hjoined
  obtain ⟨before, hbefore⟩ := List.getLast?_eq_some_iff.mp htail
  -- The other polyline, in the direction it is joined in.
  obtain ⟨pts, steps, hpts, hsteps, hpath, hends, huses, hhead⟩ :
      ∃ pts steps, pts = (if isStart then other.points else other.points.reverse) ∧
        steps = (if isStart then other.steps else reverseSteps other.steps) ∧
        Path lines maxGap pts steps ∧ (∀ p ∈ pts, p ∈ (endpoints lines).map Prod.fst) ∧
        lineUses steps = lineUses other.steps ∧
        pts.head? = if isStart then other.points.head? else other.points.getLast? := by
    cases isStart with
    | true => exact ⟨_, _, rfl, rfl, h'.path, h'.ends, rfl, rfl⟩
    | false =>
      exact ⟨_, _, rfl, rfl, h'.path.reverse, fun p hp => h'.ends p (List.mem_reverse.mp hp),
        lineUses_reverseSteps _, by simp⟩
  simp only [← hpts, ← hsteps]
  cases hfirst : pts with
  | nil => exact absurd hfirst hpath.ne_nil
  | cons first rest =>
    rw [hfirst] at hpath hends hhead
    have hne : polyline.steps ≠ [] := h.joined
    have hpolyline := h.path
    rw [hbefore] at hpolyline
    by_cases hskip : first = tail
    case pos =>
      subst hskip
      simp only [List.head?_cons, decide_true, if_true, List.tail_cons]
      refine ⟨⟨?_, List.forall_mem_append.mpr ⟨h.ends, (List.forall_mem_cons.mp hends).2⟩,
        by simp [hne]⟩, by rw [lineUses_append, huses]⟩
      rw [hbefore, List.append_assoc]
      exact hpolyline.append hpath
    case neg =>
      have hdiffers : ¬ some first = some tail := fun heq => hskip (Option.some.inj heq)
      simp only [List.head?_cons, hdiffers, decide_false, Bool.false_eq_true, if_false]
      have hlink := hleads tail first htail hhead.symm
      refine ⟨⟨?_, List.forall_mem_append.mpr ⟨h.ends, hends⟩, by simp [hne]⟩, ?_⟩
      · rw [hbefore, List.append_assoc]
        exact hpolyline.append (.cons hlink hpath)
      · have hcons : lineUses (chord :: steps) = lineUses [chord] + lineUses steps :=
          lineUses_append [chord] steps
        rw [lineUses_append, hcons, hchord, zero_add, huses]

theorem length_update (chains : Chains F) (i : Nat) (f : OpenPolyline F → OpenPolyline F) :
    (chains.update i f).openPolylines.length = chains.openPolylines.length :=
  List.length_modify _ _ _

theorem length_join (chains : Chains F) (seed j : Nat) (joined : OpenPolyline F) :
    (chains.join seed j joined).openPolylines.length = chains.openPolylines.length :=
  (length_update _ _ _).trans (length_update _ _ _)

theorem length_close [Field F] [LinearOrder F] (chains : Chains F) (seed : Nat)
    (chain : ClosedChain) (orient : Bool) :
    (chains.close seed chain orient).openPolylines.length = chains.openPolylines.length := by
  rw [Chains.close, length_update, Chains.openPolylines_pushLoop]

theorem loops_pushLoop {pushed : ClosedChain}
    (h : ∀ chain ∈ chains.loops, 3 ≤ chain.points.length ∧ ClosedPath lines maxGap chain)
    (hpushed : ClosedPath lines maxGap pushed) :
    ∀ chain ∈ (chains.pushLoop pushed).loops,
      3 ≤ chain.points.length ∧ ClosedPath lines maxGap chain := by
  rw [Chains.pushLoop]
  split
  · rename_i hlength
    exact List.forall_mem_append.mpr ⟨h, List.forall_mem_singleton.mpr ⟨hlength, hpushed⟩⟩
  · exact h

theorem shortLoops_pushLoop {pushed : ClosedChain}
    (h : ∀ chain ∈ chains.shortLoops, chain.points.length < 3 ∧ ClosedPath lines maxGap chain)
    (hpushed : ClosedPath lines maxGap pushed) :
    ∀ chain ∈ (chains.pushLoop pushed).shortLoops,
      chain.points.length < 3 ∧ ClosedPath lines maxGap chain := by
  rw [Chains.pushLoop]
  split
  · exact h
  · rename_i hlength
    exact List.forall_mem_append.mpr
      ⟨h, List.forall_mem_singleton.mpr ⟨not_le.mp hlength, hpushed⟩⟩

theorem ConservesAt.join (h : ConservesAt lines maxGap seed chains)
    (hseed : chains.openPolylines[seed]? = some polyline)
    (hj : chains.openPolylines[j]? = some other) (hne : j ≠ seed)
    (hmarked : joined.consumed = true) (hstrung : joined.Strung lines maxGap)
    (huses : lineUses joined.steps = lineUses polyline.steps + lineUses other.steps) :
    ConservesAt lines maxGap seed (chains.join seed j joined) where
  uses := by
    have hextend := lineUses_update (fun _ => joined) hseed
    have hj' : (chains.update seed fun _ => joined).openPolylines[j]? = some other := by
      rw [getElem?_update, if_neg hne.symm, hj]
    have hclear := lineUses_update (fun other => { other.clear with consumed := true }) hj'
    rw [huses, ← add_assoc] at hextend
    have hkept : (chains.join seed j joined).lineUses + lineUses other.steps +
        lineUses polyline.steps = chains.lineUses + lineUses other.steps +
          lineUses polyline.steps := by
      rw [Chains.join, hclear, OpenPolyline.clear, lineUses_nil, add_zero, hextend]
      abel
    rw [add_right_cancel (add_right_cancel hkept), h.uses]
  loops := h.loops
  shortLoops := h.shortLoops
  atSeed := by
    refine ⟨joined, ?_, hmarked, hstrung⟩
    rw [getElem?_join hne, if_neg hne.symm, if_pos rfl, hseed]
    rfl
  opened i p hi hi' hopen := by
    rw [getElem?_join hne] at hi
    split at hi
    · obtain ⟨_, _, rfl⟩ := Option.map_eq_some_iff.mp hi
      cases hopen
    · exact h.opened i p hi hi' hopen
  cleared i p hi hi' hused := by
    rw [getElem?_join hne] at hi
    split at hi
    · obtain ⟨_, _, rfl⟩ := Option.map_eq_some_iff.mp hi
      exact ⟨rfl, rfl⟩
    · exact h.cleared i p hi hi' hused

theorem Conserves.mark (h : Conserves lines maxGap chains)
    (hseed : chains.openPolylines[seed]? = some polyline) (hopen : polyline.consumed = false) :
    ConservesAt lines maxGap seed (chains.mark seed) where
  uses := (lineUses_update_of_steps (fun polyline => { polyline with consumed := true })
    fun _ => rfl).trans h.uses
  loops := h.loops
  shortLoops := h.shortLoops
  atSeed := by
    have hstrung := h.opened polyline (List.mem_of_getElem? hseed) hopen
    refine ⟨{ polyline with consumed := true }, ?_, rfl, ⟨hstrung.path, hstrung.ends, hstrung.joined⟩⟩
    rw [Chains.mark, getElem?_update, if_pos rfl, hseed]
    rfl
  opened i p hi hi' := by
    rw [Chains.mark, getElem?_update, if_neg hi'.symm] at hi
    exact h.opened p (List.mem_of_getElem? hi)
  cleared i p hi hi' := by
    rw [Chains.mark, getElem?_update, if_neg hi'.symm] at hi
    exact h.cleared p (List.mem_of_getElem? hi)

theorem ConservesAt.putBack (h : ConservesAt lines maxGap seed chains) :
    Conserves lines maxGap (chains.putBack seed) where
  uses := (lineUses_update_of_steps (fun polyline => { polyline with consumed := false })
    fun _ => rfl).trans h.uses
  loops := h.loops
  shortLoops := h.shortLoops
  opened p hp hopen := by
    obtain ⟨i, hi⟩ := List.mem_iff_getElem?.mp hp
    rw [Chains.putBack, getElem?_update] at hi
    split at hi
    · rename_i heq
      obtain ⟨polyline, hseed, _, hstrung⟩ := h.atSeed
      rw [← heq, hseed] at hi
      cases hi
      exact ⟨hstrung.path, hstrung.ends, hstrung.joined⟩
    · rename_i hne
      exact h.opened i p hi (Ne.symm hne) hopen
  cleared p hp hused := by
    obtain ⟨i, hi⟩ := List.mem_iff_getElem?.mp hp
    rw [Chains.putBack, getElem?_update] at hi
    split at hi
    · obtain ⟨_, _, rfl⟩ := Option.map_eq_some_iff.mp hi
      cases hused
    · rename_i hne
      exact h.cleared i p hi (Ne.symm hne) hused

theorem ConservesAt.close [Field F] [LinearOrder F] {chain : ClosedChain} {orient : Bool}
    (h : ConservesAt lines maxGap seed chains)
    (hseed : chains.openPolylines[seed]? = some polyline)
    (hclosed : ClosedPath lines maxGap chain)
    (huses : lineUses chain.steps = lineUses polyline.steps) :
    Conserves lines maxGap (chains.close seed chain orient) := by
  -- The chain as it is pushed, turned round or not.
  obtain ⟨pushed, hpushed, hpath, hlines⟩ : ∃ pushed,
      chains.close seed chain orient = (chains.pushLoop pushed).update seed OpenPolyline.clear ∧
      ClosedPath lines maxGap pushed ∧ lineUses pushed.steps = lineUses polyline.steps := by
    rw [Chains.close]
    split
    · refine ⟨chain.reverse, rfl, hclosed.reverse, ?_⟩
      have hrotate : lineUses ((reverseSteps chain.steps).rotate 1) =
          lineUses (reverseSteps chain.steps) :=
        Multiset.coe_eq_coe.mpr ((List.rotate_perm _ 1).filterMap _)
      rw [ClosedChain.reverse, hrotate, lineUses_reverseSteps, huses]
    · exact ⟨chain, rfl, hclosed, huses⟩
  have hseed' : (chains.pushLoop pushed).openPolylines[seed]? = some polyline := by
    rw [Chains.openPolylines_pushLoop, hseed]
  rw [hpushed]
  refine ⟨?_, ?_, ?_, fun p hp hopen => ?_, fun p hp hused => ?_⟩
  · have hclear := lineUses_update OpenPolyline.clear hseed'
    rw [Chains.lineUses_pushLoop, hlines, OpenPolyline.clear, lineUses_nil, add_zero,
      add_comm] at hclear
    rw [add_left_cancel hclear, h.uses]
  · exact loops_pushLoop h.loops hpath
  · exact shortLoops_pushLoop h.shortLoops hpath
  · obtain ⟨i, hi⟩ := List.mem_iff_getElem?.mp hp
    rw [getElem?_update, Chains.openPolylines_pushLoop] at hi
    split at hi
    · rename_i heq
      obtain ⟨marked, hmarked, hused, _⟩ := h.atSeed
      rw [← heq, hmarked] at hi
      cases hi
      rw [OpenPolyline.clear, hused] at hopen
      cases hopen
    · rename_i hne
      exact h.opened i p hi (Ne.symm hne) hopen
  · obtain ⟨i, hi⟩ := List.mem_iff_getElem?.mp hp
    rw [getElem?_update, Chains.openPolylines_pushLoop] at hi
    split at hi
    · obtain ⟨_, _, rfl⟩ := Option.map_eq_some_iff.mp hi
      exact ⟨rfl, rfl⟩
    · rename_i hne
      exact h.cleared i p hi (Ne.symm hne) hused

end Operations

/-! ### The gap passes -/

section Gaps

variable {F : Type} [Field F] [LinearOrder F] [Sqrt F] {lines : List IntersectionLine}
  {maxGap : ℤ} {seed : Nat} {chains : Chains F} {p q : Point2}

theorem squaredDistance_nonneg (p q : Point2) : 0 ≤ squaredDistance p q := by
  rw [squaredDistance]
  positivity

theorem eq_of_squaredDistance_eq_zero (h : squaredDistance p q = 0) : p = q := by
  rw [squaredDistance] at h
  have hx : (p.x - q.x) ^ 2 = 0 := by nlinarith [sq_nonneg (p.x - q.x), sq_nonneg (p.y - q.y)]
  have hy : (p.y - q.y) ^ 2 = 0 := by nlinarith [sq_nonneg (p.x - q.x), sq_nonneg (p.y - q.y)]
  obtain ⟨px, py⟩ := p
  obtain ⟨qx, qy⟩ := q
  simp only [pow_eq_zero_iff, ne_eq, OfNat.ofNat_ne_zero, not_false_iff, sub_eq_zero] at hx hy
  rw [hx, hy]

/-- Between ends in range the squared distance does not wrap. -/
theorem distance2_eq (hrange : InRange lines) (hp : p ∈ (endpoints lines).map Prod.fst)
    (hq : q ∈ (endpoints lines).map Prod.fst) : distance2 p q = squaredDistance p q := by
  obtain ⟨e, he, rfl⟩ := List.mem_map.mp hp
  obtain ⟨e', he', rfl⟩ := List.mem_map.mp hq
  have hlt := hrange e he e' he'
  have hnonneg := squaredDistance_nonneg e.1 e'.1
  rw [distance2, wrapI64, ← squaredDistance]
  exact Int.bmod_eq_of_le (by omega) (by omega)

theorem near_of_closesLoop {points : List Point2} {closing2 : ℤ} {next : Option (Nat × Bool × ℤ)}
    (h : closesLoop (F := F) maxGap points closing2 next = true) :
    closing2 < wrapI64 (maxGap * maxGap) := by
  cases next with
  | none => exact of_decide_eq_true h
  | some nearest =>
    simp only [closesLoop] at h
    split at h
    · rename_i hnear
      exact of_decide_eq_true hnear.1
    · exact of_decide_eq_true h

/-- One round closes the seed, puts it back, or joins a polyline to it. -/
theorem gapRound_cases (hrange : InRange lines) (hgap : wrapI64 (maxGap * maxGap) = maxGap ^ 2)
    (h : ConservesAt lines maxGap seed chains) (tryReversed : Bool) (nJoined : Nat) :
    (∃ chains', gapRound maxGap tryReversed seed chains nJoined = some (.done chains') ∧
      Conserves lines maxGap chains' ∧
      chains'.openPolylines.length = chains.openPolylines.length) ∨
    ∃ chains', gapRound maxGap tryReversed seed chains nJoined =
        some (.extended chains' (nJoined + 1)) ∧ ConservesAt lines maxGap seed chains' ∧
      chains'.openPolylines.length = chains.openPolylines.length := by
  obtain ⟨polyline, hseed, hmarked, hstrung⟩ := h.atSeed
  have hne := hstrung.path.ne_nil
  have htail := List.getLast?_eq_some_getLast hne
  have hhead := List.head?_eq_some_head hne
  set tail := polyline.points.getLast hne
  set head := polyline.points.head hne
  have hclosing2 : distance2 tail head = squaredDistance tail head :=
    distance2_eq hrange (hstrung.ends _ (List.getLast_mem hne)) (hstrung.ends _ (List.head_mem hne))
  simp only [gapRound, hseed, htail, hhead, Option.bind_eq_bind, Option.bind_some]
  cases hcloses : closesLoop (F := F) maxGap polyline.points (distance2 tail head)
    (findNearestEnd chains.openPolylines seed tail maxGap tryReversed) with
  | true =>
    left
    have hnear := near_of_closesLoop hcloses
    rw [hgap, hclosing2] at hnear
    by_cases hzero : distance2 tail head = 0
    · have hmeets : tail = head := eq_of_squaredDistance_eq_zero (hclosing2.symm.trans hzero)
      refine ⟨chains.close seed ⟨polyline.points.dropLast, polyline.steps⟩
        (tryReversed && decide (1 < nJoined)), ?_, ?_, length_close _ _ _ _⟩
      · simp [hzero]
      · exact h.close hseed
          (hstrung.path.closedPath_dropLast (hmeets ▸ hhead) htail hstrung.joined) rfl
    · refine ⟨chains.close seed ⟨polyline.points, polyline.steps ++ [.closing]⟩
        (tryReversed && decide (1 < nJoined)), ?_, ?_, length_close _ _ _ _⟩
      · simp [hzero]
      · exact h.close hseed (hstrung.path.closedPath_chord hhead htail hnear.le)
          ((lineUses_append _ _).trans (add_zero _))
  | false =>
    cases hnext : findNearestEnd chains.openPolylines seed tail maxGap tryReversed with
    | none =>
      left
      refine ⟨chains.putBack seed, ?_, h.putBack, length_update _ _ _⟩
      rfl
    | some nearest =>
      right
      obtain ⟨j, isStart, d2⟩ := nearest
      obtain ⟨other, p, hj, hj', hopen, hend, hwithin⟩ := findNearestEnd_spec hnext
      have hother := h.opened j other hj hj' hopen
      obtain ⟨joined, hjoined⟩ : ∃ joined,
          polyline.append other isStart .bridged polyline.length = some joined := by
        rw [OpenPolyline.append, htail]
        exact ⟨_, rfl⟩
      have hmem : p ∈ other.points := by
        split at hend
        · exact List.mem_of_mem_head? hend
        · exact List.mem_of_mem_getLast? hend
      have hleads : Step.bridged.Leads lines maxGap tail p := by
        rw [hgap, distance2_eq hrange (hother.ends p hmem)
          (hstrung.ends _ (List.getLast_mem hne)), squaredDistance_comm] at hwithin
        exact hwithin
      obtain ⟨hstrung', huses⟩ := hstrung.append hother rfl
        (fun tail' first htail' hfirst => by
          rw [htail] at htail'
          rw [hend] at hfirst
          cases htail'
          cases hfirst
          exact hleads)
        hjoined
      refine ⟨chains.join seed j joined, ?_, h.join hseed hj hj'
        ((append_consumed hjoined).trans hmarked) hstrung' huses, length_join _ _ _ _⟩
      simp only [Bool.false_eq_true, if_false, hj, hjoined, Option.bind_some]
      rfl

/-- The loop of a seed comes to an end. -/
theorem gapLoop_conserves (hrange : InRange lines) (hgap : wrapI64 (maxGap * maxGap) = maxGap ^ 2)
    (tryReversed : Bool) (nJoined : Nat) (h : ConservesAt lines maxGap seed chains) :
    ∃ chains', gapLoop maxGap tryReversed seed chains nJoined = some chains' ∧
      Conserves lines maxGap chains' ∧
      chains'.openPolylines.length = chains.openPolylines.length := by
  fun_induction gapLoop maxGap tryReversed seed chains nJoined with
  | case1 chains nJoined hround =>
    rcases gapRound_cases hrange hgap h tryReversed nJoined with ⟨_, hdone, _⟩ | ⟨_, hmore, _⟩
    · rw [hdone] at hround; cases hround
    · rw [hmore] at hround; cases hround
  | case2 chains nJoined chains' hround =>
    rcases gapRound_cases hrange hgap h tryReversed nJoined with ⟨_, hdone, hkept⟩ | ⟨_, hmore, _⟩
    · rw [hdone] at hround
      cases hround
      exact ⟨_, rfl, hkept⟩
    · rw [hmore] at hround; cases hround
  | case3 chains nJoined chains' nJoined' hround ih =>
    rcases gapRound_cases hrange hgap h tryReversed nJoined with
      ⟨_, hdone, _⟩ | ⟨_, hmore, hkept, hlength⟩
    · rw [hdone] at hround; cases hround
    · rw [hmore] at hround
      cases hround
      obtain ⟨chains', hloop, hconserves, hlength'⟩ := ih hkept
      exact ⟨chains', hloop, hconserves, hlength'.trans hlength⟩

section

omit [LinearOrder F]

@[simp] theorem OpenPolyline.remeasure_points (polyline : OpenPolyline F) :
    polyline.remeasure.points = polyline.points := by
  rw [OpenPolyline.remeasure]
  split <;> rfl

@[simp] theorem OpenPolyline.remeasure_steps (polyline : OpenPolyline F) :
    polyline.remeasure.steps = polyline.steps := by
  rw [OpenPolyline.remeasure]
  split <;> rfl

@[simp] theorem OpenPolyline.remeasure_consumed (polyline : OpenPolyline F) :
    polyline.remeasure.consumed = polyline.consumed := by
  rw [OpenPolyline.remeasure]
  split <;> rfl

/-- Measuring the polylines again changes no path. -/
theorem Conserves.remeasure (h : Conserves lines maxGap chains) :
    Conserves lines maxGap
      { chains with openPolylines := chains.openPolylines.map OpenPolyline.remeasure } where
  uses := by
    rw [← h.uses, Chains.lineUses, Chains.lineUses, List.map_map]
    simp [Function.comp_def]
  loops := h.loops
  shortLoops := h.shortLoops
  opened p hp hopen := by
    obtain ⟨polyline, hmem, rfl⟩ := List.mem_map.mp hp
    rw [OpenPolyline.remeasure_consumed] at hopen
    obtain ⟨hpath, hends, hjoined⟩ := h.opened polyline hmem hopen
    exact ⟨by simpa using hpath, by simpa using hends, by simpa using hjoined⟩
  cleared p hp hused := by
    obtain ⟨polyline, hmem, rfl⟩ := List.mem_map.mp hp
    rw [OpenPolyline.remeasure_consumed] at hused
    obtain ⟨hpoints, hsteps⟩ := h.cleared polyline hmem hused
    exact ⟨by simpa using hpoints, by simpa using hsteps⟩

end

theorem gapPass_conserves (hrange : InRange lines) (hgap : wrapI64 (maxGap * maxGap) = maxGap ^ 2)
    (h : Conserves lines maxGap chains) (tryReversed : Bool) :
    ∃ chains', chainOpenPolylinesCloseGaps chains maxGap tryReversed = some chains' ∧
      Conserves lines maxGap chains' := by
  have hrun : ∀ (seeds : List Nat) (chains : Chains F), Conserves lines maxGap chains →
      (∀ seed ∈ seeds, seed < chains.openPolylines.length) →
      ∃ chains', seeds.foldlM (forSeeds fun seed _ chains =>
          gapLoop maxGap tryReversed seed chains 1) chains = some chains' ∧
        Conserves lines maxGap chains' := by
    intro seeds
    induction seeds with
    | nil => exact fun chains h _ => ⟨chains, rfl, h⟩
    | cons seed seeds ih =>
      intro chains h hrange'
      obtain ⟨hlt, hrest⟩ := List.forall_mem_cons.mp hrange'
      have hseed := List.getElem?_eq_getElem hlt
      set polyline := chains.openPolylines[seed]
      cases hused : polyline.consumed with
      | true =>
        obtain ⟨chains', hfold, hdone⟩ := ih chains h hrest
        exact ⟨chains', by simp [forSeeds, hseed, hused, hfold], hdone⟩
      | false =>
        obtain ⟨next, hloop, hnext, hlength⟩ :=
          gapLoop_conserves hrange hgap tryReversed 1 (h.mark hseed hused)
        have hlength' : next.openPolylines.length = chains.openPolylines.length :=
          hlength.trans (length_update _ _ _)
        obtain ⟨chains', hfold, hdone⟩ := ih next hnext fun i hi => hlength'.symm ▸ hrest i hi
        refine ⟨chains', ?_, hdone⟩
        rw [Chains.mark] at hloop
        simp [forSeeds, hseed, hused, hloop, hfold]
  exact hrun _ _ h.remeasure fun seed hseed => lt_of_mem_sortedByLength hseed

end Gaps

/-! ### The exact passes -/

section Exact

variable {F : Type} [Field F] {lines : List IntersectionLine} {maxGap : ℤ} {seed : Nat}
  {chains chains' : Chains F} {s t : EndpointTopology}

theorem Joins.conserves (h : Joins seed chains s chains' t)
    (hconserves : ConservesAt lines maxGap seed chains) :
    ConservesAt lines maxGap seed chains' := by
  induction h with
  | nil => exact hconserves
  | @cons chains s j polyline other joined chains' t hseed hj hne hopen _ hjoined _ ih =>
    obtain ⟨marked, hmarked, hused, hstrung⟩ := hconserves.atSeed
    rw [hseed] at hmarked
    cases hmarked
    obtain ⟨hstrung', huses⟩ := hstrung.append (hconserves.opened j other hj hne hopen) rfl
      (fun tail first _ _ => (show Step.joined.Leads lines maxGap tail first from trivial)) hjoined
    exact ih (hconserves.join hseed hj hne ((append_consumed hjoined).trans hused) hstrung' huses)

theorem exactPass_conserves [LinearOrder F] (hready : Ready chains)
    (h : Conserves lines maxGap chains) (tryReversed : Bool) :
    ∃ chains', chainOpenPolylinesExact chains tryReversed = some chains' ∧ Ready chains' ∧
      Conserves lines maxGap chains' :=
  exactPass_run tryReversed
    (P := fun _ chains => Conserves lines maxGap chains)
    (fun _ _ _ _ h _ _ => h)
    (fun _ _ _ _ _ _ h hseed hopen hjoins _ =>
      (hjoins.conserves (h.mark hseed hopen)).putBack)
    _ chains hready (fun _ hseed => lt_of_mem_sortedByLength hseed) h

end Exact

/-! ### The walks -/

/-- What holds behind the walks from the first `seeds` lines. -/
structure ConservesSoFar {F : Type} (lines : List IntersectionLine) (maxGap : ℤ) (seeds : Nat)
    (used : List Bool) (chains : Chains F) : Prop where
  seeded : ∀ i < seeds, isUsed used i = true
  uses : chains.lineUses + freeIndices lines used = Multiset.range lines.length
  loops : ∀ chain ∈ chains.loops, 3 ≤ chain.points.length ∧ ClosedPath lines maxGap chain
  shortLoops : ∀ chain ∈ chains.shortLoops,
    chain.points.length < 3 ∧ ClosedPath lines maxGap chain
  opened : ∀ polyline ∈ chains.openPolylines,
    polyline.consumed = false ∧ polyline.Strung lines maxGap

section WalksConserve

variable {F : Type} {lines : List IntersectionLine} {maxGap : ℤ} {index : Nat}
  {line : IntersectionLine} {used used' : List Bool} {chains : Chains F} {taken : List LineEnd}
  {t : EndpointTopology}

/-- The walk from a seed is a path that starts with the seed. -/
theorem path_seed (hlines : Consistent lines) (maxGap : ℤ) (hget : lines[index]? = some line)
    (htakes : Takes lines (used.set index true) line.bTopology taken used' t) :
    Path lines maxGap (line.a :: line.b :: taken.map (·.far.1))
        (.line index true :: taken.map LineEnd.step) ∧
      (∀ q ∈ line.a :: line.b :: taken.map (·.far.1), q ∈ (endpoints lines).map Prod.fst) ∧
      ∃ q, (line.a :: line.b :: taken.map (·.far.1)).getLast? = some q ∧
        (q, t) ∈ endpoints lines := by
  obtain ⟨hpath, hends, q, hlast, hq⟩ := htakes.path hlines maxGap (mem_endpoints_b hget)
  refine ⟨.cons ⟨line, hget, rfl, rfl⟩ hpath, ?_, q, ?_, hq⟩
  · exact List.forall_mem_cons.mpr ⟨List.mem_map.mpr ⟨_, mem_endpoints_a hget, rfl⟩, hends⟩
  · rw [List.getLast?_cons_cons, hlast]

/-- A walk that comes back. -/
theorem ConservesSoFar.closed_walk (h : ConservesSoFar lines maxGap index used chains)
    (hlines : Consistent lines) (hget : lines[index]? = some line)
    (hfree : isUsed used index = false)
    (htakes : Takes lines (used.set index true) line.bTopology taken used' line.aTopology) :
    ConservesSoFar lines maxGap (index + 1) used' (chains.pushLoop
      ⟨(line.a :: line.b :: taken.map (·.far.1)).dropLast,
        .line index true :: taken.map LineEnd.step⟩) := by
  obtain ⟨hpath, _, q, hlast, hq⟩ := path_seed hlines maxGap hget htakes
  have hback : q = line.a := hlines _ hq _ (mem_endpoints_a hget) rfl
  have hclosed := hpath.closedPath_dropLast rfl (hback ▸ hlast) (List.cons_ne_nil _ _)
  refine ⟨seeded_succ h.seeded htakes, ?_, loops_pushLoop h.loops hclosed,
    shortLoops_pushLoop h.shortLoops hclosed, ?_⟩
  · rw [Chains.lineUses_pushLoop, ← h.uses, lineUses_seed hget hfree htakes]
    abel
  · rw [Chains.openPolylines_pushLoop]
    exact h.opened

/-- A walk that gets stuck. -/
theorem ConservesSoFar.open_walk (h : ConservesSoFar lines maxGap index used chains)
    (hlines : Consistent lines) (hget : lines[index]? = some line)
    (hfree : isUsed used index = false)
    (htakes : Takes lines (used.set index true) line.bTopology taken used' t) (length : F) :
    ConservesSoFar lines maxGap (index + 1) used' { chains with
      openPolylines := chains.openPolylines ++ [⟨line.aTopology, t,
        line.a :: line.b :: taken.map (·.far.1), length, false,
        .line index true :: taken.map LineEnd.step⟩] } := by
  obtain ⟨hpath, hends, _⟩ := path_seed hlines maxGap hget htakes
  refine ⟨seeded_succ h.seeded htakes, ?_, h.loops, h.shortLoops,
    List.forall_mem_append.mpr ⟨h.opened, List.forall_mem_singleton.mpr
      ⟨rfl, hpath, hends, List.cons_ne_nil _ _⟩⟩⟩
  rw [← h.uses, lineUses_seed hget hfree htakes]
  simp only [Chains.lineUses, List.map_append, List.sum_append, List.map_cons, List.map_nil,
    List.sum_singleton]
  abel

end WalksConserve

/-- The walks use every line exactly once. -/
theorem chainLines_conserves {F : Type} [Field F] [Sqrt F] {lines : List IntersectionLine}
    (hlines : Consistent lines) (maxGap : ℤ) :
    Conserves lines maxGap (chainLinesByTriangleConnectivity lines : Chains F) := by
  have hinitial : ConservesSoFar (F := F) lines maxGap 0 (List.replicate lines.length false) {} :=
    { seeded := fun _ h => absurd h (Nat.not_lt_zero _)
      uses := by rw [freeIndices_replicate]; exact zero_add _
      loops := by simp
      shortLoops := by simp
      opened := by simp }
  obtain ⟨used, h⟩ := chainLines_induction (P := ConservesSoFar lines maxGap) hinitial
    (fun index used chains hused h =>
      { h with
        seeded := fun i hi => (Nat.lt_succ_iff_lt_or_eq.mp hi).elim (h.seeded i) (· ▸ hused) })
    (fun index line used chains taken used' hget hfree h htakes =>
      h.closed_walk hlines hget hfree htakes)
    (fun index line used chains taken used' t hget hfree h htakes _ _ =>
      h.open_walk hlines hget hfree htakes _)
  have huses := h.uses
  rw [freeIndices_eq_zero h.seeded, add_zero] at huses
  refine ⟨huses, h.loops, h.shortLoops, fun polyline hmem _ => (h.opened polyline hmem).2,
    fun polyline hmem hused => ?_⟩
  rw [(h.opened polyline hmem).1] at hused
  cases hused

/-! ### The lines without duplicates -/

section Dedup

variable {lines : List IntersectionLine}

theorem dedupFrom_sublist (seen : List (Sym2 (Point2 × EndpointTopology)))
    (lines : List IntersectionLine) : (dedupFrom seen lines).Sublist lines := by
  fun_induction dedupFrom seen lines with
  | case1 => exact .slnil
  | case2 seen line rest _ ih => exact ih.cons line
  | case3 seen line rest _ ih => exact ih.cons_cons line

/-- The keys that are kept are new and all different, and every key is seen or kept. -/
theorem dedupFrom_keys (seen : List (Sym2 (Point2 × EndpointTopology)))
    (lines : List IntersectionLine) :
    (∀ line ∈ dedupFrom seen lines, lineKey line ∉ seen) ∧
      ((dedupFrom seen lines).map lineKey).Nodup ∧
      ∀ line ∈ lines, lineKey line ∈ seen ∨ lineKey line ∈ (dedupFrom seen lines).map lineKey := by
  fun_induction dedupFrom seen lines with
  | case1 => simp
  | case2 seen line rest hseen ih =>
    obtain ⟨hnew, hnodup, hkept⟩ := ih
    exact ⟨hnew, hnodup, List.forall_mem_cons.mpr ⟨Or.inl hseen, hkept⟩⟩
  | case3 seen line rest hseen ih =>
    obtain ⟨hnew, hnodup, hkept⟩ := ih
    refine ⟨List.forall_mem_cons.mpr ⟨hseen, fun line' hline' hmem =>
      hnew line' hline' (List.mem_cons_of_mem _ hmem)⟩, ?_, ?_⟩
    · refine List.nodup_cons.mpr ⟨fun hmem => ?_, hnodup⟩
      obtain ⟨line', hline', heq⟩ := List.mem_map.mp hmem
      exact hnew line' hline' (heq ▸ List.mem_cons_self)
    · refine List.forall_mem_cons.mpr ⟨Or.inr List.mem_cons_self, fun line' hline' => ?_⟩
      rcases hkept line' hline' with hmem | hmem
      · rcases List.mem_cons.mp hmem with heq | hmem
        · exact Or.inr (heq.symm ▸ List.mem_cons_self)
        · exact Or.inl hmem
      · exact Or.inr (List.mem_cons_of_mem _ hmem)

/-- Of every set of lines with one key, a single one is kept. -/
structure Deduplicates (lines kept : List IntersectionLine) : Prop where
  sublist : kept.Sublist lines
  nodup : (kept.map lineKey).Nodup
  complete : ∀ line ∈ lines, lineKey line ∈ kept.map lineKey

theorem dedupLines_deduplicates (lines : List IntersectionLine) :
    Deduplicates lines (dedupLines lines) := by
  obtain ⟨_, hnodup, hkept⟩ := dedupFrom_keys [] lines
  exact ⟨dedupFrom_sublist _ _, hnodup, fun line hline =>
    (hkept line hline).resolve_left List.not_mem_nil⟩

theorem endpoints_subset {kept : List IntersectionLine} (h : kept.Sublist lines) :
    endpoints kept ⊆ endpoints lines := by
  intro e he
  obtain ⟨line, hline, hend⟩ := List.mem_flatMap.mp he
  exact List.mem_flatMap.mpr ⟨line, h.subset hline, hend⟩

end Dedup

/-! ### `make_loops` -/

/-- `make_loops` comes to an end, and what it returns are the simplified loops of chains that
use every deduplicated line exactly once. -/
def ConservesLines (F : Type) [Field F] [LinearOrder F] [Sqrt F] (lines : List IntersectionLine) :
    Prop :=
  Deduplicates lines (dedupLines lines) ∧
    ∃ chains : Chains F, chainLoops lines = some chains ∧
      makeLoops F lines = some (chains.loops.map fun chain => simplifyPolygonPoints chain.points) ∧
      Conserves (dedupLines lines) MAX_GAP chains

section MakeLoops

variable {F : Type} [Field F] [LinearOrder F] [Sqrt F]

theorem chainLoops_conserves {lines : List IntersectionLine} (hlines : Consistent (dedupLines lines))
    (hrange : InRange (dedupLines lines)) :
    ∃ chains : Chains F, chainLoops lines = some chains ∧
      Conserves (dedupLines lines) MAX_GAP chains := by
  have hgap : wrapI64 (MAX_GAP * MAX_GAP) = MAX_GAP ^ 2 := by decide
  obtain ⟨used, hwalked⟩ := chainLines_walked (F := F) (dedupLines lines)
  obtain ⟨same, hsame, hready, hconserves⟩ :=
    exactPass_conserves hwalked.ready (chainLines_conserves hlines MAX_GAP) false
  obtain ⟨reversed, hreversed, _, hconserves⟩ := exactPass_conserves hready hconserves true
  obtain ⟨near, hnear, hconserves⟩ := gapPass_conserves hrange hgap hconserves false
  obtain ⟨chains, hchains, hconserves⟩ := gapPass_conserves hrange hgap hconserves true
  exact ⟨chains, by simp [chainLoops, hsame, hreversed, hnear, hchains], hconserves⟩

/-- Without lines there is nothing to chain. -/
theorem chainLoops_nil : chainLoops [] = some ({} : Chains F) := by
  have hexact : ∀ tryReversed, chainOpenPolylinesExact ({} : Chains F) tryReversed = some {} :=
    fun _ => rfl
  have hgaps : ∀ tryReversed,
      chainOpenPolylinesCloseGaps ({} : Chains F) MAX_GAP tryReversed = some {} := fun _ => rfl
  have hwalks : chainLinesByTriangleConnectivity (dedupLines []) = ({} : Chains F) := rfl
  simp [chainLoops, hwalks, hexact, hgaps]

end MakeLoops

/-- Where equal topologies carry equal points and no squared distance overflows, `make_loops`
neither duplicates nor invents a segment. -/
theorem make_loops_conserves_lines (F : Type) [Field F] [LinearOrder F] [Sqrt F]
    (lines : List IntersectionLine) (hlines : Consistent lines) (hrange : InRange lines) :
    ConservesLines F lines := by
  have hdedup := dedupLines_deduplicates lines
  have hsubset := endpoints_subset hdedup.sublist
  have hconsistent : Consistent (dedupLines lines) :=
    fun e he e' he' => hlines e (hsubset he) e' (hsubset he')
  have hshort : InRange (dedupLines lines) :=
    fun e he e' he' => hrange e (hsubset he) e' (hsubset he')
  obtain ⟨chains, hchains, hconserves⟩ := chainLoops_conserves (F := F) hconsistent hshort
  refine ⟨hdedup, chains, hchains, ?_, hconserves⟩
  rw [makeLoops]
  split
  · rename_i hempty
    obtain rfl := List.isEmpty_iff.mp hempty
    rw [chainLoops_nil] at hchains
    cases hchains
    rfl
  · rw [hchains, Option.map_some]

/-- Three sides of a square and most of the fourth. -/
def gappedSquare : List IntersectionLine :=
  [⟨⟨0, 0⟩, ⟨100000, 0⟩, .Vertex 0, .Vertex 1⟩,
    ⟨⟨100000, 0⟩, ⟨100000, 100000⟩, .Vertex 1, .Vertex 2⟩,
    ⟨⟨0, 100000⟩, ⟨100000, 100000⟩, .Vertex 3, .Vertex 2⟩,
    ⟨⟨0, 10000⟩, ⟨0, 100000⟩, .Vertex 4, .Vertex 3⟩]

theorem make_loops_conserves_lines_gapped : ConservesLines ℚ gappedSquare :=
  make_loops_conserves_lines ℚ gappedSquare
    (by rw [Consistent]; decide +kernel) (by rw [InRange]; decide +kernel)

/-- Two lines 2 ^ 32 units apart: the square of that distance wraps to zero. -/
def distantLines : List IntersectionLine :=
  [⟨⟨0, 0⟩, ⟨1000000, 1000000⟩, .Vertex 0, .Vertex 1⟩,
    ⟨⟨4295967296, 1000000⟩, ⟨4294967296, 5⟩, .Vertex 2, .Vertex 3⟩]

/-- The gap pass bridges them as if they met. -/
theorem distant_lines_are_bridged :
    ¬ ∀ lines : List IntersectionLine, Consistent lines → ConservesLines ℚ lines := by
  intro h
  obtain ⟨_, chains, hchains, _, hconserves⟩ := h distantLines (by rw [Consistent]; decide +kernel)
  have hloops : (chainLoops (F := ℚ) distantLines).map (·.loops) = some
      [⟨[⟨0, 0⟩, ⟨1000000, 1000000⟩, ⟨4295967296, 1000000⟩, ⟨4294967296, 5⟩],
        [.line 0 true, .bridged, .line 1 true, .closing]⟩] := by
    decide +kernel
  rw [hchains, Option.map_some, Option.some.injEq] at hloops
  obtain ⟨_, p, rest, hpoints, hpath⟩ :=
    hconserves.loops _ (hloops ▸ List.mem_cons_self)
  cases hpoints
  obtain _ | ⟨_, hpath⟩ := hpath
  obtain _ | ⟨hbridged, _⟩ := hpath
  exact absurd hbridged (by rw [Step.Leads]; decide)

end PinchNPrint.Mesh
