/-
The end topologies of open polylines.

An exact pass follows the free end of a seed in a local variable and never writes it
back, so that a seed that is put back after a join carries the end it had before. The
end topologies are therefore right exactly if there is nothing to join: no walk ends
where another open one starts.
-/

import PinchNPrint.Mesh.ExactJoins

namespace PinchNPrint.Mesh

open GCode (Sqrt)

variable {F : Type}

/-- The start and the end topology of every polyline that is not consumed are those its
steps start and end at, and every join connects two ends at one topology. -/
structure EndsKept (lines : List IntersectionLine) (chains : Chains F) : Prop where
  opened : ∀ polyline ∈ chains.openPolylines, polyline.consumed = false →
    Trail lines polyline.startTopo polyline.steps polyline.endTopo
  closed : ∀ chain ∈ chains.loops ++ chains.shortLoops, ∃ t, Trail lines t chain.steps t

/-- The end topologies are kept behind the walks and behind each of the exact passes. -/
def KeepsEnds (F : Type) [Field F] [LinearOrder F] [Sqrt F] (lines : List IntersectionLine) :
    Prop :=
  let walked : Chains F := chainLinesByTriangleConnectivity lines
  EndsKept lines walked ∧
    ∃ same reversed, chainOpenPolylinesExact walked false = some same ∧ EndsKept lines same ∧
      chainOpenPolylinesExact same true = some reversed ∧ EndsKept lines reversed

/-- No open polyline ends where another one starts. -/
def NoneMeet (polylines : List (OpenPolyline F)) : Prop :=
  ∀ (i j : Nat) (p q : OpenPolyline F), polylines[i]? = some p → polylines[j]? = some q → i ≠ j →
    p.endTopo ≠ q.startTopo

/-! ### The topology that steps end at -/

/-- The topology a step along a line leads to. -/
def Step.farTopo (lines : List IntersectionLine) : Step → Option EndpointTopology
  | .line index forward => lines[index]?.map fun line => line.entry (!forward)
  | _ => none

/-- The topology at the end of the last line of the steps. -/
def tailTopo (lines : List IntersectionLine) (steps : List Step) : Option EndpointTopology :=
  (steps.filterMap (Step.farTopo lines)).getLast?

section Tail

variable {lines : List IntersectionLine} {steps : List Step} {s t : EndpointTopology}

theorem tailTopo_line {index : Nat} {forward : Bool} {line : IntersectionLine}
    (hget : lines[index]? = some line) (rest : List Step) :
    tailTopo lines (.line index forward :: rest) =
      some ((tailTopo lines rest).getD (line.entry (!forward))) := by
  simp [tailTopo, Step.farTopo, hget, List.getLast?_cons]

theorem tailTopo_joined (rest : List Step) :
    tailTopo lines (.joined :: rest) = tailTopo lines rest :=
  rfl

theorem tailTopo_append {first second : List Step} (h : tailTopo lines second = some t) :
    tailTopo lines (first ++ second) = some t := by
  rw [tailTopo] at h ⊢
  rw [List.filterMap_append, List.getLast?_append, h]
  rfl

/-- A trail that has a line ends where its last line does. -/
theorem Trail.tailTopo (h : Trail lines s steps t) : (tailTopo lines steps).getD s = t := by
  induction h with
  | nil t => rfl
  | line hget _ ih => rw [tailTopo_line hget, Option.getD_some, ih]
  | joined _ ih => exact ih

theorem Trail.tailTopo_of_line {index : Nat} {forward : Bool} {rest : List Step}
    (h : Trail lines s (.line index forward :: rest) t) :
    Mesh.tailTopo lines (.line index forward :: rest) = some t := by
  have htail := h.tailTopo
  cases h with
  | line hget _ =>
    rw [tailTopo_line hget] at htail ⊢
    exact congrArg some htail

end Tail

/-! ### A pass with nothing to join -/

section Identity

variable {chains : Chains F}

theorem putBack_mark {seed : Nat} {polyline : OpenPolyline F}
    (hseed : chains.openPolylines[seed]? = some polyline) (hopen : polyline.consumed = false) :
    (chains.mark seed).putBack seed = chains := by
  have hentries : ((chains.mark seed).putBack seed).openPolylines = chains.openPolylines := by
    refine List.ext_getElem? fun i => ?_
    rw [Chains.putBack, getElem?_update, Chains.mark, getElem?_update]
    by_cases hi : seed = i
    · subst hi
      rw [if_pos rfl, if_pos rfl, hseed]
      simp [← hopen]
    · rw [if_neg hi, if_neg hi]
  rw [Chains.mk.injEq]
  exact ⟨rfl, hentries, rfl⟩

theorem Joins.eq_of_none_meet [Field F] [LinearOrder F] {chains' : Chains F} {seed : Nat}
    {polyline : OpenPolyline F} {t : EndpointTopology}
    (hnone : ∀ j other, chains.openPolylines[j]? = some other → j ≠ seed →
      polyline.endTopo ≠ other.startTopo)
    (h : Joins seed (chains.mark seed) polyline.endTopo chains' t) :
    chains' = chains.mark seed := by
  cases h with
  | nil => rfl
  | @cons _ _ j _ other _ _ _ _ hj hne _ hstart _ _ =>
    rw [Chains.mark, getElem?_update, if_neg hne.symm] at hj
    exact absurd hstart.symm (hnone j other hj hne)

/-- Where no polyline ends at the start of another one, an exact pass changes nothing. -/
theorem chainOpenPolylinesExact_of_noneMeet [Field F] [LinearOrder F] (hready : Ready chains)
    (hnone : NoneMeet chains.openPolylines) (tryReversed : Bool) :
    chainOpenPolylinesExact chains tryReversed = some chains := by
  obtain ⟨chains', hfold, _, hsame⟩ := exactPass_run tryReversed
    (P := fun _ current => current = chains)
    (fun _ _ _ _ h _ _ => h)
    (by
      rintro seed rest chains polyline chains' curEnd' rfl hseed hopen hjoins _
      have hmarked := hjoins.eq_of_none_meet fun j other hj hne =>
        hnone seed j polyline other hseed hj hne.symm
      rw [hmarked, putBack_mark hseed hopen])
    (sortedByLength chains.openPolylines) chains hready
    (fun _ hseed => lt_of_mem_sortedByLength hseed)
    rfl
  rw [chainOpenPolylinesExact, hfold, hsame]

end Identity

/-! ### A pass that joins something -/

section FirstPass

variable {lines : List IntersectionLine}

/-- Within the loop of a seed: the polylines that are open, and the seed, end at topologies
that all differ, and those still to come end where they are said to. -/
structure Midway (lines : List IntersectionLine) (seed : Nat) (rest : List Nat)
    (chains : Chains F) : Prop where
  tails : ∀ i p, chains.openPolylines[i]? = some p → p.consumed = false ∨ i = seed →
    ∃ t, tailTopo lines p.steps = some t
  distinct : ∀ i j p q, chains.openPolylines[i]? = some p → chains.openPolylines[j]? = some q →
    p.consumed = false ∨ i = seed → q.consumed = false ∨ j = seed →
    tailTopo lines p.steps = tailTopo lines q.steps → i = j
  fresh : ∀ i ∈ rest, ∀ p, chains.openPolylines[i]? = some p → p.consumed = false →
    tailTopo lines p.steps = some p.endTopo

variable {polyline : OpenPolyline F} {t : EndpointTopology} {chains walked : Chains F}
  {rest : List Nat} {seed : Nat}

/-- Behind a join the seed ends where the other polyline ended. -/
theorem tailTopo_append_steps {other joined : OpenPolyline F} {length : F}
    (htail : tailTopo lines other.steps = some t)
    (h : polyline.append other true .joined length = some joined) :
    tailTopo lines joined.steps = some t := by
  obtain ⟨tail, _, rfl⟩ := Option.map_eq_some_iff.mp h
  simp only [if_true]
  refine tailTopo_append ?_
  split
  · exact htail
  · exact (tailTopo_joined _).trans htail

/-- The joined polyline takes the place of both. -/
theorem Midway.join {j : Nat} {other joined : OpenPolyline F} (h : Midway lines seed rest chains)
    (hnotMem : seed ∉ rest) (hne : j ≠ seed) (hj : chains.openPolylines[j]? = some other)
    (hopen : other.consumed = false) (htail : tailTopo lines other.steps = some t)
    (hjoined : tailTopo lines joined.steps = some t) :
    Midway lines seed rest (chains.join seed j joined) := by
  -- Every polyline that is left, the seed included, ends where one ended before.
  have hbefore : ∀ i p, (chains.join seed j joined).openPolylines[i]? = some p →
      p.consumed = false ∨ i = seed → ∃ k q, chains.openPolylines[k]? = some q ∧
        (q.consumed = false ∨ k = seed) ∧ tailTopo lines q.steps = tailTopo lines p.steps ∧
        (i = seed ∧ k = j ∨ i ≠ seed ∧ i ≠ j ∧ k = i ∧ q = p) := by
    intro i p hi hactive
    rw [getElem?_join hne] at hi
    split at hi
    · rename_i hij
      obtain ⟨_, _, rfl⟩ := Option.map_eq_some_iff.mp hi
      rcases hactive with hfalse | hseed
      · cases hfalse
      · exact absurd (hij.symm.trans hseed) hne
    · rename_i hij
      split at hi
      · rename_i hseed
        obtain ⟨_, _, rfl⟩ := Option.map_eq_some_iff.mp hi
        exact ⟨j, other, hj, Or.inl hopen, htail.trans hjoined.symm, Or.inl ⟨hseed, rfl⟩⟩
      · rename_i hseed
        exact ⟨i, p, hi, hactive, rfl, Or.inr ⟨hseed, hij, rfl, rfl⟩⟩
  refine ⟨fun i p hi hactive => ?_, fun i k p q hi hk hp hq heq => ?_, fun i hi p hget hunused => ?_⟩
  · obtain ⟨k, q, hq, hactive', heq, _⟩ := hbefore i p hi hactive
    rw [← heq]
    exact h.tails k q hq hactive'
  · obtain ⟨i', p', hi', hp', htp, hcasep⟩ := hbefore i p hi hp
    obtain ⟨k', q', hk', hq', htq, hcaseq⟩ := hbefore k q hk hq
    have hsame := h.distinct i' k' p' q' hi' hk' hp' hq' (htp.trans (heq.trans htq.symm))
    rcases hcasep with ⟨rfl, rfl⟩ | ⟨_, hpj, rfl, _⟩
    · rcases hcaseq with ⟨rfl, _⟩ | ⟨_, hqj, rfl, _⟩
      · rfl
      · exact absurd hsame.symm hqj
    · rcases hcaseq with ⟨rfl, rfl⟩ | ⟨_, _, rfl, _⟩
      · exact absurd hsame hpj
      · exact hsame
  · have hseed : i ≠ seed := fun heq => hnotMem (heq ▸ hi)
    obtain ⟨k, q, hq, _, _, hcase⟩ := hbefore i p hget (Or.inl hunused)
    rcases hcase with ⟨heq, _⟩ | ⟨_, _, rfl, rfl⟩
    · exact absurd heq hseed
    · exact h.fresh k hi q hq hunused

/-- The seed has been joined: it no longer ends where it is said to. -/
def SeedAway (lines : List IntersectionLine) (seed : Nat) (e : EndpointTopology)
    (chains : Chains F) : Prop :=
  ∀ p, chains.openPolylines[seed]? = some p → tailTopo lines p.steps ≠ some e

/-- Of the topology where the seed ended at first there is no other polyline. -/
def OthersAway (lines : List IntersectionLine) (seed : Nat) (e : EndpointTopology)
    (chains : Chains F) : Prop :=
  ∀ i p, chains.openPolylines[i]? = some p → p.consumed = false → i ≠ seed →
    tailTopo lines p.steps ≠ some e

/-- Joins keep what holds midway, and take the seed away from where it ended. -/
theorem Joins.midway [Field F] {chains' : Chains F} {s e : EndpointTopology}
    (h : Joins seed chains s chains' t) (hnotMem : seed ∉ rest)
    (hmidway : Midway lines seed rest chains) (hothers : OthersAway lines seed e chains) :
    Midway lines seed rest chains' ∧
      (SeedAway lines seed e chains → SeedAway lines seed e chains') ∧
      (chains' = chains ∧ t = s ∨ SeedAway lines seed e chains') := by
  induction h with
  | nil => exact ⟨hmidway, id, Or.inl ⟨rfl, rfl⟩⟩
  | @cons chains s j polyline other joined chains' t hseed hj hne hopen _ hjoined _ ih =>
    obtain ⟨u, htail⟩ := hmidway.tails j other hj (Or.inl hopen)
    have hjoinedTail := tailTopo_append_steps htail hjoined
    have haway : SeedAway lines seed e (chains.join seed j joined) := by
      intro p hp
      rw [getElem?_join hne, if_neg hne.symm, if_pos rfl, hseed] at hp
      cases hp
      rw [hjoinedTail, ← htail]
      exact hothers j other hj hopen hne
    have hothers' : OthersAway lines seed e (chains.join seed j joined) := by
      intro i p hi hunused hi'
      rw [getElem?_join hne] at hi
      split at hi
      · obtain ⟨_, _, rfl⟩ := Option.map_eq_some_iff.mp hi
        cases hunused
      · exact hothers i p hi hunused hi'
    obtain ⟨hmidway', hkeeps, _⟩ :=
      ih (hmidway.join hnotMem hne hj hopen htail hjoinedTail) hothers'
    exact ⟨hmidway', fun _ => hkeeps haway, Or.inr (hkeeps haway)⟩

/-- What holds between two seeds of the first pass: nothing was joined, and no seed so far
ends where another polyline starts; or some polyline does not end where it is said to. -/
structure FirstPass (lines : List IntersectionLine) (walked : Chains F) (rest : List Nat)
    (chains : Chains F) : Prop where
  nodup : rest.Nodup
  tails : ∀ (i : Nat) (p : OpenPolyline F), chains.openPolylines[i]? = some p → p.consumed = false →
    ∃ t, tailTopo lines p.steps = some t
  distinct : ∀ (i j : Nat) (p q : OpenPolyline F), chains.openPolylines[i]? = some p →
    chains.openPolylines[j]? = some q →
    p.consumed = false → q.consumed = false →
    tailTopo lines p.steps = tailTopo lines q.steps → i = j
  fresh : ∀ i ∈ rest, ∀ p : OpenPolyline F, chains.openPolylines[i]? = some p → p.consumed = false →
    tailTopo lines p.steps = some p.endTopo
  outcome : (chains = walked ∧ ∀ (i j : Nat) (p q : OpenPolyline F),
      walked.openPolylines[i]? = some p → walked.openPolylines[j]? = some q → i ∉ rest → i ≠ j →
        p.endTopo ≠ q.startTopo) ∨
    ∃ p ∈ chains.openPolylines, p.consumed = false ∧ tailTopo lines p.steps ≠ some p.endTopo

/-- The state in which the loop of a seed starts. -/
theorem FirstPass.midway (h : FirstPass lines walked (seed :: rest) chains)
    (hseed : chains.openPolylines[seed]? = some polyline) (hopen : polyline.consumed = false) :
    Midway lines seed rest (chains.mark seed) ∧
      OthersAway lines seed polyline.endTopo (chains.mark seed) := by
  -- Marking changes no steps, and the seed was open.
  have hbefore : ∀ i p, (chains.mark seed).openPolylines[i]? = some p →
      p.consumed = false ∨ i = seed → ∃ q, chains.openPolylines[i]? = some q ∧
        q.consumed = false ∧ q.steps = p.steps ∧ q.endTopo = p.endTopo := by
    intro i p hi hactive
    rw [Chains.mark, getElem?_update] at hi
    split at hi
    · rename_i heq
      subst heq
      rw [hseed] at hi
      cases hi
      exact ⟨polyline, hseed, hopen, rfl, rfl⟩
    · rename_i hne
      exact ⟨p, hi, hactive.resolve_right (Ne.symm hne), rfl, rfl⟩
  have htail := h.fresh seed List.mem_cons_self polyline hseed hopen
  refine ⟨⟨fun i p hi hp => ?_, fun i j p q hi hj hp hq heq => ?_, fun i hi p hget hp => ?_⟩,
    fun i p hi hp hne heq => ?_⟩
  · obtain ⟨q, hq, hunused, hsteps, _⟩ := hbefore i p hi hp
    rw [← hsteps]
    exact h.tails i q hq hunused
  · obtain ⟨p', hp', hp'', hsteps, _⟩ := hbefore i p hi hp
    obtain ⟨q', hq', hq'', hsteps', _⟩ := hbefore j q hj hq
    rw [← hsteps, ← hsteps'] at heq
    exact h.distinct i j p' q' hp' hq' hp'' hq'' heq
  · obtain ⟨q, hq, hunused, hsteps, hend⟩ := hbefore i p hget (Or.inl hp)
    rw [← hsteps, ← hend]
    exact h.fresh i (List.mem_cons_of_mem seed hi) q hq hunused
  · obtain ⟨q, hq, hunused, hsteps, _⟩ := hbefore i p hi (Or.inl hp)
    rw [← hsteps, ← htail] at heq
    exact hne (h.distinct i seed q polyline hq hseed hunused hopen heq)

/-- A seed that is used up is passed over. -/
theorem FirstPass.skip (hwalked : ∀ p ∈ walked.openPolylines, p.consumed = false)
    (h : FirstPass lines walked (seed :: rest) chains)
    (hseed : chains.openPolylines[seed]? = some polyline) (hused : polyline.consumed = true) :
    FirstPass lines walked rest chains where
  nodup := (List.nodup_cons.mp h.nodup).2
  tails := h.tails
  distinct := h.distinct
  fresh i hi := h.fresh i (List.mem_cons_of_mem seed hi)
  outcome := by
    rcases h.outcome with ⟨rfl, _⟩ | haway
    · rw [hwalked polyline (List.mem_of_getElem? hseed)] at hused
      cases hused
    · exact Or.inr haway

theorem ne_startTopo_of_findExactMatch {polylines : List (OpenPolyline F)}
    {endTopo : EndpointTopology} {tryReversed : Bool} {exclude j : Nat} {q : OpenPolyline F}
    (h : findExactMatch polylines endTopo tryReversed exclude = none)
    (hj : polylines[j]? = some q) (hne : j ≠ exclude) (hopen : q.consumed = false) :
    endTopo ≠ q.startTopo := by
  intro hstart
  have hnone := List.findSome?_eq_none_iff.mp h (q, j) (List.mem_zipIdx_iff_getElem?.mpr hj)
  simp [hne, hopen, hstart] at hnone

theorem FirstPass.step [Field F] [LinearOrder F] {chains' : Chains F} {curEnd : EndpointTopology}
    (hwalked : ∀ p ∈ walked.openPolylines, p.consumed = false)
    (h : FirstPass lines walked (seed :: rest) chains)
    (hseed : chains.openPolylines[seed]? = some polyline) (hopen : polyline.consumed = false)
    (hjoins : Joins seed (chains.mark seed) polyline.endTopo chains' curEnd)
    (hnone : findExactMatch chains'.openPolylines curEnd false seed = none) :
    FirstPass lines walked rest (chains'.putBack seed) := by
  obtain ⟨hnotMem, hnodup⟩ := List.nodup_cons.mp h.nodup
  obtain ⟨hmidway, hothers⟩ := h.midway hseed hopen
  obtain ⟨hmidway', _, hcases⟩ := hjoins.midway hnotMem hmidway hothers
  have hbefore : ∀ i p, (chains'.putBack seed).openPolylines[i]? = some p →
      p.consumed = false → ∃ q, chains'.openPolylines[i]? = some q ∧
        (q.consumed = false ∨ i = seed) ∧ q.steps = p.steps ∧ q.endTopo = p.endTopo := by
    intro i p hi hunused
    rw [Chains.putBack, getElem?_update] at hi
    split at hi
    · rename_i heq
      obtain ⟨q, hq, rfl⟩ := Option.map_eq_some_iff.mp hi
      exact ⟨q, hq, Or.inr heq.symm, rfl, rfl⟩
    · exact ⟨p, hi, Or.inl hunused, rfl, rfl⟩
  refine ⟨hnodup, fun i p hi hp => ?_, fun i j p q hi hj hp hq heq => ?_, fun i hi p hget hp => ?_, ?_⟩
  · obtain ⟨q, hq, hactive, hsteps, _⟩ := hbefore i p hi hp
    rw [← hsteps]
    exact hmidway'.tails i q hq hactive
  · obtain ⟨p', hp', hp'', hsteps, _⟩ := hbefore i p hi hp
    obtain ⟨q', hq', hq'', hsteps', _⟩ := hbefore j q hj hq
    rw [← hsteps, ← hsteps'] at heq
    exact hmidway'.distinct i j p' q' hp' hq' hp'' hq'' heq
  · obtain ⟨q, hq, hactive, hsteps, hend⟩ := hbefore i p hget hp
    rw [← hsteps, ← hend]
    exact hmidway'.fresh i hi q hq (hactive.resolve_right fun heq => hnotMem (heq ▸ hi))
  · rcases hcases with ⟨rfl, rfl⟩ | haway
    · -- Nothing is joined: the seed ends where no other polyline starts.
      rw [putBack_mark hseed hopen]
      refine h.outcome.imp_left ?_
      rintro ⟨hsame, hmeets⟩
      refine ⟨hsame, fun i j p q hi hj hrest hne => ?_⟩
      by_cases heq : i = seed
      · subst heq hsame
        rw [hseed] at hi
        cases hi
        have hmarked : (chains.mark i).openPolylines[j]? = some q := by
          rw [Chains.mark, getElem?_update, if_neg hne, hj]
        exact ne_startTopo_of_findExactMatch hnone hmarked hne.symm
          (hwalked q (List.mem_of_getElem? hj))
      · exact hmeets i j p q hi hj (by simp [heq, hrest]) hne
    · -- Something is joined: the seed keeps its label, but ends elsewhere.
      right
      have hlabels : (chains'.putBack seed).labels = chains.labels :=
        (labels_putBack _ _).trans (hjoins.labels.trans (labels_mark _ _))
      obtain ⟨p, hp⟩ : ∃ p, chains'.openPolylines[seed]? = some p := by
        have hlt := (List.getElem?_eq_some_iff.mp hseed).1
        rw [← length_of_labels hlabels, Chains.putBack, Chains.update, List.length_modify] at hlt
        exact ⟨_, List.getElem?_eq_getElem hlt⟩
      have hput : (chains'.putBack seed).openPolylines[seed]? =
          some { p with consumed := false } := by
        rw [Chains.putBack, getElem?_update, if_pos rfl, hp]
        rfl
      have hend : p.endTopo = polyline.endTopo := by
        have hlabel := getElem?_labels hput
        rw [hlabels, getElem?_labels hseed] at hlabel
        exact (congrArg Prod.snd (Option.some.inj hlabel)).symm
      exact ⟨_, List.mem_of_getElem? hput, rfl, by simpa [hend] using haway p hp⟩

/-- The first pass joins nothing, as no polyline ends where another one starts, or it leaves a
polyline that does not end where it is said to. -/
theorem firstPass_spec [Field F] [LinearOrder F] {used : List Bool} (h : Walked lines used walked) :
    ∃ same, chainOpenPolylinesExact walked false = some same ∧
      (NoneMeet walked.openPolylines ∨ ∃ p ∈ same.openPolylines, p.consumed = false ∧
        ∃ t, tailTopo lines p.steps = some t ∧ t ≠ p.endTopo) := by
  have htail : ∀ p ∈ walked.openPolylines, tailTopo lines p.steps = some p.endTopo := by
    intro p hp
    obtain ⟨index, rest, hsteps⟩ := (h.opened p hp).begins
    have htrail := (h.opened p hp).trail
    rw [hsteps] at htrail ⊢
    exact htrail.tailTopo_of_line
  have hinitial : FirstPass lines walked (sortedByLength walked.openPolylines) walked := by
    refine ⟨nodup_sortedByLength _, fun i p hi _ => ⟨_, htail p (List.mem_of_getElem? hi)⟩,
      fun i j p q hi hj _ _ heq => ?_, fun i _ p hget _ => htail p (List.mem_of_getElem? hget),
      Or.inl ⟨rfl, fun i j p q hi _ hnotMem => ?_⟩⟩
    · rw [htail p (List.mem_of_getElem? hi), htail q (List.mem_of_getElem? hj)] at heq
      exact (h.apart i j _ _ (getElem?_labels hi) (getElem?_labels hj)).1 (Option.some.inj heq)
    · exact absurd (mem_sortedByLength.mpr
        ⟨p, hi, (h.opened p (List.mem_of_getElem? hi)).unconsumed⟩) hnotMem
  obtain ⟨same, hfold, _, hpass⟩ := exactPass_run false
    (P := FirstPass lines walked)
    (fun seed rest chains polyline hpass hseed hused => hpass.skip
      (fun p hp => (h.opened p hp).unconsumed) hseed hused)
    (fun seed rest chains polyline chains' curEnd hpass hseed hopen hjoins hnone =>
      hpass.step (fun p hp => (h.opened p hp).unconsumed) hseed hopen hjoins hnone)
    (sortedByLength walked.openPolylines) walked h.ready
    (fun _ hseed => lt_of_mem_sortedByLength hseed)
    hinitial
  refine ⟨same, hfold, hpass.outcome.imp (fun ⟨_, hmeets⟩ => ?_) fun ⟨p, hp, hopen, haway⟩ => ?_⟩
  · exact fun i j p q hi hj hne => hmeets i j p q hi hj List.not_mem_nil hne
  · obtain ⟨i, hi⟩ := List.mem_iff_getElem?.mp hp
    obtain ⟨t, ht⟩ := hpass.tails i p hi hopen
    exact ⟨p, hp, hopen, t, ht, fun heq => haway (ht.trans (congrArg some heq))⟩

end FirstPass

/-- Where the ends are kept, the first pass has nothing to join. -/
theorem KeepsEnds.noneMeet [Field F] [LinearOrder F] [Sqrt F] {lines : List IntersectionLine}
    (h : KeepsEnds F lines) :
    NoneMeet (chainLinesByTriangleConnectivity lines : Chains F).openPolylines := by
  obtain ⟨_, same, _, hsame, hkept, _⟩ := h
  obtain ⟨used, hwalked⟩ := chainLines_walked (F := F) lines
  obtain ⟨same', hsame', hcases⟩ := firstPass_spec hwalked
  rw [hsame] at hsame'
  cases hsame'
  refine hcases.resolve_right ?_
  rintro ⟨p, hp, hopen, t, htail, haway⟩
  have hends := (hkept.opened p hp hopen).tailTopo
  rw [htail, Option.getD_some] at hends
  exact haway hends

/-- The end topologies are kept exactly if no walk ends where another open one starts. -/
theorem ends_kept_iff (F : Type) [Field F] [LinearOrder F] [Sqrt F]
    (lines : List IntersectionLine) :
    KeepsEnds F lines ↔
      NoneMeet (chainLinesByTriangleConnectivity lines : Chains F).openPolylines := by
  constructor
  · exact KeepsEnds.noneMeet
  · intro hnone
    obtain ⟨used, hwalked⟩ := chainLines_walked (F := F) lines
    have hkept : EndsKept lines (chainLinesByTriangleConnectivity lines : Chains F) :=
      ⟨fun p hp _ => (hwalked.opened p hp).trail, hwalked.closed⟩
    have hpass := chainOpenPolylinesExact_of_noneMeet hwalked.ready hnone
    exact ⟨hkept, _, _, hpass false, hkept, hpass true, hkept⟩

/-- The line from the second vertex to the third comes first, so that the line from the first
vertex to the second is a polyline of its own. -/
def meetingLines : List IntersectionLine :=
  [⟨⟨1, 0⟩, ⟨2, 0⟩, .Vertex 1, .Vertex 2⟩, ⟨⟨0, 0⟩, ⟨1, 0⟩, .Vertex 0, .Vertex 1⟩]

/-- The joined polyline is put back with the end it had before. -/
theorem joined_end_is_stale : ¬ KeepsEnds ℚ meetingLines := by
  intro h
  let walked : Chains ℚ := chainLinesByTriangleConnectivity meetingLines
  obtain ⟨p, hp, hend⟩ := Option.map_eq_some_iff.mp
    (show walked.openPolylines[1]?.map (·.endTopo) = some (.Vertex 1) by decide +kernel)
  obtain ⟨q, hq, hstart⟩ := Option.map_eq_some_iff.mp
    (show walked.openPolylines[0]?.map (·.startTopo) = some (.Vertex 1) by decide +kernel)
  exact h.noneMeet 1 0 p q hp hq (by decide) (hend.trans hstart.symm)

end PinchNPrint.Mesh
