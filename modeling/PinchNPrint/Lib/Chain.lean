/-
Chains: a partial function followed from a point.

The graph of a partial function has at most one edge out of each point, so from
a point there is one chain, which either stops (`Ends`) or runs into a cycle for
good. `Walk` is the loop that follows a chain with a set of visited points; what
it answers is settled by `Walk.cycle_of_true` and `Walk.ends_of_false`. Each
round leaves fewer points unvisited (`length_unvisited_lt`), so the loop answers
when finitely many points have a successor.
-/

import PinchNPrint.Lib.Collections
import Mathlib.Logic.Relation

namespace Chain

open Std Relation

variable {α : Type} (next : α → Option α)

/-- One step along the chain. -/
def Step (a b : α) : Prop :=
  next a = some b

/-- The chain from a point stops. -/
inductive Ends : α → Prop
  | stop {a : α} (h : next a = none) : Ends a
  | step {a b : α} (h : next a = some b) (hb : Ends b) : Ends a

variable {next}

variable {a b : α}

theorem Ends.of_step (h : Ends next a) (hab : next a = some b) : Ends next b := by
  cases h with
  | stop hstop =>
    rw [hab] at hstop
    cases hstop
  | step hstep hb =>
    rw [hab, Option.some_inj] at hstep
    exact hstep ▸ hb

/-- A chain that starts on a cycle stays on it. -/
theorem cycle_of_reachable {c d : α} (cycle : TransGen (Step next) c c)
    (walk : ReflTransGen (Step next) c d) : TransGen (Step next) d d := by
  induction walk with
  | refl => exact cycle
  | @tail d e _ edge ih =>
    obtain ⟨e', edge', back⟩ := TransGen.head'_iff.mp ih
    have hsame : e = e' := Option.some.inj (edge.symm.trans edge')
    subst hsame
    exact TransGen.tail' back edge

/-- A chain that stops is on no cycle. -/
theorem Ends.not_cycle (h : Ends next a) : ¬ TransGen (Step next) a a := by
  induction h with
  | stop h =>
    intro cycle
    obtain ⟨b, edge, -⟩ := TransGen.head'_iff.mp cycle
    rw [Step, h] at edge
    cases edge
  | step h _ ih =>
    intro cycle
    exact ih (cycle_of_reachable cycle (.single h))

/-! ### The loop with a visited set -/

variable [Ord α] [TransOrd α] [LawfulEqOrd α]

/-- The loop that follows a chain: it answers `true` at a visited point and
`false` where the chain stops. -/
inductive Walk (next : α → Option α) : BTreeSet α → α → Bool → Prop
  | back {visited : BTreeSet α} {a : α} (h : a ∈ visited) : Walk next visited a true
  | stop {visited : BTreeSet α} {a : α} (h : a ∉ visited) (hstop : next a = none) :
      Walk next visited a false
  | step {visited : BTreeSet α} {a b : α} {answer : Bool} (h : a ∉ visited)
      (hstep : next a = some b) (rest : Walk next (visited.insert a) b answer) :
      Walk next visited a answer

variable {visited : BTreeSet α}

/-- What is above a point, together with the point, is above the next one. -/
theorem transGen_of_mem_insert (hstep : next a = some b)
    (habove : ∀ v ∈ visited, TransGen (Step next) v a) :
    ∀ v ∈ visited.insert a, TransGen (Step next) v b := by
  intro v hv
  rcases ExtTreeSet.mem_insert.mp hv with heq | hv
  · rw [Std.compare_eq_iff_eq] at heq
    exact heq ▸ .single hstep
  · exact (habove v hv).tail hstep

/-- The answer `true`, with only points above the start visited, means that the
chain runs into a cycle. -/
theorem Walk.cycle_of_true {answer : Bool} (h : Walk next visited a answer)
    (habove : ∀ v ∈ visited, TransGen (Step next) v a) (htrue : answer = true) :
    ∃ c, ReflTransGen (Step next) a c ∧ TransGen (Step next) c c := by
  induction h with
  | @back visited a h => exact ⟨a, .refl, habove a h⟩
  | stop => cases htrue
  | @step visited a b answer h hstep rest ih =>
    obtain ⟨c, walk, cycle⟩ := ih (transGen_of_mem_insert hstep habove) htrue
    exact ⟨c, .head hstep walk, cycle⟩

omit [LawfulEqOrd α] in
/-- The answer `false` means that the chain stops. -/
theorem Walk.ends_of_false {answer : Bool} (h : Walk next visited a answer)
    (hfalse : answer = false) : Ends next a := by
  induction h with
  | back => cases hfalse
  | stop h hstop => exact .stop hstop
  | step h hstep rest ih => exact .step hstep (ih hfalse)

omit [LawfulEqOrd α] in
/-- A round that goes on leaves fewer points with a successor unvisited. -/
theorem length_unvisited_lt {support : List α} (hsupport : ∀ a b, next a = some b → a ∈ support)
    (h : a ∉ visited) (hstep : next a = some b) :
    (support.filter (· ∉ visited.insert a)).length < (support.filter (· ∉ visited)).length := by
  have hsub : (support.filter (· ∉ visited.insert a)).Sublist (support.filter (· ∉ visited)) := by
    refine List.monotone_filter_right support fun v hv => ?_
    simp only [decide_eq_true_eq] at hv ⊢
    exact fun hmem => hv (ExtTreeSet.mem_insert.mpr (.inr hmem))
  refine Nat.lt_of_le_of_ne hsub.length_le fun heq => ?_
  have hlist := hsub.eq_of_length heq
  have hmem : a ∈ support.filter (· ∉ visited) :=
    List.mem_filter.mpr ⟨hsupport a b hstep, by simpa using h⟩
  rw [← hlist] at hmem
  simpa using (List.mem_filter.mp hmem).2

end Chain
