/-
Runs of a deterministic machine with partial operations.

A `Machine` answers an operation with a new state and a reply, or with `none`
when nobody can issue the operation in that state. A run keeps its whole
history: each `Event` records the state before, the operation, the reply and
the state after, so properties about what happened earlier need no ghost state.

`Run.invariant` is the induction rule for facts about the history and the
current state, `Run.split` recovers the run up to any event, and `Run.stable`
carries a fact from the event that established it to the end. `replay` runs a
list of operations, which is how concrete runs are built.
-/

import Mathlib.Tactic.Common

/-- An initial state and a partial step function. -/
structure Machine (S O R : Type) where
  initial : S
  step : S → O → Option (S × R)

/-- One step of a run. -/
structure Event (S O R : Type) where
  before : S
  op : O
  reply : R
  after : S

namespace Machine

variable {S O R : Type} (m : Machine S O R)

/-- `m.Run trace s`: the steps of `trace` lead from the initial state to `s`. -/
inductive Run : List (Event S O R) → S → Prop
  | start : Run [] m.initial
  | step {trace : List (Event S O R)} {s s' : S} {op : O} {reply : R} :
      Run trace s → m.step s op = some (s', reply) → Run (trace ++ [⟨s, op, reply, s'⟩]) s'

variable {m}

variable {s : S} {trace future past : List (Event S O R)} {e : Event S O R}

theorem Run.invariant {P : List (Event S O R) → S → Prop} (start : P [] m.initial)
    (preserved : ∀ trace s op s' reply, m.Run trace s → P trace s →
      m.step s op = some (s', reply) → P (trace ++ [⟨s, op, reply, s'⟩]) s') (run : m.Run trace s) :
    P trace s := by
  induction run with
  | start => exact start
  | step run hstep ih => exact preserved _ _ _ _ _ run ih hstep

/-- The last event of a history either is the marked one or comes after it. -/
private theorem snoc_cases {last : Event S O R} (h : past ++ e :: future = trace ++ [last]) :
    (past = trace ∧ e = last) ∨ ∃ front, past ++ e :: front = trace := by
  rcases List.eq_nil_or_concat future with rfl | ⟨front, final, rfl⟩
  · obtain ⟨hpast, hlast⟩ := List.append_inj' h rfl
    cases hlast
    exact Or.inl ⟨hpast, rfl⟩
  · have hsplit : (past ++ e :: front) ++ [final] = trace ++ [last] := by simpa using h
    exact Or.inr ⟨front, (List.append_inj' hsplit rfl).1⟩

/-- Every event of a run is a step from a state the earlier events reach. -/
theorem Run.split (run : m.Run (past ++ e :: future) s) :
    m.Run past e.before ∧ m.step e.before e.op = some (e.after, e.reply) := by
  generalize htrace : past ++ e :: future = trace at run
  induction run generalizing future with
  | start => simp at htrace
  | step run hstep ih =>
    rcases snoc_cases htrace with ⟨rfl, rfl⟩ | ⟨front, hfront⟩
    · exact ⟨run, hstep⟩
    · exact ih hfront

/-- A fact established by an event and kept by every later step still holds at
the end. -/
theorem Run.stable {P : S → Prop} (run : m.Run (past ++ e :: future) s) (established : P e.after)
    (kept : ∀ trace s op s' reply, m.Run trace s → P s → m.step s op = some (s', reply) → P s') :
    P s := by
  generalize htrace : past ++ e :: future = trace at run
  induction run generalizing future with
  | start => simp at htrace
  | step run hstep ih =>
    rcases snoc_cases htrace with ⟨rfl, rfl⟩ | ⟨front, hfront⟩
    · exact established
    · exact kept _ _ _ _ _ run (ih hfront) hstep

/-! ### Concrete runs -/

/-- Run a list of operations, recording every step. -/
def replayFrom (m : Machine S O R) (s : S) : List O → Option (List (Event S O R) × S)
  | [] => some ([], s)
  | op :: rest =>
      match m.step s op with
      | none => none
      | some (s', reply) =>
          (replayFrom m s' rest).map fun result => (⟨s, op, reply, s'⟩ :: result.1, result.2)

/-- Run a list of operations from the initial state. -/
def replay (m : Machine S O R) (ops : List O) : Option (List (Event S O R) × S) :=
  replayFrom m m.initial ops

theorem Run.replayFrom {ops : List O} {s' : S} (run : m.Run past s)
    (h : m.replayFrom s ops = some (trace, s')) : m.Run (past ++ trace) s' := by
  induction ops generalizing past trace s with
  | nil =>
    cases h
    simpa using run
  | cons op rest ih =>
    cases hstep : m.step s op with
    | none => simp [Machine.replayFrom, hstep] at h
    | some next =>
      obtain ⟨mid, reply⟩ := next
      simp only [Machine.replayFrom, hstep, Option.map_eq_some_iff] at h
      obtain ⟨⟨later, final⟩, hlater, heq⟩ := h
      cases heq
      have := ih (run.step hstep) hlater
      simpa using this

theorem run_of_replay {ops : List O} (h : m.replay ops = some (trace, s)) : m.Run trace s := by
  have := Run.replayFrom Run.start h
  simpa using this

end Machine
