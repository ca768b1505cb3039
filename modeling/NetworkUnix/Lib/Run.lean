/-
This file states runs of a transition system and the induction that every
safety result uses: what holds at the start and is kept by every step holds at
the end of every run. The history of the run is part of the induction, so an
invariant may speak of everything that has happened so far.
-/

import Mathlib.Init

namespace Transition

variable {State Event : Type}

/-- A run: the events that lead from one state to another, each a step of the system. -/
inductive Run (step : State → Event → State → Prop) (first : State) :
    List Event → State → Prop
  | start : Run step first [] first
  | step {history : List Event} {state next : State} {event : Event}
      (run : Run step first history state) (taken : step state event next) :
      Run step first (history ++ [event]) next

/-- The steps of a system that also meet a condition on the state before and the event. -/
def Guarded (step : State → Event → State → Prop) (condition : State → Event → Prop)
    (state : State) (event : Event) (next : State) : Prop :=
  condition state event ∧ step state event next

variable {step : State → Event → State → Prop} {first : State}

theorem Run.invariant (holds : List Event → State → Prop) (initially : holds [] first)
    (kept : ∀ history state event next, holds history state → step state event next →
      holds (history ++ [event]) next)
    {history : List Event} {state : State} (run : Run step first history state) :
    holds history state := by
  induction run with
  | start => exact initially
  | step _ taken inductionHypothesis => exact kept _ _ _ _ inductionHypothesis taken

theorem Run.always (holds : State → Prop) (initially : holds first)
    (kept : ∀ state event next, holds state → step state event next → holds next)
    {history : List Event} {state : State} (run : Run step first history state) :
    holds state :=
  run.invariant (fun _ state => holds state) initially
    fun _ state event next held taken => kept state event next held taken

theorem Run.mono {more : State → Event → State → Prop}
    (steps : ∀ state event next, step state event next → more state event next)
    {history : List Event} {state : State} (run : Run step first history state) :
    Run more first history state := by
  induction run with
  | start => exact .start
  | step _ taken inductionHypothesis => exact inductionHypothesis.step (steps _ _ _ taken)

/-- What the steps keep between two systems holds between a run of the one and some run of the other
with the same events. -/
theorem Run.simulated {Other : Type} {other : Other → Event → Other → Prop}
    (agrees : State → Other → Prop) {start : Other} (initially : agrees first start)
    (both : ∀ state event next q, agrees state q → step state event next →
      ∃ after, other q event after ∧ agrees next after)
    {history : List Event} {state : State} (run : Run step first history state) :
    ∃ q, Run other start history q ∧ agrees state q := by
  induction run with
  | start => exact ⟨start, .start, initially⟩
  | step _ taken inductionHypothesis =>
    obtain ⟨q, follows, agreed⟩ := inductionHypothesis
    obtain ⟨after, further, agreed⟩ := both _ _ _ q agreed taken
    exact ⟨after, follows.step further, agreed⟩

/-- A list of events that can be taken one after another, when `next` computes the effect of an
event. -/
def Follows (step : State → Event → State → Prop) (next : State → Event → State) :
    State → List Event → Prop
  | _, [] => True
  | state, event :: rest =>
    step state event (next state event) ∧ Follows step next (next state event) rest

theorem Run.follows {next : State → Event → State} {history events : List Event} {state : State}
    (run : Run step first history state) (follows : Follows step next state events) :
    Run step first (history ++ events) (events.foldl next state) := by
  induction events generalizing history state with
  | nil =>
    rw [List.append_nil]
    exact run
  | cons event rest inductionHypothesis =>
    have prolonged := inductionHypothesis (run.step follows.1) follows.2
    rw [List.append_assoc] at prolonged
    exact prolonged

theorem Follows.append {next : State → Event → State} {state : State} {events more : List Event}
    (first : Follows step next state events)
    (second : Follows step next (events.foldl next state) more) :
    Follows step next state (events ++ more) := by
  induction events generalizing state with
  | nil => exact second
  | cons event rest inductionHypothesis =>
    exact ⟨first.1, inductionHypothesis first.2 second⟩

/-- The steps of a function that has no result for an event that cannot happen. -/
def Takes (act : State → Event → Option State) (state : State) (event : Event) (next : State) :
    Prop :=
  act state event = some next

/-- A list of events that such a function takes one after another while a condition holds. -/
def Can (act : State → Event → Option State) (condition : State → Event → Prop) :
    State → List Event → Prop
  | _, [] => True
  | state, event :: rest =>
    condition state event ∧
      match act state event with
      | some next => Can act condition next rest
      | none => False

/-- The state after a list of events. -/
def last (act : State → Event → Option State) (state : State) (events : List Event) : State :=
  events.foldl (fun state event => (act state event).getD state) state

instance decideCan {act : State → Event → Option State} {condition : State → Event → Prop}
    [∀ state event, Decidable (condition state event)] :
    ∀ (state : State) (events : List Event), Decidable (Can act condition state events)
  | _, [] => .isTrue trivial
  | state, event :: rest =>
    have : Decidable (match act state event with
        | some next => Can act condition next rest
        | none => False) :=
      match act state event with
      | some next => decideCan next rest
      | none => .isFalse id
    inferInstanceAs (Decidable (_ ∧ _))

theorem run_can {act : State → Event → Option State} {condition : State → Event → Prop}
    {events : List Event} (can : Can act condition first events) :
    Run (Guarded (Takes act) condition) first events (last act first events) := by
  have prolonged : ∀ (events history : List Event) (state : State),
      Run (Guarded (Takes act) condition) first history state → Can act condition state events →
        Run (Guarded (Takes act) condition) first (history ++ events) (last act state events) := by
    intro events
    induction events with
    | nil =>
      intro history state run _
      rw [List.append_nil]
      exact run
    | cons event rest inductionHypothesis =>
      intro history state run can
      obtain ⟨holds, others⟩ := can
      split at others
      next next taken =>
        have further := inductionHypothesis _ _ (run.step ⟨holds, taken⟩) others
        rw [List.append_assoc] at further
        unfold last at *
        rw [List.foldl_cons, taken]
        exact further
      next => cases others
  exact prolonged events [] first .start can

theorem run_all {act : State → Event → Option State} {events : List Event}
    (can : Can act (fun _ _ => True) first events) :
    Run (Takes act) first events (last act first events) :=
  (run_can can).mono fun _ _ _ taken => taken.2

end Transition
