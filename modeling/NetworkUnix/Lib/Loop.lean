/-
This file gives the loops of a program as data. The body of a loop looks at the state and
either ends with a result or goes round again, and a measure that every further round lowers
is part of the loop, so a loop that never ends cannot be built. What the rounds yield on
their way is joined to the result. A loop unfolds as the program's own does, and a fact about
its result follows from the two ways a round can go.
-/

import Mathlib.Init

/-- A loop: its body, how what a round yields is joined to the result, and why it ends. -/
structure Loop (State Item Out : Type) where
  body : State → (Item × State) ⊕ Out
  join : Item → Out → Out
  measure : State → Nat
  lowers : ∀ state item next, body state = .inl (item, next) → measure next < measure state

namespace Loop

variable {State Item Out : Type} (l : Loop State Item Out)

/-- The rounds from a state, of which `rounds` are more than enough. -/
def rounds : (most : Nat) → (state : State) → l.measure state < most → Out
  | 0, _, few => absurd few (Nat.not_lt_zero _)
  | most + 1, state, few =>
    match taken : l.body state with
    | .inr out => out
    | .inl (item, next) =>
      l.join item (rounds most next
        (Nat.lt_of_lt_of_le (l.lowers state item next taken) (Nat.le_of_lt_succ few)))

/-- The result of the loop from a state. -/
def run (state : State) : Out := l.rounds (l.measure state + 1) state (Nat.lt_succ_self _)

theorem rounds_eq {most more : Nat} {state : State} (few : l.measure state < most)
    (fewer : l.measure state < more) : l.rounds most state few = l.rounds more state fewer := by
  induction most generalizing more state with
  | zero => exact absurd few (Nat.not_lt_zero _)
  | succ most inductionHypothesis =>
    cases more with
    | zero => exact absurd fewer (Nat.not_lt_zero _)
    | succ more =>
      unfold rounds
      split
      next => rfl
      next item next taken => exact congrArg (l.join item) (inductionHypothesis _ _)

variable {l}

theorem run_done {state : State} {out : Out} (ends : l.body state = .inr out) :
    l.run state = out := by
  unfold run rounds
  split
  next result taken => exact Sum.inr.inj (taken.symm.trans ends)
  next item next taken => exact absurd (taken.symm.trans ends) Sum.inl_ne_inr

theorem run_again {state next : State} {item : Item}
    (again : l.body state = .inl (item, next)) : l.run state = l.join item (l.run next) := by
  unfold run
  conv => lhs; unfold rounds
  split
  next result taken => exact absurd (taken.symm.trans again) Sum.inr_ne_inl
  next _ _ taken =>
    obtain ⟨rfl, rfl⟩ := Prod.mk.inj (Sum.inl.inj (taken.symm.trans again))
    exact congrArg (l.join _) (l.rounds_eq _ _)

theorem run_induct (holds : State → Out → Prop)
    (done : ∀ state out, l.body state = .inr out → holds state out)
    (again : ∀ state item next, l.body state = .inl (item, next) → holds next (l.run next) →
      holds state (l.join item (l.run next)))
    (state : State) : holds state (l.run state) := by
  induction size : l.measure state using Nat.strongRecOn generalizing state with
  | ind _ inductionHypothesis =>
    cases taken : l.body state with
    | inr out =>
      rw [run_done taken]
      exact done state out taken
    | inl round =>
      obtain ⟨item, next⟩ := round
      have lower := l.lowers state item next taken
      rw [run_again taken]
      exact again state item next taken (inductionHypothesis _ (size ▸ lower) next rfl)

end Loop
