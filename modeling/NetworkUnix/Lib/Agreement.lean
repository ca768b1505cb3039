/-
This file states how two parties agree on a switch by requests and replies that look alike: a
party takes the next message for the reply if it has a request open, and for a request
otherwise. As long as a party only asks for what it does not have and has no request open,
each request is answered once, and when no message is under way both have the same.
-/

import Mathlib.Init

namespace Agreement

/-- A party: where its switch stands, whether a request of its own is open, and whether it is able
to turn the switch on. -/
structure Party where
  state : Bool
  asked : Bool
  able : Bool
  deriving DecidableEq

/-- A message, and whether it was sent as a request. -/
structure Note where
  value : Bool
  asks : Bool
  deriving DecidableEq

/-- The party after it has asked. -/
def Party.ask (p : Party) : Party := { p with asked := true }

/-- The party after a message, and what it sends. -/
def Party.hear (p : Party) (value : Bool) : Party × List Note :=
  if p.asked then ({ p with state := value, asked := false }, [])
  else if p.state = value then (p, [])
  else if value && !p.able then (p, [⟨false, false⟩])
  else ({ p with state := value }, [⟨value, false⟩])

/-- How things can stand: all is quiet; `x` has asked; both have asked for the same; the message
that `x` takes for its reply is under way; behind it there is a request of `y`. -/
inductive Talk (x y : Party) : List Note → List Note → Prop
  | quiet (same : x.state = y.state) (calm : x.asked = false) (calm' : y.asked = false) :
      Talk x y [] []
  | asked (value : Bool) (waits : x.asked = true) (calm : y.asked = false)
      (here : x.state = !value) (there : y.state = !value) : Talk x y [] [⟨value, true⟩]
  | crossed (value : Bool) (waits : x.asked = true) (waits' : y.asked = true)
      (here : x.state = !value) (there : y.state = !value) :
      Talk x y [⟨value, true⟩] [⟨value, true⟩]
  | answered (value asks : Bool) (waits : x.asked = true) (calm : y.asked = false)
      (there : y.state = value) : Talk x y [⟨value, asks⟩] []
  | again (value asks : Bool) (waits : x.asked = true) (waits' : y.asked = true)
      (there : y.state = value) : Talk x y [⟨value, asks⟩, ⟨!value, true⟩] []

/-- The same from either side. -/
def Talks (x y : Party) (toX toY : List Note) : Prop := Talk x y toX toY ∨ Talk y x toY toX

variable {x y : Party} {toX toY : List Note}

theorem Talks.swap (talks : Talks x y toX toY) : Talks y x toY toX := Or.symm talks

theorem Talks.ask (talks : Talks x y toX toY) (calm : x.asked = false) {value : Bool}
    (other : x.state = !value) : Talks x.ask y toX (toY ++ [⟨value, true⟩]) := by
  rcases talks with talk | talk
  · cases talk with
    | quiet same _ calm' => exact .inl (.asked value rfl calm' other (same.symm.trans other))
    | asked _ waits => exact absurd (waits.symm.trans calm) Bool.noConfusion
    | crossed _ waits => exact absurd (waits.symm.trans calm) Bool.noConfusion
    | answered _ _ waits => exact absurd (waits.symm.trans calm) Bool.noConfusion
    | again _ _ waits => exact absurd (waits.symm.trans calm) Bool.noConfusion
  · cases talk with
    | quiet same calm' _ => exact .inl (.asked value rfl calm' other (same.trans other))
    | asked value' waits _ there here =>
      have same : value' = value := Bool.not_inj (here.symm.trans other)
      rw [same] at there ⊢
      exact .inl (.crossed value rfl waits other there)
    | crossed _ _ waits' => exact absurd (waits'.symm.trans calm) Bool.noConfusion
    | answered value' asks waits _ there =>
      have turned : value = !value' := by
        rw [← there, other, Bool.not_not]
      rw [turned]
      exact .inr (.again value' asks waits rfl there)
    | again _ _ _ waits' => exact absurd (waits'.symm.trans calm) Bool.noConfusion

theorem Party.hear_asked {p : Party} (waits : p.asked = true) (value : Bool) :
    p.hear value = ({ p with state := value, asked := false }, []) :=
  if_pos waits

theorem Party.hear_calm {p : Party} (calm : p.asked = false) {value : Bool}
    (other : p.state = !value) : ∃ answer, p.hear value =
      ({ p with state := answer }, [⟨answer, false⟩]) := by
  unfold Party.hear
  rw [if_neg (by rw [calm]; exact Bool.false_ne_true), if_neg (by rw [other]; cases value <;> decide)]
  by_cases refuses : (value && !p.able) = true
  · rw [if_pos refuses]
    rw [Bool.and_eq_true] at refuses
    refine ⟨false, ?_⟩
    rw [show p = { p with state := false } by rw [← show p.state = false by rw [other, refuses.1]; rfl]]
  · rw [if_neg refuses]
    exact ⟨value, rfl⟩

theorem Talks.hear {note : Note} (talks : Talks x y (note :: toX) toY) :
    Talks (x.hear note.value).1 y toX (toY ++ (x.hear note.value).2) ∧
      (x.hear note.value).2.length ≤ note.asks.toNat ∧
      ∀ answer ∈ (x.hear note.value).2, answer.asks = false := by
  rcases talks with talk | talk
  · cases talk with
    | crossed value waits waits' here there =>
      rw [Party.hear_asked waits, List.append_nil]
      exact ⟨.inr (.answered value true waits' rfl rfl), Nat.zero_le _,
        fun _ member => absurd member List.not_mem_nil⟩
    | answered value asks waits calm there =>
      rw [Party.hear_asked waits, List.append_nil]
      exact ⟨.inl (.quiet there.symm rfl calm), Nat.zero_le _,
        fun _ member => absurd member List.not_mem_nil⟩
    | again value asks waits waits' there =>
      rw [Party.hear_asked waits, List.append_nil]
      exact ⟨.inr (.asked (!value) waits' rfl (by rw [Bool.not_not]; exact there)
        (Bool.not_not value).symm), Nat.zero_le _, fun _ member => absurd member List.not_mem_nil⟩
  · cases talk with
    | asked value waits calm there here =>
      obtain ⟨answer, hears⟩ := Party.hear_calm calm here
      rw [hears]
      refine ⟨.inr (.answered answer false waits calm rfl), Nat.le_refl 1, fun other member => ?_⟩
      rw [List.mem_singleton.mp member]
    | crossed value waits' waits there here =>
      rw [Party.hear_asked waits, List.append_nil]
      exact ⟨.inr (.answered value true waits' rfl rfl), Nat.zero_le _,
        fun _ member => absurd member List.not_mem_nil⟩

theorem Talks.agree (talks : Talks x y [] []) :
    x.state = y.state ∧ x.asked = false ∧ y.asked = false := by
  rcases talks with talk | talk
  · cases talk with
    | quiet same calm calm' => exact ⟨same, calm, calm'⟩
  · cases talk with
    | quiet same calm calm' => exact ⟨same.symm, calm', calm⟩

end Agreement
