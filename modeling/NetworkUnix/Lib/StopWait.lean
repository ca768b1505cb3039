/-
This file states how a line delivers items with at most one message under way.
A message holds as many items from the front of the queue as fit. The items stay
on the queue until the message is acknowledged, so that they come first when it
has to be sent again; a flush drops the queue and what was under way.
-/

import NetworkUnix.Lib.Run
import Mathlib.Algebra.GroupWithZero.Nat
import Mathlib.Data.List.Basic

namespace StopWait

variable {Item : Type}

/-! ### Messages -/

/-- The items from the front that fit. -/
def fit (size : Item → Nat) : Nat → List Item → List Item
  | _, [] => []
  | limit, item :: rest => if size item ≤ limit then item :: fit size (limit - size item) rest else []

/-- The size of a message. -/
def total (size : Item → Nat) (items : List Item) : Nat := (items.map size).sum

variable {size : Item → Nat}

theorem fit_begins (size : Item → Nat) (limit : Nat) (items : List Item) :
    fit size limit items <+: items := by
  induction items generalizing limit with
  | nil => exact List.nil_prefix
  | cons item rest inductionHypothesis =>
    unfold fit
    split
    · exact List.cons_prefix_cons.mpr ⟨rfl, inductionHypothesis _⟩
    · exact List.nil_prefix

theorem total_fit (size : Item → Nat) (limit : Nat) (items : List Item) :
    total size (fit size limit items) ≤ limit := by
  induction items generalizing limit with
  | nil => exact Nat.zero_le _
  | cons item rest inductionHypothesis =>
    unfold fit
    split
    next fits =>
      have tail := inductionHypothesis (limit - size item)
      unfold total at tail ⊢
      rw [List.map_cons, List.sum_cons]
      omega
    next => exact Nat.zero_le _

theorem fit_append (size : Item → Nat) (limit : Nat) (items more : List Item) :
    fit size limit items <+: fit size limit (items ++ more) := by
  induction items generalizing limit with
  | nil => exact List.nil_prefix
  | cons item rest inductionHypothesis =>
    rw [List.cons_append]
    unfold fit
    split
    · exact List.cons_prefix_cons.mpr ⟨rfl, inductionHypothesis _⟩
    · exact List.nil_prefix

theorem fit_ne_nil {limit : Nat} {items : List Item} (some : items ≠ [])
    (small : ∀ item, size item ≤ limit) : fit size limit items ≠ [] := by
  cases items with
  | nil => exact absurd rfl some
  | cons item rest =>
    unfold fit
    rw [if_pos (small item)]
    exact List.cons_ne_nil _ _

/-! ### The line -/

/-- The queue, and the items at its front that are under way or to be sent again. -/
structure Line (Item : Type) where
  queue : List Item
  out : List Item

/-- What happens on a line: an item is queued, a message is sent, the acknowledgement of a message
takes items off the queue, the message is to be sent again, or the queue is dropped. -/
inductive Action (Item : Type)
  | put (item : Item)
  | send (message : List Item)
  | acked (message left : List Item)
  | again
  | flush

/-- The steps of a line. A message is what fits of the queue and starts with what is to be sent
again. On an exact line an acknowledgement takes off what is under way, which is what its message
held unless that was dropped, and nothing else. -/
inductive Step (size : Item → Nat) (limit : Nat) (exact : Prop) :
    Line Item → Action Item → Line Item → Prop
  | put (queue out : List Item) (item : Item) :
      Step size limit exact ⟨queue, out⟩ (.put item) ⟨queue ++ [item], out⟩
  | send (queue out message : List Item) (some : message ≠ [])
      (fits : message = fit size limit queue) (first : out <+: message) :
      Step size limit exact ⟨queue, out⟩ (.send message) ⟨queue, message⟩
  | acked (message left rest out : List Item)
      (right : exact → left = out ∧ (left = [] ∨ left = message)) :
      Step size limit exact ⟨left ++ rest, out⟩ (.acked message left) ⟨rest, []⟩
  | again (line : Line Item) : Step size limit exact line .again line
  | flush (queue out : List Item) : Step size limit exact ⟨queue, out⟩ .flush ⟨[], []⟩

/-- A history of a line that starts empty. -/
def Follows (size : Item → Nat) (limit : Nat) (exact : Prop) (history : List (Action Item))
    (queue out : List Item) : Prop :=
  Transition.Run (Step size limit exact) ⟨[], []⟩ history ⟨queue, out⟩

variable {limit : Nat} {exact : Prop} {history : List (Action Item)} {queue out : List Item}

section

variable (follows : Follows size limit exact history queue out)
include follows

theorem Follows.put (item : Item) :
    Follows size limit exact (history ++ [.put item]) (queue ++ [item]) out :=
  follows.step (.put queue out item)

theorem Follows.again :
    Follows size limit exact (history ++ [.again]) queue out :=
  follows.step (.again _)

theorem Follows.flush :
    Follows size limit exact (history ++ [.flush]) [] [] :=
  follows.step (.flush queue out)

theorem Follows.out_prefix :
    out <+: fit size limit queue := by
  refine @Transition.Run.invariant _ _ _ _ (fun _ line => line.out <+: fit size limit line.queue)
    List.nil_prefix ?_ _ _ follows
  intro _ line action next held taken
  cases taken with
  | put queue out item => exact held.trans (fit_append size limit queue [item])
  | send queue out message some fits first => exact fits ▸ List.prefix_refl _
  | acked message left rest out right => exact List.nil_prefix
  | again line => exact held
  | flush queue out => exact List.nil_prefix

theorem Follows.send (some : queue ≠ [])
    (small : ∀ item, size item ≤ limit) :
    Follows size limit exact (history ++ [.send (fit size limit queue)]) queue (fit size limit queue) :=
  follows.step (.send queue out _ (fit_ne_nil some small) rfl follows.out_prefix)

theorem Follows.acked (message : List Item)
    (count : Nat)
    (right : exact → queue.take count = out ∧ (queue.take count = [] ∨ queue.take count = message)) :
    Follows size limit exact (history ++ [.acked message (queue.take count)]) (queue.drop count)
      [] := by
  refine Transition.Run.step follows ?_
  have whole := @Step.acked _ size limit exact message (queue.take count) (queue.drop count) out right
  rw [List.take_append_drop] at whole
  exact whole

theorem Follows.message_total :
    ∀ message, Action.send message ∈ history → total size message ≤ limit := by
  refine @Transition.Run.invariant _ _ _ _ (fun history _ => ∀ message,
    Action.send message ∈ history → total size message ≤ limit)
    (fun _ inside => absurd inside List.not_mem_nil) ?_ _ _ follows
  intro history line action next held taken message inside
  rcases List.mem_append.mp inside with old | new
  · exact held message old
  · rw [List.mem_singleton] at new
    subst new
    cases taken with
    | send queue out message some fits first => exact fits ▸ total_fit size limit queue

end

end StopWait
