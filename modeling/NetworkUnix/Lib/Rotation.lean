/-
This file states how packets are delivered over channels that are used in rotation. The
sender has at most as many packets under way as there are channels and may send each of
them again and again; the receiver accepts packets in the order of their numbers and
tells the sender how many it has accepted. The line keeps the order of what it carries
and may lose anything.

The number of a packet on the line and the number that the receiver expects differ by
at most the number of channels. So the receiver need not see the numbers: one that agrees
with the expected number modulo twice the number of channels is the expected number.
-/

import Mathlib.Data.List.Basic

namespace Rotation

/-- How many packets have been built; how many the sender knows to be accepted; how many are
accepted; the numbers of the packets on the line; and what the receiver has told that is still on
the line. -/
structure Line where
  built : Nat
  seen : Nat
  accepted : Nat
  data : List Nat
  acks : List Nat

/-- With so many channels. -/
structure Ordered (n : Nat) (l : Line) : Prop where
  acks : (l.seen :: (l.acks ++ [l.accepted])).Pairwise (· ≤ ·)
  built : l.accepted ≤ l.built
  window : l.built ≤ l.seen + n
  data : ∀ k ∈ l.data, k < l.built ∧ l.accepted ≤ k + n
  order : l.data.Pairwise fun k later => k < later + n

variable {n : Nat} {l : Line}

section

variable (ordered : Ordered n l)
include ordered

theorem Ordered.seen_le : l.seen ≤ l.accepted :=
  (List.pairwise_cons.mp ordered.acks).1 l.accepted (List.mem_append_right _ (List.mem_singleton_self _))

theorem Ordered.told {a : Nat} (member : a ∈ l.acks) :
    l.seen ≤ a ∧ a ≤ l.accepted := by
  obtain ⟨first, others⟩ := List.pairwise_cons.mp ordered.acks
  exact ⟨first a (List.mem_append_left _ member),
    (List.pairwise_append.mp others).2.2 a member l.accepted (List.mem_singleton_self _)⟩

theorem Ordered.fill {m : Nat} (more : l.built ≤ m) (free : m ≤ l.seen + n) :
    Ordered n { l with built := m } := by
  refine { ordered with built := ?_, window := free, data := fun k member => ?_ }
  · exact Nat.le_trans ordered.built more
  · have old := ordered.data k member
    exact ⟨Nat.lt_of_lt_of_le old.1 more, old.2⟩

theorem Ordered.send {k : Nat} (unseen : l.seen ≤ k) (isBuilt : k < l.built) :
    Ordered n { l with data := l.data ++ [k] } := by
  have window := ordered.window
  have accepted := ordered.built
  refine { ordered with data := fun j member => ?_, order := ?_ }
  · rcases List.mem_append.mp member with earlier | now
    · exact ordered.data j earlier
    · rw [List.mem_singleton.mp now]
      exact ⟨isBuilt, by show l.accepted ≤ k + n; omega⟩
  · refine List.pairwise_append.mpr ⟨ordered.order, List.pairwise_singleton _ _, ?_⟩
    intro j member later now
    rw [List.mem_singleton.mp now]
    have bound := (ordered.data j member).1
    omega

theorem Ordered.loseData {data : List Nat} (kept : data.Sublist l.data) :
    Ordered n { l with data := data } :=
  { ordered with
    data := fun k member => ordered.data k (kept.subset member)
    order := ordered.order.sublist kept }

theorem Ordered.loseAcks {acks : List Nat} (kept : acks.Sublist l.acks) :
    Ordered n { l with acks := acks } :=
  { ordered with
    acks := ordered.acks.sublist ((kept.append (List.Sublist.refl _)).cons_cons _) }

theorem Ordered.tell : Ordered n { l with acks := l.acks ++ [l.accepted] } := by
  obtain ⟨first, others⟩ := List.pairwise_cons.mp ordered.acks
  refine { ordered with acks := List.pairwise_cons.mpr ⟨fun a member => ?_, ?_⟩ }
  · rcases List.mem_append.mp member with earlier | now
    · exact first a earlier
    · rw [List.mem_singleton.mp now]
      exact ordered.seen_le
  · refine List.pairwise_append.mpr ⟨others, List.pairwise_singleton _ _, fun a member b now => ?_⟩
    rw [List.mem_singleton.mp now]
    rcases List.mem_append.mp member with earlier | same
    · exact (ordered.told earlier).2
    · exact Nat.le_of_eq (List.mem_singleton.mp same)

theorem Ordered.hear {a : Nat} {rest : List Nat} (acks : l.acks = a :: rest) :
    Ordered n { l with seen := a, acks := rest } := by
  have told := ordered.told (by rw [acks]; exact List.mem_cons_self)
  have window := ordered.window
  have sorted := ordered.acks
  rw [acks] at sorted
  exact { ordered with
    acks := (List.pairwise_cons.mp sorted).2
    window := by
      show l.built ≤ a + n
      omega }

theorem Ordered.accept {rest : List Nat} (data : l.data = l.accepted :: rest) :
    Ordered n { l with accepted := l.accepted + 1, data := rest } := by
  have first := ordered.data l.accepted (by rw [data]; exact List.mem_cons_self)
  have order := ordered.order
  rw [data, List.pairwise_cons] at order
  obtain ⟨least, others⟩ := List.pairwise_cons.mp ordered.acks
  refine ⟨List.pairwise_cons.mpr ⟨fun a member => ?_, ?_⟩, first.1, ordered.window, fun k member => ?_,
    order.2⟩
  · rcases List.mem_append.mp member with earlier | now
    · exact least a (List.mem_append_left _ earlier)
    · rw [List.mem_singleton.mp now]
      exact Nat.le_succ_of_le ordered.seen_le
  · refine List.pairwise_append.mpr ⟨(List.pairwise_append.mp others).1, List.pairwise_singleton _ _,
      fun a member b now => ?_⟩
    rw [List.mem_singleton.mp now]
    exact Nat.le_succ_of_le (ordered.told member).2
  · have later := order.1 k member
    have old := ordered.data k (by rw [data]; exact List.mem_cons_of_mem _ member)
    exact ⟨old.1, by show l.accepted + 1 ≤ k + n; omega⟩

theorem Ordered.expected {k : Nat} (member : k ∈ l.data)
    (agrees : k % (2 * n) = l.accepted % (2 * n)) : k = l.accepted := by
  have data := ordered.data k member
  have window := ordered.window
  have seen := ordered.seen_le
  have above := Nat.div_add_mod k (2 * n)
  have below := Nat.div_add_mod l.accepted (2 * n)
  have positive : 0 < n := by omega
  rcases Nat.lt_trichotomy (k / (2 * n)) (l.accepted / (2 * n)) with less | same | more
  · have gap := Nat.mul_le_mul_left (2 * n) (Nat.succ_le_of_lt less)
    rw [Nat.mul_succ] at gap
    omega
  · rw [same, agrees] at above
    omega
  · have gap := Nat.mul_le_mul_left (2 * n) (Nat.succ_le_of_lt more)
    rw [Nat.mul_succ] at gap
    omega

end

end Rotation
