/-
This file collects what the proofs need about a table with a fixed number of
entries: how a sum over the entries changes when one entry does, how many entries
the slots of another table refer to, and the induction over a loop that visits the
entries in order.
-/

import Mathlib.Algebra.BigOperators.Group.Finset.Basic
import Mathlib.Algebra.BigOperators.Fin
import Mathlib.Algebra.Order.BigOperators.Group.Finset
import Mathlib.Logic.Function.Basic
import Mathlib.Logic.Relation
import Mathlib.Tactic.Abel

namespace Table

open scoped BigOperators

section Sum

variable {ι α : Type} [Fintype ι] [DecidableEq ι]

theorem sum_update (t : ι → α) (value : α → Int) (i : ι) (a : α) :
    ∑ j, value (Function.update t i a j) = ∑ j, value (t j) - value (t i) + value a := by
  rw [← Finset.add_sum_erase _ _ (Finset.mem_univ i),
    ← Finset.add_sum_erase (a := i) Finset.univ (fun j => value (t j)) (Finset.mem_univ i),
    Function.update_self]
  have same : ∑ j ∈ Finset.univ.erase i, value (Function.update t i a j) =
      ∑ j ∈ Finset.univ.erase i, value (t j) := by
    refine Finset.sum_congr rfl fun j member => ?_
    rw [Function.update_of_ne (Finset.ne_of_mem_erase member)]
  rw [same]
  abel

omit [Fintype ι] in
theorem apply_update {β : Type} (t : ι → α) (field : α → β) (i : ι) (a : α) :
    (fun j => field (Function.update t i a j)) =
      Function.update (fun j => field (t j)) i (field a) := by
  funext j
  exact Function.apply_update (fun _ => field) t i a j

theorem sum_referenced {κ : Type} [Fintype κ] (slot : κ → Option ι)
    (apart : ∀ k k' i, slot k = some i → slot k' = some i → k = k')
    [DecidablePred fun i => ∃ k, slot k = some i] :
    ∑ i, (if ∃ k, slot k = some i then (1 : Int) else 0) =
      ∑ k, if (slot k).isSome then (1 : Int) else 0 := by
  have entries : ∀ i, (if ∃ k, slot k = some i then (1 : Int) else 0) =
      ∑ k, if slot k = some i then (1 : Int) else 0 := by
    intro i
    by_cases referred : ∃ k, slot k = some i
    · obtain ⟨k, here⟩ := referred
      rw [if_pos ⟨k, here⟩, Fintype.sum_eq_single k fun k' elsewhere =>
        if_neg fun there => elsewhere (apart k' k i there here), if_pos here]
    · rw [if_neg referred]
      exact (Finset.sum_eq_zero fun k _ => if_neg fun here => referred ⟨k, here⟩).symm
  have slots : ∀ k, (if (slot k).isSome then (1 : Int) else 0) =
      ∑ i, if slot k = some i then (1 : Int) else 0 := by
    intro k
    cases here : slot k with
    | none => exact (Finset.sum_eq_zero fun i _ => if_neg (Option.some_ne_none i).symm).symm
    | some j =>
      rw [Fintype.sum_eq_single j fun i apart => if_neg fun same => apart (Option.some.inj same).symm,
        if_pos rfl]
      rfl
  rw [Finset.sum_congr rfl fun i _ => entries i, Finset.sum_congr rfl fun k _ => slots k,
    Finset.sum_comm]

end Sum

section Loop

variable {State Entry : Type}

theorem foldl_keeps (holds : State → Prop) (visit : State → Entry → State) (entries : List Entry)
    (kept : ∀ s, ∀ e ∈ entries, holds s → holds (visit s e)) {s : State} (held : holds s) :
    holds (entries.foldl visit s) := by
  induction entries generalizing s with
  | nil => exact held
  | cons e rest inductionHypothesis =>
    refine inductionHypothesis (fun s e member => kept s e (List.mem_cons_of_mem _ member)) ?_
    exact kept s e List.mem_cons_self held

end Loop

end Table
