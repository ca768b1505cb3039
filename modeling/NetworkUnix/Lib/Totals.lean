/-
This file adds up what the entries of a table weigh, over any finite set of entries.
When one entry changes, the total changes by the difference of its weights. An entry
without weight may be counted or left out.
-/

import Mathlib.Algebra.BigOperators.Group.Finset.Basic
import Mathlib.Algebra.Order.BigOperators.Group.Finset

namespace Totals

variable {Index Value : Type} {weight : Value → Nat} {table : Index → Value} {counted : Finset Index}

/-- The weight of the entries that are counted. -/
def total (weight : Value → Nat) (table : Index → Value) (counted : Finset Index) : Nat :=
  counted.sum fun index => weight (table index)

variable [DecidableEq Index]

theorem total_update (weight : Value → Nat) (table : Index → Value) {index : Index}
    (member : index ∈ counted) (value : Value) :
    total weight (Function.update table index value) counted + weight (table index) =
      total weight table counted + weight value := by
  unfold total
  have others : ((counted.erase index).sum fun other =>
      weight (Function.update table index value other)) =
        (counted.erase index).sum fun other => weight (table other) := by
    refine Finset.sum_congr rfl fun other isOther => ?_
    rw [Function.update_of_ne (Finset.ne_of_mem_erase isOther)]
  rw [← Finset.add_sum_erase counted _ member, ← Finset.add_sum_erase counted _ member, others,
    Function.update_self]
  omega

theorem total_insert {index : Index} (light : weight (table index) = 0) :
    total weight table (insert index counted) = total weight table counted := by
  unfold total
  by_cases member : index ∈ counted
  · rw [Finset.insert_eq_of_mem member]
  · rw [Finset.sum_insert member, light, Nat.zero_add]

omit [DecidableEq Index] in
theorem total_le {other : Value → Nat} (lighter : ∀ value, weight value ≤ other value) :
    total weight table counted ≤ total other table counted :=
  Finset.sum_le_sum fun index _ => lighter (table index)

end Totals
