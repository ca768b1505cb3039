/-
This file develops windows on a flat memory: the list of cells between two
addresses, and the copy of a block of cells from one memory to another or of a list
to a memory. A copy shows in a window that lies inside the block as the source
window, and not at all in a window outside it.
-/

import Mathlib.Data.List.Basic

namespace Memory

variable {Cell : Type}

/-- The `length` cells from `low` on. -/
def window (memory : Nat → Cell) (low length : Nat) : List Cell :=
  (List.range' low length).map memory

/-- Copy `length` cells of `source` from `origin` on to `target` from `destination` on. -/
def copy (source : Nat → Cell) (origin : Nat) (target : Nat → Cell) (destination length : Nat) :
    Nat → Cell := fun address =>
  if destination ≤ address ∧ address < destination + length then
    source (origin + (address - destination))
  else target address

/-- Put a list of cells in `target` from `destination` on. -/
def put (cells : List Cell) (destination : Nat) (target : Nat → Cell) : Nat → Cell := fun address =>
  if destination ≤ address then (cells[address - destination]?).getD (target address)
  else target address

@[simp] theorem length_window (memory : Nat → Cell) (low length : Nat) :
    (window memory low length).length = length := by
  simp [window]

@[simp] theorem window_zero (memory : Nat → Cell) (low : Nat) : window memory low 0 = [] := rfl

theorem window_append (memory : Nat → Cell) (low first second : Nat) :
    window memory low (first + second) =
      window memory low first ++ window memory (low + first) second := by
  simp only [window, ← List.map_append, List.range'_append_1]

theorem drop_window (memory : Nat → Cell) (low length count : Nat) :
    (window memory low length).drop count = window memory (low + count) (length - count) := by
  simp [window, ← List.map_drop, List.drop_range']

theorem take_window (memory : Nat → Cell) {low length count : Nat} (inside : count ≤ length) :
    (window memory low length).take count = window memory low count := by
  obtain ⟨rest, rfl⟩ := Nat.exists_eq_add_of_le inside
  rw [window_append, List.take_left' (length_window _ _ _)]

theorem window_congr {memory other : Nat → Cell} {low length : Nat}
    (same : ∀ address, low ≤ address → address < low + length → memory address = other address) :
    window memory low length = window other low length := by
  unfold window
  refine List.map_congr_left fun address inside => ?_
  rw [List.mem_range'_1] at inside
  exact same address inside.1 inside.2

theorem window_copy_outside (source target : Nat → Cell) (origin destination length low count : Nat)
    (apart : low + count ≤ destination ∨ destination + length ≤ low) :
    window (copy source origin target destination length) low count = window target low count := by
  refine window_congr fun address lower upper => if_neg ?_
  omega

theorem window_copy_self (source target : Nat → Cell) (origin destination length : Nat) :
    window (copy source origin target destination length) destination length =
      window source origin length := by
  unfold window
  refine List.ext_getElem (by simp) fun index bound _ => ?_
  simp only [List.length_map, List.length_range'] at bound
  simp only [List.getElem_map, List.getElem_range', copy, Nat.one_mul]
  rw [if_pos ⟨by omega, by omega⟩]
  congr 1
  omega

theorem put_at (cells : List Cell) (destination : Nat) (target : Nat → Cell) {index : Nat}
    (inside : index < cells.length) :
    put cells destination target (destination + index) = cells[index] := by
  unfold put
  rw [if_pos (by omega), Nat.add_sub_cancel_left, List.getElem?_eq_getElem inside,
    Option.getD_some]

theorem window_put_self (cells : List Cell) (destination : Nat) (target : Nat → Cell) :
    window (put cells destination target) destination cells.length = cells := by
  unfold window
  refine List.ext_getElem (by simp) fun index bound _ => ?_
  simp only [List.length_map, List.length_range'] at bound
  rw [List.getElem_map, List.getElem_range', Nat.one_mul, put_at cells destination target bound]

end Memory
