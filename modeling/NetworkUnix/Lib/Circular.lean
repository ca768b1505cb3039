/-
This file develops circular buffers that hold the end of a stream. Position `k` of the
stream is kept in cell `k % size`, so any stretch of the stream that is not longer than the
buffer can be read back from it, whatever was written before.
-/

import Mathlib.Data.List.Basic
import Mathlib.Logic.Function.Basic

namespace Circular

variable {Cell Other : Type} {size : Nat}

/-! ### Positions and cells -/

/-- The cell of a position of the stream. -/
def slot (size position : Nat) : Int := ((position % size : Nat) : Int)

theorem slot_nonneg (size position : Nat) : 0 ≤ slot size position :=
  Int.natCast_nonneg _

theorem slot_lt (positive : 0 < size) (position : Nat) : slot size position < size :=
  Int.ofNat_lt.mpr (Nat.mod_lt position positive)

theorem slot_add (positive : 0 < size) {position count : Nat} (atMost : count ≤ size) :
    slot size (position + count) =
      if (size : Int) ≤ slot size position + count then slot size position + count - size
      else slot size position + count := by
  have below := Nat.mod_lt position positive
  unfold slot
  rw [← Nat.mod_add_mod]
  by_cases crosses : size ≤ position % size + count
  · rw [if_pos (by omega), Nat.mod_eq_sub_mod crosses]
    by_cases turn : position % size + count - size < size
    · rw [Nat.mod_eq_of_lt turn]
      omega
    · omega
  · rw [if_neg (by omega), Nat.mod_eq_of_lt (by omega)]
    omega

theorem slot_sub (positive : 0 < size) {low high : Nat} (ordered : low ≤ high)
    (near : high < low + size) :
    (if slot size high - slot size low < 0 then slot size high - slot size low + size
      else slot size high - slot size low) = (high - low : Nat) := by
  obtain ⟨count, rfl⟩ := Nat.exists_eq_add_of_le ordered
  have moved := @slot_add size positive low count (by omega)
  have above := slot_nonneg size low
  have below := slot_lt positive low
  rw [moved]
  split <;> split <;> omega

theorem slot_ne (positive : 0 < size) {low high : Nat} (ordered : low < high)
    (near : high < low + size) : slot size low ≠ slot size high := by
  intro same
  have distance := slot_sub positive (Nat.le_of_lt ordered) near
  rw [same, Int.sub_self, if_neg (by omega)] at distance
  omega

/-! ### What the buffer holds -/

/-- The positions of the stream from `low` up to `high` are in the buffer. -/
def Holds (size : Nat) (cells : Int → Cell) (stream : List Cell) (low high : Nat) : Prop :=
  ∀ position, low ≤ position → position < high →
    stream[position]? = some (cells (slot size position))

theorem Holds.mono {cells : Int → Cell} {stream : List Cell} {low high low' high' : Nat}
    (holds : Holds size cells stream low high) (lower : low ≤ low') (upper : high' ≤ high) :
    Holds size cells stream low' high' := fun position above below =>
  holds position (Nat.le_trans lower above) (Nat.lt_of_lt_of_le below upper)

theorem Holds.empty (cells : Int → Cell) (stream : List Cell) {low high : Nat}
    (none : high ≤ low) : Holds size cells stream low high := fun _ above below =>
  absurd (Nat.lt_of_le_of_lt above below) (Nat.not_lt.mpr none)

/-- The cells of consecutive positions. -/
def window (size : Nat) (cells : Int → Cell) (low count : Nat) : List Cell :=
  (List.range' low count).map fun position => cells (slot size position)

@[simp] theorem length_window (cells : Int → Cell) (low count : Nat) :
    (window size cells low count).length = count := by
  simp [window]

theorem window_succ (cells : Int → Cell) (low count : Nat) :
    window size cells low (count + 1) =
      cells (slot size low) :: window size cells (low + 1) count := by
  simp [window, List.range'_succ]

theorem Holds.window_eq {cells : Int → Cell} {stream : List Cell} {low high position count : Nat}
    (holds : Holds size cells stream low high) (above : low ≤ position)
    (below : position + count ≤ high) :
    window size cells position count = (stream.drop position).take count := by
  induction count generalizing position with
  | zero => simp [window]
  | succ count inductionHypothesis =>
    have here := holds position above (by omega)
    obtain ⟨inside, same⟩ := List.getElem?_eq_some_iff.mp here
    rw [window_succ, List.drop_eq_getElem_cons inside, List.take_succ_cons, same,
      inductionHypothesis (by omega) (by omega)]

/-! ### Writing at the end of the stream -/

/-- Write a list to consecutive cells. -/
def place (cells : Int → Cell) : Int → List Cell → Int → Cell
  | _, [] => cells
  | start, first :: rest => place (Function.update cells start first) (start + 1) rest

theorem Holds.push {cells : Int → Cell} {stream : List Cell} {low : Nat} (positive : 0 < size)
    (holds : Holds size cells stream low stream.length) (room : stream.length < low + size)
    (value : Cell) :
    Holds size (Function.update cells (slot size stream.length) value) (stream ++ [value]) low
      (stream.length + 1) := by
  intro position above below
  by_cases last : position = stream.length
  · rw [last, Function.update_self, List.getElem?_append_right (Nat.le_refl _), Nat.sub_self]
    rfl
  · have inside : position < stream.length := by omega
    rw [Function.update_of_ne (slot_ne positive inside (by omega)),
      List.getElem?_append_left inside]
    exact holds position above inside

theorem Holds.place {cells : Int → Cell} {stream values : List Cell} {low : Nat}
    (positive : 0 < size) (holds : Holds size cells stream low stream.length)
    (room : stream.length + values.length ≤ low + size)
    (straight : slot size stream.length + values.length ≤ size) :
    Holds size (place cells (slot size stream.length) values) (stream ++ values) low
      (stream ++ values).length := by
  induction values generalizing cells stream with
  | nil =>
    rw [List.append_nil]
    exact holds
  | cons first rest inductionHypothesis =>
    rw [List.length_cons] at room straight
    have pushed := holds.push positive (by omega) first
    have moved := @slot_add size positive stream.length 1 (by omega)
    rw [show stream ++ first :: rest = (stream ++ [first]) ++ rest by simp]
    cases rest with
    | nil => simpa [Circular.place] using pushed
    | cons second rest =>
      rw [List.length_cons] at room straight inductionHypothesis
      rw [if_neg (by omega)] at moved
      have length : (stream ++ [first]).length = stream.length + 1 := by simp
      have further := inductionHypothesis (by rw [length]; exact pushed)
        (by rw [length]; omega) (by rw [length, moved]; push_cast; omega)
      rw [length, moved] at further
      exact further

end Circular
