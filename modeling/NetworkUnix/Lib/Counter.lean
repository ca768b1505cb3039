/-
This file relates a counter of fixed width to the number it stands for. The counter
may have wrapped: it is the number modulo a power of two. A number that is not
negative is at least what its counter shows, and a number in the range of the signed
counters is what its counter shows.
-/

import Mathlib.Algebra.Ring.Int.Defs

namespace Counter

variable {w : Nat} {word : BitVec w} {n : Int}

/-- The counter stands for the number. -/
def Shows (word : BitVec w) (n : Int) : Prop := word = BitVec.ofInt w n

theorem shows_toNat (word : BitVec w) : Shows word word.toNat := by
  unfold Shows
  rw [BitVec.ofInt_natCast, BitVec.ofNat_toNat, BitVec.setWidth_eq]

theorem shows_signed (word : BitVec w) : Shows word word.toInt := (BitVec.ofInt_toInt).symm

theorem Shows.add (shows : Shows word n) {more : BitVec w} {k : Int} (showsMore : Shows more k) :
    Shows (word + more) (n + k) := by
  unfold Shows at *
  rw [BitVec.ofInt_add, ← shows, ← showsMore]

theorem Shows.sub (shows : Shows word n) {less : BitVec w} {k : Int} (showsLess : Shows less k) :
    Shows (word - less) (n - k) := by
  unfold Shows at *
  rw [BitVec.sub_eq_iff_eq_add, showsLess, ← BitVec.ofInt_add, Int.sub_add_cancel]
  exact shows

theorem Shows.le (shows : Shows word n) (nonneg : 0 ≤ n) : (word.toNat : Int) ≤ n := by
  obtain ⟨k, rfl⟩ := Int.eq_ofNat_of_zero_le nonneg
  rw [shows, BitVec.ofInt_natCast, BitVec.toNat_ofNat]
  exact Int.ofNat_le.mpr (Nat.mod_le k (2 ^ w))

theorem Shows.toInt (shows : Shows word n) (positive : 0 < w) (low : -2 ^ (w - 1) ≤ n)
    (high : n < 2 ^ (w - 1)) : word.toInt = n := by
  rw [shows]
  exact BitVec.toInt_ofInt_eq_self positive low high

end Counter
