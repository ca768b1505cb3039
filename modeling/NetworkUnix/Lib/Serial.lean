/-
This file develops serial-number arithmetic: counters of a fixed width that are
compared through the sign of their difference. A serial number names a position
of an unbounded sequence only up to a multiple of `2 ^ w`, so every comparison
below is stated for two positions counted from one base, and it is exact as long
as the two positions lie within half the range of each other.
-/

import Mathlib.Data.BitVec
import Mathlib.Tactic.Ring
import Mathlib.Tactic.NormNum

namespace Serial

variable {w : Nat}

/-- The signed distance from `b` to `a`. -/
def diff (a b : BitVec w) : Int := (a - b).toInt

/-- The serial number of the position `p` counted from `base`. -/
def point (base : BitVec w) (p : Int) : BitVec w := base + BitVec.ofInt w p

theorem point_zero (base : BitVec w) : point base 0 = base := by
  simp [point]

theorem point_add (base : BitVec w) (p : Int) (n : Nat) :
    point base p + BitVec.ofNat w n = point base (p + n) := by
  unfold point
  rw [BitVec.ofInt_add, BitVec.add_assoc, BitVec.ofInt_natCast]

theorem point_point (base : BitVec w) (p q : Int) :
    point (point base p) q = point base (p + q) := by
  unfold point
  rw [BitVec.ofInt_add, BitVec.add_assoc]

theorem point_sub_point (base : BitVec w) (p q : Int) :
    point base p - point base q = BitVec.ofInt w (p - q) := by
  unfold point
  have cancel : BitVec.ofInt w p = BitVec.ofInt w (p - q) + BitVec.ofInt w q := by
    rw [← BitVec.ofInt_add, Int.sub_add_cancel]
  rw [cancel]
  ring

theorem point_toNat (base value : BitVec w) :
    point base ((value - base).toNat : Int) = value := by
  unfold point
  rw [BitVec.ofInt_natCast, BitVec.ofNat_toNat, BitVec.setWidth_eq]
  ring

theorem diff_point (base : BitVec w) (p q : Int) (low : -(2 ^ w : Int) ≤ 2 * (p - q))
    (high : 2 * (p - q) < 2 ^ w) : diff (point base p) (point base q) = p - q := by
  unfold diff
  rw [point_sub_point, BitVec.toInt_ofInt]
  exact Int.bmod_eq_of_le_mul_two (by push_cast; omega) (by push_cast; omega)

/-- Two positions less than one range apart with one serial number are the same position. -/
theorem point_inj (base : BitVec w) {p q : Int} (equal : point base p = point base q)
    (low : -(2 ^ w : Int) < p - q) (high : p - q < 2 ^ w) : p = q := by
  have zero : BitVec.ofInt w (p - q) = 0#w := by
    rw [← point_sub_point base, equal, BitVec.sub_self]
  have residue : (p - q) % (2 ^ w : Int) = 0 := by
    have value := congrArg BitVec.toNat zero
    rw [BitVec.toNat_ofInt, BitVec.toNat_ofNat, Nat.zero_mod] at value
    have range : (0 : Int) < 2 ^ w := by positivity
    have nonneg := Int.emod_nonneg (p - q) (ne_of_gt range)
    push_cast at value
    omega
  obtain ⟨factor, shape⟩ := Int.dvd_of_emod_eq_zero residue
  have range : (0 : Int) < 2 ^ w := by positivity
  have factorZero : factor = 0 := by
    have upper : factor < 1 := by
      by_contra large
      have : (2 ^ w : Int) * 1 ≤ 2 ^ w * factor :=
        Int.mul_le_mul_of_nonneg_left (by omega) (le_of_lt range)
      omega
    have lower : -1 < factor := by
      by_contra small
      have : (2 ^ w : Int) * factor ≤ 2 ^ w * (-1) :=
        Int.mul_le_mul_of_nonneg_left (by omega) (le_of_lt range)
      omega
    omega
  rw [factorZero, Int.mul_zero] at shape
  omega

end Serial
