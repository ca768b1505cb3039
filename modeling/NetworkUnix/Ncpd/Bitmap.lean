/-
This file models the search for a set bit on the bytes of a bit map, where the loop over the bytes
is entered in its middle. It proves that the search finds the first bit that is set, and what
follows for the routines that assign numbers by it.
-/

import NetworkUnix.Ncpd.Requests

namespace NetworkUnix.Ncpd.Bitmap

/-! ### The search -/

/-- The loop over the bits of a byte, from the mask `m` of bit `n` on. -/
def bitLoop (byte : BitVec 8) (m : BitVec 16) (n : Nat) : Option Nat :=
  if n < 8 then
    if byte.signExtend 16 &&& m ≠ 0 then some n else bitLoop byte (m <<< 1) (n + 1)
  else none
termination_by 8 - n

/-- The loop over the bytes of a map. -/
def byteLoop (map : Nat → BitVec 8) (mapSize i : Nat) : Option Nat :=
  if i < mapSize then
    match if map i ≠ 0 then bitLoop (map i) 1 0 else none with
    | some n => some (i <<< 3 ||| n)
    | none => byteLoop map mapSize (i + 1)
  else none
termination_by mapSize - i

/-- find_bit -/
def findBit (map : Nat → BitVec 8) (mapSize start : Nat) : Option Nat :=
  if start < mapSize then
    match bitLoop (map (start >>> 3)) (1#16 <<< (start &&& 7)) (start &&& 7) with
    | some n => some ((start >>> 3) <<< 3 ||| n)
    | none => byteLoop map (mapSize >>> 3) (start >>> 3 + 1)
  else none

/-- A bit of a map. -/
def bit (map : Nat → BitVec 8) (n : Nat) : Bool := (map (n / 8)).getLsbD (n % 8)

/-- A search between two numbers finds the least one that passes a test. -/
def Least (test : Nat → Bool) (start stop : Nat) : Option Nat → Prop
  | some n => (start ≤ n ∧ n < stop) ∧ test n = true ∧ ∀ j, start ≤ j → j < n → test j = false
  | none => ∀ j, start ≤ j → j < stop → test j = false

variable {test : Nat → Bool} {start mid stop : Nat} {found : Option Nat}

theorem Least.after (first : Least test start mid none) (least : Least test mid stop found)
    (below : start ≤ mid) : Least test start stop found := by
  have both : ∀ j, start ≤ j → (mid ≤ j → test j = false) → test j = false := by
    intro j above behind
    by_cases early : j < mid
    · exact first j above early
    · exact behind (Nat.le_of_not_lt early)
  cases found with
  | none => exact fun j above under => both j above fun behind => least j behind under
  | some n =>
    obtain ⟨⟨above, under⟩, isSet, unset⟩ := least
    exact ⟨⟨Nat.le_trans below above, under⟩, isSet,
      fun j above less => both j above fun behind => unset j behind less⟩

/-! ### The loops -/

theorem mask_test (byte : BitVec 8) : ∀ n < 8,
    byte.signExtend 16 &&& 1#16 <<< n ≠ 0 ↔ byte.getLsbD n = true := by
  revert byte
  decide +kernel

theorem bitLoop_least (byte : BitVec 8) {n : Nat} (small : n ≤ 8) :
    Least byte.getLsbD n 8 (bitLoop byte (1#16 <<< n) n) := by
  induction left : 8 - n generalizing n with
  | zero =>
    unfold bitLoop
    rw [if_neg (by omega)]
    intro j above under
    omega
  | succ left inductionHypothesis =>
    unfold bitLoop
    rw [if_pos (by omega)]
    split
    next isSet =>
      exact ⟨⟨Nat.le_refl n, by omega⟩, (mask_test byte n (by omega)).mp isSet,
        fun j above less => absurd above (Nat.not_le_of_lt less)⟩
    next unset =>
      rw [← BitVec.shiftLeft_add]
      refine Least.after (fun j above under => ?_) (inductionHypothesis (by omega) (by omega))
        (Nat.le_succ n)
      rw [show j = n by omega, ← Bool.not_eq_true, ← mask_test byte n (by omega)]
      exact unset

theorem Least.of_byte {map : Nat → BitVec 8} {i n : Nat}
    (least : Least (map i).getLsbD n 8 found) :
    Least (bit map) (8 * i + n) (8 * (i + 1)) (found.map (i <<< 3 ||| ·)) := by
  have here (j : Nat) (inside : j < 8) : bit map (8 * i + j) = (map i).getLsbD j := by
    unfold bit
    rw [show (8 * i + j) / 8 = i by omega, show (8 * i + j) % 8 = j by omega]
  have clear (stop : Nat) (small : stop ≤ 8)
      (unset : ∀ j, n ≤ j → j < stop → (map i).getLsbD j = false) (j : Nat) (above : 8 * i + n ≤ j)
      (under : j < 8 * i + stop) : bit map j = false := by
    obtain ⟨k, rfl⟩ := Nat.exists_eq_add_of_le (show 8 * i ≤ j by omega)
    rw [here k (by omega)]
    exact unset k (by omega) (by omega)
  cases found with
  | none => exact clear 8 (Nat.le_refl 8) least
  | some k =>
    obtain ⟨⟨above, under⟩, isSet, unset⟩ := least
    have number : i <<< 3 ||| k = 8 * i + k := by
      rw [← Nat.shiftLeft_add_eq_or_of_lt under, Nat.shiftLeft_eq, Nat.mul_comm]
    show Least _ _ _ (some (i <<< 3 ||| k))
    rw [number]
    exact ⟨⟨by omega, by omega⟩, (here k under).trans isSet, clear k (by omega) unset⟩

theorem byteLoop_least (map : Nat → BitVec 8) (mapSize i : Nat) :
    Least (bit map) (8 * i) (8 * mapSize) (byteLoop map mapSize i) := by
  induction left : mapSize - i generalizing i with
  | zero =>
    unfold byteLoop
    rw [if_neg (by omega)]
    intro j above under
    omega
  | succ left inductionHypothesis =>
    have byte : Least (map i).getLsbD 0 8 (if map i ≠ 0 then bitLoop (map i) 1 0 else none) := by
      split
      next => exact bitLoop_least (map i) (Nat.zero_le 8)
      next zero =>
        rw [not_not.mp zero]
        exact fun j _ _ => BitVec.getLsbD_zero
    have here := byte.of_byte
    unfold byteLoop
    rw [if_pos (by omega)]
    generalize (if map i ≠ 0 then bitLoop (map i) 1 0 else none) = inByte at here
    cases inByte with
    | none => exact here.after (inductionHypothesis (i + 1) (by omega)) (by omega)
    | some n =>
      change Least _ _ _ (some (i <<< 3 ||| n)) at here
      exact ⟨⟨here.1.1, by have := here.1.2; omega⟩, here.2⟩

theorem findBit_least (map : Nat → BitVec 8) (bytes start : Nat) :
    Least (bit map) start (8 * bytes) (findBit map (8 * bytes) start) := by
  unfold findBit
  split
  next within =>
    have shifted : start >>> 3 = start / 8 := Nat.shiftRight_eq_div_pow start 3
    have masked : start &&& 7 = start % 8 := Nat.and_two_pow_sub_one_eq_mod start 3
    have whole : (8 * bytes) >>> 3 = bytes := by
      rw [Nat.shiftRight_eq_div_pow]
      omega
    have small := Nat.mod_lt start (show 0 < 8 by decide)
    have here := (bitLoop_least (map (start / 8)) (Nat.le_of_lt small)).of_byte
    rw [shifted, masked, whole]
    rw [Nat.div_add_mod] at here
    generalize bitLoop (map (start / 8)) (1#16 <<< (start % 8)) (start % 8) = inByte at here
    cases inByte with
    | none => exact here.after (byteLoop_least map bytes (start / 8 + 1)) (by omega)
    | some n =>
      change Least _ _ _ (some ((start / 8) <<< 3 ||| n)) at here
      exact ⟨⟨here.1.1, by have := here.1.2; omega⟩, here.2⟩
  next beyond =>
    intro j above under
    omega

/-! ### The numbers -/

theorem least_findBit (test : Nat → Bool) (size start : Nat) :
    Least test start size (Daemon.findBit test size start) := by
  cases found : Daemon.findBit test size start with
  | none => exact fun j above under => Daemon.findBit_none found above under
  | some n =>
    obtain ⟨isSet, above, under⟩ := Daemon.findBit_some found
    refine ⟨⟨above, under⟩, isSet, fun j above less => ?_⟩
    have unset := (List.find?_range'_eq_some.mp found).2.2 j above less
    rwa [Bool.not_eq_true'] at unset

theorem Least.unique {other : Option Nat} (least : Least test start stop found)
    (least' : Least test start stop other) : found = other := by
  cases found with
  | none =>
    cases other with
    | none => rfl
    | some n => exact absurd (least n least'.1.1 least'.1.2) (by rw [least'.2.1]; decide)
  | some m =>
    cases other with
    | none => exact absurd (least' m least.1.1 least.1.2) (by rw [least.2.1]; decide)
    | some n =>
      rcases Nat.lt_trichotomy m n with less | same | more
      · exact absurd (least'.2.2 m least.1.1 less) (by rw [least.2.1]; decide)
      · rw [same]
      · exact absurd (least.2.2 n least'.1.1 more) (by rw [least'.2.1]; decide)

/-- `find_bit` finds the first set bit from a number on, which is what the assignment of socket and
link numbers relies on: these fail only where no bit of their whole range is set. -/
theorem find_first :
    (∀ map bytes start, Least (bit map) start (8 * bytes) (findBit map (8 * bytes) start) ∧
      findBit map (8 * bytes) start = Daemon.findBit (bit map) (8 * bytes) start) ∧
    (∀ d : Daemon, d.asnSktn.2 = none →
      0 ≤ d.lasktn ∧ ∀ n < Daemon.sktMpsz, d.sktMap n = false) ∧
    ∀ d : Daemon, d.asnLnkn.2 = none → ∀ n, 2 ≤ n → n < 72 → d.linkUsed n = true := by
  refine ⟨fun map bytes start => ⟨findBit_least map bytes start,
    (findBit_least map bytes start).unique (least_findBit _ _ _)⟩, fun d fails => ?_,
    fun d fails n low high => ?_⟩
  · unfold Daemon.asnSktn at fails
    dsimp only at fails
    split at fails
    next => cases fails
    next none =>
      have unset := fun n small =>
        Daemon.findBit_none (Option.or_eq_none_iff.mp none).2 (Nat.zero_le n) small
      split at unset
      next => exact Bool.noConfusion (show true = false from unset 0 (by decide))
      next started => exact ⟨Int.not_lt.mp started, unset⟩
  · unfold Daemon.asnLnkn at fails
    dsimp only at fails
    split at fails
    next => cases fails
    next none =>
      have unset := Daemon.findBit_none (Option.or_eq_none_iff.mp none).2 low high
      rwa [decide_eq_true low, Bool.true_and, Bool.not_eq_false'] at unset

end NetworkUnix.Ncpd.Bitmap
