/-
This file models the first part of the routine that takes packets from the local
nets: the header is looked at where it lies, the chain is adjusted to the length the
header gives, and the checksum and the address are checked. It says exactly when the
adjustment invents no data: a chain that is shorter than the header says is made
longer, modulo the size of the length.

The header is read as it was received; the fields that the routine converts in place
for the levels above are left out.
-/

import NetworkUnix.Bbnnet.Adjust
import NetworkUnix.Bbnnet.Ipcksum
import NetworkUnix.Bbnnet.Reassembly

namespace NetworkUnix.Bbnnet.IpLength

open IpInput Ipcksum

/-! ### The header where it lies -/

/-- A short as received from the net. -/
def shortFromNet (m : Mbuf) (at' : Nat) : Nat :=
  256 * (m.mDat (m.mOff + at')).toNat + (m.mDat (m.mOff + at' + 1)).toNat

/-- The length of the header, from `ip_hl`. -/
def hlen (m : Mbuf) : Nat := (m.mDat m.mOff).toNat % 16 * 4

/-- `ip_len` -/
def ipLen (m : Mbuf) : Nat := shortFromNet m 2

/-- `ip_sum`, as it lies there. -/
def ipSum (m : Mbuf) : Nat := wordAt m (m.mOff + 10)

/-- `ip_dst`, as it lies there. -/
def ipDst (m : Mbuf) : Nat := longAt m (m.mOff + 16)

/-- The buffer with `ip_sum` set to zero. -/
def zeroSum (m : Mbuf) : Mbuf := { m with mDat := Memory.put [0, 0] (m.mOff + 10) m.mDat }

/-- What becomes of a packet: its header overflows the first mbuf, its checksum is bad, it is not
addressed to us, or it goes on with the chain that holds it. -/
inductive Fate
  | overflow
  | badsum
  | drops
  | passed (mp : Chain)

/-- The checks of the checksum and of the address, with the chain as it has been adjusted. -/
def checked (nosum : Bool) (ifAddr : Nat) (m : Mbuf) : Chain → Fate
  | [] => .overflow
  | n :: rest =>
    if ipSum m ≠ (cksum (zeroSum n :: rest) (hlen m)).toNat ∧ nosum = false then .badsum
    else if ipDst m ≠ ifAddr then .drops
    else .passed (n :: rest)

/-- The first part of `ip_input`. -/
def ipInput (nosum : Bool) (ifAddr : Nat) : Chain → Fate
  | [] => .overflow
  | m :: rest =>
    if m.mLen < hlen m then .overflow
    else checked nosum ifAddr m (unpad (m :: rest) (ipLen m))

/-! ### What the adjustment does -/

/-- No mbuf is longer than it was received. -/
def NoLonger (mp after : Chain) : Prop :=
  ∀ (i : Nat) (m n : Mbuf), mp[i]? = some m → after[i]? = some n → n.mLen ≤ m.mLen

theorem noLonger_of_trims {mp after : Chain} (trims : Trims mp after) : NoLonger mp after := by
  intro i m n here there
  obtain ⟨inside, rfl⟩ := List.getElem?_eq_some_iff.mp here
  obtain ⟨inside', rfl⟩ := List.getElem?_eq_some_iff.mp there
  exact (trims.get inside inside').mLen

/-- The chain with a new length for its last buffer. -/
def setLast (mp : Chain) (n : Mbuf) (count : Nat) : Chain :=
  mp.dropLast ++ [{ n with mLen := count }]

theorem trims_unpad {mp : Chain} {ipLen : Nat} (fits : ∀ m ∈ mp, m.Fits)
    (inside : ipLen ≤ chainLen mp) : Trims mp (unpad mp ipLen) := by
  unfold unpad
  rcases List.eq_nil_or_concat mp with rfl | ⟨pre, n, rfl⟩
  · exact .refl []
  simp only [List.getLast?_append, List.getLast?_singleton, Option.some_or,
    List.dropLast_concat, List.concat_eq_append] at fits inside ⊢
  split
  · split
    · rw [mAdj, if_neg (by omega), Int.neg_neg]
      exact (mAdjBelow_eq _ _).2
    · have small : n.mLen < 256 := by
        have := (fits n (by simp)).2
        have : msize = 128 := rfl
        omega
      refine .replace pre [] ⟨rfl, rfl, ?_, Nat.add_le_add_left ?_ _⟩
      all_goals
        dsimp only
        omega
  · exact .refl _

theorem unpad_short {mp : Chain} {n : Mbuf} {ipLen : Nat} (last : mp.getLast? = some n)
    (short : chainLen mp < ipLen) :
    unpad mp ipLen = setLast mp n ((n.mLen + (ipLen - chainLen mp)) % 256) := by
  unfold unpad setLast
  rw [last]
  dsimp only
  rw [if_pos (by omega), if_neg (by omega)]
  congr 3
  omega

theorem noLonger_setLast {mp : Chain} {n : Mbuf} (last : mp.getLast? = some n) (count : Nat) :
    NoLonger mp (setLast mp n count) ↔ count ≤ n.mLen := by
  rcases List.eq_nil_or_concat mp with rfl | ⟨pre, other, rfl⟩
  · cases last
  simp only [List.getLast?_append, List.getLast?_singleton, Option.some_or,
    List.concat_eq_append, Option.some.injEq] at last
  subst last
  unfold setLast
  rw [List.concat_eq_append, List.dropLast_concat]
  constructor
  · intro shorter
    refine shorter pre.length other { other with mLen := count } ?_ ?_
    all_goals rw [List.getElem?_append_right (Nat.le_refl _), Nat.sub_self, List.getElem?_cons_zero]
  · intro le i m m' here there
    rcases Nat.lt_or_ge i pre.length with before | after
    · rw [List.getElem?_append_left before] at here there
      exact Nat.le_of_eq (congrArg Mbuf.mLen (Option.some.inj (there.symm.trans here)))
    · rw [List.getElem?_append_right after] at here there
      rcases Nat.eq_zero_or_pos (i - pre.length) with zero | positive
      · rw [zero, List.getElem?_cons_zero] at here there
        rw [← Option.some.inj here, ← Option.some.inj there]
        exact le
      · obtain ⟨k, isNext⟩ := Nat.exists_eq_succ_of_ne_zero (Nat.ne_of_gt positive)
        rw [isNext] at here
        cases here

theorem checked_passed {nosum : Bool} {ifAddr : Nat} {m : Mbuf} {mp mp' : Chain}
    (passed : checked nosum ifAddr m mp = .passed mp') : mp' = mp := by
  unfold checked at passed
  split at passed
  · cases passed
  · split at passed
    · cases passed
    · split at passed
      · cases passed
      · exact (Fate.passed.inj passed).symm

/-! ### No data are invented -/

/-- The adjustment makes no buffer longer, and a packet that goes on holds exactly the bytes its
header speaks of, all of them received. -/
structure Faithful (nosum : Bool) (ifAddr : Nat) (m : Mbuf) (rest : Chain) : Prop where
  lengths : NoLonger (m :: rest) (unpad (m :: rest) (ipLen m))
  passed : ∀ mp, ipInput nosum ifAddr (m :: rest) = .passed mp →
    ipLen m ≤ chainLen (m :: rest) ∧ chainData mp = (chainData (m :: rest)).take (ipLen m)

/-- The chain is too short, the checks stop the packet, and the new length of the last buffer comes
out no longer. -/
def Stopped (nosum : Bool) (ifAddr : Nat) (m : Mbuf) (rest : Chain) : Prop :=
  (∀ mp, checked nosum ifAddr m (unpad (m :: rest) (ipLen m)) ≠ .passed mp) ∧
    ∀ n, (m :: rest).getLast? = some n →
      (n.mLen + (ipLen m - chainLen (m :: rest))) % 256 ≤ n.mLen

/-- No data are invented exactly when the chain is as long as the header says, or else when the
packet is stopped for another reason and the length wraps around. -/
theorem no_data_invented {nosum : Bool} {ifAddr : Nat} {m : Mbuf} {rest : Chain}
    (fits : ∀ n ∈ m :: rest, n.Fits) (inside : hlen m ≤ m.mLen) :
    Faithful nosum ifAddr m rest ↔
      ipLen m ≤ chainLen (m :: rest) ∨ Stopped nosum ifAddr m rest := by
  have input : ipInput nosum ifAddr (m :: rest) =
      checked nosum ifAddr m (unpad (m :: rest) (ipLen m)) := if_neg (by omega)
  constructor
  · intro faithful
    rcases Nat.lt_or_ge (chainLen (m :: rest)) (ipLen m) with short | enough
    · refine .inr ⟨fun mp passed => ?_, fun n last => ?_⟩
      · have := (faithful.passed mp (input.trans passed)).1
        omega
      · have lengths := faithful.lengths
        rwa [unpad_short last short, noLonger_setLast last] at lengths
    · exact .inl enough
  · rintro (enough | ⟨stopped, wraps⟩)
    · refine ⟨noLonger_of_trims (trims_unpad fits enough), fun mp passed => ⟨enough, ?_⟩⟩
      rw [checked_passed (input.symm.trans passed)]
      exact chainData_unpad fits enough
    · refine ⟨?_, fun mp passed => absurd (input.symm.trans passed) (stopped mp)⟩
      rcases Nat.lt_or_ge (chainLen (m :: rest)) (ipLen m) with short | enough
      · have last := List.getLast?_eq_some_getLast (List.cons_ne_nil m rest)
        rw [unpad_short last short, noLonger_setLast last]
        exact wraps _ last
      · exact noLonger_of_trims (trims_unpad fits enough)

/-- A header of twenty bytes, to the host 1 of the net 10, with a length and a checksum. -/
def header (len low high : Byte) : Mbuf :=
  { Mbuf.fresh with
    mOff := mhead
    mLen := 20
    mDat := Memory.put [0x45, 0, 0, len, 0, 0, 0, 0, 30, 6, low, high, 0, 0, 0, 0, 10, 0, 0, 1]
      mhead (fun _ => 0) }

theorem no_data_invented_header : hlen (header 20 0x92 0xe4) ≤ (header 20 0x92 0xe4).mLen ∧
    Faithful false 0x100000a (header 20 0x92 0xe4) [] :=
  ⟨by decide, (no_data_invented (by decide) (by decide)).mpr (.inl (by decide))⟩

/-- The same header, made longer by the bytes that were not received. -/
def stretched : Mbuf := { header 30 0x92 0xda with mLen := 30 }

/-- A datagram that says it is thirty bytes long is passed on when only its header was received. -/
theorem ten_bytes_invented : ¬ Faithful false 0x100000a (header 30 0x92 0xda) [] := by
  intro faithful
  have inside : ¬ (header 30 0x92 0xda).mLen < hlen (header 30 0x92 0xda) := by decide
  have adjusted : unpad [header 30 0x92 0xda] (ipLen (header 30 0x92 0xda)) = [stretched] := rfl
  have summed : ¬ (ipSum (header 30 0x92 0xda) ≠
      (cksum (zeroSum stretched :: []) (hlen (header 30 0x92 0xda))).toNat ∧
      false = false) := by decide +kernel
  have ours : ¬ ipDst (header 30 0x92 0xda) ≠ 0x100000a := by decide
  have passed : ipInput false 0x100000a [header 30 0x92 0xda] = .passed [stretched] := by
    rw [ipInput, if_neg inside, adjusted, checked, if_neg summed, if_neg ours]
  exact absurd (faithful.passed _ passed).1 (by decide)

end NetworkUnix.Bbnnet.IpLength
