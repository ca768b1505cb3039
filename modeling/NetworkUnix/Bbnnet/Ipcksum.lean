/-
This file models the checksum routine as it runs on the machine: the words of one
buffer after another, one or eight long words at a time with the carry added in, a
byte that is left over at the end of a buffer, and the folds of the sum to sixteen
bits. It proves that the result is the one's complement of the one's complement sum of
the bytes, however they are spread over the buffers of the chain.
-/

import NetworkUnix.Bbnnet.Mbuf
import NetworkUnix.Lib.OnesComplement

namespace NetworkUnix.Bbnnet.Ipcksum

open Memory OnesComplement

/-- The sixteen bits at an address. -/
def wordAt (m : Mbuf) (w : Nat) : Nat := (m.mDat w).toNat + 256 * (m.mDat (w + 1)).toNat

/-- The long word at an address. -/
def longAt (m : Mbuf) (w : Nat) : Nat := wordAt m w + 65536 * wordAt m (w + 2)

/-! ### The instructions -/

/-- A register, and the carry. -/
structure Reg where
  r8 : BitVec 32
  carry : Bool

/-- `adwc`: add with carry. -/
def Reg.adwc (r : Reg) (value : Nat) : Reg where
  r8 := BitVec.ofNat 32 (r.r8.toNat + value + r.carry.toNat)
  carry := decide (2 ^ 32 ≤ r.r8.toNat + value + r.carry.toNat)

/-- `adwc (r9)+,r8`, some times. -/
def Reg.adds (m : Mbuf) : Nat → Nat → Reg → Reg
  | 0, _, r => r
  | times + 1, w, r => Reg.adds m times (w + 4) (r.adwc (longAt m w))

/-- `ashl $-16,r8,r0; addw2 r0,r8; adwc $0,r8`: the high part of the sum is added to the low one,
with the carry. -/
def foldHigh (sum : BitVec 32) : BitVec 32 :=
  let high := sum.toNat / 65536
  let low := sum.toNat % 65536 + high
  (Reg.adwc ⟨BitVec.ofNat 32 (high * 65536 + low % 65536), decide (65536 ≤ low)⟩ 0).r8

/-- `movzwl`: the low part of a register. -/
def movzwl (sum : BitVec 32) : BitVec 32 := BitVec.ofNat 32 (sum.toNat % 65536)

/-! ### The loops -/

/-- The variables of the routine in one buffer. -/
structure Vars where
  w : Nat
  sum : BitVec 32
  mlen : Int

/-- Add in the last byte of a word. -/
def Vars.addByte (s : Vars) (value : Nat) : Vars := { s with sum := s.sum + BitVec.ofNat 32 value }

/-- Add in one word. -/
def Vars.addWord (m : Mbuf) (s : Vars) : Vars where
  w := s.w + 2
  sum := s.sum + BitVec.ofNat 32 (wordAt m s.w)
  mlen := s.mlen - 2

/-- Add in some long words, with the carry clear before the first and added in after the last. -/
def Vars.addLongs (m : Mbuf) (count : Nat) (s : Vars) : Vars where
  w := s.w + 4 * count
  sum := ((Reg.adds m count s.w ⟨s.sum, false⟩).adwc 0).r8
  mlen := s.mlen - 4 * count

/-- The loop that adds in some long words in each trip. -/
def Vars.longs (m : Mbuf) (count : Nat) : Nat → Vars → Vars
  | 0, s => s
  | trips + 1, s =>
    if 0 ≤ s.mlen - 4 * count then Vars.longs m count trips (s.addLongs m count) else s

/-- The loop that adds in the trailing words; it leaves -1 or -2. -/
def Vars.words (m : Mbuf) : Nat → Vars → Vars
  | 0, s => { s with mlen := s.mlen - 2 }
  | trips + 1, s =>
    if 0 ≤ s.mlen - 2 then Vars.words m trips (s.addWord m) else { s with mlen := s.mlen - 2 }

/-- The body of a trip, once `mlen` says how much of the buffer is to be added in. -/
def Vars.body (m : Mbuf) (s : Vars) : Vars :=
  let s := if s.w / 2 % 2 = 1 ∧ 2 ≤ s.mlen then s.addWord m else s
  let s := Vars.longs m 8 s.mlen.toNat s
  let s := Vars.longs m 2 s.mlen.toNat s
  let s := { s with sum := movzwl (foldHigh s.sum) }
  let s := Vars.words m s.mlen.toNat s
  if s.mlen = -1 then s.addByte (m.mDat s.w).toNat else s

/-- One trip around the loop: the length that is left, and the variables after it. -/
def trip (m : Mbuf) (len mlen : Int) (sum : BitVec 32) : Int × Vars :=
  let left : Bool := mlen == -1
  let s : Vars :=
    if left then
      { w := m.mOff + 1
        sum := sum + BitVec.ofNat 32 ((m.mDat m.mOff).toNat * 256)
        mlen := m.mLen - 1 }
    else { w := m.mOff, sum := sum, mlen := m.mLen }
  let len := if left then len - 1 else len
  let s := if len < s.mlen then { s with mlen := len } else s
  (len - s.mlen, s.body m)

/-- The trips, and between them the search for the next block with some data. -/
def trips : Bool → Chain → Int → Int → BitVec 32 → BitVec 32
  | _, [], _, _, sum => sum
  | locate, m :: rest, len, mlen, sum =>
    if locate = true ∧ m.mLen = 0 then trips true rest len mlen sum
    else
      let done := trip m len mlen sum
      if done.1 = 0 then done.2.sum else trips true rest done.1 done.2.mlen done.2.sum

/-- TCP/IP checksum routine. -/
def cksum (m : Chain) (len : Int) : BitVec 32 := movzwl (~~~ foldHigh (trips false m len 0 0))

/-! ### What it computes -/

/-- Bytes as little-endian words, the last odd byte padded with zero. -/
def words : List Byte → List Nat
  | [] => []
  | [last] => [last.toNat]
  | low :: high :: rest => (low.toNat + 256 * high.toNat) :: words rest

/-- The one's complement of the one's complement sum of the words. -/
def onesChecksum (bytes : List Byte) : Nat := 65535 - wrapSum 65535 (words bytes)

/-- The weighted sum of bytes, the first of which is a low byte or, when `odd`, a high one. -/
def halves : Bool → List Byte → Nat
  | _, [] => 0
  | odd, b :: rest => (if odd then 256 * b.toNat else b.toNat) + halves (!odd) rest

theorem byte_le (b : Byte) : b.toNat ≤ 255 := Nat.le_of_lt_succ b.toNat_lt

theorem words_le : ∀ (bytes : List Byte), ∀ word ∈ words bytes, word ≤ 65535
  | [], word, member => absurd member List.not_mem_nil
  | [last], word, member => by
    have small := byte_le last
    rw [List.mem_singleton.mp member]
    omega
  | low :: high :: rest, word, member => by
    rcases List.mem_cons.mp member with rfl | others
    · have := byte_le low
      have := byte_le high
      omega
    · exact words_le rest word others

theorem words_sum : ∀ (bytes : List Byte), (words bytes).sum = halves false bytes
  | [] => rfl
  | [last] => rfl
  | low :: high :: rest => by
    rw [words, List.sum_cons, words_sum rest, Nat.add_assoc]
    rfl

theorem halves_append (odd : Bool) (first second : List Byte) :
    halves odd (first ++ second) =
      halves odd first + halves (odd ^^ decide (first.length % 2 = 1)) second := by
  induction first generalizing odd with
  | nil => simp [halves]
  | cons b rest inductionHypothesis =>
    rw [List.cons_append, halves, inductionHypothesis, halves, Nat.add_assoc]
    congr 2
    rw [List.length_cons]
    rcases Nat.mod_two_eq_zero_or_one rest.length with even | uneven
    · have next : (rest.length + 1) % 2 = 1 := by omega
      simp [even, next]
    · have next : (rest.length + 1) % 2 = 0 := by omega
      simp [uneven, next]

/-- The weighted sum of the bytes from an address on. -/
def sumAt (m : Mbuf) (w count : Nat) : Nat := halves false (window m.mDat w count)

theorem sumAt_add (m : Mbuf) (w : Nat) {first : Nat} (even : first % 2 = 0) (second : Nat) :
    sumAt m w (first + second) = sumAt m w first + sumAt m (w + first) second := by
  unfold sumAt
  rw [window_append, halves_append, length_window, even]
  rfl

theorem sumAt_two (m : Mbuf) (w : Nat) : sumAt m w 2 = wordAt m w := rfl

theorem wordAt_le (m : Mbuf) (w : Nat) : wordAt m w ≤ 65535 := by
  have := byte_le (m.mDat w)
  have := byte_le (m.mDat (w + 1))
  unfold wordAt
  omega

theorem longAt_le (m : Mbuf) (w : Nat) : longAt m w ≤ 2 ^ 32 - 1 := by
  have := wordAt_le m w
  have := wordAt_le m (w + 2)
  unfold longAt
  omega

theorem longAt_same (m : Mbuf) (w : Nat) : Same 65535 (longAt m w) (sumAt m w 4) := by
  have apart : sumAt m w 4 = wordAt m (w + 2) + wordAt m w := by
    rw [show 4 = 2 + 2 from rfl, sumAt_add m w rfl, sumAt_two, sumAt_two, Nat.add_comm]
  rw [apart, longAt, Nat.add_comm, Nat.mul_comm]
  exact Same.carry _ _

/-! ### The long words -/

/-- The sum in a register, with the carry that is still to be added. -/
def Reg.value (r : Reg) : Nat := r.r8.toNat + r.carry.toNat

theorem adwc_spec {r : Reg} {value : Nat} (safe : r.value ≤ 2 ^ 32 - 1)
    (bounded : value ≤ 2 ^ 32 - 1) : (r.adwc value).value ≤ 2 ^ 32 - 1 ∧
      Same 65535 (r.adwc value).value (r.value + value) := by
  unfold Reg.value Reg.adwc at *
  rw [BitVec.toNat_ofNat]
  generalize total : r.r8.toNat + value + r.carry.toNat = t
  rw [show r.r8.toNat + r.carry.toNat + value = t by omega]
  by_cases carries : 2 ^ 32 ≤ t
  · simp only [carries, decide_true, Bool.toNat_true]
    have wrapped : t % 2 ^ 32 + 1 = t - 65535 * 65537 := by omega
    rw [wrapped]
    refine ⟨by omega, ?_, by omega⟩
    omega
  · simp only [carries, decide_false, Bool.toNat_false, Nat.add_zero]
    rw [Nat.mod_eq_of_lt (by omega)]
    exact ⟨by omega, .refl _ _⟩

theorem adds_spec {m : Mbuf} {times w : Nat} {r : Reg} (safe : r.value ≤ 2 ^ 32 - 1) :
    (r.adds m times w).value ≤ 2 ^ 32 - 1 ∧
      Same 65535 (r.adds m times w).value (r.value + sumAt m w (4 * times)) := by
  induction times generalizing w r with
  | zero => exact ⟨safe, .refl _ _⟩
  | succ times inductionHypothesis =>
    obtain ⟨next, added⟩ := adwc_spec safe (longAt_le m w)
    obtain ⟨le, same⟩ := @inductionHypothesis (w + 4) _ next
    refine ⟨le, same.trans ?_⟩
    rw [show 4 * (times + 1) = 4 + 4 * times by omega, sumAt_add m w rfl, ← Nat.add_assoc]
    exact (added.trans ((Same.refl _ _).add (longAt_same m w))).add (.refl _ _)

/-- The variables after some bytes of a buffer have been added in. -/
structure Added (m : Mbuf) (s after : Vars) (count : Nat) : Prop where
  w : after.w = s.w + count
  mlen : after.mlen = s.mlen - count
  even : count % 2 = 0
  sum : Same 65535 after.sum.toNat (s.sum.toNat + sumAt m s.w count)

theorem Added.refl (m : Mbuf) (s : Vars) : Added m s s 0 where
  w := rfl
  mlen := (Int.sub_zero _).symm
  even := rfl
  sum := .refl _ _

theorem Added.trans {m : Mbuf} {s middle after : Vars} {first second : Nat}
    (before : Added m s middle first) (then' : Added m middle after second) :
    Added m s after (first + second) where
  w := by rw [then'.w, before.w, Nat.add_assoc]
  mlen := by
    rw [then'.mlen, before.mlen]
    omega
  even := by
    have := before.even
    have := then'.even
    omega
  sum := by
    rw [sumAt_add m s.w before.even, ← Nat.add_assoc, ← before.w]
    exact then'.sum.trans (before.sum.add (.refl _ _))

theorem addLongs_added (m : Mbuf) (count : Nat) (s : Vars) :
    Added m s (s.addLongs m count) (4 * count) where
  w := rfl
  mlen := by
    push_cast
    rfl
  even := by omega
  sum := by
    have start : (⟨s.sum, false⟩ : Reg).value ≤ 2 ^ 32 - 1 := by
      have := s.sum.isLt
      show s.sum.toNat + 0 ≤ _
      omega
    obtain ⟨le, same⟩ := @adds_spec m count s.w _ start
    have last : ((Reg.adds m count s.w ⟨s.sum, false⟩).adwc 0).r8.toNat =
        (Reg.adds m count s.w ⟨s.sum, false⟩).value := by
      unfold Reg.adwc Reg.value at *
      rw [BitVec.toNat_ofNat, Nat.add_zero, Nat.mod_eq_of_lt (by omega)]
    show Same 65535 ((Reg.adds m count s.w ⟨s.sum, false⟩).adwc 0).r8.toNat _
    rw [last]
    exact same

theorem longs_added (m : Mbuf) {count trips : Nat} (s : Vars) (positive : 0 < count)
    (some : 0 ≤ s.mlen) (enough : s.mlen.toNat ≤ trips) :
    ∃ done, Added m s (Vars.longs m count trips s) done ∧
      0 ≤ (Vars.longs m count trips s).mlen ∧ (Vars.longs m count trips s).mlen < 4 * count := by
  induction trips generalizing s with
  | zero =>
    rw [Vars.longs]
    exact ⟨0, .refl m s, some, by omega⟩
  | succ trips inductionHypothesis =>
    rw [Vars.longs]
    split
    · rename_i more
      obtain ⟨done, added, bounds⟩ := inductionHypothesis (s.addLongs m count) more (by
        show (s.mlen - 4 * count).toNat ≤ trips
        omega)
      exact ⟨_, (addLongs_added m count s).trans added, bounds⟩
    · rename_i short
      exact ⟨0, .refl m s, some, by omega⟩

/-! ### The folds and the trailing words -/

theorem foldHigh_spec (sum : BitVec 32) : Same 65535 (movzwl (foldHigh sum)).toNat sum.toNat ∧
    (movzwl (foldHigh sum)).toNat ≤ 65535 := by
  have range := sum.isLt
  have split := Nat.div_add_mod sum.toNat 65536
  have below := Nat.mod_lt sum.toNat (show 0 < 65536 by decide)
  unfold movzwl foldHigh Reg.adwc
  dsimp only
  generalize sum.toNat / 65536 = high at *
  generalize sum.toNat % 65536 = low at *
  have value : (BitVec.ofNat 32 (high * 65536 + (low + high) % 65536)).toNat =
      high * 65536 + (low + high) % 65536 := by
    rw [BitVec.toNat_ofNat]
    omega
  rw [value]
  have carry : (decide (65536 ≤ low + high)).toNat = (low + high) / 65536 := by
    by_cases carries : 65536 ≤ low + high
    · simp only [carries, decide_true, Bool.toNat_true]
      omega
    · simp only [carries, decide_false, Bool.toNat_false]
      omega
  rw [carry, Nat.add_zero, BitVec.toNat_ofNat, BitVec.toNat_ofNat]
  have folded : (high * 65536 + (low + high) % 65536 + (low + high) / 65536) % 2 ^ 32 % 65536 % 2 ^ 32 =
      (low + high) / 65536 + (low + high) % 65536 := by
    omega
  rw [folded, ← split]
  refine ⟨?_, by omega⟩
  have inner := @Same.carry 65535 ((low + high) / 65536) ((low + high) % 65536)
  have outer := @Same.carry 65535 high low
  have whole : (low + high) / 65536 * (65535 + 1) + (low + high) % 65536 = high + low := by omega
  rw [whole] at inner
  rw [Nat.mul_comm 65536 high]
  exact inner.symm.trans outer.symm

theorem addWord_added (m : Mbuf) {s : Vars} (small : s.sum.toNat + 65535 < 2 ^ 32) :
    Added m s (s.addWord m) 2 ∧ (s.addWord m).sum.toNat ≤ s.sum.toNat + 65535 := by
  have word := wordAt_le m s.w
  have value : (s.addWord m).sum.toNat = s.sum.toNat + wordAt m s.w := by
    unfold Vars.addWord
    rw [BitVec.toNat_add, BitVec.toNat_ofNat, Nat.mod_eq_of_lt (show wordAt m s.w < 2 ^ 32 by omega),
      Nat.mod_eq_of_lt (by omega)]
  exact ⟨⟨rfl, rfl, rfl, .of_eq value⟩, by omega⟩

theorem words_added (m : Mbuf) {trips count : Nat} (s : Vars) (length : s.mlen = count)
    (enough : count ≤ trips) (small : s.sum.toNat + 65535 * count < 2 ^ 32) :
    Added m s { Vars.words m trips s with mlen := (Vars.words m trips s).mlen + 2 }
        (2 * (count / 2)) ∧ (Vars.words m trips s).mlen = (count % 2 : Nat) - 2 ∧
      (Vars.words m trips s).sum.toNat ≤ s.sum.toNat + 65535 * (count / 2) := by
  induction trips generalizing s count with
  | zero =>
    obtain rfl : count = 0 := Nat.le_zero.mp enough
    refine ⟨⟨rfl, ?_, rfl, .refl _ _⟩, ?_, Nat.le_add_right _ _⟩
    · show s.mlen - 2 + 2 = s.mlen - 0
      omega
    · show s.mlen - 2 = 0 - 2
      omega
  | succ trips inductionHypothesis =>
    rw [Vars.words]
    by_cases more : 0 ≤ s.mlen - 2
    · rw [if_pos more]
      obtain ⟨first, bound⟩ := addWord_added m (show s.sum.toNat + 65535 < 2 ^ 32 by omega)
      obtain ⟨added, left, le⟩ := @inductionHypothesis (count - 2) (s.addWord m)
        (by rw [first.mlen]; omega) (by omega) (by omega)
      have total : 2 + 2 * ((count - 2) / 2) = 2 * (count / 2) := by omega
      exact ⟨total ▸ first.trans added, by rw [left]; omega, by omega⟩
    · rw [if_neg more]
      have few : count / 2 = 0 := by omega
      rw [few]
      refine ⟨⟨rfl, ?_, rfl, .refl _ _⟩, ?_, Nat.le_add_right _ _⟩
      · show s.mlen - 2 + 2 = s.mlen - 0
        omega
      · show s.mlen - 2 = _
        omega

theorem body_spec (m : Mbuf) {s : Vars} {count : Nat} (length : s.mlen = count)
    (small : s.sum.toNat + 65535 < 2 ^ 32) :
    (s.body m).mlen = (count % 2 : Nat) - 2 ∧ (s.body m).sum.toNat ≤ 65535 * 4 + 255 ∧
      Same 65535 (s.body m).sum.toNat (s.sum.toNat + sumAt m s.w count) := by
  have aligned : ∃ done, Added m s (if s.w / 2 % 2 = 1 ∧ 2 ≤ s.mlen then s.addWord m else s) done ∧
      0 ≤ (if s.w / 2 % 2 = 1 ∧ 2 ≤ s.mlen then s.addWord m else s).mlen := by
    split
    · rename_i word
      refine ⟨2, (addWord_added m small).1, ?_⟩
      show 0 ≤ s.mlen - 2
      omega
    · exact ⟨0, .refl m s, by omega⟩
  unfold Vars.body
  dsimp only
  generalize (if s.w / 2 % 2 = 1 ∧ 2 ≤ s.mlen then s.addWord m else s) = first at aligned ⊢
  obtain ⟨one, addedOne, some⟩ := aligned
  obtain ⟨two, addedTwo, some', -⟩ := longs_added m first (show 0 < 8 by decide) some (Nat.le_refl _)
  generalize Vars.longs m 8 first.mlen.toNat first = second at addedTwo some' ⊢
  obtain ⟨three, addedThree, some'', few⟩ :=
    longs_added m second (show 0 < 2 by decide) some' (Nat.le_refl _)
  generalize Vars.longs m 2 second.mlen.toNat second = third at addedThree some'' few ⊢
  have before := addedOne.trans (addedTwo.trans addedThree)
  obtain ⟨left, isLeft⟩ := Int.eq_ofNat_of_zero_le some''
  obtain ⟨folded, bound⟩ := foldHigh_spec third.sum
  obtain ⟨addedWords, last, le⟩ := @words_added m third.mlen.toNat left
    { third with sum := movzwl (foldHigh third.sum) } isLeft (by rw [isLeft]; omega) (by
      show (movzwl (foldHigh third.sum)).toNat + _ < _
      omega)
  have middle : Same 65535 (Vars.words m third.mlen.toNat
      { third with sum := movzwl (foldHigh third.sum) }).sum.toNat
      (s.sum.toNat + sumAt m s.w (one + (two + three) + 2 * (left / 2))) := by
    rw [sumAt_add m s.w before.even, ← Nat.add_assoc, ← before.w]
    exact addedWords.sum.trans ((folded.trans before.sum).add (.refl _ _))
  have position : (Vars.words m third.mlen.toNat
      { third with sum := movzwl (foldHigh third.sum) }).w =
      s.w + (one + (two + three) + 2 * (left / 2)) := by
    refine addedWords.w.trans ?_
    show third.w + _ = _
    rw [before.w, Nat.add_assoc]
  have total : one + (two + three) + left = count := by
    have := before.mlen
    omega
  have parity : left % 2 = count % 2 := by
    have := before.even
    omega
  have atMost : (Vars.words m third.mlen.toNat
      { third with sum := movzwl (foldHigh third.sum) }).sum.toNat ≤ 65535 * 4 := by
    have : left / 2 ≤ 3 := by omega
    dsimp only at le
    omega
  generalize Vars.words m third.mlen.toNat
    { third with sum := movzwl (foldHigh third.sum) } = fourth at middle position last atMost ⊢
  have wholeEven : (one + (two + three) + 2 * (left / 2)) % 2 = 0 := by
    have := before.even
    omega
  split
  · rename_i byte
    have odd : left % 2 = 1 := by omega
    have value := byte_le (m.mDat fourth.w)
    have added : (fourth.addByte (m.mDat fourth.w).toNat).sum.toNat =
        fourth.sum.toNat + (m.mDat fourth.w).toNat := by
      unfold Vars.addByte
      rw [BitVec.toNat_add, BitVec.toNat_ofNat, Nat.mod_eq_of_lt (by omega),
        Nat.mod_eq_of_lt (by omega)]
    refine ⟨?_, by omega, ?_⟩
    · show fourth.mlen = _
      omega
    · rw [added, show count = one + (two + three) + 2 * (left / 2) + 1 by omega,
        sumAt_add m s.w wholeEven, ← Nat.add_assoc, ← position]
      exact middle.add (.refl _ _)
  · rename_i none
    have even : left % 2 = 0 := by omega
    refine ⟨by omega, by omega, ?_⟩
    rw [show count = one + (two + three) + 2 * (left / 2) by omega]
    exact middle

/-! ### The trips -/

theorem trip_spec (m : Mbuf) {len : Nat} {odd : Bool} {mlen : Int} {sum : BitVec 32}
    (pending : (mlen == -1) = odd) (byte : odd = true → 0 < len ∧ 0 < m.mLen)
    (small : sum.toNat ≤ 65535 * 4 + 255) :
    (trip m len mlen sum).1 = (len - min len m.mLen : Nat) ∧
      ((trip m len mlen sum).2.mlen == -1) = (odd ^^ decide (min len m.mLen % 2 = 1)) ∧
      (trip m len mlen sum).2.sum.toNat ≤ 65535 * 4 + 255 ∧
      Same 65535 (trip m len mlen sum).2.sum.toNat (sum.toNat + halves odd (m.data.take len)) := by
  have taken : m.data.take len = window m.mDat m.mOff (min len m.mLen) := by
    unfold Mbuf.data
    rcases Nat.le_total len m.mLen with within | beyond
    · rw [take_window _ within, Nat.min_eq_left within]
    · rw [List.take_of_length_le (by rw [length_window]; exact beyond), Nat.min_eq_right beyond]
  rw [taken]
  unfold trip
  dsimp only
  rw [pending]
  cases odd with
  | false =>
    rw [if_neg Bool.false_ne_true, if_neg Bool.false_ne_true]
    have cut : (if (len : Int) < (m.mLen : Int) then
        ({ w := m.mOff, sum := sum, mlen := (len : Int) } : Vars)
        else { w := m.mOff, sum := sum, mlen := (m.mLen : Int) }) =
          { w := m.mOff, sum := sum, mlen := ((min len m.mLen : Nat) : Int) } := by
      split
      · rw [Nat.min_eq_left (by omega)]
      · rw [Nat.min_eq_right (by omega)]
    rw [cut]
    obtain ⟨last, bound, same⟩ := @body_spec m
      { w := m.mOff, sum := sum, mlen := ((min len m.mLen : Nat) : Int) } (min len m.mLen) rfl
      (by show sum.toNat + _ < _; omega)
    refine ⟨by dsimp only; omega, ?_, bound, same⟩
    rw [last]
    rcases Nat.mod_two_eq_zero_or_one (min len m.mLen) with even | uneven
    · rw [even]
      rfl
    · rw [uneven]
      rfl
  | true =>
    obtain ⟨more, data⟩ := byte rfl
    rw [if_pos rfl, if_pos rfl]
    have high := byte_le (m.mDat m.mOff)
    have cut : (if (len : Int) - 1 < (m.mLen : Int) - 1 then
        ({ w := m.mOff + 1, sum := sum + BitVec.ofNat 32 ((m.mDat m.mOff).toNat * 256),
           mlen := (len : Int) - 1 } : Vars)
        else { w := m.mOff + 1, sum := sum + BitVec.ofNat 32 ((m.mDat m.mOff).toNat * 256),
               mlen := (m.mLen : Int) - 1 }) =
          { w := m.mOff + 1, sum := sum + BitVec.ofNat 32 ((m.mDat m.mOff).toNat * 256),
            mlen := ((min len m.mLen - 1 : Nat) : Int) } := by
      split
      · rw [Nat.min_eq_left (by omega)]
        congr 1
        omega
      · rw [Nat.min_eq_right (by omega)]
        congr 1
        omega
    rw [cut]
    have added : (sum + BitVec.ofNat 32 ((m.mDat m.mOff).toNat * 256)).toNat =
        sum.toNat + 256 * (m.mDat m.mOff).toNat := by
      rw [BitVec.toNat_add, BitVec.toNat_ofNat, Nat.mod_eq_of_lt (show _ < 2 ^ 32 by omega),
        Nat.mod_eq_of_lt (by omega), Nat.mul_comm]
    obtain ⟨last, bound, same⟩ := @body_spec m
      { w := m.mOff + 1, sum := sum + BitVec.ofNat 32 ((m.mDat m.mOff).toNat * 256),
        mlen := ((min len m.mLen - 1 : Nat) : Int) } (min len m.mLen - 1) rfl
      (by show (sum + _).toNat + _ < _; omega)
    have first : window m.mDat m.mOff (min len m.mLen) =
        m.mDat m.mOff :: window m.mDat (m.mOff + 1) (min len m.mLen - 1) := by
      rw [show min len m.mLen = 1 + (min len m.mLen - 1) by omega, window_append,
        Nat.add_sub_cancel_left]
      rfl
    refine ⟨by dsimp only; omega, ?_, bound, ?_⟩
    · rw [last]
      rcases Nat.mod_two_eq_zero_or_one (min len m.mLen) with even | uneven
      · rw [even, show (min len m.mLen - 1) % 2 = 1 by omega]
        rfl
      · rw [uneven, show (min len m.mLen - 1) % 2 = 0 by omega]
        rfl
    · rw [first, halves, if_pos rfl, Bool.not_true, ← Nat.add_assoc, ← added]
      exact same

theorem trips_spec {m : Chain} {locate odd : Bool} {len : Nat} {mlen : Int} {sum : BitVec 32}
    (within : len ≤ chainLen m) (pending : (mlen == -1) = odd)
    (searching : odd = true → locate = true) (more : locate = true → 0 < len)
    (small : sum.toNat ≤ 65535 * 4 + 255) :
    Same 65535 (trips locate m len mlen sum).toNat
      (sum.toNat + halves odd ((chainData m).take len)) := by
  induction m generalizing locate odd len mlen sum with
  | nil =>
    rw [trips, chainData_nil, List.take_nil]
    exact .refl _ _
  | cons first rest inductionHypothesis =>
    rw [chainLen_cons] at within
    rw [trips]
    split
    · rename_i empty
      have nothing : first.data = [] := first.data_eq_nil_iff.mpr empty.2
      rw [chainData_cons, nothing, List.nil_append]
      exact inductionHypothesis (by omega) pending (fun _ => rfl) (fun _ => more empty.1) small
    · rename_i here
      have byte : odd = true → 0 < len ∧ 0 < first.mLen := fun isOdd =>
        ⟨more (searching isOdd), Nat.pos_of_ne_zero fun zero => here ⟨searching isOdd, zero⟩⟩
      obtain ⟨left, parity, bound, same⟩ := trip_spec first pending byte small
      dsimp only
      generalize trip first len mlen sum = done at left parity bound same ⊢
      have front : (chainData (first :: rest)).take len =
          first.data.take len ++ (chainData rest).take (len - first.mLen) := by
        rw [chainData_cons, List.take_append, Mbuf.length_data]
      have length : (first.data.take len).length = min len first.mLen := by
        rw [List.length_take, Mbuf.length_data]
      rw [front, halves_append, length, ← Nat.add_assoc]
      split
      · rename_i none
        have noneLeft : len - first.mLen = 0 := by omega
        rw [noneLeft, List.take_zero]
        exact same
      · rename_i further
        have remaining : done.1 = (len - first.mLen : Nat) := by omega
        rw [remaining]
        exact (inductionHypothesis (by omega) parity (fun _ => rfl) (fun _ => by omega) bound).trans
          (same.add (.refl _ _))

/-- The checksum of a chain is the one's complement of the one's complement sum of the words of
its first bytes; so it is the same for every chain with the same bytes. -/
theorem cksum_of_bytes (m : Mbuf) (rest : Chain) {len : Nat} (within : len ≤ chainLen (m :: rest)) :
    (cksum (m :: rest) len).toNat = onesChecksum ((chainData (m :: rest)).take len) ∧
      ∀ (m' : Mbuf) (rest' : Chain), len ≤ chainLen (m' :: rest') →
        (chainData (m' :: rest')).take len = (chainData (m :: rest)).take len →
        cksum (m' :: rest') len = cksum (m :: rest) len := by
  have value : ∀ (m : Mbuf) (rest : Chain), len ≤ chainLen (m :: rest) →
      (cksum (m :: rest) len).toNat = onesChecksum ((chainData (m :: rest)).take len) := by
    intro m rest within
    have sums := @trips_spec (m :: rest) false false len 0 0 within rfl (fun odd => odd)
      (fun searching => absurd searching Bool.false_ne_true) (Nat.zero_le _)
    obtain ⟨folded, bound⟩ := foldHigh_spec (trips false (m :: rest) len 0 0)
    obtain ⟨top, plain⟩ := wrapSum_same (words_le ((chainData (m :: rest)).take len))
    rw [words_sum] at plain
    have same : Same 65535 (movzwl (foldHigh (trips false (m :: rest) len 0 0))).toNat
        (wrapSum 65535 (words ((chainData (m :: rest)).take len))) :=
      folded.trans (sums.trans ((Same.of_eq (Nat.zero_add _)).trans plain.symm))
    unfold onesChecksum
    rw [← same.eq bound top]
    unfold cksum movzwl
    rw [BitVec.toNat_ofNat, BitVec.toNat_not, BitVec.toNat_ofNat]
    omega
  refine ⟨value m rest within, fun m' rest' within' bytes => BitVec.eq_of_toNat_eq ?_⟩
  rw [value m' rest' within', value m rest within, bytes]

/-- A buffer with some ones. -/
def ones (len : Nat) : Mbuf := { Mbuf.fresh with mOff := mhead, mLen := len, mDat := fun _ => 1 }

theorem cksum_of_five : (cksum [ones 1, ones 0, ones 4] 5).toNat =
    onesChecksum ((chainData [ones 1, ones 0, ones 4]).take 5) :=
  (cksum_of_bytes (ones 1) [ones 0, ones 4] (by decide)).1

end NetworkUnix.Bbnnet.Ipcksum
