/-
This file says what `m_adj` does for every length that an `int` can hold. The
length is made positive before the chain is trimmed from the bottom, and the
smallest length has no positive counterpart: it leaves the chain as it is. Every
other length cuts off as many bytes as it says, moves no byte and breaks no link,
and the search back from the end of the chain comes to an end.
-/

import NetworkUnix.Bbnnet.Mbuf
import Mathlib.Data.Nat.Notation

namespace NetworkUnix.Bbnnet

/-! ### `m_adj` with its trips counted -/

/-- The outer loop of `m_adj` that keeps moving back until the length is satisfied, or `none` when
the trips are used up before. -/
def mAdjTrips : Nat → Chain → Nat → Nat → Option Chain
  | 0, mp, _, len => if len = 0 then some mp else none
  | trips + 1, mp, mlen, len =>
    if len = 0 then some mp
    else
      match mp[mAdjEnd mlen 0 mp]? with
      | none => none
      | some n =>
        if n.mLen ≤ len then
          mAdjTrips trips (mp.set (mAdjEnd mlen 0 mp) n.emptied) (mlen - n.mLen) (len - n.mLen)
        else some (mp.set (mAdjEnd mlen 0 mp) (n.cutBack len))

/-- Adjust from the bottom of the chain, by a length that is positive. -/
def mAdjBelow (mp : Chain) (len : Nat) : Option Chain :=
  match mp.getLast? with
  | none => some mp
  | some n =>
    if chainLen mp ≤ len then some (mp.map Mbuf.emptied)
    else if len < n.mLen then some (mp.dropLast ++ [n.cutBack len])
    else mAdjTrips mp.length (mp.dropLast ++ [n.emptied]) (chainLen mp - n.mLen) (len - n.mLen)

/-- `m_adj` on an `int`. -/
def mAdjInt (mp : Chain) (len : BitVec 32) : Option Chain :=
  if 0 ≤ len.toInt then some (mAdjTop mp len.toInt.toNat)
  else
    let len := -len
    if 0 < len.toInt then mAdjBelow mp len.toInt.toNat else some mp

/-! ### What a trim leaves -/

/-- A buffer with its mark and its bytes, whose data are not longer and do not reach further than
before. -/
structure Mbuf.Trimmed (old new : Mbuf) : Prop where
  mAct : new.mAct = old.mAct
  mDat : new.mDat = old.mDat
  mLen : new.mLen ≤ old.mLen
  edge : new.mOff + new.mLen ≤ old.mOff + old.mLen

theorem Mbuf.Trimmed.refl (m : Mbuf) : m.Trimmed m := ⟨rfl, rfl, Nat.le_refl _, Nat.le_refl _⟩

theorem Mbuf.Trimmed.trans {first second third : Mbuf} (before : first.Trimmed second)
    (after : second.Trimmed third) : first.Trimmed third :=
  ⟨after.mAct.trans before.mAct, after.mDat.trans before.mDat,
    Nat.le_trans after.mLen before.mLen, Nat.le_trans after.edge before.edge⟩

theorem Mbuf.trimmed_emptied (m : Mbuf) : m.Trimmed m.emptied :=
  ⟨rfl, rfl, Nat.zero_le _, Nat.add_le_add_left (Nat.zero_le _) _⟩

theorem Mbuf.trimmed_cutBack (m : Mbuf) (count : Nat) : m.Trimmed (m.cutBack count) :=
  ⟨rfl, rfl, Nat.sub_le _ _, Nat.add_le_add_left (Nat.sub_le _ _) _⟩

theorem Mbuf.trimmed_cutFront (m : Mbuf) {count : Nat} (inside : count ≤ m.mLen) :
    m.Trimmed (m.cutFront count) where
  mAct := rfl
  mDat := rfl
  mLen := Nat.sub_le _ _
  edge := by
    show m.mOff + count + (m.mLen - count) ≤ _
    omega

/-- The same buffers in the same order, each of them trimmed. -/
def Trims (old new : Chain) : Prop := List.Forall₂ Mbuf.Trimmed old new

namespace Trims

theorem refl (mp : Chain) : Trims mp mp := List.forall₂_same.mpr fun m _ => .refl m

theorem trans {first second third : Chain} (before : Trims first second)
    (after : Trims second third) : Trims first third := by
  induction before generalizing third with
  | nil => exact after
  | cons head _ inductionHypothesis =>
    obtain ⟨next, others, more, rest, rfl⟩ := List.forall₂_cons_left_iff.mp after
    exact .cons (head.trans more) (inductionHypothesis rest)

theorem append {old new old' new' : Chain} (front : Trims old new) (back : Trims old' new') :
    Trims (old ++ old') (new ++ new') := List.rel_append front back

theorem replace (pre post : Chain) {m n : Mbuf} (trimmed : m.Trimmed n) :
    Trims (pre ++ m :: post) (pre ++ n :: post) := (refl pre).append (.cons trimmed (refl post))

theorem emptied (mp : Chain) : Trims mp (mp.map Mbuf.emptied) :=
  List.forall₂_map_right_iff.mpr (List.forall₂_same.mpr fun m _ => m.trimmed_emptied)

end Trims

theorem trims_mAdjTop (mp : Chain) (len : Nat) : Trims mp (mAdjTop mp len) := by
  induction mp generalizing len with
  | nil => exact .nil
  | cons first rest inductionHypothesis =>
    unfold mAdjTop
    split
    · exact .refl _
    split
    · exact .cons first.trimmed_emptied (inductionHypothesis _)
    · rename_i inside
      exact .cons (first.trimmed_cutFront (Nat.le_of_not_le inside)) (Trims.refl rest)

/-! ### The search back from the end -/

/-- The trips are enough when each buffer that holds data may take one: the loop ends with the
length satisfied, at the chain that was described before. -/
theorem mAdjTrips_eq {trips mlen len : Nat} {mp : Chain} (total : chainLen mp = mlen)
    (most : len ≤ mlen) (enough : chainFull mp ≤ trips) :
    mAdjTrips trips mp mlen len = some (mAdjBack trips mp mlen len) ∧
      Trims mp (mAdjBack trips mp mlen len) := by
  induction trips generalizing mp mlen len with
  | zero =>
    have empty := chainLen_of_chainFull_zero (Nat.le_zero.mp enough)
    rw [mAdjTrips, if_pos (by omega), mAdjBack]
    exact ⟨rfl, .refl mp⟩
  | succ trips inductionHypothesis =>
    unfold mAdjTrips mAdjBack
    split
    · exact ⟨rfl, .refl mp⟩
    rename_i positive
    obtain ⟨pre, n, post, rfl, empty, here, set, fewer⟩ := mAdjEnd_found total (by omega)
    simp only [chainLen_append, chainLen_cons] at total
    simp only [here, set]
    split
    · have left : chainLen (pre ++ n.emptied :: post) = mlen - n.mLen := by
        simp only [chainLen_append, chainLen_cons, Mbuf.emptied]
        omega
      obtain ⟨same, trims⟩ :=
        inductionHypothesis left (show len - n.mLen ≤ mlen - n.mLen by omega) (by omega)
      exact ⟨same, (Trims.replace pre post n.trimmed_emptied).trans trims⟩
    · exact ⟨rfl, .replace pre post (n.trimmed_cutBack len)⟩

theorem mAdjBelow_eq (mp : Chain) (len : Nat) :
    mAdjBelow mp len = some (mAdjBottom mp len) ∧ Trims mp (mAdjBottom mp len) := by
  unfold mAdjBelow mAdjBottom
  rcases List.eq_nil_or_concat mp with rfl | ⟨pre, n, rfl⟩
  · exact ⟨rfl, .nil⟩
  simp only [List.getLast?_append, List.getLast?_singleton, Option.some_or,
    List.dropLast_concat, List.concat_eq_append]
  split
  · exact ⟨rfl, .emptied _⟩
  rename_i more
  simp only [chainLen_append, chainLen_cons, chainLen_nil, Nat.add_zero] at more ⊢
  split
  · exact ⟨rfl, .replace pre [] (n.trimmed_cutBack len)⟩
  · have left : chainLen (pre ++ [n.emptied]) = chainLen pre + n.mLen - n.mLen := by
      simp [Mbuf.emptied]
    have enough : chainFull (pre ++ [n.emptied]) ≤ (pre ++ [n]).length :=
      Nat.le_trans List.countP_le_length (by simp)
    obtain ⟨same, trims⟩ :=
      mAdjTrips_eq left (show len - n.mLen ≤ chainLen pre + n.mLen - n.mLen by omega) enough
    exact ⟨same, (Trims.replace pre [] n.trimmed_emptied).trans trims⟩

/-! ### Every length -/

/-- The smallest `int`. -/
def intMin : BitVec 32 := BitVec.intMin 32

/-- The bytes without the first `len`, or without the last `-len`. -/
def trimmed (data : List Byte) (len : Int) : List Byte :=
  if 0 ≤ len then data.drop len.toNat else data.take (data.length - (-len).toNat)

theorem mAdjInt_intMin (mp : Chain) : mAdjInt mp intMin = some mp := rfl

theorem toInt_neg {len : BitVec 32} (proper : len ≠ intMin) : (-len).toInt = -len.toInt :=
  BitVec.toInt_neg_of_ne_intMin proper

/-- `m_adj` ends, keeps the links, the marks and the bytes of the buffers, lets no data reach
further than before, and leaves the bytes that the length says, unless the length is the smallest
`int` and the chain holds data. -/
theorem m_adj_trims (mp : Chain) (len : BitVec 32) :
    (∃ after, mAdjInt mp len = some after ∧ Trims mp after ∧
      chainData after = trimmed (chainData mp) len.toInt) ↔ (len = intMin → chainLen mp = 0) := by
  constructor
  · rintro ⟨after, result, -, data⟩ rfl
    rw [mAdjInt_intMin] at result
    rw [← Option.some.inj result] at data
    have lengths := congrArg List.length data
    have smallest : intMin.toInt = -2147483648 := by decide
    rw [trimmed, smallest, if_neg (by decide), List.length_take, length_chainData] at lengths
    omega
  · intro proper
    unfold mAdjInt trimmed
    by_cases front : 0 ≤ len.toInt
    · rw [if_pos front, if_pos front]
      exact ⟨_, rfl, trims_mAdjTop mp _, chainData_mAdjTop mp _⟩
    rw [if_neg front, if_neg front]
    by_cases smallest : len = intMin
    · have empty := chainData_eq_nil_of_chainLen (proper smallest)
      subst smallest
      exact ⟨mp, rfl, .refl mp, by rw [empty, List.take_nil]⟩
    · have back := toInt_neg smallest
      obtain ⟨same, trims⟩ := mAdjBelow_eq mp (-len.toInt).toNat
      dsimp only
      rw [back, if_pos (by omega), same, length_chainData]
      exact ⟨_, rfl, trims, chainData_mAdjBottom mp _⟩

/-- A chain of one byte is left as it is. -/
theorem smallest_ignored : ¬ ∃ after,
    mAdjInt [{ Mbuf.fresh with mOff := mhead, mLen := 1 }] intMin = some after ∧
      Trims [{ Mbuf.fresh with mOff := mhead, mLen := 1 }] after ∧
      chainData after = trimmed (chainData [{ Mbuf.fresh with mOff := mhead, mLen := 1 }])
        intMin.toInt := by
  rintro ⟨after, result, -, data⟩
  rw [mAdjInt_intMin] at result
  rw [← Option.some.inj result] at data
  exact absurd (congrArg List.length data) (by decide)

end NetworkUnix.Bbnnet
