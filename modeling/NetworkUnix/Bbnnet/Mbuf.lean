/-
This file models message buffers and chains of them: the window of data in each
buffer, the bytes of a chain, and the trimming of a chain from either end. A
trim only moves offsets and lengths, and it shows in the bytes of the chain as
dropping or keeping a prefix.
-/

import NetworkUnix.Lib.Memory
import Mathlib.Algebra.BigOperators.Group.List.Basic
import Mathlib.Algebra.GroupWithZero.Nat

namespace NetworkUnix.Bbnnet

open Memory

abbrev Byte := UInt8

/-- Size of an mbuf. -/
abbrev msize : Nat := 128

/-- Length of the mbuf header: two pointers, the offset and the length. -/
abbrev mhead : Nat := 10

/-- Maximum data length of an mbuf. -/
abbrev mlen : Nat := 118

/-- A message buffer. `mDat` is the memory counted from the head of the buffer; the data are
the `mLen` bytes at `mOff`. The link to the next buffer is the position in the chain, and
`mAct` is the auxiliary word, which marks the end of a letter when it is not zero. -/
structure Mbuf where
  mAct : Nat
  mOff : Nat
  mLen : Nat
  mDat : Nat → Byte

/-- A chain of mbufs, linked through `m_next`. -/
abbrev Chain := List Mbuf

namespace Mbuf

/-- The data of the buffer. -/
def data (m : Mbuf) : List Byte := window m.mDat m.mOff m.mLen

/-- The data window lies inside the buffer, past its header. -/
def Fits (m : Mbuf) : Prop := mhead ≤ m.mOff ∧ m.mOff + m.mLen ≤ msize

instance (m : Mbuf) : Decidable m.Fits := inferInstanceAs (Decidable (_ ∧ _))

/-- What `m_get` hands out: the offset and the links are cleared. -/
def fresh : Mbuf := { mAct := 0, mOff := 0, mLen := 0, mDat := fun _ => 0 }

/-- The buffer with its first `count` bytes cut off. -/
def cutFront (m : Mbuf) (count : Nat) : Mbuf :=
  { m with mLen := m.mLen - count, mOff := m.mOff + count }

/-- The buffer with its last `count` bytes cut off. -/
def cutBack (m : Mbuf) (count : Nat) : Mbuf := { m with mLen := m.mLen - count }

/-- The buffer emptied where it stands. -/
def emptied (m : Mbuf) : Mbuf := { m with mLen := 0 }

@[simp] theorem length_data (m : Mbuf) : m.data.length = m.mLen := length_window _ _ _

@[simp] theorem data_emptied (m : Mbuf) : m.emptied.data = [] := rfl

@[simp] theorem data_cutFront (m : Mbuf) (count : Nat) :
    (m.cutFront count).data = m.data.drop count := (drop_window _ _ _ _).symm

theorem data_cutBack (m : Mbuf) (count : Nat) :
    (m.cutBack count).data = m.data.take (m.mLen - count) :=
  (take_window _ (Nat.sub_le _ _)).symm

theorem data_eq_nil_iff (m : Mbuf) : m.data = [] ↔ m.mLen = 0 := by
  rw [← List.length_eq_zero_iff, length_data]

end Mbuf

/-- The bytes of a chain. -/
def chainData (m : Chain) : List Byte := m.flatMap Mbuf.data

/-- The sum of the lengths in a chain. -/
def chainLen (m : Chain) : Nat := (m.map Mbuf.mLen).sum

@[simp] theorem chainData_nil : chainData [] = [] := rfl

@[simp] theorem chainData_cons (m : Mbuf) (rest : Chain) :
    chainData (m :: rest) = m.data ++ chainData rest := List.flatMap_cons

@[simp] theorem chainData_append (first second : Chain) :
    chainData (first ++ second) = chainData first ++ chainData second := List.flatMap_append

@[simp] theorem chainLen_nil : chainLen [] = 0 := rfl

@[simp] theorem chainLen_cons (m : Mbuf) (rest : Chain) :
    chainLen (m :: rest) = m.mLen + chainLen rest := by
  simp [chainLen]

@[simp] theorem chainLen_append (first second : Chain) :
    chainLen (first ++ second) = chainLen first + chainLen second := by
  simp [chainLen]

@[simp] theorem length_chainData (m : Chain) : (chainData m).length = chainLen m := by
  induction m with
  | nil => rfl
  | cons first rest inductionHypothesis => simp [inductionHypothesis]

theorem chainData_eq_nil_of_chainLen {m : Chain} (empty : chainLen m = 0) : chainData m = [] := by
  rw [← List.length_eq_zero_iff, length_chainData, empty]

/-! ### `m_adj` -/

/-- `m_adj` with a length that is not negative: adjust from the top of the chain. -/
def mAdjTop : Chain → Nat → Chain
  | [], _ => []
  | m :: rest, len =>
    if len = 0 then m :: rest
    else if m.mLen ≤ len then m.emptied :: mAdjTop rest (len - m.mLen)
    else m.cutFront len :: rest

/-- The inner loop of `m_adj`: the index of the buffer at which the running length `nlen`
first reaches `mlen`. -/
def mAdjEnd (mlen : Nat) : Nat → Chain → Nat
  | _, [] => 0
  | _, [_] => 0
  | nlen, m :: next :: rest =>
    if nlen + m.mLen < mlen then mAdjEnd mlen (nlen + m.mLen) (next :: rest) + 1 else 0

/-- The outer loop of `m_adj` that keeps moving back until the length is satisfied. One trip
empties one buffer, so the number of buffers bounds the trips. -/
def mAdjBack : Nat → Chain → Nat → Nat → Chain
  | 0, mp, _, _ => mp
  | trips + 1, mp, mlen, len =>
    if len = 0 then mp
    else
      match mp[mAdjEnd mlen 0 mp]? with
      | none => mp
      | some n =>
        if n.mLen ≤ len then
          mAdjBack trips (mp.set (mAdjEnd mlen 0 mp) n.emptied) (mlen - n.mLen) (len - n.mLen)
        else mp.set (mAdjEnd mlen 0 mp) (n.cutBack len)

/-- `m_adj` with a negative length `-len`: adjust from the bottom of the chain. -/
def mAdjBottom (mp : Chain) (len : Nat) : Chain :=
  match mp.getLast? with
  | none => mp
  | some n =>
    if chainLen mp ≤ len then mp.map Mbuf.emptied
    else if len < n.mLen then mp.dropLast ++ [n.cutBack len]
    else mAdjBack mp.length (mp.dropLast ++ [n.emptied]) (chainLen mp - n.mLen) (len - n.mLen)

/-- Adjust the length of an mbuf chain: a positive length adjusts from the top of the chain, a
negative one from the bottom. -/
def mAdj (mp : Chain) (len : Int) : Chain :=
  if 0 ≤ len then mAdjTop mp len.toNat else mAdjBottom mp (-len).toNat

theorem chainData_mAdjTop (m : Chain) (len : Nat) :
    chainData (mAdjTop m len) = (chainData m).drop len := by
  induction m generalizing len with
  | nil => simp [mAdjTop]
  | cons first rest inductionHypothesis =>
    unfold mAdjTop
    split
    · rename_i zero
      rw [zero, List.drop_zero]
    split
    · rename_i covered
      have gone : first.data.drop len = [] :=
        List.drop_of_length_le (by rw [Mbuf.length_data]; exact covered)
      rw [chainData_cons, Mbuf.data_emptied, List.nil_append, inductionHypothesis, chainData_cons,
        List.drop_append, gone, List.nil_append, Mbuf.length_data]
    · rename_i inside
      rw [chainData_cons, Mbuf.data_cutFront, chainData_cons, List.drop_append_of_le_length]
      rw [Mbuf.length_data]
      exact Nat.le_of_not_le inside

theorem chainData_emptied (m : Chain) : chainData (m.map Mbuf.emptied) = [] := by
  induction m with
  | nil => rfl
  | cons first rest inductionHypothesis => simp [inductionHypothesis]

theorem mAdjEnd_spec {mlen nlen : Nat} {mp : Chain} (total : nlen + chainLen mp = mlen)
    (more : nlen < mlen) : ∃ pre n post, mp = pre ++ n :: post ∧
      mAdjEnd mlen nlen mp = pre.length ∧ chainLen post = 0 ∧ 0 < n.mLen := by
  induction mp generalizing nlen with
  | nil =>
    rw [chainLen_nil] at total
    omega
  | cons first rest inductionHypothesis =>
    rw [chainLen_cons] at total
    cases rest with
    | nil =>
      rw [chainLen_nil] at total
      exact ⟨[], first, [], rfl, rfl, rfl, by omega⟩
    | cons next rest =>
      by_cases short : nlen + first.mLen < mlen
      · obtain ⟨pre, n, post, shape, index, empty, full⟩ :=
          @inductionHypothesis (nlen + first.mLen) (by omega) short
        refine ⟨first :: pre, n, post, by rw [shape, List.cons_append], ?_, empty, full⟩
        rw [mAdjEnd, if_pos short, index, List.length_cons]
      · refine ⟨[], first, next :: rest, rfl, ?_, by omega, by omega⟩
        rw [mAdjEnd, if_neg short, List.length_nil]

/-- The number of buffers that hold data: each trip of the outer loop empties one. -/
def chainFull (m : Chain) : Nat := m.countP fun n => n.mLen ≠ 0

theorem chainLen_of_chainFull_zero {m : Chain} (none : chainFull m = 0) : chainLen m = 0 := by
  unfold chainFull at none
  rw [List.countP_eq_zero] at none
  refine List.sum_eq_zero fun length inside => ?_
  obtain ⟨n, member, rfl⟩ := List.mem_map.mp inside
  simpa using none n member

theorem mAdjEnd_found {mlen : Nat} {mp : Chain} (total : chainLen mp = mlen) (more : 0 < mlen) :
    ∃ pre n post, mp = pre ++ n :: post ∧ chainLen post = 0 ∧ mp[mAdjEnd mlen 0 mp]? = some n ∧
      (∀ other, mp.set (mAdjEnd mlen 0 mp) other = pre ++ other :: post) ∧
      chainFull (pre ++ n.emptied :: post) + 1 = chainFull mp := by
  have whole : 0 + chainLen mp = mlen := by rw [Nat.zero_add, total]
  obtain ⟨pre, n, post, rfl, index, empty, full⟩ := mAdjEnd_spec whole more
  refine ⟨pre, n, post, rfl, empty, ?_, fun other => ?_, ?_⟩
  · rw [index, List.getElem?_append_right (Nat.le_refl _), Nat.sub_self, List.getElem?_cons_zero]
  · rw [index, List.set_append_right _ _ (Nat.le_refl _), Nat.sub_self, List.set_cons_zero]
  · simp only [chainFull, List.countP_append, List.countP_cons, Mbuf.emptied]
    simp only [ne_eq, Nat.ne_of_gt full, not_false_eq_true, decide_true, if_true,
      not_true_eq_false, decide_false, Bool.false_eq_true, if_false]
    omega

theorem chainData_mAdjBack {trips mlen len : Nat} {mp : Chain} (total : chainLen mp = mlen)
    (most : len ≤ mlen) (enough : chainFull mp ≤ trips) :
    chainData (mAdjBack trips mp mlen len) = (chainData mp).take (mlen - len) := by
  induction trips generalizing mp mlen len with
  | zero =>
    have empty := chainLen_of_chainFull_zero (Nat.le_zero.mp enough)
    rw [mAdjBack, chainData_eq_nil_of_chainLen empty, List.take_nil]
  | succ trips inductionHypothesis =>
    unfold mAdjBack
    split
    · rename_i zero
      rw [zero, Nat.sub_zero, ← total, ← length_chainData, List.take_length]
    rename_i positive
    obtain ⟨pre, n, post, rfl, empty, here, set, fewer⟩ := mAdjEnd_found total (by omega)
    have tail := chainData_eq_nil_of_chainLen empty
    simp only [chainLen_append, chainLen_cons] at total
    simp only [here, set]
    split
    · rename_i covered
      rw [inductionHypothesis (by simp [Mbuf.emptied]; omega) (by omega) (by omega)]
      simp only [chainData_append, chainData_cons, tail, Mbuf.data_emptied, List.append_nil]
      rw [List.take_append_of_le_length (by rw [length_chainData]; omega)]
      congr 1
      omega
    · rename_i inside
      simp only [chainData_append, chainData_cons, tail, List.append_nil, Mbuf.data_cutBack]
      have front : (chainData pre).take (mlen - len) = chainData pre :=
        List.take_of_length_le (by rw [length_chainData]; omega)
      rw [List.take_append, front, length_chainData]
      congr 2
      omega

theorem chainData_mAdjBottom (mp : Chain) (len : Nat) :
    chainData (mAdjBottom mp len) = (chainData mp).take (chainLen mp - len) := by
  unfold mAdjBottom
  rcases List.eq_nil_or_concat mp with rfl | ⟨pre, n, rfl⟩
  · simp
  simp only [List.getLast?_append, List.getLast?_singleton, Option.some_or,
    List.dropLast_concat, List.concat_eq_append]
  split
  · rename_i covered
    rw [chainData_emptied, Nat.sub_eq_zero_of_le covered, List.take_zero]
  rename_i more
  simp only [chainLen_append, chainLen_cons, chainLen_nil, Nat.add_zero] at more ⊢
  split
  · rename_i inside
    have front : (chainData pre).take (chainLen pre + n.mLen - len) = chainData pre :=
      List.take_of_length_le (by rw [length_chainData]; omega)
    simp only [chainData_append, chainData_cons, chainData_nil, List.append_nil, Mbuf.data_cutBack]
    rw [List.take_append, front, length_chainData]
    congr 2
    omega
  · rename_i covered
    rw [chainData_mAdjBack (by simp [Mbuf.emptied]) (by omega)
      (Nat.le_trans List.countP_le_length (by simp))]
    simp only [chainData_append, chainData_cons, chainData_nil, List.append_nil,
      Mbuf.data_emptied]
    rw [List.take_append_of_le_length (by rw [length_chainData]; omega)]
    congr 1
    omega

theorem chainData_mAdj_front (mp : Chain) (count : Nat) :
    chainData (mAdj mp count) = (chainData mp).drop count := by
  rw [mAdj, if_pos (Int.natCast_nonneg count), Int.toNat_natCast, chainData_mAdjTop]

theorem chainData_mAdj_back (mp : Chain) {count : Nat} (positive : 0 < count) :
    chainData (mAdj mp (-(count : Int))) = (chainData mp).take (chainLen mp - count) := by
  rw [mAdj, if_neg (by omega), Int.neg_neg, Int.toNat_natCast, chainData_mAdjBottom]

end NetworkUnix.Bbnnet
