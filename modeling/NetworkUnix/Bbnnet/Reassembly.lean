/-
This file proves that a datagram is passed up exactly when its fragments cover
it. The chain of fragments is merged as pieces of the datagram are; the merge
goes wrong only where a new fragment that has reached the end of a queued one
stops at the first byte of a later one, which is then left on the chain a second
time.
-/

import NetworkUnix.Bbnnet.IpInput
import NetworkUnix.Lib.Pieces
import NetworkUnix.Lib.Run

namespace NetworkUnix.Bbnnet.IpInput

open Pieces

/-! ### Chains that begin with a header -/

/-- The header lies in the first mbuf. -/
def Headed (hlen : Nat) (mp : Chain) : Prop := ∃ m rest, mp = m :: rest ∧ hlen ≤ m.mLen

variable {hlen : Nat} {mp : Chain}

theorem Headed.le (headed : Headed hlen mp) : hlen ≤ chainLen mp := by
  obtain ⟨m, rest, rfl, inside⟩ := headed
  rw [chainLen_cons]
  omega

theorem headed_mAdjBack {trips mlen len : Nat} (positive : 0 < hlen) (headed : Headed hlen mp)
    (total : chainLen mp = mlen) (keeps : len + hlen ≤ mlen) :
    Headed hlen (mAdjBack trips mp mlen len) := by
  induction trips generalizing mp mlen len with
  | zero => exact headed
  | succ trips inductionHypothesis =>
    unfold mAdjBack
    split
    · exact headed
    have whole : 0 + chainLen mp = mlen := by rw [Nat.zero_add, total]
    obtain ⟨pre, n, post, shape, index, empty, full⟩ := mAdjEnd_spec whole (by omega)
    have here : mp[mAdjEnd mlen 0 mp]? = some n := by
      rw [index, shape, List.getElem?_append_right (Nat.le_refl _), Nat.sub_self,
        List.getElem?_cons_zero]
    have set (other : Mbuf) : mp.set (mAdjEnd mlen 0 mp) other = pre ++ other :: post := by
      rw [index, shape, List.set_append_right _ _ (Nat.le_refl _), Nat.sub_self,
        List.set_cons_zero]
    have lengths : chainLen pre + n.mLen = mlen := by
      rw [← total, shape, chainLen_append, chainLen_cons, empty, Nat.add_zero]
    obtain ⟨m, rest, first, inside⟩ := headed
    simp only [here, set]
    cases pre with
    | nil =>
      rw [chainLen_nil] at lengths
      rw [if_neg (by omega)]
      refine ⟨n.cutBack len, post, rfl, ?_⟩
      show hlen ≤ n.mLen - len
      omega
    | cons front others =>
      have same : front = m := by
        rw [first] at shape
        exact (List.cons.inj shape).1.symm
      subst same
      rw [chainLen_cons] at lengths
      split
      · rename_i covered
        refine inductionHypothesis ⟨front, others ++ n.emptied :: post, rfl, inside⟩ ?_
          (by omega)
        simp only [List.cons_append, chainLen_cons, chainLen_append, empty, Mbuf.emptied]
        omega
      · exact ⟨front, others ++ n.cutBack len :: post, rfl, inside⟩

theorem headed_mAdj {count : Nat} (positive : 0 < hlen) (some : 0 < count) (headed : Headed hlen mp)
    (keeps : count + hlen ≤ chainLen mp) :
    Headed hlen (mAdj mp (-(count : Int))) := by
  rw [mAdj, if_neg (by omega), Int.neg_neg, Int.toNat_natCast, mAdjBottom]
  rcases List.eq_nil_or_concat mp with rfl | ⟨pre, n, rfl⟩
  · exact headed
  simp only [List.getLast?_append, List.getLast?_singleton, Option.some_or,
    List.dropLast_concat, List.concat_eq_append] at headed keeps ⊢
  obtain ⟨m, rest, shape, inside⟩ := headed
  have lengths : chainLen (pre ++ [n]) = chainLen pre + n.mLen := by
    rw [chainLen_append, chainLen_cons, chainLen_nil, Nat.add_zero]
  rw [if_neg (by omega)]
  cases pre with
  | nil =>
    have same : n = m := (List.cons.inj shape).1
    rw [chainLen_nil] at lengths
    rw [if_pos (by omega)]
    refine ⟨n.cutBack count, [], rfl, ?_⟩
    show hlen ≤ n.mLen - count
    omega
  | cons front others =>
    have same : front = m := (List.cons.inj shape).1
    subst same
    split
    · exact ⟨front, others ++ [n.cutBack count], rfl, inside⟩
    · refine headed_mAdjBack positive ⟨front, others ++ [n.emptied], rfl, inside⟩ ?_
        (by rw [lengths] at keeps ⊢; omega)
      have none : n.emptied.mLen = 0 := rfl
      rw [lengths, chainLen_append, chainLen_cons n.emptied, chainLen_nil, none]
      omega

theorem chainData_unpad {ipLen : Nat} (fits : ∀ m ∈ mp, m.Fits) (inside : ipLen ≤ chainLen mp) :
    chainData (unpad mp ipLen) = (chainData mp).take ipLen := by
  unfold unpad
  rcases List.eq_nil_or_concat mp with rfl | ⟨pre, n, rfl⟩
  · simp
  simp only [List.getLast?_append, List.getLast?_singleton, Option.some_or,
    List.dropLast_concat, List.concat_eq_append] at fits inside ⊢
  have lengths : chainLen (pre ++ [n]) = chainLen pre + n.mLen := by
    rw [chainLen_append, chainLen_cons, chainLen_nil, Nat.add_zero]
  split
  · rename_i different
    split
    · rename_i more
      obtain ⟨count, value⟩ := Int.eq_ofNat_of_zero_le
        (show (0 : Int) ≤ chainLen (pre ++ [n]) - ipLen by omega)
      rw [value, chainData_mAdj_back _ (by omega)]
      congr 1
      omega
    · have small : n.mLen < 256 := by
        have := (fits n (by simp)).2
        have : msize = 128 := rfl
        omega
      have left : (((n.mLen : Int) - ((chainLen (pre ++ [n]) : Int) - ipLen)) % 256).toNat =
          ipLen - chainLen pre := by
        omega
      have reaches : chainLen pre ≤ ipLen := by omega
      have shorter : ipLen - chainLen pre ≤ n.mLen := by omega
      have cut : Mbuf.data { n with mLen := ipLen - chainLen pre } =
          n.data.take (ipLen - chainLen pre) :=
        (Memory.take_window _ shorter).symm
      have front : (chainData pre).take ipLen = chainData pre :=
        List.take_of_length_le (by rw [length_chainData]; exact reaches)
      simp only [left, chainData_append, chainData_cons, chainData_nil, List.append_nil, cut]
      rw [List.take_append, front, length_chainData]
  · rename_i same
    rw [List.take_of_length_le]
    rw [length_chainData]
    omega

theorem headed_unpad {ipLen : Nat} (positive : 0 < hlen) (headed : Headed hlen mp)
    (fits : ∀ m ∈ mp, m.Fits) (keeps : hlen ≤ ipLen) (inside : ipLen ≤ chainLen mp) :
    Headed hlen (unpad mp ipLen) := by
  unfold unpad
  rcases List.eq_nil_or_concat mp with rfl | ⟨pre, n, rfl⟩
  · exact headed
  simp only [List.getLast?_append, List.getLast?_singleton, Option.some_or,
    List.dropLast_concat, List.concat_eq_append] at headed fits inside ⊢
  have lengths : chainLen (pre ++ [n]) = chainLen pre + n.mLen := by
    rw [chainLen_append, chainLen_cons, chainLen_nil, Nat.add_zero]
  split
  · rename_i different
    split
    · obtain ⟨count, value⟩ := Int.eq_ofNat_of_zero_le
        (show (0 : Int) ≤ chainLen (pre ++ [n]) - ipLen by omega)
      rw [value]
      exact headed_mAdj positive (by omega) headed (by omega)
    · have small : n.mLen < 256 := by
        have := (fits n (by simp)).2
        have : msize = 128 := rfl
        omega
      obtain ⟨m, rest, shape, within⟩ := headed
      cases pre with
      | nil =>
        have same : n = m := (List.cons.inj shape).1
        rw [chainLen_nil] at lengths
        refine ⟨_, [], rfl, ?_⟩
        simp only [List.nil_append] at lengths inside ⊢
        omega
      | cons front others =>
        have same : front = m := (List.cons.inj shape).1
        exact ⟨front, _, rfl, same ▸ within⟩
  · exact headed

theorem chainData_ipOptions (headed : Headed hlen mp) (least : sizeofIp ≤ hlen) :
    (chainData (ipOptions hlen mp)).drop sizeofIp = (chainData mp).drop hlen := by
  obtain ⟨m, rest, rfl, inside⟩ := headed
  unfold ipOptions
  split
  · rename_i options
    have place : m.mOff + sizeofIp + (hlen - sizeofIp) = m.mOff + hlen := by omega
    have length : m.mOff + m.mLen - (m.mOff + hlen) = m.mLen - hlen := by omega
    have split : m.mLen - (hlen - sizeofIp) = sizeofIp + (m.mLen - hlen) := by omega
    simp only [ipOpt, chainData_cons, place, length, split, Mbuf.data, Memory.window_append]
    rw [Memory.window_copy_self, List.append_assoc, List.drop_left' (Memory.length_window _ _ _),
      List.drop_append_of_le_length (by rw [Memory.length_window]; exact inside),
      Memory.drop_window]
  · rename_i exactly
    rw [show hlen = sizeofIp by omega]

theorem chainData_filter (mp : Chain) :
    chainData (mp.filter fun m => m.mLen ≠ 0) = chainData mp := by
  induction mp with
  | nil => rfl
  | cons m rest inductionHypothesis =>
    by_cases empty : m.mLen = 0
    · rw [List.filter_cons_of_neg (by simpa using empty), inductionHypothesis, chainData_cons,
        (Mbuf.data_eq_nil_iff m).mpr empty, List.nil_append]
    · rw [List.filter_cons_of_pos (by simpa using empty), chainData_cons, chainData_cons,
        inductionHypothesis]

/-! ### Fragments as pieces of the datagram -/

/-- The bytes of the datagram that a fragment holds. -/
def Frag.data (f : Frag) : List Byte :=
  if f.ip.ipOff = 0 then (chainData f.mp).drop f.ip.hlen else chainData f.mp

/-- A fragment as a piece of the datagram. -/
def Frag.piece (f : Frag) : Piece Byte where
  start := f.ip.ipOff.toNat
  data := f.data

/-- The fragment holds bytes of the datagram at their offset, its header agrees with them, and one
that reaches the end is marked as the last. -/
structure Carries (stream : List Byte) (f : Frag) : Prop where
  part : f.piece.Of stream
  len : f.ip.ipLen.toNat = f.data.length
  ends : f.piece.stop = f.ip.ipEnd.toNat + 1
  last : f.piece.stop = stream.length → f.ip.ipMff = false
  least : sizeofIp ≤ f.ip.hlen
  header : f.ip.ipOff = 0 → Headed f.ip.hlen f.mp

section Pieces

variable {stream : List Byte} {f q : Frag}

theorem Carries.positive (carries : Carries stream f) : 0 < f.ip.ipLen.toNat := by
  rw [carries.len]
  exact List.length_pos_iff.mpr carries.part.1

theorem Carries.len_ne_zero (carries : Carries stream f) : f.ip.ipLen ≠ 0 := by
  intro zero
  have := carries.positive
  rw [zero] at this
  exact absurd this (by decide)

theorem Carries.stop (carries : Carries stream f) :
    f.piece.stop = f.piece.start + f.ip.ipLen.toNat := by
  rw [carries.len]
  rfl

theorem overlap_eq (carries : Carries stream f) (q : Frag) :
    overlap f q = f.piece.stop - q.piece.start := by
  rw [carries.ends]
  rfl

theorem off_gt_end (other : Carries stream q) :
    f.ip.ipOff > q.ip.ipEnd ↔ q.piece.stop ≤ f.piece.start := by
  rw [other.ends]
  exact Iff.rfl

theorem end_lt_off (carries : Carries stream f) :
    f.ip.ipEnd < q.ip.ipOff ↔ f.piece.stop ≤ q.piece.start := by
  rw [carries.ends]
  exact Iff.rfl

theorem end_lt_end (carries : Carries stream f) (other : Carries stream q) :
    f.ip.ipEnd < q.ip.ipEnd ↔ f.piece.stop < q.piece.stop := by
  rw [carries.ends, other.ends, BitVec.lt_def]
  omega

theorem end_le_end (carries : Carries stream f) (other : Carries stream q) :
    f.ip.ipEnd ≤ q.ip.ipEnd ↔ f.piece.stop ≤ q.piece.stop := by
  rw [carries.ends, other.ends, BitVec.le_def]
  omega

theorem off_le_off : f.ip.ipOff ≤ q.ip.ipOff ↔ f.piece.start ≤ q.piece.start := Iff.rfl

section

variable (carries : Carries stream f)
include carries

theorem off_lt_end :
    q.ip.ipOff < f.ip.ipEnd ↔ q.piece.start + 1 < f.piece.stop := by
  rw [carries.ends, BitVec.lt_def]
  exact Nat.succ_lt_succ_iff.symm

theorem off_eq_end :
    q.ip.ipOff = f.ip.ipEnd ↔ q.piece.start + 1 = f.piece.stop := by
  rw [carries.ends, ← BitVec.toNat_inj]
  exact Nat.succ_inj.symm

theorem Carries.chainLen :
    Bbnnet.chainLen f.mp = (if f.ip.ipOff = 0 then f.ip.hlen else 0) + f.ip.ipLen.toNat := by
  rw [carries.len, Frag.data]
  split
  · rename_i zero
    have := (carries.header zero).le
    rw [List.length_drop, length_chainData]
    omega
  · rw [length_chainData, Nat.zero_add]

theorem Carries.cutTail {i : Nat} (some : 0 < i)
    (less : i < f.ip.ipLen.toNat) :
    Carries stream (f.cutTail i) ∧ (f.cutTail i).piece = f.piece.before (f.piece.stop - i) := by
  have stop := carries.stop
  have ends := carries.ends
  have total := carries.chainLen
  have bound := f.ip.ipLen.isLt
  have small : (BitVec.ofNat 16 i).toNat = i := by
    rw [BitVec.toNat_ofNat]
    omega
  have length : (f.cutTail i).ip.ipLen.toNat = f.ip.ipLen.toNat - i := by
    simp only [Frag.cutTail]
    rw [BitVec.toNat_sub_of_le (by rw [BitVec.le_def]; omega), small]
  have bytes : chainData (f.cutTail i).mp = (chainData f.mp).take (Bbnnet.chainLen f.mp - i) :=
    chainData_mAdj_back f.mp some
  have data : (f.cutTail i).data = f.data.take (f.ip.ipLen.toNat - i) := by
    have off : (f.cutTail i).ip.ipOff = f.ip.ipOff := rfl
    have hlen : (f.cutTail i).ip.hlen = f.ip.hlen := rfl
    simp only [Frag.data, bytes, off, hlen]
    split
    · rename_i zero
      rw [if_pos zero] at total
      rw [List.drop_take]
      congr 1
      omega
    · rename_i later
      rw [if_neg later] at total
      congr 1
      omega
  have piece : (f.cutTail i).piece = f.piece.before (f.piece.stop - i) := by
    have count : f.piece.stop - i - f.piece.start = f.ip.ipLen.toNat - i := by omega
    rw [Piece.before, count]
    show Piece.mk f.ip.ipOff.toNat (f.cutTail i).data = _
    rw [data]
    rfl
  have part : (f.cutTail i).piece.Of stream := by
    rw [piece]
    exact Piece.before_of carries.part (by omega)
  have newStop : (f.cutTail i).piece.stop = f.piece.stop - i := by
    rw [piece, Piece.before_stop _ _ (by omega) (by omega)]
  refine ⟨⟨part, ?_, ?_, ?_, carries.least, ?_⟩, piece⟩
  · rw [length, data, List.length_take, ← carries.len]
    omega
  · rw [newStop, ends]
    simp only [Frag.cutTail]
    rw [BitVec.toNat_sub_of_le (by rw [BitVec.le_def]; omega), small]
    omega
  · intro reaches
    have := Piece.stop_le_length carries.part
    omega
  · intro zero
    have zero : f.ip.ipOff = 0 := zero
    rw [if_pos zero] at total
    have least := carries.least
    have size : sizeofIp = 20 := rfl
    show Headed f.ip.hlen (mAdj f.mp (-(i : Int)))
    exact headed_mAdj (by omega) some (carries.header zero) (by omega)

theorem Carries.cutHead {i : Nat} (less : i < f.ip.ipLen.toNat)
    (later : 0 < f.ip.ipOff.toNat) (short : stream.length ≤ 65535) :
    Carries stream (f.cutHead i) ∧
      (f.cutHead i).piece = f.piece.after (f.ip.ipOff.toNat + i) := by
  have stop := carries.stop
  have within := Piece.stop_le_length carries.part
  have start : f.piece.start = f.ip.ipOff.toNat := rfl
  have bound := f.ip.ipLen.isLt
  have small : (BitVec.ofNat 16 i).toNat = i := by
    rw [BitVec.toNat_ofNat]
    omega
  have length : (f.cutHead i).ip.ipLen.toNat = f.ip.ipLen.toNat - i := by
    simp only [Frag.cutHead]
    rw [BitVec.toNat_sub_of_le (by rw [BitVec.le_def]; omega), small]
  have off : (f.cutHead i).ip.ipOff.toNat = f.ip.ipOff.toNat + i := by
    simp only [Frag.cutHead]
    rw [BitVec.toNat_add_of_lt (by omega), small]
  have notFirst : f.ip.ipOff ≠ 0 := by
    intro zero
    rw [zero] at later
    exact absurd later (by decide)
  have notFirstCut : (f.cutHead i).ip.ipOff ≠ 0 := by
    intro zero
    rw [zero] at off
    have : (0 : BitVec 16).toNat = 0 := rfl
    omega
  have data : (f.cutHead i).data = f.data.drop i := by
    rw [Frag.data, Frag.data, if_neg notFirstCut, if_neg notFirst]
    exact chainData_mAdj_front f.mp i
  have piece : (f.cutHead i).piece = f.piece.after (f.ip.ipOff.toNat + i) := by
    have count : f.ip.ipOff.toNat + i - f.piece.start = i := by omega
    rw [Piece.after, count, Frag.piece, off, data]
    rfl
  have part : (f.cutHead i).piece.Of stream := by
    rw [piece]
    exact Piece.after_of carries.part (by omega)
  have newStop : (f.cutHead i).piece.stop = f.piece.stop := by
    rw [piece, Piece.after_stop _ _ (by omega)]
  refine ⟨⟨part, ?_, ?_, ?_, carries.least, fun zero => absurd zero notFirstCut⟩, piece⟩
  · rw [length, data, List.length_drop, ← carries.len]
  · rw [newStop]
    exact carries.ends
  · rw [newStop]
    exact carries.last

theorem cut_before (meets : q.piece.start < f.piece.stop)
    (less : overlap f q < f.ip.ipLen.toNat) :
    Carries stream (f.cutTail (overlap f q)) ∧
      (f.cutTail (overlap f q)).piece = f.piece.before q.piece.start := by
  rw [overlap_eq carries] at less ⊢
  obtain ⟨cut, piece⟩ := carries.cutTail (Nat.sub_pos_of_lt meets) less
  refine ⟨cut, ?_⟩
  rw [piece]
  congr 1
  omega

theorem cut_before_none (less : ¬ overlap f q < f.ip.ipLen.toNat) : (f.piece.before q.piece.start).data = [] := by
  have stop := carries.stop
  have positive := carries.positive
  rw [overlap_eq carries] at less
  exact (before_data_eq_nil_iff carries.part _).mpr (by omega)

end

variable {chain : List Frag}

/-- What is left of a fragment goes before its successors as in the merge of pieces, when none of
them starts at its last byte. -/
theorem ipSuccessors_pieces (all : ∀ q ∈ chain, Carries stream q) (carries : Carries stream f)
    (clear : ∀ q ∈ chain, q.ip.ipOff ≠ f.ip.ipEnd) :
    (∀ q ∈ ipEnqueue (ipSuccessors chain f), Carries stream q) ∧
      (ipEnqueue (ipSuccessors chain f)).map Frag.piece =
        absorb f.piece (chain.map Frag.piece) := by
  induction chain with
  | nil =>
    rw [ipSuccessors, ipEnqueue, if_pos carries.len_ne_zero]
    exact ⟨by simpa using carries, (put_of_ne_nil carries.part.1 _).symm⟩
  | cons q rest inductionHypothesis =>
    obtain ⟨qCarries, restAll⟩ := List.forall_mem_cons.mp all
    have apart : ¬ q.piece.start + 1 = f.piece.stop :=
      fun touch => clear q List.mem_cons_self ((off_eq_end carries).mpr touch)
    simp only [List.map_cons, absorb, if_neg carries.part.1, ipSuccessors,
      off_lt_end carries, end_le_end qCarries carries]
    by_cases reached : q.piece.start + 1 < f.piece.stop
    · have meets : ¬ f.piece.stop ≤ q.piece.start := by omega
      rw [if_pos ⟨carries.len_ne_zero, reached⟩, if_neg meets]
      by_cases covered : q.piece.stop ≤ f.piece.stop
      · rw [if_pos covered, if_pos covered]
        exact inductionHypothesis restAll
          (List.forall_mem_cons.mp clear).2
      · rw [if_neg covered, if_neg covered]
        by_cases less : overlap f q < f.ip.ipLen.toNat
        · obtain ⟨cutCarries, cutPiece⟩ := cut_before carries (by omega) less
          rw [if_pos less, ipEnqueue, if_pos cutCarries.len_ne_zero,
            put_of_ne_nil (cutPiece ▸ cutCarries.part.1)]
          refine ⟨?_, ?_⟩
          · exact List.forall_mem_cons.mpr ⟨cutCarries, all⟩
          · rw [List.map_cons, cutPiece, List.map_cons]
        · rw [if_neg less, ipEnqueue, if_neg (by simp [Frag.duplicated]),
            put_of_nil (cut_before_none carries less)]
          exact ⟨all, rfl⟩
    · have apartNow : f.piece.stop ≤ q.piece.start := by omega
      rw [if_neg (fun both => reached both.2), if_pos apartNow, ipEnqueue,
        if_pos carries.len_ne_zero]
      exact ⟨List.forall_mem_cons.mpr ⟨carries, all⟩, rfl⟩

theorem ipSuccessors_duplicated (chain : List Frag) (f : Frag) :
    ipEnqueue (ipSuccessors chain f.duplicated) = chain := by
  cases chain with
  | nil => simp [ipSuccessors, ipEnqueue, Frag.duplicated]
  | cons q rest => simp [ipSuccessors, ipEnqueue, Frag.duplicated]

/-- The new fragment reaches the end of a queued one, and its last byte is the first byte of a
later one. -/
def touches (f : Frag) : List Frag → Prop
  | [] => False
  | q :: rest =>
    (f.ip.ipOff ≤ q.ip.ipEnd ∧ q.ip.ipEnd ≤ f.ip.ipEnd ∧
        ∃ later ∈ rest, later.ip.ipOff = f.ip.ipEnd) ∨
      touches f rest

instance touches.decide (f : Frag) : (chain : List Frag) → Decidable (touches f chain)
  | [] => inferInstanceAs (Decidable False)
  | _ :: rest =>
    have := touches.decide f rest
    inferInstanceAs (Decidable (_ ∨ _))

/-- `ip_input` merges a fragment into the chain as pieces are merged, unless it touches a later
fragment. -/
theorem ipMerge_pieces (short : stream.length ≤ 65535) (all : ∀ q ∈ chain, Carries stream q)
    (carries : Carries stream f) (clear : ¬ touches f chain) :
    (∀ q ∈ ipMerge chain f, Carries stream q) ∧
      (ipMerge chain f).map Frag.piece = merge (chain.map Frag.piece) f.piece := by
  induction chain with
  | nil => exact ⟨by simpa [ipMerge] using carries, rfl⟩
  | cons q rest inductionHypothesis =>
    obtain ⟨qCarries, restAll⟩ := List.forall_mem_cons.mp all
    simp only [touches, not_or] at clear
    simp only [List.map_cons, merge, ipMerge, off_gt_end qCarries, end_lt_off carries,
      end_lt_end carries qCarries, off_le_off]
    by_cases past : q.piece.stop ≤ f.piece.start
    · rw [if_pos past, if_pos past]
      obtain ⟨restCarries, restPieces⟩ := inductionHypothesis restAll clear.2
      exact ⟨List.forall_mem_cons.mpr ⟨qCarries, restCarries⟩, congrArg _ restPieces⟩
    rw [if_neg past, if_neg past]
    by_cases apart : f.piece.stop ≤ q.piece.start
    · rw [if_pos apart, if_pos apart]
      exact ⟨List.forall_mem_cons.mpr ⟨carries, all⟩, rfl⟩
    rw [if_neg apart, if_neg apart]
    by_cases within : f.piece.stop < q.piece.stop
    · rw [if_pos within, if_pos within]
      by_cases less : overlap f q < f.ip.ipLen.toNat
      · obtain ⟨cutCarries, cutPiece⟩ := cut_before carries (by omega) less
        rw [if_pos less, put_of_ne_nil (cutPiece ▸ cutCarries.part.1)]
        refine ⟨?_, by rw [List.map_cons, cutPiece, List.map_cons]⟩
        exact List.forall_mem_cons.mpr ⟨cutCarries, all⟩
      · rw [if_neg less, put_of_nil (cut_before_none carries less)]
        exact ⟨all, rfl⟩
    rw [if_neg within, if_neg within]
    have reached : f.ip.ipOff ≤ q.ip.ipEnd := by
      have := mt (off_gt_end qCarries).mp past
      exact BitVec.not_lt.mp this
    have covered : q.ip.ipEnd ≤ f.ip.ipEnd := by
      rw [end_le_end qCarries carries]
      omega
    have noneTouch : ∀ later ∈ rest, later.ip.ipOff ≠ f.ip.ipEnd :=
      fun later inside equal => clear.1 ⟨reached, covered, later, inside, equal⟩
    by_cases before : f.piece.start ≤ q.piece.start
    · rw [if_pos before, if_pos before]
      exact ipSuccessors_pieces restAll carries noneTouch
    rw [if_neg before, if_neg before]
    have stop := carries.stop
    have length := overlap_eq qCarries f
    have start : f.piece.start = f.ip.ipOff.toNat := rfl
    by_cases less : overlap q f < f.ip.ipLen.toNat
    · obtain ⟨cutCarries, cutPiece⟩ := carries.cutHead less (by omega) short
      have reach : f.ip.ipOff.toNat + overlap q f = q.piece.stop := by omega
      rw [reach] at cutPiece
      obtain ⟨restCarries, restPieces⟩ := ipSuccessors_pieces restAll cutCarries noneTouch
      rw [if_pos less]
      refine ⟨?_, ?_⟩
      · exact List.forall_mem_cons.mpr ⟨qCarries, restCarries⟩
      · rw [← cutPiece]
        exact congrArg _ restPieces
    · have gone : (f.piece.after q.piece.stop).data = [] :=
        (after_data_eq_nil_iff _ _).mpr (Or.inl (by omega))
      rw [if_neg less, ipSuccessors_duplicated, absorb_of_nil gone]
      exact ⟨all, rfl⟩

/-- What the merge leaves of a header. -/
def Ip.kept (ip : Ip) : Bool × BitVec 8 := (ip.ipMff, ip.ipP)

theorem ipSuccessors_kept (chain : List Frag) (f : Frag) :
    ∀ g ∈ ipEnqueue (ipSuccessors chain f), g ∈ chain ∨ g.ip.kept = f.ip.kept := by
  induction chain with
  | nil =>
    intro g inside
    rw [ipSuccessors, ipEnqueue] at inside
    split at inside
    · exact Or.inr (congrArg (fun h : Frag => h.ip.kept) (List.mem_singleton.mp inside))
    · exact Or.inl inside
  | cons q rest inductionHypothesis =>
    have put (h : Frag) (same : h.ip.kept = f.ip.kept) :
        ∀ g ∈ ipEnqueue (q :: rest, h), g ∈ q :: rest ∨ g.ip.kept = f.ip.kept := by
      intro g inside
      rw [ipEnqueue] at inside
      split at inside
      · rcases List.mem_cons.mp inside with rfl | tail
        · exact Or.inr same
        · exact Or.inl tail
      · exact Or.inl inside
    unfold ipSuccessors
    split
    · split
      · intro g inside
        exact (inductionHypothesis g inside).imp_left (List.mem_cons_of_mem _)
      split
      · exact put _ rfl
      · exact put _ rfl
    · exact put _ rfl

theorem ipMerge_kept (chain : List Frag) (f : Frag) :
    ∀ g ∈ ipMerge chain f, g ∈ chain ∨ g.ip.kept = f.ip.kept := by
  induction chain with
  | nil =>
    intro g inside
    exact Or.inr (congrArg (fun h : Frag => h.ip.kept) (List.mem_singleton.mp inside))
  | cons q rest inductionHypothesis =>
    have behind {others : List Frag} (kept : ∀ g ∈ others, g ∈ rest ∨ g.ip.kept = f.ip.kept) :
        ∀ g ∈ q :: others, g ∈ q :: rest ∨ g.ip.kept = f.ip.kept := by
      intro g inside
      rcases List.mem_cons.mp inside with rfl | tail
      · exact Or.inl List.mem_cons_self
      · exact (kept g tail).imp_left (List.mem_cons_of_mem _)
    have before (h : Frag) (same : h.ip.kept = f.ip.kept) :
        ∀ g ∈ h :: q :: rest, g ∈ q :: rest ∨ g.ip.kept = f.ip.kept := by
      intro g inside
      rcases List.mem_cons.mp inside with rfl | tail
      · exact Or.inr same
      · exact Or.inl tail
    unfold ipMerge
    split
    · exact behind inductionHypothesis
    split
    · exact before f rfl
    split
    · split
      · exact before _ rfl
      · exact fun g inside => Or.inl inside
    split
    · intro g inside
      exact (ipSuccessors_kept rest f g inside).imp_left (List.mem_cons_of_mem _)
    split
    · exact behind (ipSuccessors_kept rest _)
    · exact behind (ipSuccessors_kept rest _)

/-! ### Completion -/

theorem ipDoneFrom_tiles (qCarries : Carries stream q) (all : ∀ g ∈ chain, Carries stream g)
    (done : 0 < ipDoneFrom q chain) :
    Tiles q.piece.stop (ipDoneFrom q chain) (chain.map Frag.piece) ∧
      ∃ g ∈ q :: chain, g.ip.ipMff = false ∧ g.piece.stop = ipDoneFrom q chain := by
  induction chain generalizing q with
  | nil =>
    unfold ipDoneFrom at done ⊢
    cases mark : q.ip.ipMff with
    | true =>
      rw [mark, if_pos rfl] at done
      exact absurd done (Nat.lt_irrefl 0)
    | false =>
      rw [if_neg (by simp)]
      exact ⟨qCarries.ends, q, List.mem_cons_self, mark, qCarries.ends⟩
  | cons next rest inductionHypothesis =>
    rw [ipDoneFrom] at done ⊢
    split at done
    · rename_i adjacent
      rw [if_pos adjacent]
      obtain ⟨tiles, g, inside, mark, stop⟩ := inductionHypothesis
        (all next List.mem_cons_self) ((List.forall_mem_cons.mp all).2) done
      refine ⟨⟨?_, tiles⟩, g, List.mem_cons_of_mem _ inside, mark, stop⟩
      rw [qCarries.ends]
      exact adjacent
    · exact absurd done (Nat.lt_irrefl 0)

theorem ipDoneFrom_of_tiles (qCarries : Carries stream q) (all : ∀ g ∈ chain, Carries stream g)
    (tiles : Tiles q.piece.stop stream.length (chain.map Frag.piece)) :
    ipDoneFrom q chain = stream.length := by
  induction chain generalizing q with
  | nil =>
    have reaches : q.piece.stop = stream.length := tiles
    rw [ipDoneFrom, qCarries.last reaches, if_neg (by simp), ← qCarries.ends, reaches]
  | cons next rest inductionHypothesis =>
    obtain ⟨adjacent, tiles⟩ := tiles
    rw [ipDoneFrom, if_pos (by rw [← qCarries.ends]; exact adjacent)]
    exact inductionHypothesis (all next List.mem_cons_self)
      ((List.forall_mem_cons.mp all).2) tiles

/-- Every byte of the datagram is held. -/
def CoversAll (stream : List Byte) (pieces : List (Piece Byte)) : Prop :=
  ∀ position < stream.length, Covers pieces position

theorem ipDone_iff (some : 0 < stream.length) (all : ∀ g ∈ chain, Carries stream g)
    (ordered : Ordered (chain.map Frag.piece))
    (marked : ∀ g ∈ chain, g.ip.ipMff = false →
      Covers (chain.map Frag.piece) (stream.length - 1)) :
    (0 < ipDone chain ↔ CoversAll stream (chain.map Frag.piece)) ∧
      (0 < ipDone chain → ipDone chain = stream.length ∧
        Tiles 0 stream.length (chain.map Frag.piece)) := by
  have value (done : 0 < ipDone chain) : ipDone chain = stream.length ∧
      Tiles 0 stream.length (chain.map Frag.piece) := by
    cases chain with
    | nil => exact absurd done (Nat.lt_irrefl 0)
    | cons q rest =>
      rw [ipDone] at done ⊢
      split at done
      · exact absurd done (Nat.lt_irrefl 0)
      rename_i first
      have first : q.ip.ipOff = 0 := by simpa using first
      obtain ⟨tiles, g, inside, mark, stop⟩ := ipDoneFrom_tiles (all q List.mem_cons_self)
        ((List.forall_mem_cons.mp all).2) done
      have whole : Tiles 0 (ipDoneFrom q rest) ((q :: rest).map Frag.piece) :=
        ⟨by rw [Frag.piece, first]; rfl, tiles⟩
      have reached := ((whole.covers _).mp (marked g inside mark)).2
      have within := Piece.stop_le_length (all g inside).part
      have length : ipDoneFrom q rest = stream.length := by omega
      rw [if_neg (by simpa using first)]
      exact ⟨length, length ▸ whole⟩
  refine ⟨⟨fun done position within => ?_, fun covers => ?_⟩, value⟩
  · exact ((value done).2.covers position).mpr ⟨Nat.zero_le _, within⟩
  · have allOf : AllOf stream (chain.map Frag.piece) := by
      intro piece inside
      obtain ⟨g, member, rfl⟩ := List.mem_map.mp inside
      exact (all g member).part
    have tiles := tiles_of_covers allOf ordered (fun _ _ => Nat.zero_le _) (Nat.zero_le _)
      fun position _ within => covers position within
    cases chain with
    | nil =>
      have none : 0 = stream.length := tiles
      omega
    | cons q rest =>
      obtain ⟨first, tiles⟩ := tiles
      have first : q.ip.ipOff = 0 := BitVec.eq_of_toNat_eq first
      rw [ipDone, if_neg (by simpa using first), ipDoneFrom_of_tiles (all q List.mem_cons_self)
        ((List.forall_mem_cons.mp all).2) tiles]
      exact some

theorem chainData_flatten (chain : List Frag) (later : ∀ g ∈ chain, g.ip.ipOff ≠ 0) :
    chainData (chain.map Frag.mp).flatten = (chain.map Frag.piece).flatMap Piece.data := by
  induction chain with
  | nil => rfl
  | cons g rest inductionHypothesis =>
    have data : g.piece.data = chainData g.mp := by
      show g.data = _
      rw [Frag.data, if_neg (later g List.mem_cons_self)]
    rw [List.map_cons, List.flatten_cons, chainData_append, List.map_cons, List.flatMap_cons, data,
      inductionHypothesis fun g inside => later g (List.mem_cons_of_mem _ inside)]

/-- The datagram, with its data, its length and its addresses. -/
def Original (key : BitVec 32 × BitVec 32 × BitVec 16 × BitVec 8) (stream : List Byte)
    (d : Passed) : Prop :=
  d.data = stream ∧ d.ip.ipLen.toNat = stream.length ∧ d.ip.ipSrc = key.1 ∧
    d.ip.ipDst = key.2.1 ∧ d.next = ipNext key.2.2.2

theorem completed_original {fp : Ipq} (some : 0 < stream.length) (short : stream.length ≤ 65535)
    (all : ∀ g ∈ chain, Carries stream g) (protocol : ∀ g ∈ chain, g.ip.ipP = fp.iqh.ipP)
    (tiles : Tiles 0 stream.length (chain.map Frag.piece)) :
    ∃ d, completed fp stream.length chain = Option.some d ∧ Original fp.iqh.datagram stream d := by
  cases chain with
  | nil =>
    have none : 0 = stream.length := tiles
    omega
  | cons p rest =>
    have pCarries := all p List.mem_cons_self
    have first : p.ip.ipOff = 0 := BitVec.eq_of_toNat_eq tiles.1
    have headed := pCarries.header first
    have later : ∀ g ∈ rest, g.ip.ipOff ≠ 0 := by
      intro g inside zero
      have bound := (tiles.2.bounds g.piece (List.mem_map_of_mem inside)).1
      have positive := Piece.start_lt_stop pCarries.part
      have start : g.piece.start = 0 := by
        rw [Frag.piece, zero]
        rfl
      omega
    have allOf : AllOf stream ((p :: rest).map Frag.piece) := by
      intro piece inside
      obtain ⟨g, member, rfl⟩ := List.mem_map.mp inside
      exact (all g member).part
    have bytes := tiles.data allOf
    have data : p.piece.data = (chainData p.mp).drop p.ip.hlen := by
      show p.data = _
      rw [Frag.data, if_pos first]
    refine ⟨_, rfl, ?_, ?_, rfl, rfl, ?_⟩
    · show (chainData (ipMergef _)).drop sizeofIp = stream
      have long : sizeofIp ≤ (chainData (ipOptions p.ip.hlen p.mp)).length := by
        have kept := congrArg List.length (chainData_ipOptions headed pCarries.least)
        have positive := pCarries.positive
        rw [pCarries.len] at positive
        have size : p.data.length = ((chainData p.mp).drop p.ip.hlen).length :=
          congrArg List.length data
        rw [List.length_drop] at kept
        omega
      rw [ipMergef, chainData_filter, List.flatten_cons, chainData_append,
        List.drop_append_of_le_length long, chainData_ipOptions headed pCarries.least,
        chainData_flatten rest later, ← data]
      rw [List.map_cons, List.flatMap_cons] at bytes
      rw [bytes, List.drop_zero, Nat.sub_zero, List.take_length]
    · show (BitVec.ofNat 16 stream.length).toNat = stream.length
      rw [BitVec.toNat_ofNat]
      omega
    · exact congrArg ipNext (protocol p List.mem_cons_self)

end Pieces

/-! ### The list of chains -/

section Lists

variable {key : BitVec 32 × BitVec 32 × BitVec 16 × BitVec 8} {nIp : List Ipq}

/-- The chains of one datagram. -/
def chainsOf (key : BitVec 32 × BitVec 32 × BitVec 16 × BitVec 8) (nIp : List Ipq) : List Ipq :=
  nIp.filter fun fp => fp.iqh.datagram = key

/-- The fragments that are queued for one datagram. -/
def queued (key : BitVec 32 × BitVec 32 × BitVec 16 × BitVec 8) (nIp : List Ipq) : List Frag :=
  (chainsOf key nIp).flatMap Ipq.chain

theorem ipFindf_none {p : Ip} (none : ipFindf p nIp = none) : chainsOf p.datagram nIp = [] := by
  rw [ipFindf, List.findIdx?_eq_none_iff] at none
  rw [chainsOf, List.filter_eq_nil_iff]
  intro fp inside same
  have other := none fp inside
  simp only [decide_eq_false_iff_not] at other
  exact other (of_decide_eq_true same).symm

theorem ipFindf_some {p : Ip} {k : Nat} (found : ipFindf p nIp = some k) :
    ∃ pre fp post, nIp = pre ++ fp :: post ∧ k = pre.length ∧ fp.iqh.datagram = p.datagram := by
  rw [ipFindf, List.findIdx?_eq_some_iff_getElem] at found
  obtain ⟨within, same, _⟩ := found
  refine ⟨nIp.take k, nIp[k], nIp.drop (k + 1), ?_, ?_, (of_decide_eq_true same).symm⟩
  · rw [List.getElem_cons_drop, List.take_append_drop]
  · rw [List.length_take]
    omega

theorem chainsOf_append (first second : List Ipq) :
    chainsOf key (first ++ second) = chainsOf key first ++ chainsOf key second :=
  List.filter_append _ _

variable {fp : Ipq}

theorem chainsOf_cons_same (same : fp.iqh.datagram = key) (rest : List Ipq) :
    chainsOf key (fp :: rest) = fp :: chainsOf key rest :=
  List.filter_cons_of_pos (by simpa using same)

theorem chainsOf_cons_other (other : fp.iqh.datagram ≠ key) (rest : List Ipq) :
    chainsOf key (fp :: rest) = chainsOf key rest :=
  List.filter_cons_of_neg (by simpa using other)

theorem eraseIdx_middle (pre post : List Ipq) (fp : Ipq) :
    (pre ++ fp :: post).eraseIdx pre.length = pre ++ post := by
  rw [List.eraseIdx_append_of_length_le (Nat.le_refl _), Nat.sub_self, List.eraseIdx_cons_zero]

theorem set_middle (pre post : List Ipq) (fp other : Ipq) :
    (pre ++ fp :: post).set pre.length other = pre ++ other :: post := by
  rw [List.set_append_right _ _ (Nat.le_refl _), Nat.sub_self, List.set_cons_zero]

theorem reassemble_other {pre post : List Ipq} (other : fp.iqh.datagram ≠ key) (f : Frag) :
    chainsOf key (reassemble (pre ++ fp :: post) pre.length fp f).1 =
      chainsOf key (pre ++ fp :: post) := by
  simp only [reassemble]
  split
  · rw [eraseIdx_middle, chainsOf_append, chainsOf_append, chainsOf_cons_other other]
  · rw [set_middle, chainsOf_append, chainsOf_append, chainsOf_cons_other other]
    rw [chainsOf_cons_other (by exact other)]

theorem ipInput_other {a : Packet} (other : a.ip.datagram ≠ key) :
    chainsOf key (ipInput nIp a).1 = chainsOf key nIp := by
  unfold ipInput
  split
  · rfl
  split
  · rfl
  split
  · cases found : ipFindf a.ip nIp with
    | none => rfl
    | some k =>
      obtain ⟨pre, fp, post, rfl, rfl, same⟩ := ipFindf_some found
      rw [ipDiscard, eraseIdx_middle, chainsOf_append, chainsOf_append,
        chainsOf_cons_other (by rw [same]; exact other)]
  cases found : ipFindf a.ip nIp with
  | none =>
    simp only
    split
    · rw [reassemble_other (by exact other), chainsOf_append, chainsOf_cons_other (by exact other)]
      exact List.append_nil _
    · rfl
  | some k =>
    obtain ⟨pre, fp, post, rfl, rfl, same⟩ := ipFindf_some found
    simp only [List.getElem?_append_right (Nat.le_refl _), Nat.sub_self, List.getElem?_cons_zero]
    exact reassemble_other (by rw [same]; exact other) _

end Lists

/-! ### Runs of arriving fragments -/

section Runs

variable {key : BitVec 32 × BitVec 32 × BitVec 16 × BitVec 8} {stream : List Byte}

/-- The data that a packet brings, without header and padding. -/
def Packet.piece (a : Packet) : Piece Byte where
  start := (a.ip.ipOff <<< 3).toNat
  data := ((chainData a.mp).take a.ip.ipLen.toNat).drop a.ip.hlen

/-- A fragment of the datagram, or the datagram as a whole: its checksum is right, its header is in
the first mbuf, its data are bytes of the datagram at its offset, and it says that more fragments
follow unless it reaches the end. -/
structure FragmentOf (stream : List Byte) (a : Packet) : Prop where
  header : Headed a.ip.hlen a.mp
  least : sizeofIp ≤ a.ip.hlen
  fits : ∀ m ∈ a.mp, m.Fits
  sum : a.sum = true
  inside : a.ip.ipLen.toNat ≤ chainLen a.mp
  part : a.piece.Of stream
  last : a.ip.ipOff &&& ipMf = 0 ↔ a.piece.stop = stream.length

variable {a : Packet} {received : List (Piece Byte)}

theorem FragmentOf.length (fragment : FragmentOf stream a) :
    a.piece.data.length = a.ip.ipLen.toNat - a.ip.hlen ∧ a.ip.hlen < a.ip.ipLen.toNat := by
  have inside := fragment.inside
  have positive := List.length_pos_iff.mpr fragment.part.1
  have length : a.piece.data.length = a.ip.ipLen.toNat - a.ip.hlen := by
    simp only [Packet.piece, List.length_drop, List.length_take, length_chainData]
    omega
  omega

theorem FragmentOf.ipLen (fragment : FragmentOf stream a) :
    a.header.ipLen.toNat = a.piece.data.length := by
  obtain ⟨length, longer⟩ := fragment.length
  have bound := a.ip.ipLen.isLt
  have small : (BitVec.ofNat 16 a.ip.hlen).toNat = a.ip.hlen := by
    rw [BitVec.toNat_ofNat]
    omega
  rw [length, Packet.header, BitVec.toNat_sub_of_le (by rw [BitVec.le_def]; omega), small]

theorem FragmentOf.fragData (fragment : FragmentOf stream a) :
    a.frag.data = a.piece.data ∧ (a.frag.ip.ipOff = 0 → Headed a.ip.hlen a.frag.mp) := by
  obtain ⟨_, longer⟩ := fragment.length
  have least := fragment.least
  have size : sizeofIp = 20 := rfl
  have bytes := chainData_unpad fragment.fits fragment.inside
  have headed := headed_unpad (by omega) fragment.header fragment.fits (Nat.le_of_lt longer)
    fragment.inside
  by_cases first : a.header.ipOff = 0
  · have mp : a.frag.mp = unpad a.mp a.ip.ipLen.toNat := if_neg (by simpa using first)
    refine ⟨?_, fun _ => mp ▸ headed⟩
    rw [Frag.data, mp, bytes]
    exact if_pos first
  · obtain ⟨m, rest, shape, within⟩ := headed
    have mp : a.frag.mp = m.cutFront a.ip.hlen :: rest := by
      simp only [Packet.frag, shape]
      exact if_pos first
    refine ⟨?_, fun zero => absurd zero first⟩
    rw [Frag.data, mp, chainData_cons, Mbuf.data_cutFront]
    show (if a.header.ipOff = 0 then _ else _) = _
    rw [if_neg first, Packet.piece, ← bytes, shape, chainData_cons,
      List.drop_append_of_le_length (by rw [Mbuf.length_data]; exact within)]

theorem FragmentOf.carries (short : stream.length ≤ 65535) (fragment : FragmentOf stream a) :
    a.frag.piece = a.piece ∧ Carries stream a.frag := by
  obtain ⟨data, headed⟩ := fragment.fragData
  have piece : a.frag.piece = a.piece := by
    show Piece.mk a.header.ipOff.toNat a.frag.data = _
    rw [data]
    rfl
  have length := fragment.ipLen
  have within := Piece.stop_le_length fragment.part
  have start : a.piece.start = a.header.ipOff.toNat := rfl
  have stop : a.piece.stop = a.piece.start + a.piece.data.length := rfl
  have positive := List.length_pos_iff.mpr fragment.part.1
  refine ⟨piece, piece ▸ fragment.part, ?_, ?_, ?_, fragment.least, headed⟩
  · rw [data]
    exact length
  · have added : (a.header.ipOff + a.header.ipLen).toNat = a.piece.stop := by
      rw [BitVec.toNat_add_of_lt (by omega)]
      omega
    show a.frag.piece.stop = (a.header.ipOff + a.header.ipLen - 1).toNat + 1
    have one : (1 : BitVec 16).toNat = 1 := rfl
    rw [piece, BitVec.toNat_sub_of_le (by rw [BitVec.le_def]; omega), added, one]
    omega
  · intro reaches
    rw [piece] at reaches
    have clear := fragment.last.mpr reaches
    show decide (a.ip.ipOff &&& ipMf ≠ 0) = false
    simpa using clear

theorem FragmentOf.whole (fragment : FragmentOf stream a) (whole : a.whole = true) :
    a.piece.start = 0 ∧ a.piece.data = stream := by
  simp only [Packet.whole, Bool.and_eq_true, Bool.not_eq_true', decide_eq_true_eq] at whole
  obtain ⟨mark, first⟩ := whole
  have start : a.piece.start = 0 := by
    show a.header.ipOff.toNat = 0
    rw [first]
    rfl
  have clear : a.ip.ipOff &&& ipMf = 0 := by
    have := of_decide_eq_false mark
    simpa using this
  have stop := fragment.last.mp clear
  have sum : a.piece.stop = a.piece.start + a.piece.data.length := rfl
  have prefixed := fragment.part.2
  rw [start, List.drop_zero] at prefixed
  exact ⟨start, prefixed.eq_of_length (by omega)⟩

/-- A chain of fragments that agrees with what has been received of the datagram. -/
structure Queue (key : BitVec 32 × BitVec 32 × BitVec 16 × BitVec 8) (stream : List Byte)
    (received : List (Piece Byte)) (chain : List Frag) : Prop where
  carries : ∀ f ∈ chain, Carries stream f
  protocol : ∀ f ∈ chain, f.ip.ipP = key.2.2.2
  ordered : Ordered (chain.map Frag.piece)
  marked : ∀ f ∈ chain, f.ip.ipMff = false →
    Covers (chain.map Frag.piece) (stream.length - 1)
  covers : ∀ position, Covers (chain.map Frag.piece) position ↔ Covers received position

theorem Queue.allOf {chain : List Frag} (queue : Queue key stream received chain) :
    AllOf stream (chain.map Frag.piece) := by
  intro piece inside
  obtain ⟨f, member, rfl⟩ := List.mem_map.mp inside
  exact (queue.carries f member).part

theorem Queue.nil : Queue key stream [] [] :=
  ⟨by simp, by simp, List.Pairwise.nil, by simp, fun _ => Iff.rfl⟩

theorem Queue.merge {chain : List Frag} (short : stream.length ≤ 65535)
    (queue : Queue key stream received chain) (fragment : FragmentOf stream a)
    (protocol : a.ip.ipP = key.2.2.2) (clear : ¬ touches a.frag chain) :
    Queue key stream (received ++ [a.piece]) (ipMerge chain a.frag) := by
  obtain ⟨piece, carries⟩ := fragment.carries short
  obtain ⟨mergedCarries, pieces⟩ := ipMerge_pieces short queue.carries carries clear
  have part : a.frag.piece.Of stream := carries.part
  have covers (position : Nat) : Covers ((ipMerge chain a.frag).map Frag.piece) position ↔
      Covers (chain.map Frag.piece) position ∨ a.frag.piece.Holds position := by
    rw [pieces, merge_covers queue.ordered, or_comm]
  refine ⟨mergedCarries, ?_, ?_, ?_, ?_⟩
  · intro f inside
    rcases ipMerge_kept chain a.frag f inside with old | new
    · exact queue.protocol f old
    · rw [show f.ip.ipP = a.frag.ip.ipP from congrArg Prod.snd new]
      exact protocol
  · rw [pieces]
    exact merge_ordered queue.ordered
  · intro f inside mark
    rw [covers]
    rcases ipMerge_kept chain a.frag f inside with old | new
    · exact Or.inl (queue.marked f old mark)
    · have last : a.frag.ip.ipMff = false := by
        rw [← mark]
        exact (congrArg Prod.fst new).symm
      have free : a.ip.ipOff &&& ipMf = 0 := by
        have := of_decide_eq_false last
        simpa using this
      have stop := fragment.last.mp free
      have positive := Piece.start_lt_stop fragment.part
      rw [piece]
      exact Or.inr ⟨by omega, by omega⟩
  · intro position
    rw [covers, piece, queue.covers]
    simp only [Covers, List.mem_append, List.mem_singleton]
    constructor
    · rintro (⟨old, inside, holds⟩ | holds)
      · exact ⟨old, Or.inl inside, holds⟩
      · exact ⟨_, Or.inr rfl, holds⟩
    · rintro ⟨old, inside | rfl, holds⟩
      · exact Or.inl ⟨old, inside, holds⟩
      · exact Or.inr holds

/-- The list of chains, with the pieces of one datagram received since it was last passed up. -/
structure Reassembly where
  nIp : List Ipq
  received : List (Piece Byte)

/-- The effect of one packet. -/
def arrive (key : BitVec 32 × BitVec 32 × BitVec 16 × BitVec 8) (s : Reassembly) (a : Packet) :
    Reassembly where
  nIp := (ipInput s.nIp a).1
  received :=
    if a.ip.datagram ≠ key then s.received
    else if (ipInput s.nIp a).2.isSome then []
    else s.received ++ [a.piece]

/-- The step relation: what comes under the header of the datagram is a fragment of it, and
anything else may come in between. -/
def Arrives (key : BitVec 32 × BitVec 32 × BitVec 16 × BitVec 8) (stream : List Byte)
    (s : Reassembly) (a : Packet) (next : Reassembly) : Prop :=
  (a.ip.datagram = key → FragmentOf stream a) ∧ next = arrive key s a

/-- A fragment of the datagram finds a buffer for the header of its chain, and does not touch a
later fragment. -/
def Clear (key : BitVec 32 × BitVec 32 × BitVec 16 × BitVec 8) (s : Reassembly) (a : Packet) :
    Prop :=
  a.ip.datagram = key → a.whole = false →
    (chainsOf key s.nIp = [] → a.mGet = true) ∧ ¬ touches a.frag (queued key s.nIp)

/-- The invariant of the runs. -/
structure Assembling (key : BitVec 32 × BitVec 32 × BitVec 16 × BitVec 8) (stream : List Byte)
    (s : Reassembly) : Prop where
  one : (chainsOf key s.nIp).length ≤ 1
  queue : Queue key stream s.received (queued key s.nIp)
  missing : ¬ CoversAll stream s.received

theorem queued_of_none (none : chainsOf key nIp = []) : queued key nIp = [] := by
  rw [queued, none, List.flatMap_nil]

/-- What the arrival of a packet of the datagram leads to: it is passed up if every byte has been
received, and queued otherwise. -/
structure Arrived (key : BitVec 32 × BitVec 32 × BitVec 16 × BitVec 8) (stream : List Byte)
    (received : List (Piece Byte)) (chain : List Frag) (out : List Ipq × Option Passed) :
    Prop where
  passes : out.2.isSome ↔ CoversAll stream received
  original : ∀ d, out.2 = some d → Original key stream d
  one : (chainsOf key out.1).length ≤ 1
  queue : Queue key stream (if out.2.isSome then [] else received) (queued key out.1)
  merged : out.2 = none → queued key out.1 = chain

theorem arrived_reassemble (positive : 0 < stream.length) (short : stream.length ≤ 65535)
    {pre post : List Ipq} {fp : Ipq} (same : fp.iqh.datagram = key)
    (protocol : a.ip.ipP = key.2.2.2) (before : chainsOf key pre = [])
    (behind : chainsOf key post = []) (queue : Queue key stream received fp.chain)
    (fragment : FragmentOf stream a) (clear : ¬ touches a.frag fp.chain) :
    Arrived key stream (received ++ [a.piece]) (ipMerge fp.chain a.frag)
      (reassemble (pre ++ fp :: post) pre.length fp a.frag) := by
  have merged := queue.merge short fragment protocol clear
  obtain ⟨done, value⟩ := ipDone_iff positive merged.carries merged.ordered merged.marked
  have covers : CoversAll stream ((ipMerge fp.chain a.frag).map Frag.piece) ↔
      CoversAll stream (received ++ [a.piece]) :=
    forall_congr' fun position => forall_congr' fun _ => merged.covers position
  have fpProtocol : fp.iqh.ipP = key.2.2.2 := by
    rw [← same]
    rfl
  unfold reassemble
  simp only
  split
  · rename_i finished
    obtain ⟨length, tiles⟩ := value finished
    obtain ⟨d, passed, original⟩ := completed_original positive short merged.carries
      (fun g inside => (merged.protocol g inside).trans fpProtocol.symm) tiles
    have none : chainsOf key (pre ++ post) = [] := by
      rw [chainsOf_append, before, behind, List.nil_append]
    rw [eraseIdx_middle, length, passed]
    refine ⟨⟨fun _ => covers.mp (done.mp finished), fun _ => rfl⟩, ?_, ?_, ?_, nofun⟩
    · intro other equal
      rw [← Option.some.inj equal, ← same]
      exact original
    · simp [none]
    · rw [queued_of_none none]
      exact Queue.nil
  · rename_i unfinished
    have alone : chainsOf key (pre ++ { fp with chain := ipMerge fp.chain a.frag } :: post) =
        [{ fp with chain := ipMerge fp.chain a.frag }] := by
      rw [chainsOf_append, before, chainsOf_cons_same (by exact same), behind, List.nil_append]
    rw [set_middle]
    refine ⟨?_, fun d equal => absurd equal.symm (Option.some_ne_none d), ?_, ?_, fun _ => ?_⟩
    · simp only [Option.isSome_none, Bool.false_eq_true, false_iff]
      exact fun all => unfinished (done.mpr (covers.mpr all))
    · rw [alone]
      exact Nat.le_refl 1
    · rw [queued, alone]
      simpa using merged
    · rw [queued, alone]
      exact List.append_nil _

theorem arrived (long : 2 ≤ stream.length) (short : stream.length ≤ 65535) {s : Reassembly}
    (held : Assembling key stream s) (same : a.ip.datagram = key) (fragment : FragmentOf stream a)
    (clear : Clear key s a) :
    Arrived key stream (s.received ++ [a.piece]) (ipMerge (queued key s.nIp) a.frag)
      (ipInput s.nIp a) := by
  have header : ¬ a.ip.hlen > (a.mp.head?.map Mbuf.mLen).getD 0 := by
    obtain ⟨m, rest, shape, inside⟩ := fragment.header
    rw [shape]
    exact Nat.not_lt.mpr inside
  have protocol : a.ip.ipP = key.2.2.2 := by
    rw [← same]
    rfl
  have one := held.one
  have queue := held.queue
  unfold ipInput
  rw [if_neg header, if_neg (by rw [fragment.sum]; exact Bool.true_eq_false.mp)]
  split
  · rename_i whole
    obtain ⟨start, data⟩ := fragment.whole whole
    have none : chainsOf key (ipDiscard s.nIp (ipFindf a.ip s.nIp)) = [] := by
      cases found : ipFindf a.ip s.nIp with
      | none =>
        rw [← same]
        exact ipFindf_none found
      | some k =>
        obtain ⟨pre, fp, post, shape, index, head⟩ := ipFindf_some found
        rw [shape, chainsOf_append, chainsOf_cons_same (head.trans same), List.length_append,
          List.length_cons] at one
        rw [ipDiscard, shape, index, eraseIdx_middle, chainsOf_append]
        rw [List.eq_nil_of_length_eq_zero (by omega : (chainsOf key pre).length = 0),
          List.eq_nil_of_length_eq_zero (by omega : (chainsOf key post).length = 0)]
        rfl
    obtain ⟨_, longer⟩ := fragment.length
    have least := fragment.least
    have size : sizeofIp = 20 := rfl
    refine ⟨⟨fun _ position within => ?_, fun _ => rfl⟩, ?_, ?_, ?_, nofun⟩
    · refine ⟨a.piece, List.mem_append_right _ List.mem_cons_self, ?_, ?_⟩
      · omega
      · rw [Piece.stop, data]
        omega
    · rintro d ⟨⟩
      have bytes := chainData_unpad fragment.fits fragment.inside
      have headed := headed_unpad (by omega) fragment.header fragment.fits (Nat.le_of_lt longer)
        fragment.inside
      refine ⟨?_, ?_, ?_, ?_, ?_⟩
      · rw [Passed.data, chainData_ipOptions headed fragment.least, bytes]
        exact data
      · rw [← data]
        exact fragment.ipLen
      · rw [← same]
        rfl
      · rw [← same]
        rfl
      · rw [← same]
        rfl
    · simp only
      rw [none]
      exact Nat.zero_le 1
    · simp only
      rw [queued_of_none none]
      exact Queue.nil
  · rename_i parts
    obtain ⟨buffer, noTouch⟩ := clear same (by simpa using parts)
    cases found : ipFindf a.ip s.nIp with
    | none =>
      have none : chainsOf key s.nIp = [] := by
        rw [← same]
        exact ipFindf_none found
      rw [queued_of_none none] at queue noTouch ⊢
      simp only
      rw [if_pos (buffer none)]
      exact arrived_reassemble (by omega) short same protocol none rfl
        (show Queue key stream s.received (Ipq.mk a.header []).chain from queue) fragment noTouch
    | some k =>
      obtain ⟨pre, fp, post, shape, index, head⟩ := ipFindf_some found
      have head := head.trans same
      rw [shape, chainsOf_append, chainsOf_cons_same head, List.length_append,
        List.length_cons] at one
      have before : chainsOf key pre = [] := List.eq_nil_of_length_eq_zero (by omega)
      have behind : chainsOf key post = [] := List.eq_nil_of_length_eq_zero (by omega)
      have chain : queued key s.nIp = fp.chain := by
        rw [queued, shape, chainsOf_append, before, chainsOf_cons_same head, behind]
        simp
      rw [chain] at queue noTouch ⊢
      simp only [shape, index, List.getElem?_append_right (Nat.le_refl _), Nat.sub_self,
        List.getElem?_cons_zero]
      exact arrived_reassemble (by omega) short head protocol before behind queue fragment noTouch

theorem Assembling.step (long : 2 ≤ stream.length) (short : stream.length ≤ 65535)
    {s next : Reassembly} (held : Assembling key stream s) (clear : Clear key s a)
    (taken : Arrives key stream s a next) : Assembling key stream next := by
  obtain ⟨fragment, rfl⟩ := taken
  by_cases same : a.ip.datagram = key
  · have arrived := arrived long short held same (fragment same) clear
    have received : (arrive key s a).received =
        if (ipInput s.nIp a).2.isSome then [] else s.received ++ [a.piece] :=
      if_neg (by simpa using same)
    refine ⟨arrived.one, received ▸ arrived.queue, ?_⟩
    rw [received]
    split
    · intro all
      exact covers_nil 0 (all 0 (by omega))
    · rename_i waits
      exact fun all => waits (arrived.passes.mpr all)
  · have chains : chainsOf key (arrive key s a).nIp = chainsOf key s.nIp := ipInput_other same
    have received : (arrive key s a).received = s.received := if_pos same
    refine ⟨chains ▸ held.one, ?_, received ▸ held.missing⟩
    rw [received, queued, chains]
    exact held.queue

end Runs

/-! ### A byte that two fragments hold -/

instance (piece : Piece Byte) (position : Nat) : Decidable (piece.Holds position) :=
  inferInstanceAs (Decidable (_ ∧ _))

instance (pieces : List (Piece Byte)) (position : Nat) : Decidable (Covers pieces position) :=
  inferInstanceAs (Decidable (∃ piece ∈ pieces, piece.Holds position))

instance (stream : List Byte) (pieces : List (Piece Byte)) : Decidable (CoversAll stream pieces) :=
  inferInstanceAs (Decidable (∀ position < stream.length, Covers pieces position))

/-- The fragment of the datagram from `start` on, in one mbuf behind the leader. -/
def slice (stream : List Byte) (start count : Nat) : Packet where
  ip := {
    ipHl := 5
    ipMff := false
    ipLen := BitVec.ofNat 16 (20 + count)
    ipId := 7
    ipOff := BitVec.ofNat 16 (start / 8) ||| (if start + count < stream.length then ipMf else 0)
    ipP := 6
    ipEnd := 0
    ipSrc := 1
    ipDst := 2 }
  mp := [{ mAct := 0, mOff := 22, mLen := 20 + count
           mDat := fun address => stream.getD (start + (address - 42)) 0 }]
  sum := true
  mGet := true

theorem slice_fragment {stream : List Byte} {start count : Nat} (small : count ≤ 86)
    (part : (slice stream start count).piece.data ≠ [] ∧
      (slice stream start count).piece.data <+: stream.drop (slice stream start count).piece.start)
    (last : (slice stream start count).ip.ipOff &&& ipMf = 0 ↔
      (slice stream start count).piece.stop = stream.length) :
    FragmentOf stream (slice stream start count) := by
  refine ⟨⟨_, [], rfl, ?_⟩, Nat.le_refl _, ?_, rfl, ?_, part, last⟩
  · show 20 ≤ 20 + count
    omega
  · intro m inside
    rw [List.mem_singleton.mp inside]
    have size : msize = 128 := rfl
    refine ⟨?_, ?_⟩
    · show 10 ≤ 22
      omega
    · show 22 + (20 + count) ≤ msize
      omega
  · rw [slice, chainLen_cons, chainLen_nil, BitVec.toNat_ofNat]
    show (20 + count) % 2 ^ 16 ≤ 20 + count + 0
    omega

/-- A datagram of seventeen bytes. -/
def seventeen : List Byte := (List.range 17).map UInt8.ofNat

end NetworkUnix.Bbnnet.IpInput
