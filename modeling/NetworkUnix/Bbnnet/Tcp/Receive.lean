/-
This file proves what the receive side does with one byte stream. Every queued
segment is a piece of the stream, and as long as no new segment that reaches the
end of a queued one stops exactly at the first byte of a later one, the
sequencing queue is the merge of what has arrived: `rcv_text` keeps it ordered
and disjoint, `firstempty` finds the end of its first run, and `present_data`
hands the run to the user once.
-/

import NetworkUnix.Lib.Pieces
import NetworkUnix.Lib.Run
import NetworkUnix.Bbnnet.Tcp.User
import Mathlib.Data.List.GetD

namespace NetworkUnix.Bbnnet

open Pieces Serial

/-! ### Segments as pieces of a stream -/

/-- The piece a segment carries of the stream whose first byte has the sequence number
`base`. -/
def piece (base : Seq) (t : Th) : Piece Byte where
  start := (t.tSeq - base).toNat
  data := chainData t.mbufs

/-- The pieces of a sequencing queue. -/
def pieces (base : Seq) (queue : List Th) : List (Piece Byte) := queue.map (piece base)

@[simp] theorem pieces_append (base : Seq) (front back : List Th) :
    pieces base (front ++ back) = pieces base front ++ pieces base back := List.map_append

/-- A segment carries a non-empty contiguous piece of the stream. -/
structure Carries (base : Seq) (stream : List Byte) (t : Th) : Prop where
  length : t.tLen = chainLen t.mbufs
  part : (piece base t).Of stream

section Carrying

variable {base : Seq} {stream : List Byte} {t q : Th}

theorem tSeq_point (base : Seq) (t : Th) : t.tSeq = point base ((piece base t).start : Int) :=
  (point_toNat base t.tSeq).symm

theorem Carries.stop (carries : Carries base stream t) :
    (piece base t).stop = (piece base t).start + t.tLen := by
  rw [Piece.stop, piece, length_chainData, carries.length]

theorem Carries.positive (carries : Carries base stream t) : 0 < t.tLen := by
  have := Piece.start_lt_stop carries.part
  rw [carries.stop] at this
  omega

theorem Carries.tEnd (carries : Carries base stream t) :
    tEnd t = point base ((piece base t).stop - 1 : Int) := by
  have positive := carries.positive
  have before : point base ((piece base t).stop - 1 : Int) + 1#32 =
      point base ((piece base t).stop : Int) := by
    rw [show (1#32) = BitVec.ofNat 32 1 from rfl, point_add]
    congr 1
    push_cast
    ring
  have after : t.tSeq + BitVec.ofNat 32 t.tLen = point base ((piece base t).stop : Int) := by
    rw [tSeq_point base t, point_add, carries.stop]
    push_cast
    rfl
  rw [Bbnnet.tEnd, after, ← before]
  exact BitVec.add_sub_cancel _ _

theorem Carries.bounds (carries : Carries base stream t) : (piece base t).start < (piece base t).stop ∧
    (piece base t).stop ≤ stream.length :=
  ⟨Piece.start_lt_stop carries.part, Piece.stop_le_length carries.part⟩

variable (short : stream.length < 2 ^ 31) (carries : Carries base stream t)
  (other : Carries base stream q)
include short carries other

theorem seqGt_tEnd : seqGt t.tSeq (tEnd q) ↔ (piece base q).stop ≤ (piece base t).start := by
  have := carries.bounds
  have := other.bounds
  rw [tSeq_point base t, other.tEnd, seqGt_point base (by omega) (by omega)]
  omega

theorem seqLt_tSeq : seqLt (tEnd t) q.tSeq ↔ (piece base t).stop ≤ (piece base q).start := by
  have := carries.bounds
  have := other.bounds
  rw [tSeq_point base q, carries.tEnd, seqLt_point base (by omega) (by omega)]
  omega

theorem seqLt_tEnd : seqLt (tEnd t) (tEnd q) ↔ (piece base t).stop < (piece base q).stop := by
  have := carries.bounds
  have := other.bounds
  rw [carries.tEnd, other.tEnd, seqLt_point base (by omega) (by omega)]
  omega

theorem seqLeq_tEnd : seqLeq (tEnd t) (tEnd q) ↔ (piece base t).stop ≤ (piece base q).stop := by
  have := carries.bounds
  have := other.bounds
  rw [carries.tEnd, other.tEnd, seqLeq_point base (by omega) (by omega)]
  omega

theorem seqLeq_tSeq : seqLeq t.tSeq q.tSeq ↔ (piece base t).start ≤ (piece base q).start := by
  have := carries.bounds
  have := other.bounds
  rw [tSeq_point base t, tSeq_point base q, seqLeq_point base (by omega) (by omega)]
  omega

theorem seqLt_tSeq_tEnd :
    seqLt q.tSeq (tEnd t) ↔ (piece base q).start + 1 < (piece base t).stop := by
  have := carries.bounds
  have := other.bounds
  rw [tSeq_point base q, carries.tEnd, seqLt_point base (by omega) (by omega)]
  omega

theorem tSeq_eq_tEnd :
    q.tSeq = tEnd t ↔ (piece base q).start + 1 = (piece base t).stop := by
  have := carries.bounds
  have := other.bounds
  rw [tSeq_point base q, carries.tEnd, point_eq_iff base (by omega) (by omega)]
  omega

theorem diff_overlap : diff (tEnd t + 1) q.tSeq =
    ((piece base t).stop : Int) - ((piece base q).start : Int) := by
  have := carries.bounds
  have := other.bounds
  have next : tEnd t + 1 = point base ((piece base t).stop : Int) := by
    rw [carries.tEnd, show (1 : Seq) = BitVec.ofNat 32 1 from rfl, point_add]
    congr 1
    push_cast
    ring
  rw [next, tSeq_point base q, diff_point base (by omega) (by omega)]

end Carrying

section Cutting

variable {base : Seq} {stream : List Byte} {t : Th} {count : Nat}

theorem piece_cutFront (small : (piece base t).start + count < 2 ^ 32) :
    piece base (t.cutFront count) = (piece base t).after ((piece base t).start + count) := by
  have start : ((t.cutFront count).tSeq - base).toNat = (piece base t).start + count := by
    rw [Th.cutFront, tSeq_point base t, point_add, point, BitVec.add_comm base,
      BitVec.add_sub_cancel, ← Nat.cast_add, BitVec.ofInt_natCast, BitVec.toNat_ofNat, Nat.mod_eq_of_lt small]
  simp only [Piece.after, Nat.add_sub_cancel_left]
  rw [piece, start, Th.cutFront, chainData_mAdj_front]
  rfl

theorem piece_cutBack (positive : 0 < count) :
    piece base (t.cutBack count) =
      (piece base t).before ((piece base t).start + (chainLen t.mbufs - count)) := by
  simp only [Piece.before, Nat.add_sub_cancel_left]
  rw [piece, Th.cutBack, chainData_mAdj_back _ positive]
  rfl

variable (short : stream.length < 2 ^ 31) (carries : Carries base stream t)
include short carries

theorem Carries.cutFront (less : count < t.tLen) : Carries base stream (t.cutFront count) := by
  have stop := carries.stop
  have bound := Piece.stop_le_length carries.part
  constructor
  · rw [Th.cutFront, ← length_chainData, chainData_mAdj_front, List.length_drop,
      length_chainData, carries.length]
  · rw [piece_cutFront (by omega)]
    exact Piece.after_of carries.part (by omega)

omit short in
theorem Carries.cutBack (positive : 0 < count) (less : count < t.tLen) :
    Carries base stream (t.cutBack count) := by
  have length := carries.length
  constructor
  · change t.tLen - count = chainLen (mAdj t.mbufs (-(count : Int)))
    rw [← length_chainData, chainData_mAdj_back _ positive, List.length_take, length_chainData]
    omega
  · rw [piece_cutBack positive]
    exact Piece.before_of carries.part (by omega)

end Cutting

/-! ### Merging a segment -/

section Merging

variable {base : Seq} {stream : List Byte} (short : stream.length < 2 ^ 31)
include short

theorem cut_before {t q : Th} (carries : Carries base stream t) (other : Carries base stream q)
    (meets : (piece base q).start < (piece base t).stop)
    (less : diff (tEnd t + 1) q.tSeq < t.tLen) :
    Carries base stream (t.cutBack (diff (tEnd t + 1) q.tSeq).toNat) ∧
      piece base (t.cutBack (diff (tEnd t + 1) q.tSeq).toNat) =
        (piece base t).before (piece base q).start := by
  have stop := carries.stop
  have length := carries.length
  rw [diff_overlap short carries other] at less ⊢
  refine ⟨carries.cutBack (by omega) (by omega), ?_⟩
  rw [piece_cutBack (by omega)]
  congr 1
  omega

theorem cut_before_none {t q : Th} (carries : Carries base stream t)
    (other : Carries base stream q) (less : ¬ diff (tEnd t + 1) q.tSeq < t.tLen) :
    ((piece base t).before (piece base q).start).data = [] := by
  have stop := carries.stop
  rw [diff_overlap short carries other] at less
  exact (before_data_eq_nil_iff carries.part _).mpr (by omega)

theorem rcvSuccessors_pieces {queue : List Th} {t : Th}
    (all : ∀ q ∈ queue, Carries base stream q) (carries : Carries base stream t)
    (clear : ∀ q ∈ queue, q.tSeq ≠ tEnd t) :
    (∀ q ∈ (rcvEnqueue (rcvSuccessors (tEnd t) queue t)).1, Carries base stream q) ∧
      pieces base (rcvEnqueue (rcvSuccessors (tEnd t) queue t)).1 =
        absorb (piece base t) (pieces base queue) := by
  have some := carries.positive.ne'
  induction queue with
  | nil =>
    rw [rcvSuccessors, rcvEnqueue, if_pos some]
    exact ⟨by simpa using carries, (put_of_ne_nil carries.part.1 _).symm⟩
  | cons q rest inductionHypothesis =>
    obtain ⟨qCarries, restAll⟩ := List.forall_mem_cons.mp all
    have apart : ¬ (piece base q).start + 1 = (piece base t).stop :=
      fun touch => clear q List.mem_cons_self ((tSeq_eq_tEnd short carries qCarries).mpr touch)
    simp only [pieces, List.map_cons, absorb, if_neg carries.part.1, rcvSuccessors,
      seqLt_tSeq_tEnd short carries qCarries, seqLeq_tEnd short qCarries carries]
    by_cases reached : (piece base q).start + 1 < (piece base t).stop
    · have overlap : ¬ (piece base t).stop ≤ (piece base q).start := by omega
      rw [if_pos ⟨some, reached⟩, if_neg overlap]
      by_cases covered : (piece base q).stop ≤ (piece base t).stop
      · rw [if_pos covered, if_pos covered]
        exact inductionHypothesis restAll
          (List.forall_mem_cons.mp clear).2
      · rw [if_neg covered, if_neg covered]
        by_cases less : diff (tEnd t + 1) q.tSeq < t.tLen
        · obtain ⟨cutCarries, cutPiece⟩ := cut_before short carries qCarries (by omega) less
          rw [if_pos less, rcvEnqueue, if_pos cutCarries.positive.ne',
            put_of_ne_nil (cutPiece ▸ cutCarries.part.1)]
          refine ⟨?_, ?_⟩
          · exact List.forall_mem_cons.mpr ⟨cutCarries, all⟩
          · rw [List.map_cons, cutPiece, List.map_cons]
        · rw [if_neg less, rcvEnqueue, if_neg (by simp),
            put_of_nil (cut_before_none short carries qCarries less)]
          exact ⟨all, rfl⟩
    · have apartNow : (piece base t).stop ≤ (piece base q).start := by omega
      rw [if_neg (fun both => reached both.2), if_pos apartNow, rcvEnqueue, if_pos some]
      exact ⟨List.forall_mem_cons.mpr ⟨carries, all⟩, rfl⟩

omit short in
theorem rcvSuccessors_zero (last : Seq) (queue : List Th) {t : Th} (none : t.tLen = 0) :
    (rcvEnqueue (rcvSuccessors last queue t)).1 = queue := by
  cases queue with
  | nil => simp [rcvSuccessors, rcvEnqueue, none]
  | cons q rest => simp [rcvSuccessors, rcvEnqueue, none]

omit short in
theorem Carries.tEnd_cutFront {t : Th} {count : Nat} (carries : Carries base stream t)
    (short : stream.length < 2 ^ 31) (less : count < t.tLen) :
    Bbnnet.tEnd (t.cutFront count) = Bbnnet.tEnd t := by
  have stop := carries.stop
  have bound := Piece.stop_le_length carries.part
  rw [(carries.cutFront short less).tEnd, carries.tEnd, piece_cutFront (by omega),
    Piece.after_stop _ _ (by omega)]

/-- The new segment reaches the end of a queued segment, and its last byte has the sequence
number of the first byte of a later one. -/
def touches (t : Th) : List Th → Prop
  | [] => False
  | q :: rest =>
    (seqLeq t.tSeq (tEnd q) ∧ seqLeq (tEnd q) (tEnd t) ∧ ∃ later ∈ rest, later.tSeq = tEnd t) ∨
      touches t rest

instance touches.decide (t : Th) : (queue : List Th) → Decidable (touches t queue)
  | [] => inferInstanceAs (Decidable False)
  | _ :: rest =>
    have := touches.decide t rest
    inferInstanceAs (Decidable (_ ∨ _))

/-- `rcv_text` merges a segment into the sequencing queue as pieces are merged, unless it
touches a later segment. -/
theorem rcvMerge_pieces {rcvNxt : Seq} {queue : List Th} {t : Th}
    (all : ∀ q ∈ queue, Carries base stream q) (carries : Carries base stream t)
    (fresh : seqGeq (tEnd t) rcvNxt) (clear : ¬ touches t queue) :
    (∀ q ∈ (rcvMerge rcvNxt (tEnd t) queue t).1, Carries base stream q) ∧
      pieces base (rcvMerge rcvNxt (tEnd t) queue t).1 =
        merge (pieces base queue) (piece base t) := by
  induction queue with
  | nil =>
    rw [rcvMerge, if_pos fresh]
    exact ⟨by simpa using carries, rfl⟩
  | cons q rest inductionHypothesis =>
    obtain ⟨qCarries, restAll⟩ := List.forall_mem_cons.mp all
    simp only [touches, not_or] at clear
    simp only [pieces, List.map_cons, merge, rcvMerge, seqGt_tEnd short carries qCarries,
      seqLt_tSeq short carries qCarries, seqLt_tEnd short carries qCarries,
      seqLeq_tSeq short carries qCarries]
    by_cases past : (piece base q).stop ≤ (piece base t).start
    · rw [if_pos past, if_pos past]
      obtain ⟨restCarries, restPieces⟩ := inductionHypothesis restAll clear.2
      exact ⟨List.forall_mem_cons.mpr ⟨qCarries, restCarries⟩, congrArg _ restPieces⟩
    rw [if_neg past, if_neg past]
    by_cases apart : (piece base t).stop ≤ (piece base q).start
    · rw [if_pos apart, if_pos apart]
      exact ⟨List.forall_mem_cons.mpr ⟨carries, all⟩, rfl⟩
    rw [if_neg apart, if_neg apart]
    by_cases within : (piece base t).stop < (piece base q).stop
    · rw [if_pos within, if_pos within]
      by_cases less : diff (tEnd t + 1) q.tSeq < t.tLen
      · obtain ⟨cutCarries, cutPiece⟩ := cut_before short carries qCarries (by omega) less
        rw [if_pos less, put_of_ne_nil (cutPiece ▸ cutCarries.part.1)]
        refine ⟨?_, by rw [List.map_cons, cutPiece, List.map_cons]⟩
        exact List.forall_mem_cons.mpr ⟨cutCarries, all⟩
      · rw [if_neg less, put_of_nil (cut_before_none short carries qCarries less)]
        exact ⟨all, rfl⟩
    rw [if_neg within, if_neg within]
    have reached : seqLeq t.tSeq (tEnd q) := by
      have := mt (seqGt_tEnd short carries qCarries).mp past
      unfold seqGt at this
      unfold seqLeq
      omega
    have covered : seqLeq (tEnd q) (tEnd t) := by
      rw [seqLeq_tEnd short qCarries carries]
      omega
    have noneTouch : ∀ later ∈ rest, later.tSeq ≠ tEnd t :=
      fun later inside equal => clear.1 ⟨reached, covered, later, inside, equal⟩
    by_cases before : (piece base t).start ≤ (piece base q).start
    · rw [if_pos before, if_pos before]
      exact rcvSuccessors_pieces short restAll carries noneTouch
    rw [if_neg before, if_neg before]
    have stop := carries.stop
    have overlap := diff_overlap short qCarries carries
    have reach : (piece base t).start + (diff (tEnd q + 1) t.tSeq).toNat = (piece base q).stop := by
      rw [overlap]
      omega
    by_cases less : diff (tEnd q + 1) t.tSeq < t.tLen
    · have lessNat : (diff (tEnd q + 1) t.tSeq).toNat < t.tLen := by
        rw [overlap] at less ⊢
        omega
      have bound := Piece.stop_le_length carries.part
      have cutCarries := carries.cutFront short lessNat
      have sameEnd := carries.tEnd_cutFront short lessNat
      have cutPiece : piece base (t.cutFront (diff (tEnd q + 1) t.tSeq).toNat) =
          (piece base t).after (piece base q).stop := by
        rw [piece_cutFront (by omega), reach]
      obtain ⟨restCarries, restPieces⟩ := rcvSuccessors_pieces short restAll cutCarries
        fun later inside => sameEnd ▸ noneTouch later inside
      rw [sameEnd] at restCarries restPieces
      rw [if_pos less]
      refine ⟨?_, ?_⟩
      · exact List.forall_mem_cons.mpr ⟨qCarries, restCarries⟩
      · rw [← cutPiece]
        exact congrArg _ restPieces
    · have gone : ((piece base t).after (piece base q).stop).data = [] := by
        rw [overlap] at less
        exact (after_data_eq_nil_iff _ _).mpr (Or.inl (by omega))
      rw [if_neg less, rcvSuccessors_zero _ _ rfl, absorb_of_nil gone]
      exact ⟨all, rfl⟩

end Merging

/-! ### The first empty spot -/

/-- The sequencing queue when the first `taken` bytes of the stream have been presented and the
first `ready` have arrived without a gap: a run from `taken` to `ready`, then pieces past it. -/
structure Sequenced (base : Seq) (stream : List Byte) (tp : Tcb) (taken ready : Nat) : Prop where
  nxt : tp.rcvNxt = point base (ready : Int)
  inside : ready ≤ stream.length
  carries : ∀ q ∈ tp.tRcv, Carries base stream q
  run : ∃ front back, tp.tRcv = front ++ back ∧ Tiles taken ready (pieces base front) ∧
    Ordered (pieces base back) ∧ ∀ q ∈ back, ready < (piece base q).start

section Sequencing

variable {base : Seq} {stream : List Byte}

theorem allOf_pieces {queue : List Th} (all : ∀ q ∈ queue, Carries base stream q) :
    AllOf stream (pieces base queue) := by
  intro member inside
  obtain ⟨q, qInside, rfl⟩ := List.mem_map.mp inside
  exact (all q qInside).part

theorem Carries.next {t : Th} (carries : Carries base stream t) :
    Bbnnet.tEnd t + 1 = point base ((piece base t).stop : Int) := by
  rw [carries.tEnd, show (1 : Seq) = BitVec.ofNat 32 1 from rfl, point_add]
  congr 1
  push_cast
  ring

variable (short : stream.length < 2 ^ 31)
include short

theorem tEndRun_pieces {t : Th} {rest : List Th} (carries : Carries base stream t)
    (all : ∀ q ∈ rest, Carries base stream q) :
    tEndRun t rest = point base (runEnd (piece base t).stop (pieces base rest) : Int) := by
  induction rest generalizing t with
  | nil => exact carries.next
  | cons q rest inductionHypothesis =>
    have qCarries := all q List.mem_cons_self
    have qBound := Piece.stop_le_length qCarries.part
    have qFull := Piece.start_lt_stop qCarries.part
    have tBound := Piece.stop_le_length carries.part
    have adjacent : tEnd t + 1 = q.tSeq ↔ (piece base q).start = (piece base t).stop := by
      rw [carries.next, tSeq_point base q, point_eq_iff base (by omega) (by omega)]
      omega
    simp only [tEndRun, pieces, List.map_cons, runEnd, adjacent]
    split
    · exact inductionHypothesis qCarries (List.forall_mem_cons.mp all).2
    · exact carries.next

theorem firstempty_pieces {tp : Tcb} {taken ready : Nat} {front back : List Th}
    (nxt : tp.rcvNxt = point base (ready : Int)) (inside : ready ≤ stream.length)
    (carries : ∀ q ∈ tp.tRcv, Carries base stream q) (shape : tp.tRcv = front ++ back)
    (tiles : Tiles taken ready (pieces base front))
    (bound : ∀ q ∈ back, ready ≤ (piece base q).start) :
    firstempty tp = point base (runEnd ready (pieces base back) : Int) := by
  have starts {q : Th} (held : q ∈ tp.tRcv) :
      seqLt tp.rcvNxt q.tSeq ↔ ready < (piece base q).start := by
    have := Piece.stop_le_length (carries q held).part
    have := Piece.start_lt_stop (carries q held).part
    rw [nxt, tSeq_point base q, seqLt_point base (by omega) (by omega)]
    omega
  unfold firstempty
  cases front with
  | nil =>
    cases back with
    | nil =>
      rw [shape]
      exact nxt
    | cons p rest =>
      rw [List.nil_append] at shape
      have held : p ∈ tp.tRcv := by rw [shape]; exact List.mem_cons_self
      have restAll : ∀ q ∈ rest, Carries base stream q := fun q tail =>
        carries q (by rw [shape]; exact List.mem_cons_of_mem _ tail)
      have low := bound p List.mem_cons_self
      simp only [shape, pieces, List.map_cons, runEnd, starts held]
      by_cases gap : ready < (piece base p).start
      · rw [if_pos gap, if_neg (by omega)]
        exact nxt
      · rw [if_neg gap, if_pos (by omega)]
        exact tEndRun_pieces short (carries p held) restAll
  | cons p rest =>
    have held : p ∈ tp.tRcv := by rw [shape]; exact List.mem_cons_self
    have restAll : ∀ q ∈ rest ++ back, Carries base stream q := fun q tail =>
      carries q (by rw [shape]; exact List.mem_cons_of_mem _ tail)
    have stop := tiles.2.le
    have full := Piece.start_lt_stop (carries p held).part
    have start : (piece base p).start ≤ ready := by omega
    simp only [shape, List.cons_append, starts held, not_lt.mpr start, if_false]
    rw [tEndRun_pieces short (carries p held) restAll, pieces, List.map_append]
    exact congrArg (fun position : Nat => point base (position : Int)) (runEnd_append tiles.2 _)

theorem Sequenced.firstempty_eq {tp : Tcb} {taken ready : Nat}
    (sequenced : Sequenced base stream tp taken ready) :
    firstempty tp = point base (ready : Int) := by
  obtain ⟨front, back, shape, tiles, ordered, past⟩ := sequenced.run
  rw [firstempty_pieces short sequenced.nxt sequenced.inside sequenced.carries shape tiles
    fun q inside => le_of_lt (past q inside)]
  congr 2
  cases back with
  | nil => rfl
  | cons q rest =>
    have := past q List.mem_cons_self
    rw [pieces, List.map_cons, runEnd, if_neg (by omega)]

theorem rcvTrim_carries {ready : Nat} {t cut : Th} (inside : ready ≤ stream.length)
    (carries : Carries base stream t)
    (trimmed : rcvTrim (point base (ready : Int)) t = some cut) :
    Carries base stream cut ∧ ready ≤ (piece base cut).start := by
  have bound := Piece.stop_le_length carries.part
  have full := Piece.start_lt_stop carries.part
  have stop := carries.stop
  have gap : diff (point base (ready : Int)) t.tSeq = (ready : Int) - (piece base t).start := by
    rw [tSeq_point base t, diff_point base (by omega) (by omega)]
  simp only [rcvTrim, gap] at trimmed
  split at trimmed
  · rename_i old
    split at trimmed
    · rename_i less
      rw [Option.some.injEq] at trimmed
      rw [← trimmed]
      refine ⟨carries.cutFront short (by omega), ?_⟩
      rw [piece_cutFront (by omega)]
      simp only [Piece.after]
      omega
    · cases trimmed
  · rw [Option.some.injEq] at trimmed
    subst trimmed
    exact ⟨carries, by omega⟩

omit short in
theorem takeBottom_suffix (j : Nat) (queue : List Th) (i : Nat) :
    (takeBottom j queue i).1 <:+ queue := by
  induction queue generalizing i with
  | nil => exact List.suffix_rfl
  | cons p rest inductionHypothesis =>
    rw [takeBottom]
    split
    · exact (inductionHypothesis _).trans (List.suffix_cons _ _)
    · exact List.suffix_rfl

omit short in
theorem giveUp_keeps (rcvNxt : Seq) (queue : List Th) (t : Th) (i j : Nat) :
    (giveUp rcvNxt queue t i j).1 = queue ∨ ∃ q rest, queue = q :: rest ∧ seqLt rcvNxt q.tSeq ∧
      (giveUp rcvNxt queue t i j).1 <+: queue := by
  unfold giveUp
  split
  · exact Or.inl rfl
  · rename_i q rest
    split
    · rename_i ahead
      refine Or.inr ⟨q, rest, rfl, ahead.1, ?_⟩
      have suffix := takeBottom_suffix j (q :: rest).reverse i
      rw [← List.reverse_prefix, List.reverse_reverse] at suffix
      exact suffix
    · exact Or.inl rfl

theorem Sequenced.giveUp {tp : Tcb} {taken ready : Nat}
    (sequenced : Sequenced base stream tp taken ready) (t : Th) (i j : Nat) :
    Sequenced base stream { tp with tRcv := (giveUp tp.rcvNxt tp.tRcv t i j).1 } taken ready := by
  rcases giveUp_keeps tp.rcvNxt tp.tRcv t i j with same | ⟨q, rest, shape, ahead, kept⟩
  · rw [same]
    exact sequenced
  obtain ⟨front, back, split, tiles, ordered, past⟩ := sequenced.run
  have qCarries := sequenced.carries q (by rw [shape]; exact List.mem_cons_self)
  have qBound := Piece.stop_le_length qCarries.part
  have qFull := Piece.start_lt_stop qCarries.part
  have qPast : ready < (piece base q).start := by
    have inside := sequenced.inside
    rw [sequenced.nxt, tSeq_point base q, seqLt_point base (by omega) (by omega)] at ahead
    omega
  have noFront : front = [] := by
    cases front with
    | nil => rfl
    | cons p tail =>
      have same : q = p := by
        rw [shape, List.cons_append] at split
        exact (List.cons.inj split).1
      subst same
      have := tiles.2.le
      omega
  subst noFront
  rw [List.nil_append] at split
  refine ⟨sequenced.nxt, sequenced.inside, fun p inside => sequenced.carries p (kept.subset inside),
    [], _, rfl, tiles, ?_, fun p inside => past p (split ▸ kept.subset inside)⟩
  have sublist : (pieces base (Bbnnet.giveUp tp.rcvNxt tp.tRcv t i j).1).Sublist (pieces base back) :=
    split ▸ kept.sublist.map (piece base)
  exact ordered.sublist sublist

omit short in
theorem dropText_carries {t : Th} (carries : Carries base stream t) (keep : Nat)
    (some : ¬ seqLt (tEnd (dropText t keep)) (dropText t keep).tSeq) :
    Carries base stream (dropText t keep) ∧
      (piece base (dropText t keep)).start = (piece base t).start := by
  have whole : chainLen t.mbufs = chainLen (t.mbufs.take keep) + chainLen (t.mbufs.drop keep) := by
    rw [← chainLen_append, List.take_append_drop]
  have length : (dropText t keep).tLen = chainLen (t.mbufs.take keep) := by
    change t.tLen - chainLen (t.mbufs.drop keep) = _
    rw [carries.length]
    omega
  have data : chainData (dropText t keep).mbufs = chainData (t.mbufs.take keep) := by
    rw [dropText, chainData_append, chainData_emptied, List.append_nil]
  have positive : (dropText t keep).tLen ≠ 0 := by
    intro none
    refine some ?_
    rw [tEnd, none, seqLt, diff]
    have before : (dropText t keep).tSeq + BitVec.ofNat 32 0 - 1 - (dropText t keep).tSeq = -1 := by
      rw [show BitVec.ofNat 32 0 = 0 from rfl]
      ring
    rw [before]
    decide
  refine ⟨⟨?_, ?_, ?_⟩, rfl⟩
  · rw [length, ← length_chainData, ← data, length_chainData]
  · intro empty
    have zero := congrArg List.length empty
    rw [piece, data, length_chainData, ← length] at zero
    exact positive zero
  · have initial : chainData (t.mbufs.take keep) <+: chainData t.mbufs := by
      conv_rhs => rw [← List.take_append_drop keep t.mbufs, chainData_append]
      exact List.prefix_append _ _
    change chainData (dropText t keep).mbufs <+: _
    rw [data]
    exact initial.trans carries.part.2

omit short in
theorem recycleUnack_shape (env : Env) (held : List Th) (i : Int) (c : Conn) :
    ∃ left work clock, recycleUnack env held i c =
      { c with tcb := { c.tcb with tRcvUnack := left }, work := work, clock := clock } := by
  induction held generalizing i c with
  | nil => exact ⟨[], _, _, rfl⟩
  | cons t rest inductionHypothesis =>
    rw [recycleUnack]
    split
    · obtain ⟨left, work, clock, kept⟩ :=
        inductionHypothesis (i - t.mbufs.length) (wAlloc env c (.recv (skipHeader t)))
      refine ⟨left, work, clock, kept.trans ?_⟩
      simp only [wAlloc]
      split <;> rfl
    · exact ⟨t :: rest, _, _, rfl⟩

omit short in
theorem rcvRecycle_shape (env : Env) (c : Conn) : ∃ left work clock, rcvRecycle env c =
    { c with tcb := { c.tcb with tRcvUnack := left }, work := work, clock := clock } := by
  simp only [rcvRecycle]
  split
  · exact ⟨_, _, _, rfl⟩
  split
  · split
    · exact recycleUnack_shape _ _ _ _
    · exact ⟨_, _, _, rfl⟩
  · exact ⟨_, _, _, rfl⟩

omit short in
theorem rcvRecycle_keeps (env : Env) (c : Conn) :
    (rcvRecycle env c).tcb.tRcv = c.tcb.tRcv ∧ (rcvRecycle env c).tcb.rcvNxt = c.tcb.rcvNxt := by
  obtain ⟨left, work, clock, same⟩ := rcvRecycle_shape env c
  rw [same]
  exact ⟨rfl, rfl⟩

omit short in
theorem Sequenced.of_same {tp other : Tcb} {taken ready : Nat}
    (sequenced : Sequenced base stream tp taken ready) (queue : other.tRcv = tp.tRcv)
    (nxt : other.rcvNxt = tp.rcvNxt) : Sequenced base stream other taken ready where
  nxt := nxt ▸ sequenced.nxt
  inside := sequenced.inside
  carries := by
    rw [queue]
    exact sequenced.carries
  run := by
    rw [queue]
    exact sequenced.run

theorem Sequenced.merge {tp : Tcb} {taken ready : Nat} {t : Th}
    (sequenced : Sequenced base stream tp taken ready) (carries : Carries base stream t)
    (late : ready ≤ (piece base t).start) (clear : ¬ touches t tp.tRcv) :
    let merged := { tp with tRcv := (rcvMerge tp.rcvNxt (tEnd t) tp.tRcv t).1 }
    ∃ next, ready ≤ next ∧
      Sequenced base stream { merged with rcvNxt := firstempty merged } taken next := by
  intro merged
  obtain ⟨front, back, shape, tiles, ordered, past⟩ := sequenced.run
  have bound := Piece.stop_le_length carries.part
  have full := Piece.start_lt_stop carries.part
  have fresh : seqGeq (tEnd t) tp.rcvNxt := by
    rw [sequenced.nxt, carries.tEnd, seqGeq_point base (by omega) (by omega)]
    omega
  obtain ⟨allCarries, allPieces⟩ := rcvMerge_pieces short sequenced.carries carries fresh clear
  have frontStop : ∀ member ∈ pieces base front, member.stop ≤ (piece base t).start :=
    fun member inside => le_trans (tiles.bounds member inside).2 late
  have backCarries : ∀ q ∈ back, Carries base stream q :=
    fun q inside => sequenced.carries q (by rw [shape]; exact List.mem_append_right _ inside)
  have backAll := allOf_pieces backCarries
  have split : pieces base merged.tRcv =
      pieces base front ++ Pieces.merge (pieces base back) (piece base t) := by
    rw [show pieces base merged.tRcv = _ from allPieces, shape, pieces_append,
      merge_append _ _ frontStop]
  obtain ⟨newFront, newBack, newShape, frontPieces, backPieces⟩ := List.map_eq_append_iff.mp split
  have newOrdered := @merge_ordered _ (piece base t) _ ordered
  have newAll := merge_allOf backAll carries.part
  have backStart : ∀ member ∈ pieces base back, ready ≤ member.start := by
    intro member inside
    obtain ⟨q, qInside, rfl⟩ := List.mem_map.mp inside
    exact le_of_lt (past q qInside)
  have newStart := merge_bound backStart late
  have empty : firstempty merged =
      point base (runEnd ready (Pieces.merge (pieces base back) (piece base t)) : Int) := by
    rw [@firstempty_pieces _ _ short merged _ _ _ _ sequenced.nxt sequenced.inside allCarries newShape
      (by rw [pieces, frontPieces]; exact tiles)
      (fun q inside => newStart _ (backPieces ▸ List.mem_map_of_mem inside)), pieces, backPieces]
  obtain ⟨run, rest, restShape, restTiles, restPast⟩ := runEnd_split newAll newOrdered newStart
  have nextInside : runEnd ready (Pieces.merge (pieces base back) (piece base t)) ≤
      stream.length := by
    by_cases none : run = []
    · rw [none] at restTiles
      rw [← show ready = _ from restTiles]
      exact sequenced.inside
    · obtain ⟨last, member, stop⟩ := restTiles.stop_of_mem none
      rw [← stop]
      exact Piece.stop_le_length (newAll last (restShape ▸ List.mem_append_left _ member))
  rw [restShape, List.map_eq_append_iff] at backPieces
  obtain ⟨runQueue, restQueue, queueShape, runPieces, restPieces⟩ := backPieces
  refine ⟨_, runEnd_le _, empty, nextInside, allCarries, newFront ++ runQueue, restQueue, ?_, ?_, ?_, ?_⟩
  · change merged.tRcv = _
    rw [newShape, queueShape, List.append_assoc]
  · rw [pieces_append, show pieces base newFront = _ from frontPieces,
      show pieces base runQueue = _ from runPieces]
    exact tiles.append restTiles
  · rw [show pieces base restQueue = _ from restPieces]
    rw [restShape] at newOrdered
    exact (List.pairwise_append.mp newOrdered).2.1
  · intro q inside
    exact restPast _ (restPieces ▸ List.mem_map_of_mem inside)

theorem Sequenced.rcvSequence {c : Conn} {taken ready : Nat} {t : Th} (env : Env)
    (sequenced : Sequenced base stream c.tcb taken ready) (carries : Carries base stream t)
    (late : ready ≤ (piece base t).start) (clear : ¬ touches t c.tcb.tRcv) :
    ∃ next, ready ≤ next ∧
      Sequenced base stream (Bbnnet.rcvSequence env c t (tEnd t)).1.tcb taken next := by
  obtain ⟨next, grows, merged⟩ := sequenced.merge short carries late clear
  refine ⟨next, grows, merged.of_same (rcvRecycle_keeps _ _).1 ?_⟩
  rw [Bbnnet.rcvSequence]
  exact (rcvRecycle_keeps _ _).2

end Sequencing

/-! ### One segment, one presentation -/

/-- The segment that is left of `t` when it comes to the merge touches a later segment of the
queue that is left then. -/
def reachesLater (env : Env) (c : Conn) (t : Th) : Prop :=
  match rcvTrim c.tcb.rcvNxt t with
  | none => False
  | some cut =>
    if c.ucb.ucRcv - c.ucb.ucRsize < textBufs cut ∧ env.bufsLow c.clock = true then
      let short := rcvShort c.tcb cut (c.ucb.ucRcv - c.ucb.ucRsize)
      touches short.2.1 short.1
    else touches cut c.tcb.tRcv

instance (env : Env) (c : Conn) (t : Th) : Decidable (reachesLater env c t) := by
  unfold reachesLater
  split
  · exact inferInstanceAs (Decidable False)
  · exact inferInstanceAs (Decidable (ite _ _ _))

section Steps

variable {base : Seq} {stream : List Byte}

variable (short : stream.length < 2 ^ 31)
include short

theorem Sequenced.rcvText {c : Conn} {taken ready : Nat} {t : Th} (env : Env)
    (sequenced : Sequenced base stream c.tcb taken ready) (carries : Carries base stream t)
    (clear : ¬ reachesLater env c t) :
    ∃ next, ready ≤ next ∧ Sequenced base stream (Bbnnet.rcvText env c t).1.tcb taken next := by
  unfold Bbnnet.rcvText
  unfold reachesLater at clear
  cases trimmed : rcvTrim c.tcb.rcvNxt t with
  | none => exact ⟨ready, Nat.le_refl _, sequenced.of_same rfl rfl⟩
  | some cut =>
    simp only [trimmed] at clear ⊢
    rw [sequenced.nxt] at trimmed
    obtain ⟨cutCarries, late⟩ := rcvTrim_carries short sequenced.inside carries trimmed
    by_cases tight : c.ucb.ucRcv - c.ucb.ucRsize < textBufs cut
    · rw [if_pos tight]
      by_cases low : env.bufsLow c.clock = true
      · rw [if_pos ⟨tight, low⟩] at clear
        rw [if_pos low]
        simp only [rcvShort] at clear ⊢
        have given := sequenced.giveUp short cut (c.ucb.ucRcv - c.ucb.ucRsize) (textBufs cut)
        by_cases less : (Bbnnet.giveUp c.tcb.rcvNxt c.tcb.tRcv cut (c.ucb.ucRcv - c.ucb.ucRsize)
            (textBufs cut)).2 < textBufs cut
        · simp only [if_pos less, true_and, Bool.or_true] at clear ⊢
          split
          · exact ⟨ready, Nat.le_refl _, given.of_same rfl rfl⟩
          · rename_i full
            obtain ⟨dropCarries, start⟩ := dropText_carries cutCarries _ full
            exact Sequenced.rcvSequence short env (given.of_same rfl rfl) dropCarries
              (start ▸ late) clear
        · simp only [if_neg less, Bool.false_eq_true, false_and, if_false] at clear ⊢
          exact Sequenced.rcvSequence short env (given.of_same rfl rfl) cutCarries late clear
      · rw [if_neg (fun both => low both.2)] at clear
        rw [if_neg low]
        exact Sequenced.rcvSequence (c := c.tick) short env sequenced cutCarries late clear
    · rw [if_neg (fun both => tight both.1)] at clear
      rw [if_neg tight]
      exact sequenced.rcvSequence short env cutCarries late clear

omit short in
theorem chainData_chunk (m : Chain) : chainData (chunk m) = chainData m := by
  induction m with
  | nil => rfl
  | cons first rest inductionHypothesis =>
    rw [chunk, List.filter_cons]
    split
    · rw [chainData_cons, chainData_cons, ← inductionHypothesis, chunk]
    · rename_i empty
      have none : first.data = [] := by
        rw [Mbuf.data_eq_nil_iff]
        simpa using empty
      rw [chainData_cons, none, List.nil_append, ← inductionHypothesis, chunk]

theorem presentLoop_moves {taken ready rcv rsize : Nat} {front back : List Th} {rbuf : Chain}
    (inside : ready ≤ stream.length) (carries : ∀ q ∈ front ++ back, Carries base stream q)
    (tiles : Tiles taken ready (pieces base front))
    (past : ∀ q ∈ back, ready < (piece base q).start) :
    let moved := presentLoop (point base (ready : Int)) rcv (front ++ back) rbuf rsize
    ∃ next left, taken ≤ next ∧ moved.1 = left ++ back ∧ (∀ q ∈ left, q ∈ front) ∧
      Tiles next ready (pieces base left) ∧
      chainData moved.2.1 = chainData rbuf ++ (stream.drop taken).take (next - taken) := by
  induction front generalizing taken rbuf rsize with
  | nil =>
    refine ⟨taken, [], Nat.le_refl _, ?_, by simp, tiles, ?_⟩
    all_goals
      cases back with
      | nil => simp [presentLoop]
      | cons q rest =>
        have qCarries := carries q List.mem_cons_self
        have qBound := Piece.stop_le_length qCarries.part
        have qFull := Piece.start_lt_stop qCarries.part
        have qPast := past q List.mem_cons_self
        have stays : ¬ seqLt (tEnd q) (point base (ready : Int)) := by
          rw [qCarries.tEnd, seqLt_point base (by omega) (by omega)]
          omega
        simp [presentLoop, stays]
  | cons t rest inductionHypothesis =>
    rw [List.cons_append, presentLoop]
    have tCarries := carries t List.mem_cons_self
    split
    · have restCarries : ∀ q ∈ rest ++ back, Carries base stream q :=
        (List.forall_mem_cons.mp carries).2
      obtain ⟨next, left, grows, stays, members, leftTiles, data⟩ :=
        @inductionHypothesis _ ((rsize + (chunk t.mbufs).length) % 256) (rbuf ++ chunk t.mbufs)
          restCarries tiles.2
      have full := Piece.start_lt_stop tCarries.part
      have start : (piece base t).start = taken := tiles.1
      refine ⟨next, left, by omega, stays, fun q member => List.mem_cons_of_mem _ (members q member),
        leftTiles, ?_⟩
      have one : chainData t.mbufs = (stream.drop taken).take ((piece base t).stop - taken) := by
        have alone : Tiles taken (piece base t).stop [piece base t] := ⟨start, rfl⟩
        have part : AllOf stream [piece base t] := by simpa [AllOf] using tCarries.part
        have single := alone.data part
        simpa [piece] using single
      have join : next - taken = ((piece base t).stop - taken) + (next - (piece base t).stop) := by
        omega
      rw [data, chainData_append, chainData_chunk, List.append_assoc, one, join, List.take_add,
        List.drop_drop]
      congr 4
      omega
    · exact ⟨taken, t :: rest, Nat.le_refl _, rfl, fun _ => id, tiles, by simp⟩

theorem Sequenced.presentData {c : Conn} {taken ready : Nat}
    (sequenced : Sequenced base stream c.tcb taken ready) :
    ∃ next, taken ≤ next ∧ Sequenced base stream (Bbnnet.presentData c).tcb next ready ∧
      chainData (Bbnnet.presentData c).ucb.ucRbuf =
        chainData c.ucb.ucRbuf ++ (stream.drop taken).take (next - taken) := by
  unfold Bbnnet.presentData
  split
  · obtain ⟨front, back, shape, tiles, ordered, past⟩ := sequenced.run
    have reachedEnd := sequenced.firstempty_eq short
    obtain ⟨next, left, grows, stays, members, leftTiles, data⟩ :=
      @presentLoop_moves _ _ short _ _ c.ucb.ucRcv c.ucb.ucRsize _ _ c.ucb.ucRbuf
        sequenced.inside (shape ▸ sequenced.carries) tiles past
    rw [← shape, ← reachedEnd] at stays data
    have kept : Sequenced base stream { c.tcb with tRcv := (presentLoop (firstempty c.tcb)
        c.ucb.ucRcv c.tcb.tRcv c.ucb.ucRbuf c.ucb.ucRsize).1 } next ready := by
      refine ⟨sequenced.nxt, sequenced.inside, fun q inside => ?_, left, back, stays, leftTiles,
        ordered, past⟩
      dsimp only at inside
      rw [stays] at inside
      refine sequenced.carries q ?_
      rw [shape]
      rcases List.mem_append.mp inside with leftInside | backInside
      · exact List.mem_append_left _ (members q leftInside)
      · exact List.mem_append_right _ backInside
    refine ⟨next, grows, ?_, ?_⟩
    · dsimp only
      split
      · exact kept.of_same rfl rfl
      · exact kept.of_same rfl rfl
    · dsimp only
      split
      · exact data
      · exact data
  · exact ⟨taken, Nat.le_refl _, sequenced, by simp⟩

end Steps

/-! ### Runs of the receive side -/

/-- What happens to the receive side of a connection: a segment with text arrives, data is
presented, or the user reads. -/
inductive RcvEvent
  | text (t : Th)
  | present
  | read (count : Nat)

/-- A connection, with the bytes appended to its receive buffer so far. -/
structure Receiver where
  conn : Conn
  taken : List Byte

/-- The effect of one event. -/
def receive (env : Env) (s : Receiver) : RcvEvent → Receiver
  | .text t => { s with conn := (rcvText env s.conn t).1 }
  | .present =>
    { conn := presentData s.conn
      taken := s.taken ++
        (chainData (presentData s.conn).ucb.ucRbuf).drop (chainLen s.conn.ucb.ucRbuf) }
  | .read count => { s with conn := tcpRead s.conn count }

/-- The step relation: every segment carries a piece of the one stream. -/
def Receives (env : Env) (base : Seq) (stream : List Byte) (s : Receiver) (event : RcvEvent)
    (next : Receiver) : Prop :=
  (∀ t, event = .text t → Carries base stream t) ∧ next = receive env s event

/-- A synchronized connection before any text: the first byte to come has the sequence number
`base`, and nothing is queued. -/
structure Receiver.Fresh (base : Seq) (s : Receiver) : Prop where
  synRcvd : s.conn.tcb.synRcvd = true
  synAcked : s.conn.tcb.synAcked = true
  irs : s.conn.tcb.irs + 1 = base
  nxt : s.conn.tcb.rcvNxt = base
  queue : s.conn.tcb.tRcv = []
  taken : s.taken = []

/-- What the user has been given is a prefix of the stream, and every byte below `rcv_nxt` that
has not been presented is held on the sequencing queue. -/
def StreamIntact (base : Seq) (stream : List Byte) (s : Receiver) : Prop :=
  ∃ presented ready, presented ≤ ready ∧ ready ≤ stream.length ∧
    s.taken = stream.take presented ∧ s.conn.tcb.rcvNxt = point base (ready : Int) ∧
    ∀ k, presented ≤ k → k < ready →
      ∃ t ∈ s.conn.tcb.tRcv, Carries base stream t ∧ (piece base t).Holds k

/-- The invariant of the runs. -/
def Receiving (base : Seq) (stream : List Byte) (s : Receiver) : Prop :=
  ∃ presented ready, s.taken = stream.take presented ∧
    Sequenced base stream s.conn.tcb presented ready

section Runs

variable {base : Seq} {stream : List Byte} {env : Env}

theorem Receiving.intact {s : Receiver} (receiving : Receiving base stream s) :
    StreamIntact base stream s := by
  obtain ⟨presented, ready, taken, sequenced⟩ := receiving
  obtain ⟨front, back, shape, tiles, ordered, past⟩ := sequenced.run
  refine ⟨presented, ready, tiles.le, sequenced.inside, taken, sequenced.nxt, ?_⟩
  intro k low high
  obtain ⟨member, inside, holds⟩ := (tiles.covers k).mpr ⟨low, high⟩
  obtain ⟨q, qInside, rfl⟩ := List.mem_map.mp inside
  have held : q ∈ s.conn.tcb.tRcv := by
    rw [shape]
    exact List.mem_append_left _ qInside
  exact ⟨q, held, sequenced.carries q held, holds⟩

/-- Every event that does not touch a later segment keeps the invariant, and `rcv_nxt` does not
decrease. -/
theorem Receiving.step (short : stream.length < 2 ^ 31) {s next : Receiver} {event : RcvEvent}
    (receiving : Receiving base stream s)
    (clear : ∀ t, event = .text t → ¬ reachesLater env s.conn t)
    (taken : Receives env base stream s event next) :
    Receiving base stream next ∧ seqLeq s.conn.tcb.rcvNxt next.conn.tcb.rcvNxt := by
  obtain ⟨presented, ready, log, sequenced⟩ := receiving
  obtain ⟨carries, rfl⟩ := taken
  have inside := sequenced.inside
  cases event with
  | text t =>
    obtain ⟨after, grows, kept⟩ := sequenced.rcvText short env (carries t rfl) (clear t rfl)
    have afterInside := kept.inside
    refine ⟨⟨presented, after, log, kept⟩, ?_⟩
    rw [sequenced.nxt, receive, kept.nxt, seqLeq_point base (by omega) (by omega)]
    omega
  | present =>
    obtain ⟨after, grows, kept, data⟩ := sequenced.presentData short
    refine ⟨⟨after, ready, ?_, kept⟩, ?_⟩
    · rw [receive, data, ← length_chainData, List.drop_left, log]
      rw [show stream.take after = stream.take (presented + (after - presented)) by
        rw [Nat.add_sub_cancel' grows], List.take_add]
    · rw [sequenced.nxt, receive, kept.nxt, seqLeq_point base (by omega) (by omega)]
  | read count =>
    refine ⟨⟨presented, ready, log, sequenced.of_same rfl rfl⟩, ?_⟩
    rw [receive, tcpRead, sequenced.nxt, Conn.withUcb, sequenced.nxt,
      seqLeq_point base (by omega) (by omega)]

theorem Receiver.Fresh.receiving {s : Receiver} (fresh : s.Fresh base) :
    Receiving base stream s := by
  refine ⟨0, 0, fresh.taken, ⟨?_, Nat.zero_le _, ?_, [], [], fresh.queue, rfl, List.Pairwise.nil,
    by simp⟩⟩
  · rw [fresh.nxt, Int.ofNat_zero, point_zero]
  · rw [fresh.queue]
    simp

/-- In every run in which no new segment touches a later one, the bytes given to the user are a
prefix of the stream, the rest of what has arrived without a gap is held, and `rcv_nxt` never
decreases. -/
theorem receive_intact (short : stream.length < 2 ^ 31) {first last : Receiver}
    {history : List RcvEvent} (fresh : first.Fresh base)
    (run : Transition.Run (Transition.Guarded (Receives env base stream)
      fun s event => ∀ t, event = .text t → ¬ reachesLater env s.conn t) first history last) :
    StreamIntact base stream last ∧ ∀ event next, Receives env base stream last event next →
      (∀ t, event = .text t → ¬ reachesLater env last.conn t) →
      seqLeq last.conn.tcb.rcvNxt next.conn.tcb.rcvNxt := by
  have receiving : Receiving base stream last :=
    run.always _ fresh.receiving fun _ _ _ held taken => (held.step short taken.1 taken.2).1
  exact ⟨receiving.intact, fun event next taken clear => (receiving.step short clear taken).2⟩

end Runs

/-! ### A byte that is presented twice -/

/-- The segment that carries `count` bytes of the stream from position `start` on, in one
mbuf. -/
def sliceSegment (base : Seq) (stream : List Byte) (start count : Nat) : Th where
  tS := 0
  tD := 0
  tSrc := 0
  tDst := 0
  tSeq := base + BitVec.ofNat 32 start
  tAckno := 0
  tOff := 5
  tFlags := {}
  tWin := 0
  tUrp := 0
  tLen := count
  tMss := none
  mbufs := [{ mAct := 0, mOff := mhead, mLen := count
              mDat := fun address => stream.getD (start + (address - mhead)) 0 }]

theorem sliceSegment_carries (base : Seq) {stream : List Byte} {start count : Nat}
    (positive : 0 < count) (inside : start + count ≤ stream.length)
    (small : stream.length < 2 ^ 31) : Carries base stream (sliceSegment base stream start count) := by
  have begins : (piece base (sliceSegment base stream start count)).start = start := by
    have value : base + BitVec.ofNat 32 start - base = BitVec.ofNat 32 start := by ring
    simp only [piece, sliceSegment, value, BitVec.toNat_ofNat]
    exact Nat.mod_eq_of_lt (by omega)
  have data : (piece base (sliceSegment base stream start count)).data =
      (stream.drop start).take count := by
    simp only [piece, sliceSegment, chainData_cons, chainData_nil, List.append_nil, Mbuf.data,
      Memory.window]
    refine List.ext_getElem (by simp; omega) fun index bound _ => ?_
    simp only [List.length_map, List.length_range'] at bound
    simp only [List.getElem_map, List.getElem_range', List.getElem_take, List.getElem_drop,
      Nat.one_mul, Nat.add_sub_cancel_left]
    rw [List.getD_eq_getElem _ _ (by omega)]
  refine ⟨by simp [sliceSegment], ?_, ?_⟩
  · rw [data]
    intro none
    have length := congrArg List.length none
    simp only [List.length_take, List.length_drop, List.length_nil] at length
    omega
  · rw [data, begins]
    exact List.take_prefix _ _

/-- A synchronized connection that expects the byte after `irs`. -/
def synched (irs : Seq) : Receiver where
  conn := { tcpopen activeOpen 0 with
    tcb := { clearTcb with irs := irs, rcvNxt := irs + 1, synRcvd := true, synAcked := true } }
  taken := []

theorem synched_fresh (irs : Seq) : (synched irs).Fresh (irs + 1) :=
  ⟨rfl, rfl, rfl, rfl, rfl, rfl⟩

/-- Two segments in order, both presented. -/
theorem receive_intact_two_segments :
    StreamIntact 8 [1, 2, 3] ([RcvEvent.text (sliceSegment 8 [1, 2, 3] 0 2), .present,
      .text (sliceSegment 8 [1, 2, 3] 1 2), .present].foldl
        (receive host2) (synched 7)) := by
  have follows : Transition.Follows (Transition.Guarded
      (Receives host2 8 [1, 2, 3]) fun s event => ∀ t, event = .text t →
        ¬ reachesLater host2 s.conn t)
      (receive host2) (synched 7)
      [.text (sliceSegment 8 [1, 2, 3] 0 2), .present, .text (sliceSegment 8 [1, 2, 3] 1 2),
        .present] := by
    refine ⟨⟨?_, ?_, rfl⟩, ⟨?_, ?_, rfl⟩, ⟨?_, ?_, rfl⟩, ⟨?_, ?_, rfl⟩, trivial⟩
    · rintro t ⟨⟩
      decide
    · rintro t ⟨⟩
      exact sliceSegment_carries _ (by decide) (by decide) (by decide)
    · rintro t ⟨⟩
    · rintro t ⟨⟩
    · rintro t ⟨⟩
      decide
    · rintro t ⟨⟩
      exact sliceSegment_carries _ (by decide) (by decide) (by decide)
    · rintro t ⟨⟩
    · rintro t ⟨⟩
  exact (receive_intact (by decide) (synched_fresh 7) (Transition.Run.start.follows follows)).1

/-- The segments `[1, 1]`, `[2, 2]`, `[1, 2]` and `[0, 0]` of a stream of three bytes make
`present_data` append its last byte twice. -/
theorem receive_presents_twice :
    ¬ ∀ (env : Env) (base : Seq) (stream : List Byte) (first last : Receiver)
      (history : List RcvEvent), stream.length < 2 ^ 31 → first.Fresh base →
      Transition.Run (Receives env base stream) first history last →
      StreamIntact base stream last := by
  intro intact
  have slice (start count : Nat) (positive : 0 < count) (inside : start + count ≤ 3) (t : Th)
      (same : RcvEvent.text (sliceSegment 8 [1, 2, 3] start count) = .text t) :
      Carries 8 [1, 2, 3] t := by
    obtain ⟨⟩ := same
    exact sliceSegment_carries _ positive inside (by decide)
  have follows : Transition.Follows (Receives host2 8 [1, 2, 3])
      (receive host2) (synched 7)
      [.text (sliceSegment 8 [1, 2, 3] 1 1), .text (sliceSegment 8 [1, 2, 3] 2 1),
        .text (sliceSegment 8 [1, 2, 3] 1 2), .text (sliceSegment 8 [1, 2, 3] 0 1), .present] :=
    ⟨⟨slice 1 1 (by decide) (by decide), rfl⟩, ⟨slice 2 1 (by decide) (by decide), rfl⟩,
      ⟨slice 1 2 (by decide) (by decide), rfl⟩, ⟨slice 0 1 (by decide) (by decide), rfl⟩,
      ⟨fun _ other => (nomatch other), rfl⟩, trivial⟩
  obtain ⟨presented, ready, _, _, taken, _⟩ := intact _ _ _ _ _ _ (by decide) (synched_fresh 7)
    (Transition.Run.start.follows follows)
  have appended : [1, 2, 3, 3] = ([1, 2, 3] : List Byte).take presented := taken
  have length := congrArg List.length appended
  simp only [List.length_take, List.length_cons, List.length_nil] at length
  omega

end NetworkUnix.Bbnnet
