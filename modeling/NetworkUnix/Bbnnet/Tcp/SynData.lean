/-
This file follows the data a SYN carries. `rcv_text` drops what lies before the
next expected sequence number, counting from the first sequence number of the
segment, and with a SYN that number belongs to the SYN and not to the first
byte. The first byte of the data is always cut off, and the number expected next
is one too small.
-/

import NetworkUnix.Bbnnet.Tcp.Incoming
import NetworkUnix.Bbnnet.Tcp.Reset

namespace NetworkUnix.Bbnnet

/-! ### Counting the bytes that are queued -/

/-- The number of bytes on a sequencing queue. -/
def queueLen (queue : List Th) : Nat := (queue.map fun t => chainLen t.mbufs).sum

@[simp] theorem queueLen_nil : queueLen [] = 0 := rfl

@[simp] theorem queueLen_cons (t : Th) (rest : List Th) :
    queueLen (t :: rest) = chainLen t.mbufs + queueLen rest := by
  simp [queueLen]

@[simp] theorem queueLen_append (front back : List Th) :
    queueLen (front ++ back) = queueLen front + queueLen back := by
  simp [queueLen]

theorem chainLen_markEnd (m : Chain) : chainLen (markEnd m) = chainLen m := by
  rcases List.eq_nil_or_concat m with rfl | ⟨front, n, rfl⟩
  · rfl
  · simp [markEnd]

theorem queueLen_markQueue (queue : List Th) : queueLen (markQueue queue) = queueLen queue := by
  rcases List.eq_nil_or_concat queue with rfl | ⟨front, t, rfl⟩
  · rfl
  · simp [markQueue, chainLen_markEnd]

theorem queueLen_rcvPush (c : Conn) (n : Th) :
    queueLen (rcvPush c n).tcb.tRcv = queueLen c.tcb.tRcv := by
  unfold rcvPush
  split
  · exact queueLen_markQueue _
  · rfl

theorem chainLen_chunk (m : Chain) : chainLen (chunk m) = chainLen m := by
  rw [← length_chainData, chainData_chunk, length_chainData]

theorem chainLen_cutFront (t : Th) (count : Nat) :
    chainLen (t.cutFront count).mbufs = chainLen t.mbufs - count := by
  rw [Th.cutFront, ← length_chainData, mAdj, if_pos (Int.natCast_nonneg _), Int.toNat_natCast,
    chainData_mAdjTop, List.length_drop, length_chainData]

theorem chainLen_dropText_le (t : Th) (keep : Nat) :
    chainLen (dropText t keep).mbufs ≤ chainLen t.mbufs := by
  have emptied : chainLen ((t.mbufs.drop keep).map Mbuf.emptied) = 0 := by
    rw [← length_chainData, chainData_emptied, List.length_nil]
  have whole : chainLen t.mbufs = chainLen (t.mbufs.take keep) + chainLen (t.mbufs.drop keep) := by
    rw [← chainLen_append, List.take_append_drop]
  rw [dropText, chainLen_append, emptied, whole]
  omega

theorem presentLoop_length (ready : Seq) (rcv : Nat) (queue : List Th) (rbuf : Chain) (rsize : Nat) :
    chainLen (presentLoop ready rcv queue rbuf rsize).2.1 +
      queueLen (presentLoop ready rcv queue rbuf rsize).1 = chainLen rbuf + queueLen queue := by
  induction queue generalizing rbuf rsize with
  | nil => rfl
  | cons t rest inductionHypothesis =>
    rw [presentLoop]
    split
    · rw [inductionHypothesis, chainLen_append, chainLen_chunk, queueLen_cons]
      omega
    · rfl

theorem presentData_length_le (c : Conn) :
    chainLen (presentData c).ucb.ucRbuf ≤ chainLen c.ucb.ucRbuf + queueLen c.tcb.tRcv := by
  have moved := presentLoop_length (firstempty c.tcb) c.ucb.ucRcv c.tcb.tRcv c.ucb.ucRbuf
    c.ucb.ucRsize
  unfold presentData
  split
  · dsimp only
    split
    · exact Nat.le.intro moved
    · exact Nat.le.intro moved
  · exact Nat.le_add_right _ _

theorem presentData_rcvNxt (c : Conn) : (presentData c).tcb.rcvNxt = c.tcb.rcvNxt := by
  unfold presentData
  split
  · dsimp only
    split <;> rfl
  · rfl

/-! ### Text on an empty queue -/

/-- What text leaves on an empty sequencing queue: nothing, or one segment, the new one without
what lies before the next sequence number, and cut at the end if buffers are short. -/
inductive AloneAfter (tp : Tcb) (t : Th) (after : Tcb) (left : Th) : Prop
  | none (queue : after.tRcv = [])
  | one (cut : Th) (trimmed : rcvTrim tp.rcvNxt t = some cut) (queue : after.tRcv = [left])
      (nxt : after.rcvNxt = firstempty { tp with tRcv := [left] })
      (kept : left = cut ∨ after.droppedTxt = true ∧ ∃ keep, left = dropText cut keep)

theorem rcvSequence_alone {c : Conn} (env : Env) {t cut left : Th} {tp : Tcb}
    (empty : c.tcb.tRcv = []) (trimmed : rcvTrim tp.rcvNxt t = some cut)
    (same : c.tcb.rcvNxt = tp.rcvNxt)
    (kept : left = cut ∨ c.tcb.droppedTxt = true ∧ ∃ keep, left = dropText cut keep) :
    AloneAfter tp t (rcvSequence env c left (tEnd left)).1.tcb
      (rcvSequence env c left (tEnd left)).2 := by
  obtain ⟨-, inbound⟩ := rcvSequence_shape env c left (tEnd left)
  have dropped := congrArg Inbound.droppedTxt inbound
  have queue := congrArg Inbound.tRcv inbound
  have nxt := congrArg Inbound.rcvNxt inbound
  have second : (rcvSequence env c left (tEnd left)).2 =
    (rcvMerge c.tcb.rcvNxt (tEnd left) c.tcb.tRcv left).2.1 := rfl
  rw [empty, rcvMerge] at queue nxt second
  split at queue
  · rename_i late
    rw [if_pos late] at nxt second
    rw [second]
    have start : firstempty { c.tcb with tRcv := [left] } = firstempty { tp with tRcv := [left] } :=
      firstempty_of_queues same rfl
    refine .one cut trimmed queue (nxt.trans start) ?_
    exact kept.imp_right fun cutShort => ⟨dropped.trans cutShort.1, cutShort.2⟩
  · exact .none queue

theorem rcvShort_empty {tp : Tcb} {t : Th} {i : Nat} (empty : tp.tRcv = []) (tight : i < textBufs t) :
    rcvShort tp t i = ([], dropText t i, true) := by
  unfold rcvShort
  rw [empty]
  exact if_pos tight

theorem rcvText_alone (env : Env) {c : Conn} (t : Th) (empty : c.tcb.tRcv = []) :
    AloneAfter c.tcb t (rcvText env c t).1.tcb (rcvText env c t).2 := by
  unfold rcvText
  cases trimmed : rcvTrim c.tcb.rcvNxt t with
  | none => exact .none empty
  | some cut =>
    dsimp only
    split
    · rename_i tight
      split
      · rw [rcvShort_empty empty tight]
        split
        · exact .none rfl
        · exact rcvSequence_alone env rfl trimmed rfl (.inr ⟨Bool.or_true _, _, rfl⟩)
      · exact rcvSequence_alone env empty trimmed rfl (.inl rfl)
    · exact rcvSequence_alone env empty trimmed rfl (.inl rfl)

/-! ### Where the data of a SYN goes -/

/-- An acceptable segment with data on a connection that is being opened, on which nothing waits. -/
structure SynData (env : Env) (c : Conn) (n : Th) : Prop where
  opening : c.tcb.tState = .listen ∨ c.tcb.tState = .synSent
  empty : c.tcb.tRcv = []
  accepted : (netprepr env c n).2 = .accept
  data : 0 < n.tLen
  whole : n.tLen = chainLen n.mbufs
  short : n.tLen < 2 ^ 16

/-- The connection once the acknowledgement of our SYN is in, so that the user is given data. -/
def Conn.acked (c : Conn) : Conn := c.withTcb { c.tcb with synAcked := true }

/-- The user is given the data of the segment from its first byte, and the number expected next is
the one after the SYN and the data. -/
def SynDataPlaced (env : Env) (c : Conn) (n : Th) : Prop :=
  let given := presentData (rcvTcp env c n .data).acked
  chainData given.ucb.ucRbuf = chainData c.ucb.ucRbuf ++ chainData n.mbufs ∧
    given.tcb.rcvNxt = n.tSeq + 1 + BitVec.ofNat 32 n.tLen

theorem diff_ahead (s : Seq) {k : Nat} (small : k < 2 ^ 31) :
    Serial.diff (s + BitVec.ofNat 32 k) s = k := by
  have ahead : s + BitVec.ofNat 32 k = Serial.point s (k : Int) := by
    rw [Serial.point, BitVec.ofInt_natCast]
  have gap := Serial.diff_point s (k : Int) 0 (by omega) (by omega)
  rwa [Serial.point_zero, Int.sub_zero, ← ahead] at gap

theorem tEnd_ahead {t : Th} (data : t.tLen ≠ 0) :
    tEnd t = t.tSeq + BitVec.ofNat 32 (t.tLen - 1) := by
  obtain ⟨count, length⟩ := Nat.exists_eq_succ_of_ne_zero data
  rw [tEnd, length, Nat.succ_sub_one, Nat.succ_eq_add_one, BitVec.ofNat_add, ← BitVec.add_assoc]
  exact BitVec.add_sub_cancel _ _

theorem rcvFin_queue (env : Env) (c : Conn) (n : Th) :
    (rcvFin env c n).tcb.tRcv = c.tcb.tRcv ∧ (rcvFin env c n).ucb = c.ucb := by
  unfold rcvFin
  split
  · split
    · exact ⟨rfl, rfl⟩
    · dsimp only
      split <;> exact ⟨rfl, rfl⟩
  · exact ⟨rfl, rfl⟩

theorem rcvFin_rcvNxt (env : Env) (c : Conn) (n : Th) :
    (rcvFin env c n).tcb.rcvNxt = c.tcb.rcvNxt ∨
      c.tcb.droppedTxt = false ∧ finFound env c n (firstempty c.tcb) = true := by
  unfold rcvFin
  split
  · rename_i due
    split
    · exact .inl rfl
    · dsimp only
      split
      · rename_i found
        exact .inr ⟨due.2, found.1⟩
      · exact .inl rfl
  · exact .inl rfl

section Placing

variable {env : Env} {c : Conn} {n : Th}

theorem rcvHeader_tRcv (c : Conn) (n : Th) : (rcvHeader c n).tcb.tRcv = c.tcb.tRcv := by
  have inbound := congrArg Inbound.tRcv (inbound_rcvHeader c n)
  rw [inbound_rcvSyn] at inbound
  split at inbound <;> exact inbound

theorem rcvHeader_ucRbuf (c : Conn) (n : Th) : (rcvHeader c n).ucb.ucRbuf = c.ucb.ucRbuf := by
  have inbound := congrArg Inbound.ucRbuf (inbound_rcvHeader c n)
  rw [inbound_rcvSyn] at inbound
  split at inbound <;> exact inbound

theorem queueLen_rcvData (data : n.tLen ≠ 0) :
    queueLen (rcvData env c n).1.tcb.tRcv = queueLen (rcvText env c n).1.tcb.tRcv := by
  have urged (c : Conn) (n : Th) : (rcvUrg c n).tcb.tRcv = c.tcb.tRcv :=
    congrArg Inbound.tRcv (inbound_rcvUrg c n)
  unfold rcvData
  dsimp only
  rw [queueLen_rcvPush, urged, if_pos data]

theorem rcvTcp_length_le (data : n.tLen ≠ 0) :
    chainLen (presentData (rcvTcp env c n .data).acked).ucb.ucRbuf ≤
      chainLen c.ucb.ucRbuf + queueLen (rcvText env (rcvHeader c n) n).1.tcb.tRcv := by
  have inbound := inbound_rcvTcp env c n
  have queue : (rcvTcp env c n .data).tcb.tRcv = (rcvData env (rcvHeader c n) n).1.tcb.tRcv :=
    (congrArg Inbound.tRcv inbound).trans (rcvFin_queue ..).1
  have buffer : (rcvTcp env c n .data).ucb.ucRbuf = c.ucb.ucRbuf := by
    refine (congrArg Inbound.ucRbuf inbound).trans ?_
    rw [Conn.inbound, (rcvFin_queue ..).2, rcvData_ucRbuf, rcvHeader_ucRbuf]
  calc chainLen (presentData (rcvTcp env c n .data).acked).ucb.ucRbuf
      ≤ chainLen (rcvTcp env c n .data).ucb.ucRbuf + queueLen (rcvTcp env c n .data).tcb.tRcv :=
        presentData_length_le _
    _ = _ := by rw [queue, buffer, queueLen_rcvData data]

/-- When nothing is cut off the front, the next number expected stays at or before the end of the
segment counted without a SYN. -/
theorem rcvTcp_rcvNxt_le {left : Th} (data : n.tLen ≠ 0) (small : n.tLen < 2 ^ 31)
    (late : Serial.diff (rcvHeader c n).tcb.rcvNxt n.tSeq ≤ 0)
    (queue : (rcvText env (rcvHeader c n) n).1.tcb.tRcv = [left])
    (nxt : (rcvText env (rcvHeader c n) n).1.tcb.rcvNxt =
      firstempty { (rcvHeader c n).tcb with tRcv := [left] })
    (first : left.tSeq = n.tSeq) (length : left.tLen ≤ n.tLen)
    (whole : (rcvText env (rcvHeader c n) n).1.tcb.droppedTxt = false → left = n) :
    Serial.diff (rcvTcp env c n .data).tcb.rcvNxt n.tSeq ≤ n.tLen := by
  have reached : tEnd left + 1 = n.tSeq + BitVec.ofNat 32 left.tLen := first ▸ tEnd_add_one left
  obtain ⟨segment, places, inbound⟩ := inbound_rcvData env (rcvHeader c n) n
  rw [if_pos data] at segment places inbound
  have expected : (rcvData env (rcvHeader c n) n).1.tcb.rcvNxt =
      firstempty { (rcvHeader c n).tcb with tRcv := [left] } :=
    (congrArg Inbound.rcvNxt inbound).trans nxt
  have dropped : (rcvData env (rcvHeader c n) n).1.tcb.droppedTxt =
      (rcvText env (rcvHeader c n) n).1.tcb.droppedTxt := congrArg Inbound.droppedTxt inbound
  have bound : Serial.diff (rcvData env (rcvHeader c n) n).1.tcb.rcvNxt n.tSeq ≤ n.tLen := by
    rw [expected, firstempty]
    dsimp only
    split
    · omega
    · rw [tEndRun, reached, diff_ahead _ (by omega)]
      omega
  have final : (rcvTcp env c n .data).tcb.rcvNxt =
      (rcvFin env (rcvData env (rcvHeader c n) n).1 (rcvData env (rcvHeader c n) n).2).tcb.rcvNxt :=
    congrArg Inbound.rcvNxt (inbound_rcvTcp env c n)
  rw [final]
  rcases rcvFin_rcvNxt env (rcvData env (rcvHeader c n) n).1 (rcvData env (rcvHeader c n) n).2 with
    same | ⟨full, found⟩
  · rw [same]
    exact bound
  exfalso
  rw [dropped] at full
  rw [whole full] at queue expected reached
  rw [queue] at places
  have again : firstempty (rcvData env (rcvHeader c n) n).1.tcb =
      firstempty { (rcvHeader c n).tcb with
        rcvNxt := (rcvData env (rcvHeader c n) n).1.tcb.rcvNxt
        tRcv := [n] } := firstempty_of_places rfl places
  rw [finFound_of_places (t := n) _ places rfl, decide_eq_true_eq, again, firstempty] at found
  have stays : tEnd n + 1 ≠ tEnd n := fun same =>
    absurd (BitVec.add_right_eq_self.mp same) (by decide)
  dsimp only at found
  split at found
  · rename_i before
    rw [found, tEnd_ahead data, seqLt, diff_ahead _ (by omega)] at before
    omega
  · exact stays found

/-- No acceptable segment with data that opens a connection has its data placed after the SYN. -/
theorem syn_data_misplaced (env : Env) (c : Conn) (n : Th) (opens : SynData env c n) :
    ¬ SynDataPlaced env c n := by
  rintro ⟨given, placed⟩
  have data := opens.data.ne'
  have small := opens.short
  have length := congrArg List.length given
  rw [List.length_append, length_chainData, length_chainData, length_chainData, ← opens.whole] at length
  have most := @rcvTcp_length_le env c _ data
  have target : Serial.diff (rcvTcp env c n .data).tcb.rcvNxt n.tSeq = (1 + n.tLen : Nat) := by
    rw [presentData_rcvNxt, show (1 : Seq) = BitVec.ofNat 32 1 from rfl, BitVec.add_assoc,
      ← BitVec.ofNat_add] at placed
    rw [show (rcvTcp env c n .data).tcb.rcvNxt = _ from placed]
    exact diff_ahead _ (by omega)
  have alone := rcvText_alone env n ((rcvHeader_tRcv c n).trans opens.empty)
  generalize isLeft : (rcvText env (rcvHeader c n) n).2 = left at alone
  cases alone with
  | none queue =>
    rw [queue, queueLen_nil] at most
    omega
  | one cut trimmed queue nxt kept =>
    have less : chainLen left.mbufs ≤ chainLen cut.mbufs := by
      rcases kept with rfl | ⟨-, keep, rfl⟩
      · exact Nat.le_refl _
      · exact chainLen_dropText_le cut keep
    rw [queue, queueLen_cons, queueLen_nil] at most
    rw [rcvTrim] at trimmed
    split at trimmed
    · rename_i early
      split at trimmed
      · obtain rfl := Option.some.inj trimmed
        rw [chainLen_cutFront, ← opens.whole] at less
        omega
      · cases trimmed
    · rename_i late
      obtain rfl := Option.some.inj trimmed
      have reach : Serial.diff (rcvTcp env c n .data).tcb.rcvNxt n.tSeq ≤ n.tLen := by
        refine rcvTcp_rcvNxt_le data (by omega) (Int.not_lt.mp late) queue nxt ?_ ?_ ?_
        · rcases kept with rfl | ⟨-, keep, rfl⟩ <;> rfl
        · rcases kept with rfl | ⟨-, keep, rfl⟩
          · exact Nat.le_refl _
          · exact Nat.sub_le _ _
        · intro full
          exact kept.resolve_right fun cutShort =>
            absurd (full.symm.trans cutShort.1) Bool.false_ne_true
      omega

end Placing

/-- The SYN of the other side that acknowledges ours and carries two bytes. -/
def synOfTwo : Th :=
  { bareSegment { syn := true, ack := true } 1000 101 with
    tLen := 2
    mbufs := [{ mAct := 0, mOff := mhead, mLen := 2
                mDat := fun address => if address = mhead then 5 else 6 }] }

theorem synOfTwo_opens : SynData host2 synSentConn synOfTwo :=
  ⟨.inr rfl, rfl, by decide, by decide, by decide, by decide⟩

theorem syn_data_misplaced_two : ¬ SynDataPlaced host2 synSentConn synOfTwo :=
  syn_data_misplaced host2 synSentConn synOfTwo synOfTwo_opens

/-- Of the two bytes only the second is given to the user. -/
theorem syn_data_loses_first :
    ¬ ∀ (env : Env) (c : Conn) (n : Th), SynData env c n → SynDataPlaced env c n := by
  intro placed
  exact absurd (placed host2 synSentConn synOfTwo synOfTwo_opens).1 (by decide +kernel)

end NetworkUnix.Bbnnet
