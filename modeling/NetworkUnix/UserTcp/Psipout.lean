/-
This file models `PsipOut`, which sends the next segment of a connection: it decides on
SYN, URG and FIN, copies as many bytes of the ring as the window, the segment size and
their security level allow, hands the segment to `NetOut` and moves the pointers.
-/

import NetworkUnix.Lib.Circular
import NetworkUnix.UserTcp.Tcb

namespace NetworkUnix.UserTcp

/-- What became of a write to the net. -/
inductive Wrote
  | all
  | part
  | error
  deriving DecidableEq

/-- What the scheduler is to do with the work block. -/
inductive WorkRet
  | remove
  | keep
  | requeue
  | abort
  deriving DecidableEq

/-- The distance from one index of the ring to another. -/
def around (high low : Int) : Int :=
  if high - low < 0 then high - low + rbuffsize else high - low

/-- The security level in a cell of `FlagBuff`. -/
def levelOf (flag : Byte) : Byte := flag.sshiftRight 3

namespace Tcb

/-- The data in the ring that is still to be sent. -/
def remData (t : Tcb) : Int := around t.dataTl t.dataNxt

/-- The data that is sent and not acknowledged. -/
def dataSent (t : Tcb) : Int := around t.dataNxt t.dataHd

/-- The first sequence number is for the SYN. -/
def firstSyn (t : Tcb) : Tcb :=
  if t.sendSeq = t.sndISN then
    { t with
      seqNo := t.sendSeq
      tcpFlags := { t.tcpFlags with syn := true }
      sendSeq := t.sendSeq + 1
      state := if t.state = .opened then .synsent else t.state }
  else { t with seqNo := t.sendSeq }

/-- The urgent bit, while the urgent number is not passed. -/
def urgentBit (t : Tcb) : Tcb :=
  if t.flags.urgsend ∧ ulCompare t.sndUrgNo t.seqNo ≠ 2 then
    { t with
      urgentPtr := (t.sndUrgNo - t.seqNo).setWidth 16
      tcpFlags := { t.tcpFlags with urg := true } }
  else t

/-- The copy loop. The level is compared after a byte is copied, and the pointer to the flags
goes back to the start of its ring together with the pointer to the data. -/
def copyLoop (p : Params) (t : Tcb) (segSec : Byte) : Nat → Nat → Int → Int → List Byte
  | 0, _, _, _ => []
  | more + 1, i, sPtr, fPtr =>
    if i + t.dataSent < t.sndWindow ∧ (i : Int) < p.segData then
      t.retranBuff sPtr ::
        let atEnd := sPtr + 1 = rbuffsize
        let sNext := if atEnd then 0 else sPtr + 1
        let fHere := if atEnd then 0 else fPtr
        if p.auth then
          if levelOf (t.flagBuff fHere) = segSec then
            copyLoop p t segSec more (i + 1) sNext (fHere + 1)
          else []
        else copyLoop p t segSec more (i + 1) sNext fHere
    else []

/-- Sending is held up by the window. -/
def heldUp (t : Tcb) : Bool :=
  decide (t.sndWindow = 0) || t.tcpFlags.urg && decide (t.sndWindow ≤ t.dataSent)

/-- A byte may be sent into the closed window. -/
def mayProbe (t : Tcb) : Bool := !t.flags.rtndata || t.flags.retranok

/-- The bytes that go into the segment. -/
def dataText (p : Params) (t : Tcb) : List Byte :=
  if t.remData = 0 then []
  else if t.heldUp then
    if t.mayProbe then [t.retranBuff t.dataNxt] else []
  else t.copyLoop p (levelOf (t.flagBuff t.dataNxt)) t.remData.toNat 0 t.dataNxt t.dataNxt

/-- The segment goes beyond the right edge, or would. -/
def beyond (t : Tcb) : Bool := !decide (t.remData = 0) && t.heldUp

/-- The flags that keep data back until the next retransmission. -/
def dataFlags (t : Tcb) : Tcb :=
  { t with
    flags := { t.flags with
      rtndata := t.flags.rtndata || t.beyond && t.mayProbe
      retranok := false } }

/-- The FIN bit, when all that goes before the FIN is sent. -/
def finBit (t : Tcb) : Tcb :=
  if t.flags.sendfin ∧ t.sndFSN = t.sendSeq then
    { t with tcpFlags := { t.tcpFlags with fin := true } }
  else t

/-- The states in which a segment carries an acknowledgement. -/
def acks (t : Tcb) : Bool :=
  match t.state with
  | .synrecd | .estab | .closewait | .finwait | .closing => true
  | _ => false

/-- The EOL and ACK bits. -/
def ackBit (t : Tcb) : Tcb :=
  { t with tcpFlags := { t.tcpFlags with eol := true, ack := t.tcpFlags.ack || t.acks } }

/-- The leaders and the text as they are handed to `NetOut`. -/
def leaders (t : Tcb) (segSec : Byte) (text : List Byte) : Sent where
  dst := t.dst
  seqNo := t.seqNo
  ackNo := t.ackNo
  control := t.tcpFlags
  window := t.window
  urgentPtr := t.urgentPtr
  level := (if text = [] then BitVec.ofInt 8 t.scMinOut else segSec) |||
    BitVec.ofInt 8 t.sndPrec <<< 4
  tcc := t.tccList.headD 0
  text := text

/-- The pointers behind the bytes that were sent. -/
def advance (t : Tcb) (count : Nat) : Tcb :=
  { t with
    dataNxt := if (rbuffsize : Int) ≤ t.dataNxt + count then t.dataNxt + count - rbuffsize
      else t.dataNxt + count
    sendSeq := t.sendSeq + BitVec.ofNat 32 count }

/-- The state after a FIN is sent. -/
def finState (t : Tcb) : ConnState :=
  match t.state with
  | .synrecd | .estab => .finwait
  | .closewait => .closing
  | state => state

/-- The FIN takes a sequence number. -/
def finSent (t : Tcb) : Tcb :=
  if t.tcpFlags.fin then { t with sendSeq := t.sendSeq + 1, state := t.finState } else t

/-- MaxSend follows SendSeq. -/
def noteMax (t : Tcb) : Tcb :=
  { t with maxSend := if ulCompare t.sendSeq t.maxSend = 1 then t.sendSeq else t.maxSend }

/-- The control bits are cleared. -/
def clearFlags (t : Tcb) : Tcb := { t with tcpFlags := {} }

end Tcb

namespace Conn

/-- The segment is handed to `NetOut`, and the state information is brought up to date. -/
def transmit (p : Params) (c : Conn) (t : Tcb) (text : List Byte) (wrote : Wrote) :
    Conn × WorkRet :=
  let sent := { c with
    tcb := t.advance text.length
    netOut := t.leaders (levelOf (t.flagBuff t.dataNxt)) text :: c.netOut
    partWr := decide (wrote = .part) }
  if t.tcpFlags.rst && t.flags.abtconn then (sent, .abort)
  else
    let settled := { sent with tcb := sent.tcb.finSent.noteMax.clearFlags }
    let queued :=
      if text ≠ [] ∨ t.tcpFlags.syn ∨ t.tcpFlags.fin then settled.qTcb p else settled
    (queued,
      if !t.beyond && decide (0 < t.remData - text.length) then .requeue
      else if settled.partWr then .keep
      else .remove)

/-- A segment is made up and sent, if there is anything to send. -/
def outSegment (p : Params) (c : Conn) (wrote : Wrote) : Conn × WorkRet :=
  let begun := c.tcb.firstSyn.urgentBit
  let text := begun.dataText p
  let ready := begun.dataFlags.finBit
  if text = [] ∧ ready.tcpFlags.any = false then
    ({ c with tcb := ready }, if 0 < ready.remData then .keep else .remove)
  else c.transmit p ready.ackBit text wrote

/-- PsipOut: `finish` is what becomes of the rest of the previous segment. -/
def psipOut (p : Params) (c : Conn) (finish wrote : Wrote) : Conn × WorkRet :=
  if c.partWr && decide (finish ≠ .all) then (c, .keep)
  else
    let c := { c with partWr := false }
    if c.tcb.flags.nomoseg then (c, .remove) else c.outSegment p wrote

end Conn

/-! ### What one call does -/

namespace Tcb

/-- The next segment carries a SYN. -/
def synDue (t : Tcb) : Bool := decide (t.sendSeq = t.sndISN)

/-- The next segment carries a FIN. -/
def finDue (t : Tcb) : Bool :=
  t.flags.sendfin && decide (t.sndFSN = t.sendSeq + BitVec.ofNat 32 t.synDue.toNat)

/-- The state once a SYN that is due is sent. -/
def synState (t : Tcb) : ConnState :=
  if t.synDue ∧ t.state = .opened then .synsent else t.state

/-- The control block when the data is copied. -/
def begun (t : Tcb) : Tcb := t.firstSyn.urgentBit

/-- SendSeq behind the next segment. -/
def nextSeq (p : Params) (t : Tcb) : Seq :=
  t.sendSeq + BitVec.ofNat 32 (t.synDue.toNat + (t.begun.dataText p).length + t.finDue.toNat)

theorem firstSyn_eq (t : Tcb) : t.firstSyn =
    { t with
      seqNo := t.sendSeq
      sendSeq := t.sendSeq + BitVec.ofNat 32 t.synDue.toNat
      state := t.synState
      tcpFlags := { t.tcpFlags with syn := t.tcpFlags.syn || t.synDue } } := by
  unfold firstSyn synState synDue
  by_cases first : t.sendSeq = t.sndISN
  · rw [if_pos first, decide_eq_true first, Bool.or_true]
    simp
  · rw [if_neg first, decide_eq_false first, Bool.or_false]
    simp

theorem urgentBit_eq (t : Tcb) : ∃ urgentPtr due, t.urgentBit =
    { t with urgentPtr, tcpFlags := { t.tcpFlags with urg := t.tcpFlags.urg || due } } := by
  unfold urgentBit
  split
  · exact ⟨_, true, by rw [Bool.or_true]⟩
  · exact ⟨t.urgentPtr, false, by rw [Bool.or_false]⟩

theorem finBit_eq (t : Tcb) : t.finBit =
    { t with
      tcpFlags := { t.tcpFlags with
        fin := t.tcpFlags.fin || t.flags.sendfin && decide (t.sndFSN = t.sendSeq) } } := by
  unfold finBit
  by_cases due : t.flags.sendfin ∧ t.sndFSN = t.sendSeq
  · rw [if_pos due, due.1, decide_eq_true due.2, Bool.and_true, Bool.or_true]
  · rw [if_neg due]
    have none : (t.flags.sendfin && decide (t.sndFSN = t.sendSeq)) = false := by
      simpa using due
    rw [none, Bool.or_false]

theorem begun_eq (t : Tcb) : ∃ urgentPtr urg, t.begun =
    { t with
      seqNo := t.sendSeq
      sendSeq := t.sendSeq + BitVec.ofNat 32 t.synDue.toNat
      state := t.synState
      urgentPtr
      tcpFlags := { t.tcpFlags with
        syn := t.tcpFlags.syn || t.synDue, urg := t.tcpFlags.urg || urg } } := by
  obtain ⟨urgentPtr, urg, same⟩ := t.firstSyn.urgentBit_eq
  exact ⟨urgentPtr, urg, by rw [begun, same, firstSyn_eq]⟩

end Tcb

namespace Tcb

/-- The flags after the decision on the data. -/
def outFlags (t : Tcb) : Flags :=
  { t.flags with
    rtndata := t.flags.rtndata || t.begun.beyond && t.begun.mayProbe
    retranok := false }

/-- The state after the segment. -/
def outState (t : Tcb) : ConnState :=
  if t.finDue then ({ t with state := t.synState }).finState else t.synState

theorem ready_eq {t : Tcb} (noSyn : t.tcpFlags.syn = false) (noFin : t.tcpFlags.fin = false) :
    ∃ urgentPtr urg, t.begun.dataFlags.finBit =
      { t with
        seqNo := t.sendSeq
        sendSeq := t.sendSeq + BitVec.ofNat 32 t.synDue.toNat
        state := t.synState
        urgentPtr
        flags := t.outFlags
        tcpFlags := { t.tcpFlags with
          syn := t.synDue, fin := t.finDue, urg := t.tcpFlags.urg || urg } } := by
  obtain ⟨urgentPtr, urg, begun⟩ := t.begun_eq
  refine ⟨urgentPtr, urg, ?_⟩
  rw [finBit_eq]
  unfold dataFlags outFlags
  rw [begun]
  dsimp only
  rw [noSyn, noFin, Bool.false_or, Bool.false_or]
  rfl

end Tcb

theorem Control.plain {control : Control} (noSyn : control.syn = false)
    (noFin : control.fin = false) : { control with syn := false, fin := false } = control := by
  cases control
  cases noSyn
  cases noFin
  rfl

/-- What a call of `PsipOut` can do to a connection with no SYN or FIN bit left over: it waits for
the previous segment, it may send no more segments, there is nothing to send, or a segment is sent;
an abort ends the connection after a segment with RST. -/
inductive Conn.Out (p : Params) (c : Conn) : Conn → WorkRet → Prop
  | waits : Conn.Out p c c .keep
  | mute (nomoseg : c.tcb.flags.nomoseg) : Conn.Out p c { c with partWr := false } .remove
  | quiet (sending : c.tcb.flags.nomoseg = false) (noSyn : c.tcb.synDue = false)
      (noFin : c.tcb.finDue = false) (noText : c.tcb.begun.dataText p = [])
      (noFlags : c.tcb.tcpFlags.any = false) (urgentPtr : BitVec 16) :
      Conn.Out p c
        { c with
          partWr := false
          tcb := { c.tcb with seqNo := c.tcb.sendSeq, flags := c.tcb.outFlags, urgentPtr } }
        (if 0 < c.tcb.remData then .keep else .remove)
  | sends (sending : c.tcb.flags.nomoseg = false) (seg : Sent) (urgentPtr : BitVec 16)
      (partWr : Bool) (text : seg.text = c.tcb.begun.dataText p) (seqNo : seg.seqNo = c.tcb.sendSeq)
      (ackNo : seg.ackNo = c.tcb.ackNo) (syn : seg.control.syn = c.tcb.synDue)
      (fin : seg.control.fin = c.tcb.finDue) (rst : seg.control.rst = c.tcb.tcpFlags.rst)
      (level : seg.level =
        (if seg.text = [] then BitVec.ofInt 8 c.tcb.scMinOut
          else levelOf (c.tcb.flagBuff c.tcb.dataNxt)) ||| BitVec.ofInt 8 c.tcb.sndPrec <<< 4)
      (live : c.tcb.tcpFlags.rst = false ∨ c.tcb.flags.abtconn = false) :
      Conn.Out p c
        { c with
          partWr
          netOut := seg :: c.netOut
          queued := c.queued ||
            !p.noRetran && (decide (seg.text ≠ []) || c.tcb.synDue || c.tcb.finDue)
          tcb := { c.tcb with
            seqNo := c.tcb.sendSeq
            urgentPtr
            tcpFlags := {}
            flags := c.tcb.outFlags
            state := c.tcb.outState
            sendSeq := c.tcb.nextSeq p
            maxSend := if ulCompare (c.tcb.nextSeq p) c.tcb.maxSend = 1 then c.tcb.nextSeq p
              else c.tcb.maxSend
            dataNxt := (c.tcb.advance seg.text.length).dataNxt } }
        (if !c.tcb.begun.beyond && decide (0 < c.tcb.remData - seg.text.length) then .requeue
          else if partWr then .keep else .remove)
  | aborts (seg : Sent) (t : Tcb) (partWr : Bool) (text : seg.text = c.tcb.begun.dataText p)
      (seqNo : seg.seqNo = c.tcb.sendSeq) (ackNo : seg.ackNo = c.tcb.ackNo)
      (syn : seg.control.syn = c.tcb.synDue) (fin : seg.control.fin = c.tcb.finDue)
      (rst : seg.control.rst = true)
      (level : seg.level =
        (if seg.text = [] then BitVec.ofInt 8 c.tcb.scMinOut
          else levelOf (c.tcb.flagBuff c.tcb.dataNxt)) ||| BitVec.ofInt 8 c.tcb.sndPrec <<< 4) :
      Conn.Out p c { c with tcb := t, partWr, netOut := seg :: c.netOut } .abort

theorem Conn.qTcb_if (p : Params) (c : Conn) (marked : Bool) :
    (if marked = true then c.qTcb p else c) =
      { c with queued := c.queued || !p.noRetran && marked } := by
  unfold Conn.qTcb
  cases marked with
  | false => simp
  | true => cases p.noRetran <;> simp

theorem Conn.transmit_out {p : Params} {c : Conn} {urgentPtr : BitVec 16} {urg : Bool} {t : Tcb}
    (sending : c.tcb.flags.nomoseg = false)
    (ready : t =
      { c.tcb with
        seqNo := c.tcb.sendSeq
        sendSeq := c.tcb.sendSeq + BitVec.ofNat 32 c.tcb.synDue.toNat
        state := c.tcb.synState
        urgentPtr
        flags := c.tcb.outFlags
        tcpFlags := { c.tcb.tcpFlags with
          syn := c.tcb.synDue, fin := c.tcb.finDue, urg := c.tcb.tcpFlags.urg || urg } })
    (beyond : t.beyond = c.tcb.begun.beyond) (partWr : Bool) (wrote : Wrote) :
    Conn.Out p c
      (Conn.transmit p { c with partWr } t.ackBit (c.tcb.begun.dataText p) wrote).1
      (Conn.transmit p { c with partWr } t.ackBit (c.tcb.begun.dataText p) wrote).2 := by
  have level : (t.ackBit.leaders (levelOf (t.ackBit.flagBuff t.ackBit.dataNxt))
      (c.tcb.begun.dataText p)).level =
        (if c.tcb.begun.dataText p = [] then BitVec.ofInt 8 c.tcb.scMinOut
          else levelOf (c.tcb.flagBuff c.tcb.dataNxt)) ||| BitVec.ofInt 8 c.tcb.sndPrec <<< 4 := by
    rw [ready]
    rfl
  unfold Conn.transmit
  dsimp only
  split
  next aborted =>
    rw [Bool.and_eq_true] at aborted
    exact .aborts _ _ _ rfl (by rw [ready]; rfl) (by rw [ready]; rfl) (by rw [ready]; rfl)
      (by rw [ready]; rfl) aborted.1 level
  next alive =>
    have sent := Conn.Out.sends (p := p) sending
      (t.ackBit.leaders (levelOf (t.ackBit.flagBuff t.ackBit.dataNxt)) (c.tcb.begun.dataText p))
      urgentPtr (decide (wrote = .part)) rfl (by rw [ready]; rfl) (by rw [ready]; rfl)
      (by rw [ready]; rfl) (by rw [ready]; rfl) (by rw [ready]; rfl) level
      (by rw [ready] at alive; simpa [Tcb.ackBit, Tcb.outFlags, or_iff_not_imp_left] using alive)
    have next : (t.ackBit.advance (c.tcb.begun.dataText p).length).finSent =
        { t.ackBit.advance (c.tcb.begun.dataText p).length with
          sendSeq := c.tcb.nextSeq p, state := c.tcb.outState } := by
      have total : c.tcb.sendSeq + BitVec.ofNat 32 c.tcb.synDue.toNat +
            BitVec.ofNat 32 (c.tcb.begun.dataText p).length +
          BitVec.ofNat 32 c.tcb.finDue.toNat = c.tcb.nextSeq p := by
        unfold Tcb.nextSeq
        rw [BitVec.ofNat_add, BitVec.ofNat_add]
        simp only [BitVec.add_assoc]
      unfold Tcb.finSent Tcb.outState
      rw [← total, ready]
      cases c.tcb.finDue with
      | true => rfl
      | false =>
        rw [show ∀ base : Seq, base + BitVec.ofNat 32 false.toNat = base from BitVec.add_zero]
        rfl
    have marks : (c.tcb.begun.dataText p ≠ [] ∨ t.ackBit.tcpFlags.syn = true ∨
        t.ackBit.tcpFlags.fin = true) ↔
        (decide (c.tcb.begun.dataText p ≠ []) || c.tcb.synDue || c.tcb.finDue) = true := by
      rw [ready]
      simp [Tcb.ackBit, or_assoc]
    have remaining : t.ackBit.remData = c.tcb.remData := by
      rw [ready]
      rfl
    have beyond' : t.ackBit.beyond = c.tcb.begun.beyond := beyond
    rw [next, beyond', remaining]
    simp only [marks]
    rw [Conn.qTcb_if]
    subst ready
    exact sent

theorem Conn.psipOut_out (p : Params) (c : Conn) (finish wrote : Wrote)
    (noSyn : c.tcb.tcpFlags.syn = false) (noFin : c.tcb.tcpFlags.fin = false) :
    Conn.Out p c (c.psipOut p finish wrote).1 (c.psipOut p finish wrote).2 := by
  unfold Conn.psipOut
  dsimp only
  split
  · exact .waits
  cases open_ : c.tcb.flags.nomoseg with
  | true => exact .mute open_
  | false =>
    rw [if_neg Bool.false_ne_true]
    obtain ⟨urgentPtr, urg, ready⟩ := Tcb.ready_eq noSyn noFin
    have begun : c.tcb.firstSyn.urgentBit = c.tcb.begun := rfl
    unfold Conn.outSegment
    dsimp only
    rw [begun]
    split
    next nothing =>
      rw [ready] at nothing ⊢
      obtain ⟨noText, noFlags⟩ := nothing
      have quiet : c.tcb.synDue = false ∧ c.tcb.finDue = false ∧ c.tcb.tcpFlags.any = false ∧
          (c.tcb.tcpFlags.urg || urg) = c.tcb.tcpFlags.urg := by
        unfold Control.any at *
        revert noFlags
        generalize c.tcb.synDue = syn
        generalize c.tcb.finDue = fin
        grind
      obtain ⟨noSynDue, noFinDue, noFlags, noUrg⟩ := quiet
      have sameState : c.tcb.synState = c.tcb.state := by
        rw [Tcb.synState, noSynDue, if_neg (by simp)]
      have same := Conn.Out.quiet (p := p) open_ noSynDue noFinDue noText noFlags urgentPtr
      rw [sameState, noUrg, noSynDue, noFinDue, Control.plain noSyn noFin]
      rw [show c.tcb.sendSeq + BitVec.ofNat 32 false.toNat = c.tcb.sendSeq from BitVec.add_zero _]
      exact same
    next something =>
      exact Conn.transmit_out open_ ready (by unfold Tcb.finBit; split <;> rfl) false wrote

end NetworkUnix.UserTcp
