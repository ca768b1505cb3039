/-
This file states what the procedures of the TCP machine leave alone. A control
block is erased of everything that sending may change, or of everything that
receiving text may change; the two sides of the machine then leave each other's
erased connection as it is.
-/

import NetworkUnix.Bbnnet.Tcp.Input

namespace NetworkUnix.Bbnnet

/-! ### Sending -/

/-- The control block without what sending a segment may change. -/
def Tcb.sendErased (tp : Tcb) : Tcb :=
  { tp with
    sndLst := 0
    sndNxt := 0
    sndHi := 0
    seqFin := 0
    tRexmtVal := 0
    tRtlVal := 0
    tXmtVal := 0
    ackDue := false
    rexmt := false
    forceOne := false
    sentZero := false
    tTimers := fun i => if i = .tinit ∨ i = .tfinack then tp.tTimers i else 0 }

/-- The connection without what sending a segment may change. -/
def Conn.sendErased (c : Conn) : Conn :=
  { c with
    tcb := c.tcb.sendErased
    ucb := { c.ucb with ucRoute := none }
    out := []
    clock := 0 }

theorem Tcb.sendErased_setTimer (tp : Tcb) {i : Timer} (value : Nat) (initial : i ≠ .tinit)
    (final : i ≠ .tfinack) : (tp.setTimer i value).sendErased = tp.sendErased := by
  unfold Tcb.sendErased Tcb.setTimer
  congr 1
  funext j
  dsimp only
  split
  · rename_i kept
    rw [if_neg]
    rintro rfl
    rcases kept with same | same
    · exact initial same
    · exact final same
  · rfl

theorem sendErased_withTcb {c : Conn} {tp : Tcb} (same : tp.sendErased = c.tcb.sendErased) :
    (c.withTcb tp).sendErased = c.sendErased := by
  unfold Conn.sendErased Conn.withTcb
  rw [same]

theorem sendErased_sendPkt (env : Env) (c : Conn) (flags : Flags) (len : Int)
    (dat : Option Chain) : (sendPkt env c flags len dat).1.sendErased = c.sendErased := by
  unfold sendPkt
  split <;> rfl

theorem sendErased_sndCopy (env : Env) (c : Conn) (start fin : Seq) :
    (sndCopy env c start fin).1.sendErased = c.sendErased := by
  unfold sndCopy
  split
  · rfl
  split
  · rfl
  · split <;> rfl

theorem sendErased_addFin (plan : SendPlan) :
    plan.addFin.conn.sendErased = plan.conn.sendErased := rfl

theorem Tcb.sendErased_dataTcb (tp : Tcb) (last : Seq) :
    (dataTcb tp last).sendErased = tp.sendErased := by
  unfold dataTcb
  split
  · exact tp.sendErased_setTimer _ (by decide) (by decide)
  · rfl

theorem sendErased_dataPlan (env : Env) (c : Conn) (flags : Flags) (last : Seq) :
    (dataPlan env c flags last).conn.sendErased = c.sendErased :=
  (sendErased_sndCopy env (c.withTcb (dataTcb c.tcb last)) _ _).trans
    (sendErased_withTcb (Tcb.sendErased_dataTcb c.tcb last))

theorem sendErased_sendData (env : Env) (c : Conn) (flags : Flags) (last : Seq) :
    (sendData env c flags last).conn.sendErased = c.sendErased := by
  unfold sendData
  split
  · rw [sendErased_addFin, sendErased_dataPlan]
  · rw [sendErased_dataPlan]

theorem sendErased_sendPlan (env : Env) (c : Conn) :
    (sendPlan env c).conn.sendErased = c.sendErased := by
  unfold sendPlan
  dsimp only
  split
  · split <;> rfl
  split
  · exact sendErased_sendData env (c.withTcb (synTcb c.tcb)) _ _
  · rfl

theorem Tcb.sendErased_sendTimers (tp : Tcb) : (sendTimers tp).sendErased = tp.sendErased := by
  have first : Tcb.sendErased { tp.setTimer .trexmt tp.tXmtime with tRexmtVal := tp.sndLst } =
      tp.sendErased := tp.sendErased_setTimer _ (by decide) (by decide)
  unfold sendTimers
  dsimp only
  split
  · exact first
  · exact (Tcb.sendErased_setTimer _ tRexmttl (i := .trexmttl) (by decide) (by decide)).trans first

theorem Tcb.sendErased_sendMeasure (tp : Tcb) : (sendMeasure tp).sendErased = tp.sendErased := by
  unfold sendMeasure
  split
  · exact tp.sendErased_setTimer _ (by decide) (by decide)
  · rfl

theorem Tcb.sendErased_sendUpdate (tp : Tcb) (forced sent : Bool) :
    (sendUpdate tp forced sent).sendErased = tp.sendErased := by
  unfold sendUpdate
  change (sendMeasure _).sendErased = _
  rw [Tcb.sendErased_sendMeasure]
  cases forced <;> cases sent
  · exact tp.sendErased_sendTimers
  · exact tp.sendErased_sendTimers
  · rfl
  · rfl

theorem sendErased_sendAck (env : Env) (c : Conn) (call : Ctl) :
    (sendAck env c call).sendErased = c.sendErased := by
  unfold sendAck
  split
  · exact sendErased_sendPkt env c {} 0 none
  · rfl

theorem sendErased_sendPlanned (env : Env) (plan : SendPlan) :
    (sendPlanned env plan).1.sendErased = plan.conn.sendErased :=
  (sendErased_withTcb (Tcb.sendErased_sendUpdate _ _ _)).trans (sendErased_sendPkt _ _ _ _ _)

theorem sendErased_sendTcp (env : Env) (c : Conn) (call : Ctl) :
    (sendTcp env c call).1.sendErased = c.sendErased := by
  have planned := sendErased_sendPlan env c
  have sent := (sendErased_sendPlanned env (sendPlan env c)).trans planned
  unfold sendTcp
  dsimp only
  split
  · split
    · exact sent
    · exact (sendErased_sendAck _ _ _).trans sent
  · exact (sendErased_sendAck _ _ _).trans planned

/-! ### Receiving text -/

/-- A work entry for a segment. -/
def Work.isRecv : Work → Bool
  | .recv _ => true
  | _ => false

/-- The control block without what receiving text may change. -/
def Tcb.receiveErased (tp : Tcb) : Tcb :=
  { tp with
    tRcv := []
    tRcvUnack := []
    rcvUrp := 0
    rcvNxt := 0
    ackDue := false
    droppedTxt := false
    finRcvd := false
    netKeep := false }

/-- The connection without what receiving text may change. -/
def Conn.receiveErased (c : Conn) : Conn :=
  { c with
    tcb := c.tcb.receiveErased
    ucb := { c.ucb with ucRbuf := [], ucRsize := 0, ucState := 0 }
    work := c.work.filter fun w => !w.isRecv
    clock := 0 }

theorem receiveErased_withTcb {c : Conn} {tp : Tcb}
    (same : tp.receiveErased = c.tcb.receiveErased) :
    (c.withTcb tp).receiveErased = c.receiveErased := by
  unfold Conn.receiveErased Conn.withTcb
  rw [same]

theorem receiveErased_wAlloc (env : Env) (c : Conn) (t : Th) :
    (wAlloc env c (.recv t)).receiveErased = c.receiveErased := by
  unfold wAlloc
  dsimp only
  split
  · simp [Conn.receiveErased, Conn.tick, Work.isRecv]
  · rfl

theorem receiveErased_recycleUnack (env : Env) (held : List Th) (i : Int) (c : Conn) :
    (recycleUnack env held i c).receiveErased = c.receiveErased := by
  induction held generalizing i c with
  | nil => rfl
  | cons t rest inductionHypothesis =>
    rw [recycleUnack]
    split
    · rw [inductionHypothesis, receiveErased_wAlloc]
    · rfl

theorem receiveErased_rcvRecycle (env : Env) (c : Conn) :
    (rcvRecycle env c).receiveErased = c.receiveErased := by
  simp only [rcvRecycle]
  split
  · rfl
  split
  · split
    · rw [receiveErased_recycleUnack]
      rfl
    · rfl
  · rfl

theorem receiveErased_rcvSequence (env : Env) (c : Conn) (t : Th) (last : Seq) :
    (rcvSequence env c t last).1.receiveErased = c.receiveErased :=
  (receiveErased_rcvRecycle env _).trans (receiveErased_withTcb rfl)

theorem receiveErased_rcvText (env : Env) (c : Conn) (t : Th) :
    (rcvText env c t).1.receiveErased = c.receiveErased := by
  unfold rcvText
  split
  · rfl
  dsimp only
  split
  · split
    · split
      · rfl
      · rw [receiveErased_rcvSequence]
        rfl
    · rw [receiveErased_rcvSequence]
      rfl
  · rw [receiveErased_rcvSequence]

theorem receiveErased_rcvUrg (c : Conn) (n : Th) : (rcvUrg c n).receiveErased = c.receiveErased := by
  unfold rcvUrg
  dsimp only
  split
  · split <;> rfl
  · rfl

theorem receiveErased_rcvPush (c : Conn) (n : Th) :
    (rcvPush c n).receiveErased = c.receiveErased := by
  unfold rcvPush
  split <;> rfl

theorem receiveErased_rcvData (env : Env) (c : Conn) (n : Th) :
    (rcvData env c n).1.receiveErased = c.receiveErased := by
  unfold rcvData
  dsimp only
  rw [receiveErased_rcvPush, receiveErased_rcvUrg]
  split
  · rw [receiveErased_rcvText]
  · rfl

theorem receiveErased_rcvFin (env : Env) (c : Conn) (n : Th) :
    (rcvFin env c n).receiveErased = c.receiveErased := by
  unfold rcvFin
  split
  · split
    · rfl
    · dsimp only
      split <;> rfl
  · rfl

theorem receiveErased_presentData (c : Conn) :
    (presentData c).receiveErased = c.receiveErased := by
  unfold presentData
  split
  · dsimp only
    split <;> rfl
  · rfl

theorem receiveErased_tcpRead (c : Conn) (count : Nat) :
    (tcpRead c count).receiveErased = c.receiveErased := rfl

/-! ### What a segment never changes -/

/-- What neither sending nor receiving a segment changes. -/
structure Fixed where
  iss : Seq
  tState : TState
  usrAbort : Bool
  tLport : Port
  ucSnd : Nat
  ucRcv : Nat
  deleted : Bool
  released : Bool
deriving DecidableEq

/-- The fixed part of a connection. -/
def Conn.fixed (c : Conn) : Fixed where
  iss := c.tcb.iss
  tState := c.tcb.tState
  usrAbort := c.tcb.usrAbort
  tLport := c.tcb.tLport
  ucSnd := c.ucb.ucSnd
  ucRcv := c.ucb.ucRcv
  deleted := c.deleted
  released := c.released

theorem fixed_of_sendErased {c other : Conn} (same : other.sendErased = c.sendErased) :
    other.fixed = c.fixed :=
  (congrArg Conn.fixed same : other.sendErased.fixed = c.sendErased.fixed)

theorem fixed_of_receiveErased {c other : Conn} (same : other.receiveErased = c.receiveErased) :
    other.fixed = c.fixed :=
  (congrArg Conn.fixed same : other.receiveErased.fixed = c.receiveErased.fixed)

@[simp] theorem fixed_sendTcp (env : Env) (c : Conn) (call : Ctl) :
    (sendTcp env c call).1.fixed = c.fixed :=
  fixed_of_sendErased (sendErased_sendTcp env c call)

@[simp] theorem fixed_sendPkt (env : Env) (c : Conn) (flags : Flags) (len : Int)
    (dat : Option Chain) : (sendPkt env c flags len dat).1.fixed = c.fixed :=
  fixed_of_sendErased (sendErased_sendPkt env c flags len dat)

section

variable (c : Conn)
include c

@[simp] theorem fixed_presentData : (presentData c).fixed = c.fixed :=
  fixed_of_receiveErased (receiveErased_presentData c)

@[simp] theorem fixed_tCancel (i : Timer) : (tCancel c i).fixed = c.fixed := rfl

@[simp] theorem fixed_toUser (state : BitVec 16) : (toUser c state).fixed = c.fixed := rfl

theorem fixed_rcvSyn (n : Th) : (rcvSyn c n).fixed = c.fixed := by
  unfold rcvSyn
  split <;> rfl

theorem fixed_ackOpening : (ackOpening c).fixed = c.fixed := by
  unfold ackOpening
  split <;> rfl

theorem fixed_ackClosing : (ackClosing c).fixed = c.fixed := by
  unfold ackClosing
  split <;> rfl

theorem fixed_ackBuffer (len : Int) : (ackBuffer c len).fixed = c.fixed := rfl

theorem fixed_ackTimers : (ackTimers c).fixed = c.fixed := by
  have cancelled (c : Conn) : (c.withTcb { c.tcb with cancelled := true }).fixed = c.fixed := rfl
  unfold ackTimers
  dsimp only
  rw [cancelled, fixed_tCancel, fixed_tCancel]

theorem fixed_rcvAck (n : Th) : (rcvAck c n).fixed = c.fixed := by
  unfold rcvAck
  dsimp only
  rw [fixed_ackTimers, fixed_ackClosing, fixed_ackBuffer, fixed_ackOpening]
  rfl

theorem fixed_rcvAckno (n : Th) : (rcvAckno c n).fixed = c.fixed := by
  unfold rcvAckno
  split
  · exact fixed_rcvAck c n
  · rfl

theorem fixed_rcvWindow (n : Th) : (rcvWindow c n).fixed = c.fixed := by
  unfold rcvWindow
  split <;> rfl

theorem fixed_rcvHeader (n : Th) : (rcvHeader c n).fixed = c.fixed := by
  unfold rcvHeader
  dsimp only
  rw [fixed_rcvWindow, fixed_rcvAckno, fixed_rcvSyn]
  rfl

end

theorem fixed_rcvReply (env : Env) (c : Conn) : (rcvReply env c).1.fixed = c.fixed := by
  unfold rcvReply
  split
  · exact fixed_sendTcp env c .ctl
  split
  · exact fixed_sendTcp env c .data
  · rfl

theorem fixed_rcvTimers (c : Conn) (sent : Bool) :
    (c.withTcb (rcvTimers c.tcb sent)).fixed = c.fixed := by
  obtain ⟨iss, state, abort, port⟩ : (rcvTimers c.tcb sent).iss = c.tcb.iss ∧
      (rcvTimers c.tcb sent).tState = c.tcb.tState ∧
      (rcvTimers c.tcb sent).usrAbort = c.tcb.usrAbort ∧
      (rcvTimers c.tcb sent).tLport = c.tcb.tLport := by
    unfold rcvTimers
    split <;> exact ⟨rfl, rfl, rfl, rfl⟩
  unfold Conn.fixed
  rw [← iss, ← state, ← abort, ← port]
  rfl

@[simp] theorem fixed_rcvTcp (env : Env) (c : Conn) (n : Th) (call : Ctl) :
    (rcvTcp env c n call).fixed = c.fixed := by
  unfold rcvTcp
  dsimp only
  rw [fixed_rcvTimers, fixed_rcvReply, fixed_of_receiveErased (receiveErased_rcvFin _ _ _)]
  split
  · rw [fixed_of_receiveErased (receiveErased_rcvData _ _ _), fixed_rcvHeader]
  · exact fixed_rcvHeader c n

end NetworkUnix.Bbnnet
