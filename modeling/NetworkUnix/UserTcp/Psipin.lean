/-
This file models `PsipIn`, which takes a segment from the net: it finds the connection,
checks the acknowledgement, acts on a reset, notes the window, and then goes by the state,
which begins a connection on a SYN or writes the text that is next in sequence to the
user. The stop table, the options other than SPT and the reset that answers a segment for
no connection are left out, as they do not touch a control block.
-/

import NetworkUnix.UserTcp.Tcb

namespace NetworkUnix.UserTcp

namespace Segment

def synOn (seg : Segment) : Nat := seg.control.syn.toNat

def finOn (seg : Segment) : Nat := seg.control.fin.toNat

/-- The sequence numbers that the segment takes. -/
def pktLength (seg : Segment) : Nat := seg.text.length + seg.synOn + seg.finOn

def inSec (seg : Segment) : Int :=
  match seg.spt with
  | some spt => ((spt.level &&& 0o17).toNat : Int)
  | none => 0

def inPrec (seg : Segment) : Int :=
  match seg.spt with
  | some spt => ((spt.level >>> 4 &&& 0o17).toNat : Int)
  | none => 0

def inTcc (seg : Segment) : Byte :=
  match seg.spt with
  | some spt => spt.tcc
  | none => 0

end Segment

namespace Tcb

/-! ### The search for the connection -/

/-- The sockets of the segment are those of the connection, where they are specified. -/
def fits (t : Tcb) (seg : Segment) : Bool :=
  decide (t.tMode ≠ 2) && decide (t.srcePort = seg.destPort) &&
    if t.state ≠ .opened then decide (t.dst = seg.source)
    else
      (decide (t.dst.port = seg.source.port) || decide (t.dst.port = 0)) &&
      (decide (t.dst.net = seg.source.net) || decide (t.dst.net = 0)) &&
      (decide (t.dst.hstH = seg.source.hstH ∧ t.dst.hstL = seg.source.hstL) ||
        decide (t.dst.hstH = 0 ∧ t.dst.hstL = 0))

/-- The security, the precedence and the TCC of the segment are within the limits. -/
def sptFits (t : Tcb) (seg : Segment) : Bool :=
  seg.spt.isSome &&
    (decide (t.scMaxIn = -1) || decide (seg.inSec ≤ t.scMaxIn ∧ t.scMinIn ≤ seg.inSec)) &&
    decide (seg.inPrec ≤ t.mxRcvPrec ∧ t.mnRcvPrec ≤ seg.inPrec) &&
    t.tccList.contains seg.inTcc

/-- The connection takes the segment. -/
def found (p : Params) (t : Tcb) (seg : Segment) : Bool :=
  t.fits seg && (!p.auth || t.sptFits seg) && decide (t.state ≠ .closed)

/-! ### The acknowledgement -/

/-- LeftSeq < AckNo <= MaxSend -/
def ackRange (t : Tcb) (ack : Seq) : Bool :=
  decide (ulCompare t.leftSeq ack = 2 ∧ ulCompare ack t.maxSend ≠ 1)

/-- The index behind the acknowledged data, with SYN and FIN compensated by the state. -/
def ackedHd (t : Tcb) (ack : Seq) : Int :=
  let moved := short (t.dataHd + (ack - t.leftSeq).toInt)
  let passed :=
    match t.state with
    | .finwait | .closing | .closed => if ulCompare ack t.sndFSN = 1 then moved - 1 else moved
    | .synsent | .synrecd => if t.leftSeq = t.sndISN then moved - 1 else moved
    | _ => moved
  if (rbuffsize : Int) ≤ passed then passed - rbuffsize else passed

/-- The acknowledged data leaves the ring. -/
def ackData (t : Tcb) (ack : Seq) : Tcb :=
  let ahead := ulCompare ack t.sendSeq = 1
  { t with
    dataHd := t.ackedHd ack
    leftSeq := ack
    sendSeq := if ahead then ack else t.sendSeq
    dataNxt := if ahead then t.ackedHd ack else t.dataNxt
    flags := { t.flags with
      urgsend := t.flags.urgsend && decide (ulCompare ack t.sndUrgNo = 2) } }

/-! ### Precedence and security -/

/-- The send precedence is raised towards that of the segment. -/
def boosted (p : Params) (t : Tcb) (seg : Segment) : Int :=
  if p.auth && decide (t.sndPrec < seg.inPrec) then
    if seg.inPrec ≤ t.atPrec then seg.inPrec
    else if t.sndPrec < t.atPrec then t.atPrec
    else t.sndPrec
  else t.sndPrec

/-! ### Data from the net -/

/-- The receive window for a capacity of the receive port. -/
def recvWindow (p : Params) (cap : Int) : Int :=
  let window := short ((short (cap * p.windNum)).tdiv p.windDenom) - hdrlngth
  let window := if p.rWindow < window then p.rWindow else window
  if window < 0 then 0 else window

/-- AckNo <= SeqNo + PktLength - 1 < AckNo + Window -/
def inSequence (t : Tcb) (seg : Segment) (window : Int) : Bool :=
  let last := seg.seqNo + BitVec.ofNat 32 seg.pktLength - 1
  decide (ulCompare t.ackNo last ≠ 1 ∧ ulCompare last (t.ackNo + BitVec.ofInt 32 window) = 2)

/-- The number of data bytes that are next in sequence. -/
def byteCnt (t : Tcb) (seg : Segment) : Int :=
  short (seg.text.length + seg.synOn - (t.ackNo - seg.seqNo).toInt)

/-- The last bytes of the text. -/
def octets (seg : Segment) (count : Int) : List Byte :=
  (seg.lead :: seg.text).drop (seg.text.length + 1 - count).toNat

end Tcb

namespace Conn

/-! ### The acknowledgement -/

/-- AckNo = MaxSend: there is nothing left to retransmit. -/
def allAcked (c : Conn) (ack : Seq) : Conn :=
  if ack = c.tcb.maxSend then
    if c.tcb.state = .closing then c.unQTcb.enter .closed else c.unQTcb
  else c

/-- The receive precedence is bound to that of the segment. -/
def bindPrec (c : Conn) (seg : Segment) : Conn :=
  { c with tcb := { c.tcb with mxRcvPrec := seg.inPrec, mnRcvPrec := seg.inPrec } }

/-- SYNRECD goes into the established state. -/
def ackEstab (c : Conn) (seg : Segment) : Conn :=
  if c.tcb.state = .synrecd then (c.enter .estab).bindPrec seg else c

/-- The retransmissions are counted anew. -/
def countAnew (c : Conn) : Conn := { c with tcb := { c.tcb with numRetran := 0 } }

/-- The user is told that the foreign process is back. -/
def procBack (c : Conn) : Conn :=
  if c.tcb.flags.slowretn then
    { c with tcb := { c.tcb with flags := { c.tcb.flags with slowretn := false } } }.tell .procResp
  else c

/-- An acknowledgement in a segment that is no reset opens the way to `PsipOut`. -/
def ackWork (c : Conn) (seg : Segment) : Conn := (c.makeWrk.ackEstab seg).countAnew.procBack

/-- A good acknowledgement. -/
def goodAck (c : Conn) (seg : Segment) : Conn :=
  let acked := { c.allAcked seg.ackNo with tcb := (c.allAcked seg.ackNo).tcb.ackData seg.ackNo }
  if seg.control.rst then acked else acked.ackWork seg

/-- An acknowledgement out of range asks for a reset, while no connection is established. -/
def badAck (c : Conn) (seg : Segment) : Conn :=
  match c.tcb.state with
  | .opened | .synsent | .synrecd | .closed =>
    if seg.control.rst then c
    else
      { c with tcb := { c.tcb with
        seqNo := seg.ackNo
        ackNo := seg.seqNo + BitVec.ofNat 32 seg.pktLength
        tcpFlags := { c.tcb.tcpFlags with ack := true, rst := true } } }.makeWrk
  | _ => c

/-- The segment acknowledges something new. -/
def ackOk (c : Conn) (seg : Segment) : Bool :=
  seg.control.ack && c.tcb.ackRange seg.ackNo

/-- The check of the acknowledgement. -/
def ackIn (c : Conn) (seg : Segment) : Conn :=
  if seg.control.ack then
    if c.tcb.ackRange seg.ackNo then c.goodAck seg else c.badAck seg
  else c

/-! ### The reset -/

/-- The sequence numbers go back to the initial one. -/
def sequenceBack (t : Tcb) : Tcb :=
  { t with leftSeq := t.sndISN, sendSeq := t.sndISN, maxSend := t.sndISN }

/-- A reset is received. -/
def resetIn (p : Params) (c : Conn) : Conn :=
  match c.tcb.state with
  | .opened | .closed => c
  | .synsent =>
    let told := if c.tcb.flags.reject then c else c.tell .reject
    { told with
      tcb := sequenceBack { c.tcb with flags := { c.tcb.flags with reject := true } } }.qTcb p
  | .synrecd =>
    { c with
      tcb := sequenceBack { c.tcb with
        state := .opened, dst := c.tcb.opn, dataHd := 0, dataTl := 0, dataNxt := 0 }
      taken := [] }
  | _ =>
    ({ c with tcb := { c.tcb with flags := { c.tcb.flags with nomoseg := true } } }.unQTcb.tell
      .reset).enter .closed

/-! ### The states -/

/-- The window of the segment. -/
def windowIn (c : Conn) (seg : Segment) : Conn :=
  { c with tcb := { c.tcb with
    sndWindow := seg.window.toInt
    flags := { c.tcb.flags with
      rtndata := c.tcb.flags.rtndata && decide (seg.window.toInt ≤ 0) } } }

/-- The send precedence is raised and the user told. -/
def boostPrec (p : Params) (c : Conn) (seg : Segment) : Conn :=
  if c.tcb.boosted p seg = c.tcb.sndPrec then c
  else
    { c with tcb := { c.tcb with sndPrec := c.tcb.boosted p seg } }.tell
      (.precChange (c.tcb.boosted p seg))

/-- The security and the TCC of an unspecified connection are bound. -/
def bindSpt (p : Params) (c : Conn) (seg : Segment) : Conn :=
  if p.auth then
    { c with tcb := { c.tcb with
      scMaxOut := if c.tcb.scMaxOut = -1 then seg.inSec else c.tcb.scMaxOut
      scMinOut := if c.tcb.scMaxOut = -1 then seg.inSec else c.tcb.scMinOut
      tccList := [seg.inTcc] } }
  else c

/-- The foreign socket is that of the segment. -/
def bindSkt (c : Conn) (seg : Segment) : Conn :=
  { c with tcb := { c.tcb with dst := seg.source } }

/-- The SYN is to be acknowledged. -/
def ackSyn (c : Conn) (seg : Segment) : Conn :=
  { c with tcb := { c.tcb with
    tcpFlags := { c.tcb.tcpFlags with ack := true }
    ackNo := seg.seqNo + 1 } }

/-- The initial sequence number of the other side. -/
def noteISN (c : Conn) (seg : Segment) : Conn :=
  { c with tcb := { c.tcb with rcvISN := seg.seqNo } }

/-- A SYN in OPEN begins the three-way handshake. -/
def openIn (p : Params) (c : Conn) (seg : Segment) : Conn :=
  if seg.control.syn then
    (((((c.bindSkt seg).boostPrec p seg).bindSpt p seg).ackSyn seg).noteISN seg).makeWrk.enter
      .synrecd
  else c

/-- The state after a SYN in SYNSENT. -/
def synsentNext (c : Conn) (seg : Segment) (ackOk : Bool) : Conn :=
  if ackOk ∨ ulCompare c.tcb.leftSeq c.tcb.sndISN = 1 then (c.enter .estab).bindPrec seg
  else { c with tcb := { c.tcb with state := .synrecd } }

/-- A SYN in SYNSENT. -/
def synsentIn (p : Params) (c : Conn) (seg : Segment) (ackOk : Bool) : Conn :=
  if seg.control.syn then
    (((c.ackSyn seg).boostPrec p seg).synsentNext seg ackOk).makeWrk
  else c

/-- The urgent notice. -/
def urgentIn (c : Conn) (seg : Segment) : Conn :=
  let urgNo := seg.urgentPtr.setWidth 32 + seg.seqNo
  if (c.tcb.state = .estab ∨ c.tcb.state = .finwait) ∧ seg.control.urg ∧
      (c.tcb.flags.urgrecv = false ∨ c.tcb.rcvUrgNo ≠ urgNo) then
    { c with tcb := { c.tcb with
      rcvUrgNo := urgNo
      flags := { c.tcb.flags with urgrecv := true } } }.tell (.urgent (urgNo - c.tcb.rcvISN - 1))
  else c

/-- A FIN that is next in sequence is taken. -/
def finTaken (c : Conn) : Conn :=
  match c.tcb.state with
  | .estab => { c.enter .closewait with finIn := true }
  | .finwait =>
    if c.tcb.leftSeq = c.tcb.maxSend then { c.enter .closed with finIn := true }
    else { c with tcb := { c.tcb with state := .closing }, finIn := true }
  | _ => { c with finIn := true }

/-- The bytes next in sequence are written to the receive port. -/
def takeOctets (c : Conn) (seg : Segment) : Conn :=
  let count := c.tcb.byteCnt seg
  let left := c.tcb.window - (count + hdrlngth)
  { c with
    recvPort := if count = 0 then c.recvPort else c.recvPort ++ Tcb.octets seg count
    tcb := { c.tcb with
      window := if count = 0 then c.tcb.window else if left < 0 then 0 else left
      ackNo := seg.seqNo + BitVec.ofNat 32 seg.pktLength } }

/-- A segment that takes sequence numbers comes to an established connection. -/
def textIn (c : Conn) (seg : Segment) (cap : Int) : Conn :=
  if c.tcb.inSequence seg c.tcb.window && decide (ulCompare seg.seqNo c.tcb.ackNo ≠ 1) &&
      decide (hdrlngth + c.tcb.byteCnt seg ≤ cap) then
    if seg.control.fin then (c.takeOctets seg).finTaken else c.takeOctets seg
  else c

/-- The receive window is calculated. -/
def offer (p : Params) (c : Conn) (cap : Int) : Conn :=
  { c with tcb := { c.tcb with window := Tcb.recvWindow p cap } }

/-- An acknowledgement is to be sent. -/
def askAck (c : Conn) : Conn :=
  { c with tcb := { c.tcb with tcpFlags := { c.tcb.tcpFlags with ack := true } } }

/-- The established states. -/
def estabIn (p : Params) (c : Conn) (seg : Segment) (cap : Int) : Conn :=
  if 0 < seg.pktLength then (((c.urgentIn seg).offer p cap).textIn seg cap).askAck.makeWrk
  else c.urgentIn seg

/-- What the state makes of the segment. -/
def stateIn (p : Params) (c : Conn) (seg : Segment) (cap : Int) (ackOk : Bool) : Conn :=
  match c.tcb.state with
  | .opened => c.openIn p seg
  | .synrecd | .closed => c
  | .synsent => c.synsentIn p seg ackOk
  | .estab | .finwait | .closewait | .closing => c.estabIn p seg cap

/-- The flag for a dead foreign host is reset. -/
def hostBack (c : Conn) : Conn :=
  { c with tcb := { c.tcb with flags := { c.tcb.flags with hnoresp := false } } }

/-- A segment for the connection. -/
def receive (p : Params) (c : Conn) (seg : Segment) (cap : Int) : Conn :=
  if seg.control.rst then (c.hostBack.ackIn seg).resetIn p
  else ((c.hostBack.ackIn seg).windowIn seg).stateIn p seg cap (c.ackOk seg)

/-- PsipIn: `cap` is the space in the receive port. -/
def psipIn (p : Params) (c : Conn) (seg : Segment) (cap : Int) : Conn :=
  if c.tcb.found p seg then c.receive p seg cap else c

end Conn

end NetworkUnix.UserTcp
