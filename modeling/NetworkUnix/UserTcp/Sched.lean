/-
This file puts the parts of the user-level TCP together: the commands of the user, the
retransmission by the main loop, and the step that the program takes on each event. A
connection is opened once; a segment may come and the port may be read at any time, but
`PsipOut` runs for a work block only, and a retransmission for a queued control block.
-/

import NetworkUnix.UserTcp.Datain
import NetworkUnix.UserTcp.Psipin

namespace NetworkUnix.UserTcp

/-- OOPEN: the fields that are set in a control block from the free list. -/
def openTcb (p : Params) (free : Tcb) (mode : Int) (foreign : Skt) (port : Int) : Tcb :=
  let window := short ((short (1024 * p.windNum)).tdiv p.windDenom)
  { free with
    state := .opened
    flags := {}
    tMode := mode
    dataHd := 0
    dataNxt := 0
    dataTl := 0
    tcpFlags := {}
    dataState := 0
    sndISN := 0
    leftSeq := 0
    sendSeq := 0
    maxSend := 0
    sndFSN := 0
    opn := foreign
    dst := foreign
    srcePort := port
    window := if p.rWindow < window then p.rWindow else window
    sndWindow := 1
    numRetran := 0 }

/-- A connection that is just opened; only the active mode has work for `PsipOut`. -/
def openConn (p : Params) (free : Tcb) (mode : Int) (foreign : Skt) (port : Int) : Conn where
  tcb := openTcb p free mode foreign port
  sendPort := []
  netOutHp := decide (mode = 0)
  queued := false
  partWr := false
  live := true
  recvPort := []
  netOut := []
  told := [.ack]
  written := []
  taken := []
  secur := 0
  owed := false
  established := false
  finIn := false

namespace Conn

/-! ### The user -/

/-- The user's library writes the control message of `TcpSend`. -/
def control (c : Conn) (secur flags : Byte) (count : BitVec 16) : Conn :=
  { c with
    sendPort := portWrite c.sendPort [secur, flags, count.setWidth 8, (count >>> 8).setWidth 8]
    owed := true }

/-- The user's library writes the data message of `TcpSend`. -/
def text (c : Conn) (bytes : List Byte) : Conn :=
  { c with
    sendPort := portWrite c.sendPort bytes
    written := c.written ++ bytes
    owed := false }

/-- OCLOSE -/
def oclose (c : Conn) (finNum : Seq) : Conn :=
  match c.tcb.state with
  | .opened | .synsent => (c.enter .closed).tell .ack
  | .synrecd | .estab | .closewait =>
    { c with tcb := { c.tcb with
      flags := { c.tcb.flags with sendfin := true }
      sndFSN := c.tcb.sndISN + finNum + 1 } }.makeWrk.tell .ack
  | _ => c.tell .ack

/-- Abort -/
def abort (c : Conn) : Conn :=
  { c.unQTcb with netOutHp := false, live := false }.tell .ack

/-- OABORT -/
def oabort (c : Conn) : Conn :=
  match c.tcb.state with
  | .closed | .opened | .synsent => c.abort
  | _ =>
    { c with tcb := { c.tcb with
      tcpFlags := { c.tcb.tcpFlags with rst := true, ack := true }
      flags := { c.tcb.flags with abtconn := true } } }.makeWrk

/-- OURGENT -/
def ourgent (c : Conn) (byteNo : Seq) : Conn :=
  let t := { c.tcb with sndUrgNo := byteNo + c.tcb.sndISN + 1 }
  if ulCompare t.sndUrgNo t.leftSeq ≠ 1 then { c with tcb := t }
  else
    let c := { c with tcb := { t with flags := { t.flags with urgsend := true } } }
    if c.tcb.sending then c.makeWrk else c

/-! ### The main loop -/

/-- The retransmission timer: the pointers go back to the last acknowledged byte. -/
def retran (p : Params) (c : Conn) : Conn :=
  let t := c.tcb
  let count := (t.numRetran + 1).bmod (2 ^ 8)
  let slow := count = p.retCount
  let c := { c with tcb := { t with
    sendSeq := t.leftSeq
    dataNxt := t.dataHd
    numRetran := count
    flags := { t.flags with
      retranok := true
      slowretn := t.flags.slowretn || decide slow } } }
  let c := if slow then c.tell .procNotResp else c
  c.unQTcb.makeWrk

/-- What the scheduler does after `PsipOut`. -/
def afterOut (out : Conn × WorkRet) : Conn :=
  match out.2 with
  | .remove => { out.1 with netOutHp := false }
  | .keep | .requeue => out.1
  | .abort => out.1.abort

end Conn

/-- What can happen to a connection. -/
inductive Event
  | control (secur flags : Byte) (count : BitVec 16)
  | text (bytes : List Byte)
  | oclose (finNum : Seq)
  | oabort
  | ourgent (byteNo : Seq)
  | dataIn
  | psipOut (finish wrote : Wrote)
  | psipIn (seg : Segment) (cap : Int)
  | retran

/-- The effect of an event, if it can happen. -/
def act (p : Params) (c : Conn) (e : Event) : Option Conn :=
  if c.live then
    match e with
    | .control secur flags count => if c.owed then none else some (c.control secur flags count)
    | .text bytes => if c.owed then some (c.text bytes) else none
    | .oclose finNum => some (c.oclose finNum)
    | .oabort => some c.oabort
    | .ourgent byteNo => some (c.ourgent byteNo)
    | .dataIn => some (c.dataIn p)
    | .psipOut finish wrote =>
      if c.netOutHp then some (Conn.afterOut (c.psipOut p finish wrote)) else none
    | .psipIn seg cap => some (c.psipIn p seg cap)
    | .retran => if c.queued then some (c.retran p) else none
  else none

/-! ### A connection to try -/

/-- Parameters of a program without authorization. -/
def tryParams : Params where
  auth := false
  segData := 500
  rWindow := 1000
  windNum := 1
  windDenom := 1
  retCount := 20
  noRetran := false

def trySkt : Skt := ⟨10, 0, 1, 23⟩

/-- A control block from the free list. -/
def tryTcb : Tcb where
  state := .closed
  flags := {}
  tMode := 0
  scMaxOut := 0
  scMinOut := 0
  scMaxIn := 0
  scMinIn := 0
  atPrec := 0
  sndPrec := 0
  mnRcvPrec := 0
  mxRcvPrec := 0
  tccList := [0]
  opn := trySkt
  dst := trySkt
  srcePort := 0
  seqNo := 0
  ackNo := 0
  tcpFlags := {}
  window := 0
  urgentPtr := 0
  leftSeq := 0
  sendSeq := 0
  maxSend := 0
  dataHd := 0
  dataNxt := 0
  dataTl := 0
  sndWindow := 0
  numRetran := 0
  sndUrgNo := 0
  rcvUrgNo := 0
  dataState := 0
  dataLeft := 0
  sndISN := 0
  rcvISN := 0
  sndFSN := 0
  retranBuff := fun _ => 0
  flagBuff := fun _ => 0

/-- A connection that the user has opened in the active mode. -/
def tryConn : Conn := openConn tryParams tryTcb 0 trySkt 7

/-- A segment from the foreign socket. -/
def trySeg (seqNo ackNo : Seq) (control : Control) (text : List Byte) (window : BitVec 16)
    (fits : text.length ≤ tcpinsz := by decide) : Segment where
  source := trySkt
  destPort := 7
  seqNo
  ackNo
  control
  window
  urgentPtr := 0
  spt := none
  lead := 0
  text
  fits

end NetworkUnix.UserTcp
