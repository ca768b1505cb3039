/-
This file gives the data of the user-level TCP: the control block of a connection, the
segments that it receives and sends, and the ports that tie it to the user. One connection
is modelled, with its work block for `PsipOut` and its place on the retransmission queue;
times, statistics, the fault simulation and the traces are left out.
-/

import Mathlib.Algebra.GroupWithZero.Nat
import Mathlib.Logic.Function.Basic

namespace NetworkUnix.UserTcp

abbrev Byte := BitVec 8

/-- Sequence numbers, a `long` of the source. -/
abbrev Seq := BitVec 32

/-- RBUFFSIZE: the size of the ring buffers. -/
def rbuffsize : Nat := 257

/-- HDRLNGTH: the bytes of a port message header. -/
def hdrlngth : Nat := 8

/-- TCPINSZ: the size of the input buffer. -/
def tcpinsz : Nat := 700

/-- The value of an `int` after an assignment. -/
def short (value : Int) : Int := value.bmod (2 ^ 16)

/-- Unsigned long compare: 0 for equal, 1 for greater, 2 for less. -/
def ulCompare (a b : Seq) : Nat :=
  if a = b then 0
  else if (a - b).toInt < 0 then 2
  else 1

inductive ConnState
  | closed
  | opened
  | synrecd
  | synsent
  | estab
  | finwait
  | closewait
  | closing
  deriving DecidableEq, Repr

/-- The bits of `Flags`. -/
structure Flags where
  urgsend : Bool := false
  urgrecv : Bool := false
  slowretn : Bool := false
  sendfin : Bool := false
  abtconn : Bool := false
  nomoseg : Bool := false
  reject : Bool := false
  discdata : Bool := false
  hnoresp : Bool := false
  rtndata : Bool := false
  retranok : Bool := false
  deriving DecidableEq, Repr

/-- The control bits of `TCPFlags`. -/
structure Control where
  fin : Bool := false
  syn : Bool := false
  rst : Bool := false
  eol : Bool := false
  ack : Bool := false
  urg : Bool := false
  deriving DecidableEq, Repr

/-- Some control bit is set. -/
def Control.any (control : Control) : Bool :=
  control.fin || control.syn || control.rst || control.eol || control.ack || control.urg

/-- A foreign socket; zero stands for a part that is not specified. -/
structure Skt where
  net : Int
  hstH : Int
  hstL : Int
  port : Int
  deriving DecidableEq, Repr

/-- The control block. A ring buffer is a function of the index. -/
structure Tcb where
  state : ConnState
  flags : Flags
  tMode : Int
  scMaxOut : Int
  scMinOut : Int
  scMaxIn : Int
  scMinIn : Int
  atPrec : Int
  sndPrec : Int
  mnRcvPrec : Int
  mxRcvPrec : Int
  tccList : List Byte
  opn : Skt
  dst : Skt
  srcePort : Int
  seqNo : Seq
  ackNo : Seq
  tcpFlags : Control
  window : Int
  urgentPtr : BitVec 16
  leftSeq : Seq
  sendSeq : Seq
  maxSend : Seq
  dataHd : Int
  dataNxt : Int
  dataTl : Int
  sndWindow : Int
  numRetran : Int
  sndUrgNo : Seq
  rcvUrgNo : Seq
  dataState : BitVec 16
  dataLeft : Int
  sndISN : Seq
  rcvISN : Seq
  sndFSN : Seq
  retranBuff : Int → Byte
  flagBuff : Int → Byte

/-- The parameters of the program. -/
structure Params where
  auth : Bool
  segData : Int
  rWindow : Int
  windNum : Int
  windDenom : Int
  retCount : Int
  noRetran : Bool

/-- The bytes of the internet option for security, precedence and TCC. -/
structure Spt where
  level : Byte
  tcc : Byte
  deriving DecidableEq

/-- A segment that comes from the net; `lead` is the byte of the input buffer before the text. -/
structure Segment where
  source : Skt
  destPort : Int
  seqNo : Seq
  ackNo : Seq
  control : Control
  window : BitVec 16
  urgentPtr : BitVec 16
  spt : Option Spt
  lead : Byte
  text : List Byte
  fits : text.length ≤ tcpinsz := by decide

/-- A segment that is handed to `NetOut`. -/
structure Sent where
  dst : Skt
  seqNo : Seq
  ackNo : Seq
  control : Control
  window : Int
  urgentPtr : BitVec 16
  level : Byte
  tcc : Byte
  text : List Byte
  deriving DecidableEq

/-- A message in the port from the user: its text, and whether its header is still to be read. A
write of no bytes leaves no message. -/
structure PortMessage where
  header : Bool
  text : List Byte
  written : text ≠ []
  deriving DecidableEq

/-- What the user is told on his command port. -/
inductive Notice
  | change (state : ConnState)
  | ack
  | reject
  | reset
  | urgent (byteNo : Seq)
  | procNotResp
  | procResp
  | secErr (count : Int)
  | precChange (prec : Int)
  deriving DecidableEq

/-- A byte that was read from the send port, and the security level of its message. -/
structure Taken where
  byte : Byte
  secur : Byte
  deriving DecidableEq

/-- A connection: its control block; the messages in the port from the user; whether there is a
NETOUTHP work block for it, whether it is on the retransmission queue, whether a segment is still
partly unwritten, and whether it has not been aborted. The bytes written to the receive port, the
segments sent, latest first, and the notices given are kept whole. The last fields record what the
program itself does not: the bytes that the user wrote, those put into the ring since it was last
cleared, the level of the message being read, whether the user still owes the data of a message,
whether the connection was established, and whether a FIN was taken. -/
structure Conn where
  tcb : Tcb
  sendPort : List PortMessage
  netOutHp : Bool
  queued : Bool
  partWr : Bool
  live : Bool
  recvPort : List Byte
  netOut : List Sent
  told : List Notice
  written : List Byte
  taken : List Taken
  secur : Byte
  owed : Bool
  established : Bool
  finIn : Bool

/-- QTcb -/
def Conn.qTcb (p : Params) (c : Conn) : Conn :=
  { c with queued := if p.noRetran then c.queued else true }

/-- UnQTcb -/
def Conn.unQTcb (c : Conn) : Conn := { c with queued := false }

/-- MakeWrk with NETOUTHP -/
def Conn.makeWrk (c : Conn) : Conn := { c with netOutHp := true }

/-- A notice on the command port. -/
def Conn.tell (c : Conn) (notice : Notice) : Conn := { c with told := c.told ++ [notice] }

/-- The connection goes into a state and the user is told. -/
def Conn.enter (c : Conn) (state : ConnState) : Conn :=
  { c with
    tcb := { c.tcb with state }
    told := c.told ++ [.change state]
    established := c.established || decide (state = .estab) }

end NetworkUnix.UserTcp
