/-
This file models the data of the TCP machine: sequence numbers and their
comparison, segments, the control block of a connection with its user block, the
work list, and the answers the rest of the kernel gives while the machine runs.
-/

import NetworkUnix.Lib.Serial
import NetworkUnix.Bbnnet.Mbuf
import NetworkUnix.Bbnnet.Net

namespace NetworkUnix.Bbnnet

/-! ### Sequence numbers -/

/-- A sequence number of TCP. -/
abbrev Seq := BitVec 32

/-- `SEQ_LT`: 32-bit modular comparison through the sign of the difference. -/
def seqLt (a b : Seq) : Prop := Serial.diff a b < 0

/-- `SEQ_LEQ`. -/
def seqLeq (a b : Seq) : Prop := Serial.diff a b ≤ 0

/-- `SEQ_GT`. -/
def seqGt (a b : Seq) : Prop := 0 < Serial.diff a b

/-- `SEQ_GEQ`. -/
def seqGeq (a b : Seq) : Prop := 0 ≤ Serial.diff a b

instance (a b : Seq) : Decidable (seqLt a b) := inferInstanceAs (Decidable (_ < _))
instance (a b : Seq) : Decidable (seqLeq a b) := inferInstanceAs (Decidable (_ ≤ _))
instance (a b : Seq) : Decidable (seqGt a b) := inferInstanceAs (Decidable (_ < _))
instance (a b : Seq) : Decidable (seqGeq a b) := inferInstanceAs (Decidable (_ ≤ _))

/-- `SEQ_MIN`. -/
def seqMin (a b : Seq) : Seq := if seqLt a b then a else b

/-- `SEQ_MAX`. -/
def seqMax (a b : Seq) : Seq := if seqGt a b then a else b

section Positions

variable (base : Seq) {p q : Int} (low : -2 ^ 31 ≤ p - q) (high : p - q < 2 ^ 31)
include low high

theorem diff_point : Serial.diff (Serial.point base p) (Serial.point base q) = p - q :=
  Serial.diff_point base p q (by omega) (by omega)

theorem seqLt_point : seqLt (Serial.point base p) (Serial.point base q) ↔ p < q := by
  rw [seqLt, diff_point base low high]
  omega

theorem seqLeq_point : seqLeq (Serial.point base p) (Serial.point base q) ↔ p ≤ q := by
  rw [seqLeq, diff_point base low high]
  omega

theorem seqGt_point : seqGt (Serial.point base p) (Serial.point base q) ↔ q < p := by
  rw [seqGt, diff_point base low high]
  omega

theorem seqGeq_point : seqGeq (Serial.point base p) (Serial.point base q) ↔ q ≤ p := by
  rw [seqGeq, diff_point base low high]
  omega

theorem point_eq_iff : Serial.point base p = Serial.point base q ↔ p = q :=
  ⟨fun equal => Serial.point_inj base equal (by omega) (by omega), fun equal => by rw [equal]⟩

end Positions

/-! ### Segments -/

/-- A port. -/
abbrev Port := BitVec 16

/-- The flag byte of a segment. -/
structure Flags where
  fin : Bool := false
  syn : Bool := false
  rst : Bool := false
  push : Bool := false
  ack : Bool := false
  urg : Bool := false
deriving DecidableEq

/-- A segment: its header after the bytes have been swapped, and the chain of mbufs it sits
in. `tMss` is the value of the maximum segment size option, when the header carries one. -/
structure Th where
  tS : Addr
  tD : Addr
  tSrc : Port
  tDst : Port
  tSeq : Seq
  tAckno : Seq
  tOff : Nat
  tFlags : Flags
  tWin : BitVec 16
  tUrp : BitVec 16
  tLen : Nat
  tMss : Option Nat
  mbufs : Chain

/-- Sequence number of the last byte of a segment. -/
def tEnd (t : Th) : Seq := t.tSeq + BitVec.ofNat 32 t.tLen - 1

/-- The segment without its first `count` bytes. -/
def Th.cutFront (t : Th) (count : Nat) : Th :=
  { t with tSeq := t.tSeq + BitVec.ofNat 32 count, tLen := t.tLen - count, mbufs := mAdj t.mbufs count }

/-- The segment without its last `count` bytes. -/
def Th.cutBack (t : Th) (count : Nat) : Th :=
  { t with tLen := t.tLen - count, mbufs := mAdj t.mbufs (-(count : Int)) }

/-! ### Connections -/

/-- The states of a connection. -/
inductive TState
  | closed | listen | synSent | synRcvd | lSynRcvd | estab | finW1 | finW2 | timeWait
  | closeWait | closing1 | closing2 | rcvWait
deriving DecidableEq

/-- The timers of a connection. -/
inductive Timer
  | txmt | tinit | trexmt | trexmttl | tpersist | tfinack
deriving DecidableEq

/-- The tcp control block. The sequencing queue and the unacked message queue are lists of
segments, first to last. -/
structure Tcb where
  tRcv : List Th
  tRcvUnack : List Th
  iss : Seq
  irs : Seq
  rcvUrp : Seq
  rcvNxt : Seq
  seqFin : Seq
  sndEnd : Seq
  sndUrp : Seq
  sndLst : Seq
  sndNxt : Seq
  sndUna : Seq
  sndWl : Seq
  sndHi : Seq
  tRexmtVal : Seq
  tRtlVal : Seq
  tXmtVal : Seq
  ackDue : Bool
  cancelled : Bool
  droppedTxt : Bool
  finRcvd : Bool
  forceOne : Bool
  newWindow : Bool
  rexmt : Bool
  sndFin : Bool
  sndRst : Bool
  sndUrg : Bool
  synAcked : Bool
  synRcvd : Bool
  usrClosed : Bool
  waited2Ml : Bool
  netKeep : Bool
  usrAbort : Bool
  sentZero : Bool
  sndWnd : BitVec 16
  tMaxseg : Int
  tLport : Port
  tFport : Port
  tState : TState
  tXmtime : Nat
  tTimers : Timer → Nat
  tRxtct : Nat

/-- The user connection block. `ucSsize` doubles as the open timeout `uc_timeo`, and `ucRoute`
is the index of the host entry of the route. -/
structure Ucb where
  ucHost : Addr
  ucLocal : Addr
  ucSrcif : Ifcb
  ucRoute : Option Nat
  ucSbuf : Chain
  ucRbuf : Chain
  ucSnd : Nat
  ucRcv : Nat
  ucSsize : Nat
  ucRsize : Nat
  ucState : BitVec 16
  uEol : Bool
  uUrg : Bool

/-- A work entry: the input to the machine with what it carries. -/
inductive Work
  | uopena
  | recv (t : Th)
  | uopenr
  | uclose
  | timer (i : Timer)
  | urecv
  | usend (dat : Chain)
  | uabort
  | nclear

/-- A packet `send_pkt` is asked for. `made` tells whether a buffer was found for its leader,
so that it was handed to the internet level. -/
structure Packet where
  made : Bool
  src : Addr
  dst : Addr
  sport : Port
  dport : Port
  seq : Seq
  ackno : Seq
  flags : Flags
  win : Nat
  urp : BitVec 16
  len : Int
  dat : Option Chain

/-- A connection: its control block, its user block, its entries on the work list, the
packets asked for, and how far the answers of the kernel have been consumed. After `t_close`
the control block is gone (`deleted`); when the user has closed too, so is the user block
(`released`). -/
structure Conn where
  tcb : Tcb
  ucb : Ucb
  work : List Work
  out : List Packet
  nIss : Seq
  clock : Nat
  deleted : Bool
  released : Bool

/-- The answers of the rest of the kernel, one for each time it is asked: whether `m_get`
finds a buffer, whether `ip_send` sends the packet and the route it finds, whether free buffers
are below or above the low mark, whether a work entry is free, the local interfaces, and the
words that are read where a header is expected on an empty sequencing queue. -/
structure Env where
  mGet : Nat → Bool
  ipSend : Nat → Bool
  ipRoute : Nat → Option Nat
  bufsLow : Nat → Bool
  bufsOver : Nat → Bool
  workFree : Nat → Bool
  ifcbs : Nat → List Ifcb
  strayEnd : Nat → Seq

/-- A kernel that is never short of anything, on a host with one interface. -/
def Env.calm (ifcb : Ifcb) : Env where
  mGet := fun _ => true
  ipSend := fun _ => true
  ipRoute := fun _ => none
  bufsLow := fun _ => false
  bufsOver := fun _ => true
  workFree := fun _ => true
  ifcbs := fun _ => [ifcb]
  strayEnd := fun _ => 0

namespace Conn

/-- Consume one answer of the kernel. -/
def tick (c : Conn) : Conn := { c with clock := c.clock + 1 }

/-- Change the control block. -/
def withTcb (c : Conn) (tcb : Tcb) : Conn := { c with tcb := tcb }

/-- Change the user block. -/
def withUcb (c : Conn) (ucb : Ucb) : Conn := { c with ucb := ucb }

/-- Enter a state. -/
def enter (c : Conn) (s : TState) : Conn := c.withTcb { c.tcb with tState := s }

@[simp] theorem enter_tState (c : Conn) (s : TState) : (c.enter s).tcb.tState = s := rfl

@[simp] theorem enter_deleted (c : Conn) (s : TState) : (c.enter s).deleted = c.deleted := rfl

end Conn

/-- Set one timer. -/
def Tcb.setTimer (tp : Tcb) (i : Timer) (value : Nat) : Tcb :=
  { tp with tTimers := fun j => if j = i then value else tp.tTimers j }

end NetworkUnix.Bbnnet
