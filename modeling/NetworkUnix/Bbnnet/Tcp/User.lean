/-
This file models what the user of a connection does to it: opening it, reading
from the receive buffer, and closing it.
-/

import NetworkUnix.Bbnnet.Tcp.Procs

namespace NetworkUnix.Bbnnet

/-- The control block `tcpopen` starts from: all zero. -/
def clearTcb : Tcb where
  tRcv := []
  tRcvUnack := []
  iss := 0
  irs := 0
  rcvUrp := 0
  rcvNxt := 0
  seqFin := 0
  sndEnd := 0
  sndUrp := 0
  sndLst := 0
  sndNxt := 0
  sndUna := 0
  sndWl := 0
  sndHi := 0
  tRexmtVal := 0
  tRtlVal := 0
  tXmtVal := 0
  ackDue := false
  cancelled := false
  droppedTxt := false
  finRcvd := false
  forceOne := false
  newWindow := false
  rexmt := false
  sndFin := false
  sndRst := false
  sndUrg := false
  synAcked := false
  synRcvd := false
  usrClosed := false
  waited2Ml := false
  netKeep := false
  usrAbort := false
  sentZero := false
  sndWnd := 0
  tMaxseg := 0
  tLport := 0
  tFport := 0
  tState := .closed
  tXmtime := 0
  tTimers := fun _ => 0
  tRxtct := 0

/-- The parameters of an open. `cLcon` is the local address given by the user, if any, and
`srcif` the interface that was picked for it. -/
structure OpenCon where
  mode : OpenMode
  cSbufs : Nat
  cRbufs : Nat
  cTimeo : Nat
  cLport : Port
  cFport : Port
  cFcon : Addr
  cLcon : Option Addr
  srcif : Ifcb

/-- The allocation of send or receive buffers: eight for each one asked for, from 8 to 64. -/
def allocBufs (asked : Nat) : Nat := if asked * 8 < 8 ∨ 64 < asked * 8 then 8 else asked * 8

theorem allocBufs_bounds (asked : Nat) : 8 ≤ allocBufs asked ∧ allocBufs asked ≤ 64 := by
  unfold allocBufs
  split <;> omega

/-- The user block of an open. Without a local address an active open uses the one of the
interface, and a passive open any. -/
def OpenCon.ucb (cp : OpenCon) : Ucb where
  ucHost := cp.cFcon
  ucLocal := match cp.cLcon with
    | some address => address
    | none => if cp.mode = .active then cp.srcif.ifAddr else 0
  ucSrcif := cp.srcif
  ucRoute := none
  ucSbuf := []
  ucRbuf := []
  ucSnd := allocBufs cp.cSbufs
  ucRcv := allocBufs cp.cRbufs
  ucSsize := cp.cTimeo
  ucRsize := 0
  ucState := 0
  uEol := false
  uUrg := false

/-- Open a connection: fill in the blocks and make an open work request. -/
def tcpopen (cp : OpenCon) (nIss : Seq) : Conn where
  tcb := { clearTcb with tLport := cp.cLport, tFport := cp.cFport }
  ucb := cp.ucb
  work := [if cp.mode = .active then .uopenr else .uopena]
  out := []
  nIss := nIss
  clock := 0
  deleted := false
  released := false

/-- A kernel on host 2. -/
abbrev host2 : Env := Env.calm ⟨2, true, 1500⟩

/-- An active open from port 1024 to port 23 of host 9. -/
def activeOpen : OpenCon where
  mode := .active
  cSbufs := 1
  cRbufs := 1
  cTimeo := 0
  cLport := 1024
  cFport := 23
  cFcon := 9
  cLcon := none
  srcif := ⟨2, true, 1500⟩

/-- Copy the data to the user an mbuf at a time, up to the end of a letter: what stays on the
receive buffer, and the count of its mbufs. -/
def readLoop : Nat → Chain → Nat → Chain × Nat
  | _, [], rsize => ([], rsize)
  | count, m :: rest, rsize =>
    if count = 0 then (m :: rest, rsize)
    else if m.mLen ≤ count then
      if m.mAct ≠ 0 then (rest, (rsize + 255) % 256)
      else readLoop (count - m.mLen) rest ((rsize + 255) % 256)
    else (m.cutFront count :: rest, rsize)

/-- Read from the receive buffer. -/
def tcpRead (c : Conn) (count : Nat) : Conn :=
  let left := readLoop count c.ucb.ucRbuf c.ucb.ucRsize
  c.withUcb { c.ucb with ucRbuf := left.1, ucRsize := left.2 }

/-- Close a connection: the user receives no more, and a close is requested unless one was. -/
def netclose (c : Conn) : Conn :=
  let c' := c.withTcb { c.tcb with usrAbort := true }
  if c.tcb.usrClosed then c' else { c' with work := c'.work ++ [.uclose] }

end NetworkUnix.Bbnnet
