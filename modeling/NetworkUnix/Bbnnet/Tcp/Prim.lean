/-
This file models the primitives of the TCP machine: sending one segment, finding
the first empty spot of the receive buffer, the receive window, copying from the
send buffer, cancelling a timer, the timer update, telling the user about a
change of state, and the work list.
-/

import NetworkUnix.Bbnnet.Tcp.Types

namespace NetworkUnix.Bbnnet

/-! ### Constants -/

/-- Maximum size of the TCP and IP leader. -/
abbrev tcpipmax : Int := 80

/-- Initial maximum segment size. -/
abbrev tcpmaxsnd : Int := 496

/-- Length of the maximum segment size option. -/
abbrev tcpMaxsegOptlen : Int := 4

/-- Twice the maximum packet lifetime. -/
abbrev t2ml : Nat := 20

/-- Persist time. -/
abbrev tPers : Nat := 5

/-- Timeout of an open. -/
abbrev tInit : Nat := 30

/-- Base of the retransmission time. -/
abbrev tRexmt : Nat := 2

/-- Timeout of retransmission. -/
abbrev tRexmttl : Nat := 30

/-- Maximum retransmission time. -/
abbrev tRemax : Nat := 30

/-- Increment of the initial sequence number each second. -/
abbrev issincr : Nat := 128

/-- `TCP_CTL` and `TCP_DATA`: a control call or a data call. -/
inductive Ctl
  | ctl | data
deriving DecidableEq

/-- The states reported to the user. -/
abbrev uclosed : BitVec 16 := 0x000
abbrev uclserr : BitVec 16 := 0x001
abbrev uabort : BitVec 16 := 0x002
abbrev uintimo : BitVec 16 := 0x004
abbrev urxtimo : BitVec 16 := 0x008
abbrev ureset : BitVec 16 := 0x010
abbrev uurgent : BitVec 16 := 0x040
abbrev unrch : BitVec 16 := 0x080

/-! ### Receive buffer -/

/-- The end of the run of adjacent segments that starts with `p`. -/
def tEndRun (p : Th) : List Th → Seq
  | [] => tEnd p + 1
  | q :: rest => if tEnd p + 1 = q.tSeq then tEndRun q rest else tEnd p + 1

/-- Find the first empty spot in the receive buffer. -/
def firstempty (tp : Tcb) : Seq :=
  match tp.tRcv with
  | [] => tp.rcvNxt
  | p :: rest => if seqLt tp.rcvNxt p.tSeq then tp.rcvNxt else tEndRun p rest

/-- Reduce the receive window by the segments on the sequencing queue. -/
def rcvResourceLoop : Int → List Th → Int
  | i, [] => i
  | i, t :: rest => if 0 < i then rcvResourceLoop (i - t.tLen) rest else i

/-- Get the number of bytes of receive buffer available. -/
def rcvResource (c : Conn) : Nat :=
  (rcvResourceLoop (((c.ucb.ucRcv : Int) - c.ucb.ucRsize) * mlen) c.tcb.tRcv).toNat

/-- `rcv_empty`: nothing for the user to receive. The queue pointers are equal when the
sequencing queue is empty and also when it holds one segment. -/
def rcvEmpty (c : Conn) : Bool :=
  c.tcb.usrAbort || (c.ucb.ucRbuf.isEmpty && decide (c.tcb.tRcv.length ≤ 1))

/-! ### Sending -/

/-- The packet `send_pkt` builds. -/
def mkPacket (made : Bool) (c : Conn) (flags : Flags) (len : Int) (dat : Option Chain) :
    Packet where
  made := made
  src := c.ucb.ucLocal
  dst := c.ucb.ucHost
  sport := c.tcb.tLport
  dport := c.tcb.tFport
  seq := c.tcb.sndNxt
  ackno := c.tcb.rcvNxt
  flags := { flags with
    rst := flags.rst || c.tcb.sndRst
    syn := flags.syn && !c.tcb.sndRst
    urg := flags.urg || c.tcb.sndUrg
    ack := flags.ack || c.tcb.synRcvd }
  win := rcvResource c
  urp := (c.tcb.sndUrp - c.tcb.sndNxt).setWidth 16
  len := len - (if flags.fin then 1 else 0) + (if flags.syn then tcpMaxsegOptlen - 1 else 0)
  dat := dat

/-- Send a tcp segment. -/
def sendPkt (env : Env) (c : Conn) (flags : Flags) (len : Int) (dat : Option Chain) :
    Conn × Bool :=
  if env.mGet c.clock then
    ({ c with
        tcb := { c.tcb with sentZero := rcvResource c == 0 }
        ucb := { c.ucb with ucRoute := c.ucb.ucRoute <|> env.ipRoute (c.clock + 1) }
        out := c.out ++ [mkPacket true c flags len dat]
        clock := c.clock + 2 }, env.ipSend (c.clock + 1))
  else ({ c.tick with out := c.out ++ [mkPacket false c flags len dat] }, false)

/-- The copy loop of `snd_copy`: `src` is what remains of the send buffer, `done` and `n` are
the copy so far and its last mbuf, `off` is the sequence number copied up to. -/
def sndCopyLoop (env : Env) (fin : Seq) :
    Chain → Chain → Mbuf → Seq → Nat → Nat × Option Chain
  | src, done, n, off, clock =>
    if seqGt fin off then
      match src with
      | [] => (clock, none)
      | m :: rest =>
        let adj := mlen - n.mLen
        let len := if m.mLen ≤ adj then m.mLen else adj
        let n' := { n with
          mLen := n.mLen + len
          mDat := Memory.copy m.mDat m.mOff n.mDat (mhead + n.mLen) len }
        let off' := off + BitVec.ofNat 32 len
        if seqGt fin off' ∧ adj < m.mLen then
          if env.mGet clock then
            let part := m.mLen - adj
            let n'' := { Mbuf.fresh with
              mOff := mhead
              mLen := part
              mDat := Memory.copy m.mDat (m.mOff + adj) Mbuf.fresh.mDat mhead part }
            sndCopyLoop env fin rest (done ++ [n']) n'' (off' + BitVec.ofNat 32 part) (clock + 1)
          else (clock + 1, none)
        else sndCopyLoop env fin rest done n' off' clock
    else (clock, some (done ++ [n.cutBack (off - fin).toNat]))

/-- Find the mbuf of the send buffer to start copying at, and the sequence number it starts
at. -/
def sndCopyFind (start : Seq) : Seq → Chain → Seq × Chain
  | off, [] => (off, [])
  | off, m :: rest =>
    if seqGeq start (off + BitVec.ofNat 32 m.mLen) then
      sndCopyFind start (off + BitVec.ofNat 32 m.mLen) rest
    else (off, m :: rest)

/-- The sequence number of the first byte of the send buffer. -/
def sndBase (tp : Tcb) : Seq := if tp.synAcked then tp.sndUna else tp.sndUna + 1

/-- Copy an mbuf chain from the send buffer for sends. -/
def sndCopy (env : Env) (c : Conn) (start fin : Seq) : Conn × Option Chain :=
  if seqGeq start fin then (c, none)
  else
    match sndCopyFind start (sndBase c.tcb) c.ucb.ucSbuf with
    | (_, []) => (c, none)
    | (off, m :: rest) =>
      if env.mGet c.clock then
        let adj := Serial.diff start off
        let part := (((m.mLen : Int) - adj) % 256).toNat
        let n := { Mbuf.fresh with
          mOff := mhead
          mLen := part
          mDat := Memory.copy m.mDat ((m.mOff : Int) + adj).toNat Mbuf.fresh.mDat mhead part }
        let result := sndCopyLoop env fin rest [] n (start + BitVec.ofNat 32 part) (c.clock + 1)
        ({ c with clock := result.1 }, result.2)
      else (c.tick, none)

/-! ### Timers, the user and the work list -/

/-- Cancel a timer, with the timer entries already on the work list. -/
def tCancel (c : Conn) (i : Timer) : Conn :=
  { c with
    tcb := c.tcb.setTimer i 0
    work := c.work.filter fun w => match w with
      | .timer j => j ≠ i
      | _ => true }

/-- Tell the user process about a change of tcp state. -/
def toUser (c : Conn) (state : BitVec 16) : Conn :=
  { c with ucb := { c.ucb with ucState := c.ucb.ucState ||| state } }

/-- Allocate a work list entry. Without a free entry a timer is rescheduled a second later and
a request of the network is dropped; a request of the user waits for an entry. -/
def wAlloc (env : Env) (c : Conn) (w : Work) : Conn :=
  match w with
  | .timer i =>
    if env.workFree c.clock then { c.tick with work := c.work ++ [w] }
    else { c.tick with tcb := c.tcb.setTimer i (c.tcb.tTimers i + 1) }
  | .recv _ | .nclear =>
    if env.workFree c.clock then { c.tick with work := c.work ++ [w] } else c.tick
  | _ => { c with work := c.work ++ [w] }

/-- Count one timer down, and enter its event when it reaches zero. -/
def tcpTimeoOne (env : Env) (c : Conn) (i : Timer) : Conn :=
  if c.tcb.tTimers i = 0 then c
  else
    let c' := c.withTcb (c.tcb.setTimer i (c.tcb.tTimers i - 1))
    if c.tcb.tTimers i = 1 then wAlloc env c' (.timer i) else c'

/-- TCP timer update routine. -/
def tcpTimeo (env : Env) (c : Conn) : Conn :=
  let c' := [Timer.tinit, .trexmt, .trexmttl, .tpersist, .tfinack].foldl (tcpTimeoOne env) c
  { c' with
    tcb := c'.tcb.setTimer .txmt ((c'.tcb.tTimers .txmt + 1) % 256)
    nIss := c'.nIss + BitVec.ofNat 32 issincr }

end NetworkUnix.Bbnnet
