/-
This file models the action routines of the TCP machine and the check of an
incoming segment before the machine sees it.
-/

import NetworkUnix.Bbnnet.Tcp.User

namespace NetworkUnix.Bbnnet

/-- What an action routine leaves: the connection and the new state, `none` for `SAME`. -/
abbrev Outcome := Conn × Option TState

/-- `ack_ok`: an acceptable ACK. -/
def ackOk (tp : Tcb) (n : Th) : Prop := seqLt tp.iss n.tAckno ∧ seqLeq n.tAckno tp.sndHi

/-- `ack_fin`: an ACK of the local FIN. -/
def ackFin (tp : Tcb) (n : Th) : Prop := seqGt tp.seqFin tp.iss ∧ seqGt n.tAckno tp.seqFin

instance (tp : Tcb) (n : Th) : Decidable (ackOk tp n) := inferInstanceAs (Decidable (_ ∧ _))
instance (tp : Tcb) (n : Th) : Decidable (ackFin tp n) := inferInstanceAs (Decidable (_ ∧ _))

/-- Start the FIN-ACK timer. -/
def startFinack (c : Conn) : Conn :=
  c.withTcb { c.tcb.setTimer .tfinack t2ml with waited2Ml := false }

/-! ### Requests of the user -/

/-- Passive open. -/
def lisCls (c : Conn) : Outcome := (tOpen c .passive, some .listen)

/-- Active open. -/
def sysCls (env : Env) (c : Conn) : Outcome := ((sendTcp env (tOpen c .active) .ctl).1, some .synSent)

/-- Close request before receiving a foreign SYN. -/
def clsOpn (c : Conn) : Outcome := (tClose c uclosed, some .closed)

/-- The user has closed: send our own FIN. -/
def sendFin (env : Env) (c : Conn) : Conn :=
  let c := (sendTcp env (c.withTcb { c.tcb with sndFin := true }) .ctl).1
  c.withTcb { c.tcb with usrClosed := true }

/-- Close request after receiving a foreign FIN. -/
def cl2Clw (env : Env) (c : Conn) : Outcome := (sendFin env c, some .closing2)

/-- Receive request after a foreign close. -/
def clsRwt (c : Conn) : Outcome :=
  let c := presentData c
  if rcvEmpty c then (tClose c uclosed, some .closed) else (c, some .rcvWait)

/-- Close request on a synchronized connection. -/
def fw1Syr (env : Env) (c : Conn) : Outcome := (sendFin env c, some .finW1)

/-- Append the data of one mbuf to another. -/
def appendMbuf (m n : Mbuf) : Mbuf :=
  { m with
    mLen := m.mLen + n.mLen
    mDat := Memory.copy n.mDat n.mOff m.mDat (m.mOff + m.mLen) n.mLen }

/-- While there is room in the old buffer for the next new one, consolidate: the old buffer,
the new ones that stay, and the number of those that are freed. -/
def consolidate : Mbuf → Chain → Mbuf × Chain × Nat
  | m, [] => (m, [], 0)
  | m, n :: rest =>
    if m.mOff + m.mLen + n.mLen ≤ msize then
      let result := consolidate (appendMbuf m n) rest
      (result.1, result.2.1, result.2.2 + 1)
    else (m, n :: rest, 0)

/-- Append new data to the send buffer; the second component counts the mbufs that are
freed. -/
def sndAppend (sbuf dat : Chain) : Chain × Nat :=
  match sbuf.getLast? with
  | none => (dat, 0)
  | some m =>
    let result := consolidate m dat
    (sbuf.dropLast ++ result.1 :: result.2.1, result.2.2)

/-- What the walk to the end of the send buffer adds up: the length of each buffer it moves to, and
once more that of the last one. -/
def sndWalk : Chain → Nat
  | [] => 0
  | [m] => m.mLen
  | _ :: m :: rest => m.mLen + sndWalk (m :: rest)

/-- Put new data on the send buffer, with the marks for PUSH and urgent data. -/
def sndQueue (c : Conn) (dat : Chain) : Conn :=
  let last := c.tcb.sndUna + BitVec.ofNat 32 (chainLen dat + sndWalk c.ucb.ucSbuf)
  let joined := sndAppend c.ucb.ucSbuf dat
  { c with
    ucb := { c.ucb with
      ucSbuf := joined.1
      ucSsize := (c.ucb.ucSsize + (dat.length - joined.2)) % 256 }
    tcb := { c.tcb with
      sndEnd := if c.ucb.uEol then last else c.tcb.sndEnd
      sndUrp := if c.ucb.uUrg then last + 1 else c.tcb.sndUrp
      sndUrg := c.tcb.sndUrg || c.ucb.uUrg } }

/-- Send request on an open connection. -/
def sssSnd (env : Env) (c : Conn) (dat : Chain) : Outcome :=
  ((sendTcp env (sndQueue c dat) .data).1, none)

/-- Receive request on an open connection: if the last window sent was zero, send an ACK. -/
def sssRcv (env : Env) (c : Conn) : Outcome :=
  let c := presentData c
  (if c.tcb.sentZero then (sendTcp env c .ctl).1 else c, none)

/-- Abort request on an unsynchronized connection. -/
def clsNsy (c : Conn) : Outcome := (tClose c uabort, some .closed)

/-- Abort request on a synchronized connection: send a reset. -/
def clsSyn (env : Env) (c : Conn) : Outcome :=
  let c := (sendPkt env (c.withTcb { c.tcb with sndRst := true }) {} 0 none).1
  (tClose (c.withTcb { c.tcb with ackDue := false }) uabort, some .closed)

/-- The network closes an open connection. -/
def clsAct (c : Conn) : Outcome := (tClose c uabort, some .closed)

/-- Invalid user request in the closing states. -/
def clsErr (c : Conn) : Outcome := (toUser c uclserr, none)

/-! ### Segments -/

/-- Duplicate segment while waiting. -/
def sssSyn (env : Env) (c : Conn) (n : Th) : Outcome := (presentData (rcvTcp env c n .data), none)

/-- Fill in the foreign address and port and the local address from a segment. -/
def lisBind (c : Conn) (n : Th) : Conn :=
  { c with
    tcb := { c.tcb with tFport := n.tSrc }
    ucb := { c.ucb with ucHost := n.tS, ucLocal := n.tD } }

/-- The interface to respond on. -/
def lisIfcb (ifcbs : List Ifcb) (n : Th) : Option Ifcb :=
  ifcbs.find? fun ip => ip.ifAddr = addr1822 n.tD ∧ ip.ifAvail

/-- Respond on an interface, with its segment size. -/
def lisSource (c : Conn) (ip : Ifcb) : Conn :=
  { c.tick with
    tcb := { c.tcb with tMaxseg := min (ip.ifMtu - tcpipmax) c.tcb.tMaxseg }
    ucb := { c.ucb with ucSrcif := ip } }

/-- Incoming segment in LISTEN. -/
def lisNetr (env : Env) (c : Conn) (n : Th) : Outcome :=
  let c := lisBind c n
  match lisIfcb (env.ifcbs c.clock) n with
  | none => (tClose c.tick unrch, some .closed)
  | some ip =>
    let c := rcvTcp env (lisSource c ip) n .data
    if c.tcb.finRcvd = false then (c.withTcb (c.tcb.setTimer .tinit (tInit / 2)), some .lSynRcvd)
    else (startFinack c, some .closeWait)

/-- Incoming segment after our SYN was sent. -/
def sysNetr (env : Env) (c : Conn) (n : Th) : Outcome :=
  let c := rcvTcp env c n .data
  if c.tcb.finRcvd then
    (if n.tFlags.ack then (if seqGt n.tAckno c.tcb.iss then presentData c else c)
      else startFinack c, some .closeWait)
  else if n.tFlags.ack then (presentData c, some .estab)
  else (c, some .synRcvd)

/-- Incoming segment after we closed and received the foreign FIN. -/
def cl1Netr (env : Env) (c : Conn) (n : Th) : Outcome :=
  if ackFin c.tcb n then
    if n.tFlags.fin then (startFinack (rcvTcp env c n .ctl), some .timeWait)
    else if c.tcb.waited2Ml then
      if rcvEmpty c then (tClose c uclosed, some .closed) else (c, some .rcvWait)
    else (c, some .timeWait)
  else if n.tFlags.fin then (startFinack (rcvTcp env c n .ctl), none)
  else (presentData (rcvTcp env c n .data), none)

/-- Incoming segment after the foreign close and ours. -/
def cl2Netr (env : Env) (c : Conn) (n : Th) : Outcome :=
  if ackFin c.tcb n then
    if rcvEmpty c then (tClose c uclosed, some .closed) else (c, some .rcvWait)
  else if n.tFlags.fin then ((sendTcp env c .ctl).1, none)
  else (presentData (rcvTcp env c n .data), none)

/-- Incoming segment after the user closed. -/
def fw1Netr (env : Env) (c : Conn) (n : Th) : Outcome :=
  let c := (sendTcp env (presentData (rcvTcp env c n .data)) .data).1
  if ackFin c.tcb n then
    if c.tcb.finRcvd then (startFinack c, some .timeWait) else (c, some .finW2)
  else if c.tcb.finRcvd then (startFinack c, some .closing1)
  else (c, none)

/-- Incoming segment after the SYN was received. -/
def syrNetr (env : Env) (c : Conn) (n : Th) : Outcome :=
  let c := presentData (rcvTcp env c n .data)
  (c, some (if c.tcb.finRcvd then .closeWait else .estab))

/-- Incoming segment on an open connection. -/
def estNetr (env : Env) (c : Conn) (n : Th) : Outcome :=
  let c := presentData (rcvTcp env c n .data)
  (c, if c.tcb.finRcvd then some .closeWait else none)

/-- Incoming segment while waiting for the foreign FIN. -/
def fw2Netr (env : Env) (c : Conn) (n : Th) : Outcome :=
  let c := presentData (rcvTcp env c n .data)
  if c.tcb.finRcvd then (startFinack c, some .timeWait) else (c, none)

/-- Incoming segment after the foreign FIN. -/
def cwtNetr (env : Env) (c : Conn) (n : Th) : Outcome :=
  if n.tFlags.fin then
    if n.tFlags.ack = true ∧ seqLeq n.tAckno c.tcb.seqFin then
      (startFinack (rcvTcp env c n .ctl), none)
    else ((sendTcp env c .ctl).1, none)
  else (presentData (rcvTcp env c n .data), none)

/-- Incoming segment while waiting for the user to receive. -/
def rwtNetr (env : Env) (c : Conn) (n : Th) : Outcome :=
  if n.tFlags.fin = true ∧ n.tFlags.ack = true ∧ seqLeq n.tAckno c.tcb.seqFin then
    (startFinack (rcvTcp env c n .ctl), none)
  else (c, none)

/-! ### Timers -/

/-- Set up for a retransmission, with a longer time for the next one. -/
def rexmtSetup (tp : Tcb) : Tcb :=
  { tp with
    sndNxt := tp.sndUna
    rexmt := true
    tRxtct := (tp.tRxtct + 1) % 256
    tXmtime := min (tp.tXmtime * 2 % 256) tRemax }

/-- Timer processor. -/
def timers (env : Env) (c : Conn) : Timer → Outcome
  | .txmt => (c, none)
  | .tinit => if c.tcb.synAcked then (c, none) else (tClose c uintimo, some .closed)
  | .tfinack =>
    if c.tcb.tState = .timeWait then
      if rcvEmpty c then (tClose c uclosed, some .closed) else (c, some .rcvWait)
    else if c.tcb.tState = .closing1 then (c.withTcb { c.tcb with waited2Ml := true }, none)
    else (c, none)
  | .trexmt =>
    if seqGt c.tcb.tRexmtVal c.tcb.sndUna then
      ((sendTcp env (c.withTcb (rexmtSetup c.tcb)) .data).1, none)
    else (c, none)
  | .trexmttl =>
    let c := if seqGt c.tcb.tRtlVal c.tcb.sndUna then toUser c urxtimo else c
    if c.tcb.usrClosed then (tClose c urxtimo, some .closed) else (c, none)
  | .tpersist => ((sendTcp env (c.withTcb { c.tcb with forceOne := true }) .data).1, none)

/-! ### The check before the machine -/

/-- What is decided about a segment: it is acceptable, it is eaten, or it is eaten and the
connection enters a state. -/
inductive Verdict
  | accept | eat | enter (s : TState)
deriving DecidableEq

/-- The sequence number does not fall in the window. -/
def outside (c : Conn) (n : Th) : Prop :=
  seqLt n.tSeq c.tcb.rcvNxt ∨ seqGt n.tSeq (c.tcb.rcvNxt + BitVec.ofNat 32 (rcvResource c))

instance (c : Conn) (n : Th) : Decidable (outside c n) := inferInstanceAs (Decidable (_ ∨ _))

/-- An acceptable reset of a half-open listener: back to LISTEN. -/
def relisten (c : Conn) : Conn :=
  let c := tCancel (tCancel (tCancel c .trexmt) .trexmttl) .tpersist
  c.withUcb { c.ucb with ucHost := 0, ucRoute := none }

/-- The check in LISTEN: ignore resets, ACKs cause resets, must have SYN. -/
def netpreprListen (env : Env) (c : Conn) (n : Th) : Conn × Verdict :=
  if n.tFlags.rst then (c, .eat)
  else if n.tFlags.ack then (sendRst env c n, .eat)
  else if n.tFlags.syn then (c, .accept)
  else (c, .eat)

/-- The check in SYN_SENT: bad ACKs cause resets, good resets close, must have SYN. -/
def netpreprSynSent (env : Env) (c : Conn) (n : Th) : Conn × Verdict :=
  if n.tFlags.ack = true ∧ ¬ ackOk c.tcb n then (sendRst env c n, .eat)
  else if n.tFlags.rst then
    if n.tFlags.ack then (tClose c ureset, .enter .closed) else (c, .eat)
  else if n.tFlags.syn then (c, .accept)
  else (c, .eat)

/-- The check in all other states: the sequence number must fall in the window, acceptable
resets close except in L_SYN_RCVD, no SYNs are allowed in the window, and the ACK must be
good. -/
def netpreprOpen (env : Env) (c : Conn) (n : Th) : Conn × Verdict :=
  if outside c n then ((sendTcp env c .ctl).1, .eat)
  else if n.tFlags.rst then
    if c.tcb.tState = .lSynRcvd then (relisten c, .enter .listen)
    else (tClose c ureset, .enter .closed)
  else if n.tFlags.syn then (tClose (sendRst env c n) ureset, .enter .closed)
  else if n.tFlags.ack then
    if ackOk c.tcb n then (c, .accept)
    else if c.tcb.tState = .synRcvd ∨ c.tcb.tState = .lSynRcvd then (sendRst env c n, .eat)
    else (c, .eat)
  else (c, .eat)

/-- Network preprocessor. -/
def netprepr (env : Env) (c : Conn) (n : Th) : Conn × Verdict :=
  match c.tcb.tState with
  | .listen => netpreprListen env c n
  | .synSent => netpreprSynSent env c n
  | _ => netpreprOpen env c n

end NetworkUnix.Bbnnet
