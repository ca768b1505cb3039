/-
This file models the procedures of the TCP machine: opening and deleting a
control block, sending what the window allows, processing an incoming segment
with its acknowledgement, text and FIN, sending a reset, and presenting data to
the user.
-/

import NetworkUnix.Bbnnet.Tcp.Prim

namespace NetworkUnix.Bbnnet

/-- `TCP_ACTIVE` and `TCP_PASSIVE`. -/
inductive OpenMode
  | active | passive
deriving DecidableEq

/-- Set up a control block for a connection. -/
def tOpen (c : Conn) (mode : OpenMode) : Conn :=
  let tp := { c.tcb with
    tRcv := []
    tXmtime := tRexmt
    tMaxseg := min (c.ucb.ucSrcif.ifMtu - tcpipmax) tcpmaxsnd
    iss := c.nIss
    sndUna := c.nIss
    sndHi := c.nIss
    sndNxt := c.nIss
    seqFin := c.nIss
    sndEnd := c.nIss }
  { c with
    tcb := tp.setTimer .tinit
      (if c.ucb.ucSsize ≠ 0 then c.ucb.ucSsize else if mode = .active then tInit else 0)
    ucb := { c.ucb with ucSsize := 0 }
    nIss := c.nIss + BitVec.ofNat 32 (issincr / 2 + 1) }

/-- Delete the control block and free all resources used by the connection. -/
def tClose (c : Conn) (state : BitVec 16) : Conn :=
  let c' := { c with
    tcb := { c.tcb with tTimers := fun i => if i = .txmt then c.tcb.tTimers i else 0, tRcvUnack := [] }
    ucb := { c.ucb with ucRbuf := [], ucSbuf := [], ucRoute := none }
    work := []
    deleted := true }
  if c.tcb.usrAbort then { c' with released := true } else toUser c' state

/-! ### `send_tcp` -/

/-- The sequence number just past the last byte of the send buffer. -/
def sndLast (c : Conn) : Seq := sndBase c.tcb + BitVec.ofNat 32 (chainLen c.ucb.ucSbuf)

/-- A FIN is to be sent: one is wanted, and none was sent or the last one is sent again. -/
def finDue (tp : Tcb) : Prop :=
  tp.sndFin = true ∧ (tp.seqFin = tp.iss ∨ seqLeq tp.sndNxt tp.seqFin)

instance (tp : Tcb) : Decidable (finDue tp) := inferInstanceAs (Decidable (_ ∧ _))

/-- What `send_tcp` has decided to put in a segment. -/
structure SendPlan where
  conn : Conn
  flags : Flags
  forced : Bool
  dat : Option Chain

/-- Take the FIN into the segment: it occupies the sequence number at `snd_lst`. -/
def SendPlan.addFin (plan : SendPlan) : SendPlan :=
  { plan with
    flags := { plan.flags with fin := true }
    conn := plan.conn.withTcb { plan.conn.tcb with
      seqFin := plan.conn.tcb.sndLst
      sndLst := plan.conn.tcb.sndLst + 1 } }

/-- The right edge of the send window. -/
def sndWind (tp : Tcb) : Seq := tp.sndUna + BitVec.signExtend 32 tp.sndWnd

/-- The last datum the window and the segment size let out. -/
def sndLimit (tp : Tcb) (last : Seq) : Seq :=
  let lst := seqMin last (sndWind tp)
  let len := Serial.diff lst tp.sndNxt
  if tp.tMaxseg < len then lst - BitVec.ofInt 32 (len - tp.tMaxseg) else lst

/-- One byte must be forced through a closed window. -/
def sndForced (tp : Tcb) (last : Seq) : Bool :=
  tp.forceOne && decide (sndLimit tp last = sndWind tp)

/-- The sequence number just past the data of the segment. -/
def sndStop (tp : Tcb) (last : Seq) : Seq :=
  if sndForced tp last then tp.sndNxt + 1 else sndLimit tp last

/-- PUSH is to be sent. -/
def sndPush (tp : Tcb) (last : Seq) : Bool :=
  decide (seqGt tp.sndEnd tp.iss ∧ seqLeq tp.sndEnd (sndLimit tp last))

/-- The control block with the end of the data noted, and the persist timer set if the window
is exceeded. -/
def dataTcb (tp : Tcb) (last : Seq) : Tcb :=
  { (if seqGeq (sndLimit tp last) (sndWind tp) then tp.setTimer .tpersist tPers else tp) with
    sndLst := sndStop tp last }

/-- The segment with its data from the send buffer. -/
def dataPlan (env : Env) (c : Conn) (flags : Flags) (last : Seq) : SendPlan :=
  let copied := sndCopy env (c.withTcb (dataTcb c.tcb last))
    (seqMax (c.tcb.iss + 1) c.tcb.sndNxt) (sndStop c.tcb last)
  { conn := copied.1
    flags := { flags with push := sndPush c.tcb last }
    forced := sndForced c.tcb last
    dat := copied.2 }

/-- The part of `send_tcp` that takes data from the send buffer, with the FIN if no more data
is left to send after it. -/
def sendData (env : Env) (c : Conn) (flags : Flags) (last : Seq) : SendPlan :=
  if sndForced c.tcb last = false ∧ sndStop c.tcb last = last ∧ finDue c.tcb then
    (dataPlan env c flags last).addFin
  else dataPlan env c flags last

/-- The control block with `snd_lst` past the SYN, if this is first data. -/
def synTcb (tp : Tcb) : Tcb :=
  { tp with sndLst := if tp.sndNxt = tp.iss then tp.sndNxt + 1 else tp.sndNxt }

/-- The first part of `send_tcp`: what to send, and up to which sequence number `snd_lst`. -/
def sendPlan (env : Env) (c : Conn) : SendPlan :=
  let flags : Flags := { syn := decide (c.tcb.sndNxt = c.tcb.iss) }
  let set := c.withTcb (synTcb c.tcb)
  let plan : SendPlan := { conn := set, flags := flags, forced := false, dat := none }
  if seqGeq c.tcb.sndNxt (sndLast c) then
    if finDue c.tcb then plan.addFin else plan
  else if c.tcb.synAcked then sendData env set flags (sndLast c)
  else plan

/-- Set the retransmission timers after a send. -/
def sendTimers (tp : Tcb) : Tcb :=
  let tp := { tp.setTimer .trexmt tp.tXmtime with tRexmtVal := tp.sndLst }
  if tp.rexmt then tp
  else { tp.setTimer .trexmttl tRexmttl with tRtlVal := tp.sndLst }

/-- Start timing this message if the last timed one has been acknowledged. -/
def sendMeasure (tp : Tcb) : Tcb :=
  if tp.synAcked = true ∧ seqGt tp.sndUna tp.tXmtVal then
    { tp.setTimer .txmt 0 with tXmtVal := tp.sndLst }
  else tp

/-- The variables a send leaves. -/
def sendDone (tp : Tcb) : Tcb :=
  { tp with
    ackDue := false
    sndHi := seqMax tp.sndNxt tp.sndHi
    rexmt := false
    forceOne := false }

/-- Update the control block after a send. -/
def sendUpdate (tp : Tcb) (forced sent : Bool) : Tcb :=
  let timed := if forced then tp else sendTimers tp
  sendDone (sendMeasure (if sent then { timed with sndNxt := timed.sndLst } else timed))

/-- The last part of `send_tcp`: a control call sends something so that the ACK gets
through. -/
def sendAck (env : Env) (c : Conn) (call : Ctl) : Conn :=
  if call = .ctl then
    let c := (sendPkt env c {} 0 none).1
    c.withTcb { c.tcb with ackDue := false }
  else c

/-- Send the segment that has been planned. -/
def sendPlanned (env : Env) (plan : SendPlan) : Conn × Bool :=
  let tp := plan.conn.tcb
  let result := sendPkt env plan.conn plan.flags (Serial.diff tp.sndLst tp.sndNxt) plan.dat
  (result.1.withTcb (sendUpdate result.1.tcb plan.forced result.2), result.2)

/-- Send a TCP segment: data from the left window edge of the send buffer up to the window
size or the end. -/
def sendTcp (env : Env) (c : Conn) (call : Ctl) : Conn × Bool :=
  let plan := sendPlan env c
  if seqLt plan.conn.tcb.sndNxt plan.conn.tcb.sndLst then
    let result := sendPlanned env plan
    if result.2 then (result.1, true) else (sendAck env result.1 call, false)
  else (sendAck env plan.conn call, false)

/-! ### `rcv_ack` -/

/-- Remove acknowledged data from the send buffer; the second component counts the mbufs that
are freed. -/
def dropAcked : Int → Chain → Chain × Nat
  | _, [] => ([], 0)
  | len, m :: rest =>
    if 0 < len then
      if (m.mLen : Int) ≤ len then
        let result := dropAcked (len - m.mLen) rest
        (result.1, result.2 + 1)
      else (m.cutFront len.toNat :: rest, 0)
    else (m :: rest, 0)

/-- The retransmission time taken from the time of a message that has been acknowledged. -/
def rcvXmtime (tp : Tcb) : Nat :=
  if tp.synAcked ∧ seqGt tp.sndUna tp.tXmtVal then
    min (if tRexmt < tp.tTimers .txmt then tp.tTimers .txmt else tRexmt) tRemax
  else tp.tXmtime

/-- The send variables moved up to the acknowledgement. -/
def ackMoved (tp : Tcb) (n : Th) : Tcb :=
  { tp with
    sndUna := n.tAckno
    sndNxt := if seqGt n.tAckno tp.sndNxt then n.tAckno else tp.sndNxt }

/-- The opening SYN is acknowledged for the first time. -/
def ackOpens (tp : Tcb) : Bool := !tp.synAcked && decide (seqGt tp.sndUna tp.iss)

/-- Handle the ACK of the opening SYN. -/
def ackOpening (c : Conn) : Conn :=
  if ackOpens c.tcb then tCancel (c.withTcb { c.tcb with synAcked := true }) .tinit else c

/-- Remove acknowledged data from the send buffer. -/
def ackBuffer (c : Conn) (len : Int) : Conn :=
  let left := dropAcked len c.ucb.ucSbuf
  c.withUcb { c.ucb with
    ucSbuf := left.1
    ucSsize := (c.ucb.ucSsize + 256 - left.2 % 256) % 256 }

/-- Handle the ACK of the closing FIN. -/
def ackClosing (c : Conn) : Conn :=
  if c.tcb.seqFin ≠ c.tcb.iss ∧ seqGt c.tcb.sndUna c.tcb.seqFin then
    c.withTcb { c.tcb with sndFin := false }
  else c

/-- Cancel the retransmission timers. -/
def ackTimers (c : Conn) : Conn :=
  let c := tCancel (tCancel c .trexmt) .trexmttl
  c.withTcb { c.tcb with cancelled := true }

/-- Process an incoming ACK: remove data from the send queue up to the acknowledgement. -/
def rcvAck (c : Conn) (n : Th) : Conn :=
  let len := Serial.diff n.tAckno c.tcb.sndUna
  let moved := ackMoved c.tcb n
  let timed := c.withTcb { moved with tXmtime := rcvXmtime moved }
  ackTimers (ackClosing (ackBuffer (ackOpening timed) (if ackOpens moved then len - 1 else len)))

/-! ### `rcv_text` -/

/-- Take segments from the bottom of the sequencing queue, given last to first, until there
are `j` buffers. -/
def takeBottom (j : Nat) : List Th → Nat → List Th × Nat
  | [], i => ([], i)
  | p :: rest, i => if i < j then takeBottom j rest (i + p.mbufs.length) else (p :: rest, i)

/-- Drop the text of a segment after its first `keep` mbufs. -/
def dropText (t : Th) (keep : Nat) : Th :=
  { t with
    tLen := t.tLen - chainLen (t.mbufs.drop keep)
    mbufs := t.mbufs.take keep ++ (t.mbufs.drop keep).map Mbuf.emptied }

/-- The segments the queue keeps when there are `i` buffers and the segment needs `j`: those
at the bottom are given up for a segment that precedes the top of the queue. -/
def giveUp (rcvNxt : Seq) (queue : List Th) (t : Th) (i j : Nat) : List Th × Nat :=
  match queue with
  | [] => (queue, i)
  | q :: _ =>
    if seqLt rcvNxt q.tSeq ∧ seqLt t.tSeq q.tSeq then
      let kept := takeBottom j queue.reverse i
      (kept.1.reverse, kept.2)
    else (queue, i)

/-- Cut a new segment against the successors of the place where it goes. -/
def rcvSuccessors (last : Seq) : List Th → Th → List Th × Th
  | [], t => ([], t)
  | q :: rest, t =>
    if t.tLen ≠ 0 ∧ seqLt q.tSeq last then
      if seqLeq (tEnd q) last then rcvSuccessors last rest t
      else
        let i := Serial.diff (last + 1) q.tSeq
        if i < t.tLen then (q :: rest, t.cutBack i.toNat) else (q :: rest, { t with tLen := 0 })
    else (q :: rest, t)

/-- Enqueue what is left of a new segment before its successors. -/
def rcvEnqueue (result : List Th × Th) : List Th × Th × Bool :=
  if result.2.tLen ≠ 0 then (result.2 :: result.1, result.2, true)
  else (result.1, result.2, false)

/-- Merge an incoming segment into the sequencing queue. The result is the queue, the segment
as it has been cut, and whether the segment is kept. -/
def rcvMerge (rcvNxt last : Seq) : List Th → Th → List Th × Th × Bool
  | [], t => if seqGeq last rcvNxt then ([t], t, true) else ([], t, false)
  | q :: rest, t =>
    if seqGt t.tSeq (tEnd q) then
      let result := rcvMerge rcvNxt last rest t
      (q :: result.1, result.2)
    else if seqLt last q.tSeq then (t :: q :: rest, t, true)
    else if seqLt last (tEnd q) then
      let i := Serial.diff (last + 1) q.tSeq
      if i < t.tLen then
        let t := t.cutBack i.toNat
        (t :: q :: rest, t, true)
      else (q :: rest, t, false)
    else if seqLeq t.tSeq q.tSeq then rcvEnqueue (rcvSuccessors last rest t)
    else
      let i := Serial.diff (tEnd q + 1) t.tSeq
      let t := if i < t.tLen then t.cutFront i.toNat else { t with tLen := 0 }
      let result := rcvEnqueue (rcvSuccessors last rest t)
      (q :: result.1, result.2)

/-- Move the header of a held segment out of its first mbuf. -/
def skipHeader (t : Th) : Th :=
  match t.mbufs with
  | [] => t
  | m :: rest => { t with mbufs := m.cutFront (t.tOff * 4 + 20) :: rest }

/-- Schedule held segments for later processing while there is room for them. -/
def recycleUnack (env : Env) : List Th → Int → Conn → Conn
  | [], _, c => c.withTcb { c.tcb with tRcvUnack := [] }
  | t :: rest, i, c =>
    if 0 < i then recycleUnack env rest (i - t.mbufs.length) (wAlloc env c (.recv (skipHeader t)))
    else c.withTcb { c.tcb with tRcvUnack := t :: rest }

/-- The last part of `rcv_text`: take messages that were held back, if there is room. -/
def rcvRecycle (env : Env) (c : Conn) : Conn :=
  let i := (c.ucb.ucRcv : Int) - c.ucb.ucRsize
  match c.tcb.tRcvUnack with
  | [] => c
  | held => if 0 < i then
      if env.bufsOver c.clock then recycleUnack env held i c.tick else c.tick
    else c

/-- The middle part of `rcv_text`: put what is left of the segment on the sequencing queue,
and set to ack completed data. -/
def rcvSequence (env : Env) (c : Conn) (t : Th) (last : Seq) : Conn × Th :=
  let merged := rcvMerge c.tcb.rcvNxt last c.tcb.tRcv t
  let tp := { c.tcb with tRcv := merged.1, netKeep := c.tcb.netKeep || merged.2.2 }
  (rcvRecycle env (c.withTcb { tp with rcvNxt := firstempty tp, ackDue := true }), merged.2.1)

/-- The segment without the data that has already been received, or `none` when nothing is
left of it. -/
def rcvTrim (rcvNxt : Seq) (t : Th) : Option Th :=
  let i := Serial.diff rcvNxt t.tSeq
  if 0 < i then
    if i < t.tLen then some (t.cutFront i.toNat) else none
  else some t

/-- The number of buffers of a segment that hold data. -/
def textBufs (t : Th) : Nat := t.mbufs.countP fun m => m.mLen ≠ 0

/-- What the shortage of buffers leaves: the sequencing queue, the segment, and whether text
was dropped from it. -/
def rcvShort (tp : Tcb) (t : Th) (i : Nat) : List Th × Th × Bool :=
  let kept := giveUp tp.rcvNxt tp.tRcv t i (textBufs t)
  if kept.2 < textBufs t then (kept.1, dropText t kept.2, true) else (kept.1, t, false)

/-- Process incoming data: put the segment on the sequencing queue in order, taking care of
overlaps and duplicates. The second component is the segment as it has been cut. -/
def rcvText (env : Env) (c : Conn) (t : Th) : Conn × Th :=
  match rcvTrim c.tcb.rcvNxt t with
  | none => (c.withTcb { c.tcb with ackDue := true }, t)
  | some t =>
    let i := c.ucb.ucRcv - c.ucb.ucRsize
    if i < textBufs t then
      if env.bufsLow c.clock then
        let short := rcvShort c.tcb t i
        let c := c.tick.withTcb { c.tcb with
          tRcv := short.1
          droppedTxt := c.tcb.droppedTxt || short.2.2 }
        if short.2.2 ∧ seqLt (tEnd short.2.1) short.2.1.tSeq then (c, short.2.1)
        else rcvSequence env c short.2.1 (tEnd short.2.1)
      else rcvSequence env c.tick t (tEnd t)
    else rcvSequence env c t (tEnd t)

/-! ### `rcv_tcp` -/

/-- Process the SYN of a segment. -/
def rcvSyn (c : Conn) (n : Th) : Conn :=
  if c.tcb.synRcvd = false ∧ n.tFlags.syn = true then
    c.withTcb { c.tcb with
      irs := n.tSeq
      rcvNxt := n.tSeq + 1
      sndWl := n.tSeq
      rcvUrp := n.tSeq
      synRcvd := true
      ackDue := true }
  else c

/-- Process the ACK of a segment if it is not a duplicate. -/
def rcvAckno (c : Conn) (n : Th) : Conn :=
  if n.tFlags.ack = true ∧ c.tcb.synRcvd = true ∧ seqGt n.tAckno c.tcb.sndUna then rcvAck c n
  else c

/-- Check for a new window. -/
def rcvWindow (c : Conn) (n : Th) : Conn :=
  if c.tcb.synRcvd = true ∧ seqGeq n.tSeq c.tcb.sndWl then
    tCancel (c.withTcb { c.tcb with sndWl := n.tSeq, sndWnd := n.tWin, newWindow := true }) .tpersist
  else c

/-- Process the urgent pointer: tell the user about the start of urgent data only. -/
def rcvUrg (c : Conn) (n : Th) : Conn :=
  let last := n.tUrp.setWidth 32 + n.tSeq
  if n.tFlags.urg = true ∧ seqLt c.tcb.rcvNxt last then
    let c := if seqLeq c.tcb.rcvUrp c.tcb.rcvNxt then toUser c uurgent else c
    c.withTcb { c.tcb with rcvUrp := last }
  else c

/-- Mark the last mbuf of a chain as the end of a letter. -/
def markEnd (m : Chain) : Chain :=
  match m.getLast? with
  | none => m
  | some n => m.dropLast ++ [{ n with mAct := n.mOff + n.mLen - 1 }]

/-- Mark the end of the last segment of the sequencing queue. -/
def markQueue (queue : List Th) : List Th :=
  match queue.getLast? with
  | none => queue
  | some t => queue.dropLast ++ [{ t with mbufs := markEnd t.mbufs }]

/-- Process a PUSH: mark the end of the data chain. -/
def rcvPush (c : Conn) (n : Th) : Conn :=
  if n.tFlags.push = true ∧ c.tcb.droppedTxt = false then
    c.withTcb { c.tcb with tRcv := markQueue c.tcb.tRcv }
  else c

/-- The part of `rcv_tcp` for data calls only. The second component is the segment as it has
been cut. -/
def rcvData (env : Env) (c : Conn) (n : Th) : Conn × Th :=
  let text := if n.tLen ≠ 0 then rcvText env c n else (c, n)
  (rcvPush (rcvUrg text.1 text.2) text.2, text.2)

/-- We really have the FIN: the receive buffer is filled in. The last segment of an empty queue
is the control block itself, whose words are read as a header. -/
def finFound (env : Env) (c : Conn) (n : Th) (last : Seq) : Bool :=
  match c.tcb.tRcv.getLast? with
  | none => decide (last = tEnd n + 1) || decide (last = env.strayEnd c.clock)
  | some t => decide (last = tEnd t)

/-- Process the FIN: check for duplicates and make sure all data is in. -/
def rcvFin (env : Env) (c : Conn) (n : Th) : Conn :=
  if n.tFlags.fin = true ∧ c.tcb.droppedTxt = false then
    if c.tcb.finRcvd then c.withTcb { c.tcb with ackDue := true }
    else
      let last := firstempty c.tcb
      let c := c.tick.withTcb { c.tcb with finRcvd := finFound env c n last }
      if c.tcb.finRcvd = true ∧ seqGeq c.tcb.rcvNxt last then
        c.withTcb { c.tcb with rcvNxt := last + 1, ackDue := true }
      else c
  else c

/-- If an ACK is required or the window has changed, try to send something. -/
def rcvReply (env : Env) (c : Conn) : Conn × Bool :=
  if c.tcb.ackDue then sendTcp env c .ctl
  else if c.tcb.newWindow then sendTcp env c .data
  else (c, false)

/-- Set the retransmission timers if nothing was sent and unacknowledged data is left. -/
def rcvTimers (tp : Tcb) (sent : Bool) : Tcb :=
  if sent = false ∧ seqLt tp.sndUna tp.sndNxt ∧ tp.cancelled = true then
    { (tp.setTimer .trexmt tp.tXmtime).setTimer .trexmttl tRexmttl with
      tRexmtVal := tp.sndLst
      tRtlVal := tp.sndLst
      cancelled := false }
  else tp

/-- The part of `rcv_tcp` that looks at the header: SYN, ACK and window. -/
def rcvHeader (c : Conn) (n : Th) : Conn :=
  let c := c.withTcb { c.tcb with droppedTxt := false, ackDue := false, newWindow := false }
  rcvWindow (rcvAckno (rcvSyn c n) n) n

/-- Process an incoming segment. -/
def rcvTcp (env : Env) (c : Conn) (n : Th) (call : Ctl) : Conn :=
  let c := rcvHeader c n
  let taken := if call = .data then rcvData env c n else (c, n)
  let reply := rcvReply env (rcvFin env taken.1 taken.2)
  reply.1.withTcb (rcvTimers reply.1.tcb reply.2)

/-! ### `send_rst` -/

/-- The connection is a listener for any address or port. -/
def wildcard (c : Conn) : Prop := c.ucb.ucLocal = 0 ∨ c.ucb.ucHost = 0 ∨ c.tcb.tFport = 0

instance (c : Conn) : Decidable (wildcard c) := inferInstanceAs (Decidable (_ ∨ _ ∨ _))

/-- The control block as `send_rst` sets it up for the reset. -/
def rstTcb (tp : Tcb) (n : Th) : Tcb :=
  { tp with
    sndRst := true
    sndNxt := if n.tFlags.ack then n.tAckno else tp.sndNxt
    synRcvd := false }

/-- A wildcard listener takes the addresses and the port from the incoming packet. -/
def rstBorrow (c : Conn) (n : Th) : Conn :=
  { c with
    tcb := { c.tcb with tFport := n.tSrc }
    ucb := { c.ucb with ucLocal := n.tD, ucHost := n.tS } }

/-- A wildcard listener gets its own addresses and port back. -/
def rstRestore (c sent : Conn) : Conn :=
  { sent with
    tcb := { sent.tcb with tFport := c.tcb.tFport, sndNxt := sent.tcb.iss }
    ucb := { sent.ucb with ucLocal := c.ucb.ucLocal, ucHost := c.ucb.ucHost, ucRoute := none } }

/-- Send the reset that has been set up. -/
def rstSend (env : Env) (c : Conn) : Conn :=
  let sent := (sendPkt env c {} 0 none).1
  sent.withTcb { sent.tcb with ackDue := false, sndRst := false }

/-- Send a reset segment. -/
def sendRst (env : Env) (c : Conn) (n : Th) : Conn :=
  if n.tFlags.rst then c
  else
    let set := c.withTcb (rstTcb c.tcb n)
    if wildcard c then rstRestore c (rstSend env (rstBorrow set n)) else rstSend env set

/-! ### `present_data` -/

/-- The mbufs of a message chunk without the null ones. -/
def chunk (m : Chain) : Chain := m.filter fun n => n.mLen ≠ 0

/-- Move as many segments as possible to the user: what stays on the sequencing queue, the
receive buffer, and the count of its mbufs. -/
def presentLoop (ready : Seq) (rcv : Nat) : List Th → Chain → Nat → List Th × Chain × Nat
  | [], rbuf, rsize => ([], rbuf, rsize)
  | t :: rest, rbuf, rsize =>
    if rsize < rcv ∧ seqLt (tEnd t) ready then
      presentLoop ready rcv rest (rbuf ++ chunk t.mbufs) ((rsize + (chunk t.mbufs).length) % 256)
    else (t :: rest, rbuf, rsize)

/-- Accept data for the user to receive. -/
def presentData (c : Conn) : Conn :=
  if c.tcb.synAcked = true ∧ c.tcb.tRcv ≠ [] then
    let moved := presentLoop (firstempty c.tcb) c.ucb.ucRcv c.tcb.tRcv c.ucb.ucRbuf c.ucb.ucRsize
    let c : Conn := { c with
      tcb := { c.tcb with tRcv := moved.1 }
      ucb := { c.ucb with ucRbuf := moved.2.1, ucRsize := moved.2.2 } }
    if c.tcb.finRcvd = true ∧ c.tcb.usrClosed = false ∧ rcvEmpty c = true then toUser c uclosed
    else c
  else c

end NetworkUnix.Bbnnet
