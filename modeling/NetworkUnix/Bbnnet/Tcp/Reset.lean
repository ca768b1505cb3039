/-
This file proves what answering a bad ACK with a reset leaves of a half-open
connection. The addresses and the port a wildcard listener borrows come back;
the sequence number to send and the mark that the foreign SYN has been received
do not.
-/

import NetworkUnix.Bbnnet.Tcp.Input

namespace NetworkUnix.Bbnnet

/-! ### The protocol state of a connection -/

/-- The protocol state of a connection: sequence variables, addresses, ports, timers and the
state of the machine. -/
structure Protocol where
  iss : Seq
  sndUna : Seq
  sndNxt : Seq
  sndHi : Seq
  irs : Seq
  rcvNxt : Seq
  synRcvd : Bool
  synAcked : Bool
  ucHost : Addr
  ucLocal : Addr
  tLport : Port
  tFport : Port
  tTimers : Timer → Nat
  tState : TState

/-- The protocol state, read off the control block and the user block. -/
def Conn.protocol (c : Conn) : Protocol where
  iss := c.tcb.iss
  sndUna := c.tcb.sndUna
  sndNxt := c.tcb.sndNxt
  sndHi := c.tcb.sndHi
  irs := c.tcb.irs
  rcvNxt := c.tcb.rcvNxt
  synRcvd := c.tcb.synRcvd
  synAcked := c.tcb.synAcked
  ucHost := c.ucb.ucHost
  ucLocal := c.ucb.ucLocal
  tLport := c.tcb.tLport
  tFport := c.tcb.tFport
  tTimers := c.tcb.tTimers
  tState := c.tcb.tState

@[simp] theorem protocol_sendPkt (env : Env) (c : Conn) (flags : Flags) (len : Int)
    (dat : Option Chain) : (sendPkt env c flags len dat).1.protocol = c.protocol := by
  unfold sendPkt
  split <;> rfl

@[simp] theorem protocol_rstSend (env : Env) (c : Conn) :
    (rstSend env c).protocol = c.protocol :=
  protocol_sendPkt env c {} 0 none

theorem protocol_rstTcb (c : Conn) (n : Th) : (c.withTcb (rstTcb c.tcb n)).protocol =
    { c.protocol with
      sndNxt := if n.tFlags.ack then n.tAckno else c.tcb.sndNxt
      synRcvd := false } := rfl

theorem protocol_rstRestore (c sent : Conn) : (rstRestore c sent).protocol =
    { sent.protocol with
      tFport := c.tcb.tFport
      ucLocal := c.ucb.ucLocal
      ucHost := c.ucb.ucHost
      sndNxt := sent.protocol.iss } := rfl

theorem protocol_rstBorrow (c : Conn) (n : Th) : (rstBorrow c n).protocol =
    { c.protocol with tFport := n.tSrc, ucLocal := n.tD, ucHost := n.tS } := rfl

theorem protocol_sendRst (env : Env) (c : Conn) {n : Th} (noRst : n.tFlags.rst = false)
    (ack : n.tFlags.ack = true) : (sendRst env c n).protocol =
      { c.protocol with
        sndNxt := if wildcard c then c.tcb.iss else n.tAckno
        synRcvd := false } := by
  unfold sendRst
  rw [if_neg (by simp [noRst])]
  dsimp only
  split
  · rw [protocol_rstRestore, protocol_rstSend, protocol_rstBorrow, protocol_rstTcb]
    rfl
  · rw [protocol_rstSend, protocol_rstTcb, if_pos ack]

/-! ### A bad ACK on a half-open connection -/

/-- A half-open connection and a segment whose ACK is not acceptable, with no other reason to
close or to drop it. -/
structure BadAck (c : Conn) (n : Th) : Prop where
  state : c.tcb.tState = .synSent ∨ c.tcb.tState = .synRcvd ∨ c.tcb.tState = .lSynRcvd
  ack : n.tFlags.ack = true
  bad : ¬ ackOk c.tcb n
  only : c.tcb.tState ≠ .synSent → ¬ outside c n ∧ n.tFlags.rst = false ∧ n.tFlags.syn = false

theorem netprepr_badAck (env : Env) {c : Conn} {n : Th} (half : BadAck c n) :
    netprepr env c n = (sendRst env c n, .eat) := by
  obtain ⟨state, ack, bad, only⟩ := half
  have opened (received : c.tcb.tState = .synRcvd ∨ c.tcb.tState = .lSynRcvd) :
      netpreprOpen env c n = (sendRst env c n, .eat) := by
    obtain ⟨inside, noRst, noSyn⟩ := only (by rcases received with same | same <;> simp [same])
    simp [netpreprOpen, inside, noRst, noSyn, ack, bad, received]
  unfold netprepr
  rcases state with sent | received | listening
  · simp only [sent]
    rw [netpreprSynSent, if_pos ⟨ack, bad⟩]
  · simp only [received]
    exact opened (Or.inl received)
  · simp only [listening]
    exact opened (Or.inr listening)

/-- The segment is eaten, and the protocol state is as it was exactly when no reset is sent, or
the foreign SYN had not been received and `snd_nxt` was already where the reset leaves it. -/
theorem badAck_keeps_protocol_iff (env : Env) (c : Conn) (n : Th) (half : BadAck c n) :
    (netprepr env c n).2 = .eat ∧
      ((netprepr env c n).1.protocol = c.protocol ↔
        n.tFlags.rst = true ∨ (c.tcb.synRcvd = false ∧
          c.tcb.sndNxt = if wildcard c then c.tcb.iss else n.tAckno)) := by
  rw [netprepr_badAck env half]
  refine ⟨rfl, ?_⟩
  cases reset : n.tFlags.rst with
  | true =>
    rw [sendRst, if_pos reset]
    simp
  | false =>
    rw [protocol_sendRst env c reset half.ack]
    simp only [Conn.protocol, Protocol.mk.injEq, true_and, and_true, Bool.false_eq_true, false_or]
    constructor
    · rintro ⟨nxt, syn⟩
      exact ⟨syn.symm, nxt.symm⟩
    · rintro ⟨syn, nxt⟩
      exact ⟨nxt.symm, syn.symm⟩

/-- The connection of an active open after its SYN has been sent. -/
def synSentConn : Conn :=
  takeWork host2 (tcpopen activeOpen 100)

/-- A segment without text from port 23 of host 9 to port 1024 of host 2. -/
def bareSegment (flags : Flags) (seq ackno : Seq) : Th where
  tS := 9
  tD := 2
  tSrc := 23
  tDst := 1024
  tSeq := seq
  tAckno := ackno
  tOff := 5
  tFlags := flags
  tWin := 1000
  tUrp := 0
  tLen := 0
  tMss := none
  mbufs := []

/-- A segment with a bad ACK and a reset is eaten without an answer. -/
theorem badAck_keeps_protocol_iff_reset :
    (netprepr host2 synSentConn
      (bareSegment { ack := true, rst := true } 0 500)).1.protocol = synSentConn.protocol :=
  (badAck_keeps_protocol_iff host2 synSentConn
    (bareSegment { ack := true, rst := true } 0 500)
    ⟨Or.inl (by decide), rfl, by decide, fun other => absurd (by decide) other⟩).2.mpr (Or.inl rfl)

/-- In SYN_SENT the ACK 500 of a SYN sent at 100 moves `snd_nxt` from 101 to 500. -/
theorem badAck_moves_sndNxt :
    ¬ ∀ (env : Env) (c : Conn) (n : Th), BadAck c n →
      (netprepr env c n).1.protocol = c.protocol := by
  intro keeps
  have same := keeps host2 synSentConn
    (bareSegment { ack := true } 0 500)
    ⟨Or.inl (by decide), rfl, by decide, fun other => absurd (by decide) other⟩
  have moved : (500 : Seq) = 101 := congrArg Protocol.sndNxt same
  exact absurd moved (by decide)

end NetworkUnix.Bbnnet
