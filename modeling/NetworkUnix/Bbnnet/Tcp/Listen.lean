/-
This file proves what a listener is worth that has gone back to LISTEN. Until the
handshake is over nothing has been received, so only a few fields carry anything
from an aborted handshake into the next one: the foreign port, the local address,
the mark of the foreign SYN, the next sequence number, and the open timer.
-/

import NetworkUnix.Bbnnet.Tcp.Fsm
import NetworkUnix.Bbnnet.Tcp.Reset
import NetworkUnix.Bbnnet.Tcp.Sending

namespace NetworkUnix.Bbnnet

/-! ### Before the handshake is over -/

variable {lport : Port}

/-- The states of a passive open before its SYN has been acknowledged. -/
def TState.early : TState → Bool
  | .closed | .listen | .lSynRcvd => true
  | _ => false

/-- Nothing has been acknowledged, received or held back on a local port. -/
structure Quiet (lport : Port) (c : Conn) : Prop where
  lport : c.tcb.tLport = lport
  synAcked : c.tcb.synAcked = false
  sndRst : c.tcb.sndRst = false
  unack : c.tcb.tRcvUnack = []
  rbuf : c.ucb.ucRbuf = []
  rsize : c.ucb.ucRsize = 0
  room : 0 < c.ucb.ucRcv
  work : ∀ t, Work.recv t ∉ c.work

/-- What `Quiet` speaks of. -/
structure Held where
  lport : Port
  synAcked : Bool
  sndRst : Bool
  unack : List Th
  rbuf : Chain
  rsize : Nat
  room : Nat
  work : List Work

/-- What `Quiet` speaks of, read off a connection. -/
def Conn.held (c : Conn) : Held where
  lport := c.tcb.tLport
  synAcked := c.tcb.synAcked
  sndRst := c.tcb.sndRst
  unack := c.tcb.tRcvUnack
  rbuf := c.ucb.ucRbuf
  rsize := c.ucb.ucRsize
  room := c.ucb.ucRcv
  work := c.work.filter Work.isRecv

theorem quiet_of_work {c other : Conn} (quiet : Quiet lport c)
    (same : { other.held with work := [] } = { c.held with work := [] })
    (work : ∀ w ∈ other.work, w.isRecv = true → w ∈ c.work) : Quiet lport other where
  lport := (congrArg Held.lport same).trans quiet.lport
  synAcked := (congrArg Held.synAcked same).trans quiet.synAcked
  sndRst := (congrArg Held.sndRst same).trans quiet.sndRst
  unack := (congrArg Held.unack same).trans quiet.unack
  rbuf := (congrArg Held.rbuf same).trans quiet.rbuf
  rsize := (congrArg Held.rsize same).trans quiet.rsize
  room := lt_of_lt_of_eq quiet.room (congrArg Held.room same).symm
  work := fun t inside => quiet.work t (work _ inside rfl)

theorem quiet_of_held {c other : Conn} (quiet : Quiet lport c) (same : other.held = c.held) :
    Quiet lport other := by
  refine quiet_of_work quiet (by rw [same]) fun w inside isRecv => ?_
  have work : other.work.filter Work.isRecv = c.work.filter Work.isRecv := congrArg Held.work same
  have kept := List.mem_filter.mpr ⟨inside, isRecv⟩
  rw [work] at kept
  exact List.mem_of_mem_filter kept

theorem held_of_sendErased {c other : Conn} (same : other.sendErased = c.sendErased) :
    other.held = c.held :=
  (congrArg Conn.held same : other.sendErased.held = c.sendErased.held)

theorem quiet_sendTcp {c : Conn} (quiet : Quiet lport c) (env : Env) (call : Ctl) :
    Quiet lport (sendTcp env c call).1 :=
  quiet_of_held quiet (held_of_sendErased (sendErased_sendTcp env c call))

theorem quiet_tCancel {c : Conn} (quiet : Quiet lport c) (i : Timer) : Quiet lport (tCancel c i) :=
  ⟨quiet.lport, quiet.synAcked, quiet.sndRst, quiet.unack, quiet.rbuf, quiet.rsize, quiet.room,
    fun t inside => quiet.work t (List.mem_of_mem_filter inside)⟩

theorem held_rstSend (env : Env) (c : Conn) :
    (rstSend env c).held = { c.held with sndRst := false } := by
  have same : (sendPkt env c {} 0 none).1.held = c.held :=
    held_of_sendErased (sendErased_sendPkt env c {} 0 none)
  have done (c : Conn) : (c.withTcb { c.tcb with ackDue := false, sndRst := false }).held =
      { c.held with sndRst := false } := rfl
  unfold rstSend
  dsimp only
  rw [done, same]

theorem quiet_sendRst {c : Conn} (quiet : Quiet lport c) (env : Env) (n : Th) :
    Quiet lport (sendRst env c n) := by
  have cleared : ({ c.held with sndRst := false } : Held) = c.held :=
    congrArg (fun mark => ({ c.held with sndRst := mark } : Held)) quiet.sndRst.symm
  have set : (c.withTcb (rstTcb c.tcb n)).held = { c.held with sndRst := true } := rfl
  have borrowed (c : Conn) : (rstBorrow c n).held = c.held := rfl
  have restored (c other : Conn) : (rstRestore c other).held = other.held := rfl
  refine quiet_of_held quiet ?_
  unfold sendRst
  split
  · rfl
  dsimp only
  split
  · rw [restored, held_rstSend, borrowed, set]
    exact cleared
  · rw [held_rstSend, set]
    exact cleared

theorem quiet_relisten {c : Conn} (quiet : Quiet lport c) : Quiet lport (relisten c) := by
  have cancelled := quiet_tCancel (quiet_tCancel (quiet_tCancel quiet .trexmt) .trexmttl) .tpersist
  exact quiet_of_held cancelled rfl

/-! ### The SYN of a segment in LISTEN -/

theorem quiet_rcvHeader {c : Conn} (quiet : Quiet lport c) {n : Th} (noAck : n.tFlags.ack = false) :
    Quiet lport (rcvHeader c n) := by
  have syn : Quiet lport (rcvSyn (c.withTcb { c.tcb with
      droppedTxt := false, ackDue := false, newWindow := false }) n) := by
    unfold rcvSyn
    split <;> exact quiet_of_held quiet rfl
  unfold rcvHeader
  dsimp only
  rw [rcvAckno, if_neg (by simp [noAck])]
  unfold rcvWindow
  split
  · refine quiet_tCancel ?_ .tpersist
    exact quiet_of_held syn rfl
  · exact syn

theorem quiet_rcvSequence {c : Conn} (quiet : Quiet lport c) (env : Env) (t : Th) (last : Seq) :
    Quiet lport (rcvSequence env c t last).1 := by
  have unack (other : Conn) (none : other.tcb.tRcvUnack = []) : rcvRecycle env other = other := by
    simp only [rcvRecycle, none]
  unfold rcvSequence
  dsimp only
  rw [unack]
  · exact quiet_of_held quiet rfl
  · exact quiet.unack

theorem quiet_rcvText {c : Conn} (quiet : Quiet lport c) (env : Env) (t : Th) :
    Quiet lport (rcvText env c t).1 := by
  unfold rcvText
  dsimp only
  split
  · exact quiet_of_held quiet rfl
  split
  · split
    · split
      · exact quiet_of_held quiet rfl
      · apply quiet_rcvSequence
        exact quiet_of_held quiet rfl
    · apply quiet_rcvSequence
      exact quiet_of_held quiet rfl
  · exact quiet_rcvSequence quiet env _ _

theorem quiet_rcvUrg {c : Conn} (quiet : Quiet lport c) (n : Th) : Quiet lport (rcvUrg c n) := by
  unfold rcvUrg
  dsimp only
  split
  · split <;> exact quiet_of_held quiet rfl
  · exact quiet

theorem quiet_rcvPush {c : Conn} (quiet : Quiet lport c) (n : Th) : Quiet lport (rcvPush c n) := by
  unfold rcvPush
  split
  · exact quiet_of_held quiet rfl
  · exact quiet

theorem quiet_rcvFin {c : Conn} (quiet : Quiet lport c) (env : Env) (n : Th) :
    Quiet lport (rcvFin env c n) := by
  unfold rcvFin
  split
  · split
    · exact quiet_of_held quiet rfl
    · dsimp only
      split <;> exact quiet_of_held quiet rfl
  · exact quiet

theorem quiet_rcvData {c : Conn} (quiet : Quiet lport c) (env : Env) (n : Th) :
    Quiet lport (rcvData env c n).1 := by
  unfold rcvData
  dsimp only
  refine quiet_rcvPush (quiet_rcvUrg ?_ _) _
  split
  · exact quiet_rcvText quiet env n
  · exact quiet

theorem quiet_rcvReply {c : Conn} (quiet : Quiet lport c) (env : Env) : Quiet lport (rcvReply env c).1 := by
  unfold rcvReply
  split
  · exact quiet_sendTcp quiet env .ctl
  split
  · exact quiet_sendTcp quiet env .data
  · exact quiet

theorem quiet_rcvTimers {c : Conn} (quiet : Quiet lport c) (sent : Bool) :
    Quiet lport (c.withTcb (rcvTimers c.tcb sent)) := by
  refine quiet_of_held quiet ?_
  unfold rcvTimers
  split
  · dsimp only [Conn.held, Conn.withTcb, Tcb.setTimer]
  · rfl

theorem quiet_rcvTcp {c : Conn} (quiet : Quiet lport c) (env : Env) {n : Th}
    (noAck : n.tFlags.ack = false) : Quiet lport (rcvTcp env c n .data) := by
  unfold rcvTcp
  dsimp only
  rw [if_pos rfl]
  exact quiet_rcvTimers (quiet_rcvReply (quiet_rcvFin (quiet_rcvData
    (quiet_rcvHeader quiet noAck) env _) env _) env) _

/-! ### Runs before the handshake is over -/

/-- The connection is deleted, or the routine leaves the early states, or nothing has been
received yet. -/
def Outcome.Settles (lport : Port) (outcome : Outcome) : Prop :=
  outcome.1.deleted = true ∨ (∃ s, outcome.2 = some s ∧ s.early = false) ∨ Quiet lport outcome.1

section Routines

variable {env : Env} {c : Conn}

theorem lisNetr_settles (quiet : Quiet lport c) {n : Th} (noAck : n.tFlags.ack = false) :
    (lisNetr env c n).Settles lport := by
  unfold lisNetr
  dsimp only
  split
  · exact Or.inl (deleted_tClose _ _)
  split
  · rename_i ip _ _
    have set : Quiet lport (lisSource (lisBind c n) ip) := quiet_of_held quiet rfl
    exact Or.inr (Or.inr (quiet_of_held (quiet_rcvTcp set env noAck) rfl))
  · exact Or.inr (Or.inl ⟨_, rfl, rfl⟩)

theorem timers_settles (quiet : Quiet lport c) (i : Timer) : (timers env c i).Settles lport := by
  cases i with
  | txmt => exact Or.inr (Or.inr quiet)
  | tinit =>
    rw [timers, quiet.synAcked]
    exact Or.inl (deleted_tClose _ _)
  | tfinack =>
    rw [timers]
    split
    · split
      · exact Or.inl (deleted_tClose _ _)
      · exact Or.inr (Or.inl ⟨_, rfl, rfl⟩)
    split
    · exact Or.inr (Or.inr (quiet_of_held quiet rfl))
    · exact Or.inr (Or.inr quiet)
  | trexmt =>
    have set : Quiet lport (c.withTcb (rexmtSetup c.tcb)) := quiet_of_held quiet rfl
    rw [timers]
    split
    · exact Or.inr (Or.inr (quiet_sendTcp set env .data))
    · exact Or.inr (Or.inr quiet)
  | trexmttl =>
    rw [timers]
    split
    all_goals
      split
      · exact Or.inl (deleted_tClose _ _)
      · exact Or.inr (Or.inr (quiet_of_held quiet rfl))
  | tpersist =>
    have set : Quiet lport (c.withTcb { c.tcb with forceOne := true }) := quiet_of_held quiet rfl
    rw [timers]
    exact Or.inr (Or.inr (quiet_sendTcp set env .data))

theorem fsactab_settles (quiet : Quiet lport c) {w : Work} {s : TState} (early : s.early = true)
    (request : w.isRecv = false) :
    (fsactab env c w ((fstab s).getD w.input 0)).Settles lport := by
  have stays : Outcome.Settles lport (c, none) := Or.inr (Or.inr quiet)
  have closes (state : BitVec 16) : Outcome.Settles lport (tClose c state, some .closed) :=
    Or.inl (deleted_tClose c state)
  have leaves (other : Conn) {t : TState} (late : t.early = false) :
      Outcome.Settles lport (other, some t) := Or.inr (Or.inl ⟨t, rfl, late⟩)
  cases s
  case closed =>
    cases w
    case uopena => exact Or.inr (Or.inr (quiet_of_held quiet rfl))
    case uopenr => exact leaves _ rfl
    case recv => exact absurd request (by simp [Work.isRecv])
    all_goals exact stays
  case listen =>
    cases w
    case recv => exact absurd request (by simp [Work.isRecv])
    case timer i => exact timers_settles quiet i
    all_goals first | exact stays | exact closes _
  case lSynRcvd =>
    cases w
    case recv => exact absurd request (by simp [Work.isRecv])
    case uclose => exact leaves _ rfl
    case timer i => exact timers_settles quiet i
    all_goals first | exact stays | exact Or.inl (deleted_tClose _ _)
  all_goals exact absurd early (by decide)

/-- What becomes of an early connection: it is deleted, leaves the early states or stays
quiet. -/
def Settled (lport : Port) (next : Conn) : Prop :=
  next.deleted = true ∨ next.tcb.tState.early = false ∨ Quiet lport next

section

variable (quiet : Quiet lport c)
include quiet

theorem action_settled {w : Work} (settles : (fsactab env c.entered w (c.tcb.act w)).Settles lport) :
    Settled lport (action env c w) := by
  unfold action
  split
  · exact Or.inr (Or.inr quiet)
  generalize fsactab env c.entered w (c.tcb.act w) = outcome at settles
  unfold Outcome.conn
  rcases settles with deleted | ⟨s, entered, late⟩ | still
  · split <;> exact Or.inl deleted
  · rw [entered]
    exact Or.inr (Or.inl late)
  · split
    · exact Or.inr (Or.inr still)
    · exact Or.inr (Or.inr (quiet_of_held still rfl))

theorem action_request_settled {w : Work} (early : c.tcb.tState.early = true)
    (request : w.isRecv = false) : Settled lport (action env c w) := by
  have fresh : Quiet lport c.entered := quiet_of_held quiet rfl
  exact action_settled quiet (fsactab_settles fresh early request)

theorem tcpAccept_settled {n : Th} (early : c.tcb.tState.early = true)
    (opened : c.tcb.tState ≠ .closed) (accepted : Accepted c n) : Settled lport (tcpAccept env c n) := by
  unfold tcpAccept
  rw [if_neg (by rw [quiet.rsize]; exact fun full => absurd full.1 (Nat.not_le_of_lt quiet.room))]
  refine action_settled quiet ?_
  have fresh : Quiet lport c.entered := quiet_of_held quiet rfl
  have header : (skipHeader n).tFlags = n.tFlags := by
    unfold skipHeader
    split <;> rfl
  cases state : c.tcb.tState
  case closed => exact absurd state opened
  case listen =>
    rw [Tcb.act, state]
    exact lisNetr_settles fresh (by rw [header]; exact (accepted.listening state).1)
  case lSynRcvd =>
    rw [Tcb.act, state]
    refine Or.inr (Or.inl ⟨_, rfl, ?_⟩)
    split <;> rfl
  all_goals
    rw [state] at early
    exact absurd early (by decide)

theorem tcpOpt_quiet (n : Th) : Quiet lport (tcpOpt c n) := by
  unfold tcpOpt
  split
  · exact quiet
  · split
    · exact quiet_of_held quiet rfl
    · exact quiet

theorem tcpSegment_settled {n : Th} (early : c.tcb.tState.early = true)
    (opened : c.tcb.tState ≠ .closed) : Settled lport (tcpSegment env c n) := by
  have opted := tcpOpt_quiet quiet n
  have same := tState_of_fixed (fixed_tcpOpt c n)
  have checked := netprepr_checked env (tcpOpt c n) n
  unfold tcpSegment
  dsimp only
  generalize netprepr env (tcpOpt c n) n = result at checked
  cases checked with
  | accept accepted =>
    exact tcpAccept_settled opted (by rw [same]; exact early) (by rw [same]; exact opened) accepted
  | eat => exact Or.inr (Or.inr opted)
  | answer _ _ _ => exact Or.inr (Or.inr (quiet_sendTcp opted env .ctl))
  | reset _ => exact Or.inr (Or.inr (quiet_sendRst opted env n))
  | relisten _ _ _ => exact Or.inr (Or.inr (quiet_of_held (quiet_relisten opted) rfl))
  | close closed => exact Or.inl closed.deleted

end

theorem held_of_clockErased {c other : Conn} (same : other.clockErased = c.clockErased) :
    ({ other.held with work := [] } : Held) = { c.held with work := [] } :=
  (congrArg (fun x : Conn => ({ x.held with work := [] } : Held)) same :
    ({ other.clockErased.held with work := [] } : Held) = { c.clockErased.held with work := [] })

theorem quiet_tcpTimeo (quiet : Quiet lport c) : Quiet lport (tcpTimeo env c) := by
  obtain ⟨_, _, work, kept⟩ := tcpTimeo_ticked env c
  refine quiet_of_work quiet (held_of_clockErased kept) fun w inside recv => ?_
  rcases work w inside with old | ⟨i, _, rfl, _⟩
  · exact old
  · exact absurd recv (by simp [Work.isRecv])

theorem quiet_wAlloc (quiet : Quiet lport c) {w : Work} (request : w.isRequest = true) :
    Quiet lport (wAlloc env c w) := by
  obtain ⟨work, clock, same, grown⟩ := wAlloc_request env c request
  rw [same]
  refine quiet_of_work quiet rfl fun other inside recv => ?_
  rcases grown with rfl | rfl
  · exact inside
  · rcases List.mem_append.mp inside with old | added
    · exact old
    · rw [List.mem_singleton.mp added] at recv
      cases w <;> simp [Work.isRecv, Work.isRequest] at recv request

theorem quiet_tcpRead (quiet : Quiet lport c) (count : Nat) : Quiet lport (tcpRead c count) := by
  have empty (rsize : Nat) : readLoop count [] rsize = ([], rsize) := by
    cases count <;> rfl
  unfold tcpRead
  dsimp only
  rw [quiet.rbuf, quiet.rsize, empty]
  exact ⟨quiet.lport, quiet.synAcked, quiet.sndRst, quiet.unack, rfl, rfl, quiet.room, quiet.work⟩

theorem quiet_netclose (quiet : Quiet lport c) : Quiet lport (netclose c) := by
  unfold netclose
  dsimp only
  split
  · exact quiet_of_held quiet rfl
  · refine quiet_of_work quiet rfl fun w inside recv => ?_
    rcases List.mem_append.mp inside with old | added
    · exact old
    · rw [List.mem_singleton.mp added] at recv
      exact absurd recv (by simp [Work.isRecv])

theorem takeWork_settled (quiet : Quiet lport c) (early : c.tcb.tState.early = true) :
    Settled lport (takeWork env c) := by
  unfold takeWork
  split
  · exact Or.inr (Or.inr quiet)
  · rename_i w rest work
    have request : w.isRecv = false := by
      cases w with
      | recv t => exact absurd (work ▸ List.mem_cons_self) (quiet.work t)
      | _ => rfl
    have taken : Quiet lport { c with work := rest } :=
      quiet_of_work quiet rfl fun w inside _ => work ▸ List.mem_cons_of_mem _ inside
    exact action_request_settled taken early request

end Routines

theorem fsm_settled {env : Env} {c : Conn} {event : Event} (enabled : Enabled c event)
    (early : c.tcb.tState.early = true) (quiet : Quiet lport c) : Settled lport (fsm env c event) := by
  cases event with
  | segment n => exact tcpSegment_settled quiet early (enabled.opened n rfl).1
  | work => exact takeWork_settled quiet early
  | clock => exact Or.inr (Or.inr (quiet_tcpTimeo quiet))
  | request w => exact Or.inr (Or.inr (quiet_wAlloc quiet (enabled.request w rfl)))
  | read count => exact Or.inr (Or.inr (quiet_tcpRead quiet count))
  | close => exact Or.inr (Or.inr (quiet_netclose quiet))
  | marks eol urg => exact Or.inr (Or.inr (quiet_of_held quiet rfl))

theorem early_of_targets (s : TState) (target : s.targets.any TState.early = true) :
    s.early = true := by
  cases s <;> first | rfl | exact absurd target (by decide)

theorem early_of_moves {c next : Conn} (moves : Moves c next) (alive : next.deleted = false)
    (early : next.tcb.tState.early = true) : c.tcb.tState.early = true := by
  rcases moves with closed | ⟨_, same | target⟩
  · exact absurd (alive.symm.trans closed.deleted) (by decide)
  · rwa [← same]
  · exact early_of_targets _ (List.any_eq_true.mpr ⟨_, target, early⟩)

theorem quiet_of_run {env : Env} {cp : OpenCon} {nIss : Seq} {history : List Event} {c : Conn}
    (run : Transition.Run (FsmStep env) (tcpopen cp nIss) history c) (alive : c.deleted = false)
    (early : c.tcb.tState.early = true) : Quiet cp.cLport c := by
  refine run.always (fun c => c.deleted = false → c.tcb.tState.early = true → Quiet cp.cLport c)
    ?_ ?_ alive early
  · intro _ _
    refine ⟨rfl, rfl, rfl, rfl, rfl, rfl, Nat.lt_of_lt_of_le (by decide) (allocBufs_bounds cp.cRbufs).1,
      fun t inside => ?_⟩
    have opened := List.mem_singleton.mp inside
    split at opened <;> exact nomatch opened
  · intro c event next quiet step alive early
    obtain ⟨enabled, rfl⟩ := step
    have before := early_of_moves (fsm_moves env c event) alive early
    rcases fsm_settled enabled before (quiet enabled.alive before) with deleted | late | still
    · exact absurd (alive.symm.trans deleted) (by decide)
    · exact absurd (late.symm.trans early) (by decide)
    · exact still

/-! ### A listener that waits -/

/-- A request that ends a listen. -/
def Work.closes : Work → Bool
  | .uclose | .uabort | .nclear => true
  | _ => false

/-- The events that leave a listener waiting: no segment that opens a connection, and no request
that ends the listen. -/
def Waits (c : Conn) : Event → Prop
  | .segment n => n.tFlags.syn = false ∨ n.tFlags.ack = true ∨ n.tFlags.rst = true
  | .work => ∀ w ∈ c.work.head?, w.closes = false
  | _ => True

/-- The seconds that have passed. -/
def seconds (history : List Event) : Nat := history.countP fun event => event matches .clock

/-- A listener waits for whatever a passive open waits for, ready to answer with its SYN. Its open
timer is off, or runs for at least as long as that of the open, of which `passed` seconds are
over. -/
structure Listening (cp : OpenCon) (passed : Nat) (c : Conn) : Prop where
  alive : c.deleted = false
  quiet : Quiet cp.cLport c
  state : c.protocol.tState = .listen
  host : c.protocol.ucHost = cp.cFcon ∨ c.protocol.ucHost = 0
  port : c.protocol.tFport = cp.cFport ∨ c.protocol.tFport = 0
  address : c.protocol.ucLocal = cp.ucb.ucLocal ∨ c.protocol.ucLocal = 0
  wild : c.protocol.ucLocal = 0 ∨ c.protocol.ucHost = 0 ∨ c.protocol.tFport = 0
  synRcvd : c.protocol.synRcvd = false
  sndNxt : c.protocol.sndNxt = c.protocol.iss
  idle : ∀ i, i = .trexmt ∨ i = .trexmttl ∨ i = .tpersist → c.protocol.tTimers i = 0
  time : c.protocol.tTimers .tinit = 0 ∨
    (cp.cTimeo ≠ 0 ∧ cp.cTimeo ≤ c.protocol.tTimers .tinit + passed)
  queue : ∀ i, Work.timer i ∈ c.work → i = .tfinack ∨ i = .txmt

section Waiting

variable {env : Env} {cp : OpenCon} {passed : Nat} {c : Conn}

theorem listening_of_protocol {other : Conn} (listening : Listening cp passed c)
    (same : other.protocol = c.protocol) (alive : other.deleted = false) (quiet : Quiet cp.cLport other)
    (queue : ∀ i, Work.timer i ∈ other.work → Work.timer i ∈ c.work) :
    Listening cp passed other := by
  obtain ⟨_, _, state, host, port, address, wild, synRcvd, sndNxt, idle, time, kept⟩ := listening
  rw [← same] at state host port address wild synRcvd sndNxt idle time
  exact ⟨alive, quiet, state, host, port, address, wild, synRcvd, sndNxt, idle, time,
    fun i inside => kept i (queue i inside)⟩

theorem protocol_sendRst_wild {c : Conn} (wild : wildcard c) (synRcvd : c.tcb.synRcvd = false)
    (sndNxt : c.tcb.sndNxt = c.tcb.iss) {n : Th} (noRst : n.tFlags.rst = false)
    (ack : n.tFlags.ack = true) : (sendRst env c n).protocol = c.protocol := by
  rw [protocol_sendRst env c noRst ack, if_pos wild, ← sndNxt, ← synRcvd]
  rfl

theorem listening_tcpOpt (listening : Listening cp passed c) (n : Th) :
    Listening cp passed (tcpOpt c n) := by
  have quiet := tcpOpt_quiet listening.quiet n
  unfold tcpOpt at quiet ⊢
  split
  · exact listening
  · split
    · exact listening_of_protocol listening rfl listening.alive (quiet_of_held listening.quiet rfl)
        fun _ inside => inside
    · exact listening

theorem work_sendRst (c : Conn) (n : Th) : (sendRst env c n).work = c.work := by
  have sent (c : Conn) : (rstSend env c).work = c.work :=
    (congrArg Conn.work (sendErased_sendPkt env c {} 0 none) : _ = c.sendErased.work)
  unfold sendRst
  split
  · rfl
  dsimp only
  split
  · exact sent _
  · exact sent _

theorem netprepr_waits (listening : Listening cp passed c) {n : Th}
    (waits : Waits c (.segment n)) :
    (netprepr env c n).2 = .eat ∧ Listening cp passed (netprepr env c n).1 := by
  have state : c.tcb.tState = .listen := listening.state
  have check : netprepr env c n = netpreprListen env c n := by
    unfold netprepr
    rw [state]
  rw [check]
  unfold netpreprListen
  by_cases rst : n.tFlags.rst = true
  · rw [if_pos rst]
    exact ⟨rfl, listening⟩
  rw [if_neg rst]
  have noRst : n.tFlags.rst = false := by simpa using rst
  by_cases ack : n.tFlags.ack = true
  · rw [if_pos ack]
    exact ⟨rfl, listening_of_protocol listening
      (protocol_sendRst_wild listening.wild listening.synRcvd listening.sndNxt noRst ack)
      ((congrArg Fixed.deleted (fixed_sendRst env c n)).trans listening.alive)
      (quiet_sendRst listening.quiet env n) fun i inside => by rwa [work_sendRst] at inside⟩
  rw [if_neg ack]
  have noSyn : n.tFlags.syn = false := by
    rcases waits with noSyn | other | other
    · exact noSyn
    · exact absurd other ack
    · exact absurd other rst
  rw [if_neg (by simp [noSyn])]
  exact ⟨rfl, listening⟩

theorem listening_segment (listening : Listening cp passed c) {n : Th}
    (waits : Waits c (.segment n)) : Listening cp passed (tcpSegment env c n) := by
  obtain ⟨eat, checked⟩ :=
    @netprepr_waits env cp passed (tcpOpt c n) (listening_tcpOpt listening n) n waits
  unfold tcpSegment
  dsimp only
  rw [eat]
  exact checked

theorem action_waits {w : Work} (state : c.tcb.tState = .listen) (stays : w.closes = false)
    (request : w.isRecv = false) (timer : ∀ i, w = .timer i → i = .tfinack ∨ i = .txmt) :
    action env c w = c ∨ action env c w = c.entered := by
  have act : c.tcb.act w = (fstab .listen).getD w.input 0 := by rw [Tcb.act, state]
  unfold action
  rw [act]
  cases w with
  | uopena => exact Or.inl rfl
  | uopenr => exact Or.inl rfl
  | recv t => exact absurd request (by simp [Work.isRecv])
  | timer i =>
    rcases timer i rfl with rfl | rfl
    · have other : c.entered.tcb.tState = .listen := state
      have idle : timers env c.entered .tfinack = (c.entered, none) := by
        rw [timers, if_neg (by rw [other]; decide), if_neg (by rw [other]; decide)]
      exact Or.inr (congrArg Outcome.conn idle)
    · exact Or.inr rfl
  | urecv => exact Or.inr rfl
  | usend dat => exact Or.inr rfl
  | _ => exact absurd stays (by simp [Work.closes])

theorem listening_takeWork (listening : Listening cp passed c) (waits : Waits c .work) :
    Listening cp passed (takeWork env c) := by
  unfold takeWork
  split
  · exact listening
  rename_i w rest work
  have taken : Listening cp passed { c with work := rest } :=
    listening_of_protocol listening rfl listening.alive
      (quiet_of_work listening.quiet rfl fun w inside _ => work ▸ List.mem_cons_of_mem _ inside)
      fun i inside => work ▸ List.mem_cons_of_mem _ inside
  have request : w.isRecv = false := by
    cases w with
    | recv t => exact absurd (work ▸ List.mem_cons_self) (listening.quiet.work t)
    | _ => rfl
  have stays : w.closes = false := waits w (by rw [work]; rfl)
  have timer (i : Timer) (shape : w = .timer i) : i = .tfinack ∨ i = .txmt :=
    listening.queue i (work ▸ shape ▸ List.mem_cons_self)
  rcases @action_waits env { c with work := rest } _ listening.state stays request timer
    with same | same
  · rw [same]
    exact taken
  · rw [same]
    exact listening_of_protocol taken rfl taken.alive (quiet_of_held taken.quiet rfl)
      fun _ inside => inside

theorem listening_tcpTimeo (listening : Listening cp passed c)
    (more : cp.cTimeo = 0 ∨ passed + 1 < cp.cTimeo) :
    Listening cp (passed + 1) (tcpTimeo env c) := by
  obtain ⟨off, running, work, kept⟩ := tcpTimeo_ticked env c
  have alive := (congrArg Fixed.deleted (fixed_of_clockErased kept)).trans listening.alive
  have quiet := @quiet_tcpTimeo _ env c listening.quiet
  generalize tcpTimeo env c = next at off running work kept alive quiet
  have same : { next.protocol with tTimers := fun _ => 0 } =
      { c.protocol with tTimers := fun _ => 0 } :=
    (congrArg Conn.protocol kept : next.clockErased.protocol = c.clockErased.protocol)
  have field {α : Type} (view : Protocol → α) (blind : ∀ x : Protocol,
      view { x with tTimers := fun _ => 0 } = view x) : view next.protocol = view c.protocol := by
    rw [← blind, same, blind]
  obtain ⟨_, _, state, host, port, address, wild, synRcvd, sndNxt, idle, time, queue⟩ := listening
  have onTime : c.tcb.tTimers .tinit = 0 ∨
      (cp.cTimeo ≠ 0 ∧ cp.cTimeo ≤ c.tcb.tTimers .tinit + passed ∧ 1 < c.tcb.tTimers .tinit) := by
    rcases time with zero | ⟨some, enough⟩
    · exact Or.inl zero
    · refine Or.inr ⟨some, enough, ?_⟩
      have bound : cp.cTimeo ≤ c.tcb.tTimers .tinit + passed := enough
      omega
  rw [← field Protocol.tState fun _ => rfl] at state
  rw [← field Protocol.ucHost fun _ => rfl] at host wild
  rw [← field Protocol.tFport fun _ => rfl] at port wild
  rw [← field Protocol.ucLocal fun _ => rfl] at address wild
  rw [← field Protocol.synRcvd fun _ => rfl] at synRcvd
  rw [← field Protocol.sndNxt fun _ => rfl, ← field Protocol.iss fun _ => rfl] at sndNxt
  refine ⟨alive, quiet, state, host, port, address, wild, synRcvd, sndNxt, fun i idler => ?_, ?_,
    fun i inside => ?_⟩
  · refine off i ?_ (idle i idler)
    rcases idler with rfl | rfl | rfl <;> decide
  · rcases onTime with zero | ⟨some, enough, long⟩
    · exact Or.inl (off .tinit (by decide) zero)
    · refine Or.inr ⟨some, ?_⟩
      have lowered : next.protocol.tTimers .tinit = c.tcb.tTimers .tinit - 1 :=
        running .tinit (by decide) long
      omega
  · rcases work _ inside with old | ⟨j, counted, shape, last⟩
    · exact queue i old
    · rw [Work.timer.inj shape]
      have stopped {j : Timer} (idler : j = .trexmt ∨ j = .trexmttl ∨ j = .tpersist) :
          c.tcb.tTimers j ≠ 1 := by
        have zero : c.tcb.tTimers j = 0 := idle j idler
        rw [zero]
        decide
      have notInit : j ≠ .tinit := by
        rintro rfl
        rcases onTime with zero | ⟨_, _, long⟩
        · rw [zero] at last
          cases last
        · omega
      cases j with
      | tinit => exact absurd rfl notInit
      | trexmt => exact absurd last (stopped (Or.inl rfl))
      | trexmttl => exact absurd last (stopped (Or.inr (Or.inl rfl)))
      | tpersist => exact absurd last (stopped (Or.inr (Or.inr rfl)))
      | tfinack => exact Or.inl rfl
      | txmt => exact Or.inr rfl

theorem seconds_concat (history : List Event) (event : Event) :
    seconds (history ++ [event]) = seconds history + seconds [event] := by
  rw [seconds, List.countP_append]
  rfl

theorem listening_fsm (listening : Listening cp passed c) {event : Event} (enabled : Enabled c event)
    (waits : Waits c event) (inTime : cp.cTimeo = 0 ∨ passed + seconds [event] < cp.cTimeo) :
    Listening cp (passed + seconds [event]) (fsm env c event) := by
  cases event with
  | segment n => exact listening_segment listening waits
  | work => exact listening_takeWork listening waits
  | clock => exact listening_tcpTimeo listening inTime
  | request w =>
    have request := enabled.request w rfl
    have quiet := @quiet_wAlloc _ env c listening.quiet w request
    obtain ⟨work, clock, same, grown⟩ := wAlloc_request env c request
    rw [fsm]
    rw [same] at quiet ⊢
    refine listening_of_protocol listening rfl listening.alive quiet fun i inside => ?_
    rcases grown with rfl | rfl
    · exact inside
    · rcases List.mem_append.mp inside with old | added
      · exact old
      · rw [← List.mem_singleton.mp added] at request
        exact absurd request (by simp [Work.isRequest])
  | read count =>
    exact listening_of_protocol listening rfl listening.alive (quiet_tcpRead listening.quiet count)
      fun _ inside => inside
  | close =>
    have quiet := quiet_netclose listening.quiet
    rw [fsm]
    unfold netclose at quiet ⊢
    dsimp only at quiet ⊢
    split
    · exact listening_of_protocol listening rfl listening.alive (quiet_of_held listening.quiet rfl)
        fun _ inside => inside
    · rename_i open_
      rw [if_neg open_] at quiet
      refine listening_of_protocol listening rfl listening.alive quiet fun i inside => ?_
      rcases List.mem_append.mp inside with old | added
      · exact old
      · exact Work.noConfusion (List.mem_singleton.mp added)
  | marks eol urg =>
    exact listening_of_protocol listening rfl listening.alive (quiet_of_held listening.quiet rfl)
      fun _ inside => inside

theorem listening_run (listening : Listening cp 0 c) {history : List Event} {later : Conn}
    (run : Transition.Run (Transition.Guarded (FsmStep env) Waits) c history later)
    (inTime : cp.cTimeo = 0 ∨ seconds history < cp.cTimeo) :
    Listening cp (seconds history) later := by
  refine run.invariant (fun history later => (cp.cTimeo = 0 ∨ seconds history < cp.cTimeo) →
    Listening cp (seconds history) later) (fun _ => listening) ?_ inTime
  intro history state event next before step onTime
  obtain ⟨waits, enabled, rfl⟩ := step
  rw [seconds_concat] at onTime ⊢
  exact listening_fsm (before (onTime.imp_right fun bound => by omega)) enabled waits onTime

end Waiting

/-! ### The answer to a SYN -/

/-- A segment that opens a connection. -/
structure Opening (n : Th) : Prop where
  syn : n.tFlags.syn = true
  noAck : n.tFlags.ack = false
  noRst : n.tFlags.rst = false

/-- The kernel can serve a segment: it has buffers, and an available interface with the local
address. -/
structure Serves (env : Env) (n : Th) : Prop where
  buffer : ∀ i, env.mGet i = true
  interface : ∀ i, (lisIfcb (env.ifcbs i) n).isSome

/-- A packet answers a SYN with the SYN at a sequence number. -/
structure SynReply (iss : Seq) (n : Th) (p : Packet) : Prop where
  made : p.made = true
  syn : p.flags.syn = true
  ack : p.flags.ack = true
  seq : p.seq = iss
  dst : p.dst = n.tS
  dport : p.dport = n.tSrc

/-- A connection that has the SYN of a segment and has not sent its own. -/
structure SynTaken (c : Conn) (n : Th) : Prop where
  ackDue : c.tcb.ackDue = true
  irs : c.tcb.irs = n.tSeq
  synRcvd : c.tcb.synRcvd = true
  sndNxt : c.tcb.sndNxt = c.tcb.iss
  host : c.ucb.ucHost = n.tS
  port : c.tcb.tFport = n.tSrc

theorem sendPlan_sndLst (env : Env) {c : Conn} (synAcked : c.tcb.synAcked = false)
    (sndNxt : c.tcb.sndNxt = c.tcb.iss) : (sendPlan env c).conn.tcb.sndLst = c.tcb.iss + 1 ∨
      (sendPlan env c).conn.tcb.sndLst = c.tcb.iss + 1 + 1 := by
  have past : (synTcb c.tcb).sndLst = c.tcb.iss + 1 := by
    rw [synTcb, if_pos sndNxt, sndNxt]
  unfold sendPlan
  dsimp only
  split
  · split
    · exact Or.inr (congrArg (· + 1) past)
    · exact Or.inl past
  · rw [if_neg (by simp [synAcked])]
    exact Or.inl past

theorem seqLt_add_one (a : Seq) : seqLt a (a + 1) := by
  have distance : a - (a + 1) = -1 := by ring
  rw [seqLt, Serial.diff, distance]
  decide

theorem seqLt_add_two (a : Seq) : seqLt a (a + 1 + 1) := by
  have distance : a - (a + 1 + 1) = -2 := by ring
  rw [seqLt, Serial.diff, distance]
  decide

theorem sendTcp_synReply {env : Env} {c : Conn} {n : Th} (taken : SynTaken c n)
    (quiet : Quiet lport c) (buffer : ∀ i, env.mGet i = true) (call : Ctl) :
    ∃ p more, (sendTcp env c call).1.out = c.out ++ p :: more ∧ SynReply c.tcb.iss n p := by
  obtain ⟨more, out, _⟩ := sendTcp_out env c call
  have planned := sendPlan_planOf env c
  have kept := sendErased_sendPlan env c
  have due : seqLt (sendPlan env c).conn.tcb.sndNxt (sendPlan env c).conn.tcb.sndLst := by
    rw [planned.sndNxt, taken.sndNxt]
    rcases sendPlan_sndLst env quiet.synAcked taken.sndNxt with lst | lst
    · rw [lst]
      exact seqLt_add_one _
    · rw [lst]
      exact seqLt_add_two _
  have sndRst : (sendPlan env c).conn.tcb.sndRst = false :=
    (congrArg (fun x => x.tcb.sndRst) kept).trans quiet.sndRst
  have synRcvd : (sendPlan env c).conn.tcb.synRcvd = true :=
    (congrArg (fun x => x.tcb.synRcvd) kept).trans taken.synRcvd
  have host : (sendPlan env c).conn.ucb.ucHost = n.tS :=
    (congrArg (fun x => x.ucb.ucHost) kept).trans taken.host
  have port : (sendPlan env c).conn.tcb.tFport = n.tSrc :=
    (congrArg (fun x => x.tcb.tFport) kept).trans taken.port
  rw [if_pos due, List.append_assoc, List.singleton_append] at out
  refine ⟨_, more, out, buffer _, ?_, ?_, planned.sndNxt.trans taken.sndNxt, host, port⟩
  · change ((sendPlan env c).flags.syn && !(sendPlan env c).conn.tcb.sndRst) = true
    rw [planned.syn, sndRst, taken.sndNxt]
    simp
  · change ((sendPlan env c).flags.ack || (sendPlan env c).conn.tcb.synRcvd) = true
    rw [synRcvd, Bool.or_true]

theorem synTaken_rcvHeader {c : Conn} {n : Th} (opening : Opening n) (synRcvd : c.tcb.synRcvd = false)
    (sndNxt : c.tcb.sndNxt = c.tcb.iss) (host : c.ucb.ucHost = n.tS) (port : c.tcb.tFport = n.tSrc) :
    SynTaken (rcvHeader c n) n ∧ (rcvHeader c n).tcb.rcvNxt = n.tSeq + 1 ∧
      (rcvHeader c n).out = c.out ∧ (rcvHeader c n).tcb.iss = c.tcb.iss := by
  unfold rcvHeader
  dsimp only
  rw [rcvAckno, if_neg (by simp [opening.noAck]), rcvSyn, if_pos ⟨synRcvd, opening.syn⟩]
  unfold rcvWindow
  split <;> exact ⟨⟨rfl, rfl, rfl, sndNxt, host, port⟩, rfl, rfl, rfl⟩

theorem synTaken_of_receiveErased {c other : Conn} {n : Th} (taken : SynTaken c n)
    (same : other.receiveErased = c.receiveErased) (ackDue : other.tcb.ackDue = true) :
    SynTaken other n ∧ other.out = c.out ∧ other.tcb.iss = c.tcb.iss := by
  have sndNxt : other.tcb.sndNxt = c.tcb.sndNxt := congrArg (fun x => x.tcb.sndNxt) same
  have iss : other.tcb.iss = c.tcb.iss := congrArg (fun x => x.tcb.iss) same
  exact ⟨⟨ackDue, (congrArg (fun x => x.tcb.irs) same).trans taken.irs,
    (congrArg (fun x => x.tcb.synRcvd) same).trans taken.synRcvd,
    sndNxt.trans (taken.sndNxt.trans iss.symm),
    (congrArg (fun x => x.ucb.ucHost) same).trans taken.host,
    (congrArg (fun x => x.tcb.tFport) same).trans taken.port⟩,
    (congrArg (fun x => x.out) same : other.receiveErased.out = c.receiveErased.out), iss⟩

theorem ackDue_recycleUnack (env : Env) (held : List Th) (i : Int) (c : Conn) :
    (recycleUnack env held i c).tcb.ackDue = c.tcb.ackDue := by
  have queued (c : Conn) (t : Th) : (wAlloc env c (.recv t)).tcb = c.tcb := by
    unfold wAlloc
    dsimp only
    split <;> rfl
  induction held generalizing i c with
  | nil => rfl
  | cons t rest inductionHypothesis =>
    rw [recycleUnack]
    split
    · rw [inductionHypothesis, queued]
    · rfl

theorem ackDue_rcvSequence (env : Env) (c : Conn) (t : Th) (last : Seq) :
    (rcvSequence env c t last).1.tcb.ackDue = true := by
  unfold rcvSequence
  dsimp only
  unfold rcvRecycle
  dsimp only
  split
  · rfl
  split
  · split
    · rw [ackDue_recycleUnack]
      rfl
    · rfl
  · rfl

theorem ackDue_rcvData {env : Env} {c : Conn} (n : Th) (ackDue : c.tcb.ackDue = true) :
    (rcvData env c n).1.tcb.ackDue = true := by
  have text : (rcvText env c n).1.tcb.ackDue = true := by
    unfold rcvText
    dsimp only
    split
    · rfl
    split
    · split
      · split
        · exact ackDue
        · exact ackDue_rcvSequence _ _ _ _
      · exact ackDue_rcvSequence _ _ _ _
    · exact ackDue_rcvSequence _ _ _ _
  have urg (c : Conn) (n : Th) (ackDue : c.tcb.ackDue = true) : (rcvUrg c n).tcb.ackDue = true := by
    unfold rcvUrg
    dsimp only
    split
    · split <;> exact ackDue
    · exact ackDue
  have push (c : Conn) (n : Th) (ackDue : c.tcb.ackDue = true) :
      (rcvPush c n).tcb.ackDue = true := by
    unfold rcvPush
    split <;> exact ackDue
  unfold rcvData
  dsimp only
  refine push _ _ (urg _ _ ?_)
  split
  · exact text
  · exact ackDue

theorem ackDue_rcvFin {env : Env} {c : Conn} (n : Th) (ackDue : c.tcb.ackDue = true) :
    (rcvFin env c n).tcb.ackDue = true := by
  unfold rcvFin
  split
  · split
    · rfl
    · dsimp only
      split
      · rfl
      · exact ackDue
  · exact ackDue

theorem rcvNxt_plain {env : Env} {c : Conn} {n : Th} (empty : n.tLen = 0)
    (noFin : n.tFlags.fin = false) :
    (rcvFin env (rcvData env c n).1 (rcvData env c n).2).tcb.rcvNxt = c.tcb.rcvNxt := by
  have data : rcvData env c n = (rcvPush (rcvUrg c n) n, n) := by
    unfold rcvData
    rw [if_neg (by simp [empty])]
  have urg : (rcvUrg c n).tcb.rcvNxt = c.tcb.rcvNxt := by
    unfold rcvUrg
    dsimp only
    split
    · split <;> rfl
    · rfl
  have push (c : Conn) : (rcvPush c n).tcb.rcvNxt = c.tcb.rcvNxt := by
    unfold rcvPush
    split <;> rfl
  rw [data, rcvFin, if_neg (by simp [noFin]), push, urg]

/-- What a connection does with the SYN of a segment: it takes the sequence numbers and asks for a
packet with its own SYN. -/
structure Answers (before after : Conn) (n : Th) : Prop where
  irs : after.tcb.irs = n.tSeq
  rcvNxt : n.tLen = 0 → n.tFlags.fin = false → after.tcb.rcvNxt = n.tSeq + 1
  reply : ∃ p more, after.out = before.out ++ p :: more ∧ SynReply before.tcb.iss n p

theorem rcvTcp_answers {env : Env} {c : Conn} {n : Th} (quiet : Quiet lport c) (opening : Opening n)
    (synRcvd : c.tcb.synRcvd = false) (sndNxt : c.tcb.sndNxt = c.tcb.iss)
    (host : c.ucb.ucHost = n.tS) (port : c.tcb.tFport = n.tSrc) (buffer : ∀ i, env.mGet i = true) :
    Answers c (rcvTcp env c n .data) n := by
  obtain ⟨taken, past, out, iss⟩ := synTaken_rcvHeader opening synRcvd sndNxt host port
  have still := quiet_rcvHeader quiet opening.noAck
  have finished := (receiveErased_rcvFin env (rcvData env (rcvHeader c n) n).1
    (rcvData env (rcvHeader c n) n).2).trans (receiveErased_rcvData env (rcvHeader c n) n)
  have due := @ackDue_rcvFin env _ (rcvData env (rcvHeader c n) n).2
    (@ackDue_rcvData env _ n taken.ackDue)
  have ready := quiet_rcvFin (quiet_rcvData still env n) env (rcvData env (rcvHeader c n) n).2
  have plain := @rcvNxt_plain env (rcvHeader c n) n
  obtain ⟨received, outKept, issKept⟩ := synTaken_of_receiveErased taken finished due
  unfold rcvTcp
  dsimp only
  rw [if_pos rfl]
  generalize rcvFin env (rcvData env (rcvHeader c n) n).1 (rcvData env (rcvHeader c n) n).2 = last
    at received outKept issKept ready plain due
  obtain ⟨p, more, sent, reply⟩ := sendTcp_synReply received ready buffer .ctl
  have kept := sendErased_sendTcp env last .ctl
  have timers (tp : Tcb) (sent : Bool) :
      (rcvTimers tp sent).irs = tp.irs ∧ (rcvTimers tp sent).rcvNxt = tp.rcvNxt := by
    unfold rcvTimers
    split
    · dsimp only [Tcb.setTimer]
      exact ⟨rfl, rfl⟩
    · exact ⟨rfl, rfl⟩
  unfold rcvReply
  rw [if_pos due]
  generalize sendTcp env last .ctl = result at sent kept
  refine ⟨?_, fun empty noFin => ?_, p, more, ?_, ?_⟩
  · exact (timers _ _).1.trans ((congrArg (fun x => x.tcb.irs) kept).trans received.irs)
  · exact (timers _ _).2.trans
      ((congrArg (fun x => x.tcb.rcvNxt) kept).trans ((plain empty noFin).trans past))
  · exact sent.trans (by rw [outKept, out])
  · rw [← iss, ← issKept]
    exact reply

theorem lisNetr_answers {env : Env} {c : Conn} {n : Th} (quiet : Quiet lport c) (opening : Opening n)
    (synRcvd : c.tcb.synRcvd = false) (sndNxt : c.tcb.sndNxt = c.tcb.iss) (serves : Serves env n) :
    Answers c (lisNetr env c n).1 n ∧ (lisNetr env c n).2 ≠ none := by
  obtain ⟨ip, found⟩ := Option.isSome_iff_exists.mp (serves.interface (lisBind c n).clock)
  have set : Quiet lport (lisSource (lisBind c n) ip) := quiet_of_held quiet rfl
  have answers := @rcvTcp_answers lport env (lisSource (lisBind c n) ip) n set opening synRcvd sndNxt
    rfl rfl serves.buffer
  unfold lisNetr
  simp only [found]
  obtain ⟨irs, rcvNxt, p, more, out, reply⟩ := answers
  have start : (lisSource (lisBind c n) ip).out = c.out ∧
      (lisSource (lisBind c n) ip).tcb.iss = c.tcb.iss := ⟨rfl, rfl⟩
  rw [start.1] at out
  rw [start.2] at reply
  generalize rcvTcp env (lisSource (lisBind c n) ip) n .data = taken at irs rcvNxt out
  split
  · exact ⟨⟨irs, rcvNxt, p, more, out, reply⟩, by simp⟩
  · exact ⟨⟨irs, rcvNxt, p, more, out, reply⟩, by simp⟩

theorem listening_answers {env : Env} {cp : OpenCon} {passed : Nat} {c : Conn} {n : Th}
    (listening : Listening cp passed c) (opening : Opening n) (serves : Serves env n) :
    Answers c (tcpSegment env c n) n := by
  have opted := listening_tcpOpt listening n
  have kept : (tcpOpt c n).out = c.out ∧ (tcpOpt c n).tcb.iss = c.tcb.iss := by
    unfold tcpOpt
    split
    · exact ⟨rfl, rfl⟩
    · split <;> exact ⟨rfl, rfl⟩
  unfold tcpSegment
  dsimp only
  generalize tcpOpt c n = d at opted kept
  have state : d.tcb.tState = .listen := opted.state
  have check : netprepr env d n = (d, .accept) := by
    unfold netprepr
    rw [state]
    simp [netpreprListen, opening.syn, opening.noAck, opening.noRst]
  rw [check]
  dsimp only
  unfold tcpAccept
  rw [if_neg (by
    rw [opted.quiet.rsize]
    exact fun full => absurd full.1 (Nat.not_le_of_lt opted.quiet.room))]
  obtain ⟨mbufs, header⟩ : ∃ mbufs, skipHeader n = { n with mbufs := mbufs } := by
    unfold skipHeader
    split
    · exact ⟨n.mbufs, rfl⟩
    · exact ⟨_, rfl⟩
  rw [header]
  have quiet : Quiet cp.cLport d.entered := quiet_of_held opted.quiet rfl
  obtain ⟨⟨irs, rcvNxt, p, more, out, reply⟩, enters⟩ := @lisNetr_answers _ env d.entered
    { n with mbufs := mbufs } quiet ⟨opening.syn, opening.noAck, opening.noRst⟩ opted.synRcvd
    opted.sndNxt ⟨serves.buffer, serves.interface⟩
  have acted : action env d (.recv { n with mbufs := mbufs }) =
      (lisNetr env d.entered { n with mbufs := mbufs }).conn := by
    unfold action
    rw [Tcb.act, state]
    rfl
  rw [acted]
  generalize lisNetr env d.entered { n with mbufs := mbufs } = result at irs rcvNxt out enters
  obtain ⟨s, entered⟩ := Option.ne_none_iff_exists'.mp enters
  unfold Outcome.conn
  rw [entered]
  refine ⟨irs, rcvNxt, p, more, ?_, ?_⟩
  · rw [← kept.1]
    exact out
  · rw [← kept.2]
    exact ⟨reply.made, reply.syn, reply.ack, reply.seq, reply.dst, reply.dport⟩

/-! ### Back to LISTEN -/

/-- The control block is there, it is found for a segment, and it answers the segment. -/
structure Takes (env : Env) (c : Conn) (n : Th) : Prop where
  alive : c.deleted = false
  found : lookTcb [c] n = some 0
  answers : Answers c (tcpSegment env c n) n

/-- A connection listens like a fresh open: after any events that leave a listener waiting, for as
long as the open waits, it takes every SYN the open would have matched. -/
def ListensFresh (cp : OpenCon) (c : Conn) : Prop :=
  ∀ (env : Env) (history : List Event) (later : Conn),
    Transition.Run (Transition.Guarded (FsmStep env) Waits) c history later →
    (cp.cTimeo = 0 ∨ seconds history < cp.cTimeo) →
    ∀ n, Opening n → matchWild (tcpopen cp 0) n → ∀ kernel, Serves kernel n → Takes kernel later n

theorem found_of_listening {cp : OpenCon} {passed : Nat} {c : Conn} {n : Th}
    (listening : Listening cp passed c) (wanted : matchWild (tcpopen cp 0) n) :
    lookTcb [c] n = some 0 := by
  obtain ⟨lport, fport, host, address⟩ := wanted
  have wild : matchWild c n := by
    refine ⟨listening.quiet.lport.trans lport, ?_, ?_, ?_⟩
    · rcases listening.port with same | zero
      · exact fport.imp same.trans same.trans
      · exact Or.inr zero
    · rcases listening.host with same | zero
      · exact host.imp same.trans same.trans
      · exact Or.inr zero
    · rcases listening.address with same | zero
      · exact address.imp same.trans same.trans
      · exact Or.inr zero
  unfold lookTcb
  by_cases exactly : matchExact c n
  · simp [exactly]
  · simp [exactly, wild]

theorem listensFresh_of_listening {cp : OpenCon} {c : Conn} (listening : Listening cp 0 c) :
    ListensFresh cp c := by
  intro env history later run inTime n opening wanted kernel serves
  have waiting := listening_run listening run inTime
  exact ⟨waiting.alive, found_of_listening waiting wanted, listening_answers waiting opening serves⟩

/-- What the aborted handshake must have left as the open set it: the foreign port, the local
address, no foreign SYN, the next sequence number, and an open timer that is off or runs for at
least as long as that of the open. -/
structure Restored (cp : OpenCon) (c : Conn) : Prop where
  port : c.tcb.tFport = cp.cFport ∨ c.tcb.tFport = 0
  address : c.ucb.ucLocal = cp.ucb.ucLocal ∨ c.ucb.ucLocal = 0
  synRcvd : c.tcb.synRcvd = false
  sndNxt : c.tcb.sndNxt = c.tcb.iss
  time : c.tcb.tTimers .tinit = 0 ∨ (cp.cTimeo ≠ 0 ∧ cp.cTimeo ≤ c.tcb.tTimers .tinit)
  queue : Work.timer .tinit ∉ c.work

theorem protocol_tCancel (c : Conn) (i : Timer) : (tCancel c i).protocol =
    { c.protocol with tTimers := fun j => if j = i then 0 else c.protocol.tTimers j } := rfl

theorem protocol_relisten (c : Conn) : (relisten c).protocol =
    { c.protocol with
      ucHost := 0
      tTimers := fun i =>
        if i = .trexmt ∨ i = .trexmttl ∨ i = .tpersist then 0 else c.protocol.tTimers i } := by
  have forgets (c : Conn) : (c.withUcb { c.ucb with ucHost := 0, ucRoute := none }).protocol =
      { c.protocol with ucHost := 0 } := rfl
  have timers : (fun i => if i = Timer.tpersist then 0 else if i = .trexmttl then 0 else
        if i = .trexmt then 0 else c.protocol.tTimers i) =
      fun i => if i = .trexmt ∨ i = .trexmttl ∨ i = .tpersist then 0 else c.protocol.tTimers i := by
    funext i
    cases i <;> rfl
  unfold relisten
  dsimp only
  rw [forgets, protocol_tCancel, protocol_tCancel, protocol_tCancel]
  exact congrArg (fun timers => ({ c.protocol with ucHost := 0, tTimers := timers } : Protocol)) timers

theorem work_relisten {c : Conn} {i : Timer} (inside : Work.timer i ∈ (relisten c).work) :
    Work.timer i ∈ c.work ∧ i ≠ .trexmt ∧ i ≠ .trexmttl ∧ i ≠ .tpersist := by
  have kept : Work.timer i ∈ (tCancel (tCancel (tCancel c .trexmt) .trexmttl) .tpersist).work := inside
  simp only [tCancel, List.mem_filter] at kept
  obtain ⟨⟨⟨old, first⟩, second⟩, third⟩ := kept
  exact ⟨old, by simpa using first, by simpa using second, by simpa using third⟩

theorem listening_relisten {cp : OpenCon} {c : Conn} (alive : c.deleted = false)
    (quiet : Quiet cp.cLport c) (restored : Restored cp c) :
    Listening cp 0 ((relisten c).enter .listen) := by
  obtain ⟨port, address, synRcvd, sndNxt, time, queue⟩ := restored
  have kept : (relisten c).deleted = c.deleted := congrArg Fixed.deleted (fixed_relisten c)
  have held (i : Timer) := @work_relisten c i
  have left := protocol_relisten c
  have still := quiet_relisten quiet
  generalize relisten c = r at kept held left still
  have entered : (r.enter .listen).protocol = { r.protocol with tState := .listen } := rfl
  rw [left] at entered
  refine ⟨kept.trans alive, quiet_of_held still rfl, ?_, ?_, ?_, ?_, ?_, ?_, ?_, fun i idler => ?_, ?_,
    fun i inside => ?_⟩
  all_goals first | rw [entered] | skip
  · exact Or.inr rfl
  · exact port
  · exact address
  · exact Or.inr (Or.inl rfl)
  · exact synRcvd
  · exact sndNxt
  · exact if_pos idler
  · exact time
  · obtain ⟨old, noRexmt, noRexmttl, noPersist⟩ := held i inside
    cases i with
    | tinit => exact absurd old queue
    | trexmt => exact absurd rfl noRexmt
    | trexmttl => exact absurd rfl noRexmttl
    | tpersist => exact absurd rfl noPersist
    | tfinack => exact Or.inl rfl
    | txmt => exact Or.inr rfl

/-- A half-open listener that receives an acceptable reset listens like a fresh open from then on,
if the aborted handshake has left what the open set. -/
theorem reset_listensFresh (env : Env) (cp : OpenCon) (nIss : Seq) (history : List Event) (c : Conn)
    (n : Th) (run : Transition.Run (FsmStep env) (tcpopen cp nIss) history c)
    (enabled : Enabled c (.segment n))
    (verdict : (netprepr env (tcpOpt c n) n).2 = .enter .listen) (restored : Restored cp c) :
    ListensFresh cp (fsm env c (.segment n)) := by
  have same := fixed_tcpOpt c n
  have checked := netprepr_checked env (tcpOpt c n) n
  rw [fsm]
  unfold tcpSegment
  dsimp only
  generalize netprepr env (tcpOpt c n) n = result at checked verdict
  cases checked with
  | relisten listening _ _ =>
    have before : c.tcb.tState = .lSynRcvd := (tState_of_fixed same).symm.trans listening
    have quiet := quiet_of_run run enabled.alive (by rw [before]; rfl)
    have opted := tcpOpt_quiet quiet n
    have alive : (tcpOpt c n).deleted = false :=
      (congrArg Fixed.deleted same).trans enabled.alive
    refine listensFresh_of_listening (listening_relisten alive opted ?_)
    unfold tcpOpt
    split
    · exact restored
    · split <;> exact ⟨restored.port, restored.address, restored.synRcvd, restored.sndNxt,
        restored.time, restored.queue⟩
  | _ => exact absurd verdict (by simp)

/-- A passive open of port 1024 for five seconds, for port 23 of host 9 on host 2. -/
def passiveOpen : OpenCon where
  mode := .passive
  cSbufs := 1
  cRbufs := 1
  cTimeo := 5
  cLport := 1024
  cFport := 23
  cFcon := 9
  cLcon := some 2
  srcif := ⟨2, true, 1500⟩

/-- A passive open of port 1024 for anybody. -/
def publicOpen : OpenCon :=
  { passiveOpen with cTimeo := 0, cFport := 0, cFcon := 0, cLcon := none }

/-- The listener of five seconds gets a SYN and an ACK of nothing, and then a reset. -/
theorem reset_listensFresh_passiveOpen :
    ListensFresh passiveOpen (fsm host2
      ([.work, .segment (bareSegment { syn := true } 1000 0),
        .segment (bareSegment { ack := true } 1001 100)].foldl (fsm host2) (tcpopen passiveOpen 100))
      (.segment (bareSegment { rst := true } 1001 0))) :=
  reset_listensFresh host2 passiveOpen 100 _ _ _
    (Transition.Run.start.follows ⟨⟨enabled_work rfl, rfl⟩,
      ⟨enabled_segment _ rfl (by decide) rfl, rfl⟩, ⟨enabled_segment _ rfl (by decide) rfl, rfl⟩,
      trivial⟩)
    (enabled_segment _ rfl (by decide) rfl) (by decide)
    ⟨Or.inl rfl, Or.inl rfl, rfl, by decide, Or.inr (by decide), List.not_mem_nil⟩

/-- The listener for anybody gets a SYN from port 23 of host 9 and a reset; it is not found any more
for a SYN from port 24. -/
theorem reset_keeps_port :
    ¬ ∀ (env : Env) (cp : OpenCon) (nIss : Seq) (history : List Event) (c : Conn) (n : Th),
      cp.mode = .passive → Transition.Run (FsmStep env) (tcpopen cp nIss) history c →
      Enabled c (.segment n) → (netprepr env (tcpOpt c n) n).2 = .enter .listen →
      ListensFresh cp (fsm env c (.segment n)) := by
  intro fresh
  have listens := fresh host2 publicOpen 100 _
    ([.work, .segment (bareSegment { syn := true } 1000 0)].foldl (fsm host2) (tcpopen publicOpen 100))
    (bareSegment { rst := true } 1001 0) rfl
    (Transition.Run.start.follows ⟨⟨enabled_work rfl, rfl⟩,
      ⟨enabled_segment _ rfl (by decide) rfl, rfl⟩, trivial⟩)
    (enabled_segment _ rfl (by decide) rfl) (by decide)
  have found := (listens host2 _ _ .start (Or.inl rfl)
    { bareSegment { syn := true } 2000 0 with tSrc := 24 } ⟨rfl, rfl, rfl⟩ (by decide) host2
    ⟨fun _ => rfl, fun _ => rfl⟩).found
  exact absurd found (by decide)

end NetworkUnix.Bbnnet
