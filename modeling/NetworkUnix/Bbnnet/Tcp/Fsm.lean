/-
This file puts the TCP machine together as a transition system: the events that
drive one connection, and the transitions between states they can make. A
connection either is deleted or moves along one graph of states, whatever the
order of segments, requests and timers.
-/

import NetworkUnix.Lib.Run
import NetworkUnix.Bbnnet.Tcp.Frame

namespace NetworkUnix.Bbnnet

/-! ### Events -/

/-- What can happen to a connection: a segment comes in for it, the next entry of its work list
is taken, a second passes, a request is put on the work list, the user reads or closes, or the
user sets the marks for the end of a letter and for urgent data. -/
inductive Event
  | segment (n : Th)
  | work
  | clock
  | request (w : Work)
  | read (count : Nat)
  | close
  | marks (eol urg : Bool)

/-- A request that comes from outside the machine once the connection has been opened. -/
def Work.isRequest : Work → Bool
  | .uclose | .urecv | .usend _ | .uabort | .nclear => true
  | _ => false

/-- The effect of an event. -/
def fsm (env : Env) (c : Conn) : Event → Conn
  | .segment n => tcpSegment env c n
  | .work => takeWork env c
  | .clock => tcpTimeo env c
  | .request w => wAlloc env c w
  | .read count => tcpRead c count
  | .close => netclose c
  | .marks eol urg => c.withUcb { c.ucb with uEol := eol, uUrg := urg }

/-- An event can happen while the control block exists. A segment finds it on the list of
control blocks only once it has been opened, and then no held segment is waiting: `tcp_input`
has run the work list to its end. The data of a send request comes in sound mbufs. -/
structure Enabled (c : Conn) (event : Event) : Prop where
  alive : c.deleted = false
  opened : ∀ n, event = .segment n → c.tcb.tState ≠ .closed ∧ ∀ t, Work.recv t ∉ c.work
  request : ∀ w, event = .request w → w.isRequest = true
  sound : ∀ dat, event = .request (.usend dat) → ∀ m ∈ dat, m.Fits

variable {c other : Conn} {j : Timer}

theorem enabled_work (alive : c.deleted = false) : Enabled c .work :=
  ⟨alive, fun _ other => (nomatch other), fun _ other => (nomatch other),
    fun _ other => (nomatch other)⟩

theorem enabled_segment (n : Th) (alive : c.deleted = false) (opened : c.tcb.tState ≠ .closed)
    (idle : c.work = []) : Enabled c (.segment n) :=
  ⟨alive, fun _ _ => ⟨opened, fun _ inside => List.not_mem_nil (idle ▸ inside)⟩,
    fun _ other => (nomatch other), fun _ other => (nomatch other)⟩

theorem enabled_clock (alive : c.deleted = false) : Enabled c .clock :=
  ⟨alive, fun _ other => (nomatch other), fun _ other => (nomatch other),
    fun _ other => (nomatch other)⟩

theorem enabled_close (alive : c.deleted = false) : Enabled c .close :=
  ⟨alive, fun _ other => (nomatch other), fun _ other => (nomatch other),
    fun _ other => (nomatch other)⟩

theorem enabled_request {w : Work} (alive : c.deleted = false) (request : w.isRequest = true)
    (sound : ∀ dat, w = .usend dat → ∀ m ∈ dat, m.Fits) :
    Enabled c (.request w) := by
  refine ⟨alive, fun _ other => (nomatch other), fun _ same => ?_, fun _ same => ?_⟩
  · injection same with same
    exact same ▸ request
  · injection same with same
    exact sound _ same

/-- The step relation of the machine. -/
def FsmStep (env : Env) (c : Conn) (event : Event) (next : Conn) : Prop :=
  Enabled c event ∧ next = fsm env c event

/-! ### The graph of states -/

/-- The states an action routine can enter from a state. -/
def TState.targets : TState → List TState
  | .closed => [.listen, .synSent]
  | .listen => [.lSynRcvd, .closeWait]
  | .synSent => [.synRcvd, .estab, .closeWait]
  | .synRcvd => [.estab, .closeWait, .finW1]
  | .lSynRcvd => [.estab, .closeWait, .finW1, .listen]
  | .estab => [.closeWait, .finW1]
  | .finW1 => [.finW2, .timeWait, .closing1]
  | .finW2 => [.timeWait]
  | .timeWait => [.rcvWait]
  | .closeWait => [.closing2]
  | .closing1 => [.timeWait, .rcvWait]
  | .closing2 => [.rcvWait]
  | .rcvWait => [.rcvWait]

/-- The connection has been closed for good: what it held is freed, and so is the user block if the
user has closed too. -/
structure Closed (c : Conn) : Prop where
  deleted : c.deleted = true
  released : c.tcb.usrAbort = true → c.released = true
  sbuf : c.ucb.ucSbuf = []
  rbuf : c.ucb.ucRbuf = []
  unack : c.tcb.tRcvUnack = []
  idle : c.work = []
  stopped : ∀ i, i ≠ .txmt → c.tcb.tTimers i = 0

theorem closed_tClose (c : Conn) (state : BitVec 16) : Closed (tClose c state) := by
  unfold tClose
  dsimp only
  split
  · exact ⟨rfl, fun _ => rfl, rfl, rfl, rfl, rfl, fun i other => if_neg other⟩
  · rename_i open_
    exact ⟨rfl, fun closed => absurd closed open_, rfl, rfl, rfl, rfl, fun i other => if_neg other⟩

theorem closed_enter (closed : Closed c) (s : TState) : Closed (c.enter s) :=
  ⟨closed.deleted, closed.released, closed.sbuf, closed.rbuf, closed.unack, closed.idle, closed.stopped⟩

@[simp] theorem deleted_tClose (c : Conn) (state : BitVec 16) : (tClose c state).deleted = true :=
  (closed_tClose c state).deleted

/-- The connection is closed, or its state has not changed and the routine enters one of the
states, if any. -/
def Outcome.Goes (outcome : Outcome) (c : Conn) (targets : List TState) : Prop :=
  Closed outcome.1 ∨ (outcome.1.tcb.tState = c.tcb.tState ∧ outcome.1.deleted = c.deleted ∧
    ∀ s, outcome.2 = some s → s ∈ targets)

theorem tState_of_fixed (same : other.fixed = c.fixed) :
    other.tcb.tState = c.tcb.tState :=
  congrArg Fixed.tState same

theorem deleted_of_fixed (same : other.fixed = c.fixed) :
    other.deleted = c.deleted :=
  congrArg Fixed.deleted same

theorem Outcome.goes_none {targets : List TState} (same : other.fixed = c.fixed) :
    Outcome.Goes (other, none) c targets :=
  Or.inr ⟨tState_of_fixed same, deleted_of_fixed same, fun _ none => nomatch none⟩

theorem Outcome.goes_some {s : TState} {targets : List TState} (same : other.fixed = c.fixed)
    (inside : s ∈ targets) :
    Outcome.Goes (other, some s) c targets :=
  Or.inr ⟨tState_of_fixed same, deleted_of_fixed same, fun _ equal => Option.some.inj equal ▸ inside⟩

theorem Outcome.goes_tClose (c other : Conn) (state : BitVec 16) (s : Option TState)
    (targets : List TState) : Outcome.Goes (tClose other state, s) c targets :=
  Or.inl (closed_tClose other state)

theorem fixed_startFinack (c : Conn) : (startFinack c).fixed = c.fixed := rfl

section Routines

variable (env : Env) (c : Conn) (n : Th)

theorem fixed_sendFin : (sendFin env c).fixed = c.fixed := by
  have closed (c : Conn) : (c.withTcb { c.tcb with usrClosed := true }).fixed = c.fixed := rfl
  unfold sendFin
  dsimp only
  rw [closed, fixed_sendTcp]
  rfl

theorem lisNetr_goes : (lisNetr env c n).Goes c [.lSynRcvd, .closeWait] := by
  have set (ip : Ifcb) : (lisSource (lisBind c n) ip).fixed = c.fixed := rfl
  unfold lisNetr
  dsimp only
  split
  · exact Outcome.goes_tClose _ _ _ _ _
  · rename_i ip _
    have taken := (fixed_rcvTcp env _ n .data).trans (set ip)
    split
    · exact Outcome.goes_some taken (by decide)
    · exact Outcome.goes_some ((fixed_startFinack _).trans taken) (by decide)

theorem sysNetr_goes :
    (sysNetr env c n).Goes c [.synRcvd, .estab, .closeWait] := by
  have taken := fixed_rcvTcp env c n .data
  unfold sysNetr
  dsimp only
  split
  · refine Outcome.goes_some ?_ (by decide)
    split
    · split
      · rw [fixed_presentData, taken]
      · exact taken
    · rw [fixed_startFinack, taken]
  split
  · exact Outcome.goes_some (by rw [fixed_presentData, taken]) (by decide)
  · exact Outcome.goes_some taken (by decide)

theorem cl1Netr_goes : (cl1Netr env c n).Goes c [.timeWait, .rcvWait] := by
  unfold cl1Netr
  split
  · split
    · exact Outcome.goes_some (by rw [fixed_startFinack, fixed_rcvTcp]) (by decide)
    split
    · split
      · exact Outcome.goes_tClose _ _ _ _ _
      · exact Outcome.goes_some rfl (by decide)
    · exact Outcome.goes_some rfl (by decide)
  split
  · exact Outcome.goes_none (by rw [fixed_startFinack, fixed_rcvTcp])
  · exact Outcome.goes_none (by rw [fixed_presentData, fixed_rcvTcp])

theorem cl2Netr_goes : (cl2Netr env c n).Goes c [.rcvWait] := by
  unfold cl2Netr
  split
  · split
    · exact Outcome.goes_tClose _ _ _ _ _
    · exact Outcome.goes_some rfl (by decide)
  split
  · exact Outcome.goes_none (fixed_sendTcp _ _ _)
  · exact Outcome.goes_none (by rw [fixed_presentData, fixed_rcvTcp])

theorem fw1Netr_goes :
    (fw1Netr env c n).Goes c [.finW2, .timeWait, .closing1] := by
  have taken : (sendTcp env (presentData (rcvTcp env c n .data)) .data).1.fixed = c.fixed := by
    rw [fixed_sendTcp, fixed_presentData, fixed_rcvTcp]
  unfold fw1Netr
  dsimp only
  split
  · split
    · exact Outcome.goes_some ((fixed_startFinack _).trans taken) (by decide)
    · exact Outcome.goes_some taken (by decide)
  split
  · exact Outcome.goes_some ((fixed_startFinack _).trans taken) (by decide)
  · exact Outcome.goes_none taken

theorem syrNetr_goes : (syrNetr env c n).Goes c [.estab, .closeWait] := by
  unfold syrNetr
  refine Outcome.goes_some (by rw [fixed_presentData, fixed_rcvTcp]) ?_
  split <;> decide

theorem estNetr_goes : (estNetr env c n).Goes c [.closeWait] := by
  have taken : (presentData (rcvTcp env c n .data)).fixed = c.fixed := by
    rw [fixed_presentData, fixed_rcvTcp]
  unfold estNetr
  dsimp only
  split
  · exact Outcome.goes_some taken (by decide)
  · exact Outcome.goes_none taken

theorem fw2Netr_goes : (fw2Netr env c n).Goes c [.timeWait] := by
  have taken : (presentData (rcvTcp env c n .data)).fixed = c.fixed := by
    rw [fixed_presentData, fixed_rcvTcp]
  unfold fw2Netr
  dsimp only
  split
  · exact Outcome.goes_some ((fixed_startFinack _).trans taken) (by decide)
  · exact Outcome.goes_none taken

theorem cwtNetr_goes : (cwtNetr env c n).Goes c [] := by
  unfold cwtNetr
  split
  · split
    · exact Outcome.goes_none (by rw [fixed_startFinack, fixed_rcvTcp])
    · exact Outcome.goes_none (fixed_sendTcp _ _ _)
  · exact Outcome.goes_none (by rw [fixed_presentData, fixed_rcvTcp])

theorem rwtNetr_goes : (rwtNetr env c n).Goes c [] := by
  unfold rwtNetr
  split
  · exact Outcome.goes_none (by rw [fixed_startFinack, fixed_rcvTcp])
  · exact Outcome.goes_none rfl

theorem clsRwt_goes : (clsRwt c).Goes c [.rcvWait] := by
  unfold clsRwt
  dsimp only
  split
  · exact Outcome.goes_tClose _ _ _ _ _
  · exact Outcome.goes_some (fixed_presentData c) (by decide)

theorem sssSnd_goes (dat : Chain) : (sssSnd env c dat).Goes c [] := by
  unfold sssSnd
  exact Outcome.goes_none ((fixed_sendTcp _ _ _).trans rfl)

theorem sssRcv_goes : (sssRcv env c).Goes c [] := by
  unfold sssRcv
  dsimp only
  refine Outcome.goes_none ?_
  split
  · rw [fixed_sendTcp, fixed_presentData]
  · exact fixed_presentData c

theorem timers_goes (i : Timer) : (timers env c i).Goes c c.tcb.tState.targets := by
  cases i with
  | txmt => exact Outcome.goes_none rfl
  | tinit =>
    rw [timers]
    split
    · exact Outcome.goes_none rfl
    · exact Outcome.goes_tClose _ _ _ _ _
  | tfinack =>
    rw [timers]
    split
    · rename_i waiting
      split
      · exact Outcome.goes_tClose _ _ _ _ _
      · exact Outcome.goes_some rfl (by rw [waiting]; decide)
    split
    · exact Outcome.goes_none rfl
    · exact Outcome.goes_none rfl
  | trexmt =>
    have set : (c.withTcb (rexmtSetup c.tcb)).fixed = c.fixed := rfl
    rw [timers]
    split
    · exact Outcome.goes_none ((fixed_sendTcp _ _ _).trans set)
    · exact Outcome.goes_none rfl
  | trexmttl =>
    rw [timers]
    split
    all_goals
      split
      · exact Outcome.goes_tClose _ _ _ _ _
      · exact Outcome.goes_none rfl
  | tpersist =>
    have set : (c.withTcb { c.tcb with forceOne := true }).fixed = c.fixed := rfl
    rw [timers]
    exact Outcome.goes_none ((fixed_sendTcp _ _ _).trans set)

theorem Outcome.Goes.wider {c : Conn} {outcome : Outcome} {few many : List TState}
    (goes : outcome.Goes c few) (inside : ∀ x ∈ few, x ∈ many) : outcome.Goes c many :=
  goes.imp id fun kept => ⟨kept.1, kept.2.1, fun x entered => inside x (kept.2.2 x entered)⟩

theorem fsactab_goes (w : Work) {s : TState} (state : s = c.tcb.tState) :
    (fsactab env c w ((fstab s).getD w.input 0)).Goes c s.targets := by
  have stays : Outcome.Goes (c, none) c s.targets := Outcome.goes_none rfl
  have refused : (clsErr c).Goes c s.targets := Outcome.goes_none (fixed_toUser c uclserr)
  have abort : (clsSyn env c).Goes c s.targets := Outcome.goes_tClose _ _ _ _ _
  have present : (sssRcv env c).Goes c s.targets := (sssRcv_goes env c).wider (by simp)
  cases w with
  | uopena =>
    cases s
    case closed => exact Or.inr ⟨rfl, rfl, fun _ entered => by
      rw [← Option.some.inj entered]
      decide⟩
    all_goals exact stays
  | uopenr =>
    cases s
    case closed =>
      have sent := fixed_sendTcp env (tOpen c .active) .ctl
      exact Or.inr ⟨(tState_of_fixed sent).trans rfl, (deleted_of_fixed sent).trans rfl, fun _ entered => by
        rw [← Option.some.inj entered]
        decide⟩
    all_goals exact stays
  | recv n =>
    cases s
    case closed => exact stays
    case listen => exact (lisNetr_goes env c n).wider (by decide)
    case synSent => exact (sysNetr_goes env c n).wider (by decide)
    case synRcvd => exact (syrNetr_goes env c n).wider (by decide)
    case lSynRcvd => exact (syrNetr_goes env c n).wider (by decide)
    case estab => exact (estNetr_goes env c n).wider (by decide)
    case finW1 => exact (fw1Netr_goes env c n).wider (by decide)
    case finW2 => exact (fw2Netr_goes env c n).wider (by decide)
    case timeWait =>
      have taken : (presentData (rcvTcp env c n .data)).fixed = c.fixed := by
        rw [fixed_presentData, fixed_rcvTcp]
      exact (Outcome.goes_none taken).wider (by decide : ∀ x ∈ [], x ∈ _)
    case closeWait => exact (cwtNetr_goes env c n).wider (by decide)
    case closing1 => exact (cl1Netr_goes env c n).wider (by decide)
    case closing2 => exact (cl2Netr_goes env c n).wider (by decide)
    case rcvWait => exact (rwtNetr_goes env c n).wider (by decide)
  | uclose =>
    have closes (target : TState) (inside : target ∈ s.targets) :
        Outcome.Goes (sendFin env c, some target) c s.targets :=
      (Outcome.goes_some (fixed_sendFin env c) (List.mem_singleton_self target)).wider
        fun x member => List.mem_singleton.mp member ▸ inside
    cases s
    case listen => exact Outcome.goes_tClose _ _ _ _ _
    case synSent => exact Outcome.goes_tClose _ _ _ _ _
    case synRcvd => exact closes .finW1 (by decide)
    case lSynRcvd => exact closes .finW1 (by decide)
    case estab => exact closes .finW1 (by decide)
    case closeWait => exact closes .closing2 (by decide)
    all_goals first | exact stays | exact refused
  | timer i =>
    have timed : (timers env c i).Goes c s.targets :=
      (timers_goes env c i).wider (fun x member => state ▸ member)
    cases s
    case closed => exact stays
    all_goals exact timed
  | urecv =>
    cases s
    case rcvWait =>
      exact (clsRwt_goes c).wider (by decide)
    all_goals first | exact stays | exact present
  | usend dat =>
    have sent : (sssSnd env c dat).Goes c s.targets := (sssSnd_goes env c dat).wider (by simp)
    cases s
    case estab => exact sent
    case closeWait => exact sent
    all_goals first | exact stays | exact refused
  | uabort =>
    cases s
    case closed => exact stays
    all_goals first | exact abort | exact Outcome.goes_tClose _ _ _ _ _
  | nclear =>
    cases s
    case closed => exact stays
    all_goals exact Outcome.goes_tClose _ _ _ _ _

end Routines

/-! ### The transitions of the machine -/

/-- A connection has been closed, or its state is the same or one the graph leads to. -/
def Moves (c next : Conn) : Prop :=
  Closed next ∨ (next.deleted = c.deleted ∧
    (next.tcb.tState = c.tcb.tState ∨ next.tcb.tState ∈ c.tcb.tState.targets))

theorem moves_of_fixed {next : Conn} (same : next.fixed = c.fixed) : Moves c next :=
  Or.inr ⟨deleted_of_fixed same, Or.inl (tState_of_fixed same)⟩

theorem action_moves (env : Env) (c : Conn) (w : Work) : Moves c (action env c w) := by
  unfold action
  split
  · exact moves_of_fixed rfl
  have state : c.tcb.tState = c.entered.tcb.tState := rfl
  have goes : Outcome.Goes (fsactab env c.entered w (c.tcb.act w)) c.entered c.tcb.tState.targets :=
    fsactab_goes env c.entered w state
  generalize fsactab env c.entered w (c.tcb.act w) = outcome at goes
  unfold Outcome.conn
  rcases goes with closed | ⟨same, kept, entered⟩
  · split
    · exact Or.inl closed
    · exact Or.inl (closed_enter closed _)
  · split
    · exact Or.inr ⟨kept, Or.inl same⟩
    · rename_i s result
      exact Or.inr ⟨kept, Or.inr (entered s result)⟩

theorem fixed_sendRst (env : Env) (c : Conn) (n : Th) : (sendRst env c n).fixed = c.fixed := by
  have sent (c : Conn) : (rstSend env c).fixed = c.fixed := by
    have done (c : Conn) :
        (c.withTcb { c.tcb with ackDue := false, sndRst := false }).fixed = c.fixed := rfl
    unfold rstSend
    dsimp only
    rw [done, fixed_sendPkt]
  have restored (c other : Conn) : (rstRestore c other).fixed = other.fixed := rfl
  have borrowed (c : Conn) : (rstBorrow c n).fixed = c.fixed := rfl
  have set : (c.withTcb (rstTcb c.tcb n)).fixed = c.fixed := rfl
  unfold sendRst
  split
  · rfl
  dsimp only
  split
  · rw [restored, sent, borrowed, set]
  · rw [sent, set]

/-- A segment the machine sees: what the check has found in the state of the connection. -/
structure Accepted (c : Conn) (n : Th) : Prop where
  noRst : n.tFlags.rst = false
  listening : c.tcb.tState = .listen → n.tFlags.ack = false ∧ n.tFlags.syn = true
  sent : c.tcb.tState = .synSent → n.tFlags.syn = true
  opened : c.tcb.tState ≠ .listen → c.tcb.tState ≠ .synSent →
    ¬ outside c n ∧ n.tFlags.syn = false ∧ n.tFlags.ack = true
  good : n.tFlags.ack = true → ackOk c.tcb n

/-- A segment that is answered with a reset and dropped. -/
structure Reset (c : Conn) (n : Th) : Prop where
  ack : n.tFlags.ack = true
  half : c.tcb.tState = .listen ∨ c.tcb.tState = .synSent ∨ c.tcb.tState = .synRcvd ∨
    c.tcb.tState = .lSynRcvd
  bad : c.tcb.tState ≠ .listen → ¬ ackOk c.tcb n

/-- Everything the check of a segment can do. -/
inductive Checked (env : Env) (c : Conn) (n : Th) : Conn × Verdict → Prop
  | accept (accepted : Accepted c n) : Checked env c n (c, .accept)
  | eat : Checked env c n (c, .eat)
  | answer (opened : c.tcb.tState ≠ .listen) (sent : c.tcb.tState ≠ .synSent)
      (away : outside c n) : Checked env c n ((sendTcp env c .ctl).1, .eat)
  | reset (bad : Reset c n) : Checked env c n (sendRst env c n, .eat)
  | relisten (listening : c.tcb.tState = .lSynRcvd) (inside : ¬ outside c n)
      (rst : n.tFlags.rst = true) : Checked env c n (relisten c, .enter .listen)
  | close {next : Conn} (closed : Closed next) : Checked env c n (next, .enter .closed)

theorem netpreprListen_checked (env : Env) (c : Conn) (n : Th) (state : c.tcb.tState = .listen) :
    Checked env c n (netpreprListen env c n) := by
  unfold netpreprListen
  split
  · exact .eat
  rename_i noRst
  split
  · rename_i ack
    exact .reset ⟨ack, Or.inl state, fun other => absurd state other⟩
  rename_i noAck
  split
  · rename_i syn
    refine .accept ⟨by simpa using noRst, fun _ => ⟨by simpa using noAck, syn⟩, fun _ => syn,
      fun other => absurd state other, fun ack => absurd ack noAck⟩
  · exact .eat

theorem netpreprSynSent_checked (env : Env) (c : Conn) (n : Th)
    (state : c.tcb.tState = .synSent) : Checked env c n (netpreprSynSent env c n) := by
  unfold netpreprSynSent
  split
  · rename_i bad
    exact .reset ⟨bad.1, Or.inr (Or.inl state), fun _ => bad.2⟩
  rename_i good
  split
  · split
    · exact .close (closed_tClose _ _)
    · exact .eat
  rename_i noRst
  split
  · rename_i syn
    refine .accept ⟨by simpa using noRst, fun other => ?_, fun _ => syn,
      fun _ other => absurd state other, fun ack => ?_⟩
    · rw [state] at other
      cases other
    · by_contra bad
      exact good ⟨ack, bad⟩
  · exact .eat

theorem netpreprOpen_checked (env : Env) (c : Conn) (n : Th) (opened : c.tcb.tState ≠ .listen)
    (sent : c.tcb.tState ≠ .synSent) : Checked env c n (netpreprOpen env c n) := by
  unfold netpreprOpen
  split
  · rename_i away
    exact .answer opened sent away
  rename_i inside
  split
  · rename_i rst
    split
    · rename_i listening
      exact .relisten listening inside rst
    · exact .close (closed_tClose _ _)
  rename_i noRst
  split
  · exact .close (closed_tClose _ _)
  rename_i noSyn
  split
  · rename_i ack
    split
    · rename_i good
      exact .accept ⟨by simpa using noRst, fun other => absurd other opened,
        fun other => absurd other sent, fun _ _ => ⟨inside, by simpa using noSyn, ack⟩,
        fun _ => good⟩
    rename_i bad
    split
    · rename_i half
      exact .reset ⟨ack, Or.inr (Or.inr half), fun _ => bad⟩
    · exact .eat
  · exact .eat

theorem netprepr_checked (env : Env) (c : Conn) (n : Th) : Checked env c n (netprepr env c n) := by
  unfold netprepr
  split
  · rename_i state
    exact netpreprListen_checked env c n state
  · rename_i state
    exact netpreprSynSent_checked env c n state
  · rename_i opened sent
    exact netpreprOpen_checked env c n opened sent

theorem fixed_tcpOpt (c : Conn) (n : Th) : (tcpOpt c n).fixed = c.fixed := by
  unfold tcpOpt
  split
  · rfl
  · split <;> rfl

theorem fixed_relisten (c : Conn) : (relisten c).fixed = c.fixed := by
  have forgets (c : Conn) : (c.withUcb { c.ucb with ucHost := 0, ucRoute := none }).fixed =
      c.fixed := rfl
  unfold relisten
  dsimp only
  rw [forgets, fixed_tCancel, fixed_tCancel, fixed_tCancel]

theorem moves_congr {next : Conn} (same : other.fixed = c.fixed) (moves : Moves other next) :
    Moves c next := by
  unfold Moves at moves ⊢
  rwa [tState_of_fixed same, deleted_of_fixed same] at moves

theorem tcpAccept_moves (env : Env) (c : Conn) (n : Th) : Moves c (tcpAccept env c n) := by
  have ticked : c.tick.fixed = c.fixed := rfl
  unfold tcpAccept
  split
  · split
    · exact moves_of_fixed rfl
    · exact moves_congr ticked (action_moves _ _ _)
  · exact action_moves _ _ _

theorem tcpSegment_moves (env : Env) (c : Conn) (n : Th) : Moves c (tcpSegment env c n) := by
  have opted := fixed_tcpOpt c n
  have checked := netprepr_checked env (tcpOpt c n) n
  unfold tcpSegment
  dsimp only
  generalize netprepr env (tcpOpt c n) n = result at checked
  cases checked with
  | accept accepted => exact moves_congr opted (tcpAccept_moves _ _ _)
  | eat => exact moves_of_fixed opted
  | answer _ _ _ => exact moves_of_fixed ((fixed_sendTcp _ _ _).trans opted)
  | reset _ => exact moves_of_fixed ((fixed_sendRst _ _ _).trans opted)
  | relisten listening _ _ =>
    rw [tState_of_fixed opted] at listening
    refine Or.inr ⟨?_, Or.inr ?_⟩
    · rw [Conn.enter_deleted, deleted_of_fixed ((fixed_relisten _).trans opted)]
    · rw [Conn.enter_tState, listening]
      decide
  | close closed => exact Or.inl (closed_enter closed _)

/-! ### The clock -/

/-- The connection without what the timer update may change. -/
def Conn.clockErased (c : Conn) : Conn :=
  { c with tcb := { c.tcb with tTimers := fun _ => 0 }, work := [], nIss := 0, clock := 0 }

/-- Some timers have been counted down: one that is off stays off, one that has more than a
second left loses a second, and a timer is entered on the work list only in its last second. -/
structure Ticked (counted : List Timer) (c next : Conn) : Prop where
  off : ∀ i ∈ counted, c.tcb.tTimers i = 0 → next.tcb.tTimers i = 0
  running : ∀ i ∈ counted, 1 < c.tcb.tTimers i → next.tcb.tTimers i = c.tcb.tTimers i - 1
  work : ∀ w ∈ next.work, w ∈ c.work ∨ ∃ i ∈ counted, w = .timer i ∧ c.tcb.tTimers i = 1
  kept : next.clockErased = c.clockErased
  stays : ∀ w ∈ c.work, w ∈ next.work

theorem clockErased_setTimer (c : Conn) (i : Timer) (value : Nat) :
    (c.withTcb (c.tcb.setTimer i value)).clockErased = c.clockErased := rfl

theorem clockErased_wAlloc (env : Env) (c : Conn) (i : Timer) :
    (wAlloc env c (.timer i)).clockErased = c.clockErased := by
  unfold wAlloc
  dsimp only
  split <;> rfl

theorem wAlloc_timer (env : Env) (c : Conn) {i : Timer} (other : j ≠ i) :
    (wAlloc env c (.timer i)).tcb.tTimers j = c.tcb.tTimers j ∧
      ∀ w ∈ (wAlloc env c (.timer i)).work, w ∈ c.work ∨ w = .timer i := by
  unfold wAlloc
  dsimp only
  split
  · exact ⟨rfl, fun w inside => by simpa [Conn.tick] using inside⟩
  · exact ⟨if_neg other, fun w inside => Or.inl inside⟩

theorem tcpTimeoOne_other (env : Env) (c : Conn) {i : Timer} (other : j ≠ i) :
    (tcpTimeoOne env c i).tcb.tTimers j = c.tcb.tTimers j := by
  have lowered : (c.tcb.setTimer i (c.tcb.tTimers i - 1)).tTimers j = c.tcb.tTimers j := if_neg other
  unfold tcpTimeoOne
  dsimp only
  split
  · rfl
  split
  · rw [(wAlloc_timer env _ other).1]
    exact lowered
  · exact lowered

theorem tcpTimeoOne_ticked (env : Env) (c : Conn) (i : Timer) :
    Ticked [i] c (tcpTimeoOne env c i) := by
  unfold tcpTimeoOne
  dsimp only
  split
  · rename_i off
    refine ⟨fun _ _ same => same, fun j only more => ?_, fun w inside => Or.inl inside, rfl,
      fun _ inside => inside⟩
    rw [List.mem_singleton.mp only] at more
    omega
  rename_i on
  have itself : (c.tcb.setTimer i (c.tcb.tTimers i - 1)).tTimers i = c.tcb.tTimers i - 1 := if_pos rfl
  split
  · rename_i last
    refine ⟨fun j only off => ?_, fun j only more => ?_, fun w inside => ?_, ?_, fun w inside => ?_⟩
    · rw [List.mem_singleton.mp only] at off
      exact absurd off on
    · rw [List.mem_singleton.mp only] at more
      omega
    · unfold wAlloc at inside
      dsimp only at inside
      split at inside
      · rcases List.mem_append.mp inside with old | added
        · exact Or.inl old
        · exact Or.inr ⟨i, List.mem_singleton_self i, List.mem_singleton.mp added, last⟩
      · exact Or.inl inside
    · rw [clockErased_wAlloc, clockErased_setTimer]
    · unfold wAlloc
      dsimp only
      split
      · exact List.mem_append_left _ inside
      · exact inside
  · rename_i more
    refine ⟨fun j only off => ?_, fun j only _ => ?_, fun w inside => Or.inl inside,
      clockErased_setTimer _ _ _, fun _ inside => inside⟩
    · rw [List.mem_singleton.mp only] at off
      exact absurd off on
    · rw [List.mem_singleton.mp only]
      exact itself

theorem foldl_other (env : Env) {counted : List Timer} (out : j ∉ counted) (c : Conn) :
    (counted.foldl (tcpTimeoOne env) c).tcb.tTimers j = c.tcb.tTimers j := by
  induction counted generalizing c with
  | nil => rfl
  | cons i rest inductionHypothesis =>
    rw [List.mem_cons, not_or] at out
    rw [List.foldl_cons, inductionHypothesis out.2, tcpTimeoOne_other env c out.1]

theorem foldl_ticked (env : Env) {counted : List Timer} (distinct : counted.Nodup) (c : Conn) :
    Ticked counted c (counted.foldl (tcpTimeoOne env) c) := by
  induction counted generalizing c with
  | nil =>
    exact ⟨fun _ inside => absurd inside List.not_mem_nil,
      fun _ inside => absurd inside List.not_mem_nil, fun _ inside => Or.inl inside, rfl,
      fun _ inside => inside⟩
  | cons i rest inductionHypothesis =>
    rw [List.nodup_cons] at distinct
    rw [List.foldl_cons]
    have first := tcpTimeoOne_ticked env c i
    have second := inductionHypothesis distinct.2 (tcpTimeoOne env c i)
    have itself := foldl_other env distinct.1 (tcpTimeoOne env c i)
    have same {j : Timer} (inside : j ∈ rest) :
        (tcpTimeoOne env c i).tcb.tTimers j = c.tcb.tTimers j := by
      refine tcpTimeoOne_other env c ?_
      rintro rfl
      exact distinct.1 inside
    refine ⟨fun j inside off => ?_, fun j inside more => ?_, fun w inside => ?_,
      second.kept.trans first.kept, fun w inside => second.stays w (first.stays w inside)⟩
    · rcases List.mem_cons.mp inside with rfl | inside
      · rw [itself]
        exact first.off j (List.mem_singleton_self j) off
      · exact second.off j inside (by rw [same inside, off])
    · rcases List.mem_cons.mp inside with rfl | inside
      · rw [itself]
        exact first.running j (List.mem_singleton_self j) more
      · rw [second.running j inside (by rw [same inside]; exact more), same inside]
    · rcases second.work w inside with old | ⟨j, counted, rfl, last⟩
      · rcases first.work w old with older | ⟨j, counted, shape, last⟩
        · exact Or.inl older
        · exact Or.inr ⟨j, by rw [List.mem_singleton.mp counted]; exact List.mem_cons_self, shape, last⟩
      · rw [same counted] at last
        exact Or.inr ⟨j, List.mem_cons_of_mem _ counted, rfl, last⟩

/-- The timers that cause events. -/
abbrev countedTimers : List Timer := [.tinit, .trexmt, .trexmttl, .tpersist, .tfinack]

theorem tcpTimeo_ticked (env : Env) (c : Conn) : Ticked countedTimers c (tcpTimeo env c) := by
  obtain ⟨off, running, work, kept, stays⟩ := foldl_ticked env (by decide : countedTimers.Nodup) c
  unfold tcpTimeo
  dsimp only
  generalize List.foldl (tcpTimeoOne env) c countedTimers = passed at off running work kept stays
  have measured (value : Nat) {i : Timer} (counted : i ∈ countedTimers) :
      (passed.tcb.setTimer .txmt value).tTimers i = passed.tcb.tTimers i := by
    refine if_neg ?_
    rintro rfl
    exact absurd counted (by decide)
  exact ⟨fun i counted zero => (measured _ counted).trans (off i counted zero),
    fun i counted more => (measured _ counted).trans (running i counted more), work, kept, stays⟩

theorem fixed_of_clockErased (same : other.clockErased = c.clockErased) :
    other.fixed = c.fixed :=
  (congrArg Conn.fixed same : other.clockErased.fixed = c.clockErased.fixed)

/-! ### Every event -/

theorem fixed_wAlloc (env : Env) (c : Conn) (w : Work) : (wAlloc env c w).fixed = c.fixed := by
  unfold wAlloc
  split
  all_goals first | rfl | (split <;> rfl)

theorem wAlloc_request (env : Env) (c : Conn) {w : Work} (request : w.isRequest = true) :
    ∃ work clock, wAlloc env c w = { c with work := work, clock := clock } ∧
      (work = c.work ∨ work = c.work ++ [w]) := by
  cases w with
  | uclose => exact ⟨_, c.clock, rfl, Or.inr rfl⟩
  | urecv => exact ⟨_, c.clock, rfl, Or.inr rfl⟩
  | usend dat => exact ⟨_, c.clock, rfl, Or.inr rfl⟩
  | uabort => exact ⟨_, c.clock, rfl, Or.inr rfl⟩
  | nclear =>
    unfold wAlloc
    dsimp only
    split
    · exact ⟨_, c.clock + 1, rfl, Or.inr rfl⟩
    · exact ⟨c.work, c.clock + 1, rfl, Or.inl rfl⟩
  | _ => exact absurd request (by simp [Work.isRequest])

theorem fsm_moves (env : Env) (c : Conn) (event : Event) : Moves c (fsm env c event) := by
  cases event with
  | segment n => exact tcpSegment_moves env c n
  | work =>
    rw [fsm]
    unfold takeWork
    split
    · exact moves_of_fixed rfl
    · rename_i w rest _
      have taken : Conn.fixed { c with work := rest } = c.fixed := rfl
      exact moves_congr taken (action_moves env _ w)
  | clock => exact moves_of_fixed (fixed_of_clockErased (tcpTimeo_ticked env c).kept)
  | request w => exact moves_of_fixed (fixed_wAlloc env c w)
  | read count => exact moves_of_fixed (fixed_of_receiveErased (receiveErased_tcpRead c count))
  | close =>
    rw [fsm]
    unfold netclose
    dsimp only
    split <;> exact Or.inr ⟨rfl, Or.inl rfl⟩
  | marks eol urg => exact moves_of_fixed rfl

end NetworkUnix.Bbnnet
