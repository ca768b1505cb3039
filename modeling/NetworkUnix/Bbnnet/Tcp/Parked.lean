/-
This file proves when a connection the user has closed can be left in RCV_WAIT.
Every way into RCV_WAIT tests first whether the user still has something to
receive, so the close itself has to come while the connection waits there.
-/

import NetworkUnix.Bbnnet.Tcp.Fsm
import NetworkUnix.Bbnnet.Tcp.Reset

namespace NetworkUnix.Bbnnet

/-! ### Entries that end a wait -/

/-- An entry of the work list that deletes a connection the user has closed from RCV_WAIT. -/
def Work.ends : Work → Bool
  | .urecv | .uabort | .nclear => true
  | _ => false

/-- Entries that end a wait stay on the work list. -/
def KeepsEnds (c next : Conn) : Prop := ∀ w ∈ c.work, w.ends = true → w ∈ next.work

theorem KeepsEnds.trans {c middle next : Conn} (first : KeepsEnds c middle)
    (second : KeepsEnds middle next) : KeepsEnds c next :=
  fun w inside ends => second w (first w inside ends) ends

theorem keepsEnds_of_work {c next : Conn} (same : next.work = c.work) : KeepsEnds c next :=
  fun _ inside _ => same ▸ inside

theorem keepsEnds_withTcb (c : Conn) (tp : Tcb) : KeepsEnds c (c.withTcb tp) :=
  keepsEnds_of_work rfl

theorem keepsEnds_of_sendErased {c next : Conn} (same : next.sendErased = c.sendErased) :
    KeepsEnds c next :=
  keepsEnds_of_work (congrArg Conn.work same : next.sendErased.work = c.sendErased.work)

theorem keepsEnds_of_receiveErased {c next : Conn} (same : next.receiveErased = c.receiveErased) :
    KeepsEnds c next := by
  have work : next.work.filter (fun w => !w.isRecv) = c.work.filter fun w => !w.isRecv :=
    (congrArg Conn.work same : next.receiveErased.work = c.receiveErased.work)
  intro w inside ends
  have kept : w ∈ c.work.filter fun w => !w.isRecv := by
    refine List.mem_filter.mpr ⟨inside, ?_⟩
    cases w <;> first | rfl | exact absurd ends (by simp [Work.ends])
  rw [← work] at kept
  exact List.mem_of_mem_filter kept

theorem keepsEnds_tCancel (c : Conn) (i : Timer) : KeepsEnds c (tCancel c i) := by
  intro w inside ends
  refine List.mem_filter.mpr ⟨inside, ?_⟩
  cases w <;> first | rfl | exact absurd ends (by simp [Work.ends])

theorem keepsEnds_rcvAck (c : Conn) (n : Th) : KeepsEnds c (rcvAck c n) := by
  have opening (c : Conn) : KeepsEnds c (ackOpening c) := by
    unfold ackOpening
    split
    · exact keepsEnds_tCancel _ .tinit
    · exact keepsEnds_of_work rfl
  have buffer (c : Conn) (len : Int) : KeepsEnds c (ackBuffer c len) := keepsEnds_of_work rfl
  have closing (c : Conn) : KeepsEnds c (ackClosing c) := by
    unfold ackClosing
    split <;> exact keepsEnds_of_work rfl
  have stopped (c : Conn) : KeepsEnds c (ackTimers c) :=
    (keepsEnds_tCancel c .trexmt).trans (keepsEnds_tCancel _ .trexmttl)
  unfold rcvAck
  dsimp only
  refine KeepsEnds.trans ?_ (stopped _)
  refine KeepsEnds.trans ?_ (closing _)
  refine KeepsEnds.trans ?_ (buffer _ _)
  exact (keepsEnds_withTcb c _).trans (opening _)

theorem keepsEnds_rcvHeader (c : Conn) (n : Th) : KeepsEnds c (rcvHeader c n) := by
  have syn (c : Conn) : KeepsEnds c (rcvSyn c n) := by
    unfold rcvSyn
    split <;> exact keepsEnds_of_work rfl
  have ackno (c : Conn) : KeepsEnds c (rcvAckno c n) := by
    unfold rcvAckno
    split
    · exact keepsEnds_rcvAck c n
    · exact keepsEnds_of_work rfl
  have window (c : Conn) : KeepsEnds c (rcvWindow c n) := by
    unfold rcvWindow
    split
    · exact keepsEnds_tCancel _ .tpersist
    · exact keepsEnds_of_work rfl
  unfold rcvHeader
  dsimp only
  refine KeepsEnds.trans ?_ (window _)
  refine KeepsEnds.trans ?_ (ackno _)
  exact (keepsEnds_withTcb c _).trans (syn _)

theorem keepsEnds_rcvTcp (env : Env) (c : Conn) (n : Th) (call : Ctl) :
    KeepsEnds c (rcvTcp env c n call) := by
  have reply (c : Conn) : KeepsEnds c (rcvReply env c).1 := by
    unfold rcvReply
    split
    · exact keepsEnds_of_sendErased (sendErased_sendTcp env c .ctl)
    split
    · exact keepsEnds_of_sendErased (sendErased_sendTcp env c .data)
    · exact keepsEnds_of_work rfl
  unfold rcvTcp
  dsimp only
  refine KeepsEnds.trans ?_ (keepsEnds_withTcb _ _)
  refine KeepsEnds.trans ?_ (reply _)
  refine KeepsEnds.trans ?_ (keepsEnds_of_receiveErased (receiveErased_rcvFin _ _ _))
  split
  · exact (keepsEnds_rcvHeader c n).trans
      (keepsEnds_of_receiveErased (receiveErased_rcvData env _ n))
  · exact keepsEnds_rcvHeader c n

/-! ### Waiting for the user to receive -/

/-- If the user has closed a connection in RCV_WAIT, an entry that ends the wait is on the work
list. -/
def Unparked (c : Conn) : Prop :=
  c.tcb.tState = .rcvWait → c.tcb.usrAbort = true → ∃ w ∈ c.work, w.ends = true

theorem unparked_of_keepsEnds {c next : Conn} (unparked : Unparked c) (same : next.fixed = c.fixed)
    (keeps : KeepsEnds c next) : Unparked next := by
  intro state closed
  rw [tState_of_fixed same] at state
  have closed : c.tcb.usrAbort = true := (congrArg Fixed.usrAbort same).symm.trans closed
  obtain ⟨w, inside, ends⟩ := unparked state closed
  exact ⟨w, keeps w inside ends, ends⟩

theorem unparked_of_state {c : Conn} (elsewhere : c.tcb.tState ≠ .rcvWait) : Unparked c :=
  fun state => absurd state elsewhere

theorem unparked_of_open {c : Conn} (still : c.tcb.usrAbort = false) : Unparked c :=
  fun _ closed => absurd (still.symm.trans closed) (by decide)

theorem open_of_rcvEmpty {c : Conn} (more : rcvEmpty c = false) : c.tcb.usrAbort = false := by
  unfold rcvEmpty at more
  rw [Bool.or_eq_false_iff] at more
  exact more.1

/-- The connection is deleted or not parked. -/
def Released (c : Conn) : Prop := c.deleted = true ∨ Unparked c

/-- The routine deletes the connection, enters a state other than RCV_WAIT, enters RCV_WAIT while
the user has not closed, or stays with the entries that end a wait. -/
def Outcome.Releases (c : Conn) (outcome : Outcome) : Prop :=
  outcome.1.deleted = true ∨ (∃ s, outcome.2 = some s ∧ (s = .rcvWait → outcome.1.tcb.usrAbort = false)) ∨
    (outcome.2 = none ∧ outcome.1.fixed = c.fixed ∧ KeepsEnds c outcome.1)

theorem released_of_releases {c : Conn} {outcome : Outcome} (releases : outcome.Releases c)
    (unparked : Unparked c) : Released outcome.conn := by
  unfold Outcome.conn
  rcases releases with deleted | ⟨s, entered, still⟩ | ⟨stays, same, keeps⟩
  · split <;> exact Or.inl deleted
  · rw [entered]
    by_cases waiting : s = .rcvWait
    · exact Or.inr (unparked_of_open (still waiting))
    · exact Or.inr (unparked_of_state waiting)
  · rw [stays]
    exact Or.inr (unparked_of_keepsEnds unparked same keeps)

section Routines

variable {env : Env} {c : Conn}

theorem Outcome.releases_same {other : Conn} (same : other.fixed = c.fixed)
    (keeps : KeepsEnds c other) : Outcome.Releases c (other, none) :=
  Or.inr (Or.inr ⟨rfl, same, keeps⟩)

theorem Outcome.releases_enter {other : Conn} {s : TState} (elsewhere : s ≠ .rcvWait) :
    Outcome.Releases c (other, some s) :=
  Or.inr (Or.inl ⟨s, rfl, fun waiting => absurd waiting elsewhere⟩)

theorem Outcome.releases_rcvWait (other : Conn) (state : BitVec 16) :
    Outcome.Releases c
      (if rcvEmpty other then (tClose other state, some .closed) else (other, some .rcvWait)) := by
  split
  · exact Or.inl (deleted_tClose _ _)
  · rename_i more
    exact Or.inr (Or.inl ⟨_, rfl, fun _ => open_of_rcvEmpty (by simpa using more)⟩)

theorem Outcome.releases_sendTcp {other : Conn} (same : other.fixed = c.fixed)
    (keeps : KeepsEnds c other) (call : Ctl) :
    Outcome.Releases c ((sendTcp env other call).1, none) :=
  Outcome.releases_same ((fixed_sendTcp env other call).trans same)
    (keeps.trans (keepsEnds_of_sendErased (sendErased_sendTcp env other call)))

theorem Outcome.releases_rcvTcp (n : Th) : Outcome.Releases c (startFinack (rcvTcp env c n .ctl), none) :=
  Outcome.releases_same ((fixed_startFinack _).trans (fixed_rcvTcp env c n .ctl))
    ((keepsEnds_rcvTcp env c n .ctl).trans (keepsEnds_withTcb _ _))

theorem Outcome.releases_presentData (n : Th) :
    Outcome.Releases c (presentData (rcvTcp env c n .data), none) :=
  Outcome.releases_same ((fixed_presentData _).trans (fixed_rcvTcp env c n .data))
    ((keepsEnds_rcvTcp env c n .data).trans
      (keepsEnds_of_receiveErased (receiveErased_presentData _)))

theorem cl1Netr_releases (n : Th) : (cl1Netr env c n).Releases c := by
  unfold cl1Netr
  split
  · split
    · exact Outcome.releases_enter (by decide)
    split
    · exact Outcome.releases_rcvWait c uclosed
    · exact Outcome.releases_enter (by decide)
  split
  · exact Outcome.releases_rcvTcp n
  · exact Outcome.releases_presentData n

theorem cl2Netr_releases (n : Th) : (cl2Netr env c n).Releases c := by
  unfold cl2Netr
  split
  · exact Outcome.releases_rcvWait c uclosed
  split
  · exact Outcome.releases_sendTcp rfl (keepsEnds_of_work rfl) .ctl
  · exact Outcome.releases_presentData n

theorem rwtNetr_releases (n : Th) : (rwtNetr env c n).Releases c := by
  unfold rwtNetr
  split
  · exact Outcome.releases_rcvTcp n
  · exact Outcome.releases_same rfl (keepsEnds_of_work rfl)

theorem timers_releases (i : Timer) : (timers env c i).Releases c := by
  have stays : Outcome.Releases c (c, none) := Outcome.releases_same rfl (keepsEnds_of_work rfl)
  cases i with
  | txmt => exact stays
  | tinit =>
    rw [timers]
    split
    · exact stays
    · exact Or.inl (deleted_tClose _ _)
  | tfinack =>
    have waited : (c.withTcb { c.tcb with waited2Ml := true }).fixed = c.fixed := rfl
    rw [timers]
    split
    · exact Outcome.releases_rcvWait c uclosed
    split
    · exact Outcome.releases_same waited (keepsEnds_withTcb _ _)
    · exact stays
  | trexmt =>
    have set : (c.withTcb (rexmtSetup c.tcb)).fixed = c.fixed := rfl
    rw [timers]
    split
    · exact Outcome.releases_sendTcp set (keepsEnds_withTcb _ _) .data
    · exact stays
  | trexmttl =>
    rw [timers]
    split
    all_goals
      split
      · exact Or.inl (deleted_tClose _ _)
      · exact Outcome.releases_same rfl (keepsEnds_of_work rfl)
  | tpersist =>
    have set : (c.withTcb { c.tcb with forceOne := true }).fixed = c.fixed := rfl
    rw [timers]
    exact Outcome.releases_sendTcp set (keepsEnds_withTcb _ _) .data

theorem rcvWait_releases {w : Work} {s : TState} (waiting : s = .rcvWait) :
    (fsactab env c w ((fstab s).getD w.input 0)).Releases c := by
  have stays : Outcome.Releases c (c, none) := Outcome.releases_same rfl (keepsEnds_of_work rfl)
  have refused : (clsErr c).Releases c :=
    Outcome.releases_same (fixed_toUser c uclserr) (keepsEnds_of_work rfl)
  rw [waiting]
  cases w
  case recv n => exact rwtNetr_releases n
  case timer i => exact timers_releases i
  case urecv => exact Outcome.releases_rcvWait (presentData c) uclosed
  case uclose => exact refused
  case usend => exact refused
  case uopena => exact stays
  case uopenr => exact stays
  case uabort => exact Or.inl (deleted_tClose _ _)
  case nclear => exact Or.inl (deleted_tClose _ _)

theorem rcvWait_ends {w : Work} {s : TState} (waiting : s = .rcvWait) (ends : w.ends = true)
    (closed : c.tcb.usrAbort = true) :
    (fsactab env c w ((fstab s).getD w.input 0)).1.deleted = true := by
  rw [waiting]
  cases w
  case urecv =>
    have same : (presentData c).tcb.usrAbort = true :=
      (congrArg Fixed.usrAbort (fixed_presentData c)).trans closed
    have empty : rcvEmpty (presentData c) = true := by
      rw [rcvEmpty, same, Bool.true_or]
    change (clsRwt c).1.deleted = true
    unfold clsRwt
    dsimp only
    rw [if_pos empty]
    exact deleted_tClose _ _
  case uabort => exact deleted_tClose _ _
  case nclear => exact deleted_tClose _ _
  all_goals exact absurd ends (by simp [Work.ends])

theorem released_of_goes {outcome : Outcome} {targets : List TState}
    (goes : outcome.Goes c targets) (elsewhere : c.tcb.tState ≠ .rcvWait) (stays : outcome.2 ≠ some .rcvWait) :
    Released outcome.conn := by
  unfold Outcome.conn
  rcases goes with closed | ⟨same, _⟩
  · split <;> exact Or.inl closed.deleted
  · split
    · exact Or.inr (unparked_of_state (by rw [same]; exact elsewhere))
    · rename_i t entered
      refine Or.inr (unparked_of_state ?_)
      rintro rfl
      exact stays entered

theorem closing_released {w : Work} {s : TState} (state : s = c.tcb.tState)
    (closing : s = .timeWait ∨ s = .closing1 ∨ s = .closing2) :
    Released (fsactab env c w ((fstab s).getD w.input 0)).conn := by
  have elsewhere : s ≠ .rcvWait := by
    rintro rfl
    exact absurd closing (by decide)
  have unparked : Unparked c := unparked_of_state (state ▸ elsewhere)
  have goes := fsactab_goes env c w state
  cases w with
  | recv n =>
    rcases closing with rfl | rfl | rfl
    · exact released_of_goes goes (state ▸ elsewhere) (fun entered => nomatch entered)
    · exact released_of_releases (cl1Netr_releases n) unparked
    · exact released_of_releases (cl2Netr_releases n) unparked
  | timer i => rcases closing with rfl | rfl | rfl <;>
      exact released_of_releases (timers_releases i) unparked
  | _ =>
    refine released_of_goes goes (state ▸ elsewhere) fun entered => ?_
    rcases closing with rfl | rfl | rfl <;> exact nomatch entered

theorem rcvWait_targets (s : TState) (target : TState.rcvWait ∈ s.targets) :
    s = .rcvWait ∨ s = .timeWait ∨ s = .closing1 ∨ s = .closing2 := by
  cases s <;> first | exact absurd target (by decide) | decide

theorem action_released (w : Work) (unparked : Unparked c) : Released (action env c w) := by
  by_cases into : TState.rcvWait ∈ c.tcb.tState.targets
  · have state : c.tcb.tState = c.entered.tcb.tState := rfl
    unfold action
    split
    · exact Or.inr unparked
    rcases rcvWait_targets _ into with waiting | closing
    · have entered : Unparked c.entered := unparked
      exact released_of_releases (rcvWait_releases waiting) entered
    · exact closing_released state closing
  · have elsewhere : c.tcb.tState ≠ .rcvWait := by
      intro waiting
      rw [waiting] at into
      exact into (by decide)
    rcases action_moves env c w with closed | ⟨_, same | target⟩
    · exact Or.inl closed.deleted
    · exact Or.inr (unparked_of_state (same ▸ elsewhere))
    · refine Or.inr (unparked_of_state ?_)
      intro waiting
      rw [waiting] at target
      exact into target

theorem action_ends {w : Work} (waiting : c.tcb.tState = .rcvWait) (ends : w.ends = true)
    (closed : c.tcb.usrAbort = true) : (action env c w).deleted = true := by
  have entered : c.entered.tcb.usrAbort = true := closed
  have deleted := @rcvWait_ends env c.entered w _ waiting ends entered
  have valid : (fstab c.tcb.tState).getD w.input 0 ≠ 0 := by
    rw [waiting]
    cases w <;> first | decide | exact absurd ends (by simp [Work.ends])
  unfold action Tcb.act
  rw [if_neg valid]
  unfold Outcome.conn
  split <;> exact deleted

theorem takeWork_released (unparked : Unparked c) : Released (takeWork env c) := by
  unfold takeWork
  split
  · exact Or.inr unparked
  rename_i w rest work
  by_cases ended : c.tcb.tState = .rcvWait ∧ c.tcb.usrAbort = true ∧ w.ends = true
  · exact Or.inl (@action_ends env { c with work := rest } w ended.1 ended.2.2 ended.2.1)
  · refine action_released w fun waiting closed => ?_
    obtain ⟨entry, inside, ends⟩ := unparked waiting closed
    rw [work] at inside
    rcases List.mem_cons.mp inside with rfl | inside
    · exact absurd ⟨waiting, closed, ends⟩ ended
    · exact ⟨entry, inside, ends⟩

theorem tcpAccept_released (unparked : Unparked c) (n : Th) : Released (tcpAccept env c n) := by
  have ticked : Unparked c.tick := unparked
  unfold tcpAccept
  split
  · split
    · exact Or.inr unparked
    · exact action_released _ ticked
  · exact action_released _ unparked

theorem tcpSegment_released (unparked : Unparked c) (n : Th) : Released (tcpSegment env c n) := by
  have opted : Unparked (tcpOpt c n) := by
    refine unparked_of_keepsEnds unparked (fixed_tcpOpt c n) (keepsEnds_of_work ?_)
    unfold tcpOpt
    split
    · rfl
    · split <;> rfl
  have checked := netprepr_checked env (tcpOpt c n) n
  unfold tcpSegment
  dsimp only
  generalize tcpOpt c n = d at opted checked
  generalize netprepr env d n = result at checked
  cases checked with
  | accept _ => exact tcpAccept_released opted n
  | eat => exact Or.inr opted
  | answer _ _ _ =>
    exact Or.inr (unparked_of_keepsEnds opted (fixed_sendTcp env d .ctl)
      (keepsEnds_of_sendErased (sendErased_sendTcp env d .ctl)))
  | reset bad =>
    refine Or.inr (unparked_of_state ?_)
    rw [tState_of_fixed (fixed_sendRst env d n)]
    rintro waiting
    have half := bad.half
    rw [waiting] at half
    exact absurd half (by decide)
  | relisten _ _ _ => exact Or.inr (unparked_of_state (by rw [Conn.enter_tState]; decide))
  | close closed => exact Or.inl closed.deleted

end Routines

/-! ### Every run -/

/-- A close in RCV_WAIT comes only while an entry that ends the wait is on the work list. -/
def ClosesInTime (c : Conn) (event : Event) : Prop :=
  event = .close → c.tcb.tState = .rcvWait → ∃ w ∈ c.work, w.ends = true

theorem fsm_released {env : Env} {c : Conn} {event : Event} (enabled : Enabled c event)
    (inTime : ClosesInTime c event) (unparked : Unparked c) : Released (fsm env c event) := by
  cases event with
  | segment n => exact tcpSegment_released unparked n
  | work => exact takeWork_released unparked
  | clock =>
    have ticked := tcpTimeo_ticked env c
    exact Or.inr (unparked_of_keepsEnds unparked (fixed_of_clockErased ticked.kept)
      fun w inside _ => ticked.stays w inside)
  | request w =>
    obtain ⟨work, clock, same, grown⟩ := wAlloc_request env c (enabled.request w rfl)
    rw [fsm, same]
    refine Or.inr (unparked_of_keepsEnds unparked rfl fun entry inside _ => ?_)
    rcases grown with rfl | rfl
    · exact inside
    · exact List.mem_append_left _ inside
  | read count => exact Or.inr unparked
  | close =>
    rw [fsm]
    unfold netclose
    dsimp only
    split
    · exact Or.inr fun waiting _ => inTime rfl waiting
    · refine Or.inr fun waiting _ => ?_
      obtain ⟨w, inside, ends⟩ := inTime rfl waiting
      exact ⟨w, List.mem_append_left _ inside, ends⟩
  | marks eol urg => exact Or.inr unparked

/-- A connection is parked: it waits in RCV_WAIT for a user who has closed, and nothing is left that
could happen to it. -/
structure Parked (c : Conn) : Prop where
  alive : c.deleted = false
  waiting : c.tcb.tState = .rcvWait
  closed : c.tcb.usrAbort = true
  idle : c.work = []
  stopped : ∀ i, i ≠ .txmt → c.tcb.tTimers i = 0

/-- In no run in which every close in RCV_WAIT comes in time is a connection parked: an entry that
deletes it is on the work list as long as it waits for a user who has closed; and what deletes it
releases its buffers, and its user block if the user has closed. -/
theorem closed_not_parked (env : Env) (cp : OpenCon) (nIss : Seq) (history : List Event) (c : Conn)
    (run : Transition.Run (Transition.Guarded (FsmStep env) ClosesInTime) (tcpopen cp nIss) history c) :
    ¬ Parked c ∧ (c.deleted = true → Closed c) ∧ (c.deleted = false → Unparked c) := by
  have settled : (c.deleted = true → Closed c) ∧ (c.deleted = false → Unparked c) := by
    refine run.always (fun c => (c.deleted = true → Closed c) ∧ (c.deleted = false → Unparked c))
      ⟨fun deleted => absurd deleted Bool.false_ne_true, fun _ => unparked_of_open rfl⟩ ?_
    rintro c event _ ⟨_, unparked⟩ ⟨inTime, enabled, rfl⟩
    refine ⟨fun deleted => ?_, fun alive => ?_⟩
    · rcases fsm_moves env c event with closed | ⟨same, _⟩
      · exact closed
      · rw [same, enabled.alive] at deleted
        exact absurd deleted (by decide)
    · rcases fsm_released enabled inTime (unparked enabled.alive) with deleted | unparked
      · rw [alive] at deleted
        exact absurd deleted (by decide)
      · exact unparked
  refine ⟨fun parked => ?_, settled⟩
  obtain ⟨_, inside, _⟩ := settled.2 parked.alive parked.waiting parked.closed
  rw [parked.idle] at inside
  exact List.not_mem_nil inside

theorem follows_clock (env : Env) {c : Conn} (alive : c.deleted = false) (seconds : Nat) :
    Transition.Follows (FsmStep env) (fsm env) c (List.replicate seconds .clock) := by
  induction seconds generalizing c with
  | zero => trivial
  | succ seconds inductionHypothesis =>
    have kept : (fsm env c .clock).deleted = false :=
      (deleted_of_fixed (fixed_of_clockErased (tcpTimeo_ticked env c).kept)).trans alive
    exact ⟨⟨enabled_clock alive, rfl⟩, inductionHypothesis kept⟩

/-- An active open, a byte from the peer that is never read, the half close of the user, its ACK and
the FIN of the peer; twenty seconds later the connection waits in RCV_WAIT, and the user closes. -/
def closedLate : List Event :=
  [Event.work, .segment (bareSegment { syn := true, ack := true } 1000 101),
    .segment { bareSegment { ack := true } 1001 101 with
      tLen := 1
      mbufs := [{ mAct := 0, mOff := mhead, mLen := 41, mDat := fun _ => 0 }] },
    .request .uclose, .work, .segment (bareSegment { ack := true } 1002 102),
    .segment (bareSegment { ack := true, fin := true } 1002 102)] ++
  (List.replicate 20 Event.clock ++ [Event.work, .close])

theorem closedLate_follows :
    Transition.Follows (FsmStep host2) (fsm host2) (tcpopen activeOpen 100) closedLate := by
  refine Transition.Follows.append ?_ (Transition.Follows.append (follows_clock host2 (by decide +kernel) 20) ?_)
  · exact ⟨⟨enabled_work rfl, rfl⟩, ⟨enabled_segment _ rfl (by decide) rfl, rfl⟩,
      ⟨enabled_segment _ rfl (by decide) rfl, rfl⟩, ⟨enabled_request rfl rfl fun _ other => (nomatch other), rfl⟩,
      ⟨enabled_work rfl, rfl⟩, ⟨enabled_segment _ rfl (by decide) rfl, rfl⟩,
      ⟨enabled_segment _ rfl (by decide) rfl, rfl⟩, trivial⟩
  · exact ⟨⟨enabled_work (by decide +kernel), rfl⟩, ⟨enabled_close (by decide +kernel), rfl⟩, trivial⟩

/-- A connection that is opened and closed at once. -/
theorem closed_not_parked_early :
    ¬ Parked ([Event.work, .close].foldl (fsm host2) (tcpopen activeOpen 100)) :=
  (closed_not_parked host2 activeOpen 100 [.work, .close]
    ([Event.work, .close].foldl (fsm host2) (tcpopen activeOpen 100))
    (Transition.Run.start.follows ⟨⟨fun other => (nomatch other), enabled_work rfl, rfl⟩,
      ⟨fun _ waiting => absurd waiting (by decide), enabled_close rfl, rfl⟩, trivial⟩)).1

/-- The connection that is closed late is parked. -/
theorem closed_is_parked :
    ¬ ∀ (env : Env) (cp : OpenCon) (nIss : Seq) (history : List Event) (c : Conn),
      Transition.Run (FsmStep env) (tcpopen cp nIss) history c → ¬ Parked c := by
  intro never
  refine never host2 activeOpen 100 _ _ (Transition.Run.start.follows closedLate_follows)
    ⟨by decide +kernel, by decide +kernel, by decide +kernel, ?_, fun i other => ?_⟩
  · exact List.isEmpty_iff.mp (by decide +kernel)
  · cases i <;> first | exact absurd rfl other | decide +kernel

end NetworkUnix.Bbnnet
