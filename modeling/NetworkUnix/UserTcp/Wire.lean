/-
This file proves that segments reach the raw message interface whole. The output
is put together with the scheduler: `PsipOut` is run for the blocks of the work
list, and `PsipIn` sends resets and forwards datagrams through `NetOut`. What is
left of a write is written by the next call of `PsipOut`, so a block for
`PsipOut` has to be on the work list. `PsipOut` sees to that when its block
stays; where another part of the program begins a write or removes blocks, it
depends on the blocks that are there.
-/

import NetworkUnix.UserTcp.NetOut
import NetworkUnix.UserTcp.Scheduler

namespace NetworkUnix.UserTcp.Output

open Process

/-- What the program has when it starts, with the length of the leaders, which is 2 or 6 words. -/
structure NetSetup extends Setup where
  anLngth : Nat
  isLeader : anLngth = 2 ∨ anLngth = 6 := by decide

/-- The scheduler and the output. -/
structure Out where
  tcp : Tcp
  net : Net

/-- What can happen: an act that writes nothing to the net, a call of `PsipOut` with what a write of
the rest takes, and the two places where `PsipIn` sends something. -/
inductive Event
  | other (event : Process.Event)
  | psipOut (finish : Option Nat) (turn : Turn)
  | reset (seg : Segment) (fate : Fate)
  | forward (seg : Segment) (fate : Fate)

/-- The descriptors that the system gives in an event have entries in FdsBffer. -/
def Event.inTable : Event → Bool
  | .other event => event.inTable
  | _ => true

/-- The segment is read again by this host. -/
def Fate.echoes : Fate → Bool
  | .echoed => true
  | _ => false

def Turn.echoes : Turn → Bool
  | .segment _ fate _ _ => fate.echoes
  | _ => false

/-- `PsipOut` goes on behind the rest of the previous segment. -/
def Net.proceeds (count : Option Nat) (s : Net) : Bool := !s.partWr || !(s.finish count).partWr

namespace Out

variable (p : NetSetup)

def start : Out := ⟨.start p.toSetup, .init⟩

/-- The work for `PsipIn` that an echoed segment makes. -/
def echo (echoes : Bool) (tcp : Tcp) : Option Tcp :=
  if echoes then tcp.act p.toSetup .netIn else some tcp

/-- `PsipOut`, with what the scheduler does with its return code. -/
def psipOut (finish : Option Nat) (turn : Turn) (s : Out) : Option Out :=
  match echo p (s.net.proceeds finish && turn.echoes) s.tcp with
  | some tcp =>
    match tcp.act p.toSetup (.ret (s.net.psipOut p.anLngth finish turn).2) with
    | some tcp => some ⟨tcp, (s.net.psipOut p.anLngth finish turn).1⟩
    | none => none
  | none => none

/-- A segment that `PsipIn` sends. -/
def fromIn (seg : Segment) (fate : Fate) (s : Out) : Option Out :=
  match echo p (!s.net.partWr && fate.echoes) s.tcp with
  | some tcp => some ⟨tcp, s.net.unlessPart p.anLngth seg fate⟩
  | none => none

/-- What must be so for an event to happen: which routine is running, for which block, and what a
write and `NetOut` can do. The returns of `PsipOut` and the work for `PsipIn` that `NetOut` makes
are part of the other events, and the segment of FlkBuff is sent only while it is kept. -/
def can (s : Out) : Event → Bool
  | .other (.ret _) => decide (s.tcp.routine ≠ some .netouthp)
  | .other .netIn => false
  | .other .flaky => s.net.flkFlag
  | .other _ => true
  | .psipOut finish turn =>
    decide (s.tcp.routine = some .netouthp) && Net.takes finish s.net.outCnt &&
      s.net.mayTurn p.anLngth turn &&
      match turn with
      | .flaky _ => decide (s.tcp.block.tcbPtr = .flkFlag)
      | _ => decide (s.tcp.block.tcbPtr ≠ .flkFlag)
  | .reset seg fate => decide (s.tcp.routine = some .netinhp) && Net.shaped p.anLngth seg &&
      s.net.mayFate seg fate
  | .forward seg fate => decide (s.tcp.routine = some .netinhp) && Net.shaped p.anLngth seg &&
      s.net.mayFate seg fate && seg.bsl.isEmpty

/-- The effect of an event. -/
def does (s : Out) : Event → Option Out
  | .other event =>
    match s.tcp.act p.toSetup event with
    | some tcp => some { s with tcp }
    | none => none
  | .psipOut finish turn => s.psipOut p finish turn
  | .reset seg fate | .forward seg fate => s.fromIn p seg fate

/-- An event, if it can happen. -/
def act (s : Out) (event : Event) : Option Out := if s.can p event then s.does p event else none

end Out

/-! ### Blocks for PsipOut -/

/-- A block for `PsipOut` with such a pointer is on the work list. -/
def outs (which : TcbPtr → Bool) (tcp : Tcp) : Bool :=
  tcp.work.queue.any fun block => decide ((tcp.work.blks block).portFlags = .netouthp) &&
    which (tcp.work.blks block).tcbPtr

/-- The states in which a connection is aborted at once. -/
def atOnce : ConnState → Bool
  | .closed | .opened | .synsent => true
  | _ => false

/-- A pointer to a control block that is aborted when its user is gone. -/
def doomed (tables : Tables) (fds : Nat) : TcbPtr → Bool
  | .tcb handle => decide ((tables.tcb handle).userCmdPort = fds) &&
      atOnce (tables.tcb handle).state
  | _ => false

/-- A write of a segment that leaves something. -/
def Fate.partly (seg : Segment) : Fate → Bool
  | .written _ (some count) => decide (count ≠ seg.image.length)
  | _ => false

/-- A user who is gone leaves a block for `PsipOut`, of another connection or of one of his that is
still to be reset. -/
def leaves (tcp : Tcp) : Bool :=
  outs (fun ptr => !doomed tcp.tables tcp.block.portFds ptr) tcp ||
    tcp.tables.tcbHd.any fun handle =>
      decide ((tcp.tables.tcb handle).userCmdPort = tcp.block.portFds) &&
        !atOnce (tcp.tables.tcb handle).state

/-- What must be so for the rest of a write to be written: a segment fits in TcpOut; when a reset
or a forwarded datagram is written in part, a block for `PsipOut` is there; and when the blocks of
a connection are removed while something is left, there is another one. -/
def heeds (s : Out) : Event → Bool
  | .reset seg fate | .forward seg fate =>
    s.net.partWr || Net.fits seg && (!fate.partly seg || outs (fun _ => true) s.tcp)
  | .psipOut finish turn =>
    Net.fitsTurn turn &&
      match turn with
      | .segment seg fate aborts _ =>
        !(s.net.proceeds finish && aborts && fate.partly seg) ||
          outs (fun ptr => decide (ptr ≠ s.tcp.block.tcbPtr)) s.tcp
      | _ => true
  | .other (.oabort handle) =>
    !(s.net.partWr && s.tcp.tables.chkPtr handle s.tcp.block.portFds &&
      atOnce (s.tcp.tables.tcb handle).state) ||
      outs (fun ptr => decide (ptr ≠ .tcb handle)) s.tcp
  | .other .cmdClosed | .other .cmdHuh => !s.net.partWr || leaves s.tcp
  | .other _ => true

/-- The condition on a step of a run. -/
abbrev Heeds (s : Out) (event : Event) : Prop := (event.inTable && heeds s event) = true

/-! ### What removes a block for PsipOut -/

section Outs

variable {p : Setup} {tcp next : Tcp} {queue : List WorkPtr} {entries : List WorkBlk}
  {which : TcbPtr → Bool}

theorem outs_iff (sound : tcp.work.Sound queue entries) :
    outs which tcp = true ↔
      ∃ entry ∈ entries, entry.portFlags = .netouthp ∧ which entry.tcbPtr = true := by
  unfold outs
  rw [sound.queue_eq, ← sound.reads]
  simp

/-- The work list is as it was, or one block has been put on it. -/
def Adds (tcp next : Tcp) : Prop :=
  next.work = tcp.work ∨ ∃ entry, tcp.work.makeWrk entry = some next.work

theorem adds_makeWrk {tables : Tables} {entry : WorkBlk}
    (done : { tcp with tables }.makeWrk entry = some next) : Adds tcp next := by
  unfold Tcp.makeWrk at done
  split at done
  next work made =>
    cases done
    exact .inr ⟨entry, made⟩
  next => cases done

theorem Adds.outs (adds : Adds tcp next) (sound : tcp.work.Sound queue entries)
    (few : entries.length < worksize) (before : outs which tcp = true) :
    Output.outs which next = true := by
  obtain ⟨entry, inside, isOut, isWhich⟩ := (outs_iff sound).mp before
  rcases adds with same | ⟨added, made⟩
  · have still : next.work.Sound queue entries := same ▸ sound
    exact (outs_iff still).mpr ⟨entry, inside, isOut, isWhich⟩
  · obtain ⟨work, queue', isWork, after, -⟩ := sound.makeWrk fun (_ : added ∉ entries) => few
    obtain rfl : next.work = work := Option.some.inj (made.symm.trans isWork)
    refine (outs_iff after).mpr ⟨entry, ?_, isOut, isWhich⟩
    by_cases same : entry = added
    · simp [same]
    · simp [inside, same]

theorem Adds.outs_kept (adds : Adds tcp next) (inv : Inv p tcp queue entries)
    (before : Output.outs which tcp = true) : Output.outs which next = true :=
  adds.outs inv.work (backed_lt inv.tables inv.work.distinct inv.backed) before

/-- The loop over the control blocks of a user who is gone leaves a block for `PsipOut`, if there is
one that is not aborted or one of his connections is to be reset. -/
theorem userGone_outs {saveFds : Nat} {handles : List Nat} (inv : Inv p tcp queue entries)
    (distinct : handles.Nodup) (active : ∀ handle ∈ handles, handle ∈ tcp.tables.tcbHd)
    (done : Tcp.userGone p saveFds handles tcp = some next)
    (left : (∃ entry ∈ entries, entry.portFlags = .netouthp ∧ ∀ handle ∈ handles,
        entry.tcbPtr = .tcb handle → doomed tcp.tables saveFds (.tcb handle) = false) ∨
      ∃ handle ∈ handles, (tcp.tables.tcb handle).userCmdPort = saveFds ∧
        atOnce (tcp.tables.tcb handle).state = false) :
    outs (fun _ => true) next = true := by
  induction handles generalizing tcp queue entries with
  | nil =>
    cases done
    rcases left with ⟨entry, inside, isOut, -⟩ | ⟨handle, inside, -⟩
    · exact (outs_iff inv.work).mpr ⟨entry, inside, isOut, rfl⟩
    · cases inside
  | cons handle rest inductionHypothesis =>
    have here := active handle List.mem_cons_self
    have others : ∀ other ∈ rest, other ∈ tcp.tables.tcbHd := fun other inside =>
      active other (List.mem_cons_of_mem _ inside)
    have further := (List.nodup_cons.mp distinct).2
    have alone := (List.nodup_cons.mp distinct).1
    rw [Tcp.userGone] at done
    split at done
    next isUser =>
      cases now : atOnce (tcp.tables.tcb handle).state with
      | true =>
        obtain ⟨after, queue', isAfter, tables, kept⟩ := inv.leave here
        have goes : Tcp.userGone p saveFds rest after = some next := by
          revert done now
          cases (tcp.tables.tcb handle).state <;> simp [atOnce, isAfter]
        have same : after.tables.tcb = tcp.tables.tcb := by
          rw [tables, Tables.abort_tcb]
        have stillActive : ∀ other ∈ rest, other ∈ after.tables.tcbHd := by
          intro other inside
          rw [tables, (tcp.tables.abort_lists here).1,
            inv.tables.active_distinct.mem_erase_iff]
          refine ⟨?_, others other inside⟩
          rintro rfl
          exact alone inside
        refine inductionHypothesis kept further stillActive goes ?_
        rcases left with ⟨entry, inside, isOut, spared⟩ | ⟨other, inside, isOther, reset⟩
        · refine .inl ⟨entry, ?_, isOut, fun other member ptr => ?_⟩
          · refine List.mem_filter.mpr ⟨inside, ?_⟩
            have notHandle : entry.tcbPtr ≠ .tcb handle := by
              intro ptr
              have := spared handle List.mem_cons_self ptr
              simp [doomed, isUser, now] at this
            simpa using notHandle
          · have := spared other (List.mem_cons_of_mem _ member) ptr
            simpa only [doomed, same] using this
        · rcases List.mem_cons.mp inside with rfl | member
          · rw [now] at reset
            cases reset
          · exact .inr ⟨other, member, by rw [same]; exact isOther, by rw [same]; exact reset⟩
      | false =>
        obtain ⟨after, queue', isAfter, kept, tables, -⟩ := inv.makeWrk
          (show Backed p tcp.tables (Tcp.netOut p (.tcb handle)) from
            .inl ⟨rfl, rfl, .inr ⟨handle, here, rfl⟩⟩)
        have goes : Tcp.userGone p saveFds rest after = some next := by
          revert done now
          cases (tcp.tables.tcb handle).state <;> simp [atOnce, isAfter]
        refine inductionHypothesis kept further (fun other inside => tables ▸ others other inside)
          goes (.inl ⟨Tcp.netOut p (.tcb handle), by simp, rfl, fun other _ ptr => ?_⟩)
        obtain rfl : handle = other := TcbPtr.tcb.inj ptr
        simp [doomed, tables, now]
    next notUser =>
      refine inductionHypothesis inv further others done ?_
      rcases left with ⟨entry, inside, isOut, spared⟩ | ⟨other, inside, isOther, reset⟩
      · exact .inl ⟨entry, inside, isOut, fun other member =>
          spared other (List.mem_cons_of_mem _ member)⟩
      · rcases List.mem_cons.mp inside with rfl | member
        · exact absurd isOther notUser
        · exact .inr ⟨other, member, isOther, reset⟩

theorem remove_outs (inv : Inv p tcp queue entries) (inside : tcp.workPtr ∈ queue)
    (other : tcp.block.portFlags ≠ .netouthp) {tables : Tables} (sound : tables.Sound)
    (net : tables.fdsBffer p.netFdsR = tcp.tables.fdsBffer p.netFdsR)
    (backed : ∀ entry ∈ entries, entry ≠ tcp.block → Backed p tables entry)
    (done : { tcp with tables }.remove = some next) :
    next.tables = tables ∧ ∃ queue', Inv p next queue'
      (entries.filter fun entry => !decide (entry = tcp.block)) ∧
      ∀ entry ∈ entries, entry.portFlags = .netouthp →
        entry ∈ entries.filter fun entry => !decide (entry = tcp.block) := by
  obtain ⟨after, queue', removed, isTables, kept⟩ := inv.remove inside sound net backed
  obtain rfl : next = after := Option.some.inj (done.symm.trans removed)
  refine ⟨isTables, queue', kept, fun entry member isOut => List.mem_filter.mpr ⟨member, ?_⟩⟩
  have apart : entry ≠ tcp.block := by
    rintro rfl
    exact other isOut
  simpa using apart

theorem afterClose_outs (inv : Inv p tcp queue entries) (running : tcp.routine = some .usrcmd)
    {tables : Tables} (sound : tables.Sound) (sameTcb : tables.tcb = tcp.tables.tcb)
    (sameHd : tables.tcbHd = tcp.tables.tcbHd)
    (net : tables.fdsBffer p.netFdsR = tcp.tables.fdsBffer p.netFdsR)
    (backed : ∀ entry ∈ entries, entry ≠ tcp.block → Backed p tables entry)
    (done : { tcp with tables }.afterClose p = some next) (left : leaves tcp = true) :
    outs (fun _ => true) next = true := by
  obtain ⟨inside, isUser, -⟩ := inv.queued running
  have other : tcp.block.portFlags ≠ .netouthp := by
    rw [isUser]
    simp
  unfold Tcp.afterClose at done
  split at done
  next after removed =>
    obtain ⟨isTables, queue', kept, stays⟩ := remove_outs inv inside other sound net backed removed
    refine userGone_outs kept kept.tables.active_distinct (fun _ inside => inside) done ?_
    rw [isTables, sameTcb, sameHd]
    unfold leaves at left
    rcases (Bool.or_eq_true _ _).mp left with block | reset
    · obtain ⟨entry, member, isOut, spared⟩ := (outs_iff inv.work).mp block
      refine .inl ⟨entry, stays entry member isOut, isOut, fun handle _ ptr => ?_⟩
      rw [ptr] at spared
      show doomed tables tcp.block.portFds (.tcb handle) = false
      simpa only [doomed, sameTcb, Bool.not_eq_true'] using spared
    · obtain ⟨handle, member, isHis⟩ := List.any_eq_true.mp reset
      simp only [Bool.and_eq_true, decide_eq_true_eq, Bool.not_eq_true'] at isHis
      exact .inr ⟨handle, member, isHis⟩
  next => cases done

theorem ret_outs {code : WorkRet} (inv : Inv p tcp queue entries)
    (can : tcp.can p (.ret code) = true) (other : tcp.routine ≠ some .netouthp)
    (done : tcp.afterWork code = some next) (before : outs which tcp = true) :
    outs which next = true := by
  have kept : Process.Kept p tcp := ⟨queue, entries, inv⟩
  simp only [Tcp.can] at can
  split at can
  next routine running =>
    obtain ⟨inside, isRoutine, -⟩ := inv.queued running
    have apart : tcp.block.portFlags ≠ .netouthp := by
      rintro isOut
      rw [isOut] at isRoutine
      rw [← isRoutine] at running
      exact other running
    cases code with
    | remove =>
      obtain ⟨-, queue', after, stays⟩ := remove_outs inv inside apart inv.tables rfl
        (fun entry member _ => inv.backed entry member) done
      obtain ⟨entry, member, isOut, isWhich⟩ := (outs_iff inv.work).mp before
      exact (outs_iff after.work).mpr ⟨entry, stays entry member isOut, isOut, isWhich⟩
    | keep =>
      unfold Tcp.afterWork at done
      dsimp only at done
      split at done
      next workPtr ahead =>
        cases done
        exact before
      next => cases done
    | requeue =>
      unfold Tcp.afterWork at done
      dsimp only at done
      split at done
      next back after isBack made =>
        have adds : Adds tcp after := adds_makeWrk made
        split at done
        next workPtr ahead =>
          cases done
          exact adds.outs_kept inv before
        next => cases done
      next => cases done
    | abort =>
      unfold returns at can
      rw [isRoutine] at apart
      simp [apart] at can
  next => cases can

theorem ifOwned_cases {handle : Nat} {act : Tcp → Option Tcp}
    (done : tcp.ifOwned handle act = some next) :
    next = tcp ∨ tcp.tables.chkPtr handle tcp.block.portFds = true ∧ act tcp = some next := by
  unfold Tcp.ifOwned at done
  split at done
  next owned => exact .inr ⟨owned, done⟩
  next =>
    cases done
    exact .inl rfl

theorem oopen_adds {msg : MOpen} {outside : OpenWith} (done : tcp.oopen p msg outside = some next) :
    Adds tcp next := by
  unfold Tcp.oopen at done
  split at done
  next =>
    split at done
    next =>
      split at done
      · exact adds_makeWrk done
      · cases done
        exact .inl rfl
    next =>
      cases done
      exact .inl rfl
    next => cases done
  next => cases done

theorem oclose_adds {handle : Nat} (done : tcp.oclose p handle = some next) : Adds tcp next := by
  unfold Tcp.oclose at done
  split at done
  · cases done
    exact .inl rfl
  · cases done
    exact .inl rfl
  · exact adds_makeWrk done
  · exact adds_makeWrk done
  · exact adds_makeWrk done
  · cases done
    exact .inl rfl

theorem ourgent_adds {handle : Nat} {acked : Bool}
    (done : tcp.ourgent p handle acked = some next) : Adds tcp next := by
  unfold Tcp.ourgent at done
  split at done
  · exact adds_makeWrk done
  · cases done
    exact .inl rfl

theorem wake_adds {fd : Nat} (inv : Inv p tcp queue entries) (done : tcp.wake fd = some next) :
    Adds tcp next := by
  unfold Tcp.wake at done
  split at done
  next none_free => exact absurd none_free inv.some_free
  next =>
    split at done
    all_goals first
      | exact adds_makeWrk done
      | cases done
        exact .inl rfl

theorem omove_outs {mover : Nat} {misc : Int} (inv : Inv p tcp queue entries)
    (done : tcp.omove p mover misc = some next) (before : outs (fun _ => true) tcp = true) :
    outs (fun _ => true) next = true := by
  have few := backed_lt inv.tables inv.work.distinct inv.backed
  unfold Tcp.omove at done
  split at done
  next =>
    cases done
    exact before
  next acceptor _ =>
    split at done
    next work exchanged =>
      obtain ⟨after, isAfter, sound⟩ := inv.work.exchange acceptor mover
      obtain rfl : work = after := Option.some.inj (exchanged.symm.trans isAfter)
      have adds : Adds { tcp with work } next := adds_makeWrk done
      refine adds.outs sound (by rwa [List.length_map]) ?_
      obtain ⟨entry, member, isOut, -⟩ := (outs_iff inv.work).mp before
      exact (outs_iff sound).mpr ⟨_, List.mem_map_of_mem member, isOut, rfl⟩
    next => cases done

theorem oabort_outs {handle : Nat} (inv : Inv p tcp queue entries)
    (running : tcp.routine = some .usrcmd) (owned : tcp.tables.chkPtr handle tcp.block.portFds = true)
    (done : tcp.oabort p handle = some next) (before : outs (fun _ => true) tcp = true)
    (spared : atOnce (tcp.tables.tcb handle).state = true →
      outs (fun ptr => decide (ptr ≠ .tcb handle)) tcp = true) :
    outs (fun _ => true) next = true := by
  have active : handle ∈ tcp.tables.tcbHd := by
    unfold Tables.chkPtr at owned
    simp_all
  obtain ⟨-, -, fDesc, ptr⟩ := inv.command running
  have elsewhere : tcp.block.tcbPtr ≠ .tcb handle := by
    rw [ptr]
    exact TcbPtr.noConfusion
  cases now : atOnce (tcp.tables.tcb handle).state with
  | true =>
    obtain ⟨after, queue', aborted, -, kept⟩ := inv.abort active (.inr elsewhere)
    have isNext : next = after := by
      revert done now
      unfold Tcp.oabort
      cases (tcp.tables.tcb handle).state <;> simp [atOnce, aborted, eq_comm]
    obtain ⟨entry, member, isOut, other⟩ := (outs_iff inv.work).mp (spared now)
    rw [isNext]
    exact (outs_iff kept.work).mpr
      ⟨entry, List.mem_filter.mpr ⟨member, by simpa using other⟩, isOut, rfl⟩
  | false =>
    have adds : Adds tcp next := by
      revert done now
      unfold Tcp.oabort
      cases (tcp.tables.tcb handle).state with
      | closed | opened | synsent =>
        intro _ now
        cases now
      | synrecd | estab | finwait | closewait | closing =>
        intro done _
        exact adds_makeWrk done
    exact adds.outs_kept inv before

end Outs

theorem other_outs {p : NetSetup} {s : Out} {event : Process.Event} {next : Tcp}
    (kept : Process.Kept p.toSetup s.tcp) (can : s.can p (.other event) = true)
    (done : s.tcp.act p.toSetup event = some next) (heeded : heeds s (.other event) = true)
    (part : s.net.partWr = true) (before : outs (fun _ => true) s.tcp = true) :
    outs (fun _ => true) next = true := by
  obtain ⟨queue, entries, inv⟩ := id kept
  unfold Tcp.act at done
  split at done
  next tcpCan =>
    cases event with
    | oinit usrFds fDesc =>
      cases done
      exact before
    | oopen msg outside => exact (oopen_adds done).outs_kept inv before
    | oclose handle =>
      rcases ifOwned_cases done with rfl | ⟨-, closed⟩
      · exact before
      · exact (oclose_adds closed).outs_kept inv before
    | oabort handle =>
      simp only [Tcp.can, decide_eq_true_eq] at tcpCan
      rcases ifOwned_cases done with rfl | ⟨owned, aborted⟩
      · exact before
      · refine oabort_outs inv tcpCan owned aborted before fun now => ?_
        simpa [heeds, part, owned, now] using heeded
    | ourgent handle acked =>
      rcases ifOwned_cases done with rfl | ⟨-, urgent⟩
      · exact before
      · exact (ourgent_adds urgent).outs_kept inv before
    | omove handle misc =>
      rcases ifOwned_cases done with rfl | ⟨-, moved⟩
      · exact before
      · exact omove_outs inv moved before
    | change handle state dst =>
      cases done
      exact before
    | netOut handle => exact Adds.outs_kept (adds_makeWrk done) inv before
    | userIn handle => exact Adds.outs_kept (adds_makeWrk done) inv before
    | netIn => cases can
    | qTcb handle =>
      cases done
      exact before
    | unQTcb handle =>
      cases done
      exact before
    | ret code => exact ret_outs inv tcpCan (of_decide_eq_true can) done before
    | cmdClosed =>
      simp only [Tcp.can, decide_eq_true_eq] at tcpCan
      have left : leaves s.tcp = true := by simpa [heeds, part] using heeded
      change s.tcp.cmdClosed p.toSetup = some next at done
      unfold Tcp.cmdClosed at done
      split at done
      next tcpFds ptr =>
        obtain ⟨sound, net, backed⟩ := inv.closeCmd tcpCan ptr
        exact afterClose_outs inv tcpCan sound rfl rfl net backed done left
      next => cases done
    | cmdHuh =>
      simp only [Tcp.can, decide_eq_true_eq] at tcpCan
      have left : leaves s.tcp = true := by simpa [heeds, part] using heeded
      exact afterClose_outs inv tcpCan inv.tables rfl rfl rfl
        (fun entry member _ => inv.backed entry member) done left
    | flaky => exact Adds.outs_kept (adds_makeWrk done) inv before
    | wake fd => exact (wake_adds inv done).outs_kept inv before
    | retran handle => exact Adds.outs_kept (adds_makeWrk done) inv before
    | again =>
      change s.tcp.again = some next at done
      unfold Tcp.again at done
      split at done
      · cases done
        exact before
      · cases done
  next => cases done

/-! ### What an event keeps -/

variable {p : NetSetup} {s next : Out}

theorem NetSetup.short (p : NetSetup) : p.anLngth ≤ 6 := by
  rcases p.isLeader with two | six <;> omega

/-- The scheduler is sound, segments are whole, and while something is left to be written a block
for `PsipOut` is on the work list. -/
structure Sound (p : NetSetup) (s : Out) : Prop where
  kept : Process.Kept p.toSetup s.tcp
  whole : s.net.Whole p.anLngth
  waits : s.net.partWr = true → outs (fun _ => true) s.tcp = true

/-- TcpOut is as it was, or what was left is written. -/
def Untouched (s next : Out) : Prop :=
  next.net.tcpOut = s.net.tcpOut ∨ s.net.wire ++ s.net.remaining <+: next.net.wire

theorem act_kept {tcp after : Tcp} {event : Process.Event} (kept : Process.Kept p.toSetup tcp)
    (done : tcp.act p.toSetup event = some after) (inTable : event.inTable = true) :
    Process.Kept p.toSetup after := by
  unfold Tcp.act at done
  split at done
  next can =>
    obtain ⟨other, isOther, keptOther⟩ := does_keeps kept can inTable
    exact Option.some.inj (isOther.symm.trans done) ▸ keptOther
  next => cases done

theorem echo_adds {tcp after : Tcp} {echoes : Bool} {routine : Opcode}
    (kept : Process.Kept p.toSetup tcp) (running : tcp.routine = some routine)
    (done : Out.echo p echoes tcp = some after) :
    Process.Kept p.toSetup after ∧ Adds tcp after ∧ after.routine = some routine ∧
      after.block = tcp.block := by
  unfold Out.echo at done
  cases echoes with
  | false =>
    cases done
    exact ⟨kept, .inl rfl, running, rfl⟩
  | true =>
    have keptAfter := act_kept kept done rfl
    obtain ⟨queue, entries, inv⟩ := kept
    obtain ⟨inside, isRoutine, -⟩ := inv.queued running
    obtain ⟨other, queue', made, -, -, workPtr, stays⟩ := inv.makeWrk
      (show Backed p.toSetup tcp.tables ⟨.netinhp, .null, p.netFdsR⟩ from
        .inr ⟨.inr (.inl rfl), inv.net⟩)
    rw [if_pos rfl] at done
    unfold Tcp.act at done
    split at done
    next =>
      obtain rfl : after = other := Option.some.inj (done.symm.trans made)
      have sameBlock : after.block = tcp.block := by
        unfold Tcp.block
        rw [workPtr]
        exact (stays _ inside).2
      refine ⟨keptAfter, adds_makeWrk made, ?_, sameBlock⟩
      unfold Tcp.routine at running ⊢
      rw [workPtr, sameBlock]
      exact running
    next => cases done

theorem netOut_part {anLngth : Nat} {net : Net} {seg : Segment} {fate : Fate}
    (all : net.partWr = false) (isShaped : Net.shaped anLngth seg = true)
    (isFit : Net.fits seg = true) (short : anLngth ≤ 6)
    (part : (net.netOut anLngth seg fate).partWr = true) : fate.partly seg = true := by
  cases fate with
  | echoed | lost | reordered =>
    exact Bool.noConfusion (all.symm.trans part)
  | written dup count =>
    cases count with
    | none =>
      cases dup <;> exact Bool.noConfusion (all.symm.trans part)
    | some count =>
      obtain ⟨outCnt, -⟩ := Net.lead_out isShaped isFit short (net.load seg)
      have wrote : ∀ led : Net, led.partWr = false → led.outCnt = seg.image.length →
          (led.write count).partWr = true → count ≠ seg.image.length := by
        rintro led none count' part rfl
        unfold Net.write at part
        dsimp only at part
        rw [if_pos count'.symm] at part
        exact Bool.noConfusion (none.symm.trans part)
      refine decide_eq_true ?_
      cases dup with
      | false => exact wrote ((net.load seg).lead anLngth seg) all outCnt part
      | true => exact wrote (((net.load seg).lead anLngth seg).save anLngth) all outCnt part

theorem psipOut_code {anLngth : Nat} {net : Net} {finish : Option Nat} {turn : Turn}
    (short : anLngth ≤ 6) (may : net.mayTurn anLngth turn = true)
    (isFit : Net.fitsTurn turn = true)
    (part : (net.psipOut anLngth finish turn).1.partWr = true) :
    (net.psipOut anLngth finish turn).2 = .keep ∨
      (net.psipOut anLngth finish turn).2 = .requeue ∨
      (net.psipOut anLngth finish turn).2 = .abort ∧ net.proceeds finish = true ∧
        ∃ seg fate more, turn = .segment seg fate true more ∧ fate.partly seg = true := by
  have taken : ∀ before : Net, before.partWr = false → (before.turn anLngth turn).1.partWr = true →
      (before.turn anLngth turn).2 = .keep ∨ (before.turn anLngth turn).2 = .requeue ∨
        (before.turn anLngth turn).2 = .abort ∧
          ∃ seg fate more, turn = .segment seg fate true more ∧ fate.partly seg = true := by
    intro before all left
    cases turn with
    | flaky count =>
      refine .inl ?_
      show (if _ then WorkRet.keep else WorkRet.remove) = _
      exact if_pos left
    | nothing more => exact Bool.noConfusion (all.symm.trans left)
    | segment seg fate aborts more =>
      obtain ⟨isShaped, -⟩ := (Bool.and_eq_true _ _).mp may
      have partly := netOut_part all isShaped isFit short left
      show returnCode aborts more (before.netOut anLngth seg fate).partWr = _ ∨
        returnCode aborts more (before.netOut anLngth seg fate).partWr = _ ∨
        returnCode aborts more (before.netOut anLngth seg fate).partWr = _ ∧ _
      rw [show (before.netOut anLngth seg fate).partWr = true from left]
      cases aborts with
      | true => exact .inr (.inr ⟨rfl, seg, fate, more, rfl, partly⟩)
      | false =>
        cases more with
        | true => exact .inr (.inl rfl)
        | false => exact .inl rfl
  revert part
  unfold Net.psipOut Net.proceeds
  cases before : net.partWr with
  | false =>
    intro part
    refine (taken net before part).imp id (Or.imp id ?_)
    rintro ⟨code, rest⟩
    exact ⟨code, rfl, rest⟩
  | true =>
    rw [if_pos rfl]
    dsimp only
    cases after : (net.finish finish).partWr with
    | true =>
      intro _
      exact .inl rfl
    | false =>
      intro part
      refine (taken _ after part).imp id (Or.imp id ?_)
      rintro ⟨code, rest⟩
      exact ⟨code, rfl, rest⟩

theorem psipOut_sound {finish : Option Nat} {turn : Turn} (sound : Sound p s)
    (can : s.can p (.psipOut finish turn) = true)
    (done : s.psipOut p finish turn = some next)
    (heeded : heeds s (.psipOut finish turn) = true) :
    Sound p next ∧ (s.net.partWr = true → Untouched s next) := by
  simp only [Out.can, Bool.and_eq_true, decide_eq_true_eq] at can
  obtain ⟨⟨⟨running, takes⟩, mayTurn⟩, -⟩ := can
  obtain ⟨isFit, spared⟩ := (Bool.and_eq_true _ _).mp heeded
  obtain ⟨whole, untouched⟩ := Net.psipOut_whole sound.whole p.short takes mayTurn isFit
  unfold Out.psipOut at done
  split at done
  next middle echoed =>
    obtain ⟨keptMiddle, adds, stillRunning, sameBlock⟩ := echo_adds sound.kept running echoed
    split at done
    next after returned =>
      cases done
      have keptAfter := act_kept keptMiddle returned rfl
      refine ⟨⟨keptAfter, whole, fun part => ?_⟩, untouched⟩
      unfold Tcp.act at returned
      split at returned
      next mayReturn =>
        obtain ⟨queue, entries, inv⟩ := keptMiddle
        obtain ⟨inside, isOut, isEntry⟩ := inv.queued stillRunning
        have here : outs (fun _ => true) middle = true :=
          (outs_iff inv.work).mpr ⟨_, isEntry, isOut, rfl⟩
        change middle.afterWork _ = some after at returned
        rcases psipOut_code p.short mayTurn isFit part with
          code | code | ⟨code, proceeds, seg, fate, more, rfl, partly⟩
        · rw [code] at returned
          unfold Tcp.afterWork at returned
          dsimp only at returned
          split at returned
          next workPtr ahead =>
            cases returned
            exact here
          next => cases returned
        · rw [code] at returned
          unfold Tcp.afterWork at returned
          dsimp only at returned
          split at returned
          next back other isBack made =>
            have addsBlock : Adds middle other := adds_makeWrk made
            split at returned
            next workPtr ahead =>
              cases returned
              exact addsBlock.outs_kept inv here
            next => cases returned
          next => cases returned
        · have others : outs (fun ptr => decide (ptr ≠ s.tcp.block.tcbPtr)) s.tcp = true := by
            simpa [proceeds, partly] using spared
          obtain ⟨queue, entries, invBefore⟩ := sound.kept
          have othersMiddle := adds.outs_kept invBefore others
          obtain ⟨entry, member, isOutEntry, apart⟩ := (outs_iff inv.work).mp othersMiddle
          rw [code] at returned
          unfold Tcp.afterWork at returned
          dsimp only at returned
          split at returned
          next handle ptr =>
            have active := (inv.backed _ isEntry).active inv.tables ptr
            obtain ⟨left, queue', isLeft, -, kept⟩ := inv.leave active
            obtain rfl : after = left := Option.some.inj (returned.symm.trans isLeft)
            refine (outs_iff kept.work).mpr ⟨entry, List.mem_filter.mpr ⟨member, ?_⟩, isOutEntry, rfl⟩
            rw [← sameBlock, ptr] at apart
            simpa using apart
          next => cases returned
      next => cases returned
    next => cases done
  next => cases done

theorem fromIn_sound {seg : Segment} {fate : Fate} (sound : Sound p s)
    (running : s.tcp.routine = some .netinhp) (isShaped : Net.shaped p.anLngth seg = true)
    (may : s.net.mayFate seg fate = true) (done : s.fromIn p seg fate = some next)
    (heeded : heeds s (.reset seg fate) = true) :
    Sound p next ∧ (s.net.partWr = true → Untouched s next) := by
  unfold Out.fromIn at done
  split at done
  next after echoed =>
    cases done
    obtain ⟨kept, adds, -⟩ := echo_adds sound.kept running echoed
    obtain ⟨queue, entries, inv⟩ := sound.kept
    dsimp only [heeds] at heeded
    unfold Net.unlessPart
    cases part : s.net.partWr with
    | true =>
      rw [if_pos rfl]
      exact ⟨⟨kept, sound.whole, fun _ => adds.outs_kept inv (sound.waits part)⟩,
        fun _ => .inl rfl⟩
    | false =>
      rw [if_neg Bool.false_ne_true]
      rw [part, Bool.false_or, Bool.and_eq_true] at heeded
      refine ⟨⟨kept, Net.netOut_whole sound.whole part isShaped heeded.1 p.short may, ?_⟩,
        fun isPart => Bool.noConfusion isPart⟩
      intro left
      have partly := netOut_part part isShaped heeded.1 p.short left
      refine adds.outs_kept inv ?_
      simpa [partly] using heeded.2
  next => cases done

theorem act_sound {event : Event} (sound : Sound p s) (done : s.act p event = some next)
    (heeded : Heeds s event) :
    Sound p next ∧ (s.net.partWr = true → Untouched s next) := by
  obtain ⟨inTable, isHeeded⟩ := (Bool.and_eq_true _ _).mp heeded
  unfold Out.act at done
  split at done
  next can =>
    cases event with
    | other event =>
      change (match s.tcp.act p.toSetup event with
        | some tcp => some { s with tcp }
        | none => none) = some next at done
      split at done
      next after acted =>
        cases done
        refine ⟨⟨act_kept sound.kept acted inTable, sound.whole, fun part => ?_⟩,
          fun _ => .inl rfl⟩
        exact other_outs sound.kept can acted isHeeded part (sound.waits part)
      next => cases done
    | psipOut finish turn => exact psipOut_sound sound can done isHeeded
    | reset seg fate =>
      simp only [Out.can, Bool.and_eq_true, decide_eq_true_eq] at can
      exact fromIn_sound sound can.1.1 can.1.2 can.2 done isHeeded
    | forward seg fate =>
      simp only [Out.can, Bool.and_eq_true, decide_eq_true_eq] at can
      exact fromIn_sound sound can.1.1.1 can.1.1.2 can.1.2 done isHeeded
  next => cases done

/-! ### Runs -/

theorem run_sound {events : List Event}
    (run : Transition.Run (Transition.Guarded (Transition.Takes (Out.act p)) Heeds) (Out.start p)
      events s) : Sound p s := by
  refine run.always (Sound p) ?_ ?_
  · exact ⟨start_kept p.toSetup, Net.init_whole _, fun part => Bool.noConfusion part⟩
  · rintro before event after sound ⟨heeded, taken⟩
    exact (act_sound sound taken heeded).1

/-- In every run that heeds the condition, the bytes written to NetFdsW, with what is left of a
write, are a row of segments that `NetOut` has built; TcpOut is not changed before what is left is
written; and while something is left a block for `PsipOut` is on the work list. -/
theorem segments_whole {events : List Event}
    (run : Transition.Run (Transition.Guarded (Transition.Takes (Out.act p)) Heeds) (Out.start p)
      events s) :
    (∃ segments : List (List Byte), (∀ image ∈ segments, image ∈ s.net.built) ∧
      s.net.wire ++ s.net.remaining = segments.flatten ∧
      s.net.remaining <:+ segments.getLast?.getD []) ∧
    (∀ event next, Heeds s event → s.act p event = some next → s.net.partWr = true →
      next.net.tcpOut = s.net.tcpOut ∨ s.net.wire ++ s.net.remaining <+: next.net.wire) ∧
    (s.net.partWr = true →
      ∃ block ∈ s.tcp.work.queue, (s.tcp.work.blks block).portFlags = .netouthp) := by
  have sound := run_sound run
  refine ⟨sound.whole.segments, fun event next heeded done part =>
    (act_sound sound done heeded).2 part, fun part => ?_⟩
  obtain ⟨block, inside, isOut⟩ := List.any_eq_true.mp (sound.waits part)
  exact ⟨block, inside, by simpa using isOut⟩

/-! ### A run -/

/-- A program with leaders of two words. -/
def tryNet : NetSetup := { trySetup with anLngth := 2 }

def trySegment : Segment :=
  ⟨List.replicate 16 0, [0, 155, 0, 10], 0 :: 69 :: List.replicate 38 0⟩

/-- A user opens a connection; its first segment is written in part, then what is left of it and the
whole of a second one. -/
def wireEvents : List Event :=
  [.other (.wake 3), .other .again, .other (.oinit 6 7), .other (.ret .requeue),
    .other (.ret .remove), .other (.wake 6), .other .again,
    .other (.oopen ⟨1, 0, 10, 0, 1, 0, 23⟩ (tryPorts 8 9)), .other (.ret .remove),
    .psipOut none (.segment trySegment (.written true (some 4)) false false), .other .again,
    .psipOut (some 3) (.nothing false), .other .again,
    .psipOut (some 39) (.segment trySegment (.written false (some 46)) false false)]

theorem wire_can : Transition.Can (Out.act tryNet) Heeds (Out.start tryNet) wireEvents := by
  decide +kernel

theorem try_segments :
    ∃ segments : List (List Byte),
      (Transition.last (Out.act tryNet) (Out.start tryNet) wireEvents).net.wire ++
        (Transition.last (Out.act tryNet) (Out.start tryNet) wireEvents).net.remaining =
          segments.flatten := by
  obtain ⟨segments, -, wire, -⟩ := (segments_whole (Transition.run_can wire_can)).1
  exact ⟨segments, wire⟩

/-- A segment for no connection comes, the reset that answers it is written in part, and no more
segments are there to be read. -/
def resetEvents : List Event :=
  [.other (.wake 4), .other .again, .reset trySegment (.written false (some 4)),
    .other (.ret .requeue), .other (.ret .remove)]

theorem reset_can : Transition.Can (Out.act tryNet) (fun _ event => event.inTable = true)
    (Out.start tryNet) resetEvents := by
  decide +kernel

/-- What is left of the reset is to be written, and there is no block for `PsipOut`. -/
theorem reset_left : ∃ events s,
    Transition.Run (Transition.Takes (Out.act tryNet)) (Out.start tryNet) events s ∧
      s.net.partWr = true ∧
      ¬ ∃ block ∈ s.tcp.work.queue, (s.tcp.work.blks block).portFlags = .netouthp :=
  ⟨_, _, (Transition.run_can reset_can).mono fun _ _ _ taken => taken.2, by decide +kernel,
    by decide +kernel⟩

end NetworkUnix.UserTcp.Output
