/-
This file models the messages on the control link to each host: the allocations that
the kernel sends for user processes, the interrupts that users send, and the commands
of the daemon. The network answers them in the order in which they were sent. An
answer names only the host; the kernel takes it for an answer to its own allocation
when it waits for one, and hands it to the daemon otherwise.

The attribution is right when the network answers allocations and commands only, and no
command while an allocation to the same host is unanswered.
-/

import NetworkUnix.Lib.Run
import NetworkUnix.Ncpd.Protocol

namespace NetworkUnix.Ncpk

open Function Ncpd

/-! ### Messages and answers -/

/-- A message on the control link: an allocation from `sendalloc`, an interrupt from `sendins`, or
commands from the daemon. -/
inductive Message
  | all
  | ins
  | pro (cmds : List Cmd)
deriving DecidableEq

namespace Message

def isAll : Message → Bool
  | .all => true
  | _ => false

def isPro : Message → Bool
  | .pro _ => true
  | _ => false

end Message

/-- The types of answers: the next message may be sent, there was an error in the data, the
transmission was incomplete. -/
inductive ImpType
  | rfnm
  | edata
  | ictrans
deriving DecidableEq

/-- An answer, with the message it answers, which the kernel does not see. -/
structure Answer where
  type : ImpType
  host : BitVec 8
  message : Message
deriving DecidableEq

/-- The kernel's map of the hosts whose answer it waits for, the messages under way to each host,
the answers queued for the daemon, and what the daemon keeps for each host; besides, all answers,
and those that the kernel took and the daemon got. -/
structure ControlLink where
  hostMap : BitVec 8 → Bool
  flight : BitVec 8 → List Message
  nrcv : List Answer
  peers : BitVec 8 → Peer
  answered : List Answer
  toKernel : List Answer
  toDaemon : List Answer

inductive LinkEvent
  | sendalloc (h : BitVec 8)
  | sendins (h : BitVec 8)
  | qupPro (h : BitVec 8) (cmd : Cmd)
  | sendPro (h : BitVec 8)
  | prFlush (h : BitVec 8)
  | answer (h : BitVec 8) (type : ImpType)
  | read

namespace ControlLink

def sends (s : ControlLink) (h : BitVec 8) (m : Message) : ControlLink :=
  { s with flight := Function.update s.flight h (s.flight h ++ [m]) }

def atPeer (s : ControlLink) (h : BitVec 8) (change : Peer → Peer) : ControlLink :=
  { s with peers := Function.update s.peers h (change (s.peers h)) }

/-- An allocation is sent when no answer is awaited from the host. -/
def sendalloc (s : ControlLink) (h : BitVec 8) : Option ControlLink :=
  if s.hostMap h then none
  else some ({ s with hostMap := Function.update s.hostMap h true }.sends h .all)

/-- The daemon sends what it has queued for a host, unless it waits for an answer. -/
def sendPro (xRetries : Int) (s : ControlLink) (h : BitVec 8) : ControlLink :=
  let p := s.peers h
  if p.rfnm = true ∨ p.pbQ = [] then s
  else (s.atPeer h (.sendPro xRetries)).sends h (.pro (StopWait.fit Cmd.size 120 p.pbQ))

def toNcp (s : ControlLink) (a : Answer) : ControlLink :=
  { s with nrcv := s.nrcv ++ [a], toDaemon := s.toDaemon ++ [a] }

/-- The kernel takes the answer if it waits for one from the host. -/
def siguser (s : ControlLink) (a : Answer) : ControlLink :=
  if s.hostMap a.host then
    { s with hostMap := Function.update s.hostMap a.host false, toKernel := s.toKernel ++ [a] }
  else s.toNcp a

/-- The message of the network is dispatched by its type. The daemon always gets those that are not
the permission to send. -/
def ih (s : ControlLink) (a : Answer) : ControlLink :=
  match a.type with
  | .rfnm => s.siguser a
  | .edata | .ictrans => (s.siguser a).toNcp a

/-- The network answers the first message under way to a host. -/
def answer (s : ControlLink) (h : BitVec 8) (type : ImpType) : Option ControlLink :=
  match s.flight h with
  | [] => none
  | m :: rest => some (ih { s with
      flight := Function.update s.flight h rest
      answered := s.answered ++ [⟨type, h, m⟩] } ⟨type, h, m⟩)

/-- The daemon's routine for an answer: its commands leave the queue, or are tried again until the
retries are used up. -/
def irProc (s : ControlLink) (a : Answer) : ControlLink :=
  match a.type with
  | .rfnm => s.atPeer a.host (.irRfnm 0)
  | .edata | .ictrans =>
    let counted := s.atPeer a.host (.irReX 0)
    if (counted.peers a.host).rtry ≤ 0 then
      counted.atPeer a.host fun p => { p.prFlush with up := false }
    else counted

def read (s : ControlLink) : Option ControlLink :=
  match s.nrcv with
  | [] => none
  | a :: rest => some (irProc { s with nrcv := rest } a)

/-- What an event leads to; none stands for one that cannot happen. -/
def step (xRetries : Int) (s : ControlLink) : LinkEvent → Option ControlLink
  | .sendalloc h => s.sendalloc h
  | .sendins h => some (s.sends h .ins)
  | .qupPro h cmd => some (s.atPeer h (.qupPro cmd))
  | .sendPro h => some (s.sendPro xRetries h)
  | .prFlush h => some (s.atPeer h .prFlush)
  | .answer h type => s.answer h type
  | .read => s.read

/-- Nothing has been sent. -/
def start : ControlLink :=
  ⟨fun _ => false, fun _ => [], [], fun _ => ⟨[], 0, 0, false, false, [], []⟩, [], [], []⟩

/-! ### When the attribution is right -/

/-- The first of these messages is an allocation, or a command with no allocation behind it. -/
def Clear : List Message → Prop
  | [] => True
  | .all :: _ => True
  | .ins :: _ => False
  | .pro _ :: rest => ∀ m ∈ rest, m.isAll = false

/-- The network answers allocations and commands only, all of them with the permission to send the
next message, and no command while an allocation to the same host is unanswered. -/
def Apart (s : ControlLink) : LinkEvent → Prop
  | .answer h type => type = .rfnm ∧ Clear (s.flight h)
  | _ => True

/-- The kernel waits for a host exactly when an allocation to it is under way; the daemon waits
exactly when its message is under way or the answer is queued; and the answers were divided by the
senders of the messages. -/
structure Attributed (s : ControlLink) : Prop where
  kernel : ∀ h, (s.flight h).countP Message.isAll = if s.hostMap h then 1 else 0
  daemon : ∀ h, (s.flight h).countP Message.isPro + s.nrcv.countP (fun a => a.host == h) =
    if (s.peers h).rfnm then 1 else 0
  toKernel : s.toKernel = s.answered.filter fun a => a.message.isAll
  toDaemon : s.toDaemon = s.answered.filter fun a => a.message.isPro

variable {s : ControlLink} {xRetries : Int}

theorem Attributed.atPeer (held : s.Attributed) {h : BitVec 8} {change : Peer → Peer}
    (rfnm : (change (s.peers h)).rfnm = (s.peers h).rfnm) : (s.atPeer h change).Attributed := by
  refine { held with daemon := fun g => ?_ }
  have same : (Function.update s.peers h (change (s.peers h)) g).rfnm = (s.peers g).rfnm := by
    by_cases here : g = h
    · rw [here, update_self, rfnm]
    · rw [update_of_ne here]
  show _ = if (Function.update s.peers h (change (s.peers h)) g).rfnm then 1 else 0
  rw [same]
  exact held.daemon g

theorem Attributed.sendalloc (held : s.Attributed) {h : BitVec 8} {next : ControlLink}
    (taken : s.sendalloc h = some next) : next.Attributed := by
  unfold ControlLink.sendalloc at taken
  split at taken
  next => cases taken
  next free =>
    cases taken
    refine { held with kernel := fun g => ?_, daemon := fun g => ?_ }
    · have count := held.kernel g
      show (Function.update s.flight h (s.flight h ++ [.all]) g).countP Message.isAll =
        if Function.update s.hostMap h true g then 1 else 0
      by_cases here : g = h
      · rw [here, if_neg free] at count
        rw [here, update_self, update_self, List.countP_append, count]
        rfl
      · rw [update_of_ne here, update_of_ne here]
        exact count
    · have count := held.daemon g
      show (Function.update s.flight h (s.flight h ++ [.all]) g).countP Message.isPro + _ = _
      by_cases here : g = h
      · rw [here] at count ⊢
        rw [update_self, List.countP_append]
        exact count
      · rw [update_of_ne here]
        exact count

theorem Attributed.sendins (held : s.Attributed) (h : BitVec 8) : (s.sends h .ins).Attributed := by
  have same : ∀ (isSender : Message → Bool), isSender .ins = false → ∀ g,
      ((s.sends h .ins).flight g).countP isSender = (s.flight g).countP isSender := by
    intro isSender none g
    show (Function.update s.flight h (s.flight h ++ [.ins]) g).countP isSender = _
    by_cases here : g = h
    · rw [here, update_self, List.countP_append, List.countP_singleton, none]
      rfl
    · rw [update_of_ne here]
  refine { held with kernel := fun g => ?_, daemon := fun g => ?_ }
  · rw [same Message.isAll rfl g]
    exact held.kernel g
  · rw [same Message.isPro rfl g]
    exact held.daemon g

theorem Attributed.sendPro (held : s.Attributed) (h : BitVec 8) :
    (s.sendPro xRetries h).Attributed := by
  unfold ControlLink.sendPro
  dsimp only
  split
  next => exact held
  next idle =>
    obtain ⟨awaits, queued⟩ := not_or.mp idle
    generalize StopWait.fit Cmd.size 120 (s.peers h).pbQ = cmds
    have rfnm : ((s.peers h).sendPro xRetries).rfnm = true := by
      unfold Peer.sendPro
      rw [if_neg awaits, if_neg queued]
    refine { held with kernel := fun g => ?_, daemon := fun g => ?_ }
    · have count := held.kernel g
      show (Function.update s.flight h (s.flight h ++ [.pro cmds]) g).countP Message.isAll = _
      by_cases here : g = h
      · rw [here] at count ⊢
        rw [update_self, List.countP_append]
        exact count
      · rw [update_of_ne here]
        exact count
    · have count := held.daemon g
      show (Function.update s.flight h (s.flight h ++ [.pro cmds]) g).countP Message.isPro +
        s.nrcv.countP (fun a => a.host == g) =
        if (Function.update s.peers h ((s.peers h).sendPro xRetries) g).rfnm then 1 else 0
      by_cases here : g = h
      · rw [here, if_neg awaits] at count
        rw [here, update_self, update_self, rfnm, if_pos rfl,
          List.countP_append, List.countP_singleton, if_pos (by rfl)]
        omega
      · rw [update_of_ne here, update_of_ne here]
        exact count

/-- An answer whose message is the kernel's, when the kernel waits, or the daemon's, when it does
not. -/
theorem Attributed.answer (held : s.Attributed) {h : BitVec 8} {type : ImpType} {next : ControlLink}
    (apart : s.Apart (.answer h type)) (taken : s.answer h type = some next) : next.Attributed := by
  obtain ⟨rfl, clear⟩ := apart
  unfold ControlLink.answer at taken
  cases sent : s.flight h with
  | nil =>
    rw [sent] at taken
    cases taken
  | cons m rest =>
    rw [sent] at taken clear
    cases taken
    have kernel := held.kernel h
    have daemon := held.daemon h
    rw [sent, List.countP_cons] at kernel daemon
    cases m with
    | ins => exact clear.elim
    | all =>
      have waits : s.hostMap h = true := by
        by_contra free
        rw [if_neg free] at kernel
        exact absurd kernel (Nat.succ_ne_zero _)
      unfold ih siguser
      dsimp only
      rw [if_pos waits]
      refine ⟨fun g => ?_, fun g => ?_, ?_, ?_⟩
      · show (Function.update s.flight h rest g).countP Message.isAll =
          if Function.update s.hostMap h false g then 1 else 0
        by_cases here : g = h
        · rw [here, update_self, update_self]
          rw [waits] at kernel
          exact Nat.succ.inj kernel
        · rw [update_of_ne here, update_of_ne here]
          exact held.kernel g
      · show (Function.update s.flight h rest g).countP Message.isPro +
          s.nrcv.countP (fun a => a.host == g) = _
        by_cases here : g = h
        · rw [here, update_self]
          exact daemon
        · rw [update_of_ne here]
          exact held.daemon g
      · show s.toKernel ++ [_] = (s.answered ++ [_]).filter _
        rw [List.filter_append, held.toKernel]
        rfl
      · show s.toDaemon = (s.answered ++ [_]).filter _
        rw [List.filter_append, held.toDaemon]
        exact (List.append_nil _).symm
    | pro cmds =>
      have none : rest.countP Message.isAll = 0 :=
        List.countP_eq_zero.mpr fun m member => by
          rw [clear m member]
          exact Bool.false_ne_true
      have free : s.hostMap h = false := by
        by_contra waits
        have isTrue : s.hostMap h = true := by simpa using waits
        rw [isTrue, none] at kernel
        exact absurd kernel (by rw [if_neg (by exact Bool.false_ne_true)]; decide)
      unfold ih siguser
      dsimp only
      rw [if_neg (by rw [free]; exact Bool.false_ne_true)]
      refine ⟨fun g => ?_, fun g => ?_, ?_, ?_⟩
      · show (Function.update s.flight h rest g).countP Message.isAll = _
        by_cases here : g = h
        · rw [here, update_self]
          exact kernel
        · rw [update_of_ne here]
          exact held.kernel g
      · show (Function.update s.flight h rest g).countP Message.isPro +
          (s.nrcv ++ [_]).countP (fun a : Answer => a.host == g) = if (s.peers g).rfnm then 1 else 0
        rw [List.countP_append, List.countP_singleton]
        by_cases here : g = h
        · rw [here, update_self, if_pos (beq_self_eq_true h), ← daemon,
            if_pos (by rfl : Message.isPro (.pro cmds) = true)]
          omega
        · have other : (h == g) = false := beq_eq_false_iff_ne.mpr (Ne.symm here)
          rw [update_of_ne here, if_neg (by rw [other]; exact Bool.false_ne_true)]
          exact held.daemon g
      · show s.toKernel = (s.answered ++ [_]).filter _
        rw [List.filter_append, held.toKernel]
        exact (List.append_nil _).symm
      · show s.toDaemon ++ [_] = (s.answered ++ [_]).filter _
        rw [List.filter_append, held.toDaemon]
        rfl

theorem irProc_spec (s : ControlLink) (a : Answer) :
    (s.irProc a).flight = s.flight ∧ (s.irProc a).nrcv = s.nrcv ∧
      (s.irProc a).hostMap = s.hostMap ∧ (s.irProc a).answered = s.answered ∧
      (s.irProc a).toKernel = s.toKernel ∧ (s.irProc a).toDaemon = s.toDaemon ∧
      ((s.irProc a).peers a.host).rfnm = false ∧
      ∀ g, g ≠ a.host → (s.irProc a).peers g = s.peers g := by
  have self : ∀ (t : ControlLink) (change : Peer → Peer),
      (t.atPeer a.host change).peers a.host = change (t.peers a.host) := fun t change =>
    update_self ..
  have other : ∀ (t : ControlLink) (change : Peer → Peer) (g : BitVec 8), g ≠ a.host →
      (t.atPeer a.host change).peers g = t.peers g := fun t change g apart =>
    update_of_ne apart ..
  have errs : ∀ t : ControlLink, t = s.atPeer a.host (.irReX 0) →
      ((if (t.peers a.host).rtry ≤ 0 then
        t.atPeer a.host fun p => { p.prFlush with up := false } else t).peers a.host).rfnm = false ∧
      ∀ g, g ≠ a.host → (if (t.peers a.host).rtry ≤ 0 then
        t.atPeer a.host fun p => { p.prFlush with up := false } else t).peers g = s.peers g := by
    rintro t rfl
    split
    next =>
      rw [self, self]
      exact ⟨rfl, fun g apart => (other _ _ g apart).trans (other _ _ g apart)⟩
    next =>
      rw [self]
      exact ⟨rfl, fun g apart => other _ _ g apart⟩
  have kept : ∀ t : ControlLink, (if (t.peers a.host).rtry ≤ 0 then
      t.atPeer a.host fun p => { p.prFlush with up := false } else t) =
        { t with peers := (if (t.peers a.host).rtry ≤ 0 then
          t.atPeer a.host fun p => { p.prFlush with up := false } else t).peers } := by
    intro t
    split <;> rfl
  unfold irProc
  split
  next => exact ⟨rfl, rfl, rfl, rfl, rfl, rfl, by rw [self]; rfl, fun g apart => other _ _ g apart⟩
  next =>
    dsimp only
    rw [kept]
    exact ⟨rfl, rfl, rfl, rfl, rfl, rfl, errs _ rfl⟩
  next =>
    dsimp only
    rw [kept]
    exact ⟨rfl, rfl, rfl, rfl, rfl, rfl, errs _ rfl⟩

theorem Attributed.read (held : s.Attributed) {next : ControlLink} (taken : s.read = some next) :
    next.Attributed := by
  unfold ControlLink.read at taken
  split at taken
  next => cases taken
  next a rest queued =>
    cases taken
    obtain ⟨flight, nrcv, hostMap, answered, toKernel, toDaemon, rfnm, others⟩ :=
      irProc_spec { s with nrcv := rest } a
    refine ⟨fun g => ?_, fun g => ?_, ?_, ?_⟩
    · rw [flight, hostMap]
      exact held.kernel g
    · have count := held.daemon g
      rw [queued, List.countP_cons] at count
      rw [flight, nrcv]
      by_cases here : g = a.host
      · rw [here, if_pos (beq_self_eq_true a.host)] at count
        rw [here, rfnm]
        show (s.flight a.host).countP _ + rest.countP _ = 0
        split at count <;> omega
      · have other : (a.host == g) = false := beq_eq_false_iff_ne.mpr (Ne.symm here)
        rw [if_neg (by rw [other]; exact Bool.false_ne_true)] at count
        rw [others g here]
        exact count
    · rw [toKernel, answered]
      exact held.toKernel
    · rw [toDaemon, answered]
      exact held.toDaemon

theorem Attributed.step (held : s.Attributed) {e : LinkEvent} {next : ControlLink}
    (apart : s.Apart e) (taken : s.step xRetries e = some next) : next.Attributed := by
  cases e with
  | sendalloc h => exact held.sendalloc taken
  | sendins h =>
    cases taken
    exact held.sendins h
  | qupPro h cmd =>
    cases taken
    exact held.atPeer rfl
  | sendPro h =>
    cases taken
    exact held.sendPro h
  | prFlush h =>
    cases taken
    exact held.atPeer rfl
  | answer h type => exact held.answer apart taken
  | read => exact held.read taken

theorem start_attributed : start.Attributed := ⟨fun _ => rfl, fun _ => rfl, rfl, rfl⟩

/-- Every answer reaches the sender of its message. In any sequence of allocations, interrupts,
messages of the daemon and answers for any hosts that meets the condition, the kernel has taken
exactly the answers to allocations and the daemon has got exactly those to its own messages; the
kernel waits for a host exactly when an allocation to it is under way; and when the daemon reads an
answer, none of its messages to the host is unanswered. -/
theorem answers_attributed {history : List LinkEvent}
    (run : Transition.Run (Transition.Guarded (Transition.Takes (step xRetries)) Apart) start
      history s) :
    s.toKernel = (s.answered.filter fun a => a.message.isAll) ∧
      s.toDaemon = (s.answered.filter fun a => a.message.isPro) ∧
      (∀ h, s.hostMap h = true ↔ ∃ m ∈ s.flight h, m.isAll = true) ∧
      ∀ a ∈ s.nrcv, ∀ m ∈ s.flight a.host, m.isPro = false := by
  have held : s.Attributed := run.always Attributed start_attributed
    fun _ _ _ held taken => held.step taken.1 taken.2
  refine ⟨held.toKernel, held.toDaemon, fun h => ?_, fun a queued m sent => ?_⟩
  · have count := held.kernel h
    rw [← List.countP_pos_iff, count]
    cases s.hostMap h <;> decide
  · have count := held.daemon a.host
    have answered : 0 < s.nrcv.countP fun b => b.host == a.host :=
      List.countP_pos_iff.mpr ⟨a, queued, beq_self_eq_true a.host⟩
    have none : (s.flight a.host).countP Message.isPro = 0 := by
      split at count <;> omega
    exact Bool.eq_false_iff.mpr (List.countP_eq_zero.mp none m sent)

instance (s : ControlLink) : ∀ e, Decidable (s.Apart e)
  | .answer h type =>
    have : Decidable (Clear (s.flight h)) :=
      match s.flight h with
      | [] | .all :: _ => .isTrue trivial
      | .ins :: _ => .isFalse id
      | .pro _ :: rest => inferInstanceAs (Decidable (∀ m ∈ rest, _))
    inferInstanceAs (Decidable (type = .rfnm ∧ _))
  | .sendalloc _ | .sendins _ | .qupPro _ _ | .sendPro _ | .prFlush _ | .read => .isTrue trivial

/-- The kernel sends an allocation and the daemon a reset to one host, in this order. -/
def inOrder : List LinkEvent :=
  [.sendalloc 1, .qupPro 1 rstBuf, .sendPro 1, .answer 1 .rfnm, .answer 1 .rfnm, .read]

/-- The same in the other order. -/
def crossed : List LinkEvent :=
  [.qupPro 1 rstBuf, .sendPro 1, .sendalloc 1, .answer 1 .rfnm]

theorem answers_attributed_one :
    (Transition.last (step 3) start inOrder).toKernel =
      ((Transition.last (step 3) start inOrder).answered.filter fun a => a.message.isAll) :=
  (answers_attributed (Transition.run_can (by decide +kernel))).1

/-- The answer to the daemon's message clears the kernel's bit while the allocation is unanswered.
-/
theorem answers_crossed :
    Transition.Run (Transition.Takes (step 3)) start crossed
      (Transition.last (step 3) start crossed) ∧
    (Transition.last (step 3) start crossed).toKernel = [⟨.rfnm, 1, .pro [rstBuf]⟩] ∧
    (Transition.last (step 3) start crossed).toDaemon = [] ∧
    (Transition.last (step 3) start crossed).hostMap 1 = false ∧
    (Transition.last (step 3) start crossed).flight 1 = [.all] :=
  ⟨Transition.run_all (by decide +kernel), by decide +kernel⟩

end ControlLink

end NetworkUnix.Ncpk
