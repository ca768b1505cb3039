/-
This file models how the network control program's daemon sends host-host
commands: the queue of commands of each host, the count of commands in the
message under way, the retry count, and the routines that use them. It proves
that the daemon keeps a line to each host on which at most one message is under
way, and when the counts are right.

The routines for sockets and files enter by what they do to the queues: in which
order they set the current host, queue commands, clean up after hosts and check
hosts is left open, so that the results hold for every instruction of the kernel
and every message. A reply on the control link comes from a host other than
zero, for a message that has not been answered.
-/

import NetworkUnix.Lib.StopWait
import Mathlib.Logic.Function.Basic
import Mathlib.Algebra.Order.Group.Nat

namespace NetworkUnix.Ncpd

open StopWait

/-! ### Commands and hosts -/

/-- The value of a `char`. -/
def char (x : Int) : Int := Int.bmod x 256

/-- A host-host command in its buffer of twelve bytes. -/
structure Cmd where
  text : List (BitVec 8)
  some : text ≠ []
  fits : text.length ≤ 12
deriving DecidableEq

/-- The number of bytes of a command. -/
def Cmd.size (cmd : Cmd) : Nat := cmd.text.length

/-- The reset command. -/
def rstBuf : Cmd := ⟨[12], by decide, by decide⟩

/-- What the daemon keeps for a host: the queue `h_pb_q`, the count `h_pb_sent` of commands in the
message under way, the retry count `h_pb_rtry`, and the bits of `h_up_bm` and `rfnm_bm`. Besides,
the messages that the network has not answered, and what has happened to the commands. -/
structure Peer where
  pbQ : List Cmd
  sent : Int
  rtry : Int
  up : Bool
  rfnm : Bool
  unanswered : List (List Cmd)
  trace : List (Action Cmd)

namespace Peer

def qupPro (cmd : Cmd) (p : Peer) : Peer :=
  { p with pbQ := p.pbQ ++ [cmd], trace := p.trace ++ [.put cmd] }

/-- Up to 120 bytes of whole commands are sent; each is counted. -/
def sendPro (xRetries : Int) (p : Peer) : Peer :=
  if p.rfnm then p
  else if p.pbQ = [] then p
  else
    let message := fit Cmd.size 120 p.pbQ
    { p with
      sent := char (p.sent + message.length)
      rtry := if p.rtry = 0 then char xRetries else p.rtry
      rfnm := true
      unanswered := p.unanswered ++ [message]
      trace := p.trace ++ [.send message] }

/-- The number of times that a counting loop on a `char` runs. -/
def toFree (p : Peer) : Nat := (p.sent % 256).toNat

/-- The counted commands leave the queue. -/
def irRfnm (index : Nat) (p : Peer) : Peer :=
  { p with
    rtry := 0
    rfnm := false
    pbQ := p.pbQ.drop p.toFree
    sent := 0
    unanswered := p.unanswered.eraseIdx index
    trace := p.trace ++ [.acked (p.unanswered.getD index []) (p.pbQ.take p.toFree)] }

/-- The retry count goes down; the count of commands is left. -/
def irReX (index : Nat) (p : Peer) : Peer :=
  { p with
    rfnm := false
    rtry := char (p.rtry - 1)
    unanswered := p.unanswered.eraseIdx index
    trace := p.trace ++ [.again] }

def prFlush (p : Peer) : Peer := { p with pbQ := [], sent := 0, trace := p.trace ++ [.flush] }

end Peer

/-- The tables and the global variables; `known` is the map of the hosts that get a reset. -/
structure Ncp where
  host : Nat
  initHost : Nat
  pro2send : Bool
  known : Nat → Bool
  hosts : Nat → Peer

namespace Ncp

/-- A change to what is kept for the current host. -/
def atHost (s : Ncp) (change : Peer → Peer) : Ncp :=
  { s with hosts := Function.update s.hosts s.host (change (s.hosts s.host)) }

end Ncp

/-! ### The routines -/

section Routines

variable (xRetries : Int)

def qupPro (s : Ncp) (cmd : Cmd) : Ncp := { s.atHost (.qupPro cmd) with pro2send := true }

/-- The flag is reset only when a message has been sent. -/
def sendPro (s : Ncp) : Ncp :=
  let p := s.hosts s.host
  { s.atHost (.sendPro xRetries) with
    pro2send := if p.rfnm = false ∧ p.pbQ ≠ [] then false else s.pro2send }

/-- A host that is not up gets a reset, unless a reply is awaited; the result says that there was no
need. -/
def chkHost (s : Ncp) : Ncp × Bool :=
  let p := s.hosts s.host
  if p.up || p.rfnm then (s, true) else (sendPro xRetries (qupPro s rstBuf), false)

/-- What is queued for the current host is sent before another host becomes the current one. -/
def turnTo (s : Ncp) (h : Nat) : Ncp :=
  { (if s.pro2send then sendPro xRetries s else s) with host := h }

/-- The loop of `rst_all` over the hosts; `tries` is the number of hosts left. -/
def rstLoop : Nat → Ncp → Ncp
  | 0, s => { s with initHost := s.initHost + 1 }
  | tries + 1, s =>
    let s := { s with initHost := s.initHost + 1 }
    if s.known s.initHost then
      let checked := chkHost xRetries (turnTo xRetries s s.initHost)
      if checked.2 then rstLoop tries checked.1 else checked.1
    else rstLoop tries s

/-- The next known host that is down gets a reset; the map is read before the first one. -/
def rstAll (hnames : Nat → Bool) (s : Ncp) : Ncp :=
  let s := if s.initHost = 0 then { s with known := hnames } else s
  rstLoop xRetries (255 - s.initHost) s

def prFlush (s : Ncp) : Ncp := { s.atHost .prFlush with pro2send := false }

/-- The dead procedures of the host's sockets queue the commands `dead`; the queue is flushed. -/
def hDead (dead : List Cmd) (s : Ncp) : Ncp :=
  (prFlush (dead.foldl qupPro s)).atHost fun p => { p with up := false }

def irRfnm (index : Nat) (hnames : Nat → Bool) (s : Ncp) : Ncp :=
  let freed := s.atHost (.irRfnm index)
  let flagged := if (freed.hosts s.host).pbQ ≠ [] then { freed with pro2send := true } else freed
  if s.host = s.initHost then rstAll xRetries hnames flagged else flagged

def irReX (index : Nat) (dead : List Cmd) (hnames : Nat → Bool) (s : Ncp) : Ncp :=
  let counted := s.atHost (.irReX index)
  if (counted.hosts s.host).rtry ≤ 0 then
    let cleaned := hDead dead counted
    if s.host = s.initHost then rstAll xRetries hnames cleaned else cleaned
  else { counted with pro2send := true }

/-- Every host from one on is cleaned up; then the bits of `rfnm_bm` are cleared for all. -/
def irReset (dead : Nat → List Cmd) (hnames : Nat → Bool) (s : Ncp) : Ncp :=
  let cleaned := (List.range' 1 255).foldl (fun s h => hDead (dead h) { s with host := h }) s
  rstAll xRetries hnames
    { cleaned with
      host := 256
      initHost := 0
      hosts := fun h => { cleaned.hosts h with rfnm := false } }

/-- What happens to the queues in the main loop. A reply names the message it answers. -/
inductive NcpEvent
  | trip
  | setHost (h : Nat)
  | qupPro (cmd : Cmd)
  | sendPro
  | chkHost
  | hDead (dead : List Cmd)
  | hsAlive
  | irHdeds
  | irRfnm (h index : Nat) (hnames : Nat → Bool)
  | irReX (h index : Nat) (dead : List Cmd) (hnames : Nat → Bool)
  | irReset (dead : Nat → List Cmd) (hnames : Nat → Bool)

/-- The low byte of the current host is set from the leader of a message. -/
def Ncp.setLow (s : Ncp) (h : Nat) : Ncp := { s with host := s.host / 256 * 256 + h }

def ncpNext (s : Ncp) : NcpEvent → Ncp
  | .trip => { s with pro2send := false }
  | .setHost h => { s with host := h }
  | .qupPro cmd => qupPro s cmd
  | .sendPro => sendPro xRetries s
  | .chkHost => (chkHost xRetries s).1
  | .hDead dead => hDead dead s
  | .hsAlive => s.atHost fun p => { p with up := true }
  | .irHdeds => s.atHost fun p => { p with up := false }
  | .irRfnm h index hnames => irRfnm xRetries index hnames (s.setLow h)
  | .irReX h index dead hnames => irReX xRetries index dead hnames (s.setLow h)
  | .irReset dead hnames => irReset xRetries dead hnames s

/-- A reply comes from a host other than zero and answers a message that nobody has answered. -/
def Replies (s : Ncp) : NcpEvent → Prop
  | .irRfnm h index _ => h ≠ 0 ∧ h < 256 ∧ index < (s.hosts h).unanswered.length
  | .irReX h index _ _ => h ≠ 0 ∧ h < 256 ∧ index < (s.hosts h).unanswered.length
  | _ => True

def NcpStep (s : Ncp) (event : NcpEvent) (next : Ncp) : Prop :=
  Replies s event ∧ next = ncpNext xRetries s event

/-- Nothing is queued, and no host is up. -/
def ncpStart : Ncp where
  host := 0
  initHost := 0
  pro2send := false
  known := fun _ => false
  hosts := fun _ => ⟨[], 0, 0, false, false, [], []⟩

end Routines

/-! ### What is kept for one host -/

/-- What has happened to the commands is a history of a line whose queue is the host's. -/
def Followed (exact : Prop) (p : Peer) : Prop :=
  ∃ out, Follows Cmd.size 120 exact p.trace p.pbQ out

/-- The counts are right: what is under way is counted, nothing is under way without an awaited
reply, and what is under way stands in the last message that has not been answered. -/
structure Counts (p : Peer) (out : List Cmd) : Prop where
  sent : p.sent = out.length
  idle : p.rfnm = false → out = []
  awaited : p.rfnm = true → out = [] ∨ p.unanswered.getLast? = some out

/-- The line, with right counts where it is exact. -/
def PeerOk (exact : Prop) (p : Peer) : Prop :=
  ∃ out, Follows Cmd.size 120 exact p.trace p.pbQ out ∧ (exact → Counts p out)

theorem PeerOk.followed {exact : Prop} {p : Peer} (ok : PeerOk exact p) : Followed exact p :=
  let ⟨out, follows, _⟩ := ok
  ⟨out, follows⟩

theorem char_small {x : Int} (low : 0 ≤ x) (high : x < 128) : char x = x := by
  unfold char
  exact Int.bmod_eq_of_le (by omega) (by omega)

theorem Cmd.size_pos (cmd : Cmd) : 0 < cmd.size := List.length_pos_iff.mpr cmd.some

theorem Cmd.size_le (cmd : Cmd) : cmd.size ≤ 120 := Nat.le_trans cmd.fits (by decide)

theorem length_le_total (message : List Cmd) : message.length ≤ total Cmd.size message := by
  induction message with
  | nil => exact Nat.le_refl 0
  | cons cmd rest inductionHypothesis =>
    have positive := cmd.size_pos
    unfold total at inductionHypothesis ⊢
    rw [List.length_cons, List.map_cons, List.sum_cons]
    omega

section Peer

variable {exact : Prop} {p : Peer}

theorem Followed.qupPro (followed : Followed exact p) (cmd : Cmd) : Followed exact (p.qupPro cmd) :=
  let ⟨out, follows⟩ := followed
  ⟨out, follows.put cmd⟩

theorem PeerOk.qupPro (ok : PeerOk exact p) (cmd : Cmd) : PeerOk exact (p.qupPro cmd) :=
  let ⟨out, follows, counts⟩ := ok
  ⟨out, follows.put cmd, fun isExact => ⟨(counts isExact).sent, (counts isExact).idle,
    (counts isExact).awaited⟩⟩

theorem PeerOk.sendPro (ok : PeerOk exact p) (xRetries : Int) :
    PeerOk exact (p.sendPro xRetries) := by
  unfold Peer.sendPro
  split
  · exact ok
  next idle =>
  split
  · exact ok
  next queued =>
  obtain ⟨out, follows, counts⟩ := ok
  refine ⟨_, follows.send queued Cmd.size_le, fun isExact => ⟨?_, ?_, ?_⟩⟩
  · have nothing := (counts isExact).idle (Bool.eq_false_iff.mpr idle)
    have none : p.sent = 0 := by
      rw [(counts isExact).sent, nothing]
      rfl
    have short := (length_le_total (fit Cmd.size 120 p.pbQ)).trans (total_fit Cmd.size 120 p.pbQ)
    show char (p.sent + _) = _
    rw [none, Int.zero_add]
    exact char_small (Int.natCast_nonneg _) (by omega)
  · exact fun awaits => absurd awaits (Bool.noConfusion)
  · intro _
    right
    show (p.unanswered ++ [_]).getLast? = _
    rw [List.getLast?_append, List.getLast?_singleton]
    rfl

theorem PeerOk.prFlush (followed : Followed exact p) : PeerOk exact p.prFlush :=
  let ⟨_, follows⟩ := followed
  ⟨[], follows.flush, fun _ => ⟨rfl, fun _ => rfl, fun _ => Or.inl rfl⟩⟩

theorem PeerOk.up (ok : PeerOk exact p) (up : Bool) : PeerOk exact { p with up := up } :=
  let ⟨out, follows, counts⟩ := ok
  ⟨out, follows, fun isExact => ⟨(counts isExact).sent, (counts isExact).idle,
    (counts isExact).awaited⟩⟩

theorem PeerOk.clear (ok : PeerOk exact p) (none : exact → p.sent = 0) :
    PeerOk exact { p with rfnm := false } := by
  obtain ⟨out, follows, counts⟩ := ok
  refine ⟨out, follows, fun isExact => ⟨(counts isExact).sent, fun _ => ?_, fun awaits => ?_⟩⟩
  · have length := (counts isExact).sent
    rw [none isExact] at length
    exact List.length_eq_zero_iff.mp (Int.natCast_eq_zero.mp length.symm)
  · exact absurd awaits Bool.false_ne_true

theorem PeerOk.irRfnm (ok : PeerOk exact p) {index : Nat}
    (last : exact → p.rfnm = true ∧ index + 1 = p.unanswered.length) :
    PeerOk exact (p.irRfnm index) := by
  obtain ⟨out, follows, counts⟩ := ok
  refine ⟨[], follows.acked (p.unanswered.getD index []) p.toFree fun isExact => ?_,
    fun _ => ⟨rfl, fun _ => rfl, fun _ => Or.inl rfl⟩⟩
  obtain ⟨sent, _, awaited⟩ := counts isExact
  obtain ⟨awaits, isLast⟩ := last isExact
  have whole : out <+: p.pbQ := follows.out_prefix.trans (fit_begins _ _ _)
  have short : out.length ≤ 120 := by
    exact follows.out_prefix.length_le.trans
      ((length_le_total _).trans (total_fit Cmd.size 120 p.pbQ))
  have count : p.toFree = out.length := by
    unfold Peer.toFree
    rw [sent]
    omega
  have taken : p.pbQ.take p.toFree = out := by
    rw [count]
    exact (List.prefix_iff_eq_take.mp whole).symm
  refine ⟨taken, ?_⟩
  rw [taken]
  refine (awaited awaits).imp_right fun isMessage => ?_
  rw [List.getLast?_eq_getElem?, ← isLast, Nat.add_sub_cancel] at isMessage
  rw [List.getD_eq_getElem?_getD, isMessage, Option.getD_some]

theorem PeerOk.irReX_followed (ok : PeerOk exact p) (index : Nat) :
    Followed exact (p.irReX index) :=
  let ⟨out, follows, _⟩ := ok
  ⟨out, follows.again⟩

theorem PeerOk.irReX (ok : PeerOk exact p) (index : Nat) (none : exact → p.sent = 0) :
    PeerOk exact (p.irReX index) := by
  obtain ⟨out, follows, counts⟩ := ok.clear none
  refine ⟨out, follows.again, fun isExact => ⟨(counts isExact).sent, (counts isExact).idle, ?_⟩⟩
  exact fun awaits => absurd awaits Bool.false_ne_true

end Peer

/-! ### All hosts -/

/-- The lines of all hosts. -/
def AllOk (exact : Prop) (s : Ncp) : Prop := ∀ h, h < 256 → PeerOk exact (s.hosts h)

section All

variable {exact : Prop} {s : Ncp} {xRetries : Int}

theorem atHost_self (change : Peer → Peer) :
    (s.atHost change).hosts s.host = change (s.hosts s.host) := Function.update_self _ _ _

theorem atHost_other {h : Nat} (apart : h ≠ s.host) (change : Peer → Peer) :
    (s.atHost change).hosts h = s.hosts h := Function.update_of_ne apart _ _

theorem AllOk.atHost (ok : AllOk exact s) {change : Peer → Peer}
    (keeps : ∀ p, PeerOk exact p → PeerOk exact (change p)) : AllOk exact (s.atHost change) := by
  intro h bound
  by_cases here : h = s.host
  · subst here
    rw [atHost_self]
    exact keeps _ (ok s.host bound)
  · rw [atHost_other here]
    exact ok h bound

theorem AllOk.qupPro (ok : AllOk exact s) (cmd : Cmd) : AllOk exact (qupPro s cmd) :=
  ok.atHost fun _ held => held.qupPro cmd

theorem AllOk.sendPro (ok : AllOk exact s) : AllOk exact (sendPro xRetries s) :=
  ok.atHost fun _ held => held.sendPro xRetries

theorem AllOk.chkHost (ok : AllOk exact s) : AllOk exact (chkHost xRetries s).1 := by
  unfold Ncpd.chkHost
  simp only
  split
  · exact ok
  · exact (ok.qupPro rstBuf).sendPro

theorem AllOk.turnTo (ok : AllOk exact s) (h : Nat) : AllOk exact (turnTo xRetries s h) := by
  have sent : AllOk exact (if s.pro2send then Ncpd.sendPro xRetries s else s) := by
    split
    · exact ok.sendPro
    · exact ok
  exact sent

theorem AllOk.rstLoop (tries : Nat) (ok : AllOk exact s) :
    AllOk exact (rstLoop xRetries tries s) := by
  induction tries generalizing s with
  | zero => exact ok
  | succ tries inductionHypothesis =>
    unfold Ncpd.rstLoop
    simp only
    split
    · have counted : AllOk exact { s with initHost := s.initHost + 1 } := ok
      have checked : AllOk exact (Ncpd.chkHost xRetries
          (Ncpd.turnTo xRetries { s with initHost := s.initHost + 1 } (s.initHost + 1))).1 :=
        (counted.turnTo (s.initHost + 1)).chkHost
      split
      · exact inductionHypothesis checked
      · exact checked
    · exact inductionHypothesis ok

theorem AllOk.rstAll (ok : AllOk exact s) (hnames : Nat → Bool) :
    AllOk exact (rstAll xRetries hnames s) := by
  unfold Ncpd.rstAll
  simp only
  split
  · exact AllOk.rstLoop _ ok
  · exact AllOk.rstLoop _ ok

theorem qupPro_host (dead : List Cmd) : (dead.foldl qupPro s).host = s.host := by
  induction dead generalizing s with
  | nil => rfl
  | cons cmd rest inductionHypothesis => exact inductionHypothesis

theorem dead_followed (dead : List Cmd) (followed : Followed exact (s.hosts s.host)) :
    Followed exact ((dead.foldl qupPro s).hosts s.host) ∧
      ∀ h, h ≠ s.host → (dead.foldl qupPro s).hosts h = s.hosts h := by
  induction dead generalizing s with
  | nil => exact ⟨followed, fun _ _ => rfl⟩
  | cons cmd rest inductionHypothesis =>
    have self : (qupPro s cmd).hosts s.host = (s.hosts s.host).qupPro cmd := atHost_self _
    have queued := followed.qupPro cmd
    rw [← self] at queued
    obtain ⟨kept, others⟩ := @inductionHypothesis (qupPro s cmd) queued
    exact ⟨kept, fun h apart => (others h apart).trans (atHost_other apart _)⟩

theorem hDead_hosts (dead : List Cmd) (followed : Followed exact (s.hosts s.host)) :
    PeerOk exact ((hDead dead s).hosts s.host) ∧ ((hDead dead s).hosts s.host).sent = 0 ∧
      ∀ h, h ≠ s.host → (hDead dead s).hosts h = s.hosts h := by
  obtain ⟨kept, others⟩ := dead_followed dead followed
  have here := qupPro_host (s := s) dead
  have self : (hDead dead s).hosts s.host =
      { ((dead.foldl qupPro s).hosts s.host).prFlush with up := false } := by
    unfold hDead Ncpd.prFlush
    rw [← here]
    refine (atHost_self _).trans ?_
    exact congrArg (fun p : Peer => { p with up := false }) (atHost_self _)
  rw [self]
  refine ⟨(PeerOk.prFlush kept).up false, rfl, fun h apart => ?_⟩
  rw [← others h apart]
  have elsewhere : h ≠ (dead.foldl qupPro s).host := here ▸ apart
  exact (@atHost_other (Ncpd.prFlush (dead.foldl qupPro s)) h elsewhere _).trans
    (atHost_other elsewhere _)

theorem AllOk.hDead (others : ∀ h, h < 256 → h ≠ s.host → PeerOk exact (s.hosts h))
    (followed : Followed exact (s.hosts s.host)) (dead : List Cmd) :
    AllOk exact (hDead dead s) := by
  obtain ⟨self, _, same⟩ := hDead_hosts dead followed
  intro h bound
  by_cases here : h = s.host
  · exact here ▸ self
  · rw [same h here]
    exact others h bound here

theorem AllOk.irRfnm (ok : AllOk exact s) {index : Nat} (hnames : Nat → Bool)
    (last : exact → (s.hosts s.host).rfnm = true ∧
      index + 1 = (s.hosts s.host).unanswered.length) :
    AllOk exact (irRfnm xRetries index hnames s) := by
  have freed : AllOk exact (s.atHost (.irRfnm index)) := by
    intro h bound
    by_cases here : h = s.host
    · subst here
      rw [atHost_self]
      exact (ok s.host bound).irRfnm last
    · rw [atHost_other here]
      exact ok h bound
  have flagged : AllOk exact (if ((s.atHost (.irRfnm index)).hosts s.host).pbQ ≠ [] then
      { s.atHost (.irRfnm index) with pro2send := true } else s.atHost (.irRfnm index)) := by
    split
    · exact freed
    · exact freed
  unfold Ncpd.irRfnm
  simp only
  split
  · exact flagged.rstAll hnames
  · exact flagged

theorem AllOk.irReX (ok : AllOk exact s) (inRange : s.host < 256) {index : Nat} (dead : List Cmd)
    (hnames : Nat → Bool)
    (idle : exact → 0 < ((s.hosts s.host).irReX index).rtry → (s.hosts s.host).sent = 0) :
    AllOk exact (irReX xRetries index dead hnames s) := by
  have self := atHost_self (s := s) (.irReX index)
  unfold Ncpd.irReX
  simp only
  split
  next exhausted =>
    have cleaned : AllOk exact (Ncpd.hDead dead (s.atHost (.irReX index))) := by
      refine AllOk.hDead (fun h bound apart => ?_) ?_ dead
      · have elsewhere : h ≠ s.host := apart
        rw [atHost_other elsewhere]
        exact ok h bound
      · show Followed exact ((s.atHost (.irReX index)).hosts s.host)
        rw [self]
        exact (ok s.host inRange).irReX_followed index
    split
    · exact cleaned.rstAll hnames
    · exact cleaned
  next left =>
    rw [self] at left
    intro h bound
    show PeerOk exact ((s.atHost (.irReX index)).hosts h)
    by_cases here : h = s.host
    · subst here
      rw [self]
      exact (ok s.host bound).irReX index fun isExact => idle isExact (by omega)
    · rw [atHost_other here]
      exact ok h bound

theorem reset_hosts (dead : Nat → List Cmd) (hosts : List Nat) (bound : ∀ h ∈ hosts, h < 256)
    (ok : AllOk exact s) :
    AllOk exact (hosts.foldl (fun s h => Ncpd.hDead (dead h) { s with host := h }) s) ∧
      ∀ h, h ∈ hosts ∨ (s.hosts h).sent = 0 →
        ((hosts.foldl (fun s h => Ncpd.hDead (dead h) { s with host := h }) s).hosts h).sent = 0 := by
  induction hosts generalizing s with
  | nil => exact ⟨ok, fun h done => done.resolve_left List.not_mem_nil⟩
  | cons first rest inductionHypothesis =>
    have followed : Followed exact (s.hosts first) :=
      (ok first (bound first List.mem_cons_self)).followed
    obtain ⟨_, zero, same⟩ := @hDead_hosts exact { s with host := first } (dead first) followed
    have cleaned : AllOk exact (Ncpd.hDead (dead first) { s with host := first }) :=
      @AllOk.hDead exact { s with host := first } (fun h inside _ => ok h inside) followed
        (dead first)
    obtain ⟨all, sent⟩ :=
      inductionHypothesis ((List.forall_mem_cons.mp bound).2) cleaned
    refine ⟨all, fun h done => sent h ?_⟩
    by_cases here : h = first
    · exact Or.inr (here ▸ zero)
    · refine done.imp (fun inside => (List.mem_cons.mp inside).resolve_left here) fun none => ?_
      rw [same h here]
      exact none

theorem AllOk.irReset (ok : AllOk exact s) (dead : Nat → List Cmd) (hnames : Nat → Bool)
    (none : exact → (s.hosts 0).sent = 0) : AllOk exact (irReset xRetries dead hnames s) := by
  obtain ⟨cleaned, sent⟩ := reset_hosts dead (List.range' 1 255)
    (fun h inside => by rw [List.mem_range'_1] at inside; omega) ok
  unfold Ncpd.irReset
  refine AllOk.rstAll (fun h bound => ?_) hnames
  refine (cleaned h bound).clear fun isExact => sent h ?_
  by_cases zero : h = 0
  · exact Or.inr (zero ▸ none isExact)
  · refine Or.inl (List.mem_range'_1.mpr ?_)
    omega

end All

/-! ### Runs -/

/-- The tables have 256 places, and the current host is one of them where a routine uses it. -/
def InRange (s : Ncp) : NcpEvent → Prop
  | .trip => True
  | .setHost _ => True
  | .irReset _ _ => True
  | _ => s.host < 256

/-- The events that leave the counts right. A reply is awaited, and it answers the last message; an
error reply does not leave retries to a host with commands under way; and no command is under way
to host zero when the interface is reset. -/
def Counted (s : Ncp) : NcpEvent → Prop
  | .irRfnm h index _ => (s.hosts h).rfnm = true ∧ index + 1 = (s.hosts h).unanswered.length
  | .irReX h index _ _ =>
    (s.hosts h).rfnm = true ∧ index + 1 = (s.hosts h).unanswered.length ∧
      (0 < char ((s.hosts h).rtry - 1) → (s.hosts h).sent = 0)
  | .irReset _ _ => (s.hosts 0).sent = 0
  | _ => True

section Runs

variable {exact : Prop} {s : Ncp} {xRetries : Int}

theorem ncpNext_allOk {event : NcpEvent} (ok : AllOk exact s) (inRange : InRange s event)
    (replies : Replies s event) (counted : exact → Counted s event) :
    AllOk exact (ncpNext xRetries s event) := by
  cases event with
  | trip => exact ok
  | setHost h => exact ok
  | qupPro cmd => exact ok.qupPro cmd
  | sendPro => exact ok.sendPro
  | chkHost => exact ok.chkHost
  | hDead dead =>
    exact AllOk.hDead (fun h bound _ => ok h bound) (ok s.host inRange).followed dead
  | hsAlive => exact ok.atHost fun _ held => held.up true
  | irHdeds => exact ok.atHost fun _ held => held.up false
  | irRfnm h index hnames =>
    have host : (s.setLow h).host = h := by
      show s.host / 256 * 256 + h = h
      rw [Nat.div_eq_of_lt inRange, Nat.zero_mul, Nat.zero_add]
    refine AllOk.irRfnm (s := s.setLow h) ok hnames ?_
    rw [host]
    exact counted
  | irReX h index dead hnames =>
    have host : (s.setLow h).host = h := by
      show s.host / 256 * 256 + h = h
      rw [Nat.div_eq_of_lt inRange, Nat.zero_mul, Nat.zero_add]
    refine AllOk.irReX (s := s.setLow h) ok ?_ dead hnames ?_
    · rw [host]
      exact replies.2.1
    · rw [host]
      exact fun isExact => (counted isExact).2.2
  | irReset dead hnames => exact ok.irReset dead hnames counted

theorem ncpStart_allOk : AllOk exact ncpStart := fun _ _ =>
  ⟨[], .start, fun _ => ⟨rfl, fun _ => rfl, fun awaits => absurd awaits Bool.false_ne_true⟩⟩

end Runs

/-- In every run the commands for a host are sent whole and in order in messages of 120 bytes at
most, and what has to be sent again comes first. In every run that leaves the counts right, besides,
commands leave the queue only with the reply to the message that held them or with a flush, and
the count never exceeds the queue. -/
theorem commands_delivered (xRetries : Int) (history : List NcpEvent) (s : Ncp)
    (run : Transition.Run (Transition.Guarded (NcpStep xRetries) InRange) ncpStart history s) :
    (∀ h, h < 256 → (∃ out, Follows Cmd.size 120 False (s.hosts h).trace (s.hosts h).pbQ out) ∧
      ∀ message, Action.send message ∈ (s.hosts h).trace → total Cmd.size message ≤ 120) ∧
    (Transition.Run (Transition.Guarded (NcpStep xRetries) fun s event =>
        InRange s event ∧ Counted s event) ncpStart history s →
      ∀ h, h < 256 → (∃ out, Follows Cmd.size 120 True (s.hosts h).trace (s.hosts h).pbQ out) ∧
        (s.hosts h).sent ≤ (s.hosts h).pbQ.length) := by
  constructor
  · have all : AllOk False s := by
      refine run.always (AllOk False) ncpStart_allOk ?_
      rintro state event next held ⟨inRange, replies, rfl⟩
      exact ncpNext_allOk held inRange replies False.elim
    intro h bound
    obtain ⟨out, follows⟩ := (all h bound).followed
    exact ⟨⟨out, follows⟩, follows.message_total⟩
  · intro counted
    have all : AllOk True s := by
      refine counted.always (AllOk True) ncpStart_allOk ?_
      rintro state event next held ⟨⟨inRange, counts⟩, replies, rfl⟩
      exact ncpNext_allOk held inRange replies fun _ => counts
    intro h bound
    obtain ⟨out, follows, counts⟩ := all h bound
    refine ⟨⟨out, follows⟩, ?_⟩
    rw [(counts trivial).sent]
    exact Int.ofNat_le.mpr (follows.out_prefix.trans (fit_begins _ _ _)).length_le

/-! ### A reset that is answered, and one that is sent again -/

/-- A host is checked and answers the reset. -/
def answered : List NcpEvent := [.setHost 5, .chkHost, .irRfnm 5 0 fun _ => false]

theorem commands_delivered_answered :
    ((answered.foldl (ncpNext 1) ncpStart).hosts 5).sent ≤
      ((answered.foldl (ncpNext 1) ncpStart).hosts 5).pbQ.length := by
  have counted : Transition.Follows (Transition.Guarded (NcpStep 1) fun s event =>
      InRange s event ∧ Counted s event) (ncpNext 1) ncpStart answered :=
    ⟨⟨⟨trivial, trivial⟩, trivial, rfl⟩,
      ⟨⟨(by decide : 5 < 256), trivial⟩, trivial, rfl⟩,
      ⟨⟨(by decide : 5 < 256), by decide, by decide⟩, ⟨by decide, by decide, by decide⟩, rfl⟩,
      trivial⟩
  have inRange : Transition.Follows (Transition.Guarded (NcpStep 1) InRange) (ncpNext 1) ncpStart
      answered :=
    ⟨⟨trivial, trivial, rfl⟩, ⟨(by decide : 5 < 256), trivial, rfl⟩,
      ⟨(by decide : 5 < 256), ⟨by decide, by decide, by decide⟩, rfl⟩, trivial⟩
  exact ((commands_delivered 1 _ _ (Transition.Run.start.follows inRange)).2
    (Transition.Run.start.follows counted) 5 (by decide)).2

/-- The network answers the reset with an error, and the daemon, which has a retry left, sends it
again. -/
def sentAgain : List NcpEvent :=
  [.setHost 5, .chkHost, .trip, .irReX 5 0 [] fun _ => false, .sendPro]

/-- The command that is sent again is counted again. -/
theorem counted_twice :
    ¬ ∀ (xRetries : Int) (history : List NcpEvent) (s : Ncp), 1 ≤ xRetries →
      Transition.Run (Transition.Guarded (NcpStep xRetries) InRange) ncpStart history s →
        ∀ h, h < 256 → (∃ out, Follows Cmd.size 120 True (s.hosts h).trace (s.hosts h).pbQ out) ∧
          (s.hosts h).sent ≤ (s.hosts h).pbQ.length := by
  intro always
  have inRange : Transition.Follows (Transition.Guarded (NcpStep 2) InRange) (ncpNext 2) ncpStart
      sentAgain :=
    ⟨⟨trivial, trivial, rfl⟩, ⟨(by decide : 5 < 256), trivial, rfl⟩, ⟨trivial, trivial, rfl⟩,
      ⟨(by decide : 5 < 256), ⟨by decide, by decide, by decide⟩, rfl⟩,
      ⟨(by decide : 5 < 256), trivial, rfl⟩, trivial⟩
  have count := (always 2 _ _ (by decide) (Transition.Run.start.follows inRange) 5 (by decide)).2
  exact absurd count (by decide)

end NetworkUnix.Ncpd
