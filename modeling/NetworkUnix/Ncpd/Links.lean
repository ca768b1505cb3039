/-
This file proves that the links of receive sockets are unique for each host. A link
is chosen for the host that is known when the socket is requested, but a general
listen for any host gets its host later and keeps the link. As long as no such
listen is met by a host that has the link already, no two receive sockets of a host
have one link, and a message with data finds the socket that it belongs to.
-/

import NetworkUnix.Ncpd.Runs

namespace NetworkUnix.Ncpd

/-! ### The links of a board -/

/-- A general listen for a receive socket is met only by a host of which no other receive socket has
its link, and a struct is not taken with a receive link for a send socket. -/
def Guards.linked : Guards :=
  { Guards.all with
    opens := fun b i r => isSend r.lskt = false → ∀ j, j ≠ i → (b.cells j).receives = true →
      (b.cells j).hlHost = r.hlHost → (b.cells j).hlLink ≠ (b.cells i).hlLink
    adopt := fun b _ r => Fresh b r
    link := fun r => isSend r.lskt = true → 128 ≤ r.hlLink.toNat
    high := fun _ high => high }

theorem Guards.linked_lax : Guards.linked.Lax := Guards.all_lax

/-- The receive sockets of a host have different links, and those of send sockets are higher. -/
structure Board.Linked (b : Board) : Prop where
  apart : ∀ i j, i ≠ j → (b.cells i).receives = true → (b.cells j).receives = true →
    (b.cells i).hlHost ≠ 0 → (b.cells i).hlHost = (b.cells j).hlHost →
    (b.cells i).hlLink ≠ (b.cells j).hlLink
  high : ∀ i, (b.cells i).state ≠ .null → isSend (b.cells i).lskt = true →
    128 ≤ (b.cells i).hlLink.toNat

section Linked

variable {b : Board}

theorem receives_iff (c : Cell) :
    c.receives = true ↔ c.state ≠ .null ∧ c.state ≠ .q ∧ isSend c.lskt = false :=
  decide_eq_true_iff

theorem Board.Linked.replace (linked : b.Linked) {i : SktNo} {c : Cell}
    (fresh : c.receives = true → c.hlHost ≠ 0 → ∀ j, j ≠ i → (b.cells j).receives = true →
      (b.cells j).hlHost = c.hlHost → (b.cells j).hlLink ≠ c.hlLink)
    (high : c.state ≠ .null → isSend c.lskt = true → 128 ≤ c.hlLink.toNat) :
    (b.setCell i c).Linked where
  apart := by
    intro j k apart receivesJ receivesK host same
    by_cases hereJ : j = i
    · subst hereJ
      rw [setCell_self] at receivesJ host same ⊢
      rw [setCell_other apart.symm] at receivesK same ⊢
      exact (fresh receivesJ host k apart.symm receivesK same.symm).symm
    · rw [setCell_other hereJ] at receivesJ host same ⊢
      by_cases hereK : k = i
      · subst hereK
        rw [setCell_self] at receivesK same ⊢
        rw [same] at host
        exact fresh receivesK host j hereJ receivesJ same
      · rw [setCell_other hereK] at receivesK same ⊢
        exact linked.apart j k apart receivesJ receivesK host same
  high := by
    intro j used send
    by_cases here : j = i
    · subst here
      rw [setCell_self] at used send ⊢
      exact high used send
    · rw [setCell_other here] at used send ⊢
      exact linked.high j used send

theorem Board.Linked.keep (linked : b.Linked) {i : SktNo} {c : Cell}
    (used : (b.cells i).state ≠ .null) (notQ : (b.cells i).state ≠ .q)
    (numbers : c.lskt = (b.cells i).lskt ∧ c.hlHost = (b.cells i).hlHost ∧
      c.hlLink = (b.cells i).hlLink) : (b.setCell i c).Linked := by
  obtain ⟨lskt, host, link⟩ := numbers
  refine linked.replace (fun receives isHost j apart receivesJ same => ?_) fun _ send => ?_
  · rw [host] at isHost same
    rw [link]
    have receivesI : (b.cells i).receives = true := by
      rw [receives_iff, lskt] at receives
      exact (receives_iff _).mpr ⟨used, notQ, receives.2.2⟩
    exact (linked.apart i j apart.symm receivesI receivesJ isHost same.symm).symm
  · rw [link]
    rw [lskt] at send
    exact linked.high i used send

theorem Board.Linked.free (linked : b.Linked) (i : SktNo) :
    (b.setCell i { b.cells i with state := .null }).Linked :=
  linked.replace (fun receives => absurd rfl ((receives_iff _).mp receives).1)
    fun used => absurd rfl used

theorem move_linked {next : Board} (ok : b.Ok) (linked : b.Linked)
    (move : Move Guards.linked b next) : next.Linked := by
  cases move with
  | close i ms c ncp closes closing =>
    obtain ⟨used, notQ, -⟩ := closes.states
    rcases closing.numbers with same | zero
    · have kept := linked.keep used notQ ⟨same.1, same.2.2.1, same.2.2.2⟩
      exact ⟨kept.apart, kept.high⟩
    · have kept : (b.setCell i c).Linked := by
        refine linked.replace (fun _ host => absurd zero.2.2.2.1 host) fun _ send => ?_
        rw [zero.2.1] at send
        exact absurd send (by decide)
      exact ⟨kept.apart, kept.high⟩
  | wait i opened =>
    have used : (b.cells i).state ≠ .null ∧ (b.cells i).state ≠ .q := by
      rw [opened]
      decide
    have kept := linked.keep (c := { b.cells i with state := .orfnmw }) used.1 used.2 ⟨rfl, rfl, rfl⟩
    exact ⟨kept.apart, kept.high⟩
  | opens i r offers listening lskt exactly wildly permitted =>
    have used : (b.cells i).state ≠ .null ∧ (b.cells i).state ≠ .q := by
      constructor <;> intro isState <;> rw [isState] at listening <;> exact absurd listening (by decide)
    have kept : (b.setCell i ((b.cells i).open r)).Linked := by
      refine linked.replace (fun receives host j apart receivesJ same => ?_) fun _ send => ?_
      · have receive : isSend r.lskt = false := by
          rw [← lskt]
          exact ((receives_iff _).mp receives).2.2
        have link : ((b.cells i).open r).hlLink = (b.cells i).hlLink := by
          show (if isSend r.lskt then r.hlLink else (b.cells i).hlLink) = _
          rw [receive]
          rfl
        have receivesI : (b.cells i).receives = true := by
          rw [receives_iff, lskt]
          exact ⟨used.1, used.2, receive⟩
        change r.hlHost ≠ 0 at host
        change (b.cells j).hlHost = r.hlHost at same
        rw [link]
        by_cases general : (b.cells i).state = .glsn
        · have data : (b.cells i).sinx ≠ .icp := by
            intro icp
            cases file : (b.cells i).filep with
            | none =>
              exact used.2 ((ok.queued i used.1).mpr file)
            | some f =>
              have send := (ok.fits i f used.1 file).serverSend icp general
              rw [lskt, receive] at send
              exact absurd send (by decide)
          exact permitted general data receive j apart receivesJ same
        · have sameI := (exactly general).1
          rw [sameI] at host same
          exact (linked.apart i j apart.symm receivesI receivesJ host same.symm).symm
      · change isSend (b.cells i).lskt = true at send
        show 128 ≤ (if isSend r.lskt then r.hlLink else (b.cells i).hlLink).toNat
        rw [lskt] at send
        rw [if_pos send]
        exact offers.offered.link send
    exact ⟨kept.apart, kept.high⟩
  | adopt i r f asks queued lskt host fskt fresh permitted =>
    have used : (b.cells i).state ≠ .null := by
      rw [queued]
      decide
    have isFresh : isSend r.lskt = false → Fresh b r := by
      intro receive
      by_cases general : r.state = .glsn
      · refine permitted general fun icp => ?_
        have listens : r.cell.state = .glsn := by
          show r.state.state = .glsn
          rw [general]
          rfl
        have send := asks.fits.serverSend icp listens
        exact absurd (send.symm.trans receive) (by decide)
      · exact fresh general
    have kept : (b.setCell i ((b.cells i).adopt r)).Linked := by
      refine linked.replace (fun receives _ j apart receivesJ same => ?_) fun _ send => ?_
      · have receive : isSend r.lskt = false := by
          rw [← lskt]
          exact ((receives_iff _).mp receives).2.2
        have link : ((b.cells i).adopt r).hlLink = r.hlLink := by
          show (if isSend r.lskt then (b.cells i).hlLink else r.hlLink) = _
          rw [receive]
          rfl
        rw [link]
        exact isFresh receive receive j receivesJ (same.trans host.symm)
      · change isSend (b.cells i).lskt = true at send
        show 128 ≤ (if isSend r.lskt then (b.cells i).hlLink else r.hlLink).toNat
        rw [← lskt, if_pos send]
        exact linked.high i used send
    exact ⟨kept.apart, kept.high⟩
  | create i r f asks free fresh high =>
    have kept : (b.setCell i r.cell).Linked := by
      refine linked.replace (fun receives _ j _ receivesJ same => ?_) fun _ => high
      exact fresh ((receives_iff _).mp receives).2.2 j receivesJ same
    exact ⟨kept.apart, kept.high⟩
  | offer i r offers =>
    have isQ : r.cell.state = .q := by
      show r.state.state = .q
      rw [offers.op]
      rfl
    have kept : (b.setCell i r.cell).Linked :=
      linked.replace (fun receives => absurd isQ ((receives_iff _).mp receives).2.1)
        fun _ => offers.offered.link
    exact ⟨kept.apart, kept.high⟩
  | drop i => exact ⟨(linked.free i).apart, (linked.free i).high⟩
  | giveBack i => exact ⟨(linked.free i).apart, (linked.free i).high⟩
  | _ => exact ⟨linked.apart, linked.high⟩

end Linked

namespace Daemon

/-- The receive sockets, but for those of requests that are queued. -/
def receives (d : Daemon) (i : SktNo) : Bool := (d.sockets i).cell.receives

/-- An instruction that opens a user's contact connection when every block of socket numbers is
taken. -/
def exhausts (d : Daemon) : Instr → Prop
  | .userOpen o => o.drct = false ∧ (d.unnamed o).Exhausts o
  | _ => False

instance (d : Daemon) (o : KrOpen) : Decidable (d.Exhausts o) :=
  decidable_of_iff (o.serv = false ∧ o.host ≠ 0 ∧ contact o.fskt ≠ none ∧ 3 ≤ d.nsLeft ∧
      ∀ n, n < sktMpsz → d.board.map n = false)
    ⟨fun ⟨user, host, contact, left, full⟩ => ⟨user, host, contact, left, full⟩,
      fun all => ⟨all.user, all.host, all.contact, all.left, all.full⟩⟩

instance (d : Daemon) : (instr : Instr) → Decidable (d.exhausts instr)
  | .userOpen o => inferInstanceAs (Decidable (o.drct = false ∧ (d.unnamed o).Exhausts o))
  | .rcv _ _ | .close _ _ | .timo | .reset _ | .log => .isFalse id

/-- When a general listen for a receive socket is met by a request that has just come, or is made
and meets a request that is queued, no other receive socket of the host has the listen's link; and
no user's contact connection is opened while every block of socket numbers is taken. -/
def Unshared (d : Daemon) (e : Event) : Prop :=
  (∀ q ∈ (d.read e.clock).requests e.instr, ∀ i, q.found = some i → isSend q.sktReq.lskt = false →
    (q.sktReq.state = .rfc → (q.sockets i).state = .glsn → ∀ j, j ≠ i → q.receives j = true →
      (q.sockets j).hlHost = q.sktReq.hlHost → (q.sockets j).hlLink ≠ (q.sockets i).hlLink) ∧
    (q.sktReq.state = .glsn → ∀ j, q.receives j = true →
      (q.sockets j).hlHost = (q.sockets i).hlHost → (q.sockets j).hlLink ≠ q.sktReq.hlLink)) ∧
  ¬ (d.read e.clock).exhausts e.instr

instance (d : Daemon) (e : Event) : Decidable (d.Unshared e) :=
  @instDecidableAnd _ _ (List.decidableBAll _ _) inferInstance

theorem unshared_permits {d : Daemon} {e : Event} (unshared : d.Unshared e) :
    Permits Guards.linked (d.read e.clock) e.instr where
  receives := by
    refine fun q member isRfc => ⟨fun i state data isFound receive => ?_, fun _ _ => trivial⟩
    exact (unshared.1 q member i isFound receive).1 isRfc state
  listens := by
    intro q member i general data isFound receive
    exact (unshared.1 q member i isFound receive).2 general
  leaks := fun _ _ _ _ _ _ _ _ => trivial
  shares := fun _ _ _ _ _ _ => trivial
  blocks := fun _ _ _ _ _ _ _ _ _ _ _ => trivial
  full := fun o isOpen drct exhausts => absurd (show (d.read e.clock).exhausts e.instr by
    rw [isOpen]
    exact ⟨drct, exhausts⟩) unshared.2

theorem hlFind_receives {d : Daemon} (ok : d.board.Ok) (linked : d.board.Linked) {h l : BitVec 8}
    {i : SktNo} (low : 2 ≤ l.toNat) (high : l.toNat ≤ 71)
    (isFound : d.hlFind (h.toNat + 256 * l.toNat) = some i) :
    d.receives i = true ∧ (d.sockets i).hlHost = h ∧ (d.sockets i).hlLink = l := by
  have here := of_decide_eq_true (List.find?_some (p := fun i => decide
    ((d.sockets i).state ≠ .null ∧
      (d.sockets i).hlHost.toNat + 256 * (d.sockets i).hlLink.toNat =
        h.toNat + 256 * l.toNat)) isFound)
  have boundI := (d.sockets i).hlHost.isLt
  have boundH := h.isLt
  have host : (d.sockets i).hlHost = h := BitVec.eq_of_toNat_eq (by omega)
  have link : (d.sockets i).hlLink = l := BitVec.eq_of_toNat_eq (by omega)
  have receive : isSend (d.sockets i).lskt = false := by
    by_contra send
    have isHigh := linked.high i here.1 (Bool.not_eq_false _ ▸ send)
    change 128 ≤ (d.sockets i).hlLink.toNat at isHigh
    rw [link] at isHigh
    omega
  have notQ : (d.sockets i).state ≠ .q := by
    intro isQ
    have zero := (ok.offered i isQ).unlinked receive
    change (d.sockets i).hlLink = 0 at zero
    rw [← link, zero] at low
    exact absurd low (by decide)
  exact ⟨(receives_iff _).mpr ⟨here.1, notQ, receive⟩, host, link⟩

/-- In a run whose general listens are met only by hosts without their links, two receive sockets of
one host have different links; a socket that is found by a host and a receive link is the only
receive socket that has them; and the assignment of a link never fails. -/
theorem links_unique {history : List Event} {d : Daemon}
    (run : Transition.Run (Transition.Guarded Trip Unshared) start history d) :
    (∀ i j, i ≠ j → d.receives i = true → d.receives j = true → (d.sockets i).hlHost ≠ 0 →
      (d.sockets i).hlHost = (d.sockets j).hlHost →
      (d.sockets i).hlLink ≠ (d.sockets j).hlLink) ∧
    (∀ (h l : BitVec 8) i, h ≠ 0 → 2 ≤ l.toNat → l.toNat ≤ 71 →
      d.hlFind (h.toNat + 256 * l.toNat) = some i →
      d.receives i = true ∧ (d.sockets i).hlHost = h ∧ (d.sockets i).hlLink = l ∧
      ∀ j, d.receives j = true → (d.sockets j).hlHost = h → (d.sockets j).hlLink = l → j = i) ∧
    ∀ e : Daemon, e.asnLnkn.2 ≠ none := by
  obtain ⟨ok, linked⟩ := run_keeps Guards.linked_lax Board.Linked
    ⟨fun i j _ receives => absurd rfl ((receives_iff _).mp receives).1, fun i used => absurd rfl used⟩
    (fun d e _ _ unshared => unshared_permits unshared)
    (fun b next ok held move => move_linked ok held move) run
  refine ⟨linked.apart, fun h l i host low high isFound => ?_, fun e => ?_⟩
  · obtain ⟨receives, hostI, linkI⟩ := hlFind_receives ok linked low high isFound
    refine ⟨receives, hostI, linkI, fun j receivesJ hostJ linkJ => ?_⟩
    by_contra apart
    refine linked.apart j i apart receivesJ receives ?_ (hostJ.trans hostI.symm)
      (linkJ.trans linkI.symm)
    show (d.sockets j).hlHost ≠ 0
    rw [hostJ]
    exact host
  · obtain ⟨n, assigned, -⟩ := asnLnkn_some e
    rw [assigned]
    exact Option.some_ne_none n

/-- A general listen for any host. -/
def listenAny (id lskt : BitVec 16) : Event :=
  ⟨.userOpen ⟨true, false, false, false, false, false, id, lskt, 0, 0, 0, 0, 0⟩, 0⟩

/-- A user's open for host 1 that names an even contact socket. -/
def evenContact : Event := ⟨.userOpen ⟨false, false, false, false, false, false, 9, 0, 2, 1, 0, 0, 0⟩, 0⟩

/-- A receive socket is initiated to socket 1 of host 1. -/
def receiveFrom (id lskt : BitVec 16) : Event :=
  ⟨.userOpen ⟨true, false, true, false, false, false, id, lskt, 1, 1, 0, 0, 0⟩, 0⟩

/-- Host 1 asks to send from its socket 1. -/
def sends (lskt : BitVec 8) : Event :=
  ⟨.rcv ⟨0, 1, 0, 0, [2, 0, 0, 0, 1, 0, 0, 0, lskt, 8], 0⟩ fun _ => false, 0⟩

/-- The listen gets link 2; after the refused opens the next link of host 1 is 2 as well. -/
def sharing : List Event :=
  listenAny 1 16 :: (List.replicate 69 evenContact ++ [receiveFrom 2 24, sends 16])

/-- The listen for any host is met by host 1. -/
def met : List Event := [listenAny 1 16, sends 16]

theorem links_unique_met :
    Transition.Run (Transition.Guarded Trip Unshared) start met (met.foldl trip start) ∧
    ∀ i j, i ≠ j → (met.foldl trip start).receives i = true →
      (met.foldl trip start).receives j = true → ((met.foldl trip start).sockets i).hlHost ≠ 0 →
      ((met.foldl trip start).sockets i).hlHost = ((met.foldl trip start).sockets j).hlHost →
      ((met.foldl trip start).sockets i).hlLink ≠ ((met.foldl trip start).sockets j).hlLink :=
  have run := run_meet (by decide +kernel)
  ⟨run, (links_unique run).1⟩

/-- Two receive sockets of host 1 with link 2. -/
theorem links_shared :
    Transition.Run Trip start sharing (sharing.foldl trip start) ∧
    ∃ i j, i ≠ j ∧ (sharing.foldl trip start).receives i = true ∧
      (sharing.foldl trip start).receives j = true ∧
      ((sharing.foldl trip start).sockets i).hlHost = 1 ∧
      ((sharing.foldl trip start).sockets j).hlHost = 1 ∧
      ((sharing.foldl trip start).sockets i).hlLink = 2 ∧
      ((sharing.foldl trip start).sockets j).hlLink = 2 :=
  ⟨run_events _, ⟨0, by decide⟩, ⟨1, by decide⟩, by decide +kernel⟩

end Daemon

end NetworkUnix.Ncpd
