/-
This file shows that the requests which the daemon makes for its files are paths of
moves: the assignment of a receive link, the data sockets of a simplex or duplex
connection, and the answers of a file to a socket number, an allocation and a reply.
-/

import NetworkUnix.Ncpd.Opening
import Mathlib.Order.Interval.Finset.Nat

namespace NetworkUnix.Ncpd

/-! ### Polarity -/

theorem isSend_eq (lskt : BitVec 16) : isSend lskt = decide (lskt.toNat % 2 = 1) := by
  unfold isSend
  rw [BitVec.getLsbD, Nat.testBit_zero]

theorem isSend_succ (lskt : BitVec 16) : isSend (lskt + 1) = !isSend lskt := by
  rw [isSend_eq, isSend_eq, BitVec.toNat_add, ← decide_not, decide_eq_decide]
  have bound := lskt.isLt
  show (lskt.toNat + 1) % 2 ^ 16 % 2 = 1 ↔ _
  omega

theorem isSend_add_two (lskt : BitVec 16) : isSend (lskt + 2) = isSend lskt := by
  rw [isSend_eq, isSend_eq, BitVec.toNat_add, decide_eq_decide]
  have bound := lskt.isLt
  show (lskt.toNat + 2) % 2 ^ 16 % 2 = 1 ↔ _
  omega

namespace Daemon

variable {g : Guards} {d : Daemon}

/-! ### The assignment of a link -/

theorem findBit_some {map : Nat → Bool} {size start n : Nat}
    (found : findBit map size start = some n) : map n = true ∧ start ≤ n ∧ n < size := by
  unfold findBit at found
  have member := List.mem_of_find?_eq_some found
  rw [List.mem_range'_1] at member
  exact ⟨List.find?_some found, member.1, by omega⟩

theorem findBit_none {map : Nat → Bool} {size start n : Nat} (found : findBit map size start = none)
    (after : start ≤ n) (before : n < size) : map n = false := by
  unfold findBit at found
  have none := List.find?_eq_none.mp found n (by rw [List.mem_range'_1]; omega)
  exact Bool.eq_false_iff.mpr none

theorem link_free (d : Daemon) : ∃ n, 2 ≤ n ∧ n < 72 ∧ d.linkUsed n = false := by
  by_contra none
  have used : Finset.Ico 2 72 ⊆
      Finset.univ.image fun i : SktNo => (d.sockets i).hlLink.toNat := by
    intro n member
    rw [Finset.mem_Ico] at member
    have isUsed : d.linkUsed n = true := by
      by_contra unused
      exact none ⟨n, member.1, member.2, Bool.eq_false_iff.mpr unused⟩
    unfold linkUsed at isUsed
    obtain ⟨i, -, here⟩ := List.any_eq_true.mp isUsed
    rw [Finset.mem_image]
    exact ⟨i, Finset.mem_univ i, (of_decide_eq_true here).2.2.2.2⟩
  have few := (Finset.card_le_card used).trans Finset.card_image_le
  rw [Nat.card_Ico, Finset.card_univ, Fintype.card_fin] at few
  exact absurd few (by decide)

theorem asnLnkn_some (d : Daemon) : ∃ n, d.asnLnkn = ({ d with laslnkn := n }, some n) ∧
    2 ≤ n ∧ n < 72 ∧ d.linkUsed n = false := by
  obtain ⟨m, low, high, free⟩ := link_free d
  unfold asnLnkn
  simp only
  split
  next n found =>
    have bit : ∃ start, findBit (fun n => decide (2 ≤ n) && !d.linkUsed n) 72 start = some n := by
      rcases Option.or_eq_some_iff.mp found with first | second
      · exact ⟨_, first⟩
      · exact ⟨_, second.2⟩
    obtain ⟨start, isFound⟩ := bit
    obtain ⟨isFree, -, small⟩ := findBit_some isFound
    rw [Bool.and_eq_true, decide_eq_true_iff, Bool.not_eq_true'] at isFree
    exact ⟨n, rfl, isFree.1, small, isFree.2⟩
  next none =>
    have second := (Option.or_eq_none_iff.mp none).2
    have unset := findBit_none second low high
    simp [low, free] at unset

theorem assigned_fresh {n : Nat} {r : Request} (high : n < 72) (free : d.linkUsed n = false)
    (host : r.hlHost = BitVec.ofNat 8 d.ncp.host) (link : isSend r.lskt = false → r.hlLink = BitVec.ofNat 8 n) :
    Fresh d.board r := by
  intro receive i receives same isLink
  rw [link receive] at isLink
  have number : (d.sockets i).hlLink.toNat = n := by
    show (d.board.cells i).hlLink.toNat = n
    rw [isLink, BitVec.toNat_ofNat]
    omega
  have receivesI := of_decide_eq_true receives
  have isUsed : d.linkUsed n = true := by
    unfold linkUsed
    refine List.any_eq_true.mpr ⟨i, List.mem_finRange i, decide_eq_true ?_⟩
    exact ⟨receivesI.1, same.trans host, receivesI.2.1, receivesI.2.2, number⟩
  exact absurd (isUsed.symm.trans free) (by decide)

/-! ### The data sockets of a connection -/

/-- The daemon when the request for a data socket has been made. -/
def splx (d : Daemon) (lskt : BitVec 16) (fskt : BitVec 32) (sinx : SktIndex) (op : SktOp) : Daemon :=
  let linked := if isSend lskt then (d, 0xff) else (d.asnLnkn.1, linkByte d.asnLnkn.2)
  { linked.1 with
    sktReq := ⟨lskt, fskt, BitVec.ofNat 8 linked.1.ncp.host, linked.2, op, linked.1.dataBysz,
      some linked.1.fp, sinx⟩ }

theorem smSplx_eq (lskt : BitVec 16) (fskt : BitVec 32) (sinx : SktIndex) (op : SktOp) :
    d.smSplx lskt fskt sinx op = (d.splx lskt fskt sinx op).getSkt := rfl

section Splx

variable {lskt : BitVec 16} {fskt : BitVec 32} {sinx : SktIndex} {op : SktOp}

theorem splx_spec (lskt : BitVec 16) (fskt : BitVec 32) (sinx : SktIndex) (op : SktOp) :
    (d.splx lskt fskt sinx op).board = d.board ∧
    (d.splx lskt fskt sinx op).fp = d.fp ∧
    ∃ link, (d.splx lskt fskt sinx op).sktReq =
        ⟨lskt, fskt, BitVec.ofNat 8 d.ncp.host, link, op, d.dataBysz, some d.fp, sinx⟩ ∧
      (isSend lskt = false → IsLink link) ∧ (isSend lskt = true → 128 ≤ link.toNat) ∧
      Fresh d.board ⟨lskt, fskt, BitVec.ofNat 8 d.ncp.host, link, op, d.dataBysz, some d.fp, sinx⟩ := by
  by_cases send : isSend lskt = true
  · have isSplx : d.splx lskt fskt sinx op = { d with
        sktReq := ⟨lskt, fskt, BitVec.ofNat 8 d.ncp.host, 0xff, op, d.dataBysz, some d.fp, sinx⟩ } := by
      unfold splx
      rw [if_pos send]
    rw [isSplx]
    refine ⟨rfl, rfl, 0xff, rfl, ?_, fun _ => by decide, ?_⟩
    · exact fun receive => absurd (send.symm.trans receive) (by decide)
    · exact fun receive => absurd (send.symm.trans receive) (by decide)
  · obtain ⟨n, assigned, low, high, free⟩ := asnLnkn_some d
    have isSplx : d.splx lskt fskt sinx op = { d with
        laslnkn := n,
        sktReq := ⟨lskt, fskt, BitVec.ofNat 8 d.ncp.host, BitVec.ofNat 8 n, op, d.dataBysz, some d.fp,
          sinx⟩ } := by
      unfold splx
      rw [if_neg send, assigned]
      rfl
    rw [isSplx]
    refine ⟨rfl, rfl, BitVec.ofNat 8 n, rfl, fun _ => ?_, fun isSend => absurd isSend send, ?_⟩
    · unfold IsLink
      rw [BitVec.toNat_ofNat]
      omega
    · exact assigned_fresh high free rfl fun _ => rfl

/-- What is known of the file of a request for a data socket. -/
structure Ready (d : Daemon) (sinx : SktIndex) : Prop where
  state : (d.files d.fp).state = .dopnw
  vacant : (d.files d.fp).sktX sinx = none
  room : (d.files d.fp).nsatt < (d.files d.fp).nsrsrv
  first : sinx = .xmit → (d.files d.fp).sktX .rcv = none

theorem splx_asks (fskt : BitVec 32) (ready : Ready d sinx) (isOp : op = .glsn ∨ op = .slsn ∨ op = .init)
    (data : sinx ≠ .icp) (polarity : isSend lskt = true ↔ sinx = .xmit)
    (pair : op ≠ .glsn → sinx = .rcv → ∀ j, (d.files d.fp).sktX .xmit = some j →
      (d.sockets j).hlHost = BitVec.ofNat 8 d.ncp.host ∧ fskt = (d.sockets j).fskt + 1) :
    Asks (d.splx lskt fskt sinx op).board (d.splx lskt fskt sinx op).sktReq d.fp ∧
      Fresh (d.splx lskt fskt sinx op).board (d.splx lskt fskt sinx op).sktReq := by
  obtain ⟨board, -, link, request, isLink, -, fresh⟩ := splx_spec (d := d) lskt fskt sinx op
  rw [board, request]
  have state : (d.board.entries d.fp).state = .dopnw := ready.state
  refine ⟨?_, fresh⟩
  refine ⟨rfl, isOp, ?_, ready.vacant, ?_, ?_, ?_, ?_, fun icp => absurd icp data, ready.first, ?_⟩
  · rw [state]
    decide
  · rw [state]
    have room := ready.room
    show (d.files d.fp).nsatt + 0 < (d.files d.fp).nsrsrv
    omega
  · rw [state]
    exact fun isContact => absurd isContact (by decide)
  · rw [state]
    decide
  · rw [state]
    refine ⟨?_, fun _ _ => rfl, fun icp => absurd icp data, fun icp => absurd icp data,
      fun icp => absurd icp data, fun icp => absurd icp data, fun icp => absurd icp data,
      fun _ _ => polarity, fun _ => isLink⟩
    intro rfnm
    change op.state.rfnm = true at rfnm
    rcases isOp with isOp | isOp | isOp <;> rw [isOp] at rfnm <;> cases rfnm
  · intro notGlsn isRcv j there
    have numbers := pair notGlsn isRcv j there
    exact ⟨numbers.1.symm, numbers.2⟩

theorem smSplx_moves (ok : d.board.Ok) (turn : g.turn d.ncp.host) (ready : Ready d sinx)
    (isOp : op = .glsn ∨ op = .slsn ∨ op = .init) (data : sinx ≠ .icp)
    (polarity : isSend lskt = true ↔ sinx = .xmit)
    (pair : op ≠ .glsn → sinx = .rcv → ∀ j, (d.files d.fp).sktX .xmit = some j →
      (d.sockets j).hlHost = BitVec.ofNat 8 d.ncp.host ∧ fskt = (d.sockets j).fskt + 1)
    (listens : Listens g (d.splx lskt fskt sinx op)) :
    Moves g d.board (d.smSplx lskt fskt sinx op).board := by
  obtain ⟨asks, fresh⟩ := splx_asks fskt ready isOp data polarity pair
  obtain ⟨board, -, link, request, -, high, -⟩ := splx_spec (d := d) lskt fskt sinx op
  have ncp : (d.splx lskt fskt sinx op).ncp = d.ncp := congrArg Board.ncp board
  have moves := getSkt_asks (g := g) (d := d.splx lskt fskt sinx op) (board.symm ▸ ok) asks fresh
    (g.high _ (by rw [request]; exact high)) listens (fun _ => by rw [ncp, request]; exact g.own _ turn)
  rw [board] at moves
  exact moves

theorem smSplx_asked (fskt : BitVec 32) (ready : Ready d sinx)
    (isOp : op = .glsn ∨ op = .slsn ∨ op = .init) (data : sinx ≠ .icp)
    (polarity : isSend lskt = true ↔ sinx = .xmit) (first : sinx = .xmit)
    (more : (d.files d.fp).nsatt + 1 ≠ (d.files d.fp).nsrsrv) :
    (d.smSplx lskt fskt sinx op).fp = d.fp ∧
    ((d.smSplx lskt fskt sinx op).board.entries d.fp = d.board.entries d.fp ∨
      ∃ i, (d.smSplx lskt fskt sinx op).board.entries d.fp =
          (d.board.entries d.fp).attach sinx i ∧
        (op ≠ .glsn → ((d.smSplx lskt fskt sinx op).sockets i).hlHost = BitVec.ofNat 8 d.ncp.host ∧
          ((d.smSplx lskt fskt sinx op).sockets i).fskt = fskt)) ∧
    (op ≠ .glsn → (d.smSplx lskt fskt sinx op).ncp.host = d.ncp.host) := by
  obtain ⟨asks, -⟩ := splx_asks fskt ready isOp data polarity
    (fun _ isRcv => by rw [first] at isRcv; cases isRcv)
  obtain ⟨board, isFp, link, request, -⟩ := splx_spec (d := d) lskt fskt sinx op
  have ncp : (d.splx lskt fskt sinx op).ncp = d.ncp := congrArg Board.ncp board
  have asked := getSkt_asked asks isFp (by rw [request]; exact data) (by rw [board]; exact more)
  rw [request] at asked
  refine ⟨asked.fp, ?_, ?_⟩
  · have entry := asked.entry
    rw [board] at entry
    exact entry
  · intro notGlsn
    have host := asked.host notGlsn
    rw [ncp] at host
    exact host

end Splx

section Dux

variable {lskt : BitVec 16} {fskt : BitVec 32} {op : SktOp}

/-- The permission for the two general listens of a duplex connection. -/
def DuxListens (g : Guards) (d : Daemon) (lskt : BitVec 16) (fskt : BitVec 32) (op : SktOp) : Prop :=
  Listens g (d.splx (lskt + 1) fskt .xmit op) ∧
    Listens g ((d.smSplx (lskt + 1) fskt .xmit op).splx lskt (fskt + 1) .rcv op)

/-- A file that waits for its two data sockets. -/
structure DuxReady (d : Daemon) : Prop where
  state : (d.files d.fp).state = .dopnw
  rcv : (d.files d.fp).sktX .rcv = none
  xmit : (d.files d.fp).sktX .xmit = none
  room : (d.files d.fp).nsatt + 2 ≤ (d.files d.fp).nsrsrv

theorem dux_odd (even : isSend lskt = false) : isSend (lskt + 1) = true ↔ SktIndex.xmit = .xmit := by
  rw [isSend_succ, even]
  exact ⟨fun _ => rfl, fun _ => rfl⟩

theorem DuxReady.xmitReady (ready : DuxReady d) : Ready d .xmit :=
  ⟨ready.state, ready.xmit, by have := ready.room; omega, fun _ => ready.rcv⟩

theorem DuxReady.second (ready : DuxReady d) (fskt : BitVec 32) (isOp : op = .glsn ∨ op = .slsn ∨ op = .init)
    (even : isSend lskt = false) :
    Ready (d.smSplx (lskt + 1) fskt .xmit op) .rcv ∧
      (op ≠ .glsn → ∀ j,
        ((d.smSplx (lskt + 1) fskt .xmit op).files (d.smSplx (lskt + 1) fskt .xmit op).fp).sktX .xmit =
          some j →
        ((d.smSplx (lskt + 1) fskt .xmit op).sockets j).hlHost =
            BitVec.ofNat 8 (d.smSplx (lskt + 1) fskt .xmit op).ncp.host ∧
          fskt + 1 = ((d.smSplx (lskt + 1) fskt .xmit op).sockets j).fskt + 1) := by
  have room := ready.room
  obtain ⟨fp, entry, host⟩ := smSplx_asked fskt ready.xmitReady isOp (by decide)
    (dux_odd even) rfl (by omega)
  have files : ((d.smSplx (lskt + 1) fskt .xmit op).files d.fp).entry =
      (d.smSplx (lskt + 1) fskt .xmit op).board.entries d.fp := rfl
  rcases entry with same | ⟨i, attached, numbers⟩
  · rw [same] at files
    refine ⟨⟨?_, ?_, ?_, fun isXmit => SktIndex.noConfusion isXmit⟩, fun _ j there => ?_⟩
    · rw [fp]
      exact (congrArg Entry.state files).trans ready.state
    · rw [fp]
      exact (congrArg (fun e => e.sktX .rcv) files).trans ready.rcv
    · rw [fp]
      have nsatt := congrArg Entry.nsatt files
      have nsrsrv := congrArg Entry.nsrsrv files
      change _ = (d.files d.fp).nsatt at nsatt
      change _ = (d.files d.fp).nsrsrv at nsrsrv
      change Entry.nsatt (File.entry _) < Entry.nsrsrv (File.entry _)
      omega
    · rw [fp] at there
      have none := (congrArg (fun e => e.sktX .xmit) files).trans ready.xmit
      exact absurd (none.symm.trans there).symm (Option.some_ne_none j)
  · rw [attached] at files
    refine ⟨⟨?_, ?_, ?_, fun isXmit => SktIndex.noConfusion isXmit⟩, fun notGlsn j there => ?_⟩
    · rw [fp]
      exact (congrArg Entry.state files).trans ready.state
    · rw [fp]
      exact (congrArg (fun e => e.sktX .rcv) files).trans
        ((Entry.attach_other _ (by decide) i).trans ready.rcv)
    · rw [fp]
      have nsatt := congrArg Entry.nsatt files
      have nsrsrv := congrArg Entry.nsrsrv files
      change _ = (d.files d.fp).nsatt + 1 at nsatt
      change _ = (d.files d.fp).nsrsrv at nsrsrv
      change Entry.nsatt (File.entry _) < Entry.nsrsrv (File.entry _)
      omega
    · rw [fp] at there
      have isI := (congrArg (fun e => e.sktX .xmit) files).trans (Entry.attach_self _ .xmit i)
      rw [← Option.some.inj (isI.symm.trans there), host notGlsn]
      exact ⟨(numbers notGlsn).1, congrArg (fun fskt => fskt + 1) (numbers notGlsn).2.symm⟩

theorem dux_even (even : isSend lskt = false) : isSend lskt = true ↔ SktIndex.rcv = .xmit := by
  rw [even]
  exact ⟨fun isTrue => absurd isTrue (by decide), fun isXmit => SktIndex.noConfusion isXmit⟩

theorem smDux_moves (lskt : BitVec 16) (fskt : BitVec 32) (ok : d.board.Ok)
    (turn : g.turn d.ncp.host) (ready : DuxReady d) (isOp : op = .glsn ∨ op = .slsn ∨ op = .init) (even : isSend lskt = false)
    (listens : DuxListens g d lskt fskt op) : Moves g d.board (d.smDux lskt fskt op).board := by
  have moves := smSplx_moves (g := g) ok turn ready.xmitReady isOp (by decide) (dux_odd even)
    (fun _ isRcv => SktIndex.noConfusion isRcv) listens.1
  have second := ready.second fskt isOp even
  exact moves.trans (smSplx_moves (moves.ok ok) (moves.turned turn) second.1 isOp (by decide)
    (dux_even even) (fun notGlsn _ => second.2 notGlsn) listens.2)

theorem smSplx_kept {lskt : BitVec 16} (fskt : BitVec 32) {sinx : SktIndex} {i : SktNo}
    (ready : Ready d sinx) (isOp : op = .slsn ∨ op = .init) (data : sinx ≠ .icp)
    (polarity : isSend lskt = true ↔ sinx = .xmit)
    (pair : sinx = .rcv → ∀ j, (d.files d.fp).sktX .xmit = some j →
      (d.sockets j).hlHost = BitVec.ofNat 8 d.ncp.host ∧ fskt = (d.sockets j).fskt + 1)
    (used : (d.sockets i).state ≠ .null) (notQ : (d.sockets i).state ≠ .q) :
    ((d.smSplx lskt fskt sinx op).sockets i).cell = (d.sockets i).cell ∧
      (d.smSplx lskt fskt sinx op).ncp.host = d.ncp.host := by
  obtain ⟨asks, -⟩ := splx_asks fskt ready (Or.inr isOp) data polarity fun _ => pair
  obtain ⟨board, -, link, request, -⟩ := splx_spec (d := d) lskt fskt sinx op
  have cell : ((d.splx lskt fskt sinx op).sockets i).cell = (d.sockets i).cell :=
    congrArg (fun b => b.cells i) board
  have state : ((d.splx lskt fskt sinx op).sockets i).state = (d.sockets i).state :=
    congrArg Cell.state cell
  have ncp : (d.splx lskt fskt sinx op).ncp = d.ncp := congrArg Board.ncp board
  have notGlsn : (d.splx lskt fskt sinx op).sktReq.state ≠ .glsn := by
    rw [request]
    show op ≠ .glsn
    rcases isOp with isOp | isOp <;> rw [isOp] <;> decide
  have kept := getSkt_kept asks notGlsn (i := i) (by rw [state]; exact used)
    (by rw [state]; exact notQ)
  rw [cell, ncp] at kept
  exact kept

theorem smDux_kept (lskt : BitVec 16) (fskt : BitVec 32) {i : SktNo} (ready : DuxReady d)
    (isOp : op = .slsn ∨ op = .init) (even : isSend lskt = false) (used : (d.sockets i).state ≠ .null)
    (notQ : (d.sockets i).state ≠ .q) :
    ((d.smDux lskt fskt op).sockets i).cell = (d.sockets i).cell ∧
      (d.smDux lskt fskt op).ncp.host = d.ncp.host := by
  have notGlsn : op ≠ .glsn := by
    rcases isOp with isOp | isOp <;> rw [isOp] <;> decide
  have first := smSplx_kept fskt ready.xmitReady isOp (by decide) (dux_odd even)
    (fun isRcv => SktIndex.noConfusion isRcv) used notQ
  have second := ready.second fskt (Or.inr isOp) even
  have state : ((d.smSplx (lskt + 1) fskt .xmit op).sockets i).state = (d.sockets i).state :=
    congrArg Cell.state first.1
  have last := smSplx_kept (fskt + 1) second.1 isOp (by decide) (dux_even even) (fun _ => second.2 notGlsn)
    (i := i) (by rw [state]; exact used) (by rw [state]; exact notQ)
  exact ⟨last.1.trans first.1, last.2.trans first.2⟩

theorem dux_listens (isOp : op ≠ .glsn) : DuxListens g d lskt fskt op := by
  have notListen : ∀ (d : Daemon) (lskt : BitVec 16) (fskt : BitVec 32) (sinx : SktIndex),
      Listens g (d.splx lskt fskt sinx op) := by
    intro d lskt fskt sinx i isGlsn
    obtain ⟨-, -, link, request, -⟩ := splx_spec (d := d) lskt fskt sinx op
    rw [request] at isGlsn
    exact absurd isGlsn isOp
  exact ⟨notListen _ _ _ _, notListen _ _ _ _⟩

end Dux

/-! ### What a file does with a socket number, an allocation and a reply -/

theorem contact_file {b : Board} (ok : b.Ok) {i : SktNo} (used : (b.cells i).state ≠ .null)
    (notQ : (b.cells i).state ≠ .q) : ∃ f, (b.cells i).filep = some f := by
  cases file : (b.cells i).filep with
  | none => exact absurd ((ok.queued i used).mpr file) notQ
  | some f => exact ⟨f, rfl⟩

theorem connect_moves {i : SktNo} {f : FileNo} {lskt : BitVec 16} {fskt : BitVec 32}
    (ok : d.board.Ok) (turn : g.turn d.ncp.host) (isFp : d.fp = f)
    (used : (d.sockets i).state ≠ .null) (notQ : (d.sockets i).state ≠ .q)
    (filep : (d.sockets i).filep = some f)
    (state : (d.files f).state = .uisnw ∨ (d.files f).state = .sirfw)
    (even : isSend lskt = false)
    (command : (d.sockets i).state.live = true → g.command d.ncp.host (d.sockets i).hlHost) :
    Moves g d.board
      (((d.setFile f fun f => { f with state := .dopnw }).smDux lskt fskt .init).killSkt i).board := by
  subst isFp
  have usedF := ok.owned i d.fp used filep
  have isContact : (d.board.entries d.fp).state.contact = true := by
    show (d.files d.fp).state.contact = true
    rcases state with isState | isState <;> rw [isState] <;> rfl
  have files := ok.files d.fp usedF.1
  have proceed : Move g d.board (d.setFile d.fp fun f => { f with state := .dopnw }).board := by
    refine proceed_moves rfl ?_ ?_ fun isOpen => FileState.noConfusion isOpen
    · rcases state with isState | isState <;> rw [isState]
      · exact .userNumber
      · exact .serverRfnm
    · intro j _ _ fits
      refine fits.toData .dopnw ?_ ?_ (Or.inl rfl) ?_ <;>
        rcases state with isState | isState <;> rw [isState] <;> decide
  have ready : DuxReady (d.setFile d.fp fun f => { f with state := .dopnw }) := by
    have self : (d.setFile d.fp fun f => { f with state := .dopnw }).files d.fp =
        { d.files d.fp with state := .dopnw } := setFile_self _ _
    have reserved := files.reserved
    have pending : (d.board.entries d.fp).state.pending = 2 := if_pos isContact
    have contact := files.contact isContact
    refine ⟨?_, ?_, ?_, ?_⟩
    · exact congrArg File.state self
    · exact (congrArg (fun f => File.sktX f .rcv) self).trans contact.1
    · exact (congrArg (fun f => File.sktX f .xmit) self).trans contact.2
    · show ((d.setFile d.fp _).files d.fp).nsatt + 2 ≤ ((d.setFile d.fp _).files d.fp).nsrsrv
      rw [self]
      rw [pending] at reserved
      exact reserved
  have dux := smDux_moves (g := g) (d := d.setFile d.fp fun f => { f with state := .dopnw })
    lskt fskt (proceed.ok ok) turn ready (Or.inr (Or.inr rfl)) even
    (dux_listens (by decide))
  have kept := smDux_kept (d := d.setFile d.fp fun f => { f with state := .dopnw }) lskt fskt
    (i := i) ready (Or.inr rfl) even used notQ
  have path : Moves g d.board _ := (Relation.ReflTransGen.single proceed).trans dux
  refine path.trans (killSkt_moves (path.ok ok) fun live => ?_)
  have stateI := congrArg Cell.state kept.1
  have hostI := congrArg Cell.hlHost kept.1
  change (((d.setFile d.fp _).smDux lskt fskt .init).sockets i).state = (d.sockets i).state at stateI
  change (((d.setFile d.fp _).smDux lskt fskt .init).sockets i).hlHost = (d.sockets i).hlHost at hostI
  rw [stateI] at live
  rw [kept.2, hostI]
  exact command live

theorem fiSktnm_moves {i : SktNo} (fskt : BitVec 32) (ok : d.board.Ok) (turn : g.turn d.ncp.host)
    (opened : (d.sockets i).state = .opened) (icp : (d.sockets i).sinx = .icp)
    (command : (d.sockets i).state.live = true → g.command d.ncp.host (d.sockets i).hlHost) :
    Moves g d.board (d.fiSktnm i fskt).board := by
  have used : (d.board.cells i).state ≠ .null ∧ (d.board.cells i).state ≠ .q := by
    show (d.sockets i).state ≠ .null ∧ (d.sockets i).state ≠ .q
    rw [opened]
    decide
  obtain ⟨f, filep⟩ := contact_file ok used.1 used.2
  change (d.sockets i).filep = some f at filep
  unfold fiSktnm
  rw [filep]
  simp only
  split
  next state =>
    split
    next => exact killSkt_moves (d := ({ d with fp := f } : Daemon)) ok command
    next =>
      refine connect_moves (d := ({ d with fp := f } : Daemon)) ok turn rfl used.1 used.2 filep
        (Or.inl state) ?_ command
      rw [isSend_add_two]
      exact (ok.fits i f used.1 filep).opened icp opened (Or.inr state)
  next => exact .refl

theorem fiRfnm_moves {i : SktNo} (ok : d.board.Ok) (turn : g.turn d.ncp.host)
    (used : (d.sockets i).state ≠ .null)
    (command : (d.sockets i).state.live = true → g.command d.ncp.host (d.sockets i).hlHost) :
    Moves g d.board (d.fiRfnm i).board := by
  unfold fiRfnm
  cases filep : (d.sockets i).filep with
  | none => exact .refl
  | some f =>
    simp only
    split
    next state =>
      have notQ : (d.sockets i).state ≠ .q := by
        intro queued
        have isNone := (ok.queued i used).mp queued
        exact absurd (filep.symm.trans isNone) (Option.some_ne_none f)
      refine connect_moves (d := ({ d with fp := f } : Daemon)) ok turn rfl used notQ filep
        (Or.inr state) ?_ command
      rw [setFile_self]
      refine (ok.files f (ok.owned i f used filep).1).even ?_
      change (d.files f).state = .sirfw at state
      show (d.files f).state.server = true
      rw [state]
      rfl
    next => exact .refl

theorem fiAll_moves {i : SktNo} (msgs bitsHi bitsLo : BitVec 16) (ok : d.board.Ok)
    (opened : (d.sockets i).state = .opened) (link : 128 ≤ (d.sockets i).hlLink.toNat)
    (command : (d.sockets i).state.live = true → g.command d.ncp.host (d.sockets i).hlHost) :
    Moves g d.board (d.fiAll i msgs bitsHi bitsLo).board := by
  have used : (d.board.cells i).state ≠ .null ∧ (d.board.cells i).state ≠ .q ∧
      (d.board.cells i).state ≠ .clow := by
    show (d.sockets i).state ≠ .null ∧ (d.sockets i).state ≠ .q ∧ (d.sockets i).state ≠ .clow
    rw [opened]
    decide
  obtain ⟨f, filep⟩ := contact_file ok used.1 used.2.1
  change (d.sockets i).filep = some f at filep
  have fits := ok.fits i f used.1 filep
  have send : isSend (d.sockets i).lskt = true := by
    by_contra receive
    have isLink := fits.link used.2.2 (Bool.eq_false_iff.mpr receive)
    have high : (d.sockets i).hlLink.toNat ≤ 71 := isLink.2
    omega
  unfold fiAll
  simp only
  rw [filep]
  simp only
  cases sinx : (d.sockets i).sinx with
  | icp =>
    simp only
    rw [if_neg (by rw [send]; decide)]
    split
    next => exact .refl
    next inWait =>
      have state : (d.files f).state = .sialw := not_not.mp inWait
      split
      next => exact killSkt_moves (d := ({ d with fp := f } : Daemon)) ok command
      next =>
        have proceed : Move g d.board
            ((({ d with fp := f } : Daemon).fiSsn i).setFile f fun f => { f with state := .sirfw }).board := by
          refine proceed_moves (d := ({ d with fp := f } : Daemon).fiSsn i) rfl ?_ ?_
            fun isOpen => FileState.noConfusion isOpen
          · show Proceeds (d.files f).state .sirfw
            rw [state]
            exact .serverAll
          · intro j _ _ fits
            change Fits _ (d.files f).state at fits
            refine fits.toData .sirfw ?_ ?_ (Or.inr rfl) ?_ <;> rw [state] <;> decide
        refine (Relation.ReflTransGen.single proceed).tail ?_
        rw [board_toState]
        exact .wait i opened sinx
  | xmit => exact .refl
  | rcv =>
    have isXmit := (fits.polarity (by show (d.sockets i).sinx ≠ .icp; rw [sinx]; decide) used.2.2).mp send
    change (d.sockets i).sinx = .xmit at isXmit
    rw [sinx] at isXmit
    cases isXmit

end Daemon

end NetworkUnix.Ncpd
