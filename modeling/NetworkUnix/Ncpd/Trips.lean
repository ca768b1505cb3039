/-
This file shows that a trip of the main loop is a path of moves, when every command
and every host is permitted: the closes, the timeouts and the resets, the messages
of the interface message processor with the commands in them, and the loop itself.
-/

import NetworkUnix.Ncpd.Opens

namespace NetworkUnix.Ncpd

namespace Daemon

variable {g : Guards} {d : Daemon}

/-! ### The current host -/

theorem ofNat_low (h : Nat) (l : BitVec 8) : BitVec.ofNat 8 (h / 256 * 256 + l.toNat) = l := by
  apply BitVec.eq_of_toNat_eq
  rw [BitVec.toNat_ofNat]
  have bound := l.isLt
  omega

theorem setHostLow_low (hl : BitVec 8) : BitVec.ofNat 8 (d.setHostLow hl).ncp.host = hl :=
  ofNat_low d.ncp.host hl

theorem Guards.byteOwn (g : Guards) (hl : BitVec 8) : g.command hl.toNat hl := by
  have own := g.own _ (g.byte hl)
  rw [BitVec.ofNat_toNat, BitVec.setWidth_eq] at own
  exact own

theorem mates_lax {b : Board} (lax : g.Lax) (i : SktNo) : Mates g b i :=
  fun _ _ _ _ _ _ _ => lax.1 _ _

/-! ### Closes and timeouts -/

theorem krClose_moves {id : BitVec 16} {sinx : SktIndex} (ok : d.board.Ok) (turn : g.turn d.ncp.host)
    (mates : ∀ f i, d.fById id = some f → (d.files f).sktX sinx = some i →
      Mates g (d.setHostLow (d.sockets i).hlHost).board i) :
    Moves g d.board (d.krClose id sinx).board := by
  unfold krClose
  cases found : d.fById id with
  | none => exact .refl
  | some f =>
    simp only
    cases there : (d.files f).sktX sinx with
    | none => exact .refl
    | some i =>
      have turned : Move g d.board (d.setHostLow (d.sockets i).hlHost).board :=
        setHostLow_move turn _
      have own := g.own _ (g.low d.ncp (d.sockets i).hlHost turn)
      have low : BitVec.ofNat 8 (d.ncp.setLow (d.sockets i).hlHost.toNat).host =
          (d.sockets i).hlHost := ofNat_low _ _
      rw [low] at own
      exact (Relation.ReflTransGen.single turned).trans
        (closeSkt_moves (d := d.setHostLow (d.sockets i).hlHost) (turned.ok ok) own
          (mates f i found there))

theorem killDue_moves {f : FileNo} {x : SktIndex} (ok : d.board.Ok) :
    Moves g d.board (killDue f d x).board := by
  unfold killDue
  split
  next i there =>
    have turned : Move g d.board (d.setHost (d.sockets i).hlHost.toNat).board := .turn _ (g.byte _)
    exact (Relation.ReflTransGen.single turned).trans
      (killSkt_moves (d := d.setHost (d.sockets i).hlHost.toNat) (turned.ok ok)
        fun _ => Guards.byteOwn g _)
  next => exact .refl

theorem fold_moves {α : Type} {visit : Daemon → α → Daemon} (l : List α)
    (visits : ∀ d : Daemon, d.board.Ok → ∀ a ∈ l, Moves g d.board (visit d a).board)
    (ok : d.board.Ok) : Moves g d.board (l.foldl visit d).board := by
  have kept := Table.foldl_keeps (fun e : Daemon => Moves g d.board e.board) visit l
    (fun e a member path => path.trans (visits e (path.ok ok) a member)) (s := d) .refl
  exact kept

theorem timoFile_moves (f : FileNo) (ok : d.board.Ok) : Moves g d.board (d.timoFile f).board := by
  unfold timoFile
  split
  next =>
    split
    next =>
      have killed : Moves g d.board ([SktIndex.rcv, .xmit, .icp].foldl (killDue f) d).board :=
        fold_moves _ (fun e okE _ _ => killDue_moves okE) ok
      have same := board_setFile_same (d := [SktIndex.rcv, .xmit, .icp].foldl (killDue f) d) f
        (fun f => { f with timeo := 0 }) rfl
      show Moves g d.board (([SktIndex.rcv, .xmit, .icp].foldl (killDue f) d).setFile f fun f =>
        { f with timeo := 0 }).board
      rw [same]
      exact killed
    next => exact .refl
  next => exact .refl

theorem timoSocket_moves (i : SktNo) (ok : d.board.Ok) (mates : Mates g d.board i) :
    Moves g d.board (d.timoSocket i).board := by
  unfold timoSocket
  simp only
  split
  next =>
    split
    next =>
      have same := board_setSkt_same (d := d.timoSkt i) i (fun s => { s with timeo := 0 }) rfl
      rw [same]
      exact timoSkt_moves ok mates
    next => exact .refl
  next => exact .refl

theorem krTimo_moves (ok : d.board.Ok) (lax : g.Lax) : Moves g d.board d.krTimo.board := by
  have files : ∀ e : Daemon, e.board.Ok →
      Moves g e.board ((List.finRange nfiles).foldl timoFile e).board := fun e okE =>
    fold_moves _ (fun e okE f _ => timoFile_moves f okE) okE
  have sockets : ∀ e : Daemon, e.board.Ok →
      Moves g e.board ((List.finRange nsockets).foldl timoSocket e).board := fun e okE =>
    fold_moves _ (fun e okE i _ => timoSocket_moves i okE (mates_lax lax i)) okE
  unfold krTimo
  simp only
  generalize isE : ({ d with timeo := 0, ftimeo := 0, stimeo := 0 } : Daemon) = e
  have board : e.board = d.board := by
    rw [← isE]
    rfl
  rw [← board] at ok ⊢
  have first : Moves g e.board
      (if d.ftimeo ≠ 0 then (List.finRange nfiles).foldl timoFile e else e).board := by
    split
    next => exact files e ok
    next => exact .refl
  generalize (if d.ftimeo ≠ 0 then (List.finRange nfiles).foldl timoFile e else e) = later at first ⊢
  split
  next => exact first.trans (sockets later (Moves.ok first ok))
  next => exact first

/-! ### Hosts that are dead or come up -/

theorem onHost_move (change : Ncp → Ncp) (same : (change d.ncp).host = d.ncp.host) :
    Move g d.board (d.onHost change).board := .queue (change d.ncp) same

theorem sendPro_move : Move g d.board d.sendPro.board := onHost_move _ rfl

theorem hDead_keeps (holds : Daemon → Prop) (initially : holds d)
    (kept : ∀ e i, holds e → holds (e.deadSkt i)) :
    ∃ e, holds e ∧ d.hDead =
      ((e.prFlush.setUp false).kwReset d.ncp.host).hsUpdate d.ncp.host hostDead := by
  refine ⟨_, Table.foldl_keeps holds _ _ (fun e i _ held => ?_) initially, rfl⟩
  split
  next => exact kept e i held
  next => exact held

theorem hDead_moves (ok : d.board.Ok) (lax : g.Lax) : Moves g d.board d.hDead.board := by
  obtain ⟨e, dead, same⟩ := hDead_keeps (fun e => Moves g d.board e.board) .refl
    fun e i moves => moves.trans (deadSkt_moves (moves.ok ok) (mates_lax lax i))
  rw [same]
  have flushed : Move g e.board e.prFlush.board := onHost_move _ rfl
  have down : Move g e.prFlush.board (e.prFlush.setUp false).board := onHost_move _ rfl
  exact (dead.tail flushed).tail down

theorem initHost_move (n : Nat) :
    Move g d.board ({ d with ncp := { d.ncp with initHost := n } } : Daemon).board :=
  .queue { d.ncp with initHost := n } rfl

theorem turn_small {n : Nat} (small : n < 256) : g.turn n := by
  have byte := g.byte (BitVec.ofNat 8 n)
  rw [BitVec.toNat_ofNat, Nat.mod_eq_of_lt small] at byte
  exact byte

theorem chkHost_initHost : d.chkHost.1.ncp.initHost = d.ncp.initHost := by
  show (Ncpd.chkHost xRetries d.ncp).1.initHost = d.ncp.initHost
  unfold Ncpd.chkHost
  simp only
  split
  · rfl
  · rfl

/-- What is queued for the current host is sent. -/
def flushed (d : Daemon) : Daemon := if d.ncp.pro2send then d.sendPro else d

theorem flushed_moves : Moves g d.board d.flushed.board := by
  unfold flushed
  split
  next => exact .single sendPro_move
  next => exact .refl

theorem flushed_initHost : d.flushed.ncp.initHost = d.ncp.initHost := by
  unfold flushed
  split
  next => rfl
  next => rfl

theorem turnTo_moves {n : Nat} (small : n < 256) :
    Moves g d.board ((d.flushed.setHost n).chkHost.1).board := by
  have turned : Move g d.flushed.board (d.flushed.setHost n).board := .turn _ (turn_small small)
  exact (flushed_moves.tail turned).tail chkHost_move

/-- The next host of the loop. -/
def stepped (d : Daemon) : Daemon := { d with ncp := { d.ncp with initHost := d.ncp.initHost + 1 } }

/-- The next host is asked to come up. -/
def asked (d : Daemon) : Daemon × Bool := (d.flushed.setHost d.flushed.ncp.initHost).chkHost

theorem rstLoop_succ (tries : Nat) :
    Daemon.rstLoop (tries + 1) d =
      if d.stepped.ncp.known d.stepped.ncp.initHost then
        if d.stepped.asked.2 then Daemon.rstLoop tries d.stepped.asked.1 else d.stepped.asked.1
      else Daemon.rstLoop tries d.stepped := by
  conv => lhs; unfold Daemon.rstLoop
  rfl

theorem rstLoop_moves (tries : Nat) (small : tries + d.ncp.initHost ≤ 255) :
    Moves g d.board (rstLoop tries d).board := by
  induction tries generalizing d with
  | zero => exact .single (initHost_move _)
  | succ tries inductionHypothesis =>
    have next : Move g d.board d.stepped.board := initHost_move _
    have fits : tries + d.stepped.ncp.initHost ≤ 255 := by
      show tries + (d.ncp.initHost + 1) ≤ 255
      omega
    refine (Relation.ReflTransGen.single next).trans ?_
    rw [rstLoop_succ]
    split
    next =>
      have turned : Moves g d.stepped.board d.stepped.asked.1.board :=
        turnTo_moves (by rw [flushed_initHost]; omega)
      split
      next =>
        refine turned.trans (inductionHypothesis ?_)
        show tries + d.stepped.asked.1.ncp.initHost ≤ 255
        unfold asked
        rw [chkHost_initHost]
        show tries + d.stepped.flushed.ncp.initHost ≤ 255
        rw [flushed_initHost]
        exact fits
      next => exact turned
    next => exact inductionHypothesis fits

theorem rstLoop_bounded (n : Nat) (isN : n = 255 - d.ncp.initHost) :
    Moves g d.board (rstLoop n d).board := by
  cases n with
  | zero => exact .single (initHost_move _)
  | succ n => exact rstLoop_moves (n + 1) (by omega)

/-- The map of the known hosts is read before the first one. -/
def mapped (d : Daemon) (hnames : Nat → Bool) : Daemon :=
  if d.ncp.initHost = 0 then { d with ncp := { d.ncp with known := hnames } } else d

theorem rstAll_eq (hnames : Nat → Bool) :
    Daemon.rstAll hnames d =
      Daemon.rstLoop (255 - (d.mapped hnames).ncp.initHost) (d.mapped hnames) := by
  unfold Daemon.rstAll mapped
  rfl

theorem rstAll_moves (hnames : Nat → Bool) : Moves g d.board (rstAll hnames d).board := by
  have known : Moves g d.board (d.mapped hnames).board := by
    unfold mapped
    split
    next => exact .single (.queue { d.ncp with known := hnames } rfl)
    next => exact .refl
  rw [rstAll_eq]
  exact known.trans (rstLoop_bounded _ rfl)

/-- The hosts are cleaned up one after another. -/
def allDead (d : Daemon) : Daemon :=
  (List.range' 1 255).foldl (fun d h => (d.setHost h).hDead) (d.hsUpdate 0 hostAlive)

/-- No reply is awaited from any host. -/
def cleared (d : Daemon) : Daemon :=
  { d with ncp := { d.ncp with
    host := 256, initHost := 0, hosts := fun h => { d.ncp.hosts h with rfnm := false } } }

theorem irReset_eq (hnames : Nat → Bool) :
    Daemon.irReset hnames d = Daemon.rstAll hnames d.allDead.cleared := by
  unfold Daemon.irReset allDead cleared
  rfl

theorem allDead_moves (ok : d.board.Ok) (lax : g.Lax) : Moves g d.board d.allDead.board := by
  have told : (d.hsUpdate 0 hostAlive).board = d.board := rfl
  have visits : ∀ e : Daemon, e.board.Ok → ∀ h ∈ List.range' 1 255,
      Moves g e.board (e.setHost h).hDead.board := by
    intro e okE h _
    have turned : Move g e.board (e.setHost h).board := .turn _ (lax.2 h)
    exact (Relation.ReflTransGen.single turned).trans (hDead_moves (turned.ok okE) lax)
  rw [← told] at ok ⊢
  exact fold_moves _ visits ok

theorem cleared_move (lax : g.Lax) : Move g d.board d.cleared.board :=
  .turn d.cleared.ncp (lax.2 256)

theorem irReset_moves (hnames : Nat → Bool) (ok : d.board.Ok) (lax : g.Lax) :
    Moves g d.board (irReset hnames d).board := by
  have dead := allDead_moves ok lax
  rw [irReset_eq]
  exact (dead.tail (cleared_move lax)).trans (rstAll_moves hnames)

/-! ### Messages on a connection -/

theorem hlFind_some {i : SktNo} {link : BitVec 8} (found : d.hlFind (d.hostLink link) = some i) :
    (d.sockets i).state ≠ .null ∧ (d.sockets i).hlHost = BitVec.ofNat 8 d.ncp.host ∧
      link.toNat ≤ (d.sockets i).hlLink.toNat := by
  have here := of_decide_eq_true (List.find?_some (p := fun i => decide ((d.sockets i).state ≠ .null ∧
    (d.sockets i).hlHost.toNat + 256 * (d.sockets i).hlLink.toNat = d.hostLink link)) found)
  have word := here.2
  unfold hostLink at word
  have boundH := (d.sockets i).hlHost.isLt
  have boundL := link.isLt
  have split : (d.ncp.host ||| link.toNat * 256) % 2 ^ 16 =
      d.ncp.host % 2 ^ 16 ||| link.toNat * 256 % 2 ^ 16 := Nat.or_mod_two_pow
  have low : (d.ncp.host ||| link.toNat * 256) % 2 ^ 8 =
      d.ncp.host % 2 ^ 8 ||| link.toNat * 256 % 2 ^ 8 := Nat.or_mod_two_pow
  have noLow : link.toNat * 256 % 2 ^ 8 = 0 := by omega
  have high : link.toNat * 256 % 2 ^ 16 = link.toNat * 256 := by omega
  have least : link.toNat * 256 ≤ d.ncp.host % 2 ^ 16 ||| link.toNat * 256 := Nat.right_le_or
  rw [noLow, Nat.or_zero] at low
  rw [high] at split
  refine ⟨here.1, ?_, by omega⟩
  apply BitVec.eq_of_toNat_eq
  rw [BitVec.toNat_ofNat]
  omega

theorem found_command {i : SktNo} {link : BitVec 8} (found : d.hlFind (d.hostLink link) = some i)
    (turn : g.turn d.ncp.host) : g.command d.ncp.host (d.sockets i).hlHost := by
  rw [(hlFind_some found).2.1]
  exact g.own _ turn

theorem high_link (link : BitVec 8) : 128 ≤ (link ||| 0x80).toNat := by
  rw [BitVec.toNat_or]
  exact Nat.right_le_or

theorem qupPro_move (cmd : Cmd) : Move g d.board (d.qupPro cmd).board := onHost_move _ rfl

section Message

variable (p : List (BitVec 8))

theorem hrAll_moves (ok : d.board.Ok) (turn : g.turn d.ncp.host) :
    Moves g d.board (d.hrAll p).board := by
  unfold hrAll
  split
  next i found =>
    split
    next opened =>
      have link := (hlFind_some found).2.2
      have high := high_link (byte p 1)
      exact fiAll_moves _ _ _ ok opened (by omega) fun _ => found_command found turn
    next => exact .refl
    next => exact .refl
    next => exact .refl
    next => exact .single (qupPro_move _)
  next => exact .single (qupPro_move _)

theorem hrData_moves (m : KrRcv) (ok : d.board.Ok) (turn : g.turn d.ncp.host) :
    Moves g d.board (hrData m d).board := by
  unfold hrData
  split
  next i found =>
    split
    next opened =>
      split
      next icp =>
        split
        next => exact fiSktnm_moves _ ok turn opened icp fun _ => found_command found turn
        next => exact killSkt_moves ok fun _ => found_command found turn
      next => exact .refl
    next => exact .refl
    next => exact .refl
    next => exact .single (qupPro_move _)
  next => exact .refl

theorem cmdLskt_send : isSend (cmdLskt p) = (byte p 8).getLsbD 0 := by
  unfold isSend cmdLskt word
  rw [BitVec.getLsbD_append]
  rfl

theorem cmdFskt_send : (cmdFskt p).getLsbD 0 = (byte p 4).getLsbD 0 := by
  unfold cmdFskt long word
  rw [BitVec.getLsbD_append]
  simp only [show (0 : Nat) < 16 by decide]
  rw [BitVec.getLsbD_append]
  rfl

theorem rfcRequest_spec : (d.rfcRequest p).state = .rfc ∧ (d.rfcRequest p).filep = none ∧
    (d.rfcRequest p).lskt = cmdLskt p ∧ (d.rfcRequest p).fskt = cmdFskt p ∧
    (d.rfcRequest p).hlHost = BitVec.ofNat 8 d.ncp.host := by
  unfold rfcRequest
  simp only
  split
  next => exact ⟨rfl, rfl, rfl, rfl, rfl⟩
  next => exact ⟨rfl, rfl, rfl, rfl, rfl⟩

theorem rfc_offers (code : byte p 0 = 1 ∨ byte p 0 = 2) (valid : rfcValid p = true)
    (host : BitVec.ofNat 8 d.ncp.host ≠ 0) : Offers (d.rfcRequest p) := by
  obtain ⟨op, filep, lskt, fskt, hlHost⟩ := rfcRequest_spec (d := d) p
  unfold rfcValid at valid
  rw [Bool.and_eq_true, Bool.and_eq_true] at valid
  have parity := valid.1.1
  have kind := valid.1.2
  unfold polarity at parity
  rw [BitVec.getLsbD_xor] at parity kind
  refine ⟨op, filep, ?_, ?_, ?_, ?_⟩
  · show (d.rfcRequest p).hlHost ≠ 0
    rw [hlHost]
    exact host
  · show isSend (d.rfcRequest p).lskt ≠ (d.rfcRequest p).fskt.getLsbD 0
    rw [lskt, fskt, cmdLskt_send, cmdFskt_send]
    intro same
    rw [same, Bool.xor_self] at parity
    exact absurd parity (by decide)
  · intro send
    change isSend (d.rfcRequest p).lskt = true at send
    show 128 ≤ (d.rfcRequest p).hlLink.toNat
    rw [lskt, cmdLskt_send] at send
    rw [send] at parity
    have isRts : byte p 0 ≠ 2 := by
      intro isStr
      rw [isStr] at kind
      revert parity kind
      cases (byte p 4).getLsbD 0 <;> decide
    unfold rfcRequest
    simp only
    rw [if_neg isRts]
    exact high_link _
  · intro receive
    change isSend (d.rfcRequest p).lskt = false at receive
    show (d.rfcRequest p).hlLink = 0
    rw [lskt, cmdLskt_send] at receive
    rw [receive] at parity
    by_cases isStr : byte p 0 = 2
    · unfold rfcRequest
      simp only
      rw [if_pos isStr]
    · rw [code.resolve_right isStr] at kind
      exfalso
      revert parity kind
      cases (byte p 4).getLsbD 0 <;> decide

/-- The daemon when the request of a foreign host has been made. -/
def offering (d : Daemon) : Daemon := { d.hsAlive with sktReq := d.hsAlive.rfcRequest p }

theorem setUp_move (up : Bool) : Move g d.board (d.setUp up).board := onHost_move _ rfl

theorem hsAlive_move : Move g d.board d.hsAlive.board := setUp_move true

theorem hrRfc_moves (ok : d.board.Ok) (turn : g.turn d.ncp.host)
    (code : byte p 0 = 1 ∨ byte p 0 = 2) (host : BitVec.ofNat 8 d.ncp.host ≠ 0)
    (receives : rfcValid p = true → rfcTaken p = true → Receives g (d.offering p)) :
    Moves g d.board (d.hrRfc p).board := by
  unfold hrRfc
  split
  next => exact .single (qupPro_move _)
  next valid =>
    have isValid : rfcValid p = true := Bool.not_eq_false _ ▸ valid
    split
    next => exact .single (qupPro_move _)
    next taken =>
      have isTaken : rfcTaken p = true := Bool.not_eq_false _ ▸ taken
      have alive : Move g d.board (d.offering p).board := hsAlive_move
      have offers : Offers (d.offering p).sktReq := rfc_offers (d := d.hsAlive) p code isValid host
      have hlHost : (d.offering p).sktReq.hlHost = BitVec.ofNat 8 (d.offering p).ncp.host :=
        (rfcRequest_spec (d := d.hsAlive) p).2.2.2.2
      refine (Relation.ReflTransGen.single alive).trans
        (getSkt_offers (d := d.offering p) (alive.ok ok) offers (receives isValid isTaken) ?_)
      rw [hlHost]
      exact g.own _ turn

/-- The daemon when the close of a foreign host has been read. -/
def closing (d : Daemon) : Daemon := { d with sktReq := d.clsRequest p }

theorem hrCls_moves (ok : d.board.Ok) (turn : g.turn d.ncp.host)
    (mates : ∀ i, Meets (d.closing p) i → Mates g d.board i) :
    Moves g d.board (d.hrCls p).board := by
  unfold hrCls
  split
  next => exact .single (qupPro_move _)
  next =>
    split
    next => exact .refl
    next => exact getSkt_cls (d := d.closing p) ok rfl (g.own _ turn) mates

theorem hrEco_moves : Moves g d.board (d.hrEco p).board := by
  have answered : Move g d.board (d.qupPro ⟨[10, byte p 1], List.cons_ne_nil _ _, by simp⟩).board :=
    qupPro_move _
  exact (Relation.ReflTransGen.single answered).tail hsAlive_move

theorem hrRst_moves (ok : d.board.Ok) (lax : g.Lax) : Moves g d.board d.hrRst.board :=
  ((hDead_moves ok lax).tail hsAlive_move).tail (qupPro_move _)

end Message

/-! ### The host of a message -/

/-- The low byte of the current host. -/
def low (d : Daemon) : BitVec 8 := BitVec.ofNat 8 d.ncp.host

theorem low_of_host {e : Daemon} (host : e.ncp.host = d.ncp.host) : e.low = d.low :=
  congrArg (BitVec.ofNat 8) host

theorem rlsSktn_host (sbase : BitVec 16) : (d.rlsSktn sbase).ncp.host = d.ncp.host := by
  unfold rlsSktn
  split
  next => rfl
  next => rfl

theorem fRlse_host : d.fRlse.ncp.host = d.ncp.host := by
  unfold fRlse
  simp only
  split
  next =>
    split
    next => rfl
    next => exact rlsSktn_host _
  next => rfl

theorem goneChk_host (f : FileNo) : (goneChk f d).ncp.host = d.ncp.host := by
  unfold goneChk
  split
  next => exact fRlse_host
  next => rfl

theorem killWith_host (free : SktNo → Daemon → Daemon) (i : SktNo)
    (frees : ∀ i d, (free i d).ncp.host = d.ncp.host) :
    (killWith free i d).ncp.host = d.ncp.host := by
  unfold killWith
  split <;> first | rfl | exact frees _ _

theorem fiSgone_host (kill : SktNo → Daemon → Daemon) (i : SktNo) (f : FileNo)
    (kills : ∀ i d, (kill i d).ncp.host = d.ncp.host) :
    (fiSgone kill i f d).ncp.host = d.ncp.host := by
  unfold fiSgone
  simp only
  split
  next =>
    split
    all_goals first | rfl | exact fRlse_host | exact goneChk_host f
  next =>
    split
    all_goals try first | rfl | exact goneChk_host f
    all_goals
      rw [goneChk_host]
      show (match _ with | some j => kill j _ | none => _ : Daemon).ncp.host = _
      split
      · rw [kills]
        split <;> rfl
      · split <;> rfl

theorem freeSktAt_host (depth : Nat) (i : SktNo) : (freeSktAt depth i d).ncp.host = d.ncp.host := by
  induction depth generalizing i d with
  | zero => rfl
  | succ depth inductionHypothesis =>
    have given (e : Daemon) (same : e.ncp.host = d.ncp.host) :
        (({ e with nsLeft := e.nsLeft + 1 } : Daemon).toState i .null).ncp.host = d.ncp.host :=
      same
    refine given _ ?_
    split
    next =>
      exact fiSgone_host _ _ _ fun j e => killWith_host _ j fun k e => inductionHypothesis k
    next => rfl

theorem killSkt_host (i : SktNo) : (d.killSkt i).ncp.host = d.ncp.host :=
  killWith_host _ i fun j _ => freeSktAt_host 2 j

theorem deadSkt_host (i : SktNo) : (d.deadSkt i).ncp.host = d.ncp.host := by
  unfold deadSkt
  simp only
  split <;> first | rfl | exact freeSktAt_host 2 i

theorem hDead_host : d.hDead.ncp.host = d.ncp.host := by
  obtain ⟨e, dead, same⟩ := hDead_keeps (fun e => e.ncp.host = d.ncp.host) rfl
    fun e i same => (deadSkt_host i).trans same
  rw [same]
  exact dead

theorem fiAll_host (i : SktNo) (msgs bitsHi bitsLo : BitVec 16) :
    (d.fiAll i msgs bitsHi bitsLo).ncp.host = d.ncp.host := by
  unfold fiAll
  simp only
  split
  next => rfl
  next f _ =>
    split
    next =>
      split
      next => rfl
      next =>
        split
        next => rfl
        next =>
          split
          next => exact killSkt_host (d := { d with fp := f }) i
          next => rfl
    next => rfl
    next => rfl

theorem soUrfc_host : d.soUrfc.1.ncp.host = d.ncp.host := by
  unfold soUrfc
  split
  next =>
    simp only
    split
    next => rfl
    next => rfl
  next => rfl

theorem rfcUtil_host (i : SktNo) : (d.rfcUtil i).1.ncp.host = d.ncp.host := by
  unfold rfcUtil
  split
  next => rfl
  next => rfl

theorem rfcRfcw_host (i : SktNo) : (d.rfcRfcw i).1.ncp.host = d.ncp.host := by
  unfold rfcRfcw
  simp only
  split
  next => exact (fiSopn_frame i).2.trans (rfcUtil_host i)
  next => exact rfcUtil_host i

theorem rfcSlsn_host (i : SktNo) : (d.rfcSlsn i).1.ncp.host = d.ncp.host := by
  unfold rfcSlsn
  simp only
  split
  next => exact (fiSopn_frame i).2.trans (rfcUtil_host i)
  next => exact rfcUtil_host i

theorem rfcGlsn_low (i : SktNo) (host : d.sktReq.hlHost = d.low) : (d.rfcGlsn i).1.low = d.low := by
  unfold rfcGlsn
  simp only
  split
  next =>
    refine (low_of_host (rfcSlsn_host (d := d.wildly i) i)).trans ?_
    show BitVec.ofNat 8 d.sktReq.hlHost.toNat = d.low
    rw [BitVec.ofNat_toNat, BitVec.setWidth_eq]
    exact host
  next => rfl

theorem onMatch_host (i : SktNo) (act : Daemon → Daemon)
    (acts : (act (d.mark i .matched)).ncp.host = d.ncp.host) :
    (d.onMatch i act).1.ncp.host = d.ncp.host := by
  unfold onMatch
  split
  next => exact acts
  next => rfl

theorem getSkt_low (op : d.sktReq.state = .rfc ∨ d.sktReq.state = .cls)
    (host : d.sktReq.hlHost = d.low) : d.getSkt.low = d.low := by
  rcases getSkt_cases (d := d) with ⟨-, unmet⟩ | ⟨i, -, -, met⟩
  · rw [unmet]
    refine low_of_host ?_
    unfold soUnm
    rcases op with op | op <;> rw [op]
    exact soUrfc_host
  · rw [met]
    unfold sktOper
    rcases op with op | op <;> rw [op] <;> cases (d.sockets i).state <;> simp only
    · exact rfcGlsn_low i host
    · exact low_of_host (rfcSlsn_host i)
    · exact low_of_host (rfcRfcw_host i)
    · exact low_of_host (onMatch_host i _ rfl)
    · exact low_of_host (onMatch_host i _ (freeSktAt_host 2 i))
    · exact low_of_host (onMatch_host i _ rfl)
    · exact low_of_host (onMatch_host i _ (freeSktAt_host 2 i))
    · exact low_of_host (onMatch_host i _ rfl)
    · exact low_of_host (onMatch_host i _ rfl)

theorem hrRst_host : d.hrRst.ncp.host = d.ncp.host := by
  have dead := hDead_host (d := d)
  unfold hrRst
  generalize d.hDead = e at dead ⊢
  exact dead

theorem hrRfc_low (p : List (BitVec 8)) : (d.hrRfc p).low = d.low := by
  have request := rfcRequest_spec (d := d.hsAlive) p
  unfold hrRfc
  split
  next => rfl
  next =>
    split
    next => rfl
    next => exact getSkt_low (d := d.offering p) (Or.inl request.1) request.2.2.2.2

theorem hrCls_low (p : List (BitVec 8)) : (d.hrCls p).low = d.low := by
  unfold hrCls
  split
  next => rfl
  next =>
    split
    next => rfl
    next => exact getSkt_low (d := d.closing p) (Or.inr rfl) rfl

theorem hrAll_host (p : List (BitVec 8)) : (d.hrAll p).ncp.host = d.ncp.host := by
  unfold hrAll
  split
  next =>
    split
    all_goals first | rfl | exact fiAll_host _ _ _ _
  next => rfl

theorem hrProc_low (p : List (BitVec 8)) : (d.hrProc p).low = d.low := by
  unfold hrProc
  split
  · exact hrRfc_low p
  · exact hrRfc_low p
  · exact hrCls_low p
  · exact low_of_host (hrAll_host p)
  · rfl
  · rfl
  · exact low_of_host hrRst_host
  · rfl

/-! ### Trips -/

/-- The states in which the requests of a message's commands reach the socket machine. -/
def rfcsFrom : Nat → List (BitVec 8) → Daemon → List Daemon
  | 0, _, _ => []
  | bound + 1, p, d =>
    if p = [] then []
    else
      let op := (byte p 0).toNat
      if op > 13 ∨ p.length < hhIlgth op then []
      else
        (if (op = 1 ∨ op = 2) ∧ rfcValid p = true ∧ rfcTaken p = true then [d.offering p] else []) ++
          rfcsFrom bound (p.drop (hhIlgth op)) (d.hrProc p)

/-- The states in which the general listens of a direct open reach the socket machine. -/
def listensOf (d : Daemon) (o : KrOpen) : List Daemon :=
  match d.drctOpens o with
  | none => []
  | some (made, lskt, fskt) =>
    let ready := made.drctReady o lskt
    if o.dux then
      [ready.splx ((lskt &&& ~~~1) + 1) (fskt &&& ~~~1) .xmit o.op,
        (ready.smSplx ((lskt &&& ~~~1) + 1) (fskt &&& ~~~1) .xmit o.op).splx (lskt &&& ~~~1)
          ((fskt &&& ~~~1) + 1) .rcv o.op]
    else [ready.splx lskt fskt (if isSend lskt then .xmit else .rcv) o.op]

/-- The states in which an instruction's requests of foreign hosts and its listens for data sockets
reach the socket machine. -/
def requests (d : Daemon) : Instr → List Daemon
  | .userOpen o => if o.drct then (d.unnamed o).listensOf o else []
  | .rcv m _ =>
    if (m.type &&& 15).toNat = 0 ∧ m.link = 0 ∧ m.host ≠ 0 then
      rfcsFrom m.data.length m.data (d.setHostLow m.host)
    else []
  | _ => []

/-- What is asked of an instruction: its requests are permitted, and so are a block that is lost,
one that is shared, and a contact connection without one. -/
structure Permits (g : Guards) (d : Daemon) (instr : Instr) : Prop where
  receives : ∀ q ∈ d.requests instr, q.sktReq.state = .rfc → Receives g q
  listens : ∀ q ∈ d.requests instr, Listens g q
  leaks : ∀ o, instr = .userOpen o → o.drct = true → DrctLeaks g (d.unnamed o) o
  shares : ∀ o, instr = .userOpen o → o.drct = true → o.rltv = true →
    ∀ f, (d.files f).state = .null → g.share f
  blocks : ∀ o, instr = .userOpen o → o.drct = false → Blocks g d.board
  full : ∀ o, instr = .userOpen o → o.drct = false → (d.unnamed o).Exhausts o → ∀ r, g.link r

theorem hrProc_moves {p : List (BitVec 8)} (ok : d.board.Ok) (lax : g.Lax) (host : d.low ≠ 0)
    (receives : ((byte p 0).toNat = 1 ∨ (byte p 0).toNat = 2) → rfcValid p = true →
      rfcTaken p = true → Receives g (d.offering p)) : Moves g d.board (d.hrProc p).board := by
  have turn : g.turn d.ncp.host := lax.2 _
  have code : ∀ n : Fin 256, (byte p 0).toNat = n → byte p 0 = BitVec.ofNat 8 n := by
    intro n isN
    apply BitVec.eq_of_toNat_eq
    rw [isN, BitVec.toNat_ofNat, Nat.mod_eq_of_lt n.isLt]
  unfold hrProc
  split
  next isOne => exact hrRfc_moves p ok turn (Or.inl (code 1 isOne)) host (receives (Or.inl isOne))
  next isTwo => exact hrRfc_moves p ok turn (Or.inr (code 2 isTwo)) host (receives (Or.inr isTwo))
  next => exact hrCls_moves p ok turn fun i _ => mates_lax lax i
  next => exact hrAll_moves p ok turn
  next => exact hrEco_moves p
  next => exact .refl
  next => exact hrRst_moves ok lax
  next => exact .single hsAlive_move

theorem hrDcodeFrom_moves (bound : Nat) (p : List (BitVec 8)) (ok : d.board.Ok) (lax : g.Lax)
    (host : d.low ≠ 0)
    (receives : ∀ q ∈ rfcsFrom bound p d, q.sktReq.state = .rfc → Receives g q) :
    Moves g d.board (hrDcodeFrom bound p d).board := by
  induction bound generalizing p d with
  | zero => exact .refl
  | succ bound inductionHypothesis =>
    unfold hrDcodeFrom
    unfold rfcsFrom at receives
    split
    next => exact .refl
    next more =>
      rw [if_neg more] at receives
      simp only at receives ⊢
      split
      next => exact .single (qupPro_move _)
      next legal =>
        split
        next => exact .single (qupPro_move _)
        next whole =>
          rw [if_neg (by omega)] at receives
          have first := hrProc_moves (g := g) (p := p) ok lax host fun isRfc valid taken => by
            refine receives (d.offering p) (List.mem_append_left _ ?_)
              (rfcRequest_spec (d := d.hsAlive) p).1
            rw [if_pos ⟨isRfc, valid, taken⟩]
            exact List.mem_singleton_self _
          refine first.trans (inductionHypothesis _ (first.ok ok) ?_ fun q member =>
            receives q (List.mem_append_right _ member))
          rw [hrProc_low]
          exact host

theorem irRfnm_moves (m : KrRcv) (hnames : Nat → Bool) (ok : d.board.Ok) (lax : g.Lax) :
    Moves g d.board (irRfnm m hnames d).board := by
  unfold irRfnm
  split
  next =>
    split
    next i found => exact fiRfnm_moves ok (lax.2 _) (hlFind_some found).1 fun _ => lax.1 _ _
    next => exact .refl
  next =>
    simp only
    have answered : Move g d.board (d.onHost fun s => s.atHost (.irRfnm m.answers)).board :=
      onHost_move _ rfl
    refine (Relation.ReflTransGen.single answered).trans ?_
    generalize (d.onHost fun s => s.atHost (.irRfnm m.answers)) = e
    by_cases queued : (e.ncp.hosts e.ncp.host).pbQ ≠ []
    · rw [if_pos queued]
      have sends : Move g e.board ({ e with ncp := { e.ncp with pro2send := true } } : Daemon).board :=
        .queue { e.ncp with pro2send := true } rfl
      refine (Relation.ReflTransGen.single sends).trans ?_
      split
      next => exact rstAll_moves hnames
      next => exact .refl
    · rw [if_neg queued]
      split
      next => exact rstAll_moves hnames
      next => exact .refl

theorem irReX_moves (m : KrRcv) (hnames : Nat → Bool) (ok : d.board.Ok) (lax : g.Lax) :
    Moves g d.board (irReX m hnames d).board := by
  unfold irReX
  split
  next =>
    split
    next i found => exact killSkt_moves ok fun _ => lax.1 _ _
    next => exact .refl
  next =>
    simp only
    have answered : Move g d.board (d.onHost fun s => s.atHost (.irReX m.answers)).board :=
      onHost_move _ rfl
    have okA := answered.ok ok
    refine (Relation.ReflTransGen.single answered).trans ?_
    generalize (d.onHost fun s => s.atHost (.irReX m.answers)) = e at okA
    split
    next =>
      have dead := hDead_moves okA lax
      generalize e.hDead = e' at dead
      split
      next => exact dead.trans (rstAll_moves hnames)
      next => exact dead
    next => exact .single (.queue { e.ncp with pro2send := true } rfl)

theorem irReglr_moves (m : KrRcv) (ok : d.board.Ok) (lax : g.Lax) (host : d.low ≠ 0)
    (receives : m.link = 0 → ∀ q ∈ rfcsFrom m.data.length m.data d, q.sktReq.state = .rfc →
      Receives g q) : Moves g d.board (irReglr m d).board := by
  unfold irReglr
  split
  next control => exact hrDcodeFrom_moves _ _ ok lax host (receives control)
  next =>
    split
    next => exact .refl
    next => exact hrData_moves m ok (lax.2 _)

theorem krRcv_moves (m : KrRcv) (hnames : Nat → Bool) (ok : d.board.Ok) (lax : g.Lax)
    (receives : (m.type &&& 15).toNat = 0 → m.link = 0 → m.host ≠ 0 →
      ∀ q ∈ rfcsFrom m.data.length m.data (d.setHostLow m.host), q.sktReq.state = .rfc →
        Receives g q) : Moves g d.board (krRcv m hnames d).board := by
  have turned : Move g d.board (d.setHostLow m.host).board := setHostLow_move (lax.2 _) _
  have okT := turned.ok ok
  unfold krRcv
  simp only
  refine (Relation.ReflTransGen.single turned).trans ?_
  split
  next => exact .refl
  next notDropped =>
    split
    next regular =>
      have host : m.host ≠ 0 := by
        intro zero
        refine notDropped ⟨zero, ?_⟩
        rw [regular]
        decide
      refine irReglr_moves m okT lax ?_ fun control => receives regular control host
      show BitVec.ofNat 8 (d.setHostLow m.host).ncp.host ≠ 0
      rw [setHostLow_low]
      exact host
    next => exact .refl
    next => exact irRfnm_moves m hnames okT lax
    next => exact .single (setUp_move false)
    next => exact irReX_moves m hnames okT lax
    next => exact irReX_moves m hnames okT lax
    next => exact irReX_moves m hnames okT lax
    next => exact irReset_moves hnames okT lax
    next => exact .refl

theorem krReset_moves (h : BitVec 8) (ok : d.board.Ok) (lax : g.Lax) :
    Moves g d.board (d.krReset h).board := by
  have turned : Move g d.board (d.setHost h.toNat).board := .turn _ (lax.2 _)
  have dead := hDead_moves (turned.ok ok) lax
  unfold krReset
  generalize (d.setHost h.toNat).hDead = e at dead
  exact ((Relation.ReflTransGen.single turned).trans dead).tail chkHost_move

theorem drctListens_of {o : KrOpen} (listens : ∀ q ∈ d.listensOf o, Listens g q) :
    DrctListens g d o := by
  intro made lskt fskt opens
  unfold listensOf at listens
  rw [opens] at listens
  simp only at listens
  by_cases dux : o.dux = true
  · rw [if_pos dux] at listens ⊢
    exact ⟨listens _ List.mem_cons_self, listens _ (List.mem_cons_of_mem _ List.mem_cons_self)⟩
  · rw [if_neg dux] at listens ⊢
    exact listens _ List.mem_cons_self

theorem krDcode_moves {instr : Instr} (ok : d.board.Ok) (lax : g.Lax) (permits : Permits g d instr) :
    Moves g d.board (d.krDcode instr).board := by
  cases instr with
  | userOpen o =>
    refine krOpen_moves ok (lax.2 _) (permits.leaks o rfl) (fun drct => drctListens_of ?_)
      (permits.shares o rfl) (permits.blocks o rfl) (permits.full o rfl)
    have listens := permits.listens
    unfold requests at listens
    simp only at listens
    rw [if_pos drct] at listens
    exact listens
  | rcv m hnames =>
    refine krRcv_moves m hnames ok lax fun regular control host => ?_
    have receives := permits.receives
    unfold requests at receives
    simp only at receives
    rw [if_pos ⟨regular, control, host⟩] at receives
    exact receives
  | close id sinx => exact krClose_moves ok (lax.2 _) fun f i _ _ => mates_lax lax i
  | timo => exact krTimo_moves ok lax
  | reset h => exact krReset_moves h ok lax
  | log => exact .refl

theorem read_move (clock : Int) : Move g d.board (d.read clock).board :=
  .queue { d.ncp with pro2send := false } rfl

theorem finish_moves : Moves g d.board d.finish.board := by
  have sent : Moves g d.board (if d.ncp.pro2send then d.sendPro else d).board := flushed_moves
  unfold finish
  simp only
  generalize (if d.ncp.pro2send then d.sendPro else d) = e at sent
  split
  next => exact sent
  next => exact sent

theorem trip_moves {e : Event} (ok : d.board.Ok) (lax : g.Lax)
    (permits : Permits g (d.read e.clock) e.instr) : Moves g d.board (d.trip e).board := by
  have started : Move g d.board (d.read e.clock).board := read_move e.clock
  have okS := started.ok ok
  exact ((Relation.ReflTransGen.single started).trans (krDcode_moves okS lax permits)).trans
    finish_moves

/-! ### The states inside a trip -/

/-- The states after each command of a message. -/
def stagesFrom : Nat → List (BitVec 8) → Daemon → List Daemon
  | 0, _, _ => []
  | bound + 1, p, d =>
    if p = [] then []
    else
      let op := (byte p 0).toNat
      if op > 13 ∨ p.length < hhIlgth op then []
      else d.hrProc p :: stagesFrom bound (p.drop (hhIlgth op)) (d.hrProc p)

/-- The states after each command of the message that a trip reads, and the one after the trip. -/
def stages (d : Daemon) (e : Event) : List Daemon :=
  (match e.instr with
  | .rcv m _ =>
    if (m.type &&& 15).toNat = 0 ∧ m.link = 0 ∧ m.host ≠ 0 then
      stagesFrom m.data.length m.data ((d.read e.clock).setHostLow m.host)
    else []
  | _ => []) ++ [d.trip e]

theorem stagesFrom_moves (bound : Nat) (p : List (BitVec 8)) (ok : d.board.Ok) (lax : g.Lax)
    (host : d.low ≠ 0)
    (receives : ∀ q ∈ rfcsFrom bound p d, q.sktReq.state = .rfc → Receives g q) {q : Daemon}
    (member : q ∈ stagesFrom bound p d) : Moves g d.board q.board := by
  induction bound generalizing p d with
  | zero => exact absurd member List.not_mem_nil
  | succ bound inductionHypothesis =>
    unfold stagesFrom at member
    unfold rfcsFrom at receives
    split at member
    next => exact absurd member List.not_mem_nil
    next more =>
      rw [if_neg more] at receives
      simp only at receives member
      split at member
      next => exact absurd member List.not_mem_nil
      next whole =>
        rw [if_neg whole] at receives
        have first := hrProc_moves (g := g) (p := p) ok lax host fun isRfc valid taken => by
          refine receives (d.offering p) (List.mem_append_left _ ?_)
            (rfcRequest_spec (d := d.hsAlive) p).1
          rw [if_pos ⟨isRfc, valid, taken⟩]
          exact List.mem_singleton_self _
        rcases List.mem_cons.mp member with rfl | later
        · exact first
        · refine first.trans (inductionHypothesis _ (first.ok ok) ?_ (fun q member =>
            receives q (List.mem_append_right _ member)) later)
          rw [hrProc_low]
          exact host

theorem stages_moves {e : Event} (ok : d.board.Ok) (lax : g.Lax)
    (permits : Permits g (d.read e.clock) e.instr) {q : Daemon} (member : q ∈ d.stages e) :
    Moves g d.board q.board := by
  unfold stages at member
  rcases List.mem_append.mp member with inside | last
  · cases instr : e.instr with
    | rcv m hnames =>
      have started : Move g d.board (d.read e.clock).board := read_move e.clock
      have turned : Move g (d.read e.clock).board ((d.read e.clock).setHostLow m.host).board :=
        setHostLow_move (lax.2 _) _
      have okT := turned.ok (started.ok ok)
      rw [instr] at inside permits
      simp only at inside
      split at inside
      next regular =>
        refine ((Relation.ReflTransGen.single started).tail turned).trans
          (stagesFrom_moves _ _ okT lax ?_ ?_ inside)
        · show BitVec.ofNat 8 ((d.read e.clock).setHostLow m.host).ncp.host ≠ 0
          rw [setHostLow_low]
          exact regular.2.2
        · have receives := permits.receives
          unfold requests at receives
          simp only at receives
          rw [if_pos regular] at receives
          exact receives
      next => exact absurd inside List.not_mem_nil
    | _ =>
      rw [instr] at inside
      exact absurd inside List.not_mem_nil
  · rw [List.mem_singleton.mp last]
    exact trip_moves ok lax permits

end Daemon

end NetworkUnix.Ncpd
