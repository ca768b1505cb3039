/-
This file shows that the routines that open a socket are paths of moves: a request
of the daemon meets a queued request of a foreign host or gets a struct of its own,
a request of a foreign host meets a listen, an init or nothing, and the file is told
of each socket that is opened.
-/

import NetworkUnix.Ncpd.Closing

namespace NetworkUnix.Ncpd

/-! ### The fit of the sockets when a file goes on -/

variable {c : Cell}

theorem Fits.toData {st : FileState} (fits : Fits c st) (next : FileState) (user : st ≠ .uiopw)
    (server : st ≠ .siopw) (later : next = .dopnw ∨ next = .sirfw) (data : st ≠ .dopnw) :
    Fits c next := by
  refine ⟨fits.rfnm, ?_, ?_, fits.serverSend, fits.noSlsn, ?_, ?_, fits.polarity, fits.link⟩
  · exact fun isData listens => absurd (fits.data isData listens) data
  · exact fun icp listens => absurd (fits.server icp listens) server
  · exact fun icp inits => absurd (fits.user icp inits).1 user
  · intro _ _ phase
    rcases later with isLater | isLater <;> rw [isLater] at phase <;> rcases phase with isPhase | isPhase
      <;> cases isPhase

theorem Fits.toContact {st : FileState} (fits : Fits c st) (next : FileState)
    (opened : c.state = .opened) (phase : st = .uiopw ∧ next = .uisnw ∨ next = .sialw) :
    Fits c next := by
  refine Fits.ofQuiet (by rw [opened]; rfl) fits.rfnm ?_ fits.polarity fits.link
  intro icp isOpen isPhase
  rcases phase with user | server
  · exact fits.opened icp isOpen (Or.inl user.1)
  · rw [server] at isPhase
    rcases isPhase with isPhase | isPhase <;> cases isPhase

theorem Fits.toOpened (fits : Fits c .dopnw) (opened : c.sinx ≠ .icp → c.state = .opened) :
    Fits c .opened := by
  refine ⟨fits.rfnm, ?_, ?_, fits.serverSend, fits.noSlsn, ?_, ?_, fits.polarity, fits.link⟩
  · intro data listens
    rw [opened data] at listens
    cases listens
  · exact fun icp listens => FileState.noConfusion (fits.server icp listens)
  · exact fun icp inits => FileState.noConfusion (fits.user icp inits).1
  · intro _ _ phase
    rcases phase with isPhase | isPhase <;> cases isPhase

namespace Daemon

variable {g : Guards} {d : Daemon}

/-! ### A socket has been opened -/

variable {f : FileNo} {i : SktNo}

theorem contact_only {b : Board} (ok : b.Ok) {j : SktNo}
    (isContact : (b.entries f).state.contact = true) (usedI : (b.cells i).state ≠ .null)
    (filepI : (b.cells i).filep = some f) (usedJ : (b.cells j).state ≠ .null)
    (filepJ : (b.cells j).filep = some f) : j = i := by
  have files := ok.files f (ok.owned i f usedI filepI).1
  have icp : ∀ k, (b.cells k).state ≠ .null → (b.cells k).filep = some f →
      (b.cells k).sinx = .icp := by
    intro k usedK filepK
    have there := (ok.owned k f usedK filepK).2
    cases sinx : (b.cells k).sinx with
    | icp => rfl
    | rcv =>
      rw [sinx, (files.contact isContact).1] at there
      exact absurd there.symm (Option.some_ne_none k)
    | xmit =>
      rw [sinx, (files.contact isContact).2] at there
      exact absurd there.symm (Option.some_ne_none k)
  exact ok.apart usedJ filepJ usedI filepI ((icp j usedJ filepJ).trans (icp i usedI filepI).symm)

theorem hwAll_moves (msgs bits : BitVec 16) (used : (d.sockets i).state ≠ .null)
    (command : g.command d.ncp.host (d.sockets i).hlHost) :
    Move g d.board (d.hwAll i msgs bits).board :=
  .command i (allOf (d.sockets i) msgs bits) _ (Or.inr rfl) used command

theorem hwRfc_moves (used : (d.sockets i).state ≠ .null)
    (command : g.command d.ncp.host (d.sockets i).hlHost) :
    Move g d.board (d.hwRfc i).board :=
  .command i (rfcOf (d.sockets i)) _ (Or.inl rfl) used command

theorem proceed_moves {st : FileState} {change : File → File}
    (same : (change (d.files f)).entry = { (d.files f).entry with state := st })
    (proceeds : Proceeds (d.files f).state st)
    (fits : ∀ i, (d.board.cells i).state ≠ .null → (d.board.cells i).filep = some f →
      Fits (d.board.cells i) (d.files f).state → Fits (d.board.cells i) st)
    (data : st = .opened → ((d.files f).sktX .rcv ≠ none ∨ (d.files f).sktX .xmit ≠ none) ∧
      ∀ x i, x ≠ .icp → (d.files f).sktX x = some i → (d.sockets i).state = .opened) :
    Move g d.board (d.setFile f change).board := by
  rw [board_setFile, same]
  exact .proceed f st proceeds fits data

section

variable (ok : d.board.Ok) (opened : (d.sockets i).state = .opened)
  (filep : (d.sockets i).filep = some f)
include ok opened filep

theorem userOpen_moves (state : (d.files f).state = .uiopw)
    (command : g.command d.ncp.host (d.sockets i).hlHost) :
    Moves g d.board
      ((d.hwAll i 1 32).setFile f fun f => { f with state := .uisnw }).board := by
  have used : (d.board.cells i).state ≠ .null := by
    show (d.sockets i).state ≠ .null
    rw [opened]
    decide
  refine (Relation.ReflTransGen.single (hwAll_moves 1 32 used command)).tail ?_
  refine proceed_moves (d := d.hwAll i 1 32) rfl ?_ ?_ fun isOpen => FileState.noConfusion isOpen
  · show Proceeds (d.files f).state .uisnw
    rw [state]
    exact .userOpen
  · intro j usedJ filepJ fits
    obtain rfl : j = i := contact_only ok (by show (d.files f).state.contact = true; rw [state]; rfl)
      used filep usedJ filepJ
    exact fits.toContact .uisnw opened (Or.inl ⟨state, rfl⟩)

theorem serverOpen_moves {timeo : Int} (state : (d.files f).state = .siopw) :
    Moves g d.board (d.setFile f fun f => { f with timeo := timeo, state := .sialw }).board := by
  have used : (d.board.cells i).state ≠ .null := by
    show (d.sockets i).state ≠ .null
    rw [opened]
    decide
  refine .single (proceed_moves rfl ?_ ?_ fun isOpen => FileState.noConfusion isOpen)
  · rw [state]
    exact .serverOpen
  · intro j usedJ filepJ fits
    obtain rfl : j = i := contact_only ok (by show (d.files f).state.contact = true; rw [state]; rfl)
      used filep usedJ filepJ
    exact fits.toContact .sialw opened (Or.inr rfl)

theorem dataOpen_moves (isData : (d.sockets i).sinx ≠ .icp)
    (state : (d.files f).state = .dopnw)
    (others : ∀ j, (d.files f).sktX (d.sockets i).sinx.other = some j →
      (d.sockets j).state = .opened) :
    Moves g d.board (d.setFile f fun f => { f with state := .opened, timeo := 0 }).board := by
  have used : (d.board.cells i).state ≠ .null := by
    show (d.sockets i).state ≠ .null
    rw [opened]
    decide
  have there : (d.files f).sktX (d.sockets i).sinx = some i := (ok.owned i f used filep).2
  have all : ∀ x j, x ≠ .icp → (d.files f).sktX x = some j → (d.sockets j).state = .opened := by
    intro x j data at_x
    by_cases same : x = (d.sockets i).sinx
    · rw [same, there] at at_x
      rw [← Option.some.inj at_x]
      exact opened
    · have other : (d.sockets i).sinx.other = x := by
        revert same data isData
        cases x <;> cases (d.sockets i).sinx <;> decide
      exact others j (other ▸ at_x)
  refine .single (proceed_moves rfl ?_ ?_ fun _ => ⟨?_, all⟩)
  · rw [state]
    exact .data
  · intro j usedJ filepJ fits
    rw [state] at fits
    refine fits.toOpened fun data => ?_
    exact all _ j data (ok.owned j f usedJ filepJ).2
  · cases sinx : (d.sockets i).sinx with
    | rcv =>
      rw [sinx] at there
      exact Or.inl fun isNone => Option.some_ne_none i (there.symm.trans isNone)
    | xmit =>
      rw [sinx] at there
      exact Or.inr fun isNone => Option.some_ne_none i (there.symm.trans isNone)
    | icp => exact absurd sinx isData

end

theorem tellsOpen (opened : (d.sockets i).state = .opened)
    (command : g.command d.ncp.host (d.sockets i).hlHost) :
    ∃ next : Daemon,
      next = (if isSend (d.sockets i).lskt then d.kwMod i ksbOpen 0 0 0
        else (d.kwMod i ksbOpen nomMall 0 nomBall).hwAll i nomMall nomBall) ∧
      Moves g d.board next.board ∧ next.sockets = d.sockets ∧ next.files = d.files := by
  have used : (d.sockets i).state ≠ .null := by
    rw [opened]
    decide
  by_cases send : isSend (d.sockets i).lskt = true
  · exact ⟨_, rfl, by rw [if_pos send]; exact .refl, by rw [if_pos send]; rfl,
      by rw [if_pos send]; rfl⟩
  · refine ⟨_, rfl, ?_, by rw [if_neg send]; rfl, by rw [if_neg send]; rfl⟩
    rw [if_neg send]
    exact .single (hwAll_moves (d := d.kwMod i ksbOpen nomMall 0 nomBall) nomMall nomBall used command)

theorem fiSopn_moves (ok : d.board.Ok) (opened : (d.sockets i).state = .opened)
    (filep : (d.sockets i).filep = some f)
    (icp : (d.sockets i).sinx = .icp → (d.files f).state = .uiopw ∨ (d.files f).state = .siopw)
    (data : (d.sockets i).sinx ≠ .icp → (d.files f).state = .dopnw)
    (command : g.command d.ncp.host (d.sockets i).hlHost) :
    Moves g d.board (d.fiSopn i).board := by
  unfold fiSopn
  simp only
  rw [filep]
  simp only
  by_cases isIcp : (d.sockets i).sinx = .icp
  · rw [if_pos isIcp]
    rcases icp isIcp with state | state
    · rw [state]
      exact userOpen_moves (d := ({ d with fp := f } : Daemon).kwMod i (ksbOpen ||| ksbDdat) 1 0 32) ok
        opened filep state command
    · rw [state]
      exact serverOpen_moves (d := ({ d with fp := f } : Daemon).kwMod i (ksbOpen ||| ksbDdat) 0 0 0) ok
        opened filep state
  · have state := data isIcp
    rw [if_neg isIcp, if_neg (not_not.mpr state)]
    obtain ⟨next, isNext, moves, sockets, files⟩ := tellsOpen (d := ({ d with fp := f } : Daemon))
      (i := i) opened command
    rw [← isNext]
    have last : (∀ j, (next.files f).sktX (d.sockets i).sinx.other = some j →
        (next.sockets j).state = .opened) →
        Moves g d.board (next.setFile f fun f => { f with state := .opened, timeo := 0 }).board := by
      intro others
      refine moves.trans (dataOpen_moves (d := next) (i := i) (moves.ok ok) ?_ ?_ ?_ ?_ ?_)
      · rw [sockets]
        exact opened
      · rw [sockets]
        exact filep
      · rw [sockets]
        exact isIcp
      · rw [files]
        exact state
      · rw [sockets] at others ⊢
        exact others
    split
    next isNone =>
      split
      next => exact last fun j at_other => absurd (isNone.symm.trans at_other).symm (Option.some_ne_none j)
      next => exact moves
    next k isSome =>
      split
      next both =>
        refine last fun j at_other => ?_
        rw [← Option.some.inj (isSome.symm.trans at_other)]
        exact of_decide_eq_true both.2
      next => exact moves

theorem fiSopn_still (filep : (d.sockets i).filep = some f) (isData : (d.sockets i).sinx ≠ .icp)
    (state : (d.files f).state = .dopnw) (more : (d.files f).nsatt ≠ (d.files f).nsrsrv) :
    (d.fiSopn i).files = d.files ∧ (d.fiSopn i).sockets = d.sockets ∧
      (d.fiSopn i).ncp.host = d.ncp.host ∧ (d.fiSopn i).fp = f := by
  have told : ∀ next : Daemon, next.files = d.files ∧ next.sockets = d.sockets ∧
      next.ncp.host = d.ncp.host ∧ next.fp = f → ∀ p : Prop, [Decidable p] → ∀ last : Daemon,
      (if (next.files f).nsatt = (next.files f).nsrsrv ∧ p then last else next).files = d.files ∧
      (if (next.files f).nsatt = (next.files f).nsrsrv ∧ p then last else next).sockets = d.sockets ∧
      (if (next.files f).nsatt = (next.files f).nsrsrv ∧ p then last else next).ncp.host = d.ncp.host ∧
      (if (next.files f).nsatt = (next.files f).nsrsrv ∧ p then last else next).fp = f := by
    intro next same p _ last
    have notLast : ¬ ((next.files f).nsatt = (next.files f).nsrsrv ∧ p) := by
      rw [same.1]
      exact fun both => more both.1
    rw [if_neg notLast]
    exact same
  unfold fiSopn
  simp only
  rw [filep]
  simp only
  rw [if_neg isData, if_neg (not_not.mpr state)]
  refine told _ ?_ _ _
  split
  · exact ⟨rfl, rfl, rfl, rfl⟩
  · exact ⟨rfl, rfl, rfl, rfl⟩

theorem fiSopn_frame (i : SktNo) :
    (d.fiSopn i).sockets = d.sockets ∧ (d.fiSopn i).ncp.host = d.ncp.host := by
  unfold fiSopn
  simp only
  split
  next => exact ⟨rfl, rfl⟩
  next f _ =>
    split
    next =>
      split
      · exact ⟨rfl, rfl⟩
      · exact ⟨rfl, rfl⟩
      · exact ⟨rfl, rfl⟩
    next =>
      split
      next => exact ⟨rfl, rfl⟩
      next =>
        have told : ∀ next : Daemon, next.sockets = d.sockets ∧ next.ncp.host = d.ncp.host →
            ∀ p : Prop, [Decidable p] →
            (if p then (next.setFile f fun f => { f with state := .opened, timeo := 0 }).kwRdy
              (next.files f).id 0 else next).sockets = d.sockets ∧
            (if p then (next.setFile f fun f => { f with state := .opened, timeo := 0 }).kwRdy
              (next.files f).id 0 else next).ncp.host = d.ncp.host := by
          intro next same p _
          split
          · exact same
          · exact same
        refine told _ ?_ _
        split
        · exact ⟨rfl, rfl⟩
        · exact ⟨rfl, rfl⟩

/-! ### A request of the daemon meets a queued request -/

theorem attSkt_eq (filep : (d.sockets i).filep = some f) :
    d.attSkt i = d.setFile f fun e =>
      { e with sktX := Function.update e.sktX (d.sockets i).sinx (some i), nsatt := e.nsatt + 1 } := by
  unfold attSkt
  simp only
  rw [filep]

theorem attSkt_board (filep : (d.sockets i).filep = some f) :
    (d.attSkt i).board =
      d.board.setEntry f ((d.board.entries f).attach (d.sockets i).sinx i) := by
  rw [attSkt_eq filep, board_setFile]
  rfl

/-- The struct of the queued request takes its part of the request. -/
def taken (d : Daemon) (i : SktNo) : Daemon :=
  (d.setSkt i fun s =>
    if isSend d.sktReq.lskt then { s with bysz := d.sktReq.bysz }
    else { s with hlLink := d.sktReq.hlLink }).setSkt i fun s =>
      { s with filep := d.sktReq.filep, sinx := d.sktReq.sinx }

theorem taken_socket (i : SktNo) :
    ((d.taken i).sockets i).filep = d.sktReq.filep ∧ ((d.taken i).sockets i).sinx = d.sktReq.sinx ∧
    { ((d.taken i).sockets i).cell with state := .opened } =
      (d.board.cells i).adopt d.sktReq := by
  have self : (d.taken i).sockets i = { (if isSend d.sktReq.lskt then
      { d.sockets i with bysz := d.sktReq.bysz }
      else { d.sockets i with hlLink := d.sktReq.hlLink }) with
        filep := d.sktReq.filep, sinx := d.sktReq.sinx } := by
    unfold taken
    rw [setSkt_self, setSkt_self]
  refine ⟨by rw [self], by rw [self], ?_⟩
  rw [self]
  show _ = (d.sockets i).cell.adopt d.sktReq
  unfold Cell.adopt
  by_cases send : isSend d.sktReq.lskt = true
  · rw [if_pos send, if_pos send]
    rfl
  · rw [if_neg send, if_neg send]
    rfl

theorem adopt_board (filep : d.sktReq.filep = some f) :
    (d.adopt i).board =
      ((((d.board.setCell i ((d.board.cells i).adopt d.sktReq)).setEntry f
        ((d.board.entries f).attach d.sktReq.sinx i)).marks i [.state .opened]).left
          (d.board.nsLeft + 1)) := by
  have isTaken : d.adopt i = ({ ((d.taken i).attSkt i).toState i .opened with
      nsLeft := (((d.taken i).attSkt i).toState i .opened).nsLeft + 1 } : Daemon) := rfl
  obtain ⟨filepT, sinxT, cellT⟩ := taken_socket (d := d) i
  have attached := attSkt_board (filepT.trans filep)
  have board : (d.taken i).board = d.board.setCell i ((d.taken i).sockets i).cell := by
    have self := setSkt_self (d := d.setSkt i fun s =>
      if isSend d.sktReq.lskt then { s with bysz := d.sktReq.bysz }
      else { s with hlLink := d.sktReq.hlLink }) i fun s =>
        { s with filep := d.sktReq.filep, sinx := d.sktReq.sinx }
    show (Daemon.setSkt _ i _).board = _
    rw [board_setSkt, board_setSkt, Board.setCell_setCell]
    exact congrArg (fun s => d.board.setCell i (Socket.cell s)) self.symm
  have nsLeft : (((d.taken i).attSkt i).toState i .opened).nsLeft = d.nsLeft := by
    rw [attSkt_eq (filepT.trans filep)]
    rfl
  have sockets : ((d.taken i).attSkt i).sockets = (d.taken i).sockets := by
    rw [attSkt_eq (filepT.trans filep)]
    rfl
  rw [isTaken]
  show (((d.taken i).attSkt i).toState i .opened).board.left
    ((((d.taken i).attSkt i).toState i .opened).nsLeft + 1) = _
  rw [board_toState, nsLeft, attached, sockets, cellT, sinxT, board]
  simp only [Board.setEntry_setCell, Board.setCell_setCell]
  rfl

/-- What a request for a data socket leaves behind when its file waits for another socket. -/
structure Asked (d : Daemon) (r : Request) (f : FileNo) (next : Daemon) : Prop where
  fp : next.fp = f
  entry : next.board.entries f = d.board.entries f ∨
    ∃ i, next.board.entries f = (d.board.entries f).attach r.sinx i ∧
      (r.state ≠ .glsn →
        (next.board.cells i).hlHost = r.hlHost ∧ (next.board.cells i).fskt = r.fskt)
  host : r.state ≠ .glsn → next.ncp.host = d.ncp.host

theorem soMatch_iff :
    d.soMatch i = true ↔ d.sktReq.hlHost = (d.sockets i).hlHost ∧ d.sktReq.fskt = (d.sockets i).fskt := by
  unfold soMatch
  rw [Bool.and_eq_true, decide_eq_true_iff, decide_eq_true_iff]

theorem asks_phase {b : Board} {r : Request} (asks : Asks b r f) :
    (r.sinx = .icp → (b.entries f).state = .uiopw ∨ (b.entries f).state = .siopw) ∧
    (r.sinx ≠ .icp → (b.entries f).state = .dopnw) := by
  constructor
  · intro icp
    exact (asks.contact icp).imp (fun user => user.1) id
  · intro data
    refine asks.fits.data data ?_
    show r.state.state.listening = true
    rcases asks.op with op | op | op <;> rw [op] <;> rfl

/-- The state after a queued request has been adopted and the connection is requested back. -/
def adopted (d : Daemon) (i : SktNo) : Daemon := ((d.adopt i).kwStup i ksbOpen).hwRfc i

section Adopted

variable {i : SktNo} {f : FileNo}

theorem adopted_cell (filep : d.sktReq.filep = some f) :
    ((d.adopted i).sockets i).cell = (d.board.cells i).adopt d.sktReq := by
  have board := congrArg (fun b => b.cells i) (adopt_board (d := d) (i := i) filep)
  exact board.trans (setCell_self i _)

theorem adopted_entry (filep : d.sktReq.filep = some f) :
    ((d.adopted i).files f).entry = (d.board.entries f).attach d.sktReq.sinx i := by
  have board := congrArg (fun b => b.entries f) (adopt_board (d := d) (i := i) filep)
  exact board.trans (setEntry_self (b := d.board.setCell i ((d.board.cells i).adopt d.sktReq)) f _)

theorem adopted_host (filep : d.sktReq.filep = some f) : (d.adopted i).ncp.host = d.ncp.host := by
  have board := congrArg (fun b => b.ncp.host) (adopt_board (d := d) (i := i) filep)
  exact board

theorem adopted_moves (asks : Asks d.board d.sktReq f) (queued : (d.sockets i).state = .q)
    (lskt : (d.sockets i).lskt = d.sktReq.lskt) (isMatch : d.soMatch i = true)
    (fresh : d.sktReq.state ≠ .glsn → Fresh d.board d.sktReq)
    (adopt : d.sktReq.state = .glsn → d.sktReq.sinx ≠ .icp → g.adopt d.board i d.sktReq)
    (command : g.command d.ncp.host d.sktReq.hlHost) :
    Moves g d.board (d.adopted i).board := by
  obtain ⟨host, fskt⟩ := soMatch_iff.mp isMatch
  have move : Move g d.board _ :=
    .adopt i d.sktReq f asks queued lskt host fskt fresh adopt
  rw [← adopt_board (i := i) asks.filep] at move
  have cell := adopted_cell (i := i) asks.filep
  have state : ((d.adopt i).sockets i).state = .opened := congrArg Cell.state cell
  have hostI : ((d.adopt i).sockets i).hlHost = d.sktReq.hlHost :=
    (congrArg Cell.hlHost cell).trans host.symm
  have hostD : (d.adopt i).ncp.host = d.ncp.host := adopted_host (i := i) asks.filep
  refine (Relation.ReflTransGen.single move).tail ?_
  refine hwRfc_moves (d := (d.adopt i).kwStup i ksbOpen) ?_ ?_
  · show ((d.adopt i).sockets i).state ≠ .null
    rw [state]
    decide
  · show g.command (d.adopt i).ncp.host ((d.adopt i).sockets i).hlHost
    rw [hostD, hostI]
    exact command

theorem lsintQ_moves (ok : d.board.Ok) (asks : Asks d.board d.sktReq f)
    (queued : (d.sockets i).state = .q) (lskt : (d.sockets i).lskt = d.sktReq.lskt)
    (fresh : d.sktReq.state ≠ .glsn → Fresh d.board d.sktReq)
    (adopt : d.sktReq.state = .glsn → d.sktReq.sinx ≠ .icp → d.soMatch i = true →
      g.adopt d.board i d.sktReq)
    (command : g.command d.ncp.host d.sktReq.hlHost) :
    Moves g d.board (d.lsintQ i).1.board := by
  unfold lsintQ
  split
  next isMatch =>
    obtain ⟨host, fskt⟩ := soMatch_iff.mp isMatch
    have moves := adopted_moves asks queued lskt isMatch fresh
      (fun op data => adopt op data isMatch) command
    have cell := adopted_cell (i := i) asks.filep
    have entry := adopted_entry (i := i) asks.filep
    have phase := asks_phase asks
    have sinx : ((d.adopted i).sockets i).sinx = d.sktReq.sinx := congrArg Cell.sinx cell
    have state : ((d.adopted i).files f).state = (d.board.entries f).state :=
      congrArg Entry.state entry
    refine moves.trans (fiSopn_moves (d := d.adopted i) (f := f) (moves.ok ok) ?_ ?_ ?_ ?_ ?_)
    · exact congrArg Cell.state cell
    · exact (congrArg Cell.filep cell).trans asks.filep
    · rw [sinx, state]
      exact phase.1
    · rw [sinx, state]
      exact phase.2
    · rw [adopted_host asks.filep]
      have hostI : ((d.adopted i).sockets i).hlHost = d.sktReq.hlHost :=
        (congrArg Cell.hlHost cell).trans host.symm
      rw [hostI]
      exact command
  next => exact .refl

theorem lsintQ_asked (asks : Asks d.board d.sktReq f) (isMatch : d.soMatch i = true)
    (data : d.sktReq.sinx ≠ .icp)
    (more : (d.board.entries f).nsatt + 1 ≠ (d.board.entries f).nsrsrv) :
    Asked d d.sktReq f (d.lsintQ i).1 := by
  obtain ⟨host, fskt⟩ := soMatch_iff.mp isMatch
  have cell := adopted_cell (i := i) asks.filep
  have entry := adopted_entry (i := i) asks.filep
  have sinx : ((d.adopted i).sockets i).sinx = d.sktReq.sinx := congrArg Cell.sinx cell
  have still := fiSopn_still (d := d.adopted i) (i := i) (f := f)
    ((congrArg Cell.filep cell).trans asks.filep) (by rw [sinx]; exact data)
    ((congrArg Entry.state entry).trans ((asks_phase asks).2 data))
    (fun same => more ((congrArg Entry.nsatt entry).symm.trans
      (same.trans (congrArg Entry.nsrsrv entry))))
  have opened : (d.lsintQ i).1 = (d.adopted i).fiSopn i := by
    unfold lsintQ
    rw [if_pos isMatch]
    rfl
  rw [opened]
  refine ⟨still.2.2.2, Or.inr ⟨i, ?_, fun _ => ?_⟩, fun _ => ?_⟩
  · exact (congrArg (fun files => (files f).entry) still.1).trans entry
  · have cellI : (((d.adopted i).fiSopn i).sockets i).cell = _ :=
      (congrArg (fun sockets => (sockets i).cell) still.2.1).trans cell
    exact ⟨(congrArg Cell.hlHost cellI).trans host.symm, (congrArg Cell.fskt cellI).trans fskt.symm⟩
  · exact still.2.2.1.trans (adopted_host asks.filep)

/-- A general listen whose wild fields are those of a queued request, which is of the host that
becomes the current one. -/
def filled (d : Daemon) (i : SktNo) : Daemon :=
  { d with
    sktReq := { d.sktReq with hlHost := (d.sockets i).hlHost, fskt := (d.sockets i).fskt } }.setHost
      (d.sockets i).hlHost.toNat

theorem filled_asks (asks : Asks d.board d.sktReq f) (op : d.sktReq.state = .glsn) :
    Asks (d.filled i).board (d.filled i).sktReq f := by
  have state : (d.filled i).sktReq.cell.state = .glsn := by
    show d.sktReq.state.state = .glsn
    rw [op]
    rfl
  have listens : d.sktReq.cell.state = .glsn := by
    show d.sktReq.state.state = .glsn
    rw [op]
    rfl
  have fits := asks.fits
  have server : d.sktReq.sinx = .icp → (d.board.entries f).state = .siopw :=
    fun icp => fits.server icp listens
  refine ⟨asks.filep, asks.op, asks.used, asks.vacant, asks.room, asks.phase, asks.unopened, ?_,
    fun icp => Or.inr (server icp), asks.first, fun notListen => absurd op notListen⟩
  refine ⟨fits.rfnm, fits.data, fits.server, fits.serverSend, fits.noSlsn, ?_, ?_, fits.polarity,
    fits.link⟩
  · intro _ inits
    rw [state] at inits
    cases inits
  · intro _ isOpen
    rw [state] at isOpen
    cases isOpen

theorem filled_match : (d.filled i).soMatch i = true := soMatch_iff.mpr ⟨rfl, rfl⟩

theorem glsnQ_moves (ok : d.board.Ok) (asks : Asks d.board d.sktReq f)
    (op : d.sktReq.state = .glsn)
    (queued : (d.sockets i).state = .q) (lskt : (d.sockets i).lskt = d.sktReq.lskt)
    (adopt : d.sktReq.sinx ≠ .icp → (d.glsnQ i).2 = true →
      g.adopt (d.filled i).board i (d.filled i).sktReq) :
    Moves g d.board (d.glsnQ i).1.board := by
  unfold glsnQ at adopt ⊢
  simp only at adopt ⊢
  split
  next isMatch =>
    rw [if_pos isMatch] at adopt
    have turned : Move g d.board (d.filled i).board := .turn _ (g.byte _)
    have met : ((d.filled i).lsintQ i).2 = true := by
      unfold lsintQ
      rw [if_pos filled_match]
    refine (Relation.ReflTransGen.single turned).trans ?_
    refine lsintQ_moves (d := d.filled i) (turned.ok ok) (filled_asks asks op) queued lskt
      (fun notListen => absurd op notListen) (fun _ data _ => adopt data met) ?_
    have own := g.own _ (g.byte (d.sockets i).hlHost)
    rw [BitVec.ofNat_toNat, BitVec.setWidth_eq] at own
    exact own
  next => exact .refl

theorem glsnQ_asked (asks : Asks d.board d.sktReq f) (op : d.sktReq.state = .glsn)
    (met : (d.glsnQ i).2 = true) (data : d.sktReq.sinx ≠ .icp)
    (more : (d.board.entries f).nsatt + 1 ≠ (d.board.entries f).nsrsrv) :
    Asked d d.sktReq f (d.glsnQ i).1 := by
  unfold glsnQ at met ⊢
  simp only at met ⊢
  split
  next =>
    have asked := lsintQ_asked (filled_asks asks op) (filled_match (d := d) (i := i)) data more
    exact ⟨asked.fp, asked.entry.imp id fun ⟨j, entry, _⟩ => ⟨j, entry, fun listens => absurd op listens⟩,
      fun listens => absurd op listens⟩
  next noMatch =>
    rw [if_neg noMatch] at met
    cases met

end Adopted

/-! ### A request that nothing meets -/

theorem nullSkt_some (found : d.nullSkt = some i) : (d.sockets i).state = .null :=
  of_decide_eq_true (List.find?_some (p := fun i => decide ((d.sockets i).state = .null)) found)

theorem nullSkt_none (found : d.nullSkt = none) (i : SktNo) : (d.sockets i).state ≠ .null := by
  have none := List.find?_eq_none.mp found i (List.mem_finRange i)
  exact fun isNull => none (decide_eq_true isNull)

section Created

variable {f : FileNo}

/-- The struct that a request of the daemon gets. -/
def created (d : Daemon) (i : SktNo) : Daemon :=
  (d.setSkt i fun _ => Request.toSocket d.sktReq).mark i (.state d.sktReq.state.state)

theorem created_board (i : SktNo) :
    (d.created i).board =
      (d.board.setCell i d.sktReq.cell).marks i [.state d.sktReq.cell.state] :=
  congrArg (fun b => Board.marks b i [.state d.sktReq.state.state])
    (board_setSkt i fun _ => Request.toSocket d.sktReq)

theorem created_socket (i : SktNo) : (d.created i).sockets i = Request.toSocket d.sktReq :=
  setSkt_self i fun _ => Request.toSocket d.sktReq

theorem asks_notOffer {b : Board} {r : Request} (asks : Asks b r f) : r.state ≠ .rfc := by
  rcases asks.op with op | op | op <;> rw [op] <;> decide

theorem soUrfc_none (found : d.nullSkt = none) :
    d.soUrfc = ({ d with failed := d.failed ++ [d.sktReq] }, none) := by
  unfold soUrfc
  rw [found]

theorem soUrfc_some {i : SktNo} (found : d.nullSkt = some i) (notOffer : d.sktReq.state ≠ .rfc) :
    d.soUrfc = (d.created i, some i) := by
  unfold soUrfc
  rw [found]
  show (if d.sktReq.state = .rfc then _ else _, some i) = _
  rw [if_neg notOffer]
  rfl

theorem soUrfc_offer {i : SktNo} (found : d.nullSkt = some i) (isOffer : d.sktReq.state = .rfc) :
    d.soUrfc = ({ d.created i with nsLeft := d.nsLeft - 1 }, some i) := by
  unfold soUrfc
  rw [found]
  show (if d.sktReq.state = .rfc then _ else _, some i) = _
  rw [if_pos isOffer]
  rfl

/-- The struct belongs to its file, and the kernel is told. -/
def listened (d : Daemon) (i : SktNo) : Daemon := ((d.created i).attSkt i).kwStup i 0

theorem listened_board {i : SktNo} (filep : d.sktReq.filep = some f) :
    (d.listened i).board =
      ((d.board.setCell i d.sktReq.cell).setEntry f
        ((d.board.entries f).attach d.sktReq.sinx i)).marks i [.state d.sktReq.cell.state] := by
  have filepI : ((d.created i).sockets i).filep = some f := by
    rw [created_socket]
    exact filep
  have sinxI : ((d.created i).sockets i).sinx = d.sktReq.sinx := by
    rw [created_socket]
    rfl
  show ((d.created i).attSkt i).board = _
  rw [attSkt_board filepI, sinxI, created_board]
  rfl

theorem listened_moves {i : SktNo} (asks : Asks d.board d.sktReq f) (found : d.nullSkt = some i)
    (fresh : Fresh d.board d.sktReq)
    (link : g.link d.sktReq) : Move g d.board (d.listened i).board := by
  rw [listened_board asks.filep]
  exact .create i d.sktReq f asks (nullSkt_some found) fresh link

theorem listened_cell {i : SktNo} (filep : d.sktReq.filep = some f) :
    ((d.listened i).sockets i).cell = d.sktReq.cell := by
  have board := congrArg (fun b => b.cells i) (listened_board (i := i) filep)
  exact board.trans (setCell_self i _)

theorem listened_entry {i : SktNo} (filep : d.sktReq.filep = some f) :
    ((d.listened i).files f).entry = (d.board.entries f).attach d.sktReq.sinx i := by
  have board := congrArg (fun b => b.entries f) (listened_board (i := i) filep)
  exact board.trans (setEntry_self (b := d.board.setCell i d.sktReq.cell) f _)

theorem listened_rest {i : SktNo} (filep : d.sktReq.filep = some f) :
    (d.listened i).ncp = d.ncp ∧ (d.listened i).fp = d.fp := by
  unfold listened
  rw [attSkt_eq (f := f) (by rw [created_socket]; exact filep)]
  exact ⟨rfl, rfl⟩

theorem soUnm_none (found : d.nullSkt = none) (asks : Asks d.board d.sktReq f) :
    d.soUnm = { d with failed := d.failed ++ [d.sktReq] } := by
  unfold soUnm soUinit soUlsn
  rw [soUrfc_none found]
  rcases asks.op with op | op | op <;> rw [op]

theorem soUnm_some {i : SktNo} (found : d.nullSkt = some i) (asks : Asks d.board d.sktReq f) :
    d.soUnm = if d.sktReq.state = .init then (d.listened i).hwRfc i else d.listened i := by
  unfold soUnm soUinit soUlsn
  rw [soUrfc_some found (asks_notOffer asks)]
  rcases asks.op with op | op | op <;> rw [op] <;> rfl

theorem soUnm_moves (asks : Asks d.board d.sktReq f) (fresh : Fresh d.board d.sktReq)
    (link : g.link d.sktReq)
    (command : d.sktReq.state ≠ .glsn → g.command d.ncp.host d.sktReq.hlHost) :
    Moves g d.board d.soUnm.board := by
  cases found : d.nullSkt with
  | none =>
    rw [soUnm_none found asks]
    refine .single (.fail d.sktReq (nullSkt_none found) fun h filep => ?_)
    obtain rfl : f = h := Option.some.inj (asks.filep.symm.trans filep)
    exact asks
  | some i =>
    have move := listened_moves (g := g) asks found fresh link
    have cell := listened_cell (i := i) asks.filep
    rw [soUnm_some found asks]
    split
    next isInit =>
      refine (Relation.ReflTransGen.single move).tail (hwRfc_moves ?_ ?_)
      · have state : ((d.listened i).sockets i).state = d.sktReq.state.state :=
          congrArg Cell.state cell
        rw [state, isInit]
        decide
      · rw [(listened_rest asks.filep).1]
        have host : ((d.listened i).sockets i).hlHost = d.sktReq.hlHost := congrArg Cell.hlHost cell
        rw [host]
        exact command (by rw [isInit]; decide)
    next => exact .single move

theorem soUnm_asked (asks : Asks d.board d.sktReq f) (isFp : d.fp = f) :
    Asked d d.sktReq f d.soUnm := by
  cases found : d.nullSkt with
  | none =>
    rw [soUnm_none found asks]
    exact ⟨isFp, Or.inl rfl, fun _ => rfl⟩
  | some i =>
    have cell := listened_cell (i := i) asks.filep
    have entry := listened_entry (i := i) asks.filep
    have rest := listened_rest (i := i) asks.filep
    have listens : Asked d d.sktReq f (d.listened i) :=
      ⟨rest.2.trans isFp, Or.inr ⟨i, entry, fun _ =>
        ⟨congrArg Cell.hlHost cell, congrArg Cell.fskt cell⟩⟩, fun _ => congrArg Ncp.host rest.1⟩
    rw [soUnm_some found asks]
    split
    next => exact ⟨listens.fp, listens.entry, listens.host⟩
    next => exact listens

end Created

/-! ### The search for a socket -/

/-- A general listen whose wild fields are those of a request of a foreign host. -/
def wildly (d : Daemon) (i : SktNo) : Daemon :=
  (d.setSkt i fun s => { s with hlHost := d.sktReq.hlHost, fskt := d.sktReq.fskt }).setHost
    d.sktReq.hlHost.toNat

theorem wildly_match : (d.wildly i).soMatch i = true := by
  have self : (d.wildly i).sockets i =
      { d.sockets i with hlHost := d.sktReq.hlHost, fskt := d.sktReq.fskt } :=
    setSkt_self i fun s => { s with hlHost := d.sktReq.hlHost, fskt := d.sktReq.fskt }
  rw [soMatch_iff, self]
  exact ⟨rfl, rfl⟩

theorem rfcUtil_met : (d.rfcUtil i).2 = d.soMatch i := by
  unfold rfcUtil
  cases d.soMatch i <;> rfl

theorem rfcUtil_unmet (unmet : d.soMatch i = false) : d.rfcUtil i = (d, false) := by
  unfold rfcUtil
  rw [unmet]
  rfl

theorem rfcSlsn_met : (d.rfcSlsn i).2 = d.soMatch i := by
  unfold rfcSlsn
  simp only
  rw [rfcUtil_met]
  cases d.soMatch i <;> rfl

theorem rfcSlsn_unmet (unmet : d.soMatch i = false) : (d.rfcSlsn i).1 = d := by
  unfold rfcSlsn
  rw [rfcUtil_unmet unmet]
  rfl

theorem lsintQ_met : (d.lsintQ i).2 = d.soMatch i := by
  unfold lsintQ
  cases d.soMatch i <;> rfl

theorem sktOper_unmet {op : SktOp} (unmet : (sktOper op d i).2 = false) :
    (sktOper op d i).1 = d := by
  have lsint : (d.lsintQ i).2 = false → (d.lsintQ i).1 = d := by
    unfold lsintQ
    split <;> simp
  have matched : ∀ act, (d.onMatch i act).2 = false → (d.onMatch i act).1 = d := by
    intro act
    unfold onMatch
    split <;> simp
  revert unmet
  unfold sktOper
  split
  · unfold glsnQ
    simp only
    split
    next =>
      intro unmet
      have met : ((d.filled i).lsintQ i).2 = true := lsintQ_met.trans filled_match
      exact absurd (met.symm.trans unmet) (by decide)
    next => exact fun _ => rfl
  · exact lsint
  · exact lsint
  · unfold rfcGlsn
    simp only
    split
    next =>
      intro unmet
      have met : ((d.wildly i).rfcSlsn i).2 = true := rfcSlsn_met.trans wildly_match
      exact absurd (met.symm.trans unmet) (by decide)
    next => exact fun _ => rfl
  · exact fun unmet => rfcSlsn_unmet (rfcSlsn_met.symm.trans unmet)
  · unfold rfcRfcw
    simp only
    rw [rfcUtil_met]
    cases isMatch : d.soMatch i with
    | true => exact fun unmet => absurd unmet (by simp)
    | false =>
      rw [rfcUtil_unmet isMatch]
      exact fun _ => rfl
  · exact matched _
  · exact matched _
  · exact matched _
  · exact matched _
  · exact matched _
  · exact matched _
  · exact fun _ => rfl

/-- A socket that meets the request. -/
def Meets (d : Daemon) (i : SktNo) : Prop :=
  (d.sockets i).state ≠ .null ∧ (d.sockets i).lskt = d.sktReq.lskt ∧
    (sktOper d.sktReq.state d i).2 = true

instance (i : SktNo) : Decidable (Meets d i) := inferInstanceAs (Decidable (_ ∧ _ ∧ _))

/-- The test of a procedure for a request: it looks at the host and the foreign socket, of which a
general listen may leave either open. -/
def sees (d : Daemon) (i : SktNo) : Bool :=
  match d.sktReq.state, (d.sockets i).state with
  | .glsn, .q => glMatch d.sktReq.hlHost d.sktReq.fskt (d.sockets i).hlHost (d.sockets i).fskt
  | .rfc, .glsn => glMatch (d.sockets i).hlHost (d.sockets i).fskt d.sktReq.hlHost d.sktReq.fskt
  | .slsn, .q | .init, .q => d.soMatch i
  | .rfc, .slsn | .rfc, .rfcw => d.soMatch i
  | .cls, .rfcw | .cls, .q | .cls, .cacw | .cls, .clsw | .cls, .opened | .cls, .orfnmw => d.soMatch i
  | _, _ => false

/-- The first socket that fits the request. -/
def found (d : Daemon) : Option SktNo :=
  (List.finRange nsockets).find? fun i =>
    (d.sockets i).state ≠ .null ∧ (d.sockets i).lskt = d.sktReq.lskt ∧ d.sees i

theorem onMatch_met (i : SktNo) (act : Daemon → Daemon) : (d.onMatch i act).2 = d.soMatch i := by
  unfold onMatch
  cases d.soMatch i <;> rfl

theorem rfcRfcw_sees (i : SktNo) : (d.rfcRfcw i).2 = d.soMatch i := by
  unfold rfcRfcw
  simp only
  rw [rfcUtil_met]
  cases d.soMatch i <;> rfl

theorem sktOper_sees (i : SktNo) : (sktOper d.sktReq.state d i).2 = d.sees i := by
  have glsnQ : (d.glsnQ i).2 =
      glMatch d.sktReq.hlHost d.sktReq.fskt (d.sockets i).hlHost (d.sockets i).fskt := by
    unfold Daemon.glsnQ
    simp only
    split
    next isMatch =>
      rw [isMatch]
      exact (lsintQ_met (d := d.filled i)).trans filled_match
    next notMatch => exact (Bool.eq_false_iff.mpr notMatch).symm
  have rfcGlsn : (d.rfcGlsn i).2 =
      glMatch (d.sockets i).hlHost (d.sockets i).fskt d.sktReq.hlHost d.sktReq.fskt := by
    unfold Daemon.rfcGlsn
    simp only
    split
    next isMatch =>
      rw [isMatch]
      exact (rfcSlsn_met (d := d.wildly i)).trans wildly_match
    next notMatch => exact (Bool.eq_false_iff.mpr notMatch).symm
  unfold sktOper sees
  cases d.sktReq.state <;> cases (d.sockets i).state <;> first
    | rfl
    | exact glsnQ
    | exact rfcGlsn
    | exact lsintQ_met
    | exact rfcSlsn_met
    | exact rfcRfcw_sees i
    | exact onMatch_met i _

theorem found_meets (isFound : d.found = some i) : Meets d i := by
  have fits := of_decide_eq_true (List.find?_some (p := fun i => decide ((d.sockets i).state ≠ .null ∧
    (d.sockets i).lskt = d.sktReq.lskt ∧ d.sees i = true)) isFound)
  exact ⟨fits.1, fits.2.1, (sktOper_sees i).trans fits.2.2⟩

theorem getSktFrom_cases (l : List SktNo) :
    getSktFrom l d = (d, false) ∧ l.find? (fun i => (d.sockets i).state ≠ .null ∧
      (d.sockets i).lskt = d.sktReq.lskt ∧ d.sees i) = none ∨
    ∃ i, l.find? (fun i => (d.sockets i).state ≠ .null ∧
      (d.sockets i).lskt = d.sktReq.lskt ∧ d.sees i) = some i ∧
      getSktFrom l d = sktOper d.sktReq.state d i := by
  induction l with
  | nil => exact Or.inl ⟨rfl, rfl⟩
  | cons i rest inductionHypothesis =>
    rw [List.find?_cons]
    unfold getSktFrom
    by_cases fits : (d.sockets i).state ≠ .null ∧ (d.sockets i).lskt = d.sktReq.lskt
    · rw [if_pos fits]
      simp only
      cases met : (sktOper d.sktReq.state d i).2 with
      | true =>
        rw [decide_eq_true ⟨fits.1, fits.2, (sktOper_sees i).symm.trans met⟩]
        exact Or.inr ⟨i, rfl, rfl⟩
      | false =>
        rw [decide_eq_false fun all => absurd ((sktOper_sees i).trans all.2.2) (by rw [met]; decide),
          sktOper_unmet met]
        exact inductionHypothesis
    · rw [if_neg fits, decide_eq_false fun all => fits ⟨all.1, all.2.1⟩]
      exact inductionHypothesis

theorem getSkt_cases :
    d.found = none ∧ d.getSkt = d.soUnm ∨
    ∃ i, d.found = some i ∧ Meets d i ∧ d.getSkt = (sktOper d.sktReq.state d i).1 := by
  unfold getSkt
  rcases getSktFrom_cases (d := d) (List.finRange nsockets) with ⟨same, none⟩ | ⟨i, isFound, same⟩
  · refine Or.inl ⟨none, ?_⟩
    rw [same]
    rfl
  · have meets := found_meets isFound
    refine Or.inr ⟨i, isFound, meets, ?_⟩
    simp only
    rw [same, if_pos meets.2.2]

/-! ### A request of the daemon -/

/-- The permission for a general listen to adopt the queued request that meets it. -/
def Listens (g : Guards) (d : Daemon) : Prop :=
  ∀ i, d.sktReq.state = .glsn → d.sktReq.sinx ≠ .icp → d.found = some i →
    g.adopt (d.filled i).board i (d.filled i).sktReq

section Ask

variable {f : FileNo}

theorem asks_meets {i : SktNo} (asks : Asks d.board d.sktReq f) (meets : Meets d i) :
    (d.sockets i).state = .q ∧
      (d.sktReq.state = .glsn ∧ sktOper d.sktReq.state d i = d.glsnQ i ∨
        d.sktReq.state ≠ .glsn ∧ sktOper d.sktReq.state d i = d.lsintQ i) := by
  have met := meets.2.2
  have queued : (d.sockets i).state = .q := by
    by_contra notQ
    have unmet : (sktOper d.sktReq.state d i).2 = false := by
      unfold sktOper
      rcases asks.op with op | op | op <;> rw [op] <;> split <;> first | rfl | contradiction
    exact absurd (met.symm.trans unmet) (by decide)
  refine ⟨queued, ?_⟩
  unfold sktOper
  rw [queued]
  rcases asks.op with op | op | op <;> rw [op]
  · exact Or.inl ⟨rfl, rfl⟩
  · exact Or.inr ⟨SktOp.noConfusion, rfl⟩
  · exact Or.inr ⟨SktOp.noConfusion, rfl⟩

theorem getSkt_asks (ok : d.board.Ok) (asks : Asks d.board d.sktReq f)
    (fresh : Fresh d.board d.sktReq) (link : g.link d.sktReq) (listens : Listens g d)
    (command : d.sktReq.state ≠ .glsn → g.command d.ncp.host d.sktReq.hlHost) :
    Moves g d.board d.getSkt.board := by
  rcases getSkt_cases (d := d) with ⟨-, unmet⟩ | ⟨i, isFound, meets, met⟩
  · rw [unmet]
    exact soUnm_moves asks fresh link command
  · rw [met]
    obtain ⟨queued, ⟨op, isOper⟩ | ⟨op, isOper⟩⟩ := asks_meets asks meets
    · rw [isOper]
      exact glsnQ_moves ok asks op queued meets.2.1 fun data _ => listens i op data isFound
    · rw [isOper]
      exact lsintQ_moves ok asks queued meets.2.1 (fun _ => fresh) (fun isGlsn => absurd isGlsn op)
        (command op)

theorem getSkt_kept {i : SktNo} (asks : Asks d.board d.sktReq f) (op : d.sktReq.state ≠ .glsn)
    (used : (d.sockets i).state ≠ .null) (notQ : (d.sockets i).state ≠ .q) :
    (d.getSkt.sockets i).cell = (d.sockets i).cell ∧ d.getSkt.ncp.host = d.ncp.host := by
  rcases getSkt_cases (d := d) with ⟨-, unmet⟩ | ⟨j, -, meets, met⟩
  · rw [unmet]
    cases found : d.nullSkt with
    | none =>
      rw [soUnm_none found asks]
      exact ⟨rfl, rfl⟩
    | some j =>
      have apart : i ≠ j := by
        intro same
        rw [same] at used
        exact used (nullSkt_some found)
      have listens : ((d.listened j).sockets i).cell = (d.sockets i).cell ∧
          (d.listened j).ncp.host = d.ncp.host := by
        have board := congrArg (fun b => b.cells i) (listened_board (i := j) asks.filep)
        exact ⟨board.trans (setCell_other apart d.sktReq.cell),
          congrArg Ncp.host (listened_rest asks.filep).1⟩
      rw [soUnm_some found asks]
      split
      next => exact listens
      next => exact listens
  · rw [met]
    obtain ⟨queued, ⟨isGlsn, -⟩ | ⟨-, isOper⟩⟩ := asks_meets asks meets
    · exact absurd isGlsn op
    · have apart : i ≠ j := by
        intro same
        rw [same] at notQ
        exact notQ queued
      have isMatch : d.soMatch j = true := by
        rw [← lsintQ_met, ← isOper]
        exact meets.2.2
      have opened : (d.lsintQ j).1 = (d.adopted j).fiSopn j := by
        unfold lsintQ
        rw [if_pos isMatch]
        rfl
      have board := congrArg (fun b => b.cells i) (adopt_board (d := d) (i := j) asks.filep)
      rw [isOper, opened, (fiSopn_frame j).1, (fiSopn_frame j).2]
      exact ⟨board.trans (setCell_other apart ((d.board.cells j).adopt d.sktReq)),
        adopted_host asks.filep⟩

theorem getSkt_asked (asks : Asks d.board d.sktReq f) (isFp : d.fp = f)
    (data : d.sktReq.sinx ≠ .icp)
    (more : (d.board.entries f).nsatt + 1 ≠ (d.board.entries f).nsrsrv) :
    Asked d d.sktReq f d.getSkt := by
  rcases getSkt_cases (d := d) with ⟨-, unmet⟩ | ⟨i, isFound, meets, met⟩
  · rw [unmet]
    exact soUnm_asked asks isFp
  · have isMet := meets.2.2
    rw [met]
    obtain ⟨queued, ⟨op, isOper⟩ | ⟨op, isOper⟩⟩ := asks_meets asks meets
    · rw [isOper] at isMet ⊢
      exact glsnQ_asked asks op isMet data more
    · rw [isOper] at isMet ⊢
      exact lsintQ_asked asks (lsintQ_met.symm.trans isMet) data more

end Ask

/-! ### A request of a foreign host -/

/-- The permission for a general listen to be met by a request of a foreign host, and for such a
request to be queued. -/
structure Receives (g : Guards) (d : Daemon) : Prop where
  opens : ∀ i, (d.sockets i).state = .glsn → (d.sockets i).sinx ≠ .icp → d.found = some i →
    g.opens (d.board.net { d.ncp with host := d.sktReq.hlHost.toNat }) i d.sktReq
  offer : d.found = none → (∃ i, (d.sockets i).state = .null) → g.offer d.board d.sktReq

section Offer

variable {i : SktNo}

theorem rfcUtil_board (isMatch : d.soMatch i = true) :
    (d.rfcUtil i).1.board =
      (d.board.setCell i ((d.board.cells i).open d.sktReq)).marks i [.state .opened] := by
  obtain ⟨host, fskt⟩ := soMatch_iff.mp isMatch
  unfold rfcUtil
  rw [if_pos isMatch]
  simp only
  rw [board_toState, board_setSkt, Board.setCell_setCell, setSkt_self]
  have cell : ({ (if isSend d.sktReq.lskt then { d.sockets i with hlLink := d.sktReq.hlLink } else
      { d.sockets i with bysz := d.sktReq.bysz } : Socket).cell with state := .opened } : Cell) =
      (d.board.cells i).open d.sktReq := by
    show _ = (d.sockets i).cell.open d.sktReq
    unfold Cell.open
    rw [host, fskt]
    by_cases send : isSend d.sktReq.lskt = true
    · rw [if_pos send, if_pos send]
      rfl
    · rw [if_neg send, if_neg send]
      rfl
  rw [cell]

theorem listens_phase {b : Board} (ok : b.Ok) (listening : (b.cells i).state.listening = true) :
    ∃ f, (b.cells i).filep = some f ∧
      ((b.cells i).sinx = .icp → (b.entries f).state = .uiopw ∨ (b.entries f).state = .siopw) ∧
      ((b.cells i).sinx ≠ .icp → (b.entries f).state = .dopnw) := by
  have used : (b.cells i).state ≠ .null ∧ (b.cells i).state ≠ .q := by
    constructor <;> intro isState <;> rw [isState] at listening <;> cases listening
  cases file : (b.cells i).filep with
  | none => exact absurd ((ok.queued i used.1).mpr file) used.2
  | some f =>
    have fits := ok.fits i f used.1 file
    refine ⟨f, rfl, fun icp => ?_, fun data => fits.data data listening⟩
    cases state : (b.cells i).state with
    | glsn => exact Or.inr (fits.server icp state)
    | slsn => exact absurd state (fits.noSlsn icp)
    | rfcw => exact Or.inl (fits.user icp state).1
    | _ =>
      rw [state] at listening
      cases listening

theorem opened_moves {b : Board} {r : Request} (ok : b.Ok)
    (board : d.board = (b.setCell i ((b.cells i).open r)).marks i [.state .opened])
    (offers : Offers r) (listening : (b.cells i).state.listening = true)
    (lskt : (b.cells i).lskt = r.lskt)
    (exactly : (b.cells i).state ≠ .glsn → r.hlHost = (b.cells i).hlHost ∧ r.fskt = (b.cells i).fskt)
    (wildly : glMatch (b.cells i).hlHost (b.cells i).fskt r.hlHost r.fskt = true)
    (opens : (b.cells i).state = .glsn → (b.cells i).sinx ≠ .icp → g.opens b i r)
    (command : g.command b.ncp.host r.hlHost) :
    Moves g b (d.fiSopn i).board ∧ Moves g b ((d.hwRfc i).fiSopn i).board := by
  have move : Move g b d.board := by
    rw [board]
    exact .opens i r offers listening lskt exactly wildly opens
  have cell : (d.sockets i).cell = (b.cells i).open r := by
    have same := congrArg (fun b => b.cells i) board
    exact same.trans (setCell_self i _)
  have files : ∀ f, (d.files f).entry = b.entries f := fun f =>
    congrArg (fun b => b.entries f) board
  have host : d.ncp.host = b.ncp.host := congrArg (fun b => b.ncp.host) board
  have state : (d.sockets i).state = .opened := congrArg Cell.state cell
  have command : g.command d.ncp.host (d.sockets i).hlHost := by
    have hostI : (d.sockets i).hlHost = r.hlHost := congrArg Cell.hlHost cell
    rw [host, hostI]
    exact command
  obtain ⟨f, filep, icp, data⟩ := listens_phase ok listening
  have filepD : (d.sockets i).filep = some f := (congrArg Cell.filep cell).trans filep
  have sinx : (d.sockets i).sinx = (b.cells i).sinx := congrArg Cell.sinx cell
  have stateF : (d.files f).state = (b.entries f).state := congrArg Entry.state (files f)
  rw [← sinx, ← stateF] at icp data
  have used : (d.sockets i).state ≠ .null := by
    rw [state]
    decide
  have first : Moves g b d.board := .single move
  have told : Moves g b (d.hwRfc i).board := first.tail (hwRfc_moves used command)
  exact ⟨first.trans (fiSopn_moves (move.ok ok) state filepD icp data command),
    told.trans (fiSopn_moves (d := d.hwRfc i) (told.ok ok) state filepD icp data command)⟩

theorem glMatch_exact (host : BitVec 8) (fskt : BitVec 32) : glMatch host fskt host fskt = true := by
  simp [glMatch]

theorem rfcGlsn_moves (ok : d.board.Ok) (offers : Offers d.sktReq) (state : (d.sockets i).state = .glsn)
    (lskt : (d.sockets i).lskt = d.sktReq.lskt)
    (opens : (d.sockets i).sinx ≠ .icp →
      g.opens (d.board.net { d.ncp with host := d.sktReq.hlHost.toNat }) i d.sktReq) :
    Moves g d.board (d.rfcGlsn i).1.board := by
  unfold rfcGlsn
  simp only
  split
  next wild =>
    have turned : Move g d.board (d.board.net { d.ncp with host := d.sktReq.hlHost.toNat }) :=
      .turn _ (g.byte _)
    have own := g.own _ (g.byte d.sktReq.hlHost)
    rw [BitVec.ofNat_toNat, BitVec.setWidth_eq] at own
    have self : (d.wildly i).board.cells i =
        { d.board.cells i with hlHost := d.sktReq.hlHost, fskt := d.sktReq.fskt } :=
      congrArg Socket.cell
        (setSkt_self i fun s => { s with hlHost := d.sktReq.hlHost, fskt := d.sktReq.fskt })
    have filled : (d.wildly i).board =
        (d.board.setCell i { d.board.cells i with
          hlHost := d.sktReq.hlHost, fskt := d.sktReq.fskt }).net
            { d.ncp with host := d.sktReq.hlHost.toNat } :=
      congrArg (fun b => Board.net b { d.ncp with host := d.sktReq.hlHost.toNat })
        (board_setSkt i fun s => { s with hlHost := d.sktReq.hlHost, fskt := d.sktReq.fskt })
    have board : ((d.wildly i).rfcUtil i).1.board =
        ((d.board.net { d.ncp with host := d.sktReq.hlHost.toNat }).setCell i
          ((d.board.cells i).open d.sktReq)).marks i [.state .opened] := by
      have opened := rfcUtil_board (d := d.wildly i) wildly_match
      rw [self, filled, Board.net_setCell, Board.setCell_setCell] at opened
      exact opened
    have listening : (d.board.cells i).state.listening = true := by
      show (d.sockets i).state.listening = true
      rw [state]
      rfl
    have opened := opened_moves (g := g) (turned.ok ok) board offers listening lskt
      (fun notGlsn => absurd state notGlsn) wild (fun _ data => opens data) own
    have isSlsn : (d.wildly i).rfcSlsn i = ((((d.wildly i).rfcUtil i).1.hwRfc i).fiSopn i, true) := by
      unfold rfcSlsn
      simp only
      rw [rfcUtil_met, if_pos wildly_match]
    show Moves g d.board ((d.wildly i).rfcSlsn i).1.board
    rw [isSlsn]
    exact (Relation.ReflTransGen.single turned).trans opened.2
  next => exact .refl

theorem rfcExact_moves (ok : d.board.Ok) (offers : Offers d.sktReq)
    (state : (d.sockets i).state = .slsn ∨ (d.sockets i).state = .rfcw)
    (lskt : (d.sockets i).lskt = d.sktReq.lskt) (isMatch : d.soMatch i = true)
    (command : g.command d.ncp.host d.sktReq.hlHost) :
    Moves g d.board ((d.rfcUtil i).1.fiSopn i).board ∧
      Moves g d.board (((d.rfcUtil i).1.hwRfc i).fiSopn i).board := by
  obtain ⟨host, fskt⟩ := soMatch_iff.mp isMatch
  have listening : (d.board.cells i).state.listening = true := by
    show (d.sockets i).state.listening = true
    rcases state with isState | isState <;> rw [isState] <;> rfl
  have notGlsn : (d.board.cells i).state ≠ .glsn := by
    show (d.sockets i).state ≠ .glsn
    rcases state with isState | isState <;> rw [isState] <;> decide
  have wild : glMatch (d.board.cells i).hlHost (d.board.cells i).fskt d.sktReq.hlHost d.sktReq.fskt =
      true := by
    rw [host, fskt]
    exact glMatch_exact _ _
  exact opened_moves ok (rfcUtil_board isMatch) offers listening lskt (fun _ => ⟨host, fskt⟩) wild
    (fun isGlsn => absurd isGlsn notGlsn) command

theorem rfc_moves (ok : d.board.Ok) (offers : Offers d.sktReq) (isFound : d.found = some i)
    (receives : Receives g d) (command : g.command d.ncp.host d.sktReq.hlHost) :
    Moves g d.board (sktOper d.sktReq.state d i).1.board := by
  have meets := found_meets isFound
  have met := meets.2.2
  have lskt := meets.2.1
  have glsn := receives.opens i
  rw [offers.op] at met ⊢
  unfold sktOper at met ⊢
  cases state : (d.sockets i).state <;> rw [state] at met
  · exact rfcGlsn_moves ok offers state lskt fun data => glsn state data isFound
  · have isMatch : d.soMatch i = true := rfcSlsn_met.symm.trans met
    have isSlsn : d.rfcSlsn i = (((d.rfcUtil i).1.hwRfc i).fiSopn i, true) := by
      unfold rfcSlsn
      simp only
      rw [rfcUtil_met, if_pos isMatch]
    show Moves g d.board (d.rfcSlsn i).1.board
    rw [isSlsn]
    exact (rfcExact_moves ok offers (Or.inl state) lskt isMatch command).2
  · have isMatch : d.soMatch i = true := by
      by_contra noMatch
      change (d.rfcRfcw i).2 = true at met
      unfold rfcRfcw at met
      rw [rfcUtil_unmet (Bool.not_eq_true _ ▸ noMatch)] at met
      exact absurd met Bool.false_ne_true
    have isRfcw : d.rfcRfcw i = ((d.rfcUtil i).1.fiSopn i, true) := by
      unfold rfcRfcw
      simp only
      rw [rfcUtil_met, if_pos isMatch]
    show Moves g d.board (d.rfcRfcw i).1.board
    rw [isRfcw]
    exact (rfcExact_moves ok offers (Or.inr state) lskt isMatch command).1

end Offer

theorem getSkt_offers (ok : d.board.Ok) (offers : Offers d.sktReq) (receives : Receives g d)
    (command : g.command d.ncp.host d.sktReq.hlHost) : Moves g d.board d.getSkt.board := by
  rcases getSkt_cases (d := d) with ⟨none, unmet⟩ | ⟨i, isFound, meets, met⟩
  · rw [unmet]
    have isUrfc : d.soUnm = d.soUrfc.1 := by
      unfold soUnm
      rw [offers.op]
    rw [isUrfc]
    cases found : d.nullSkt with
    | none =>
      rw [soUrfc_none found]
      refine .single (.fail d.sktReq (nullSkt_none found) fun f filep => ?_)
      exact absurd (offers.filep.symm.trans filep).symm (Option.some_ne_none f)
    | some i =>
      rw [soUrfc_offer found offers.op]
      have free := nullSkt_some found
      have move := Move.offer (g := g) i d.sktReq offers free (receives.offer none ⟨i, free⟩)
      rw [← created_board] at move
      exact .single move
  · rw [met]
    exact rfc_moves ok offers isFound receives command

theorem getSkt_cls (ok : d.board.Ok) (op : d.sktReq.state = .cls)
    (command : g.command d.ncp.host d.sktReq.hlHost)
    (mates : ∀ i, Meets d i → Mates g d.board i) : Moves g d.board d.getSkt.board := by
  rcases getSkt_cases (d := d) with ⟨-, unmet⟩ | ⟨i, isFound, meets, met⟩
  · rw [unmet]
    unfold soUnm
    rw [op]
  · rw [met]
    refine cls_moves ok op (fun isMatch => ?_) fun _ => mates i meets
    rw [← (soMatch_iff.mp isMatch).1]
    exact command

end Daemon

end NetworkUnix.Ncpd
