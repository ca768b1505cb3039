/-
This file shows that the routines that close a socket are paths of moves: the
kill, the close of the kernel, the timeout, a dead host and a close of the foreign
host. A struct is given back after its file has been told; on the board it may as
well be given back right after the other data socket has been killed, which is the
order of the moves.
-/

import NetworkUnix.Ncpd.Board

namespace NetworkUnix.Ncpd

open Function

namespace Daemon

variable {g : Guards} {d : Daemon}

/-! ### The board after an assignment -/

theorem board_setSkt (i : SktNo) (change : Socket → Socket) :
    (d.setSkt i change).board = d.board.setCell i (change (d.sockets i)).cell := by
  unfold board Board.setCell setSkt
  rw [Board.mk.injEq]
  refine ⟨?_, rfl, rfl, rfl, rfl, rfl, rfl, rfl, rfl, rfl⟩
  exact Table.apply_update d.sockets Socket.cell i _

theorem board_setFile (f : FileNo) (change : File → File) :
    (d.setFile f change).board = d.board.setEntry f (change (d.files f)).entry := by
  unfold board Board.setEntry setFile
  rw [Board.mk.injEq]
  refine ⟨rfl, ?_, rfl, rfl, rfl, rfl, rfl, rfl, rfl, rfl⟩
  exact Table.apply_update d.files File.entry f _

theorem board_setSkt_same (i : SktNo) (change : Socket → Socket)
    (same : (change (d.sockets i)).cell = (d.sockets i).cell) :
    (d.setSkt i change).board = d.board := by
  rw [board_setSkt, same]
  unfold Board.setCell
  have self : Function.update d.board.cells i (d.sockets i).cell = d.board.cells :=
    update_eq_self i d.board.cells
  rw [self]

theorem board_setFile_same (f : FileNo) (change : File → File)
    (same : (change (d.files f)).entry = (d.files f).entry) :
    (d.setFile f change).board = d.board := by
  rw [board_setFile, same]
  unfold Board.setEntry
  have self : Function.update d.board.entries f (d.files f).entry = d.board.entries :=
    update_eq_self f d.board.entries
  rw [self]

end Daemon

namespace Board

variable {b : Board}

/-! ### Assignments one after another -/

@[simp] theorem marks_marks (i : SktNo) (first second : List Mark) :
    (b.marks i first).marks i second = b.marks i (first ++ second) := by
  have joined : Function.update (Function.update b.life i (b.life i ++ first)) i
      (Function.update b.life i (b.life i ++ first) i ++ second) =
      Function.update b.life i (b.life i ++ (first ++ second)) := by
    rw [update_idem, update_self, List.append_assoc]
  exact congrArg (fun life => ({ b with life := life } : Board)) joined

theorem marks_nil (i : SktNo) : b.marks i [] = b := by
  unfold marks
  rw [List.append_nil, update_eq_self]

@[simp] theorem setCell_setCell (i : SktNo) (c c' : Cell) :
    (b.setCell i c).setCell i c' = b.setCell i c' :=
  congrArg (fun cells => ({ b with cells := cells } : Board)) (update_idem _ _ _)

@[simp] theorem setEntry_setEntry (f : FileNo) (e e' : Entry) :
    (b.setEntry f e).setEntry f e' = b.setEntry f e' :=
  congrArg (fun entries => ({ b with entries := entries } : Board)) (update_idem _ _ _)

@[simp] theorem marks_setCell (i j : SktNo) (ms : List Mark) (c : Cell) :
    (b.marks i ms).setCell j c = (b.setCell j c).marks i ms := rfl

@[simp] theorem net_setCell (i : SktNo) (c : Cell) (ncp : Ncp) :
    (b.net ncp).setCell i c = (b.setCell i c).net ncp := rfl

@[simp] theorem net_marks (i : SktNo) (ms : List Mark) (ncp : Ncp) :
    (b.net ncp).marks i ms = (b.marks i ms).net ncp := rfl

@[simp] theorem setEntry_setCell (f : FileNo) (e : Entry) (i : SktNo) (c : Cell) :
    (b.setEntry f e).setCell i c = (b.setCell i c).setEntry f e := rfl

theorem marks_comm {i j : SktNo} (apart : i ≠ j) (first second : List Mark) :
    (b.marks i first).marks j second = (b.marks j second).marks i first := by
  have swapped : Function.update (Function.update b.life i (b.life i ++ first)) j
      (Function.update b.life i (b.life i ++ first) j ++ second) =
      Function.update (Function.update b.life j (b.life j ++ second)) i
        (Function.update b.life j (b.life j ++ second) i ++ first) := by
    rw [update_of_ne apart.symm, update_of_ne apart,
      update_comm apart]
  exact congrArg (fun life => ({ b with life := life } : Board)) swapped

end Board

namespace Daemon

variable {g : Guards} {d : Daemon}

theorem board_toState (i : SktNo) (st : SktState) :
    (d.toState i st).board =
      (d.board.setCell i { (d.sockets i).cell with state := st }).marks i [.state st] :=
  congrArg (fun b => b.marks i [.state st]) (board_setSkt i fun s => { s with state := st })

theorem board_toClow (i : SktNo) :
    (d.toClow i).board =
      (d.board.setCell i ⟨0, 0, 0, 0, .clow, (d.sockets i).filep, (d.sockets i).sinx⟩).marks i
        [.state .clow] := by
  have state : (d.toState i .clow).sockets i = { d.sockets i with state := .clow } :=
    update_self _ _ _
  unfold toClow
  rw [board_setSkt, board_toState, state, Board.marks_setCell, Board.setCell_setCell]
  rfl

theorem board_stimeoutSkt (i : SktNo) : (d.stimeoutSkt i).board = d.board :=
  board_setSkt_same i (fun s => { s with timeo := d.clock + stimeout }) rfl

theorem board_hwFrom (i : SktNo) (cmd : Cmd) (m : Nat → BitVec 8 → Mark) :
    (d.hwFrom i cmd m).board =
      (d.board.marks i [m d.ncp.host (d.sockets i).hlHost]).net (Ncpd.qupPro d.ncp cmd) := rfl

theorem board_kwClean (i : SktNo) : (d.kwClean i).board = d.board.marks i [.clean] := rfl

/-! ### A kill that does not free -/

/-- A socket is killed, or it is left alone because it does not listen and is not live. -/
def Killed (g : Guards) (b : Board) (i : SktNo) (next : Board) : Prop :=
  (b.cells i).state.listening = false ∧ next = b ∨
  ∃ ms c ncp, Closes (.cls b.ncp.host (b.cells i).hlHost) (b.cells i).state ms c.state ∧
    (b.cells i).Closing c ∧ Sent b.ncp ncp ∧
    (.cls b.ncp.host (b.cells i).hlHost ∈ ms → g.command b.ncp.host (b.cells i).hlHost) ∧
    next = ((b.setCell i c).marks i (ms ++ [.state c.state])).net ncp

variable {b : Board}

theorem Killed.moves {next : Board} {i : SktNo} (killed : Killed g b i next) : Moves g b next := by
  rcases killed with ⟨-, rfl⟩ | ⟨ms, c, ncp, closes, closing, sent, ok, rfl⟩
  · exact .refl
  · exact .single (.close i ms c ncp closes closing sent ok)

theorem soUt1_board (i : SktNo) :
    (d.soUt1 i).board =
      (d.board.setCell i ⟨0, 0, 0, 0, .clow, (d.sockets i).filep, (d.sockets i).sinx⟩).marks i
        [.clean, .state .clow] := by
  unfold soUt1
  rw [board_toClow, board_kwClean, Board.marks_setCell, Board.marks_marks]
  rfl

theorem soUt3_board (i : SktNo) :
    (d.soUt3 i).board =
      ((d.board.setCell i { (d.sockets i).cell with state := .cacw }).marks i
        [.cls d.ncp.host (d.sockets i).hlHost, .clean, .state .cacw]).net
          (Ncpd.qupPro d.ncp (clsOf (d.sockets i))) := by
  unfold soUt3 hwCls
  rw [board_toState, board_kwClean, board_hwFrom]
  simp only [Board.net_marks, Board.net_setCell, Board.marks_setCell, Board.marks_marks]
  rfl

theorem toState_board_of {ms : List Mark} {ncp : Ncp} (i : SktNo) (st : SktState)
    (before : d.board = (b.marks i ms).net ncp) :
    (d.toState i st).board =
      ((b.setCell i { b.cells i with state := st }).marks i (ms ++ [.state st])).net ncp := by
  have cell : (d.sockets i).cell = b.cells i := congrArg (fun b => b.cells i) before
  rw [board_toState, before, cell, Board.net_setCell, Board.marks_setCell, Board.net_marks,
    Board.marks_marks]

theorem toClow_board_of {ms : List Mark} {ncp : Ncp} (i : SktNo)
    (before : d.board = (b.marks i ms).net ncp) :
    (d.toClow i).board =
      ((b.setCell i ⟨0, 0, 0, 0, .clow, (b.cells i).filep, (b.cells i).sinx⟩).marks i
        (ms ++ [.state .clow])).net ncp := by
  have cell : (d.sockets i).cell = b.cells i := congrArg (fun b => b.cells i) before
  have filep : (d.sockets i).filep = (b.cells i).filep := congrArg Cell.filep cell
  have sinx : (d.sockets i).sinx = (b.cells i).sinx := congrArg Cell.sinx cell
  rw [board_toClow, before, filep, sinx, Board.net_setCell, Board.marks_setCell, Board.net_marks,
    Board.marks_marks]

theorem Cell.closing_state (c : Cell) (st : SktState) : c.Closing { c with state := st } :=
  ⟨rfl, rfl, Or.inl ⟨rfl, rfl, rfl, rfl⟩⟩

theorem Cell.closing_clow (c : Cell) : c.Closing ⟨0, 0, 0, 0, .clow, c.filep, c.sinx⟩ :=
  ⟨rfl, rfl, Or.inr ⟨rfl, rfl, rfl, rfl, rfl⟩⟩

theorem killWith_killed (free : SktNo → Daemon → Daemon) (i : SktNo)
    (waits : (d.sockets i).state ≠ .rfnmw)
    (command : (d.sockets i).state.live = true → g.command d.ncp.host (d.sockets i).hlHost) :
    Killed g d.board i (killWith free i d).board := by
  have listens : (d.sockets i).state = .glsn ∨ (d.sockets i).state = .slsn →
      Killed g d.board i (d.soUt1 i).board := by
    intro listens
    refine Or.inr ⟨[.clean], _, d.ncp, .killListen listens, Cell.closing_clow _, Or.inl rfl, ?_,
      soUt1_board i⟩
    intro member
    simp at member
  have live : (d.sockets i).state.live = true → Killed g d.board i (d.soUt3 i).board := by
    intro live
    exact Or.inr ⟨[_, .clean], _, _, .kill live, Cell.closing_state _ _, Or.inr ⟨_, rfl⟩,
      fun _ => command live, soUt3_board i⟩
  unfold killWith
  split
  next isState => exact listens (Or.inl isState)
  next isState => exact listens (Or.inr isState)
  next isState => exact live (by rw [isState]; rfl)
  next isState => exact live (by rw [isState]; rfl)
  next isState => exact live (by rw [isState]; rfl)
  next isState =>
    have matched : Closes (.cls d.ncp.host (d.sockets i).hlHost) (d.sockets i).state [] .c2cw := by
      rw [isState]
      exact .killMatched
    refine Or.inr ⟨[], { (d.sockets i).cell with state := .c2cw }, d.ncp, matched,
      Cell.closing_state _ _, Or.inl rfl, ?_, board_toState i .c2cw⟩
    intro member
    exact absurd member List.not_mem_nil
  next isState => exact absurd isState waits
  next glsn slsn rfcw opened orfnmw _ _ =>
    refine Or.inl ⟨?_, rfl⟩
    show (d.sockets i).state.listening = false
    revert glsn slsn rfcw
    cases (d.sockets i).state <;> simp [SktState.listening]

theorem killWith_fp (free : SktNo → Daemon → Daemon) (i : SktNo)
    (waits : (d.sockets i).state ≠ .rfnmw) : (killWith free i d).fp = d.fp := by
  unfold killWith
  split <;> first | rfl | contradiction

/-! ### A file is released -/

theorem setFile_self (f : FileNo) (change : File → File) :
    (d.setFile f change).files f = change (d.files f) := update_self _ _ _

theorem setFile_other {f h : FileNo} (apart : h ≠ f) (change : File → File) :
    (d.setFile f change).files h = d.files h := update_of_ne apart _ _

theorem setSkt_self (i : SktNo) (change : Socket → Socket) :
    (d.setSkt i change).sockets i = change (d.sockets i) := update_self _ _ _

theorem released_file (h : FileNo) :
    (((d.setFile d.fp fun f => { f with state := .null, timeo := 0 }).files h).state ≠ .null ↔
      (d.files h).state ≠ .null ∧ h ≠ d.fp) ∧
    ((d.setFile d.fp fun f => { f with state := .null, timeo := 0 }).files h).sbase =
      (d.files h).sbase := by
  by_cases here : h = d.fp
  · subst here
    rw [setFile_self]
    exact ⟨⟨fun isUsed => absurd rfl isUsed, fun both => absurd rfl both.2⟩, rfl⟩
  · rw [setFile_other here]
    exact ⟨⟨fun used => ⟨used, here⟩, fun both => both.1⟩, rfl⟩

theorem fRlse_board {f : FileNo} (isFp : d.fp = f) :
    ∃ map, d.board.Released f map ∧ d.fRlse.board = d.board.release f map := by
  subst isFp
  have released : ∀ map, { (d.setFile d.fp fun f => { f with state := .null, timeo := 0 }).board with
      nsLeft := d.nsLeft + (d.files d.fp).nsrsrv, nfLeft := d.nfLeft + 1, sktMap := map } =
      d.board.release d.fp map := by
    intro map
    rw [board_setFile]
    rfl
  unfold fRlse
  simp only
  split
  next based =>
    split
    next shared =>
      refine ⟨d.sktMap, Or.inl ⟨rfl, ?_⟩, released d.sktMap⟩
      obtain ⟨h, used, same⟩ := shared
      have usedH := (released_file h).1.mp used
      exact ⟨h, usedH.2, usedH.1, (released_file h).2.symm.trans same⟩
    next alone =>
      unfold rlsSktn
      split
      next within =>
        refine ⟨_, Or.inr (Or.inr ⟨_, if_pos within, rfl, ?_⟩), released _⟩
        intro h apart used same
        exact alone ⟨h, (released_file h).1.mpr ⟨used, apart⟩, (released_file h).2.trans same⟩
      next outside =>
        exact ⟨d.sktMap, Or.inr (Or.inl ⟨rfl, if_neg outside⟩), released _⟩
  next zero =>
    refine ⟨d.sktMap, Or.inr (Or.inl ⟨rfl, ?_⟩), released _⟩
    have isZero : (d.files d.fp).sbase = 0 := not_not.mp zero
    show groupOf (d.files d.fp).sbase = none
    rw [isZero]
    decide

end Daemon

/-- A file that has lost its last socket may have been released. -/
def Board.Relieved (b : Board) (f : FileNo) (next : Board) : Prop :=
  next = b ∨ (b.entries f).nsatt = 0 ∧ ∃ map, b.Released f map ∧ next = b.release f map

/-- A struct is given back. -/
def Board.toss (b : Board) (i : SktNo) : Board :=
  ((b.left (b.nsLeft + 1)).setCell i { b.cells i with state := .null }).marks i [.state .null]

theorem Board.toss_marks (b : Board) (i : SktNo) (ms : List Mark) :
    (b.marks i ms).toss i =
      ((b.setCell i { b.cells i with state := .null }).marks i (ms ++ [.state .null])).left
        (b.nsLeft + 1) :=
  Board.marks_marks (b := (b.setCell i { b.cells i with state := .null }).left (b.nsLeft + 1)) i ms
    [.state .null]

theorem Board.release_toss (b : Board) (i : SktNo) (f : FileNo) (map : Nat → Bool) :
    (b.release f map).toss i = (b.toss i).release f map := by
  have sum : b.nsLeft + (b.entries f).nsrsrv + 1 = b.nsLeft + 1 + (b.entries f).nsrsrv := by omega
  unfold release toss left setCell setEntry marks
  simp only [sum]

variable {next : Board}

theorem Board.Relieved.toss {b : Board} {f : FileNo} (relieved : b.Relieved f next) (i : SktNo) :
    (b.toss i).Relieved f (next.toss i) := by
  rcases relieved with rfl | ⟨empty, map, released, rfl⟩
  · exact Or.inl rfl
  · exact Or.inr ⟨empty, map, released, Board.release_toss b i f map⟩

theorem Daemon.Killed.back {g : Guards} {b : Board} {i j : SktNo} {f : FileNo} {e : Entry}
    {ms : List Mark} (apart : i ≠ j)
    (killed : Daemon.Killed g ((b.marks i ms).setEntry f e) j next) :
    ∃ mid, Daemon.Killed g b j mid ∧ next = (mid.marks i ms).setEntry f e := by
  rcases killed with ⟨quiet, rfl⟩ | ⟨ms', c, ncp, closes, closing, sent, ok, rfl⟩
  · exact ⟨b, Or.inl ⟨quiet, rfl⟩, rfl⟩
  · refine ⟨_, Or.inr ⟨ms', c, ncp, closes, closing, sent, ok, rfl⟩, ?_⟩
    have swapped := Board.marks_comm (b := (b.setCell j c).setEntry f e) apart ms
      (ms' ++ [.state c.state])
    exact congrArg (fun b => b.net ncp) swapped

theorem Daemon.Killed.after {g : Guards} {b : Board} {j : SktNo}
    (killed : Daemon.Killed g b j next) :
    (next.cells j).state.listening = false ∧ (∀ i, i ≠ j → next.cells i = b.cells i) ∧
      next.entries = b.entries ∧ next.ncp.host = b.ncp.host := by
  rcases killed with ⟨quiet, rfl⟩ | ⟨ms, c, ncp, closes, -, sent, -, rfl⟩
  · exact ⟨quiet, fun _ _ => rfl, rfl, rfl⟩
  · refine ⟨?_, fun i apart => setCell_other apart c, rfl, sent.host⟩
    show ((b.setCell j c).cells j).state.listening = false
    rw [setCell_self]
    exact closes.states.2.2.2.2.1

namespace Daemon

variable {g : Guards} {d : Daemon}

variable {f : FileNo} {b : Board} {x : SktIndex} {i : SktNo} {ms : List Mark}

theorem goneChk_board (isFp : d.fp = f) :
    d.board.Relieved f (goneChk f d).board := by
  unfold goneChk
  split
  next empty => exact Or.inr ⟨empty, fRlse_board isFp⟩
  next => exact Or.inl rfl

/-- What a file does when one of its sockets is gone: on the board, the other data socket has been
killed first. -/
def Gone (g : Guards) (b : Board) (i : SktNo) (f : FileNo) (ms : List Mark) (next : Board) : Prop :=
  ∃ mid, (mid = b ∨ ∃ j, (b.cells i).sinx ≠ .icp ∧ i ≠ j ∧
      (b.entries f).sktX (b.cells i).sinx.other = some j ∧ Killed g b j mid) ∧
    ((b.cells i).sinx ≠ .icp → ∀ j, (b.entries f).sktX (b.cells i).sinx.other = some j →
      (mid.cells j).state.listening = false) ∧
    ((mid.setEntry f ((b.entries f).giveBack (b.cells i).sinx)).marks i ms).Relieved f next

/-- The kill of the other data socket may need the permission for a command. -/
def Mates (g : Guards) (b : Board) (i : SktNo) : Prop :=
  ∀ f j, (b.cells i).filep = some f → (b.cells i).sinx ≠ .icp →
    ((b.entries f).state = .dopnw ∨ (b.entries f).state = .opened) →
    (b.entries f).sktX (b.cells i).sinx.other = some j → (b.cells j).state.live = true →
    g.command b.ncp.host (b.cells j).hlHost

theorem Entry.giveBack_icp (e : Entry) : e.giveBack .icp = e.detach .icp := by
  have same : e.state.gone .icp = e.state := if_neg fun both => both.1 rfl
  unfold Entry.giveBack
  rw [same]
  rfl

theorem Relieved.released (isFp : d.fp = f) (before : d.board = b)
    (empty : (b.entries f).nsatt = 0) : b.Relieved f d.fRlse.board := by
  subst before
  exact Or.inr ⟨empty, fRlse_board isFp⟩

theorem Relieved.checked (isFp : d.fp = f) (before : d.board = b) :
    b.Relieved f (goneChk f d).board := by
  subst before
  exact goneChk_board isFp

theorem mate_waits (ok : b.Ok) {j : SktNo} (used : (b.entries f).state ≠ .null) (data : x ≠ .icp)
    (there : (b.entries f).sktX x = some j) :
    (b.cells j).state ≠ .rfnmw := by
  obtain ⟨usedJ, filepJ, sinxJ⟩ := ok.listed f x j used there
  intro isWait
  have icp := (ok.fits j f usedJ filepJ).rfnm (by rw [isWait]; rfl)
  exact data (sinxJ.symm.trans icp)

theorem gonew_board {mid : Board} {e : Entry} (isFp : d.fp = f) (data : x ≠ .icp)
    (state : e.state = .dopnw ∨ e.state = .opened)
    (before : d.board = (mid.marks i ms).setEntry f (e.detach x)) :
    ((mid.setEntry f (e.giveBack x)).marks i ms).Relieved f
      (goneChk f (d.setFile f fun f => { f with state := .gonew })).board := by
  refine Relieved.checked (d := d.setFile f fun f => { f with state := .gonew }) isFp ?_
  have entry : (d.files f).entry = e.detach x := by
    have same := congrArg (fun b => b.entries f) before
    exact same.trans (setEntry_self (b := mid.marks i ms) f _)
  have gone : e.state.gone x = .gonew := if_pos ⟨data, state⟩
  rw [board_setFile]
  show d.board.setEntry f { (d.files f).entry with state := .gonew } = _
  rw [entry, before, Board.setEntry_setEntry]
  unfold Entry.giveBack
  rw [gone]
  rfl

theorem SktIndex.other_ne (data : x ≠ .icp) : x.other ≠ x ∧ x.other ≠ .icp := by
  cases x with
  | rcv => exact ⟨by decide, by decide⟩
  | xmit => exact ⟨by decide, by decide⟩
  | icp => exact absurd rfl data

theorem gone_icp {next : Board} (icp : (b.cells i).sinx = .icp)
    (relieved : ((b.marks i ms).setEntry f ((b.entries f).detach (b.cells i).sinx)).Relieved f next) :
    Gone g b i f ms next := by
  refine ⟨b, Or.inl rfl, fun data => absurd icp data, ?_⟩
  rw [icp, Entry.giveBack_icp, ← icp]
  exact relieved

theorem gone_data {next : Board} (ok : b.Ok) (used : (b.entries f).state ≠ .null)
    (data : (b.cells i).sinx ≠ .icp)
    (state : (b.entries f).state ≠ .dopnw ∧ (b.entries f).state ≠ .opened)
    (relieved : ((b.marks i ms).setEntry f ((b.entries f).detach (b.cells i).sinx)).Relieved f next) :
    Gone g b i f ms next := by
  have same : (b.entries f).giveBack (b.cells i).sinx = (b.entries f).detach (b.cells i).sinx := by
    have still : (b.entries f).state.gone (b.cells i).sinx = (b.entries f).state :=
      if_neg fun both => both.2.elim state.1 state.2
    unfold Entry.giveBack
    rw [still]
    rfl
  refine ⟨b, Or.inl rfl, fun _ j there => ?_, ?_⟩
  · obtain ⟨usedJ, filepJ, sinxJ⟩ := ok.listed f _ j used there
    have isData : (b.cells j).sinx ≠ .icp := by
      rw [sinxJ]
      exact (SktIndex.other_ne data).2
    by_contra listens
    exact state.1 ((ok.fits j f usedJ filepJ).data isData (Bool.not_eq_false _ ▸ listens))
  · rw [same]
    exact relieved

theorem gone_killed (ok : b.Ok) (free : SktNo → Daemon → Daemon)
    (used : (b.entries f).state ≠ .null) (isFp : d.fp = f)
    (before : d.board = (b.marks i ms).setEntry f ((b.entries f).detach (b.cells i).sinx))
    (data : (b.cells i).sinx ≠ .icp) (filep : (b.cells i).filep = some f)
    (state : (b.entries f).state = .dopnw ∨ (b.entries f).state = .opened) (mates : Mates g b i) :
    Gone g b i f ms
      (goneChk f ((match (d.files f).sktX (b.cells i).sinx.other with
        | some j => killWith free j d
        | none => d).setFile f fun f => { f with state := .gonew })).board := by
  have other := SktIndex.other_ne data
  have entry : (d.files f).entry = (b.entries f).detach (b.cells i).sinx := by
    have same := congrArg (fun b => b.entries f) before
    exact same.trans (setEntry_self (b := b.marks i ms) f _)
  have table : (d.files f).sktX (b.cells i).sinx.other =
      (b.entries f).sktX (b.cells i).sinx.other :=
    (congrArg (fun e => e.sktX (b.cells i).sinx.other) entry).trans
      (update_of_ne other.1 _ _)
  rw [table]
  cases mate : (b.entries f).sktX (b.cells i).sinx.other with
  | none =>
    refine ⟨b, Or.inl rfl, fun _ j isMate => ?_, gonew_board isFp data state before⟩
    rw [mate] at isMate
    exact absurd isMate.symm (Option.some_ne_none j)
  | some j =>
    obtain ⟨-, -, sinxJ⟩ := ok.listed f _ j used mate
    have apart : i ≠ j := by
      intro same
      rw [← same] at sinxJ
      exact other.1 sinxJ.symm
    have cell : (d.sockets j).cell = b.cells j := congrArg (fun b => b.cells j) before
    have stateJ : (d.sockets j).state = (b.cells j).state := congrArg Cell.state cell
    have hostJ : (d.sockets j).hlHost = (b.cells j).hlHost := congrArg Cell.hlHost cell
    have ncp : d.ncp = b.ncp := congrArg Board.ncp before
    have waits : (d.sockets j).state ≠ .rfnmw := by
      rw [stateJ]
      exact mate_waits ok used other.2 mate
    have killed : Killed g d.board j (killWith free j d).board := by
      refine killWith_killed free j waits fun live => ?_
      rw [stateJ] at live
      rw [ncp, hostJ]
      exact mates f j filep data state mate live
    rw [before] at killed
    obtain ⟨mid, killedMid, isNext⟩ := killed.back apart
    refine ⟨mid, Or.inr ⟨j, data, apart, mate, killedMid⟩, fun _ k isMate => ?_, ?_⟩
    · obtain rfl : j = k := Option.some.inj (mate.symm.trans isMate)
      exact killedMid.after.1
    · exact gonew_board ((killWith_fp free j waits).trans isFp) data state isNext

theorem fiSgone_board (ok : b.Ok) (before : d.board = b.marks i ms)
    (used : (b.cells i).state ≠ .null) (filep : (b.cells i).filep = some f) (mates : Mates g b i)
    (free : SktNo → Daemon → Daemon) :
    Gone g b i f ms (fiSgone (killWith free) i f d).board := by
  obtain ⟨usedF, there⟩ := ok.owned i f used filep
  have sinx : (d.sockets i).sinx = (b.cells i).sinx :=
    congrArg (fun b => (b.cells i).sinx) before
  have entry : (d.files f).entry = b.entries f := congrArg (fun b => b.entries f) before
  have isFp : (({ d with fp := f } : Daemon).setFile f fun f =>
      { f with
        sktX := Function.update f.sktX (b.cells i).sinx none, nsatt := f.nsatt - 1,
        nsrsrv := f.nsrsrv - 1 }).fp = f := rfl
  have board : (({ d with fp := f } : Daemon).setFile f fun f =>
      { f with
        sktX := Function.update f.sktX (b.cells i).sinx none, nsatt := f.nsatt - 1,
        nsrsrv := f.nsrsrv - 1 }).board =
      (b.marks i ms).setEntry f ((b.entries f).detach (b.cells i).sinx) := by
    rw [board_setFile]
    show d.board.setEntry f ((d.files f).entry.detach _) = _
    rw [before, entry]
  unfold fiSgone
  rw [sinx]
  simp only
  revert isFp board
  generalize (({ d with fp := f } : Daemon).setFile f fun f =>
      { f with
        sktX := Function.update f.sktX (b.cells i).sinx none, nsatt := f.nsatt - 1,
        nsrsrv := f.nsrsrv - 1 }) = d
  intro isFp board
  have state : (d.files f).state = (b.entries f).state := by
    have same := congrArg (fun b => (b.entries f).state) board
    have isEntry := setEntry_self (b := b.marks i ms) f ((b.entries f).detach (b.cells i).sinx)
    have isState := congrArg Entry.state isEntry
    exact same.trans isState
  by_cases icp : (b.cells i).sinx = .icp
  · have last : (b.entries f).state.contact = true →
        ((((b.marks i ms).setEntry f ((b.entries f).detach (b.cells i).sinx)).entries f).nsatt) = 0 := by
      intro isContact
      rw [setEntry_self]
      show (b.entries f).nsatt - 1 = 0
      have files := ok.files f usedF
      have count := files.counted
      rw [icp] at there
      unfold sktCount at count
      rw [(files.contact isContact).1, (files.contact isContact).2, there] at count
      simp at count
      omega
    have released : (d.files f).state.contact = true →
        Gone g b i f ms (d.kwRdy (d.files f).id edaeio).fRlse.board := by
      intro isContact
      rw [state] at isContact
      exact gone_icp icp
        (Relieved.released (d := d.kwRdy (d.files f).id edaeio) isFp board (last isContact))
    rw [if_pos icp]
    split
    next isState => exact released (by rw [isState]; rfl)
    next isState => exact released (by rw [isState]; rfl)
    next isState => exact released (by rw [isState]; rfl)
    next isState => exact released (by rw [isState]; rfl)
    next isState => exact released (by rw [isState]; rfl)
    next => exact gone_icp icp (Relieved.checked isFp board)
    next => exact gone_icp icp (Or.inl board)
  · rw [if_neg icp]
    split
    next isState =>
      rw [if_pos isState]
      rw [state] at isState
      exact gone_killed (d := d.kwRdy _ _) ok free usedF isFp board icp filep (Or.inl isState)
        mates
    next isState =>
      have notWait : ¬ (d.files f).state = .dopnw := by
        rw [isState]
        decide
      rw [if_neg notWait]
      rw [state] at isState
      exact gone_killed ok free usedF isFp board icp filep (Or.inr isState) mates
    next isState =>
      rw [state] at isState
      refine gone_data ok usedF icp ?_ (Relieved.checked isFp board)
      rw [isState]
      decide
    next notWait notOpen _ =>
      rw [state] at notWait notOpen
      exact gone_data ok usedF icp ⟨notWait, notOpen⟩ (Or.inl board)

/-! ### A struct is given back -/

theorem sktCount_zero {sktX : SktIndex → Option SktNo} (zero : sktCount sktX = 0) (x : SktIndex) :
    sktX x = none := by
  rw [← Option.not_isSome_iff_eq_none]
  intro isSome
  unfold sktCount at zero
  cases x <;> grind

theorem Relieved.moves {next : Board} (ok : b.Ok) (used : (b.entries f).state ≠ .null)
    (relieved : b.Relieved f next) : Moves g b next := by
  rcases relieved with rfl | ⟨empty, map, released, rfl⟩
  · exact .refl
  · refine .single (.release f map used (sktCount_zero ?_) released)
    rw [← (ok.files f used).counted]
    exact empty

theorem freeSktAt_moves (ok : b.Ok) (before : d.board = b.marks i ms)
    (ends : Ends (.cls b.ncp.host (b.cells i).hlHost) (b.cells i).state ms)
    (command : .cls b.ncp.host (b.cells i).hlHost ∈ ms → g.command b.ncp.host (b.cells i).hlHost)
    (mates : Mates g b i) (depth : Nat) : Moves g b (freeSktAt (depth + 1) i d).board := by
  have unset : (d.setSkt i fun s => { s with timeo := 0 }).board = b.marks i ms :=
    (board_setSkt_same i (fun s => { s with timeo := 0 }) rfl).trans before
  have filep : ((d.setSkt i fun s => { s with timeo := 0 }).sockets i).filep = (b.cells i).filep :=
    congrArg (fun b => (b.cells i).filep) unset
  have tossed : ∀ d : Daemon, (({ d with nsLeft := d.nsLeft + 1 } : Daemon).toState i .null).board =
      d.board.toss i := fun d => board_toState i .null
  have used := ends.used
  unfold freeSktAt
  simp only
  rw [tossed, filep]
  cases file : (b.cells i).filep with
  | none =>
    show Moves g b ((d.setSkt i fun s => { s with timeo := 0 }).board.toss i)
    rw [unset, Board.toss_marks]
    exact .single (.drop i ms b.ncp ends file (Or.inl rfl) command)
  | some f =>
    obtain ⟨mid, before, quiet, relieved⟩ := fiSgone_board ok unset ends.used file mates
      (freeSktAt depth)
    have kept : mid.cells i = b.cells i ∧ mid.entries = b.entries ∧ mid.ncp.host = b.ncp.host ∧
        Moves g b mid := by
      rcases before with rfl | ⟨j, -, apart, -, killed⟩
      · exact ⟨rfl, rfl, rfl, .refl⟩
      · exact ⟨killed.after.2.1 i apart, killed.after.2.2.1, killed.after.2.2.2, killed.moves⟩
    obtain ⟨cell, entries, host, moves⟩ := kept
    rw [← cell, ← host] at ends command
    rw [← cell, ← entries] at quiet
    have given := Move.giveBack i f ms mid.ncp ends ((congrArg Cell.filep cell).trans file)
      (Or.inl rfl) command quiet
    have relievedMid := relieved.toss i
    rw [Board.toss_marks, ← cell, ← entries] at relievedMid
    have usedF : ((b.entries f).giveBack (b.cells i).sinx).state ≠ .null := by
      have usedF := (ok.owned i f used file).1
      show (b.entries f).state.gone (b.cells i).sinx ≠ .null
      revert usedF
      cases (b.entries f).state <;> cases (b.cells i).sinx <;> decide
    refine (moves.tail given).trans (Relieved.moves (given.ok (moves.ok ok)) ?_ relievedMid)
    show ((mid.setEntry f _).entries f).state ≠ .null
    rw [setEntry_self, entries, cell]
    exact usedF

/-! ### The operations -/

/-- What has happened to a socket since the board `b`, and what has been queued. -/
def Since (b : Board) (i : SktNo) (ms : List Mark) (ncp : Ncp) (d : Daemon) : Prop :=
  d.board = (b.marks i ms).net ncp

namespace Since

variable {b : Board} {i : SktNo} {ms : List Mark} {ncp : Ncp}

theorem now (d : Daemon) (i : SktNo) : Since d.board i [] d.ncp d :=
  (Board.marks_nil i).symm

section

variable (since : Since b i ms ncp d)
include since

theorem cell : (d.sockets i).cell = b.cells i :=
  congrArg (fun b => b.cells i) since

theorem ncp_eq : d.ncp = ncp := congrArg Board.ncp since

theorem mark (m : Mark) : Since b i (ms ++ [m]) ncp (d.mark i m) := by
  show d.board.marks i [m] = _
  rw [since, Board.net_marks, Board.marks_marks]

theorem kwClean : Since b i (ms ++ [.clean]) ncp (d.kwClean i) :=
  mark since .clean

theorem hwCls :
    Since b i (ms ++ [.cls ncp.host (b.cells i).hlHost]) (Ncpd.qupPro ncp (clsOf (d.sockets i)))
      (d.hwCls i) := by
  have host : (d.sockets i).hlHost = (b.cells i).hlHost := congrArg Cell.hlHost since.cell
  have marked := mark since (.cls ncp.host (b.cells i).hlHost)
  unfold Daemon.hwCls
  show (d.hwFrom i _ .cls).board = _
  rw [board_hwFrom, host, since.ncp_eq]
  have joined : d.board.marks i [.cls ncp.host (b.cells i).hlHost] = _ := marked
  rw [joined]
  rfl

theorem toState (st : SktState) :
    (d.toState i st).board =
      ((b.setCell i { b.cells i with state := st }).marks i (ms ++ [.state st])).net ncp :=
  toState_board_of i st since

theorem toClow :
    (d.toClow i).board =
      ((b.setCell i ⟨0, 0, 0, 0, .clow, (b.cells i).filep, (b.cells i).sinx⟩).marks i
        (ms ++ [.state .clow])).net ncp :=
  toClow_board_of i since

theorem freeSkt (ok : b.Ok) (sent : Sent b.ncp ncp)
    (ends : Ends (.cls b.ncp.host (b.cells i).hlHost) (b.cells i).state ms)
    (command : .cls b.ncp.host (b.cells i).hlHost ∈ ms → g.command b.ncp.host (b.cells i).hlHost)
    (mates : Mates g b i) : Moves g b (d.freeSkt i).board := by
  have queued : Move g b (b.net ncp) := .queue ncp sent.host
  refine (Relation.ReflTransGen.single queued).trans ?_
  rw [← sent.host] at ends command
  refine freeSktAt_moves (b := b.net ncp) (queued.ok ok) since ends command ?_ 1
  intro f j filep data state there live
  have mate := mates f j filep data state there live
  rw [← sent.host] at mate
  exact mate

end

end Since

theorem rfnm_icp (ok : b.Ok) (waits : (b.cells i).state.rfnm = true) :
    (b.cells i).sinx = .icp := by
  have used : (b.cells i).state ≠ .null ∧ (b.cells i).state ≠ .q := by
    constructor <;> intro isState <;> rw [isState] at waits <;> cases waits
  cases file : (b.cells i).filep with
  | none => exact absurd ((ok.queued i used.1).mpr file) used.2
  | some f => exact (ok.fits i f used.1 file).rfnm waits

theorem mates_icp (icp : (b.cells i).sinx = .icp) : Mates g b i :=
  fun _ _ _ data => absurd icp data

theorem killSkt_moves (ok : d.board.Ok)
    (command : (d.sockets i).state.live = true → g.command d.ncp.host (d.sockets i).hlHost) :
    Moves g d.board (d.killSkt i).board := by
  by_cases waits : (d.sockets i).state = .rfnmw
  · have state : (d.board.cells i).state = .rfnmw := waits
    have freed : d.killSkt i = d.freeSkt i := by
      unfold killSkt killWith
      rw [waits]
    have ends : Ends (.cls d.board.ncp.host (d.board.cells i).hlHost) (d.board.cells i).state [] := by
      rw [state]
      exact .kill
    rw [freed]
    refine freeSktAt_moves ok (Board.marks_nil i).symm ends ?_ (mates_icp (rfnm_icp ok ?_)) 1
    · exact fun member => absurd member List.not_mem_nil
    · rw [state]
      rfl
  · exact (killWith_killed _ i waits command).moves

theorem Since.close {ncp : Ncp} {st : SktState} (since : Since b i ms ncp d) (sent : Sent b.ncp ncp)
    (closes : Closes (.cls b.ncp.host (b.cells i).hlHost) (b.cells i).state ms st)
    (command : g.command b.ncp.host (b.cells i).hlHost) : Moves g b (d.toState i st).board := by
  rw [since.toState st]
  exact .single (.close i ms { b.cells i with state := st } ncp closes (Cell.closing_state _ _) sent
    fun _ => command)

theorem Since.closeClow {ncp : Ncp} (since : Since b i ms ncp d) (sent : Sent b.ncp ncp)
    (closes : Closes (.cls b.ncp.host (b.cells i).hlHost) (b.cells i).state ms .clow)
    (command : .cls b.ncp.host (b.cells i).hlHost ∈ ms → g.command b.ncp.host (b.cells i).hlHost) :
    Moves g b (d.toClow i).board := by
  rw [since.toClow]
  exact .single (.close i ms ⟨0, 0, 0, 0, .clow, (b.cells i).filep, (b.cells i).sinx⟩ ncp closes
    (Cell.closing_clow _) sent command)

theorem closeSkt_moves (ok : d.board.Ok) (command : g.command d.ncp.host (d.sockets i).hlHost)
    (mates : Mates g d.board i) :
    Moves g d.board (d.closeSkt i).board := by
  have closed : Since d.board i [.closed] d.ncp (d.mark i .closed) := (Since.now d i).mark .closed
  have live : (d.sockets i).state.live = true →
      Moves g d.board ((d.mark i .closed).cloRfop i).board := by
    intro live
    unfold cloRfop
    rw [board_stimeoutSkt]
    exact closed.hwCls.kwClean.close (Or.inr ⟨_, rfl⟩) (.close live) command
  have listens : (d.sockets i).state = .glsn ∨ (d.sockets i).state = .slsn →
      Moves g d.board ((d.mark i .closed).cloLsn i).board := fun listens =>
    closed.kwClean.freeSkt ok (Or.inl rfl) (.closeListen listens) (fun _ => command) mates
  have state : ((d.mark i .closed).sockets i).state = (d.sockets i).state := rfl
  unfold closeSkt
  simp only
  split
  next isState => exact listens (Or.inl isState)
  next isState => exact listens (Or.inr isState)
  next isState => exact live (by rw [← state, isState]; rfl)
  next isState => exact live (by rw [← state, isState]; rfl)
  next isState => exact live (by rw [← state, isState]; rfl)
  next isState =>
    unfold cloCacw
    rw [board_stimeoutSkt]
    refine closed.close (Or.inl rfl) ?_ command
    show Closes _ (d.sockets i).state _ _
    rw [← state, isState]
    exact .closeKilled
  next isState =>
    refine closed.freeSkt ok (Or.inl rfl) ?_ (fun _ => command) mates
    show Ends _ (d.sockets i).state _
    rw [← state, isState]
    exact .closeWait
  next isState =>
    refine closed.hwCls.freeSkt ok (Or.inr ⟨_, rfl⟩) ?_ (fun _ => command) mates
    show Ends _ (d.sockets i).state _
    rw [← state, isState]
    exact .closeMatched
  next isState =>
    refine closed.hwCls.close (Or.inr ⟨_, rfl⟩) ?_ command
    show Closes _ (d.sockets i).state _ _
    rw [← state, isState]
    exact .closeMatched
  next => exact .single (.note i .closed (Or.inl rfl))

theorem timoSkt_moves (ok : d.board.Ok) (mates : Mates g d.board i) :
    Moves g d.board (d.timoSkt i).board := by
  unfold timoSkt
  split
  next isState =>
    refine ((Since.now d i).mark .expired).freeSkt ok (Or.inl rfl) ?_ (by simp) mates
    show Ends _ (d.sockets i).state _
    rw [isState]
    exact .expired
  next => exact .refl

theorem deadSkt_moves (ok : d.board.Ok) (mates : Mates g d.board i) :
    Moves g d.board (d.deadSkt i).board := by
  have dead : Since d.board i [.dead] d.ncp (d.mark i .dead) := (Since.now d i).mark .dead
  have state : ((d.mark i .dead).sockets i).state = (d.sockets i).state := rfl
  have before : (d.sockets i).state = .glsn ∨ (d.sockets i).state = .slsn ∨
      (d.sockets i).state.live = true → Moves g d.board ((d.mark i .dead).soUt1 i).board :=
    fun before => dead.kwClean.closeClow (Or.inl rfl) (.dead before) (by simp)
  have waits : (d.sockets i).state = .q ∨ (d.sockets i).state = .clsw ∨
      (d.sockets i).state = .rfnmw → Moves g d.board ((d.mark i .dead).freeSkt i).board :=
    fun waits => dead.freeSkt ok (Or.inl rfl) (.dead waits) (by simp) mates
  have closing : (d.sockets i).state = .cacw ∨ (d.sockets i).state = .c2cw ∨
      (d.sockets i).state = .clorfnmw → Moves g d.board ((d.mark i .dead).soUt2 i).board :=
    fun closing => dead.closeClow (Or.inl rfl) (.deadClosing closing) (by simp)
  unfold deadSkt
  simp only
  split
  next isState => exact before (Or.inl isState)
  next isState => exact before (Or.inr (Or.inl isState))
  next isState => exact before (Or.inr (Or.inr (by rw [← state, isState]; rfl)))
  next isState => exact before (Or.inr (Or.inr (by rw [← state, isState]; rfl)))
  next isState => exact before (Or.inr (Or.inr (by rw [← state, isState]; rfl)))
  next isState => exact waits (Or.inl isState)
  next isState => exact waits (Or.inr (Or.inl isState))
  next isState => exact waits (Or.inr (Or.inr isState))
  next isState => exact closing (Or.inl isState)
  next isState => exact closing (Or.inr (Or.inl isState))
  next isState => exact closing (Or.inr (Or.inr isState))
  next => exact .single (.note i .dead (Or.inr rfl))

/-! ### A close of the foreign host -/

theorem onMatch_moves {act : Daemon → Daemon}
    (moves : d.soMatch i = true → Moves g d.board (act (d.mark i .matched)).board) :
    Moves g d.board (d.onMatch i act).1.board := by
  unfold onMatch
  split
  next isMatch => exact moves isMatch
  next => exact .refl

theorem cleanSkt_board (i : SktNo) :
    ((d.stimeoutSkt i).setSkt i cleanSkt).board = (d.setSkt i cleanSkt).board := by
  have self : (d.stimeoutSkt i).sockets i = { d.sockets i with timeo := d.clock + stimeout } :=
    update_self _ _ _
  have cell : (cleanSkt { d.sockets i with timeo := d.clock + stimeout }).cell =
      (cleanSkt (d.sockets i)).cell := by
    unfold cleanSkt
    split
    · rfl
    · rfl
  rw [board_setSkt, board_setSkt, board_stimeoutSkt, self, cell]

theorem cls_moves (ok : d.board.Ok) (op : d.sktReq.state = .cls)
    (command : d.soMatch i = true → g.command d.ncp.host (d.sockets i).hlHost)
    (mates : d.soMatch i = true → Mates g d.board i) :
    Moves g d.board (sktOper d.sktReq.state d i).1.board := by
  have matched : Since d.board i [.matched] d.ncp (d.mark i .matched) :=
    (Since.now d i).mark .matched
  rw [op]
  unfold sktOper
  split
  all_goals try contradiction
  next isState =>
    refine onMatch_moves fun isMatch => ?_
    rw [cleanSkt_board]
    refine Since.closeClow (matched.kwClean.hwCls) (Or.inr ⟨_, rfl⟩) ?_ fun _ => command isMatch
    show Closes _ (d.sockets i).state _ _
    rw [isState]
    exact .matchInit
  next isState =>
    refine onMatch_moves fun isMatch => ?_
    refine matched.hwCls.freeSkt ok (Or.inr ⟨_, rfl⟩) ?_ (fun _ => command isMatch) (mates isMatch)
    show Ends _ (d.sockets i).state _
    rw [isState]
    exact .matchQueued
  next isState =>
    refine onMatch_moves fun _ => matched.closeClow (Or.inl rfl) ?_ (by simp)
    show Closes _ (d.sockets i).state _ _
    rw [isState]
    exact .matchKilled
  next isState =>
    refine onMatch_moves fun isMatch => ?_
    refine matched.freeSkt ok (Or.inl rfl) ?_ (by simp) (mates isMatch)
    show Ends _ (d.sockets i).state _
    rw [isState]
    exact .matchWait
  next isState =>
    refine onMatch_moves fun isMatch => matched.kwClean.close (Or.inl rfl) ?_ (command isMatch)
    show Closes _ (d.sockets i).state _ _
    rw [isState]
    exact .matchOpen
  next isState =>
    refine onMatch_moves fun isMatch => matched.kwClean.close (Or.inl rfl) ?_ (command isMatch)
    show Closes _ (d.sockets i).state _ _
    rw [isState]
    exact .matchWait
  next => exact .refl

end Daemon

end NetworkUnix.Ncpd
