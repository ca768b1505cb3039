/-
This file shows that the opens of the kernel are paths of moves. A block of socket
numbers is taken early in an open and a file struct is made, and several checks may
still fail after either. On the board a file is made at once, with its block and its
first state; an open that fails leaves the tables as they were, but for a block that
it may have taken.
-/

import NetworkUnix.Ncpd.Requests

namespace NetworkUnix.Ncpd

open Function

open scoped BigOperators

/-! ### Blocks of socket numbers -/

/-- The first number of a block. -/
def baseOf (n : Nat) : BitVec 16 := BitVec.ofNat 16 (n * 8 + Daemon.sktBase)

theorem baseOf_blocks : ∀ n : Fin 256, isSend (baseOf n) = false ∧ isSend (baseOf n ||| 1) = true ∧
    baseOf n &&& ~~~7 = baseOf n ∧ (baseOf n ||| 1) &&& ~~~7 = baseOf n ∧ baseOf n ≠ 0 ∧
    groupOf (baseOf n) = some n.val := by
  decide +kernel

theorem aligned_masked (lskt : BitVec 16) : Aligned (lskt &&& ~~~7) := by
  refine Or.inl ?_
  rw [BitVec.and_assoc]
  have none : (~~~7 &&& 7 : BitVec 16) = 0 := by decide
  rw [none]
  exact BitVec.and_zero

theorem groupOf_small {sbase : BitVec 16} (small : sbase.toNat < Daemon.sktBase) :
    groupOf sbase = none := if_neg fun within => absurd within.1 (Nat.not_le.mpr small)

namespace Daemon

variable {g : Guards} {d : Daemon}

variable {map : Nat → Bool} {f : FileNo} {id lskt base : BitVec 16} {n last : Int} {x : Entry}
  {o : KrOpen} {fskt : BitVec 32} {e : Daemon}

theorem findBlock {start : Nat} {n : Nat}
    (found : (findBit map sktMpsz start).or (findBit map sktMpsz 0) = some n) :
    n < sktMpsz ∧ map n = true := by
  rcases Option.or_eq_some_iff.mp found with first | second
  · exact ⟨(findBit_some first).2.2, (findBit_some first).1⟩
  · exact ⟨(findBit_some second.2).2.2, (findBit_some second.2).1⟩

theorem findBlock_none {start : Nat}
    (found : (findBit map sktMpsz start).or (findBit map sktMpsz 0) = none) (n : Nat)
    (small : n < sktMpsz) : map n = false :=
  findBit_none (Option.or_eq_none_iff.mp found).2 (Nat.zero_le n) small

/-- No block is free. -/
def Full (b : Board) : Prop := ∀ n, n < sktMpsz → b.map n = false

theorem asnSktn_spec (d : Daemon) :
    (∃ n, n < sktMpsz ∧ d.board.map n = true ∧
      d.asnSktn = ({ d with lasktn := n + 1, sktMap := Function.update d.board.map n false },
        some (baseOf n))) ∨
    d.asnSktn = ({ d with lasktn := 0, sktMap := d.board.map }, none) ∧ Full d.board := by
  by_cases unset : d.lasktn < 0
  · have map : d.board.map = fun _ => true := if_pos unset
    rw [map]
    unfold asnSktn
    rw [if_pos unset]
    simp only
    split
    next n found => exact Or.inl ⟨n, (findBlock found).1, trivial, rfl⟩
    next found =>
      have used := findBlock_none found 0 (by decide)
      exact absurd used (by decide)
  · have map : d.board.map = d.sktMap := if_neg unset
    rw [map]
    unfold asnSktn
    rw [if_neg unset]
    simp only
    split
    next n found => exact Or.inl ⟨n, (findBlock found).1, (findBlock found).2, rfl⟩
    next found =>
      refine Or.inr ⟨rfl, ?_⟩
      unfold Full
      rw [map]
      exact findBlock_none found

/-! ### A file struct is taken -/

/-- The file struct that an open gets. -/
def made (d : Daemon) (id : BitVec 16) (n : Int) (f : FileNo) : Daemon :=
  ({ d with fp := f, nfLeft := d.nfLeft - 1, nsLeft := d.nsLeft - n } : Daemon).setFile f fun f =>
    { f with id := id, sbase := 0, nsrsrv := n, sktX := fun _ => none, nsatt := 0 }

theorem fMake_spec (ok : d.board.Ok) (id : BitVec 16) (n : Int) :
    d.fMake id n = (d, true) ∧ (d.nfLeft ≤ 0 ∨ d.nsLeft < n) ∨
    ∃ f, (d.files f).state = .null ∧ n ≤ d.nsLeft ∧ d.fMake id n = (d.made id n f, false) := by
  unfold fMake
  by_cases few : d.nfLeft ≤ 0 ∨ d.nsLeft < n
  · rw [if_pos few]
    exact Or.inl ⟨rfl, few⟩
  · rw [if_neg few]
    refine Or.inr ?_
    split
    next f found =>
      have free := List.find?_some (p := fun f => decide ((d.files f).state = .null)) found
      exact ⟨f, of_decide_eq_true free, by omega, rfl⟩
    next none =>
      have used : ∀ f, (d.board.entries f).state ≠ .null := by
        intro f isNull
        have notFound := List.find?_eq_none.mp none f (List.mem_finRange f)
        exact notFound (decide_eq_true isNull)
      have left : d.nfLeft = ∑ f, (d.board.entries f).free := ok.nfLeft
      rw [Finset.sum_eq_zero fun f _ => Entry.free_of_used (used f)] at left
      omega

/-- The file struct before its state and its block are set. -/
def madeFile (d : Daemon) (id : BitVec 16) (n : Int) (f : FileNo) : File :=
  { d.files f with id := id, sbase := 0, nsrsrv := n, sktX := fun _ => none, nsatt := 0 }

theorem made_files :
    (d.made id n f).files f = d.madeFile id n f :=
  setFile_self (d := { d with fp := f, nfLeft := d.nfLeft - 1, nsLeft := d.nsLeft - n }) f fun f =>
    { f with id := id, sbase := 0, nsrsrv := n, sktX := fun _ => none, nsatt := 0 }

theorem made_board (change : File → File) (entry : (change (d.madeFile id n f)).entry = x) :
    ((d.made id n f).setFile f change).board =
      { d.board.setEntry f x with nsLeft := d.nsLeft - n, nfLeft := d.nfLeft - 1 } := by
  rw [board_setFile, made_files, entry]
  unfold made
  rw [board_setFile, Board.setEntry_setEntry]
  rfl

theorem made_board_null :
    (d.made id n f).board = { d.board.setEntry f (d.madeFile id n f).entry with
      nsLeft := d.nsLeft - n, nfLeft := d.nfLeft - 1 } := by
  unfold made
  rw [board_setFile]
  rfl

theorem asnSktn_made :
    (d.made id n f).asnSktn = (d.asnSktn.1.made id n f, d.asnSktn.2) := by
  unfold asnSktn
  by_cases unset : d.lasktn < 0
  · rw [if_pos unset, if_pos (show (d.made id n f).lasktn < 0 from unset)]
    simp only
    split
    · rfl
    · rfl
  · rw [if_neg unset, if_neg (show ¬ (d.made id n f).lasktn < 0 from unset)]
    have sktMap : (d.made id n f).sktMap = d.sktMap := rfl
    have lasktn : (d.made id n f).lasktn = d.lasktn := rfl
    simp only
    rw [sktMap, lasktn]
    generalize (findBit d.sktMap sktMpsz d.lasktn.toNat).or (findBit d.sktMap sktMpsz 0) = found
    cases found with
    | some n => rfl
    | none => rfl

/-! ### Direct opens -/

theorem relFile_opened (found : d.relFile o = some f) :
    (d.files f).state = .opened := by
  unfold relFile at found
  obtain ⟨-, isOpen⟩ := Option.filter_eq_some_iff.mp found
  exact of_decide_eq_true isOpen

/-- A direct open takes a block of its own. -/
def KrOpen.takes (o : KrOpen) : Prop := o.rltv = false ∧ o.lskt = 0 ∧ o.op = .init

theorem drctLskt_takes (d : Daemon) (takes : o.takes) :
    d.drctLskt o = ({ d with lasktn := 0, sktMap := d.board.map }, .error ednores) ∨
    ∃ n lskt, (n < sktMpsz ∧ d.board.map n = true) ∧
      d.drctLskt o = ({ d with lasktn := n + 1, sktMap := Function.update d.board.map n false },
        .ok lskt) ∧
      lskt &&& ~~~7 = baseOf n ∧ isSend lskt = !o.fskt.getLsbD 0 := by
  obtain ⟨rltv, zero, isInit⟩ := takes
  unfold drctLskt
  rw [if_neg (by rw [rltv]; decide), if_pos zero, if_neg (not_not.mpr isInit)]
  rcases asnSktn_spec d with ⟨n, small, free, assigned⟩ | ⟨exhausted, -⟩
  · obtain ⟨even, odd, base, oddBase, -⟩ := baseOf_blocks ⟨n, small⟩
    rw [assigned]
    refine Or.inr ⟨n, _, ⟨small, free⟩, rfl, ?_, ?_⟩
    · split
      · exact base
      · exact oddBase
    · cases o.fskt.getLsbD 0
      · exact odd
      · exact even
  · rw [exhausted]
    exact Or.inl rfl

theorem drctLskt_spec (d : Daemon) (o : KrOpen) :
    (∃ code, d.drctLskt o = (d, .error code)) ∨
    (∃ code, d.drctLskt o = ({ d with lasktn := 0, sktMap := d.board.map }, .error code)) ∨
    (∃ lskt, d.drctLskt o = (d, .ok lskt) ∧
      Assigned (o.rltv = true) d.board (lskt &&& ~~~7) d.sktMap d.lasktn) ∨
    ∃ n lskt, (n < sktMpsz ∧ d.board.map n = true) ∧
      d.drctLskt o = ({ d with lasktn := n + 1, sktMap := Function.update d.board.map n false },
        .ok lskt) ∧
      Assigned (o.rltv = true) d.board (lskt &&& ~~~7) (Function.update d.board.map n false) (n + 1) ∧
      o.rltv = false ∧ o.lskt = 0 ∧ o.op = .init ∧ isSend lskt = !o.fskt.getLsbD 0 := by
  unfold drctLskt
  by_cases rltv : o.rltv = true
  · rw [if_pos rltv]
    cases found : d.relFile o with
    | none => exact Or.inl ⟨edinv, rfl⟩
    | some f =>
      simp only
      split
      next => exact Or.inl ⟨edinv, rfl⟩
      next small =>
        refine Or.inr (Or.inr (Or.inl ⟨_, rfl, .shared rltv f ?_ o.lskt
          (Nat.not_lt.mp small) rfl⟩))
        show (d.files f).state ≠ .null
        rw [relFile_opened found]
        decide
  · rw [if_neg rltv]
    by_cases zero : o.lskt = 0
    · by_cases notInit : o.op ≠ .init
      · rw [if_pos zero, if_pos notInit]
        exact Or.inl ⟨edinv, rfl⟩
      · have takes : o.takes := ⟨Bool.eq_false_iff.mpr rltv, zero, not_not.mp notInit⟩
        have same := drctLskt_takes d takes
        unfold drctLskt at same
        rw [if_neg rltv] at same
        rcases same with failed | ⟨n, lskt, ⟨small, free⟩, assigned, base, polarity⟩
        · exact Or.inr (Or.inl ⟨ednores, failed⟩)
        · refine Or.inr (Or.inr (Or.inr ⟨n, lskt, ⟨small, free⟩, assigned, ?_, takes.1, zero,
            takes.2.2, polarity⟩))
          rw [base]
          exact .new n small free rfl
    · rw [if_neg zero]
      split
      next => exact Or.inl ⟨edinv, rfl⟩
      next small =>
        refine Or.inr (Or.inr (Or.inl ⟨_, rfl, .own (groupOf_small ?_)
          (aligned_masked _) _ _ (Or.inl ⟨rfl, rfl⟩)⟩))
        have fewer : (o.lskt &&& ~~~7).toNat ≤ o.lskt.toNat := by
          rw [BitVec.toNat_and]
          exact Nat.and_le_left
        omega

theorem drctFskt_spec (ok : d.board.Ok) (o : KrOpen) : (d.drctFskt o).1 = d := by
  unfold drctFskt
  split
  next =>
    cases found : d.relFile o with
    | none => rfl
    | some f =>
      simp only
      split
      next => rfl
      next none =>
        have state := relFile_opened found
        have used : (d.board.entries f).state ≠ .null := by
          show (d.files f).state ≠ .null
          rw [state]
          decide
        obtain ⟨rcv, xmit⟩ := Option.or_eq_none_iff.mp none
        rcases (ok.files f used).opened state with some | some
        · exact absurd rcv some
        · exact absurd xmit some
  next => rfl

/-- The file that a direct open makes, and the socket numbers of its connection. -/
def drctOpens (d : Daemon) (o : KrOpen) : Option (Daemon × BitVec 16 × BitVec 32) :=
  match (d.setHostLow o.host).drctLskt o with
  | (_, .error _) => none
  | (d, .ok lskt) =>
    if o.op ≠ .glsn ∧ d.ncp.host = 0 then none
    else if o.dux = false ∧ o.wild = false ∧ isSend lskt = (d.drctFskt o).2.getLsbD 0 then none
    else
      let made := (d.drctFskt o).1.fMake o.id (if o.dux then 2 else 1)
      if made.2 then none else some (made.1, lskt, (d.drctFskt o).2)

/-- The file when its sockets are requested. -/
def drctReady (d : Daemon) (o : KrOpen) (lskt : BitVec 16) : Daemon :=
  let d := d.setFile d.fp fun f =>
    { f with state := .dopnw, sbase := lskt &&& ~~~7, bysz := o.bysz }
  if d.ncp.host ≠ 0 then d.chkHost.1 else d

/-- The permission for the general listens of a direct open. -/
def DrctListens (g : Guards) (d : Daemon) (o : KrOpen) : Prop :=
  ∀ made lskt fskt, d.drctOpens o = some (made, lskt, fskt) →
    if o.dux then DuxListens g (made.drctReady o lskt) (lskt &&& ~~~1) (fskt &&& ~~~1) o.op
    else Listens g
      ((made.drctReady o lskt).splx lskt fskt (if isSend lskt then .xmit else .rcv) o.op)

/-- The permission to take a block for an open that fails afterwards. -/
def DrctLeaks (g : Guards) (d : Daemon) (o : KrOpen) : Prop :=
  o.takes → d.drctOpens o = none → ∀ lskt, ((d.setHostLow o.host).drctLskt o).2 = .ok lskt →
    ∀ map, g.group (d.setHostLow o.host).board map

theorem setHostLow_move (turn : g.turn d.ncp.host) (hl : BitVec 8) :
    Move g d.board (d.setHostLow hl).board := .turn _ (g.low d.ncp hl turn)

theorem chkHost_host : d.chkHost.1.ncp.host = d.ncp.host := by
  show (Ncpd.chkHost xRetries d.ncp).1.host = d.ncp.host
  unfold Ncpd.chkHost
  simp only
  split
  · rfl
  · rfl

theorem chkHost_move : Move g d.board d.chkHost.1.board := .queue _ chkHost_host

theorem made_moves (id : BitVec 16) {st : FileState} {sbase : BitVec 16} (change : File → File)
    (free : (d.files f).state = .null) (left : n ≤ d.nsLeft) (used : st ≠ .null)
    (unopened : st ≠ .opened) (room : st.pending ≤ n) (even : st.server = true → isSend sbase = false)
    (assigned : Assigned (g.share f) d.board sbase map last)
    (entry : (change (d.madeFile id n f)).entry = ⟨st, sbase, fun _ => none, 0, n⟩) :
    Move g d.board
      (((({ d with lasktn := last, sktMap := map } : Daemon).made id n f).setFile f change).board) := by
  rw [made_board (d := { d with lasktn := last, sktMap := map }) change entry]
  exact .make f st n sbase map last free used unopened room left even assigned

theorem drctReady_moves (id : BitVec 16) (free : (d.files f).state = .null) (left : n ≤ d.nsLeft)
    (positive : 0 ≤ n) (assigned : Assigned (g.share f) d.board (lskt &&& ~~~7) map last) :
    let ready := (({ d with lasktn := last, sktMap := map } : Daemon).made id n f).drctReady o lskt
    Moves g d.board ready.board ∧ ready.ncp.host = d.ncp.host ∧ ready.fp = f ∧
      (ready.files f).entry = ⟨.dopnw, lskt &&& ~~~7, fun _ => none, 0, n⟩ := by
  have move : Move g d.board _ := made_moves id (fun f =>
    { f with state := .dopnw, sbase := lskt &&& ~~~7, bysz := o.bysz }) free left (by decide)
    (show FileState.dopnw ≠ .opened by decide) positive
    (fun isServer => absurd isServer (by decide)) assigned rfl
  have files : (((({ d with lasktn := last, sktMap := map } : Daemon).made id n f).setFile f fun f =>
      { f with state := .dopnw, sbase := lskt &&& ~~~7, bysz := o.bysz }).files f).entry =
      ⟨.dopnw, lskt &&& ~~~7, fun _ => none, 0, n⟩ := by
    rw [setFile_self, made_files]
    rfl
  have path : Moves g d.board _ := .single move
  unfold drctReady
  simp only
  split
  next =>
    refine ⟨path.tail chkHost_move, ?_, rfl, files⟩
    exact chkHost_host
  next => exact ⟨path, rfl, rfl, files⟩

theorem KrOpen.op_cases (o : KrOpen) : o.op = .glsn ∨ o.op = .slsn ∨ o.op = .init := by
  unfold KrOpen.op
  cases o.init
  · cases o.spcf
    · exact Or.inl rfl
    · exact Or.inr (Or.inl rfl)
  · exact Or.inr (Or.inr rfl)

theorem drctMade_moves {sbase : BitVec 16} (ok : (d.drctReady o lskt).board.Ok)
    (turn : g.turn (d.drctReady o lskt).ncp.host) (isFp : (d.drctReady o lskt).fp = f)
    (entry : ((d.drctReady o lskt).files f).entry =
      ⟨.dopnw, sbase, fun _ => none, 0, if o.dux then 2 else 1⟩)
    (listens : if o.dux then DuxListens g (d.drctReady o lskt) (lskt &&& ~~~1) (fskt &&& ~~~1) o.op
      else Listens g ((d.drctReady o lskt).splx lskt fskt (if isSend lskt then .xmit else .rcv) o.op)) :
    Moves g (d.drctReady o lskt).board (d.drctMade o lskt fskt).board := by
  have isMade : d.drctMade o lskt fskt =
      if o.dux then (d.drctReady o lskt).smDux (lskt &&& ~~~1) (fskt &&& ~~~1) o.op
      else (d.drctReady o lskt).smSplx lskt fskt (if isSend lskt then .xmit else .rcv) o.op := rfl
  have isOp := o.op_cases
  subst isFp
  have state := congrArg Entry.state entry
  have sktX := congrArg Entry.sktX entry
  have nsatt : ((d.drctReady o lskt).files (d.drctReady o lskt).fp).nsatt = 0 :=
    congrArg Entry.nsatt entry
  have nsrsrv : ((d.drctReady o lskt).files (d.drctReady o lskt).fp).nsrsrv = if o.dux then 2 else 1 :=
    congrArg Entry.nsrsrv entry
  have rcv := congrFun sktX .rcv
  have xmit := congrFun sktX .xmit
  rw [isMade]
  cases dux : o.dux with
  | true =>
    rw [dux] at listens nsrsrv
    refine smDux_moves _ _ ok turn ⟨state, rcv, xmit, ?_⟩ isOp ?_ listens
    · rw [nsatt, nsrsrv]
      decide
    · unfold isSend
      rw [BitVec.getLsbD_and, show (~~~1 : BitVec 16).getLsbD 0 = false by decide, Bool.and_false]
  | false =>
    rw [dux] at listens nsrsrv
    have polarity : isSend lskt = true ↔ (if isSend lskt then SktIndex.xmit else .rcv) = .xmit := by
      cases isSend lskt <;> decide
    refine smSplx_moves ok turn ⟨state, congrFun sktX _, ?_, fun _ => rcv⟩ isOp ?_ polarity ?_ listens
    · rw [nsatt, nsrsrv]
      decide
    · cases isSend lskt <;> decide
    · intro _ _ j there
      exact absurd (there.symm.trans xmit) (Option.some_ne_none j)

theorem krOdrct_ok (ok : e.board.Ok) (found : (d.setHostLow o.host).drctLskt o = (e, .ok lskt)) :
    d.drctOpens o = none ∧ (∃ code, d.krOdrct o = e.kwRdy o.id code) ∨
    ∃ f fskt, (e.files f).state = .null ∧ (if o.dux then 2 else 1) ≤ e.nsLeft ∧
      d.drctOpens o = some (e.made o.id (if o.dux then 2 else 1) f, lskt, fskt) ∧
      d.krOdrct o = (e.made o.id (if o.dux then 2 else 1) f).drctMade o lskt fskt := by
  unfold krOdrct drctOpens
  simp only
  rw [found]
  simp only
  split
  next => exact Or.inl ⟨rfl, _, rfl⟩
  next =>
    rw [drctFskt_spec ok o]
    split
    next => exact Or.inl ⟨rfl, _, rfl⟩
    next =>
      rcases fMake_spec ok o.id (if o.dux then 2 else 1) with ⟨failed, -⟩ | ⟨f, free, left, made⟩
      · rw [failed]
        exact Or.inl ⟨rfl, _, rfl⟩
      · rw [made]
        exact Or.inr ⟨f, _, free, left, rfl, rfl⟩

theorem krOdrct_moves (ok : d.board.Ok) (turn : g.turn d.ncp.host) (leaks : DrctLeaks g d o)
    (listens : DrctListens g d o) (shares : o.rltv = true → ∀ f, (d.files f).state = .null → g.share f) :
    Moves g d.board (d.krOdrct o).board := by
  have turned : Move g d.board (d.setHostLow o.host).board := setHostLow_move turn o.host
  have okT := turned.ok ok
  have turnT : g.turn (d.setHostLow o.host).ncp.host := g.low d.ncp o.host turn
  have opens : ∀ lskt map last,
      (d.setHostLow o.host).drctLskt o =
        ({ d.setHostLow o.host with lasktn := last, sktMap := map }, .ok lskt) →
      Assigned (o.rltv = true) (d.setHostLow o.host).board (lskt &&& ~~~7) map last →
      (d.drctOpens o = none → Moves g (d.setHostLow o.host).board
        { (d.setHostLow o.host).board with sktMap := map, lasktn := last }) →
      Moves g d.board (d.krOdrct o).board := by
    intro lskt map last found assigned refused
    refine (Relation.ReflTransGen.single turned).trans ?_
    have okE : ({ d.setHostLow o.host with lasktn := last, sktMap := map } : Daemon).board.Ok :=
      okT.aside _ _ _ _ _
    rcases krOdrct_ok okE found with ⟨isNone, code, isRdy⟩ | ⟨f, fskt, free, left, isSome, made⟩
    · rw [isRdy]
      exact refused isNone
    · obtain ⟨path, host, isFp, entry⟩ := drctReady_moves (g := g) (d := d.setHostLow o.host)
        o.id free left (by split <;> decide) (assigned.share fun rltv => shares rltv f free)
      rw [made]
      refine path.trans (drctMade_moves (path.ok okT) ?_ isFp entry (listens _ _ _ isSome))
      rw [host]
      exact turnT
  rcases drctLskt_spec (d.setHostLow o.host) o with ⟨code, found⟩ | ⟨code, found⟩ |
    ⟨lskt, found, assigned⟩ | ⟨n, lskt, -, found, assigned, rltv, zero, isInit, -⟩
  · have refused : (d.krOdrct o).board = (d.setHostLow o.host).board := by
      unfold krOdrct
      simp only
      rw [found]
      rfl
    rw [refused]
    exact .single turned
  · have refused : (d.krOdrct o).board =
        { (d.setHostLow o.host).board with sktMap := (d.setHostLow o.host).board.map, lasktn := 0 } := by
      unfold krOdrct
      simp only
      rw [found]
      rfl
    rw [refused]
    exact (Relation.ReflTransGen.single turned).tail (.group _ 0 (Int.le_refl 0) (g.still _))
  · exact opens lskt _ _ found assigned fun _ => .refl
  · refine opens lskt _ _ found assigned fun isNone => .single (.group _ _ (by omega) ?_)
    refine leaks ⟨rltv, zero, isInit⟩ isNone lskt ?_ _
    rw [found]

/-! ### Opens of contact connections -/

/-- The permission to lose a free block that a file in use has as its own. -/
def Blocks (g : Guards) (b : Board) : Prop :=
  ∀ n h, n < sktMpsz → b.map n = true → (b.entries h).state ≠ .null →
    (b.entries h).sbase = baseOf n → ∀ ncp map, g.group (b.net ncp) map

theorem refused_board (isFp : e.fp = f)
    (board : e.board = { d.board.setEntry f x with
      nsLeft := d.nsLeft - x.nsrsrv, nfLeft := d.nfLeft - 1, sktMap := map, lasktn := last }) :
    ∃ next, e.board.Released f next ∧ e.fRlse.board =
      ({ d.board with sktMap := next, lasktn := last } : Board).setEntry f
        { x with state := .null } := by
  obtain ⟨next, released, isNext⟩ := fRlse_board isFp
  refine ⟨next, released, ?_⟩
  have entry : (e.board.entries f) = x := by
    rw [board]
    exact setEntry_self f x
  rw [isNext]
  unfold Board.release
  rw [entry, board]
  have sockets : d.nsLeft - x.nsrsrv + x.nsrsrv = d.nsLeft := by omega
  have files : d.nfLeft - 1 + 1 = d.nfLeft := by omega
  show ({ ((d.board.setEntry f x).setEntry f { x with state := .null }) with
    nsLeft := d.nsLeft - x.nsrsrv + x.nsrsrv, nfLeft := d.nfLeft - 1 + 1, sktMap := next,
    lasktn := last } : Board) = _
  rw [sockets, files, Board.setEntry_setEntry]
  rfl

theorem refused_moves (free : (d.files f).state = .null) (isFp : e.fp = f)
    (counted : x.nsatt = sktCount x.sktX)
    (board : e.board = { d.board.setEntry f x with
      nsLeft := d.nsLeft - x.nsrsrv, nfLeft := d.nfLeft - 1, sktMap := map, lasktn := last })
    (group : ∀ next, e.board.Released f next →
      next = d.sktMap ∧ last = d.lasktn ∨ 0 ≤ last ∧ g.group d.board next) :
    Moves g d.board e.fRlse.board := by
  obtain ⟨next, released, given⟩ := refused_board isFp board
  have idle : ∀ b : Board, (b.entries f).state = .null →
      Move g b (b.setEntry f { x with state := .null }) := fun b isFree =>
    .idle f { x with state := .null } isFree rfl counted
  rw [given]
  rcases group next released with ⟨rfl, rfl⟩ | ⟨started, permitted⟩
  · exact .single (idle d.board free)
  · have move : Move g d.board _ := .group next last started permitted
    exact (Relation.ReflTransGen.single move).tail
      (idle ({ d.board with sktMap := next, lasktn := last } : Board) free)

theorem released_none {b : Board} {next : Nat → Bool} (released : b.Released f next)
    (none : groupOf (b.entries f).sbase = none) : next = b.sktMap := by
  rcases released with ⟨same, -⟩ | ⟨same, -⟩ | ⟨n, some, -⟩
  · exact same
  · exact same
  · exact absurd (none.symm.trans some).symm (Option.some_ne_none n)

theorem released_new {b : Board} {n : Nat} {next : Nat → Bool} (map : Nat → Bool)
    (small : n < sktMpsz) (free : map n = true) (isMap : b.sktMap = Function.update map n false)
    (base : (b.entries f).sbase = baseOf n) (released : b.Released f next) :
    next = map ∨ ∃ h, h ≠ f ∧ (b.entries h).state ≠ .null ∧ (b.entries h).sbase = baseOf n := by
  have group : groupOf (baseOf n) = some n := (baseOf_blocks ⟨n, small⟩).2.2.2.2.2
  rcases released with ⟨-, h, apart, used, same⟩ | ⟨-, none⟩ | ⟨m, some, isNext, -⟩
  · exact Or.inr ⟨h, apart, used, same.trans base⟩
  · rw [base, group] at none
    exact absurd none (Option.some_ne_none n)
  · rw [base, group] at some
    refine Or.inl ?_
    rw [isNext, isMap, ← Option.some.inj some, update_idem, ← free, update_eq_self]

/-- The request for the contact connection of a user. -/
def userReq (d : Daemon) (base : BitVec 16) (fskt : BitVec 32) (link : Nat) : Request :=
  ⟨base, fskt, BitVec.ofNat 8 d.ncp.host, BitVec.ofNat 8 link, .init, 32, some d.fp, .icp⟩

/-- The request for the contact connection of a server. -/
def serverReq (d : Daemon) (lskt : BitVec 16) : Request :=
  ⟨lskt, 0, 0, 0xff, .glsn, 32, some d.fp, .icp⟩

theorem contact_odd {n : BitVec 32} (found : contact fskt = some n) : n.getLsbD 0 = true := by
  unfold contact at found
  split at found
  · rw [← Option.some.inj found]
    decide
  · split at found
    next odd =>
      rw [← Option.some.inj found]
      exact odd
    next => cases found

theorem serverSkt_odd {n : BitVec 16} (found : serverSkt lskt = some n) : isSend n = true := by
  unfold serverSkt at found
  split at found
  · rw [← Option.some.inj found]
    decide
  · split at found
    · cases found
    next odd =>
      rw [← Option.some.inj found]
      have isOdd := not_or.mp odd
      exact Bool.not_eq_false _ ▸ isOdd.2

/-- What a contact open has taken from the map: nothing, or a block. -/
structure Took (b : Board) (base : BitVec 16) (map : Nat → Bool) (last : Int) : Prop where
  assigned : Assigned False b base map last
  started : 0 ≤ last
  given : map = b.map ∧ groupOf base = none ∨
    ∃ n, n < sktMpsz ∧ b.map n = true ∧ map = Function.update b.map n false ∧ base = baseOf n

theorem asnSktn_took (d : Daemon) : ∃ map last result,
    d.asnSktn = ({ d with lasktn := last, sktMap := map }, result) ∧
      Took d.board (result.getD 0xffff) map last ∧
      (result ≠ none → isSend (result.getD 0xffff) = false) ∧
      (result = none → Full d.board) := by
  rcases asnSktn_spec d with ⟨n, small, free, block⟩ | ⟨exhausted, full⟩
  · refine ⟨_, _, _, block, ⟨.new n small free rfl, by omega, Or.inr ⟨n, small, free, rfl, rfl⟩⟩, ?_, ?_⟩
    · exact fun _ => (baseOf_blocks ⟨n, small⟩).1
    · exact fun isNone => absurd isNone (Option.some_ne_none _)
  · have outside : groupOf 0xffff = none := by decide
    exact ⟨_, _, _, exhausted, ⟨.own outside (Or.inr rfl) _ _ (Or.inr ⟨rfl, Int.le_refl 0⟩), Int.le_refl 0,
      Or.inl ⟨rfl, outside⟩⟩, fun isSome => absurd rfl isSome, fun _ => full⟩

theorem gaveUp_board
    (isFile : e = (({ d with lasktn := last, sktMap := map } : Daemon).made id 3 f).setFile f fun f =>
      { f with sbase := base }) :
    e.board = { d.board.setEntry f { (d.madeFile id 3 f).entry with sbase := base } with
      nsLeft := d.nsLeft - 3, nfLeft := d.nfLeft - 1, sktMap := map, lasktn := last } := by
  rw [isFile, made_board (d := { d with lasktn := last, sktMap := map }) (fun f =>
    { f with sbase := base }) rfl]
  rfl

theorem gaveUp_released {next : Nat → Bool} (took : Took d.board base map last)
    (isFile : e = (({ d with lasktn := last, sktMap := map } : Daemon).made id 3 f).setFile f fun f =>
      { f with sbase := base }) (released : e.board.Released f next) :
    next = d.board.map ∨ ∃ n h, n < sktMpsz ∧ d.board.map n = true ∧
      (d.board.entries h).state ≠ .null ∧ (d.board.entries h).sbase = baseOf n := by
  have board := gaveUp_board isFile
  have sbase : (e.board.entries f).sbase = base := by
    rw [board]
    exact congrArg Entry.sbase (setEntry_self (b := d.board) f
      { (d.madeFile id 3 f).entry with sbase := base })
  rcases took.given with ⟨isMap, none⟩ | ⟨n, small, isFree, isMap, isBase⟩
  · refine .inl ?_
    rw [released_none released (by rw [sbase]; exact none), board]
    exact isMap
  · have isNext := released_new d.board.map small isFree (by rw [board]; exact isMap)
      (sbase.trans isBase) released
    rcases isNext with same | ⟨h, apart, used, shares⟩
    · exact .inl same
    · have entry : e.board.entries h = d.board.entries h := by
        rw [board]
        exact setEntry_other (b := d.board) apart _
      rw [entry] at used shares
      exact .inr ⟨n, h, small, isFree, used, shares⟩

theorem gaveUp_moves (free : (d.files f).state = .null) (took : Took d.board base map last)
    (blocks : Blocks g d.board)
    (isFile : e = (({ d with lasktn := last, sktMap := map } : Daemon).made id 3 f).setFile f fun f =>
      { f with sbase := base }) :
    Moves g d.board e.fRlse.board := by
  refine refused_moves free (by rw [isFile]; rfl) rfl (gaveUp_board isFile)
    fun next released => Or.inr ⟨took.started, ?_⟩
  rcases gaveUp_released took isFile released with same | ⟨n, h, small, isFree, used, shares⟩
  · rw [same]
    exact g.still d.board
  · exact blocks n h small isFree used shares d.ncp next

theorem asksFirst {b : Board} {r : Request} {state : FileState} (filep : r.filep = some f)
    (sinx : r.sinx = .icp) (entry : b.entries f = ⟨state, base, fun _ => none, 0, 3⟩)
    (op : r.state = .glsn ∨ r.state = .slsn ∨ r.state = .init) (fits : Fits r.cell state)
    (contact : state = .uiopw ∧ r.fskt.getLsbD 0 = true ∨ state = .siopw) : Asks b r f := by
  have waits : state ≠ .null ∧ 0 + state.pending < 3 ∧ state ≠ .opened := by
    obtain ⟨rfl, -⟩ | rfl := contact <;> decide
  refine ⟨filep, op, ?_, ?_, ?_, fun _ => sinx, ?_, ?_, fun _ => ?_,
    fun isXmit => SktIndex.noConfusion (sinx.symm.trans isXmit),
    fun _ isRcv => SktIndex.noConfusion (sinx.symm.trans isRcv)⟩ <;> rw [entry]
  exacts [waits.1, waits.2.1, waits.2.2, fits, contact]

theorem userAsks {link : Nat} (isFp : d.fp = f)
    (entry : (d.files f).entry = ⟨.uiopw, base, fun _ => none, 0, 3⟩) (odd : fskt.getLsbD 0 = true)
    (isLink : 2 ≤ link ∧ link < 72) :
    Asks d.board (d.userReq base fskt link) f := by
  refine asksFirst (congrArg some isFp) rfl entry (.inr (.inr rfl)) ⟨Bool.noConfusion,
    fun data => absurd rfl data, fun _ listens => SktState.noConfusion listens,
    fun _ listens => SktState.noConfusion listens, fun _ listens => SktState.noConfusion listens,
    fun _ _ => ⟨rfl, odd⟩, fun _ isOpen => SktState.noConfusion isOpen,
    fun data => absurd rfl data, fun _ _ => ?_⟩ (.inl ⟨rfl, odd⟩)
  show IsLink (BitVec.ofNat 8 link)
  unfold IsLink
  rw [BitVec.toNat_ofNat]
  omega

theorem serverAsks (isFp : d.fp = f)
    (entry : (d.files f).entry = ⟨.siopw, base, fun _ => none, 0, 3⟩) (odd : isSend lskt = true) :
    Asks d.board (d.serverReq lskt) f := by
  refine asksFirst (congrArg some isFp) rfl entry (.inl rfl) ⟨Bool.noConfusion,
    fun data => absurd rfl data, fun _ _ => rfl, fun _ _ => odd,
    fun _ listens => SktState.noConfusion listens, fun _ inits => SktState.noConfusion inits,
    fun _ isOpen => SktState.noConfusion isOpen, fun data => absurd rfl data, fun _ receive => ?_⟩
    (.inr rfl)
  exact absurd (odd.symm.trans receive) (by decide)

theorem listens_exact (op : d.sktReq.state ≠ .glsn) : Listens g d :=
  fun _ isGlsn => absurd isGlsn op

/-- The host of a user's contact connection has been asked to come up. -/
def userReady (d : Daemon) (o : KrOpen) (link : Nat) : Daemon :=
  ({ d.setHostLow o.host with laslnkn := link } : Daemon).chkHost.1

theorem userOpens_moves (fskt : BitVec 32) (link : Nat) (ok : e.board.Ok) (turn : g.turn e.ncp.host)
    (isFp : e.fp = f) (entry : (e.files f).entry = ⟨.uiopw, base, fun _ => none, 0, 3⟩)
    (odd : fskt.getLsbD 0 = true) (isLink : 2 ≤ link ∧ link < 72) (unused : e.linkUsed link = false)
    (permitted : g.link (e.userReq base fskt link)) :
    Moves g e.board
      (if o.timo ≠ 0 then
        ({ ({ e with sktReq := e.userReq base fskt link } : Daemon).setFile f (fun f =>
          { f with timeo := e.clock + o.timo }) with ftimeo := e.ftimeo + 1 } : Daemon)
      else { e with sktReq := e.userReq base fskt link }).getSkt.board := by
  have asks := userAsks isFp entry odd isLink
  have fresh : Fresh e.board (e.userReq base fskt link) :=
    assigned_fresh isLink.2 unused rfl fun _ => rfl
  have command : g.command e.ncp.host (e.userReq base fskt link).hlHost := g.own _ turn
  have opens : ∀ q : Daemon, q.board = e.board → q.sktReq = e.userReq base fskt link →
      Moves g e.board q.getSkt.board := by
    intro q board request
    have ncp : q.ncp = e.ncp := congrArg Board.ncp board
    have moves := getSkt_asks (g := g) (d := q) (f := f) (by rw [board]; exact ok)
      (by rw [board, request]; exact asks) (by rw [board, request]; exact fresh)
      (by rw [request]; exact permitted) (listens_exact (by rw [request]; exact SktOp.noConfusion)) (fun _ => by rw [ncp, request]; exact command)
    rw [board] at moves
    exact moves
  split
  next =>
    refine opens _ ?_ rfl
    exact board_setFile_same (d := { e with sktReq := e.userReq base fskt link }) f (fun f =>
      { f with timeo := e.clock + o.timo }) rfl
  next => exact opens _ rfl rfl

theorem linkUsed_congr (sockets : e.sockets = d.sockets) (host : e.ncp.host = d.ncp.host)
    (n : Nat) : e.linkUsed n = d.linkUsed n := by
  unfold linkUsed
  rw [sockets, host]

theorem setFile_twice (f : FileNo) (base : BitVec 16) (st : FileState) (bysz : BitVec 8) :
    (d.setFile f fun f => { f with sbase := base }).setFile f
        (fun f => { f with state := st, bysz := bysz }) =
      d.setFile f fun f => { f with sbase := base, state := st, bysz := bysz } := by
  unfold setFile
  simp only [update_idem, update_self]

theorem krOuicp_moves (ok : d.board.Ok) (turn : g.turn d.ncp.host)
    (free : (d.files f).state = .null) (left : 3 ≤ d.nsLeft) (blocks : Blocks g d.board)
    (full : o.host ≠ 0 → contact o.fskt ≠ none → Full d.board → ∀ r, g.link r) :
    Moves g d.board ((d.made o.id 3 f).krOuicp o).board := by
  have turned : Move g d.board (d.setHostLow o.host).board := setHostLow_move turn o.host
  refine (Relation.ReflTransGen.single turned).trans ?_
  unfold krOuicp
  simp only
  split
  next zero =>
    refine refused_moves (d := d.setHostLow o.host) (e := (d.made o.id 3 f).setHostLow o.host) free rfl
      rfl (made_board_null (d := d.setHostLow o.host)) fun next released => Or.inl ⟨?_, rfl⟩
    have sbase : (((d.made o.id 3 f).setHostLow o.host).board.entries f).sbase = 0 := by
      show ((d.made o.id 3 f).files f).sbase = 0
      rw [made_files]
      rfl
    exact released_none released (by rw [sbase]; decide)
  next host =>
    obtain ⟨link, assigned, low, high, unused⟩ := asnLnkn_some ((d.made o.id 3 f).setHostLow o.host)
    rw [assigned]
    simp only
    have same : ({ (d.made o.id 3 f).setHostLow o.host with laslnkn := link } : Daemon).chkHost.1 =
        (d.userReady o link).made o.id 3 f := rfl
    have checked : Move g (d.setHostLow o.host).board (d.userReady o link).board :=
      chkHost_move (d := { d.setHostLow o.host with laslnkn := link })
    have hostR : (d.userReady o link).ncp.host = (d.setHostLow o.host).ncp.host := chkHost_host
    obtain ⟨map, last, result, block, took, even, exhausted⟩ := asnSktn_took (d.userReady o link)
    rw [same, asnSktn_made, block]
    simp only
    refine (Relation.ReflTransGen.single checked).trans ?_
    split
    next => exact gaveUp_moves free took blocks rfl
    next fskt isContact =>
      have made : Move g (d.userReady o link).board _ := made_moves o.id (fun f =>
        { f with sbase := result.getD 0xffff, state := .uiopw, bysz := o.bysz }) free left (by decide)
        (show FileState.uiopw ≠ .opened by decide) (show FileState.uiopw.pending ≤ 3 by decide)
        (fun isServer => absurd isServer (by decide)) (took.assigned.share False.elim) rfl
      have entry : (((({ d.userReady o link with lasktn := last, sktMap := map } : Daemon).made o.id 3
          f).setFile f fun f =>
            { f with sbase := result.getD 0xffff, state := .uiopw, bysz := o.bysz }).files f).entry =
          ⟨.uiopw, result.getD 0xffff, fun _ => none, 0, 3⟩ := by
        rw [setFile_self, made_files]
        rfl
      have unusedR : (d.userReady o link).linkUsed link = false :=
        (linkUsed_congr (d := d.setHostLow o.host) (e := d.userReady o link) rfl hostR link).trans
          unused
      have permitted : ∀ q : Daemon, g.link (q.userReq (result.getD 0xffff) fskt link) := by
        intro q
        by_cases isNone : result = none
        · refine full host ?_ (exhausted isNone) _
          rw [isContact]
          exact Option.some_ne_none fskt
        · exact g.high _ fun send => absurd (send.symm.trans (even isNone)) (by decide)
      have opens := userOpens_moves (g := g) (o := o) fskt link
        (made.ok (checked.ok (turned.ok ok))) (hostR.symm ▸ g.low d.ncp o.host turn) rfl entry
        (contact_odd isContact) ⟨low, high⟩ unusedR (permitted _)
      rw [← setFile_twice] at made opens
      exact (Relation.ReflTransGen.single made).trans opens

theorem serverOpens_moves (ok : e.board.Ok) (isFp : e.fp = f)
    (entry : (e.files f).entry = ⟨.siopw, base, fun _ => none, 0, 3⟩) (odd : isSend lskt = true) :
    Moves g e.board ({ e with sktReq := e.serverReq lskt } : Daemon).getSkt.board := by
  refine getSkt_asks (d := { e with sktReq := e.serverReq lskt }) (f := f) ok
    (serverAsks isFp entry odd) ?_ (g.high _ fun _ =>
      show 128 ≤ (0xff : BitVec 8).toNat by decide) ?_ fun notGlsn => absurd rfl notGlsn
  · exact fun receive => absurd (odd.symm.trans receive) (by decide)
  · exact fun _ _ data => absurd rfl data

theorem krOsicp_moves (ok : d.board.Ok) (free : (d.files f).state = .null) (left : 3 ≤ d.nsLeft)
    (blocks : Blocks g d.board) :
    Moves g d.board ((d.made o.id 3 f).krOsicp o).board := by
  obtain ⟨map, last, result, block, took, even, -⟩ := asnSktn_took d
  unfold krOsicp
  rw [asnSktn_made, block]
  simp only
  split
  next => exact gaveUp_moves free took blocks rfl
  next isSome =>
    split
    next => exact gaveUp_moves free took blocks rfl
    next lskt isServer =>
      have made : Move g d.board _ := made_moves o.id (fun f =>
        { f with sbase := result.getD 0xffff, state := .siopw, bysz := o.bysz }) free left (by decide)
        (show FileState.siopw ≠ .opened by decide) (show FileState.siopw.pending ≤ 3 by decide)
        (fun _ => even isSome) (took.assigned.share False.elim) rfl
      have entry : (((({ d with lasktn := last, sktMap := map } : Daemon).made o.id 3 f).setFile f
          fun f => { f with sbase := result.getD 0xffff, state := .siopw, bysz := o.bysz }).files f).entry =
          ⟨.siopw, result.getD 0xffff, fun _ => none, 0, 3⟩ := by
        rw [setFile_self, made_files]
        rfl
      have odd := serverSkt_odd isServer
      rw [← setFile_twice] at made entry
      exact (Relation.ReflTransGen.single made).trans
        (serverOpens_moves (made.ok ok) rfl entry odd)

/-- A user's contact connection is opened when no block is free. -/
structure Exhausts (d : Daemon) (o : KrOpen) : Prop where
  user : o.serv = false
  host : o.host ≠ 0
  contact : contact o.fskt ≠ none
  left : 3 ≤ d.nsLeft
  full : Full d.board

theorem krOicp_moves (ok : d.board.Ok) (turn : g.turn d.ncp.host) (blocks : Blocks g d.board)
    (full : d.Exhausts o → ∀ r, g.link r) :
    Moves g d.board (d.krOicp o).board := by
  unfold krOicp
  rcases fMake_spec ok o.id 3 with ⟨failed, -⟩ | ⟨f, free, left, made⟩
  · rw [failed]
    exact .refl
  · rw [made]
    simp only
    rw [if_neg (by decide)]
    split
    next => exact krOsicp_moves ok free left blocks
    next isUser =>
      exact krOuicp_moves ok turn free left blocks fun host isContact isFull =>
        full ⟨Bool.eq_false_iff.mpr isUser, host, isContact, left, isFull⟩

/-! ### Opens -/

/-- A file that has the id of an open loses it. -/
def unnamed (d : Daemon) (o : KrOpen) : Daemon :=
  match d.fById o.id with
  | some f => d.setFile f fun f => { f with id := 0 }
  | none => d

theorem unnamed_board (o : KrOpen) : (d.unnamed o).board = d.board := by
  unfold unnamed
  split
  next f _ => exact board_setFile_same f (fun f => { f with id := 0 }) rfl
  next => rfl

theorem krOpen_moves (ok : d.board.Ok) (turn : g.turn d.ncp.host)
    (leaks : o.drct = true → DrctLeaks g (d.unnamed o) o)
    (listens : o.drct = true → DrctListens g (d.unnamed o) o)
    (shares : o.drct = true → o.rltv = true → ∀ f, (d.files f).state = .null → g.share f)
    (blocks : o.drct = false → Blocks g d.board)
    (full : o.drct = false → (d.unnamed o).Exhausts o → ∀ r, g.link r) :
    Moves g d.board (d.krOpen o).board := by
  have board := unnamed_board (d := d) o
  have state (f : FileNo) : ((d.unnamed o).files f).state = (d.files f).state :=
    congrArg (fun b : Board => (b.entries f).state) board
  have isOpen : d.krOpen o =
      if o.drct then (d.unnamed o).krOdrct o else (d.unnamed o).krOicp o := rfl
  have turnU : g.turn (d.unnamed o).ncp.host := by
    have ncp : (d.unnamed o).ncp = d.ncp := congrArg Board.ncp board
    rw [ncp]
    exact turn
  rw [isOpen]
  cases drct : o.drct with
  | true =>
    have moves := krOdrct_moves (g := g) (board.symm ▸ ok) turnU (leaks drct) (listens drct)
      fun takes f null => shares drct takes f ((state f).symm.trans null)
    rw [board] at moves
    exact moves
  | false =>
    have moves := krOicp_moves (g := g) (d := d.unnamed o) (o := o) (board.symm ▸ ok) turnU
      (board.symm ▸ blocks drct) (full drct)
    rw [board] at moves
    exact moves

end Daemon

end NetworkUnix.Ncpd
