/-
This file proves what the commands of the user-level TCP do to PortMap. Every act
but an open keeps the map exact: a bit is set when an active control block has
the local port. An open that is given a local port and then refused for another
reason keeps the bit, and nobody has the port; in runs without such an open the
tables are exact in every state, and a refused open leaves them as they were.
-/

import NetworkUnix.UserTcp.Scheduler

namespace NetworkUnix.UserTcp.Process

namespace Tables

variable {tables after : Tables}

/-- PortMap is exact, and no two active control blocks have the same port of it. -/
structure Ports (tables : Tables) : Prop where
  exact : ∀ i < portcnt, ∀ j < 16, (tables.portMap i).getLsbD j = true ↔
    ∃ handle ∈ tables.tcbHd, (tables.tcb handle).srcePort = baseport + 16 * i + j
  alone : ∀ handle ∈ tables.tcbHd, ∀ other ∈ tables.tcbHd,
    baseport ≤ (tables.tcb handle).srcePort → (tables.tcb handle).srcePort < baseport + 256 →
    (tables.tcb handle).srcePort = (tables.tcb other).srcePort → handle = other

/-- An open that is given a local port names the foreign socket it connects to, and gets both of its
data ports. -/
def clean (auth : Bool) (msg : MOpen) (outside : OpenWith) (tables : Tables) : Bool :=
  (tables.givenPort auth msg outside).isNone ||
    (!(decide (msg.openMode = 0) && msg.unspecified) && outside.sndFds.isSome &&
      outside.rcvFds.isSome)

/-! ### Bits -/

theorem bit_eq {j column : Nat} (inside : column < 16) :
    (1#16 <<< j).getLsbD column = decide (column = j) := by
  rw [BitVec.getLsbD_shiftLeft, BitVec.getLsbD_one, Bool.eq_iff_iff]
  simp
  omega

theorem setBit_row (tables : Tables) {i j row column : Nat} (inside : column < 16) :
    ((tables.setBit i j).portMap row).getLsbD column = true ↔
      (tables.portMap row).getLsbD column = true ∨ (row = i ∧ column = j) := by
  unfold setBit
  by_cases isRow : row = i
  · subst isRow
    simp [bit_eq inside]
  · simp [isRow]

theorem clearBit_row (tables : Tables) {i j row column : Nat} (inside : column < 16) :
    ((tables.clearBit i j).portMap row).getLsbD column = true ↔
      (tables.portMap row).getLsbD column = true ∧ ¬(row = i ∧ column = j) := by
  unfold clearBit
  by_cases isRow : row = i
  · subst isRow
    dsimp only
    rw [Function.update_self, BitVec.getLsbD_and, BitVec.getLsbD_not, bit_eq inside]
    simp [inside]
  · simp [isRow]

theorem clearPort_row (tables : Tables) {port : Int} {i j : Nat} (row : i < portcnt)
    (column : j < 16) :
    ((tables.clearPort port).portMap i).getLsbD j = true ↔
      (tables.portMap i).getLsbD j = true ∧ port ≠ baseport + 16 * i + j := by
  unfold clearPort
  unfold baseport portcnt at *
  split_ifs with given
  · rw [clearBit_row _ column]
    refine and_congr_right fun _ => not_congr ?_
    omega
  · refine (and_iff_left ?_).symm
    omega

/-! ### What keeps the map exact -/

namespace Ports

section

variable (ports : tables.Ports)
include ports

theorem same (hd : after.tcbHd = tables.tcbHd)
    (srcePort : ∀ handle ∈ tables.tcbHd,
      (after.tcb handle).srcePort = (tables.tcb handle).srcePort)
    (portMap : after.portMap = tables.portMap) : after.Ports where
  exact i row j column := by
    rw [portMap, ports.exact i row j column, hd]
    refine exists_congr fun handle => and_congr_right fun active => ?_
    rw [srcePort handle active]
  alone handle active other otherActive := by
    rw [hd] at active otherActive
    rw [srcePort handle active, srcePort other otherActive]
    exact ports.alone handle active other otherActive

theorem unchanged (same : Unchanged tables after)
    (portMap : after.portMap = tables.portMap) : after.Ports :=
  ports.same same.tcbHd (fun handle active => (same.tcb handle active).2.2) portMap

theorem abort (sound : tables.Sound) {handle : Nat}
    (active : handle ∈ tables.tcbHd) : (tables.abort handle).Ports := by
  have hd := (tables.abort_lists active).1
  have portMap : (tables.abort handle).portMap =
      (tables.clearPort (tables.tcb handle).srcePort).portMap := by
    unfold Tables.abort deleteTcb unQTcb clearPort clearBit
    split_ifs <;> rfl
  have inside : ∀ other, other ∈ tables.tcbHd.erase handle ↔
      other ≠ handle ∧ other ∈ tables.tcbHd := fun other => sound.active_distinct.mem_erase_iff
  constructor
  · intro i row j column
    rw [portMap, clearPort_row _ row column, ports.exact i row j column, hd, abort_tcb]
    constructor
    · rintro ⟨⟨other, otherActive, isPort⟩, apart⟩
      refine ⟨other, (inside other).mpr ⟨?_, otherActive⟩, isPort⟩
      rintro rfl
      exact apart isPort
    · rintro ⟨other, member, isPort⟩
      obtain ⟨apart, otherActive⟩ := (inside other).mp member
      refine ⟨⟨other, otherActive, isPort⟩, fun same => apart ?_⟩
      refine (ports.alone handle active other otherActive ?_ ?_ (same.trans isPort.symm)).symm <;>
        unfold baseport portcnt at * <;> omega
  · intro one isOne other isOther
    rw [hd, inside] at isOne isOther
    rw [abort_tcb]
    exact ports.alone one isOne.2 other isOther.2

theorem opened {handle : Nat} {port : Int} {snd rcv : Nat}
    (sound : tables.Sound) (isOpen : Opened tables after handle port snd rcv)
    (portMap : after.portMap = tables.portMap)
    (outsideMap : ¬(baseport ≤ port ∧ port < baseport + 256)) : after.Ports := by
  have apart := isOpen.apart sound
  constructor
  · intro i row j column
    rw [portMap, ports.exact i row j column, isOpen.tcbHd]
    constructor
    · rintro ⟨other, active, isPort⟩
      refine ⟨other, List.mem_cons_of_mem _ active, ?_⟩
      rw [isOpen.tcb other (apart other active), isPort]
    · rintro ⟨other, member, isPort⟩
      rcases List.mem_cons.mp member with rfl | active
      · rw [isOpen.srcePort] at isPort
        unfold baseport portcnt at *
        omega
      · rw [isOpen.tcb other (apart other active)] at isPort
        exact ⟨other, active, isPort⟩
  · intro one isOne other isOther low high same
    rw [isOpen.tcbHd] at isOne isOther
    rcases List.mem_cons.mp isOne with rfl | oneActive
    · rw [isOpen.srcePort] at low high
      exact absurd ⟨low, high⟩ outsideMap
    · rcases List.mem_cons.mp isOther with rfl | otherActive
      · rw [same, isOpen.srcePort] at low high
        exact absurd ⟨low, high⟩ outsideMap
      · rw [isOpen.tcb one (apart one oneActive)] at low high same
        rw [isOpen.tcb other (apart other otherActive)] at same
        exact ports.alone one oneActive other otherActive low high same

theorem openedGiven {handle i j snd rcv : Nat} (sound : tables.Sound)
    (isOpen : Opened tables after handle (baseport + 16 * i + j) snd rcv)
    (portMap : after.portMap = (tables.setBit i j).portMap)
    (isFree : freePort tables.portMap = some (i, j)) : after.Ports := by
  obtain ⟨row, column, clear⟩ := freePort_some isFree
  have apart := isOpen.apart sound
  have nobody : ∀ other ∈ tables.tcbHd, (tables.tcb other).srcePort ≠ baseport + 16 * i + j := by
    intro other active isPort
    have bit := (ports.exact i row j column).mpr ⟨other, active, isPort⟩
    rw [clear] at bit
    exact Bool.noConfusion bit
  constructor
  · intro i' row' j' column'
    rw [portMap, setBit_row _ column', ports.exact i' row' j' column', isOpen.tcbHd]
    constructor
    · rintro (⟨other, active, isPort⟩ | ⟨rfl, rfl⟩)
      · refine ⟨other, List.mem_cons_of_mem _ active, ?_⟩
        rw [isOpen.tcb other (apart other active), isPort]
      · exact ⟨handle, List.mem_cons_self, isOpen.srcePort⟩
    · rintro ⟨other, member, isPort⟩
      rcases List.mem_cons.mp member with rfl | active
      · rw [isOpen.srcePort] at isPort
        right
        omega
      · rw [isOpen.tcb other (apart other active)] at isPort
        exact .inl ⟨other, active, isPort⟩
  · intro one isOne other isOther low high same
    rw [isOpen.tcbHd] at isOne isOther
    rcases List.mem_cons.mp isOne with rfl | oneActive <;>
      rcases List.mem_cons.mp isOther with rfl | otherActive
    · rfl
    · rw [isOpen.srcePort, isOpen.tcb other (apart other otherActive)] at same
      exact absurd same.symm (nobody other otherActive)
    · rw [isOpen.srcePort, isOpen.tcb one (apart one oneActive)] at same
      exact absurd same (nobody one oneActive)
    · rw [isOpen.tcb one (apart one oneActive)] at low high same
      rw [isOpen.tcb other (apart other otherActive)] at same
      exact ports.alone one oneActive other otherActive low high same

theorem exchange (mover acceptor : Nat) :
    (tables.exchange mover acceptor).Ports := by
  refine ports.same rfl (fun handle _ => ?_) rfl
  unfold Tables.exchange
  by_cases isAcceptor : handle = acceptor
  · subst isAcceptor
    simp
  · by_cases isMover : handle = mover
    · subst isMover
      simp [isAcceptor]
    · simp [isAcceptor, isMover]

end

end Ports

/-! ### The answer to an open -/

variable {auth : Bool} {msg : MOpen} {outside : OpenWith}

theorem clean_iff : tables.clean auth msg outside = true ↔
    tables.givenPort auth msg outside = none ∨
      (¬(msg.openMode = 0 ∧ msg.unspecified = true) ∧ outside.sndFds ≠ none ∧
        outside.rcvFds ≠ none) := by
  simp [clean, Option.isSome_iff_ne_none, and_assoc, imp_iff_not_or]

theorem givenPort_free {i j : Nat} (given : tables.givenPort auth msg outside = some (i, j)) :
    freePort tables.portMap = some (i, j) := by
  unfold givenPort at given
  split_ifs at given
  exact given

/-- A refused open leaves the tables as they were, the bits of PortMap included, when it is one that
is given no local port or that does not fail after it has been given one, and only then. -/
theorem refused_iff (sound : tables.Sound) (ports : tables.Ports) {portFds tcpFds : Nat}
    {code : OErr} (isFresh : tables.fresh outside = true) (inside : inTable outside = true)
    (refused : tables.oopen auth portFds tcpFds msg outside = some (.oerr code, after)) :
    Unchanged tables after ∧
      (after.portMap = tables.portMap ↔ tables.clean auth msg outside = true) := by
  have answered := oopen_answered sound isFresh inside refused
  rw [clean_iff]
  cases answered with
  | refused _ _ same portMap notGiven => exact ⟨same, fun _ => .inl notGiven, fun _ => portMap⟩
  | leaked _ _ same i j portMap given why =>
    obtain ⟨row, column, clear⟩ := freePort_some (givenPort_free given)
    refine ⟨same, fun sameMap => ?_, ?_⟩
    · have bit := (tables.setBit_row (i := i) (j := j) column).mpr (.inr ⟨rfl, rfl⟩)
      rw [← portMap, sameMap, clear] at bit
      exact Bool.noConfusion bit
    · rintro (notGiven | ⟨named, hasSnd, hasRcv⟩)
      · rw [given] at notGiven
        cases notGiven
      · rcases why with bad | noSnd | noRcv | ⟨other, active, isPort⟩
        · exact absurd bad named
        · exact absurd noSnd hasSnd
        · exact absurd noRcv hasRcv
        · have bit := (ports.exact i row j column).mpr ⟨other, active, isPort⟩
          rw [clear] at bit
          exact Bool.noConfusion bit

theorem Ports.oopen (ports : tables.Ports) (sound : tables.Sound) {portFds tcpFds : Nat}
    {answer : Answer} (isFresh : tables.fresh outside = true) (inside : inTable outside = true)
    (isClean : tables.clean auth msg outside = true)
    (ends : tables.oopen auth portFds tcpFds msg outside = some (answer, after)) : after.Ports := by
  have answered := oopen_answered sound isFresh inside ends
  cases answered with
  | refused code _ same portMap => exact ports.unchanged same portMap
  | leaked code _ same =>
    exact ports.unchanged same ((refused_iff sound ports isFresh inside ends).2.mpr isClean)
  | done handle _ port snd rcv isOpen portMap _ outsideMap =>
    exact ports.opened sound isOpen portMap outsideMap
  | doneGiven handle _ i j snd rcv isOpen portMap given =>
    exact ports.openedGiven sound isOpen portMap (givenPort_free given)

end Tables

/-! ### Events -/

variable {p : Setup} {s next : Tcp}

namespace Tcp

theorem makeWrk_tables {entry : WorkBlk} (made : s.makeWrk entry = some next) :
    next.tables = s.tables := by
  unfold makeWrk at made
  split at made
  · cases made
    rfl
  · cases made

theorem abort_tables {handle : Nat} (aborted : s.abort handle = some next) :
    next.tables = s.tables.abort handle := by
  unfold Tcp.abort at aborted
  split at aborted
  · cases aborted
    rfl
  · cases aborted

theorem leave_tables {handle : Nat} (left : s.leave handle = some next) :
    next.tables = s.tables.abort handle := by
  unfold leave at left
  split at left
  · have aborted := abort_tables left
    exact aborted
  · cases left

theorem remove_tables (removed : s.remove = some next) : next.tables = s.tables := by
  unfold remove at removed
  split at removed
  · cases removed
    rfl
  · cases removed

theorem userGone_ports {saveFds : Nat} {handles : List Nat} (sound : s.tables.Sound)
    (ports : s.tables.Ports) (distinct : handles.Nodup)
    (active : ∀ handle ∈ handles, handle ∈ s.tables.tcbHd)
    (gone : s.userGone p saveFds handles = some next) : next.tables.Ports := by
  induction handles generalizing s with
  | nil =>
    cases gone
    exact ports
  | cons handle rest inductionHypothesis =>
    have here := active handle List.mem_cons_self
    have others : ∀ other ∈ rest, other ∈ s.tables.tcbHd := fun other inside =>
      active other (List.mem_cons_of_mem _ inside)
    obtain ⟨notRest, further⟩ := List.nodup_cons.mp distinct
    have left : ∀ after, s.leave handle = some after → after.userGone p saveFds rest = some next →
        next.tables.Ports := by
      intro after isAfter goesOn
      have tables := leave_tables isAfter
      refine inductionHypothesis (tables ▸ sound.abort here) (tables ▸ ports.abort sound here)
        further (fun other inside => ?_) goesOn
      rw [tables, (s.tables.abort_lists here).1, sound.active_distinct.mem_erase_iff]
      refine ⟨?_, others other inside⟩
      rintro rfl
      exact notRest inside
    have worked : ∀ after, s.makeWrk (netOut p (.tcb handle)) = some after →
        after.userGone p saveFds rest = some next → next.tables.Ports := by
      intro after isAfter goesOn
      have tables := makeWrk_tables isAfter
      exact inductionHypothesis (tables ▸ sound) (tables ▸ ports) further
        (fun other inside => tables ▸ others other inside) goesOn
    unfold userGone at gone
    split_ifs at gone with isUser
    · cases isState : (s.tables.tcb handle).state <;> rw [isState] at gone <;> dsimp only at gone <;>
        split at gone <;>
        first
        | exact left _ (by assumption) gone
        | exact worked _ (by assumption) gone
        | cases gone
    · exact inductionHypothesis sound ports further others gone

theorem afterClose_ports (sound : s.tables.Sound) (ports : s.tables.Ports)
    (closed : s.afterClose p = some next) : next.tables.Ports := by
  unfold afterClose at closed
  cases removed : s.remove with
  | none =>
    rw [removed] at closed
    cases closed
  | some after =>
    rw [removed] at closed
    have tables := remove_tables removed
    exact userGone_ports (tables ▸ sound) (tables ▸ ports) (tables ▸ sound.active_distinct)
      (fun _ inside => inside) closed

theorem afterWork_ports {queue : List WorkPtr} {entries : List WorkBlk} {routine : Opcode}
    {code : WorkRet} (inv : Inv p s queue entries) (ports : s.tables.Ports)
    (running : s.routine = some routine) (after : s.afterWork code = some next) :
    next.tables.Ports := by
  unfold afterWork at after
  cases code with
  | remove => exact remove_tables after ▸ ports
  | keep =>
    dsimp only at after
    split at after
    · cases after
      exact ports
    · cases after
  | requeue =>
    dsimp only at after
    split at after
    next made =>
      split at after
      · cases after
        exact makeWrk_tables made ▸ ports
      · cases after
    next => cases after
  | abort =>
    dsimp only at after
    split at after
    next handle isPtr =>
      have backed := inv.backed _ (inv.queued running).2.2
      rw [leave_tables after]
      exact ports.abort inv.tables (backed.active inv.tables isPtr)
    next => cases after

theorem oopen_ports {msg : MOpen} {outside : OpenWith} (sound : s.tables.Sound)
    (ports : s.tables.Ports) (isFresh : s.tables.fresh outside = true)
    (inside : Tables.inTable outside = true)
    (isClean : s.tables.clean p.auth msg outside = true) (opens : s.oopen p msg outside = some next) :
    next.tables.Ports := by
  unfold oopen at opens
  split at opens
  next =>
    split at opens
    next handle tables result =>
      have after := ports.oopen sound isFresh inside isClean result
      split at opens
      · exact makeWrk_tables opens ▸ after
      · cases opens
        exact after
    next code tables result =>
      cases opens
      exact ports.oopen sound isFresh inside isClean result
    next => cases opens
  next => cases opens

theorem change_ports {tables : Tables} (ports : tables.Ports) (handle : Nat) (state : ConnState)
    (dst : Skt) : (tables.change handle state dst).Ports := by
  refine ports.same rfl (fun other _ => ?_) rfl
  by_cases same : other = handle
  · subst same
    simp [Tables.change, Tables.setTcb]
  · simp [Tables.change, Tables.setTcb, same]

theorem oclose_ports {handle : Nat} (ports : s.tables.Ports) (closed : s.oclose p handle = some next) :
    next.tables.Ports := by
  unfold oclose at closed
  split at closed
  · cases closed
    exact change_ports ports handle _ _
  · cases closed
    exact change_ports ports handle _ _
  · exact makeWrk_tables closed ▸ ports
  · exact makeWrk_tables closed ▸ ports
  · exact makeWrk_tables closed ▸ ports
  · cases closed
    exact ports

theorem oabort_ports {handle : Nat} (sound : s.tables.Sound) (ports : s.tables.Ports)
    (active : handle ∈ s.tables.tcbHd) (aborted : s.oabort p handle = some next) :
    next.tables.Ports := by
  have gone := ports.abort sound active
  unfold oabort at aborted
  split at aborted
  · exact abort_tables aborted ▸ gone
  · exact abort_tables aborted ▸ gone
  · exact abort_tables aborted ▸ gone
  · exact makeWrk_tables aborted ▸ ports

theorem omove_ports {mover : Nat} {misc : Int} (ports : s.tables.Ports)
    (moved : s.omove p mover misc = some next) : next.tables.Ports := by
  unfold omove at moved
  split at moved
  next =>
    cases moved
    exact ports
  next acceptor found =>
    split at moved
    next =>
      rw [makeWrk_tables moved]
      exact ports.exchange mover acceptor
    next => cases moved

end Tcp

/-- An event that is no open that fails after it has been given a local port. -/
def Tcp.clean (p : Setup) (s : Tcp) : Event → Bool
  | .oopen msg outside => s.tables.clean p.auth msg outside
  | _ => true

/-- The condition on a run: the descriptors are within FdsBffer, and no open fails after it has been
given a local port. -/
abbrev Clean (p : Setup) (s : Tcp) (event : Event) : Prop :=
  event.inTable = true ∧ s.clean p event = true

/-- Every event keeps the map exact, an open if it does not fail after it has been given a port. -/
theorem does_ports {event : Event} (kept : Kept p s) (ports : s.tables.Ports)
    (can : s.can p event = true) (isClean : Clean p s event) (done : s.does p event = some next) :
    next.tables.Ports := by
  obtain ⟨queue, entries, inv⟩ := kept
  have sound := inv.tables
  cases event with
  | oinit usrFds fDesc =>
    obtain rfl := Option.some.inj done
    have entered : (s.tables.initUser usrFds fDesc).tcbHd = s.tables.tcbHd ∧
        (s.tables.initUser usrFds fDesc).tcb = s.tables.tcb ∧
        (s.tables.initUser usrFds fDesc).portMap = s.tables.portMap := by
      unfold Tables.initUser Tables.enter
      split_ifs <;> exact ⟨rfl, rfl, rfl⟩
    exact ports.same entered.1 (fun handle _ => by rw [entered.2.1]) entered.2.2
  | oopen msg outside =>
    simp only [Tcp.can, Bool.and_eq_true, decide_eq_true_eq, Bool.not_eq_true'] at can
    exact Tcp.oopen_ports sound ports can.1.2 isClean.1 isClean.2 done
  | oclose handle =>
    change s.ifOwned handle (Tcp.oclose p handle) = some next at done
    unfold Tcp.ifOwned at done
    split_ifs at done
    · exact Tcp.oclose_ports ports done
    · cases done
      exact ports
  | oabort handle =>
    change s.ifOwned handle (Tcp.oabort p handle) = some next at done
    unfold Tcp.ifOwned Tables.chkPtr at done
    split_ifs at done with owned
    · exact Tcp.oabort_ports sound ports (by simp_all) done
    · cases done
      exact ports
  | ourgent handle acked =>
    change s.ifOwned handle (Tcp.ourgent p handle acked) = some next at done
    unfold Tcp.ifOwned Tcp.ourgent at done
    split_ifs at done
    · exact Tcp.makeWrk_tables done ▸ ports
    · cases done
      exact ports
    · cases done
      exact ports
  | omove handle misc =>
    change s.ifOwned handle (Tcp.omove p handle misc) = some next at done
    unfold Tcp.ifOwned at done
    split_ifs at done
    · exact Tcp.omove_ports ports done
    · cases done
      exact ports
  | change handle state dst =>
    obtain rfl := Option.some.inj done
    exact Tcp.change_ports ports handle state dst
  | netOut handle => exact Tcp.makeWrk_tables done ▸ ports
  | userIn handle => exact Tcp.makeWrk_tables done ▸ ports
  | netIn => exact Tcp.makeWrk_tables done ▸ ports
  | qTcb handle =>
    obtain rfl := Option.some.inj done
    show (s.tables.qTcb handle).Ports
    unfold Tables.qTcb
    split_ifs
    · exact ports
    · exact ⟨ports.exact, ports.alone⟩
  | unQTcb handle =>
    obtain rfl := Option.some.inj done
    exact ⟨ports.exact, ports.alone⟩
  | ret code =>
    cases running : s.routine with
    | some routine => exact Tcp.afterWork_ports inv ports running done
    | none =>
      simp only [Tcp.can, running] at can
      exact Bool.noConfusion can
  | cmdClosed =>
    simp only [Tcp.can, decide_eq_true_eq] at can
    obtain ⟨-, copy, fDesc, ptr⟩ := inv.command can
    change s.cmdClosed p = some next at done
    unfold Tcp.cmdClosed at done
    rw [ptr] at done
    exact Tcp.afterClose_ports (s := { s with tables := s.tables.closeCmd s.block.portFds fDesc })
      (sound.closeCmd (by rw [copy]) (by rw [copy, ptr])) ⟨ports.exact, ports.alone⟩ done
  | cmdHuh => exact Tcp.afterClose_ports sound ports done
  | flaky => exact Tcp.makeWrk_tables done ▸ ports
  | wake fd =>
    change s.wake fd = some next at done
    unfold Tcp.wake at done
    split_ifs at done
    · cases done
      exact ports
    · split at done
      · cases done
        exact ports
      · cases done
        exact ports
      · cases done
        exact ports
      · cases done
        exact ports
      · exact Tcp.makeWrk_tables done ▸ ports
  | retran handle =>
    have tables := Tcp.makeWrk_tables (s := { s with tables := s.tables.unQTcb handle }) done
    rw [tables]
    exact ⟨ports.exact, ports.alone⟩
  | again =>
    change s.again = some next at done
    unfold Tcp.again at done
    split at done
    · cases done
      exact ports
    · cases done

/-! ### Runs -/

theorem startTables_lists (p : Setup) : (Tcp.startTables p).tcbHd = [] ∧
    (Tcp.startTables p).portMap = fun _ => 0 := by
  unfold Tcp.startTables Tables.enter
  split <;> split_ifs <;> exact ⟨rfl, rfl⟩

theorem start_ports (p : Setup) : (Tcp.start p).tables.Ports := by
  obtain ⟨hd, portMap⟩ := startTables_lists p
  constructor
  · intro i _ j _
    show ((Tcp.startTables p).portMap i).getLsbD j = true ↔ ∃ handle ∈ (Tcp.startTables p).tcbHd, _
    rw [hd, portMap]
    simp
  · intro handle active
    rw [show (Tcp.start p).tables.tcbHd = [] from hd] at active
    cases active

theorem run_ports {events : List Event}
    (run : Transition.Run (Transition.Guarded (Transition.Takes (Tcp.act p)) (Clean p))
      (Tcp.start p) events s) : Kept p s ∧ s.tables.Ports := by
  refine run.always (fun s => Kept p s ∧ s.tables.Ports) ⟨start_kept p, start_ports p⟩ ?_
  rintro before event next ⟨kept, ports⟩ ⟨isClean, taken⟩
  unfold Transition.Takes Tcp.act at taken
  split_ifs at taken with can
  refine ⟨?_, does_ports kept ports can isClean taken⟩
  obtain ⟨after, isAfter, keptAfter⟩ := does_keeps kept can isClean.1
  rw [isAfter] at taken
  exact Option.some.inj taken ▸ keptAfter

/-- In every run in which no open fails after it has been given a local port, in every state: the
control blocks are partitioned into the active and the free list; a bit of PortMap is set when an
active control block has that local port, and only then; every entry of FdsBffer for a data port
belongs to exactly one active control block; and an open that is refused leaves the lists, the
entries in use and the descriptors as they were, and PortMap too when and only when it is no open
that fails after it has been given a local port. -/
theorem tables_exact {events : List Event}
    (run : Transition.Run (Transition.Guarded (Transition.Takes (Tcp.act p)) (Clean p))
      (Tcp.start p) events s) :
    (s.tables.tcbHd ++ s.tables.tcbAvl).Perm (List.range numbtcbs) ∧
    (∀ i < portcnt, ∀ j < 16, (s.tables.portMap i).getLsbD j = true ↔
      ∃ handle ∈ s.tables.tcbHd, (s.tables.tcb handle).srcePort = baseport + 16 * i + j) ∧
    (∀ fd, (s.tables.fdsBffer fd).buffFlags = .userinhp ∨
        (s.tables.fdsBffer fd).buffFlags = .userouthp →
      ∃! handle, handle ∈ s.tables.tcbHd ∧
        ((s.tables.tcb handle).sendPort = fd ∨ (s.tables.tcb handle).recvPort = fd)) ∧
    ∀ portFds tcpFds msg outside code after, s.tables.fresh outside = true →
      Tables.inTable outside = true →
      s.tables.oopen p.auth portFds tcpFds msg outside = some (.oerr code, after) →
      Tables.Unchanged s.tables after ∧ (after.portMap = s.tables.portMap ↔
        s.tables.clean p.auth msg outside = true) := by
  obtain ⟨⟨queue, entries, inv⟩, ports⟩ := run_ports run
  have sound := inv.tables
  refine ⟨sound.parts, ports.exact, fun fd isPort => ?_, ?_⟩
  · have owns : ∃ handle ∈ s.tables.tcbHd,
        (s.tables.tcb handle).sendPort = fd ∨ (s.tables.tcb handle).recvPort = fd := by
      rcases isPort with isSend | isRecv
      · obtain ⟨handle, active, port⟩ := sound.sender fd isSend
        exact ⟨handle, active, .inl port⟩
      · obtain ⟨handle, active, port⟩ := sound.receiver fd isRecv
        exact ⟨handle, active, .inr port⟩
    have entry : ∀ handle ∈ s.tables.tcbHd,
        (s.tables.tcb handle).sendPort = fd ∨ (s.tables.tcb handle).recvPort = fd →
        (s.tables.fdsBffer fd).buffTcbPtr = .tcb handle := by
      rintro handle active (rfl | rfl)
      · rw [sound.sends handle active]
      · rw [sound.recvs handle active]
    obtain ⟨handle, active, port⟩ := owns
    refine ⟨handle, ⟨active, port⟩, ?_⟩
    rintro other ⟨otherActive, otherPort⟩
    exact TcbPtr.tcb.inj ((entry other otherActive otherPort).symm.trans (entry handle active port))
  · intro portFds tcpFds msg outside code after isFresh inside refused
    exact Tables.refused_iff sound ports isFresh inside refused

theorem try_clean : Transition.Can (Tcp.act trySetup) (Clean trySetup) (Tcp.start trySetup)
    tryEvents := by
  decide +kernel

theorem try_tables :
    ((Transition.last (Tcp.act trySetup) (Tcp.start trySetup) tryEvents).tables.tcbHd ++
      (Transition.last (Tcp.act trySetup) (Tcp.start trySetup) tryEvents).tables.tcbAvl).Perm
        (List.range numbtcbs) :=
  (tables_exact (Transition.run_can try_clean)).1

/-- A user asks for a connection from a local port that the program is to choose, and names no
net. -/
def leakEvents : List Event :=
  [.wake 3, .again, .oinit 6 7, .ret .remove, .wake 6, .again,
    .oopen ⟨1, 0, 0, 0, 0, 0, 23⟩ (tryPorts 8 9)]

theorem leak_can : Transition.Can (Tcp.act trySetup) InTable (Tcp.start trySetup) leakEvents := by
  decide +kernel

/-- The open is refused; the first bit of PortMap is set and no control block is active. -/
theorem leak_shows : ∃ events s,
    Transition.Run (Transition.Guarded (Transition.Takes (Tcp.act trySetup)) InTable)
      (Tcp.start trySetup) events s ∧
    (s.tables.portMap 0).getLsbD 0 = true ∧ s.tables.tcbHd = [] :=
  ⟨_, _, Transition.run_can leak_can, by decide +kernel, by decide +kernel⟩

end NetworkUnix.UserTcp.Process
