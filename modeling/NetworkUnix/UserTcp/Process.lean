/-
This file models the scheduler of the user-level TCP: the pass over the work
list with what each return code does to the block and to the current pointer,
the commands, the calls that the other routines make for work, and the wait with
its wake-ups. A routine is a series of acts that ends with its return code, so a
run may have any routine do whatever it may in any order. An act that reads
through a null pointer, or walks for ever, has no result; what an act needs to
be possible at all is stated apart from its effect.
-/

import NetworkUnix.UserTcp.Opening
import NetworkUnix.UserTcp.Psipout

namespace NetworkUnix.UserTcp.Process

/-- What the program has when it starts: its parameter for authorization, the ear port if it could
be opened, the two connections to the raw message facility, the descriptors that are open for other
ends, and what is in the control blocks. -/
structure Setup where
  auth : Bool
  earFds : Option Nat
  netFdsR : Nat
  netFdsW : Nat
  others : Nat → Bool
  tcbList : Nat → TcpTcb
  apart : netFdsR ≠ netFdsW ∧ earFds ≠ some netFdsR ∧ earFds ≠ some netFdsW := by decide
  inside : netFdsR < fdssize ∧ netFdsW < fdssize ∧ ∀ ear ∈ earFds, ear < fdssize := by decide

/-- The program: the work list, WorkPtr and the tables. -/
structure Tcp where
  work : WorkList
  workPtr : WorkPtr
  tables : Tables

namespace Tcp

/-- The entries that are made at the start. -/
def startTables (p : Setup) : Tables :=
  let tables := { Tables.init p.tcbList with inUse := p.others }
  let tables := match p.earFds with
    | some ear => (tables.acquire ear).enter ear .earin .null
    | none => tables
  (((tables.acquire p.netFdsR).enter p.netFdsR .netinhp .null).acquire p.netFdsW).enter p.netFdsW
    .netouthp .null

def start (p : Setup) : Tcp := ⟨.init, .tail, startTables p⟩

/-- A work block for `PsipOut`. -/
def netOut (p : Setup) (ptr : TcbPtr) : WorkBlk := ⟨.netouthp, ptr, p.netFdsW⟩

/-- The work block that is being processed. -/
def block (s : Tcp) : WorkBlk := s.work.blks s.workPtr

/-- The routine that is being run, if one is. -/
def routine (s : Tcp) : Option Opcode := if s.workPtr = .tail then none else some s.block.portFlags

def makeWrk (entry : WorkBlk) (s : Tcp) : Option Tcp :=
  match s.work.makeWrk entry with
  | some work => some { s with work }
  | none => none

/-- Abort -/
def abort (handle : Nat) (s : Tcp) : Option Tcp :=
  match s.work.forget handle with
  | some work => some { s with work, tables := s.tables.abort handle }
  | none => none

/-- The current pointer is moved past the blocks of a control block, which is aborted. -/
def leave (handle : Nat) (s : Tcp) : Option Tcp :=
  match s.work.past (.tcb handle) s.workPtr with
  | some workPtr => { s with workPtr }.abort handle
  | none => none

/-- The block that is being processed is deleted. -/
def remove (s : Tcp) : Option Tcp :=
  match s.work.pool.links.next s.workPtr, s.work.delete s.workPtr with
  | some workPtr, some work => some { s with work, workPtr }
  | _, _ => none

/-- The loop over the control blocks of a user who is gone. -/
def userGone (p : Setup) (saveFds : Nat) : List Nat → Tcp → Option Tcp
  | [], s => some s
  | handle :: rest, s =>
    if (s.tables.tcb handle).userCmdPort = saveFds then
      let next :=
        match (s.tables.tcb handle).state with
        | .closed | .opened | .synsent => s.leave handle
        | _ => s.makeWrk (netOut p (.tcb handle))
      match next with
      | some s => userGone p saveFds rest s
      | none => none
    else userGone p saveFds rest s

/-- What the scheduler does with the return codes 0 to 3. -/
def afterWork (code : WorkRet) (s : Tcp) : Option Tcp :=
  match code with
  | .remove => s.remove
  | .keep =>
    match s.work.pool.links.next s.workPtr with
    | some workPtr => some { s with workPtr }
    | none => none
  | .requeue =>
    match s.work.pool.links.last s.workPtr, s.makeWrk s.block with
    | some before, some after =>
      match after.work.pool.links.next before with
      | some workPtr => some { after with workPtr }
      | none => none
    | _, _ => none
  | .abort =>
    match s.block.tcbPtr with
    | .tcb handle => s.leave handle
    | _ => none

/-- What the scheduler does with the return code 4. -/
def afterClose (p : Setup) (s : Tcp) : Option Tcp :=
  match s.remove with
  | some after => after.userGone p s.block.portFds after.tables.tcbHd
  | none => none

/-! ### The commands -/

/-- OOPEN with the work that it makes. -/
def oopen (p : Setup) (msg : MOpen) (outside : OpenWith) (s : Tcp) : Option Tcp :=
  match s.block.tcbPtr with
  | .fds tcpFds =>
    match s.tables.oopen p.auth s.block.portFds tcpFds msg outside with
    | some (.oack handle, tables) =>
      if msg.openMode = 0 then { s with tables }.makeWrk (netOut p (.tcb handle))
      else some { s with tables }
    | some (.oerr _, tables) => some { s with tables }
    | none => none
  | _ => none

/-- OCLOSE -/
def oclose (p : Setup) (handle : Nat) (s : Tcp) : Option Tcp :=
  match (s.tables.tcb handle).state with
  | .opened | .synsent =>
    some { s with tables := s.tables.change handle .closed (s.tables.tcb handle).dst }
  | .synrecd | .estab | .closewait => s.makeWrk (netOut p (.tcb handle))
  | _ => some s

/-- OABORT -/
def oabort (p : Setup) (handle : Nat) (s : Tcp) : Option Tcp :=
  match (s.tables.tcb handle).state with
  | .closed | .opened | .synsent => s.abort handle
  | _ => s.makeWrk (netOut p (.tcb handle))

/-- OURGENT; the urgent number may have been acknowledged. -/
def ourgent (p : Setup) (handle : Nat) (acked : Bool) (s : Tcp) : Option Tcp :=
  if !acked ∧ ((s.tables.tcb handle).state = .estab ∨ (s.tables.tcb handle).state = .closewait) then
    s.makeWrk (netOut p (.tcb handle))
  else some s

/-- OMOVE -/
def omove (p : Setup) (mover : Nat) (misc : Int) (s : Tcp) : Option Tcp :=
  match s.tables.acceptor p.auth misc mover with
  | none => some s
  | some acceptor =>
    match s.work.exchange acceptor mover with
    | some work =>
      let tables := s.tables.exchange mover acceptor
      { s with work, tables }.makeWrk ⟨.userinhp, .tcb mover, (tables.tcb mover).sendPort⟩
    | none => none

/-- A command that names a control block is carried out if the user owns it. -/
def ifOwned (handle : Nat) (act : Tcp → Option Tcp) (s : Tcp) : Option Tcp :=
  if s.tables.chkPtr handle s.block.portFds then act s else some s

/-- The user closed his command port. -/
def cmdClosed (p : Setup) (s : Tcp) : Option Tcp :=
  match s.block.tcbPtr with
  | .fds tcpFds =>
    { s with tables := s.tables.closeCmd s.block.portFds tcpFds }.afterClose p
  | _ => none

/-! ### The wait -/

/-- A descriptor is found in the await buffer. -/
def wake (fd : Nat) (s : Tcp) : Option Tcp :=
  if s.work.pool.avail = none then some { s with work := { s.work with noMore := true } }
  else
    match (s.tables.fdsBffer fd).buffFlags with
    | .userouthp | .tcpcmd | .netouthp | .unused => some s
    | flags =>
      s.makeWrk ⟨flags, (s.tables.fdsBffer fd).buffTcbPtr, (s.tables.fdsBffer fd).buffFds⟩

/-- A control block is taken off the retransmission queue. -/
def retran (p : Setup) (handle : Nat) (s : Tcp) : Option Tcp :=
  { s with tables := s.tables.unQTcb handle }.makeWrk (netOut p (.tcb handle))

/-- The next pass over the work list begins. -/
def again (s : Tcp) : Option Tcp :=
  match s.work.pool.links.next .head with
  | some workPtr => some { s with workPtr }
  | none => none

end Tcp

/-- What can happen: acts of `EarIn`; commands; acts of the routines for segments and data; returns;
and, when the pass is over, wake-ups, retransmissions and the next pass. -/
inductive Event
  | oinit (usrFds fDesc : Nat)
  | oopen (msg : MOpen) (outside : OpenWith)
  | oclose (handle : Nat)
  | oabort (handle : Nat)
  | ourgent (handle : Nat) (acked : Bool)
  | omove (handle : Nat) (misc : Int)
  | change (handle : Nat) (state : ConnState) (dst : Skt)
  | netOut (handle : Nat)
  | userIn (handle : Nat)
  | netIn
  | qTcb (handle : Nat)
  | unQTcb (handle : Nat)
  | ret (code : WorkRet)
  | cmdClosed
  | cmdHuh
  | flaky
  | wake (fd : Nat)
  | retran (handle : Nat)
  | again

/-- The descriptors that the system gives in an event have entries in FdsBffer. -/
def Event.inTable : Event → Bool
  | .oinit usrFds fDesc => decide (usrFds < fdssize) && decide (fDesc < fdssize)
  | .oopen _ outside => Tables.inTable outside
  | _ => true

/-- The return codes of a routine; a command port that is closed is an event of its own, and
`PsipOut` asks for the abort of a connection. -/
def returns (routine : Opcode) (ptr : TcbPtr) : WorkRet → Bool
  | .remove => true
  | .keep => decide (routine = .netouthp) || decide (routine = .userinhp)
  | .requeue => decide (routine = .netouthp) || decide (routine = .netinhp) ||
      decide (routine = .earin)
  | .abort => decide (routine = .netouthp) &&
      match ptr with
      | .tcb _ => true
      | _ => false

namespace Tcp

/-- What must be so for an event to happen: which routine is running; that the system gives a
descriptor that is not in use; that an open does not search for ever; that the routines for segments
and data have to do with control blocks that are active; and what a routine returns. -/
def can (p : Setup) (s : Tcp) : Event → Bool
  | .oinit usrFds fDesc => decide (s.routine = some .earin) && !s.tables.inUse usrFds &&
      !s.tables.inUse fDesc && decide (usrFds ≠ fDesc)
  | .oopen _ outside => decide (s.routine = some .usrcmd) && s.tables.fresh outside &&
      !s.tables.searches p.auth
  | .oclose _ | .oabort _ | .ourgent _ _ | .omove _ _ | .cmdClosed | .cmdHuh =>
    decide (s.routine = some .usrcmd)
  | .change handle _ _ | .qTcb handle | .unQTcb handle =>
    (decide (s.routine = some .netinhp) || decide (s.routine = some .netouthp)) &&
      decide (handle ∈ s.tables.tcbHd)
  | .netOut handle => (decide (s.routine = some .netinhp) || decide (s.routine = some .userinhp)) &&
      decide (handle ∈ s.tables.tcbHd)
  | .userIn handle => decide (s.routine = some .netinhp) && decide (handle ∈ s.tables.tcbHd)
  | .netIn => decide (s.routine = some .netinhp) || decide (s.routine = some .netouthp)
  | .ret code =>
    match s.routine with
    | some routine => returns routine s.block.tcbPtr code
    | none => false
  | .flaky | .wake _ | .again => decide (s.routine = none)
  | .retran handle => decide (s.routine = none) && decide (handle ∈ s.tables.retranQ)

/-- The effect of an event. -/
def does (p : Setup) (s : Tcp) : Event → Option Tcp
  | .oinit usrFds fDesc => some { s with tables := s.tables.initUser usrFds fDesc }
  | .oopen msg outside => s.oopen p msg outside
  | .oclose handle => s.ifOwned handle (oclose p handle)
  | .oabort handle => s.ifOwned handle (oabort p handle)
  | .ourgent handle acked => s.ifOwned handle (ourgent p handle acked)
  | .omove handle misc => s.ifOwned handle (omove p handle misc)
  | .change handle state dst => some { s with tables := s.tables.change handle state dst }
  | .netOut handle => s.makeWrk (Tcp.netOut p (.tcb handle))
  | .userIn handle => s.makeWrk ⟨.userinhp, .tcb handle, (s.tables.tcb handle).sendPort⟩
  | .netIn => s.makeWrk ⟨.netinhp, .null, p.netFdsR⟩
  | .qTcb handle => some { s with tables := s.tables.qTcb handle }
  | .unQTcb handle => some { s with tables := s.tables.unQTcb handle }
  | .ret code => s.afterWork code
  | .cmdClosed => s.cmdClosed p
  | .cmdHuh => s.afterClose p
  | .flaky => s.makeWrk (Tcp.netOut p .flkFlag)
  | .wake fd => s.wake fd
  | .retran handle => s.retran p handle
  | .again => s.again

/-- An event, if it can happen. -/
def act (p : Setup) (s : Tcp) (event : Event) : Option Tcp :=
  if s.can p event then s.does p event else none

end Tcp

end NetworkUnix.UserTcp.Process
