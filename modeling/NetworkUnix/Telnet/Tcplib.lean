/-
This file models the part of the TCP library that reads the command port, with its two
routines: `ReadCmd`, which waits for the answer to a command and keeps the notices it meets in
the meantime, and `TcpCmd`, which reports a notice that was kept or the next one in the port. It
proves that no notice is lost between the two, and that a call gets its own answer.
-/

import NetworkUnix.Lib.Run
import Mathlib.Algebra.GroupWithZero.Nat
import Mathlib.Data.Finset.Card
import Mathlib.Data.Fintype.Card
import Mathlib.Data.List.FinRange
import Mathlib.Data.List.Forall2
import Mathlib.Logic.Function.Basic
import Mathlib.Logic.Function.Iterate

namespace NetworkUnix.Telnet.Tcplib

open Function

/-! ### Notices -/

/-- NUMBCONNS -/
def numbconns : Nat := 10

instance : NeZero numbconns := ⟨by decide⟩

/-- A connection, by its place in `ConnBlock`. -/
abbrev Handle := Fin numbconns

/-- The notices that TCP sends about a connection. A state and a precedence are chars in the TCB. -/
inductive Notice
  | chng (state : BitVec 8)
  | urgent (byteNo : BitVec 32)
  | secerr (count : BitVec 16)
  | procnr
  | procr
  | netmsg (text : BitVec 16)
  | reset
  | reject
  | precchng (prec : BitVec 8)
  deriving DecidableEq

/-- The bit of a notice in `CNFlags` and in `CFlags`. -/
def Notice.flag : Notice → BitVec 16
  | .chng _ => 0o1
  | .urgent _ => 0o2
  | .secerr _ => 0o4
  | .procnr => 0o10
  | .procr => 0o20
  | .netmsg _ => 0o40
  | .reset => 0o100
  | .reject => 0o200
  | .precchng _ => 0o400

/-- An urgent notice is for the user unless the bytes up to its number have been read. -/
def Notice.due (rcvCount : BitVec 32) : Notice → Bool
  | .urgent byteNo => rcvCount.slt byteNo
  | _ => true

/-- A connection: its name in TCP, which is 0 if there is none, what is kept of notices, and the
numbers of bytes. -/
structure UserTcb where
  connIndex : BitVec 16
  cnFlags : BitVec 16
  cnState : BitVec 8
  cnPrec : BitVec 8
  cnMsg : BitVec 16
  sndCount : BitVec 32
  rcvCount : BitVec 32
  urgCount : BitVec 32
  deriving DecidableEq

namespace UserTcb

/-- The connection as `TcpOpen` initializes it. -/
def inz (x : UserTcb) : UserTcb :=
  ⟨x.connIndex, 0, 0, 0, 0, 0, 0, 0⟩

/-- A notice is read in `ReadCmd`. -/
def store (x : UserTcb) : Notice → UserTcb
  | .chng state => { x with cnState := state, cnFlags := x.cnFlags ||| 0o1 }
  | .urgent byteNo =>
    if x.rcvCount.slt byteNo then { x with cnFlags := x.cnFlags ||| 0o2, urgCount := byteNo } else x
  | .secerr count =>
    { x with cnFlags := x.cnFlags ||| 0o4, sndCount := x.sndCount - count.signExtend 32 }
  | .procnr => { x with cnFlags := x.cnFlags ||| 0o10 }
  | .procr => { x with cnFlags := x.cnFlags ||| 0o20 }
  | .netmsg text => { x with cnMsg := text, cnFlags := x.cnFlags ||| 0o40 }
  | .reset => { x with connIndex := 0 }
  | .reject => { x with cnFlags := x.cnFlags ||| 0o200 }
  | .precchng prec => { x with cnPrec := prec, cnFlags := x.cnFlags ||| 0o400 }

/-- Bytes are received or sent. -/
def counts (x : UserTcb) (rcvd sent : BitVec 16) : UserTcb :=
  { x with
    rcvCount := x.rcvCount + rcvd.zeroExtend 32
    sndCount := x.sndCount + sent.zeroExtend 32 }

/-- A notice is read in `TcpCmd`. -/
def hear (x : UserTcb) : Notice → UserTcb
  | .chng state => { x with cnState := state }
  | .urgent byteNo => if x.rcvCount.slt byteNo then { x with urgCount := byteNo } else x
  | .secerr count => { x with sndCount := x.sndCount - count.signExtend 32 }
  | .reset => { x with connIndex := 0 }
  | _ => x

end UserTcb

/-- What `TcpCmd` fills in for the user. -/
structure CmdBlk where
  xPtr : Handle
  cFlags : BitVec 16
  newState : BitVec 16
  netMsg : BitVec 16
  newPrec : BitVec 16
  deriving DecidableEq

/-- The block for a notice that has just been read. -/
def CmdBlk.hear (blk : CmdBlk) (handle : Handle) : Notice → CmdBlk
  | .chng state =>
    { blk with xPtr := handle, newState := state.signExtend 16, cFlags := blk.cFlags ||| 0o1 }
  | .urgent _ => { blk with xPtr := handle, cFlags := blk.cFlags ||| 0o2 }
  | .secerr _ => { blk with xPtr := handle, cFlags := blk.cFlags ||| 0o4 }
  | .procnr => { blk with xPtr := handle, cFlags := blk.cFlags ||| 0o10 }
  | .procr => { blk with xPtr := handle, cFlags := blk.cFlags ||| 0o20 }
  | .netmsg text => { blk with xPtr := handle, netMsg := text, cFlags := blk.cFlags ||| 0o40 }
  | .reset => { blk with xPtr := handle, cFlags := blk.cFlags ||| 0o100 }
  | .reject => { blk with xPtr := handle, cFlags := blk.cFlags ||| 0o200 }
  | .precchng prec =>
    { blk with xPtr := handle, newPrec := prec.signExtend 16, cFlags := blk.cFlags ||| 0o400 }

/-! ### The library -/

/-- The answer of TCP to a command: `OACK` with a handle, or `OERR` with the number of an error. -/
inductive Answer
  | oack (yHandle : BitVec 16)
  | oerr (yMisc : BitVec 16)
  deriving DecidableEq

/-- What is in the command port. An answer is marked with the command that it is for. -/
inductive Msg
  | answer (command : Nat) (answer : Answer)
  | notice (handle : Handle) (notice : Notice)
  | update (handle : Handle) (connIndex : BitVec 16) (sndCnt rcvCnt : BitVec 32)
  deriving DecidableEq

/-- The connections and the command port. -/
structure Lib where
  conn : Handle → UserTcb
  port : List Msg

/-- What `ReadCmd` comes back with. -/
inductive Returned
  | answer (command : Nat) (answer : Answer)
  | etcpnrdy
  | ebadresp
  deriving DecidableEq

/-- What `ReadCmd` returns. -/
def Returned.code : Returned → BitVec 16
  | .answer _ (.oack _) => 0
  | .answer _ (.oerr yMisc) => yMisc
  | .etcpnrdy => 4
  | .ebadresp => 11

/-- The library routines that wait for an answer, as called by the user; whether the receive port
can be made is a matter of the system. -/
inductive Ask
  | tcpOpen (recvPort : Bool)
  | tcpClose (handle : Handle)
  | tcpAbort (handle : Handle)
  | tcpMove (handle : Handle)
  | tcpStop
  | tcpResume
  deriving DecidableEq

/-- A routine that waits: it opens a connection, aborts one, or returns what `ReadCmd` returns. -/
inductive Call
  | opening (handle : Handle)
  | aborting (handle : Handle)
  | other
  deriving DecidableEq

namespace Lib

def set (s : Lib) (handle : Handle) (x : UserTcb) : Lib :=
  { s with conn := Function.update s.conn handle x }

/-- An unused connection. -/
def unused (s : Lib) : Option Handle :=
  (List.finRange numbconns).find? fun handle => decide ((s.conn handle).connIndex = 0)

/-- The first connection with a notice that was kept. -/
def kept (s : Lib) : Option Handle :=
  (List.finRange numbconns).find? fun handle =>
    decide ((s.conn handle).cnFlags ≠ 0) && decide ((s.conn handle).connIndex ≠ 0)

/-- The part of a routine up to `ReadCmd`; there is no call if it returns before it writes a
command. -/
def begin (s : Lib) : Ask → Option Call × Lib
  | .tcpOpen recvPort =>
    match s.unused with
    | none => (none, s)
    | some handle =>
      (if recvPort then some (.opening handle) else none, s.set handle (s.conn handle).inz)
  | .tcpAbort handle => (if (s.conn handle).connIndex = 0 then none else some (.aborting handle), s)
  | .tcpClose handle | .tcpMove handle =>
    (if (s.conn handle).connIndex = 0 then none else some .other, s)
  | .tcpStop | .tcpResume => (some .other, s)

/-- The part of a routine after `ReadCmd`; whether the send port can be opened is a matter of the
system. -/
def finish (s : Lib) (sendPort : Bool) (returned : Returned) : Call → Lib
  | .opening handle =>
    match returned with
    | .answer _ (.oack yHandle) =>
      s.set handle { s.conn handle with connIndex := if sendPort then yHandle else 0 }
    | _ => s.set handle { s.conn handle with connIndex := 0 }
  | .aborting handle =>
    if returned.code = 0 then s.set handle { s.conn handle with connIndex := 0 } else s
  | .other => s

/-- `ReadCmd` reads a message; there is a result if it then returns. -/
def read (s : Lib) : Msg → Option Returned × Lib
  | .answer command answer => (some (.answer command answer), s)
  | .notice handle notice => (none, s.set handle ((s.conn handle).store notice))
  | .update _ _ _ _ => (some .ebadresp, s)

/-- TcpCmd: whether it found an entry, and the block -/
def tcpCmd (s : Lib) (blk : CmdBlk) : (Bool × CmdBlk) × Lib :=
  let blk := { blk with cFlags := 0 }
  match s.kept with
  | some handle =>
    let x := s.conn handle
    ((true, ⟨handle, blk.cFlags ||| x.cnFlags, x.cnState.signExtend 16, x.cnMsg,
      x.cnPrec.signExtend 16⟩), s.set handle { x with cnFlags := 0 })
  | none =>
    match s.port with
    | [] => ((false, blk), s)
    | .notice handle notice :: rest =>
      let s := { s with port := rest }
      let x := s.conn handle
      if notice.due x.rcvCount then
        ((true, blk.hear handle notice), s.set handle (x.hear notice))
      else ((false, blk), s)
    | .update handle connIndex sndCnt rcvCnt :: rest =>
      let s := { s with port := rest }
      let x := s.conn handle
      ((false, blk), s.set handle
        { x with connIndex := connIndex, sndCount := x.sndCount + sndCnt, rcvCount := rcvCnt })
    | .answer _ _ :: rest => ((false, blk), { s with port := rest })

end Lib

/-! ### Runs -/

/-- A routine that is in `ReadCmd`: its command, the seconds left, and whether it is asleep. -/
structure Waiting where
  command : Nat
  call : Call
  timeOut : BitVec 16
  sleeping : Bool
  deriving DecidableEq

/-- What becomes of the notices of a connection: `TcpCmd` reports them, with the connection as the
user then finds it, or the user gives the connection up. -/
inductive Outcome
  | report (blk : CmdBlk) (x : UserTcb)
  | aborted
  deriving DecidableEq

/-- The library and the commands that TCP has not answered; for each connection the notices that
TCP has sent and those that have been read, with whether they were due, and what became of them;
and what the calls have returned. -/
structure System where
  lib : Lib
  asked : List Nat
  made : Nat
  waiting : Option Waiting
  sent : Handle → List Notice
  heard : Handle → List (Notice × Bool)
  outcome : Handle → List Outcome
  returned : List (Nat × Returned)

/-- TCP sends a notice or an update, or answers the oldest command; the user calls a routine;
`ReadCmd` goes on; and the user calls `TcpCmd`, `TcpReceive` or `TcpSend`. -/
inductive Event
  | notice (handle : Handle) (notice : Notice)
  | update (handle : Handle) (connIndex : BitVec 16) (sndCnt rcvCnt : BitVec 32)
  | answer (answer : Answer)
  | call (ask : Ask) (timeOut : BitVec 16)
  | readCmd (sendPort : Bool)
  | tcpCmd (blk : CmdBlk)
  | tcpReceive (handle : Handle) (count : BitVec 16)
  | tcpSend (handle : Handle) (count : BitVec 16)

namespace System

/-- A message is written to the command port. -/
def write (s : System) (msg : Msg) : System :=
  { s with lib := { s.lib with port := s.lib.port ++ [msg] } }

/-- What has been read, when a message is read. -/
def hears (s : System) : Msg → Handle → List (Notice × Bool)
  | .notice handle notice =>
    Function.update s.heard handle
      (s.heard handle ++ [(notice, notice.due (s.lib.conn handle).rcvCount)])
  | _ => s.heard

/-- Something becomes of notices. -/
def become (s : System) (handle : Handle) (what : Outcome) : Handle → List Outcome :=
  Function.update s.outcome handle (s.outcome handle ++ [what])

/-- A connection is given up when it has been aborted. -/
def givesUp (s : System) (returned : Returned) : Call → Handle → List Outcome
  | .aborting handle => if returned.code = 0 then s.become handle .aborted else s.outcome
  | _ => s.outcome

/-- `ReadCmd` and the routine that has called it return. -/
def finish (s : System) (sendPort : Bool) (waiting : Waiting) (returned : Returned) : System :=
  { s with
    lib := s.lib.finish sendPort returned waiting.call
    waiting := none
    outcome := s.givesUp returned waiting.call
    returned := s.returned ++ [(waiting.command, returned)] }

/-- A message is read in `ReadCmd`. -/
def reads (s : System) (sendPort : Bool) (waiting : Waiting) (msg : Msg) (rest : List Msg) : System :=
  let found := Lib.read { s.lib with port := rest } msg
  let s := { s with lib := found.2, heard := s.hears msg }
  match found.1 with
  | some returned => s.finish sendPort waiting returned
  | none => s

/-- The next thing that happens in `ReadCmd`. -/
def readCmd (s : System) (sendPort : Bool) (waiting : Waiting) : System :=
  if waiting.sleeping then
    if waiting.timeOut = 0 then s.finish sendPort waiting .etcpnrdy
    else { s with waiting := some { waiting with timeOut := waiting.timeOut - 1, sleeping := false } }
  else
    match s.lib.port with
    | [] => { s with waiting := some { waiting with sleeping := true } }
    | msg :: rest => s.reads sendPort waiting msg rest

/-- The message that `TcpCmd` reads, if it reads one. -/
def next (s : System) : Option Msg := if s.lib.kept = none then s.lib.port.head? else none

/-- The user calls `TcpCmd`. -/
def tcpCmd (s : System) (blk : CmdBlk) : System :=
  let result := s.lib.tcpCmd blk
  { s with
    lib := result.2
    heard :=
      match s.next with
      | some msg => s.hears msg
      | none => s.heard
    outcome :=
      if result.1.1 then
        s.become result.1.2.xPtr (.report result.1.2 (result.2.conn result.1.2.xPtr))
      else s.outcome }

/-- The user calls a routine. -/
def call (s : System) (ask : Ask) (timeOut : BitVec 16) : System :=
  match s.lib.begin ask with
  | (none, lib) => { s with lib := lib }
  | (some call, lib) =>
    { s with
      lib := lib
      asked := s.asked ++ [s.made]
      made := s.made + 1
      waiting := some ⟨s.made, call, timeOut, false⟩ }

/-- Bytes are received or sent on an open connection. -/
def counts (s : System) (handle : Handle) (rcvd sent : BitVec 16) : System :=
  { s with lib := s.lib.set handle ((s.lib.conn handle).counts rcvd sent) }

/-- The effect of an event, if it can happen. -/
def act (s : System) : Event → Option System
  | .notice handle notice =>
    some { s.write (.notice handle notice) with
      sent := Function.update s.sent handle (s.sent handle ++ [notice]) }
  | .update handle connIndex sndCnt rcvCnt => some (s.write (.update handle connIndex sndCnt rcvCnt))
  | .answer answer =>
    match s.asked with
    | [] => none
    | command :: rest => some { s.write (.answer command answer) with asked := rest }
  | .call ask timeOut => if s.waiting = none then some (s.call ask timeOut) else none
  | .readCmd sendPort => s.waiting.map (s.readCmd sendPort)
  | .tcpCmd blk => if s.waiting = none then some (s.tcpCmd blk) else none
  | .tcpReceive handle count =>
    if s.waiting = none ∧ (s.lib.conn handle).connIndex ≠ 0 then some (s.counts handle count 0)
    else none
  | .tcpSend handle count =>
    if s.waiting = none ∧ (s.lib.conn handle).connIndex ≠ 0 then some (s.counts handle 0 count)
    else none

/-- The start: no connection is open. -/
def start (conn : Handle → UserTcb) : System where
  lib := ⟨fun handle => { conn handle with connIndex := 0 }, []⟩
  asked := []
  made := 0
  waiting := none
  sent _ := []
  heard _ := []
  outcome _ := []
  returned := []

end System

/-- A message is a notice about a connection. -/
def Msg.about (handle : Handle) : Msg → Option Notice
  | .notice other told => if other = handle then some told else none
  | _ => none

/-- A message is the answer to a command. -/
def Msg.answers : Msg → Option Nat
  | .answer command _ => some command
  | _ => none

namespace System

/-- The notices of a connection in the command port. -/
def inPort (s : System) (handle : Handle) : List Notice := s.lib.port.filterMap (Msg.about handle)

/-- The commands whose answer has not been read. -/
def pending (s : System) : List Nat := s.lib.port.filterMap Msg.answers ++ s.asked

end System

/-- A notice can be kept: its connection is open, it is no reset, and none of its kind is kept yet.
-/
def UserTcb.canKeep (x : UserTcb) (notice : Notice) : Bool :=
  decide (x.connIndex ≠ 0) && decide (notice ≠ .reset) &&
    (!notice.due x.rcvCount || decide (x.cnFlags &&& notice.flag = 0))

/-- A command is given only when the answers to all earlier ones have been read; `ReadCmd` reads no
update and no notice that cannot be kept, and `TcpCmd` reads updates of open connections only. -/
def System.proper (s : System) : Event → Bool
  | .call ask _ => decide ((s.lib.begin ask).1 = none) || s.pending.isEmpty
  | .readCmd _ =>
    s.waiting.any Waiting.sleeping ||
      match s.lib.port with
      | .notice handle notice :: _ => (s.lib.conn handle).canKeep notice
      | .update _ _ _ _ :: _ => false
      | _ => true
  | .tcpCmd _ =>
    match s.next with
    | some (.update handle _ _ _) => decide ((s.lib.conn handle).connIndex ≠ 0)
    | _ => true
  | _ => true

/-! ### What is kept of a connection -/

/-- The flags for a list of notices. -/
def flags : List Notice → BitVec 16
  | [] => 0
  | notice :: rest => notice.flag ||| flags rest

theorem flag_ne_zero (notice : Notice) : notice.flag ≠ 0 := by
  cases notice <;> simp [Notice.flag]

theorem flags_append (first second : List Notice) :
    flags (first ++ second) = flags first ||| flags second := by
  induction first with
  | nil => exact (BitVec.zero_or).symm
  | cons notice rest inductionHypothesis =>
    simp only [List.cons_append, flags, inductionHypothesis, BitVec.or_assoc]

theorem flags_eq_zero {notices : List Notice} (zero : flags notices = 0) : notices = [] := by
  cases notices with
  | nil => rfl
  | cons notice rest => exact absurd (BitVec.or_eq_zero_iff.mp zero).1 (flag_ne_zero notice)

theorem flags_and {notices : List Notice} {notice : Notice}
    (mem : notice.flag ∈ notices.map Notice.flag) : flags notices &&& notice.flag = notice.flag := by
  induction notices with
  | nil => cases mem
  | cons first rest inductionHypothesis =>
    have distrib : flags (first :: rest) &&& notice.flag =
        (first.flag &&& notice.flag) ||| (flags rest &&& notice.flag) := by
      simp only [flags]
      ext i
      simp only [BitVec.getElem_and, BitVec.getElem_or, Bool.and_or_distrib_right]
    rw [distrib]
    rw [List.map_cons, List.mem_cons] at mem
    rcases mem with same | mem
    · rw [← same, BitVec.and_self]
      ext i
      simp only [BitVec.getElem_and, BitVec.getElem_or]
      cases notice.flag[i] <;> cases (flags rest)[i] <;> rfl
    · rw [inductionHypothesis mem]
      ext i
      simp only [BitVec.getElem_and, BitVec.getElem_or]
      cases notice.flag[i] <;> cases first.flag[i] <;> rfl

/-- The connection has the value of a notice. -/
def UserTcb.Has (x : UserTcb) : Notice → Prop
  | .chng state => x.cnState = state
  | .urgent byteNo => x.urgCount = byteNo
  | .netmsg text => x.cnMsg = text
  | .precchng prec => x.cnPrec = prec
  | _ => True

/-- The connection keeps these notices, of different kinds: their flags and their values. It keeps
none unless it is open. -/
structure UserTcb.Keeps (x : UserTcb) (stored : List Notice) : Prop where
  isOpen : stored ≠ [] → x.connIndex ≠ 0
  flags : x.connIndex ≠ 0 → x.cnFlags = Tcplib.flags stored
  kinds : (stored.map Notice.flag).Nodup
  has : ∀ notice ∈ stored, x.Has notice

/-- A report has the value of a notice. -/
def shows (blk : CmdBlk) (x : UserTcb) : Notice → Prop
  | .chng state => blk.newState = state.signExtend 16
  | .urgent byteNo => x.urgCount = byteNo
  | .netmsg text => blk.netMsg = text
  | .precchng prec => blk.newPrec = prec.signExtend 16
  | _ => True

/-- A report stands for notices of different kinds: these are its flags, and it has their values. -/
def Outcome.Accounts : Outcome → List Notice → Prop
  | .report blk x, group =>
    group ≠ [] ∧ (group.map Notice.flag).Nodup ∧ blk.cFlags = flags group ∧
      ∀ notice ∈ group, shows blk x notice
  | .aborted, _ => True

/-- The notices that were due. -/
def dueOf (heard : List (Notice × Bool)) : List Notice := (heard.filter Prod.snd).map Prod.fst

theorem dueOf_append (heard : List (Notice × Bool)) (notice : Notice) (due : Bool) :
    dueOf (heard ++ [(notice, due)]) = dueOf heard ++ if due then [notice] else [] := by
  unfold dueOf
  rw [List.filter_append, List.map_append]
  cases due <;> rfl

/-- What there is of a connection: its notices that TCP has sent, those that have been read, what
became of them, the connection, and its notices in the port. -/
structure Account where
  sent : List Notice
  heard : List (Notice × Bool)
  outcome : List Outcome
  x : UserTcb
  inPort : List Notice

namespace Account

/-- What has been read and what is in the port has been sent. What was due falls into groups, which
the outcomes stand for, and the rest, which is kept. -/
def Kept (a : Account) : Prop :=
  a.sent = a.heard.map Prod.fst ++ a.inPort ∧
    ∃ groups stored, List.Forall₂ Outcome.Accounts a.outcome groups ∧
      dueOf a.heard = groups.flatten ++ stored ∧ a.x.Keeps stored

variable {a : Account} {notice : Notice} {rest : List Notice}

theorem Kept.send (kept : a.Kept) (notice : Notice) :
    Account.Kept { a with sent := a.sent ++ [notice], inPort := a.inPort ++ [notice] } := by
  obtain ⟨sent, others⟩ := kept
  refine ⟨?_, others⟩
  show a.sent ++ [notice] = _
  rw [sent, List.append_assoc]

theorem Kept.withConn (kept : a.Kept) {x : UserTcb}
    (same : ∀ stored, a.x.Keeps stored → x.Keeps stored) : Account.Kept { a with x := x } := by
  obtain ⟨sent, groups, stored, accounts, due, keeps⟩ := kept
  exact ⟨sent, groups, stored, accounts, due, same stored keeps⟩

end Account

theorem UserTcb.hear_cnFlags (x : UserTcb) (notice : Notice) :
    (x.hear notice).cnFlags = x.cnFlags := by
  cases notice with
  | urgent byteNo =>
    show UserTcb.cnFlags (if _ then _ else _) = _
    split <;> rfl
  | _ => rfl

theorem UserTcb.hear_isOpen (x : UserTcb) {notice : Notice}
    (isOpen : (x.hear notice).connIndex ≠ 0) : x.connIndex ≠ 0 := by
  cases notice with
  | urgent byteNo =>
    change UserTcb.connIndex (if _ then _ else _) ≠ 0 at isOpen
    split at isOpen <;> exact isOpen
  | reset => exact absurd rfl isOpen
  | _ => exact isOpen

theorem UserTcb.Keeps.closed {x x' : UserTcb} {stored : List Notice} (keeps : x.Keeps stored)
    (closed : x.connIndex = 0) (clear : x'.connIndex ≠ 0 → x'.cnFlags = 0) : x'.Keeps stored := by
  have empty : stored = [] := by
    by_contra some
    exact keeps.isOpen some closed
  subst empty
  exact ⟨fun some => absurd rfl some, clear, List.nodup_nil, fun _ mem => absurd mem (List.not_mem_nil)⟩

theorem UserTcb.Keeps.store {x : UserTcb} {stored : List Notice} {notice : Notice}
    (keeps : x.Keeps stored) (isOpen : x.connIndex ≠ 0) (notReset : notice ≠ .reset)
    (due : notice.due x.rcvCount = true) (other : x.cnFlags &&& notice.flag = 0) :
    (x.store notice).Keeps (stored ++ [notice]) := by
  have fresh : notice.flag ∉ stored.map Notice.flag := by
    intro mem
    have same := flags_and mem
    rw [← keeps.flags isOpen, other] at same
    exact flag_ne_zero notice same.symm
  have before : ∀ older ∈ stored, (x.store notice).Has older := by
    intro older mem
    have has := keeps.has older mem
    have differ : older.flag ≠ notice.flag := fun same =>
      fresh (same ▸ List.mem_map_of_mem mem)
    cases notice <;> cases older <;> first
      | exact absurd rfl differ
      | exact has
      | (simp only [UserTcb.store]; split <;> exact has)
  have index : (x.store notice).connIndex = x.connIndex := by
    cases notice <;> first
      | rfl
      | exact absurd rfl notReset
      | (simp only [UserTcb.store]; split <;> rfl)
  have bits : (x.store notice).cnFlags = x.cnFlags ||| notice.flag := by
    cases notice <;> first
      | rfl
      | exact absurd rfl notReset
      | (simp only [UserTcb.store]; exact if_pos due ▸ rfl)
  have itself : (x.store notice).Has notice := by
    cases notice <;> first
      | trivial
      | rfl
      | (show UserTcb.urgCount (if _ then _ else _) = _; exact if_pos due ▸ rfl)
  refine ⟨fun _ => by rw [index]; exact isOpen, fun _ => ?_, ?_, ?_⟩
  · rw [bits, keeps.flags isOpen, flags_append]
    exact congrArg (Tcplib.flags stored ||| ·) BitVec.or_zero.symm
  · rw [List.map_append, List.nodup_append]
    refine ⟨keeps.kinds, List.nodup_singleton _, ?_⟩
    intro old oldMem new newMem same
    rw [List.map_singleton, List.mem_singleton] at newMem
    exact fresh (newMem ▸ same ▸ oldMem)
  · intro any mem
    rcases List.mem_append.mp mem with older | new
    · exact before any older
    · rw [List.mem_singleton.mp new]
      exact itself

namespace Account

variable {a : Account} {notice : Notice} {rest : List Notice}

theorem Kept.store (kept : a.Kept) (first : a.inPort = notice :: rest)
    (isOpen : a.x.connIndex ≠ 0) (notReset : notice ≠ .reset)
    (other : notice.due a.x.rcvCount = true → a.x.cnFlags &&& notice.flag = 0) :
    Account.Kept { a with
      heard := a.heard ++ [(notice, notice.due a.x.rcvCount)]
      x := a.x.store notice
      inPort := rest } := by
  obtain ⟨sent, groups, stored, accounts, due, keeps⟩ := kept
  refine ⟨?_, ?_⟩
  · show a.sent = (a.heard ++ [_]).map Prod.fst ++ rest
    rw [sent, first, List.map_append, List.append_assoc]
    rfl
  · by_cases isDue : notice.due a.x.rcvCount = true
    · refine ⟨groups, stored ++ [notice], accounts, ?_, keeps.store isOpen notReset isDue (other isDue)⟩
      show dueOf (a.heard ++ [_]) = _
      rw [dueOf_append, due, if_pos isDue, List.append_assoc]
    · refine ⟨groups, stored, accounts, ?_, ?_⟩
      · show dueOf (a.heard ++ [_]) = _
        rw [dueOf_append, due, if_neg isDue, List.append_nil]
      · have same : a.x.store notice = a.x := by
          cases notice with
          | urgent byteNo => exact if_neg isDue
          | _ => exact absurd rfl isDue
        show (a.x.store notice).Keeps stored
        rw [same]
        exact keeps

theorem Kept.report (kept : a.Kept) (isOpen : a.x.connIndex ≠ 0) (some : a.x.cnFlags ≠ 0)
    {blk : CmdBlk} (cFlags : blk.cFlags = a.x.cnFlags)
    (newState : blk.newState = a.x.cnState.signExtend 16) (netMsg : blk.netMsg = a.x.cnMsg)
    (newPrec : blk.newPrec = a.x.cnPrec.signExtend 16) :
    Account.Kept { a with
      outcome := a.outcome ++ [.report blk { a.x with cnFlags := 0 }]
      x := { a.x with cnFlags := 0 } } := by
  obtain ⟨sent, groups, stored, accounts, due, keeps⟩ := kept
  have group : Outcome.Accounts (.report blk { a.x with cnFlags := 0 }) stored := by
    refine ⟨fun empty => some ?_, keeps.kinds, cFlags.trans (keeps.flags isOpen), fun notice mem => ?_⟩
    · rw [keeps.flags isOpen, empty]
      rfl
    · have has := keeps.has notice mem
      cases notice with
      | chng state =>
        show blk.newState = _
        rw [newState, show a.x.cnState = state from has]
      | urgent byteNo => exact has
      | netmsg text => exact netMsg.trans has
      | precchng prec =>
        show blk.newPrec = _
        rw [newPrec, show a.x.cnPrec = prec from has]
      | _ => trivial
  refine ⟨sent, groups ++ [stored], [], List.rel_append accounts (.cons group .nil), ?_, ?_⟩
  · show dueOf a.heard = _
    rw [due, List.flatten_append, List.flatten_singleton, List.append_nil]
  · exact ⟨fun nonempty => absurd rfl nonempty, fun _ => rfl, List.nodup_nil,
      fun _ mem => absurd mem (List.not_mem_nil)⟩

theorem Kept.aborted (kept : a.Kept) :
    Account.Kept { a with outcome := a.outcome ++ [.aborted], x := { a.x with connIndex := 0 } } := by
  obtain ⟨sent, groups, stored, accounts, due, keeps⟩ := kept
  refine ⟨sent, groups ++ [stored], [], List.rel_append accounts (.cons trivial .nil), ?_, ?_⟩
  · show dueOf a.heard = _
    rw [due, List.flatten_append, List.flatten_singleton, List.append_nil]
  · exact ⟨fun nonempty => absurd rfl nonempty, fun isOpen => absurd rfl isOpen, List.nodup_nil,
      fun _ mem => absurd mem (List.not_mem_nil)⟩

theorem Kept.clear (kept : a.Kept) (clear : a.x.connIndex ≠ 0 → a.x.cnFlags = 0) :
    ∃ groups, List.Forall₂ Outcome.Accounts a.outcome groups ∧ dueOf a.heard = groups.flatten := by
  obtain ⟨-, groups, stored, accounts, due, keeps⟩ := kept
  have empty : stored = [] := by
    by_contra some
    have isOpen := keeps.isOpen some
    exact some (flags_eq_zero ((keeps.flags isOpen).symm.trans (clear isOpen)))
  exact ⟨groups, accounts, by rw [due, empty, List.append_nil]⟩

theorem accounts_hear (blk : CmdBlk) (cFlags : blk.cFlags = 0) (handle : Handle) (x : UserTcb)
    (due : notice.due x.rcvCount = true) :
    Outcome.Accounts (.report (blk.hear handle notice) (x.hear notice)) [notice] := by
  refine ⟨List.cons_ne_nil _ _, List.nodup_singleton _, ?_, fun one mem => ?_⟩
  · have bits : (blk.hear handle notice).cFlags = blk.cFlags ||| notice.flag := by
      cases notice <;> rfl
    rw [bits, cFlags]
    exact BitVec.zero_or.trans BitVec.or_zero.symm
  · rw [List.mem_singleton.mp mem]
    cases notice with
    | urgent byteNo =>
      show UserTcb.urgCount (if _ then _ else _) = byteNo
      rw [if_pos (show x.rcvCount.slt byteNo = true from due)]
    | _ => first | rfl | trivial

theorem Kept.hear (kept : a.Kept) (first : a.inPort = notice :: rest)
    (clear : a.x.connIndex ≠ 0 → a.x.cnFlags = 0) (due : notice.due a.x.rcvCount = true)
    (blk : CmdBlk) (cFlags : blk.cFlags = 0) (handle : Handle) :
    Account.Kept { a with
      heard := a.heard ++ [(notice, notice.due a.x.rcvCount)]
      outcome := a.outcome ++ [.report (blk.hear handle notice) (a.x.hear notice)]
      x := a.x.hear notice
      inPort := rest } := by
  obtain ⟨groups, accounts, dues⟩ := kept.clear clear
  obtain ⟨sent, -⟩ := kept
  refine ⟨?_, groups ++ [[notice]], [],
    List.rel_append accounts (.cons (accounts_hear blk cFlags handle a.x due) .nil), ?_, ?_⟩
  · show a.sent = (a.heard ++ [_]).map Prod.fst ++ rest
    rw [sent, first, List.map_append, List.append_assoc]
    rfl
  · show dueOf (a.heard ++ [_]) = _
    rw [dueOf_append, dues, if_pos due, List.flatten_append, List.flatten_singleton, List.append_nil]
  · refine ⟨fun nonempty => absurd rfl nonempty, fun isOpen => ?_, List.nodup_nil,
      fun _ mem => absurd mem (List.not_mem_nil)⟩
    exact (a.x.hear_cnFlags notice).trans (clear (a.x.hear_isOpen isOpen))

theorem Kept.skip (kept : a.Kept) (first : a.inPort = notice :: rest)
    (due : notice.due a.x.rcvCount = false) :
    Account.Kept { a with
      heard := a.heard ++ [(notice, notice.due a.x.rcvCount)]
      inPort := rest } := by
  obtain ⟨sent, groups, stored, accounts, dues, keeps⟩ := kept
  refine ⟨?_, groups, stored, accounts, ?_, keeps⟩
  · show a.sent = (a.heard ++ [_]).map Prod.fst ++ rest
    rw [sent, first, List.map_append, List.append_assoc]
    rfl
  · show dueOf (a.heard ++ [_]) = _
    rw [dueOf_append, dues, due, if_neg (Bool.false_ne_true), List.append_nil]

end Account

/-! ### The invariant -/

namespace System

variable {s : System} {handle : Handle}

/-- What there is of a connection. -/
def account (s : System) (handle : Handle) : Account :=
  ⟨s.sent handle, s.heard handle, s.outcome handle, s.lib.conn handle, s.inPort handle⟩

/-- Every connection is accounted for; the only answer that may come is that to the call under way;
a connection that is being opened is not open and has no flags; and what the calls have returned was
for them. Only urgent notices are not due. -/
structure Held (s : System) : Prop where
  kept : ∀ handle, (s.account handle).Kept
  own : ∀ waiting, s.waiting = some waiting → s.pending = [waiting.command]
  opening : ∀ waiting handle, s.waiting = some waiting → waiting.call = .opening handle →
    (s.lib.conn handle).connIndex = 0 ∧ (s.lib.conn handle).cnFlags = 0
  returned : ∀ command returned, (command, returned) ∈ s.returned →
    returned ≠ .ebadresp ∧ ∀ other answer, returned = .answer other answer → other = command
  due : ∀ handle notice, (notice, false) ∈ s.heard handle → ∃ byteNo, notice = .urgent byteNo

theorem Lib.finish_opening (s : Lib) (sendPort : Bool) (returned : Returned) (handle : Handle) :
    ∃ connIndex, s.finish sendPort returned (.opening handle) =
      s.set handle { s.conn handle with connIndex := connIndex } := by
  cases returned with
  | answer command answer => cases answer <;> exact ⟨_, rfl⟩
  | etcpnrdy => exact ⟨_, rfl⟩
  | ebadresp => exact ⟨_, rfl⟩

theorem Lib.finish_port (s : Lib) (sendPort : Bool) (returned : Returned) (call : Call) :
    (s.finish sendPort returned call).port = s.port := by
  cases call with
  | opening handle =>
    obtain ⟨connIndex, finished⟩ := Lib.finish_opening s sendPort returned handle
    rw [finished]
    rfl
  | aborting handle =>
    show Lib.port (if _ then _ else _) = _
    split <;> rfl
  | other => rfl

theorem account_finish (kept : ∀ handle, (s.account handle).Kept) (sendPort : Bool)
    (waiting : Waiting) (returned : Returned)
    (opening : ∀ handle, waiting.call = .opening handle →
      (s.lib.conn handle).connIndex = 0 ∧ (s.lib.conn handle).cnFlags = 0) (handle : Handle) :
    ((s.finish sendPort waiting returned).account handle).Kept := by
  have port : (s.finish sendPort waiting returned).inPort handle = s.inPort handle :=
    congrArg _ (Lib.finish_port s.lib sendPort returned waiting.call)
  have same : ∀ outcome x, (s.finish sendPort waiting returned).outcome handle = outcome →
      (s.finish sendPort waiting returned).lib.conn handle = x →
      Account.Kept ⟨s.sent handle, s.heard handle, outcome, x, s.inPort handle⟩ →
      ((s.finish sendPort waiting returned).account handle).Kept := by
    rintro outcome x rfl rfl held
    unfold account
    rw [port]
    exact held
  cases called : waiting.call with
  | opening which =>
    have outcome : (s.finish sendPort waiting returned).outcome handle = s.outcome handle := by
      show s.givesUp returned waiting.call handle = _
      rw [called]
      rfl
    obtain ⟨closed, clear⟩ := opening which called
    obtain ⟨connIndex, finished⟩ := Lib.finish_opening s.lib sendPort returned which
    have conns : (s.finish sendPort waiting returned).lib.conn =
        (s.lib.set which { s.lib.conn which with connIndex := connIndex }).conn := by
      show (s.lib.finish sendPort returned waiting.call).conn = _
      rw [called, finished]
    by_cases isWhich : handle = which
    · subst isWhich
      exact same _ { s.lib.conn handle with connIndex := connIndex } outcome
        (conns ▸ update_self ..)
        ((kept handle).withConn fun _ keeps => keeps.closed closed fun _ => clear)
    · exact same _ _ outcome (conns ▸ update_of_ne isWhich ..) (kept handle)
  | aborting which =>
    by_cases aborted : returned.code = 0
    · have outcomes : (s.finish sendPort waiting returned).outcome =
          s.become which .aborted := by
        show s.givesUp returned waiting.call = _
        rw [called]
        exact if_pos aborted
      have conns : (s.finish sendPort waiting returned).lib.conn =
          (s.lib.set which { s.lib.conn which with connIndex := 0 }).conn := by
        show (s.lib.finish sendPort returned waiting.call).conn = _
        rw [called]
        exact congrArg Lib.conn (if_pos aborted)
      by_cases isWhich : handle = which
      · subst isWhich
        exact same _ _ (outcomes ▸ update_self ..) (conns ▸ update_self ..)
          (kept handle).aborted
      · exact same _ _ (outcomes ▸ update_of_ne isWhich ..)
          (conns ▸ update_of_ne isWhich ..) (kept handle)
    · refine same (s.outcome handle) (s.lib.conn handle) ?_ ?_ (kept handle)
      · show s.givesUp returned waiting.call handle = _
        rw [called]
        exact congrFun (if_neg aborted) handle
      · show (s.lib.finish sendPort returned waiting.call).conn handle = _
        rw [called]
        exact congrFun (congrArg Lib.conn (if_neg aborted)) handle
  | other =>
    refine same (s.outcome handle) (s.lib.conn handle) ?_ ?_ (kept handle)
    · show s.givesUp returned waiting.call handle = _
      rw [called]
      rfl
    · show (s.lib.finish sendPort returned waiting.call).conn handle = _
      rw [called]
      rfl

theorem kept_of {next : System} (which : Handle) (kept : ∀ handle, (s.account handle).Kept)
    (others : ∀ other, other ≠ which → next.account other = s.account other)
    (itself : (next.account which).Kept) (handle : Handle) : (next.account handle).Kept := by
  by_cases isWhich : handle = which
  · exact isWhich ▸ itself
  · exact others handle isWhich ▸ kept handle

theorem inPort_write (s : System) (msg : Msg) (handle : Handle) :
    (s.write msg).inPort handle = s.inPort handle ++ (msg.about handle).toList := by
  show List.filterMap _ (s.lib.port ++ [msg]) = _
  rw [List.filterMap_append]
  refine congrArg (s.inPort handle ++ ·) ?_
  cases about : msg.about handle with
  | none => exact List.filterMap_cons_none about
  | some notice => exact List.filterMap_cons_some about

theorem pending_write (s : System) (msg : Msg) :
    (s.write msg).pending = s.lib.port.filterMap Msg.answers ++ msg.answers.toList ++ s.asked := by
  show List.filterMap _ (s.lib.port ++ [msg]) ++ _ = _
  rw [List.filterMap_append]
  refine congrArg (s.lib.port.filterMap Msg.answers ++ · ++ s.asked) ?_
  cases msg <;> rfl

theorem about_self (handle : Handle) (notice : Notice) :
    (Msg.notice handle notice).about handle = some notice := if_pos rfl

theorem about_of_ne {handle other : Handle} (differ : other ≠ handle) (notice : Notice) :
    (Msg.notice handle notice).about other = none := if_neg fun same => differ same.symm

theorem Held.notice (held : s.Held) (handle : Handle) (notice : Notice) :
    Held { s.write (.notice handle notice) with
      sent := Function.update s.sent handle (s.sent handle ++ [notice]) } := by
  refine ⟨kept_of handle held.kept (fun other differ => ?_) ?_, ?_, held.opening, held.returned, held.due⟩
  · have port := inPort_write s (.notice handle notice) other
    rw [about_of_ne differ, Option.toList_none, List.append_nil] at port
    show Account.mk (Function.update s.sent handle _ other) _ _ _ ((s.write _).inPort other) = _
    rw [update_of_ne differ, port]
    rfl
  · have port := inPort_write s (.notice handle notice) handle
    rw [about_self] at port
    show (Account.mk (Function.update s.sent handle _ handle) _ _ _ ((s.write _).inPort handle)).Kept
    rw [update_self, port]
    exact (held.kept handle).send notice
  · intro waiting isWaiting
    refine Eq.trans ?_ (held.own waiting isWaiting)
    show (s.write _).pending = _
    rw [pending_write]
    simp only [Msg.answers, Option.toList_none, List.append_nil]
    rfl

theorem account_write (s : System) {msg : Msg} (handle : Handle) (noNotice : msg.about handle = none) :
    (s.write msg).account handle = s.account handle := by
  have port := inPort_write s msg handle
  rw [noNotice, Option.toList_none, List.append_nil] at port
  show Account.mk _ _ _ _ ((s.write _).inPort handle) = _
  rw [port]
  rfl

theorem Held.update (held : s.Held) (handle : Handle) (connIndex : BitVec 16)
    (sndCnt rcvCnt : BitVec 32) : Held (s.write (.update handle connIndex sndCnt rcvCnt)) := by
  refine ⟨fun other => ?_, ?_, held.opening, held.returned, held.due⟩
  · rw [account_write s other rfl]
    exact held.kept other
  · intro waiting isWaiting
    refine Eq.trans ?_ (held.own waiting isWaiting)
    rw [pending_write]
    simp only [Msg.answers, Option.toList_none, List.append_nil]
    rfl

theorem Held.answer (held : s.Held) (answer : Answer) {command : Nat} {rest : List Nat}
    (first : s.asked = command :: rest) :
    Held { s.write (.answer command answer) with asked := rest } := by
  refine ⟨fun other => ?_, ?_, held.opening, held.returned, held.due⟩
  · have same := @account_write s (.answer command answer) other rfl
    exact same ▸ held.kept other
  · intro waiting isWaiting
    refine Eq.trans ?_ (held.own waiting isWaiting)
    show List.filterMap Msg.answers (s.lib.port ++ [_]) ++ rest = _
    rw [List.filterMap_append, List.append_assoc]
    unfold pending
    rw [first]
    rfl

theorem account_set (s : System) (handle : Handle) (x : UserTcb) :
    account { s with lib := s.lib.set handle x } handle = { s.account handle with x := x } := by
  show Account.mk _ _ _ (Function.update s.lib.conn handle x handle) _ = _
  rw [update_self]
  rfl

theorem account_set_of_ne (s : System) {handle other : Handle} (differ : other ≠ handle)
    (x : UserTcb) : account { s with lib := s.lib.set handle x } other = s.account other := by
  show Account.mk _ _ _ (Function.update s.lib.conn handle x other) _ = _
  rw [update_of_ne differ]
  rfl

theorem Held.set (held : s.Held) (handle : Handle) {x : UserTcb}
    (same : ∀ stored, (s.lib.conn handle).Keeps stored → x.Keeps stored)
    (closed : (s.lib.conn handle).connIndex = 0 → x.connIndex = 0)
    (clear : (s.lib.conn handle).cnFlags = 0 → x.cnFlags = 0) :
    Held { s with lib := s.lib.set handle x } := by
  refine ⟨kept_of handle held.kept (fun other differ => account_set_of_ne s differ x) ?_, held.own,
    fun waiting which isWaiting isOpening => ?_, held.returned, held.due⟩
  · rw [account_set]
    exact (held.kept handle).withConn same
  · obtain ⟨index, flags⟩ := held.opening waiting which isWaiting isOpening
    by_cases isHandle : which = handle
    · subst isHandle
      show (Function.update s.lib.conn which x which).connIndex = 0 ∧
        (Function.update s.lib.conn which x which).cnFlags = 0
      rw [update_self]
      exact ⟨closed index, clear flags⟩
    · show (Function.update s.lib.conn handle x which).connIndex = 0 ∧
        (Function.update s.lib.conn handle x which).cnFlags = 0
      rw [update_of_ne isHandle]
      exact ⟨index, flags⟩

theorem Held.counts (held : s.Held) (handle : Handle) (rcvd sent : BitVec 16) :
    (s.counts handle rcvd sent).Held := by
  refine held.set handle (fun stored keeps => ?_) id id
  refine ⟨keeps.isOpen, keeps.flags, keeps.kinds, fun notice mem => ?_⟩
  have has := keeps.has notice mem
  cases notice <;> exact has

/-! ### The calls that wait -/

theorem Held.made (held : s.Held) (call : Call) (timeOut : BitVec 16) (none : s.pending = [])
    (opening : ∀ handle, call = .opening handle →
      (s.lib.conn handle).connIndex = 0 ∧ (s.lib.conn handle).cnFlags = 0) :
    Held { s with
      asked := s.asked ++ [s.made]
      made := s.made + 1
      waiting := some ⟨s.made, call, timeOut, false⟩ } := by
  refine ⟨held.kept, ?_, ?_, held.returned, held.due⟩
  · rintro waiting ⟨⟩
    show s.lib.port.filterMap Msg.answers ++ (s.asked ++ [s.made]) = _
    rw [← List.append_assoc]
    exact congrArg (· ++ [s.made]) none
  · rintro waiting handle ⟨⟩ isOpening
    exact opening handle isOpening

theorem Lib.unused_some {s : Lib} {handle : Handle} (found : s.unused = some handle) :
    (s.conn handle).connIndex = 0 := by
  have := List.find?_some found
  simpa using this

theorem Held.call (held : s.Held) (ask : Ask) (timeOut : BitVec 16)
    (proper : (s.lib.begin ask).1 = none ∨ s.pending = []) : (s.call ask timeOut).Held := by
  have same : ∀ call, (s.lib.begin ask) = (call, s.lib) → (∀ handle, call ≠ some (.opening handle)) →
      (s.call ask timeOut).Held := by
    intro call begins notOpening
    unfold System.call
    rw [begins] at proper ⊢
    cases call with
    | none => exact held
    | some call =>
      exact held.made call timeOut (proper.resolve_left (Option.some_ne_none _))
        fun handle isOpening => absurd (congrArg some isOpening) (notOpening handle)
  cases ask with
  | tcpOpen recvPort =>
    cases unused : s.lib.unused with
    | none =>
      refine same none ?_ fun _ => (Option.some_ne_none _).symm
      show (match s.lib.unused with | none => _ | some handle => _) = _
      rw [unused]
    | some handle =>
      have closed := Lib.unused_some unused
      have begins : s.lib.begin (.tcpOpen recvPort) =
          (if recvPort then some (.opening handle) else none,
            s.lib.set handle (s.lib.conn handle).inz) := by
        show (match s.lib.unused with | none => _ | some handle => _) = _
        rw [unused]
      have set : Held { s with lib := s.lib.set handle (s.lib.conn handle).inz } :=
        held.set handle (fun stored keeps => keeps.closed closed fun _ => rfl) id fun _ => rfl
      unfold System.call
      rw [begins] at proper ⊢
      cases recvPort with
      | false => exact set
      | true =>
        refine set.made (.opening handle) timeOut (proper.resolve_left (Option.some_ne_none _)) ?_
        rintro which ⟨⟩
        show (Function.update s.lib.conn handle _ handle).connIndex = 0 ∧
          (Function.update s.lib.conn handle _ handle).cnFlags = 0
        rw [update_self]
        exact ⟨closed, rfl⟩
  | tcpAbort handle =>
    refine same _ rfl fun which => ?_
    split <;> simp
  | tcpClose handle =>
    refine same _ rfl fun which => ?_
    split <;> simp
  | tcpMove handle =>
    refine same _ rfl fun which => ?_
    split <;> simp
  | tcpStop => exact same _ rfl fun which => by simp
  | tcpResume => exact same _ rfl fun which => by simp

theorem finish_held (kept : ∀ handle, (s.account handle).Kept) (sendPort : Bool) (waiting : Waiting)
    (returned : Returned)
    (opening : ∀ handle, waiting.call = .opening handle →
      (s.lib.conn handle).connIndex = 0 ∧ (s.lib.conn handle).cnFlags = 0)
    (before : ∀ command returned, (command, returned) ∈ s.returned →
      returned ≠ .ebadresp ∧ ∀ other answer, returned = .answer other answer → other = command)
    (own : returned ≠ .ebadresp ∧
      ∀ other answer, returned = .answer other answer → other = waiting.command)
    (due : ∀ handle notice, (notice, false) ∈ s.heard handle → ∃ byteNo, notice = .urgent byteNo) :
    (s.finish sendPort waiting returned).Held := by
  refine ⟨account_finish kept sendPort waiting returned opening, ?_, ?_, ?_, due⟩
  · intro later isWaiting
    cases isWaiting
  · intro later handle isWaiting
    cases isWaiting
  · intro command result mem
    rcases List.mem_append.mp mem with older | new
    · exact before command result older
    · cases List.mem_singleton.mp new
      exact own

theorem due_append (held : s.Held) {handle : Handle} {notice : Notice} (which : Handle)
    (other : Notice) (mem : (other, false) ∈ s.hears (.notice handle notice) which) :
    ∃ byteNo, other = .urgent byteNo := by
  change (other, false) ∈ Function.update s.heard handle _ which at mem
  by_cases isHandle : which = handle
  · subst isHandle
    rw [update_self] at mem
    rcases List.mem_append.mp mem with older | new
    · exact held.due which other older
    · have new := List.mem_singleton.mp new
      cases notice with
      | urgent byteNo => exact ⟨byteNo, congrArg Prod.fst new⟩
      | _ => cases congrArg Prod.snd new
  · rw [update_of_ne isHandle] at mem
    exact held.due which other mem

theorem inPort_of_ne {msg : Msg} {rest : List Msg} {handle : Handle} (first : s.lib.port = msg :: rest)
    (noNotice : msg.about handle = none) : s.inPort handle = rest.filterMap (Msg.about handle) := by
  unfold inPort
  rw [first]
  exact List.filterMap_cons_none noNotice

theorem inPort_self {notice : Notice} {rest : List Msg} {handle : Handle}
    (first : s.lib.port = .notice handle notice :: rest) :
    s.inPort handle = notice :: rest.filterMap (Msg.about handle) := by
  unfold inPort
  rw [first]
  exact List.filterMap_cons_some (about_self handle notice)

theorem account_drop {msg : Msg} {rest : List Msg} (handle : Handle)
    (first : s.lib.port = msg :: rest) (noNotice : msg.about handle = none) :
    account { s with lib := { s.lib with port := rest } } handle = s.account handle := by
  unfold account
  rw [inPort_of_ne first noNotice]
  rfl

theorem kept_read (held : s.Held) {handle : Handle} {notice : Notice} {rest : List Msg}
    (first : s.lib.port = .notice handle notice :: rest) {next : System}
    (port : next.lib.port = rest) (sent : next.sent = s.sent)
    (heard : next.heard = s.hears (.notice handle notice))
    (outcome : ∀ other, other ≠ handle → next.outcome other = s.outcome other)
    (conn : ∀ other, other ≠ handle → next.lib.conn other = s.lib.conn other)
    (itself : Account.Kept ⟨s.sent handle,
      s.heard handle ++ [(notice, notice.due (s.lib.conn handle).rcvCount)],
      next.outcome handle, next.lib.conn handle, rest.filterMap (Msg.about handle)⟩)
    (which : Handle) : (next.account which).Kept := by
  refine kept_of handle held.kept (fun other differ => ?_) ?_ which
  · unfold account
    rw [inPort_of_ne first (about_of_ne differ notice), sent, heard, outcome other differ,
      conn other differ]
    unfold inPort
    rw [port]
    show Account.mk _ (Function.update s.heard handle _ other) _ _ _ = _
    rw [update_of_ne differ]
  · unfold account inPort
    rw [sent, heard, port]
    show (Account.mk _ (Function.update s.heard handle _ handle) _ _ _).Kept
    rw [update_self]
    exact itself

theorem Held.readCmd (held : s.Held) {waiting : Waiting} (isWaiting : s.waiting = some waiting)
    (sendPort : Bool) (proper : s.proper (.readCmd sendPort) = true) :
    (s.readCmd sendPort waiting).Held := by
  have opening := fun handle => held.opening waiting handle isWaiting
  have waits : ∀ timeOut sleeping, Held { s with
      waiting := some { waiting with timeOut := timeOut, sleeping := sleeping } } := by
    intro timeOut sleeping
    refine ⟨held.kept, ?_, ?_, held.returned, held.due⟩
    · rintro later ⟨⟩
      exact held.own waiting isWaiting
    · rintro later handle ⟨⟩ isOpening
      exact opening handle isOpening
  unfold System.readCmd
  split
  next =>
    split
    next =>
      exact finish_held held.kept sendPort waiting .etcpnrdy opening held.returned
        ⟨Returned.noConfusion, fun _ _ => Returned.noConfusion⟩ held.due
    next => exact waits (waiting.timeOut - 1) false
  next awake =>
    split
    next => exact waits waiting.timeOut true
    next msg rest first =>
      have readable : s.proper (.readCmd sendPort) = match s.lib.port with
          | .notice handle notice :: _ => (s.lib.conn handle).canKeep notice
          | .update _ _ _ _ :: _ => false
          | _ => true := by
        show (s.waiting.any Waiting.sleeping || _) = _
        rw [isWaiting, Option.any_some, Bool.eq_false_iff.mpr awake, Bool.false_or]
      rw [readable, first] at proper
      cases msg with
      | answer command answer =>
        have own := held.own waiting isWaiting
        unfold pending at own
        rw [first] at own
        have isOwn : command = waiting.command := List.head_eq_of_cons_eq own
        refine finish_held (s := { s with lib := { s.lib with port := rest } }) (fun handle => ?_) sendPort
          waiting (.answer command answer) opening held.returned ⟨Returned.noConfusion, ?_⟩ held.due
        · rw [account_drop handle first rfl]
          exact held.kept handle
        · rintro other answer' ⟨⟩
          exact isOwn
      | update handle connIndex sndCnt rcvCnt => cases proper
      | notice handle notice =>
        change (s.lib.conn handle).canKeep notice = true at proper
        simp only [UserTcb.canKeep, Bool.and_eq_true, Bool.or_eq_true, decide_eq_true_eq,
          Bool.not_eq_true'] at proper
        obtain ⟨⟨isOpen, notReset⟩, other⟩ := proper
        have itself := (held.kept handle).store (inPort_self first) isOpen notReset fun due =>
          other.resolve_left fun notDue => Bool.false_ne_true (notDue.symm.trans due)
        refine ⟨kept_read held first rfl rfl rfl (fun _ _ => rfl)
          (fun which differ => update_of_ne differ ..) ?_, ?_, ?_, held.returned,
          fun which told mem => due_append held which told mem⟩
        · show Account.Kept ⟨_, _, _, Function.update s.lib.conn handle _ handle, _⟩
          rw [update_self]
          exact itself
        · intro later same
          have own := held.own later same
          unfold pending at own
          rw [first] at own
          exact own
        · intro later which same isOpening
          obtain ⟨closed, clear⟩ := held.opening later which same isOpening
          have differ : which ≠ handle := by
            rintro rfl
            exact isOpen closed
          show (Function.update s.lib.conn handle _ which).connIndex = 0 ∧
            (Function.update s.lib.conn handle _ which).cnFlags = 0
          rw [update_of_ne differ]
          exact ⟨closed, clear⟩

/-! ### TcpCmd -/

theorem Lib.kept_some {s : Lib} {handle : Handle} (found : s.kept = some handle) :
    (s.conn handle).connIndex ≠ 0 ∧ (s.conn handle).cnFlags ≠ 0 := by
  have := List.find?_some found
  simp only [Bool.and_eq_true, decide_eq_true_eq] at this
  exact ⟨this.2, this.1⟩

theorem Lib.kept_none {s : Lib} (none : s.kept = none) (handle : Handle)
    (isOpen : (s.conn handle).connIndex ≠ 0) : (s.conn handle).cnFlags = 0 := by
  have := List.find?_eq_none.mp none handle (List.mem_finRange handle)
  simp only [Bool.and_eq_true, decide_eq_true_eq, not_and] at this
  by_contra flags
  exact this flags isOpen

section

variable (held : s.Held) (idle : s.waiting = none)
include held idle

theorem Held.report (blk : CmdBlk) {handle : Handle}
    (found : s.lib.kept = some handle) : (s.tcpCmd blk).Held := by
  obtain ⟨isOpen, some⟩ := Lib.kept_some found
  let report : CmdBlk := ⟨handle, 0 ||| (s.lib.conn handle).cnFlags,
    (s.lib.conn handle).cnState.signExtend 16, (s.lib.conn handle).cnMsg,
    (s.lib.conn handle).cnPrec.signExtend 16⟩
  have result : s.lib.tcpCmd blk =
      ((true, report), s.lib.set handle { s.lib.conn handle with cnFlags := 0 }) := by
    unfold Lib.tcpCmd
    rw [found]
  have next : s.next = none := if_neg fun absent => by
    rw [absent] at found
    cases found
  have reported : s.tcpCmd blk = { s with
      lib := s.lib.set handle { s.lib.conn handle with cnFlags := 0 }
      outcome := s.become handle (.report report { s.lib.conn handle with cnFlags := 0 }) } := by
    unfold System.tcpCmd
    rw [result, next]
    show System.mk _ _ _ _ _ _
      (s.become handle (.report report (Function.update s.lib.conn handle _ handle))) _ = _
    rw [update_self]
  rw [reported]
  refine ⟨kept_of handle held.kept (fun other differ => ?_) ?_, ?_, ?_, held.returned, held.due⟩
  · show Account.mk _ _ (Function.update s.outcome handle _ other)
      (Function.update s.lib.conn handle _ other) _ = _
    rw [update_of_ne differ, update_of_ne differ]
    rfl
  · show Account.Kept ⟨_, _, Function.update s.outcome handle _ handle,
      Function.update s.lib.conn handle _ handle, _⟩
    rw [update_self, update_self]
    exact (held.kept handle).report isOpen some BitVec.zero_or rfl rfl rfl
  · intro waiting isWaiting
    cases idle.symm.trans isWaiting
  · intro waiting which isWaiting
    cases idle.symm.trans isWaiting

theorem Held.hear (blk : CmdBlk) {handle : Handle}
    {notice : Notice} {rest : List Msg} (none : s.lib.kept = none)
    (first : s.lib.port = .notice handle notice :: rest) : (s.tcpCmd blk).Held := by
  have clear := Lib.kept_none none handle
  have next : s.next = some (.notice handle notice) := by
    unfold System.next
    rw [if_pos none, first]
    rfl
  have heard : (s.tcpCmd blk).heard = s.hears (.notice handle notice) := by
    unfold System.tcpCmd
    rw [next]
  have idle' : ∀ waiting, (s.tcpCmd blk).waiting ≠ some waiting := fun waiting isWaiting => by
    cases idle.symm.trans isWaiting
  have due : ∀ which told, (told, false) ∈ (s.tcpCmd blk).heard which → ∃ byteNo, told = .urgent byteNo :=
    fun which told mem => due_append held which told (heard ▸ mem)
  have rewrites : s.lib.tcpCmd blk =
      if notice.due (s.lib.conn handle).rcvCount then
        ((true, CmdBlk.hear { blk with cFlags := 0 } handle notice),
          Lib.set { s.lib with port := rest } handle ((s.lib.conn handle).hear notice))
      else ((false, { blk with cFlags := 0 }), { s.lib with port := rest }) := by
    unfold Lib.tcpCmd
    rw [none, first]
  have xPtr : (CmdBlk.hear { blk with cFlags := 0 } handle notice).xPtr = handle := by
    cases notice <;> rfl
  by_cases isDue : notice.due (s.lib.conn handle).rcvCount = true
  · rw [if_pos isDue] at rewrites
    have conns : (s.tcpCmd blk).lib =
        Lib.set { s.lib with port := rest } handle ((s.lib.conn handle).hear notice) := by
      unfold System.tcpCmd
      rw [rewrites]
    have outcomes : (s.tcpCmd blk).outcome =
        s.become handle (.report (CmdBlk.hear { blk with cFlags := 0 } handle notice)
          ((s.lib.conn handle).hear notice)) := by
      unfold System.tcpCmd
      rw [rewrites]
      show s.become (CmdBlk.xPtr _) (.report _ (Function.update s.lib.conn handle _ (CmdBlk.xPtr _))) = _
      rw [xPtr, update_self]
    refine ⟨kept_read held first (congrArg Lib.port conns) rfl heard (fun other differ => ?_)
      (fun other differ => ?_) ?_, fun waiting isWaiting => absurd isWaiting (idle' waiting),
      fun waiting _ isWaiting => absurd isWaiting (idle' waiting), held.returned, due⟩
    · rw [outcomes]
      exact update_of_ne differ ..
    · rw [conns]
      exact update_of_ne differ ..
    · rw [outcomes, conns]
      show Account.Kept ⟨_, _, Function.update s.outcome handle _ handle,
        Function.update s.lib.conn handle _ handle, _⟩
      rw [update_self, update_self]
      exact (held.kept handle).hear (inPort_self first) clear isDue _ rfl handle
  · rw [if_neg isDue] at rewrites
    have conns : (s.tcpCmd blk).lib = { s.lib with port := rest } := by
      unfold System.tcpCmd
      rw [rewrites]
    have outcomes : (s.tcpCmd blk).outcome = s.outcome := by
      unfold System.tcpCmd
      rw [rewrites]
      rfl
    refine ⟨kept_read held first (congrArg Lib.port conns) rfl heard (fun other _ => ?_)
      (fun other _ => ?_) ?_, fun waiting isWaiting => absurd isWaiting (idle' waiting),
      fun waiting _ isWaiting => absurd isWaiting (idle' waiting), held.returned, due⟩
    · rw [outcomes]
    · rw [conns]
    · rw [outcomes, conns]
      exact (held.kept handle).skip (inPort_self first) (Bool.eq_false_iff.mpr isDue)

theorem Held.drop {msg : Msg} {rest : List Msg}
    (first : s.lib.port = msg :: rest) (noNotice : ∀ handle, msg.about handle = none) :
    Held { s with lib := { s.lib with port := rest } } := by
  refine ⟨fun handle => ?_, ?_, held.opening, held.returned, held.due⟩
  · rw [account_drop handle first (noNotice handle)]
    exact held.kept handle
  · intro waiting isWaiting
    cases idle.symm.trans isWaiting

theorem Held.tcpCmd (blk : CmdBlk)
    (proper : s.proper (.tcpCmd blk) = true) : (s.tcpCmd blk).Held := by
  cases found : s.lib.kept with
  | some handle => exact held.report idle blk found
  | none =>
    cases first : s.lib.port with
    | nil =>
      have same : s.tcpCmd blk = s := by
        have result : s.lib.tcpCmd blk = ((false, { blk with cFlags := 0 }), s.lib) := by
          unfold Lib.tcpCmd
          rw [found, first]
        have next : s.next = none := by
          unfold System.next
          rw [if_pos found, first]
          rfl
        unfold System.tcpCmd
        rw [result, next]
        rfl
      exact same.symm ▸ held
    | cons msg rest =>
      have next : s.next = some msg := by
        unfold System.next
        rw [if_pos found, first]
        rfl
      cases msg with
      | notice handle notice => exact held.hear idle blk found first
      | answer command answer =>
        have dropped : s.tcpCmd blk = { s with lib := { s.lib with port := rest } } := by
          have result : s.lib.tcpCmd blk =
              ((false, { blk with cFlags := 0 }), { s.lib with port := rest }) := by
            unfold Lib.tcpCmd
            rw [found, first]
          unfold System.tcpCmd
          rw [result, next]
          rfl
        rw [dropped]
        exact held.drop idle first fun _ => rfl
      | update handle connIndex sndCnt rcvCnt =>
        have isOpen : (s.lib.conn handle).connIndex ≠ 0 := by
          have readable : s.proper (.tcpCmd blk) = match s.next with
              | some (.update handle _ _ _) => decide ((s.lib.conn handle).connIndex ≠ 0)
              | _ => true := rfl
          rw [readable, next] at proper
          exact of_decide_eq_true proper
        let x : UserTcb := { s.lib.conn handle with
          connIndex := connIndex
          sndCount := (s.lib.conn handle).sndCount + sndCnt
          rcvCount := rcvCnt }
        have updated : s.tcpCmd blk =
            { s with lib := Lib.set { s.lib with port := rest } handle x } := by
          have result : s.lib.tcpCmd blk =
              ((false, { blk with cFlags := 0 }), Lib.set { s.lib with port := rest } handle x) := by
            unfold Lib.tcpCmd
            rw [found, first]
          unfold System.tcpCmd
          rw [result, next]
          rfl
        rw [updated]
        refine Held.set (s := { s with lib := { s.lib with port := rest } })
          (held.drop idle first fun _ => rfl) handle (fun stored keeps => ?_)
          (fun closed => absurd closed isOpen) id
        have clear := Lib.kept_none found handle isOpen
        have empty : stored = [] := flags_eq_zero ((keeps.flags isOpen).symm.trans clear)
        subst empty
        exact ⟨fun some => absurd rfl some, fun _ => clear, List.nodup_nil,
          fun _ mem => absurd mem (List.not_mem_nil)⟩

end

/-! ### Calling TcpCmd again and again -/

/-- How much there is to do for `TcpCmd`: the messages in the port and the connections with flags.
-/
def work (s : System) : Nat :=
  s.lib.port.length + (Finset.univ.filter fun handle => (s.lib.conn handle).cnFlags ≠ 0).card

/-- There is nothing left for `TcpCmd`. -/
def Done (s : System) : Prop := s.lib.port = [] ∧ s.lib.kept = none

theorem done_of_work {s : System} (none : s.work = 0) : s.Done := by
  have port : s.lib.port = [] := List.eq_nil_of_length_eq_zero (by unfold work at none; omega)
  have clear := Finset.card_eq_zero.mp (Nat.eq_zero_of_add_eq_zero_left none)
  refine ⟨port, ?_⟩
  cases found : s.lib.kept with
  | none => rfl
  | some handle =>
    have mem : handle ∈ (Finset.univ.filter fun handle => (s.lib.conn handle).cnFlags ≠ 0) :=
      Finset.mem_filter.mpr ⟨Finset.mem_univ _, (Lib.kept_some found).2⟩
    rw [clear] at mem
    exact absurd mem (Finset.notMem_empty _)

theorem flags_set (s : Lib) (handle : Handle) {x : UserTcb}
    (same : x.cnFlags = (s.conn handle).cnFlags) (other : Handle) :
    ((s.set handle x).conn other).cnFlags = (s.conn other).cnFlags := by
  show (Function.update s.conn handle x other).cnFlags = _
  by_cases isHandle : other = handle
  · rw [isHandle, update_self, same]
  · rw [update_of_ne isHandle]

theorem tcpCmd_spec (s : Lib) (blk : CmdBlk) :
    (∃ handle, (s.conn handle).cnFlags ≠ 0 ∧
      (s.tcpCmd blk).2 = s.set handle { s.conn handle with cnFlags := 0 }) ∨
    (∃ msg, s.port = msg :: (s.tcpCmd blk).2.port ∧
      ∀ handle, ((s.tcpCmd blk).2.conn handle).cnFlags = (s.conn handle).cnFlags) ∨
    (s.port = [] ∧ s.kept = none) := by
  cases found : s.kept with
  | some handle =>
    refine .inl ⟨handle, (Lib.kept_some found).2, ?_⟩
    unfold Lib.tcpCmd
    rw [found]
  | none =>
    cases first : s.port with
    | nil =>
      exact .inr (.inr ⟨rfl, rfl⟩)
    | cons msg rest =>
      refine .inr (.inl ⟨msg, ?_⟩)
      unfold Lib.tcpCmd
      rw [found, first]
      cases msg with
      | answer command answer => exact ⟨rfl, fun _ => rfl⟩
      | update handle connIndex sndCnt rcvCnt =>
        exact ⟨rfl, flags_set { s with port := rest } handle rfl⟩
      | notice handle notice =>
        simp only
        split
        · exact ⟨rfl, flags_set { s with port := rest } handle (UserTcb.hear_cnFlags _ _)⟩
        · exact ⟨rfl, fun _ => rfl⟩

theorem work_tcpCmd (s : System) (blk : CmdBlk) :
    (s.tcpCmd blk).work < s.work ∨ s.Done := by
  rcases tcpCmd_spec s.lib blk with ⟨handle, some, clears⟩ | ⟨msg, first, same⟩ | ⟨port, none⟩
  · refine .inl ?_
    have fewer : (Finset.univ.filter fun other => ((s.tcpCmd blk).lib.conn other).cnFlags ≠ 0) ⊂
        Finset.univ.filter fun other => (s.lib.conn other).cnFlags ≠ 0 := by
      have conn : (s.tcpCmd blk).lib.conn =
          Function.update s.lib.conn handle { s.lib.conn handle with cnFlags := 0 } :=
        congrArg Lib.conn clears
      rw [conn]
      refine Finset.ssubset_iff_subset_ne.mpr ⟨fun other mem => ?_, fun same => ?_⟩
      · rw [Finset.mem_filter] at mem ⊢
        refine ⟨mem.1, ?_⟩
        by_cases isHandle : other = handle
        · exact isHandle ▸ some
        · exact update_of_ne isHandle _ s.lib.conn ▸ mem.2
      · have mem : handle ∈ Finset.univ.filter fun other => (s.lib.conn other).cnFlags ≠ 0 :=
          Finset.mem_filter.mpr ⟨Finset.mem_univ _, some⟩
        rw [← same, Finset.mem_filter, update_self] at mem
        exact mem.2 rfl
    have port : (s.lib.tcpCmd blk).2.port = s.lib.port := by
      rw [clears]
      rfl
    have card := Finset.card_lt_card fewer
    show (s.lib.tcpCmd blk).2.port.length + _ < _
    rw [port]
    unfold work
    omega
  · refine .inl ?_
    have conn : ∀ other, ((s.tcpCmd blk).lib.conn other).cnFlags = (s.lib.conn other).cnFlags := same
    have port : s.lib.port.length = (s.tcpCmd blk).lib.port.length + 1 :=
      congrArg List.length first
    unfold work
    simp only [conn]
    omega
  · exact .inr ⟨port, none⟩

theorem Done.tcpCmd {s : System} (done : s.Done) (blk : CmdBlk) : (s.tcpCmd blk).Done := by
  have same : (s.lib.tcpCmd blk).2 = s.lib := by
    unfold Lib.tcpCmd
    rw [done.2, done.1]
  show (s.lib.tcpCmd blk).2.port = [] ∧ (s.lib.tcpCmd blk).2.kept = none
  rw [same]
  exact done

theorem done_iterate (blk : CmdBlk) (count : Nat) (s : System) (enough : s.Done ∨ s.work ≤ count) :
    ((fun s => s.tcpCmd blk)^[count] s).Done := by
  induction count generalizing s with
  | zero => exact enough.elim id fun none => done_of_work (Nat.le_zero.mp none)
  | succ count inductionHypothesis =>
    rw [Function.iterate_succ_apply]
    refine inductionHypothesis _ ?_
    rcases enough with done | enough
    · exact .inl (done.tcpCmd blk)
    · rcases work_tcpCmd s blk with less | done
      · exact .inr (by omega)
      · exact .inl (done.tcpCmd blk)

/-! ### Runs -/

theorem start_held (conn : Handle → UserTcb) : (start conn).Held where
  kept handle := ⟨rfl, [], [], .nil, rfl, fun some => absurd rfl some, fun isOpen => absurd rfl isOpen,
    List.nodup_nil, fun _ mem => absurd mem (List.not_mem_nil)⟩
  own _ isWaiting := by cases isWaiting
  opening _ _ isWaiting := by cases isWaiting
  returned _ _ mem := absurd mem (List.not_mem_nil)
  due _ _ mem := absurd mem (List.not_mem_nil)

theorem Held.act (held : s.Held) {event : Event} {next : System}
    (proper : s.proper event = true) (taken : s.act event = some next) : next.Held := by
  cases event with
  | notice handle notice =>
    cases taken
    exact held.notice handle notice
  | update handle connIndex sndCnt rcvCnt =>
    cases taken
    exact held.update handle connIndex sndCnt rcvCnt
  | answer answer =>
    change (match s.asked with | [] => none | command :: rest => _) = some next at taken
    split at taken
    next => cases taken
    next command rest first =>
      cases taken
      exact held.answer answer first
  | call ask timeOut =>
    change (if _ then _ else _) = some next at taken
    split at taken
    next =>
      cases taken
      simp only [System.proper, Bool.or_eq_true, decide_eq_true_eq, List.isEmpty_iff] at proper
      exact held.call ask timeOut proper
    next => cases taken
  | readCmd sendPort =>
    obtain ⟨waiting, isWaiting, result⟩ := Option.map_eq_some_iff.mp taken
    rw [← result]
    exact held.readCmd isWaiting sendPort proper
  | tcpCmd blk =>
    change (if _ then _ else _) = some next at taken
    split at taken
    next idle =>
      cases taken
      exact held.tcpCmd idle blk proper
    next => cases taken
  | tcpReceive handle count =>
    change (if _ then _ else _) = some next at taken
    split at taken
    next =>
      cases taken
      exact held.counts handle count 0
    next => cases taken
  | tcpSend handle count =>
    change (if _ then _ else _) = some next at taken
    split at taken
    next =>
      cases taken
      exact held.counts handle 0 count
    next => cases taken

/-- In every proper run the notices that TCP has sent about a connection are those that have been
read and those in the port, in this order; the ones that were due, all but urgent notices for bytes
that had been read, are split into groups in the order in which they were sent, one for each report
of `TcpCmd`, which has the flags and the values of its group, or for an abort, and those that are
still kept; each call returns the answer to its own command or ETCPNRDY; and calls of `TcpCmd` come
to an end where nothing is in the port or kept. -/
theorem notices_reported {conn : Handle → UserTcb} {events : List Event} {s : System}
    (run : Transition.Run (Transition.Guarded (Transition.Takes act) fun s event =>
      s.proper event = true) (start conn) events s) :
    (∀ handle, s.sent handle = (s.heard handle).map Prod.fst ++ s.inPort handle ∧
      ∃ groups stored, List.Forall₂ Outcome.Accounts (s.outcome handle) groups ∧
        dueOf (s.heard handle) = groups.flatten ++ stored ∧ (s.lib.kept = none → stored = [])) ∧
    (∀ handle notice, (notice, false) ∈ s.heard handle → ∃ byteNo, notice = .urgent byteNo) ∧
    (∀ command returned, (command, returned) ∈ s.returned →
      returned = .etcpnrdy ∨ ∃ answer, returned = .answer command answer) ∧
    ∀ blk count, s.lib.port.length + numbconns ≤ count →
      ((fun s => s.tcpCmd blk)^[count] s).lib.port = [] ∧
        ((fun s => s.tcpCmd blk)^[count] s).lib.kept = none := by
  have held : s.Held := by
    refine run.always Held (start_held conn) ?_
    intro before event after held taken
    exact held.act taken.1 taken.2
  refine ⟨fun handle => ?_, held.due, fun command returned mem => ?_, fun blk count enough => ?_⟩
  · obtain ⟨sent, groups, stored, accounts, due, keeps⟩ := held.kept handle
    refine ⟨sent, groups, stored, accounts, due, fun none => ?_⟩
    by_contra some
    have isOpen := keeps.isOpen some
    exact some (flags_eq_zero ((keeps.flags isOpen).symm.trans (Lib.kept_none none handle isOpen)))
  · obtain ⟨notBad, own⟩ := held.returned command returned mem
    cases returned with
    | answer other answer => exact .inr ⟨answer, by rw [own other answer rfl]⟩
    | etcpnrdy => exact .inl rfl
    | ebadresp => exact absurd rfl notBad
  · refine done_iterate blk count s (.inr (le_trans ?_ enough))
    have card := Finset.card_filter_le (Finset.univ : Finset Handle)
      fun handle => (s.lib.conn handle).cnFlags ≠ 0
    rw [Finset.card_univ, Fintype.card_fin] at card
    unfold work
    omega

/-- A connection without a notice. -/
def noTcb : UserTcb := ⟨0, 0, 0, 0, 0, 0, 0, 0⟩

def noBlk : CmdBlk := ⟨0, 0, 0, 0, 0⟩

/-- A connection is opened; while it is being closed it comes into another state and gets a net
message, and then the user asks what there is. -/
def closing : List Event :=
  [.call (.tcpOpen true) 5, .answer (.oack 0o1000), .readCmd true, .call (.tcpClose 0) 5,
    .notice 0 (.chng 5), .notice 0 (.netmsg 3), .answer (.oack 0), .readCmd true, .readCmd true,
    .readCmd true, .notice 0 .procnr, .tcpCmd noBlk, .tcpCmd noBlk]

/-- The three notices are reported by two calls. -/
theorem closing_reported :
    let s := Transition.last act (start fun _ => noTcb) closing
    (s.outcome 0).length = 2 ∧ s.sent 0 = [.chng 5, .netmsg 3, .procnr] ∧
      ∃ groups, List.Forall₂ Outcome.Accounts (s.outcome 0) groups ∧ s.sent 0 = groups.flatten := by
  intro s
  have claims := notices_reported (s := s) (Transition.run_can (by decide +kernel))
  have none : s.lib.kept = none := by decide +kernel
  have allHeard : s.sent 0 = dueOf (s.heard 0) := by decide +kernel
  obtain ⟨-, groups, stored, accounts, due, empty⟩ := claims.1 0
  rw [empty none, List.append_nil] at due
  exact ⟨by decide +kernel, by decide +kernel, groups, accounts, allHeard.trans due⟩

/-- TCP tells of a move; `TcpCmd` reads the message, and reports nothing. -/
theorem update_unreported : ∃ s, Transition.Run (Transition.Takes act) (start fun _ => noTcb)
      [.call (.tcpOpen true) 5, .answer (.oack 0o1000), .readCmd true, .update 0 0o2000 0 0,
        .tcpCmd noBlk] s ∧
    s.lib.port = [] ∧ s.lib.kept = none ∧ ∀ handle, s.outcome handle = [] :=
  ⟨_, Transition.run_all (by decide +kernel), by decide +kernel, by decide +kernel,
    by decide +kernel⟩

end System

end NetworkUnix.Telnet.Tcplib
