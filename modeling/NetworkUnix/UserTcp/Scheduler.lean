/-
This file proves that the scheduler keeps its work list: the blocks are always
on the list or free, no two queued blocks say the same, and WorkPtr is at a
queued block or at WorkTail. What bounds the list is what backs each queued
block, an entry of FdsBffer or an active control block.
-/

import Mathlib.Data.List.Perm.Subperm
import NetworkUnix.Lib.Run
import NetworkUnix.UserTcp.Process

namespace NetworkUnix.UserTcp.Process

open Function

variable {p : Setup}

/-! ### What backs a block -/

/-- The flags of the entries that can be found in the await buffer and make work. -/
def Opcode.Waits (flags : Opcode) : Prop :=
  flags = .earin ∨ flags = .netinhp ∨ flags = .usrcmd ∨ flags = .userinhp

/-- A block for `PsipOut` is for an active control block or for FlkFlag; every other block is a copy
of an entry of FdsBffer. -/
def Backed (p : Setup) (tables : Tables) (entry : WorkBlk) : Prop :=
  (entry.portFlags = .netouthp ∧ entry.portFds = p.netFdsW ∧
      (entry.tcbPtr = .flkFlag ∨ ∃ handle ∈ tables.tcbHd, entry.tcbPtr = .tcb handle)) ∨
    entry.portFlags.Waits ∧
      tables.fdsBffer entry.portFds = ⟨entry.portFlags, entry.portFds, entry.tcbPtr⟩

theorem Opcode.Waits.used {flags : Opcode} (waits : flags.Waits) : flags ≠ .unused := by
  rintro rfl
  simp [Waits] at waits

theorem Opcode.Waits.not_recv {flags : Opcode} (waits : flags.Waits) :
    flags ≠ .userouthp ∧ flags ≠ .tcpcmd := by
  constructor <;> rintro rfl <;> simp [Waits] at waits

variable {entry : WorkBlk} {tables : Tables}

theorem Backed.mono {after : Tables} (backed : Backed p tables entry)
    (active : ∀ handle ∈ tables.tcbHd, entry.tcbPtr = .tcb handle → handle ∈ after.tcbHd)
    (kept : entry.portFlags.Waits →
      tables.fdsBffer entry.portFds = ⟨entry.portFlags, entry.portFds, entry.tcbPtr⟩ →
      after.fdsBffer entry.portFds = tables.fdsBffer entry.portFds) :
    Backed p after entry := by
  rcases backed with ⟨flags, fds, flk | ⟨handle, inside, ptr⟩⟩ | ⟨waits, copy⟩
  · exact .inl ⟨flags, fds, .inl flk⟩
  · exact .inl ⟨flags, fds, .inr ⟨handle, active handle inside ptr, ptr⟩⟩
  · exact .inr ⟨waits, (kept waits copy).trans copy⟩

theorem Backed.active {handle : Nat} (backed : Backed p tables entry) (sound : tables.Sound)
    (ptr : entry.tcbPtr = .tcb handle) :
    handle ∈ tables.tcbHd := by
  rcases backed with ⟨-, -, flk | ⟨other, inside, isOther⟩⟩ | ⟨waits, copy⟩
  · rw [flk] at ptr
    cases ptr
  · obtain rfl : other = handle := TcbPtr.tcb.inj (isOther.symm.trans ptr)
    exact inside
  · refine (@Tables.Sound.owner tables sound entry.portFds handle ?_ ?_).1
    · rw [copy]
      exact waits.used
    · rw [copy]
      exact ptr

/-- All blocks that can be backed at once. -/
def backing (p : Setup) (tables : Tables) : List WorkBlk :=
  (.flkFlag :: tables.tcbHd.map .tcb).map (fun ptr => ⟨.netouthp, ptr, p.netFdsW⟩) ++
    (List.range fdssize).map fun fd =>
      ⟨(tables.fdsBffer fd).buffFlags, (tables.fdsBffer fd).buffTcbPtr, fd⟩

theorem Backed.mem (backed : Backed p tables entry) (sound : tables.Sound) :
    entry ∈ backing p tables := by
  unfold backing
  rw [List.mem_append, List.mem_map, List.mem_map]
  rcases backed with ⟨flags, fds, pointer⟩ | ⟨waits, copy⟩
  · refine .inl ⟨entry.tcbPtr, ?_, by rw [← flags, ← fds]⟩
    rcases pointer with flk | ⟨handle, inside, ptr⟩
    · rw [flk]
      exact List.mem_cons_self
    · rw [ptr]
      exact List.mem_cons_of_mem _ (List.mem_map_of_mem inside)
  · refine .inr ⟨entry.portFds, ?_, by rw [copy]⟩
    refine List.mem_range.mpr (sound.used entry.portFds ?_).1
    rw [copy]
    exact waits.used

theorem backed_lt {entries : List WorkBlk} (sound : tables.Sound) (distinct : entries.Nodup)
    (backed : ∀ entry ∈ entries, Backed p tables entry) :
    entries.length < worksize := by
  have within : entries.length ≤ (backing p tables).length :=
    (distinct.subperm fun entry inside => (backed entry inside).mem sound).length_le
  have active := sound.active_le
  simp only [backing, List.length_append, List.length_map, List.length_cons, List.length_range]
    at within
  unfold fdssize at within
  unfold numbtcbs at active
  unfold worksize
  omega

/-! ### The invariant -/

/-- The work list is sound with these blocks, WorkPtr is at one of them or at WorkTail, the tables
are sound, and every block is backed. -/
structure Inv (p : Setup) (s : Tcp) (queue : List WorkPtr) (entries : List WorkBlk) : Prop where
  work : s.work.Sound queue entries
  workPtr : s.workPtr ∈ WorkPtr.tail :: queue
  tables : s.tables.Sound
  net : s.tables.fdsBffer p.netFdsR = ⟨.netinhp, p.netFdsR, .null⟩
  backed : ∀ entry ∈ entries, Backed p s.tables entry

/-- The invariant with some blocks. -/
def Kept (p : Setup) (s : Tcp) : Prop := ∃ queue entries, Inv p s queue entries

/-- An act has a result, which keeps the invariant. -/
def Keeps (p : Setup) (result : Option Tcp) : Prop := ∃ next, result = some next ∧ Kept p next

variable {s : Tcp} {queue : List WorkPtr} {entries : List WorkBlk}

namespace Inv

variable {after : Tables} {handle : Nat}

section

variable (inv : Inv p s queue entries)
include inv

theorem withTables (sound : after.Sound)
    (net : after.fdsBffer p.netFdsR = s.tables.fdsBffer p.netFdsR)
    (backed : ∀ entry ∈ entries, Backed p after entry) :
    Inv p { s with tables := after } queue entries :=
  ⟨inv.work, inv.workPtr, sound, net.trans inv.net, backed⟩

theorem unchanged (same : Tables.Unchanged s.tables after) :
    Inv p { s with tables := after } queue entries := by
  refine inv.withTables (inv.tables.unchanged same) ?_ fun entry inside => ?_
  · exact same.entries _ (by rw [inv.net]; simp)
  · refine (inv.backed entry inside).mono (fun handle active _ => same.tcbHd ▸ active) ?_
    intro waits copy
    exact same.entries _ (by rw [copy]; exact waits.used)

/-! ### Acts on the work list -/

theorem makeWrk {entry : WorkBlk}
    (backed : Backed p s.tables entry) :
    ∃ next queue', s.makeWrk entry = some next ∧
      Inv p next queue' ((entries.filter fun other => !decide (other = entry)) ++ [entry]) ∧
      next.tables = s.tables ∧ next.workPtr = s.workPtr ∧
      ∀ block ∈ queue, block ∈ queue' ∧ next.work.blks block = s.work.blks block := by
  obtain ⟨work, queue', made, sound, stays⟩ := inv.work.makeWrk
    fun _ => backed_lt inv.tables inv.work.distinct inv.backed
  have result : s.makeWrk entry = some { s with work } := by
    unfold Tcp.makeWrk
    rw [made]
  refine ⟨_, queue', result, ⟨sound, ?_, inv.tables, inv.net, ?_⟩, rfl, rfl, stays⟩
  · rcases List.mem_cons.mp inv.workPtr with atTail | inside
    · exact List.mem_cons.mpr (.inl atTail)
    · exact List.mem_cons_of_mem _ (stays _ inside).1
  · intro other inside
    rcases List.mem_append.mp inside with before | isEntry
    · exact inv.backed other (List.mem_of_mem_filter before)
    · rw [List.mem_singleton.mp isEntry]
      exact backed

theorem makeWrk_keeps {entry : WorkBlk}
    (backed : Backed p s.tables entry) : Keeps p (s.makeWrk entry) := by
  obtain ⟨next, queue', made, kept, -⟩ := inv.makeWrk backed
  exact ⟨next, made, queue', _, kept⟩

theorem remove (inside : s.workPtr ∈ queue) (sound : after.Sound)
    (net : after.fdsBffer p.netFdsR = s.tables.fdsBffer p.netFdsR)
    (backed : ∀ entry ∈ entries, entry ≠ s.block → Backed p after entry) :
    ∃ next queue', { s with tables := after }.remove = some next ∧ next.tables = after ∧
      Inv p next queue' (entries.filter fun entry => !decide (entry = s.block)) := by
  obtain ⟨workPtr, ahead, member, apart⟩ := inv.work.next_ne inside
  obtain ⟨work, deleted, -, soundWork, -⟩ := inv.work.delete inside
  have result : { s with tables := after }.remove =
      some { s with work, workPtr, tables := after } := by
    unfold Tcp.remove
    dsimp only
    rw [ahead, deleted]
  refine ⟨_, _, result, rfl, soundWork, ?_, sound, net.trans inv.net, fun entry member => ?_⟩
  · rcases List.mem_cons.mp member with atTail | queued
    · exact List.mem_cons.mpr (.inl atTail)
    · exact List.mem_cons_of_mem _ ((List.mem_erase_of_ne apart).mpr queued)
  · obtain ⟨before, other⟩ := List.mem_filter.mp member
    exact backed entry before (by simpa using other)

theorem abort (active : handle ∈ s.tables.tcbHd)
    (elsewhere : s.workPtr = .tail ∨ s.block.tcbPtr ≠ .tcb handle) :
    ∃ next queue', s.abort handle = some next ∧ next.tables = s.tables.abort handle ∧
      Inv p next queue' (entries.filter fun entry => !decide (entry.tcbPtr = .tcb handle)) := by
  obtain ⟨work, forgot, -, sound⟩ := inv.work.forget handle
  have result : s.abort handle = some { s with work, tables := s.tables.abort handle } := by
    unfold Tcp.abort
    rw [forgot]
  have cleared := s.tables.abort_cleared handle
  have send := inv.tables.sends handle active
  have recv := inv.tables.recvs handle active
  refine ⟨_, _, result, rfl, sound, ?_, inv.tables.abort active, ?_, ?_⟩
  · rcases List.mem_cons.mp inv.workPtr with atTail | inside
    · exact List.mem_cons.mpr (.inl atTail)
    · rcases elsewhere with atTail | other
      · exact List.mem_cons.mpr (.inl atTail)
      · refine List.mem_cons_of_mem _ (List.mem_filter.mpr ⟨inside, ?_⟩)
        simpa [Tcp.block] using other
  · refine (cleared.others _ ?_ ?_).trans inv.net
    · intro same
      rw [← same, inv.net] at send
      simp at send
    · intro same
      rw [← same, inv.net] at recv
      simp at recv
  · intro entry member
    obtain ⟨before, notHandle⟩ := List.mem_filter.mp member
    replace notHandle : entry.tcbPtr ≠ .tcb handle := by simpa using notHandle
    refine (inv.backed entry before).mono ?_ ?_
    · intro other otherActive ptr
      rw [(s.tables.abort_lists active).1, inv.tables.active_distinct.mem_erase_iff]
      refine ⟨?_, otherActive⟩
      rintro rfl
      exact notHandle ptr
    · intro waits copy
      refine cleared.others _ ?_ ?_
      · intro same
        rw [← same, copy] at send
        exact notHandle (congrArg FdsBlk.buffTcbPtr send)
      · intro same
        rw [← same, copy] at recv
        exact waits.not_recv.1 (congrArg FdsBlk.buffFlags recv)

theorem leave (active : handle ∈ s.tables.tcbHd) :
    ∃ next queue', s.leave handle = some next ∧ next.tables = s.tables.abort handle ∧
      Inv p next queue' (entries.filter fun entry => !decide (entry.tcbPtr = .tcb handle)) := by
  obtain ⟨workPtr, passed, place⟩ := inv.work.past (.tcb handle) inv.workPtr
  have moved : Inv p { s with workPtr } queue entries := by
    refine ⟨inv.work, ?_, inv.tables, inv.net, inv.backed⟩
    exact List.mem_cons.mpr (place.imp id And.left)
  obtain ⟨next, queue', aborted, tables, kept⟩ := moved.abort active (place.imp id And.right)
  refine ⟨next, queue', ?_, tables, kept⟩
  unfold Tcp.leave
  rw [passed]
  exact aborted

theorem leave_keeps (active : handle ∈ s.tables.tcbHd) :
    Keeps p (s.leave handle) := by
  obtain ⟨next, queue', left, -, kept⟩ := inv.leave active
  exact ⟨next, left, queue', _, kept⟩

end

theorem userGone (saveFds : Nat) {handles : List Nat} (inv : Inv p s queue entries)
    (distinct : handles.Nodup) (active : ∀ handle ∈ handles, handle ∈ s.tables.tcbHd) :
    Keeps p (Tcp.userGone p saveFds handles s) := by
  induction handles generalizing s queue entries with
  | nil => exact ⟨s, rfl, queue, entries, inv⟩
  | cons handle rest inductionHypothesis =>
    have here := active handle List.mem_cons_self
    have others : ∀ other ∈ rest, other ∈ s.tables.tcbHd := fun other inside =>
      active other (List.mem_cons_of_mem _ inside)
    have further := (List.nodup_cons.mp distinct).2
    have left : ∃ next, s.leave handle = some next ∧ Keeps p (Tcp.userGone p saveFds rest next) := by
      obtain ⟨next, queue', isNext, tables, kept⟩ := inv.leave here
      refine ⟨next, isNext, inductionHypothesis kept further fun other inside => ?_⟩
      rw [tables, (s.tables.abort_lists here).1, inv.tables.active_distinct.mem_erase_iff]
      refine ⟨?_, others other inside⟩
      rintro rfl
      exact (List.nodup_cons.mp distinct).1 inside
    have worked : ∃ next, s.makeWrk (Tcp.netOut p (.tcb handle)) = some next ∧
        Keeps p (Tcp.userGone p saveFds rest next) := by
      obtain ⟨next, queue', isNext, kept, tables, -⟩ := inv.makeWrk
        (show Backed p s.tables (Tcp.netOut p (.tcb handle)) from
          .inl ⟨rfl, rfl, .inr ⟨handle, here, rfl⟩⟩)
      exact ⟨next, isNext,
        inductionHypothesis kept further fun other inside => tables ▸ others other inside⟩
    obtain ⟨_, isLeft, leftKeeps⟩ := left
    obtain ⟨_, isWorked, workedKeeps⟩ := worked
    unfold Tcp.userGone
    split_ifs with isUser
    · cases (s.tables.tcb handle).state <;> simp only [isLeft, isWorked] <;>
        first | exact leftKeeps | exact workedKeeps
    · exact inductionHypothesis inv further others

/-! ### The return codes -/

section

variable (inv : Inv p s queue entries)
include inv

theorem queued {routine : Opcode}
    (running : s.routine = some routine) :
    s.workPtr ∈ queue ∧ s.block.portFlags = routine ∧ s.block ∈ entries := by
  unfold Tcp.routine at running
  split_ifs at running with atTail
  have inside := (List.mem_cons.mp inv.workPtr).resolve_left atTail
  exact ⟨inside, Option.some.inj running, inv.work.blks_mem inside⟩

theorem afterWork {routine : Opcode} {code : WorkRet}
    (running : s.routine = some routine) (may : returns routine s.block.tcbPtr code = true) :
    Keeps p (s.afterWork code) := by
  obtain ⟨inside, -, isEntry⟩ := inv.queued running
  cases code with
  | remove =>
    obtain ⟨next, queue', removed, -, kept⟩ := inv.remove inside inv.tables rfl
      fun entry member _ => inv.backed entry member
    exact ⟨next, removed, queue', _, kept⟩
  | keep =>
    obtain ⟨workPtr, ahead, member⟩ := inv.work.next_mem (List.mem_cons_of_mem _ inside)
    refine ⟨{ s with workPtr }, ?_, queue, entries, inv.work, member, inv.tables, inv.net,
      inv.backed⟩
    unfold Tcp.afterWork
    rw [ahead]
  | requeue =>
    obtain ⟨before, back, beforeMember, -⟩ := inv.work.last_mem inside
    obtain ⟨after, queue', made, kept, -, -, stays⟩ := inv.makeWrk (inv.backed _ isEntry)
    have still : before ∈ WorkPtr.head :: queue' := by
      rcases List.mem_cons.mp beforeMember with isHead | queued
      · exact List.mem_cons.mpr (.inl isHead)
      · exact List.mem_cons_of_mem _ (stays _ queued).1
    obtain ⟨workPtr, ahead, member⟩ := kept.work.next_mem still
    refine ⟨{ after with workPtr }, ?_, queue', _, kept.work, member, kept.tables, kept.net,
      kept.backed⟩
    unfold Tcp.afterWork
    rw [back, made]
    simp only [ahead]
  | abort =>
    have backed := inv.backed _ isEntry
    cases isPtr : s.block.tcbPtr with
    | tcb handle =>
      have kept := inv.leave_keeps (backed.active inv.tables isPtr)
      unfold Tcp.afterWork
      rw [isPtr]
      exact kept
    | null => simp [returns, isPtr] at may
    | fds fd => simp [returns, isPtr] at may
    | flkFlag => simp [returns, isPtr] at may

theorem afterClose (inside : s.workPtr ∈ queue) (sound : after.Sound)
    (net : after.fdsBffer p.netFdsR = s.tables.fdsBffer p.netFdsR)
    (backed : ∀ entry ∈ entries, entry ≠ s.block → Backed p after entry) :
    Keeps p ({ s with tables := after }.afterClose p) := by
  obtain ⟨next, queue', removed, -, kept⟩ := inv.remove inside sound net backed
  unfold Tcp.afterClose
  rw [removed]
  exact kept.userGone _ kept.tables.active_distinct fun _ inside => inside

/-! ### The commands -/

theorem opened {port : Int} {snd rcv : Nat}
    (isOpen : Tables.Opened s.tables after handle port snd rcv) :
    Inv p { s with tables := after } queue entries := by
  refine inv.withTables (isOpen.sound inv.tables) ?_ fun entry inside => ?_
  · exact isOpen.entered.keeps inv.tables (by rw [inv.net]; simp)
  · refine (inv.backed entry inside).mono ?_ ?_
    · intro other active _
      rw [isOpen.tcbHd]
      exact List.mem_cons_of_mem _ active
    · intro waits copy
      exact isOpen.entered.keeps inv.tables (by rw [copy]; exact waits.used)

theorem command (running : s.routine = some .usrcmd) :
    s.workPtr ∈ queue ∧ s.tables.fdsBffer s.block.portFds =
      ⟨.usrcmd, s.block.portFds, s.block.tcbPtr⟩ ∧ ∃ fDesc, s.block.tcbPtr = .fds fDesc := by
  obtain ⟨inside, flags, isEntry⟩ := inv.queued running
  refine ⟨inside, ?_⟩
  rcases inv.backed _ isEntry with ⟨isOut, -⟩ | ⟨-, copy⟩
  · rw [isOut] at flags
    cases flags
  · rw [flags] at copy
    obtain ⟨fDesc, ptr, -⟩ := inv.tables.cmds s.block.portFds (by rw [copy])
    rw [copy] at ptr
    exact ⟨copy, fDesc, ptr⟩

theorem oopen {msg : MOpen} {outside : OpenWith}
    (running : s.routine = some .usrcmd) (isFresh : s.tables.fresh outside = true)
    (ends : s.tables.searches p.auth = false) (inTable : Tables.inTable outside = true) :
    Keeps p (s.oopen p msg outside) := by
  obtain ⟨-, -, fDesc, ptr⟩ := inv.command running
  obtain ⟨out, result⟩ := s.tables.oopen_isSome s.block.portFds fDesc msg outside ends
  have answered := Tables.oopen_answered inv.tables isFresh inTable result
  unfold Tcp.oopen
  rw [ptr]
  dsimp only
  rw [result]
  have acked : ∀ (handle : Nat) (after : Tables) (port : Int) (snd rcv : Nat),
      Tables.Opened s.tables after handle port snd rcv →
      Keeps p (if msg.openMode = 0 then
        { s with tables := after }.makeWrk (Tcp.netOut p (.tcb handle))
        else some { s with tables := after }) := by
    intro handle after port snd rcv isOpen
    have kept := inv.opened isOpen
    split
    · refine kept.makeWrk_keeps (.inl ⟨rfl, rfl, .inr ⟨handle, ?_, rfl⟩⟩)
      show handle ∈ after.tcbHd
      rw [isOpen.tcbHd]
      exact List.mem_cons_self
    · exact ⟨_, rfl, queue, entries, kept⟩
  cases answered with
  | refused code after same => exact ⟨_, rfl, queue, entries, inv.unchanged same⟩
  | leaked code after same => exact ⟨_, rfl, queue, entries, inv.unchanged same⟩
  | done handle after port snd rcv isOpen => exact acked handle after port snd rcv isOpen
  | doneGiven handle after i j snd rcv isOpen => exact acked handle after _ snd rcv isOpen

theorem netOut (active : handle ∈ s.tables.tcbHd) :
    Keeps p (s.makeWrk (Tcp.netOut p (.tcb handle))) :=
  inv.makeWrk_keeps (.inl ⟨rfl, rfl, .inr ⟨handle, active, rfl⟩⟩)

theorem change (handle : Nat) (state : ConnState) (dst : Skt) :
    Inv p { s with tables := s.tables.change handle state dst } queue entries := by
  refine inv.unchanged ⟨rfl, rfl, fun other _ => ?_, fun _ => rfl, fun _ _ => rfl, rfl,
    inv.tables.queued⟩
  show ((Function.update s.tables.tcb handle _) other : TcpTcb).sendPort = _ ∧
    ((Function.update s.tables.tcb handle _) other : TcpTcb).recvPort = _ ∧
    ((Function.update s.tables.tcb handle _) other : TcpTcb).srcePort = _
  by_cases same : other = handle
  · subst same
    rw [update_self]
    exact ⟨rfl, rfl, rfl⟩
  · rw [update_of_ne same]
    exact ⟨rfl, rfl, rfl⟩

theorem retranQ {retranQ : List Nat}
    (active : ∀ handle ∈ retranQ, handle ∈ s.tables.tcbHd) :
    Inv p { s with tables := { s.tables with retranQ } } queue entries :=
  inv.unchanged ⟨rfl, rfl, fun _ _ => ⟨rfl, rfl, rfl⟩, fun _ => rfl, fun _ _ => rfl, rfl, active⟩

theorem ifOwned {act : Tcp → Option Tcp}
    (keeps : handle ∈ s.tables.tcbHd → Keeps p (act s)) : Keeps p (s.ifOwned handle act) := by
  unfold Tcp.ifOwned Tables.chkPtr
  split_ifs with owned
  · exact keeps (by simp_all)
  · exact ⟨s, rfl, queue, entries, inv⟩

theorem oclose (active : handle ∈ s.tables.tcbHd) :
    Keeps p (s.oclose p handle) := by
  have closed : Keeps p
      (some { s with tables := s.tables.change handle .closed (s.tables.tcb handle).dst }) :=
    ⟨_, rfl, queue, entries, inv.change handle _ _⟩
  unfold Tcp.oclose
  cases (s.tables.tcb handle).state with
  | opened | synsent => exact closed
  | synrecd | estab | closewait => exact inv.netOut active
  | closed | finwait | closing => exact ⟨s, rfl, queue, entries, inv⟩

theorem oabort (running : s.routine = some .usrcmd)
    (active : handle ∈ s.tables.tcbHd) : Keeps p (s.oabort p handle) := by
  have aborted : Keeps p (s.abort handle) := by
    obtain ⟨-, -, fDesc, ptr⟩ := inv.command running
    have elsewhere : s.block.tcbPtr ≠ .tcb handle := by
      rw [ptr]
      exact TcbPtr.noConfusion
    obtain ⟨next, queue', isNext, -, kept⟩ := inv.abort active (.inr elsewhere)
    exact ⟨next, isNext, queue', _, kept⟩
  unfold Tcp.oabort
  cases (s.tables.tcb handle).state with
  | closed | opened | synsent => exact aborted
  | synrecd | estab | finwait | closewait | closing => exact inv.netOut active

theorem ourgent (acked : Bool) (active : handle ∈ s.tables.tcbHd) :
    Keeps p (s.ourgent p handle acked) := by
  unfold Tcp.ourgent
  split_ifs
  · exact inv.netOut active
  · exact ⟨s, rfl, queue, entries, inv⟩

theorem exchange_backed {mover acceptor : Nat}
    (moverActive : mover ∈ s.tables.tcbHd) (acceptorActive : acceptor ∈ s.tables.tcbHd)
    {entry : WorkBlk} (backed : Backed p s.tables entry) :
    Backed p (s.tables.exchange mover acceptor) (entry.exchange acceptor mover) := by
  rcases backed with ⟨flags, fds, flk | ⟨handle, inside, ptr⟩⟩ | ⟨waits, copy⟩
  · refine .inl ⟨flags, fds, .inl ?_⟩
    show entry.tcbPtr.exchange acceptor mover = _
    rw [flk]
    rfl
  · refine .inl ⟨flags, fds, .inr ⟨Tables.across mover acceptor handle, ?_, ?_⟩⟩
    · show _ ∈ s.tables.tcbHd
      unfold Tables.across
      split_ifs <;> assumption
    · show entry.tcbPtr.exchange acceptor mover = _
      rw [ptr, Tables.exchange_tcb]
  · refine .inr ⟨waits, ?_⟩
    have moved := (Tables.exchange_entry inv.tables mover acceptor entry.portFds).2
      (by rw [copy]; exact waits.used)
    rw [copy] at moved
    exact moved

theorem omove {mover : Nat} (misc : Int)
    (active : mover ∈ s.tables.tcbHd) : Keeps p (s.omove p mover misc) := by
  unfold Tcp.omove
  cases found : s.tables.acceptor p.auth misc mover with
  | none => exact ⟨s, rfl, queue, entries, inv⟩
  | some acceptor =>
    unfold Tables.acceptor at found
    split at found
    next movable =>
      have accepts := List.find?_some found
      have acceptorActive := List.mem_of_find?_eq_some found
      have apart : acceptor ≠ mover := by
        rintro rfl
        simp only [Tables.accepts, Bool.and_eq_true, decide_eq_true_eq] at accepts
        rw [accepts.1.1.2] at movable
        simp at movable
      obtain ⟨work, exchanged, soundWork⟩ := inv.work.exchange acceptor mover
      have sound := inv.tables.exchange apart active acceptorActive
      have kept : Inv p { s with work, tables := s.tables.exchange mover acceptor } queue
          (entries.map (WorkBlk.exchange acceptor mover)) := by
        refine ⟨soundWork, inv.workPtr, sound, ?_, fun entry member => ?_⟩
        · have moved := (Tables.exchange_entry inv.tables mover acceptor p.netFdsR).2
            (by rw [inv.net]; simp)
          rw [inv.net] at moved
          exact moved
        · obtain ⟨before, inside, rfl⟩ := List.mem_map.mp member
          exact inv.exchange_backed active acceptorActive (inv.backed before inside)
      dsimp only
      rw [exchanged]
      exact kept.makeWrk_keeps (.inr ⟨.inr (.inr (.inr rfl)), sound.sends mover active⟩)
    next => cases found

theorem closeCmd (running : s.routine = some .usrcmd) {fDesc : Nat}
    (ptr : s.block.tcbPtr = .fds fDesc) :
    (s.tables.closeCmd s.block.portFds fDesc).Sound ∧
      (s.tables.closeCmd s.block.portFds fDesc).fdsBffer p.netFdsR =
        s.tables.fdsBffer p.netFdsR ∧
      ∀ entry ∈ entries, entry ≠ s.block →
        Backed p (s.tables.closeCmd s.block.portFds fDesc) entry := by
  obtain ⟨-, copy, -⟩ := inv.command running
  have isUser := (inv.queued running).2.1
  have flags : (s.tables.fdsBffer s.block.portFds).buffFlags = .usrcmd := by rw [copy]
  have isPtr : (s.tables.fdsBffer s.block.portFds).buffTcbPtr = .fds fDesc := by rw [copy, ptr]
  have partner : (s.tables.fdsBffer fDesc).buffFlags = .tcpcmd := by
    obtain ⟨other, isOther, partner⟩ := inv.tables.cmds _ flags
    obtain rfl : other = fDesc := TcbPtr.fds.inj (isOther.symm.trans isPtr)
    exact partner
  have cleared := s.tables.clear_clear s.block.portFds fDesc
  refine ⟨inv.tables.closeCmd flags isPtr, ?_, ?_⟩
  · refine cleared.others _ ?_ ?_
    · intro same
      rw [← same, inv.net] at flags
      cases flags
    · intro same
      rw [← same, inv.net] at partner
      cases partner
  · intro entry member other
    refine (inv.backed entry member).mono (fun _ active _ => active) fun waits isCopy => ?_
    refine cleared.others _ ?_ ?_
    · intro same
      rw [same, copy] at isCopy
      injection isCopy with sameFlags _ samePtr
      exact other (WorkBlk.ext (sameFlags.symm.trans isUser.symm) samePtr.symm same)
    · intro same
      rw [same] at isCopy
      rw [isCopy] at partner
      exact waits.not_recv.2 partner

theorem cmdClosed (running : s.routine = some .usrcmd) :
    Keeps p (s.cmdClosed p) := by
  obtain ⟨inside, -, fDesc, ptr⟩ := inv.command running
  obtain ⟨sound, net, backed⟩ := inv.closeCmd running ptr
  unfold Tcp.cmdClosed
  rw [ptr]
  exact inv.afterClose inside sound net backed

/-! ### The wait -/

theorem some_free : s.work.pool.avail ≠ none := by
  obtain ⟨free, held⟩ := inv.work.held
  have count := held.length_le
  have few := backed_lt inv.tables inv.work.distinct inv.backed
  have length := inv.work.length_eq
  cases free with
  | nil =>
    simp [workAvl] at count
    omega
  | cons block rest =>
    rw [held.stack.1]
    exact Option.some_ne_none _

theorem wake (fd : Nat) : Keeps p (s.wake fd) := by
  have works : ∀ flags : Opcode, flags.Waits → (s.tables.fdsBffer fd).buffFlags = flags →
      Keeps p (s.makeWrk
        ⟨flags, (s.tables.fdsBffer fd).buffTcbPtr, (s.tables.fdsBffer fd).buffFds⟩) := by
    intro flags waits isFlags
    refine inv.makeWrk_keeps (.inr ⟨waits, ?_⟩)
    have used := (inv.tables.used fd (by rw [isFlags]; exact waits.used)).2.2
    dsimp only
    rw [used]
    exact FdsBlk.ext isFlags used rfl
  have still : Keeps p (some s) := ⟨s, rfl, queue, entries, inv⟩
  unfold Tcp.wake
  rw [if_neg inv.some_free]
  cases isFlags : (s.tables.fdsBffer fd).buffFlags with
  | userouthp | tcpcmd | netouthp | unused => exact still
  | earin => exact works .earin (.inl rfl) isFlags
  | netinhp => exact works .netinhp (.inr (.inl rfl)) isFlags
  | usrcmd => exact works .usrcmd (.inr (.inr (.inl rfl))) isFlags
  | userinhp => exact works .userinhp (.inr (.inr (.inr rfl))) isFlags

end

end Inv

/-! ### One event -/

theorem does_keeps {event : Event} (kept : Kept p s) (can : s.can p event = true)
    (inTable : event.inTable = true) : Keeps p (s.does p event) := by
  obtain ⟨queue, entries, inv⟩ := kept
  cases event with
  | oinit usrFds fDesc =>
    simp only [Tcp.can, Bool.and_eq_true, decide_eq_true_eq, Bool.not_eq_true'] at can
    simp only [Event.inTable, Bool.and_eq_true, decide_eq_true_eq] at inTable
    obtain ⟨⟨⟨-, freshUsr⟩, freshDesc⟩, apart⟩ := can
    have entered := s.tables.enter_enter apart ⟨freshUsr, freshDesc⟩ inTable .usrcmd .tcpcmd
      (.fds fDesc) .null
    have hd : (s.tables.initUser usrFds fDesc).tcbHd = s.tables.tcbHd := by
      unfold Tables.initUser
      rw [Tables.enter_eq _ inTable.1, Tables.enter_eq _ inTable.2]
      rfl
    have sound := inv.tables.initUser apart ⟨freshUsr, freshDesc⟩ inTable
    refine ⟨_, rfl, queue, entries, inv.withTables sound ?_ fun entry inside => ?_⟩
    · exact entered.keeps inv.tables (by rw [inv.net]; simp)
    · refine (inv.backed entry inside).mono (fun handle active _ => hd ▸ active) ?_
      intro waits copy
      exact entered.keeps inv.tables (by rw [copy]; exact waits.used)
  | oopen msg outside =>
    simp only [Tcp.can, Bool.and_eq_true, decide_eq_true_eq, Bool.not_eq_true'] at can
    exact inv.oopen can.1.1 can.1.2 can.2 inTable
  | oclose handle => exact inv.ifOwned fun active => inv.oclose active
  | oabort handle =>
    simp only [Tcp.can, decide_eq_true_eq] at can
    exact inv.ifOwned fun active => inv.oabort can active
  | ourgent handle acked => exact inv.ifOwned fun active => inv.ourgent acked active
  | omove handle misc => exact inv.ifOwned fun active => inv.omove misc active
  | change handle state dst => exact ⟨_, rfl, queue, entries, inv.change handle state dst⟩
  | netOut handle =>
    simp only [Tcp.can, Bool.and_eq_true, decide_eq_true_eq] at can
    exact inv.netOut can.2
  | userIn handle =>
    simp only [Tcp.can, Bool.and_eq_true, decide_eq_true_eq] at can
    exact inv.makeWrk_keeps (.inr ⟨.inr (.inr (.inr rfl)), inv.tables.sends handle can.2⟩)
  | netIn => exact inv.makeWrk_keeps (.inr ⟨.inr (.inl rfl), inv.net⟩)
  | qTcb handle =>
    simp only [Tcp.can, Bool.and_eq_true, decide_eq_true_eq] at can
    show Keeps p (some { s with tables := s.tables.qTcb handle })
    unfold Tables.qTcb
    split_ifs
    · exact ⟨s, rfl, queue, entries, inv⟩
    · refine ⟨_, rfl, queue, entries, inv.retranQ fun other member => ?_⟩
      rcases List.mem_cons.mp member with rfl | queued
      · exact can.2
      · exact inv.tables.queued other queued
  | unQTcb handle =>
    exact ⟨_, rfl, queue, entries, inv.retranQ fun other member =>
      inv.tables.queued other (List.mem_of_mem_filter member)⟩
  | ret code =>
    simp only [Tcp.can] at can
    cases running : s.routine with
    | some routine =>
      rw [running] at can
      exact inv.afterWork running can
    | none =>
      rw [running] at can
      exact Bool.noConfusion can
  | cmdClosed =>
    simp only [Tcp.can, decide_eq_true_eq] at can
    exact inv.cmdClosed can
  | cmdHuh =>
    simp only [Tcp.can, decide_eq_true_eq] at can
    exact inv.afterClose (inv.queued can).1 inv.tables rfl fun entry inside _ =>
      inv.backed entry inside
  | flaky => exact inv.makeWrk_keeps (.inl ⟨rfl, rfl, .inl rfl⟩)
  | wake fd => exact inv.wake fd
  | retran handle =>
    simp only [Tcp.can, Bool.and_eq_true, decide_eq_true_eq] at can
    have fewer : Inv p { s with tables := s.tables.unQTcb handle } queue entries :=
      inv.retranQ fun other member => inv.tables.queued other (List.mem_of_mem_filter member)
    exact fewer.netOut (inv.tables.queued handle can.2)
  | again =>
    obtain ⟨workPtr, ahead, member⟩ := inv.work.next_mem List.mem_cons_self
    refine ⟨{ s with workPtr }, ?_, queue, entries, inv.work, member, inv.tables, inv.net,
      inv.backed⟩
    show s.again = _
    unfold Tcp.again
    rw [ahead]

/-! ### Runs -/

theorem start_kept (p : Setup) : Kept p (Tcp.start p) := by
  obtain ⟨netR, netW, ear⟩ := p.inside
  obtain ⟨apart, notR, notW⟩ := p.apart
  have first : ∀ tables : Tables, tables.Sound →
      (tables.fdsBffer p.netFdsR).buffFlags = .unused →
      (tables.fdsBffer p.netFdsW).buffFlags = .unused →
      ∀ after, after = (((tables.acquire p.netFdsR).enter p.netFdsR .netinhp .null).acquire
        p.netFdsW).enter p.netFdsW .netouthp .null →
      after.Sound ∧ after.fdsBffer p.netFdsR = ⟨.netinhp, p.netFdsR, .null⟩ := by
    rintro tables sound unusedR unusedW after rfl
    have second := sound.enterNull netR unusedR (.inr (.inl rfl))
    have stillUnused : (((tables.acquire p.netFdsR).enter p.netFdsR .netinhp .null).fdsBffer
        p.netFdsW).buffFlags = .unused := by
      rw [Tables.enter_other _ _ _ apart.symm]
      exact unusedW
    refine ⟨second.enterNull netW stillUnused (.inr (.inr rfl)), ?_⟩
    rw [Tables.enter_eq _ netW, Tables.enter_eq _ netR]
    show Function.update (Function.update _ p.netFdsR _) p.netFdsW _ p.netFdsR = _
    rw [update_of_ne apart, update_self]
  have whole : (Tcp.startTables p).Sound ∧
      (Tcp.startTables p).fdsBffer p.netFdsR = ⟨.netinhp, p.netFdsR, .null⟩ := by
    cases isEar : p.earFds with
    | none =>
      refine first _ (Tables.init_sound p.tcbList p.others) rfl rfl _ ?_
      unfold Tcp.startTables
      rw [isEar]
    | some fd =>
      have inside := ear fd isEar
      have other : ∀ port, p.earFds ≠ some port → port ≠ fd := by
        rintro port notPort rfl
        exact notPort isEar
      refine first (({ Tables.init p.tcbList with inUse := p.others }.acquire fd).enter fd .earin
        .null) ((Tables.init_sound p.tcbList p.others).enterNull inside rfl (.inl rfl)) ?_ ?_ _ ?_
      · rw [Tables.enter_other _ _ _ (other _ notR)]
        rfl
      · rw [Tables.enter_other _ _ _ (other _ notW)]
        rfl
      · unfold Tcp.startTables
        rw [isEar]
  exact ⟨[], [], WorkList.init_sound, List.mem_cons_self, whole.1, whole.2, fun _ member => by
    cases member⟩

/-- A run in which the system gives no descriptor beyond FdsBffer. -/
abbrev InTable (_ : Tcp) (event : Event) : Prop := event.inTable = true

theorem run_kept {events : List Event}
    (run : Transition.Run (Transition.Guarded (Transition.Takes (Tcp.act p)) InTable) (Tcp.start p)
      events s) : Kept p s := by
  refine run.always (Kept p) (start_kept p) ?_
  rintro before event next kept ⟨inTable, taken⟩
  unfold Transition.Takes Tcp.act at taken
  split_ifs at taken with can
  obtain ⟨after, isAfter, keptAfter⟩ := does_keeps kept can inTable
  rw [isAfter] at taken
  exact Option.some.inj taken ▸ keptAfter

/-- In every run the blocks are partitioned into the doubly linked list from WorkHead to WorkTail
and the free list; no two queued blocks say the same; there has been no call for a block when none
was free; WorkPtr is at a queued block or at WorkTail; and no queued block refers to a control
block that is not active. After `Abort` no queued block refers to the control block, and every
event that can happen does: no walk runs into a null pointer or goes on for ever. -/
theorem work_list_kept {events : List Event}
    (run : Transition.Run (Transition.Guarded (Transition.Takes (Tcp.act p)) InTable) (Tcp.start p)
      events s) :
    (∃ queue free, s.work.pool.Holds .head .tail workAvl queue free ∧
      (queue.map s.work.blks).Nodup ∧ s.workPtr ∈ WorkPtr.tail :: queue ∧
      ∀ block ∈ queue, ∀ handle, (s.work.blks block).tcbPtr = .tcb handle →
        handle ∈ s.tables.tcbHd) ∧
    s.work.noMore = false ∧
    (∀ handle ∈ s.tables.tcbHd, ∃ next queue free, s.abort handle = some next ∧
      next.work.pool.Holds .head .tail workAvl queue free ∧
      ∀ block ∈ queue, (next.work.blks block).tcbPtr ≠ .tcb handle) ∧
    ∀ event : Event, s.can p event = true → event.inTable = true →
      ∃ next, s.act p event = some next := by
  have kept := run_kept run
  obtain ⟨queue, entries, inv⟩ := id kept
  refine ⟨?_, inv.work.served, ?_, ?_⟩
  · obtain ⟨free, held⟩ := inv.work.held
    refine ⟨queue, free, held, ?_, inv.workPtr, fun block inside handle ptr => ?_⟩
    · rw [inv.work.reads]
      exact inv.work.distinct
    · exact (inv.backed _ (inv.work.blks_mem inside)).active inv.tables ptr
  · intro handle _
    obtain ⟨work, forgot, same, sound⟩ := inv.work.forget handle
    obtain ⟨free, held⟩ := sound.held
    refine ⟨{ s with work, tables := s.tables.abort handle }, _, free, ?_, held, ?_⟩
    · unfold Tcp.abort
      rw [forgot]
    · intro block inside
      have notHandle := (List.mem_filter.mp inside).2
      show (work.blks block).tcbPtr ≠ _
      rw [same]
      simpa using notHandle
  · intro event can inTable
    obtain ⟨next, isNext, -⟩ := does_keeps kept can inTable
    refine ⟨next, ?_⟩
    unfold Tcp.act
    rw [if_pos can, isNext]

/-! ### A run -/

/-- A program to try. -/
def trySetup : Setup where
  auth := false
  earFds := some 3
  netFdsR := 4
  netFdsW := 5
  others fd := decide (fd < 3)
  tcbList _ := ⟨0, .closed, 0, 0, 0, 0, 0, 0, ⟨0, 0, 0, 0, 0, 0, 0, 0, 0, fun _ => 0⟩, 0, ⟨0, 0, 0, 0⟩⟩

/-- What the system answers to an open that gets two ports. -/
def tryPorts (snd rcv : Nat) : OpenWith := ⟨7, .error .eunauth, false, some snd, some rcv⟩

/-- A user comes and opens two connections, one to a socket and one that listens; the first waits
for an answer, while a segment is processed the blocks are queued again, and it is aborted by
`PsipOut`; the user closes his command port. -/
def tryEvents : List Event :=
  [.wake 3, .again, .oinit 6 7, .ret .requeue, .ret .remove, .wake 6, .again,
    .oopen ⟨1, 0, 10, 0, 1, 0, 23⟩ (tryPorts 8 9), .oopen ⟨2, 1, 0, 0, 0, 23, 0⟩ (tryPorts 10 11),
    .ret .remove, .change 0 .synsent ⟨10, 0, 1, 23⟩, .qTcb 0, .ret .keep, .wake 4, .wake 8, .retran 0,
    .again, .netIn, .netOut 0, .userIn 0, .ret .requeue, .ret .abort, .ret .requeue, .ret .remove,
    .wake 6, .again, .cmdClosed]

theorem try_can : Transition.Can (Tcp.act trySetup) InTable (Tcp.start trySetup) tryEvents := by
  decide +kernel

theorem try_work_list :
    (Transition.last (Tcp.act trySetup) (Tcp.start trySetup) tryEvents).work.noMore = false :=
  (work_list_kept (Transition.run_can try_can)).2.1

end NetworkUnix.UserTcp.Process
