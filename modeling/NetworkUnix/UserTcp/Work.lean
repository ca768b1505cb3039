/-
This file models the work list of the user-level TCP: WORKSIZE blocks which are
either on the doubly linked list between WorkHead and WorkTail or on the free
list, with `MakeWrk`, the removal of a block, the removal of all blocks of a
connection and the exchange of two connections. Each walk along the list is
given as many steps as there are blocks and one more; a walk that took more, or
that read a link through a null pointer, has no result. The list is shown to be
a queue of distinct keys on which each act is a plain act on lists.
-/

import Mathlib.Data.List.Nodup
import NetworkUnix.Lib.Linked

namespace NetworkUnix.UserTcp.Process

open Function Linked

/-- WORKSIZE -/
def worksize : Nat := 100

/-- Opcodes for work list, which are also the flags of an entry of FdsBffer; an entry that is not
used has none of them. -/
inductive Opcode
  | unused
  | netinhp
  | netouthp
  | userinhp
  | userouthp
  | usrcmd
  | tcpcmd
  | earin
  deriving DecidableEq

/-- What a TCBPtr holds: a null pointer, a descriptor saved for the response to an open, the
address of a TCB or that of FlkFlag. -/
inductive TcbPtr
  | null
  | fds (fd : Nat)
  | tcb (index : Nat)
  | flkFlag
  deriving DecidableEq

/-- The other of two TCBs, where the pointer is to one of them. -/
def TcbPtr.exchange (one other : Nat) (ptr : TcbPtr) : TcbPtr :=
  if ptr = .tcb one then .tcb other else if ptr = .tcb other then .tcb one else ptr

/-- What a work block says. -/
@[ext]
structure WorkBlk where
  portFlags : Opcode
  tcbPtr : TcbPtr
  portFds : Nat
  deriving DecidableEq

/-- What a block says once two TCBs have been exchanged. -/
def WorkBlk.exchange (one other : Nat) (entry : WorkBlk) : WorkBlk :=
  { entry with tcbPtr := entry.tcbPtr.exchange one other }

theorem TcbPtr.exchange_exchange (one other : Nat) (ptr : TcbPtr) :
    (ptr.exchange one other).exchange one other = ptr := by
  unfold exchange
  split_ifs <;> simp_all

theorem WorkBlk.exchange_injective (one other : Nat) :
    Function.Injective (WorkBlk.exchange one other) := by
  refine Function.LeftInverse.injective (g := WorkBlk.exchange one other) fun entry => ?_
  simp [WorkBlk.exchange, TcbPtr.exchange_exchange]

/-- The nodes of the work list: the two of WorkEnds and those of WorkAvl. -/
inductive WorkPtr
  | head
  | tail
  | blk (index : Nat)
  deriving DecidableEq

/-- The blocks of WorkAvl. -/
def workAvl : List WorkPtr := (List.range worksize).map .blk

/-- The work list: its links, what is in the blocks, and whether there has been a call for a block
when there was none. -/
structure WorkList where
  pool : Pool WorkPtr
  blks : WorkPtr → WorkBlk
  noMore : Bool

namespace WorkList

/-- The work list at the start. -/
def init : WorkList where
  pool :=
    { links :=
        { next
            | .head => some .tail
            | .tail => none
            | .blk index => if index + 1 < worksize then some (.blk (index + 1)) else none
          last
            | .tail => some .head
            | _ => none }
      avail := some (.blk 0) }
  blks _ := ⟨.unused, .null, 0⟩
  noMore := false

/-- A free block is filled in and put at the end of the list. -/
def place (entry : WorkBlk) (work : WorkList) : Option WorkList :=
  match work.pool.avail with
  | none => some { work with noMore := true }
  | some block =>
    match work.pool.take .tail block with
    | some pool => some { work with pool, blks := Function.update work.blks block entry }
    | none => none

/-- A block is taken off the list and put on the free list. -/
def delete (block : WorkPtr) (work : WorkList) : Option WorkList :=
  match work.pool.release block with
  | some pool => some { work with pool }
  | none => none

/-- The first block, from the given one on, that says something else than the given pointer. -/
def past (ptr : TcbPtr) (block : WorkPtr) (work : WorkList) : Option WorkPtr :=
  seek work.pool.links.next (fun block => !decide ((work.blks block).tcbPtr = ptr)) (worksize + 1)
    block

/-- The search of `MakeWrk` for a duplicate entry; it ends at WorkTail when there is none. -/
def duplicate (entry : WorkBlk) (work : WorkList) : Option WorkPtr :=
  match work.pool.links.next .head with
  | some start =>
    seek work.pool.links.next (fun block => decide (work.blks block = entry)) (worksize + 1) start
  | none => none

/-- MakeWrk -/
def makeWrk (entry : WorkBlk) (work : WorkList) : Option WorkList :=
  match work.duplicate entry with
  | none => none
  | some found =>
    if work.pool.links.next found = none then work.place entry
    else
      match work.delete found with
      | some work => work.place entry
      | none => none

/-- The loop of `Abort` that removes the entries of a TCB. -/
def forget (index : Nat) (work : WorkList) : Option WorkList :=
  match work.pool.links.next .head with
  | some start =>
    match Pool.sweep (fun block => decide ((work.blks block).tcbPtr = .tcb index)) (worksize + 1)
        start work.pool with
    | some pool => some { work with pool }
    | none => none
  | none => none

/-- The loop of a move that exchanges two TCBs in the blocks of the list. -/
def exchangeFrom (one other : Nat) : Nat → WorkPtr → WorkList → Option WorkList
  | 0, _, _ => none
  | steps + 1, block, work =>
    match work.pool.links.next block with
    | none => some work
    | some after =>
      exchangeFrom one other steps after
        { work with
          blks := Function.update work.blks block ((work.blks block).exchange one other) }

/-- The two TCBs are exchanged in all blocks of the list. -/
def exchange (one other : Nat) (work : WorkList) : Option WorkList :=
  match work.pool.links.next .head with
  | some start => work.exchangeFrom one other (worksize + 1) start
  | none => none

/-- The blocks of the list in their order. -/
def queue (work : WorkList) : List WorkPtr :=
  match work.pool.links.next .head with
  | some start => walk work.pool.links.next (worksize + 1) start
  | none => []

/-! ### What the list means -/

/-- The blocks of the list in their order and what they say, no two of them the same. -/
structure Sound (work : WorkList) (queue : List WorkPtr) (entries : List WorkBlk) : Prop where
  held : ∃ free, work.pool.Holds .head .tail workAvl queue free
  reads : queue.map work.blks = entries
  distinct : entries.Nodup
  served : work.noMore = false

theorem ends_distinct : (WorkPtr.head :: .tail :: workAvl).Nodup := by
  unfold workAvl
  have inside : ((List.range worksize).map WorkPtr.blk).Nodup :=
    List.nodup_range.map fun one other same => WorkPtr.blk.inj same
  simp [inside]

theorem init_stack : Stack init.pool.links.next init.pool.avail workAvl := by
  have from_here : ∀ count start, start + count = worksize →
      Stack init.pool.links.next (if start < worksize then some (.blk start) else none)
        ((List.range' start count).map .blk) := by
    intro count
    induction count with
    | zero =>
      intro start all
      rw [if_neg (by omega)]
      rfl
    | succ count inductionHypothesis =>
      intro start all
      rw [if_pos (by omega), List.range'_succ, List.map_cons]
      exact ⟨rfl, inductionHypothesis (start + 1) (by omega)⟩
  have all := from_here worksize 0 (by omega)
  rw [← List.range_eq_range'] at all
  exact all

theorem init_sound : init.Sound [] [] where
  held := ⟨workAvl, ⟨rfl, rfl⟩, rfl, init_stack, by simp, ends_distinct⟩
  reads := rfl
  distinct := List.nodup_nil
  served := rfl

variable {work : WorkList} {queue : List WorkPtr} {entries : List WorkBlk}

namespace Sound

section

variable (sound : work.Sound queue entries)
include sound

theorem queue_le : queue.length < worksize + 1 := by
  obtain ⟨free, held⟩ := sound.held
  have := held.length_le
  simp [workAvl] at this
  omega

theorem queue_eq : work.queue = queue := by
  obtain ⟨free, held⟩ := sound.held
  unfold WorkList.queue
  rw [held.chain.next_first]
  exact held.chain.walk_eq held.ends sound.queue_le

theorem queue_distinct : queue.Nodup :=
  have ⟨_, held⟩ := sound.held
  held.queue_distinct

theorem length_eq : queue.length = entries.length := by
  rw [← sound.reads, List.length_map]

end

variable {block : WorkPtr}

section

variable (sound : work.Sound queue entries)
include sound

theorem blks_mem (member : block ∈ queue) :
    work.blks block ∈ entries := by
  rw [← sound.reads]
  exact List.mem_map_of_mem member

theorem blks_inj {other : WorkPtr} (member : block ∈ queue)
    (otherMember : other ∈ queue) (same : work.blks block = work.blks other) : block = other := by
  have distinct := sound.distinct
  rw [← sound.reads] at distinct
  exact List.inj_on_of_nodup_map distinct member otherMember same

theorem next_mem (member : block ∈ WorkPtr.head :: queue) :
    ∃ after, work.pool.links.next block = some after ∧ after ∈ WorkPtr.tail :: queue := by
  obtain ⟨free, held⟩ := sound.held
  exact held.chain.next_mem member

theorem next_ne (member : block ∈ queue) :
    ∃ after, work.pool.links.next block = some after ∧ after ∈ WorkPtr.tail :: queue ∧
      after ≠ block := by
  obtain ⟨free, held⟩ := sound.held
  exact held.next_mem member

theorem last_mem (member : block ∈ queue) :
    ∃ before, work.pool.links.last block = some before ∧ before ∈ WorkPtr.head :: queue ∧
      before ≠ block := by
  obtain ⟨free, held⟩ := sound.held
  exact held.last_mem member

theorem tail_ends : work.pool.links.next .tail = none := by
  obtain ⟨free, held⟩ := sound.held
  exact held.ends

theorem next_isSome (member : block ∈ queue) :
    work.pool.links.next block ≠ none := by
  obtain ⟨after, ahead, -⟩ := sound.next_mem (List.mem_cons_of_mem _ member)
  rw [ahead]
  exact Option.some_ne_none after

/-! ### One block -/

theorem place {entry : WorkBlk} (fresh : entry ∉ entries)
    {rest : List WorkPtr} (held : work.pool.Holds .head .tail workAvl queue (block :: rest)) :
    ∃ after, work.place entry = some after ∧
      after.Sound (queue ++ [block]) (entries ++ [entry]) ∧
      after.blks = Function.update work.blks block entry := by
  obtain ⟨top, pool, taken, heldAfter⟩ := held.take
  have notQueued : block ∉ queue := by
    have distinct := held.all_distinct
    simp only [List.nodup_cons, List.nodup_append, List.mem_cons] at distinct
    grind
  have placed : work.place entry =
      some { work with pool, blks := Function.update work.blks block entry } := by
    unfold WorkList.place
    rw [top]
    simp only [taken]
  refine ⟨_, placed, ⟨⟨rest, heldAfter⟩, ?_, ?_, sound.served⟩, rfl⟩
  · show (queue ++ [block]).map (Function.update work.blks block entry) = _
    rw [List.map_append, List.map_singleton, update_self, ← sound.reads]
    congr 1
    refine List.map_congr_left fun other inside => update_of_ne ?_ _ _
    rintro rfl
    exact notQueued inside
  · rw [List.nodup_append]
    refine ⟨sound.distinct, List.nodup_singleton _, ?_⟩
    intro one inside other isEntry
    rw [List.mem_singleton] at isEntry
    rintro rfl
    exact fresh (isEntry ▸ inside)

theorem delete (member : block ∈ queue) :
    ∃ after, work.delete block = some after ∧ after.blks = work.blks ∧
      after.Sound (queue.erase block)
        (entries.filter fun entry => !decide (entry = work.blks block)) ∧
      ∃ free, after.pool.Holds .head .tail workAvl (queue.erase block) (block :: free) := by
  obtain ⟨free, held⟩ := sound.held
  obtain ⟨pool, released, heldAfter⟩ := held.release member
  have deleted : work.delete block = some { work with pool } := by
    unfold WorkList.delete
    rw [released]
  refine ⟨_, deleted, rfl, ?_, free, heldAfter⟩
  refine ⟨⟨_, heldAfter⟩, ?_, sound.distinct.filter _, sound.served⟩
  rw [← sound.reads, List.filter_map, sound.queue_distinct.erase_eq_filter]
  congr 1
  refine List.filter_congr fun other inside => ?_
  by_cases same : other = block
  · simp [same]
  · have apart : work.blks other ≠ work.blks block := fun alike =>
      same (sound.blks_inj inside member alike)
    simp [same, apart]

/-! ### MakeWrk -/

theorem duplicate (entry : WorkBlk) :
    (entry ∉ entries ∧ work.duplicate entry = some .tail) ∨
      ∃ block ∈ queue, work.blks block = entry ∧ work.duplicate entry = some block := by
  obtain ⟨free, held⟩ := sound.held
  obtain ⟨start, ahead, found⟩ := held.chain.seek_eq
    held.ends sound.queue_le
  unfold WorkList.duplicate
  rw [ahead]
  show (_ ∧ seek _ _ _ _ = _) ∨ ∃ block ∈ queue, _ ∧ seek _ _ _ _ = _
  rw [found]
  cases result : queue.find? fun block => decide (work.blks block = entry) with
  | none =>
    left
    refine ⟨?_, rfl⟩
    rw [← sound.reads, List.mem_map]
    rintro ⟨block, inside, same⟩
    have := List.find?_eq_none.mp result block inside
    simp [same] at this
  | some block =>
    right
    have same := List.find?_some result
    exact ⟨block, List.mem_of_find?_eq_some result, by simpa using same, rfl⟩

theorem makeWrk {entry : WorkBlk}
    (room : entry ∉ entries → entries.length < worksize) :
    ∃ after queue', work.makeWrk entry = some after ∧
      after.Sound queue' ((entries.filter fun other => !decide (other = entry)) ++ [entry]) ∧
      ∀ block ∈ queue, block ∈ queue' ∧ after.blks block = work.blks block := by
  unfold WorkList.makeWrk
  rcases sound.duplicate entry with ⟨fresh, found⟩ | ⟨block, member, same, found⟩
  · obtain ⟨free, held⟩ := sound.held
    have count := held.length_le
    have few := room fresh
    cases free with
    | nil =>
      have length := sound.length_eq
      simp [workAvl] at count
      omega
    | cons block rest =>
      obtain ⟨after, placed, soundAfter, blks⟩ := sound.place fresh held
      have all : (entries.filter fun other => !decide (other = entry)) = entries := by
        refine List.filter_eq_self.mpr fun other inside => ?_
        have apart : other ≠ entry := by
          rintro rfl
          exact fresh inside
        simp [apart]
      rw [found, all]
      have notQueued : block ∉ queue := by
        have distinct := held.all_distinct
        simp only [List.nodup_cons, List.nodup_append, List.mem_cons] at distinct
        grind
      refine ⟨after, _, ?_, soundAfter, fun other inside => ⟨by simp [inside], ?_⟩⟩
      · simp [sound.tail_ends, placed]
      · rw [blks]
        refine update_of_ne ?_ _ _
        rintro rfl
        exact notQueued inside
  · obtain ⟨less, deleted, unread, soundLess, free, heldLess⟩ := sound.delete member
    rw [same] at soundLess
    have absent : entry ∉ entries.filter fun other => !decide (other = entry) := by simp
    obtain ⟨after, placed, soundAfter, blks⟩ := soundLess.place absent heldLess
    rw [found]
    refine ⟨after, _, by simp [sound.next_isSome member, deleted, placed], soundAfter, ?_⟩
    intro other inside
    rw [blks, unread]
    by_cases isThis : other = block
    · simp [isThis, same]
    · simp [List.mem_erase_of_ne isThis, inside, isThis]

/-! ### The other walks -/

theorem forget (index : Nat) :
    ∃ after, work.forget index = some after ∧ after.blks = work.blks ∧
      after.Sound (queue.filter fun block => !decide ((work.blks block).tcbPtr = .tcb index))
        (entries.filter fun entry => !decide (entry.tcbPtr = .tcb index)) := by
  obtain ⟨free, held⟩ := sound.held
  obtain ⟨start, pool, spare, ahead, swept, heldAfter⟩ :=
    held.sweep (fun block => decide ((work.blks block).tcbPtr = .tcb index)) sound.queue_le
  have forgot : work.forget index = some { work with pool } := by
    unfold WorkList.forget
    rw [ahead]
    simp only [swept]
  refine ⟨_, forgot, rfl, ⟨spare, heldAfter⟩, ?_, sound.distinct.filter _, sound.served⟩
  rw [← sound.reads, List.filter_map]
  rfl

theorem past (ptr : TcbPtr)
    (member : block ∈ WorkPtr.tail :: queue) :
    ∃ found, work.past ptr block = some found ∧
      (found = .tail ∨ found ∈ queue ∧ (work.blks found).tcbPtr ≠ ptr) := by
  obtain ⟨free, held⟩ := sound.held
  rcases List.mem_cons.mp member with rfl | inside
  · refine ⟨.tail, ?_, .inl rfl⟩
    unfold WorkList.past
    rw [seek, held.ends]
  · obtain ⟨found, sought, stops⟩ := held.chain.seek_from
      held.ends sound.queue_le inside
    exact ⟨found, sought, by simpa using stops⟩

end

theorem exchangeFrom {kept rest free : List WorkPtr} {steps : Nat} (one other : Nat)
    (held : work.pool.Holds .head .tail workAvl (kept ++ rest) free) (enough : rest.length < steps) :
    work.exchangeFrom one other steps (rest.head?.getD .tail) =
      some { work with
        blks := fun block =>
          if block ∈ rest then (work.blks block).exchange one other else work.blks block } := by
  induction rest generalizing work kept steps with
  | nil =>
    obtain ⟨fewer, rfl⟩ : ∃ fewer, steps = fewer + 1 := ⟨steps - 1, by simp at enough; omega⟩
    simp [WorkList.exchangeFrom, held.ends]
  | cons block others inductionHypothesis =>
    obtain ⟨fewer, rfl⟩ : ∃ fewer, steps = fewer + 1 := ⟨steps - 1, by simp at enough; omega⟩
    have further : work.pool.Holds .head .tail workAvl (kept ++ [block] ++ others) free := by
      simpa using held
    have alone : block ∉ others := by
      have := held.queue_distinct
      simp only [List.nodup_append, List.nodup_cons] at this
      exact this.2.1.1
    have ahead := held.chain.next_at
    have next := @inductionHypothesis { work with
        blks := Function.update work.blks block ((work.blks block).exchange one other) }
      (kept ++ [block]) fewer further
      (show others.length < fewer by simpa using enough)
    have unfolded : work.exchangeFrom one other (fewer + 1) block =
        WorkList.exchangeFrom one other fewer (others.head?.getD .tail) { work with
          blks := Function.update work.blks block ((work.blks block).exchange one other) } := by
      rw [WorkList.exchangeFrom, ahead]
    rw [List.head?_cons, Option.getD_some, unfolded, next]
    congr 2
    funext place
    by_cases isBlock : place = block
    · subst isBlock
      simp [alone]
    · simp [isBlock]

theorem exchange (sound : work.Sound queue entries) (one other : Nat) :
    ∃ after, work.exchange one other = some after ∧
      after.Sound queue (entries.map (WorkBlk.exchange one other)) := by
  obtain ⟨free, held⟩ := sound.held
  have walked := exchangeFrom one other
    (show work.pool.Holds .head .tail workAvl ([] ++ queue) free from held) sound.queue_le
  have exchanged : work.exchange one other =
      work.exchangeFrom one other (worksize + 1) (queue.head?.getD .tail) := by
    unfold WorkList.exchange
    rw [held.chain.next_first]
  rw [walked] at exchanged
  refine ⟨_, exchanged, ⟨free, held⟩, ?_, ?_, sound.served⟩
  · rw [← sound.reads, List.map_map]
    refine List.map_congr_left fun block inside => ?_
    simp [inside]
  · exact sound.distinct.map (WorkBlk.exchange_injective one other)

end Sound

end WorkList

end NetworkUnix.UserTcp.Process
