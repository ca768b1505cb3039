/-
This file models the two tables with which OSTOP and ORESUME stop the traffic from a foreign
socket or with a TCC, and the test of `PsipIn` whether a segment is stopped. The loops that look
an entry up are left with a `break` that does not leave the command, a socket of zero marks a
free entry, and `PsipIn` takes four bits of an entry for the TCC of which eight are kept. The
file says in which runs the tables hold a set that the commands change and the segments are
compared with.
-/

import NetworkUnix.Lib.Slots

namespace NetworkUnix.UserTcp.Stops

open Slots

/-! ### The tables and the commands -/

/-- NSTOP -/
def nstop : Nat := 4

inductive Reply
  | oack
  | oerr
  deriving DecidableEq

/-- StopSkt and StopTcc. -/
structure Tables where
  stopSkt : Nat → BitVec 32
  stopTcc : Nat → BitVec 16

/-- The tables are cleared. -/
def Tables.init : Tables := ⟨fun _ => 0, fun _ => 0⟩

section Loops

variable {Entry : Type} (used hit : Entry → Bool)

/-- The loop of OSTOP over the entries of a table. The one that is sought is acknowledged and ends
the loop; k is the last free one before that. -/
def look (table : Nat → Entry) : List Nat → Option Nat → List Reply × Option Nat
  | [], k => ([], k)
  | i :: more, k =>
    if used (table i) then if hit (table i) then ([.oack], k) else look table more k
    else look table more (some i)

/-- OSTOP on one of the tables, what comes behind the loop included. -/
def stopIn (entry : Entry) (table : Nat → Entry) : List Reply × (Nat → Entry) :=
  (look used hit table (List.range nstop) none).2.elim
    ((look used hit table (List.range nstop) none).1 ++ [.oerr], table)
    fun k =>
      ((look used hit table (List.range nstop) none).1 ++ [.oack], Function.update table k entry)

/-- The loop of ORESUME over the entries of a table. The one that is sought is freed and
acknowledged, which ends the loop. -/
def release (free : Entry) (table : Nat → Entry) : List Nat → List Reply × (Nat → Entry)
  | [] => ([], table)
  | i :: more =>
    if used (table i) && hit (table i) then ([.oack], Function.update table i free)
    else release free table more

/-- ORESUME on one of the tables, what comes behind the loop included. -/
def resumeIn (free : Entry) (table : Nat → Entry) : List Reply × (Nat → Entry) :=
  ((release used hit free table (List.range nstop)).1 ++ [.oerr],
    (release used hit free table (List.range nstop)).2)

end Loops

/-- The message of OSTOP and of ORESUME. -/
structure MClose where
  cHandle : BitVec 16
  cFinNum : BitVec 32

/-- `StopSkt[i] != 0` -/
def sktUsed (entry : BitVec 32) : Bool := entry != 0

/-- `StopTcc[i] < 0` -/
def tccUsed (entry : BitVec 16) : Bool := entry.msb

/-- `j == (StopTcc[i]&0377)` -/
def tccHit (j entry : BitVec 16) : Bool := j == entry &&& 0o377

/-- OSTOP of an authorized user. -/
def ostop (msg : MClose) (tables : Tables) : List Reply × Tables :=
  if msg.cHandle = 1 then
    ((stopIn sktUsed (msg.cFinNum == ·) msg.cFinNum tables.stopSkt).1,
      { tables with
        stopSkt := (stopIn sktUsed (msg.cFinNum == ·) msg.cFinNum tables.stopSkt).2 })
  else
    ((stopIn tccUsed (tccHit (msg.cFinNum.setWidth 16)) (msg.cFinNum.setWidth 16 + 0o100000)
        tables.stopTcc).1,
      { tables with
        stopTcc := (stopIn tccUsed (tccHit (msg.cFinNum.setWidth 16))
          (msg.cFinNum.setWidth 16 + 0o100000) tables.stopTcc).2 })

/-- ORESUME of an authorized user. -/
def oresume (msg : MClose) (tables : Tables) : List Reply × Tables :=
  if msg.cHandle = 1 then
    ((resumeIn sktUsed (msg.cFinNum == ·) 0 tables.stopSkt).1,
      { tables with stopSkt := (resumeIn sktUsed (msg.cFinNum == ·) 0 tables.stopSkt).2 })
  else
    ((resumeIn tccUsed (tccHit (msg.cFinNum.setWidth 16)) 0 tables.stopTcc).1,
      { tables with
        stopTcc := (resumeIn tccUsed (tccHit (msg.cFinNum.setWidth 16)) 0 tables.stopTcc).2 })

/-! ### The test of a segment -/

/-- What `PsipIn` compares of a segment: its source, and the TCC of its SPT option if it has
one. -/
structure Segment where
  iSrcNet : BitVec 8
  iSHstH : BitVec 8
  iSHstL : BitVec 16
  inTcc : Option (BitVec 8)

/-- XHost of an entry, whose long has its high word first. -/
def xHost (entry : BitVec 32) : BitVec 8 := entry.extractLsb' 16 8

/-- XNet -/
def xNet (entry : BitVec 32) : BitVec 8 := entry.extractLsb' 24 8

/-- XImp -/
def xImp (entry : BitVec 32) : BitVec 16 := entry.extractLsb' 0 16

/-- The test of `PsipIn` with Auth whether a segment is ignored; the TCC is a signed character. -/
def prohibited (seg : Segment) (tables : Tables) : Bool :=
  ((List.range nstop).any fun i => xHost (tables.stopSkt i) == seg.iSHstH &&
    xNet (tables.stopSkt i) == seg.iSrcNet && xImp (tables.stopSkt i) == seg.iSHstL) ||
  match seg.inTcc with
  | none => true
  | some inTcc => (List.range nstop).any fun i => tccUsed (tables.stopTcc i) &&
      (tables.stopTcc i &&& 0o17) == inTcc.signExtend 16

/-- A foreign socket or a TCC. -/
inductive Item
  | skt (socket : BitVec 32)
  | tcc (code : BitVec 8)

/-- The message about an item. -/
def Item.msg : Item → MClose
  | .skt socket => ⟨1, socket⟩
  | .tcc code => ⟨2, code.setWidth 32⟩

inductive Event
  | stop (item : Item)
  | resume (item : Item)
  | segment (seg : Segment)

/-- What an event shows: the replies to a command, or whether a segment is ignored. -/
inductive Shows
  | replies (replies : List Reply)
  | ignored (ignored : Bool)
  deriving DecidableEq

/-- What an event shows, and the tables after it. -/
def Tables.act (tables : Tables) : Event → Shows × Tables
  | .stop item => (.replies (ostop item.msg tables).1, (ostop item.msg tables).2)
  | .resume item => (.replies (oresume item.msg tables).1, (oresume item.msg tables).2)
  | .segment seg => (.ignored (prohibited seg tables), tables)

/-! ### A set of items -/

/-- The foreign sockets and the TCCs that are stopped. -/
structure Stopped where
  skts : Finset (BitVec 32)
  tccs : Finset (BitVec 8)

section Sets

variable {Key : Type} [DecidableEq Key]

/-- A key is added to a set that has room for NSTOP. -/
def add (item : Key) (keys : Finset Key) : Reply × Finset Key :=
  if item ∈ keys ∨ keys.card < nstop then (.oack, insert item keys) else (.oerr, keys)

/-- A key is taken out of a set. -/
def remove (item : Key) (keys : Finset Key) : Reply × Finset Key :=
  if item ∈ keys then (.oack, keys.erase item) else (.oerr, keys)

end Sets

/-- The source of a segment as a socket. -/
def Segment.source (seg : Segment) : BitVec 32 := seg.iSrcNet ++ seg.iSHstH ++ seg.iSHstL

/-- A segment is stopped: its source or its TCC is, or it has no SPT option. -/
def Stopped.stops (stopped : Stopped) (seg : Segment) : Bool :=
  decide (seg.source ∈ stopped.skts) || seg.inTcc.all fun tcc => decide (tcc ∈ stopped.tccs)

/-- Stop and Resume on a set: one reply to each command. -/
def Stopped.act (stopped : Stopped) : Event → Shows × Stopped
  | .stop (.skt socket) =>
    (.replies [(add socket stopped.skts).1], { stopped with skts := (add socket stopped.skts).2 })
  | .stop (.tcc code) =>
    (.replies [(add code stopped.tccs).1], { stopped with tccs := (add code stopped.tccs).2 })
  | .resume (.skt socket) =>
    (.replies [(remove socket stopped.skts).1],
      { stopped with skts := (remove socket stopped.skts).2 })
  | .resume (.tcc code) =>
    (.replies [(remove code stopped.tccs).1], { stopped with tccs := (remove code stopped.tccs).2 })
  | .segment seg => (.ignored (stopped.stops seg), stopped)

/-- The socket of an entry, zero being free. -/
def sktKey (entry : BitVec 32) : Option (BitVec 32) := if entry = 0 then none else some entry

/-- The TCC of an entry, one that is not negative being free. -/
def tccKey (entry : BitVec 16) : Option (BitVec 8) :=
  if entry.msb then some (entry.setWidth 8) else none

/-- The tables hold the items of a set, each of them once. -/
structure Tables.Hold (tables : Tables) (stopped : Stopped) : Prop where
  skts : Holds sktKey nstop tables.stopSkt stopped.skts
  tccs : Holds tccKey nstop tables.stopTcc stopped.tccs

/-- In a run the tables hold a set of items: every event shows what it does on the set, and the
tables hold the set after it. -/
def Tables.Follows : Tables → Stopped → List Event → Prop
  | _, _, [] => True
  | tables, stopped, event :: events =>
    ((tables.act event).1 = (stopped.act event).1 ∧
      (tables.act event).2.Hold (stopped.act event).2) ∧
    (tables.act event).2.Follows (stopped.act event).2 events

/-! ### When the tables follow the set -/

/-- A segment is from a source of zeros, with which a free entry is compared. -/
def Stopped.vague (stopped : Stopped) (seg : Segment) : Bool :=
  decide (seg.source = 0) && decide (stopped.skts.card < nstop)

/-- What an event must be for the tables to follow the set: a command is about an item that is not
there, a socket that is stopped is not zero unless there is no room, and a segment that is not
stopped by its source or for want of an SPT option is not taken for one of the free socket, has no
TCC of more than four bits that is stopped, and none that is the low four bits of one that is. -/
def Stopped.suits (stopped : Stopped) : Event → Prop
  | .stop (.skt socket) =>
    socket ∉ stopped.skts ∧ (socket ≠ 0 ∨ nstop ≤ stopped.skts.card)
  | .stop (.tcc code) => code ∉ stopped.tccs
  | .resume (.skt socket) => socket ∉ stopped.skts
  | .resume (.tcc code) => code ∉ stopped.tccs
  | .segment seg => ∀ code ∈ seg.inTcc, seg.source ∉ stopped.skts →
    if code ∈ stopped.tccs then code < 16 ∨ stopped.vague seg = true
    else stopped.vague seg = false ∧ ∀ other ∈ stopped.tccs, other &&& 0o17 ≠ code

/-- Every event of a run is what it must be. -/
def Stopped.Suits : Stopped → List Event → Prop
  | _, [] => True
  | stopped, event :: events => stopped.suits event ∧ (stopped.act event).2.Suits events

/-! ### The loops -/

section Loops

variable {Entry Key : Type} {used hit : Entry → Bool} {key : Entry → Option Key} {item : Key}

/-- The tests of a loop are about the key of an entry. -/
structure Reads (used hit : Entry → Bool) (key : Entry → Option Key) (item : Key) : Prop where
  free : ∀ entry, used entry = false ↔ key entry = none
  hit : ∀ entry, used entry = true → (hit entry = true ↔ key entry = some item)

variable {table : Nat → Entry}

theorem stopIn_none {entry : Entry}
    (found : (look used hit table (List.range nstop) none).2 = none) :
    stopIn used hit entry table =
      ((look used hit table (List.range nstop) none).1 ++ [.oerr], table) := by
  unfold stopIn
  rw [found]
  rfl

theorem stopIn_some {entry : Entry} {k : Nat}
    (found : (look used hit table (List.range nstop) none).2 = some k) :
    stopIn used hit entry table =
      ((look used hit table (List.range nstop) none).1 ++ [.oack],
        Function.update table k entry) := by
  unfold stopIn
  rw [found]
  rfl

theorem stopIn_length (used hit : Entry → Bool) (entry : Entry) (table : Nat → Entry) :
    (stopIn used hit entry table).1.length =
      (look used hit table (List.range nstop) none).1.length + 1 := by
  cases found : (look used hit table (List.range nstop) none).2 with
  | none => rw [stopIn_none found, List.length_append, List.length_singleton]
  | some k => rw [stopIn_some found, List.length_append, List.length_singleton]

variable (reads : Reads used hit key item)

include reads

theorem Reads.used_of_some {entry : Entry} (held : key entry = some item) :
    used entry = true ∧ hit entry = true := by
  have isUsed : used entry = true := by
    by_contra free
    have none := (reads.free entry).mp (Bool.eq_false_iff.mpr free)
    exact absurd (none.symm.trans held) (by simp)
  exact ⟨isUsed, (reads.hit entry isUsed).mpr held⟩

theorem look_present {indices : List Nat} {k : Option Nat}
    (present : ∃ i ∈ indices, key (table i) = some item) :
    (look used hit table indices k).1 = [.oack] := by
  induction indices generalizing k with
  | nil =>
    obtain ⟨_, member, _⟩ := present
    exact absurd member List.not_mem_nil
  | cons i more inductionHypothesis =>
    unfold look
    by_cases held : key (table i) = some item
    · obtain ⟨isUsed, isHit⟩ := reads.used_of_some held
      rw [if_pos isUsed, if_pos isHit]
    · have later : ∃ i ∈ more, key (table i) = some item := by
        obtain ⟨j, member, held'⟩ := present
        rcases List.mem_cons.mp member with rfl | member
        · exact absurd held' held
        · exact ⟨j, member, held'⟩
      by_cases isUsed : used (table i) = true
      · rw [if_pos isUsed, if_neg fun isHit => held ((reads.hit _ isUsed).mp isHit)]
        exact inductionHypothesis later
      · rw [if_neg isUsed]
        exact inductionHypothesis later

theorem look_absent {indices : List Nat} {k : Option Nat}
    (absent : ∀ i ∈ indices, key (table i) ≠ some item) :
    (look used hit table indices k).1 = [] ∧
      ((look used hit table indices k).2 = none ↔
        k = none ∧ ∀ i ∈ indices, key (table i) ≠ none) ∧
      ∀ j, (look used hit table indices k).2 = some j →
        k = some j ∨ j ∈ indices ∧ key (table j) = none := by
  induction indices generalizing k with
  | nil => exact ⟨rfl, by simp [look], fun j found => .inl found⟩
  | cons i more inductionHypothesis =>
    obtain ⟨here, later⟩ := List.forall_mem_cons.mp absent
    unfold look
    by_cases isUsed : used (table i) = true
    · have notFree : key (table i) ≠ none := by
        rw [ne_eq, ← reads.free, isUsed]
        decide
      rw [if_pos isUsed, if_neg fun isHit => here ((reads.hit _ isUsed).mp isHit)]
      obtain ⟨silent, none, found⟩ := inductionHypothesis (k := k) later
      refine ⟨silent, none.trans ?_, fun j is => ?_⟩
      · simp [notFree]
      · exact (found j is).imp_right fun free => ⟨List.mem_cons_of_mem _ free.1, free.2⟩
    · have free : key (table i) = none := (reads.free _).mp (Bool.eq_false_iff.mpr isUsed)
      rw [if_neg isUsed]
      obtain ⟨silent, none, found⟩ := inductionHypothesis (k := some i) later
      refine ⟨silent, none.trans ?_, fun j is => ?_⟩
      · simp [free]
      · rcases found j is with same | other
        · cases same
          exact .inr ⟨List.mem_cons_self, free⟩
        · exact .inr ⟨List.mem_cons_of_mem _ other.1, other.2⟩

theorem release_present {indices : List Nat} {free : Entry}
    (present : ∃ i ∈ indices, key (table i) = some item) :
    (release used hit free table indices).1 = [.oack] := by
  induction indices with
  | nil =>
    obtain ⟨_, member, _⟩ := present
    exact absurd member List.not_mem_nil
  | cons i more inductionHypothesis =>
    unfold release
    by_cases held : key (table i) = some item
    · obtain ⟨isUsed, isHit⟩ := reads.used_of_some held
      rw [if_pos (by rw [isUsed, isHit]; rfl)]
    · obtain ⟨j, member, held'⟩ := present
      have later : j ∈ more := by
        rcases List.mem_cons.mp member with rfl | member
        · exact absurd held' held
        · exact member
      split_ifs
      · rfl
      · exact inductionHypothesis ⟨j, later, held'⟩

theorem release_absent {indices : List Nat} {free : Entry}
    (absent : ∀ i ∈ indices, key (table i) ≠ some item) :
    release used hit free table indices = ([], table) := by
  induction indices with
  | nil => rfl
  | cons i more inductionHypothesis =>
    have miss : ¬ (used (table i) && hit (table i)) = true := by
      intro both
      rw [Bool.and_eq_true] at both
      exact absent i List.mem_cons_self ((reads.hit _ both.1).mp both.2)
    unfold release
    rw [if_neg miss]
    exact inductionHypothesis (List.forall_mem_cons.mp absent).2

variable [DecidableEq Key] {keys : Finset Key}

/-- A stop does what it does on the set exactly when the item is not there, and can be told from a
free entry or finds no room. -/
theorem stopIn_iff (holds : Holds key nstop table keys) (entry : Entry) :
    ((stopIn used hit entry table).1 = [(add item keys).1] ∧
        Holds key nstop (stopIn used hit entry table).2 (add item keys).2) ↔
      item ∉ keys ∧ (key entry = some item ∨ nstop ≤ keys.card) := by
  by_cases member : item ∈ keys
  · obtain ⟨i, inside, held⟩ := (holds.mem item).mp member
    have twice := stopIn_length used hit entry table
    rw [look_present reads ⟨i, List.mem_range.mpr inside, held⟩] at twice
    constructor
    · rintro ⟨once, _⟩
      rw [once] at twice
      exact absurd twice (by simp)
    · exact fun both => absurd member both.1
  · have absent : ∀ i ∈ List.range nstop, key (table i) ≠ some item :=
      fun i inside => holds.absent member (List.mem_range.mp inside)
    obtain ⟨silent, isNone, isSome⟩ := look_absent reads (k := none) absent
    unfold add
    cases found : (look used hit table (List.range nstop) none).2 with
    | none =>
      have noRoom : ¬ keys.card < nstop := by
        rw [← holds.free_iff]
        rintro ⟨i, inside, free⟩
        exact (isNone.mp found).2 i (List.mem_range.mpr inside) free
      rw [stopIn_none found, silent, if_neg (not_or.mpr ⟨member, noRoom⟩)]
      exact ⟨fun _ => ⟨member, .inr (not_lt.mp noRoom)⟩, fun _ => ⟨rfl, holds⟩⟩
    | some k =>
      obtain ⟨inside, free⟩ := (isSome k found).resolve_left (by simp)
      have within := List.mem_range.mp inside
      have room : keys.card < nstop := holds.free_iff.mp ⟨k, within, free⟩
      rw [stopIn_some found, silent, if_pos (.inr room)]
      constructor
      · rintro ⟨_, after⟩
        refine ⟨member, .inl ?_⟩
        obtain ⟨i, inside', held⟩ := (after.mem item).mp (Finset.mem_insert_self item keys)
        change key (Function.update table k entry i) = some item at held
        by_cases here : i = k
        · rw [← held, here, Function.update_self]
        · rw [Function.update_of_ne here] at held
          exact absurd held (holds.absent member inside')
      · rintro ⟨_, coded | noRoom⟩
        · exact ⟨rfl, holds.put within free member coded⟩
        · exact absurd room (not_lt.mpr noRoom)

theorem resumeIn_iff (holds : Holds key nstop table keys) (free : Entry) :
    ((resumeIn used hit free table).1 = [(remove item keys).1] ∧
        Holds key nstop (resumeIn used hit free table).2 (remove item keys).2) ↔
      item ∉ keys := by
  unfold resumeIn remove
  by_cases member : item ∈ keys
  · obtain ⟨i, inside, held⟩ := (holds.mem item).mp member
    rw [release_present reads ⟨i, List.mem_range.mpr inside, held⟩]
    simp [member]
  · have absent : ∀ i ∈ List.range nstop, key (table i) ≠ some item :=
      fun i inside => holds.absent member (List.mem_range.mp inside)
    rw [release_absent reads absent, if_neg member]
    exact ⟨fun _ => member, fun _ => ⟨rfl, holds⟩⟩

end Loops

/-! ### The entries -/

theorem skt_reads (socket : BitVec 32) : Reads sktUsed (socket == ·) sktKey socket where
  free entry := by
    unfold sktUsed sktKey
    split_ifs with isFree
    · simp [isFree]
    · simpa using isFree
  hit entry used := by
    unfold sktUsed at used
    unfold sktKey
    rw [if_neg (bne_iff_ne.mp used), beq_iff_eq, Option.some.injEq]
    exact eq_comm

theorem setWidth_eq_and (code : BitVec 8) (entry : BitVec 16) :
    code.setWidth 16 = entry &&& 0o377 ↔ entry.setWidth 8 = code := by
  rw [← BitVec.toNat_inj, ← BitVec.toNat_inj, BitVec.toNat_and, BitVec.toNat_setWidth,
    BitVec.toNat_setWidth]
  have low : entry.toNat &&& (0o377 : BitVec 16).toNat = entry.toNat % 2 ^ 8 :=
    Nat.and_two_pow_sub_one_eq_mod entry.toNat 8
  have small := code.isLt
  rw [low, Nat.mod_eq_of_lt (by omega)]
  exact eq_comm

theorem tcc_reads (code : BitVec 8) : Reads tccUsed (tccHit (code.setWidth 16)) tccKey code where
  free entry := by
    unfold tccUsed tccKey
    cases entry.msb <;> simp
  hit entry used := by
    unfold tccUsed at used
    unfold tccHit tccKey
    rw [if_pos used, beq_iff_eq, Option.some.injEq]
    exact setWidth_eq_and code entry

theorem tccKey_entry (code : BitVec 8) : tccKey (code.setWidth 16 + 0o100000) = some code := by
  revert code
  decide +kernel

theorem setWidth_msg (code : BitVec 8) : ((code.setWidth 32).setWidth 16 : BitVec 16) =
    code.setWidth 16 := by
  rw [BitVec.setWidth_setWidth_of_le _ (by decide)]

/-! ### The test of a segment -/

theorem source_toNat (seg : Segment) : seg.source.toNat =
    seg.iSrcNet.toNat * 2 ^ 24 + seg.iSHstH.toNat * 2 ^ 16 + seg.iSHstL.toNat := by
  have host := seg.iSHstH.isLt
  have imp := seg.iSHstL.isLt
  unfold Segment.source
  rw [BitVec.toNat_append, BitVec.toNat_append, ← Nat.shiftLeft_add_eq_or_of_lt host,
    ← Nat.shiftLeft_add_eq_or_of_lt imp, Nat.shiftLeft_eq, Nat.shiftLeft_eq]
  omega

theorem parts_iff (entry : BitVec 32) (seg : Segment) :
    (xHost entry == seg.iSHstH && xNet entry == seg.iSrcNet && xImp entry == seg.iSHstL) = true ↔
      entry = seg.source := by
  have net := seg.iSrcNet.isLt
  have host := seg.iSHstH.isLt
  have imp := seg.iSHstL.isLt
  have all := entry.isLt
  rw [Bool.and_eq_true, Bool.and_eq_true, beq_iff_eq, beq_iff_eq, beq_iff_eq,
    ← BitVec.toNat_inj, ← BitVec.toNat_inj, ← BitVec.toNat_inj, ← BitVec.toNat_inj, source_toNat]
  unfold xHost xNet xImp
  rw [BitVec.extractLsb'_toNat, BitVec.extractLsb'_toNat, BitVec.extractLsb'_toNat,
    Nat.shiftRight_eq_div_pow, Nat.shiftRight_eq_div_pow, Nat.shiftRight_eq_div_pow]
  omega

theorem setWidth_signExtend (code : BitVec 8) : (code.signExtend 16).setWidth 8 = code := by
  revert code
  decide +kernel

theorem low_msb (code : BitVec 8) : (code &&& 0o17).msb = false := by
  rw [BitVec.msb_and]
  exact Bool.and_false _

theorem low_iff (entry : BitVec 16) (code : BitVec 8) :
    ((entry &&& 0o17) == code.signExtend 16) = true ↔ entry.setWidth 8 &&& 0o17 = code := by
  have low : entry &&& 0o17 = (entry.setWidth 8 &&& 0o17).setWidth 16 := by
    rw [← BitVec.toNat_inj, BitVec.toNat_setWidth, BitVec.toNat_and, BitVec.toNat_and,
      BitVec.toNat_setWidth]
    have wide : entry.toNat &&& (0o17 : BitVec 16).toNat = entry.toNat % 2 ^ 4 :=
      Nat.and_two_pow_sub_one_eq_mod entry.toNat 4
    have narrow : entry.toNat % 2 ^ 8 &&& (0o17 : BitVec 8).toNat = entry.toNat % 2 ^ 8 % 2 ^ 4 :=
      Nat.and_two_pow_sub_one_eq_mod _ 4
    rw [wide, narrow]
    omega
  rw [beq_iff_eq, low]
  constructor
  · intro same
    have cut := congrArg (BitVec.setWidth 8) same
    rwa [BitVec.setWidth_setWidth_of_le _ (by decide), BitVec.setWidth_eq,
      setWidth_signExtend] at cut
  · rintro rfl
    rw [BitVec.signExtend_eq_setWidth_of_msb_false (low_msb _)]

variable {tables : Tables} {stopped : Stopped}

theorem source_any (hold : tables.Hold stopped) (seg : Segment) :
    ((List.range nstop).any fun i => xHost (tables.stopSkt i) == seg.iSHstH &&
        xNet (tables.stopSkt i) == seg.iSrcNet && xImp (tables.stopSkt i) == seg.iSHstL) = true ↔
      seg.source ∈ stopped.skts ∨ stopped.vague seg = true := by
  unfold Stopped.vague
  rw [List.any_eq_true, Bool.and_eq_true, decide_eq_true_eq, decide_eq_true_eq,
    ← hold.skts.free_iff, hold.skts.mem]
  constructor
  · rintro ⟨i, inside, parts⟩
    have same := (parts_iff (tables.stopSkt i) seg).mp parts
    have within := List.mem_range.mp inside
    by_cases zero : tables.stopSkt i = 0
    · exact .inr ⟨same.symm.trans zero, i, within, if_pos zero⟩
    · exact .inl ⟨i, within, (if_neg zero).trans (congrArg some same)⟩
  · rintro (⟨i, inside, held⟩ | ⟨zero, i, inside, free⟩)
    · refine ⟨i, List.mem_range.mpr inside, (parts_iff (tables.stopSkt i) seg).mpr ?_⟩
      unfold sktKey at held
      split_ifs at held
      exact Option.some.inj held
    · refine ⟨i, List.mem_range.mpr inside, (parts_iff (tables.stopSkt i) seg).mpr ?_⟩
      unfold sktKey at free
      split_ifs at free with isZero
      exact isZero.trans zero.symm

theorem tcc_any (hold : tables.Hold stopped) (code : BitVec 8) :
    ((List.range nstop).any fun i => tccUsed (tables.stopTcc i) &&
        (tables.stopTcc i &&& 0o17) == code.signExtend 16) = true ↔
      ∃ other ∈ stopped.tccs, other &&& 0o17 = code := by
  rw [List.any_eq_true]
  constructor
  · rintro ⟨i, inside, both⟩
    rw [Bool.and_eq_true] at both
    exact ⟨(tables.stopTcc i).setWidth 8,
      (hold.tccs.mem _).mpr ⟨i, List.mem_range.mp inside, if_pos both.1⟩,
      (low_iff _ code).mp both.2⟩
  · rintro ⟨other, member, low⟩
    obtain ⟨i, inside, held⟩ := (hold.tccs.mem other).mp member
    unfold tccKey at held
    split_ifs at held with used
    refine ⟨i, List.mem_range.mpr inside, ?_⟩
    rw [Bool.and_eq_true]
    exact ⟨used, (low_iff _ code).mpr (Option.some.inj held ▸ low)⟩

theorem low_of_lt {code : BitVec 8} : code < 16 ↔ code &&& 0o17 = code := by
  revert code
  decide +kernel

theorem low_lt (code : BitVec 8) : code &&& 0o17 < 16 := by
  revert code
  decide +kernel

theorem prohibited_iff (hold : tables.Hold stopped) (seg : Segment) :
    prohibited seg tables = stopped.stops seg ↔ stopped.suits (.segment seg) := by
  show _ ↔ ∀ code ∈ seg.inTcc, seg.source ∉ stopped.skts →
    if code ∈ stopped.tccs then code < 16 ∨ stopped.vague seg = true
    else stopped.vague seg = false ∧ ∀ other ∈ stopped.tccs, other &&& 0o17 ≠ code
  rw [Bool.eq_iff_iff]
  unfold prohibited Stopped.stops
  rw [Bool.or_eq_true, Bool.or_eq_true, source_any hold, decide_eq_true_eq]
  cases seg.inTcc with
  | none => simp
  | some code =>
    rw [tcc_any hold, Option.all_some, decide_eq_true_eq]
    by_cases source : seg.source ∈ stopped.skts
    · simp [source]
    · simp only [source, false_or, Option.mem_some_iff, forall_eq', not_false_eq_true,
        forall_const]
      by_cases member : code ∈ stopped.tccs
      · have found : (∃ other ∈ stopped.tccs, other &&& 0o17 = code) ↔ code < 16 := by
          constructor
          · rintro ⟨other, _, rfl⟩
            exact low_lt other
          · exact fun small => ⟨code, member, low_of_lt.mp small⟩
        rw [if_pos member, found]
        simp only [member, iff_true]
        exact or_comm
      · rw [if_neg member]
        simp only [member, iff_false, not_or, Bool.not_eq_true, not_exists, not_and, ne_eq]

/-! ### One event -/

theorem act_iff (hold : tables.Hold stopped) (event : Event) :
    ((tables.act event).1 = (stopped.act event).1 ∧
        (tables.act event).2.Hold (stopped.act event).2) ↔ stopped.suits event := by
  cases event with
  | stop item =>
    cases item with
    | skt socket =>
      have coded : sktKey socket = some socket ↔ socket ≠ 0 := by
        unfold sktKey
        split_ifs with zero
        · simp [zero]
        · simpa using zero
      show (Shows.replies _ = Shows.replies _ ∧ _) ↔ socket ∉ stopped.skts ∧ _
      rw [Shows.replies.injEq, ← coded, ← stopIn_iff (skt_reads socket) hold.skts socket]
      exact and_congr_right fun _ => ⟨fun after => after.skts, fun skts => ⟨skts, hold.tccs⟩⟩
    | tcc code =>
      have parts := (stopIn_iff (tcc_reads code) hold.tccs (code.setWidth 16 + 0o100000)).trans
        (and_iff_left (Or.inl (tccKey_entry code)))
      rw [← setWidth_msg] at parts
      show (Shows.replies _ = Shows.replies _ ∧ _) ↔ code ∉ stopped.tccs
      rw [Shows.replies.injEq, ← parts]
      exact and_congr_right fun _ => ⟨fun after => after.tccs, fun tccs => ⟨hold.skts, tccs⟩⟩
  | resume item =>
    cases item with
    | skt socket =>
      show (Shows.replies _ = Shows.replies _ ∧ _) ↔ socket ∉ stopped.skts
      rw [Shows.replies.injEq, ← resumeIn_iff (skt_reads socket) hold.skts 0]
      exact and_congr_right fun _ => ⟨fun after => after.skts, fun skts => ⟨skts, hold.tccs⟩⟩
    | tcc code =>
      have parts := resumeIn_iff (tcc_reads code) hold.tccs 0
      rw [← setWidth_msg] at parts
      show (Shows.replies _ = Shows.replies _ ∧ _) ↔ code ∉ stopped.tccs
      rw [Shows.replies.injEq, ← parts]
      exact and_congr_right fun _ => ⟨fun after => after.tccs, fun tccs => ⟨hold.skts, tccs⟩⟩
  | segment seg =>
    rw [← prohibited_iff hold seg]
    show (Shows.ignored _ = Shows.ignored _ ∧ _) ↔ _
    rw [Shows.ignored.injEq]
    exact and_iff_left hold

/-! ### A run -/

theorem Tables.Hold.follows_iff (hold : tables.Hold stopped) (events : List Event) :
    tables.Follows stopped events ↔ stopped.Suits events := by
  induction events generalizing tables stopped with
  | nil => exact Iff.rfl
  | cons event events inductionHypothesis =>
    unfold Tables.Follows Stopped.Suits
    rw [← act_iff hold event]
    exact and_congr_right fun here => inductionHypothesis here.2

theorem init_hold : Tables.init.Hold ⟨∅, ∅⟩ where
  skts := holds_empty fun _ _ => if_pos rfl
  tccs := holds_empty fun _ _ => if_neg (show ¬ (0 : BitVec 16).msb = true by decide)

/-- From the start, Stop and Resume maintain a set in a run, with one reply to each command and the
segments ignored that it stops, exactly when every event of the run suits. -/
theorem stops_follow_iff (events : List Event) :
    Tables.init.Follows ⟨∅, ∅⟩ events ↔ (⟨∅, ∅⟩ : Stopped).Suits events :=
  init_hold.follows_iff events

/-- The TCC 5 is stopped twice. -/
def stopTwice : List Event := [.stop (.tcc 5), .stop (.tcc 5)]

/-- The tables after that. -/
def twice : Tables := ((Tables.init.act (.stop (.tcc 5))).2.act (.stop (.tcc 5))).2

/-- The second stop is acknowledged twice; after a resume, which is answered twice too, segments
with the TCC are still ignored. -/
theorem stopTwice_shows : ¬ Tables.init.Follows ⟨∅, ∅⟩ stopTwice ∧
    ((Tables.init.act (.stop (.tcc 5))).2.act (.stop (.tcc 5))).1 = .replies [.oack, .oack] ∧
    (twice.act (.resume (.tcc 5))).1 = .replies [.oack, .oerr] ∧
    ((twice.act (.resume (.tcc 5))).2.act (.segment ⟨10, 0, 5, some 5⟩)).1 = .ignored true := by
  refine ⟨?_, by decide +kernel, by decide +kernel, by decide +kernel⟩
  rintro ⟨_, ⟨shows, _⟩, _⟩
  exact absurd shows (by decide +kernel)

end NetworkUnix.UserTcp.Stops
