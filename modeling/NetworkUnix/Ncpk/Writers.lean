/-
This file proves when the writers of a send socket stay within its allocation. The
allocation is tested before a message is sent and reduced after it has been answered.
As long as what a process finds is left over by the processes that are between their
tests and their updates, and no process that has sent is ended by a signal before its
update, what has been sent never exceeds what has been allocated. Two processes that
test one after the other both find the same allocation and both send.
-/

import NetworkUnix.Ncpk.Netwrite
import NetworkUnix.Lib.Totals
import Mathlib.Algebra.GroupWithZero.Nat
import Mathlib.Data.Fintype.Powerset

namespace NetworkUnix.Ncpk

open Function Counter Totals

/-! ### What the writers may send and have sent -/

namespace Writer

/-- The size of the message that a process has been permitted to send, until it updates the
allocation. -/
def permitted : Writer → Option (BitVec 16)
  | .sends _ n _ | .waits _ n => some n
  | _ => none

/-- The size of the message that a process has sent without updating the allocation. -/
def charged : Writer → Option (BitVec 16)
  | .sends _ n true | .waits _ n => some n
  | _ => none

def one : Option (BitVec 16) → Nat
  | none => 0
  | some _ => 1

def size : Option (BitVec 16) → Nat
  | none => 0
  | some n => 8 * n.toNat

/-- The messages and the bits that a process has been permitted to send. -/
def msgs (w : Writer) : Nat := one w.permitted

def bits (w : Writer) : Nat := size w.permitted

/-- The messages and the bits that a process has sent without updating the allocation. -/
def sentMsgs (w : Writer) : Nat := one w.charged

def sentBits (w : Writer) : Nat := size w.charged

theorem charged_permitted (w : Writer) : w.charged = none ∨ w.charged = w.permitted := by
  cases w with
  | idle => exact .inl rfl
  | asks => exact .inl rfl
  | sends _ _ again =>
    cases again with
    | false => exact .inl rfl
    | true => exact .inr rfl
  | waits => exact .inr rfl

theorem sentMsgs_le (w : Writer) : w.sentMsgs ≤ w.msgs := by
  unfold sentMsgs msgs
  rcases w.charged_permitted with none | same
  · rw [none]
    exact Nat.zero_le _
  · rw [same]

theorem sentBits_le (w : Writer) : w.sentBits ≤ w.bits := by
  unfold sentBits bits
  rcases w.charged_permitted with none | same
  · rw [none]
    exact Nat.zero_le _
  · rw [same]

theorem msgs_none {w : Writer} (rests : w.permitted = none) : w.msgs = 0 := by
  unfold msgs
  rw [rests]
  rfl

theorem bits_none {w : Writer} (rests : w.permitted = none) : w.bits = 0 := by
  unfold bits
  rw [rests]
  rfl

end Writer

namespace Writing

variable {Proc : Type}

/-- The sizes of the messages, without those that were sent again. -/
def firsts (s : Writing Proc) : List Nat :=
  (s.sent.filter fun message => !message.2).map fun message => message.1.toNat

theorem firsts_again (s : Writing Proc) (n : BitVec 16) :
    firsts { s with sent := s.sent ++ [(n, true)] } = s.firsts := by
  unfold firsts
  rw [List.filter_append, List.map_append]
  exact List.append_nil _

theorem firsts_first (s : Writing Proc) (n : BitVec 16) :
    firsts { s with sent := s.sent ++ [(n, false)] } = s.firsts ++ [n.toNat] := by
  unfold firsts
  rw [List.filter_append, List.map_append]
  rfl

/-! ### The balance -/

/-- What is left covers the messages that have been permitted; what has been allocated, with the
messages that have been sent but not subtracted, is what is left and what has been sent. -/
structure Balanced (s : Writing Proc) (m b : Int) (active : Finset Proc) : Prop where
  left : Left s.skt m b
  rests : ∀ p, p ∉ active → (s.writers p).permitted = none
  fits : ∀ p n, (s.writers p).permitted = some n → 1 ≤ n.toNat ∧ n.toNat ≤ 1000
  msgsLeft : total Writer.msgs s.writers active ≤ m
  bitsLeft : total Writer.bits s.writers active ≤ b
  sizes : ∀ message ∈ s.sent, 1 ≤ message.1.toNat ∧ message.1.toNat ≤ 1000
  msgs : (s.msgs + total Writer.sentMsgs s.writers active : Int) = m + s.firsts.length
  bits : (s.bits + total Writer.sentBits s.writers active : Int) = b + 8 * (s.firsts.sum : Int)

variable {s : Writing Proc} {m b : Int} {active : Finset Proc}

theorem Balanced.flags (held : s.Balanced m b active) {skt : WrtSkt} (msgs : skt.wMsgs = s.skt.wMsgs)
    (falloc : skt.wFalloc = s.skt.wFalloc) :
    ({ s with skt := skt } : Writing Proc).Balanced m b active :=
  { held with left := ⟨msgs ▸ held.left.msgs, falloc ▸ held.left.bits⟩ }

theorem Balanced.allocated (held : s.Balanced m b active) (msgs bitsHi bitsLo : BitVec 16) :
    (s.allocated msgs bitsHi bitsLo).Balanced (m + msgs.toNat) (b + (bitsHi ++ bitsLo).toNat)
      active where
  left := held.left.more msgs bitsHi bitsLo
  rests := held.rests
  fits := held.fits
  msgsLeft := by
    have := held.msgsLeft
    show (total Writer.msgs s.writers active : Int) ≤ _
    omega
  bitsLeft := by
    have := held.bitsLeft
    show (total Writer.bits s.writers active : Int) ≤ _
    omega
  sizes := held.sizes
  msgs := by
    have := held.msgs
    show ((s.msgs + msgs.toNat : Nat) : Int) + total Writer.sentMsgs s.writers active =
      m + msgs.toNat + s.firsts.length
    omega
  bits := by
    have := held.bits
    show ((s.bits + (bitsHi ++ bitsLo).toNat : Nat) : Int) + total Writer.sentBits s.writers active =
      b + (bitsHi ++ bitsLo).toNat + 8 * (s.firsts.sum : Int)
    omega

theorem Balanced.siguser (held : s.Balanced m b active) (flag : BitVec 16) :
    (s.siguser flag).Balanced m b active := by
  unfold Writing.siguser
  split
  · exact held
  · exact held.flags rfl rfl

theorem Balanced.allocate (held : s.Balanced m b active) (msgs bitsHi bitsLo : BitVec 16) :
    ∃ m b, (s.allocate msgs bitsHi bitsLo).Balanced m b active := by
  unfold Writing.allocate
  split
  · exact ⟨m, b, held⟩
  · exact ⟨_, _, held.allocated msgs bitsHi bitsLo⟩

variable [DecidableEq Proc]

variable {p : Proc} {n count : BitVec 16} {next : Writer}

section

variable (held : s.Balanced m b active)
include held

theorem Balanced.counted (rests : (s.writers p).permitted = none) :
    s.Balanced m b (insert p active) := by
  have sentMsgs := Nat.le_zero.mp (Writer.msgs_none rests ▸ (s.writers p).sentMsgs_le)
  have sentBits := Nat.le_zero.mp (Writer.bits_none rests ▸ (s.writers p).sentBits_le)
  exact { held with
    rests := fun q outside => held.rests q fun member => outside (Finset.mem_insert_of_mem member)
    msgsLeft := by
      rw [total_insert (Writer.msgs_none rests)]
      exact held.msgsLeft
    bitsLeft := by
      rw [total_insert (Writer.bits_none rests)]
      exact held.bitsLeft
    msgs := by
      rw [total_insert sentMsgs]
      exact held.msgs
    bits := by
      rw [total_insert sentBits]
      exact held.bits }

theorem Balanced.member (permitted : (s.writers p).permitted = some n) : p ∈ active := by
  by_contra outside
  rw [held.rests p outside] at permitted
  cases permitted

/-- One process goes on, and the books are kept: what is left to the socket, what the processes have
been permitted, and what has been allocated and sent change alike. -/
theorem Balanced.goes (member : p ∈ active) {after : Writing Proc}
    {k c : Int} (writers : after.writers = Function.update s.writers p next)
    (left : Left after.skt k c) (fits : ∀ n, next.permitted = some n → 1 ≤ n.toNat ∧ n.toNat ≤ 1000)
    (msgsLeft : (total Writer.msgs s.writers active : Int) + next.msgs ≤ k + (s.writers p).msgs)
    (bitsLeft : (total Writer.bits s.writers active : Int) + next.bits ≤ c + (s.writers p).bits)
    (sizes : ∀ message ∈ after.sent, 1 ≤ message.1.toNat ∧ message.1.toNat ≤ 1000)
    (msgs : (after.msgs + next.sentMsgs + m + s.firsts.length : Int) =
      s.msgs + (s.writers p).sentMsgs + k + after.firsts.length)
    (bits : (after.bits + next.sentBits + b + 8 * s.firsts.sum : Int) =
      s.bits + (s.writers p).sentBits + c + 8 * after.firsts.sum) :
    after.Balanced k c active := by
  have allMsgs := total_update Writer.msgs s.writers member next
  have allBits := total_update Writer.bits s.writers member next
  have allSentMsgs := total_update Writer.sentMsgs s.writers member next
  have allSentBits := total_update Writer.sentBits s.writers member next
  rw [← writers] at allMsgs allBits allSentMsgs allSentBits
  have balancedMsgs := held.msgs
  have balancedBits := held.bits
  refine ⟨left, fun q outside => ?_, fun q n permitted => ?_, by omega, by omega, sizes, by omega,
    by omega⟩
  · have apart : q ≠ p := fun same => outside (same ▸ member)
    rw [writers, update_of_ne apart]
    exact held.rests q outside
  · rw [writers] at permitted
    by_cases here : q = p
    · rw [here, update_self] at permitted
      exact fits n permitted
    · rw [update_of_ne here] at permitted
      exact held.fits q n permitted

theorem Balanced.rest (before : (s.writers p).permitted = none)
    (after : next.permitted = none) :
    (s.goes p next).Balanced m b (insert p active) := by
  have held := held.counted before
  have charged : next.charged = (s.writers p).charged := by
    have none : ∀ w : Writer, w.permitted = none → w.charged = none := fun w rests =>
      w.charged_permitted.elim id fun same => same.trans rests
    rw [none next after, none _ before]
  have same : next.sentMsgs = (s.writers p).sentMsgs ∧ next.sentBits = (s.writers p).sentBits :=
    ⟨congrArg Writer.one charged, congrArg Writer.size charged⟩
  have msgs := Writer.msgs_none after
  have bits := Writer.bits_none after
  have msgsLeft := held.msgsLeft
  have bitsLeft := held.bitsLeft
  refine held.goes (Finset.mem_insert_self p active) rfl held.left (fun n permitted => ?_) (by omega)
    (by omega) held.sizes ?_ ?_
  · rw [after] at permitted
    cases permitted
  · rw [same.1]
    rfl
  · rw [same.2]
    rfl

theorem Balanced.permit (asks : s.writers p = .asks count)
    (fits : 1 ≤ n.toNat ∧ n.toNat ≤ 1000)
    (msgsLeft : total Writer.msgs s.writers (insert p active) + 1 ≤ s.skt.wMsgs.toNat)
    (bitsLeft : total Writer.bits s.writers (insert p active) + 8 * n.toNat ≤
      (long s.skt.wFalloc).toNat) :
    (s.goes p (.sends count n false)).Balanced m b (insert p active) := by
  have rests : (s.writers p).permitted = none := by
    rw [asks]
    rfl
  have uncharged : (s.writers p).charged = none := by
    rw [asks]
    rfl
  have held := held.counted rests
  have msgsWord := held.left.msgs.le (Int.le_trans (Int.natCast_nonneg _) held.msgsLeft)
  have bitsWord := held.left.bits.le (Int.le_trans (Int.natCast_nonneg _) held.bitsLeft)
  have msgs : (Writer.sends count n false).msgs = 1 := rfl
  have bits : (Writer.sends count n false).bits = 8 * n.toNat := rfl
  refine held.goes (Finset.mem_insert_self p active) rfl held.left (fun k permitted => ?_) (by omega)
    (by omega) held.sizes ?_ ?_
  · rw [← Option.some.inj permitted]
    exact fits
  · unfold Writer.sentMsgs
    rw [uncharged]
    rfl
  · unfold Writer.sentBits
    rw [uncharged]
    rfl

theorem Balanced.send {again : Bool}
    (sends : s.writers p = .sends count n again) :
    (s.sndnetbytes p count n again).Balanced m b active := by
  have permitted : (s.writers p).permitted = some n := by
    rw [sends]
    rfl
  have fits := held.fits p n permitted
  have msgsLeft := held.msgsLeft
  have bitsLeft := held.bitsLeft
  have msgs : (Writer.waits count n).msgs = (s.writers p).msgs := by
    rw [sends]
    rfl
  have bits : (Writer.waits count n).bits = (s.writers p).bits := by
    rw [sends]
    rfl
  have messages : 1 + s.firsts.length =
      (s.writers p).sentMsgs + (firsts { s with sent := s.sent ++ [(n, again)] }).length ∧
    8 * n.toNat + 8 * s.firsts.sum =
      (s.writers p).sentBits + 8 * (firsts { s with sent := s.sent ++ [(n, again)] }).sum := by
    rw [sends]
    cases again with
    | false =>
      rw [firsts_first, List.length_append, List.sum_append, List.sum_singleton,
        List.length_singleton]
      have none : (Writer.sends count n false).sentMsgs = 0 ∧
          (Writer.sends count n false).sentBits = 0 := ⟨rfl, rfl⟩
      omega
    | true =>
      rw [firsts_again]
      exact ⟨rfl, rfl⟩
  have waits : (Writer.waits count n).sentMsgs = 1 ∧ (Writer.waits count n).sentBits = 8 * n.toNat :=
    ⟨rfl, rfl⟩
  refine held.goes (held.member permitted) rfl held.left (fun k same => ?_) (by omega) (by omega)
    (fun message sent => ?_) ?_ ?_
  · rw [← Option.some.inj same]
    exact fits
  · rcases List.mem_append.mp sent with earlier | now
    · exact held.sizes message earlier
    · rw [List.mem_singleton.mp now]
      exact fits
  · show (s.msgs + (Writer.waits count n).sentMsgs + m + s.firsts.length : Int) = s.msgs +
      (s.writers p).sentMsgs + m + (firsts { s with sent := s.sent ++ [(n, again)] }).length
    omega
  · show (s.bits + (Writer.waits count n).sentBits + b + 8 * s.firsts.sum : Int) = s.bits +
      (s.writers p).sentBits + b + 8 * (firsts { s with sent := s.sent ++ [(n, again)] }).sum
    omega

theorem Balanced.retry (waits : s.writers p = .waits count n) :
    (s.goes p (.sends count n true)).Balanced m b active := by
  have permitted : (s.writers p).permitted = some n := by
    rw [waits]
    rfl
  have msgsLeft := held.msgsLeft
  have bitsLeft := held.bitsLeft
  have msgs : (Writer.sends count n true).msgs = (s.writers p).msgs := by
    rw [waits]
    rfl
  have bits : (Writer.sends count n true).bits = (s.writers p).bits := by
    rw [waits]
    rfl
  refine held.goes (held.member permitted) rfl held.left (fun k same => ?_) (by omega) (by omega)
    held.sizes ?_ ?_
  · rw [← Option.some.inj same]
    exact held.fits p n permitted
  · rw [waits]
    rfl
  · rw [waits]
    rfl

theorem Balanced.done (waits : s.writers p = .waits count n)
    (rests : next.permitted = none) :
    (({ s with skt := s.skt.less n } : Writing Proc).goes p next).Balanced (m - 1)
      (b - 8 * n.toNat) active := by
  have permitted : (s.writers p).permitted = some n := by
    rw [waits]
    rfl
  have fits := held.fits p n permitted
  have msgsLeft := held.msgsLeft
  have bitsLeft := held.bitsLeft
  have none := Writer.msgs_none rests
  have noBits := Writer.bits_none rests
  have sentNone := next.sentMsgs_le
  have sentNoBits := next.sentBits_le
  have before : (s.writers p).msgs = 1 ∧ (s.writers p).bits = 8 * n.toNat ∧
      (s.writers p).sentMsgs = 1 ∧ (s.writers p).sentBits = 8 * n.toNat := by
    rw [waits]
    exact ⟨rfl, rfl, rfl, rfl⟩
  refine held.goes (held.member permitted) rfl (held.left.less fits.2) (fun k some => ?_) (by omega)
    (by omega) held.sizes ?_ ?_
  · rw [rests] at some
    cases some
  · show (s.msgs + next.sentMsgs + m + s.firsts.length : Int) =
      s.msgs + (s.writers p).sentMsgs + (m - 1) + s.firsts.length
    omega
  · show (s.bits + next.sentBits + b + 8 * s.firsts.sum : Int) =
      s.bits + (s.writers p).sentBits + (b - 8 * n.toNat) + 8 * s.firsts.sum
    omega

theorem Balanced.kill (permitted : (s.writers p).permitted = some n)
    (uncharged : (s.writers p).charged = none) :
    (s.goes p .idle).Balanced m b active := by
  have msgsLeft := held.msgsLeft
  have bitsLeft := held.bitsLeft
  have msgs : Writer.idle.msgs = 0 := rfl
  have bits : Writer.idle.bits = 0 := rfl
  refine held.goes (held.member permitted) rfl held.left (fun k same => ?_) (by omega) (by omega)
    held.sizes ?_ ?_
  · cases same
  · unfold Writer.sentMsgs
    rw [uncharged]
    rfl
  · unfold Writer.sentBits
    rw [uncharged]
    rfl

end

/-! ### Every run -/

/-- What a process with so much to write finds is left over by the processes that have tested and
not yet updated the allocation. -/
def Leaves (s : Writing Proc) : Writer → Prop
  | .asks count => s.skt.isOpen = true → min (anyalloc s.skt) count ≠ 0 →
      ∀ procs : Finset Proc,
        total Writer.msgs s.writers procs + 1 ≤ s.skt.wMsgs.toNat ∧
        total Writer.bits s.writers procs + 8 * (min (anyalloc s.skt) count).toNat ≤
          (long s.skt.wFalloc).toNat
  | _ => True

/-- A process finds only what the others leave, and no signal ends a process that has sent before
its update. -/
def Covered (s : Writing Proc) : WriteEvent Proc → Prop
  | .look p => s.Leaves (s.writers p)
  | .kill p => (s.writers p).charged = none
  | _ => True

theorem Balanced.look (held : s.Balanced m b active) (asks : s.writers p = .asks count)
    (covered : s.Leaves (s.writers p)) :
    ∃ active, (s.look p count).Balanced m b active := by
  have rests : (s.writers p).permitted = none := by
    rw [asks]
    rfl
  rw [asks] at covered
  unfold Writing.look
  dsimp only
  split
  next => exact ⟨active, held⟩
  next finds =>
    split
    next isOpen =>
      have found : min (anyalloc s.skt) count ≠ 0 := fun zero => finds ⟨zero, isOpen⟩
      have fits := anyalloc_found rfl found
      obtain ⟨msgsLeft, bitsLeft⟩ := covered isOpen found (insert p active)
      exact ⟨_, held.permit asks ⟨fits.1, fits.2.1⟩ msgsLeft bitsLeft⟩
    next => exact ⟨_, held.rest rests rfl⟩

theorem asking_rests (count : BitVec 16) :
    (if count = 0 then Writer.idle else .asks count).permitted = none := by
  split <;> rfl

theorem Balanced.netsleep (held : s.Balanced m b active) (waits : s.writers p = .waits count n) :
    ∃ m b, (s.netsleep p count n).Balanced m b active := by
  unfold Writing.netsleep
  dsimp only
  split
  next => exact ⟨m, b, held⟩
  next =>
    have cleared := @Balanced.flags _ _ _ _ _ held
      (s.skt.clear (nXmterr ||| nEof ||| nRfnmwt)) rfl rfl
    split
    next => exact ⟨m, b, cleared.retry waits⟩
    next => exact ⟨_, _, cleared.done waits (asking_rests _)⟩

theorem Balanced.killed (held : s.Balanced m b active) (uncharged : (s.writers p).charged = none) :
    ∃ active, (s.goes p .idle).Balanced m b active := by
  cases permitted : (s.writers p).permitted with
  | none => exact ⟨_, held.rest permitted rfl⟩
  | some n => exact ⟨_, held.kill permitted uncharged⟩

theorem Balanced.step (held : s.Balanced m b active) {e : WriteEvent Proc} {next : Writing Proc}
    (covered : s.Covered e) (taken : s.Step e next) : ∃ m b active, next.Balanced m b active := by
  unfold Step Transition.Takes Writing.step at taken
  cases e with
  | write p count =>
    dsimp only at taken
    split at taken
    next idle =>
      cases taken
      exact ⟨m, b, _, held.rest (by rw [idle]; rfl) (asking_rests count)⟩
    next => cases taken
  | look p =>
    dsimp only at taken
    split at taken
    next count asks =>
      cases taken
      exact ⟨m, b, held.look asks covered⟩
    next => cases taken
  | send p =>
    dsimp only at taken
    split at taken
    next count n again sends =>
      cases taken
      exact ⟨m, b, active, held.send sends⟩
    next => cases taken
  | wake p =>
    dsimp only at taken
    split at taken
    next count n waits =>
      cases taken
      obtain ⟨k, c, after⟩ := held.netsleep waits
      exact ⟨k, c, active, after⟩
    next => cases taken
  | kill p =>
    dsimp only at taken
    split at taken
    next => cases taken
    next =>
      cases taken
      exact ⟨m, b, held.killed covered⟩
  | rfnm =>
    cases taken
    exact ⟨m, b, active, held.siguser nRfnmwt⟩
  | error =>
    cases taken
    exact ⟨m, b, active, held.siguser nXmterr⟩
  | all msgs bitsHi bitsLo =>
    cases taken
    obtain ⟨k, c, after⟩ := held.allocate msgs bitsHi bitsLo
    exact ⟨k, c, active, after⟩
  | mod status msgs bitsHi bitsLo =>
    cases taken
    have flags := @Balanced.flags _ _ _ _ _ held
      ((s.skt.clear (nToncp ||| nOpen)).set (status &&& (nToncp ||| nOpen))) rfl rfl
    exact ⟨_, _, active, flags.allocated msgs bitsHi bitsLo⟩
  | clean =>
    cases taken
    exact ⟨m, b, active, held.flags rfl rfl⟩

omit [DecidableEq Proc] in
theorem wfSetup_balanced (status msgs bitsHi bitsLo : BitVec 16) :
    ∃ m b active, (wfSetup Proc status msgs bitsHi bitsLo).Balanced m b active := by
  have empty : Left ⟨status &&& (nOpen ||| nToncp) ||| nNcpiu, 0, (0, 0)⟩ 0 0 := by
    refine ⟨rfl, ?_⟩
    show long (0, 0) = 0
    decide
  have start : Balanced (⟨⟨status &&& (nOpen ||| nToncp) ||| nNcpiu, 0, (0, 0)⟩, fun _ => .idle, [], 0,
      0⟩ : Writing Proc) 0 0 ∅ := {
    left := empty
    rests := fun _ _ => rfl
    fits := fun _ _ permitted => by cases permitted
    msgsLeft := Int.le_refl 0
    bitsLeft := Int.le_refl 0
    sizes := fun _ sent => by cases sent
    msgs := rfl
    bits := rfl }
  exact ⟨_, _, ∅, start.allocated msgs bitsHi bitsLo⟩

variable {status msgs bitsHi bitsLo : BitVec 16}

/-- A run from the set-up of a socket. -/
def Runs (status msgs bitsHi bitsLo : BitVec 16) (history : List (WriteEvent Proc))
    (s : Writing Proc) : Prop :=
  Transition.Run Step (wfSetup Proc status msgs bitsHi bitsLo) history s

/-- The same with steps that meet the condition. -/
def RunsCovered (status msgs bitsHi bitsLo : BitVec 16) (history : List (WriteEvent Proc))
    (s : Writing Proc) : Prop :=
  Transition.Run (Transition.Guarded Step Covered) (wfSetup Proc status msgs bitsHi bitsLo) history s

/-- Writers that find only what the others leave never exceed the allocation. For any number of
processes and any sequence of their steps, answers, errors, allocations and changes by the daemon,
each message has between 1 and 1000 bytes, and the messages and bits that were sent, but for those
sent again, are at most those that were allocated. -/
theorem writers_within {history : List (WriteEvent Proc)} {s : Writing Proc}
    (run : RunsCovered status msgs bitsHi bitsLo history s) :
    (∀ message ∈ s.sent, 1 ≤ message.1.toNat ∧ message.1.toNat ≤ 1000) ∧
      s.firsts.length ≤ s.msgs ∧ 8 * s.firsts.sum ≤ s.bits := by
  obtain ⟨m, b, active, held⟩ : ∃ m b active, s.Balanced m b active :=
    run.always (fun s => ∃ m b active, s.Balanced m b active)
      (wfSetup_balanced status msgs bitsHi bitsLo)
      fun _ _ _ ⟨_, _, _, held⟩ taken => held.step taken.1 taken.2
  have msgs := held.msgs
  have bits := held.bits
  have msgsLeft := held.msgsLeft
  have bitsLeft := held.bitsLeft
  have sentMsgs : total Writer.sentMsgs s.writers active ≤ total Writer.msgs s.writers active :=
    total_le Writer.sentMsgs_le
  have sentBits : total Writer.sentBits s.writers active ≤ total Writer.bits s.writers active :=
    total_le Writer.sentBits_le
  exact ⟨held.sizes, by omega, by omega⟩

instance (s : Writing Bool) : ∀ w, Decidable (s.Leaves w)
  | .asks _ => inferInstanceAs (Decidable (_ → _))
  | .idle | .sends _ _ _ | .waits _ _ => .isTrue trivial

instance (s : Writing Bool) : ∀ e, Decidable (s.Covered e)
  | .look p => inferInstanceAs (Decidable (s.Leaves (s.writers p)))
  | .kill p => inferInstanceAs (Decidable ((s.writers p).charged = none))
  | .write _ _ | .send _ | .wake _ | .rfnm | .error | .all _ _ _ | .mod _ _ _ _ | .clean =>
    .isTrue trivial

/-- Two processes write ten bytes each; one tests the allocation while the other one waits for its
answer. -/
def atOnce : List (WriteEvent Bool) :=
  [.write true 10, .write false 10, .look true, .send true, .look false, .send false, .rfnm,
    .wake true, .rfnm, .wake false]

def ended (msgs bits : BitVec 16) : Writing Bool :=
  Transition.last step (wfSetup Bool nOpen msgs 0 bits) atOnce

theorem writers_within_two : (∀ message ∈ (ended 2 160).sent,
    1 ≤ message.1.toNat ∧ message.1.toNat ≤ 1000) ∧
      (ended 2 160).firsts.length ≤ (ended 2 160).msgs ∧
        8 * (ended 2 160).firsts.sum ≤ (ended 2 160).bits :=
  writers_within (Transition.run_can (by decide +kernel))

/-- With an allocation for one of them both send. -/
theorem writers_beyond : Runs nOpen 1 0 80 atOnce (ended 1 80) ∧
    (ended 1 80).msgs = 1 ∧ (ended 1 80).firsts.length = 2 ∧
      (ended 1 80).bits = 80 ∧ 8 * (ended 1 80).firsts.sum = 160 :=
  ⟨Transition.run_all (by decide +kernel), by decide +kernel⟩

end Writing

end NetworkUnix.Ncpk
