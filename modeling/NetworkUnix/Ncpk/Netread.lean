/-
This file models the readers of an open receive socket and the allocations that the
kernel sends for it. A message that arrives uses up one message of the allocation; a
read takes bytes off the queue and, when half of the allocation is gone, waits until a
command can be sent that fills it up again. Other processes read in between.

The command names messages and bits in words; the books are kept in messages and
bytes. They agree as long as the difference of the bytes fits a word of bits and both
numbers are positive. A large allocation loses its high bits.
-/

import NetworkUnix.Ncpk.Netwrite
import Mathlib.Algebra.GroupWithZero.Nat

namespace NetworkUnix.Ncpk

/-! ### The receive socket -/

/-- What the readers look at: the messages and the bytes that are allocated, the number of bytes
queued, the bytes to allocate, and the queue. -/
structure RdSkt where
  rMsgs : BitVec 16
  rBytes : BitVec 16
  rQtotal : BitVec 16
  rHiwat : BitVec 16
  rMsgq : List (BitVec 8)

/-- A command that allocates messages and bits, the bits in two words. -/
structure All where
  msgs : BitVec 16
  bitsHi : BitVec 16
  bitsLo : BitVec 16

/-- The nominal number of messages. -/
def nommsg : BitVec 16 := 10

/-- The daemon's nominal number of bits. -/
def nomBall : BitVec 16 := 512

namespace RdSkt

/-- Half of the bytes or of the messages are gone. -/
def low (s : RdSkt) : Bool :=
  s.rBytes.toInt ≤ (s.rHiwat.sshiftRight 1).toInt ∨ s.rMsgs.toInt ≤ 5

/-- The bytes that a read of so many takes. -/
def taken (s : RdSkt) (count : BitVec 16) : List (BitVec 8) :=
  if (min s.rQtotal count).toInt ≤ 0 then [] else s.rMsgq.take (min s.rQtotal count).toNat

end RdSkt

/-- The socket; the processes that wait to send an allocation, with the number of bytes each has
read; the commands sent, the messages and bytes added to the books, the messages that have arrived
and the bytes that have been read. -/
structure Reading (Proc : Type) where
  skt : RdSkt
  readers : Proc → Option (BitVec 16)
  alls : List All
  addedMsgs : Int
  addedBytes : Int
  arrived : List (List (BitVec 8))
  given : List (BitVec 8)

inductive ReadEvent (Proc : Type)
  | arrive (text : List (BitVec 8))
  | read (p : Proc) (count : BitVec 16)
  | grant (p : Proc)

namespace Reading

variable {Proc : Type}

/-- A message for the user. -/
def hh (s : Reading Proc) (text : List (BitVec 8)) : Reading Proc :=
  { s with
    skt := { s.skt with
      rMsgs := s.skt.rMsgs - 1
      rMsgq := s.skt.rMsgq ++ text
      rQtotal := s.skt.rQtotal + BitVec.ofNat 16 text.length }
    arrived := s.arrived ++ [text] }

/-- The bytes leave the queue. -/
def bytesout (s : Reading Proc) (data : List (BitVec 8)) : Reading Proc :=
  { s with
    skt := { s.skt with
      rMsgq := s.skt.rMsgq.drop data.length
      rBytes := s.skt.rBytes - BitVec.ofNat 16 data.length }
    given := s.given ++ data }

section

variable [DecidableEq Proc]

/-- The end of a read. -/
def finish (s : Reading Proc) (p : Proc) (amt : BitVec 16) : Reading Proc :=
  { s with
    skt := { s.skt with rQtotal := s.skt.rQtotal - amt }
    readers := Function.update s.readers p none }

/-- A read of so many bytes, up to the wait for the link. With nothing to read the process sleeps.
-/
def netread (s : Reading Proc) (p : Proc) (count : BitVec 16) : Reading Proc :=
  if (min s.skt.rQtotal count).toInt ≤ 0 then s
  else
    let data := s.skt.taken count
    let amt := BitVec.ofNat 16 data.length
    let s := s.bytesout data
    if s.skt.low then { s with readers := Function.update s.readers p (some amt) } else s.finish p amt

/-- The link is free, and the process fills up the allocation. -/
def sendalloc (s : Reading Proc) (p : Proc) (amt : BitVec 16) : Reading Proc :=
  let msgs := nommsg - s.skt.rMsgs
  let bytes := s.skt.rHiwat - s.skt.rBytes
  let granted : Reading Proc := { s with
    skt := { s.skt with rMsgs := s.skt.rMsgs + msgs, rBytes := s.skt.rBytes + bytes }
    alls := s.alls ++ [⟨msgs, 0, bytes <<< 3⟩]
    addedMsgs := s.addedMsgs + msgs.toInt
    addedBytes := s.addedBytes + bytes.toInt }
  granted.finish p amt

/-- What an event leads to; none stands for one that cannot happen. -/
def step (s : Reading Proc) : ReadEvent Proc → Option (Reading Proc)
  | .arrive text => some (s.hh text)
  | .read p count =>
    match s.readers p with
    | none => some (s.netread p count)
    | some _ => none
  | .grant p =>
    match s.readers p with
    | none => none
    | some amt => some (s.sendalloc p amt)

def Step : Reading Proc → ReadEvent Proc → Reading Proc → Prop := Transition.Takes step

/-- A socket for which the daemon has sent its allocation and told the kernel of it, and which a
user has opened with a nominal number of bytes. -/
def netopen (Proc : Type) (nomall : BitVec 16) : Reading Proc where
  skt := ⟨nommsg, nomBall.sshiftRight 3, 0, if nomall ≠ 0 then nomall else 256, []⟩
  readers := fun _ => none
  alls := [⟨nommsg, 0, nomBall⟩]
  addedMsgs := nommsg.toInt
  addedBytes := (nomBall.sshiftRight 3).toInt
  arrived := []
  given := []

end

/-! ### The books -/

/-- The messages and the bits that the commands name. -/
def namedMsgs (s : Reading Proc) : Nat := (s.alls.map fun all => all.msgs.toNat).sum

def namedBits (s : Reading Proc) : Nat := (s.alls.map fun all => (all.bitsHi ++ all.bitsLo).toNat).sum

/-- The messages and the bits that the foreign host has left. -/
def leftMsgs (s : Reading Proc) : Int := s.namedMsgs - s.arrived.length

def leftBits (s : Reading Proc) : Int := s.namedBits - 8 * (s.arrived.map List.length).sum

/-- The books agree with what the foreign host has left. When all has been read and no process waits
to allocate more, it has something left. -/
structure Books (s : Reading Proc) : Prop where
  addsMsgs : s.addedMsgs = s.namedMsgs
  addsBytes : 8 * s.addedBytes = s.namedBits
  positive : ∀ all ∈ s.alls, 0 < all.msgs.toInt ∧ 0 < (all.bitsHi ++ all.bitsLo).toInt
  msgs : s.skt.rMsgs.toInt = s.leftMsgs
  bytes : 8 * s.skt.rBytes.toInt = s.leftBits + 8 * s.skt.rMsgq.length
  alive : s.skt.rMsgq = [] → (∀ p, s.readers p = none) → 0 < s.skt.rMsgs.toInt ∧ 0 < s.skt.rBytes.toInt

/-- The words do not overflow; a message without bytes is not the last one that is allocated; and an
allocation adds at least one message and between one byte and 8191. -/
def Fits (s : Reading Proc) : ReadEvent Proc → Prop
  | .arrive text => -32768 < s.skt.rMsgs.toInt ∧
      (text = [] → s.skt.rMsgq = [] → (∀ p, s.readers p = none) → 1 < s.skt.rMsgs.toInt)
  | .read _ count => -32768 + (s.skt.taken count).length ≤ s.skt.rBytes.toInt ∧
      (0 ≤ s.skt.rHiwat.toInt ∨ (s.skt.taken count).length < s.skt.rBytes.toInt)
  | .grant _ => 0 < s.skt.rHiwat.toInt ∧ s.skt.rBytes.toInt < s.skt.rHiwat.toInt ∧
      s.skt.rHiwat.toInt ≤ s.skt.rBytes.toInt + 8191 ∧
      -32757 ≤ s.skt.rMsgs.toInt ∧ s.skt.rMsgs.toInt < 10

open Counter

theorem toInt_of_shows {word : BitVec 16} {n : Int} (shows : Shows word n) (low : -32768 ≤ n)
    (high : n < 32768) : word.toInt = n := shows.toInt (by decide) low high

theorem ofNat_small {n : Nat} (small : n < 32768) : (BitVec.ofNat 16 n).toInt = n := by
  rw [← BitVec.ofInt_natCast]
  exact toInt_of_shows rfl (by omega) (by omega)

variable {s : Reading Proc}

theorem taken_spec (skt : RdSkt) (count : BitVec 16) :
    skt.taken count ++ skt.rMsgq.drop (skt.taken count).length = skt.rMsgq ∧
      (skt.taken count).length < 32768 := by
  unfold RdSkt.taken
  split
  next => exact ⟨rfl, by decide⟩
  next positive =>
    have bound : (min skt.rQtotal count).toNat < 32768 := by
      have small := (min skt.rQtotal count).isLt
      rw [BitVec.toInt_eq_toNat_cond] at positive
      split at positive <;> omega
    refine ⟨?_, ?_⟩
    · rw [List.length_take]
      rcases Nat.le_total (min skt.rQtotal count).toNat skt.rMsgq.length with fewer | all
      · rw [Nat.min_eq_left fewer, List.take_append_drop]
      · rw [Nat.min_eq_right all, List.take_of_length_le all, List.drop_length, List.append_nil]
    · have := List.length_take_le (min skt.rQtotal count).toNat skt.rMsgq
      omega

theorem Books.hh (books : s.Books) {text : List (BitVec 8)} (fits : s.Fits (.arrive text)) :
    (s.hh text).Books := by
  obtain ⟨inRange, last⟩ := fits
  have high := BitVec.toInt_lt (x := s.skt.rMsgs)
  have msgs : (s.skt.rMsgs - 1).toInt = s.skt.rMsgs.toInt - 1 :=
    toInt_of_shows ((shows_signed s.skt.rMsgs).sub (shows_signed 1)) (by
      have : (1 : BitVec 16).toInt = 1 := rfl
      omega) (by
      have : (1 : BitVec 16).toInt = 1 := rfl
      omega)
  have number := books.msgs
  have bytes := books.bytes
  unfold leftMsgs at number
  unfold leftBits at bytes
  exact { books with
    msgs := by
      show (s.skt.rMsgs - 1).toInt = s.namedMsgs - ((s.arrived ++ [text]).length : Int)
      rw [List.length_append, List.length_singleton]
      omega
    bytes := by
      show 8 * s.skt.rBytes.toInt = s.namedBits - 8 * (((s.arrived ++ [text]).map List.length).sum : Int) +
        8 * ((s.skt.rMsgq ++ text).length : Int)
      rw [List.map_append, List.sum_append, List.length_append, List.map_singleton,
        List.sum_singleton]
      omega
    alive := fun empty idle => by
      obtain ⟨queue, isEmpty⟩ := List.append_eq_nil_iff.mp empty
      have more := last isEmpty queue idle
      have alive := books.alive queue idle
      show 0 < (s.skt.rMsgs - 1).toInt ∧ _
      exact ⟨by omega, alive.2⟩ }

theorem bytesout_bytes {count : BitVec 16}
    (inRange : -32768 + (s.skt.taken count).length ≤ s.skt.rBytes.toInt) :
    (s.bytesout (s.skt.taken count)).skt.rBytes.toInt =
      s.skt.rBytes.toInt - (s.skt.taken count).length := by
  have small := (taken_spec s.skt count).2
  have high := BitVec.toInt_lt (x := s.skt.rBytes)
  have amt := ofNat_small small
  have less := (shows_signed s.skt.rBytes).sub
    (shows_signed (BitVec.ofNat 16 (s.skt.taken count).length))
  rw [amt] at less
  exact toInt_of_shows less (by omega) (by omega)

variable [DecidableEq Proc]

theorem Books.netread (books : s.Books) {p : Proc} {count : BitVec 16}
    (fits : s.Fits (.read p count)) : (s.netread p count).Books := by
  obtain ⟨inRange, enough⟩ := fits
  have bytes := books.bytes
  have left := bytesout_bytes inRange
  have queue : ((s.skt.taken count).length + (s.skt.rMsgq.drop (s.skt.taken count).length).length) =
      s.skt.rMsgq.length := by
    rw [← List.length_append, (taken_spec s.skt count).1]
  have balance : 8 * (s.bytesout (s.skt.taken count)).skt.rBytes.toInt =
      s.leftBits + 8 * ((s.bytesout (s.skt.taken count)).skt.rMsgq.length : Int) := by
    show 8 * (s.bytesout (s.skt.taken count)).skt.rBytes.toInt =
      s.leftBits + 8 * ((s.skt.rMsgq.drop (s.skt.taken count).length).length : Int)
    omega
  unfold Reading.netread
  split
  next => exact books
  next =>
    dsimp only
    split
    next => exact { books with
      bytes := balance
      alive := fun _ idle => by
        have waits : Function.update s.readers p
          (some (BitVec.ofNat 16 (s.skt.taken count).length)) p = none := idle p
        rw [Function.update_self] at waits
        cases waits }
    next full => exact { books with
      bytes := balance
      alive := fun _ _ => by
        unfold RdSkt.low at full
        have above := not_or.mp (fun low => full (decide_eq_true low))
        have half : (s.skt.rHiwat.sshiftRight 1).toInt = s.skt.rHiwat.toInt / 2 := by
          rw [BitVec.toInt_sshiftRight, Int.shiftRight_eq_div_pow]
          rfl
        have bytesAbove : (s.skt.rHiwat.sshiftRight 1).toInt <
          (s.bytesout (s.skt.taken count)).skt.rBytes.toInt := Int.not_le.mp above.1
        have msgsAbove : 5 < s.skt.rMsgs.toInt := Int.not_le.mp above.2
        show 0 < s.skt.rMsgs.toInt ∧ 0 < (s.bytesout (s.skt.taken count)).skt.rBytes.toInt
        omega }

theorem sum_snoc {α : Type} (f : α → Nat) (xs : List α) (x : α) :
    ((xs ++ [x]).map f).sum = (xs.map f).sum + f x := by
  rw [List.map_append, List.sum_append, List.map_singleton, List.sum_singleton]

theorem Books.sendalloc (books : s.Books) {p : Proc} (amt : BitVec 16)
    (fits : s.Fits (.grant p)) : (s.sendalloc p amt).Books := by
  obtain ⟨hiwat, less, few, lowMsgs, fewMsgs⟩ := fits
  have msgsNumber := books.msgs
  have bytesNumber := books.bytes
  have addsMsgs := books.addsMsgs
  have addsBytes := books.addsBytes
  unfold leftMsgs at msgsNumber
  unfold leftBits at bytesNumber
  have ten : nommsg.toInt = 10 := rfl
  have msgs : (nommsg - s.skt.rMsgs).toInt = 10 - s.skt.rMsgs.toInt :=
    toInt_of_shows ((shows_signed nommsg).sub (shows_signed s.skt.rMsgs)) (by omega) (by omega)
  have bytes : (s.skt.rHiwat - s.skt.rBytes).toInt = s.skt.rHiwat.toInt - s.skt.rBytes.toInt :=
    toInt_of_shows ((shows_signed s.skt.rHiwat).sub (shows_signed s.skt.rBytes)) (by omega) (by omega)
  have msgsWord : ((nommsg - s.skt.rMsgs).toNat : Int) = 10 - s.skt.rMsgs.toInt := by
    have cond := BitVec.toInt_eq_toNat_cond (nommsg - s.skt.rMsgs)
    have small := (nommsg - s.skt.rMsgs).isLt
    split at cond <;> omega
  have bytesWord : ((s.skt.rHiwat - s.skt.rBytes).toNat : Int) =
      s.skt.rHiwat.toInt - s.skt.rBytes.toInt := by
    have cond := BitVec.toInt_eq_toNat_cond (s.skt.rHiwat - s.skt.rBytes)
    have small := (s.skt.rHiwat - s.skt.rBytes).isLt
    split at cond <;> omega
  have named : (((0 : BitVec 16) ++ (s.skt.rHiwat - s.skt.rBytes) <<< 3).toNat : Int) =
      8 * (s.skt.rHiwat.toInt - s.skt.rBytes.toInt) := by
    have word := long_toNat (0, (s.skt.rHiwat - s.skt.rBytes) <<< 3)
    have shifted : ((s.skt.rHiwat - s.skt.rBytes) <<< 3).toNat =
        8 * (s.skt.rHiwat - s.skt.rBytes).toNat := by
      rw [BitVec.toNat_shiftLeft, Nat.shiftLeft_eq]
      omega
    have zero : (0 : BitVec 16).toNat = 0 := rfl
    unfold long at word
    dsimp only at word
    omega
  have filledMsgs : (s.skt.rMsgs + (nommsg - s.skt.rMsgs)).toInt = 10 := by
    rw [BitVec.add_comm, BitVec.sub_add_cancel]
    exact ten
  have filledBytes : (s.skt.rBytes + (s.skt.rHiwat - s.skt.rBytes)).toInt = s.skt.rHiwat.toInt := by
    rw [BitVec.add_comm, BitVec.sub_add_cancel]
  have allMsgs : ((s.sendalloc p amt).namedMsgs : Int) = s.namedMsgs + (10 - s.skt.rMsgs.toInt) := by
    unfold namedMsgs Reading.sendalloc Reading.finish
    rw [sum_snoc]
    dsimp only
    omega
  have allBits : ((s.sendalloc p amt).namedBits : Int) =
      s.namedBits + 8 * (s.skt.rHiwat.toInt - s.skt.rBytes.toInt) := by
    unfold namedBits Reading.sendalloc Reading.finish
    rw [sum_snoc]
    dsimp only
    omega
  refine ⟨?_, ?_, fun all sent => ?_, ?_, ?_, fun _ _ => ?_⟩
  · show s.addedMsgs + (nommsg - s.skt.rMsgs).toInt = ((s.sendalloc p amt).namedMsgs : Int)
    omega
  · show 8 * (s.addedBytes + (s.skt.rHiwat - s.skt.rBytes).toInt) =
      ((s.sendalloc p amt).namedBits : Int)
    omega
  · rcases List.mem_append.mp sent with earlier | now
    · exact books.positive all earlier
    · rw [List.mem_singleton.mp now]
      have cond := BitVec.toInt_eq_toNat_cond
        ((0 : BitVec 16) ++ (s.skt.rHiwat - s.skt.rBytes) <<< 3)
      refine ⟨by show 0 < (nommsg - s.skt.rMsgs).toInt; omega, ?_⟩
      show 0 < ((0 : BitVec 16) ++ (s.skt.rHiwat - s.skt.rBytes) <<< 3).toInt
      split at cond <;> omega
  · show (s.skt.rMsgs + (nommsg - s.skt.rMsgs)).toInt =
      (s.sendalloc p amt).namedMsgs - (s.arrived.length : Int)
    omega
  · show 8 * (s.skt.rBytes + (s.skt.rHiwat - s.skt.rBytes)).toInt =
      (s.sendalloc p amt).namedBits - 8 * ((s.arrived.map List.length).sum : Int) +
        8 * (s.skt.rMsgq.length : Int)
    omega
  · show 0 < (s.skt.rMsgs + (nommsg - s.skt.rMsgs)).toInt ∧
      0 < (s.skt.rBytes + (s.skt.rHiwat - s.skt.rBytes)).toInt
    omega

theorem Books.step (books : s.Books) {e : ReadEvent Proc} {next : Reading Proc} (fits : s.Fits e)
    (taken : s.Step e next) : next.Books := by
  unfold Step Transition.Takes Reading.step at taken
  cases e with
  | arrive text =>
    cases taken
    exact books.hh fits
  | read p count =>
    dsimp only at taken
    split at taken
    next =>
      cases taken
      exact books.netread fits
    next => cases taken
  | grant p =>
    dsimp only at taken
    split at taken
    next => cases taken
    next amt waits =>
      cases taken
      exact books.sendalloc amt fits

/-! ### Every run -/

omit [DecidableEq Proc] in
theorem netopen_books (nomall : BitVec 16) : (netopen Proc nomall).Books where
  addsMsgs := rfl
  addsBytes := rfl
  positive := fun all sent => by
    rw [List.mem_singleton.mp sent]
    exact ⟨by decide, by decide⟩
  msgs := rfl
  bytes := rfl
  alive := fun _ _ => by
    show 0 < nommsg.toInt ∧ 0 < (nomBall.sshiftRight 3).toInt
    decide

/-- A run from the opening of a socket. -/
def Runs (nomall : BitVec 16) (history : List (ReadEvent Proc)) (s : Reading Proc) : Prop :=
  Transition.Run Step (netopen Proc nomall) history s

/-- The same with steps that meet the condition. -/
def RunsFit (nomall : BitVec 16) (history : List (ReadEvent Proc)) (s : Reading Proc) : Prop :=
  Transition.Run (Transition.Guarded Step Fits) (netopen Proc nomall) history s

/-- The books agree with what was granted. For any nominal number of bytes that a user sets, any
number of processes and any sequence of arrivals, reads and allocations, the bits that the commands
name are eight times the bytes that the books add, the messages are the same, and each command
names at least one message and one bit. The books show what the foreign host has left and, of the
bytes, what is queued; and when all has been read and no allocation is waited for, it has something
left. -/
theorem books_agree {nomall : BitVec 16} {history : List (ReadEvent Proc)} {s : Reading Proc}
    (run : RunsFit nomall history s) :
    (s.namedBits : Int) = 8 * s.addedBytes ∧ (s.namedMsgs : Int) = s.addedMsgs ∧
      (∀ all ∈ s.alls, 0 < all.msgs.toInt ∧ 0 < (all.bitsHi ++ all.bitsLo).toInt) ∧
      s.skt.rMsgs.toInt = s.leftMsgs ∧
      8 * s.skt.rBytes.toInt = s.leftBits + 8 * s.skt.rMsgq.length ∧
      (s.skt.rMsgq = [] → (∀ p, s.readers p = none) → 0 < s.leftMsgs ∧ 0 < s.leftBits) := by
  have books : s.Books := run.always Books (netopen_books nomall)
    fun _ _ _ held taken => held.step taken.1 taken.2
  refine ⟨books.addsBytes.symm, books.addsMsgs.symm, books.positive, books.msgs, books.bytes,
    fun empty idle => ?_⟩
  have alive := books.alive empty idle
  have msgs := books.msgs
  have bytes := books.bytes
  rw [empty, List.length_nil] at bytes
  omega

instance (s : Reading Bool) : ∀ e, Decidable (s.Fits e)
  | .arrive text => inferInstanceAs (Decidable (_ ∧ (text = [] → _ → _ → _)))
  | .read _ _ => inferInstanceAs (Decidable (_ ∧ (_ ∨ _)))
  | .grant _ => inferInstanceAs (Decidable (_ ∧ _ ∧ _ ∧ _ ∧ _))

/-- A message of one byte arrives and is read, and the allocation is filled up. -/
def oneByte : List (ReadEvent Bool) := [.arrive [0], .read true 1, .grant true]

def granted (nomall : BitVec 16) : Reading Bool :=
  Transition.last step (netopen Bool nomall) oneByte

theorem books_agree_one : ((granted 0).namedBits : Int) = 8 * (granted 0).addedBytes :=
  (books_agree (Transition.run_can (by decide +kernel))).1

/-- With 10000 bytes the command names 13960 bits, and the books add 9937 bytes. -/
theorem books_differ : Runs 10000 oneByte (granted 10000) ∧
    (granted 10000).namedBits = 512 + 13960 ∧ (granted 10000).addedBytes = 64 + 9937 :=
  ⟨Transition.run_all (by decide +kernel), by decide +kernel⟩

end Reading

end NetworkUnix.Ncpk
