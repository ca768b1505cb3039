/-
This file models the writers of a send socket in the kernel: the test of the
allocation, the transmission, the wait for the answer and the update of the
allocation, one step each, for any number of processes. Between the steps the
network answers, allocates more, and the daemon changes the socket.

The flags that only tell what a process waits for are left out. A message is given by
the number of its bytes; whether it repeats one that was not delivered is remembered
with it.
-/

import NetworkUnix.Lib.Counter
import NetworkUnix.Lib.Run
import Mathlib.Logic.Function.Basic

namespace NetworkUnix.Ncpk

/-! ### The send socket -/

/-- The bits of a socket's flags. -/
def nRfnmwt : BitVec 16 := 0o2

def nEof : BitVec 16 := 0o4

def nNcpiu : BitVec 16 := 0o10

def nToncp : BitVec 16 := 0o40

def nOpen : BitVec 16 := 0o100

def nXmterr : BitVec 16 := 0o200

/-- What the writers look at: the flags, the messages and the bits that the foreign host has
allocated, the bits in two words. -/
structure WrtSkt where
  wFlags : BitVec 16
  wMsgs : BitVec 16
  wFalloc : BitVec 16 × BitVec 16

namespace WrtSkt

def set (s : WrtSkt) (flags : BitVec 16) : WrtSkt := { s with wFlags := s.wFlags ||| flags }

def clear (s : WrtSkt) (flags : BitVec 16) : WrtSkt := { s with wFlags := s.wFlags &&& ~~~flags }

def isOpen (s : WrtSkt) : Bool := s.wFlags &&& nOpen ≠ 0

end WrtSkt

/-- A word is added to a number of two words. -/
def dpadd (p : BitVec 16 × BitVec 16) (n : BitVec 16) : BitVec 16 × BitVec 16 :=
  (p.1 + if 65536 ≤ p.2.toNat + n.toNat then 1 else 0, p.2 + n)

/-- A word is subtracted from a number of two words. -/
def dpsub (p : BitVec 16 × BitVec 16) (n : BitVec 16) : BitVec 16 × BitVec 16 :=
  (p.1 - if p.2.toNat < n.toNat then 1 else 0, p.2 - n)

/-- The number of bytes that may be sent in a message. -/
def anyalloc (s : WrtSkt) : BitVec 16 :=
  if s.wMsgs = 0 then 0
  else if s.wFalloc.1 ≠ 0 ∨ 8000 ≤ s.wFalloc.2.toNat then 1000
  else s.wFalloc.2.sshiftRight 3 &&& 0o17777

/-- The minimum of two numbers without sign. -/
def min (a b : BitVec 16) : BitVec 16 := if a.toNat < b.toNat then a else b

/-- An allocation of messages and bits is added. -/
def WrtSkt.more (s : WrtSkt) (msgs bitsHi bitsLo : BitVec 16) : WrtSkt :=
  { s with
    wMsgs := s.wMsgs + msgs
    wFalloc := dpadd (s.wFalloc.1 + bitsHi, s.wFalloc.2) bitsLo }

/-- A message that was sent is subtracted. -/
def WrtSkt.less (s : WrtSkt) (n : BitVec 16) : WrtSkt :=
  { s with wMsgs := s.wMsgs - 1, wFalloc := dpsub s.wFalloc (n <<< 3) }

/-! ### The writers -/

/-- Where a process is in `netwrite`, with the bytes it has left to write and those of the message
it is permitted to send: it tests the allocation, or sleeps until there is one; it sends the
message, for the first time or again; it waits for the answer. -/
inductive Writer
  | idle
  | asks (count : BitVec 16)
  | sends (count n : BitVec 16) (again : Bool)
  | waits (count n : BitVec 16)
deriving DecidableEq

/-- The socket, its writers, what has been sent, and the messages and bits that have been
allocated. -/
structure Writing (Proc : Type) where
  skt : WrtSkt
  writers : Proc → Writer
  sent : List (BitVec 16 × Bool)
  msgs : Nat
  bits : Nat

inductive WriteEvent (Proc : Type)
  | write (p : Proc) (count : BitVec 16)
  | look (p : Proc)
  | send (p : Proc)
  | wake (p : Proc)
  | kill (p : Proc)
  | rfnm
  | error
  | all (msgs bitsHi bitsLo : BitVec 16)
  | mod (status : BitVec 16) (msgs bitsHi bitsLo : BitVec 16)
  | clean

namespace Writing

variable {Proc : Type}

/-- An allocation is added and remembered. -/
def allocated (s : Writing Proc) (msgs bitsHi bitsLo : BitVec 16) : Writing Proc :=
  { s with
    skt := s.skt.more msgs bitsHi bitsLo
    msgs := s.msgs + msgs.toNat
    bits := s.bits + (bitsHi ++ bitsLo).toNat }

variable [DecidableEq Proc]

def goes (s : Writing Proc) (p : Proc) (next : Writer) : Writing Proc :=
  { s with writers := Function.update s.writers p next }

/-- The loop for more bytes. -/
def asking (s : Writing Proc) (p : Proc) (count : BitVec 16) : Writing Proc :=
  s.goes p (if count = 0 then .idle else .asks count)

/-- The test of the allocation. A process without one sleeps while the connection is open; a write
on a closed connection ends with an error. -/
def look (s : Writing Proc) (p : Proc) (count : BitVec 16) : Writing Proc :=
  let n := min (anyalloc s.skt) count
  if n = 0 ∧ s.skt.isOpen then s
  else if s.skt.isOpen then s.goes p (.sends count n false)
  else s.goes p .idle

def sndnetbytes (s : Writing Proc) (p : Proc) (count n : BitVec 16) (again : Bool) : Writing Proc :=
  { s with sent := s.sent ++ [(n, again)] }.goes p (.waits count n)

/-- The end of the sleep for an answer, if there is one: an error has the message sent again. -/
def netsleep (s : Writing Proc) (p : Proc) (count n : BitVec 16) : Writing Proc :=
  let flags := s.skt.wFlags
  if flags &&& (nXmterr ||| nEof ||| nRfnmwt) = 0 then s
  else
    let s := { s with skt := s.skt.clear (nXmterr ||| nEof ||| nRfnmwt) }
    if flags &&& nXmterr ≠ 0 then s.goes p (.sends count n true)
    else { s with skt := s.skt.less n }.asking p (count - n)

/-- An answer for the writers, unless the daemon gets all that comes for the socket. -/
def siguser (s : Writing Proc) (flag : BitVec 16) : Writing Proc :=
  if s.skt.wFlags &&& nToncp ≠ 0 then s else { s with skt := s.skt.set flag }

/-- An allocation from the network, unless the daemon gets all that comes for the socket. -/
def allocate (s : Writing Proc) (msgs bitsHi bitsLo : BitVec 16) : Writing Proc :=
  if s.skt.wFlags &&& nToncp ≠ 0 then s else s.allocated msgs bitsHi bitsLo

/-- The daemon changes the flags and adds an allocation. -/
def wfMod (s : Writing Proc) (status msgs bitsHi bitsLo : BitVec 16) : Writing Proc :=
  ({ s with skt := (s.skt.clear (nToncp ||| nOpen)).set (status &&& (nToncp ||| nOpen)) }).allocated
    msgs bitsHi bitsLo

/-- The daemon is done with the socket while a user has it. -/
def iclean (s : Writing Proc) : Writing Proc :=
  { s with skt := (s.skt.clear (nNcpiu ||| nOpen)).set nEof }

/-- What an event leads to; none stands for one that cannot happen. -/
def step (s : Writing Proc) : WriteEvent Proc → Option (Writing Proc)
  | .write p count =>
    match s.writers p with
    | .idle => some (s.asking p count)
    | _ => none
  | .look p =>
    match s.writers p with
    | .asks count => some (s.look p count)
    | _ => none
  | .send p =>
    match s.writers p with
    | .sends count n again => some (s.sndnetbytes p count n again)
    | _ => none
  | .wake p =>
    match s.writers p with
    | .waits count n => some (s.netsleep p count n)
    | _ => none
  | .kill p => if s.writers p = .idle then none else some (s.goes p .idle)
  | .rfnm => some (s.siguser nRfnmwt)
  | .error => some (s.siguser nXmterr)
  | .all msgs bitsHi bitsLo => some (s.allocate msgs bitsHi bitsLo)
  | .mod status msgs bitsHi bitsLo => some (s.wfMod status msgs bitsHi bitsLo)
  | .clean => some s.iclean

def Step : Writing Proc → WriteEvent Proc → Writing Proc → Prop := Transition.Takes step

/-- A socket that the daemon has just set up. -/
def wfSetup (Proc : Type) (status msgs bitsHi bitsLo : BitVec 16) : Writing Proc :=
  allocated ⟨⟨status &&& (nOpen ||| nToncp) ||| nNcpiu, 0, (0, 0)⟩, fun _ => .idle, [], 0, 0⟩ msgs
    bitsHi bitsLo

end Writing

/-! ### The numbers that the words stand for -/

open Counter

/-- The bits of an allocation as one number. -/
def long (p : BitVec 16 × BitVec 16) : BitVec 32 := p.1 ++ p.2

theorem long_toNat (p : BitVec 16 × BitVec 16) :
    (long p).toNat = p.1.toNat * 65536 + p.2.toNat := by
  unfold long
  rw [BitVec.toNat_append, ← Nat.shiftLeft_add_eq_or_of_lt p.2.isLt, Nat.shiftLeft_eq]

theorem long_dpadd (p : BitVec 16 × BitVec 16) (n : BitVec 16) :
    long (dpadd p n) = long p + n.setWidth 32 := by
  apply BitVec.eq_of_toNat_eq
  have high := p.1.isLt
  have low := p.2.isLt
  have word := n.isLt
  rw [BitVec.toNat_add, long_toNat, long_toNat, BitVec.toNat_setWidth]
  unfold dpadd
  have zero : (0 : BitVec 16).toNat = 0 := rfl
  have one : (1 : BitVec 16).toNat = 1 := rfl
  split
  · simp only [BitVec.toNat_add, one]
    omega
  · simp only [BitVec.toNat_add, zero]
    omega

theorem long_dpsub (p : BitVec 16 × BitVec 16) (n : BitVec 16) :
    long (dpsub p n) = long p - n.setWidth 32 := by
  apply BitVec.eq_of_toNat_eq
  have high := p.1.isLt
  have low := p.2.isLt
  have word := n.isLt
  rw [BitVec.toNat_sub, long_toNat, long_toNat, BitVec.toNat_setWidth]
  unfold dpsub
  have zero : (0 : BitVec 16).toNat = 0 := rfl
  have one : (1 : BitVec 16).toNat = 1 := rfl
  split
  · simp only [BitVec.toNat_sub, one]
    omega
  · simp only [BitVec.toNat_sub, zero]
    omega

theorem long_high (p : BitVec 16 × BitVec 16) (high : BitVec 16) :
    long (p.1 + high, p.2) = long p + long (high, 0) := by
  apply BitVec.eq_of_toNat_eq
  have word := high.isLt
  have first := p.1.isLt
  have second := p.2.isLt
  have zero : (0 : BitVec 16).toNat = 0 := rfl
  rw [BitVec.toNat_add, long_toNat, long_toNat, long_toNat]
  simp only [BitVec.toNat_add, zero]
  omega

theorem shows_word (n : BitVec 16) : Shows (n.setWidth 32) n.toNat := by
  have same := shows_toNat (n.setWidth 32)
  rw [BitVec.toNat_setWidth, Nat.mod_eq_of_lt (by have := n.isLt; omega)] at same
  exact same

variable {skt : WrtSkt} {m b : Int}

/-- The words of a socket show the messages and the bits that are left. -/
structure Left (skt : WrtSkt) (m b : Int) : Prop where
  msgs : Shows skt.wMsgs m
  bits : Shows (long skt.wFalloc) b

theorem Left.more (left : Left skt m b) (msgs bitsHi bitsLo : BitVec 16) :
    Left (skt.more msgs bitsHi bitsLo) (m + msgs.toNat) (b + (bitsHi ++ bitsLo).toNat) := by
  refine ⟨left.msgs.add (shows_toNat msgs), ?_⟩
  have bits : ((bitsHi ++ bitsLo).toNat : Int) = (long (bitsHi, 0)).toNat + bitsLo.toNat := by
    have whole := long_toNat (bitsHi, bitsLo)
    have high := long_toNat (bitsHi, 0)
    unfold long at *
    rw [whole, high]
    simp
  show Shows (long (dpadd (skt.wFalloc.1 + bitsHi, skt.wFalloc.2) bitsLo)) _
  rw [long_dpadd, long_high, bits, ← Int.add_assoc]
  exact (left.bits.add (shows_toNat _)).add (shows_word bitsLo)

theorem Left.less (left : Left skt m b) {n : BitVec 16} (small : n.toNat ≤ 1000) :
    Left (skt.less n) (m - 1) (b - 8 * n.toNat) := by
  have one := shows_toNat (1 : BitVec 16)
  refine ⟨left.msgs.sub one, ?_⟩
  have eight : (n <<< 3).toNat = 8 * n.toNat := by
    rw [BitVec.toNat_shiftLeft, Nat.shiftLeft_eq]
    omega
  have word := shows_word (n <<< 3)
  rw [eight] at word
  show Shows (long (dpsub skt.wFalloc (n <<< 3))) _
  rw [long_dpsub]
  exact left.bits.sub word

theorem anyalloc_found {count n : BitVec 16} (isMin : min (anyalloc skt) count = n) (found : n ≠ 0) :
    1 ≤ n.toNat ∧ n.toNat ≤ 1000 ∧ 1 ≤ skt.wMsgs.toNat ∧ 8 * n.toNat ≤ (long skt.wFalloc).toNat := by
  have positive : 1 ≤ n.toNat := by
    have isNat : n.toNat ≠ 0 := fun zero => found (BitVec.eq_of_toNat_eq zero)
    omega
  have below : n.toNat ≤ (anyalloc skt).toNat := by
    rw [← isMin]
    unfold min
    split <;> omega
  have messages : skt.wMsgs.toNat ≠ 0 := by
    intro zero
    have none : anyalloc skt = 0 := if_pos (BitVec.eq_of_toNat_eq zero)
    rw [none] at below
    simp at below
    omega
  have allowed : (anyalloc skt).toNat ≤ 1000 ∧
      8 * (anyalloc skt).toNat ≤ skt.wFalloc.1.toNat * 65536 + skt.wFalloc.2.toNat := by
    unfold anyalloc
    rw [if_neg fun zero => messages (by rw [zero]; rfl)]
    split
    next large =>
      have thousand : (1000 : BitVec 16).toNat = 1000 := rfl
      rw [thousand]
      rcases large with high | low
      · have isNat : skt.wFalloc.1.toNat ≠ 0 := fun zero => high (BitVec.eq_of_toNat_eq zero)
        omega
      · omega
    next small =>
      have low : skt.wFalloc.2.toNat < 8000 := by
        have both := not_or.mp small
        omega
      have positive : skt.wFalloc.2.msb = false := by
        rw [BitVec.msb_eq_decide]
        exact decide_eq_false (by omega)
      have shifted : (skt.wFalloc.2.sshiftRight 3 &&& 0o17777).toNat = skt.wFalloc.2.toNat / 8 := by
        rw [BitVec.sshiftRight_eq_of_msb_false positive, BitVec.toNat_and, BitVec.toNat_ushiftRight,
          Nat.shiftRight_eq_div_pow]
        show skt.wFalloc.2.toNat / 8 &&& 2 ^ 13 - 1 = _
        rw [Nat.and_two_pow_sub_one_eq_mod]
        omega
      rw [shifted]
      omega
  rw [long_toNat]
  omega

end NetworkUnix.Ncpk
