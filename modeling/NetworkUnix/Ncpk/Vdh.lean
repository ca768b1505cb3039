/-
This file models the driver of the very distant host interface: two output channels whose
packets are sent until their acknowledgement bits change, an input side that stores the
packets of the channels in rotation, and the hello packets that tell whether the line is
up. The routines run at interrupt level, one at a time.

A packet is its control word and its data words as they stand on the line. The statistics
are left out; in place of the counts of packets built and stored the packets themselves
are recorded, as well as what the hello packets have told. What the interface transmits is
part of the state until the end of the transmission.
-/

import Mathlib.Algebra.GroupWithZero.Nat
import Mathlib.Data.Fin.Basic
import Mathlib.Logic.Function.Basic

namespace NetworkUnix.Ncpk

/-! ### Packets -/

/-- The bits of the control word: the hello or the last-packet bit, the even/odd bit, the word
count, the host/imp bit, the special packet bit, the acknowledgement bits and the channel number.
-/
def vLast : BitVec 16 := 0o100000

def vHello : BitVec 16 := 0o100000

def vEvnodd : BitVec 16 := 0o40000

def vWcbits : BitVec 16 := 0o37400

def vHtoi : BitVec 16 := 0o200

def vSpbit : BitVec 16 := 0o100

def vC0ack : BitVec 16 := 0o4

def vAckbits : BitVec 16 := 0o74

def vChbits : BitVec 16 := 0o3

/-- The number of channels, the words of data in a packet, and the constants of the hello packets:
the ticks of an interval, the number that may go unanswered and the number to be answered. -/
def nchns : Nat := 2

def vdhdsize : Nat := 63

def vdhR : Int := 75

def vdhT : Int := 4

def vdhK : Int := 4

abbrev Chan := Fin 2

instance chanNeZero : NeZero 2 := ⟨by decide⟩

structure Packet where
  ctl : BitVec 16
  data : List (BitVec 16)
deriving DecidableEq

/-- The number of words that a control word names. -/
def wcount (ctl : BitVec 16) : BitVec 16 := (ctl >>> 8) &&& 0o77

/-- The acknowledgement bit of a channel. -/
def ackOn (ctl : BitVec 16) (c : Chan) : Bool := ctl.sshiftRight c.val &&& vC0ack ≠ 0

/-- A message in the output queue: the leader for the imp and the text. -/
structure OutMessage where
  leader : BitVec 16 × BitVec 16
  text : List (BitVec 16)
deriving DecidableEq

def OutMessage.words (m : OutMessage) : List (BitVec 16) := m.leader.1 :: m.leader.2 :: m.text

/-- What the interface reports of its input: an error, a transfer of nothing, or a packet; then the
word that stands behind it in the buffer, and whether network buffers are short. -/
inductive Receipt
  | error
  | null
  | packet (p : Packet) (beyond : BitVec 16) (short : Bool)
deriving DecidableEq

/-- What happens to the line: a hello is sent or answered, an interval ends, the driver tries to get
the line up, the line comes up or goes down, the daemon has closed, or the driver is initialised. -/
inductive Mark
  | hello
  | heard
  | interval
  | trying
  | up
  | down
  | closed
  | init
deriving DecidableEq

/-- A message for the input process: the leader, the rest of the leader and the data. -/
structure InMessage where
  leader : BitVec 16 × BitVec 16
  rest : BitVec 16 × BitVec 16
  text : List (BitVec 16)
deriving DecidableEq

/-! ### The driver -/

/-- The bits of `vstatebits`, the tables and variables of the driver, what the interface transmits
(from a channel's buffer or not), and the record: the packets built and stored since the driver was
initialised, the messages given to the input process, the data of messages that were forgotten, and
the marks. -/
structure Vdh where
  trying : Bool
  up : Bool
  sawhello : Bool
  sendhello : Bool
  vdhilast : Bool
  vdhineed : Bool
  outbusy : Bool
  ack2snd : Bool
  out2go : Bool
  vdhouse : Chan → Int
  vdhobuf : Chan → Packet
  vdhichn : Chan
  vdhosnd : Chan
  vdhofill : Chan
  vdhoack : BitVec 16
  prvictl : BitVec 16
  helloinarow : BitVec 8
  hellounacked : BitVec 8
  hellonext : Int
  needinit : Nat
  impleader : Bool
  impType : BitVec 16 × BitVec 16
  impPad1 : BitVec 16 × BitVec 16
  impiMsg : List (BitVec 16)
  impotab : List OutMessage
  vdbuf : List (BitVec 16)
  sending : Option (Packet × Option Chan)
  opaks : List Packet
  igood : List Packet
  input : List InMessage
  lost : List (BitVec 16)
  marks : List Mark

namespace Vdh

def vdhsnd (s : Vdh) (p : Packet) (buffer : Option Chan) : Vdh :=
  { s with outbusy := true, sending := some (p, buffer) }

/-- A packet of one word. -/
def vdh1snd (s : Vdh) (oneliner : BitVec 16) : Vdh := s.vdhsnd ⟨oneliner, []⟩ none

/-- The next packet of a message is built in the channel to be filled, with so many words. -/
def fill (s : Vdh) (buf : List (BitVec 16)) (len : Nat) : Vdh :=
  let c := s.vdhofill
  let data := buf.take len
  let left := buf.drop len
  let p : Packet :=
    ⟨BitVec.ofNat 16 c.val ||| BitVec.ofNat 16 (256 * data.length) |||
      (if left = [] then vLast else 0) ||| (if ackOn s.prvictl c then vEvnodd else 0), data⟩
  { s with
    vdbuf := left
    vdhobuf := Function.update s.vdhobuf c p
    vdhouse := Function.update s.vdhouse c 0
    vdhofill := c + 1
    opaks := s.opaks ++ [p] }

/-- The loop of `fillochans`: the first packet of a message is its leader. -/
def fillLoop : Nat → Vdh → Vdh
  | 0, s => s
  | n + 1, s =>
    if s.vdhouse s.vdhofill < 0 then
      match s.vdbuf, s.impotab with
      | [], [] => s
      | [], m :: rest => fillLoop n ({ s with impotab := rest }.fill m.words 2)
      | w :: buf, _ => fillLoop n (s.fill (w :: buf) (Min.min vdhdsize (w :: buf).length))
    else s

def fillochans (s : Vdh) : Vdh := fillLoop nchns s

/-- The packet of a channel is sent with the acknowledgement bits of the moment; then the channel is
held off. -/
def sndChan (s : Vdh) (c : Chan) : Vdh :=
  let p : Packet := ⟨(s.vdhobuf c).ctl &&& ~~~vAckbits ||| s.vdhoack, (s.vdhobuf c).data⟩
  { { s with vdhobuf := Function.update s.vdhobuf c p }.vdhsnd p (some c) with
    vdhouse := Function.update s.vdhouse c 6
    ack2snd := false }

/-- The loop of `vdhostart` for a channel with a packet to send; with none, an acknowledgement is
sent if there is one to send. -/
def sndLoop : Nat → Vdh → Vdh
  | 0, s => if s.ack2snd then { s.vdh1snd s.vdhoack with ack2snd := false } else s
  | n + 1, s =>
    let s := { s with vdhosnd := s.vdhosnd + 1 }
    if s.vdhouse s.vdhosnd = 0 then s.sndChan s.vdhosnd else sndLoop n s

def vdhostart (s : Vdh) : Vdh :=
  if !s.trying then s
  else if s.sawhello then { s.vdh1snd (vSpbit ||| vHello ||| vHtoi) with sawhello := false }
  else if s.sendhello then
    { s.vdh1snd (vSpbit ||| vHtoi) with
      hellounacked := s.hellounacked + 1
      sendhello := false
      marks := s.marks ++ [.hello] }
  else if !s.up then s
  else sndLoop nchns s.fillochans

/-- The output is started unless something is being transmitted. -/
def restart (s : Vdh) : Vdh := if s.outbusy then s else s.vdhostart

/-- A message for the network. -/
def impOutput (s : Vdh) (m : OutMessage) : Vdh :=
  let s := { s with impotab := s.impotab ++ [m] }
  if s.up then s.restart else s

/-! ### The timer -/

/-- The end of a hello interval. -/
def interval (s : Vdh) : Vdh :=
  if s.trying then
    if s.up then
      if vdhT < s.hellounacked.toInt then
        { s with
          trying := false
          up := false
          hellonext := 32767
          needinit := s.needinit + 1
          marks := s.marks ++ [.down] }
      else { s with sendhello := true }
    else if s.hellounacked ≠ 0 then { s with helloinarow := 0, sendhello := true }
    else if vdhK ≤ s.helloinarow.toInt then
      { s with up := true, sendhello := true, marks := s.marks ++ [.up] }
    else { s with sendhello := true }
  else
    { s with
      trying := true
      sawhello := false
      up := false
      sendhello := true
      marks := s.marks ++ [.trying] }

/-- A tick of the timer; the daemon may have closed. -/
def tick (s : Vdh) (ncpopnstate : Bool) : Vdh :=
  if !ncpopnstate then { s with trying := false, up := false, marks := s.marks ++ [.closed] }
  else
    let s := { s with
      vdhouse := fun c => if 0 < s.vdhouse c then s.vdhouse c - 1 else s.vdhouse c
      hellonext := s.hellonext - 1 }
    if 0 < s.hellonext then s
    else interval { s with hellonext := s.hellonext + vdhR, marks := s.marks ++ [.interval] }

def timed (s : Vdh) : Option Bool → Vdh
  | some ncpopnstate => s.tick ncpopnstate
  | none => s

/-- The end of a transmission. -/
def ended (s : Vdh) (eot : Bool) : Vdh :=
  if eot then { s with outbusy := false, sending := none } else s

/-- An interrupt of the output side, by the timer or the end of a transmission or both. -/
def vdhoint (s : Vdh) (timer : Option Bool) (eot : Bool) : Vdh := ((s.timed timer).ended eot).restart

/-! ### The input side -/

/-- A channel whose acknowledgement bit has changed is free. -/
def release (s : Vdh) (c : Chan) (changed : Bool) : Vdh :=
  if changed then { s with vdhouse := Function.update s.vdhouse c (-1), out2go := true } else s

/-- The bits of the last control word are compared with the new one, from the last channel on. -/
def ackRot (s : Vdh) (ctl : BitVec 16) : Vdh :=
  let xorrot := (s.prvictl ^^^ ctl) <<< (14 - nchns)
  { (s.release 1 xorrot.msb).release 0 (xorrot <<< 1).msb with prvictl := ctl }

/-- A packet is stored: the leader or the rest of the leader first, while there is no data of the
message. -/
def store (s : Vdh) (p : Packet) (beyond : BitVec 16) : Vdh :=
  let pair := (p.data.getD 0 beyond, p.data.getD 1 beyond)
  let s :=
    if s.impiMsg = [] then
      if s.impleader then { s with impType := pair, impiMsg := p.data.drop 2 }
      else { s with impPad1 := pair, impiMsg := p.data.drop 2 }
    else { s with impiMsg := s.impiMsg ++ p.data }
  { s with
    impleader := false
    vdhoack := s.vdhoack ^^^ (vC0ack <<< s.vdhichn.val)
    vdhilast := decide (p.ctl &&& vLast ≠ 0) || s.vdhilast
    vdhichn := s.vdhichn + 1
    igood := s.igood ++ [p] }

/-- Data on the line that is up. -/
def dataIn (s : Vdh) (p : Packet) (beyond : BitVec 16) (short : Bool) : Vdh :=
  let s := s.ackRot p.ctl
  if p.ctl &&& vWcbits = 0 then s
  else
    let s := { s with ack2snd := true, out2go := true }
    let t := p.ctl &&& vChbits
    if t ≠ BitVec.ofNat 16 s.vdhichn.val then s
    else if (p.ctl ^^^ s.vdhoack.sshiftRight t.toNat * 0o10000) &&& vEvnodd ≠ 0 then s
    else if s.vdhilast then s
    else if short then { s with vdhineed := true }
    else s.store p beyond

/-- What the interface has put into a buffer. -/
def receive (s : Vdh) : Receipt → Vdh
  | .error => s
  | .null => s
  | .packet p beyond short =>
    if p.ctl &&& vHtoi ≠ 0 then s
    else if p.ctl &&& vSpbit ≠ 0 then
      if p.data ≠ [] then s
      else if 0 < p.ctl.toInt then { s with sawhello := true, out2go := true }
      else
        { s with
          hellounacked := 0
          helloinarow := s.helloinarow + 1
          marks := s.marks ++ [.heard] }
    else if BitVec.ofNat 16 p.data.length ≠ wcount p.ctl then s
    else if !s.up then s
    else s.dataIn p beyond short

/-- An interrupt of the input side. -/
def vdhiint (s : Vdh) (receipts : List Receipt) : Vdh :=
  if receipts ≠ [] ∧ s.trying = false then s
  else
    let s := receipts.foldl receive s
    { (if s.out2go then s.restart else s) with out2go := false }

/-- The input process is ready for the next message. What is left of the last one is forgotten. -/
def impldrd (s : Vdh) : Vdh :=
  if !s.vdhilast then s else { s with impleader := true, impiMsg := [], vdhilast := false }

/-- The input process takes a message. A message from a host is freed or queued with its data; of
one from the imp only the leader is looked at, unless its type says that it is to be dropped. -/
def impInput (s : Vdh) : Vdh :=
  if !s.vdhilast then s
  else
    let type := s.impType.1 >>> 8 &&& 0o137
    impldrd { s with
      input := s.input ++ [⟨s.impType, s.impPad1, s.impiMsg⟩]
      lost := if type ≠ 0 ∧ type ≠ 15 then s.lost ++ s.impiMsg else s.lost }

/-- The message that does nothing. -/
def impNop : OutMessage := ⟨(0o2000, 0), []⟩

/-- The driver is initialised; three messages that do nothing come first on a new line. What the
interface transmits is lost. -/
def impInit (s : Vdh) : Vdh :=
  { s with
    trying := false
    up := false
    sawhello := false
    sendhello := false
    vdhilast := false
    vdhineed := false
    outbusy := false
    ack2snd := false
    out2go := false
    vdhouse := fun _ => -1
    vdhichn := 0
    vdhosnd := 1
    vdhofill := 0
    vdhoack := vHtoi
    prvictl := 0
    hellonext := 2 * vdhT * vdhR
    impleader := true
    impiMsg := []
    impotab := s.impotab ++ [impNop, impNop, impNop]
    sending := none
    opaks := []
    igood := []
    lost := s.lost ++ s.impiMsg
    marks := s.marks ++ [.init] }

/-- The variables before the driver is initialised. -/
def static : Vdh where
  trying := false
  up := false
  sawhello := false
  sendhello := false
  vdhilast := false
  vdhineed := false
  outbusy := false
  ack2snd := false
  out2go := false
  vdhouse := fun _ => 0
  vdhobuf := fun _ => ⟨0, []⟩
  vdhichn := 0
  vdhosnd := 0
  vdhofill := 0
  vdhoack := 0
  prvictl := 0
  helloinarow := 0
  hellounacked := 0
  hellonext := 0
  needinit := 0
  impleader := false
  impType := (0, 0)
  impPad1 := (0, 0)
  impiMsg := []
  impotab := []
  vdbuf := []
  sending := none
  opaks := []
  igood := []
  input := []
  lost := []
  marks := []

end Vdh

/-! ### Bits -/

theorem bit_ne_zero (w : BitVec 16) (i : Nat) (small : i < 16) :
    w &&& BitVec.twoPow 16 i ≠ 0 ↔ w.getLsbD i = true := by
  rw [BitVec.and_twoPow]
  cases w.getLsbD i with
  | false => simp
  | true =>
    rw [if_pos rfl]
    refine ⟨fun _ => rfl, fun _ zero => ?_⟩
    have bit := congrArg (fun x : BitVec 16 => x.getLsbD i) zero
    simp [small] at bit

theorem chan_cases : ∀ c : Chan, c = 0 ∨ c = 1 := by decide

theorem sshift_bit (w : BitVec 16) (c : Chan) :
    (w.sshiftRight c.val).getLsbD 2 = w.getLsbD (2 + c.val) := by
  rw [BitVec.getLsbD_sshiftRight]
  rcases chan_cases c with rfl | rfl <;> rfl

theorem ackOn_bit (w : BitVec 16) (c : Chan) : ackOn w c = w.getLsbD (2 + c.val) := by
  rw [← sshift_bit]
  exact Bool.eq_iff_iff.mpr (decide_eq_true_iff.trans (bit_ne_zero _ 2 (by decide)))

theorem rot_msb (w : BitVec 16) : (w <<< (14 - nchns)).msb = w.getLsbD 3 := by
  rw [BitVec.msb_eq_getLsbD_last]
  simp [nchns]

theorem rot_next (w : BitVec 16) : ((w <<< (14 - nchns)) <<< 1).msb = w.getLsbD 2 := by
  rw [BitVec.msb_eq_getLsbD_last]
  simp [nchns]

theorem evnodd_bit (w : BitVec 16) : (w &&& vEvnodd ≠ 0) ↔ w.getLsbD 14 = true :=
  bit_ne_zero w 14 (by decide)

theorem shifted_bit (w : BitVec 16) (c : Chan) :
    (w.sshiftRight c.val * 0o10000).getLsbD 14 = w.getLsbD (2 + c.val) := by
  have shift : (0o10000 : BitVec 16) = BitVec.twoPow 16 12 := rfl
  rw [← sshift_bit, shift, BitVec.mul_twoPow_eq_shiftLeft, BitVec.getLsbD_shiftLeft]
  rfl

theorem release_eq (s : Vdh) (c : Chan) (changed : Bool) :
    s.release c changed = { s with
      vdhouse := fun d => if d = c ∧ changed = true then -1 else s.vdhouse d
      out2go := changed || s.out2go } := by
  cases changed with
  | false =>
    have same : (fun d => if d = c ∧ false = true then (-1 : Int) else s.vdhouse d) = s.vdhouse :=
      funext fun d => if_neg fun both => Bool.false_ne_true both.2
    rw [same]
    rfl
  | true =>
    have same : (fun d => if d = c ∧ true = true then (-1 : Int) else s.vdhouse d) =
        Function.update s.vdhouse c (-1) := by
      funext d
      by_cases here : d = c
      · rw [if_pos ⟨here, rfl⟩, here, Function.update_self]
      · rw [if_neg fun both => here both.1, Function.update_of_ne here]
    rw [same]
    rfl

theorem ackRot_spec (s : Vdh) (ctl : BitVec 16) :
    ∃ (house : Chan → Int) (go : Bool),
      s.ackRot ctl = { s with vdhouse := house, out2go := go, prvictl := ctl } ∧
      ∀ c, house c = if ackOn s.prvictl c = ackOn ctl c then s.vdhouse c else -1 := by
  have one : ((s.prvictl ^^^ ctl) <<< (14 - nchns)).msb = (ackOn s.prvictl 1 ^^ ackOn ctl 1) := by
    rw [rot_msb, ackOn_bit, ackOn_bit, BitVec.getLsbD_xor]
    rfl
  have zero : (((s.prvictl ^^^ ctl) <<< (14 - nchns)) <<< 1).msb =
      (ackOn s.prvictl 0 ^^ ackOn ctl 0) := by
    rw [rot_next, ackOn_bit, ackOn_bit, BitVec.getLsbD_xor]
    rfl
  unfold Vdh.ackRot
  dsimp only
  rw [one, zero, release_eq, release_eq]
  refine ⟨_, _, rfl, fun c => ?_⟩
  rcases chan_cases c with rfl | rfl
  · cases ackOn s.prvictl 0 <;> cases ackOn ctl 0 <;> rfl
  · cases ackOn s.prvictl 1 <;> cases ackOn ctl 1 <;> rfl

/-! ### What the output changes -/

namespace Vdh

theorem fillLoop_spec (n : Nat) (s : Vdh) :
    ∃ impotab vdbuf vdhobuf vdhouse vdhofill opaks,
      fillLoop n s = { s with impotab, vdbuf, vdhobuf, vdhouse, vdhofill, opaks } := by
  induction n generalizing s with
  | zero => exact ⟨_, _, _, _, _, _, rfl⟩
  | succ n inductionHypothesis =>
    unfold fillLoop
    split
    next =>
      split
      next => exact ⟨_, _, _, _, _, _, rfl⟩
      next m rest _ _ =>
        obtain ⟨_, _, _, _, _, _, same⟩ :=
          inductionHypothesis ({ s with impotab := rest }.fill m.words 2)
        exact ⟨_, _, _, _, _, _, same⟩
      next _ w buf _ =>
        obtain ⟨_, _, _, _, _, _, same⟩ :=
          inductionHypothesis (s.fill (w :: buf) (Min.min vdhdsize (w :: buf).length))
        exact ⟨_, _, _, _, _, _, same⟩
    next => exact ⟨_, _, _, _, _, _, rfl⟩

/-- The packet carries no acknowledgement bits, or these. -/
def Tells (oack : BitVec 16) (f : Packet) : Prop :=
  f.ctl &&& vSpbit ≠ 0 ∨ ∀ c, ackOn f.ctl c = ackOn oack c

/-- Nothing new is transmitted, or a packet with the acknowledgement bits of the moment. -/
def Sends (s : Vdh) (sending : Option (Packet × Option Chan)) : Prop :=
  sending = s.sending ∨ ∃ f c, sending = some (f, c) ∧ Tells s.vdhoack f

theorem ackOn_set (w oack : BitVec 16) (c : Chan) :
    ackOn (w &&& ~~~vAckbits ||| oack) c = ackOn oack c := by
  rw [ackOn_bit, ackOn_bit, BitVec.getLsbD_or, BitVec.getLsbD_and]
  have none : (~~~vAckbits).getLsbD (2 + c.val) = false := by
    rcases chan_cases c with rfl | rfl <;> rfl
  rw [none, Bool.and_false, Bool.false_or]

theorem sndLoop_spec (n : Nat) (s : Vdh) :
    ∃ vdhosnd vdhobuf vdhouse ack2snd outbusy sending,
      sndLoop n s = { s with vdhosnd, vdhobuf, vdhouse, ack2snd, outbusy, sending } ∧
      s.Sends sending := by
  induction n generalizing s with
  | zero =>
    unfold sndLoop
    split
    next => exact ⟨_, _, _, _, _, _, rfl, .inr ⟨_, _, rfl, .inr fun _ => rfl⟩⟩
    next => exact ⟨_, _, _, _, _, _, rfl, .inl rfl⟩
  | succ n inductionHypothesis =>
    unfold sndLoop
    dsimp only
    split
    next => exact ⟨_, _, _, _, _, _, rfl, .inr ⟨_, _, rfl, .inr fun c => ackOn_set _ _ c⟩⟩
    next =>
      obtain ⟨_, _, _, _, _, _, same, sends⟩ := inductionHypothesis { s with vdhosnd := s.vdhosnd + 1 }
      exact ⟨_, _, _, _, _, _, same, sends⟩

theorem store_spec (s : Vdh) (p : Packet) (beyond : BitVec 16) :
    ∃ impType impPad1 impiMsg impleader vdhoack vdhilast vdhichn igood,
      s.store p beyond = { s with
        impType, impPad1, impiMsg, impleader, vdhoack, vdhilast, vdhichn, igood } := by
  unfold store
  dsimp only
  split
  · split <;> exact ⟨_, _, _, _, _, _, _, _, rfl⟩
  · exact ⟨_, _, _, _, _, _, _, _, rfl⟩

theorem dataIn_spec (s : Vdh) (p : Packet) (beyond : BitVec 16) (short : Bool) :
    ∃ vdhouse out2go prvictl ack2snd vdhineed impType impPad1 impiMsg impleader vdhoack vdhilast
        vdhichn igood,
      s.dataIn p beyond short = { s with
        vdhouse, out2go, prvictl, ack2snd, vdhineed, impType, impPad1, impiMsg, impleader, vdhoack,
        vdhilast, vdhichn, igood } := by
  obtain ⟨house, go, rotated, _⟩ := ackRot_spec s p.ctl
  unfold dataIn
  rw [rotated]
  dsimp only
  split
  next => exact ⟨_, _, _, _, _, _, _, _, _, _, _, _, _, rfl⟩
  split
  next => exact ⟨_, _, _, _, _, _, _, _, _, _, _, _, _, rfl⟩
  split
  next => exact ⟨_, _, _, _, _, _, _, _, _, _, _, _, _, rfl⟩
  split
  next => exact ⟨_, _, _, _, _, _, _, _, _, _, _, _, _, rfl⟩
  split
  next => exact ⟨_, _, _, _, _, _, _, _, _, _, _, _, _, rfl⟩
  next =>
    obtain ⟨_, _, _, _, _, _, _, _, stored⟩ := store_spec { s with
      vdhouse := house, prvictl := p.ctl, ack2snd := true, out2go := true } p beyond
    exact ⟨_, _, _, _, _, _, _, _, _, _, _, _, _, stored⟩

end Vdh

end NetworkUnix.Ncpk
