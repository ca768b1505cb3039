/-
This file proves that the input side of the very distant host interface stores the
packets of the imp once and in order, and when it puts them together to the messages that
the imp sent. The imp fills its channels in rotation, sends a packet again and again until
the channel's acknowledgement bit changes, and sends with it whatever it likes to say
about the other direction; the line keeps the order and may lose anything.

The driver splits a message by packets: the first packet is the leader and the next one,
while there is no data, the rest of the leader. So the messages are right when the imp's
packets have the sizes that this needs.
-/

import Mathlib.Data.List.Forall2
import Mathlib.Data.List.Induction
import NetworkUnix.Ncpk.VdhOut

namespace NetworkUnix.Ncpk

/-! ### The imp as a sender -/

/-- The report brings data. -/
def Receipt.isData : Receipt → Bool
  | .packet p _ _ => p.isData && decide (p.ctl &&& vHtoi = 0)
  | _ => false

/-- The driver; what is on the line from the imp, with the numbers of the packets of the channels;
what is on the line to the imp; the packets that the imp has built, which of its channels are in
use, and the acknowledgement bits that it has seen last. -/
structure InLine where
  vdh : Vdh
  line : List (Receipt × Option Nat)
  back : List Packet
  built : List Packet
  busy : Chan → Bool
  heard : Chan → Bool

inductive InEvent
  | output (m : OutMessage)
  | oint (timer : Option Bool) (eot : Bool)
  | iint (count : Nat)
  | input
  | fill (data : List (BitVec 16)) (last : Bool)
  | send (c : Chan) (ack : BitVec 16) (beyond : BitVec 16) (short : Bool)
  | other (r : Receipt)
  | hear
  | loseLine (i : Nat)
  | loseBack (i : Nat)

namespace InLine

/-- The channel of the next packet. -/
def chn (s : InLine) : Chan := Fin.ofNat 2 s.built.length

/-- The imp builds a packet in a free channel. -/
def fill (s : InLine) (data : List (BitVec 16)) (last : Bool) : InLine :=
  let p : Packet :=
    ⟨BitVec.ofNat 16 s.chn.val ||| BitVec.ofNat 16 (256 * data.length) |||
      (if last then vLast else 0) ||| (if s.heard s.chn then vEvnodd else 0), data⟩
  { s with built := s.built ++ [p], busy := Function.update s.busy s.chn true }

/-- The packet of a channel as it is sent. -/
def sent (s : InLine) (c : Chan) (ack : BitVec 16) (beyond : BitVec 16) (short : Bool) :
    Receipt × Option Nat :=
  let p := s.built.getD (numberOf s.built.length c) ⟨0, []⟩
  (.packet ⟨p.ctl &&& ~~~vAckbits ||| (ack &&& vAckbits), p.data⟩ beyond short,
    some (numberOf s.built.length c))

/-- The imp takes what comes first on the line: a channel whose bit has changed is free. -/
def hear (s : InLine) : Option InLine :=
  match s.back with
  | [] => none
  | f :: rest =>
    if f.ctl &&& vSpbit ≠ 0 then some { s with back := rest }
    else some { s with
      back := rest
      busy := fun c => s.busy c && (s.heard c == ackOn f.ctl c)
      heard := ackOn f.ctl }

/-- What the driver transmits. -/
def transmitted (s : InLine) : List Packet := (s.vdh.sending.map Prod.fst).toList

/-- What an event leads to; none stands for one that cannot happen. -/
def step (s : InLine) : InEvent → Option InLine
  | .output m => some { s with vdh := s.vdh.impOutput m }
  | .oint timer eot =>
    some { s with
      back := if eot then s.back ++ s.transmitted else s.back
      vdh := s.vdh.vdhoint timer eot }
  | .iint count =>
    some { s with
      vdh := s.vdh.vdhiint ((s.line.take count).map Prod.fst)
      line := s.line.drop count }
  | .input => some { s with vdh := s.vdh.impInput }
  | .fill data last =>
    if data ≠ [] ∧ data.length ≤ vdhdsize ∧ s.busy s.chn = false then some (s.fill data last)
    else none
  | .send c ack beyond short =>
    if s.busy c then some { s with line := s.line ++ [s.sent c ack beyond short] } else none
  | .other r => if r.isData then none else some { s with line := s.line ++ [(r, none)] }
  | .hear => s.hear
  | .loseLine i => some { s with line := s.line.eraseIdx i }
  | .loseBack i => some { s with back := s.back.eraseIdx i }

/-- Both sides have been reset and nothing is on the lines; the line may be up or not. -/
structure Fresh (s : InLine) : Prop where
  ilast : s.vdh.vdhilast = false
  ichn : s.vdh.vdhichn = 0
  oack : s.vdh.vdhoack = vHtoi
  sending : s.vdh.sending = none
  impleader : s.vdh.impleader = true
  impiMsg : s.vdh.impiMsg = []
  igood : s.vdh.igood = []
  input : s.vdh.input = []
  line : s.line = []
  back : s.back = []
  built : s.built = []
  busy : ∀ c, s.busy c = false
  heard : ∀ c, s.heard c = false

end InLine

/-! ### What the routines do to the input side -/

namespace Vdh

/-- The variables of the input side. -/
def inSide (s : Vdh) : Chan × BitVec 16 × Bool × Bool × (BitVec 16 × BitVec 16) ×
    (BitVec 16 × BitVec 16) × List (BitVec 16) × List Packet × List InMessage :=
  (s.vdhichn, s.vdhoack, s.vdhilast, s.impleader, s.impType, s.impPad1, s.impiMsg, s.igood, s.input)

/-- The input side is left alone, and nothing is transmitted that does not tell its state. -/
def Quiet (s after : Vdh) : Prop := after.inSide = s.inSide ∧ s.Sends after.sending

theorem vdhostart_quiet (s : Vdh) : s.Quiet s.vdhostart := by
  unfold vdhostart
  split
  next => exact ⟨rfl, .inl rfl⟩
  split
  next => exact ⟨rfl, .inr ⟨_, _, rfl, .inl (by decide)⟩⟩
  split
  next => exact ⟨rfl, .inr ⟨_, _, rfl, .inl (by decide)⟩⟩
  split
  next => exact ⟨rfl, .inl rfl⟩
  next =>
    obtain ⟨_, _, _, _, _, _, filled⟩ := fillLoop_spec nchns s
    obtain ⟨_, _, _, _, _, _, same, sends⟩ := sndLoop_spec nchns s.fillochans
    unfold fillochans at same sends ⊢
    rw [filled] at same sends ⊢
    rw [same]
    exact ⟨rfl, sends⟩

theorem restart_quiet (s : Vdh) : s.Quiet s.restart := by
  unfold restart
  split
  · exact ⟨rfl, .inl rfl⟩
  · exact s.vdhostart_quiet

theorem impOutput_quiet (s : Vdh) (m : OutMessage) : s.Quiet (s.impOutput m) := by
  unfold impOutput
  dsimp only
  split
  · exact restart_quiet { s with impotab := s.impotab ++ [m] }
  · exact ⟨rfl, .inl rfl⟩

theorem tick_inSide (s : Vdh) (ncpopnstate : Bool) :
    (s.tick ncpopnstate).inSide = s.inSide ∧ (s.tick ncpopnstate).sending = s.sending := by
  unfold tick interval
  dsimp only
  split
  next => exact ⟨rfl, rfl⟩
  split
  next => exact ⟨rfl, rfl⟩
  split
  next =>
    split
    next => split <;> exact ⟨rfl, rfl⟩
    next =>
      split
      next => exact ⟨rfl, rfl⟩
      next => split <;> exact ⟨rfl, rfl⟩
  next => exact ⟨rfl, rfl⟩

/-- A packet that is stored: it carries data for the expected channel with the expected bit, and the
last message has been taken. -/
structure Accepts (s : Vdh) (p : Packet) : Prop where
  isData : p.isData = true
  channel : p.ctl &&& vChbits = BitVec.ofNat 16 s.vdhichn.val
  evnodd : (p.ctl &&& vEvnodd ≠ 0) ↔ ackOn s.vdhoack s.vdhichn = true
  ready : s.vdhilast = false

theorem store_inSide {s t : Vdh} (same : t.inSide = s.inSide) (p : Packet) (beyond : BitVec 16) :
    (t.store p beyond).inSide = (s.store p beyond).inSide := by
  simp only [inSide, Prod.mk.injEq] at same
  obtain ⟨ichn, oack, ilast, leader, type, pad1, msg, good, input⟩ := same
  unfold inSide store
  dsimp only
  rw [msg, leader]
  split
  · split <;> simp only [ichn, oack, ilast, type, pad1, good, input]
  · simp only [ichn, oack, ilast, type, pad1, good, input]

theorem evnodd_test (ctl oack : BitVec 16) (c : Chan) :
    ((ctl ^^^ oack.sshiftRight c.val * 0o10000) &&& vEvnodd ≠ 0) ↔
      ¬ ((ctl &&& vEvnodd ≠ 0) ↔ ackOn oack c = true) := by
  rw [evnodd_bit, evnodd_bit, BitVec.getLsbD_xor, shifted_bit, ackOn_bit]
  cases ctl.getLsbD 14 <;> cases oack.getLsbD (2 + c.val) <;> decide

theorem dataIn_in {s : Vdh} {p : Packet} (special : ¬ p.ctl &&& vSpbit ≠ 0) (beyond : BitVec 16)
    (short : Bool) :
    (s.dataIn p beyond short).sending = s.sending ∧
      ((s.dataIn p beyond short).inSide = s.inSide ∨
        s.Accepts p ∧ (s.dataIn p beyond short).inSide = (s.store p beyond).inSide) := by
  obtain ⟨_, _, rotated, _⟩ := ackRot_spec s p.ctl
  unfold dataIn
  rw [rotated]
  dsimp only
  split
  next => exact ⟨rfl, .inl rfl⟩
  next some =>
  split
  next => exact ⟨rfl, .inl rfl⟩
  next channel =>
  split
  next => exact ⟨rfl, .inl rfl⟩
  next expected =>
  split
  next => exact ⟨rfl, .inl rfl⟩
  next ready =>
  split
  next => exact ⟨rfl, .inl rfl⟩
  next =>
    have channel := Decidable.not_not.mp channel
    have isChannel : (p.ctl &&& vChbits).toNat = s.vdhichn.val := by
      rw [channel]
      rcases chan_cases s.vdhichn with zero | one
      · rw [zero]
        rfl
      · rw [one]
        rfl
    rw [isChannel] at expected
    have evnodd := Decidable.not_not.mp fun apart => expected ((evnodd_test _ _ _).mpr apart)
    have accepts : s.Accepts p :=
      ⟨decide_eq_true ⟨Decidable.not_not.mp special, some⟩, channel, evnodd,
        Bool.eq_false_iff.mpr ready⟩
    refine ⟨?_, .inr ⟨accepts, ?_⟩⟩
    case refine_2 => exact store_inSide (by rfl) p beyond
    unfold store
    dsimp only
    split
    · split <;> rfl
    · rfl

theorem receive_in (s : Vdh) (r : Receipt) :
    (s.receive r).sending = s.sending ∧
      ((s.receive r).inSide = s.inSide ∨
        ∃ p beyond short, r = .packet p beyond short ∧ r.isData = true ∧ s.Accepts p ∧
          (s.receive r).inSide = (s.store p beyond).inSide) := by
  cases r with
  | error => exact ⟨rfl, .inl rfl⟩
  | null => exact ⟨rfl, .inl rfl⟩
  | packet p beyond short =>
    unfold receive
    dsimp only
    split
    next => exact ⟨rfl, .inl rfl⟩
    next fromImp =>
    split
    next =>
      split
      next => exact ⟨rfl, .inl rfl⟩
      next => split <;> exact ⟨rfl, .inl rfl⟩
    next special =>
    split
    next => exact ⟨rfl, .inl rfl⟩
    split
    next => exact ⟨rfl, .inl rfl⟩
    next =>
      obtain ⟨sending, same | ⟨accepts, stored⟩⟩ := dataIn_in (s := s) special beyond short
      · exact ⟨sending, .inl same⟩
      · have isData : (Receipt.packet p beyond short).isData = true :=
          Bool.and_eq_true_iff.mpr
            ⟨accepts.isData, decide_eq_true (Decidable.not_not.mp fromImp)⟩
        exact ⟨sending, .inr ⟨p, beyond, short, rfl, isData, accepts, stored⟩⟩

theorem vdhiint_quiet (s : Vdh) (receipts : List Receipt) :
    s.vdhiint receipts = s ∨ (receipts.foldl receive s).Quiet (s.vdhiint receipts) := by
  unfold vdhiint
  split
  · exact .inl rfl
  · have started : ∀ v : Vdh,
        v.Quiet { (if v.out2go then v.restart else v) with out2go := false } := by
      intro v
      split
      · exact ⟨v.restart_quiet.1, v.restart_quiet.2⟩
      · exact ⟨rfl, .inl rfl⟩
    exact .inr (started _)

end Vdh

/-! ### The two sides together -/

namespace InLine

/-- What is on the way to the imp. -/
def frames (s : InLine) : List Packet := s.back ++ s.transmitted

/-- The packets on the line and what the driver tells as numbers. -/
def numbers (s : InLine) (seen : Nat) (acks : List Nat) : Rotation.Line where
  built := s.built.length
  seen := seen
  accepted := s.vdh.igood.length
  data := s.line.filterMap Prod.snd
  acks := acks

/-- A frame tells that so many packets have been stored, or nothing. -/
def TellsNumber (f : Packet) (a : Nat) : Prop :=
  f.ctl &&& vSpbit ≠ 0 ∨ ∀ c, ackOn f.ctl c = ackBit c a

/-- The imp and the driver agree with the numbers, and what is on the lines with what has been built
and stored. -/
structure Held (s : InLine) (seen : Nat) (acks : List Nat) : Prop where
  ordered : Rotation.Ordered 2 (s.numbers seen acks)
  tells : List.Forall₂ TellsNumber s.frames acks
  packets : ∀ k p, s.built[k]? = some p → Built k p
  busy : ∀ c, s.busy c = true ↔ ∃ k, seen ≤ k ∧ k < s.built.length ∧ k % 2 = c.val
  heard : ∀ c, s.heard c = ackBit c seen
  ichn : s.vdh.vdhichn.val = s.vdh.igood.length % 2
  oack : ∀ c, ackOn s.vdh.vdhoack c = ackBit c s.vdh.igood.length
  stored : s.vdh.igood.map Packet.body <+: s.built
  carried : ∀ r k, (r, some k) ∈ s.line → ∀ p beyond short, r = .packet p beyond short →
    s.built[k]? = some p.body
  others : ∀ r, (r, none) ∈ s.line → r.isData = false

variable {s : InLine} {seen : Nat} {acks : List Nat}

section

variable (held : s.Held seen acks)
include held

theorem Held.quiet {after : Vdh} (quiet : s.vdh.Quiet after) :
    ∃ acks, ({ s with vdh := after } : InLine).Held seen acks := by
  obtain ⟨same, sends⟩ := quiet
  simp only [Vdh.inSide, Prod.mk.injEq] at same
  obtain ⟨ichn, oack, -, -, -, -, -, good, -⟩ := same
  have next : ∀ {acks}, Rotation.Ordered 2 (s.numbers seen acks) →
      List.Forall₂ TellsNumber ({ s with vdh := after } : InLine).frames acks →
      ({ s with vdh := after } : InLine).Held seen acks := by
    intro acks ordered tells
    refine { held with ordered := ?_, tells := tells, ichn := ?_, oack := ?_, stored := ?_ }
    · unfold numbers
      dsimp only
      rw [good]
      exact ordered
    · show after.vdhichn.val = after.igood.length % 2
      rw [ichn, good]
      exact held.ichn
    · show ∀ c, ackOn after.vdhoack c = ackBit c after.igood.length
      rw [oack, good]
      exact held.oack
    · show after.igood.map Packet.body <+: s.built
      rw [good]
      exact held.stored
  rcases sends with idle | ⟨f, c, sending, tells⟩
  · refine ⟨acks, next held.ordered ?_⟩
    unfold frames transmitted
    dsimp only
    rw [idle]
    exact held.tells
  · have earlier := List.forall₂_take_append _ _ _ held.tells.flip
    refine ⟨acks.take s.back.length ++ [s.vdh.igood.length], next ?_ ?_⟩
    · exact (held.ordered.loseAcks (List.take_sublist _ acks)).tell
    · have now : TellsNumber f s.vdh.igood.length := by
        rcases tells with special | tells
        · exact .inl special
        · exact .inr fun c => (tells c).trans (held.oack c)
      unfold frames transmitted
      dsimp only
      rw [sending]
      exact List.rel_append earlier.flip (.cons now .nil)

theorem Held.eot :
    ({ s with
      back := s.back ++ s.transmitted
      vdh := { s.vdh with outbusy := false, sending := none } } : InLine).Held seen acks := by
  refine { held with tells := ?_ }
  have same : ({ s with
      back := s.back ++ s.transmitted
      vdh := { s.vdh with outbusy := false, sending := none } } : InLine).frames = s.frames := by
    unfold frames transmitted
    exact List.append_nil _
  rw [same]
  exact held.tells

theorem Held.oint (timer : Option Bool) (eot : Bool) :
    ∃ acks, ({ s with
      back := if eot then s.back ++ s.transmitted else s.back
      vdh := s.vdh.vdhoint timer eot } : InLine).Held seen acks := by
  obtain ⟨inSide, sending⟩ : (s.vdh.timed timer).inSide = s.vdh.inSide ∧
      (s.vdh.timed timer).sending = s.vdh.sending := by
    cases timer with
    | none => exact ⟨rfl, rfl⟩
    | some ncpopnstate => exact s.vdh.tick_inSide ncpopnstate
  obtain ⟨acks, timed⟩ := held.quiet ⟨inSide, .inl sending⟩
  have isSame : ({ s with vdh := s.vdh.timed timer } : InLine).transmitted = s.transmitted := by
    unfold transmitted
    dsimp only
    rw [sending]
  unfold Vdh.vdhoint
  cases eot with
  | false => exact timed.quiet (Vdh.restart_quiet _)
  | true =>
    have ended := timed.eot
    rw [isSame] at ended
    exact ended.quiet (Vdh.restart_quiet _)

theorem Held.dropped {line : List (Receipt × Option Nat)}
    (fewer : line.Sublist s.line) : ({ s with line := line } : InLine).Held seen acks :=
  { held with
    ordered := held.ordered.loseData (fewer.filterMap Prod.snd)
    carried := fun r k member => held.carried r k (fewer.subset member)
    others := fun r member => held.others r (fewer.subset member) }

theorem Held.number {p : Packet} {beyond : BitVec 16} {short : Bool}
    {n : Option Nat} (member : (Receipt.packet p beyond short, n) ∈ s.line)
    (isData : (Receipt.packet p beyond short).isData = true) (accepts : s.vdh.Accepts p) :
    n = some s.vdh.igood.length ∧ s.built[s.vdh.igood.length]? = some p.body := by
  cases n with
  | none =>
    rw [held.others _ member] at isData
    cases isData
  | some k =>
    have isBuilt := held.carried _ k member p beyond short rfl
    have built := held.packets k p.body isBuilt
    have inLine : k ∈ (s.numbers seen acks).data :=
      List.mem_filterMap.mpr ⟨_, member, rfl⟩
    have ichn := held.ichn
    have sameChannel : k % 2 = s.vdh.igood.length % 2 := by
      have bits := built.channel
      rw [body_bits p (by decide), accepts.channel, ichn] at bits
      have values := congrArg BitVec.toNat bits
      rw [BitVec.toNat_ofNat, BitVec.toNat_ofNat] at values
      omega
    have sameBit : k / 2 % 2 = s.vdh.igood.length / 2 % 2 := by
      have bits := built.evnodd
      have expected := accepts.evnodd
      rw [body_bits p (by decide)] at bits
      rw [held.oack] at expected
      have both := bits.symm.trans expected
      unfold ackBit at both
      rw [decide_eq_true_iff] at both
      omega
    have number : k = s.vdh.igood.length := by
      refine held.ordered.expected inLine ?_
      show k % 4 = s.vdh.igood.length % 4
      omega
    rw [number] at isBuilt ⊢
    exact ⟨rfl, isBuilt⟩

end

theorem ackOn_flip (oack : BitVec 16) (c d : Chan) :
    ackOn (oack ^^^ vC0ack <<< d.val) c = if c.val = d.val then !ackOn oack c else ackOn oack c := by
  rw [ackOn_bit, ackOn_bit, BitVec.getLsbD_xor]
  rcases chan_cases c with rfl | rfl <;> rcases chan_cases d with rfl | rfl <;>
    simp [vC0ack]

theorem Held.store (held : s.Held seen acks) {p : Packet} {beyond : BitVec 16}
    {line : List (Receipt × Option Nat)}
    (onLine : (s.numbers seen acks).data = s.vdh.igood.length :: line.filterMap Prod.snd)
    (fewer : line.Sublist s.line) (isNext : s.built[s.vdh.igood.length]? = some p.body)
    {after : Vdh} (sending : after.sending = s.vdh.sending)
    (stored : after.inSide = (s.vdh.store p beyond).inSide) :
    ({ s with vdh := after, line := line } : InLine).Held seen acks := by
  have spec : (s.vdh.store p beyond).vdhichn = s.vdh.vdhichn + 1 ∧
      (s.vdh.store p beyond).vdhoack = s.vdh.vdhoack ^^^ vC0ack <<< s.vdh.vdhichn.val ∧
      (s.vdh.store p beyond).igood = s.vdh.igood ++ [p] := by
    unfold Vdh.store
    dsimp only
    split
    · split <;> exact ⟨rfl, rfl, rfl⟩
    · exact ⟨rfl, rfl, rfl⟩
  simp only [Vdh.inSide, Prod.mk.injEq] at stored
  obtain ⟨ichn, oack, -, -, -, -, -, good, -⟩ := stored
  rw [spec.1] at ichn
  rw [spec.2.1] at oack
  rw [spec.2.2] at good
  have length : after.igood.length = s.vdh.igood.length + 1 := by
    rw [good, List.length_append]
    rfl
  have ordered := held.ordered.accept onLine
  refine { held.dropped fewer with
    ordered := ?_, tells := ?_, ichn := ?_, oack := fun c => ?_, stored := ?_ }
  · unfold numbers
    dsimp only
    rw [length]
    exact ordered
  · unfold frames transmitted
    dsimp only
    rw [sending]
    exact held.tells
  · show after.vdhichn.val = after.igood.length % 2
    rw [length, ichn, Fin.val_add, held.ichn]
    show (s.vdh.igood.length % 2 + 1) % 2 = _
    omega
  · show ackOn after.vdhoack c = ackBit c after.igood.length
    rw [length, ackBit_succ, oack, ackOn_flip, held.oack c, held.ichn]
  · show after.igood.map Packet.body <+: s.built
    obtain ⟨more, prolongs⟩ := held.stored
    rw [← prolongs, List.getElem?_append_right (by rw [List.length_map]), List.length_map,
      Nat.sub_self] at isNext
    cases more with
    | nil => cases isNext
    | cons first more =>
      rw [← prolongs, good, List.map_append, Option.some.inj isNext]
      exact ⟨more, by rw [List.append_assoc]; rfl⟩

theorem Held.receive (held : s.Held seen acks) {r : Receipt} {n : Option Nat}
    {rest : List (Receipt × Option Nat)} (first : s.line = (r, n) :: rest) :
    ∃ acks, ({ s with vdh := s.vdh.receive r, line := rest } : InLine).Held seen acks := by
  have fewer : rest.Sublist s.line := by
    rw [first]
    exact List.sublist_cons_self _ _
  obtain ⟨sending, same | ⟨p, beyond, short, rfl, isData, accepts, stored⟩⟩ := s.vdh.receive_in r
  · exact (held.dropped fewer).quiet ⟨same, .inl sending⟩
  · obtain ⟨number, isNext⟩ := held.number (by rw [first]; exact List.mem_cons_self) isData accepts
    refine ⟨acks, held.store ?_ fewer isNext sending stored⟩
    show s.line.filterMap Prod.snd = _
    rw [first, number]
    rfl

theorem Held.receives {rest : List (Receipt × Option Nat)} (heard : List (Receipt × Option Nat))
    (held : ({ s with line := heard ++ rest } : InLine).Held seen acks) :
    ∃ acks, ({ s with
      vdh := (heard.map Prod.fst).foldl Vdh.receive s.vdh
      line := rest } : InLine).Held seen acks := by
  induction heard generalizing s acks with
  | nil => exact ⟨acks, held⟩
  | cons first heard inductionHypothesis =>
    obtain ⟨acks, next⟩ := held.receive rfl
    exact inductionHypothesis (s := { s with vdh := s.vdh.receive first.1 }) next

section

variable (held : s.Held seen acks)
include held

theorem Held.iint (count : Nat) :
    ∃ acks, ({ s with
      vdh := s.vdh.vdhiint ((s.line.take count).map Prod.fst)
      line := s.line.drop count } : InLine).Held seen acks := by
  rcases s.vdh.vdhiint_quiet ((s.line.take count).map Prod.fst) with same | quiet
  · rw [same]
    exact ⟨acks, held.dropped (List.drop_sublist count s.line)⟩
  · have whole : ({ s with line := s.line.take count ++ s.line.drop count } : InLine).Held seen acks := by
      rw [List.take_append_drop]
      exact held
    obtain ⟨acks, heard⟩ := whole.receives (s.line.take count)
    exact heard.quiet quiet

theorem Held.input :
    ({ s with vdh := s.vdh.impInput } : InLine).Held seen acks := by
  unfold Vdh.impInput Vdh.impldrd
  split
  next => exact held
  next =>
    dsimp only
    split
    next => exact { held with }
    next => exact { held with }

theorem Held.fill {data : List (BitVec 16)} (some : data ≠ [])
    (fits : data.length ≤ vdhdsize) (free : s.busy s.chn = false) (last : Bool) :
    (s.fill data last).Held seen acks := by
  have window := held.ordered.window
  have low : seen ≤ s.built.length := Nat.le_trans held.ordered.seen_le held.ordered.built
  have chn : s.chn.val = s.built.length % 2 := rfl
  have small := s.chn.isLt
  have room : s.built.length < seen + 2 := by
    by_contra full
    have window : s.built.length ≤ seen + 2 := held.ordered.window
    have taken := (held.busy s.chn).mpr ⟨seen, by omega, by omega, by omega⟩
    rw [free] at taken
    cases taken
  have parity : s.heard s.chn = true ↔ s.built.length / 2 % 2 = 1 := by
    rw [held.heard s.chn]
    unfold ackBit
    rw [decide_eq_true_iff]
    omega
  have next := built_packet chn parity some fits last
  unfold InLine.fill
  dsimp only
  generalize (Packet.mk (BitVec.ofNat 16 s.chn.val ||| BitVec.ofNat 16 (256 * data.length) |||
    (if last then vLast else 0) ||| (if s.heard s.chn then vEvnodd else 0)) data) = p at next ⊢
  have length : (s.built ++ [p]).length = s.built.length + 1 := List.length_append
  have filled := held.ordered.fill (m := s.built.length + 1) (Nat.le_succ _) room
  refine { held with ordered := ?_, packets := fun k q isBuilt => ?_, busy := fun c => ?_, stored := ?_, carried := ?_ }
  · unfold numbers
    dsimp only
    rw [length]
    exact filled
  · rcases Nat.lt_trichotomy k s.built.length with less | same | more
    · rw [List.getElem?_append_left less] at isBuilt
      exact held.packets k q isBuilt
    · rw [same, List.getElem?_concat_length] at isBuilt
      rw [same, ← Option.some.inj isBuilt]
      exact next
    · rw [List.getElem?_eq_none (by rw [length]; omega)] at isBuilt
      cases isBuilt
  · rw [length]
    show Function.update s.busy s.chn true c = true ↔ _
    by_cases here : c = s.chn
    · rw [here, Function.update_self]
      exact ⟨fun _ => ⟨s.built.length, low, Nat.lt_succ_self _, rfl⟩, fun _ => rfl⟩
    · rw [Function.update_of_ne here, held.busy c]
      have apart : c.val ≠ s.chn.val := fun same => here (Fin.ext same)
      constructor
      · rintro ⟨k, unseen, isBuilt, channel⟩
        exact ⟨k, unseen, Nat.lt_succ_of_lt isBuilt, channel⟩
      · rintro ⟨k, unseen, isBuilt, channel⟩
        exact ⟨k, unseen, by omega, channel⟩
  · exact held.stored.trans (List.prefix_append _ _)
  · intro r k member q beyond short isPacket
    exact OutLine.prefix_getElem? (List.prefix_append _ _) (held.carried r k member q beyond short isPacket)

theorem Held.send {c : Chan} (inUse : s.busy c = true) (ack : BitVec 16)
    (beyond : BitVec 16) (short : Bool) :
    ({ s with line := s.line ++ [s.sent c ack beyond short] } : InLine).Held seen acks := by
  obtain ⟨k, unseen, isBuilt, channel⟩ := (held.busy c).mp inUse
  have window : s.built.length ≤ seen + 2 := held.ordered.window
  have number := numberOf_eq isBuilt (by omega) channel
  obtain ⟨p, found⟩ : ∃ p, s.built[k]? = some p := ⟨_, List.getElem?_eq_getElem isBuilt⟩
  have isSent : s.sent c ack beyond short =
      (.packet ⟨p.ctl &&& ~~~vAckbits ||| (ack &&& vAckbits), p.data⟩ beyond short, some k) := by
    unfold sent
    rw [number, List.getD_eq_getElem?_getD, found]
    rfl
  have only : ack &&& vAckbits &&& ~~~(vAckbits ||| vHtoi) = 0 := by
    have apart : vAckbits &&& ~~~(vAckbits ||| vHtoi) = 0 := by decide
    rw [BitVec.and_assoc, apart]
    exact BitVec.and_zero
  refine { held with ordered := ?_, carried := ?_, others := ?_ }
  · have sent := held.ordered.send unseen isBuilt
    unfold numbers
    dsimp only
    rw [List.filterMap_append, isSent]
    exact sent
  · intro r j member q beyond short isPacket
    rcases List.mem_append.mp member with earlier | now
    · exact held.carried r j earlier q beyond short isPacket
    · rw [isSent] at now
      obtain ⟨isReceipt, isNumber⟩ := Prod.mk.inj (List.mem_singleton.mp now)
      rw [isReceipt] at isPacket
      cases isPacket
      rw [Option.some.inj isNumber, body_set p only, (held.packets k p found).body]
      exact found
  · intro r member
    rcases List.mem_append.mp member with earlier | now
    · exact held.others r earlier
    · rw [isSent] at now
      cases (Prod.mk.inj (List.mem_singleton.mp now)).2

theorem Held.other {r : Receipt} (noData : r.isData = false) :
    ({ s with line := s.line ++ [(r, none)] } : InLine).Held seen acks := by
  refine { held with ordered := ?_, carried := ?_, others := ?_ }
  · unfold numbers
    dsimp only
    rw [List.filterMap_append]
    exact (List.append_nil (s.line.filterMap Prod.snd)).symm ▸ held.ordered
  · intro q j member
    rcases List.mem_append.mp member with earlier | now
    · exact held.carried q j earlier
    · cases (Prod.mk.inj (List.mem_singleton.mp now)).2
  · intro q member
    rcases List.mem_append.mp member with earlier | now
    · exact held.others q earlier
    · rw [(Prod.mk.inj (List.mem_singleton.mp now)).1]
      exact noData

theorem Held.hear {next : InLine} (taken : s.hear = some next) :
    ∃ now acks, next.Held now acks := by
  unfold InLine.hear at taken
  split at taken
  next => cases taken
  next f rest first =>
    have tells := held.tells
    have frames : s.frames = f :: (rest ++ s.transmitted) := by
      unfold InLine.frames
      rw [first]
      rfl
    rw [frames] at tells
    obtain ⟨a, others, told, later, rfl⟩ := List.forall₂_cons_left_iff.mp tells
    have lost := held.ordered.loseAcks (List.sublist_cons_self a others)
    split at taken
    next special =>
      cases taken
      exact ⟨seen, others, { held with ordered := lost, tells := later }⟩
    next normal =>
      cases taken
      have bits : ∀ c, ackOn f.ctl c = ackBit c a := told.resolve_left normal
      obtain ⟨after, accepted⟩ : seen ≤ a ∧ a ≤ s.vdh.igood.length :=
        held.ordered.told List.mem_cons_self
      have window : s.built.length ≤ seen + 2 := held.ordered.window
      have most : a ≤ s.built.length := Nat.le_trans accepted held.ordered.built
      refine ⟨a, others, { held with
        ordered := held.ordered.hear rfl, tells := later, busy := fun c => ?_, heard := bits }⟩
      dsimp only
      rw [pending_seen after most window, ← held.busy c, bits c, held.heard c,
        Bool.and_eq_true_iff, beq_iff_eq]
      exact and_comm

end

theorem forall₂_sublist {α β : Type} {R : α → β → Prop} {fewer whole : List α} {values : List β}
    (sub : fewer.Sublist whole) (related : List.Forall₂ R whole values) :
    ∃ some, some.Sublist values ∧ List.Forall₂ R fewer some := by
  induction sub generalizing values with
  | slnil => exact ⟨[], List.nil_sublist _, .nil⟩
  | cons _ _ inductionHypothesis =>
    obtain ⟨b, others, -, later, rfl⟩ := List.forall₂_cons_left_iff.mp related
    obtain ⟨some, sub, kept⟩ := inductionHypothesis later
    exact ⟨some, sub.cons b, kept⟩
  | cons_cons _ _ inductionHypothesis =>
    obtain ⟨b, others, first, later, rfl⟩ := List.forall₂_cons_left_iff.mp related
    obtain ⟨some, sub, kept⟩ := inductionHypothesis later
    exact ⟨b :: some, sub.cons_cons b, .cons first kept⟩

theorem Held.loseBack (held : s.Held seen acks) (i : Nat) :
    ∃ acks, ({ s with back := s.back.eraseIdx i } : InLine).Held seen acks := by
  have sub := (List.eraseIdx_sublist s.back i).append (List.Sublist.refl s.transmitted)
  obtain ⟨fewer, lost, tells⟩ := forall₂_sublist sub held.tells
  exact ⟨fewer, { held with ordered := held.ordered.loseAcks lost, tells := tells }⟩

theorem Held.step (held : s.Held seen acks) {e : InEvent} {next : InLine}
    (taken : s.step e = some next) : ∃ now acks, next.Held now acks := by
  cases e with
  | output m =>
    cases taken
    exact ⟨seen, held.quiet (s.vdh.impOutput_quiet m)⟩
  | oint timer eot =>
    cases taken
    exact ⟨seen, held.oint timer eot⟩
  | iint count =>
    cases taken
    exact ⟨seen, held.iint count⟩
  | input =>
    cases taken
    exact ⟨seen, acks, held.input⟩
  | fill data last =>
    unfold InLine.step at taken
    dsimp only at taken
    split at taken
    next can =>
      cases taken
      exact ⟨seen, acks, held.fill can.1 can.2.1 can.2.2 last⟩
    next => cases taken
  | send c ack beyond short =>
    unfold InLine.step at taken
    dsimp only at taken
    split at taken
    next inUse =>
      cases taken
      exact ⟨seen, acks, held.send inUse ack beyond short⟩
    next => cases taken
  | other r =>
    unfold InLine.step at taken
    dsimp only at taken
    split at taken
    next => cases taken
    next noData =>
      cases taken
      exact ⟨seen, acks, held.other (Bool.eq_false_iff.mpr noData)⟩
  | hear => exact held.hear taken
  | loseLine i =>
    cases taken
    exact ⟨seen, acks, held.dropped (List.eraseIdx_sublist s.line i)⟩
  | loseBack i =>
    cases taken
    exact ⟨seen, held.loseBack i⟩

theorem Fresh.held (fresh : s.Fresh) : s.Held 0 [] := by
  have noFrames : s.frames = [] := by
    unfold frames transmitted
    rw [fresh.back, fresh.sending]
    rfl
  constructor
  · unfold numbers
    rw [fresh.built, fresh.igood, fresh.line]
    exact ⟨by simp, Nat.le_refl 0, by simp, by simp, by simp⟩
  · rw [noFrames]
    exact .nil
  · intro k p isBuilt
    rw [fresh.built] at isBuilt
    cases isBuilt
  · intro c
    rw [fresh.busy c, fresh.built]
    exact ⟨fun never => Bool.noConfusion never, fun ⟨k, _, isBuilt, _⟩ => absurd isBuilt (Nat.not_lt_zero k)⟩
  · intro c
    rw [fresh.heard c]
    rcases chan_cases c with rfl | rfl <;> decide
  · rw [fresh.ichn, fresh.igood]
    rfl
  · intro c
    rw [fresh.oack, fresh.igood]
    rcases chan_cases c with rfl | rfl <;> decide
  · rw [fresh.igood]
    exact List.nil_prefix
  · intro r k member
    rw [fresh.line] at member
    cases member
  · intro r member
    rw [fresh.line] at member
    cases member

end InLine

/-! ### Messages -/

/-- The packet is the last one of its message. -/
def Packet.isLast (p : Packet) : Bool := p.ctl &&& vLast ≠ 0

/-- The messages that end in a list of packets, each with its last packet, and the packets behind
the last of them. -/
def parts (packets : List Packet) : List (List Packet) × List Packet :=
  packets.foldl
    (fun ms p => if p.isLast then (ms.1 ++ [ms.2 ++ [p]], []) else (ms.1, ms.2 ++ [p])) ([], [])

theorem parts_snoc (packets : List Packet) (p : Packet) :
    parts (packets ++ [p]) =
      if p.isLast then ((parts packets).1 ++ [(parts packets).2 ++ [p]], [])
      else ((parts packets).1, (parts packets).2 ++ [p]) := by
  unfold parts
  rw [List.foldl_append]
  rfl

/-- The words of a message. -/
def words (packets : List Packet) : List (BitVec 16) := packets.flatMap Packet.data

/-- The first two words are the leader, the next two the rest of the leader, and all others the
text. -/
def Carries (packets : List Packet) (m : InMessage) : Prop :=
  (words packets = [m.leader.1, m.leader.2] ∧ m.text = []) ∨
    words packets = m.leader.1 :: m.leader.2 :: m.rest.1 :: m.rest.2 :: m.text

/-- The size of a packet, behind those of its message before it: the first one has two words, the
second one at least two, and more if it is not the last. -/
def Sized (before : List Packet) (data : List (BitVec 16)) (last : Bool) : Prop :=
  match before with
  | [] => data.length = 2
  | [_] => 2 ≤ data.length ∧ (last = false → 2 < data.length)
  | _ => True

/-- All packets have the sizes that the driver needs. -/
def AllSized (packets : List Packet) : Prop :=
  ∀ before p after, packets = before ++ p :: after → Sized (parts before).2 p.data p.isLast

namespace Vdh

/-- The variables hold the packets of a message. -/
structure Assembled (s : Vdh) (packets : List Packet) (whole : Bool) : Prop where
  leader : s.impleader = decide (packets = [])
  none : packets.length ≤ 1 → s.impiMsg = []
  one : packets.length = 1 → words packets = [s.impType.1, s.impType.2]
  more : 2 ≤ packets.length →
    words packets = s.impType.1 :: s.impType.2 :: s.impPad1.1 :: s.impPad1.2 :: s.impiMsg
  rest : 2 ≤ packets.length → whole = false → s.impiMsg ≠ []

variable {s : Vdh} {packets : List Packet}

theorem Assembled.carries (assembled : s.Assembled packets whole) (some : packets ≠ []) :
    Carries packets ⟨s.impType, s.impPad1, s.impiMsg⟩ := by
  have positive : 0 < packets.length := List.length_pos_iff.mpr some
  by_cases one : packets.length = 1
  · exact .inl ⟨assembled.one one, assembled.none (Nat.le_of_eq one)⟩
  · exact .inr (assembled.more (by omega))

theorem words_snoc (packets : List Packet) (p : Packet) :
    words (packets ++ [p]) = words packets ++ p.data := by
  unfold words
  rw [List.flatMap_append, List.flatMap_singleton]

theorem Assembled.first (assembled : s.Assembled [] false) {p : Packet} (beyond : BitVec 16)
    (two : p.data.length = 2) (whole : Bool) : (s.store p beyond).Assembled [p] whole := by
  obtain ⟨x, y, data⟩ := List.length_eq_two.mp two
  have isLeader : s.impleader = true := assembled.leader
  have empty : s.impiMsg = [] := assembled.none (Nat.zero_le 1)
  unfold Vdh.store
  dsimp only
  rw [if_pos empty, if_pos isLeader, data]
  refine ⟨rfl, fun _ => rfl, fun _ => ?_, fun more => absurd more (by simp), fun more => absurd more (by simp)⟩
  unfold words
  rw [List.flatMap_singleton, data]
  rfl

theorem Assembled.second {first : Packet} (assembled : s.Assembled [first] false) {p : Packet}
    (beyond : BitVec 16) (two : 2 ≤ p.data.length) (whole : Bool)
    (more : whole = false → 2 < p.data.length) :
    (s.store p beyond).Assembled [first, p] whole := by
  have notLeader : ¬ s.impleader = true := by
    rw [assembled.leader]
    exact Bool.false_ne_true
  have empty : s.impiMsg = [] := assembled.none (Nat.le_refl 1)
  have before := assembled.one rfl
  match data : p.data, two, more with
  | x :: y :: rest, _, more =>
    have joined := words_snoc [first] p
    rw [before, data] at joined
    unfold Vdh.store
    dsimp only
    rw [if_pos empty, if_neg notLeader, data]
    refine ⟨rfl, fun one => absurd one (by simp), fun one => absurd one (by simp), fun _ => joined,
      fun _ notWhole empty => ?_⟩
    have some := more notWhole
    rw [show rest = [] from empty] at some
    exact absurd some (by simp)

theorem Assembled.later (assembled : s.Assembled packets false) (several : 2 ≤ packets.length)
    {p : Packet} (beyond : BitVec 16) (whole : Bool) :
    (s.store p beyond).Assembled (packets ++ [p]) whole := by
  have some := assembled.rest several rfl
  have length : (packets ++ [p]).length = packets.length + 1 := List.length_append
  unfold Vdh.store
  dsimp only
  rw [if_neg some]
  refine ⟨?_, fun one => by omega, fun one => by omega, fun _ => ?_, fun _ _ empty => ?_⟩
  · exact (decide_eq_false (List.concat_ne_nil p packets)).symm
  · rw [words_snoc, assembled.more several]
    rfl
  · exact some (List.append_eq_nil_iff.mp empty).1

theorem Assembled.store (assembled : s.Assembled packets false) {p : Packet} (beyond : BitVec 16)
    (sized : Sized packets p.data p.isLast) :
    (s.store p beyond).Assembled (packets ++ [p]) p.isLast :=
  match packets, assembled, sized with
  | [], assembled, sized => assembled.first beyond sized p.isLast
  | [_], assembled, sized => assembled.second beyond sized.1 p.isLast sized.2
  | _ :: _ :: _, assembled, _ => assembled.later (by simp) beyond p.isLast

/-- The input process has got the messages that are complete, but for one that waits. -/
def Given (s : Vdh) : Prop :=
  ∃ given now,
    parts s.igood = (if s.vdhilast then (given ++ [now], []) else (given, now)) ∧
    List.Forall₂ Carries given s.input ∧ s.Assembled now s.vdhilast ∧
    (s.vdhilast = true → now ≠ [])

theorem Given.same (given : s.Given) {t : Vdh} (same : t.inSide = s.inSide) : t.Given := by
  simp only [inSide, Prod.mk.injEq] at same
  obtain ⟨-, -, last, leader, type, pad1, msg, good, input⟩ := same
  obtain ⟨complete, now, cut, carried, assembled, some⟩ := given
  refine ⟨complete, now, ?_, ?_, ⟨?_, ?_, ?_, ?_, ?_⟩, ?_⟩
  · rw [good, last]
    exact cut
  · rw [input]
    exact carried
  · rw [leader]
    exact assembled.leader
  · rw [msg]
    exact assembled.none
  · rw [type]
    exact assembled.one
  · rw [type, pad1, msg]
    exact assembled.more
  · rw [msg, last]
    exact assembled.rest
  · rw [last]
    exact some

theorem store_record (s : Vdh) (p : Packet) (beyond : BitVec 16) :
    (s.store p beyond).vdhilast = (p.isLast || s.vdhilast) ∧
      (s.store p beyond).igood = s.igood ++ [p] ∧ (s.store p beyond).input = s.input := by
  unfold store
  dsimp only
  split
  · split <;> exact ⟨rfl, rfl, rfl⟩
  · exact ⟨rfl, rfl, rfl⟩

theorem Given.store (given : s.Given) (ready : s.vdhilast = false) {p : Packet} (beyond : BitVec 16)
    (sized : Sized (parts s.igood).2 p.data p.isLast) : (s.store p beyond).Given := by
  obtain ⟨complete, now, cut, carried, assembled, -⟩ := given
  rw [ready] at cut assembled
  rw [if_neg Bool.false_ne_true] at cut
  rw [cut] at sized
  obtain ⟨last, good, input⟩ := s.store_record p beyond
  rw [ready, Bool.or_false] at last
  have stored := assembled.store beyond sized
  have joined := parts_snoc s.igood p
  rw [cut] at joined
  refine ⟨complete, now ++ [p], ?_, ?_, ?_, fun _ => List.concat_ne_nil p now⟩
  · rw [good, last, joined]
  · rw [input]
    exact carried
  · rw [last]
    exact stored

theorem receive_igood (s : Vdh) (r : Receipt) : s.igood <+: (s.receive r).igood := by
  obtain ⟨-, same | ⟨p, beyond, short, -, -, -, stored⟩⟩ := s.receive_in r
  · simp only [inSide, Prod.mk.injEq] at same
    exact same.2.2.2.2.2.2.2.1 ▸ List.prefix_rfl
  · simp only [inSide, Prod.mk.injEq] at stored
    rw [stored.2.2.2.2.2.2.2.1, (s.store_record p beyond).2.1]
    exact List.prefix_append _ _

theorem receives_igood (s : Vdh) (receipts : List Receipt) :
    s.igood <+: (receipts.foldl receive s).igood := by
  induction receipts generalizing s with
  | nil => exact List.prefix_refl _
  | cons r receipts inductionHypothesis =>
    exact (s.receive_igood r).trans (inductionHypothesis (s.receive r))

end Vdh

theorem AllSized.of_prefix {short long : List Packet} (sized : AllSized long)
    (shorter : short <+: long) : AllSized short := by
  obtain ⟨more, rfl⟩ := shorter
  intro before p after cut
  refine sized before p (after ++ more) ?_
  rw [cut, List.append_assoc]
  rfl

theorem AllSized.snoc {packets : List Packet} {p : Packet} (sized : AllSized packets)
    (next : Sized (parts packets).2 p.data p.isLast) : AllSized (packets ++ [p]) := by
  intro before q after cut
  rcases List.append_eq_append_iff.mp cut with ⟨more, rfl, tail⟩ | ⟨more, rfl, tail⟩
  · cases more with
    | nil =>
      rw [List.append_nil]
      obtain ⟨rfl, -⟩ := List.cons.inj tail
      exact next
    | cons _ more =>
      obtain ⟨-, rest⟩ := List.cons.inj tail
      exact absurd rest (by simp)
  · cases more with
    | nil =>
      rw [List.append_nil] at next
      obtain ⟨rfl, -⟩ := List.cons.inj tail
      exact next
    | cons _ more =>
      obtain ⟨rfl, -⟩ := List.cons.inj tail
      exact sized before q more rfl

namespace Vdh

variable {s : Vdh}

theorem Given.receive (given : s.Given) (r : Receipt) (sized : AllSized (s.receive r).igood) :
    (s.receive r).Given := by
  obtain ⟨-, same | ⟨p, beyond, short, -, -, accepts, stored⟩⟩ := s.receive_in r
  · exact given.same same
  · have good := stored
    simp only [inSide, Prod.mk.injEq] at good
    rw [good.2.2.2.2.2.2.2.1, (s.store_record p beyond).2.1] at sized
    exact (given.store accepts.ready beyond (sized s.igood p [] rfl)).same stored

theorem Given.receives (given : s.Given) (receipts : List Receipt)
    (sized : AllSized (receipts.foldl Vdh.receive s).igood) : (receipts.foldl Vdh.receive s).Given := by
  induction receipts generalizing s with
  | nil => exact given
  | cons r receipts inductionHypothesis =>
    have first := given.receive r (sized.of_prefix (receives_igood (s.receive r) receipts))
    exact inductionHypothesis first sized

theorem Given.impInput (given : s.Given) : s.impInput.Given := by
  unfold Vdh.impInput impldrd
  split
  next => exact given
  next waits =>
    have waiting : s.vdhilast = true := by simpa using waits
    obtain ⟨complete, now, cut, carried, assembled, some⟩ := given
    rw [waiting, if_pos rfl] at cut
    have carries := assembled.carries (some waiting)
    exact ⟨complete ++ [now], [], cut, List.rel_append carried (.cons carries .nil),
      ⟨rfl, fun _ => rfl, fun one => absurd one (by simp), fun more => absurd more (by simp),
        fun more => absurd more (by simp)⟩, fun never => Bool.noConfusion never⟩

theorem Given.quiet (given : s.Given) {after : Vdh} (quiet : s.Quiet after) : after.Given :=
  given.same quiet.1

theorem Given.vdhoint (given : s.Given) (timer : Option Bool) (eot : Bool) :
    (s.vdhoint timer eot).Given := by
  have timed : (s.timed timer).Given := by
    cases timer with
    | none => exact given
    | some ncpopnstate => exact given.same (s.tick_inSide ncpopnstate).1
  have ended : ((s.timed timer).ended eot).Given := by
    cases eot with
    | false => exact timed
    | true => exact timed.same rfl
  exact ended.quiet (restart_quiet _)

theorem Given.vdhiint (given : s.Given) (receipts : List Receipt)
    (sized : AllSized (s.vdhiint receipts).igood) : (s.vdhiint receipts).Given := by
  rcases s.vdhiint_quiet receipts with same | quiet
  · rw [same]
    exact given
  · have good := quiet.1
    simp only [inSide, Prod.mk.injEq] at good
    rw [good.2.2.2.2.2.2.2.1] at sized
    exact (given.receives receipts sized).quiet quiet

end Vdh

/-! ### Runs -/

theorem body_isLast (p : Packet) : p.body.isLast = p.isLast := by
  unfold Packet.isLast
  rw [body_bits p (by decide)]

theorem parts_body (packets : List Packet) :
    parts (packets.map Packet.body) =
      ((parts packets).1.map (List.map Packet.body), (parts packets).2.map Packet.body) := by
  induction packets using List.reverseRecOn with
  | nil => rfl
  | append_singleton packets p inductionHypothesis =>
    rw [List.map_append, List.map_singleton, parts_snoc, parts_snoc, inductionHypothesis, body_isLast]
    split
    · simp
    · simp

theorem sized_body (before : List Packet) (data : List (BitVec 16)) (last : Bool) :
    Sized (before.map Packet.body) data last ↔ Sized before data last :=
  match before with
  | [] | [_] | _ :: _ :: _ => Iff.rfl

theorem AllSized.of_body {packets : List Packet} (sized : AllSized (packets.map Packet.body)) :
    AllSized packets := by
  intro before p after cut
  have next := sized (before.map Packet.body) p.body (after.map Packet.body) (by
    rw [cut, List.map_append]
    rfl)
  rw [parts_body, body_isLast] at next
  exact (sized_body _ _ _).mp next

theorem isLast_spec : ∀ (c : Chan) (n : Fin 63) (last evn : Bool),
    Packet.isLast ⟨BitVec.ofNat 16 c.val ||| BitVec.ofNat 16 (256 * (n.val + 1)) |||
      (if last then vLast else 0) ||| (if evn then vEvnodd else 0), []⟩ = last := by
  decide +kernel

namespace InLine

variable {s : InLine}

/-- The imp's packets have the sizes that the driver needs. -/
def Sizes (s : InLine) : InEvent → Prop
  | .fill data last => Sized (parts s.built).2 data last
  | _ => True

theorem AllSized.fill (sized : AllSized s.built) {data : List (BitVec 16)} (some : data ≠ [])
    (fits : data.length ≤ vdhdsize) {last : Bool} (next : Sized (parts s.built).2 data last) :
    AllSized (s.fill data last).built := by
  have positive : 0 < data.length := List.length_pos_iff.mpr some
  have isLast := isLast_spec s.chn ⟨data.length - 1, by unfold vdhdsize at fits; omega⟩ last
    (s.heard s.chn)
  have length : data.length - 1 + 1 = data.length := by omega
  simp only [length] at isLast
  refine sized.snoc ?_
  have same : (Packet.mk (BitVec.ofNat 16 s.chn.val ||| BitVec.ofNat 16 (256 * data.length) |||
      (if last then vLast else 0) ||| (if s.heard s.chn then vEvnodd else 0)) data).isLast = last :=
    isLast
  rw [same]
  exact next

/-- What an event does to the driver. -/
def driven (s : InLine) : InEvent → Vdh
  | .output m => s.vdh.impOutput m
  | .oint timer eot => s.vdh.vdhoint timer eot
  | .iint count => s.vdh.vdhiint ((s.line.take count).map Prod.fst)
  | .input => s.vdh.impInput
  | _ => s.vdh

theorem step_cases {e : InEvent} {next : InLine} (taken : s.step e = some next) :
    next.vdh = s.driven e ∧
      (next.built = s.built ∨ ∃ data last, e = .fill data last ∧ data ≠ [] ∧
        data.length ≤ vdhdsize ∧ next.built = (s.fill data last).built) := by
  cases e with
  | fill data last =>
    unfold InLine.step at taken
    dsimp only at taken
    split at taken
    next can =>
      cases taken
      exact ⟨rfl, .inr ⟨data, last, rfl, can.1, can.2.1, rfl⟩⟩
    next => cases taken
  | send c ack beyond short =>
    unfold InLine.step at taken
    dsimp only at taken
    split at taken <;> cases taken
    exact ⟨rfl, .inl rfl⟩
  | other r =>
    unfold InLine.step at taken
    dsimp only at taken
    split at taken <;> cases taken
    exact ⟨rfl, .inl rfl⟩
  | hear =>
    unfold InLine.step InLine.hear at taken
    dsimp only at taken
    split at taken
    next => cases taken
    next =>
      split at taken <;> cases taken
      · exact ⟨rfl, .inl rfl⟩
      · exact ⟨rfl, .inl rfl⟩
  | output _ | oint _ _ | iint _ | input | loseLine _ | loseBack _ =>
    cases taken
    exact ⟨rfl, .inl rfl⟩

theorem step_built (sized : AllSized s.built) {e : InEvent} (sizes : s.Sizes e) {next : InLine}
    (taken : s.step e = some next) : AllSized next.built := by
  rcases (step_cases taken).2 with same | ⟨data, last, rfl, some, fits, filled⟩
  · rw [same]
    exact sized
  · rw [filled]
    exact AllSized.fill sized some fits sizes

theorem step_given (given : s.vdh.Given) {e : InEvent} {next : InLine} (taken : s.step e = some next)
    (sized : AllSized next.vdh.igood) : next.vdh.Given := by
  rw [(step_cases taken).1] at sized ⊢
  cases e with
  | output m => exact given.quiet (s.vdh.impOutput_quiet m)
  | oint timer eot => exact given.vdhoint timer eot
  | iint count => exact given.vdhiint _ sized
  | input => exact given.impInput
  | fill _ _ | send _ _ _ _ | other _ | hear | loseLine _ | loseBack _ => exact given

theorem ofNat_chan (k : Nat) (c : Chan) :
    BitVec.ofNat 16 (k % 2) = BitVec.ofNat 16 c.val ↔ k % 2 = c.val := by
  have small := c.isLt
  constructor
  · intro same
    have values := congrArg BitVec.toNat same
    rw [BitVec.toNat_ofNat, BitVec.toNat_ofNat] at values
    omega
  · intro same
    rw [same]

theorem count_channel (c : Chan) (packets : List Packet)
    (channels : ∀ k p, packets[k]? = some p → p.ctl &&& vChbits = BitVec.ofNat 16 (k % 2)) :
    (packets.countP fun p => p.ctl &&& vChbits = BitVec.ofNat 16 c.val) =
      (packets.length + 1 - c.val) / 2 := by
  have small := c.isLt
  induction packets using List.reverseRecOn with
  | nil =>
    show 0 = (0 + 1 - c.val) / 2
    omega
  | append_singleton packets p inductionHypothesis =>
    have last := channels packets.length p List.getElem?_concat_length
    have before := inductionHypothesis fun k q found =>
      channels k q (OutLine.prefix_getElem? (List.prefix_append _ _) found)
    rw [List.countP_append, before, List.countP_singleton, last, List.length_append,
      List.length_singleton]
    simp only [decide_eq_true_eq, ofNat_chan]
    split <;> omega

theorem stored_parity (held : s.Held seen acks) (c : Chan) :
    ackOn s.vdh.vdhoack c =
      decide ((s.vdh.igood.countP fun p => p.ctl &&& vChbits = BitVec.ofNat 16 c.val) % 2 = 1) := by
  rw [count_channel c, held.oack]
  · rfl
  · intro k p found
    have inBodies : (s.vdh.igood.map Packet.body)[k]? = some p.body := by
      rw [List.getElem?_map, found]
      rfl
    have built := held.packets k p.body (OutLine.prefix_getElem? held.stored inBodies)
    rw [← body_bits p (by decide)]
    exact built.channel

theorem stored_once {first : InLine} {history : List InEvent} (fresh : first.Fresh)
    (run : Transition.Run (Transition.Takes step) first history s) :
    s.vdh.igood.map Packet.body <+: s.built ∧ ∀ c, ackOn s.vdh.vdhoack c = decide
      ((s.vdh.igood.countP fun p => p.ctl &&& vChbits = BitVec.ofNat 16 c.val) % 2 = 1) := by
  obtain ⟨_, _, held⟩ : ∃ seen acks, s.Held seen acks :=
    run.always (fun s => ∃ seen acks, s.Held seen acks) ⟨0, [], fresh.held⟩
      fun _ _ _ ⟨_, _, held⟩ taken => held.step taken
  exact ⟨held.stored, stored_parity held⟩

/-- The input is stored once and in order and put together to the messages of the imp. From any
state in which both sides have been reset, in any sequence of messages, interrupts with any
reports, packets and losses in which the imp's packets have the sizes that the driver needs, what
the driver has stored is a prefix of what the imp has built; a channel's acknowledgement bit tells
the number of its packets that have been stored; and the input process has got the messages that
are complete, but for one that waits. -/
theorem input_once {first : InLine} {history : List InEvent} (fresh : first.Fresh)
    (run : Transition.Run (Transition.Guarded (Transition.Takes step) Sizes) first history s) :
    s.vdh.igood.map Packet.body <+: s.built ∧
      (∀ c, ackOn s.vdh.vdhoack c = decide
        ((s.vdh.igood.countP fun p => p.ctl &&& vChbits = BitVec.ofNat 16 c.val) % 2 = 1)) ∧
      ∃ given waiting, (parts s.vdh.igood).1 = given ++ waiting ∧ waiting.length ≤ 1 ∧
        List.Forall₂ Carries given s.vdh.input := by
  have none : first.vdh.Given :=
    ⟨[], [], by rw [fresh.igood, fresh.ilast]; rfl, by rw [fresh.input]; exact .nil,
      ⟨fresh.impleader, fun _ => fresh.impiMsg, fun one => absurd one (by simp),
        fun more => absurd more (by simp), fun more => absurd more (by simp)⟩,
      fun waits => absurd waits (by rw [fresh.ilast]; decide)⟩
  have nothing : AllSized first.built := fun before p after cut => absurd cut (by simp [fresh.built])
  obtain ⟨-, -, given⟩ := run.always
    (fun s => (∃ seen acks, s.Held seen acks) ∧ AllSized s.built ∧ s.vdh.Given)
    ⟨⟨0, [], fresh.held⟩, nothing, none⟩ fun s e next ⟨⟨seen, acks, held⟩, sized, given⟩ taken => by
      obtain ⟨sizes, taken⟩ := taken
      obtain ⟨now, acks, nextHeld⟩ := held.step taken
      have nextSized := step_built sized sizes taken
      exact ⟨⟨now, acks, nextHeld⟩, nextSized,
        step_given given taken (nextSized.of_prefix nextHeld.stored).of_body⟩
  obtain ⟨stored, parity⟩ := stored_once fresh (run.mono fun _ _ _ taken => taken.2)
  refine ⟨stored, parity, ?_⟩
  obtain ⟨complete, now, cut, carried, -, -⟩ := given
  split at cut
  next => exact ⟨complete, [now], by rw [cut], Nat.le_refl 1, carried⟩
  next => exact ⟨complete, [], by rw [cut, List.append_nil], Nat.zero_le 1, carried⟩

instance (before : List Packet) (data : List (BitVec 16)) (last : Bool) :
    Decidable (Sized before data last) :=
  match before with
  | [] => inferInstanceAs (Decidable (data.length = 2))
  | [_] => inferInstanceAs (Decidable (2 ≤ data.length ∧ (last = false → 2 < data.length)))
  | _ :: _ :: _ => .isTrue trivial

instance (s : InLine) : ∀ e, Decidable (s.Sizes e)
  | .fill data last => inferInstanceAs (Decidable (Sized (parts s.built).2 data last))
  | .output _ | .oint _ _ | .iint _ | .input | .send _ _ _ _ | .other _ | .hear | .loseLine _
  | .loseBack _ => .isTrue trivial

/-- A line that has just come up. -/
def cameUp : InLine :=
  ⟨{ Vdh.static.impInit with trying := true, up := true }, [], [], [], fun _ => false, fun _ => false⟩

/-- A message of two packets; the first one is lost once. -/
def aMessage : List InEvent :=
  [.fill [1, 2] false, .fill [3, 4, 5] true, .send 0 0 0 false, .loseLine 0, .send 1 0 0 false,
    .send 0 0 0 false, .iint 2, .send 1 0 0 false, .iint 1, .input]

/-- A message of three packets of two words; the third one is sent when the first one is
acknowledged. -/
def threePairs : List InEvent :=
  [.fill [1, 2] false, .fill [3, 4] false, .send 0 0 0 false, .send 1 0 0 false, .iint 2,
    .oint none true, .hear, .fill [5, 6] true, .send 0 0 0 false, .iint 1, .input]

theorem input_once_two : (Transition.last step cameUp aMessage).vdh.igood.map Packet.body <+:
    (Transition.last step cameUp aMessage).built :=
  (input_once ⟨rfl, rfl, rfl, rfl, rfl, rfl, rfl, rfl, rfl, rfl, rfl, fun _ => rfl, fun _ => rfl⟩
    (Transition.run_can (by decide +kernel))).1

example : (Transition.last step cameUp aMessage).vdh.input = [⟨(1, 2), (3, 4), [5]⟩] := by
  decide +kernel

/-- The third packet is taken for the rest of the leader, and the second one is forgotten. -/
theorem input_three_pairs :
    cameUp.Fresh ∧
    Transition.Run (Transition.Takes step) cameUp threePairs (Transition.last step cameUp threePairs) ∧
    (Transition.last step cameUp threePairs).vdh.input = [⟨(1, 2), (5, 6), []⟩] ∧
    ¬ List.Forall₂ Carries (parts (Transition.last step cameUp threePairs).vdh.igood).1
      (Transition.last step cameUp threePairs).vdh.input := by
  have given : (Transition.last step cameUp threePairs).vdh.input = [⟨(1, 2), (5, 6), []⟩] := by
    decide +kernel
  have wordsOf : (parts (Transition.last step cameUp threePairs).vdh.igood).1.map words =
      [[1, 2, 3, 4, 5, 6]] := by
    decide +kernel
  refine ⟨⟨rfl, rfl, rfl, rfl, rfl, rfl, rfl, rfl, rfl, rfl, rfl, fun _ => rfl, fun _ => rfl⟩,
    Transition.run_all (by decide +kernel), given, fun carried => ?_⟩
  rw [given] at carried
  obtain ⟨packets, others, carries, -, cut⟩ := List.forall₂_cons_right_iff.mp carried
  rw [cut] at wordsOf
  rcases carries with ⟨short, -⟩ | whole
  · rw [List.map_cons, short] at wordsOf
    cases (List.cons.inj wordsOf).1
  · rw [List.map_cons, whole] at wordsOf
    exact absurd (List.cons.inj wordsOf).1 (by decide)

end InLine

end NetworkUnix.Ncpk
