/-
This file proves that the output side of the very distant host interface delivers its
packets once and in order. The line to the imp and the line back keep the order of what
they carry and may lose anything; the imp accepts a packet on the next channel in
rotation with the even/odd bit it expects, flips the channel's acknowledgement bit, and
sends whatever it likes with its acknowledgement bits.

The driver's tables stand for two numbers: how many packets it has built and how many it
has seen acknowledged. With these the lines are those of packets on channels in rotation.
-/

import NetworkUnix.Lib.Rotation
import NetworkUnix.Lib.Run
import NetworkUnix.Ncpk.Vdh

namespace NetworkUnix.Ncpk

open Function

/-! ### The other side of the line -/

/-- The packet carries data. -/
def Packet.isData (p : Packet) : Bool := p.ctl &&& vSpbit = 0 ∧ p.ctl &&& vWcbits ≠ 0

/-- The packet without the bits that are set when it is sent. -/
def Packet.body (p : Packet) : Packet := ⟨p.ctl &&& ~~~(vAckbits ||| vHtoi), p.data⟩

/-- The acknowledgement bits of the channels. -/
def ackBits (ack : Chan → Bool) : BitVec 16 :=
  (if ack 0 then vC0ack else 0) ||| (if ack 1 then vC0ack <<< 1 else 0)

/-- What is sent with the acknowledgement bits of the moment. -/
def Receipt.told (ack : Chan → Bool) : Receipt → Receipt
  | .packet p beyond short => .packet ⟨p.ctl &&& ~~~vAckbits ||| ackBits ack, p.data⟩ beyond short
  | receipt => receipt

/-- The number of the packet in a channel's buffer, when so many have been built. -/
def numberOf (built : Nat) (c : Chan) : Nat := if (built - 1) % 2 = c.val then built - 1 else built - 2

/-- The driver; what is on the line to the imp, with the numbers of the packets of the channels;
what is on the line from the imp, each with the number of packets the imp had accepted; the channel
that the imp expects, its acknowledgement bits, and what it has accepted. -/
structure OutLine where
  vdh : Vdh
  out : List (Packet × Option Nat)
  back : List (Receipt × Nat)
  chn : Chan
  ack : Chan → Bool
  accepted : List Packet

inductive OutEvent
  | output (m : OutMessage)
  | oint (timer : Option Bool) (eot : Bool)
  | iint (count : Nat)
  | input
  | deliver
  | reply (r : Receipt)
  | loseOut (i : Nat)
  | loseBack (i : Nat)

namespace OutLine

/-- What the interface transmits, with its number. -/
def transmitted (s : OutLine) : List (Packet × Option Nat) :=
  (s.vdh.sending.map fun f => (f.1, f.2.map (numberOf s.vdh.opaks.length))).toList

/-- The imp takes what comes first on the line. -/
def deliver (s : OutLine) : Option OutLine :=
  match s.out with
  | [] => none
  | (f, _) :: rest =>
    let s := { s with out := rest }
    if f.isData ∧ f.ctl &&& vChbits = BitVec.ofNat 16 s.chn.val ∧
        decide (f.ctl &&& vEvnodd ≠ 0) = s.ack s.chn then
      some { s with
        accepted := s.accepted ++ [f.body]
        ack := Function.update s.ack s.chn (!s.ack s.chn)
        chn := s.chn + 1 }
    else some s

/-- What an event leads to; none stands for one that cannot happen. What the interface transmits is
on the line at the end of the transmission. -/
def step (s : OutLine) : OutEvent → Option OutLine
  | .output m => some { s with vdh := s.vdh.impOutput m }
  | .oint timer eot =>
    some { s with
      out := if eot then s.out ++ s.transmitted else s.out
      vdh := s.vdh.vdhoint timer eot }
  | .iint count =>
    some { s with
      vdh := s.vdh.vdhiint ((s.back.take count).map Prod.fst)
      back := s.back.drop count }
  | .input => some { s with vdh := s.vdh.impInput }
  | .deliver => s.deliver
  | .reply r => some { s with back := s.back ++ [(r.told s.ack, s.accepted.length)] }
  | .loseOut i => some { s with out := s.out.eraseIdx i }
  | .loseBack i => some { s with back := s.back.eraseIdx i }

/-- Both sides have been reset and nothing is on the lines; the line may be up or not. -/
structure Fresh (s : OutLine) : Prop where
  house : ∀ c, s.vdh.vdhouse c = -1
  fillAt : s.vdh.vdhofill = 0
  prvictl : s.vdh.prvictl = 0
  oack : s.vdh.vdhoack = vHtoi
  idle : s.vdh.outbusy = false
  sending : s.vdh.sending = none
  opaks : s.vdh.opaks = []
  out : s.out = []
  back : s.back = []
  chn : s.chn = 0
  ack : ∀ c, s.ack c = false
  accepted : s.accepted = []

end OutLine

/-! ### The driver's tables as numbers -/

/-- The acknowledgement bit of a channel after so many packets have been accepted. -/
def ackBit (c : Chan) (accepted : Nat) : Bool := (accepted + 1 - c.val) / 2 % 2 = 1

/-- A packet as it is built: its number shows in the channel and in the even/odd bit. -/
structure Built (k : Nat) (p : Packet) : Prop where
  isData : p.isData = true
  channel : p.ctl &&& vChbits = BitVec.ofNat 16 (k % 2)
  evnodd : (p.ctl &&& vEvnodd ≠ 0) ↔ k / 2 % 2 = 1
  body : p.body = p

/-- What the tables say, when so many packets have been seen acknowledged. -/
structure Tables (v : Vdh) (seen : Nat) : Prop where
  low : seen ≤ v.opaks.length
  window : v.opaks.length ≤ seen + 2
  fillAt : v.vdhofill.val = v.opaks.length % 2
  house : ∀ c, 0 ≤ v.vdhouse c ↔ ∃ k, seen ≤ k ∧ k < v.opaks.length ∧ k % 2 = c.val
  built : ∀ k p, v.opaks[k]? = some p → Built k p
  bufs : ∀ c k, seen ≤ k → k < v.opaks.length → k % 2 = c.val →
    v.opaks[k]? = some (v.vdhobuf c).body
  acks : ∀ c, ackOn v.prvictl c = ackBit c seen
  oack : v.vdhoack &&& ~~~(vAckbits ||| vHtoi) = 0
  busy : v.outbusy = v.sending.isSome
  special : ∀ f, v.sending = some (f, none) → f.isData = false
  sent : ∀ f c, v.sending = some (f, some c) →
    v.vdhobuf c = f ∧ v.opaks[numberOf v.opaks.length c]? = some f.body

/-! ### Bits of the packets -/

theorem body_bits (p : Packet) {mask : BitVec 16} (apart : ~~~(vAckbits ||| vHtoi) &&& mask = mask) :
    p.body.ctl &&& mask = p.ctl &&& mask := by
  show p.ctl &&& ~~~(vAckbits ||| vHtoi) &&& mask = _
  rw [BitVec.and_assoc, apart]

theorem body_set (p : Packet) {oack : BitVec 16} (only : oack &&& ~~~(vAckbits ||| vHtoi) = 0) :
    (Packet.mk (p.ctl &&& ~~~vAckbits ||| oack) p.data).body = p.body := by
  have inside : ~~~vAckbits &&& ~~~(vAckbits ||| vHtoi) = ~~~(vAckbits ||| vHtoi) := by decide
  have same : (p.ctl &&& ~~~vAckbits ||| oack) &&& ~~~(vAckbits ||| vHtoi) =
      p.ctl &&& ~~~(vAckbits ||| vHtoi) := by
    rw [BitVec.and_or_distrib_right, only, BitVec.and_assoc, inside]
    exact BitVec.or_zero
  unfold Packet.body
  rw [same]

theorem numberOf_eq {built k : Nat} {c : Chan} (isBuilt : k < built) (last : built ≤ k + 2)
    (channel : k % 2 = c.val) : numberOf built c = k := by
  unfold numberOf
  split <;> omega

theorem built_spec : ∀ (c : Chan) (n : Fin 63) (last evn : Bool),
    Packet.isData ⟨BitVec.ofNat 16 c.val ||| BitVec.ofNat 16 (256 * (n.val + 1)) |||
      (if last then vLast else 0) ||| (if evn then vEvnodd else 0), []⟩ = true ∧
    (BitVec.ofNat 16 c.val ||| BitVec.ofNat 16 (256 * (n.val + 1)) |||
      (if last then vLast else 0) ||| (if evn then vEvnodd else 0)) &&& vChbits =
        BitVec.ofNat 16 c.val ∧
    (((BitVec.ofNat 16 c.val ||| BitVec.ofNat 16 (256 * (n.val + 1)) |||
      (if last then vLast else 0) ||| (if evn then vEvnodd else 0)) &&& vEvnodd ≠ 0) ↔
        evn = true) ∧
    (BitVec.ofNat 16 c.val ||| BitVec.ofNat 16 (256 * (n.val + 1)) |||
      (if last then vLast else 0) ||| (if evn then vEvnodd else 0)) &&& ~~~(vAckbits ||| vHtoi) =
        BitVec.ofNat 16 c.val ||| BitVec.ofNat 16 (256 * (n.val + 1)) |||
      (if last then vLast else 0) ||| (if evn then vEvnodd else 0) := by
  decide +kernel

theorem built_packet {k : Nat} {c : Chan} (channel : c.val = k % 2) {evn : Bool}
    (parity : evn = true ↔ k / 2 % 2 = 1) {data : List (BitVec 16)} (some : data ≠ [])
    (fits : data.length ≤ 63) (last : Bool) :
    Built k ⟨BitVec.ofNat 16 c.val ||| BitVec.ofNat 16 (256 * data.length) |||
      (if last then vLast else 0) ||| (if evn then vEvnodd else 0), data⟩ := by
  have positive : 0 < data.length := List.length_pos_iff.mpr some
  obtain ⟨isData, onChannel, evnodd, body⟩ := built_spec c ⟨data.length - 1, by omega⟩ last evn
  have length : data.length - 1 + 1 = data.length := by omega
  simp only [length] at isData onChannel evnodd body
  refine ⟨isData, ?_, evnodd.trans parity, ?_⟩
  · rw [← channel]
    exact onChannel
  · unfold Packet.body
    rw [body]

theorem built_next {v : Vdh} {seen : Nat} (tables : Tables v seen)
    (free : v.vdhouse v.vdhofill < 0) {data : List (BitVec 16)} (some : data ≠ [])
    (fits : data.length ≤ 63) (last : Bool) :
    v.opaks.length < seen + 2 ∧
    Built v.opaks.length ⟨BitVec.ofNat 16 v.vdhofill.val ||| BitVec.ofNat 16 (256 * data.length) |||
      (if last then vLast else 0) ||| (if ackOn v.prvictl v.vdhofill then vEvnodd else 0), data⟩ := by
  have low := tables.low
  have window := tables.window
  have fillAt := tables.fillAt
  have small := v.vdhofill.isLt
  have room : v.opaks.length < seen + 2 := by
    by_contra full
    have taken := (tables.house v.vdhofill).mpr ⟨seen, by omega, by omega, by omega⟩
    omega
  refine ⟨room, built_packet fillAt ?_ some fits last⟩
  rw [tables.acks v.vdhofill]
  unfold ackBit
  rw [decide_eq_true_iff]
  omega

theorem Tables.fill {v : Vdh} {seen : Nat} (tables : Tables v seen) (idle : v.sending = none)
    (free : v.vdhouse v.vdhofill < 0) {buf : List (BitVec 16)} {len : Nat} (some : buf.take len ≠ [])
    (fits : (buf.take len).length ≤ 63) : Tables (v.fill buf len) seen := by
  obtain ⟨room, next⟩ := built_next tables free some fits (decide (buf.drop len = []))
  simp only [decide_eq_true_eq] at next
  have low := tables.low
  have window := tables.window
  have fillAt := tables.fillAt
  have small := v.vdhofill.isLt
  unfold Vdh.fill
  dsimp only
  generalize isNew : (Packet.mk (BitVec.ofNat 16 v.vdhofill.val |||
    BitVec.ofNat 16 (256 * (buf.take len).length) ||| (if buf.drop len = [] then vLast else 0) |||
    (if ackOn v.prvictl v.vdhofill then vEvnodd else 0)) (buf.take len)) = p at next ⊢
  have length : (v.opaks ++ [p]).length = v.opaks.length + 1 := List.length_append
  have old : ∀ k, k < v.opaks.length → (v.opaks ++ [p])[k]? = v.opaks[k]? := fun k less =>
    List.getElem?_append_left less
  have new : (v.opaks ++ [p])[v.opaks.length]? = Option.some p := List.getElem?_concat_length
  refine ⟨?_, ?_, ?_, fun c => ?_, fun k q isBuilt => ?_, fun c k unseen isBuilt channel => ?_,
    tables.acks, tables.oack, tables.busy, tables.special, fun f c sending => ?_⟩
  · rw [length]
    omega
  · rw [length]
    omega
  · rw [length]
    show (v.vdhofill + 1).val = _
    rw [Fin.val_add]
    show (v.vdhofill.val + 1) % 2 = _
    omega
  · rw [length]
    show 0 ≤ Function.update v.vdhouse v.vdhofill 0 c ↔ _
    by_cases here : c = v.vdhofill
    · rw [here, update_self]
      exact ⟨fun _ => ⟨v.opaks.length, low, Nat.lt_succ_self _, fillAt.symm⟩, fun _ => Int.le_refl 0⟩
    · rw [update_of_ne here, tables.house c]
      have apart : c.val ≠ v.vdhofill.val := fun same => here (Fin.ext same)
      constructor
      · rintro ⟨k, unseen, isBuilt, channel⟩
        exact ⟨k, unseen, Nat.lt_succ_of_lt isBuilt, channel⟩
      · rintro ⟨k, unseen, isBuilt, channel⟩
        exact ⟨k, unseen, by omega, channel⟩
  · rcases Nat.lt_trichotomy k v.opaks.length with less | same | more
    · rw [old k less] at isBuilt
      exact tables.built k q isBuilt
    · rw [same, new] at isBuilt
      rw [same, ← Option.some.inj isBuilt]
      exact next
    · rw [List.getElem?_eq_none (by rw [length]; omega)] at isBuilt
      cases isBuilt
  · rw [length] at isBuilt
    show (v.opaks ++ [p])[k]? = Option.some (Function.update v.vdhobuf v.vdhofill p c).body
    by_cases here : k = v.opaks.length
    · have same : c = v.vdhofill := Fin.ext (by omega)
      rw [here, new, same, update_self, next.body]
    · have apart : c ≠ v.vdhofill := fun same => by
        have value := congrArg Fin.val same
        omega
      rw [old k (by omega), update_of_ne apart]
      exact tables.bufs c k unseen (by omega) channel
  · have none : (none : Option (Packet × Option Chan)) = Option.some (f, Option.some c) :=
      idle.symm.trans sending
    cases none

/-! ### What the routines do to the tables -/

variable {v : Vdh} {seen : Nat}

theorem Tables.fillLoop (tables : Tables v seen) (idle : v.sending = none) (n : Nat) :
    Tables (v.fillLoop n) seen ∧ (v.fillLoop n).sending = none ∧ v.opaks <+: (v.fillLoop n).opaks := by
  induction n generalizing v with
  | zero => exact ⟨tables, idle, List.prefix_refl _⟩
  | succ n inductionHypothesis =>
    unfold Vdh.fillLoop
    split
    next free =>
      split
      next => exact ⟨tables, idle, List.prefix_refl _⟩
      next m rest _ _ =>
        have queued : Tables { v with impotab := rest } seen := { tables with }
        have some : m.words.take 2 ≠ [] := List.cons_ne_nil _ _
        have filled := queued.fill idle free some
          (Nat.le_trans (List.length_take_le 2 _) (by decide))
        obtain ⟨kept, idle, longer⟩ := inductionHypothesis filled idle
        exact ⟨kept, idle, (List.prefix_append _ _).trans longer⟩
      next _ w buf _ =>
        have some : (w :: buf).take (Min.min vdhdsize (w :: buf).length) ≠ [] := by simp [vdhdsize]
        have filled := tables.fill idle free some
          (Nat.le_trans (List.length_take_le _ _) (Nat.min_le_left _ _))
        obtain ⟨kept, idle, longer⟩ := inductionHypothesis filled idle
        exact ⟨kept, idle, (List.prefix_append _ _).trans longer⟩
    next => exact ⟨tables, idle, List.prefix_refl _⟩

theorem no_channel {f g : Packet} {c : Chan}
    (same : some (f, (none : Option Chan)) = some (g, some c)) : False := by
  cases (Prod.mk.inj (Option.some.inj same)).2

theorem Tables.vdh1snd (tables : Tables v seen) {oneliner : BitVec 16}
    (special : (Packet.mk oneliner []).isData = false) : Tables (v.vdh1snd oneliner) seen :=
  { tables with
    busy := rfl
    special := fun f sending => by
      rw [← (Prod.mk.inj (Option.some.inj sending)).1]
      exact special
    sent := fun f c sending => (no_channel sending).elim }

theorem Tables.sndChan (tables : Tables v seen) {c : Chan} (ready : v.vdhouse c = 0) :
    Tables (v.sndChan c) seen ∧ seen ≤ numberOf v.opaks.length c ∧
      numberOf v.opaks.length c < v.opaks.length := by
  have low := tables.low
  have window := tables.window
  obtain ⟨k, unseen, isBuilt, channel⟩ := (tables.house c).mp (Int.le_of_eq ready.symm)
  have number := numberOf_eq isBuilt (by omega) channel
  have same := body_set (v.vdhobuf c) tables.oack
  refine ⟨?_, by omega, by omega⟩
  refine { tables with
    house := fun d => ?_
    bufs := fun d j later isBuilt onChannel => ?_
    busy := rfl
    special := fun f sending => ?_
    sent := fun f d sending => ?_ }
  · refine Iff.trans ?_ (tables.house d)
    show 0 ≤ Function.update v.vdhouse c 6 d ↔ _
    by_cases here : d = c
    · rw [here, update_self, ready]
      decide
    · rw [update_of_ne here]
  · show v.opaks[j]? = some (Function.update v.vdhobuf c _ d).body
    by_cases here : d = c
    · rw [here, update_self, same]
      exact tables.bufs c j later isBuilt (here ▸ onChannel)
    · rw [update_of_ne here]
      exact tables.bufs d j later isBuilt onChannel
  · cases (Prod.mk.inj (Option.some.inj sending)).2
  · obtain ⟨isPacket, isChannel⟩ := Prod.mk.inj (Option.some.inj sending)
    rw [← Option.some.inj isChannel, ← isPacket]
    show Function.update v.vdhobuf c _ c = _ ∧ v.opaks[numberOf v.opaks.length c]? = _
    rw [update_self, number, same]
    exact ⟨rfl, tables.bufs c k unseen isBuilt channel⟩

theorem oack_special {oack : BitVec 16} (only : oack &&& ~~~(vAckbits ||| vHtoi) = 0) :
    (Packet.mk oack []).isData = false := by
  have inside : ~~~(vAckbits ||| vHtoi) &&& vWcbits = vWcbits := by decide
  have none : oack &&& vWcbits = 0 := by
    rw [← inside, ← BitVec.and_assoc, only]
    exact BitVec.zero_and
  unfold Packet.isData
  exact decide_eq_false fun both => both.2 none

/-- What starting the output does: packets are built, and at most one is transmitted, which has not
been seen acknowledged. -/
def Started (v : Vdh) (seen : Nat) (after : Vdh) : Prop :=
  Tables after seen ∧ v.opaks <+: after.opaks ∧
    ∀ f c, after.sending = some (f, some c) →
      seen ≤ numberOf after.opaks.length c ∧ numberOf after.opaks.length c < after.opaks.length

theorem Tables.sndLoop (tables : Tables v seen) (idle : v.sending = none) (n : Nat) :
    Started v seen (v.sndLoop n) := by
  induction n generalizing v with
  | zero =>
    unfold Vdh.sndLoop
    split
    · have sent := tables.vdh1snd (oack_special tables.oack)
      exact ⟨{ sent with }, List.prefix_refl _, fun f c sending =>
        (no_channel sending).elim⟩
    · refine ⟨tables, List.prefix_refl _, fun f c sending => ?_⟩
      rw [idle] at sending
      cases sending
  | succ n inductionHypothesis =>
    unfold Vdh.sndLoop
    dsimp only
    have turned : Tables { v with vdhosnd := v.vdhosnd + 1 } seen := { tables with }
    split
    next ready =>
      obtain ⟨sent, number⟩ := turned.sndChan ready
      refine ⟨sent, List.prefix_refl _, fun f c sending => ?_⟩
      rw [← Option.some.inj (Prod.mk.inj (Option.some.inj sending)).2]
      exact number
    next => exact inductionHypothesis turned idle

theorem Tables.vdhostart (tables : Tables v seen) (idle : v.sending = none) :
    Started v seen v.vdhostart := by
  have still : Started v seen v := ⟨tables, List.prefix_refl _, fun f c sending => by
    rw [idle] at sending
    cases sending⟩
  unfold Vdh.vdhostart
  split
  next => exact still
  next =>
    split
    next =>
      have special : (Packet.mk (vSpbit ||| vHello ||| vHtoi) []).isData = false := by decide
      have sent := tables.vdh1snd special
      exact ⟨{ sent with }, List.prefix_refl _, fun f c sending =>
        (no_channel sending).elim⟩
    next =>
      split
      next =>
        have special : (Packet.mk (vSpbit ||| vHtoi) []).isData = false := by decide
        have sent := tables.vdh1snd special
        exact ⟨{ sent with }, List.prefix_refl _, fun f c sending =>
          (no_channel sending).elim⟩
      next =>
        split
        next => exact still
        next =>
          obtain ⟨filled, idle, longer⟩ := tables.fillLoop idle nchns
          obtain ⟨kept, more, numbers⟩ := filled.sndLoop idle nchns
          exact ⟨kept, longer.trans more, numbers⟩

theorem ackBit_succ (c : Chan) (accepted : Nat) :
    ackBit c (accepted + 1) =
      if c.val = accepted % 2 then !ackBit c accepted else ackBit c accepted := by
  have small := c.isLt
  unfold ackBit
  split
  · rw [← decide_not, decide_eq_decide]
    omega
  · rw [decide_eq_decide]
    omega

theorem pending_seen {built a : Nat} {c : Chan} (later : seen ≤ a) (most : a ≤ built)
    (window : built ≤ seen + 2) :
    (∃ k, a ≤ k ∧ k < built ∧ k % 2 = c.val) ↔
      ackBit c seen = ackBit c a ∧ ∃ k, seen ≤ k ∧ k < built ∧ k % 2 = c.val := by
  have small := c.isLt
  unfold ackBit
  rw [decide_eq_decide]
  constructor
  · rintro ⟨k, unseen, isBuilt, channel⟩
    exact ⟨by omega, k, by omega, isBuilt, channel⟩
  · rintro ⟨same, k, unseen, isBuilt, channel⟩
    exact ⟨k, by omega, isBuilt, channel⟩

theorem Tables.ackRot (tables : Tables v seen) {ctl : BitVec 16} {a : Nat}
    (bits : ∀ c, ackOn ctl c = ackBit c a) (later : seen ≤ a) (most : a ≤ v.opaks.length) :
    Tables (v.ackRot ctl) a := by
  have window := tables.window
  obtain ⟨house, go, same, houses⟩ := ackRot_spec v ctl
  rw [same]
  refine { tables with
    low := most
    window := Nat.le_trans window (Nat.add_le_add_right later 2)
    house := fun c => ?_
    bufs := fun c k unseen => tables.bufs c k (Nat.le_trans later unseen)
    acks := bits }
  show 0 ≤ house c ↔ ∃ k, a ≤ k ∧ k < v.opaks.length ∧ k % 2 = c.val
  rw [houses c, bits c, tables.acks c, pending_seen later most window, ← tables.house c]
  split
  next flips => exact ⟨fun nonneg => ⟨flips, nonneg⟩, fun both => both.2⟩
  next flips => exact ⟨fun nonneg => absurd nonneg (by decide), fun both => absurd both.1 flips⟩

theorem xor_and (x y z : BitVec 16) : (x ^^^ y) &&& z = (x &&& z) ^^^ (y &&& z) :=
  BitVec.eq_of_getElem_eq (by simp [Bool.and_xor_distrib_right])

theorem oack_flip {oack : BitVec 16} (only : oack &&& ~~~(vAckbits ||| vHtoi) = 0) (c : Chan) :
    (oack ^^^ vC0ack <<< c.val) &&& ~~~(vAckbits ||| vHtoi) = 0 := by
  have inside : (vC0ack <<< c.val) &&& ~~~(vAckbits ||| vHtoi) = 0 := by
    rcases chan_cases c with rfl | rfl <;> decide
  rw [xor_and, only, inside]
  decide

/-- What a report of the interface leaves of the output side. -/
def Kept (v after : Vdh) : Prop :=
  after.opaks = v.opaks ∧ after.sending = v.sending ∧ after.outbusy = v.outbusy

theorem Tables.store (tables : Tables v seen) (p : Packet) (beyond : BitVec 16) :
    Tables (v.store p beyond) seen ∧ Kept v (v.store p beyond) := by
  have oack := oack_flip tables.oack v.vdhichn
  unfold Vdh.store
  dsimp only
  split
  · split
    · exact ⟨{ tables with oack := oack }, rfl, rfl, rfl⟩
    · exact ⟨{ tables with oack := oack }, rfl, rfl, rfl⟩
  · exact ⟨{ tables with oack := oack }, rfl, rfl, rfl⟩

theorem Tables.receive (tables : Tables v seen) {r : Receipt} {a : Nat}
    (bits : ∀ p beyond short, r = .packet p beyond short → ∀ c, ackOn p.ctl c = ackBit c a)
    (later : seen ≤ a) (most : a ≤ v.opaks.length) :
    (∃ now, (now = seen ∨ now = a) ∧ Tables (v.receive r) now) ∧ Kept v (v.receive r) := by
  have dropped : (∃ now, (now = seen ∨ now = a) ∧ Tables v now) ∧ Kept v v :=
    ⟨⟨seen, .inl rfl, tables⟩, rfl, rfl, rfl⟩
  cases r with
  | error => exact dropped
  | null => exact dropped
  | packet p beyond short =>
    unfold Vdh.receive
    dsimp only
    split
    next => exact dropped
    next =>
    split
    next =>
      split
      next => exact dropped
      next =>
        split
        next => exact ⟨⟨seen, .inl rfl, { tables with }⟩, rfl, rfl, rfl⟩
        next => exact ⟨⟨seen, .inl rfl, { tables with }⟩, rfl, rfl, rfl⟩
    next =>
    split
    next => exact dropped
    next =>
    split
    next => exact dropped
    next =>
      have seenNow := tables.ackRot (bits p beyond short rfl) later most
      have kept : Kept v (v.ackRot p.ctl) := by
        obtain ⟨house, go, same, -⟩ := ackRot_spec v p.ctl
        rw [same]
        exact ⟨rfl, rfl, rfl⟩
      have flagged : Tables { v.ackRot p.ctl with ack2snd := true, out2go := true } a :=
        { seenNow with }
      unfold Vdh.dataIn
      dsimp only
      split
      next => exact ⟨⟨a, .inr rfl, seenNow⟩, kept⟩
      next =>
      split
      next => exact ⟨⟨a, .inr rfl, flagged⟩, kept⟩
      next =>
      split
      next => exact ⟨⟨a, .inr rfl, flagged⟩, kept⟩
      next =>
      split
      next => exact ⟨⟨a, .inr rfl, flagged⟩, kept⟩
      next =>
      split
      next => exact ⟨⟨a, .inr rfl, { flagged with }⟩, kept⟩
      next =>
        obtain ⟨stored, opaks, sending, outbusy⟩ := flagged.store p beyond
        exact ⟨⟨a, .inr rfl, stored⟩, opaks.trans kept.1, sending.trans kept.2.1,
          outbusy.trans kept.2.2⟩

theorem Tables.tick (tables : Tables v seen) (ncpopnstate : Bool) :
    Tables (v.tick ncpopnstate) seen ∧ Kept v (v.tick ncpopnstate) := by
  have heldOff : ∀ c, 0 ≤ (if 0 < v.vdhouse c then v.vdhouse c - 1 else v.vdhouse c) ↔
      ∃ k, seen ≤ k ∧ k < v.opaks.length ∧ k % 2 = c.val := by
    intro c
    rw [← tables.house c]
    split <;> omega
  unfold Vdh.tick Vdh.interval
  dsimp only
  split
  next => exact ⟨{ tables with }, rfl, rfl, rfl⟩
  next =>
  split
  next => exact ⟨{ tables with house := heldOff }, rfl, rfl, rfl⟩
  next =>
  split
  next =>
    split
    next =>
      split
      next => exact ⟨{ tables with house := heldOff }, rfl, rfl, rfl⟩
      next => exact ⟨{ tables with house := heldOff }, rfl, rfl, rfl⟩
    next =>
      split
      next => exact ⟨{ tables with house := heldOff }, rfl, rfl, rfl⟩
      next =>
        split
        next => exact ⟨{ tables with house := heldOff }, rfl, rfl, rfl⟩
        next => exact ⟨{ tables with house := heldOff }, rfl, rfl, rfl⟩
  next => exact ⟨{ tables with house := heldOff }, rfl, rfl, rfl⟩

/-! ### The two sides together -/

namespace OutLine

/-- The packets on the line and the acknowledgements on the way back as numbers. -/
def line (s : OutLine) (seen : Nat) : Rotation.Line where
  built := s.vdh.opaks.length
  seen := seen
  accepted := s.accepted.length
  data := (s.out ++ s.transmitted).filterMap Prod.snd
  acks := s.back.map Prod.snd

/-- The driver and the imp agree with the numbers, and what is on the lines with what has been built
and accepted. -/
structure Held (s : OutLine) (seen : Nat) : Prop where
  tables : Tables s.vdh seen
  ordered : Rotation.Ordered 2 (s.line seen)
  special : ∀ f, (f, none) ∈ s.out → f.isData = false
  frames : ∀ f k, (f, some k) ∈ s.out → s.vdh.opaks[k]? = some f.body
  told : ∀ r a, (r, a) ∈ s.back → ∀ p beyond short, r = .packet p beyond short →
    ∀ c, ackOn p.ctl c = ackBit c a
  chn : s.chn.val = s.accepted.length % 2
  ack : ∀ c, s.ack c = ackBit c s.accepted.length
  accepted : s.accepted <+: s.vdh.opaks

variable {s : OutLine}

theorem prefix_getElem? {α : Type} {short long : List α} {k : Nat} {x : α} (prolongs : short <+: long)
    (found : short[k]? = some x) : long[k]? = some x := by
  obtain ⟨more, rfl⟩ := prolongs
  obtain ⟨less, -⟩ := List.getElem?_eq_some_iff.mp found
  rw [List.getElem?_append_left less]
  exact found

theorem Held.started (held : s.Held seen) (idle : s.vdh.sending = none) {after : Vdh}
    (started : Started s.vdh seen after) : ({ s with vdh := after } : OutLine).Held seen := by
  obtain ⟨tables, longer, numbers⟩ := started
  have none : s.transmitted = [] := by
    unfold transmitted
    rw [idle]
    rfl
  have filled := held.ordered.fill longer.length_le tables.window
  have data : (s.line seen).data = s.out.filterMap Prod.snd := by
    show (s.out ++ s.transmitted).filterMap Prod.snd = _
    rw [none, List.append_nil]
  refine { held with
    tables := tables
    ordered := ?_
    frames := fun f k sent => prefix_getElem? longer (held.frames f k sent)
    accepted := held.accepted.trans longer }
  have isLine : ∀ more : List Nat,
      (({ s with vdh := after } : OutLine).transmitted).filterMap Prod.snd = more →
      ({ s with vdh := after } : OutLine).line seen =
        { s.line seen with built := after.opaks.length, data := (s.line seen).data ++ more } := by
    intro more isMore
    rw [data, ← isMore, ← List.filterMap_append]
    rfl
  cases sending : after.sending with
  | none =>
    have nothing : (({ s with vdh := after } : OutLine).transmitted).filterMap Prod.snd = [] := by
      unfold transmitted
      rw [sending]
      rfl
    rw [isLine [] nothing, List.append_nil]
    exact filled
  | some f =>
    obtain ⟨f, channel⟩ := f
    cases channel with
    | none =>
      have nothing : (({ s with vdh := after } : OutLine).transmitted).filterMap Prod.snd = [] := by
        unfold transmitted
        rw [sending]
        rfl
      rw [isLine [] nothing, List.append_nil]
      exact filled
    | some c =>
      have number : (({ s with vdh := after } : OutLine).transmitted).filterMap Prod.snd =
          [numberOf after.opaks.length c] := by
        unfold transmitted
        rw [sending]
        rfl
      rw [isLine _ number]
      exact filled.send (numbers f c sending).1 (numbers f c sending).2

theorem Held.kept (held : s.Held seen) {after : Vdh} {now : Nat} {back : List (Receipt × Nat)}
    (tables : Tables after now) (kept : Kept s.vdh after)
    (ordered : Rotation.Ordered 2 { s.line seen with seen := now, acks := back.map Prod.snd })
    (told : ∀ r a, (r, a) ∈ back → ∀ p beyond short, r = .packet p beyond short →
      ∀ c, ackOn p.ctl c = ackBit c a) :
    ({ s with vdh := after, back := back } : OutLine).Held now := by
  obtain ⟨opaks, sending, -⟩ := kept
  refine { held with tables := tables, told := told, ordered := ?_, frames := ?_, accepted := ?_ }
  · have isLine : ({ s with vdh := after, back := back } : OutLine).line now =
        { s.line seen with seen := now, acks := back.map Prod.snd } := by
      unfold line transmitted
      dsimp only
      rw [opaks, sending]
    rw [isLine]
    exact ordered
  · intro f k sent
    show after.opaks[k]? = _
    rw [opaks]
    exact held.frames f k sent
  · show s.accepted <+: after.opaks
    rw [opaks]
    exact held.accepted

theorem Held.receives {rest : List (Receipt × Nat)} (heard : List (Receipt × Nat))
    (held : ({ s with back := heard ++ rest } : OutLine).Held seen) :
    ∃ now, ({ s with
      vdh := (heard.map Prod.fst).foldl Vdh.receive s.vdh
      back := rest } : OutLine).Held now := by
  induction heard generalizing s seen with
  | nil => exact ⟨seen, held⟩
  | cons first heard inductionHypothesis =>
    obtain ⟨r, a⟩ := first
    have member : a ∈ (({ s with back := (r, a) :: heard ++ rest } : OutLine).line seen).acks :=
      List.mem_cons_self
    obtain ⟨later, accepted⟩ := held.ordered.told member
    have most : a ≤ s.vdh.opaks.length := Nat.le_trans accepted held.ordered.built
    obtain ⟨⟨now, isNow, tables⟩, kept⟩ := held.tables.receive (held.told r a List.mem_cons_self)
      later most
    have told : ∀ q b, (q, b) ∈ heard ++ rest → ∀ p beyond short, q = .packet p beyond short →
        ∀ c, ackOn p.ctl c = ackBit c b := fun q b sent =>
      held.told q b (List.mem_cons_of_mem _ sent)
    have ordered : Rotation.Ordered 2
        { ({ s with back := (r, a) :: heard ++ rest } : OutLine).line seen with
          seen := now, acks := (heard ++ rest).map Prod.snd } := by
      rcases isNow with rfl | rfl
      · exact held.ordered.loseAcks (List.sublist_cons_self _ _)
      · exact held.ordered.hear rfl
    have next : ({ s with vdh := s.vdh.receive r, back := heard ++ rest } : OutLine).Held now :=
      held.kept tables kept ordered told
    exact inductionHypothesis (s := { s with vdh := s.vdh.receive r }) next

theorem Held.eot (held : s.Held seen) :
    ({ s with
      out := s.out ++ s.transmitted
      vdh := { s.vdh with outbusy := false, sending := none } } : OutLine).Held seen := by
  have frame : ∀ {f : Packet} {n : Option Nat}, (f, n) ∈ s.transmitted →
      ∃ c, s.vdh.sending = some (f, c) ∧ n = c.map (numberOf s.vdh.opaks.length) := by
    intro f n sent
    unfold transmitted at sent
    cases sending : s.vdh.sending with
    | none =>
      rw [sending] at sent
      cases sent
    | some g =>
      rw [sending] at sent
      obtain ⟨isPacket, isNumber⟩ := Prod.mk.inj (List.mem_singleton.mp sent)
      exact ⟨g.2, by rw [isPacket], isNumber⟩
  have idle : Tables { s.vdh with outbusy := false, sending := none } seen :=
    { held.tables with
      busy := rfl
      special := fun f sending => by cases sending
      sent := fun f c sending => by cases sending }
  refine { held with tables := idle, ordered := ?_, special := ?_, frames := ?_ }
  · have isLine : ({ s with
        out := s.out ++ s.transmitted
        vdh := { s.vdh with outbusy := false, sending := none } } : OutLine).line seen =
          s.line seen := by
      unfold line transmitted
      dsimp only
      rw [Option.map_none, Option.toList_none, List.append_nil]
    rw [isLine]
    exact held.ordered
  · intro f sent
    rcases List.mem_append.mp sent with earlier | now
    · exact held.special f earlier
    · obtain ⟨c, sending, number⟩ := frame now
      cases c with
      | none => exact held.tables.special f sending
      | some c => cases number
  · intro f k sent
    rcases List.mem_append.mp sent with earlier | now
    · exact held.frames f k earlier
    · obtain ⟨c, sending, number⟩ := frame now
      cases c with
      | none => cases number
      | some c =>
        rw [Option.some.inj number]
        exact (held.tables.sent f c sending).2

theorem sending_idle {v : Vdh} (tables : Tables v seen) (idle : v.outbusy = false) :
    v.sending = none := by
  have busy := tables.busy
  rw [idle] at busy
  exact Option.isNone_iff_eq_none.mp (by rw [← Option.not_isSome, ← busy]; rfl)

section

variable (held : s.Held seen)
include held

theorem Held.restart :
    ({ s with vdh := s.vdh.restart } : OutLine).Held seen := by
  unfold Vdh.restart
  split
  next => exact held
  next notBusy =>
    have idle := sending_idle held.tables (Bool.eq_false_iff.mpr notBusy)
    exact held.started idle (held.tables.vdhostart idle)

theorem Held.oint (timer : Option Bool) (eot : Bool) :
    ({ s with
      out := if eot then s.out ++ s.transmitted else s.out
      vdh := s.vdh.vdhoint timer eot } : OutLine).Held seen := by
  obtain ⟨tables, kept⟩ : Tables (s.vdh.timed timer) seen ∧ Kept s.vdh (s.vdh.timed timer) := by
    cases timer with
    | none => exact ⟨held.tables, rfl, rfl, rfl⟩
    | some ncpopnstate => exact held.tables.tick ncpopnstate
  have timed : ({ s with vdh := s.vdh.timed timer } : OutLine).Held seen :=
    held.kept tables kept held.ordered held.told
  have isSame : ({ s with vdh := s.vdh.timed timer } : OutLine).transmitted = s.transmitted := by
    unfold transmitted
    dsimp only
    rw [kept.1, kept.2.1]
  unfold Vdh.vdhoint
  cases eot with
  | false => exact timed.restart
  | true =>
    have ended := timed.eot
    rw [isSame] at ended
    exact ended.restart

theorem Held.iint (count : Nat) :
    ∃ now, ({ s with
      vdh := s.vdh.vdhiint ((s.back.take count).map Prod.fst)
      back := s.back.drop count } : OutLine).Held now := by
  unfold Vdh.vdhiint
  split
  next =>
    have dropped := held.ordered.loseAcks ((List.drop_sublist count s.back).map Prod.snd)
    exact ⟨seen, held.kept held.tables ⟨rfl, rfl, rfl⟩ dropped fun r a sent =>
      held.told r a (List.mem_of_mem_drop sent)⟩
  next =>
    have whole : ({ s with back := s.back.take count ++ s.back.drop count } : OutLine).Held seen := by
      rw [List.take_append_drop]
      exact held
    obtain ⟨now, heard⟩ := whole.receives (s.back.take count)
    dsimp only at heard ⊢
    generalize ((s.back.take count).map Prod.fst).foldl Vdh.receive s.vdh = v at heard ⊢
    refine ⟨now, ?_⟩
    have flagged : ∀ t : OutLine, t.Held now →
        ({ t with vdh := { t.vdh with out2go := false } } : OutLine).Held now := fun t heldT =>
      { heldT with tables := { heldT.tables with } }
    split
    next => exact flagged _ heard.restart
    next => exact flagged _ heard

theorem Held.output (m : OutMessage) :
    ({ s with vdh := s.vdh.impOutput m } : OutLine).Held seen := by
  have queued : ({ s with
      vdh := { s.vdh with impotab := s.vdh.impotab ++ [m] } } : OutLine).Held seen :=
    { held with tables := { held.tables with } }
  unfold Vdh.impOutput
  dsimp only
  split
  next => exact queued.restart
  next => exact queued

/-- The imp takes what comes first. -/
theorem Held.deliver {next : OutLine} (taken : s.deliver = some next) :
    next.Held seen := by
  unfold OutLine.deliver at taken
  split at taken
  next => cases taken
  next f n rest sent =>
    have member : (f, n) ∈ s.out := by
      rw [sent]
      exact List.mem_cons_self
    have others : ∀ g m, (g, m) ∈ rest → (g, m) ∈ s.out := fun g m later => by
      rw [sent]
      exact List.mem_cons_of_mem _ later
    have data : (s.line seen).data = n.toList ++ (rest ++ s.transmitted).filterMap Prod.snd := by
      show (s.out ++ s.transmitted).filterMap Prod.snd = _
      rw [sent, List.cons_append, List.filterMap_cons]
      cases n <;> rfl
    have dropped : Rotation.Ordered 2 { s.line seen with
        data := (rest ++ s.transmitted).filterMap Prod.snd } :=
      held.ordered.loseData (by rw [data]; exact List.sublist_append_right _ _)
    have ignored : ({ s with out := rest } : OutLine).Held seen :=
      { held with
        ordered := dropped
        special := fun g later => held.special g (others g none later)
        frames := fun g k later => held.frames g k (others g (some k) later) }
    dsimp only at taken
    split at taken
    next accepts =>
      obtain ⟨isData, channel, evnodd⟩ := accepts
      cases n with
      | none =>
        rw [held.special f member] at isData
        cases isData
      | some k =>
        have isBuilt := held.frames f k member
        have built := held.tables.built k f.body isBuilt
        have inLine : k ∈ (s.line seen).data := by
          rw [data]
          exact List.mem_append_left _ (List.mem_singleton_self k)
        have sameChannel : k % 2 = s.accepted.length % 2 := by
          have bits := built.channel
          rw [body_bits f (by decide), channel, held.chn] at bits
          have values := congrArg BitVec.toNat bits
          rw [BitVec.toNat_ofNat, BitVec.toNat_ofNat] at values
          omega
        have sameBit : k / 2 % 2 = s.accepted.length / 2 % 2 := by
          have bits := built.evnodd
          rw [body_bits f (by decide)] at bits
          have small := s.chn.isLt
          have chn := held.chn
          rw [held.ack s.chn] at evnodd
          unfold ackBit at evnodd
          have equal := decide_eq_decide.mp evnodd
          have both := bits.symm.trans equal
          omega
        have number : k = s.accepted.length := by
          refine held.ordered.expected inLine ?_
          show k % 4 = s.accepted.length % 4
          omega
        have accept := held.ordered.accept
          (by rw [data, number]; rfl)
        cases taken
        have length : (s.accepted ++ [f.body]).length = s.accepted.length + 1 := List.length_append
        refine { ignored with ordered := ?_, chn := ?_, ack := fun c => ?_, accepted := ?_ }
        · unfold line
          dsimp only
          rw [length]
          exact accept
        · rw [length]
          show (s.chn + 1).val = _
          rw [Fin.val_add, held.chn]
          show (s.accepted.length % 2 + 1) % 2 = _
          omega
        · rw [length, ackBit_succ, ← held.chn]
          show Function.update s.ack s.chn (!s.ack s.chn) c = _
          by_cases here : c = s.chn
          · rw [here, update_self, held.ack, if_pos rfl]
          · rw [update_of_ne here, held.ack, if_neg fun same => here (Fin.ext same)]
        · rw [number] at isBuilt
          obtain ⟨more, prolongs⟩ := held.accepted
          rw [← prolongs, List.getElem?_append_right (Nat.le_refl _), Nat.sub_self] at isBuilt
          cases more with
          | nil => cases isBuilt
          | cons first more =>
            rw [← prolongs, ← Option.some.inj isBuilt]
            exact ⟨more, by rw [List.append_assoc]; rfl⟩
    next =>
      cases taken
      exact ignored

theorem Held.input : ({ s with vdh := s.vdh.impInput } : OutLine).Held seen := by
  unfold Vdh.impInput Vdh.impldrd
  split
  next => exact held
  next =>
    dsimp only
    split
    next => exact { held with tables := { held.tables with } }
    next => exact { held with tables := { held.tables with } }

end

theorem ackBits_on (w : BitVec 16) (ack : Chan → Bool) (c : Chan) :
    ackOn (w &&& ~~~vAckbits ||| ackBits ack) c = ack c := by
  rw [Vdh.ackOn_set, ackOn_bit]
  unfold ackBits
  rcases chan_cases c with rfl | rfl <;> cases ack 0 <;> cases ack 1 <;> rfl

theorem Held.reply (held : s.Held seen) (r : Receipt) :
    ({ s with back := s.back ++ [(r.told s.ack, s.accepted.length)] } : OutLine).Held seen := by
  refine { held with ordered := ?_, told := ?_ }
  · unfold line
    dsimp only
    rw [List.map_append]
    exact held.ordered.tell
  · intro q a sent p beyond short isPacket c
    rcases List.mem_append.mp sent with earlier | now
    · exact held.told q a earlier p beyond short isPacket c
    · obtain ⟨isReply, number⟩ := Prod.mk.inj (List.mem_singleton.mp now)
      rw [number, ← held.ack c]
      rw [isReply] at isPacket
      cases r with
      | error => cases isPacket
      | null => cases isPacket
      | packet q _ _ =>
        cases isPacket
        exact ackBits_on q.ctl s.ack c

theorem Held.loseOut (held : s.Held seen) (i : Nat) :
    ({ s with out := s.out.eraseIdx i } : OutLine).Held seen := by
  have fewer : (s.out.eraseIdx i ++ s.transmitted).Sublist (s.out ++ s.transmitted) :=
    (List.eraseIdx_sublist s.out i).append (List.Sublist.refl _)
  exact { held with
    ordered := held.ordered.loseData (fewer.filterMap Prod.snd)
    special := fun f sent => held.special f ((List.eraseIdx_sublist s.out i).subset sent)
    frames := fun f k sent => held.frames f k ((List.eraseIdx_sublist s.out i).subset sent) }

theorem Held.loseBack (held : s.Held seen) (i : Nat) :
    ({ s with back := s.back.eraseIdx i } : OutLine).Held seen :=
  { held with
    ordered := held.ordered.loseAcks ((List.eraseIdx_sublist s.back i).map Prod.snd)
    told := fun r a sent => held.told r a ((List.eraseIdx_sublist s.back i).subset sent) }

theorem Held.step (held : s.Held seen) {e : OutEvent} {next : OutLine} (taken : s.step e = some next) :
    ∃ now, next.Held now := by
  cases e with
  | output m =>
    cases taken
    exact ⟨seen, held.output m⟩
  | oint timer eot =>
    cases taken
    exact ⟨seen, held.oint timer eot⟩
  | iint count =>
    cases taken
    exact held.iint count
  | input =>
    cases taken
    exact ⟨seen, held.input⟩
  | deliver => exact ⟨seen, held.deliver taken⟩
  | reply r =>
    cases taken
    exact ⟨seen, held.reply r⟩
  | loseOut i =>
    cases taken
    exact ⟨seen, held.loseOut i⟩
  | loseBack i =>
    cases taken
    exact ⟨seen, held.loseBack i⟩

theorem Fresh.held (fresh : s.Fresh) : s.Held 0 := by
  have noPackets : s.transmitted = [] := by
    unfold transmitted
    rw [fresh.sending]
    rfl
  have tables : Tables s.vdh 0 := {
    low := Nat.zero_le _
    window := by
      rw [fresh.opaks]
      decide
    fillAt := by
      rw [fresh.fillAt, fresh.opaks]
      rfl
    house := fun c => by
      rw [fresh.house c, fresh.opaks]
      exact ⟨fun nonneg => absurd nonneg (by decide), fun ⟨k, _, isBuilt, _⟩ => absurd isBuilt (by simp)⟩
    built := fun k p isBuilt => by
      rw [fresh.opaks] at isBuilt
      cases isBuilt
    bufs := fun c k _ isBuilt => by
      rw [fresh.opaks] at isBuilt
      exact absurd isBuilt (Nat.not_lt_zero k)
    acks := fun c => by
      rw [fresh.prvictl]
      rcases chan_cases c with rfl | rfl <;> decide
    oack := by
      rw [fresh.oack]
      decide
    busy := by
      rw [fresh.idle, fresh.sending]
      rfl
    special := fun f sending => by
      rw [fresh.sending] at sending
      cases sending
    sent := fun f c sending => by
      rw [fresh.sending] at sending
      cases sending }
  refine ⟨tables, ?_, ?_, ?_, ?_, ?_, ?_, ?_⟩
  · unfold line
    rw [fresh.opaks, fresh.accepted, fresh.out, fresh.back, noPackets]
    exact ⟨by simp, Nat.le_refl 0, by simp, by simp, by simp⟩
  · intro f sent
    rw [fresh.out] at sent
    cases sent
  · intro f k sent
    rw [fresh.out] at sent
    cases sent
  · intro r a sent
    rw [fresh.back] at sent
    cases sent
  · rw [fresh.chn, fresh.accepted]
    rfl
  · intro c
    rw [fresh.ack c, fresh.accepted]
    rcases chan_cases c with rfl | rfl <;> decide
  · rw [fresh.accepted]
    exact List.nil_prefix

/-- The output is delivered once and in order. From any state in which both sides have been reset,
in any sequence of messages, interrupts with any reports, answers and losses, what the imp has
accepted is a prefix of what the driver has built. A channel is free only when all packets built in
it have been accepted, at most two packets have not been, and the packet that is transmitted still
stands in its buffer. -/
theorem output_once {first : OutLine} {history : List OutEvent} (fresh : first.Fresh)
    (run : Transition.Run (Transition.Takes step) first history s) :
    s.accepted <+: s.vdh.opaks ∧
      (∀ c k, s.vdh.vdhouse c < 0 → k < s.vdh.opaks.length → k % nchns = c.val →
        k < s.accepted.length) ∧
      s.vdh.opaks.length ≤ s.accepted.length + nchns ∧
      ∀ f c, s.vdh.sending = some (f, some c) → s.vdh.vdhobuf c = f := by
  obtain ⟨seen, held⟩ : ∃ seen, s.Held seen :=
    run.always (fun s => ∃ seen, s.Held seen) ⟨0, fresh.held⟩
      fun _ _ _ ⟨_, held⟩ taken => held.step taken
  have known : seen ≤ s.accepted.length := held.ordered.seen_le
  have window := held.tables.window
  refine ⟨held.accepted, fun c k free isBuilt channel => ?_, ?_, fun f c sending =>
    (held.tables.sent f c sending).1⟩
  · by_contra unaccepted
    have used := (held.tables.house c).mpr ⟨k, by omega, isBuilt, channel⟩
    omega
  · show s.vdh.opaks.length ≤ s.accepted.length + 2
    omega

theorem impInit_fresh (v : Vdh) :
    (⟨v.impInit, [], [], 0, fun _ => false, []⟩ : OutLine).Fresh :=
  ⟨fun _ => rfl, rfl, rfl, rfl, rfl, rfl, rfl, rfl, rfl, rfl, fun _ => rfl, rfl⟩

/-- A line that has just come up. -/
def cameUp : OutLine :=
  ⟨{ Vdh.static.impInit with trying := true, up := true }, [], [], 0, fun _ => false, []⟩

/-- A message is queued behind the first ones; two packets are sent, the first one twice, and
acknowledged. -/
def twoPackets : List OutEvent :=
  [.output ⟨(0, 1), [2]⟩, .oint none true, .oint none true, .deliver, .deliver,
    .reply (.packet ⟨0, []⟩ 0 false), .iint 1]

theorem output_once_two : (Transition.last step cameUp twoPackets).accepted <+:
    (Transition.last step cameUp twoPackets).vdh.opaks :=
  (output_once ⟨fun _ => rfl, rfl, rfl, rfl, rfl, rfl, rfl, rfl, rfl, rfl, fun _ => rfl, rfl⟩
    (Transition.run_all (by decide +kernel))).1

example : (Transition.last step cameUp twoPackets).accepted.length = 2 ∧
    (Transition.last step cameUp twoPackets).vdh.opaks.length = 4 := by decide +kernel

end OutLine

end NetworkUnix.Ncpk
