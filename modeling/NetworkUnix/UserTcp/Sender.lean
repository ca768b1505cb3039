/-
This file proves what holds of the send side of a connection over every run: the sequence
numbers are in order, the ring holds the bytes of the user that are not acknowledged, and
the indices of the ring are the positions that belong to the sequence numbers. A SYN and
a FIN take a number and no byte; a reset in SYNSENT may leave the indices behind the
numbers, so the positions are counted with a lag that only such a reset changes.
-/

import NetworkUnix.Lib.Run
import NetworkUnix.Lib.Serial
import NetworkUnix.UserTcp.Reading

namespace NetworkUnix.UserTcp

open Circular

/-! ### Sequence numbers as positions -/

/-- The sequence number of a position, counted from the initial one. -/
def num (position : Nat) : Seq := BitVec.ofNat 32 position

theorem num_add (a b : Nat) : num a + num b = num (a + b) :=
  (BitVec.ofNat_add a b).symm

theorem num_eq_point (position : Nat) : num position = Serial.point 0 position := by
  unfold num Serial.point
  rw [BitVec.ofInt_natCast]
  exact (BitVec.zero_add _).symm

variable {a b : Nat}

theorem num_sub_toInt (above : a < b + 2 ^ 31) (below : b < a + 2 ^ 31) :
    (num a - num b).toInt = a - b := by
  rw [num_eq_point, num_eq_point]
  exact Serial.diff_point 0 a b (by omega) (by omega)

theorem num_inj (same : num a = num b) (above : a < b + 2 ^ 32) (below : b < a + 2 ^ 32) :
    a = b := by
  rw [num_eq_point, num_eq_point] at same
  have := Serial.point_inj 0 same (by omega) (by omega)
  omega

theorem ulCompare_num (above : a < b + 2 ^ 31) (below : b < a + 2 ^ 31) :
    ulCompare (num a) (num b) = if a = b then 0 else if a < b then 2 else 1 := by
  unfold ulCompare
  rw [num_sub_toInt above below]
  by_cases same : a = b
  · rw [if_pos (congrArg num same), if_pos same]
  · rw [if_neg fun equal => same (num_inj equal (by omega) (by omega)), if_neg same]
    by_cases less : a < b
    · rw [if_pos (by omega), if_pos less]
    · rw [if_neg (by omega), if_neg less]

theorem ulCompare_max (above : a < b + 2 ^ 31) (below : b < a + 2 ^ 31) :
    (if ulCompare (num a) (num b) = 1 then num a else num b) = num (max b a) := by
  rw [ulCompare_num above below]
  by_cases ahead : b < a
  · rw [if_neg (show ¬a = b by omega), if_neg (show ¬a < b by omega), if_pos rfl,
      show max b a = a by omega]
  · rw [show max b a = b by omega, if_neg]
    by_cases same : a = b
    · rw [if_pos same]
      decide
    · rw [if_neg same, if_pos (show a < b by omega)]
      decide

theorem num_turn (position : Nat) : num (position + 2 ^ 32) = num position := by
  rw [← num_add, show num (2 ^ 32) = 0 by decide]
  exact BitVec.add_zero _

theorem ackRange_num {t : Tcb} {l m : Nat} {ack : Seq} (left : t.leftSeq = num l)
    (max : t.maxSend = num m) (ordered : l ≤ m) (near : m < l + 2 ^ 31)
    (range : t.ackRange ack = true) (notHalf : ack ≠ t.leftSeq + num (2 ^ 31)) :
    ∃ k, ack = num k ∧ l < k ∧ k ≤ m := by
  have shape : ack = num (l + (ack - num l).toNat) := by
    rw [← num_add]
    unfold num
    rw [BitVec.ofNat_toNat, BitVec.setWidth_eq, BitVec.add_comm, BitVec.sub_add_cancel]
  have bound := (ack - num l).isLt
  generalize (ack - num l).toNat = distance at shape bound
  unfold Tcb.ackRange at range
  rw [decide_eq_true_eq, left, max, shape] at range
  obtain ⟨above, below⟩ := range
  have notZero : distance ≠ 0 := by
    rintro rfl
    rw [Nat.add_zero, ulCompare_num (by omega) (by omega), if_pos rfl] at above
    omega
  have half : distance ≠ 2 ^ 31 := by
    rintro rfl
    exact notHalf (by rw [shape, left, num_add])
  by_cases far : 2 ^ 31 < distance
  · rw [← num_turn l, ulCompare_num (by omega) (by omega), if_neg (by omega),
      if_neg (by omega)] at above
    omega
  · rw [ulCompare_num (by omega) (by omega)] at below
    refine ⟨l + distance, shape, by omega, ?_⟩
    by_contra beyond
    rw [if_neg (by omega), if_neg (by omega)] at below
    exact below rfl

/-! ### The invariant -/

/-- The user has closed, and all that he wrote is read. -/
def Conn.AllRead (c : Conn) : Prop :=
  c.tcb.flags.sendfin = true ∧ c.taken.length = c.written.length

/-- What else is asked of the bytes written, the bytes in the ring, the bytes in the port, the
segments sent, and the position of MaxSend. -/
abbrev Kept : Type := List Byte → List Taken → List Byte → List Sent → Nat → Prop

/-- The send side: `l`, `s` and `m` are the positions of LeftSeq, SendSeq and MaxSend; `x` and `y`
are the lags of the first and the middle index. -/
structure Sender (kept : Kept) (c : Conn) (l s m x y : Nat) : Prop where
  isn : c.tcb.sndISN = 0
  left : c.tcb.leftSeq = num l
  send : c.tcb.sendSeq = num s
  highest : c.tcb.maxSend = num m
  acked : l ≤ s
  sent : s ≤ m
  lag : x ≤ y
  stored : c.tcb.Stored c.taken (min (l - 1) c.taken.length + x) (min (s - 1) c.taken.length + y)
  reach : min (m - 1) c.taken.length + x ≤ c.taken.length
  top : m ≤ c.taken.length + 1 ∨ m = c.taken.length + 2 ∧ c.AllRead
  framed : c.Framed
  total : c.taken.length + c.pending.length ≤ c.written.length
  small : c.written.length + 2 < 2 ^ 32
  noSyn : c.tcb.tcpFlags.syn = false
  noFin : c.tcb.tcpFlags.fin = false
  close : c.tcb.flags.sendfin = true → c.tcb.sndFSN = num (c.written.length + 1)
  begun : c.tcb.state = .opened ∨ c.tcb.state = .synsent → c.tcb.flags.sendfin = false
  fresh : c.tcb.state = .opened → m = 0
  heard : c.tcb.state = .estab ∨ c.tcb.state = .closewait → 1 ≤ l
  early : c.tcb.state = .synrecd ∨ c.tcb.state = .estab ∨ c.tcb.state = .closewait →
    m ≤ c.taken.length + 1
  late : c.tcb.state = .finwait ∨ c.tcb.state = .closing → m = c.taken.length + 2
  keep : kept c.written c.taken c.pending c.netOut m

/-- What the send side asks of an event. The user writes no empty message, writes nothing once he
has closed, and closes behind all that he wrote; the numbers do not come round. A segment
acknowledges nothing half the range ahead; while the SYN is unacknowledged nothing is acknowledged
once the FIN is sent; and no reset comes in SYNRECD after the user has closed. -/
def SendCond (p : Params) (c : Conn) : Event → Prop
  | .text bytes => bytes ≠ [] ∧ c.written.length + bytes.length + 2 < 2 ^ 32 ∧
      c.tcb.flags.sendfin = false
  | .oclose finNum => finNum = num c.written.length
  | .psipIn seg _ => c.tcb.found p seg = true →
      (seg.control.ack = true → seg.ackNo ≠ c.tcb.leftSeq + num (2 ^ 31)) ∧
      (c.tcb.state = .finwait ∨ c.tcb.state = .closing → c.tcb.leftSeq = c.tcb.sndISN →
        c.ackOk seg = false) ∧
      (c.tcb.state = .synrecd → seg.control.rst = true → c.tcb.flags.sendfin = false)
  | _ => True

namespace Sender

variable {kept : Kept} {p : Params} {c : Conn} {l s m x y : Nat}

theorem near (held : Sender kept c l s m x y) : m ≤ l + 258 := by
  have := held.stored.room
  have := held.stored.acked
  have := held.reach
  rcases held.top with top | ⟨top, _⟩
  · omega
  · omega

theorem opened {free : Tcb} {mode : Int} {foreign : Skt} {port : Int} (keep : kept [] [] [] [] 0) :
    Sender kept (openConn p free mode foreign port) 0 0 0 0 0 where
  isn := rfl
  left := rfl
  send := rfl
  highest := rfl
  acked := Nat.le_refl 0
  sent := Nat.le_refl 0
  lag := Nat.le_refl 0
  stored := ⟨rfl, rfl, rfl, Nat.le_refl 0, Nat.le_refl 0, Nat.zero_le _, Holds.empty _ _ (Nat.le_refl 0)⟩
  reach := Nat.le_refl 0
  top := .inl (Nat.zero_le _)
  framed := .control (show (0 : BitVec 16) &&& 0o17 = 0 by decide) rfl
  total := Nat.le_refl 0
  small := show 0 + 2 < 2 ^ 32 by decide
  noSyn := rfl
  noFin := rfl
  close := fun closed => absurd closed Bool.false_ne_true
  begun := fun _ => rfl
  fresh := fun _ => rfl
  heard := by rintro (state | state) <;> cases state
  early := fun _ => Nat.zero_le _
  late := by rintro (state | state) <;> cases state
  keep := keep

/-! ### The user -/

theorem portWrite_some (port : List PortMessage) {bytes : List Byte} (some : bytes ≠ []) :
    portWrite port bytes = port ++ [PortMessage.mk true bytes some] := by
  unfold portWrite
  rw [dif_pos some]

variable {message : PortMessage} {c' : Conn} {k : Nat} {seg : Segment}

theorem paired_append {owed data next : Bool} {port : List PortMessage}
    (paired : Paired owed data port) (fits : Paired next owed [message]) :
    Paired next data (port ++ [message]) ∧
      portText data (port ++ [message]) = portText data port ++ portText owed [message] := by
  induction port generalizing data with
  | nil =>
    obtain rfl : owed = data := paired
    cases owed <;> exact ⟨fits, rfl⟩
  | cons first rest inductionHypothesis =>
    cases data with
    | false =>
      obtain ⟨next, text⟩ := inductionHypothesis paired.2.2
      exact ⟨⟨paired.1, paired.2.1, next⟩, text⟩
    | true =>
      obtain ⟨next, text⟩ := inductionHypothesis paired.2
      refine ⟨⟨paired.1, next⟩, ?_⟩
      show first.text ++ portText false (rest ++ [message]) = _
      rw [text, ← List.append_assoc]
      rfl

theorem framed_append (framed : c.Framed) (port : c'.sendPort = c.sendPort ++ [message])
    (tcb : c'.tcb = c.tcb) (fits : Paired c'.owed c.owed [message]) : c'.Framed := by
  cases framed with
  | control stage before =>
    exact .control (by rw [tcb]; exact stage) (by rw [port]; exact (paired_append before fits).1)
  | header stage before =>
    exact .header (by rw [tcb]; exact stage) (by rw [port]; exact (paired_append before fits).1)
  | text stage first rest port' header left before =>
    exact .text (by rw [tcb]; exact stage) first (rest ++ [message]) (by rw [port, port']; rfl) header
      (by rw [tcb]; exact left) (paired_append before fits).1

theorem pending_append (framed : c.Framed) (port : c'.sendPort = c.sendPort ++ [message])
    (tcb : c'.tcb = c.tcb) (fits : Paired c'.owed c.owed [message]) :
    c'.pending = c.pending ++ portText c.owed [message] := by
  unfold Conn.pending
  rw [tcb, port]
  cases framed with
  | control stage before =>
    rw [show c.tcb.stage = 0 from stage, show decide ((0 : BitVec 16) ≠ 0) = false by decide]
    exact (paired_append before fits).2
  | header stage before =>
    rw [show c.tcb.stage = 1 from stage, show decide ((1 : BitVec 16) ≠ 0) = true by decide]
    exact (paired_append before fits).2
  | text stage first rest port' header left before =>
    rw [show c.tcb.stage = 2 from stage, show decide ((2 : BitVec 16) ≠ 0) = true by decide, port']
    show first.text ++ portText false (rest ++ [message]) = first.text ++ portText false rest ++ _
    rw [(paired_append before fits).2, List.append_assoc]

section

variable (held : Sender kept c l s m x y)
include held

theorem control (idle : c.owed = false) (secur flags : Byte)
    (count : BitVec 16) : Sender kept (c.control secur flags count) l s m x y ∧
      (c.control secur flags count).pending = c.pending := by
  have port : (c.control secur flags count).sendPort = c.sendPort ++ [PortMessage.mk true
      [secur, flags, count.setWidth 8, (count >>> 8).setWidth 8] (List.cons_ne_nil _ _)] :=
    portWrite_some c.sendPort (List.cons_ne_nil _ _)
  have fits : Paired true c.owed [PortMessage.mk true
      [secur, flags, count.setWidth 8, (count >>> 8).setWidth 8] (List.cons_ne_nil _ _)] :=
    idle ▸ ⟨rfl, rfl, rfl⟩
  have pending : (c.control secur flags count).pending = c.pending :=
    (pending_append held.framed port rfl fits).trans
      (by rw [idle, portText, portText, List.append_nil])
  refine ⟨{ held with
    framed := framed_append held.framed port rfl fits
    total := ?_
    keep := ?_ }, pending⟩
  · rw [pending]
    exact held.total
  · rw [pending]
    exact held.keep

theorem text (owes : c.owed = true) {bytes : List Byte}
    (cond : SendCond p c (.text bytes))
    (keep : kept (c.written ++ bytes) c.taken (c.pending ++ bytes) c.netOut m) : Sender kept (c.text bytes) l s m x y ∧
      (c.text bytes).pending = c.pending ++ bytes := by
  obtain ⟨some, small, unclosed⟩ := cond
  have port : (c.text bytes).sendPort = c.sendPort ++ [PortMessage.mk true bytes some] :=
    portWrite_some c.sendPort some
  have fits : Paired false c.owed [PortMessage.mk true bytes some] := by
    rw [owes]
    exact ⟨rfl, rfl⟩
  have pending : (c.text bytes).pending = c.pending ++ bytes :=
    (pending_append held.framed port rfl fits).trans
      (by rw [owes, portText, portText, List.append_nil])
  have length : (c.text bytes).written.length = c.written.length + bytes.length :=
    List.length_append
  refine ⟨{ held with
    framed := framed_append held.framed port rfl fits
    top := ?_
    total := ?_
    small := by rw [length]; exact small
    close := fun closed => absurd (unclosed.symm.trans closed) Bool.false_ne_true
    keep := by rw [pending]; exact keep }, pending⟩
  · rcases held.top with top | ⟨_, closed, _⟩
    · exact .inl top
    · exact absurd (unclosed.symm.trans closed) Bool.false_ne_true
  · have := held.total
    rw [pending, length, List.length_append]
    show c.taken.length + _ ≤ _
    omega

theorem enter_closed : Sender kept (c.enter .closed) l s m x y :=
  { held with
    begun := by rintro (state | state) <;> cases state
    fresh := fun state => by cases state
    heard := by rintro (state | state) <;> cases state
    early := by rintro (state | state | state) <;> cases state
    late := by rintro (state | state) <;> cases state }

theorem closes {finNum : Seq}
    (cond : SendCond p c (.oclose finNum))
    (state : c.tcb.state = .synrecd ∨ c.tcb.state = .estab ∨ c.tcb.state = .closewait) :
    Sender kept { c with tcb := { c.tcb with
      flags := { c.tcb.flags with sendfin := true }
      sndFSN := c.tcb.sndISN + finNum + 1 } } l s m x y := by
  have behind : finNum = num c.written.length := cond
  refine { held with
    top := .inl (held.early state)
    close := fun _ => ?_
    begun := fun started => ?_ }
  · show c.tcb.sndISN + finNum + 1 = num (c.written.length + 1)
    rw [held.isn, behind, show (0 : Seq) = num 0 from rfl, show (1 : Seq) = num 1 from rfl, num_add,
      num_add, Nat.zero_add]
  · have started : c.tcb.state = .opened ∨ c.tcb.state = .synsent := started
    rcases started with started | started <;> rw [started] at state <;>
      rcases state with state | state | state <;> cases state

theorem oclose {finNum : Seq}
    (cond : SendCond p c (.oclose finNum)) : Sender kept (c.oclose finNum) l s m x y := by
  unfold Conn.oclose
  split
  next => exact { held.enter_closed with }
  next => exact { held.enter_closed with }
  next state => exact { held.closes cond (.inl state) with }
  next state => exact { held.closes cond (.inr (.inl state)) with }
  next state => exact { held.closes cond (.inr (.inr state)) with }
  next => exact { held with }

theorem oabort : Sender kept c.oabort l s m x y := by
  unfold Conn.oabort
  split
  next => exact { held with }
  next => exact { held with }
  next => exact { held with }
  next => exact { held with }

theorem ourgent (byteNo : Seq) :
    Sender kept (c.ourgent byteNo) l s m x y := by
  unfold Conn.ourgent
  dsimp only
  split
  · exact { held with }
  · split
    · exact { held with }
    · exact { held with }

/-! ### The main loop -/

theorem retran (p : Params) : Sender kept (c.retran p) l l m x x := by
  have stored : Stored c.tcb.dataHd c.tcb.dataHd c.tcb.dataTl c.tcb.retranBuff c.taken
      (min (l - 1) c.taken.length + x) (min (l - 1) c.taken.length + x) :=
    { held.stored with
      nxt := held.stored.hd
      acked := Nat.le_refl _
      sent := Nat.le_trans held.stored.acked held.stored.sent }
  unfold Conn.retran
  dsimp only
  split
  · exact { held with
      send := held.left
      acked := Nat.le_refl l
      sent := Nat.le_trans held.acked held.sent
      lag := Nat.le_refl x
      stored := stored }
  · exact { held with
      send := held.left
      acked := Nat.le_refl l
      sent := Nat.le_trans held.acked held.sent
      lag := Nat.le_refl x
      stored := stored }

/-! ### The port from the user -/

theorem fills {new : List Taken} (fills : c.Fills c')
    (stored : c'.tcb.Stored c'.taken (min (l - 1) c.taken.length + x)
      (min (s - 1) c.taken.length + y)) (framed : c'.Framed) (taken : c'.taken = c.taken ++ new)
    (fewer : new.length + c'.pending.length ≤ c.pending.length)
    (keep : kept c.written c'.taken c'.pending c.netOut m) : Sender kept c' l s m x y := by
  obtain ⟨_, _, _, _, _, _, _, _, _, _, rfl⟩ := fills
  have length := congrArg List.length taken
  rw [List.length_append] at length
  have total := held.total
  have acked := held.acked
  have sent := held.sent
  have positions : min (l - 1) c.taken.length = min (l - 1) (c.taken.length + new.length) ∧
      min (s - 1) c.taken.length = min (s - 1) (c.taken.length + new.length) ∧
      min (m - 1) c.taken.length = min (m - 1) (c.taken.length + new.length) ∧
      (m = c.taken.length + 2 → new.length = 0) := by
    rcases held.top with top | ⟨top, _, all⟩
    · omega
    · omega
  obtain ⟨leftPosition, sendPosition, maxPosition, none⟩ := positions
  rw [← length] at leftPosition sendPosition maxPosition
  rw [leftPosition, sendPosition] at stored
  refine { held with
    stored := stored
    reach := ?_
    top := ?_
    framed := framed
    total := ?_
    early := fun state => ?_
    late := fun state => ?_
    keep := keep }
  · have := held.reach
    omega
  · rcases held.top with top | ⟨top, closed, all⟩
    · exact .inl (by omega)
    · have none := none top
      have all : c.taken.length + new.length = c.written.length := by omega
      exact .inr ⟨by omega, closed, length.trans all⟩
  · show _ ≤ c.written.length
    omega
  · have := held.early state
    omega
  · have := held.late state
    have := none this
    omega

/-! ### `PsipOut` -/

theorem begun_stored : c.tcb.begun.Stored c.taken
    (min (l - 1) c.taken.length + x) (min (s - 1) c.taken.length + y) := by
  obtain ⟨_, _, begun⟩ := c.tcb.begun_eq
  rw [begun]
  exact held.stored

theorem outText (p : Params) :
    c.tcb.begun.dataText p =
        ((c.taken.drop (min (s - 1) c.taken.length + y)).take
          (c.tcb.begun.dataText p).length).map Taken.byte ∧
      min (s - 1) c.taken.length + y + (c.tcb.begun.dataText p).length ≤ c.taken.length :=
  held.begun_stored.dataText_eq p

theorem bound : m + 1 ≤ 2 ^ 32 := by
  have := held.small
  have := held.total
  rcases held.top with top | ⟨top, _, all⟩
  · omega
  · omega

theorem synDue_iff : c.tcb.synDue = true ↔ s = 0 := by
  have := held.bound
  have := held.sent
  unfold Tcb.synDue
  rw [decide_eq_true_eq, held.send, held.isn]
  refine ⟨fun same => num_inj (b := 0) same (by omega) (by omega), fun zero => ?_⟩
  rw [zero]
  rfl

theorem synDue_toNat : c.tcb.synDue.toNat = if s = 0 then 1 else 0 := by
  by_cases zero : s = 0
  · rw [if_pos zero, held.synDue_iff.mpr zero]
    rfl
  · rw [if_neg zero, Bool.eq_false_iff.mpr fun due => zero (held.synDue_iff.mp due)]
    rfl

theorem finDue_iff : c.tcb.finDue = true ↔
    c.tcb.flags.sendfin = true ∧ s + c.tcb.synDue.toNat = c.written.length + 1 := by
  have := held.bound
  have := held.sent
  have := held.small
  have := held.synDue_toNat
  unfold Tcb.finDue
  rw [Bool.and_eq_true, decide_eq_true_eq]
  refine and_congr_right fun closed => ?_
  rw [held.close closed, held.send, show BitVec.ofNat 32 c.tcb.synDue.toNat =
    num c.tcb.synDue.toNat from rfl, num_add]
  refine ⟨fun same => ?_, fun same => by rw [same]⟩
  exact (num_inj same (by split at this <;> omega) (by split at this <;> omega)).symm

theorem nextSeq_eq (p : Params) : c.tcb.nextSeq p =
    num (s + c.tcb.synDue.toNat + (c.tcb.begun.dataText p).length + c.tcb.finDue.toNat) := by
  unfold Tcb.nextSeq
  rw [held.send, show ∀ n, BitVec.ofNat 32 n = num n from fun _ => rfl, num_add]
  congr 1
  omega

theorem next_position {length syn fin next : Nat}
    (inside : min (s - 1) c.taken.length + y + length ≤ c.taken.length)
    (first : syn = if s = 0 then 1 else 0) (last : fin = 0 ∨ fin = 1 ∧
      c.tcb.flags.sendfin = true ∧ s + syn = c.written.length + 1)
    (sum : next = s + syn + length + fin) :
    min (s - 1) c.taken.length + length = min (next - 1) c.taken.length ∧
      (fin = 0 → s ≤ c.taken.length + 1 → next ≤ c.taken.length + 1) ∧
      (fin = 1 → next = c.taken.length + 2 ∧ c.AllRead) ∧
      (next ≤ m ∨ next ≤ c.taken.length + 1 ∨ next = c.taken.length + 2 ∧ c.AllRead) := by
  have total := held.total
  have sent := held.sent
  have reach := held.reach
  have cases : fin = 0 ∨ fin = 1 ∧ s + syn = c.written.length + 1 ∧ c.taken.length = c.written.length := by
    rcases last with none | ⟨some, _, behind⟩
    · exact .inl none
    · refine .inr ⟨some, behind, ?_⟩
      rcases held.top with top | ⟨top, _, all⟩
      · split at first <;> omega
      · exact all
  have closed : fin = 1 → c.tcb.flags.sendfin = true := by
    rcases last with none | ⟨_, closed, _⟩
    · exact fun some => absurd (none.symm.trans some) (by decide)
    · exact fun _ => closed
  have all : fin = 1 → c.AllRead := fun some => ⟨closed some, by
    rcases cases with none | ⟨_, _, all⟩
    · omega
    · exact all⟩
  split at first
  · refine ⟨?_, ?_, fun some => ⟨?_, all some⟩, ?_⟩
    · rcases cases with none | ⟨some, behind, same⟩ <;> omega
    · intro none _
      omega
    · rcases cases with none | ⟨_, behind, same⟩ <;> omega
    · rcases cases with none | ⟨some, behind, same⟩
      · exact .inr (.inl (by omega))
      · exact .inr (.inr ⟨by omega, all some⟩)
  · refine ⟨?_, ?_, fun some => ⟨?_, all some⟩, ?_⟩
    · rcases cases with none | ⟨some, behind, same⟩ <;> omega
    · intro none _
      omega
    · rcases cases with none | ⟨_, behind, same⟩ <;> omega
    · rcases cases with none | ⟨some, behind, same⟩
      · by_cases some : length = 0
        · exact .inl (by omega)
        · exact .inr (.inl (by omega))
      · exact .inr (.inr ⟨by omega, all some⟩)

end

theorem outState_cases (t : Tcb) :
    (t.outState = t.state ∧ (t.state = .opened → t.synDue = false) ∧
        (t.finDue = false ∨ t.state = .closed ∨ t.state = .opened ∨ t.state = .synsent ∨
          t.state = .finwait ∨ t.state = .closing)) ∨
      (t.state = .opened ∧ t.outState = .synsent) ∨
      (t.finDue = true ∧ (t.outState = .finwait ∨ t.outState = .closing)) := by
  unfold Tcb.outState Tcb.synState Tcb.finState
  cases t.finDue <;> cases t.synDue <;> cases t.state <;> simp

/-- A segment is sent. -/
theorem sends (held : Sender kept c l s m x y) (seq : Seq) (urgentPtr : BitVec 16) {text : List Byte}
    (copied : text = c.tcb.begun.dataText p) {netOut : List Sent}
    (keep : kept c.written c.taken c.pending netOut
      (max m (s + c.tcb.synDue.toNat + text.length + c.tcb.finDue.toNat))) : ∃ s',
    c.tcb.nextSeq p = num s' ∧ Sender kept
      { c with netOut, tcb := { c.tcb with
        seqNo := seq
        urgentPtr
        tcpFlags := {}
        flags := c.tcb.outFlags
        state := c.tcb.outState
        sendSeq := c.tcb.nextSeq p
        maxSend := if ulCompare (c.tcb.nextSeq p) c.tcb.maxSend = 1 then c.tcb.nextSeq p
          else c.tcb.maxSend
        dataNxt := (c.tcb.advance text.length).dataNxt } } l s' (max m s') x y := by
  obtain ⟨_, inside⟩ := held.outText p
  have seqNo := held.nextSeq_eq p
  have due := held.finDue_iff
  have first := held.synDue_toNat
  have near := held.near
  have sent := held.sent
  have acked := held.acked
  rw [← copied] at seqNo inside
  have last : c.tcb.finDue.toNat = 0 ∨ c.tcb.finDue.toNat = 1 ∧ c.tcb.flags.sendfin = true ∧
      s + c.tcb.synDue.toNat = c.written.length + 1 := by
    cases fin : c.tcb.finDue with
    | false => exact .inl rfl
    | true => exact .inr ⟨rfl, due.mp fin⟩
  generalize next : s + c.tcb.synDue.toNat + text.length + c.tcb.finDue.toNat = s' at seqNo keep
  obtain ⟨position, open_, closed, top⟩ := held.next_position inside first last next.symm
  have stored := held.stored.advance inside
  have room := held.stored.room
  have upper : s' ≤ s + 258 := by
    have := held.stored.acked
    rcases last with none | ⟨some, _⟩ <;> split at first <;> omega
  have lower : s ≤ s' := by omega
  refine ⟨s', seqNo, ?_⟩
  have highest : (if ulCompare (c.tcb.nextSeq p) c.tcb.maxSend = 1 then c.tcb.nextSeq p
      else c.tcb.maxSend) = num (max m s') := by
    rw [seqNo, held.highest]
    exact ulCompare_max (by omega) (by omega)
  refine { held with
    send := seqNo
    highest := highest
    acked := Nat.le_trans acked lower
    sent := Nat.le_max_right m s'
    stored := ?_
    reach := ?_
    top := ?_
    noSyn := rfl
    noFin := rfl
    begun := fun state => ?_
    fresh := fun state => ?_
    heard := fun state => ?_
    early := fun state => ?_
    late := fun state => ?_
    keep := keep }
  · rw [show min (s' - 1) c.taken.length + y =
      min (s - 1) c.taken.length + y + text.length by omega]
    exact stored
  · have := held.reach
    have := held.lag
    show min (max m s' - 1) c.taken.length + x ≤ c.taken.length
    omega
  · rcases top with small | small | large
    · rw [Nat.max_eq_left small]
      exact held.top
    · rcases held.top with before | ⟨before, all⟩
      · exact .inl (by show max m s' ≤ c.taken.length + 1; omega)
      · exact .inr ⟨by show max m s' = c.taken.length + 2; omega, all⟩
    · refine .inr ⟨?_, large.2⟩
      show max m s' = c.taken.length + 2
      rcases held.top with before | ⟨before, _⟩ <;> omega
  · have state : c.tcb.outState = .opened ∨ c.tcb.outState = .synsent := state
    refine held.begun ?_
    rcases outState_cases c.tcb with ⟨same, _⟩ | ⟨before, _⟩ | ⟨_, after⟩
    · rw [← same]
      exact state
    · exact .inl before
    · rcases after with after | after <;> rw [after] at state <;> rcases state with state | state <;>
        cases state
  · have state : c.tcb.outState = .opened := state
    rcases outState_cases c.tcb with ⟨same, notDue, _⟩ | ⟨_, after⟩ | ⟨_, after | after⟩
    · have before := same.symm.trans state
      have := held.fresh before
      have := held.synDue_iff.mpr (by omega)
      rw [notDue before] at this
      exact absurd this Bool.false_ne_true
    all_goals exact ConnState.noConfusion (state.symm.trans after)
  · have state : c.tcb.outState = .estab ∨ c.tcb.outState = .closewait := state
    refine held.heard ?_
    rcases outState_cases c.tcb with ⟨same, _⟩ | ⟨_, after⟩ | ⟨_, after | after⟩
    · rw [← same]
      exact state
    all_goals
      rw [after] at state
      rcases state with state | state <;> cases state
  · have state : c.tcb.outState = .synrecd ∨ c.tcb.outState = .estab ∨
      c.tcb.outState = .closewait := state
    show max m s' ≤ c.taken.length + 1
    rcases outState_cases c.tcb with ⟨same, _, noFin⟩ | ⟨_, after⟩ | ⟨_, after | after⟩
    · rw [same] at state
      have before := held.early state
      have none : c.tcb.finDue.toNat = 0 := by
        rcases noFin with noFin | others
        · rw [noFin]
          rfl
        · rcases state with state | state | state <;> rw [state] at others <;>
            rcases others with other | other | other | other | other <;> cases other
      have := open_ none (by omega)
      omega
    all_goals
      rw [after] at state
      rcases state with state | state | state <;> cases state
  · have state : c.tcb.outState = .finwait ∨ c.tcb.outState = .closing := state
    show max m s' = c.taken.length + 2
    rcases outState_cases c.tcb with ⟨same, _⟩ | ⟨_, after⟩ | ⟨due, _⟩
    · rw [same] at state
      have := held.late state
      rcases top with small | small | ⟨large, _⟩ <;> omega
    · rw [after] at state
      rcases state with state | state <;> cases state
    · have large := (closed (by rw [due]; rfl)).1
      rcases held.top with before | ⟨before, _⟩ <;> omega

theorem psipOut (held : Sender kept c l s m x y) {out : Conn × WorkRet}
    (did : Conn.Out p c out.1 out.2) (alive : (Conn.afterOut out).live = true)
    (keep : ∀ seg, seg.text = c.tcb.begun.dataText p → seg.seqNo = c.tcb.sendSeq →
      seg.control.syn = c.tcb.synDue → seg.control.fin = c.tcb.finDue →
      kept c.written c.taken c.pending (seg :: c.netOut)
        (max m (s + c.tcb.synDue.toNat + seg.text.length + c.tcb.finDue.toNat))) :
    ∃ s' m', Sender kept (Conn.afterOut out) l s' m' x y := by
  obtain ⟨after, ret⟩ := out
  have did : Conn.Out p c after ret := did
  cases did with
  | waits => exact ⟨s, m, held⟩
  | mute nomoseg => exact ⟨s, m, { held with }⟩
  | quiet sending noSyn noFin noText noFlags urgentPtr =>
    refine ⟨s, m, ?_⟩
    by_cases some : 0 < c.tcb.remData
    · rw [if_pos some]
      exact { held with }
    · rw [if_neg some]
      exact { held with }
  | sends sending seg urgentPtr partWr text seqNo ackNo syn fin rst level live =>
    obtain ⟨s', _, sent⟩ := held.sends c.tcb.sendSeq urgentPtr text (keep seg text seqNo syn fin)
    refine ⟨s', max m s', ?_⟩
    generalize (if (!c.tcb.begun.beyond && decide (0 < c.tcb.remData - seg.text.length)) = true
      then WorkRet.requeue else if partWr = true then WorkRet.keep else WorkRet.remove) = ret at *
    cases ret with
    | remove => exact { sent with }
    | keep => exact { sent with }
    | requeue => exact { sent with }
    | abort => exact { sent with }
  | aborts seg t partWr text seqNo ackNo syn fin rst level => cases alive

/-! ### The acknowledgement -/

/-- The first index moves to the position of the acknowledgement. -/
theorem ackedHd_eq (held : Sender kept c l s m x y) (above : l < k) (below : k ≤ m)
    (open_ : c.tcb.state ≠ .closed)
    (begun : c.tcb.state = .finwait ∨ c.tcb.state = .closing → 1 ≤ l) :
    c.tcb.ackedHd (num k) = slot rbuffsize (min (k - 1) c.taken.length + x) := by
  have reach := held.reach
  have room := held.stored.room
  have passed : ∀ extra : Nat, min (k - 1) c.taken.length + extra + l =
      k + min (l - 1) c.taken.length →
        ∀ index : Int, index =
            slot rbuffsize (min (l - 1) c.taken.length + x) + (k - l : Nat) - extra →
          (if (rbuffsize : Int) ≤ index then index - rbuffsize else index) =
            slot rbuffsize (min (k - 1) c.taken.length + x) := by
    rintro extra counted index rfl
    have shape : slot rbuffsize (min (l - 1) c.taken.length + x) + (k - l : Nat) - extra =
        slot rbuffsize (min (l - 1) c.taken.length + x) +
          (min (k - 1) c.taken.length - min (l - 1) c.taken.length : Nat) := by
      omega
    rw [shape, slot_wrap (by omega)]
    congr 1
    omega
  have near := held.near
  have total := held.total
  have small := held.small
  have start := slot_nonneg rbuffsize (min (l - 1) c.taken.length + x)
  have below' := slot_lt rbuffsize_pos (min (l - 1) c.taken.length + x)
  have moved : short (c.tcb.dataHd + (num k - c.tcb.leftSeq).toInt) =
      slot rbuffsize (min (l - 1) c.taken.length + x) + (k - l : Nat) := by
    rw [held.left, num_sub_toInt (by omega) (by omega), held.stored.hd]
    unfold short
    rw [show (rbuffsize : Int) = 257 from rfl] at below'
    rw [Int.bmod_eq_of_le_mul_two (by omega) (by omega)]
    omega
  have first : c.tcb.leftSeq = c.tcb.sndISN ↔ l = 0 := by
    rw [held.left, held.isn]
    refine ⟨fun same => num_inj (b := 0) same (by have := held.bound; omega) (by omega), ?_⟩
    rintro rfl
    rfl
  have last : m = c.taken.length + 2 →
      (ulCompare (num k) c.tcb.sndFSN = 1 ↔ k = c.taken.length + 2) := by
    intro large
    have all : c.AllRead := by
      rcases held.top with top | ⟨_, all⟩
      · omega
      · exact all
    rw [held.close all.1, ← all.2, ulCompare_num (by omega) (by omega)]
    by_cases top : k = c.taken.length + 2
    · rw [if_neg (by omega), if_neg (by omega)]
      exact iff_of_true rfl top
    · refine iff_of_false ?_ top
      split
      · decide
      · rw [if_pos (by omega)]
        decide
  unfold Tcb.ackedHd
  dsimp only
  rw [moved]
  cases state : c.tcb.state with
  | closed => exact absurd state open_
  | opened =>
    have := held.fresh state
    omega
  | synrecd =>
    have := held.early (.inl state)
    by_cases zero : l = 0
    · exact passed 1 (by omega) _ (by rw [if_pos (first.mpr zero)]; rfl)
    · exact passed 0 (by omega) _ (by rw [if_neg (mt first.mp zero)]; simp)
  | synsent =>
    have := held.begun (.inr state)
    have : m ≤ c.taken.length + 1 := by
      rcases held.top with top | ⟨_, closed, _⟩
      · exact top
      · exact absurd (this.symm.trans closed) Bool.false_ne_true
    by_cases zero : l = 0
    · exact passed 1 (by omega) _ (by rw [if_pos (first.mpr zero)]; rfl)
    · exact passed 0 (by omega) _ (by rw [if_neg (mt first.mp zero)]; simp)
  | estab =>
    have := held.early (.inr (.inl state))
    have := held.heard (.inl state)
    exact passed 0 (by omega) _ (by simp)
  | closewait =>
    have := held.early (.inr (.inr state))
    have := held.heard (.inr state)
    exact passed 0 (by omega) _ (by simp)
  | finwait =>
    have large := held.late (.inl state)
    have := begun (.inl state)
    by_cases top : k = c.taken.length + 2
    · exact passed 1 (by omega) _ (by rw [if_pos ((last large).mpr top)]; rfl)
    · exact passed 0 (by omega) _ (by rw [if_neg (mt (last large).mp top)]; simp)
  | closing =>
    have large := held.late (.inr state)
    have := begun (.inr state)
    by_cases top : k = c.taken.length + 2
    · exact passed 1 (by omega) _ (by rw [if_pos ((last large).mpr top)]; rfl)
    · exact passed 0 (by omega) _ (by rw [if_neg (mt (last large).mp top)]; simp)

theorem ackData (held : Sender kept c l s m x y) (above : l < k) (below : k ≤ m)
    (open_ : c.tcb.state ≠ .closed)
    (begun : c.tcb.state = .finwait ∨ c.tcb.state = .closing → 1 ≤ l) :
    Sender kept { c with tcb := c.tcb.ackData (num k) } k (max s k) m x (if s < k then x else y) := by
  have first := held.ackedHd_eq above below open_ begun
  have near := held.near
  have acked := held.acked
  have sent := held.sent
  have reach := held.reach
  have ahead : ulCompare (num k) c.tcb.sendSeq = 1 ↔ s < k := by
    rw [held.send, ulCompare_num (by omega) (by omega)]
    split
    · exact iff_of_false (by decide) (by omega)
    · split
      · exact iff_of_false (by decide) (by omega)
      · exact iff_of_true rfl (by omega)
  refine { held with
    left := rfl
    send := ?_
    acked := Nat.le_max_right s k
    sent := by omega
    lag := ?_
    stored := ?_
    heard := fun _ => by omega }
  · show (if ulCompare (num k) c.tcb.sendSeq = 1 then num k else c.tcb.sendSeq) = num (max s k)
    by_cases behind : s < k
    · rw [if_pos (ahead.mpr behind), Nat.max_eq_right (by omega)]
    · rw [if_neg (mt ahead.mp behind), held.send, Nat.max_eq_left (by omega)]
  · split
    · exact Nat.le_refl x
    · exact held.lag
  · show UserTcp.Stored (c.tcb.ackedHd (num k))
      (if ulCompare (num k) c.tcb.sendSeq = 1 then c.tcb.ackedHd (num k) else c.tcb.dataNxt)
      c.tcb.dataTl c.tcb.retranBuff c.taken (min (k - 1) c.taken.length + x)
      (min (max s k - 1) c.taken.length + if s < k then x else y)
    by_cases behind : s < k
    · rw [if_pos (ahead.mpr behind), if_pos behind, Nat.max_eq_right (by omega)]
      exact held.stored.ack first first (by omega) (Nat.le_refl _) (by omega)
    · have lag := held.lag
      have upper := held.stored.sent
      rw [if_neg (mt ahead.mp behind), if_neg behind, Nat.max_eq_left (by omega)]
      exact held.stored.ack first held.stored.nxt (by omega) (by omega) upper

theorem ackedHd_closed {t : Tcb} (state : t.state = .closing) (ack : Seq) :
    ({ t with state := .closed } : Tcb).ackedHd ack = t.ackedHd ack := by
  unfold Tcb.ackedHd
  rw [state]

section

variable (held : Sender kept c l s m x y)
include held

theorem enter_estab (some : 1 ≤ l) (early : m ≤ c.taken.length + 1) :
    Sender kept (c.enter .estab) l s m x y :=
  { held with
    begun := by rintro (state | state) <;> cases state
    fresh := fun state => by cases state
    heard := fun _ => some
    early := fun _ => early
    late := by rintro (state | state) <;> cases state }

theorem ackWork (some : 1 ≤ l) (seg : Segment) :
    Sender kept (c.ackWork seg) l s m x y := by
  have estab : Sender kept (c.makeWrk.ackEstab seg) l s m x y := by
    unfold Conn.ackEstab
    split
    next state => exact { held.enter_estab some (held.early (.inl state)) with }
    next => exact { held with }
  unfold Conn.ackWork Conn.procBack
  generalize c.makeWrk.ackEstab seg = next at estab ⊢
  split
  · exact { estab with }
  · exact { estab with }

theorem goodAck (number : seg.ackNo = num k) (above : l < k)
    (below : k ≤ m) (open_ : c.tcb.state ≠ .closed)
    (begun : c.tcb.state = .finwait ∨ c.tcb.state = .closing → 1 ≤ l) :
    Sender kept (c.goodAck seg) k (max s k) m x (if s < k then x else y) := by
  have moved := held.ackData above below open_ begun
  have acked : Sender kept
      { c.allAcked seg.ackNo with tcb := (c.allAcked seg.ackNo).tcb.ackData seg.ackNo }
      k (max s k) m x (if s < k then x else y) := by
    rw [number]
    unfold Conn.allAcked
    split
    · split
      next closing =>
        have closed := moved.enter_closed
        exact { closed with
          stored := by
            have stored := closed.stored
            show UserTcp.Stored (({ c.tcb with state := .closed } : Tcb).ackedHd (num k))
              (if ulCompare (num k) c.tcb.sendSeq = 1 then
                ({ c.tcb with state := .closed } : Tcb).ackedHd (num k) else c.tcb.dataNxt)
              c.tcb.dataTl c.tcb.retranBuff c.taken _ _
            rw [ackedHd_closed closing]
            exact stored }
      next => exact { moved with }
    · exact { moved with }
  unfold Conn.goodAck
  dsimp only
  split
  · exact acked
  · exact acked.ackWork (by omega) seg

theorem badAck (seg : Segment) : Sender kept (c.badAck seg) l s m x y := by
  unfold Conn.badAck
  split
  · split
    · exact held
    · exact { held with }
  · split
    · exact held
    · exact { held with }
  · split
    · exact held
    · exact { held with }
  · split
    · exact held
    · exact { held with }
  · exact held

/-! ### The reset -/

theorem resetSent (state : c.tcb.state = .synsent)
    (keep : kept c.written c.taken c.pending c.netOut 0) (p : Params) :
    Sender kept (c.resetIn p) 0 0 0 (min (l - 1) c.taken.length + x)
      (min (s - 1) c.taken.length + y) := by
  have stored : UserTcp.Stored c.tcb.dataHd c.tcb.dataNxt c.tcb.dataTl c.tcb.retranBuff c.taken
      (min (0 - 1) c.taken.length + (min (l - 1) c.taken.length + x))
      (min (0 - 1) c.taken.length + (min (s - 1) c.taken.length + y)) := by
    rw [show min (0 - 1) c.taken.length = 0 by omega, Nat.zero_add, Nat.zero_add]
    exact held.stored
  have acked := held.stored.acked
  have sent := held.stored.sent
  have reach : min (0 - 1) c.taken.length + (min (l - 1) c.taken.length + x) ≤ c.taken.length := by
    omega
  unfold Conn.resetIn
  rw [state]
  dsimp only
  split <;> exact { held with
    left := held.isn
    send := held.isn
    highest := held.isn
    acked := Nat.le_refl 0
    sent := Nat.le_refl 0
    lag := acked
    stored := stored
    reach := reach
    top := .inl (Nat.zero_le _)
    fresh := fun _ => rfl
    heard := fun state' => by
      have state' : c.tcb.state = .estab ∨ c.tcb.state = .closewait := state'
      rw [state] at state'
      rcases state' with state' | state' <;> cases state'
    early := fun _ => Nat.zero_le _
    late := fun state' => by
      have state' : c.tcb.state = .finwait ∨ c.tcb.state = .closing := state'
      rw [state] at state'
      rcases state' with state' | state' <;> cases state'
    keep := keep }

theorem resetRecd (state : c.tcb.state = .synrecd)
    (unclosed : c.tcb.flags.sendfin = false) (keep : kept c.written [] c.pending c.netOut 0)
    (p : Params) : Sender kept (c.resetIn p) 0 0 0 0 0 := by
  unfold Conn.resetIn
  rw [state]
  dsimp only
  exact { held with
    left := held.isn
    send := held.isn
    highest := held.isn
    acked := Nat.le_refl 0
    sent := Nat.le_refl 0
    lag := Nat.le_refl 0
    stored := ⟨rfl, rfl, rfl, Nat.le_refl 0, Nat.le_refl 0, Nat.zero_le _,
      Holds.empty _ _ (Nat.le_refl 0)⟩
    reach := Nat.le_refl 0
    top := .inl (Nat.zero_le _)
    total := by
      have := held.total
      show 0 + c.pending.length ≤ c.written.length
      omega
    begun := fun _ => unclosed
    fresh := fun _ => rfl
    heard := by rintro (state | state) <;> cases state
    early := fun _ => Nat.zero_le _
    late := by rintro (state | state) <;> cases state
    keep := keep }

theorem resetOther (notSent : c.tcb.state ≠ .synsent)
    (notRecd : c.tcb.state ≠ .synrecd) (p : Params) : Sender kept (c.resetIn p) l s m x y := by
  unfold Conn.resetIn
  split
  next => exact held
  next => exact held
  next state => exact absurd state notSent
  next state => exact absurd state notRecd
  next => exact { held.enter_closed with }

/-! ### The states -/

theorem enter_synrecd (early : m ≤ c.taken.length + 1) :
    Sender kept { c with tcb := { c.tcb with state := .synrecd } } l s m x y :=
  { held with
    begun := by rintro (state | state) <;> cases state
    fresh := fun state => by cases state
    heard := by rintro (state | state) <;> cases state
    early := fun _ => early
    late := by rintro (state | state) <;> cases state }

theorem boostPrec (p : Params) (seg : Segment) :
    Sender kept (c.boostPrec p seg) l s m x y := by
  unfold Conn.boostPrec
  split
  · exact held
  · exact { held with }

end

theorem boostPrec_taken (p : Params) (c : Conn) (seg : Segment) :
    (c.boostPrec p seg).taken = c.taken := by
  unfold Conn.boostPrec
  split
  · rfl
  · rfl

section

variable (held : Sender kept c l s m x y)
include held

theorem bindSpt (p : Params) (seg : Segment) :
    Sender kept (c.bindSpt p seg) l s m x y := by
  unfold Conn.bindSpt
  split
  · exact { held with }
  · exact held

theorem openIn (state : c.tcb.state = .opened) (p : Params)
    (seg : Segment) : Sender kept (c.openIn p seg) l s m x y := by
  have fresh := held.fresh state
  have bound : Sender kept (c.bindSkt seg) l s m x y := { held with }
  have bound := (bound.boostPrec p seg).bindSpt p seg
  have noted : ∀ c : Conn,
      Sender kept { c with tcb := { c.tcb with state := .synrecd } } l s m x y →
      Sender kept (((c.ackSyn seg).noteISN seg).makeWrk.enter .synrecd) l s m x y :=
    fun c held => { held with }
  unfold Conn.openIn
  split
  · exact noted _ (bound.enter_synrecd (by omega))
  · exact held

theorem synsentIn (state : c.tcb.state = .synsent) (p : Params)
    (seg : Segment) {ackOk : Bool} (some : ackOk = true → 1 ≤ l) :
    Sender kept (c.synsentIn p seg ackOk) l s m x y := by
  have early : m ≤ c.taken.length + 1 := by
    rcases held.top with top | ⟨_, closed, _⟩
    · exact top
    · exact absurd ((held.begun (.inr state)).symm.trans closed) Bool.false_ne_true
  have noted : Sender kept (c.ackSyn seg) l s m x y := { held with }
  have boosted := noted.boostPrec p seg
  have taken := congrArg List.length (boostPrec_taken p (c.ackSyn seg) seg)
  unfold Conn.synsentIn Conn.synsentNext
  split
  · split
    next opens =>
      have positive : 1 ≤ l := by
        rcases opens with ok | above
        · exact some ok
        · by_contra zero
          rw [boosted.left, boosted.isn, show l = 0 by omega] at above
          exact absurd above (by decide)
      exact { boosted.enter_estab positive (by rw [taken]; exact early) with }
    next => exact { boosted.enter_synrecd (by rw [taken]; exact early) with }
  · exact held

theorem finTaken : Sender kept c.finTaken l s m x y := by
  unfold Conn.finTaken
  split
  next state =>
    have some := held.heard (.inl state)
    have early := held.early (.inr (.inl state))
    exact { held with
      begun := by rintro (state | state) <;> cases state
      fresh := fun state => by cases state
      heard := fun _ => some
      early := fun _ => early
      late := by rintro (state | state) <;> cases state }
  next state =>
    have late := held.late (.inl state)
    split
    · exact { held.enter_closed with }
    · exact { held with
        begun := by rintro (state | state) <;> cases state
        fresh := fun state => by cases state
        heard := by rintro (state | state) <;> cases state
        early := by rintro (state | state | state) <;> cases state
        late := fun _ => late }
  next => exact { held with }

theorem textIn (seg : Segment) (cap : Int) :
    Sender kept (c.textIn seg cap) l s m x y := by
  have taken : Sender kept (c.takeOctets seg) l s m x y := { held with }
  unfold Conn.textIn
  split
  · split
    · exact taken.finTaken
    · exact taken
  · exact held

theorem askAck : Sender kept c.askAck.makeWrk l s m x y := { held with }

theorem estabIn (p : Params) (seg : Segment) (cap : Int) :
    Sender kept (c.estabIn p seg cap) l s m x y := by
  have urgent : Sender kept (c.urgentIn seg) l s m x y := by
    unfold Conn.urgentIn
    dsimp only
    split
    · exact { held with }
    · exact held
  have offered : Sender kept ((c.urgentIn seg).offer p cap) l s m x y := { urgent with }
  have written := offered.textIn seg cap
  unfold Conn.estabIn
  split
  · exact written.askAck
  · exact urgent

theorem stateIn (p : Params) (seg : Segment) (cap : Int) {ackOk : Bool}
    (some : ackOk = true → 1 ≤ l) : Sender kept (c.stateIn p seg cap ackOk) l s m x y := by
  unfold Conn.stateIn
  split
  next state => exact held.openIn state p seg
  next => exact held
  next => exact held
  next state => exact held.synsentIn state p seg some
  next => exact held.estabIn p seg cap
  next => exact held.estabIn p seg cap
  next => exact held.estabIn p seg cap
  next => exact held.estabIn p seg cap

/-! ### `PsipIn` -/

theorem ackIn (seg : Segment) (open_ : c.tcb.state ≠ .closed)
    (half : seg.control.ack = true → seg.ackNo ≠ c.tcb.leftSeq + num (2 ^ 31))
    (late : c.tcb.state = .finwait ∨ c.tcb.state = .closing → c.tcb.leftSeq = c.tcb.sndISN →
      c.ackOk seg = false) :
    (c.ackOk seg = false ∧ Sender kept (c.ackIn seg) l s m x y) ∨
      ∃ k, c.ackOk seg = true ∧ seg.ackNo = num k ∧ l < k ∧ k ≤ m ∧
        Sender kept (c.ackIn seg) k (max s k) m x (if s < k then x else y) := by
  have near := held.near
  have ordered := Nat.le_trans held.acked held.sent
  unfold Conn.ackIn
  cases ack : seg.control.ack with
  | false =>
    rw [if_neg Bool.false_ne_true]
    exact .inl ⟨by rw [Conn.ackOk, ack, Bool.false_and], held⟩
  | true =>
    rw [if_pos rfl]
    cases range : c.tcb.ackRange seg.ackNo with
    | false =>
      rw [if_neg Bool.false_ne_true]
      exact .inl ⟨by rw [Conn.ackOk, range, Bool.and_false], held.badAck seg⟩
    | true =>
      have ok : c.ackOk seg = true := by rw [Conn.ackOk, ack, range, Bool.and_self]
      rw [if_pos rfl]
      obtain ⟨k, number, above, below⟩ :=
        ackRange_num held.left held.highest ordered (by omega) range (half ack)
      refine .inr ⟨k, ok, number, above, below, held.goodAck number above below open_ fun state => ?_⟩
      by_contra zero
      have first : c.tcb.leftSeq = c.tcb.sndISN := by
        rw [held.left, held.isn, show l = 0 by omega]
        rfl
      exact Bool.false_ne_true ((late state first).symm.trans ok)

end

theorem ackIn_reset (c : Conn) (rst : seg.control.rst = true) :
    ((c.ackIn seg).tcb.state = c.tcb.state ∨ (c.ackIn seg).tcb.state = .closed) ∧
      (c.ackIn seg).tcb.flags.sendfin = c.tcb.flags.sendfin := by
  unfold Conn.ackIn Conn.goodAck Conn.badAck Conn.allAcked
  split
  · split
    · dsimp only
      split
      · split
        · exact ⟨.inr rfl, rfl⟩
        · exact ⟨.inl rfl, rfl⟩
      · exact ⟨.inl rfl, rfl⟩
    · split <;> exact ⟨.inl rfl, rfl⟩
  · exact ⟨.inl rfl, rfl⟩

theorem psipIn (held : Sender kept c l s m x y) {cap : Int} (cond : SendCond p c (.psipIn seg cap))
    (cleared : c.tcb.found p seg = true → c.tcb.state = .synrecd → seg.control.rst = true →
      kept c.written [] c.pending c.netOut 0)
    (back : c.tcb.found p seg = true → c.tcb.state = .synsent → seg.control.rst = true →
      kept c.written c.taken c.pending c.netOut 0) :
    ∃ l' s' m' x' y', Sender kept (c.psipIn p seg cap) l' s' m' x' y' ∧
      (x = 0 → y = 0 → (c.tcb.found p seg = true → c.tcb.state = .synsent → seg.control.rst = true →
        s ≤ 1 ∧ (c.ackOk seg = true → seg.ackNo = num 1)) → x' = 0 ∧ y' = 0) := by
  unfold Conn.psipIn
  split
  next found =>
    obtain ⟨half, late, unclosed⟩ := cond found
    have open_ : c.tcb.state ≠ .closed := by
      unfold Tcb.found at found
      rw [Bool.and_eq_true, decide_eq_true_eq] at found
      exact found.2
    have back : Sender (fun written taken pending netOut m => kept written taken pending netOut m ∧
        (c.tcb.state = .synrecd → seg.control.rst = true → kept written [] pending netOut 0) ∧
        (c.tcb.state = .synsent → seg.control.rst = true → kept written taken pending netOut 0))
        c.hostBack l s m x y :=
      { held with keep := ⟨held.keep, cleared found, back found⟩ }
    have acked := back.ackIn seg open_ half late
    have reached : ∃ l' s' m' x' y', Sender (fun written taken pending netOut m =>
        kept written taken pending netOut m ∧
          (c.tcb.state = .synrecd → seg.control.rst = true → kept written [] pending netOut 0) ∧
          (c.tcb.state = .synsent → seg.control.rst = true → kept written taken pending netOut 0))
          (c.hostBack.ackIn seg) l' s' m' x' y' ∧
        (c.ackOk seg = true → 1 ≤ l') ∧ (x = 0 → y = 0 → x' = 0 ∧ y' = 0) ∧
        (s ≤ 1 → (c.ackOk seg = true → seg.ackNo = num 1) → l' ≤ 1 ∧ s' ≤ 1) := by
      have bound := held.bound
      have ordered := held.acked
      rcases acked with ⟨bad, same⟩ | ⟨k, ok, number, above, below, moved⟩
      · refine ⟨l, s, m, x, y, same, fun ok => ?_, fun first next => ⟨first, next⟩, fun few _ => by omega⟩
        exact absurd (bad.symm.trans ok) Bool.false_ne_true
      · refine ⟨k, _, m, x, _, moved, fun _ => by omega, fun first next => ?_, fun few one => ?_⟩
        · rw [first, next, ite_self]
          exact ⟨rfl, rfl⟩
        · have one := num_inj (number.symm.trans (one ok)) (by omega) (by omega)
          omega
    obtain ⟨l', s', m', x', y', reached, some, lags, few⟩ := reached
    obtain ⟨_, clear, back⟩ := reached.keep
    have reached : Sender kept (c.hostBack.ackIn seg) l' s' m' x' y' :=
      { reached with keep := reached.keep.1 }
    unfold Conn.receive
    split
    next rst =>
      obtain ⟨state, sendfin⟩ := ackIn_reset c.hostBack rst
      by_cases sent : (c.hostBack.ackIn seg).tcb.state = .synsent
      · have before : c.tcb.state = .synsent := by
          rcases state with state | state
          · exact state.symm.trans sent
          · exact ConnState.noConfusion (state.symm.trans sent)
        refine ⟨_, _, _, _, _, reached.resetSent sent (back before rst) p, fun first next cond => ?_⟩
        obtain ⟨small, one⟩ := cond found before rst
        obtain ⟨small, small'⟩ := few small one
        obtain ⟨first, next⟩ := lags first next
        omega
      · by_cases recd : (c.hostBack.ackIn seg).tcb.state = .synrecd
        · have before : c.tcb.state = .synrecd := by
            rcases state with state | state
            · exact state.symm.trans recd
            · exact ConnState.noConfusion (state.symm.trans recd)
          exact ⟨_, _, _, _, _, reached.resetRecd recd (sendfin.trans (unclosed before rst))
            (clear before rst) p, fun _ _ _ => ⟨rfl, rfl⟩⟩
        · exact ⟨_, _, _, _, _, reached.resetOther sent recd p, fun first next _ => lags first next⟩
    next =>
      have windowed : Sender kept ((c.hostBack.ackIn seg).windowIn seg) l' s' m' x' y' :=
        { reached with }
      exact ⟨_, _, _, _, _, windowed.stateIn p seg cap some, fun first next _ => lags first next⟩
  next notFound =>
    exact ⟨l, s, m, x, y, held, fun first next _ => ⟨first, next⟩⟩

/-! ### Every event -/

/-- What a reset in SYNSENT asks, if it is to leave no lag: no data byte is sent or acknowledged. -/
def NoLag (p : Params) (c : Conn) : Event → Prop
  | .psipIn seg _ => c.tcb.found p seg = true → c.tcb.state = .synsent → seg.control.rst = true →
      (c.tcb.sendSeq = c.tcb.sndISN ∨ c.tcb.sendSeq = c.tcb.sndISN + 1) ∧
        (c.ackOk seg = true → seg.ackNo = c.tcb.sndISN + 1)
  | _ => True

/-- What is asked of an event, if it is to keep what else is asked of the streams. -/
structure Keeps (kept : Kept) (p : Params) (c : Conn) (s m : Nat) (e : Event) : Prop where
  onText : ∀ bytes, e = .text bytes →
    kept (c.written ++ bytes) c.taken (c.pending ++ bytes) c.netOut m
  onData : e = .dataIn → ∀ first next r, Filling p c first next r →
    kept c.written r.conn.taken r.conn.pending c.netOut m
  onOut : ∀ finish wrote, e = .psipOut finish wrote → ∀ seg : Sent,
    seg.text = c.tcb.begun.dataText p → seg.seqNo = c.tcb.sendSeq →
    seg.control.syn = c.tcb.synDue → seg.control.fin = c.tcb.finDue →
    kept c.written c.taken c.pending (seg :: c.netOut)
      (max m (s + c.tcb.synDue.toNat + seg.text.length + c.tcb.finDue.toNat))
  onReset : ∀ seg cap, e = .psipIn seg cap → c.tcb.found p seg = true → c.tcb.state = .synrecd →
    seg.control.rst = true → kept c.written [] c.pending c.netOut 0
  onBack : ∀ seg cap, e = .psipIn seg cap → c.tcb.found p seg = true → c.tcb.state = .synsent →
    seg.control.rst = true → kept c.written c.taken c.pending c.netOut 0

theorem step (held : Sender kept c l s m x y) {e : Event} (taken : act p c e = some c')
    (alive : ∀ finish wrote, e = .psipOut finish wrote → c'.live = true) (cond : SendCond p c e)
    (keeps : Keeps kept p c s m e) :
    ∃ l' s' m' x' y', Sender kept c' l' s' m' x' y' ∧
      (x = 0 → y = 0 → NoLag p c e → x' = 0 ∧ y' = 0) := by
  unfold act at taken
  split at taken
  next =>
    cases e with
    | control secur flags count =>
      dsimp only at taken
      split at taken
      · cases taken
      next idle =>
        cases taken
        exact ⟨l, s, m, x, y, (held.control (Bool.eq_false_iff.mpr idle) secur flags count).1,
          fun first next _ => ⟨first, next⟩⟩
    | text bytes =>
      dsimp only at taken
      split at taken
      next owes =>
        cases taken
        exact ⟨l, s, m, x, y, (held.text owes cond (keeps.onText bytes rfl)).1,
          fun first next _ => ⟨first, next⟩⟩
      · cases taken
    | oclose finNum =>
      cases taken
      exact ⟨l, s, m, x, y, held.oclose cond, fun first next _ => ⟨first, next⟩⟩
    | oabort =>
      cases taken
      exact ⟨l, s, m, x, y, held.oabort, fun first next _ => ⟨first, next⟩⟩
    | ourgent byteNo =>
      cases taken
      exact ⟨l, s, m, x, y, held.ourgent byteNo, fun first next _ => ⟨first, next⟩⟩
    | dataIn =>
      cases taken
      obtain ⟨r, filling, result⟩ := Conn.dataIn_filling held.framed held.stored p
      obtain ⟨new, more, _, fewer⟩ := filling.more
      have filled := held.fills filling.fills filling.stored filling.framed more fewer
        (keeps.onData rfl _ _ r filling)
      refine ⟨l, s, m, x, y, ?_, fun first next _ => ⟨first, next⟩⟩
      rw [result]
      split
      · exact { filled with }
      · exact filled
    | psipOut finish wrote =>
      dsimp only at taken
      split at taken
      · cases taken
        obtain ⟨s', m', sent⟩ := held.psipOut
          (c.psipOut_out p finish wrote held.noSyn held.noFin) (alive finish wrote rfl)
          (keeps.onOut finish wrote rfl)
        exact ⟨l, s', m', x, y, sent, fun first next _ => ⟨first, next⟩⟩
      · cases taken
    | psipIn seg cap =>
      cases taken
      obtain ⟨l', s', m', x', y', after, lags⟩ := held.psipIn cond (keeps.onReset seg cap rfl)
        (keeps.onBack seg cap rfl)
      refine ⟨l', s', m', x', y', after, fun first next noLag => lags first next ?_⟩
      intro found state rst
      obtain ⟨sendSeq, one⟩ := noLag found state rst
      have bound := held.bound
      have sent := held.sent
      rw [held.isn, held.send] at sendSeq
      rw [held.isn] at one
      refine ⟨?_, one⟩
      rcases sendSeq with zero | one
      · have := num_inj (b := 0) zero (by omega) (by omega)
        omega
      · have := num_inj (b := 1) one (by omega) (by omega)
        omega
    | retran =>
      dsimp only at taken
      split at taken
      · cases taken
        exact ⟨l, l, m, x, x, held.retran p, fun first _ _ => ⟨first, first⟩⟩
      · cases taken
  next => cases taken

end Sender

end NetworkUnix.UserTcp
