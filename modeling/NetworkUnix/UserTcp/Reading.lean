/-
This file proves what a call of `DataIn` does. The messages in the port come in pairs, a
control message and a data message, and the state of the data stream tells what comes
next. Every turn of the loop takes something from the port, so the loop ends by itself,
and the text goes into the ring behind what is there, unless its level is refused.
-/

import NetworkUnix.UserTcp.Ring

namespace NetworkUnix.UserTcp

open Circular

/-! ### The messages in the port -/

/-- Control and data messages take turns; `data` tells that a data message comes first, and `owed`
that one is still to be written. -/
def Paired (owed : Bool) : Bool → List PortMessage → Prop
  | data, [] => owed = data
  | false, message :: rest =>
    message.header = true ∧ message.text.length = 4 ∧ Paired owed true rest
  | true, message :: rest => message.header = true ∧ Paired owed false rest

/-- The bytes of the data messages. -/
def portText : Bool → List PortMessage → List Byte
  | _, [] => []
  | false, _ :: rest => portText true rest
  | true, message :: rest => message.text ++ portText false rest

/-- A control message in the port has a level that is refused. -/
def Tcb.refuses (p : Params) (t : Tcb) : Bool → List PortMessage → Bool
  | _, [] => false
  | false, message :: rest => t.secBad p (message.text.getD 0 0) || t.refuses p true rest
  | true, _ :: rest => t.refuses p false rest

/-- The low bits of `DataState`. -/
abbrev Tcb.stage (t : Tcb) : BitVec 16 := t.dataState &&& 0o17

/-- What the state of the data stream says about the port. -/
inductive Framed (owed : Bool) (port : List PortMessage) (dataState : BitVec 16) (dataLeft : Int) :
    Prop
  | control (stage : dataState &&& 0o17 = 0) (paired : Paired owed false port)
  | header (stage : dataState &&& 0o17 = 1) (paired : Paired owed true port)
  | text (stage : dataState &&& 0o17 = 2) (message : PortMessage) (rest : List PortMessage)
      (first : port = message :: rest) (header : message.header = false)
      (left : dataLeft = message.text.length) (paired : Paired owed false rest)

/-- The port of a connection. -/
abbrev Conn.Framed (c : Conn) : Prop :=
  UserTcp.Framed c.owed c.sendPort c.tcb.dataState c.tcb.dataLeft

/-- The bytes of the user that are still in the port. -/
def Conn.pending (c : Conn) : List Byte := portText (decide (c.tcb.stage ≠ 0)) c.sendPort

/-- Some text in the port will be thrown away. -/
def Conn.refused (p : Params) (c : Conn) : Bool :=
  p.auth && decide (c.tcb.stage ≠ 0) && c.tcb.flags.discdata ||
    c.tcb.refuses p (decide (c.tcb.stage ≠ 0)) c.sendPort

theorem stage_controlState (secur flags : Byte) : controlState secur flags &&& 0o17 = 1 := by
  unfold controlState
  apply BitVec.eq_of_toNat_eq
  rw [BitVec.toNat_and, show (0o17 : BitVec 16).toNat = 2 ^ 4 - 1 by decide,
    Nat.and_two_pow_sub_one_eq_mod]
  simp only [BitVec.toNat_add, BitVec.toNat_shiftLeft, Nat.shiftLeft_eq]
  simp only [show (1 : BitVec 16).toNat = 1 by decide]
  omega

theorem stage_succ {dataState : BitVec 16} (stage : dataState &&& 0o17 = 1) :
    dataState + 1 &&& 0o17 = 2 := by
  have low := congrArg BitVec.toNat stage
  apply BitVec.eq_of_toNat_eq
  rw [BitVec.toNat_and, show (0o17 : BitVec 16).toNat = 2 ^ 4 - 1 by decide,
    Nat.and_two_pow_sub_one_eq_mod] at *
  rw [BitVec.toNat_add]
  simp only [show (1 : BitVec 16).toNat = 1 by decide, show (2 : BitVec 16).toNat = 2 by decide] at *
  omega

theorem portSize_cons (message : PortMessage) (rest : List PortMessage) :
    portSize (message :: rest) = message.size + portSize rest := by
  simp [portSize]

theorem portSize_pos {port : List PortMessage} (some : 0 < portSize port) :
    ∃ message rest, port = message :: rest := by
  cases port with
  | nil => simp [portSize] at some
  | cons message rest => exact ⟨message, rest, rfl⟩

/-! ### The turns of the loop -/

namespace Reading

/-- The turns of the loop on a framed port. -/
inductive Turn (p : Params) (r : Reading) : Reading → Prop
  | control (message : PortMessage) (rest : List PortMessage)
      (port : r.conn.sendPort = message :: rest) (stage : r.conn.tcb.stage = 0)
      (header : message.header = true) (size : message.text.length = 4)
      (paired : Paired r.conn.owed true rest) : Turn p r (r.readControl p message rest)
  | header (message : PortMessage) (rest : List PortMessage)
      (port : r.conn.sendPort = message :: rest) (stage : r.conn.tcb.stage = 1)
      (header : message.header = true) (paired : Paired r.conn.owed false rest) :
      Turn p r (r.readHeader message rest)
  | discard (message : PortMessage) (rest : List PortMessage)
      (port : r.conn.sendPort = message :: rest) (stage : r.conn.tcb.stage = 2)
      (header : message.header = false) (left : r.conn.tcb.dataLeft = message.text.length)
      (paired : Paired r.conn.owed false rest) (auth : p.auth = true)
      (bad : r.conn.tcb.flags.discdata = true) : Turn p r (r.discard message rest)
  | text (message : PortMessage) (rest : List PortMessage)
      (port : r.conn.sendPort = message :: rest) (stage : r.conn.tcb.stage = 2)
      (header : message.header = false) (left : r.conn.tcb.dataLeft = message.text.length)
      (paired : Paired r.conn.owed false rest)
      (good : p.auth = true → r.conn.tcb.flags.discdata = false) :
      Turn p r (r.readText p message rest)

theorem turn_of_framed {p : Params} {r : Reading} (framed : r.conn.Framed)
    (some : 0 < portSize r.conn.sendPort) : Turn p r (r.turn p) := by
  obtain ⟨message, rest, port⟩ := portSize_pos some
  unfold turn
  rw [port]
  dsimp only
  cases framed with
  | control stage paired =>
    rw [port] at paired
    rw [if_pos (show r.conn.tcb.dataState &&& 0o17 = 0 from stage)]
    exact .control message rest port stage paired.1 paired.2.1 paired.2.2
  | header stage paired =>
    rw [port] at paired
    rw [if_neg (by rw [show r.conn.tcb.dataState &&& 0o17 = 1 from stage]; decide),
      if_pos (show r.conn.tcb.dataState &&& 0o17 = 1 from stage)]
    exact .header message rest port stage paired.1 paired.2
  | text stage message' rest' port' header left paired =>
    rw [port, List.cons.injEq] at port'
    obtain ⟨rfl, rfl⟩ := port'
    rw [if_neg (by rw [show r.conn.tcb.dataState &&& 0o17 = 2 from stage]; decide),
      if_neg (by rw [show r.conn.tcb.dataState &&& 0o17 = 2 from stage]; decide),
      if_pos (show r.conn.tcb.dataState &&& 0o17 = 2 from stage)]
    cases bad : p.auth && r.conn.tcb.flags.discdata with
    | true =>
      rw [if_pos rfl]
      rw [Bool.and_eq_true] at bad
      exact .discard message rest port stage header left paired bad.1 bad.2
    | false =>
      rw [if_neg Bool.false_ne_true]
      exact .text message rest port stage header left paired (by simpa using bad)

theorem loop_keeps {p : Params} {holds : Reading → Prop}
    (kept : ∀ r, holds r → 0 < r.spcAvl → 0 < r.cap → holds (r.turn p)) (fuel : Nat)
    {r : Reading} (start : holds r) : holds (loop p fuel r) := by
  induction fuel generalizing r with
  | zero => exact start
  | succ fuel inductionHypothesis =>
    unfold loop
    split
    next more => exact inductionHypothesis (kept r start more.1 more.2)
    next => exact start

end Reading

/-! ### The whole call -/

/-- The fields that the loop may change. -/
def Conn.Fills (c c' : Conn) : Prop :=
  ∃ sendPort secur told taken dataState discdata dataLeft retranBuff flagBuff dataTl,
    c' = { c with
      sendPort, secur, told, taken
      tcb := { c.tcb with
        dataState, dataLeft, retranBuff, flagBuff, dataTl
        flags := { c.tcb.flags with discdata } } }

theorem Conn.Fills.refl (c : Conn) : c.Fills c := ⟨_, _, _, _, _, _, _, _, _, _, rfl⟩

theorem Conn.Fills.trans {c c' c'' : Conn} (first : c.Fills c') (second : c'.Fills c'') :
    c.Fills c'' := by
  obtain ⟨_, _, _, _, _, _, _, _, _, _, rfl⟩ := first
  obtain ⟨_, _, _, _, _, _, _, _, _, _, rfl⟩ := second
  exact ⟨_, _, _, _, _, _, _, _, _, _, rfl⟩

theorem Tcb.refuses_congr (p : Params) (t t' : Tcb) (maxOut : t'.scMaxOut = t.scMaxOut)
    (minOut : t'.scMinOut = t.scMinOut) (data : Bool) (port : List PortMessage) :
    t'.refuses p data port = t.refuses p data port := by
  induction port generalizing data with
  | nil => cases data <;> rfl
  | cons message rest inductionHypothesis =>
    cases data with
    | false =>
      unfold Tcb.refuses Tcb.secBad
      rw [maxOut, minOut, inductionHypothesis]
    | true => exact inductionHypothesis false

theorem Tcb.refuses_data (p : Params) (t : Tcb) (message : PortMessage)
    (rest : List PortMessage) : t.refuses p true (message :: rest) = t.refuses p false rest := rfl

theorem portRead_all (message : PortMessage) (rest : List PortMessage) {count : Nat}
    (all : message.text.length ≤ count) : portRead message rest count = rest := by
  unfold portRead
  rw [dif_neg (not_not.mpr (List.drop_eq_nil_of_le all))]

/-- The loop under way, for a call that starts from `c`. -/
structure Filling (p : Params) (c : Conn) (first next : Nat) (r : Reading) : Prop where
  fills : c.Fills r.conn
  stored : r.conn.tcb.Stored r.conn.taken first next
  space : r.spcAvl = first + 256 - r.conn.taken.length
  cap : r.cap = portSize r.conn.sendPort
  framed : r.conn.Framed
  more : ∃ new, r.conn.taken = c.taken ++ new ∧ (new ≠ [] → r.newData = true) ∧
    new.length + r.conn.pending.length ≤ c.pending.length
  whole : c.refused p = false → r.conn.refused p = false ∧
    r.conn.taken.map Taken.byte ++ r.conn.pending = c.taken.map Taken.byte ++ c.pending

section

variable {p : Params} {c : Conn} {first next : Nat} {r : Reading}

variable {message : PortMessage} {rest : List PortMessage}

section

variable (filling : Filling p c first next r) (port : r.conn.sendPort = message :: rest)
include filling port

theorem Filling.control (stage : r.conn.tcb.stage = 0)
    (header : message.header = true) (paired : Paired r.conn.owed true rest) :
    Filling p c first next (r.readControl p message rest) := by
  have stage' : (r.readControl p message rest).conn.tcb.stage = 1 := stage_controlState _ _
  have pending : (r.readControl p message rest).conn.pending = r.conn.pending := by
    unfold Conn.pending
    rw [stage', stage, port]
    rfl
  refine ⟨filling.fills.trans ⟨_, _, _, _, _, _, _, _, _, _, rfl⟩,
    filling.stored, filling.space, ?_, .header stage' paired, ?_, ?_⟩
  · show r.cap - (message.text.length + hdrlngth) = portSize rest
    rw [filling.cap, port, portSize_cons, PortMessage.size, if_pos header]
    push_cast
    omega
  · rw [pending]
    exact filling.more
  · intro unrefused
    obtain ⟨unrefused, whole⟩ := filling.whole unrefused
    refine ⟨?_, by rw [pending]; exact whole⟩
    unfold Conn.refused at *
    rw [stage, port] at unrefused
    rw [stage']
    have rest' := Tcb.refuses_congr p r.conn.tcb
        (r.readControl p message rest).conn.tcb rfl rfl true rest
    simp only [ne_eq, not_true_eq_false, decide_false, Bool.and_false, Bool.false_and, Bool.false_or,
      Tcb.refuses, Bool.or_eq_false_iff] at unrefused
    rw [show (r.readControl p message rest).conn.sendPort = rest from rfl,
      show decide ((1 : BitVec 16) ≠ 0) = true by decide, rest', unrefused.2,
      show (r.readControl p message rest).conn.tcb.flags.discdata =
        r.conn.tcb.secBad p (message.text.getD 0 0) from rfl, unrefused.1]
    simp

theorem Filling.header (stage : r.conn.tcb.stage = 1)
    (header : message.header = true) (paired : Paired r.conn.owed false rest) :
    Filling p c first next (r.readHeader message rest) := by
  have stage' : (r.readHeader message rest).conn.tcb.stage = 2 := stage_succ stage
  have pending : (r.readHeader message rest).conn.pending = r.conn.pending := by
    unfold Conn.pending
    rw [stage', stage, port]
    rfl
  refine ⟨filling.fills.trans ⟨_, _, _, _, _, _, _, _, _, _, rfl⟩,
    filling.stored, filling.space, ?_,
    .text stage' _ rest rfl rfl rfl paired, ?_, ?_⟩
  · show r.cap - hdrlngth = portSize ({ message with header := false } :: rest)
    rw [filling.cap, port, portSize_cons, portSize_cons, PortMessage.size, PortMessage.size,
      if_pos header, if_neg Bool.false_ne_true]
    push_cast
    omega
  · rw [pending]
    exact filling.more
  · intro unrefused
    obtain ⟨unrefused, whole⟩ := filling.whole unrefused
    refine ⟨?_, by rw [pending]; exact whole⟩
    unfold Conn.refused at *
    rw [stage, port] at unrefused
    rw [stage']
    have rest' := Tcb.refuses_congr p r.conn.tcb
        (r.readHeader message rest).conn.tcb rfl rfl false rest
    rw [show (r.readHeader message rest).conn.sendPort =
      { message with header := false } :: rest from rfl]
    rw [show decide ((1 : BitVec 16) ≠ 0) = true by decide] at unrefused
    rw [show decide ((2 : BitVec 16) ≠ 0) = true by decide, Tcb.refuses_data, rest']
    exact unrefused

theorem Filling.discard (stage : r.conn.tcb.stage = 2)
    (header : message.header = false) (left : r.conn.tcb.dataLeft = message.text.length)
    (paired : Paired r.conn.owed false rest) (auth : p.auth = true)
    (bad : r.conn.tcb.flags.discdata = true) :
    Filling p c first next (r.discard message rest) := by
  have stage' : (r.discard message rest).conn.tcb.stage = 0 :=
    show (0 : BitVec 16) &&& 0o17 = 0 by decide
  have remains : (r.discard message rest).conn.sendPort = rest :=
    portRead_all message rest (by rw [left]; omega)
  have pending : r.conn.pending = message.text ++ (r.discard message rest).conn.pending := by
    unfold Conn.pending
    rw [stage', stage, port, remains]
    rfl
  refine ⟨filling.fills.trans ⟨_, _, _, _, _, _, _, _, _, _, rfl⟩,
    filling.stored, filling.space, ?_, .control stage' ?_, ?_, ?_⟩
  · rw [remains]
    show r.cap - r.conn.tcb.dataLeft = portSize rest
    rw [filling.cap, port, portSize_cons, PortMessage.size, if_neg (by rw [header]; simp), left]
    push_cast
    omega
  · rw [remains]
    exact paired
  · obtain ⟨new, taken, flagged, length⟩ := filling.more
    refine ⟨new, taken, flagged, ?_⟩
    rw [pending, List.length_append] at length
    omega
  · intro unrefused
    obtain ⟨unrefused, _⟩ := filling.whole unrefused
    unfold Conn.refused at unrefused
    rw [auth, bad, stage] at unrefused
    simp at unrefused

end

theorem Reading.readText_port (rest : List PortMessage) (stage : r.conn.tcb.stage = 2)
    (left : r.conn.tcb.dataLeft = message.text.length) (tail : 0 < r.conn.tcb.tailSpc) :
    ((r.readText p message rest).conn.sendPort = rest ∧
        (r.readText p message rest).conn.tcb.stage = 0 ∧
        message.text.take (min r.conn.tcb.dataLeft r.conn.tcb.tailSpc).toNat = message.text) ∨
      ∃ remains : message.text.drop (min r.conn.tcb.dataLeft r.conn.tcb.tailSpc).toNat ≠ [],
        (r.readText p message rest).conn.sendPort = PortMessage.mk false _ remains :: rest ∧
        (r.readText p message rest).conn.tcb.stage = 2 ∧
        (r.readText p message rest).conn.tcb.dataLeft =
          (message.text.drop (min r.conn.tcb.dataLeft r.conn.tcb.tailSpc).toNat).length := by
  by_cases all : r.conn.tcb.dataLeft ≤ r.conn.tcb.tailSpc
  · have count : (min r.conn.tcb.dataLeft r.conn.tcb.tailSpc).toNat = message.text.length := by
      omega
    refine .inl ⟨?_, ?_, ?_⟩
    · show portRead message rest _ = rest
      rw [count, portRead_all message rest (Nat.le_refl _)]
    · show (if decide (r.conn.tcb.dataLeft ≤ r.conn.tcb.tailSpc) = true then (0 : BitVec 16)
        else r.conn.tcb.dataState) &&& 0o17 = 0
      rw [if_pos (decide_eq_true all)]
      decide
    · rw [count, List.take_length]
  · have remains : message.text.drop (min r.conn.tcb.dataLeft r.conn.tcb.tailSpc).toNat ≠ [] := by
      intro none
      have := congrArg List.length none
      rw [List.length_drop, List.length_nil] at this
      omega
    refine .inr ⟨remains, ?_, ?_, ?_⟩
    · show portRead message rest _ = _
      unfold portRead
      rw [dif_pos remains]
    · show (if decide (r.conn.tcb.dataLeft ≤ r.conn.tcb.tailSpc) = true then (0 : BitVec 16)
        else r.conn.tcb.dataState) &&& 0o17 = 2
      rw [if_neg (by rw [decide_eq_true_eq]; exact all)]
      exact stage
    · show (if decide (r.conn.tcb.dataLeft ≤ r.conn.tcb.tailSpc) = true then r.conn.tcb.dataLeft
        else r.conn.tcb.dataLeft - (message.text.take _).length) = _
      rw [if_neg (by rw [decide_eq_true_eq]; exact all), List.length_drop, List.length_take]
      omega

theorem Filling.text (filling : Filling p c first next r) (port : r.conn.sendPort = message :: rest)
    (stage : r.conn.tcb.stage = 2) (header : message.header = false)
    (left : r.conn.tcb.dataLeft = message.text.length) (paired : Paired r.conn.owed false rest)
    (room : 0 < r.spcAvl) : Filling p c first next (r.readText p message rest) := by
  have space := filling.space
  have length := List.length_pos_iff.mpr message.written
  have tail := filling.stored.tailSpc_pos (by omega)
  have count : ((message.text.take (min r.conn.tcb.dataLeft r.conn.tcb.tailSpc).toNat).length : Int) =
      min r.conn.tcb.dataLeft r.conn.tcb.tailSpc := by
    rw [List.length_take, left]
    omega
  have stored := filling.stored.store p
    (message.text.take (min r.conn.tcb.dataLeft r.conn.tcb.tailSpc).toNat)
    (decide (r.conn.tcb.dataLeft ≤ r.conn.tcb.tailSpc)) r.conn.secur (by omega)
  have new : (r.readText p message rest).conn.taken = r.conn.taken ++
      (message.text.take (min r.conn.tcb.dataLeft r.conn.tcb.tailSpc).toNat).map
        fun byte => ⟨byte, r.conn.secur⟩ := rfl
  have split : message.text.take (min r.conn.tcb.dataLeft r.conn.tcb.tailSpc).toNat ++
      (r.readText p message rest).conn.pending = r.conn.pending := by
    unfold Conn.pending
    rw [stage, port]
    rcases Reading.readText_port rest stage left tail with
      ⟨port', stage', whole⟩ | ⟨remains, port', stage', _⟩
    · rw [port', stage', whole]
      rfl
    · rw [port', stage']
      show _ ++ (_ ++ portText false rest) = message.text ++ portText false rest
      rw [← List.append_assoc, List.take_append_drop]
  have pendingLength := congrArg List.length split
  rw [List.length_append] at pendingLength
  refine ⟨filling.fills.trans ⟨_, _, _, _, _, _, _, _, _, _, rfl⟩, stored, ?_, ?_, ?_, ?_, ?_⟩
  · rw [new, List.length_append, List.length_map]
    show r.spcAvl - min r.conn.tcb.dataLeft r.conn.tcb.tailSpc = _
    push_cast
    omega
  · show r.cap - min r.conn.tcb.dataLeft r.conn.tcb.tailSpc = _
    have cap := filling.cap
    rw [port, portSize_cons, PortMessage.size, if_neg (by rw [header]; simp)] at cap
    rcases Reading.readText_port rest stage left tail with
      ⟨port', _, whole⟩ | ⟨remains, port', _, _⟩
    · rw [whole] at count
      rw [port']
      omega
    · rw [port', portSize_cons, PortMessage.size, if_neg Bool.false_ne_true, List.length_drop]
      rw [List.length_take] at count
      push_cast
      omega
  · rcases Reading.readText_port rest stage left tail with
      ⟨port', stage', _⟩ | ⟨remains, port', stage', left'⟩
    · exact .control stage' (by rw [port']; exact paired)
    · exact .text stage' _ rest port' rfl left' paired
  · obtain ⟨old, taken, flagged, length⟩ := filling.more
    refine ⟨old ++ _, by rw [new, taken, List.append_assoc], fun _ => rfl, ?_⟩
    rw [List.length_append, List.length_map]
    omega
  · intro unrefused
    obtain ⟨unrefused, whole⟩ := filling.whole unrefused
    refine ⟨?_, ?_⟩
    · unfold Conn.refused at *
      rw [stage, port, show decide ((2 : BitVec 16) ≠ 0) = true by decide, Tcb.refuses_data,
        Bool.or_eq_false_iff] at unrefused
      have rest' := Tcb.refuses_congr p r.conn.tcb
        (r.readText p message rest).conn.tcb rfl rfl false rest
      rcases Reading.readText_port rest stage left tail with
        ⟨port', stage', _⟩ | ⟨remains, port', stage', _⟩
      · rw [port', stage', show decide ((0 : BitVec 16) ≠ 0) = false by decide, rest', unrefused.2]
        simp
      · rw [port', stage', show decide ((2 : BitVec 16) ≠ 0) = true by decide, Tcb.refuses_data,
          rest', Bool.or_eq_false_iff]
        exact unrefused
    · rw [new, List.map_append, List.map_map, List.append_assoc]
      rw [show (Taken.byte ∘ fun byte => (⟨byte, r.conn.secur⟩ : Taken)) = id from rfl, List.map_id,
        split]
      exact whole

theorem Filling.turn (filling : Filling p c first next r) (room : 0 < r.spcAvl) (some : 0 < r.cap) :
    Filling p c first next (r.turn p) := by
  have turned := Reading.turn_of_framed (p := p) filling.framed (by have := filling.cap; omega)
  revert turned
  generalize r.turn p = r'
  intro turned
  cases turned with
  | control message rest port stage header size paired =>
    exact filling.control port stage header paired
  | header message rest port stage header paired =>
    exact filling.header port stage header paired
  | discard message rest port stage header left paired auth bad =>
    exact filling.discard port stage header left paired auth bad
  | text message rest port stage header left paired good =>
    exact filling.text port stage header left paired room

theorem Conn.dataIn_filling (framed : c.Framed) (stored : c.tcb.Stored c.taken first next)
    (p : Params) : ∃ r, Filling p c first next r ∧
      c.dataIn p = if r.newData && r.conn.tcb.sending then r.conn.makeWrk else r.conn := by
  have start : Filling p c first next
      ⟨c, around (c.tcb.dataHd - 1) c.tcb.dataTl, portSize c.sendPort, false⟩ := by
    refine ⟨.refl c, stored, ?_, rfl, framed, ⟨[], ?_, ?_, ?_⟩, fun unrefused => ⟨unrefused, rfl⟩⟩
    · have := stored.room
      rw [stored.hd, stored.tl, around_room (Nat.le_trans stored.acked stored.sent) stored.room]
      push_cast
      omega
    · rw [List.append_nil]
    · intro some
      exact absurd rfl some
    · exact Nat.le_of_eq (Nat.zero_add _)
  unfold Conn.dataIn
  dsimp only
  split
  · exact ⟨_, start, by rw [Bool.false_and, if_neg Bool.false_ne_true]⟩
  · exact ⟨_, Reading.loop_keeps (fun r filling room some => filling.turn room some) _ start, rfl⟩

end

end NetworkUnix.UserTcp
