/-
This file proves what the negotiation of options comes to. A station takes the next message
about an option for the reply to its own request if one is open. As long as it asks only for
what is not in effect and has no request open, the two stations come to agree.
-/

import NetworkUnix.Lib.Agreement
import NetworkUnix.Lib.Run
import NetworkUnix.Telnet.Netcmd
import Mathlib.Tactic.IntervalCases

namespace NetworkUnix.Telnet

open Function Agreement

/-! ### Two stations -/

/-- Two stations, the bytes under way to each, and how many bytes were written. -/
structure System where
  station : Bool → NetConn
  line : Bool → List Byte
  written : Nat

/-- A command for an option with one byte, or a byte that arrives. -/
inductive Event
  | command (side : Bool) (op : Op) (opnum : Nat)
  | receive (side : Bool)

def Event.isCommand : Event → Bool
  | .command _ _ _ => true
  | .receive _ => false

namespace System

/-- A user and a server with all options off. -/
def start (user server : Host) : System where
  station side := if side then .alloc server true else .alloc user false
  line _ := []
  written := 0

/-- A station has moved on; what it wrote goes out. -/
def put (s : System) (side : Bool) (conn : NetConn) : System where
  station := Function.update s.station side { conn with toNetBuf := conn.toNetBuf.init }
  line := Function.update s.line (!side) (s.line (!side) ++ conn.toNetBuf.bytes)
  written := s.written + conn.toNetBuf.bytes.length

/-- The effect of an event, if it can happen. -/
def act (s : System) : Event → Option System
  | .command side op opnum =>
    if optlength opnum = some 1 then
      some (s.put side ((s.station side).negotiate true op [BitVec.ofNat 8 opnum]))
    else none
  | .receive side =>
    match s.line side with
    | [] => none
    | c :: rest =>
      some ({ s with line := Function.update s.line side rest }.put side
        ((s.station side).netChar c))

/-- When nothing is under way, the stations agree about every option in each direction, and no
request is open. -/
def Agrees (s : System) : Prop :=
  s.line false = [] → s.line true = [] → ∀ side opnum,
    (s.station side).state opnum .will = (s.station (!side)).state opnum .do_ ∧
      ∀ which, (s.station side).orig opnum which = false

/-- A command makes a station send a request. -/
def asks (s : System) (side : Bool) (op : Op) (opnum : Nat) : Bool :=
  !op.nstate || testf (s.station side).host.ends (s.station side).usingPty true opnum op.reverse
    [BitVec.ofNat 8 opnum]

/-- A station that sends a request has none open for that option and direction, and asks for what it
does not have. -/
def Apt (s : System) : Event → Prop
  | .command side op opnum =>
    s.asks side op opnum = true → (s.station side).orig opnum op.reverse.side = false ∧
      (s.station side).state opnum op.reverse.side ≠ op.nstate
  | .receive _ => True

instance (s : System) : ∀ e, Decidable (s.Apt e)
  | .command _ _ _ => inferInstanceAs (Decidable (_ → _ ∧ _))
  | .receive _ => inferInstanceAs (Decidable True)

end System

/-! ### One negotiation at one station -/

def Side.other : Side → Side
  | .do_ => .will
  | .will => .do_

@[simp] theorem Side.other_other (which : Side) : which.other.other = which := by cases which <;> rfl

/-- The message about a side of an option. -/
def Op.of (which : Side) (value : Bool) : Op :=
  match which, value with
  | .do_, true => .do_
  | .do_, false => .dont
  | .will, true => .will
  | .will, false => .wont

@[simp] theorem Op.of_side (which : Side) (value : Bool) : (Op.of which value).side = which := by
  cases which <;> cases value <;> rfl

@[simp] theorem Op.of_nstate (which : Side) (value : Bool) : (Op.of which value).nstate = value := by
  cases which <;> cases value <;> rfl

theorem Op.reverse_nstate (op : Op) : op.reverse.nstate = op.nstate := by cases op <;> rfl

namespace NetConn

/-- The station as a party to the negotiation of one option in one direction. -/
def party (conn : NetConn) (opnum : Nat) (which : Side) : Party where
  state := conn.state opnum which
  asked := conn.orig opnum which
  able := testf conn.host.ends conn.usingPty false opnum (.of which true) []

/-- The record of a message about an option. -/
def notice (which : Side) (opnum : Nat) (value : Bool) : List Byte :=
  record (Op.of which value).ctrl [BitVec.ofNat 8 opnum]

theorem opnumOf_one {opnum : Nat} (small : opnum ≤ 4) : opnumOf [BitVec.ofNat 8 opnum] = opnum := by
  interval_cases opnum <;> rfl

theorem optlength_one {opnum : Nat} : optlength opnum = some 1 ↔ opnum ≤ 4 := by
  unfold optlength
  split
  next small => exact iff_of_true rfl small
  next large =>
    refine iff_of_false ?_ large
    repeat' split
    all_goals simp

theorem testf_one {opnum : Nat} (small : opnum ≤ 4) (ends usingPty org : Bool) (op : Op)
    (args : List Byte) : testf ends usingPty org opnum op args = testf ends usingPty false opnum op [] := by
  interval_cases opnum <;> rfl

theorem actf_one {opnum : Nat} (small : opnum ≤ 4) (conn : NetConn) (op : Op) (args : List Byte) :
    ∃ toNet toUsr, conn.actf opnum op args = { conn with toNetBin := toNet, toUsrBin := toUsr } := by
  by_cases binary : opnum = optBinary
  · unfold actf
    rw [if_pos binary]
    cases op with
    | do_ => exact ⟨true, conn.toUsrBin, rfl⟩
    | dont => exact ⟨false, conn.toUsrBin, rfl⟩
    | will => exact ⟨conn.toNetBin, true, rfl⟩
    | wont => exact ⟨conn.toNetBin, false, rfl⟩
  · refine ⟨conn.toNetBin, conn.toUsrBin, ?_⟩
    unfold actf
    rw [if_neg binary, if_neg, if_neg, if_neg]
    · rintro ⟨rfl, _⟩
      exact absurd small (by decide)
    · rintro ⟨rfl, _⟩
      exact absurd small (by decide)
    · rintro ⟨rfl, _⟩
      exact absurd small (by decide)

theorem sendReply_eq (conn : NetConn) (reply : Bool) (op : Op) (opnum : Nat) :
    conn.sendReply reply op [BitVec.ofNat 8 opnum] =
      conn.putNet (notice op.side.other opnum (op.nstate && reply)) := by
  cases op <;> cases reply <;> rfl

theorem setEntry_apply {α : Type} (table : Nat → Side → α) (opnum : Nat) (side : Side) (entry : α)
    (opnum' : Nat) (side' : Side) : setEntry table opnum side entry opnum' side' =
      if opnum' = opnum ∧ side' = side then entry else table opnum' side' := by
  unfold setEntry
  by_cases same : opnum' = opnum
  · rw [same, update_self]
    by_cases same' : side' = side
    · rw [same', update_self, if_pos ⟨rfl, rfl⟩]
    · rw [update_of_ne same', if_neg fun both => same' both.2]
  · rw [update_of_ne same, if_neg fun both => same both.1]

/-- A station moves on in the negotiation of one option and direction, and sends something. -/
structure Moves (conn after : NetConn) (opnum : Nat) (which : Side) (party : Party)
    (sent : List Byte) : Prop where
  party : ∀ opnum' which', after.party opnum' which' =
    if opnum' = opnum ∧ which' = which then party else conn.party opnum' which'
  sent : after.toNetBuf.bytes = conn.toNetBuf.bytes ++ sent
  cmdstate : after.cmdstate = conn.cmdstate
  count : after.count = conn.count
  rest : after.rest = conn.rest

theorem party_set {conn after : NetConn} {opnum : Nat} {which : Side} {state orig : Bool}
    (host : after.host = conn.host) (usingPty : after.usingPty = conn.usingPty)
    (states : after.state = setEntry conn.state opnum which state)
    (origs : after.orig = setEntry conn.orig opnum which orig) (opnum' : Nat) (which' : Side) :
    after.party opnum' which' = if opnum' = opnum ∧ which' = which then
      { conn.party opnum which with state := state, asked := orig } else conn.party opnum' which' := by
  unfold party
  rw [states, origs, host, usingPty, setEntry_apply, setEntry_apply]
  by_cases same : opnum' = opnum ∧ which' = which
  · rw [if_pos same, if_pos same, if_pos same, same.1, same.2]
  · rw [if_neg same, if_neg same, if_neg same]

theorem setEntry_self {α : Type} (table : Nat → Side → α) (opnum : Nat) (side : Side) :
    setEntry table opnum side (table opnum side) = table := by
  unfold setEntry
  rw [update_eq_self, update_eq_self]

theorem length_notice (which : Side) (opnum : Nat) (value : Bool) :
    (notice which opnum value).length = 5 := rfl

theorem putNet_notice {conn : NetConn} (empty : conn.toNetBuf.bytes = []) (which : Side)
    (opnum : Nat) (value : Bool) : conn.putNet (notice which opnum value) =
      { conn with toNetBuf := { conn.toNetBuf with
          bytes := conn.toNetBuf.bytes ++ notice which opnum value } } := by
  unfold putNet
  rw [CircBuf.puts_fits]
  unfold CircBuf.len
  rw [empty, length_notice]
  decide

theorem setValue_nil (conn : NetConn) (opnum : Nat) (side : Side) :
    conn.setValue opnum side [] = conn := by
  unfold setValue
  rw [show vcopy [] (conn.value opnum side) = conn.value opnum side from rfl, setEntry_self]

theorem answer_one {conn : NetConn} {opnum : Nat} (small : opnum ≤ 4) (op : Op) :
    conn.answer op [BitVec.ofNat 8 opnum] =
      if conn.state opnum op.side = op.nstate then conn
      else if op.nstate && !(conn.party opnum op.side).able then
        conn.putNet (notice op.side.other opnum false)
      else
        ((conn.putNet (notice op.side.other opnum op.nstate)).actf opnum op
          [BitVec.ofNat 8 opnum]).setState opnum op.side op.nstate := by
  have verdict : (!op.nstate || testf conn.host.ends conn.usingPty false opnum op
      [BitVec.ofNat 8 opnum]) = !(op.nstate && !(conn.party opnum op.side).able) := by
    rw [testf_one small]
    unfold party
    cases op <;> simp [Op.nstate, Op.side, Op.of]
  have already : conn.already op [BitVec.ofNat 8 opnum] =
      decide (conn.state opnum op.side = op.nstate) := by
    unfold already
    rw [opnumOf_one small]
    show (_ && (!op.nstate || true)) = _
    rw [Bool.or_true, Bool.and_true]
  unfold answer
  dsimp only
  rw [already, opnumOf_one small, verdict, show [BitVec.ofNat 8 opnum].tail = [] from rfl,
    setValue_nil, setValue_nil, sendReply_eq]
  by_cases same : conn.state opnum op.side = op.nstate
  · rw [if_pos (decide_eq_true same), if_pos same]
  · rw [if_neg (by rw [decide_eq_true_eq]; exact same), if_neg same]
    cases refuses : op.nstate && !(conn.party opnum op.side).able with
    | true =>
      rw [if_neg (by decide), if_pos rfl]
      rw [Bool.and_eq_true] at refuses
      rw [refuses.1]
      rfl
    | false =>
      rw [if_pos (by decide), if_neg (by decide)]
      rw [show (!false) = true from rfl, Bool.and_true]

theorem moves_answer {conn : NetConn} {opnum : Nat} (small : opnum ≤ 4)
    (empty : conn.toNetBuf.bytes = []) (op : Op) (calm : conn.orig opnum op.side = false) :
    Moves conn (((conn.putNet (notice op.side.other opnum op.nstate)).actf opnum op
        [BitVec.ofNat 8 opnum]).setState opnum op.side op.nstate) opnum op.side
      { conn.party opnum op.side with state := op.nstate } (notice op.side.other opnum op.nstate) := by
  obtain ⟨toNet, toUsr, acts⟩ := actf_one small
    (conn.putNet (notice op.side.other opnum op.nstate)) op [BitVec.ofNat 8 opnum]
  rw [acts, putNet_notice empty]
  have origs : conn.orig = setEntry conn.orig opnum op.side false := by
    rw [← calm, setEntry_self]
  have party := @party_set conn (({ conn with
      toNetBuf := { conn.toNetBuf with
        bytes := conn.toNetBuf.bytes ++ notice op.side.other opnum op.nstate }
      toNetBin := toNet
      toUsrBin := toUsr } : NetConn).setState opnum op.side op.nstate) opnum op.side op.nstate false
    rfl rfl rfl origs
  have same : (conn.party opnum op.side).asked = false := calm
  refine { party := ?_, sent := rfl, cmdstate := rfl, count := rfl, rest := rfl }
  intro opnum' which'
  rw [party, ← same]

theorem hear_moves {conn : NetConn} {opnum : Nat} (small : opnum ≤ 4)
    (empty : conn.toNetBuf.bytes = []) (op : Op) :
    Moves conn (conn.negotiate false op [BitVec.ofNat 8 opnum]) opnum op.side
      ((conn.party opnum op.side).hear op.nstate).1
      (((conn.party opnum op.side).hear op.nstate).2.flatMap fun note =>
        notice op.side.other opnum note.value) := by
  have isNegotiate : conn.negotiate false op [BitVec.ofNat 8 opnum] =
      if conn.orig opnum op.side = false then conn.answer op [BitVec.ofNat 8 opnum]
      else conn.settled op [BitVec.ofNat 8 opnum] := by
    unfold negotiate
    rw [opnumOf_one small, if_neg fun both => both.2 (optlength_one.mpr small),
      if_neg Bool.false_ne_true]
  have still : ∀ opnum' which', conn.party opnum' which' =
      if opnum' = opnum ∧ which' = op.side then conn.party opnum op.side
      else conn.party opnum' which' := by
    intro opnum' which'
    split
    next both => rw [both.1, both.2]
    next => rfl
  rw [isNegotiate]
  unfold Party.hear
  cases waits : conn.orig opnum op.side with
  | true =>
    have asked : (conn.party opnum op.side).asked = true := waits
    obtain ⟨toNet, toUsr, acts⟩ := actf_one small conn op [BitVec.ofNat 8 opnum]
    rw [if_neg Bool.noConfusion, if_pos asked]
    unfold settled
    dsimp only
    rw [opnumOf_one small, acts]
    exact {
      party := party_set rfl rfl rfl rfl
      sent := (List.append_nil _).symm
      cmdstate := rfl
      count := rfl
      rest := rfl }
  | false =>
    have asked : (conn.party opnum op.side).asked = false := waits
    rw [if_pos rfl, if_neg (by rw [asked]; decide), answer_one small]
    by_cases same : conn.state opnum op.side = op.nstate
    · rw [if_pos same, if_pos (show (conn.party opnum op.side).state = _ from same)]
      exact {
        party := still
        sent := (List.append_nil _).symm
        cmdstate := rfl
        count := rfl
        rest := rfl }
    · rw [if_neg same, if_neg (show ¬ (conn.party opnum op.side).state = _ from same)]
      by_cases refuses : (op.nstate && !(conn.party opnum op.side).able) = true
      · rw [if_pos refuses, if_pos refuses, putNet_notice empty, List.flatMap_singleton]
        exact { party := still, sent := rfl, cmdstate := rfl, count := rfl, rest := rfl }
      · rw [if_neg refuses, if_neg refuses, List.flatMap_singleton]
        exact moves_answer small empty op waits

theorem ask_moves {conn : NetConn} {opnum : Nat} (small : opnum ≤ 4)
    (empty : conn.toNetBuf.bytes = []) (op : Op) (asks : (!op.nstate || testf conn.host.ends
      conn.usingPty true opnum op.reverse [BitVec.ofNat 8 opnum]) = true) :
    Moves conn (conn.negotiate true op [BitVec.ofNat 8 opnum]) opnum op.reverse.side
      (conn.party opnum op.reverse.side).ask (notice op.reverse.side.other opnum op.nstate) := by
  have isNegotiate : conn.negotiate true op [BitVec.ofNat 8 opnum] =
      (conn.putNet (notice op.reverse.side.other opnum op.nstate)).setOrig opnum op.reverse.side
        true := by
    unfold negotiate originate
    dsimp only
    rw [opnumOf_one small, if_neg fun both => both.2 (optlength_one.mpr small), if_pos rfl, if_pos,
      sendReply_eq, Bool.and_true, Op.reverse_nstate, show [BitVec.ofNat 8 opnum].tail = [] from rfl,
      setValue_nil]
    rw [Bool.or_eq_true, Bool.not_eq_true'] at asks
    rw [Op.reverse_nstate]
    exact asks
  rw [isNegotiate, putNet_notice empty]
  have states : conn.state = setEntry conn.state opnum op.reverse.side
      (conn.party opnum op.reverse.side).state := (setEntry_self _ _ _).symm
  exact {
    party := party_set rfl rfl states rfl
    sent := rfl
    cmdstate := rfl
    count := rfl
    rest := rfl }

theorem not_asks {conn : NetConn} {opnum : Nat} (small : opnum ≤ 4) (op : Op)
    (asks : (!op.nstate || testf conn.host.ends conn.usingPty true opnum op.reverse
      [BitVec.ofNat 8 opnum]) = false) : conn.negotiate true op [BitVec.ofNat 8 opnum] = conn := by
  unfold negotiate originate
  dsimp only
  rw [opnumOf_one small, if_neg fun both => both.2 (optlength_one.mpr small), if_pos rfl, if_neg]
  rw [Op.reverse_nstate, ← Bool.not_eq_true', ← Bool.or_eq_true, asks]
  exact Bool.false_ne_true

end NetConn

/-! ### Messages on the line -/

/-- A message about an option, and whether it was sent as a request. -/
structure Told where
  op : Op
  opnum : Nat
  asks : Bool
  small : opnum ≤ 4

namespace Told

/-- Its bytes. -/
def bytes (told : Told) : List Byte := NetConn.record told.op.ctrl [BitVec.ofNat 8 told.opnum]

/-- The messages about one option and direction. -/
def notes (opnum : Nat) (which : Side) (queue : List Told) : List Note :=
  queue.filterMap fun told =>
    if told.opnum = opnum ∧ told.op.side = which then some ⟨told.op.nstate, told.asks⟩ else none

/-- How many of the messages were sent as requests. -/
def asking (queue : List Told) : Nat := (queue.map fun told => told.asks.toNat).sum

theorem notes_append (opnum : Nat) (which : Side) (queue more : List Told) :
    notes opnum which (queue ++ more) = notes opnum which queue ++ notes opnum which more :=
  List.filterMap_append ..

theorem asking_append (queue more : List Told) :
    asking (queue ++ more) = asking queue + asking more := by
  unfold asking
  rw [List.map_append, List.sum_append]

end Told

/-- What a station has read of a message, and what is still under way to it. -/
inductive Reads (conn : NetConn) : List Byte → List Told → Prop
  | escape (queue : List Told) (cmdstate : conn.cmdstate = .escapeExp) (rest : conn.rest = []) :
      Reads conn (queue.flatMap Told.bytes) queue
  | hibyte (told : Told) (queue : List Told) (cmdstate : conn.cmdstate = .hibyteExp)
      (rest : conn.rest = []) :
      Reads conn (told.bytes.drop 1 ++ queue.flatMap Told.bytes) (told :: queue)
  | lobyte (told : Told) (queue : List Told) (cmdstate : conn.cmdstate = .lobyteExp)
      (count : conn.count = 0) (rest : conn.rest = []) :
      Reads conn (told.bytes.drop 2 ++ queue.flatMap Told.bytes) (told :: queue)
  | ctrl (told : Told) (queue : List Told) (cmdstate : conn.cmdstate = .ctrlExp)
      (count : conn.count = 1) (rest : conn.rest = []) :
      Reads conn (told.bytes.drop 3 ++ queue.flatMap Told.bytes) (told :: queue)
  | option (told : Told) (queue : List Told) (cmdstate : conn.cmdstate = .optionExp told.op)
      (count : conn.count = 0) (rest : conn.rest = []) :
      Reads conn (told.bytes.drop 4 ++ queue.flatMap Told.bytes) (told :: queue)

namespace Reads

variable {conn : NetConn} {line : List Byte} {queue : List Told}

theorem append (reads : Reads conn line queue) (more : List Told) :
    Reads conn (line ++ more.flatMap Told.bytes) (queue ++ more) := by
  cases reads with
  | escape queue cmdstate rest =>
    rw [← List.flatMap_append]
    exact .escape _ cmdstate rest
  | hibyte told queue cmdstate rest =>
    rw [List.append_assoc, ← List.flatMap_append]
    exact .hibyte told _ cmdstate rest
  | lobyte told queue cmdstate count rest =>
    rw [List.append_assoc, ← List.flatMap_append]
    exact .lobyte told _ cmdstate count rest
  | ctrl told queue cmdstate count rest =>
    rw [List.append_assoc, ← List.flatMap_append]
    exact .ctrl told _ cmdstate count rest
  | option told queue cmdstate count rest =>
    rw [List.append_assoc, ← List.flatMap_append]
    exact .option told _ cmdstate count rest

theorem congr (reads : Reads conn line queue) {after : NetConn}
    (cmdstate : after.cmdstate = conn.cmdstate) (count : after.count = conn.count)
    (rest : after.rest = conn.rest) : Reads after line queue := by
  cases reads with
  | escape queue isState isRest =>
    exact .escape _ (cmdstate.trans isState) (rest.trans isRest)
  | hibyte told queue isState isRest =>
    exact .hibyte told _ (cmdstate.trans isState) (rest.trans isRest)
  | lobyte told queue isState isCount isRest =>
    exact .lobyte told _ (cmdstate.trans isState) (count.trans isCount) (rest.trans isRest)
  | ctrl told queue isState isCount isRest =>
    exact .ctrl told _ (cmdstate.trans isState) (count.trans isCount) (rest.trans isRest)
  | option told queue isState isCount isRest =>
    exact .option told _ (cmdstate.trans isState) (count.trans isCount) (rest.trans isRest)

theorem empty (reads : Reads conn [] queue) : queue = [] := by
  generalize none : ([] : List Byte) = line at reads
  cases reads with
  | escape queue cmdstate rest =>
    cases queue with
    | nil => rfl
    | cons told rest => cases none
  | hibyte told queue cmdstate rest => cases none
  | lobyte told queue cmdstate count rest => cases none
  | ctrl told queue cmdstate count rest => cases none
  | option told queue cmdstate count rest => cases none

end Reads

/-- What a byte does: it is part of a message, or the last of one. -/
inductive Takes (conn : NetConn) (line : List Byte) : List Told → NetConn → Prop
  | part (queue : List Told) (after : NetConn) (reads : Reads after line queue)
      (party : ∀ opnum which, after.party opnum which = conn.party opnum which)
      (sent : after.toNetBuf.bytes = conn.toNetBuf.bytes) : Takes conn line queue after
  | last (told : Told) (queue : List Told) (after : NetConn) (reads : Reads after line queue)
      (party : ∀ opnum which, after.party opnum which =
        if opnum = told.opnum ∧ which = told.op.side then
          ((conn.party told.opnum told.op.side).hear told.op.nstate).1
        else conn.party opnum which)
      (sent : after.toNetBuf.bytes = conn.toNetBuf.bytes ++
        ((conn.party told.opnum told.op.side).hear told.op.nstate).2.flatMap fun note =>
          NetConn.notice told.op.side.other told.opnum note.value) :
      Takes conn line (told :: queue) after

theorem netCtrl_op (conn : NetConn) (op : Op) : conn.netCtrl op.ctrl = (conn, .optionExp op) := by
  cases op <;> rfl

theorem Reads.netChar {conn : NetConn} {c : Byte} {line : List Byte} {queue : List Told}
    (reads : Reads conn (c :: line) queue) (empty : conn.toNetBuf.bytes = []) :
    Takes conn line queue (conn.netChar c) := by
  generalize isLine : c :: line = whole at reads
  cases reads with
  | escape queue cmdstate rest =>
    cases queue with
    | nil => cases isLine
    | cons told queue =>
      obtain ⟨rfl, rfl⟩ := List.cons.inj isLine
      rw [NetConn.netChar_iac cmdstate]
      exact .part _ _ (.hibyte told queue rfl rest) (fun _ _ => rfl) rfl
  | hibyte told queue cmdstate rest =>
    obtain ⟨rfl, rfl⟩ := List.cons.inj isLine
    have none : (BitVec.ofNat 8 (1 / 256)).toNat * 256 = 0 := by decide
    rw [NetConn.netChar_hibyte cmdstate]
    exact .part _ _ (.lobyte told queue rfl none rest) (fun _ _ => rfl) rfl
  | lobyte told queue cmdstate count rest =>
    obtain ⟨rfl, rfl⟩ := List.cons.inj isLine
    rw [NetConn.netChar_lobyte cmdstate, count]
    exact .part _ _ (.ctrl told queue rfl rfl rest) (fun _ _ => rfl) rfl
  | ctrl told queue cmdstate count rest =>
    obtain ⟨rfl, rfl⟩ := List.cons.inj isLine
    rw [NetConn.netChar_ctrl cmdstate, netCtrl_op,
      NetConn.settle_count rfl (by rw [count]; exact Nat.one_ne_zero), count]
    exact .part _ _ (.option told queue rfl rfl rest) (fun _ _ => rfl) rfl
  | option told queue cmdstate count rest =>
    obtain ⟨rfl, rfl⟩ := List.cons.inj isLine
    rw [NetConn.netChar_option cmdstate, NetConn.netOption_last count (by rw [rest]; decide), rest,
      List.nil_append]
    have moves := @NetConn.hear_moves { conn with rest := [BitVec.ofNat 8 told.opnum] } _
      told.small empty told.op
    exact .last told queue _ (.escape queue rfl rfl) moves.party moves.sent

/-! ### The invariant -/

/-- The answers to a message, which are no requests. -/
def Told.answers (told : Told) (notes : List Note) : List Told :=
  notes.map fun note => ⟨.of told.op.side.other note.value, told.opnum, note.asks, told.small⟩

theorem Told.bytes_of (which : Side) (opnum : Nat) (value asks : Bool) (small : opnum ≤ 4) :
    Told.bytes ⟨.of which value, opnum, asks, small⟩ = NetConn.notice which opnum value := rfl

theorem Told.bytes_answers (told : Told) (notes : List Note) :
    (told.answers notes).flatMap Told.bytes =
      notes.flatMap fun note => NetConn.notice told.op.side.other told.opnum note.value := by
  unfold Told.answers
  rw [List.flatMap_map]
  rfl

theorem Told.notes_answers (told : Told) (answers : List Note) (opnum : Nat) (which : Side) :
    Told.notes opnum which (told.answers answers) =
      if opnum = told.opnum ∧ which = told.op.side.other then answers else [] := by
  unfold Told.notes Told.answers
  rw [List.filterMap_map]
  induction answers with
  | nil => split <;> rfl
  | cons note rest inductionHypothesis =>
    rw [List.filterMap_cons, inductionHypothesis]
    dsimp only [Function.comp]
    rw [Op.of_side, Op.of_nstate]
    by_cases same : opnum = told.opnum ∧ which = told.op.side.other
    · rw [if_pos same, if_pos same, if_pos ⟨same.1.symm, same.2.symm⟩]
    · rw [if_neg same, if_neg same, if_neg fun both => same ⟨both.1.symm, both.2.symm⟩]

theorem Told.asking_answers (told : Told) (answers : List Note)
    (none : ∀ note ∈ answers, note.asks = false) : Told.asking (told.answers answers) = 0 := by
  unfold Told.asking Told.answers
  induction answers with
  | nil => rfl
  | cons note rest inductionHypothesis =>
    rw [List.map_cons, List.map_cons, List.sum_cons,
      inductionHypothesis fun other member => none other (List.mem_cons_of_mem note member)]
    show note.asks.toNat + 0 = 0
    rw [none note List.mem_cons_self]
    rfl

namespace System

/-- The two stations talk about every option in each direction as `Talks` allows; seen from one of
them. -/
def Spoken (x y : NetConn) (toX toY : List Told) : Prop :=
  ∀ opnum which, Talks (x.party opnum which) (y.party opnum which.other)
    (Told.notes opnum which toX) (Told.notes opnum which.other toY)

theorem Spoken.swap {x y : NetConn} {toX toY : List Told} (spoken : Spoken x y toX toY) :
    Spoken y x toY toX := by
  intro opnum which
  have talks := (spoken opnum which.other).swap
  rw [Side.other_other] at talks
  exact talks

theorem Spoken.congr {x x' y : NetConn} {toX toY : List Told} (spoken : Spoken x y toX toY)
    (party : ∀ opnum which, x'.party opnum which = x.party opnum which) : Spoken x' y toX toY := by
  intro opnum which
  rw [party]
  exact spoken opnum which

theorem Spoken.hear {x x' y : NetConn} {told : Told} {toX toY : List Told}
    (spoken : Spoken x y (told :: toX) toY)
    (party : ∀ opnum which, x'.party opnum which =
      if opnum = told.opnum ∧ which = told.op.side then
        ((x.party told.opnum told.op.side).hear told.op.nstate).1
      else x.party opnum which) :
    Spoken x' y toX
        (toY ++ told.answers ((x.party told.opnum told.op.side).hear told.op.nstate).2) ∧
      ((x.party told.opnum told.op.side).hear told.op.nstate).2.length ≤ told.asks.toNat ∧
      ∀ note ∈ ((x.party told.opnum told.op.side).hear told.op.nstate).2, note.asks = false := by
  have here := spoken told.opnum told.op.side
  have first : Told.notes told.opnum told.op.side (told :: toX) =
      ⟨told.op.nstate, told.asks⟩ :: Told.notes told.opnum told.op.side toX := by
    unfold Told.notes
    rw [List.filterMap_cons_some]
    exact if_pos ⟨rfl, rfl⟩
  rw [first] at here
  obtain ⟨talks, few, none⟩ := here.hear
  refine ⟨fun opnum which => ?_, few, none⟩
  rw [party, Told.notes_append, Told.notes_answers]
  by_cases same : opnum = told.opnum ∧ which = told.op.side
  · rw [if_pos same, same.1, same.2, if_pos ⟨rfl, rfl⟩]
    exact talks
  · have other := spoken opnum which
    have skipped : Told.notes opnum which (told :: toX) = Told.notes opnum which toX := by
      unfold Told.notes
      rw [List.filterMap_cons_none]
      exact if_neg fun both => same ⟨both.1.symm, both.2.symm⟩
    rw [skipped] at other
    rw [if_neg same, if_neg, List.append_nil]
    · exact other
    · rintro ⟨isOpnum, isOther⟩
      refine same ⟨isOpnum, ?_⟩
      rw [← Side.other_other which, isOther, Side.other_other]

theorem Spoken.ask {x x' y : NetConn} {toX toY : List Told} (spoken : Spoken x y toX toY)
    {opnum : Nat} (small : opnum ≤ 4) {which : Side} {value : Bool}
    (party : ∀ opnum' which', x'.party opnum' which' =
      if opnum' = opnum ∧ which' = which then (x.party opnum which).ask else x.party opnum' which')
    (calm : (x.party opnum which).asked = false) (other : (x.party opnum which).state = !value) :
    Spoken x' y toX (toY ++ [⟨.of which.other value, opnum, true, small⟩]) := by
  intro opnum' which'
  have one : Told.notes opnum' which'.other [⟨.of which.other value, opnum, true, small⟩] =
      if opnum' = opnum ∧ which' = which then [⟨value, true⟩] else [] := by
    unfold Told.notes
    rw [List.filterMap_cons, List.filterMap_nil]
    dsimp only
    rw [Op.of_side, Op.of_nstate]
    by_cases same : opnum' = opnum ∧ which' = which
    · rw [if_pos same, if_pos ⟨same.1.symm, by rw [same.2]⟩]
    · rw [if_neg same, if_neg]
      rintro ⟨isOpnum, isOther⟩
      refine same ⟨isOpnum.symm, ?_⟩
      rw [← Side.other_other which', ← isOther, Side.other_other]
  rw [party, Told.notes_append, one]
  by_cases same : opnum' = opnum ∧ which' = which
  · rw [if_pos same, if_pos same, same.1, same.2]
    exact (spoken opnum which).ask calm other
  · rw [if_neg same, if_neg same, List.append_nil]
    exact spoken opnum' which'

/-- What holds after `commands` commands. -/
structure Held (s : System) (commands : Nat) (queue : Bool → List Told) : Prop where
  reads : ∀ side, Reads (s.station side) (s.line side) (queue side)
  empty : ∀ side, (s.station side).toNetBuf.bytes = []
  spoken : ∀ side, Spoken (s.station side) (s.station (!side)) (queue side) (queue (!side))
  written : ∀ side, s.written + 5 * (Told.asking (queue side) + Told.asking (queue (!side))) ≤
    5 * (2 * commands)

theorem length_flatMap_bytes (queue : List Told) :
    (queue.flatMap Told.bytes).length = 5 * queue.length := by
  induction queue with
  | nil => rfl
  | cons told rest inductionHypothesis =>
    rw [List.flatMap_cons, List.length_append, inductionHypothesis, List.length_cons,
      show told.bytes.length = 5 from rfl]
    omega

theorem put_held {s : System} {side : Bool} {conn : NetConn} {commands : Nat}
    (toX toY more : List Told) (readsX : Reads conn (s.line side) toX)
    (readsY : Reads (s.station (!side)) (s.line (!side)) toY)
    (emptyY : (s.station (!side)).toNetBuf.bytes = [])
    (sent : conn.toNetBuf.bytes = more.flatMap Told.bytes)
    (spoken : Spoken conn (s.station (!side)) toX (toY ++ more))
    (written : s.written + 5 * more.length + 5 * (Told.asking toX + Told.asking (toY ++ more)) ≤
      5 * (2 * commands)) :
    ∃ queue, Held (s.put side conn) commands queue := by
  have stationX : (s.put side conn).station side =
      { conn with toNetBuf := conn.toNetBuf.init } := update_self ..
  have stationY : (s.put side conn).station (!side) = s.station (!side) :=
    update_of_ne (by simp) ..
  have lineX : (s.put side conn).line side = s.line side := update_of_ne (by simp) ..
  have lineY : (s.put side conn).line (!side) = s.line (!side) ++ more.flatMap Told.bytes := by
    rw [← sent]
    exact update_self ..
  have total : (s.put side conn).written = s.written + 5 * more.length := by
    show s.written + conn.toNetBuf.bytes.length = _
    rw [sent, length_flatMap_bytes]
  have sides : ∀ {holds : Bool → Prop}, holds side → holds (!side) → ∀ other, holds other := by
    intro holds here there other
    by_cases same : other = side
    · rw [same]
      exact here
    · rw [show other = !side from Bool.eq_not_of_ne same]
      exact there
  refine ⟨Function.update (fun _ => toX) (!side) (toY ++ more), ?_⟩
  have queueX : Function.update (fun _ => toX) (!side) (toY ++ more) side = toX :=
    update_of_ne (by simp) ..
  have queueY : Function.update (fun _ => toX) (!side) (toY ++ more) (!side) = toY ++ more :=
    update_self ..
  have moved : Spoken { conn with toNetBuf := conn.toNetBuf.init } (s.station (!side)) toX
      (toY ++ more) := spoken.congr fun _ _ => rfl
  constructor
  · refine sides ?_ ?_
    · rw [stationX, lineX, queueX]
      exact readsX.congr rfl rfl rfl
    · rw [stationY, lineY, queueY]
      exact readsY.append more
  · refine sides ?_ ?_
    · rw [stationX]
      rfl
    · rw [stationY]
      exact emptyY
  · refine sides ?_ ?_
    · rw [stationX, stationY, queueX, queueY]
      exact moved
    · rw [Bool.not_not, stationX, stationY, queueX, queueY]
      exact moved.swap
  · refine sides ?_ ?_
    · rw [queueX, queueY, total]
      exact written
    · rw [Bool.not_not, queueX, queueY, total, Nat.add_comm (Told.asking (toY ++ more))]
      exact written

theorem start_held (user server : Host) : Held (start user server) 0 fun _ => [] where
  reads := fun side => by cases side <;> exact .escape [] rfl rfl
  empty := fun side => by cases side <;> rfl
  spoken := fun side => by cases side <;> exact fun _ _ => .inl (.quiet rfl rfl rfl)
  written := fun _ => Nat.le_refl 0

theorem Held.receive {s s' : System} {commands : Nat} {queue : Bool → List Told} {side : Bool}
    (held : s.Held commands queue) (taken : s.act (.receive side) = some s') :
    ∃ queue', s'.Held commands queue' := by
  have reads := held.reads side
  have written := held.written side
  unfold act at taken
  dsimp only at taken
  cases line : s.line side with
  | nil =>
    rw [line] at taken
    cases taken
  | cons c rest =>
    rw [line] at taken reads
    rw [← Option.some.inj taken]
    have lineX : Function.update s.line side rest side = rest := update_self ..
    have lineY : Function.update s.line side rest (!side) = s.line (!side) :=
      update_of_ne (by simp) ..
    have takes := reads.netChar (held.empty side)
    revert takes
    generalize (s.station side).netChar c = after
    intro takes
    generalize isQueue : queue side = toX at takes
    cases takes with
    | part toX after reads party sent =>
      refine put_held toX (queue (!side)) [] ?_ ?_ (held.empty (!side)) ?_
        ?_ ?_
      · show Reads after (Function.update s.line side rest side) toX
        rw [lineX]
        exact reads
      · show Reads _ (Function.update s.line side rest (!side)) _
        rw [lineY]
        exact held.reads (!side)
      · exact sent.trans (held.empty side)
      · rw [List.append_nil, ← isQueue]
        exact (held.spoken side).congr party
      · rw [List.append_nil, ← isQueue]
        exact written
    | last told toX after reads party sent =>
      have spoken := held.spoken side
      rw [isQueue] at spoken
      obtain ⟨spoken, few, none⟩ := spoken.hear party
      refine put_held toX (queue (!side)) (told.answers _) ?_ ?_
        (held.empty (!side)) ?_ spoken ?_
      · show Reads after (Function.update s.line side rest side) toX
        rw [lineX]
        exact reads
      · show Reads _ (Function.update s.line side rest (!side)) _
        rw [lineY]
        exact held.reads (!side)
      · rw [sent, held.empty side, List.nil_append, Told.bytes_answers]
      · have asking : Told.asking (queue side) = told.asks.toNat + Told.asking toX := by
          rw [isQueue]
          exact List.sum_cons
        have length : ∀ notes, (told.answers notes).length = notes.length := fun _ =>
          List.length_map ..
        rw [Told.asking_append, Told.asking_answers told _ none, length]
        show s.written + _ + _ ≤ _
        omega

theorem Held.command {s s' : System} {commands : Nat} {queue : Bool → List Told} {side : Bool}
    {op : Op} {opnum : Nat} (held : s.Held commands queue) (apt : s.Apt (.command side op opnum))
    (taken : s.act (.command side op opnum) = some s') :
    ∃ queue', s'.Held (commands + 1) queue' := by
  obtain ⟨one, same⟩ := Option.ite_none_right_eq_some.mp taken
  have small := NetConn.optlength_one.mp one
  have written := held.written side
  rw [← Option.some.inj same]
  cases asks : s.asks side op opnum with
  | false =>
    rw [NetConn.not_asks small op asks]
    refine put_held _ _ [] (held.reads side) (held.reads (!side)) (held.empty (!side))
      (held.empty side) ?_ ?_
    · rw [List.append_nil]
      exact held.spoken side
    · rw [List.append_nil, List.length_nil]
      omega
  | true =>
    obtain ⟨calm, differs⟩ := apt asks
    have moves := NetConn.ask_moves small (held.empty side) op asks
    refine put_held _ _ [⟨.of op.reverse.side.other op.nstate, opnum, true, small⟩]
      ((held.reads side).congr moves.cmdstate moves.count moves.rest) (held.reads (!side))
      (held.empty (!side)) ?_ ?_ ?_
    · rw [moves.sent, held.empty side, List.nil_append, List.flatMap_singleton, Told.bytes_of]
    · exact (held.spoken side).ask small moves.party calm (Bool.eq_not_of_ne differs)
    · rw [Told.asking_append, List.length_singleton,
        show Told.asking [⟨.of op.reverse.side.other op.nstate, opnum, true, small⟩] = 1 from rfl]
      omega

/-- In every run in which a station asks only for what it does not have, with no request of its own
open, the stations agree whenever nothing is under way, and no more than two messages of five
bytes are written for each command. -/
theorem options_agree {user server : Host} {history : List Event} {s : System}
    (run : Transition.Run (Transition.Guarded (Transition.Takes act) Apt) (start user server) history s) :
    s.Agrees ∧ s.written ≤ 5 * (2 * history.countP Event.isCommand) := by
  have held : ∃ queue, s.Held (history.countP Event.isCommand) queue := by
    refine run.invariant (fun history s => ∃ queue, s.Held (history.countP Event.isCommand) queue)
      ⟨_, start_held user server⟩ ?_
    rintro history state event next ⟨queue, held⟩ ⟨apt, taken⟩
    rw [List.countP_append]
    cases event with
    | command side op opnum => exact held.command apt taken
    | receive side => exact held.receive taken
  obtain ⟨queue, held⟩ := held
  refine ⟨fun empty empty' side opnum => ?_, ?_⟩
  · have none : ∀ side, queue side = [] := by
      intro side
      have reads := held.reads side
      have line : s.line side = [] := by cases side <;> assumption
      rw [line] at reads
      exact reads.empty
    have agree := fun which => (held.spoken side opnum which)
    simp only [none] at agree
    exact ⟨(agree .will).agree.1, fun which => (agree which).agree.2.1⟩
  · have written := held.written false
    omega

/-- Both stations ask for binary at once; then the server turns it off, and the user asks for echo.
-/
def agreeing : List Event :=
  [Event.command false .do_ 1, .command true .will 1] ++ List.replicate 5 (Event.receive true) ++
    List.replicate 5 (Event.receive false) ++ [Event.command true .wont 1] ++
    List.replicate 5 (Event.receive false) ++ [Event.command false .do_ 0] ++
    List.replicate 10 (Event.receive true) ++ List.replicate 5 (Event.receive false)

def someHost : Host := ⟨0o10, 0o30, 0o177, false⟩

theorem options_agree_agreeing :
    (Transition.last act (start someHost someHost) agreeing).Agrees ∧
      (Transition.last act (start someHost someHost) agreeing).written ≤
        5 * (2 * agreeing.countP Event.isCommand) :=
  options_agree (Transition.run_can (by decide +kernel))

/-- The user asks twice for the same. -/
def asking : List Event :=
  [Event.command false .do_ 1] ++ List.replicate 5 (Event.receive true) ++
    List.replicate 5 (Event.receive false) ++ [Event.command false .do_ 1] ++
    List.replicate 5 (Event.receive true)

theorem asking_stays_open :
    ∃ s, Transition.Run (Transition.Takes act) (start someHost someHost) asking s ∧ ¬ s.Agrees :=
  ⟨_, Transition.run_all (by decide +kernel), fun agrees =>
    Bool.noConfusion ((agrees (by decide +kernel) (by decide +kernel) false 1).2 .will)⟩

end System

end NetworkUnix.Telnet
