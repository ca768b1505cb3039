/-
This file says how `PsipOut` uses the window that the other side has offered. The data of a
segment ends at the window, at the segment size or at the end of the ring, whichever comes
first; one byte goes into a window that is closed, as the rule for probes allows; and with
authorization the data may end at a change of the security level. It holds while the window
is below half its range, as the field is kept in a signed word, and the window is counted
from LeftSeq while ring and numbers agree.
-/

import NetworkUnix.UserTcp.SendSide

namespace NetworkUnix.UserTcp

/-! ### The copy loop -/

/-- The next cell of the ring. -/
def nextCell (cell : Int) : Int := if cell + 1 = rbuffsize then 0 else cell + 1

/-- A text of `room` bytes, or of none when there is no room. With authorization it may be shorter,
next to a cell of another security level. -/
structure Extent (p : Params) (flagBuff : Int → Byte) (segSec : Byte) (room start : Int)
    (text : List Byte) : Prop where
  most : (text.length : Int) ≤ max room 0
  some : 0 < room → text ≠ []
  whole : p.auth = false → (text.length : Int) = max room 0
  level : (text.length : Int) < room → ∃ k, (k = text.length ∨ k + 1 = text.length) ∧
    levelOf (flagBuff (nextCell^[k] start)) ≠ segSec

namespace Extent

variable {p : Params} {flagBuff : Int → Byte} {segSec : Byte} {room start : Int} {text : List Byte}

theorem nothing (noRoom : room ≤ 0) : Extent p flagBuff segSec room start [] where
  most := le_max_right room 0
  some := fun positive => absurd positive (by omega)
  whole := fun _ => (max_eq_right noRoom).symm
  level := fun less => absurd less (by rw [List.length_nil]; omega)

theorem stop (byte : Byte) (positive : 0 < room) (auth : p.auth = true) {cell : Int}
    (other : levelOf (flagBuff cell) ≠ segSec) (near : cell = start ∨ cell = nextCell start) :
    Extent p flagBuff segSec room start [byte] where
  most := by rw [List.length_singleton]; omega
  some := fun _ => List.cons_ne_nil _ _
  whole := fun off => absurd (off.symm.trans auth) Bool.false_ne_true
  level := fun _ => by
    rcases near with rfl | rfl
    · exact ⟨0, .inr rfl, other⟩
    · exact ⟨1, .inl rfl, other⟩

theorem cons (byte : Byte) (positive : 0 < room)
    (rest : Extent p flagBuff segSec (room - 1) (nextCell start) text) :
    Extent p flagBuff segSec room start (byte :: text) where
  most := by
    have := rest.most
    rw [List.length_cons]
    omega
  some := fun _ => List.cons_ne_nil _ _
  whole := fun off => by
    have := rest.whole off
    rw [List.length_cons]
    omega
  level := fun less => by
    rw [List.length_cons] at less ⊢
    obtain ⟨k, near, other⟩ := rest.level (by omega)
    exact ⟨k + 1, by omega, by rw [Function.iterate_succ_apply]; exact other⟩

theorem of_room {room' : Int} (extent : Extent p flagBuff segSec room' start text)
    (same : max room' 0 = max room 0) : Extent p flagBuff segSec room start text where
  most := same ▸ extent.most
  some := fun positive => extent.some (by omega)
  whole := fun off => same ▸ extent.whole off
  level := fun less => extent.level (by omega)

end Extent

theorem Tcb.copyLoop_extent (p : Params) (t : Tcb) (segSec : Byte) (more i : Nat)
    (sPtr fPtr : Int) (near : p.auth = true → fPtr = sPtr ∨ fPtr = sPtr + 1) :
    Extent p t.flagBuff segSec (min more (min (p.segData - i) (t.sndWindow - t.dataSent - i))) sPtr
      (t.copyLoop p segSec more i sPtr fPtr) := by
  induction more generalizing i sPtr fPtr with
  | zero => exact .nothing (by omega)
  | succ more inductionHypothesis =>
    have moved : (if sPtr + 1 = (rbuffsize : Int) then 0 else sPtr + 1) = nextCell sPtr := rfl
    have here : p.auth = true → ((if sPtr + 1 = (rbuffsize : Int) then 0 else fPtr) = sPtr ∨
          (if sPtr + 1 = (rbuffsize : Int) then 0 else fPtr) = nextCell sPtr) ∧
        ((if sPtr + 1 = (rbuffsize : Int) then 0 else fPtr) + 1 = nextCell sPtr ∨
          (if sPtr + 1 = (rbuffsize : Int) then 0 else fPtr) + 1 = nextCell sPtr + 1) := by
      intro auth
      have near := near auth
      unfold nextCell
      split <;> omega
    have room : min (more : Int)
          (min (p.segData - (i + 1 : Nat)) (t.sndWindow - t.dataSent - (i + 1 : Nat))) =
        min ((more + 1 : Nat) : Int) (min (p.segData - i) (t.sndWindow - t.dataSent - i)) - 1 := by
      omega
    unfold Tcb.copyLoop
    dsimp only
    rw [moved]
    generalize (if sPtr + 1 = (rbuffsize : Int) then 0 else fPtr) = fHere at here ⊢
    split
    next open_ =>
      have positive : 0 <
          min ((more + 1 : Nat) : Int) (min (p.segData - i) (t.sndWindow - t.dataSent - i)) := by
        omega
      split
      next auth =>
        obtain ⟨compared, follows⟩ := here auth
        split
        next =>
          have rest := inductionHypothesis (i + 1) _ _ fun _ => follows
          rw [room] at rest
          exact rest.cons _ positive
        next other => exact .stop _ positive auth other compared
      next off =>
        have rest := inductionHypothesis (i + 1) (nextCell sPtr) fHere fun auth => absurd auth off
        rw [room] at rest
        exact rest.cons _ positive
    next shut => exact .nothing (by omega)

/-! ### The text of a segment -/

/-- The urgent bit goes into the next segment. -/
def Tcb.urgent (t : Tcb) : Bool := t.begun.tcpFlags.urg

/-- The window is closed: it is zero, or the data sent fills it and there is urgent data. -/
def Tcb.shut (t : Tcb) (window : Nat) : Prop :=
  window = 0 ∨ t.urgent = true ∧ (window : Int) ≤ t.dataSent

/-- The data in the ring behind what is sent, the segment size and the window behind what is sent,
whichever is least. -/
def Tcb.room (p : Params) (t : Tcb) (window : Nat) : Int :=
  min t.remData (min p.segData (window - t.dataSent))

/-- The text goes as far as it can: one byte into a closed window, when the rule for probes allows
it, and as much as there is room for into an open one. -/
structure Tcb.UsesWindow (p : Params) (t : Tcb) (window : Nat) (text : List Byte) : Prop where
  idle : t.remData = 0 → text = []
  probe : t.remData ≠ 0 → t.shut window → text.length = t.mayProbe.toNat
  open_ : t.remData ≠ 0 → ¬t.shut window →
    Extent p t.flagBuff (levelOf (t.flagBuff t.dataNxt)) (t.room p window) t.dataNxt text

theorem Tcb.dataText_window (p : Params) (t : Tcb) {window : Nat}
    (offered : t.sndWindow = window) : t.UsesWindow p window (t.begun.dataText p) := by
  obtain ⟨urgentPtr, urg, begun⟩ := t.begun_eq
  have rem : t.begun.remData = t.remData := by rw [begun]; rfl
  have sent : t.begun.dataSent = t.dataSent := by rw [begun]; rfl
  have probes : t.begun.mayProbe = t.mayProbe := by rw [begun]; rfl
  have next : t.begun.dataNxt = t.dataNxt := by rw [begun]
  have flags : t.begun.flagBuff = t.flagBuff := by rw [begun]
  have offer : t.begun.sndWindow = window := by rw [begun]; exact offered
  have held : t.begun.heldUp = true ↔ t.shut window := by
    unfold Tcb.heldUp Tcb.shut Tcb.urgent
    rw [offer, sent]
    simp
  clear begun
  unfold Tcb.dataText
  rw [rem, probes, next, flags]
  refine ⟨fun none => by rw [if_pos none], fun some shut => ?_, fun some shut => ?_⟩
  · rw [if_neg some, if_pos (held.mpr shut)]
    cases t.mayProbe <;> rfl
  · rw [if_neg some, if_neg (fun up => shut (held.mp up))]
    have copied := t.begun.copyLoop_extent p (levelOf (t.flagBuff t.dataNxt)) t.remData.toNat 0
      t.dataNxt t.dataNxt fun _ => .inl rfl
    rw [offer, sent, flags] at copied
    refine copied.of_room ?_
    unfold Tcb.room
    omega

/-! ### The segments that a call sends -/

/-- The text of the segments that were handed to `NetOut` in between. -/
def Conn.sentText (c after : Conn) : List Byte :=
  (after.netOut.take (after.netOut.length - c.netOut.length)).flatMap Sent.text

theorem Conn.transmit_netOut (p : Params) (c : Conn) (t : Tcb) (text : List Byte) (wrote : Wrote) :
    (c.transmit p t text wrote).1.netOut =
      t.leaders (levelOf (t.flagBuff t.dataNxt)) text :: c.netOut := by
  unfold Conn.transmit
  dsimp only
  split
  · rfl
  · split
    · unfold Conn.qTcb
      rfl
    · rfl

theorem Conn.outSegment_netOut (p : Params) (c : Conn) (wrote : Wrote) :
    (c.outSegment p wrote).1.netOut = c.netOut ∧ c.tcb.begun.dataText p = [] ∨
      ∃ seg, (c.outSegment p wrote).1.netOut = seg :: c.netOut ∧
        seg.text = c.tcb.begun.dataText p := by
  have begun : c.tcb.firstSyn.urgentBit = c.tcb.begun := rfl
  unfold Conn.outSegment
  dsimp only
  rw [begun]
  split
  next nothing => exact .inl ⟨rfl, nothing.1⟩
  next => exact .inr ⟨_, Conn.transmit_netOut p c _ _ wrote, rfl⟩

theorem Conn.psipOut_sentText (p : Params) {c : Conn} {finish wrote : Wrote}
    (finished : c.partWr = true → finish = .all) (sending : c.tcb.flags.nomoseg = false) :
    c.sentText (c.psipOut p finish wrote).1 = c.tcb.begun.dataText p := by
  have goes : (c.partWr && decide (finish ≠ .all)) = false := by
    cases rest : c.partWr with
    | false => rfl
    | true => rw [finished rest]; rfl
  unfold Conn.psipOut
  rw [goes, if_neg Bool.false_ne_true]
  dsimp only
  rw [sending, if_neg Bool.false_ne_true]
  obtain ⟨netOut, none⟩ | ⟨seg, netOut, text⟩ :=
    Conn.outSegment_netOut p { c with partWr := false } wrote
  · have none : c.tcb.begun.dataText p = [] := none
    unfold Conn.sentText
    rw [netOut, none, Nat.sub_self]
    rfl
  · have text : seg.text = c.tcb.begun.dataText p := text
    unfold Conn.sentText
    rw [netOut, List.length_cons, Nat.add_sub_cancel_left, ← text]
    exact List.append_nil _

/-! ### The window that was offered -/

/-- A connection, and the window in the last segment that it has accepted; before any is accepted,
the window with which it is opened. -/
structure Listening where
  conn : Conn
  window : BitVec 16

namespace Listening

/-- The window after an event. A segment is accepted when it belongs to the connection and is no
reset. -/
def heard (p : Params) (s : Listening) : Event → BitVec 16
  | .psipIn seg _ => if s.conn.tcb.found p seg && !seg.control.rst then seg.window else s.window
  | _ => s.window

def act (p : Params) (s : Listening) (e : Event) : Option Listening :=
  (UserTcp.act p s.conn e).map fun after => ⟨after, s.heard p e⟩

/-- A connection that is just opened. -/
def opened (p : Params) (free : Tcb) (mode : Int) (foreign : Skt) (port : Int) : Listening :=
  ⟨openConn p free mode foreign port, 1⟩

end Listening

/-- SndWindow is the window that was offered, and a connection that may send no more is closed. -/
structure Conn.Heard (c : Conn) (window : BitVec 16) : Prop where
  window : c.tcb.sndWindow = window.toInt
  mute : c.tcb.flags.nomoseg = true → c.tcb.state = .closed
  noSyn : c.tcb.tcpFlags.syn = false
  noFin : c.tcb.tcpFlags.fin = false

namespace Conn.Heard

variable {p : Params} {c : Conn} {window : BitVec 16}

theorem opened {free : Tcb} {mode : Int} {foreign : Skt} {port : Int} :
    Conn.Heard (openConn p free mode foreign port) 1 where
  window := rfl
  mute := fun muted => absurd muted Bool.false_ne_true
  noSyn := rfl
  noFin := rfl

section

variable (held : c.Heard window)
include held

theorem enter_closed : (c.enter .closed).Heard window :=
  { held with mute := fun _ => rfl }

theorem sending (alive : c.tcb.state ≠ .closed) :
    c.tcb.flags.nomoseg = false := by
  cases muted : c.tcb.flags.nomoseg with
  | false => rfl
  | true => exact absurd (held.mute muted) alive

theorem enter (alive : c.tcb.state ≠ .closed) (state : ConnState) :
    (c.enter state).Heard window :=
  { held with
    mute := fun muted => absurd ((held.sending alive).symm.trans muted) Bool.false_ne_true }

/-! ### The user and the main loop -/

theorem oclose (finNum : Seq) : (c.oclose finNum).Heard window := by
  unfold Conn.oclose
  split
  · exact { held.enter_closed with }
  · exact { held.enter_closed with }
  · exact { held with }
  · exact { held with }
  · exact { held with }
  · exact { held with }

theorem oabort : c.oabort.Heard window := by
  unfold Conn.oabort
  split
  · exact { held with }
  · exact { held with }
  · exact { held with }
  · exact { held with }

theorem ourgent (byteNo : Seq) : (c.ourgent byteNo).Heard window := by
  unfold Conn.ourgent
  dsimp only
  split
  · exact { held with }
  · split
    · exact { held with }
    · exact { held with }

theorem retran (p : Params) : (c.retran p).Heard window := by
  unfold Conn.retran
  dsimp only
  split
  · exact { held with }
  · exact { held with }

end

theorem turn {r : Reading} (held : r.conn.Heard window) (p : Params) :
    (r.turn p).conn.Heard window := by
  unfold Reading.turn
  split
  · exact held
  · dsimp only
    split
    · exact { held with }
    · split
      · exact { held with }
      · split
        · split
          · exact { held with }
          · exact { held with }
        · exact held

section

variable (held : c.Heard window)
include held

theorem dataIn (p : Params) : (c.dataIn p).Heard window := by
  have loops : ∀ (fuel : Nat) (r : Reading), r.conn.Heard window →
      (Reading.loop p fuel r).conn.Heard window := fun fuel r start =>
    @Reading.loop_keeps p (fun r => r.conn.Heard window) (fun r held _ _ => held.turn p) fuel r
      start
  unfold Conn.dataIn
  dsimp only
  split
  · exact held
  · have filled := loops (portSize c.sendPort : Int).toNat
      ⟨c, around (c.tcb.dataHd - 1) c.tcb.dataTl, portSize c.sendPort, false⟩ held
    split
    · exact { filled with }
    · exact filled

/-! ### Segments -/

theorem allAcked (ack : Seq) : (c.allAcked ack).Heard window := by
  unfold Conn.allAcked
  split
  · split
    · exact { held.enter_closed with }
    · exact { held with }
  · exact held

theorem ackEstab (seg : Segment) : (c.ackEstab seg).Heard window := by
  unfold Conn.ackEstab
  split
  next state => exact { held.enter (by rw [state]; exact ConnState.noConfusion) .estab with }
  next => exact held

theorem procBack : c.procBack.Heard window := by
  unfold Conn.procBack
  split
  · exact { held with }
  · exact held

theorem ackWork (seg : Segment) : (c.ackWork seg).Heard window := by
  have work : c.makeWrk.Heard window := { held with }
  have counted : (c.makeWrk.ackEstab seg).countAnew.Heard window := { work.ackEstab seg with }
  exact counted.procBack

theorem goodAck (seg : Segment) : (c.goodAck seg).Heard window := by
  have acked : Conn.Heard { c.allAcked seg.ackNo with
      tcb := (c.allAcked seg.ackNo).tcb.ackData seg.ackNo } window :=
    { held.allAcked seg.ackNo with }
  unfold Conn.goodAck
  dsimp only
  split
  · exact acked
  · exact acked.ackWork seg

theorem badAck (seg : Segment) : (c.badAck seg).Heard window := by
  unfold Conn.badAck
  split
  all_goals first | exact held | split <;> first | exact held | exact { held with }

theorem ackIn (seg : Segment) : (c.ackIn seg).Heard window := by
  unfold Conn.ackIn
  split
  · split
    · exact held.goodAck seg
    · exact held.badAck seg
  · exact held

theorem resetIn (p : Params) : (c.resetIn p).Heard window := by
  have queued : ∀ c : Conn, c.Heard window → (c.qTcb p).Heard window := fun c held => { held with }
  unfold Conn.resetIn
  split
  · exact held
  · exact held
  · refine queued _ ?_
    dsimp only
    split
    · exact { held with }
    · exact { held with }
  next state =>
    have unmuted := held.sending (by rw [state]; exact ConnState.noConfusion)
    exact { held with mute := fun muted => absurd (unmuted.symm.trans muted) Bool.false_ne_true }
  · exact { held with mute := fun _ => rfl }

theorem windowIn (seg : Segment) : (c.windowIn seg).Heard seg.window :=
  { held with window := rfl }

theorem boostPrec (p : Params) (seg : Segment) :
    (c.boostPrec p seg).Heard window := by
  unfold Conn.boostPrec
  split
  · exact held
  · exact { held with }

theorem bindSpt (p : Params) (seg : Segment) :
    (c.bindSpt p seg).Heard window := by
  unfold Conn.bindSpt
  split
  · exact { held with }
  · exact held

theorem openIn (state : c.tcb.state = .opened) (p : Params)
    (seg : Segment) : (c.openIn p seg).Heard window := by
  unfold Conn.openIn
  split
  · have bound : (c.bindSkt seg).Heard window := { held with }
    have known := (bound.boostPrec p seg).bindSpt p seg
    have same : (((c.bindSkt seg).boostPrec p seg).bindSpt p seg).tcb.state = c.tcb.state := by
      unfold Conn.bindSpt Conn.boostPrec
      split <;> split <;> rfl
    have next : Conn.Heard
        (((((c.bindSkt seg).boostPrec p seg).bindSpt p seg).ackSyn seg).noteISN seg).makeWrk
        window :=
      { known with }
    refine next.enter ?_ .synrecd
    show (((c.bindSkt seg).boostPrec p seg).bindSpt p seg).tcb.state ≠ .closed
    rw [same, state]
    exact ConnState.noConfusion
  · exact held

theorem synsentIn (state : c.tcb.state = .synsent) (p : Params)
    (seg : Segment) (ackOk : Bool) : (c.synsentIn p seg ackOk).Heard window := by
  unfold Conn.synsentIn
  split
  · have acks : (c.ackSyn seg).Heard window := { held with }
    have known := acks.boostPrec p seg
    have alive : ((c.ackSyn seg).boostPrec p seg).tcb.state ≠ .closed := by
      have same : ((c.ackSyn seg).boostPrec p seg).tcb.state = c.tcb.state := by
        unfold Conn.boostPrec
        split <;> rfl
      rw [same, state]
      exact ConnState.noConfusion
    have next : (((c.ackSyn seg).boostPrec p seg).synsentNext seg ackOk).Heard window := by
      unfold Conn.synsentNext
      split
      · exact { known.enter alive .estab with }
      · exact { known with
          mute := fun muted =>
            absurd ((known.sending alive).symm.trans muted) Bool.false_ne_true }
    exact { next with }
  · exact held

theorem urgentIn (seg : Segment) : (c.urgentIn seg).Heard window := by
  unfold Conn.urgentIn
  dsimp only
  split
  · exact { held with }
  · exact held

theorem finTaken : c.finTaken.Heard window := by
  unfold Conn.finTaken
  split
  next state => exact { held.enter (by rw [state]; exact ConnState.noConfusion) .closewait with }
  next state =>
    split
    · exact { held.enter_closed with }
    · have unmuted := held.sending (by rw [state]; exact ConnState.noConfusion)
      exact { held with mute := fun muted => absurd (unmuted.symm.trans muted) Bool.false_ne_true }
  · exact { held with }

theorem textIn (seg : Segment) (cap : Int) :
    (c.textIn seg cap).Heard window := by
  have took : (c.takeOctets seg).Heard window := { held with }
  unfold Conn.textIn
  split
  · split
    · exact took.finTaken
    · exact took
  · exact held

theorem estabIn (p : Params) (seg : Segment) (cap : Int) :
    (c.estabIn p seg cap).Heard window := by
  have urgent := held.urgentIn seg
  have offered : ((c.urgentIn seg).offer p cap).Heard window := { urgent with }
  unfold Conn.estabIn
  split
  · exact { offered.textIn seg cap with }
  · exact urgent

theorem stateIn (p : Params) (seg : Segment) (cap : Int) (ackOk : Bool) :
    (c.stateIn p seg cap ackOk).Heard window := by
  unfold Conn.stateIn
  split
  next state => exact held.openIn state p seg
  · exact held
  · exact held
  next state => exact held.synsentIn state p seg ackOk
  · exact held.estabIn p seg cap
  · exact held.estabIn p seg cap
  · exact held.estabIn p seg cap
  · exact held.estabIn p seg cap

theorem psipIn (p : Params) (seg : Segment) (cap : Int) :
    (c.psipIn p seg cap).Heard
      (if c.tcb.found p seg && !seg.control.rst then seg.window else window) := by
  have host : c.hostBack.Heard window := { held with }
  have acked := host.ackIn seg
  unfold Conn.psipIn Conn.receive
  cases c.tcb.found p seg with
  | false => exact held
  | true =>
    cases seg.control.rst with
    | true => exact acked.resetIn p
    | false => exact (acked.windowIn seg).stateIn p seg cap _

/-! ### `PsipOut` -/

theorem psipOut (p : Params) (finish wrote : Wrote)
    (alive : (Conn.afterOut (c.psipOut p finish wrote)).live = true) :
    (Conn.afterOut (c.psipOut p finish wrote)).Heard window := by
  have did := c.psipOut_out p finish wrote held.noSyn held.noFin
  revert did alive
  generalize c.psipOut p finish wrote = out
  obtain ⟨after, ret⟩ := out
  intro alive did
  have did : Conn.Out p c after ret := did
  have kept : after.Heard window → (Conn.afterOut (after, ret)).Heard window := by
    intro kept
    cases ret with
    | remove => exact { kept with }
    | keep => exact kept
    | requeue => exact kept
    | abort => exact absurd alive Bool.false_ne_true
  cases did with
  | waits => exact kept held
  | mute nomoseg => exact kept { held with }
  | quiet sending noSyn noFin noText noFlags urgentPtr => exact kept { held with }
  | sends sending seg urgentPtr partWr text seqNo ackNo syn fin rst level live =>
    exact kept { held with
      mute := fun muted => absurd (sending.symm.trans muted) Bool.false_ne_true
      noSyn := rfl
      noFin := rfl }
  | aborts seg t partWr text seqNo ackNo syn fin rst level =>
    exact absurd alive Bool.false_ne_true

end

end Conn.Heard

theorem Listening.step {p : Params} {s s' : Listening} {e : Event}
    (held : s.conn.live = true → s.conn.Heard s.window) (taken : s.act p e = some s') :
    s'.conn.live = true → s'.conn.Heard s'.window := by
  intro alive
  unfold Listening.act at taken
  obtain ⟨after, taken, rfl⟩ := Option.map_eq_some_iff.mp taken
  unfold UserTcp.act at taken
  split at taken
  next live =>
    have held := held live
    cases e with
    | control secur flags count =>
      dsimp only at taken
      split at taken
      · cases taken
      · cases taken
        exact { held with }
    | text bytes =>
      dsimp only at taken
      split at taken
      · cases taken
        exact { held with }
      · cases taken
    | oclose finNum =>
      cases taken
      exact held.oclose finNum
    | oabort =>
      cases taken
      exact held.oabort
    | ourgent byteNo =>
      cases taken
      exact held.ourgent byteNo
    | dataIn =>
      cases taken
      exact held.dataIn p
    | psipOut finish wrote =>
      dsimp only at taken
      split at taken
      · cases taken
        exact held.psipOut p finish wrote alive
      · cases taken
    | psipIn seg cap =>
      cases taken
      exact held.psipIn p seg cap
    | retran =>
      dsimp only at taken
      split at taken
      · cases taken
        exact held.retran p
      · cases taken
  next => cases taken

theorem Listening.run_heard {p : Params} {free : Tcb} {mode : Int} {foreign : Skt} {port : Int}
    {history : List Event} {s : Listening}
    (run : Transition.Run (Transition.Takes (Listening.act p))
      (Listening.opened p free mode foreign port) history s) :
    s.conn.live = true → s.conn.Heard s.window :=
  run.always (fun s => s.conn.live = true → s.conn.Heard s.window) (fun _ => Conn.Heard.opened)
    fun _ _ _ held taken => Listening.step held taken

/-! ### The window counted from LeftSeq -/

/-- The next segment has no SYN, and the data sent is what lies between LeftSeq and SendSeq. -/
def Tcb.Level (t : Tcb) : Prop :=
  t.synDue = false ∧ ((t.sendSeq - t.leftSeq).toNat : Int) = t.dataSent

theorem Sender.levels {c : Conn} {l s m : Nat} (held : Sender Whole c l s m 0 0)
    (state : c.tcb.state = .estab ∨ c.tcb.state = .closewait) : c.tcb.Level := by
  have heard := held.heard state
  have early := held.early (.inr state)
  have acked := held.acked
  have sent := held.sent
  have near := held.near
  have total := held.total
  have small := held.small
  constructor
  · unfold Tcb.synDue
    rw [decide_eq_false_iff_not, held.send, held.isn]
    intro same
    have := num_inj (b := 0) same (by omega) (by omega)
    omega
  · have apart : c.tcb.sendSeq - c.tcb.leftSeq = num (s - l) := by
      rw [held.send, held.left, show num s = num (s - l) + num l by
        rw [num_add, Nat.sub_add_cancel acked], BitVec.add_sub_cancel]
    rw [held.stored.dataSent_eq, apart]
    unfold num
    rw [BitVec.toNat_ofNat, Nat.mod_eq_of_lt (by omega)]
    omega

/-! ### Every run -/

/-- In every run and for every window below half the range, a call of `PsipOut` in an established
state sends as much as the window, the segment size and the ring allow; and while numbers and ring
agree, the window is counted from LeftSeq. -/
theorem offer_used {p : Params} {free : Tcb} {mode : Int} {foreign : Skt} {port : Int}
    {history : List Event} {s : Listening}
    (run : Transition.Run (Transition.Takes (Listening.act p))
      (Listening.opened p free mode foreign port) history s)
    (live : s.conn.live = true)
    (state : s.conn.tcb.state = .estab ∨ s.conn.tcb.state = .closewait)
    (positive : s.window.toNat < 2 ^ 15) :
    (∀ finish wrote, (s.conn.partWr = true → finish = .all) →
      s.conn.tcb.UsesWindow p s.window.toNat
        (s.conn.sentText (s.conn.psipOut p finish wrote).1)) ∧
    (Transition.Run (Transition.Guarded (Transition.Takes (UserTcp.act p)) (SideCond p))
      (openConn p free mode foreign port) history s.conn → s.conn.tcb.Level) := by
  have held := Listening.run_heard run live
  constructor
  · intro finish wrote finished
    have sending := held.sending (by rcases state with state | state <;> rw [state] <;>
      exact ConnState.noConfusion)
    rw [Conn.psipOut_sentText p finished sending]
    refine s.conn.tcb.dataText_window p ?_
    rw [held.window, BitVec.toInt_eq_toNat_of_lt (by omega)]
  · intro guarded
    obtain ⟨_, _, _, sender⟩ := (SideHeld.run guarded).1 live
    exact sender.levels state

theorem Listening.last_conn (p : Params) (s : Listening) (events : List Event) :
    (Transition.last (Listening.act p) s events).conn =
      Transition.last (UserTcp.act p) s.conn events := by
  unfold Transition.last
  induction events generalizing s with
  | nil => rfl
  | cons event rest inductionHypothesis =>
    rw [List.foldl_cons, List.foldl_cons, inductionHypothesis]
    unfold Listening.act
    cases UserTcp.act p s.conn event <;> rfl

theorem nil_fits : ([] : List Byte).length ≤ tcpinsz := Nat.zero_le _

/-- The SYN is answered by a segment with a window. -/
def answered (window : BitVec 16) (spt : Option Spt) : List Event :=
  [.psipOut .all .all,
    .psipIn { trySeg 100 1 { syn := true, ack := true } [] window nil_fits with spt } 100]

/-- Three bytes are written and read, into a window of two. -/
def offeredRun (window : BitVec 16) : List Event :=
  answered window none ++ [Event.control 0 1 3, .text [5, 6, 7], .dataIn]

/-- The connection after a run. -/
def Listening.after (p : Params) (free : Tcb) (history : List Event) : Listening :=
  Transition.last (Listening.act p) (Listening.opened p free 0 trySkt 7) history

theorem offer_used_two :
    (∀ finish wrote, ((Listening.after tryParams tryTcb (offeredRun 2)).conn.partWr = true →
        finish = .all) →
      (Listening.after tryParams tryTcb (offeredRun 2)).conn.tcb.UsesWindow tryParams
        (Listening.after tryParams tryTcb (offeredRun 2)).window.toNat
        ((Listening.after tryParams tryTcb (offeredRun 2)).conn.sentText
          ((Listening.after tryParams tryTcb (offeredRun 2)).conn.psipOut tryParams
            finish wrote).1)) ∧
      (Listening.after tryParams tryTcb (offeredRun 2)).conn.tcb.Level := by
  have run : Transition.Run (Transition.Takes (Listening.act tryParams))
      (Listening.opened tryParams tryTcb 0 trySkt 7) (offeredRun 2)
      (Listening.after tryParams tryTcb (offeredRun 2)) :=
    Transition.run_all (by decide +kernel)
  have used := offer_used run (by decide +kernel) (by decide +kernel) (by decide +kernel)
  refine ⟨used.1, used.2 ?_⟩
  rw [Listening.after, Listening.last_conn]
  exact Transition.run_can (by decide +kernel)

/-- What one would expect: the data goes up to the window as it is counted from LeftSeq, the segment
size and the end of the ring, whichever comes first, and into a window of zero goes one byte at
most. -/
def Listening.Expected (p : Params) (s : Listening) (text : List Byte) : Prop :=
  if s.window = 0 then text.length ≤ 1
  else (text.length : Int) = max 0 (min s.conn.tcb.remData (min p.segData
    (s.window.toNat - (s.conn.tcb.sendSeq - s.conn.tcb.leftSeq).toNat)))

instance (p : Params) (s : Listening) (text : List Byte) : Decidable (s.Expected p text) :=
  inferInstanceAs (Decidable (ite _ _ _))

/-- A run to an established connection whose next segment is not what one would expect. -/
def Unexpected (p : Params) (free : Tcb) (history : List Event) : Prop :=
  Transition.Run (Transition.Takes (Listening.act p)) (Listening.opened p free 0 trySkt 7) history
    (Listening.after p free history) ∧
  (Listening.after p free history).conn.tcb.state = .estab ∧
  ¬ (Listening.after p free history).Expected p
    ((Listening.after p free history).conn.sentText
      ((Listening.after p free history).conn.psipOut p .all .all).1)

/-- An urgent byte goes behind a full window; a segment ends where the security level has changed;
nothing is sent into a window of 40000; and nothing is sent into a window of one byte when ring and
numbers have come apart after a reset. -/
theorem window_unexpected :
    Unexpected tryParams tryTcb (offeredRun 2 ++ [Event.psipOut .all .all, .ourgent 2]) ∧
    Unexpected { tryParams with auth := true } { tryTcb with scMaxOut := 1 }
      (answered 10 (some ⟨0, 0⟩) ++
        [Event.control 0 1 2, .text [5, 6], .control 1 1 2, .text [7, 8], .dataIn]) ∧
    Unexpected tryParams tryTcb (offeredRun 40000) ∧
    Unexpected tryParams tryTcb
      ([Event.control 0 1 2, .text [5, 6], .dataIn, .psipOut .all .all,
        .psipIn (trySeg 0 0 { rst := true } [] 10) 100] ++ answered 1 none) := by
  refine ⟨⟨Transition.run_all ?_, ?_, ?_⟩, ⟨Transition.run_all ?_, ?_, ?_⟩,
    ⟨Transition.run_all ?_, ?_, ?_⟩, ⟨Transition.run_all ?_, ?_, ?_⟩⟩ <;> decide +kernel

end NetworkUnix.UserTcp
