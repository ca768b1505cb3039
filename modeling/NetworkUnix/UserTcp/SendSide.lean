/-
This file states what the send side promises to the user and proves it for every run: the
sequence numbers are in order, the ring holds what is read and not acknowledged, every
segment carries the bytes of the user that belong to its numbers, and the FIN goes behind
them all. It fails when the ring and the numbers come apart, as after a reset in SYNSENT or
in SYNRECD that finds data in the ring, and the conditions on the events say when.
-/

import NetworkUnix.UserTcp.Sender

namespace NetworkUnix.UserTcp

open Circular

/-! ### What is promised -/

/-- The number of the first byte of the text, behind a SYN. -/
def Sent.textAt (seg : Sent) (position : Nat) : Nat := position + seg.control.syn.toNat

/-- Byte `k` of the user is in one of the segments; it has number `k + 1`. -/
def Carried (sent : List Sent) (k : Nat) : Prop :=
  ∃ seg ∈ sent, ∃ position, seg.seqNo = num position ∧ seg.textAt position ≤ k + 1 ∧
    k + 1 < seg.textAt position + seg.text.length

/-- A segment carries the bytes of the user that belong to its numbers, and a FIN at the number
behind them all, when they have all been sent before. -/
def Sent.Fits (written : List Byte) (earlier : List Sent) (seg : Sent) : Prop :=
  ∃ position ≤ written.length + 2, seg.seqNo = num position ∧
    (∀ i < seg.text.length, 1 ≤ seg.textAt position + i ∧
      written[seg.textAt position + i - 1]? = seg.text[i]?) ∧
    (seg.control.fin = true →
      seg.textAt position + seg.text.length = written.length + 1 ∧
        ∀ k < written.length, Carried earlier k)

/-- All the segments do; the list begins with the latest. -/
def Fit (written : List Byte) : List Sent → Prop
  | [] => True
  | seg :: earlier => seg.Fits written earlier ∧ Fit written earlier

/-- The bytes in the ring from `DataHd` to `DataTl`. -/
def Tcb.ringText (t : Tcb) : List Byte :=
  (List.range (around t.dataTl t.dataHd).toNat).map fun i : Nat =>
    t.retranBuff ((t.dataHd + i) % rbuffsize)

/-- The sequence numbers and the ring of a connection agree with the bytes of the user, of which
those in `taken` are read. -/
structure Placed (c : Conn) (l s m : Nat) : Prop where
  isn : c.tcb.sndISN = num 0
  left : c.tcb.leftSeq = num l
  send : c.tcb.sendSeq = num s
  highest : c.tcb.maxSend = num m
  acked : l ≤ s
  sent : s ≤ m
  near : m < l + 2 ^ 31
  read : c.written = c.taken.map Taken.byte ++ c.pending
  ring : c.tcb.ringText = (c.taken.map Taken.byte).drop (l - 1)
  next : c.tcb.dataNxt =
    (c.tcb.dataHd + (min (s - 1) c.taken.length - min (l - 1) c.taken.length : Nat)) % rbuffsize
  close : c.tcb.flags.sendfin = true → c.tcb.sndFSN = num (c.written.length + 1)

/-- The send side as the user expects it. -/
def Conn.SendSide (c : Conn) : Prop :=
  (c.live = true → ∃ l s m, Placed c l s m) ∧ Fit c.written c.netOut

/-- What the send side asks of an event, so that the numbers and the ring do not come apart. Besides
what `SendCond` and `NoLag` ask, no message in the port has a level that is refused when the port
is read, and a reset in SYNRECD finds no data read. -/
def SideCond (p : Params) (c : Conn) (e : Event) : Prop :=
  SendCond p c e ∧ Sender.NoLag p c e ∧
    match e with
    | .dataIn => c.refused p = false
    | .psipIn seg _ => c.tcb.found p seg = true → c.tcb.state = .synrecd →
        seg.control.rst = true → c.taken = []
    | _ => True

instance (p : Params) (c : Conn) : ∀ e, Decidable (SendCond p c e)
  | .text _ => inferInstanceAs (Decidable (_ ∧ _ ∧ _))
  | .oclose _ => inferInstanceAs (Decidable (_ = _))
  | .psipIn _ _ => inferInstanceAs (Decidable (_ → _ ∧ _ ∧ _))
  | .control _ _ _ | .oabort | .ourgent _ | .dataIn | .psipOut _ _ | .retran => .isTrue trivial

instance (p : Params) (c : Conn) : ∀ e, Decidable (Sender.NoLag p c e)
  | .psipIn _ _ => inferInstanceAs (Decidable (_ → _ → _ → _ ∧ _))
  | .text _ | .oclose _ | .control _ _ _ | .oabort | .ourgent _ | .dataIn | .psipOut _ _
  | .retran => .isTrue trivial

instance (p : Params) (c : Conn) : ∀ e, Decidable (SideCond p c e)
  | .dataIn => inferInstanceAs (Decidable (_ ∧ _ ∧ _ = _))
  | .psipIn seg cap => inferInstanceAs (Decidable (SendCond p c (.psipIn seg cap) ∧
      Sender.NoLag p c (.psipIn seg cap) ∧ (_ → _ → _ → _)))
  | .text _ | .oclose _ | .control _ _ _ | .oabort | .ourgent _ | .psipOut _ _ | .retran =>
    inferInstanceAs (Decidable (_ ∧ _ ∧ True))

/-! ### The ring -/

theorem slot_emod (position count : Nat) :
    (slot rbuffsize position + count) % rbuffsize = slot rbuffsize (position + count) := by
  unfold slot
  push_cast
  rw [Int.emod_add_emod]

theorem Tcb.Stored.ringText_eq {t : Tcb} {stream : List Taken} {first next : Nat}
    (stored : t.Stored stream first next) :
    t.ringText = (stream.map Taken.byte).drop first := by
  have ordered := Nat.le_trans stored.acked stored.sent
  have content := stored.held.window_eq (Nat.le_refl first)
    (show first + (stream.length - first) ≤ stream.length by omega)
  rw [List.take_of_length_le (by rw [List.length_drop, List.length_map])] at content
  rw [← content]
  unfold Tcb.ringText
  rw [stored.tl, stored.hd, around_slot ordered stored.room, Int.toNat_natCast, Circular.window,
    List.range'_eq_map_range, List.map_map]
  refine List.map_congr_left fun i _ => ?_
  exact congrArg t.retranBuff (slot_emod first i)

/-! ### The segments -/

theorem Conn.afterOut_netOut (out : Conn × WorkRet) :
    (Conn.afterOut out).netOut = out.1.netOut ∧ (Conn.afterOut out).written = out.1.written := by
  unfold Conn.afterOut
  split
  · exact ⟨rfl, rfl⟩
  · exact ⟨rfl, rfl⟩
  · exact ⟨rfl, rfl⟩
  · exact ⟨rfl, rfl⟩

theorem Carried.cons {sent : List Sent} {k : Nat} (carried : Carried sent k) (seg : Sent) :
    Carried (seg :: sent) k := by
  obtain ⟨other, sent, position⟩ := carried
  exact ⟨other, List.mem_cons_of_mem seg sent, position⟩

theorem Sent.Fits.append {written : List Byte} {earlier : List Sent} {seg : Sent}
    (fits : seg.Fits written earlier) (noFin : seg.control.fin = false) (bytes : List Byte) :
    seg.Fits (written ++ bytes) earlier := by
  obtain ⟨position, bound, number, text, _⟩ := fits
  refine ⟨position, ?_, number, fun i inside => ?_, fun fin => ?_⟩
  · rw [List.length_append]
    omega
  · obtain ⟨positive, same⟩ := text i inside
    refine ⟨positive, ?_⟩
    have below : seg.textAt position + i - 1 < written.length := by
      by_contra beyond
      rw [List.getElem?_eq_none (Nat.le_of_not_lt beyond), List.getElem?_eq_getElem inside] at same
      cases same
    rw [List.getElem?_append_left below]
    exact same
  · exact absurd (noFin.symm.trans fin) Bool.false_ne_true

theorem Fit.append {written : List Byte} {sent : List Sent} (fit : Fit written sent)
    (noFin : ∀ seg ∈ sent, seg.control.fin = false) (bytes : List Byte) :
    Fit (written ++ bytes) sent := by
  induction sent with
  | nil => trivial
  | cons seg earlier inductionHypothesis =>
    exact ⟨fit.1.append (noFin seg List.mem_cons_self) bytes,
      inductionHypothesis fit.2 fun other sent => noFin other (List.mem_cons_of_mem seg sent)⟩

/-- What holds of the streams in a run that keeps numbers and ring together. -/
def Whole : Kept := fun written taken pending netOut m =>
  written = taken.map Taken.byte ++ pending ∧ Fit written netOut ∧
    (∀ k, k + 1 < m → k < taken.length → Carried netOut k) ∧
    ((∃ seg ∈ netOut, seg.control.fin = true) → m = taken.length + 2)

namespace Sender

variable {p : Params} {c : Conn} {l s m : Nat}

section

variable (held : Sender Whole c l s m 0 0)
include held

theorem finless (unclosed : c.tcb.flags.sendfin = false) :
    ∀ seg ∈ c.netOut, seg.control.fin = false := by
  intro seg sent
  cases fin : seg.control.fin with
  | false => rfl
  | true =>
    have large := held.keep.2.2.2 ⟨seg, sent, fin⟩
    rcases held.top with top | ⟨_, closed, _⟩
    · omega
    · exact absurd (unclosed.symm.trans closed) Bool.false_ne_true

theorem fits {seg : Sent}
    (text : seg.text = c.tcb.begun.dataText p) (seqNo : seg.seqNo = c.tcb.sendSeq)
    (syn : seg.control.syn = c.tcb.synDue) (fin : seg.control.fin = c.tcb.finDue) :
    seg.Fits c.written c.netOut ∧
      Whole c.written c.taken c.pending (seg :: c.netOut)
        (max m (s + c.tcb.synDue.toNat + seg.text.length + c.tcb.finDue.toNat)) := by
  obtain ⟨read, fit, carried, finished⟩ := held.keep
  obtain ⟨copied, inside⟩ := held.outText p
  have first := held.synDue_toNat
  have due := held.finDue_iff
  have sent := held.sent
  have top := held.top
  have length := congrArg List.length read
  rw [List.length_append, List.length_map] at length
  rw [← text] at copied inside
  have start : seg.textAt s = s + c.tcb.synDue.toNat := by rw [Sent.textAt, syn]
  have last : c.tcb.finDue.toNat = 0 ∨ c.tcb.finDue.toNat = 1 ∧ c.tcb.flags.sendfin = true ∧
      s + c.tcb.synDue.toNat = c.written.length + 1 := by
    cases isDue : c.tcb.finDue with
    | false => exact .inl rfl
    | true => exact .inr ⟨rfl, due.mp isDue⟩
  obtain ⟨_, _, closes, upper⟩ := held.next_position inside first last rfl
  have closing : seg.control.fin = true → c.tcb.finDue.toNat = 1 ∧
      s + c.tcb.synDue.toNat = c.written.length + 1 ∧ c.taken.length = c.written.length ∧
      seg.text.length = 0 := by
    intro closed
    rw [fin] at closed
    have one : c.tcb.finDue.toNat = 1 := by rw [closed]; rfl
    have behind := (due.mp closed).2
    have all := (closes one).2.2
    split at first <;> exact ⟨one, behind, all, by omega⟩
  have fitsHere : seg.Fits c.written c.netOut := by
    refine ⟨s, by rcases top with top | ⟨top, _⟩ <;> omega, seqNo.trans held.send,
      fun i here => ?_, fun closed => ?_⟩
    · have index : seg.textAt s + i - 1 = min (s - 1) c.taken.length + 0 + i ∧
          1 ≤ seg.textAt s + i := by
        rw [start]
        split at first <;> omega
      refine ⟨index.2, ?_⟩
      have byte := congrArg (fun bytes => bytes[i]?) copied
      rw [byte, index.1, read, List.getElem?_append_left (by rw [List.length_map]; omega),
        List.getElem?_map, List.getElem?_map, List.getElem?_take_of_lt here, List.getElem?_drop]
    · obtain ⟨_, behind, all, none⟩ := closing closed
      refine ⟨by rw [start]; omega, fun k below => carried k ?_ (by omega)⟩
      split at first <;> omega
  refine ⟨fitsHere, read, ⟨fitsHere, fit⟩, fun k below taken => ?_, fun some => ?_⟩
  · by_cases before : k + 1 < m
    · exact (carried k before taken).cons seg
    · refine ⟨seg, List.mem_cons_self, s, seqNo.trans held.send, ?_, ?_⟩
      · rw [start]
        split at first <;> omega
      · rw [start]
        rcases last with none | ⟨one, _, behind⟩
        · omega
        · split at first <;> omega
  · have large : m = c.taken.length + 2 ∨
        s + c.tcb.synDue.toNat + seg.text.length + c.tcb.finDue.toNat = c.taken.length + 2 := by
      obtain ⟨other, sent, closed⟩ := some
      rcases List.mem_cons.mp sent with rfl | sent
      · obtain ⟨one, _⟩ := closing closed
        exact .inr (closes one).1
      · exact .inl (finished ⟨other, sent, closed⟩)
    rcases top with top | ⟨top, _⟩ <;> rcases upper with upper | upper | ⟨upper, _⟩ <;> omega

theorem keeps {e : Event} (cond : SideCond p c e) :
    Keeps Whole p c s m e := by
  obtain ⟨send, _, side⟩ := cond
  obtain ⟨read, fit, carried, finished⟩ := held.keep
  have total := held.total
  have top := held.top
  have length := congrArg List.length read
  rw [List.length_append, List.length_map] at length
  refine ⟨?_, ?_, ?_, ?_, ?_⟩
  · rintro bytes rfl
    exact ⟨by rw [read, List.append_assoc], fit.append (held.finless send.2.2) bytes, carried, finished⟩
  · rintro rfl first next r filling
    obtain ⟨_, whole⟩ := filling.whole side
    obtain ⟨new, more, _, fewer⟩ := filling.more
    have length' := congrArg List.length more
    rw [List.length_append] at length'
    refine ⟨read.trans whole.symm, fit, fun k below taken => carried k below ?_, fun some => ?_⟩
    · rcases top with top | ⟨top, _, all⟩ <;> omega
    · have large := finished some
      rcases top with top | ⟨top, _, all⟩ <;> omega
  · rintro finish wrote rfl seg text seqNo syn fin
    exact (held.fits text seqNo syn fin).2
  · rintro seg cap rfl found state rst
    have none := side found state rst
    have noFin := held.finless ((send found).2.2 state rst)
    rw [none] at read
    refine ⟨read, fit, fun k below _ => by omega, ?_⟩
    rintro ⟨other, sent, closed⟩
    exact absurd ((noFin other sent).symm.trans closed) Bool.false_ne_true
  · rintro seg cap rfl found state rst
    have noFin := held.finless (held.begun (.inr state))
    refine ⟨read, fit, fun k below _ => by omega, ?_⟩
    rintro ⟨other, sent, closed⟩
    exact absurd ((noFin other sent).symm.trans closed) Bool.false_ne_true

theorem out_fit {finish wrote : Wrote} {c' : Conn}
    (taken : act p c (.psipOut finish wrote) = some c') : Fit c'.written c'.netOut := by
  unfold act at taken
  split at taken
  next =>
    dsimp only at taken
    split at taken
    · cases taken
      have did := c.psipOut_out p finish wrote held.noSyn held.noFin
      obtain ⟨netOut, written⟩ := Conn.afterOut_netOut (c.psipOut p finish wrote)
      rw [netOut, written]
      revert did
      generalize c.psipOut p finish wrote = out
      obtain ⟨after, ret⟩ := out
      intro did
      have did : Conn.Out p c after ret := did
      cases did with
      | waits => exact held.keep.2.1
      | mute nomoseg => exact held.keep.2.1
      | quiet sending noSyn noFin noText noFlags urgentPtr => exact held.keep.2.1
      | sends sending seg urgentPtr partWr text seqNo ackNo syn fin rst level alive =>
        exact (held.fits text seqNo syn fin).2.2.1
      | aborts seg t partWr text seqNo ackNo syn fin rst level =>
        exact (held.fits text seqNo syn fin).2.2.1
    · cases taken
  next => cases taken

theorem placed : Placed c l s m where
  isn := held.isn
  left := held.left
  send := held.send
  highest := held.highest
  acked := held.acked
  sent := held.sent
  near := by have := held.near; omega
  read := held.keep.1
  ring := by
    rw [held.stored.ringText_eq, Nat.add_zero, List.drop_eq_drop_iff, List.length_map]
    omega
  next := by
    have acked := held.acked
    have distance : min (s - 1) c.taken.length = min (l - 1) c.taken.length +
        (min (s - 1) c.taken.length - min (l - 1) c.taken.length) := by
      omega
    rw [held.stored.nxt, held.stored.hd, Nat.add_zero, Nat.add_zero, slot_emod, ← distance]
  close := held.close

end

end Sender

/-! ### Every run -/

/-- What every step that meets the condition keeps. -/
def SideHeld (c : Conn) : Prop :=
  (c.live = true → ∃ l s m, Sender Whole c l s m 0 0) ∧ Fit c.written c.netOut

theorem SideHeld.step {p : Params} {c c' : Conn} {e : Event} (held : SideHeld c)
    (cond : SideCond p c e) (taken : act p c e = some c') : SideHeld c' := by
  have live : c.live = true := by
    unfold act at taken
    split at taken
    next live => exact live
    next => cases taken
  obtain ⟨l, s, m, sender⟩ := held.1 live
  have stepped : (∀ finish wrote, e = .psipOut finish wrote → c'.live = true) →
      ∃ l s m, Sender Whole c' l s m 0 0 := by
    intro alive
    obtain ⟨l', s', m', x', y', after, noLag⟩ := sender.step taken alive cond.1 (sender.keeps cond)
    obtain ⟨rfl, rfl⟩ := noLag rfl rfl cond.2.1
    exact ⟨l', s', m', after⟩
  refine ⟨fun alive => stepped fun _ _ _ => alive, ?_⟩
  by_cases out : ∃ finish wrote, e = .psipOut finish wrote
  · obtain ⟨finish, wrote, rfl⟩ := out
    exact sender.out_fit taken
  · obtain ⟨_, _, _, after⟩ := stepped fun finish wrote same => absurd ⟨finish, wrote, same⟩ out
    exact after.keep.2.1

theorem SideHeld.run {p : Params} {free : Tcb} {mode : Int} {foreign : Skt} {port : Int}
    {history : List Event} {c : Conn}
    (run : Transition.Run (Transition.Guarded (Transition.Takes (act p)) (SideCond p))
      (openConn p free mode foreign port) history c) : SideHeld c :=
  run.always SideHeld
    ⟨fun _ => ⟨0, 0, 0, Sender.opened ⟨rfl, trivial, fun k below => by omega, by
      rintro ⟨_, sent, _⟩
      cases sent⟩⟩, trivial⟩
    fun _ _ _ held taken => held.step taken.1 taken.2

/-- In every run whose events meet the condition, the send side is as the user expects it. -/
theorem send_side {p : Params} {free : Tcb} {mode : Int} {foreign : Skt} {port : Int}
    {history : List Event} {c : Conn}
    (run : Transition.Run (Transition.Guarded (Transition.Takes (act p)) (SideCond p))
      (openConn p free mode foreign port) history c) : c.SendSide := by
  have held := SideHeld.run run
  refine ⟨fun live => ?_, held.2⟩
  obtain ⟨l, s, m, sender⟩ := held.1 live
  exact ⟨l, s, m, sender.placed⟩

/-- The connection is opened by a SYN, some bytes are sent and acknowledged, and the user closes. -/
def sideRun : List Event :=
  [.control 0 1 3, .text [5, 6, 7], .dataIn, .psipOut .all .all,
    .psipIn (trySeg 100 1 { syn := true, ack := true } [] 10) 100, .psipOut .all .all, .retran,
    .psipOut .all .all, .psipIn (trySeg 101 3 { ack := true } [] 10) 100, .oclose 3,
    .psipOut .all .all, .psipIn (trySeg 101 5 { ack := true } [] 10) 100]

theorem send_side_closed : Conn.SendSide (Transition.last (act tryParams) tryConn sideRun) :=
  send_side (Transition.run_can (by decide +kernel))

/-- A byte is sent with the SYN, the SYN is refused by a reset, is sent again and accepted. -/
def refusedRun : List Event :=
  [.control 0 1 2, .text [5, 6], .dataIn, .psipOut .all .all,
    .psipIn (trySeg 0 0 { rst := true } [] 10) 100, .psipOut .all .all,
    .psipIn (trySeg 100 1 { syn := true, ack := true } [] 10) 100, .psipOut .all .all]

/-- Behind the second SYN the second byte is sent at the number of the first. -/
theorem send_side_refused :
    Transition.Run (Transition.Takes (act tryParams)) tryConn refusedRun
      (Transition.last (act tryParams) tryConn refusedRun) ∧
    ¬ Conn.SendSide (Transition.last (act tryParams) tryConn refusedRun) := by
  refine ⟨Transition.run_all (by decide +kernel), fun side => ?_⟩
  have facts : (Transition.last (act tryParams) tryConn refusedRun).written = [5, 6] ∧
      (Transition.last (act tryParams) tryConn refusedRun).netOut.map
        (fun seg => (seg.seqNo, seg.control.syn, seg.text)) =
          [(1, false, [6]), (0, true, []), (0, true, [5])] := by
    decide +kernel
  obtain ⟨written, segments⟩ := facts
  have fit := side.2
  rw [written] at fit
  generalize (Transition.last (act tryParams) tryConn refusedRun).netOut = netOut at *
  obtain ⟨seg, earlier, rfl, shape, -⟩ := List.map_eq_cons_iff.mp segments
  rw [Prod.mk.injEq, Prod.mk.injEq] at shape
  obtain ⟨seqNo, syn, text⟩ := shape
  obtain ⟨position, bound, number, bytes, -⟩ := fit.1
  have first : position = 1 := by
    have bound : position ≤ 4 := bound
    exact num_inj (b := 1) (number.symm.trans seqNo) (by omega) (by omega)
  obtain ⟨-, wrong⟩ := bytes 0 (by rw [text]; decide)
  rw [first, Sent.textAt, syn, text] at wrong
  exact absurd wrong (by decide)

end NetworkUnix.UserTcp
