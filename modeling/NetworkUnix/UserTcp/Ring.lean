/-
This file relates the ring of a connection to the stream of the bytes that were read from
the user: the three indices are positions of the stream, and the cells between the first
and the last hold the stream. `PsipOut` copies a stretch of the stream from the middle
position on, an acknowledgement moves the first position up, and `DataIn` writes at the
last.
-/

import NetworkUnix.UserTcp.Sched

namespace NetworkUnix.UserTcp

open Circular

/-! ### The indices -/

theorem rbuffsize_pos : 0 < rbuffsize := by decide

theorem around_slot {low high : Nat} (ordered : low ≤ high) (near : high ≤ low + 256) :
    around (slot rbuffsize high) (slot rbuffsize low) = (high - low : Nat) :=
  slot_sub rbuffsize_pos ordered (Nat.lt_succ_of_le near)

theorem around_room {low high : Nat} (ordered : low ≤ high) (near : high ≤ low + 256) :
    around (slot rbuffsize low - 1) (slot rbuffsize high) = (low + 256 - high : Nat) := by
  have distance := around_slot ordered near
  have above := slot_nonneg rbuffsize low
  have below := slot_lt rbuffsize_pos high
  unfold around at *
  unfold rbuffsize at *
  split at distance <;> split <;> omega

theorem slot_wrap {position count : Nat} (atMost : count ≤ 257) :
    (if (rbuffsize : Int) ≤ slot rbuffsize position + count then
        slot rbuffsize position + count - rbuffsize
      else slot rbuffsize position + count) = slot rbuffsize (position + count) :=
  (slot_add rbuffsize_pos atMost).symm

/-- The three indices of a ring are positions of a stream, and its cells hold the stream from the
first of them on. -/
structure Stored (hd nxt tl : Int) (cells : Int → Byte) (stream : List Taken) (first next : Nat) :
    Prop where
  hd : hd = slot rbuffsize first
  nxt : nxt = slot rbuffsize next
  tl : tl = slot rbuffsize stream.length
  acked : first ≤ next
  sent : next ≤ stream.length
  room : stream.length ≤ first + 256
  held : Holds rbuffsize cells (stream.map Taken.byte) first stream.length

/-- The ring of a control block. -/
abbrev Tcb.Stored (t : Tcb) (stream : List Taken) (first next : Nat) : Prop :=
  UserTcp.Stored t.dataHd t.dataNxt t.dataTl t.retranBuff stream first next

section

variable {t : Tcb} {stream : List Taken} {first next : Nat}

theorem Tcb.Stored.remData_eq (stored : t.Stored stream first next) :
    t.remData = (stream.length - next : Nat) := by
  unfold Tcb.remData
  rw [stored.tl, stored.nxt]
  exact around_slot stored.sent (by have := stored.acked; have := stored.room; omega)

theorem Tcb.Stored.dataSent_eq (stored : t.Stored stream first next) :
    t.dataSent = (next - first : Nat) := by
  unfold Tcb.dataSent
  rw [stored.nxt, stored.hd]
  exact around_slot stored.acked (by have := stored.sent; have := stored.room; omega)

/-! ### What `PsipOut` copies -/

theorem Tcb.copyLoop_eq (p : Params) (t : Tcb) (segSec : Byte) (more i position : Nat)
    (fPtr : Int) : ∃ count ≤ more,
      t.copyLoop p segSec more i (slot rbuffsize position) fPtr =
        Circular.window rbuffsize t.retranBuff position count := by
  induction more generalizing i position fPtr with
  | zero => exact ⟨0, Nat.le_refl 0, rfl⟩
  | succ more inductionHypothesis =>
    have stop : ∃ count ≤ more + 1, ([] : List Byte) =
        Circular.window rbuffsize t.retranBuff position count := ⟨0, Nat.zero_le _, rfl⟩
    have one : [t.retranBuff (slot rbuffsize position)] =
        Circular.window rbuffsize t.retranBuff position 1 := by
      rw [window_succ]
      rfl
    have below := slot_lt rbuffsize_pos position
    have moved : (if slot rbuffsize position + 1 = (rbuffsize : Int) then 0
        else slot rbuffsize position + 1) = slot rbuffsize (position + 1) := by
      rw [slot_add rbuffsize_pos (by decide)]
      split <;> split <;> omega
    have further : ∀ fHere : Int, ∃ count ≤ more + 1,
        t.retranBuff (slot rbuffsize position) ::
            t.copyLoop p segSec more (i + 1) (slot rbuffsize (position + 1)) fHere =
          Circular.window rbuffsize t.retranBuff position count := by
      intro fHere
      obtain ⟨count, atMost, copied⟩ := inductionHypothesis (i + 1) (position + 1) fHere
      exact ⟨count + 1, Nat.succ_le_succ atMost, by rw [copied, window_succ]⟩
    unfold Tcb.copyLoop
    dsimp only
    rw [moved]
    generalize (if slot rbuffsize position + 1 = (rbuffsize : Int) then 0 else fPtr) = fHere
    split
    · split
      · split
        · exact further _
        · exact ⟨1, Nat.succ_le_succ (Nat.zero_le _), one⟩
      · exact further _
    · exact stop

theorem Tcb.Stored.dataText_eq (stored : t.Stored stream first next) (p : Params) :
    t.dataText p = ((stream.drop next).take (t.dataText p).length).map Taken.byte ∧
      next + (t.dataText p).length ≤ stream.length := by
  have windowed : ∃ count, next + count ≤ stream.length ∧
      t.dataText p = Circular.window rbuffsize t.retranBuff next count := by
    have rem := stored.remData_eq
    have sent := stored.sent
    unfold Tcb.dataText
    split
    · exact ⟨0, by omega, rfl⟩
    · split
      · split
        · refine ⟨1, by omega, ?_⟩
          rw [window_succ, stored.nxt]
          rfl
        · exact ⟨0, by omega, rfl⟩
      · rw [stored.nxt]
        obtain ⟨count, atMost, copied⟩ := t.copyLoop_eq p
          (levelOf (t.flagBuff (slot rbuffsize next))) t.remData.toNat 0 next (slot rbuffsize next)
        exact ⟨count, by omega, copied⟩
  obtain ⟨count, inside, copied⟩ := windowed
  rw [copied, length_window]
  refine ⟨?_, inside⟩
  rw [stored.held.window_eq stored.acked inside, List.map_take, List.map_drop]

theorem Tcb.Stored.advance (stored : t.Stored stream first next) {count : Nat}
    (inside : next + count ≤ stream.length) : (t.advance count).Stored stream first (next + count) where
  hd := stored.hd
  nxt := by
    have := stored.acked
    have := stored.room
    unfold Tcb.advance
    dsimp only
    rw [stored.nxt]
    exact slot_wrap (by omega)
  tl := stored.tl
  acked := Nat.le_add_right_of_le stored.acked
  sent := inside
  room := stored.room
  held := stored.held

theorem Stored.ack {hd nxt tl hd' nxt' : Int} {cells : Int → Byte} {first' next' : Nat}
    (stored : Stored hd nxt tl cells stream first next) (hdNew : hd' = slot rbuffsize first')
    (nxtNew : nxt' = slot rbuffsize next') (up : first ≤ first') (acked : first' ≤ next')
    (sent : next' ≤ stream.length) : Stored hd' nxt' tl cells stream first' next' where
  hd := hdNew
  nxt := nxtNew
  tl := stored.tl
  acked := acked
  sent := sent
  room := by have := stored.room; omega
  held := stored.held.mono up (Nat.le_refl _)

/-! ### What `DataIn` stores -/

theorem Tcb.Stored.tailSpc_le (stored : t.Stored stream first next) :
    slot rbuffsize stream.length + t.tailSpc ≤ rbuffsize ∧
      stream.length + t.tailSpc ≤ first + 256 := by
  have distance := around_slot (Nat.le_trans stored.acked stored.sent) stored.room
  have room := stored.room
  have acked := stored.acked
  have sent := stored.sent
  have above := slot_nonneg rbuffsize first
  have above' := slot_nonneg rbuffsize stream.length
  have below := slot_lt rbuffsize_pos first
  have below' := slot_lt rbuffsize_pos stream.length
  unfold Tcb.tailSpc
  rw [stored.hd, stored.tl]
  unfold around at distance
  unfold rbuffsize at *
  split at distance <;> split <;> (try split) <;> omega

theorem Tcb.Stored.tailSpc_pos (stored : t.Stored stream first next)
    (space : stream.length < first + 256) : 0 < t.tailSpc := by
  have distance := around_slot (Nat.le_trans stored.acked stored.sent) stored.room
  have above := slot_nonneg rbuffsize first
  have below := slot_lt rbuffsize_pos first
  have below' := slot_lt rbuffsize_pos stream.length
  unfold Tcb.tailSpc
  rw [stored.hd, stored.tl]
  unfold around at distance
  unfold rbuffsize at *
  split at distance <;> split <;> (try split) <;> omega

theorem Tcb.Stored.store (stored : t.Stored stream first next) (p : Params) (bytes : List Byte)
    (last : Bool) (secur : Byte) (fits : (bytes.length : Int) ≤ t.tailSpc) :
    (t.store p bytes last).Stored (stream ++ bytes.map fun byte => ⟨byte, secur⟩) first next := by
  obtain ⟨straight, room⟩ := stored.tailSpc_le
  have total : (stream ++ bytes.map fun byte => (⟨byte, secur⟩ : Taken)).length =
      stream.length + bytes.length := by
    rw [List.length_append, List.length_map]
  refine ⟨stored.hd, stored.nxt, ?_, stored.acked, ?_, ?_, ?_⟩
  · unfold Tcb.store
    dsimp only
    rw [stored.tl, total, slot_add rbuffsize_pos (by have := slot_nonneg rbuffsize stream.length; omega)]
    split <;> split <;> omega
  · have := stored.sent
    omega
  · omega
  · have held := stored.held
    rw [show stream.length = (stream.map Taken.byte).length by rw [List.length_map]] at held
    have written := @Holds.place _ rbuffsize _ _ bytes _ rbuffsize_pos held
      (by rw [List.length_map]; unfold rbuffsize; omega) (by rw [List.length_map]; omega)
    have mapped : (stream ++ bytes.map fun byte => (⟨byte, secur⟩ : Taken)).map Taken.byte =
        stream.map Taken.byte ++ bytes := by
      rw [List.map_append, List.map_map]
      exact congrArg _ (List.map_id bytes)
    rw [mapped, total]
    rw [List.length_append, List.length_map] at written
    unfold Tcb.store
    dsimp only
    rw [stored.tl]
    exact written

end

end NetworkUnix.UserTcp
