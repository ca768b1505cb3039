/-
This file says how much of the send buffer goes out after a segment has offered a window.
The window is kept as a short, so that it is taken for a negative number from 2^15 on; and
the copy starts behind the SYN when the next sequence number seems to lie before it, which
it does when it is 2^31 or more past the initial one. In all other cases the data up to
the end of the buffer, the window and the largest segment are sent.
-/

import NetworkUnix.Bbnnet.Tcp.Copy
import NetworkUnix.Bbnnet.Tcp.Sending

namespace NetworkUnix.Bbnnet

/-! ### Positions -/

theorem point_diff (a base : Seq) : Serial.point base (Serial.diff a base) = a := by
  unfold Serial.point Serial.diff
  rw [BitVec.ofInt_toInt, BitVec.add_comm, BitVec.sub_add_cancel]

theorem point_sub (base : Seq) (p q : Int) :
    Serial.point base p - BitVec.ofInt 32 q = Serial.point base (p - q) := by
  unfold Serial.point
  rw [Int.sub_eq_add_neg, BitVec.ofInt_add, BitVec.ofInt_neg, BitVec.sub_eq_add_neg,
    BitVec.add_assoc]

/-- The amount of data that is sent and not acknowledged. -/
def unacked (c : Conn) : Int := Serial.diff c.tcb.sndNxt c.tcb.sndUna

/-- The end of the data that a window lets out. -/
def letOut (c : Conn) (w : Int) : Int :=
  min (chainLen c.ucb.ucSbuf) (min w (unacked c + c.tcb.tMaxseg))

/-- What is known of an open connection: neither the data in the send buffer nor those that are not
acknowledged come near half the sequence numbers, and the largest segment is a short. -/
structure InRange (c : Conn) : Prop where
  total : chainLen c.ucb.ucSbuf + 2 ^ 16 ≤ 2 ^ 31
  low : 0 ≤ unacked c
  high : unacked c + 2 ^ 16 ≤ 2 ^ 31
  segment : -2 ^ 15 ≤ c.tcb.tMaxseg ∧ c.tcb.tMaxseg < 2 ^ 15

theorem seqMin_point (base : Seq) {p q : Int} (low : -2 ^ 31 ≤ p - q) (high : p - q < 2 ^ 31) :
    seqMin (Serial.point base p) (Serial.point base q) = Serial.point base (min p q) := by
  unfold seqMin
  split
  · rename_i less
    rw [Int.min_eq_left (Int.le_of_lt ((seqLt_point base low high).mp less))]
  · rename_i more
    rw [Int.min_eq_right (Int.not_lt.mp fun less => more ((seqLt_point base low high).mpr less))]

variable {env : Env} {c : Conn}

theorem sndNxt_eq (c : Conn) : c.tcb.sndNxt = Serial.point c.tcb.sndUna (unacked c) :=
  (point_diff _ _).symm

theorem sndLast_eq (acked : c.tcb.synAcked = true) :
    sndLast c = Serial.point c.tcb.sndUna (chainLen c.ucb.ucSbuf) := by
  unfold sndLast sndBase
  rw [if_pos acked, Serial.point, BitVec.ofInt_natCast]

theorem sndLimit_eq (range : InRange c) (acked : c.tcb.synAcked = true) :
    sndLimit c.tcb (sndLast c) =
      Serial.point c.tcb.sndUna (letOut c c.tcb.sndWnd.toInt) := by
  obtain ⟨total, low, high, smallest, largest⟩ := range
  have lowest := @BitVec.le_two_mul_toInt _ c.tcb.sndWnd
  have highest := @BitVec.two_mul_toInt_lt _ c.tcb.sndWnd
  have least : seqMin (sndLast c) (sndWind c.tcb) =
      Serial.point c.tcb.sndUna (min (chainLen c.ucb.ucSbuf) c.tcb.sndWnd.toInt) := by
    rw [sndLast_eq acked]
    exact seqMin_point _ (by omega) (by omega)
  have len : Serial.diff (seqMin (sndLast c) (sndWind c.tcb)) c.tcb.sndNxt =
      min (chainLen c.ucb.ucSbuf : Int) c.tcb.sndWnd.toInt - unacked c := by
    rw [least, sndNxt_eq c]
    exact diff_point _ (by omega) (by omega)
  unfold sndLimit
  dsimp only
  rw [len]
  unfold letOut
  split
  · rw [least, point_sub]
    congr 1
    omega
  · rw [least]
    congr 1
    omega

/-! ### What is sent -/

theorem sendTcp_data_out (env : Env) (c : Conn) :
    (sendTcp env c .data).1.out = c.out ++
      if seqLt c.tcb.sndNxt (sendPlan env c).conn.tcb.sndLst then [(sendPlan env c).packet env]
      else [] := by
  have planned := sendPlan_planOf env c
  unfold sendTcp
  dsimp only
  rw [planned.sndNxt]
  split
  · have first := sendPlanned_out env (sendPlan env c)
    rw [planned.out] at first
    split
    · exact first
    · exact first
  · exact planned.out.trans (List.append_nil _).symm

theorem sendPlan_nothing (env : Env) (range : InRange c) (acked : c.tcb.synAcked = true)
    (nothing : (chainLen c.ucb.ucSbuf : Int) ≤ unacked c) : (sendPlan env c).dat = none := by
  obtain ⟨total, low, high, smallest, largest⟩ := range
  have ended : seqGeq c.tcb.sndNxt (sndLast c) := by
    rw [sndLast_eq acked, sndNxt_eq c, seqGeq_point _ (by omega) (by omega)]
    exact nothing
  unfold sendPlan
  dsimp only
  rw [if_pos ended]
  split <;> rfl

theorem sendPlan_data (env : Env) (range : InRange c) (acked : c.tcb.synAcked = true)
    (something : unacked c < chainLen c.ucb.ucSbuf) :
    sendPlan env c = sendData env (c.withTcb (synTcb c.tcb))
      { syn := decide (c.tcb.sndNxt = c.tcb.iss) } (sndLast c) := by
  obtain ⟨total, low, high, smallest, largest⟩ := range
  have open' : ¬ seqGeq c.tcb.sndNxt (sndLast c) := by
    rw [sndLast_eq acked, sndNxt_eq c, seqGeq_point _ (by omega) (by omega)]
    omega
  unfold sendPlan
  dsimp only
  rw [if_neg open', if_pos acked]

theorem dataTcb_copies (tp : Tcb) (last : Seq) : (dataTcb tp last).synAcked = tp.synAcked ∧
    (dataTcb tp last).sndUna = tp.sndUna ∧ (dataTcb tp last).sndLst = sndStop tp last := by
  unfold dataTcb
  split <;> exact ⟨rfl, rfl, rfl⟩

theorem dataPlan_copy (buffers : ∀ t, env.mGet t = true) (range : InRange c)
    (acked : c.tcb.synAcked = true) (fits : ∀ m ∈ c.ucb.ucSbuf, m.Fits) (last : Seq) {k stop : Nat}
    (wanted : k < stop) (inside : stop ≤ chainLen c.ucb.ucSbuf) :
    ∃ out, (sndCopy env (c.withTcb (dataTcb (synTcb c.tcb) last)) (Serial.point c.tcb.sndUna k)
        (Serial.point c.tcb.sndUna stop)).2 = some out ∧
      chainData out = ((chainData c.ucb.ucSbuf).drop k).take (stop - k) := by
  obtain ⟨same, una, -⟩ := dataTcb_copies (synTcb c.tcb) last
  have total := range.total
  have copied := @sndCopy_spec env buffers (c.withTcb (dataTcb (synTcb c.tcb) last)) k stop
    (same.trans acked) fits wanted inside (show chainLen c.ucb.ucSbuf < 2 ^ 31 by omega)
  have origin : (c.withTcb (dataTcb (synTcb c.tcb) last)).tcb.sndUna = c.tcb.sndUna := una
  rwa [origin] at copied

/-- The plan for data: it goes up to what the window lets out, or one further with a FIN; it has
the bytes from the next sequence number on, or from behind the SYN if that comes later. -/
structure Planned (env : Env) (c : Conn) (plan : SendPlan) : Prop where
  sndLst : plan.conn.tcb.sndLst =
    Serial.point c.tcb.sndUna (letOut c c.tcb.sndWnd.toInt + plan.flags.fin.toNat)
  more : plan.flags.fin = true → letOut c c.tcb.sndWnd.toInt = chainLen c.ucb.ucSbuf
  dat : plan.dat = (sndCopy env (c.withTcb (dataTcb (synTcb c.tcb) (sndLast c)))
    (seqMax (c.tcb.iss + 1) c.tcb.sndNxt)
    (Serial.point c.tcb.sndUna (letOut c c.tcb.sndWnd.toInt))).2

theorem sendPlan_planned (env : Env) (range : InRange c) (acked : c.tcb.synAcked = true)
    (unforced : c.tcb.forceOne = false) (something : unacked c < chainLen c.ucb.ucSbuf) :
    Planned env c (sendPlan env c) := by
  have limit := sndLimit_eq range acked
  have free : sndForced (synTcb c.tcb) (sndLast c) = false := by
    show (c.tcb.forceOne && _) = false
    rw [unforced, Bool.false_and]
  have stop : sndStop (synTcb c.tcb) (sndLast c) =
      Serial.point c.tcb.sndUna (letOut c c.tcb.sndWnd.toInt) := by
    unfold sndStop
    rw [free, if_neg Bool.false_ne_true]
    exact limit
  obtain ⟨total, low, high, smallest, largest⟩ := range
  obtain ⟨clock, conn⟩ := sndCopy_conn env (c.withTcb (dataTcb (synTcb c.tcb) (sndLast c)))
    (seqMax (c.tcb.iss + 1) c.tcb.sndNxt) (sndStop (synTcb c.tcb) (sndLast c))
  have sndLst : (dataPlan env (c.withTcb (synTcb c.tcb))
      { syn := decide (c.tcb.sndNxt = c.tcb.iss) } (sndLast c)).conn.tcb.sndLst =
      Serial.point c.tcb.sndUna (letOut c c.tcb.sndWnd.toInt) := by
    show (sndCopy env (c.withTcb (dataTcb (synTcb c.tcb) (sndLast c)))
      (seqMax (c.tcb.iss + 1) c.tcb.sndNxt) (sndStop (synTcb c.tcb) (sndLast c))).1.tcb.sndLst = _
    rw [conn]
    exact (dataTcb_copies _ _).2.2.trans stop
  have dat : (dataPlan env (c.withTcb (synTcb c.tcb))
      { syn := decide (c.tcb.sndNxt = c.tcb.iss) } (sndLast c)).dat =
      (sndCopy env (c.withTcb (dataTcb (synTcb c.tcb) (sndLast c)))
        (seqMax (c.tcb.iss + 1) c.tcb.sndNxt)
        (Serial.point c.tcb.sndUna (letOut c c.tcb.sndWnd.toInt))).2 := by
    rw [← stop]
    rfl
  rw [sendPlan_data env ⟨total, low, high, smallest, largest⟩ acked something]
  unfold sendData
  split
  · rename_i fin
    refine ⟨(congrArg (· + 1) sndLst).trans (Serial.point_add _ _ 1), fun _ => ?_, dat⟩
    have same := fin.2.1
    rw [show sndStop (c.withTcb (synTcb c.tcb)).tcb (sndLast c) = _ from stop,
      sndLast_eq acked] at same
    have lowest := @BitVec.le_two_mul_toInt _ c.tcb.sndWnd
    unfold letOut at same ⊢
    exact (point_eq_iff _ (by omega) (by omega)).mp same
  · refine ⟨sndLst.trans ?_, fun fin => absurd fin Bool.false_ne_true, dat⟩
    exact congrArg _ (Int.add_zero _).symm

theorem syn_behind (iss : Seq) : seqGt (iss + 1) iss := by
  show 0 < (iss + 1 - iss).toInt
  rw [BitVec.add_comm, BitVec.add_sub_cancel]
  decide

/-- The data go out from the next sequence number up to what the window lets out, and none do if
it lets nothing out. -/
structure SendsWindow (c : Conn) (w : Nat) (after : Conn) : Prop where
  sent : unacked c < letOut c w → ∃ p dat, after.out = c.out ++ [p] ∧ p.made = true ∧
    p.seq = c.tcb.sndNxt ∧ p.len = letOut c w - unacked c ∧ p.dat = some dat ∧
    chainData dat = ((chainData c.ucb.ucSbuf).drop (unacked c).toNat).take
      (letOut c w - unacked c).toNat
  kept : letOut c w ≤ unacked c → ∃ more, after.out = c.out ++ more ∧ ∀ p ∈ more, p.dat = none

theorem sends_nothing (env : Env) (range : InRange c) (acked : c.tcb.synAcked = true)
    (unforced : c.tcb.forceOne = false) (nothing : letOut c c.tcb.sndWnd.toInt ≤ unacked c) :
    ∃ more, (sendTcp env c .data).1.out = c.out ++ more ∧ ∀ p ∈ more, p.dat = none := by
  refine ⟨_, sendTcp_data_out env c, fun p member => ?_⟩
  rcases Int.lt_or_le (unacked c) (chainLen c.ucb.ucSbuf) with something | none
  · exfalso
    have planned := sendPlan_planned env range acked unforced something
    obtain ⟨total, low, high, smallest, largest⟩ := range
    have lowest := @BitVec.le_two_mul_toInt _ c.tcb.sndWnd
    have unfinished : (sendPlan env c).flags.fin = false :=
      Bool.eq_false_of_not_eq_true fun fin => by
        have more := planned.more fin
        omega
    have ended : ¬ seqLt c.tcb.sndNxt (sendPlan env c).conn.tcb.sndLst := by
      rw [planned.sndLst, unfinished, sndNxt_eq c]
      unfold letOut at nothing ⊢
      rw [seqLt_point _ (by rw [Bool.toNat_false]; omega) (by rw [Bool.toNat_false]; omega),
        Bool.toNat_false]
      omega
    rw [if_neg ended] at member
    cases member
  · split at member
    · rw [List.mem_singleton.mp member]
      exact sendPlan_nothing env range acked none
    · cases member

section

variable (buffers : ∀ t, env.mGet t = true) (range : InRange c) (acked : c.tcb.synAcked = true)
include buffers range acked

theorem sends_packet (unforced : c.tcb.forceOne = false)
    (something : unacked c < letOut c c.tcb.sndWnd.toInt) :
    ∃ p, (sendTcp env c .data).1.out = c.out ++ [p] ∧ p.made = true ∧ p.seq = c.tcb.sndNxt ∧
      (¬ seqGt (c.tcb.iss + 1) c.tcb.sndNxt →
        p.len = letOut c c.tcb.sndWnd.toInt - unacked c) ∧
      p.dat = (sndCopy env (c.withTcb (dataTcb (synTcb c.tcb) (sndLast c)))
        (seqMax (c.tcb.iss + 1) c.tcb.sndNxt)
        (Serial.point c.tcb.sndUna (letOut c c.tcb.sndWnd.toInt))).2 := by
  have planOf := sendPlan_planOf env c
  have planned := sendPlan_planned env range acked unforced (by unfold letOut at something; omega)
  obtain ⟨total, low, high, smallest, largest⟩ := range
  have lowest := @BitVec.le_two_mul_toInt _ c.tcb.sndWnd
  have highest : letOut c c.tcb.sndWnd.toInt ≤ chainLen c.ucb.ucSbuf := Int.min_le_left _ _
  have one := Bool.toNat_le (sendPlan env c).flags.fin
  have span : Serial.diff (sendPlan env c).conn.tcb.sndLst c.tcb.sndNxt =
      letOut c c.tcb.sndWnd.toInt - unacked c + (sendPlan env c).flags.fin.toNat := by
    rw [planned.sndLst, sndNxt_eq c, diff_point _ (by omega) (by omega)]
    omega
  have more : seqLt c.tcb.sndNxt (sendPlan env c).conn.tcb.sndLst := by
    rw [planned.sndLst, sndNxt_eq c, seqLt_point _ (by omega) (by omega)]
    omega
  refine ⟨(sendPlan env c).packet env, ?_, buffers _, planOf.sndNxt, fun past => ?_, planned.dat⟩
  · rw [sendTcp_data_out, if_pos more]
  · have plain : (sendPlan env c).flags.syn = false := by
      rw [planOf.syn, decide_eq_false_iff_not]
      intro first
      rw [first] at past
      exact past (syn_behind _)
    show Serial.diff _ (sendPlan env c).conn.tcb.sndNxt -
      (if (sendPlan env c).flags.fin then 1 else 0) +
      (if (sendPlan env c).flags.syn then _ else 0) = _
    rw [planOf.sndNxt, span, plain, if_neg Bool.false_ne_true]
    cases (sendPlan env c).flags.fin <;> simp

theorem copy_behind (fits : ∀ m ∈ c.ucb.ucSbuf, m.Fits) (last : Seq) {stop : Nat}
    (something : unacked c < stop) (inside : stop ≤ chainLen c.ucb.ucSbuf)
    (behind : seqGt (c.tcb.iss + 1) c.tcb.sndNxt) (dat : Chain)
    (copied : (sndCopy env (c.withTcb (dataTcb (synTcb c.tcb) last)) (c.tcb.iss + 1)
      (Serial.point c.tcb.sndUna stop)).2 = some dat) :
    (chainLen dat : Int) < stop - unacked c := by
  obtain ⟨total, low, high, smallest, largest⟩ := range
  have gap : 0 < Serial.diff (c.tcb.iss + 1) c.tcb.sndNxt := behind
  have bound := @BitVec.two_mul_toInt_lt _ (c.tcb.iss + 1 - c.tcb.sndNxt)
  have small : Serial.diff (c.tcb.iss + 1) c.tcb.sndNxt < 2 ^ 31 := by
    unfold Serial.diff
    omega
  obtain ⟨k, place⟩ := Int.eq_ofNat_of_zero_le
    (show 0 ≤ unacked c + Serial.diff (c.tcb.iss + 1) c.tcb.sndNxt by omega)
  have start : c.tcb.iss + 1 = Serial.point c.tcb.sndUna k := by
    rw [← place, ← Serial.point_point, ← sndNxt_eq, point_diff]
  rw [start] at copied
  rcases Nat.lt_or_ge k stop with before | after
  · obtain ⟨out, result, bytes⟩ := dataPlan_copy buffers
      ⟨total, low, high, smallest, largest⟩ acked fits last before inside
    rw [copied] at result
    have length := congrArg List.length bytes
    rw [← Option.some.inj result, length_chainData, List.length_take, List.length_drop,
      length_chainData] at length
    omega
  · have ended : seqGeq (Serial.point c.tcb.sndUna k) (Serial.point c.tcb.sndUna stop) := by
      rw [seqGeq_point _ (by omega) (by omega)]
      omega
    rw [sndCopy, if_pos ended] at copied
    cases copied

/-- For the window as it is kept: it is used exactly when it lets nothing out, or it is not negative
as a short and the next sequence number is seen to lie behind the SYN. -/
theorem sends_iff (unforced : c.tcb.forceOne = false)
    (fits : ∀ m ∈ c.ucb.ucSbuf, m.Fits) :
    SendsWindow c c.tcb.sndWnd.toNat (sendTcp env c .data).1 ↔
      letOut c c.tcb.sndWnd.toNat ≤ unacked c ∨
        c.tcb.sndWnd.toNat < 2 ^ 15 ∧ ¬ seqGt (c.tcb.iss + 1) c.tcb.sndNxt := by
  have short := BitVec.toInt_eq_toNat_cond c.tcb.sndWnd
  have wide := c.tcb.sndWnd.isLt
  have lower : letOut c c.tcb.sndWnd.toInt ≤ letOut c c.tcb.sndWnd.toNat := by
    unfold letOut
    split at short <;> omega
  rcases Int.lt_or_le (unacked c) (letOut c c.tcb.sndWnd.toNat) with something | nothing
  swap
  · refine ⟨fun _ => .inl nothing, fun _ => ⟨fun more => by omega, fun _ => ?_⟩⟩
    exact sends_nothing env range acked unforced (by omega)
  rcases Nat.lt_or_ge c.tcb.sndWnd.toNat (2 ^ 15) with positive | negative
  swap
  · have out : letOut c c.tcb.sndWnd.toInt ≤ unacked c := by
      have := range.low
      unfold letOut
      split at short <;> omega
    obtain ⟨more, sent, plain⟩ := sends_nothing env range acked unforced out
    constructor
    · rintro ⟨sends, -⟩
      obtain ⟨p, dat, packet, -, -, -, copied, -⟩ := sends something
      rw [sent, List.append_cancel_left_eq] at packet
      rw [plain p (by rw [packet]; exact List.mem_singleton_self p)] at copied
      cases copied
    · rintro (other | ⟨other, -⟩) <;> omega
  · have same : c.tcb.sndWnd.toInt = c.tcb.sndWnd.toNat := by
      split at short <;> omega
    obtain ⟨p, sent, made, seq, len, dat⟩ := sends_packet buffers range acked unforced
      (same ▸ something)
    rw [same] at len dat
    have stop : letOut c c.tcb.sndWnd.toNat = (letOut c c.tcb.sndWnd.toNat).toNat :=
      (Int.toNat_of_nonneg (by have := range.low; omega)).symm
    have inside : (letOut c c.tcb.sndWnd.toNat).toNat ≤ chainLen c.ucb.ucSbuf := by
      have := Int.min_le_left (chainLen c.ucb.ucSbuf : Int)
        (min (c.tcb.sndWnd.toNat : Int) (unacked c + c.tcb.tMaxseg))
      unfold letOut
      omega
    constructor
    · rintro ⟨sends, -⟩
      refine .inr ⟨positive, fun behind => ?_⟩
      obtain ⟨q, out, packet, -, -, -, copied, bytes⟩ := sends something
      rw [sent, List.append_cancel_left_eq, List.singleton_inj] at packet
      rw [seqMax, if_pos behind, stop, packet, copied] at dat
      have fewer := copy_behind buffers range acked fits _ (stop ▸ something) inside behind out
        dat.symm
      have length := congrArg List.length bytes
      rw [length_chainData, List.length_take, List.length_drop, length_chainData] at length
      have low := range.low
      clear sends
      omega
    · rintro (other | ⟨-, past⟩)
      · omega
      have place : unacked c = (unacked c).toNat := (Int.toNat_of_nonneg range.low).symm
      obtain ⟨out, copied, bytes⟩ := dataPlan_copy buffers range acked fits (sndLast c)
        (show (unacked c).toNat < (letOut c c.tcb.sndWnd.toNat).toNat by omega) inside
      rw [seqMax, if_neg past, stop, sndNxt_eq c, place, copied] at dat
      have span : (letOut c c.tcb.sndWnd.toNat - unacked c).toNat =
          (letOut c c.tcb.sndWnd.toNat).toNat - (unacked c).toNat := by omega
      refine ⟨fun _ => ⟨p, out, sent, made, seq, len past, dat, ?_⟩, fun none => by omega⟩
      rw [span]
      exact bytes

end

/-- After a segment whose window is taken, the data go out as the window allows exactly when there
is nothing for it to let out, or it is less than 2^15 and the next sequence number less than 2^31
past the initial one. -/
theorem window_used {d : Conn} {n : Th} (buffers : ∀ t, env.mGet t = true)
    (taken : d.tcb.synRcvd = true ∧ seqGeq n.tSeq d.tcb.sndWl) (acked : d.tcb.synAcked = true)
    (unforced : d.tcb.forceOne = false) (fits : ∀ m ∈ d.ucb.ucSbuf, m.Fits) (range : InRange d) :
    SendsWindow (rcvWindow d n) n.tWin.toNat (sendTcp env (rcvWindow d n) .data).1 ↔
      letOut d n.tWin.toNat ≤ unacked d ∨
        n.tWin.toNat < 2 ^ 15 ∧ ¬ seqGt (d.tcb.iss + 1) d.tcb.sndNxt := by
  have window : rcvWindow d n = tCancel (d.withTcb { d.tcb with
      sndWl := n.tSeq
      sndWnd := n.tWin
      newWindow := true }) .tpersist := if_pos taken
  rw [window]
  exact @sends_iff env (tCancel (d.withTcb { d.tcb with
    sndWl := n.tSeq
    sndWnd := n.tWin
    newWindow := true }) .tpersist) buffers ⟨range.total, range.low, range.high, range.segment⟩
    acked unforced fits

/-- An open connection with twenty bytes to send, of which five are not acknowledged. -/
def sending : Conn :=
  let c := tcpopen activeOpen 0
  { c with
    tcb := { c.tcb with
      tState := .estab
      synAcked := true
      synRcvd := true
      sndUna := 1
      sndNxt := 6
      tMaxseg := 496 }
    ucb := { c.ucb with ucSbuf := [{ Mbuf.fresh with mOff := mhead, mLen := 20 }] } }

/-- A segment with a window. -/
def offering (win : BitVec 16) : Th where
  tS := 9
  tD := 2
  tSrc := 23
  tDst := 1024
  tSeq := 1
  tAckno := 1
  tOff := 5
  tFlags := { ack := true }
  tWin := win
  tUrp := 0
  tLen := 0
  tMss := none
  mbufs := []

theorem sending_inRange : InRange sending := ⟨by decide, by decide, by decide, by decide⟩

theorem window_used_ten : SendsWindow (rcvWindow sending (offering 10)) 10
    (sendTcp host2 (rcvWindow sending (offering 10)) .data).1 :=
  (window_used (fun _ => rfl) (by decide) rfl rfl (by decide) sending_inRange).mpr
    (.inr (by decide))

/-- A window of 2^15 lets nothing out. -/
theorem window_negative : ¬ SendsWindow (rcvWindow sending (offering 0x8000)) 0x8000
    (sendTcp host2 (rcvWindow sending (offering 0x8000)) .data).1 := by
  rintro ⟨sends, -⟩
  obtain ⟨p, dat, sent, -⟩ := sends (by decide)
  have none : (sendTcp host2 (rcvWindow sending (offering 0x8000)) .data).1.out.length = 0 := by
    decide +kernel
  rw [sent] at none
  cases none

end NetworkUnix.Bbnnet
