/-
This file says what one call of `send_tcp` does: the packets it asks for and the
send variables it leaves, in terms of the plan of the segment.
-/

import NetworkUnix.Bbnnet.Tcp.Frame

namespace NetworkUnix.Bbnnet

/-! ### The plan of a segment -/

theorem sndCopy_conn (env : Env) (c : Conn) (start fin : Seq) :
    ∃ clock, (sndCopy env c start fin).1 = { c with clock := clock } := by
  unfold sndCopy
  split
  · exact ⟨c.clock, rfl⟩
  split
  · exact ⟨c.clock, rfl⟩
  · split
    · exact ⟨_, rfl⟩
    · exact ⟨_, rfl⟩

/-- What every plan has of the connection it is made for. -/
structure PlanOf (c : Conn) (plan : SendPlan) : Prop where
  sndNxt : plan.conn.tcb.sndNxt = c.tcb.sndNxt
  sndHi : plan.conn.tcb.sndHi = c.tcb.sndHi
  out : plan.conn.out = c.out
  syn : plan.flags.syn = decide (c.tcb.sndNxt = c.tcb.iss)

theorem PlanOf.addFin {c : Conn} {plan : SendPlan} (planned : PlanOf c plan) :
    PlanOf c plan.addFin :=
  ⟨planned.sndNxt, planned.sndHi, planned.out, planned.syn⟩

theorem dataTcb_keeps (tp : Tcb) (last : Seq) : (dataTcb tp last).sndNxt = tp.sndNxt ∧
    (dataTcb tp last).sndHi = tp.sndHi ∧ (dataTcb tp last).seqFin = tp.seqFin ∧
      (dataTcb tp last).rexmt = tp.rexmt := by
  unfold dataTcb
  split <;> exact ⟨rfl, rfl, rfl, rfl⟩

theorem dataPlan_planOf (env : Env) (c : Conn) {flags : Flags} (last : Seq)
    (syn : flags.syn = decide (c.tcb.sndNxt = c.tcb.iss)) :
    PlanOf c (dataPlan env c flags last) := by
  obtain ⟨clock, same⟩ := sndCopy_conn env (c.withTcb (dataTcb c.tcb last))
    (seqMax (c.tcb.iss + 1) c.tcb.sndNxt) (sndStop c.tcb last)
  obtain ⟨nxt, hi, _⟩ := dataTcb_keeps c.tcb last
  have conn : (dataPlan env c flags last).conn =
      { c.withTcb (dataTcb c.tcb last) with clock := clock } := same
  exact ⟨by rw [conn]; exact nxt, by rw [conn]; exact hi, by rw [conn]; rfl, syn⟩

theorem sendData_planOf (env : Env) (c : Conn) {flags : Flags} (last : Seq)
    (syn : flags.syn = decide (c.tcb.sndNxt = c.tcb.iss)) :
    PlanOf c (sendData env c flags last) := by
  unfold sendData
  split
  · exact (dataPlan_planOf env c last syn).addFin
  · exact dataPlan_planOf env c last syn

theorem sendPlan_planOf (env : Env) (c : Conn) : PlanOf c (sendPlan env c) := by
  have plain (plan : SendPlan) (conn : plan.conn = c.withTcb (synTcb c.tcb))
      (syn : plan.flags.syn = decide (c.tcb.sndNxt = c.tcb.iss)) : PlanOf c plan := by
    exact ⟨by rw [conn]; rfl, by rw [conn]; rfl, by rw [conn]; rfl, syn⟩
  unfold sendPlan
  dsimp only
  split
  · split
    · exact (plain ⟨_, _, _, _⟩ rfl rfl).addFin
    · exact plain ⟨_, _, _, _⟩ rfl rfl
  split
  · have planned := @sendData_planOf env (c.withTcb (synTcb c.tcb))
      { syn := decide (c.tcb.sndNxt = c.tcb.iss) } (sndLast c) rfl
    exact ⟨planned.sndNxt, planned.sndHi, planned.out, planned.syn⟩
  · exact plain ⟨_, _, _, _⟩ rfl rfl

/-! ### The packets asked for -/

theorem sendPkt_out (env : Env) (c : Conn) (flags : Flags) (len : Int) (dat : Option Chain) :
    (sendPkt env c flags len dat).1.out = c.out ++ [mkPacket (env.mGet c.clock) c flags len dat] := by
  unfold sendPkt
  split
  · rename_i found
    rw [found]
  · rename_i none
    simp only [Bool.not_eq_true] at none
    rw [none]

/-- The packet a plan asks for. -/
def SendPlan.packet (env : Env) (plan : SendPlan) : Packet :=
  mkPacket (env.mGet plan.conn.clock) plan.conn plan.flags
    (Serial.diff plan.conn.tcb.sndLst plan.conn.tcb.sndNxt) plan.dat

theorem sendAck_out (env : Env) (c : Conn) (call : Ctl) :
    ∃ more, (sendAck env c call).out = c.out ++ more ∧
      ∀ p ∈ more, p.dat = none ∧ p.flags.syn = false := by
  unfold sendAck
  split
  · refine ⟨[mkPacket (env.mGet c.clock) c {} 0 none], sendPkt_out env c {} 0 none, ?_⟩
    intro p inside
    rw [List.mem_singleton.mp inside]
    exact ⟨rfl, rfl⟩
  · exact ⟨[], (List.append_nil _).symm, by simp⟩

theorem sendPlanned_out (env : Env) (plan : SendPlan) :
    (sendPlanned env plan).1.out = plan.conn.out ++ [plan.packet env] :=
  sendPkt_out _ _ _ _ _

theorem sendTcp_out (env : Env) (c : Conn) (call : Ctl) :
    ∃ more, (sendTcp env c call).1.out = c.out ++
        (if seqLt (sendPlan env c).conn.tcb.sndNxt (sendPlan env c).conn.tcb.sndLst then
          [(sendPlan env c).packet env] else []) ++ more ∧
      ∀ p ∈ more, p.dat = none ∧ p.flags.syn = false := by
  have planned := (sendPlan_planOf env c).out
  unfold sendTcp
  dsimp only
  split
  · have first := sendPlanned_out env (sendPlan env c)
    rw [planned] at first
    split
    · exact ⟨[], by rw [first, List.append_nil], by simp⟩
    · obtain ⟨more, out, plain⟩ := sendAck_out env (sendPlanned env (sendPlan env c)).1 call
      exact ⟨more, by rw [out, first], plain⟩
  · obtain ⟨more, out, plain⟩ := sendAck_out env (sendPlan env c).conn call
    exact ⟨more, by rw [out, planned, List.append_nil], plain⟩

/-! ### The send variables -/

end NetworkUnix.Bbnnet
