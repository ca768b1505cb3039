/-
This file says when a FIN is recognized. `rcv_tcp` compares the first empty spot
of the receive buffer with the last byte of the last queued segment, where the
end of the queue is one further on. On an empty queue it compares with the end
of the segment as well, so that a FIN without data is recognized there; a FIN
that leaves anything on the queue is not, unless a byte has been queued under
its own sequence number.
-/

import NetworkUnix.Bbnnet.Tcp.Filled

namespace NetworkUnix.Bbnnet

open Pieces Serial

/-! ### The order of a queue -/

/-- The segment with zeros for its text, so that only its place is left. -/
def Th.blank (t : Th) : Th :=
  { t with mbufs := [{ mAct := 0, mOff := 0, mLen := t.tLen, mDat := fun _ => 0 }] }

/-- The control block with blank segments on its sequencing queue. -/
def Tcb.blank (tp : Tcb) : Tcb := { tp with tRcv := tp.tRcv.map Th.blank }

/-- The sequencing queue is in order and without overlaps, whatever its text: the bytes from
`taken` up to the next one expected, `ready`, are held, and all others are past it. Positions
count from `base` and stay below `limit`. -/
def InOrder (base : Seq) (limit : Nat) (tp : Tcb) (taken ready : Nat) : Prop :=
  Sequenced base (List.replicate limit 0) tp.blank taken ready

theorem Th.place_blank (t : Th) : t.blank.place = t.place := rfl

theorem places_blank (queue : List Th) : (queue.map Th.blank).map Th.place = queue.map Th.place := by
  rw [List.map_map]
  rfl

theorem blank_start (base : Seq) (t : Th) : (piece base t.blank).start = (t.tSeq - base).toNat := rfl

theorem blank_data (base : Seq) (t : Th) :
    (piece base t.blank).data = List.replicate t.tLen 0 := by
  simp [piece, Th.blank, Mbuf.data, Memory.window]

theorem blank_stop (base : Seq) (t : Th) :
    (piece base t.blank).stop = (t.tSeq - base).toNat + t.tLen := by
  rw [Piece.stop, blank_start, blank_data, List.length_replicate]

theorem blank_carries {base : Seq} {limit : Nat} {t : Th} (data : t.tLen ≠ 0)
    (reach : (t.tSeq - base).toNat + t.tLen ≤ limit) :
    Carries base (List.replicate limit 0) t.blank := by
  refine ⟨by simp [Th.blank], ?_, ?_⟩
  · rw [blank_data]
    simpa using data
  · rw [blank_data, blank_start, List.drop_replicate]
    exact List.prefix_replicate_iff.mpr
      ⟨by rw [List.length_replicate]; omega, by rw [List.length_replicate]⟩

theorem touches_blank (t : Th) (queue : List Th) :
    touches t.blank (queue.map Th.blank) ↔ touches t queue := by
  induction queue with
  | nil => exact Iff.rfl
  | cons q rest inductionHypothesis =>
    rw [List.map_cons, touches, touches, inductionHypothesis]
    refine or_congr_left (and_congr_right fun _ => and_congr_right fun _ => ?_)
    constructor
    · rintro ⟨later, inside, same⟩
      obtain ⟨real, member, rfl⟩ := List.mem_map.mp inside
      exact ⟨real, member, same⟩
    · rintro ⟨later, inside, same⟩
      exact ⟨later.blank, List.mem_map_of_mem inside, same⟩

theorem tEnd_last_blank (queue : List Th) (s : Seq) :
    (∃ q, (queue.map Th.blank).getLast? = some q ∧ tEnd q = s) ↔
      ∃ q, queue.getLast? = some q ∧ tEnd q = s := by
  rw [List.getLast?_map]
  cases queue.getLast? with
  | none => simp
  | some q => simp [tEnd, Th.blank]

/-! ### What the FIN needs -/

/-- The sequence number the FIN of a segment occupies. -/
def finSeq (n : Th) : Seq := n.tSeq + BitVec.ofNat 32 n.tLen

/-- The segment holds the byte with the given sequence number. -/
def Th.Holds (t : Th) (s : Seq) : Prop := (s - t.tSeq).toNat < t.tLen

instance (t : Th) (s : Seq) : Decidable (t.Holds s) := inferInstanceAs (Decidable (_ < _))

/-- Every byte before the FIN has been received: those from the next one expected on are held by
the segment or on the sequencing queue. -/
def AllIn (c : Conn) (n : Th) : Prop :=
  ∀ k < (finSeq n - c.tcb.rcvNxt).toNat, n.Holds (c.tcb.rcvNxt + BitVec.ofNat 32 k) ∨
    ∃ q ∈ c.tcb.tRcv, q.Holds (c.tcb.rcvNxt + BitVec.ofNat 32 k)

instance (c : Conn) (n : Th) : Decidable (AllIn c n) :=
  inferInstanceAs (Decidable (∀ k < _, _ ∨ _))

/-- A segment with a FIN in the window of a synchronized connection that has received no FIN so
far, with buffers for its text. The queue is in order, and no position comes near half the
sequence numbers. -/
structure FinArrives (env : Env) (c : Conn) (n : Th) (base : Seq) (limit taken ready : Nat) :
    Prop where
  synRcvd : c.tcb.synRcvd = true
  finRcvd : c.tcb.finRcvd = false
  fin : n.tFlags.fin = true
  window : ¬ outside c n
  room : c.ucb.ucRcv - c.ucb.ucRsize < textBufs n → env.bufsLow c.clock = false
  queue : InOrder base limit c.tcb taken ready
  reach : (n.tSeq - base).toNat + n.tLen ≤ limit
  small : limit < 2 ^ 31

/-- With every byte before it received, the FIN is recognized and acknowledged; with one missing, it
is neither. -/
def FinRecognized (env : Env) (c : Conn) (n : Th) : Prop :=
  let after := (rcvTcp env c n .data).tcb
  (AllIn c n → after.finRcvd = true ∧ after.rcvNxt = finSeq n + 1) ∧
    (¬ AllIn c n → after.finRcvd = false ∧ ¬ seqGt after.rcvNxt (finSeq n))

/-- When a FIN is treated as it should be. On an empty queue without data of its own it must be the
next one expected, or else the words read in the place of a last segment must not end there; with
data on the queue or of its own a byte must be missing, or the segment must touch a later one while
the last byte queued has the sequence number of the FIN. -/
def FinSeen (env : Env) (c : Conn) (n : Th) : Prop :=
  (c.tcb.tRcv = [] ∧ n.tLen = 0 ∧
      (n.tSeq = c.tcb.rcvNxt ∨ env.strayEnd c.clock ≠ c.tcb.rcvNxt)) ∨
    ((c.tcb.tRcv ≠ [] ∨ n.tLen ≠ 0) ∧ ¬ AllIn c n) ∨
    (n.tLen ≠ 0 ∧ touches n c.tcb.tRcv ∧
      ∃ q, c.tcb.tRcv.getLast? = some q ∧ tEnd q = finSeq n)

theorem holds_point {base : Seq} {t : Th} {k : Nat}
    (reach : (t.tSeq - base).toNat + t.tLen < 2 ^ 31) (small : k < 2 ^ 31) :
    t.Holds (point base (k : Int)) ↔ (piece base t.blank).Holds k := by
  have start := point_toNat base t.tSeq
  rw [Piece.Holds, blank_stop, blank_start, Th.Holds]
  generalize (t.tSeq - base).toNat = first at *
  rw [← start, point_sub_point, BitVec.toNat_ofInt]
  omega

theorem finSeq_eq (base : Seq) (n : Th) :
    finSeq n = point base (((n.tSeq - base).toNat + n.tLen : Nat) : Int) := by
  rw [finSeq, Int.natCast_add, ← point_add, point_toNat]

section Arrival

variable {env : Env} {c : Conn} {n : Th} {base : Seq} {limit taken ready : Nat}
variable (arrives : FinArrives env c n base limit taken ready)
include arrives

theorem FinArrives.short : (List.replicate limit (0 : Byte)).length < 2 ^ 31 := by
  rw [List.length_replicate]
  exact arrives.small

theorem FinArrives.ready_le : ready ≤ limit := by
  have inside := arrives.queue.inside
  rwa [List.length_replicate] at inside

theorem FinArrives.late : ready ≤ (n.tSeq - base).toNat := by
  have within := arrives.ready_le
  have reach := arrives.reach
  have small := arrives.small
  have nxt : c.tcb.rcvNxt = point base (ready : Int) := arrives.queue.nxt
  have inside : ¬ seqLt n.tSeq c.tcb.rcvNxt := fun low => arrives.window (.inl low)
  rw [nxt, ← point_toNat base n.tSeq, seqLt_point base (by omega) (by omega)] at inside
  omega

theorem FinArrives.allIn_iff : AllIn c n ↔
    ∀ k, ready ≤ k → k < (piece base n.blank).stop →
      (piece base n.blank).Holds k ∨ Covers (pieces base (c.tcb.tRcv.map Th.blank)) k := by
  have late := arrives.late
  have within := arrives.ready_le
  have reach := arrives.reach
  have small := arrives.small
  have nxt : c.tcb.rcvNxt = point base (ready : Int) := arrives.queue.nxt
  have count : (finSeq n - c.tcb.rcvNxt).toNat = (n.tSeq - base).toNat + n.tLen - ready := by
    rw [finSeq_eq base n, nxt, point_sub_point, BitVec.toNat_ofInt]
    omega
  have held {q : Th} (inside : q ∈ c.tcb.tRcv) : (q.tSeq - base).toNat + q.tLen < 2 ^ 31 := by
    have carries := arrives.queue.carries q.blank (List.mem_map_of_mem inside)
    have bound := Piece.stop_le_length carries.part
    rw [List.length_replicate, blank_stop] at bound
    omega
  have covers (k : Nat) (less : k < 2 ^ 31) :
      (∃ q ∈ c.tcb.tRcv, q.Holds (point base (k : Int))) ↔
        Covers (pieces base (c.tcb.tRcv.map Th.blank)) k := by
    constructor
    · rintro ⟨q, inside, holds⟩
      exact ⟨_, List.mem_map_of_mem (List.mem_map_of_mem inside),
        (holds_point (held inside) less).mp holds⟩
    · rintro ⟨p, inside, holds⟩
      obtain ⟨_, member, rfl⟩ := List.mem_map.mp inside
      obtain ⟨q, real, rfl⟩ := List.mem_map.mp member
      exact ⟨q, real, (holds_point (held real) less).mpr holds⟩
  rw [AllIn, count, blank_stop]
  constructor
  · intro all k low high
    have one := all (k - ready) (by omega)
    rw [nxt, point_add, show (ready : Int) + ((k - ready : Nat) : Int) = (k : Int) by omega] at one
    exact one.imp (holds_point (by omega) (by omega)).mp (covers k (by omega)).mp
  · intro all j less
    rw [nxt, point_add, ← Int.natCast_add]
    exact (all (ready + j) (by omega) (by omega)).imp (holds_point (by omega) (by omega)).mpr
      (covers _ (by omega)).mpr

theorem FinArrives.not_past : ¬ seqGt c.tcb.rcvNxt (finSeq n) := by
  have late := arrives.late
  have within := arrives.ready_le
  have reach := arrives.reach
  have small := arrives.small
  rw [show c.tcb.rcvNxt = point base (ready : Int) from arrives.queue.nxt, finSeq_eq base n,
    seqGt_point base (by omega) (by omega)]
  omega

/-! ### What is left of the segment -/

omit arrives in
theorem rcvHeader_clock (c : Conn) (n : Th) : (rcvHeader c n).clock = c.clock := by
  have cancel (c : Conn) (i : Timer) : (tCancel c i).clock = c.clock := rfl
  have opening (c : Conn) : (ackOpening c).clock = c.clock := by
    unfold ackOpening
    split <;> rfl
  have closing (c : Conn) : (ackClosing c).clock = c.clock := by
    unfold ackClosing
    split <;> rfl
  have buffer (c : Conn) (len : Int) : (ackBuffer c len).clock = c.clock := rfl
  have timers (c : Conn) : (ackTimers c).clock = c.clock :=
    (cancel (tCancel c .trexmt) .trexmttl).trans (cancel c .trexmt)
  have ack (c : Conn) : (rcvAckno c n).clock = c.clock := by
    unfold rcvAckno
    split
    · unfold rcvAck
      dsimp only
      rw [timers, closing, buffer, opening]
      rfl
    · rfl
  have window (c : Conn) : (rcvWindow c n).clock = c.clock := by
    unfold rcvWindow
    split <;> rfl
  have syn (c : Conn) : (rcvSyn c n).clock = c.clock := by
    unfold rcvSyn
    split <;> rfl
  unfold rcvHeader
  dsimp only
  rw [window, ack, syn]
  rfl

theorem FinArrives.header : (rcvHeader c n).inbound = { c.inbound with droppedTxt := false } := by
  have noSyn : ¬ (c.tcb.synRcvd = false ∧ n.tFlags.syn = true) := fun both =>
    absurd (arrives.synRcvd.symm.trans both.1) (by decide)
  rw [inbound_rcvHeader, inbound_rcvSyn, if_neg noSyn]

/-- What the FIN is checked against: the places on the queue after the text, and the next
sequence number expected. -/
structure FinInput (env : Env) (c : Conn) (n : Th) (queue : List Th) (next : Seq) : Prop where
  fin : (rcvData env (rcvHeader c n) n).2.tFlags.fin = true
  whole : (rcvData env (rcvHeader c n) n).1.tcb.droppedTxt = false
  first : (rcvData env (rcvHeader c n) n).1.tcb.finRcvd = false
  nxt : (rcvData env (rcvHeader c n) n).1.tcb.rcvNxt = next
  places : (rcvData env (rcvHeader c n) n).1.tcb.tRcv.map Th.place = queue.map Th.place

theorem FinArrives.checked_text (data : n.tLen ≠ 0) :
    FinInput env c n (rcvMerge c.tcb.rcvNxt (tEnd n) c.tcb.tRcv n).1
      (firstempty { c.tcb with tRcv := (rcvMerge c.tcb.rcvNxt (tEnd n) c.tcb.tRcv n).1 }) := by
  obtain ⟨segment, places, inbound⟩ := inbound_rcvData env (rcvHeader c n) n
  rw [if_pos data] at segment places inbound
  have header := arrives.header
  have nxt : (rcvHeader c n).tcb.rcvNxt = c.tcb.rcvNxt := congrArg Inbound.rcvNxt header
  have queue : (rcvHeader c n).tcb.tRcv = c.tcb.tRcv := congrArg Inbound.tRcv header
  have late : ¬ 0 < Serial.diff (rcvHeader c n).tcb.rcvNxt n.tSeq := by
    have least := arrives.late
    have reach := arrives.reach
    have small := arrives.small
    have expected : c.tcb.rcvNxt = point base (ready : Int) := arrives.queue.nxt
    have gap := Serial.diff_point base (ready : Int) ((n.tSeq - base).toNat : Int) (by omega)
      (by omega)
    rw [← expected, point_toNat] at gap
    rw [nxt, gap]
    omega
  have given : (rcvHeader c n).ucb.ucRcv = c.ucb.ucRcv := congrArg Inbound.ucRcv header
  have held : (rcvHeader c n).ucb.ucRsize = c.ucb.ucRsize := congrArg Inbound.ucRsize header
  obtain ⟨flags, text⟩ := @rcvText_whole env _ _ late (by
    rw [rcvHeader_clock, given, held]
    exact arrives.room)
  rw [nxt, queue] at text
  rw [text, header] at inbound
  refine ⟨by rw [segment, flags, arrives.fin], congrArg Inbound.droppedTxt inbound, ?_, ?_, ?_⟩
  · exact (congrArg Inbound.finRcvd inbound).trans arrives.finRcvd
  · exact (congrArg Inbound.rcvNxt inbound).trans
      (@firstempty_of_queues (rcvHeader c n).tcb c.tcb _ _ nxt rfl)
  · rw [places]
    exact congrArg (List.map Th.place) (congrArg Inbound.tRcv text)

theorem FinArrives.checked_bare (bare : n.tLen = 0) :
    FinInput env c n c.tcb.tRcv c.tcb.rcvNxt := by
  obtain ⟨segment, places, inbound⟩ := inbound_rcvData env (rcvHeader c n) n
  rw [if_neg (not_not.mpr bare)] at segment places inbound
  have header := arrives.header
  dsimp only at segment places inbound
  rw [header] at inbound
  refine ⟨by rw [segment, arrives.fin], congrArg Inbound.droppedTxt inbound, ?_, ?_, ?_⟩
  · exact (congrArg Inbound.finRcvd inbound).trans arrives.finRcvd
  · exact congrArg Inbound.rcvNxt inbound
  · rw [places]
    exact congrArg (List.map Th.place) (congrArg Inbound.tRcv header)

omit arrives in
theorem FinInput.outcome {queue : List Th} {next : Seq} {z : Th}
    (checked : FinInput env c n queue next)
    (again : firstempty { c.tcb with tRcv := queue, rcvNxt := next } = next)
    (ends : queue.getLast? = some z) :
    (rcvTcp env c n .data).tcb.finRcvd = decide (next = tEnd z) ∧
      (rcvTcp env c n .data).tcb.rcvNxt = if next = tEnd z then next + 1 else next := by
  have empty : firstempty (rcvData env (rcvHeader c n) n).1.tcb = next :=
    (@firstempty_of_places _ { c.tcb with tRcv := queue, rcvNxt := next } checked.nxt
      checked.places).trans again
  obtain ⟨found, expected⟩ := @rcvFin_due env _ _ checked.fin checked.whole checked.first
  have inbound := inbound_rcvTcp env c n
  rw [finFound_of_places _ checked.places ends, empty] at found expected
  have reached : seqGeq next next := by
    rw [seqGeq, diff, BitVec.sub_self]
    decide
  simp only [checked.nxt, decide_eq_true_eq, reached, and_true] at expected
  exact ⟨(congrArg Inbound.finRcvd inbound).trans found,
    (congrArg Inbound.rcvNxt inbound).trans expected⟩

theorem FinArrives.outcome_empty (bare : n.tLen = 0) (empty : c.tcb.tRcv = []) :
    (rcvTcp env c n .data).tcb.finRcvd =
        decide (n.tSeq = c.tcb.rcvNxt ∨ env.strayEnd c.clock = c.tcb.rcvNxt) ∧
      (rcvTcp env c n .data).tcb.rcvNxt =
        if n.tSeq = c.tcb.rcvNxt ∨ env.strayEnd c.clock = c.tcb.rcvNxt then c.tcb.rcvNxt + 1
        else c.tcb.rcvNxt := by
  have checked := arrives.checked_bare bare
  rw [empty] at checked
  have none : (rcvData env (rcvHeader c n) n).1.tcb.tRcv = [] := List.map_eq_nil_iff.mp checked.places
  have segment : (rcvData env (rcvHeader c n) n).2 = n := by
    rw [(inbound_rcvData env (rcvHeader c n) n).1, if_neg (not_not.mpr bare)]
  have clock : (rcvData env (rcvHeader c n) n).1.clock = c.clock := by
    have urg (c : Conn) : (rcvUrg c n).clock = c.clock := by
      unfold rcvUrg
      dsimp only
      split_ifs <;> rfl
    have push (c : Conn) : (rcvPush c n).clock = c.clock := by
      unfold rcvPush
      split <;> rfl
    rw [rcvData, if_neg (not_not.mpr bare)]
    dsimp only
    rw [push, urg, rcvHeader_clock]
  have spot : firstempty (rcvData env (rcvHeader c n) n).1.tcb = c.tcb.rcvNxt := by
    rw [firstempty, none]
    exact checked.nxt
  have isFound : finFound env (rcvData env (rcvHeader c n) n).1 (rcvData env (rcvHeader c n) n).2
      c.tcb.rcvNxt = decide (n.tSeq = c.tcb.rcvNxt ∨ env.strayEnd c.clock = c.tcb.rcvNxt) := by
    have ends : tEnd n + 1 = n.tSeq := by
      rw [tEnd_add_one, bare]
      exact BitVec.add_zero _
    rw [finFound, none, segment, clock]
    dsimp only [List.getLast?_nil]
    rw [ends, Bool.decide_or]
    exact congrArg₂ or (decide_eq_decide.mpr eq_comm) (decide_eq_decide.mpr eq_comm)
  obtain ⟨found, expected⟩ := @rcvFin_due env _ _ checked.fin checked.whole checked.first
  have inbound := inbound_rcvTcp env c n
  have reached : seqGeq c.tcb.rcvNxt c.tcb.rcvNxt := by
    rw [seqGeq, diff, BitVec.sub_self]
    decide
  rw [spot, isFound] at found
  simp only [spot, isFound, checked.nxt, decide_eq_true_eq, reached, and_true] at expected
  exact ⟨(congrArg Inbound.finRcvd inbound).trans found,
    (congrArg Inbound.rcvNxt inbound).trans expected⟩

theorem FinArrives.recognized_text (data : n.tLen ≠ 0) :
    FinRecognized env c n ↔ ¬ AllIn c n ∨ touches n c.tcb.tRcv ∧
      ∃ q, c.tcb.tRcv.getLast? = some q ∧ tEnd q = finSeq n := by
  have carries := blank_carries data arrives.reach
  obtain ⟨next, z, filled⟩ : ∃ next z, Filled base c.tcb.blank ready n.blank
      (rcvMerge c.tcb.rcvNxt (tEnd n) (c.tcb.tRcv.map Th.blank) n.blank).1 next z :=
    arrives.queue.filled arrives.short carries arrives.late
  have merged := rcvMerge_places c.tcb.rcvNxt (tEnd n) n.place_blank (places_blank c.tcb.tRcv)
  have checked := arrives.checked_text data
  have spot : firstempty { c.tcb with
      tRcv := (rcvMerge c.tcb.rcvNxt (tEnd n) c.tcb.tRcv n).1 } = point base (next : Int) :=
    (@firstempty_of_queues c.tcb c.tcb.blank _ _ rfl merged.symm).trans filled.empty
  rw [spot] at checked
  obtain ⟨found, expected⟩ := FinInput.outcome
    ⟨checked.fin, checked.whole, checked.first, checked.nxt, checked.places.trans merged.symm⟩
    filled.again filled.ends
  have allIn : AllIn c n ↔ (piece base n.blank).stop ≤ next :=
    arrives.allIn_iff.trans filled.reached
  have last : point base (next : Int) = tEnd z ↔ AllIn c n ∧ touches n c.tcb.tRcv ∧
      ∃ q, c.tcb.tRcv.getLast? = some q ∧ tEnd q = finSeq n := by
    have past : tEnd n.blank + 1 = finSeq n := tEnd_add_one n
    rw [eq_comm, filled.last, past, arrives.allIn_iff, ← touches_blank n,
      ← tEnd_last_blank c.tcb.tRcv]
    exact and_left_comm
  have stop : finSeq n = point base ((piece base n.blank).stop : Int) := by
    rw [finSeq_eq base n, blank_stop]
  have bound := Piece.stop_le_length carries.part
  have small := arrives.small
  rw [List.length_replicate] at bound
  rw [FinRecognized, found, expected]
  by_cases ends : point base (next : Int) = tEnd z
  · have both := last.mp ends
    have same := filled.meets ends.symm
    refine iff_of_true ⟨fun _ => ?_, fun missing => absurd both.1 missing⟩ (.inr both.2)
    rw [if_pos ends, decide_eq_true ends, stop, same]
    exact ⟨rfl, rfl⟩
  · rw [if_neg ends, decide_eq_false ends]
    constructor
    · rintro ⟨all, -⟩
      exact .inl fun allThere => absurd (all allThere).1 Bool.false_ne_true
    · rintro (missing | touching)
      · refine ⟨fun allThere => absurd allThere missing, fun _ => ⟨rfl, ?_⟩⟩
        rw [allIn] at missing
        rw [stop, seqGt_point base (by omega) (by omega)]
        omega
      · by_cases allThere : AllIn c n
        · exact absurd (last.mpr ⟨allThere, touching⟩) ends
        · refine ⟨fun all => absurd all allThere, fun _ => ⟨rfl, ?_⟩⟩
          rw [allIn] at allThere
          rw [stop, seqGt_point base (by omega) (by omega)]
          omega

theorem FinArrives.recognized_bare (bare : n.tLen = 0) (held : c.tcb.tRcv ≠ []) :
    FinRecognized env c n ↔ ¬ AllIn c n := by
  have queue := arrives.queue
  obtain ⟨z, ends⟩ : ∃ z, c.tcb.tRcv.getLast? = some z := ⟨_, List.getLast?_eq_some_getLast held⟩
  have again : firstempty { c.tcb with tRcv := c.tcb.tRcv, rcvNxt := c.tcb.rcvNxt } = c.tcb.rcvNxt := by
    refine Eq.trans ?_ ((queue.firstempty_eq arrives.short).trans queue.nxt.symm)
    exact firstempty_of_places rfl (places_blank _).symm
  have blankEnds : c.tcb.blank.tRcv.getLast? = some z.blank := by
    rw [Tcb.blank, List.getLast?_map, ends]
    rfl
  have apart : c.tcb.rcvNxt ≠ tEnd z := fun same =>
    queue.ne_tEnd arrives.short blankEnds (same.symm.trans queue.nxt)
  obtain ⟨found, expected⟩ := (arrives.checked_bare bare).outcome again ends
  rw [FinRecognized, found, expected, if_neg apart, decide_eq_false apart]
  constructor
  · rintro ⟨all, -⟩ allThere
    exact absurd (all allThere).1 Bool.false_ne_true
  · exact fun missing =>
      ⟨fun allThere => absurd allThere missing, fun _ => ⟨rfl, arrives.not_past⟩⟩

theorem FinArrives.recognized_empty (bare : n.tLen = 0) (empty : c.tcb.tRcv = []) :
    FinRecognized env c n ↔
      n.tSeq = c.tcb.rcvNxt ∨ env.strayEnd c.clock ≠ c.tcb.rcvNxt := by
  have fin : finSeq n = n.tSeq := by
    rw [finSeq, bare]
    exact BitVec.add_zero _
  have allIn : AllIn c n ↔ n.tSeq = c.tcb.rcvNxt := by
    have late := arrives.late
    have nxt : c.tcb.rcvNxt = point base (ready : Int) := arrives.queue.nxt
    rw [arrives.allIn_iff, blank_stop, bare, empty, nxt]
    constructor
    · intro all
      have start : (n.tSeq - base).toNat = ready := by
        by_contra past
        rcases all ready le_rfl (by omega) with holds | covered
        · have first := holds.1
          rw [blank_start] at first
          omega
        · exact covers_nil _ covered
      rw [← start, point_toNat]
    · intro same k low high
      have within := arrives.ready_le
      have reach := arrives.reach
      have small := arrives.small
      have both := (point_toNat base n.tSeq).trans same
      rw [point_eq_iff base (by omega) (by omega)] at both
      omega
  obtain ⟨found, expected⟩ := arrives.outcome_empty bare empty
  rw [FinRecognized, found, expected, allIn, fin]
  by_cases next : n.tSeq = c.tcb.rcvNxt
  · rw [if_pos (.inl next), decide_eq_true (.inl next)]
    exact iff_of_true ⟨fun _ => ⟨rfl, by rw [next]⟩, fun other => absurd next other⟩ (.inl next)
  · by_cases stray : env.strayEnd c.clock = c.tcb.rcvNxt
    · rw [decide_eq_true (.inr stray)]
      refine iff_of_false (fun both => absurd (both.2 next).1 (by decide)) ?_
      rintro (same | other)
      · exact next same
      · exact other stray
    · have neither : ¬ (n.tSeq = c.tcb.rcvNxt ∨ env.strayEnd c.clock = c.tcb.rcvNxt) :=
        not_or.mpr ⟨next, stray⟩
      rw [if_neg neither, decide_eq_false neither]
      exact iff_of_true ⟨fun same => absurd same next, fun _ => ⟨rfl, fin ▸ arrives.not_past⟩⟩
        (.inr stray)

/-- The FIN is treated as it should be exactly in these cases. -/
theorem fin_recognized_iff : FinRecognized env c n ↔ FinSeen env c n := by
  by_cases data : n.tLen = 0
  · by_cases queue : c.tcb.tRcv = []
    · rw [arrives.recognized_empty data queue, FinSeen]
      simp only [queue, data, true_and, ne_eq, not_true_eq_false, or_self, false_and, or_false]
    · rw [arrives.recognized_bare data queue, FinSeen]
      simp only [queue, data, false_and, true_and, ne_eq, not_false_eq_true, false_or,
        not_true_eq_false, or_false]
  · rw [arrives.recognized_text data, FinSeen]
    simp only [data, false_and, and_false, false_or, ne_eq, not_false_eq_true, or_true, true_and]

end Arrival

/-! ### Two segments -/

theorem inOrder_nil {tp : Tcb} (limit : Nat) (empty : tp.tRcv = []) :
    InOrder tp.rcvNxt limit tp 0 0 := by
  have none : tp.blank.tRcv = [] := by rw [Tcb.blank, empty, List.map_nil]
  refine ⟨(point_zero _).symm, Nat.zero_le _, fun q inside => ?_, [], [], none, rfl,
    List.Pairwise.nil, fun q inside => absurd inside List.not_mem_nil⟩
  rw [none] at inside
  exact absurd inside List.not_mem_nil

/-- The next segment expected after sequence number 7, with a FIN behind `count` bytes of text. -/
def finSegment (count : Nat) : Th :=
  { sliceSegment 8 [1, 2] 0 count with tFlags := { fin := true } }

theorem finSegment_arrives {count : Nat} (most : count ≤ 2) :
    FinArrives host2 (synched 7).conn (finSegment count) 8 2 0 0 :=
  ⟨rfl, rfl, rfl, (by decide : ¬ outside (synched 7).conn (finSegment 0)), fun _ => rfl,
    (inOrder_nil 2 rfl : InOrder (synched 7).conn.tcb.rcvNxt 2 (synched 7).conn.tcb 0 0), by
    show (8 + BitVec.ofNat 32 0 - 8 : Seq).toNat + count ≤ 2
    simpa using most, by decide⟩

/-- A FIN without text is recognized. -/
theorem fin_recognized_bare : FinRecognized host2 (synched 7).conn (finSegment 0) :=
  (fin_recognized_iff (finSegment_arrives (by decide))).mpr (.inl ⟨rfl, rfl, .inl rfl⟩)

/-- A FIN behind two bytes that are expected is not. -/
theorem fin_with_text_missed : ¬ ∀ (env : Env) (c : Conn) (n : Th) (base : Seq)
    (limit taken ready : Nat), FinArrives env c n base limit taken ready →
      FinRecognized env c n := by
  intro recognized
  have found := (recognized _ _ _ _ _ _ _ (finSegment_arrives (Nat.le_refl 2))).1
    (by decide +kernel)
  exact absurd found.1 (by decide +kernel)

end NetworkUnix.Bbnnet
