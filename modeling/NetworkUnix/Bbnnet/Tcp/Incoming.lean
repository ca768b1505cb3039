/-
This file says what processing a segment does to the receive side of a
connection. The SYN sets where the sequence numbers start; the acknowledgement,
the window, the reply and the timers leave the receive side as it is; the text
and the FIN are the only parts that change it, and the urgent pointer and the
PUSH change neither the sequence numbers nor the bytes that are queued.
-/

import NetworkUnix.Bbnnet.Tcp.Frame
import NetworkUnix.Bbnnet.Tcp.Receive

namespace NetworkUnix.Bbnnet

/-! ### The receive side -/

/-- The receive side of a connection: the sequencing queue, the next sequence number expected,
whether text was dropped, what is known of the SYN and the FIN, and the receive buffer with its
room. -/
structure Inbound where
  tRcv : List Th
  rcvNxt : Seq
  droppedTxt : Bool
  synRcvd : Bool
  finRcvd : Bool
  ucRbuf : Chain
  ucRsize : Nat
  ucRcv : Nat

/-- The receive side of a connection. -/
def Conn.inbound (c : Conn) : Inbound where
  tRcv := c.tcb.tRcv
  rcvNxt := c.tcb.rcvNxt
  droppedTxt := c.tcb.droppedTxt
  synRcvd := c.tcb.synRcvd
  finRcvd := c.tcb.finRcvd
  ucRbuf := c.ucb.ucRbuf
  ucRsize := c.ucb.ucRsize
  ucRcv := c.ucb.ucRcv

theorem inbound_of_sendErased {c other : Conn} (same : other.sendErased = c.sendErased) :
    other.inbound = c.inbound :=
  (congrArg Conn.inbound same : other.sendErased.inbound = c.sendErased.inbound)

theorem inbound_rcvSyn (c : Conn) (n : Th) : (rcvSyn c n).inbound =
    if c.tcb.synRcvd = false ∧ n.tFlags.syn = true then
      { c.inbound with rcvNxt := n.tSeq + 1, synRcvd := true }
    else c.inbound := by
  unfold rcvSyn
  split <;> rfl

theorem inbound_ackOpening (c : Conn) : (ackOpening c).inbound = c.inbound := by
  unfold ackOpening
  split <;> rfl

theorem inbound_ackClosing (c : Conn) : (ackClosing c).inbound = c.inbound := by
  unfold ackClosing
  split <;> rfl

theorem inbound_ackBuffer (c : Conn) (len : Int) : (ackBuffer c len).inbound = c.inbound := rfl

theorem inbound_tCancel (c : Conn) (i : Timer) : (tCancel c i).inbound = c.inbound := by
  cases i <;> rfl

theorem inbound_ackTimers (c : Conn) : (ackTimers c).inbound = c.inbound :=
  (inbound_tCancel _ .trexmttl).trans (inbound_tCancel c .trexmt)

theorem inbound_rcvAckno (c : Conn) (n : Th) : (rcvAckno c n).inbound = c.inbound := by
  unfold rcvAckno
  split
  · unfold rcvAck
    dsimp only
    rw [inbound_ackTimers, inbound_ackClosing, inbound_ackBuffer, inbound_ackOpening]
    rfl
  · rfl

theorem inbound_rcvWindow (c : Conn) (n : Th) : (rcvWindow c n).inbound = c.inbound := by
  unfold rcvWindow
  split <;> rfl

theorem inbound_rcvHeader (c : Conn) (n : Th) :
    (rcvHeader c n).inbound = { (rcvSyn c n).inbound with droppedTxt := false } := by
  unfold rcvHeader
  dsimp only
  rw [inbound_rcvWindow, inbound_rcvAckno]
  rw [inbound_rcvSyn, inbound_rcvSyn]
  by_cases opens : c.tcb.synRcvd = false ∧ n.tFlags.syn = true
  · rw [if_pos opens]
    exact if_pos opens
  · rw [if_neg opens]
    exact if_neg opens

theorem inbound_rcvReply (env : Env) (c : Conn) : (rcvReply env c).1.inbound = c.inbound := by
  unfold rcvReply
  split
  · exact inbound_of_sendErased (sendErased_sendTcp env c .ctl)
  split
  · exact inbound_of_sendErased (sendErased_sendTcp env c .data)
  · rfl

theorem inbound_setTimer (c : Conn) (tp : Tcb) (i : Timer) (value : Nat) :
    (c.withTcb (tp.setTimer i value)).inbound = (c.withTcb tp).inbound := rfl

theorem inbound_rcvTimers (c : Conn) (sent : Bool) :
    (c.withTcb (rcvTimers c.tcb sent)).inbound = c.inbound := by
  unfold rcvTimers
  split
  · calc (c.withTcb ((c.tcb.setTimer .trexmt c.tcb.tXmtime).setTimer .trexmttl tRexmttl)).inbound
        _ = (c.withTcb (c.tcb.setTimer .trexmt c.tcb.tXmtime)).inbound :=
          inbound_setTimer c _ .trexmttl tRexmttl
        _ = c.inbound := inbound_setTimer c c.tcb .trexmt c.tcb.tXmtime
  · rfl

theorem inbound_rcvTcp (env : Env) (c : Conn) (n : Th) :
    (rcvTcp env c n .data).inbound =
      (rcvFin env (rcvData env (rcvHeader c n) n).1 (rcvData env (rcvHeader c n) n).2).inbound := by
  unfold rcvTcp
  dsimp only
  rw [inbound_rcvTimers, inbound_rcvReply, if_pos rfl]

theorem inbound_rcvUrg (c : Conn) (n : Th) : (rcvUrg c n).inbound = c.inbound := by
  unfold rcvUrg
  dsimp only
  split
  · split <;> rfl
  · rfl

/-! ### Text -/

theorem rcvSequence_shape (env : Env) (c : Conn) (t : Th) (last : Seq) :
    let merged := rcvMerge c.tcb.rcvNxt last c.tcb.tRcv t
    let after := (rcvSequence env c t last).1
    after.ucb = c.ucb ∧
      after.inbound = { c.inbound with
        tRcv := merged.1
        rcvNxt := firstempty { c.tcb with tRcv := merged.1 } } := by
  intro merged after
  obtain ⟨left, work, clock, same⟩ := rcvRecycle_shape env (c.withTcb { c.tcb with
    tRcv := merged.1
    netKeep := c.tcb.netKeep || merged.2.2
    rcvNxt := firstempty { c.tcb with tRcv := merged.1, netKeep := c.tcb.netKeep || merged.2.2 }
    ackDue := true })
  have shape : after = _ := same
  rw [shape]
  exact ⟨rfl, rfl⟩

theorem rcvText_ucb (env : Env) (c : Conn) (t : Th) : (rcvText env c t).1.ucb = c.ucb := by
  unfold rcvText
  split
  · rfl
  · dsimp only
    split
    · split
      · split
        · rfl
        · exact (rcvSequence_shape ..).1
      · exact (rcvSequence_shape ..).1
    · exact (rcvSequence_shape ..).1

theorem rcvSuccessors_tFlags (last : Seq) (queue : List Th) (t : Th) :
    (rcvSuccessors last queue t).2.tFlags = t.tFlags := by
  induction queue with
  | nil => rfl
  | cons q rest inductionHypothesis =>
    rw [rcvSuccessors]
    dsimp only
    split_ifs
    · exact inductionHypothesis
    · rfl
    · rfl
    · rfl

theorem rcvEnqueue_tFlags (result : List Th × Th) :
    (rcvEnqueue result).2.1.tFlags = result.2.tFlags := by
  unfold rcvEnqueue
  split_ifs <;> rfl

theorem rcvMerge_tFlags (rcvNxt last : Seq) (queue : List Th) (t : Th) :
    (rcvMerge rcvNxt last queue t).2.1.tFlags = t.tFlags := by
  induction queue with
  | nil =>
    rw [rcvMerge]
    split_ifs <;> rfl
  | cons q rest inductionHypothesis =>
    rw [rcvMerge]
    dsimp only
    split_ifs
    · exact inductionHypothesis
    · rfl
    · rfl
    · rfl
    · rw [rcvEnqueue_tFlags, rcvSuccessors_tFlags]
    · rw [rcvEnqueue_tFlags, rcvSuccessors_tFlags]
      rfl
    · rw [rcvEnqueue_tFlags, rcvSuccessors_tFlags]

theorem rcvText_whole {env : Env} {c : Conn} {t : Th} (late : ¬ 0 < Serial.diff c.tcb.rcvNxt t.tSeq)
    (room : c.ucb.ucRcv - c.ucb.ucRsize < textBufs t → env.bufsLow c.clock = false) :
    (rcvText env c t).2.tFlags = t.tFlags ∧
      (rcvText env c t).1.inbound = { c.inbound with
        tRcv := (rcvMerge c.tcb.rcvNxt (tEnd t) c.tcb.tRcv t).1
        rcvNxt := firstempty { c.tcb with
          tRcv := (rcvMerge c.tcb.rcvNxt (tEnd t) c.tcb.tRcv t).1 } } := by
  have trimmed : rcvTrim c.tcb.rcvNxt t = some t := if_neg late
  unfold rcvText
  rw [trimmed]
  dsimp only
  split
  · rename_i tight
    rw [if_neg (by rw [room tight]; exact Bool.false_ne_true)]
    exact ⟨rcvMerge_tFlags .., (rcvSequence_shape env c.tick t (tEnd t)).2⟩
  · exact ⟨rcvMerge_tFlags .., (rcvSequence_shape env c t (tEnd t)).2⟩

/-! ### What a queue occupies -/

/-- The sequence numbers a segment occupies: its first one, and how many there are. -/
def Th.place (t : Th) : Seq × Nat := (t.tSeq, t.tLen)

theorem tEnd_of_place {t other : Th} (same : t.place = other.place) : tEnd t = tEnd other := by
  obtain ⟨first, count⟩ := Prod.mk.injEq .. ▸ same
  rw [tEnd, tEnd, first, count]

theorem tEnd_add_one (t : Th) : tEnd t + 1 = t.tSeq + BitVec.ofNat 32 t.tLen := by
  rw [tEnd, BitVec.sub_add_cancel]

theorem tEndRun_of_places {p other : Th} {rest others : List Th} (same : p.place = other.place)
    (tails : rest.map Th.place = others.map Th.place) : tEndRun p rest = tEndRun other others := by
  induction rest generalizing p other others with
  | nil =>
    rw [List.map_nil, eq_comm, List.map_eq_nil_iff] at tails
    rw [tails, tEndRun, tEndRun, tEnd_of_place same]
  | cons q rest inductionHypothesis =>
    cases others with
    | nil => cases tails
    | cons r others =>
      obtain ⟨next, tails⟩ := List.cons.inj tails
      have first : q.tSeq = r.tSeq := congrArg Prod.fst next
      rw [tEndRun, tEndRun, tEnd_of_place same, first, inductionHypothesis next tails]

theorem firstempty_of_places {tp other : Tcb} (nxt : tp.rcvNxt = other.rcvNxt)
    (same : tp.tRcv.map Th.place = other.tRcv.map Th.place) : firstempty tp = firstempty other := by
  unfold firstempty
  cases queue : tp.tRcv with
  | nil =>
    rw [queue, List.map_nil, eq_comm, List.map_eq_nil_iff] at same
    rw [same, nxt]
  | cons p rest =>
    cases others : other.tRcv with
    | nil =>
      rw [queue, others] at same
      cases same
    | cons q tail =>
      rw [queue, others] at same
      obtain ⟨first, tails⟩ := List.cons.inj same
      have start : p.tSeq = q.tSeq := congrArg Prod.fst first
      dsimp only
      rw [nxt, start, tEndRun_of_places first tails]

theorem firstempty_of_queues {tp other : Tcb} {queue others : List Th}
    (nxt : tp.rcvNxt = other.rcvNxt) (same : queue.map Th.place = others.map Th.place) :
    firstempty { tp with tRcv := queue } = firstempty { other with tRcv := others } :=
  firstempty_of_places nxt same

theorem place_cutFront {t u : Th} (same : t.place = u.place) (count : Nat) :
    (t.cutFront count).place = (u.cutFront count).place := by
  obtain ⟨first, length⟩ := Prod.mk.injEq .. ▸ same
  simp only [Th.place, Th.cutFront, first, length]

theorem place_cutBack {t u : Th} (same : t.place = u.place) (count : Nat) :
    (t.cutBack count).place = (u.cutBack count).place := by
  obtain ⟨first, length⟩ := Prod.mk.injEq .. ▸ same
  simp only [Th.place, Th.cutBack, first, length]

theorem place_none {t u : Th} (same : t.place = u.place) :
    ({ t with tLen := 0 } : Th).place = ({ u with tLen := 0 } : Th).place :=
  congrArg (fun place : Seq × Nat => (place.1, 0)) same

theorem places_cons {t u : Th} {queue others : List Th} (same : t.place = u.place)
    (places : queue.map Th.place = others.map Th.place) :
    (t :: queue).map Th.place = (u :: others).map Th.place := by
  rw [List.map_cons, List.map_cons, same, places]

theorem rcvSuccessors_places {last : Seq} {queue others : List Th} {t u : Th}
    (same : t.place = u.place) (places : queue.map Th.place = others.map Th.place) :
    (rcvSuccessors last queue t).1.map Th.place = (rcvSuccessors last others u).1.map Th.place ∧
      (rcvSuccessors last queue t).2.place = (rcvSuccessors last others u).2.place := by
  induction queue generalizing others with
  | nil =>
    rw [List.map_nil, eq_comm, List.map_eq_nil_iff] at places
    rw [places]
    exact ⟨rfl, same⟩
  | cons q rest inductionHypothesis =>
    cases others with
    | nil => cases places
    | cons r others =>
      obtain ⟨first, tails⟩ := List.cons.inj places
      have start : q.tSeq = r.tSeq := congrArg Prod.fst first
      have length : t.tLen = u.tLen := congrArg Prod.snd same
      rw [rcvSuccessors, rcvSuccessors, start, length, tEnd_of_place first]
      dsimp only
      split_ifs
      · exact inductionHypothesis tails
      · exact ⟨places, place_cutBack same _⟩
      · exact ⟨places, place_none same⟩
      · exact ⟨places, same⟩

theorem rcvEnqueue_places {result other : List Th × Th} (same : result.2.place = other.2.place)
    (places : result.1.map Th.place = other.1.map Th.place) :
    (rcvEnqueue result).1.map Th.place = (rcvEnqueue other).1.map Th.place := by
  have length : result.2.tLen = other.2.tLen := congrArg Prod.snd same
  rw [rcvEnqueue, rcvEnqueue, length]
  split_ifs
  · exact places_cons same places
  · exact places

theorem rcvMerge_places (rcvNxt last : Seq) {queue others : List Th} {t u : Th}
    (same : t.place = u.place) (places : queue.map Th.place = others.map Th.place) :
    (rcvMerge rcvNxt last queue t).1.map Th.place =
      (rcvMerge rcvNxt last others u).1.map Th.place := by
  have tStart : t.tSeq = u.tSeq := congrArg Prod.fst same
  have length : t.tLen = u.tLen := congrArg Prod.snd same
  induction queue generalizing others with
  | nil =>
    rw [List.map_nil, eq_comm, List.map_eq_nil_iff] at places
    rw [places, rcvMerge, rcvMerge]
    split_ifs
    · exact places_cons same rfl
    · rfl
  | cons q rest inductionHypothesis =>
    cases others with
    | nil => cases places
    | cons r others =>
      obtain ⟨first, tails⟩ := List.cons.inj places
      have start : q.tSeq = r.tSeq := congrArg Prod.fst first
      rw [rcvMerge, rcvMerge, start, tStart, length, tEnd_of_place first]
      dsimp only
      split_ifs
      · exact places_cons first (inductionHypothesis tails)
      · exact places_cons same places
      · exact places_cons (place_cutBack same _) places
      · exact places
      · obtain ⟨left, cut⟩ := rcvSuccessors_places same tails
        exact rcvEnqueue_places cut left
      · obtain ⟨left, cut⟩ := rcvSuccessors_places (place_cutFront same _) tails
        exact places_cons first (rcvEnqueue_places cut left)
      · obtain ⟨left, cut⟩ := @rcvSuccessors_places last _ _ { t with tSeq := u.tSeq, tLen := 0 }
          { u with tLen := 0 } rfl tails
        exact places_cons first (rcvEnqueue_places cut left)

theorem finFound_of_places {env : Env} {c : Conn} {n t : Th} {queue : List Th} (last : Seq)
    (same : c.tcb.tRcv.map Th.place = queue.map Th.place) (ends : queue.getLast? = some t) :
    finFound env c n last = decide (last = tEnd t) := by
  have lasts := congrArg List.getLast? same
  rw [List.getLast?_map, List.getLast?_map, ends] at lasts
  unfold finFound
  cases held : c.tcb.tRcv.getLast? with
  | none =>
    rw [held] at lasts
    cases lasts
  | some x =>
    rw [held] at lasts
    dsimp only
    rw [tEnd_of_place (Option.some.inj lasts)]

theorem markQueue_places (queue : List Th) : (markQueue queue).map Th.place = queue.map Th.place := by
  rcases List.eq_nil_or_concat queue with rfl | ⟨front, t, rfl⟩
  · rfl
  · simp [markQueue, Th.place]

theorem rcvPush_places (c : Conn) (n : Th) :
    (rcvPush c n).tcb.tRcv.map Th.place = c.tcb.tRcv.map Th.place := by
  unfold rcvPush
  split
  · exact markQueue_places _
  · rfl

theorem inbound_rcvPush (c : Conn) (n : Th) :
    (rcvPush c n).inbound = { c.inbound with tRcv := (rcvPush c n).tcb.tRcv } := by
  unfold rcvPush
  split <;> rfl

theorem inbound_rcvData (env : Env) (c : Conn) (n : Th) :
    let text := if n.tLen ≠ 0 then rcvText env c n else (c, n)
    (rcvData env c n).2 = text.2 ∧
      (rcvData env c n).1.tcb.tRcv.map Th.place = text.1.tcb.tRcv.map Th.place ∧
      (rcvData env c n).1.inbound =
        { text.1.inbound with tRcv := (rcvData env c n).1.tcb.tRcv } := by
  intro text
  have urged := inbound_rcvUrg text.1 text.2
  have queue : (rcvUrg text.1 text.2).tcb.tRcv = text.1.tcb.tRcv := congrArg Inbound.tRcv urged
  refine ⟨rfl, ?_, ?_⟩
  · exact queue ▸ rcvPush_places (rcvUrg text.1 text.2) text.2
  · rw [← urged]
    exact inbound_rcvPush (rcvUrg text.1 text.2) text.2

theorem rcvData_ucRbuf (env : Env) (c : Conn) (n : Th) :
    (rcvData env c n).1.ucb.ucRbuf = c.ucb.ucRbuf := by
  refine (congrArg Inbound.ucRbuf (inbound_rcvData env c n).2.2).trans ?_
  split
  · exact congrArg Ucb.ucRbuf (rcvText_ucb env c n)
  · rfl

/-! ### The FIN -/

theorem rcvFin_due {env : Env} {c : Conn} {n : Th} (fin : n.tFlags.fin = true)
    (whole : c.tcb.droppedTxt = false) (first : c.tcb.finRcvd = false) :
    (rcvFin env c n).tcb.finRcvd = finFound env c n (firstempty c.tcb) ∧
      (rcvFin env c n).tcb.rcvNxt =
        if finFound env c n (firstempty c.tcb) = true ∧ seqGeq c.tcb.rcvNxt (firstempty c.tcb) then
          firstempty c.tcb + 1
        else c.tcb.rcvNxt := by
  rw [rcvFin, if_pos ⟨fin, whole⟩, first]
  dsimp only [Conn.withTcb, Conn.tick]
  rw [if_neg Bool.false_ne_true]
  split_ifs with found
  · exact ⟨rfl, rfl⟩
  · exact ⟨rfl, rfl⟩

end NetworkUnix.Bbnnet
