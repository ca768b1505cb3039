/-
This file proves how an interrupt reaches the other station. Its reason rides on one
acknowledgement, which is never sent again as it was: the interrupt arrives if that line is
the first acknowledgement of the message whose call is still waiting, and is lost with it.
-/

import NetworkUnix.Mmdf.Delivery

namespace NetworkUnix.Mmdf

variable {linelgh : Nat}

/-! ### What is promised -/

/-- The reason of an interrupt that a call of `d_sndmsg` returns. -/
def Result.reason : Result → Option (List Byte)
  | .eintrupt reason => some reason
  | _ => none

/-- The reasons that a station's calls of `d_sndmsg` have returned. -/
def Station.interrupted (s : Station linelgh) : List (List Byte) := s.results.filterMap Result.reason

/-- The other station learns of the interrupts in their order, of each once and no later than with
the call for the next message that was accepted. -/
def System.Informs (s : System linelgh) : Prop :=
  ∀ side, (s.station (!side)).interrupted <+: (s.station side).asked ∧
    ∀ i n, (s.deadlines side)[i]? = some n → n ≤ (s.station (!side)).results.length →
      i < (s.station (!side)).interrupted.length

/-- The reason in an acknowledgement that carries one. -/
def intrOf (linelgh : Nat) (raw : List Byte) : Option (List Byte) :=
  match heard linelgh raw with
  | .message _ true code text => if code = ackCode then some text else none
  | _ => none

/-- The station answers a line with an acknowledgement. -/
def Station.answers (s : Station linelgh) (raw : List Byte) : Bool :=
  match heard linelgh raw with
  | .message seqno _ code _ =>
    decide (code ≠ ackCode) &&
      if seqno = s.rcvseq then !s.ackonly else decide (seqno = s.lastseq)
  | _ => false

/-- The station waits for the acknowledgement of the message in the line. -/
def Station.awaits (s : Station linelgh) (raw : List Byte) : Bool :=
  match s.phase with
  | .sending message _ => decide (rawLines message = [raw])
  | _ => false

/-- The message has been sent as often as it may be. -/
def Station.lastTry (s : Station linelgh) : Bool :=
  match s.phase with
  | .sending _ retry => decide (nretries ≤ retry + 1)
  | _ => false

/-- An interrupt is asked for when none is pending, its reason can be sent in a line, the
acknowledgement that takes it is for a message whose call waits and has no other before it, and
while it is under way it is neither lost nor damaged nor does that call give up. -/
def System.Heeds (s : System linelgh) : Event linelgh → Prop
  | .sndmsg _ _ | .getmsg _ => True
  | .dlintr side reason =>
    (s.station side).tranint = false ∧ (cstring reason).all printable = true ∧
      (cstring reason).length + headlngh ≤ linelgh
  | .read side =>
    ∀ raw ∈ (s.line side).take 1, (s.station side).tranint = true →
      (s.station side).answers raw = true → (s.station (!side)).awaits raw = true ∧
        ∀ other ∈ s.line (!side), ackNo linelgh other ≠ some (s.station (!side)).transeq
  | .timeout side =>
    (s.station side).lastTry = true → ∀ raw ∈ s.line side, intrOf linelgh raw = none
  | .lose side place => (s.line side)[place]?.bind (intrOf linelgh) = none
  | .damage side place _ => (s.line side)[place]?.bind (intrOf linelgh) = none

instance (s : System linelgh) : ∀ e, Decidable (s.Heeds e)
  | .sndmsg _ _ | .getmsg _ => inferInstanceAs (Decidable True)
  | .dlintr _ _ => inferInstanceAs (Decidable (_ ∧ _ ∧ _))
  | .read side => inferInstanceAs (Decidable (∀ raw ∈ (s.line side).take 1,
      (s.station side).tranint = true → (s.station side).answers raw = true →
        (s.station (!side)).awaits raw = true ∧
          ∀ other ∈ s.line (!side), ackNo linelgh other ≠ some (s.station (!side)).transeq))
  | .timeout side => inferInstanceAs (Decidable ((s.station side).lastTry = true →
      ∀ raw ∈ s.line side, intrOf linelgh raw = none))
  | .lose _ _ | .damage _ _ _ => inferInstanceAs (Decidable (_ = _))

/-! ### Lines -/

variable {intrflag : Bool} {raw text : List Byte} {seqno : Nat}

theorem intrOf_message {code : Byte} (line : heard linelgh raw = .message seqno intrflag code text)
    (notAck : code ≠ ackCode) :
    intrOf linelgh raw = none := by
  unfold intrOf
  rw [line]
  cases intrflag with
  | true => exact if_neg notAck
  | false => rfl

theorem intrOf_plain (line : heard linelgh raw = .message seqno false ackCode text) :
    intrOf linelgh raw = none := by
  unfold intrOf
  rw [line]

theorem intrOf_flagged (line : heard linelgh raw = .message seqno true ackCode text) :
    intrOf linelgh raw = some text := by
  unfold intrOf
  rw [line]
  exact if_pos rfl

theorem ackNo_ack (line : heard linelgh raw = .message seqno intrflag ackCode text) :
    ackNo linelgh raw = some seqno := by
  unfold ackNo
  rw [line]
  exact if_pos rfl

theorem room_of_heard {code : Byte} (line : heard linelgh raw = .message seqno intrflag code text) :
    headlngh ≤ linelgh := by
  unfold heard at line
  dsimp only at line
  split at line
  next => cases line
  next short =>
    split at line
    next kept =>
      rw [kept] at short
      simp only [List.length_cons] at short
      unfold headlngh
      omega
    next => cases line

/-! ### One interrupt on its way -/

/-- The reason that is pending. -/
def Station.pending (s : Station linelgh) : List (List Byte) := if s.tranint then [s.intmesg] else []

/-- What is known of one station. -/
structure Station.Steady (s : Station linelgh) : Prop where
  trans : s.transeq < 8
  recv : s.rcvseq < 8
  last : s.lastseq = s.rcvseq ∨ s.rcvseq = (s.lastseq + 1) % 8
  calls : s.results.length + (if s.ackonly then 1 else 0) = s.passed.length
  message : ∀ message retry, s.phase = .sending message retry →
    ∃ m : Message linelgh, message = lineOf ((s.transeq + 7) % 8) m.code m.text
  reason : s.tranint = true → s.intmesg.all printable = true ∧ s.intmesg.length + headlngh ≤ linelgh

/-- What was asked for at `x` is known to `y`, under way to it or pending. -/
structure Tells (x y : Station linelgh) (toY : List (List Byte)) (deadlines : List Nat) : Prop where
  asked : x.asked = y.interrupted ++ toY.filterMap (intrOf linelgh) ++ x.pending
  whole : ∀ raw ∈ toY, heard linelgh raw ≠ .eof
  sends : ∀ raw ∈ toY, intrOf linelgh raw ≠ none →
    y.ackonly = true ∧ ackNo linelgh raw = some y.transeq
  order : toY.Pairwise fun first later =>
    intrOf linelgh later ≠ none → ackNo linelgh first ≠ some y.transeq
  count : deadlines.length ≤ y.interrupted.length + (toY.filterMap (intrOf linelgh)).length
  due : ∀ i n, deadlines[i]? = some n → y.interrupted.length ≤ i → n = y.passed.length

namespace Tells

variable {x x' y y' : Station linelgh} {toY : List (List Byte)} {deadlines : List Nat}
  {raw : List Byte}

theorem start : @Tells linelgh .start .start [] [] where
  asked := rfl
  whole := fun _ member => absurd member List.not_mem_nil
  sends := fun _ member => absurd member List.not_mem_nil
  order := List.Pairwise.nil
  count := Nat.le_refl 0
  due := fun i n some => by
    rw [List.getElem?_nil] at some
    cases some

theorem congr (tells : Tells x y toY deadlines) (asked : x'.asked = x.asked)
    (pending : x'.pending = x.pending) : Tells x' y toY deadlines :=
  { tells with asked := by rw [asked, pending, tells.asked] }

theorem informs (tells : Tells x y toY deadlines) (steady : y.Steady) :
    y.interrupted <+: x.asked ∧ ∀ i n, deadlines[i]? = some n → n ≤ y.results.length →
      i < y.interrupted.length := by
  refine ⟨?_, fun i n some returned => ?_⟩
  · rw [tells.asked, List.append_assoc]
    exact List.prefix_append _ _
  · refine Nat.lt_of_not_le fun late => ?_
    have last := tells.due i n some late
    obtain ⟨inside, _⟩ := List.getElem?_eq_some_iff.mp some
    have count := tells.count
    have under : 0 < (toY.filterMap (intrOf linelgh)).length := by omega
    obtain ⟨reason, member⟩ := List.exists_mem_of_length_pos under
    obtain ⟨raw, member, flagged⟩ := List.mem_filterMap.mp member
    have waits := (tells.sends raw member (by rw [flagged]; exact Option.some_ne_none _)).1
    have calls := steady.calls
    rw [waits, if_pos rfl] at calls
    omega

/-! ### What the other station reads -/

theorem pass (tells : Tells x y (raw :: toY) deadlines) (none : intrOf linelgh raw = none)
    (interrupted : y'.interrupted = y.interrupted) (transeq : y'.transeq = y.transeq)
    (passed : y'.passed = y.passed) (waits : y.ackonly = true → y'.ackonly = true) :
    Tells x y' toY deadlines where
  asked := by
    have asked := tells.asked
    rw [List.filterMap_cons_none none] at asked
    rw [asked, interrupted]
  whole := fun other member => tells.whole other (List.mem_cons_of_mem raw member)
  sends := fun other member flagged => by
    obtain ⟨sending, number⟩ := tells.sends other (List.mem_cons_of_mem raw member) flagged
    rw [transeq]
    exact ⟨waits sending, number⟩
  order := by
    rw [transeq]
    exact (List.pairwise_cons.mp tells.order).2
  count := by
    have count := tells.count
    rw [List.filterMap_cons_none none] at count
    rw [interrupted]
    exact count
  due := by
    rw [interrupted, passed]
    exact tells.due

theorem finish (tells : Tells x y (raw :: toY) deadlines) (waits : y.ackonly = true)
    {intrflag : Bool} {text : List Byte}
    (line : heard linelgh raw = .message y.transeq intrflag ackCode text) :
    Tells x (y.comesBack (Station.gotOf intrflag ackCode text)) toY deadlines := by
  obtain ⟨message, retry, phase⟩ := (Way.ackonly_eq y).mp waits
  have calm : ∀ other ∈ toY, intrOf linelgh other = none := fun other member => by
    have first := (List.pairwise_cons.mp tells.order).1 other member
    by_contra flagged
    exact first flagged (ackNo_ack line)
  have none : toY.filterMap (intrOf linelgh) = [] := List.filterMap_eq_nil_iff.mpr calm
  have asked := tells.asked
  have count := tells.count
  have after : (y.comesBack (Station.gotOf intrflag ackCode text)).interrupted =
      y.interrupted ++ (intrOf linelgh raw).toList := by
    unfold Station.comesBack Station.interrupted
    rw [phase]
    show (y.results ++ _).filterMap _ = _
    rw [List.filterMap_append]
    cases intrflag with
    | true =>
      rw [intrOf_flagged line]
      rfl
    | false =>
      rw [intrOf_plain line]
      rfl
  have passed : (y.comesBack (Station.gotOf intrflag ackCode text)).passed = y.passed := by
    unfold Station.comesBack
    rw [phase]
  have split : (raw :: toY).filterMap (intrOf linelgh) = (intrOf linelgh raw).toList := by
    rw [List.filterMap_cons, none]
    cases intrOf linelgh raw with
    | none => rfl
    | some reason => rfl
  rw [split] at asked count
  exact {
    asked := by rw [after, none, List.append_nil, asked]
    whole := fun other member => tells.whole other (List.mem_cons_of_mem raw member)
    sends := fun other member flagged => absurd (calm other member) flagged
    order := List.Pairwise.imp_of_mem (fun _ later _ flagged => absurd (calm _ later) flagged)
      (List.pairwise_cons.mp tells.order).2
    count := by
      rw [after, none, List.length_append]
      exact count
    due := fun i n some late => by
      rw [after, List.length_append] at late
      obtain ⟨inside, _⟩ := List.getElem?_eq_some_iff.mp some
      omega }

theorem reads (tells : Tells x y (raw :: toY) deadlines) {written : List Byte}
    (called : y.phase ≠ .idle) (hears : y.Hears raw y' written) : Tells x y' toY deadlines := by
  have sends := tells.sends raw List.mem_cons_self
  cases hears with
  | passes notEof notAck notNext =>
    refine tells.pass ?_ rfl rfl rfl id
    by_contra flagged
    exact notAck (sends flagged).1 (sends flagged).2
  | ends eof => exact absurd eof (tells.whole raw List.mem_cons_self)
  | acked waits intrflag text line => exact tells.finish waits line
  | drops dropped =>
    refine tells.pass ?_ rfl rfl rfl id
    unfold Station.drops at dropped
    split at dropped
    next seqno intrflag code text line =>
      simp only [Bool.and_eq_true, decide_eq_true_eq] at dropped
      exact intrOf_message line dropped.2.1
    next => simp at dropped
  | accepts gets intrflag code text notAck line =>
    have none := intrOf_message line notAck
    have back : ∀ waits : y.ackonly = true, False := fun waits =>
      Bool.false_ne_true (gets.symm.trans waits)
    cases phase : y.phase with
    | idle => exact absurd phase called
    | sending message retry => exact (back ((Way.ackonly_eq y).mpr ⟨_, _, phase⟩)).elim
    | getting =>
      unfold Station.comesBack
      rw [show y.advance.sndAck.phase = .getting from phase]
      exact tells.pass none rfl rfl rfl fun waits => (back waits).elim
  | repeats intrflag code text notAck notNext line =>
    exact tells.pass (intrOf_message line notAck) rfl rfl rfl id

/-! ### What the interrupting station writes -/

section

variable (tells : Tells x y toY deadlines)
include tells

theorem append (whole : heard linelgh raw ≠ .eof)
    (none : intrOf linelgh raw = none) : Tells x y (toY ++ [raw]) deadlines := by
  have same : (toY ++ [raw]).filterMap (intrOf linelgh) = toY.filterMap (intrOf linelgh) := by
    rw [List.filterMap_append, List.filterMap_cons_none none]
    exact List.append_nil _
  refine {
    asked := by rw [same]; exact tells.asked
    whole := fun other member => ?_
    sends := fun other member flagged => ?_
    order := ?_
    count := by rw [same]; exact tells.count
    due := tells.due }
  · rcases List.mem_append.mp member with old | new
    · exact tells.whole other old
    · rw [List.mem_singleton.mp new]
      exact whole
  · rcases List.mem_append.mp member with old | new
    · exact tells.sends other old flagged
    · rw [List.mem_singleton.mp new] at flagged
      exact absurd none flagged
  · refine List.pairwise_append.mpr ⟨tells.order, List.pairwise_singleton _ _, ?_⟩
    intro first _ later single flagged
    rw [List.mem_singleton.mp single] at flagged
    exact absurd none flagged

theorem appendFlagged {reason : List Byte} {seqno : Nat}
    (line : heard linelgh raw = .message seqno true ackCode reason)
    (pending : x.pending = [reason]) (asked : x'.asked = x.asked) (taken : x'.pending = [])
    (waits : y.ackonly = true) (number : seqno = y.transeq)
    (first : ∀ other ∈ toY, ackNo linelgh other ≠ some y.transeq) :
    Tells x' y (toY ++ [raw]) deadlines := by
  have flagged := intrOf_flagged line
  have numbered := ackNo_ack line
  have more : (toY ++ [raw]).filterMap (intrOf linelgh) =
      toY.filterMap (intrOf linelgh) ++ [reason] := by
    rw [List.filterMap_append, List.filterMap_cons_some flagged]
    rfl
  refine {
    asked := ?_
    whole := fun other member => ?_
    sends := fun other member carries => ?_
    order := ?_
    count := ?_
    due := tells.due }
  · rw [asked, tells.asked, more, pending, taken, List.append_nil, List.append_assoc]
  · rcases List.mem_append.mp member with old | new
    · exact tells.whole other old
    · rw [List.mem_singleton.mp new, line]
      exact Heard.noConfusion
  · rcases List.mem_append.mp member with old | new
    · exact tells.sends other old carries
    · rw [List.mem_singleton.mp new, numbered, number]
      exact ⟨waits, rfl⟩
  · refine List.pairwise_append.mpr ⟨tells.order, List.pairwise_singleton _ _, ?_⟩
    intro other member later _ _
    exact first other member
  · have count := tells.count
    rw [more, List.length_append]
    omega

theorem answer (small : x.rcvseq < 8)
    (room : headlngh ≤ linelgh) (reason : x.tranint = true →
      x.intmesg.all printable = true ∧ x.intmesg.length + headlngh ≤ linelgh)
    (taken : x.tranint = true → y.ackonly = true ∧ x.rcvseq = y.transeq ∧
      ∀ other ∈ toY, ackNo linelgh other ≠ some y.transeq) :
    Tells x.sndAck y (toY ++ rawLines x.ackLine) deadlines := by
  cases flag : x.tranint with
  | false =>
    have line := Way.heard_ack small room
    have written : rawLines x.ackLine = [bare x.rcvseq ackCode []] := by
      unfold Station.ackLine
      rw [flag, if_neg Bool.false_ne_true, rawLines_lineOf _ (by decide)]
    rw [written]
    refine (tells.append ?_ (intrOf_plain line)).congr rfl ?_
    · rw [line]
      exact Heard.noConfusion
    · unfold Station.pending
      rw [flag]
      rfl
  | true =>
    obtain ⟨plain, fits⟩ := reason flag
    obtain ⟨waits, number, first⟩ := taken flag
    have text := cstring_plain plain
    have code : (ackCode :: cstring x.intmesg).all printable = true := by
      rw [text, List.all_cons, plain]
      rfl
    have written : rawLines x.ackLine = [bare (x.rcvseq + 8) ackCode x.intmesg] := by
      unfold Station.ackLine
      rw [flag, if_pos rfl, rawLines_lineOf _ code]
    have line : heard linelgh (bare (x.rcvseq + 8) ackCode x.intmesg) =
        .message x.rcvseq true ackCode x.intmesg := by
      rw [heard_bare (by omega) code (by rw [text]; exact fits), text]
      rw [show (x.rcvseq + 8) % 8 = x.rcvseq by omega, show (x.rcvseq + 8) / 8 % 2 = 1 by omega]
      rfl
    rw [written]
    refine tells.appendFlagged line ?_ rfl rfl waits number first
    unfold Station.pending
    rw [flag, if_pos rfl]

theorem comesBack (got : Got) :
    Tells (x.comesBack got) y toY deadlines := by
  refine tells.congr ?_ ?_
  · unfold Station.comesBack
    cases x.phase <;> rfl
  · unfold Station.comesBack Station.pending
    cases x.phase <;> rfl

end

end Tells

theorem Station.Steady.awaits {y : Station linelgh} (steady : y.Steady)
    (waits : y.awaits raw = true) : y.ackonly = true ∧
      ∃ m : Message linelgh, heard linelgh raw = .message ((y.transeq + 7) % 8) false m.code m.text := by
  unfold Station.awaits at waits
  split at waits
  next message retry phase =>
    refine ⟨(Way.ackonly_eq y).mpr ⟨_, _, phase⟩, ?_⟩
    obtain ⟨m, isMessage⟩ := steady.message message retry phase
    have same := of_decide_eq_true waits
    rw [isMessage, m.rawLines_eq] at same
    rw [← (List.cons.inj same).1]
    exact ⟨m, m.heard_eq (Nat.mod_lt _ (by decide))⟩
  next => cases waits

namespace Tells

variable {x x' y y' : Station linelgh} {toY : List (List Byte)} {deadlines : List Nat}
  {raw : List Byte}

section

variable (tells : Tells x y toY deadlines)
include tells

theorem replies (steady : x.Steady) (across : y.Steady)
    {written : List Byte} (hears : x.Hears raw x' written)
    (heeds : x.tranint = true → x.answers raw = true →
      y.awaits raw = true ∧ ∀ other ∈ toY, ackNo linelgh other ≠ some y.transeq) :
    Tells x' y (toY ++ rawLines written) deadlines := by
  have silent : ∀ {z : Station linelgh}, Tells z y toY deadlines →
      Tells z y (toY ++ rawLines []) deadlines := by
    intro z held
    rw [show rawLines [] = [] from rfl, List.append_nil]
    exact held
  cases hears with
  | passes notEof notAck notNext => exact silent tells
  | ends eof => exact silent (tells.comesBack _)
  | acked waits intrflag text line => exact silent (tells.comesBack _)
  | drops dropped => exact silent (tells.congr rfl rfl)
  | accepts gets intrflag code text notAck line =>
    have answers : x.answers raw = true := by
      unfold Station.answers
      rw [line]
      simp [notAck, gets]
    have small : x.advance.rcvseq < 8 := Nat.mod_lt _ (by decide)
    refine Tells.comesBack (answer (x := x.advance) (tells.congr rfl rfl) small (room_of_heard line)
      steady.reason fun flag => ?_) _
    obtain ⟨waits, first⟩ := heeds flag answers
    obtain ⟨sending, m, isLine⟩ := across.awaits waits
    rw [line, Heard.message.injEq] at isLine
    have number := isLine.1
    have trans := across.trans
    exact ⟨sending, by show (x.rcvseq + 1) % 8 = _; omega, first⟩
  | repeats intrflag code text notAck notNext line =>
    have answers : x.answers raw = true := by
      unfold Station.answers
      rw [line]
      simp [notAck, notNext]
    refine answer tells steady.recv (room_of_heard line) steady.reason fun flag => ?_
    obtain ⟨waits, first⟩ := heeds flag answers
    obtain ⟨sending, m, isLine⟩ := across.awaits waits
    rw [line, Heard.message.injEq] at isLine
    have number := isLine.1
    have small := across.trans
    rcases steady.last with same | last
    · exact absurd same notNext
    · exact ⟨sending, by omega, first⟩

/-! ### What a station does by itself -/

theorem message (m : Message linelgh) {seqno : Nat}
    (small : seqno < 8) (asked : x'.asked = x.asked) (pending : x'.pending = x.pending) :
    Tells x' y (toY ++ rawLines (lineOf seqno m.code m.text)) deadlines := by
  have line := m.heard_eq small
  rw [m.rawLines_eq]
  refine (tells.append ?_ (intrOf_message line m.notAck)).congr asked pending
  rw [line]
  exact Heard.noConfusion

theorem calm (idle : y.ackonly = false) :
    ∀ raw ∈ toY, intrOf linelgh raw = none := by
  intro raw member
  by_contra flagged
  exact Bool.false_ne_true (idle.symm.trans (tells.sends raw member flagged).1)

theorem turn (calm : ∀ raw ∈ toY, intrOf linelgh raw = none)
    (interrupted : y'.interrupted = y.interrupted) : Tells x y' toY deadlines := by
  have none : toY.filterMap (intrOf linelgh) = [] := List.filterMap_eq_nil_iff.mpr calm
  have count := tells.count
  rw [none] at count
  exact {
    asked := by rw [interrupted]; exact tells.asked
    whole := tells.whole
    sends := fun raw member flagged => absurd (calm raw member) flagged
    order := List.Pairwise.imp_of_mem (fun _ later _ flagged => absurd (calm _ later) flagged)
      tells.order
    count := by rw [interrupted, none]; exact count
    due := fun i n some late => by
      rw [interrupted] at late
      obtain ⟨inside, _⟩ := List.getElem?_eq_some_iff.mp some
      rw [List.length_nil] at count
      omega }

theorem dlintr (free : x.tranint = false) (reason : List Byte) :
    Tells (x.dlintr reason) y toY deadlines := by
  have asked := tells.asked
  unfold Station.pending at asked
  rw [free, if_neg Bool.false_ne_true, List.append_nil] at asked
  refine { tells with asked := ?_ }
  show x.asked ++ [cstring reason] = _ ++ (if true = true then [cstring reason] else [])
  rw [if_pos rfl, asked]

theorem meet (free : x.tranint = false) :
    Tells x y toY (deadlines ++
      List.replicate (x.asked.length - deadlines.length) y.passed.length) := by
  have asked := tells.asked
  unfold Station.pending at asked
  rw [free, if_neg Bool.false_ne_true, List.append_nil] at asked
  have count := tells.count
  have length := congrArg List.length asked
  rw [List.length_append] at length
  refine { tells with count := ?_, due := fun i n some late => ?_ }
  · rw [List.length_append, List.length_replicate]
    omega
  · by_cases old : i < deadlines.length
    · rw [List.getElem?_append_left old] at some
      exact tells.due i n some late
    · rw [List.getElem?_append_right (by omega)] at some
      exact List.eq_of_mem_replicate (List.mem_of_getElem? some)

/-! ### What the line does -/

theorem lose {place : Nat}
    (spared : toY[place]?.bind (intrOf linelgh) = none) :
    Tells x y (toY.eraseIdx place) deadlines := by
  have less := List.eraseIdx_sublist toY place
  have same : (toY.eraseIdx place).filterMap (intrOf linelgh) = toY.filterMap (intrOf linelgh) := by
    rw [List.eraseIdx_eq_take_drop_succ]
    conv => rhs; rw [← List.take_append_drop place toY]
    rw [List.filterMap_append, List.filterMap_append]
    congr 1
    by_cases inside : place < toY.length
    · rw [List.getElem?_eq_getElem inside] at spared
      have spared : intrOf linelgh toY[place] = none := spared
      rw [List.drop_eq_getElem_cons inside, List.filterMap_cons_none spared]
    · rw [List.drop_eq_nil_of_le (by omega), List.drop_eq_nil_of_le (by omega)]
  exact { tells with
    asked := by rw [same]; exact tells.asked
    whole := fun raw member => tells.whole raw (less.mem member)
    sends := fun raw member => tells.sends raw (less.mem member)
    order := tells.order.sublist less
    count := by rw [same]; exact tells.count }

end

theorem intrOf_ignored (ignored : heard linelgh raw = .ignored) : intrOf linelgh raw = none := by
  unfold intrOf
  rw [ignored]

theorem damage (tells : Tells x y toY deadlines) {place : Nat}
    (spared : toY[place]?.bind (intrOf linelgh) = none) (ignored : heard linelgh raw = .ignored) :
    Tells x y (toY.set place raw) deadlines := by
  by_cases inside : place < toY.length
  · have parts : toY = toY.take place ++ toY[place] :: toY.drop (place + 1) := by
      rw [← List.drop_eq_getElem_cons inside, List.take_append_drop]
    have now : toY.set place raw = toY.take place ++ raw :: toY.drop (place + 1) :=
      List.set_eq_take_append_cons_drop.trans (if_pos inside)
    have none := intrOf_ignored ignored
    rw [List.getElem?_eq_getElem inside] at spared
    have spared : intrOf linelgh toY[place] = Option.none := spared
    have same : (toY.set place raw).filterMap (intrOf linelgh) =
        toY.filterMap (intrOf linelgh) := by
      rw [now]
      conv => rhs; rw [parts]
      rw [List.filterMap_append, List.filterMap_append, List.filterMap_cons_none none,
        List.filterMap_cons_none spared]
    have order := tells.order
    rw [parts, List.pairwise_append, List.pairwise_cons] at order
    obtain ⟨front, ⟨_, back⟩, across⟩ := order
    refine { tells with
      asked := by rw [same]; exact tells.asked
      whole := fun other member => ?_
      sends := fun other member flagged => ?_
      order := ?_
      count := by rw [same]; exact tells.count }
    · rcases List.mem_or_eq_of_mem_set member with old | rfl
      · exact tells.whole other old
      · rw [ignored]
        exact Heard.noConfusion
    · rcases List.mem_or_eq_of_mem_set member with old | rfl
      · exact tells.sends other old flagged
      · exact absurd none flagged
    · rw [now, List.pairwise_append, List.pairwise_cons]
      refine ⟨front, ⟨fun _ _ _ number => ?_, back⟩, fun first member later => ?_⟩
      · rw [ackNo_ignored ignored] at number
        cases number
      · intro member' flagged
        rcases List.mem_cons.mp member' with rfl | behind
        · exact absurd none flagged
        · exact across first member later (List.mem_cons_of_mem _ behind) flagged
  · rw [List.set_eq_of_length_le (by omega)]
    exact tells

end Tells

/-! ### One station -/

namespace Station.Steady

variable {s s' : Station linelgh} {raw : List Byte}

theorem start : (@Station.start linelgh).Steady where
  trans := Nat.zero_lt_succ 7
  recv := Nat.zero_lt_succ 7
  last := .inl rfl
  calls := rfl
  message := fun _ _ phase => Phase.noConfusion phase
  reason := fun flag => absurd flag Bool.false_ne_true

section

variable (steady : s.Steady)
include steady

theorem advance : s.advance.Steady :=
  { steady with recv := Nat.mod_lt _ (by decide), last := .inr rfl }

theorem sndAck : s.sndAck.Steady :=
  { steady with reason := fun flag => absurd flag Bool.false_ne_true }

theorem comesBack (got : Got) : (s.comesBack got).Steady := by
  have calls := steady.calls
  unfold Station.ackonly at calls
  unfold Station.comesBack
  cases phase : s.phase with
  | idle => exact steady
  | getting =>
    rw [phase] at calls
    exact { steady with calls := calls, message := fun _ _ sending => Phase.noConfusion sending }
  | sending message retry =>
    rw [phase] at calls
    refine { steady with calls := ?_, message := fun _ _ sending => Phase.noConfusion sending }
    show (s.results ++ [_]).length + 0 = s.passed.length
    rw [List.length_append]
    exact calls

theorem hears {written : List Byte} (hears : s.Hears raw s' written) :
    s'.Steady := by
  cases hears with
  | passes notEof notAck notNext => exact steady
  | ends eof => exact steady.comesBack _
  | acked waits intrflag text line => exact steady.comesBack _
  | drops dropped => exact steady.advance
  | accepts gets intrflag code text notAck line => exact steady.advance.sndAck.comesBack _
  | repeats intrflag code text notAck notNext line => exact steady.sndAck

theorem getmsg (idle : s.phase = .idle) :
    { s with phase := .getting }.Steady := by
  have calls := steady.calls
  unfold Station.ackonly at calls
  rw [idle] at calls
  exact { steady with calls := calls, message := fun _ _ sending => Phase.noConfusion sending }

theorem sndmsg (idle : s.phase = .idle) (m : Message linelgh) :
    (s.sndmsg m).1.Steady := by
  have calls := steady.calls
  have trans := steady.trans
  unfold Station.ackonly at calls
  rw [idle] at calls
  refine { steady with
    trans := Nat.mod_lt _ (by decide)
    calls := ?_
    message := fun message retry sending => ?_ }
  · show s.results.length + 1 = (s.passed ++ [m]).length
    rw [List.length_append, ← calls]
    rfl
  · refine ⟨m, ?_⟩
    rw [← (Phase.sending.inj sending).1]
    show lineOf s.transeq m.code m.text = lineOf (((s.transeq + 1) % 8 + 7) % 8) m.code m.text
    rw [show ((s.transeq + 1) % 8 + 7) % 8 = s.transeq by omega]

theorem timeout : s.timeout.1.Steady := by
  have calls := steady.calls
  unfold Station.ackonly at calls
  unfold Station.timeout
  cases phase : s.phase with
  | idle => exact steady
  | getting =>
    rw [phase] at calls
    exact { steady with calls := calls, message := fun _ _ sending => Phase.noConfusion sending }
  | sending message retry =>
    rw [phase] at calls
    dsimp only
    split
    next =>
      refine { steady with calls := calls, message := fun message' retry' sending => ?_ }
      rw [← (Phase.sending.inj sending).1]
      exact steady.message message retry phase
    next =>
      refine { steady with calls := ?_, message := fun _ _ sending => Phase.noConfusion sending }
      show (s.results ++ [_]).length + 0 = s.passed.length
      rw [List.length_append]
      exact calls

theorem dlintr {reason : List Byte}
    (plain : (cstring reason).all printable = true)
    (fits : (cstring reason).length + headlngh ≤ linelgh) : (s.dlintr reason).Steady :=
  { steady with reason := fun _ => ⟨plain, fits⟩ }

end

end Station.Steady

theorem Station.tranint_of_accepts (s : Station linelgh) (accepts : s.accepts raw = true) :
    (s.hear raw).1.tranint = false := by
  unfold Station.accepts at accepts
  rw [Bool.and_eq_true, decide_eq_true_eq] at accepts
  obtain ⟨getting, accepts⟩ := accepts
  split at accepts
  next seqno intrflag code text line =>
    rw [Bool.and_eq_true, decide_eq_true_eq, decide_eq_true_eq] at accepts
    obtain ⟨notAck, rfl⟩ := accepts
    have gets : s.ackonly = false := by rw [Station.ackonly, getting]
    unfold Station.hear
    rw [line]
    dsimp only
    rw [if_neg notAck, if_pos rfl, gets, if_neg Bool.false_ne_true]
    unfold Station.comesBack
    rw [show s.advance.sndAck.phase = .getting from getting]
    rfl
  next => cases accepts

/-! ### Two stations -/

namespace System

/-- Each station tells the other. -/
def Telling (s : System linelgh) : Prop :=
  ∀ side, (s.station side).Steady ∧
    Tells (s.station side) (s.station (!side)) (s.line (!side)) (s.deadlines side)

theorem sides {holds : Bool → Prop} (side : Bool) (here : holds side) (there : holds (!side)) :
    ∀ other, holds other := by
  intro other
  by_cases same : other = side
  · rw [same]
    exact here
  · rw [show other = !side from Bool.eq_not_of_ne same]
    exact there

variable {s : System linelgh} {side : Bool}

theorem put_telling {out : Station linelgh × List Byte} (steady : out.1.Steady)
    (across : (s.station (!side)).Steady)
    (tells : Tells out.1 (s.station (!side)) (s.line (!side) ++ rawLines out.2) (s.deadlines side))
    (told : Tells (s.station (!side)) out.1 (s.line side) (s.deadlines (!side))) :
    (s.put side out).Telling := by
  refine sides side ?_ ?_
  · rw [put_station, put_station_not, put_line_not]
    exact ⟨steady, tells⟩
  · rw [Bool.not_not, put_station, put_station_not, put_line]
    exact ⟨across, told⟩

theorem setLine_telling (telling : s.Telling) {lines : List (List Byte)}
    (told : Tells (s.station (!side)) (s.station side) lines (s.deadlines (!side))) :
    (s.setLine side lines).Telling := by
  refine sides side ?_ ?_
  · rw [setLine_line_not]
    exact telling side
  · rw [Bool.not_not, setLine_line]
    exact ⟨(telling (!side)).1, told⟩

theorem meet_telling (telling : s.Telling) (free : (s.station side).tranint = false) :
    (s.meet side).Telling := by
  refine sides side ?_ ?_
  · refine ⟨(telling side).1, ?_⟩
    unfold meet
    dsimp only
    rw [Function.update_self]
    exact (telling side).2.meet free
  · refine ⟨(telling (!side)).1, ?_⟩
    unfold meet
    dsimp only
    rw [Function.update_of_ne (by simp)]
    exact (telling (!side)).2

theorem Telling.told (telling : s.Telling) (side : Bool) :
    Tells (s.station (!side)) (s.station side) (s.line side) (s.deadlines (!side)) := by
  have told := (telling (!side)).2
  rw [Bool.not_not] at told
  exact told

theorem Telling.read (telling : s.Telling) {raw : List Byte} {rest : List (List Byte)}
    (line : s.line side = raw :: rest) (called : (s.station side).phase ≠ .idle)
    (heeds : s.Heeds (.read side)) :
    ((s.setLine side rest).put side ((s.station side).hear raw)).Telling := by
  have hears := (s.station side).hear_hears raw
  have told := telling.told side
  rw [line] at told
  refine put_telling ((telling side).1.hears hears) (telling (!side)).1 ?_ ?_
  · rw [setLine_station, setLine_line_not]
    refine (telling side).2.replies (telling side).1 (telling (!side)).1 hears (heeds raw ?_)
    rw [line]
    exact List.mem_cons_self
  · rw [setLine_station, setLine_line]
    exact told.reads called hears

theorem Acts.telling {s' : System linelgh} {e : Event linelgh} (acts : s.Acts e s')
    (heeds : s.Heeds e) (telling : s.Telling) : s'.Telling := by
  have silent : ∀ {x y : Station linelgh} {lines deadlines},
      Tells x y lines deadlines → Tells x y (lines ++ rawLines []) deadlines := by
    intro x y lines deadlines held
    rw [show rawLines [] = [] from rfl, List.append_nil]
    exact held
  cases acts with
  | sndmsg side m idle =>
    have calm := (telling.told side).calm (by rw [Station.ackonly, idle])
    exact put_telling ((telling side).1.sndmsg idle m) (telling (!side)).1
      ((telling side).2.message m (telling side).1.trans rfl rfl)
      ((telling.told side).turn calm rfl)
  | getmsg side idle =>
    have calm := (telling.told side).calm (by rw [Station.ackonly, idle])
    exact put_telling ((telling side).1.getmsg idle) (telling (!side)).1
      (silent ((telling side).2.congr rfl rfl)) ((telling.told side).turn calm rfl)
  | dlintr side reason =>
    obtain ⟨free, plain, fits⟩ := heeds
    exact put_telling ((telling side).1.dlintr plain fits) (telling (!side)).1
      (silent ((telling side).2.dlintr free reason)) { telling.told side with }
  | read side raw rest line called met => exact telling.read line called heeds
  | meets side raw rest line called met =>
    refine meet_telling (telling.read line called heeds) ?_
    rw [put_station]
    exact (s.station side).tranint_of_accepts met
  | timeout side called =>
    refine put_telling (telling side).1.timeout (telling (!side)).1 ?_ ?_
    · unfold Station.timeout
      cases phase : (s.station side).phase with
      | idle => exact silent (telling side).2
      | getting => exact silent ((telling side).2.congr rfl rfl)
      | sending message retry =>
        obtain ⟨m, isMessage⟩ := (telling side).1.message message retry phase
        dsimp only
        split
        next =>
          rw [isMessage]
          exact (telling side).2.message m (Nat.mod_lt _ (by decide)) rfl rfl
        next => exact silent ((telling side).2.congr rfl rfl)
    · have told := telling.told side
      have heeds : (s.station side).lastTry = true → _ := heeds
      unfold Station.lastTry at heeds
      unfold Station.timeout
      cases phase : (s.station side).phase with
      | idle => exact absurd phase called
      | getting => exact told.turn (told.calm (by rw [Station.ackonly, phase])) rfl
      | sending message retry =>
        rw [phase] at heeds
        dsimp only at heeds ⊢
        split
        next =>
          have waits : (s.station side).ackonly = true := (Way.ackonly_eq _).mpr ⟨_, _, phase⟩
          exact { told with sends := fun raw member flagged =>
            ⟨rfl, (told.sends raw member flagged).2⟩ }
        next spent =>
          refine told.turn (heeds (decide_eq_true (Nat.le_of_not_lt spent))) ?_
          unfold Station.interrupted
          exact (List.filterMap_append ..).trans (List.append_nil _)
  | lose side place inside => exact setLine_telling telling ((telling.told side).lose heeds)
  | damage side place raw inside ignored =>
    exact setLine_telling telling ((telling.told side).damage heeds ignored)

/-- The other station learns of each interrupt in time in every run whose steps heed it. -/
theorem link_informs {history : List (Event linelgh)} {s : System linelgh}
    (run : Transition.Run (Transition.Guarded (Transition.Takes act) Heeds) start history s) :
    s.Informs := by
  have telling : s.Telling := run.always Telling
    (fun _ => ⟨Station.Steady.start, Tells.start⟩)
    fun state e next held taken => (acts taken.2).telling taken.1 held
  exact fun side => (telling side).2.informs (telling (!side)).1

/-- Two interrupts, the first with the acknowledgement of a message and the second with that of a
repeat. -/
def interrupting : List (Event 32) :=
  [.dlintr false [0x73, 0x74, 0x6f, 0x70], .getmsg false, .sndmsg true { code := 0x32, text := [0x64] },
    .read false, .read true, .sndmsg true { code := 0x32, text := [0x65] }, .getmsg false, .read false,
    .lose true 0, .dlintr false [0x77, 0x61, 0x69, 0x74], .timeout true, .getmsg false, .read false,
    .read true]

theorem link_informs_interrupting : (Transition.last act start interrupting).Informs :=
  link_informs (Transition.run_can (by decide +kernel))

/-- The acknowledgement with the reason is lost. The repeat is acknowledged without it. -/
def forgetting : List (Event 32) :=
  [.dlintr false [0x73, 0x74, 0x6f, 0x70], .getmsg false, .sndmsg true { code := 0x32, text := [0x64] },
    .read false, .lose true 0, .timeout true, .getmsg false, .read false, .read true]

theorem forgetting_loses : ∃ s : System 32, Transition.Run (Transition.Takes act) start forgetting s ∧
    ¬ s.Informs ∧ (s.station false).asked = [[0x73, 0x74, 0x6f, 0x70]] ∧
    (s.station true).results = [.ok] ∧ (s.line true).length = 0 ∧ (s.station false).tranint = false :=
  ⟨_, Transition.run_all (by decide +kernel),
    fun informs => absurd ((informs false).2 0 1 (by decide +kernel) (by decide +kernel))
      (by decide +kernel),
    by decide +kernel, by decide +kernel, by decide +kernel, by decide +kernel⟩

end System

end NetworkUnix.Mmdf
