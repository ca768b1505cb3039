/-
This file proves when a failure of the very distant host line leaves messages whole. The
line fails and is initialised again any number of times; both sides are then reset and
what was on the lines is lost. What the imp receives since should be whole messages, each
from its leader on, and no data that the driver held should be forgotten.

The initialisation resets the channels but neither the message that is being cut into
packets nor the buffers of the message that is being put together. So messages stay whole
when it finds neither.
-/

import NetworkUnix.Ncpk.VdhIn

namespace NetworkUnix.Ncpk

/-! ### The line fails -/

/-- The driver and the imp, and all messages that have been queued for the imp. -/
structure DownLine where
  line : OutLine
  handed : List OutMessage

inductive DownEvent
  | line (e : OutEvent)
  | init

namespace DownLine

/-- The message that an event hands to the driver. -/
def message : OutEvent → List OutMessage
  | .output m => [m]
  | _ => []

/-- Both sides are reset and the lines are empty. -/
def init (s : DownLine) : DownLine where
  line := ⟨s.line.vdh.impInit, [], [], 0, fun _ => false, []⟩
  handed := s.handed ++ [Vdh.impNop, Vdh.impNop, Vdh.impNop]

/-- What an event leads to; none stands for one that cannot happen. -/
def step (s : DownLine) : DownEvent → Option DownLine
  | .line e => (s.line.step e).map fun line => ⟨line, s.handed ++ message e⟩
  | .init => some s.init

/-- The driver has been initialised for the first time. -/
def start : DownLine where
  line := ⟨Vdh.static.impInit, [], [], 0, fun _ => false, []⟩
  handed := [Vdh.impNop, Vdh.impNop, Vdh.impNop]

/-- The line is initialised between two messages of both directions, and a message from the imp
itself brings no data. -/
def Between (s : DownLine) : DownEvent → Prop
  | .init => s.line.vdh.vdbuf = [] ∧ s.line.vdh.impiMsg = []
  | .line .input =>
    s.line.vdh.vdhilast = true → s.line.vdh.impType.1 >>> 8 &&& 0o137 ≠ 0 →
      s.line.vdh.impType.1 >>> 8 &&& 0o137 ≠ 15 → s.line.vdh.impiMsg = []
  | .line _ => True

end DownLine

/-! ### Messages are cut into packets -/

/-- The packets are those of the message, the leader first. -/
def IsMessage (packets : List Packet) (m : OutMessage) : Prop :=
  words packets = m.words ∧ ∃ p others, packets = p :: others ∧ p.data = [m.leader.1, m.leader.2]

/-- The packets begin the message. -/
def Begins (packets : List Packet) (m : OutMessage) (left : List (BitVec 16)) : Prop :=
  words packets ++ left = m.words ∧ ∃ p others, packets = p :: others ∧ p.data = [m.leader.1, m.leader.2]

/-- The packets that have been built are the messages that have been taken from the queue: whole
messages, and a message that is being cut. -/
def Whole (opaks : List Packet) (vdbuf : List (BitVec 16)) (impotab handed : List OutMessage) : Prop :=
  ∃ earlier sent now, handed = earlier ++ sent ++ now ++ impotab ∧
    List.Forall₂ IsMessage (parts opaks).1 sent ∧
    ((now = [] ∧ vdbuf = [] ∧ (parts opaks).2 = []) ∨
      ∃ m, now = [m] ∧ vdbuf ≠ [] ∧ Begins (parts opaks).2 m vdbuf)

theorem whole_next {opaks : List Packet} {p : Packet} {left : List (BitVec 16)} {m : OutMessage}
    (impotab earlier : List OutMessage) {sent : List OutMessage}
    (complete : List.Forall₂ IsMessage (parts opaks).1 sent)
    (begins : Begins ((parts opaks).2 ++ [p]) m left) (last : p.isLast = decide (left = [])) :
    Whole (opaks ++ [p]) left impotab (earlier ++ sent ++ [m] ++ impotab) := by
  unfold Whole
  rw [parts_snoc, last]
  by_cases empty : left = []
  · rw [empty] at begins ⊢
    have isMessage : IsMessage ((parts opaks).2 ++ [p]) m :=
      ⟨(List.append_nil _).symm.trans begins.1, begins.2⟩
    refine ⟨earlier, sent ++ [m], [], ?_, List.rel_append complete (.cons isMessage .nil),
      .inl ⟨rfl, rfl, rfl⟩⟩
    rw [List.append_nil, ← List.append_assoc]
  · rw [if_neg (by simpa using empty)]
    exact ⟨earlier, sent, [m], rfl, complete, .inr ⟨m, rfl, empty, begins⟩⟩

namespace Vdh

/-- What the driver has built is whole. -/
def OutWhole (s : Vdh) (handed : List OutMessage) : Prop :=
  Whole s.opaks s.vdbuf s.impotab handed

variable {s : Vdh} {handed : List OutMessage}

theorem fill_spec (s : Vdh) (buf : List (BitVec 16)) (len : Nat) (some : buf.take len ≠ [])
    (fits : (buf.take len).length ≤ 63) :
    ∃ p, (s.fill buf len).opaks = s.opaks ++ [p] ∧ (s.fill buf len).vdbuf = buf.drop len ∧
      (s.fill buf len).impotab = s.impotab ∧ p.data = buf.take len ∧
      p.isLast = decide (buf.drop len = []) := by
  have positive : 0 < (buf.take len).length := List.length_pos_iff.mpr some
  have isLast := isLast_spec s.vdhofill ⟨(buf.take len).length - 1, by omega⟩
    (decide (buf.drop len = [])) (ackOn s.prvictl s.vdhofill)
  have length : (buf.take len).length - 1 + 1 = (buf.take len).length := by omega
  simp only [length, decide_eq_true_eq] at isLast
  exact ⟨_, rfl, rfl, rfl, rfl, isLast⟩

theorem OutWhole.first (whole : s.OutWhole handed) {m : OutMessage} {rest : List OutMessage}
    (idle : s.vdbuf = []) (queue : s.impotab = m :: rest) :
    ({ s with impotab := rest }.fill m.words 2).OutWhole handed := by
  obtain ⟨earlier, sent, now, cut, complete, state⟩ := whole
  obtain ⟨rfl, noPackets⟩ : now = [] ∧ (parts s.opaks).2 = [] := by
    rcases state with ⟨none, -, packets⟩ | ⟨_, -, some, -⟩
    · exact ⟨none, packets⟩
    · exact absurd idle some
  obtain ⟨p, opaks, vdbuf, impotab, data, last⟩ :=
    fill_spec { s with impotab := rest } m.words 2 (List.cons_ne_nil _ _) (by simp [OutMessage.words])
  have begins : Begins ((parts s.opaks).2 ++ [p]) m (m.words.drop 2) := by
    rw [noPackets]
    refine ⟨?_, p, [], rfl, data⟩
    show words [p] ++ m.text = m.words
    unfold words
    rw [List.flatMap_singleton, data]
    rfl
  unfold OutWhole
  rw [opaks, vdbuf, impotab, cut, queue, List.append_nil]
  have next := whole_next rest earlier complete begins last
  rw [List.append_assoc _ [m] rest] at next
  exact next

theorem OutWhole.further (whole : s.OutWhole handed) (busy : s.vdbuf ≠ []) {len : Nat}
    (some : s.vdbuf.take len ≠ []) (fits : (s.vdbuf.take len).length ≤ 63) :
    (s.fill s.vdbuf len).OutWhole handed := by
  obtain ⟨earlier, sent, now, cut, complete, state⟩ := whole
  obtain ⟨m, rfl, -, wordsOf, first, others, packets, leader⟩ :=
    state.resolve_left fun none => busy none.2.1
  obtain ⟨p, opaks, vdbuf, impotab, data, last⟩ := s.fill_spec s.vdbuf len some fits
  have begins : Begins ((parts s.opaks).2 ++ [p]) m (s.vdbuf.drop len) := by
    refine ⟨?_, first, others ++ [p], by rw [packets]; rfl, leader⟩
    rw [words_snoc, data, List.append_assoc, List.take_append_drop]
    exact wordsOf
  unfold OutWhole
  rw [opaks, vdbuf, impotab, cut]
  exact whole_next s.impotab earlier complete begins last

theorem OutWhole.fillLoop (whole : s.OutWhole handed) (n : Nat) : (fillLoop n s).OutWhole handed := by
  induction n generalizing s with
  | zero => exact whole
  | succ n inductionHypothesis =>
    unfold Vdh.fillLoop
    split
    next =>
      split
      next => exact whole
      next m rest idle queue => exact inductionHypothesis (whole.first idle queue)
      next _ w buf isBuf =>
        rw [← isBuf]
        have busy : s.vdbuf ≠ [] := by
          rw [isBuf]
          exact List.cons_ne_nil _ _
        refine inductionHypothesis (whole.further busy ?_ ?_)
        · rw [isBuf]
          simp [vdhdsize]
        · exact Nat.le_trans (List.length_take_le _ _) (Nat.min_le_left _ _)
    next => exact whole

/-- What the cutting and the losses are about. -/
def cutting (s : Vdh) : List Packet × List (BitVec 16) × List OutMessage × List (BitVec 16) :=
  (s.opaks, s.vdbuf, s.impotab, s.lost)

/-- What has been built is whole and nothing has been forgotten. -/
structure Sound (s : Vdh) (handed : List OutMessage) : Prop where
  whole : s.OutWhole handed
  lost : s.lost = []

theorem Sound.same (sound : s.Sound handed) {t : Vdh} (same : t.cutting = s.cutting) :
    t.Sound handed := by
  simp only [cutting, Prod.mk.injEq] at same
  obtain ⟨opaks, vdbuf, impotab, lost⟩ := same
  constructor
  · unfold OutWhole
    rw [opaks, vdbuf, impotab]
    exact sound.whole
  · rw [lost]
    exact sound.lost

theorem Sound.vdhostart (sound : s.Sound handed) : s.vdhostart.Sound handed := by
  unfold Vdh.vdhostart
  split
  next => exact sound
  split
  next => exact sound.same rfl
  split
  next => exact sound.same rfl
  split
  next => exact sound
  next =>
    have filled : s.fillochans.Sound handed := by
      refine ⟨sound.whole.fillLoop nchns, ?_⟩
      obtain ⟨_, _, _, _, _, _, same⟩ := fillLoop_spec nchns s
      unfold fillochans
      rw [same]
      exact sound.lost
    refine filled.same ?_
    obtain ⟨_, _, _, _, _, _, same, _⟩ := sndLoop_spec nchns s.fillochans
    rw [same]
    rfl

theorem Sound.restart (sound : s.Sound handed) : s.restart.Sound handed := by
  unfold Vdh.restart
  split
  · exact sound
  · exact sound.vdhostart

theorem tick_cutting (s : Vdh) (ncpopnstate : Bool) : (s.tick ncpopnstate).cutting = s.cutting := by
  unfold tick interval
  dsimp only
  split
  next => rfl
  split
  next => rfl
  split
  next =>
    split
    next => split <;> rfl
    next =>
      split
      next => rfl
      next => split <;> rfl
  next => rfl

theorem receive_cutting (s : Vdh) (r : Receipt) : (s.receive r).cutting = s.cutting := by
  cases r with
  | error => rfl
  | null => rfl
  | packet p beyond short =>
    unfold receive
    dsimp only
    split
    next => rfl
    split
    next =>
      split
      next => rfl
      next => split <;> rfl
    split
    next => rfl
    split
    next => rfl
    next =>
      obtain ⟨_, _, _, _, _, _, _, _, _, _, _, _, _, same⟩ := dataIn_spec s p beyond short
      rw [same]
      rfl

theorem Sound.vdhoint (sound : s.Sound handed) (timer : Option Bool) (eot : Bool) :
    (s.vdhoint timer eot).Sound handed := by
  have timed : (s.timed timer).Sound handed := by
    cases timer with
    | none => exact sound
    | some ncpopnstate => exact sound.same (s.tick_cutting ncpopnstate)
  have ended : ((s.timed timer).ended eot).Sound handed := by
    cases eot with
    | false => exact timed
    | true => exact timed.same rfl
  exact ended.restart

theorem Sound.vdhiint (sound : s.Sound handed) (receipts : List Receipt) :
    (s.vdhiint receipts).Sound handed := by
  have received : (receipts.foldl Vdh.receive s).Sound handed := by
    induction receipts generalizing s with
    | nil => exact sound
    | cons r receipts inductionHypothesis =>
      exact inductionHypothesis (sound.same (s.receive_cutting r))
  unfold Vdh.vdhiint
  split
  · exact sound
  · dsimp only
    split
    · exact received.restart.same rfl
    · exact received.same rfl

theorem Sound.impOutput (sound : s.Sound handed) (m : OutMessage) :
    (s.impOutput m).Sound (handed ++ [m]) := by
  have queued : ({ s with impotab := s.impotab ++ [m] } : Vdh).Sound (handed ++ [m]) := by
    refine ⟨?_, sound.lost⟩
    obtain ⟨earlier, sent, now, cut, complete, state⟩ := sound.whole
    refine ⟨earlier, sent, now, ?_, complete, state⟩
    rw [cut, List.append_assoc _ s.impotab]
  unfold Vdh.impOutput
  dsimp only
  split
  · exact queued.restart
  · exact queued

theorem Sound.impInput (sound : s.Sound handed)
    (noData : s.vdhilast = true → s.impType.1 >>> 8 &&& 0o137 ≠ 0 →
      s.impType.1 >>> 8 &&& 0o137 ≠ 15 → s.impiMsg = []) : s.impInput.Sound handed := by
  unfold Vdh.impInput impldrd
  split
  next => exact sound
  next waits =>
    have waiting : s.vdhilast = true := by simpa using waits
    refine ⟨sound.whole, ?_⟩
    show (if _ then _ else _) = _
    split
    next fromImp => rw [noData waiting fromImp.1 fromImp.2, List.append_nil, sound.lost]
    next => exact sound.lost

theorem Sound.impInit (sound : s.Sound handed) (idle : s.vdbuf = []) (empty : s.impiMsg = []) :
    s.impInit.Sound (handed ++ [impNop, impNop, impNop]) := by
  obtain ⟨earlier, sent, now, cut, complete, state⟩ := sound.whole
  refine ⟨⟨earlier ++ sent ++ now, [], [], ?_, .nil, .inl ⟨rfl, idle, rfl⟩⟩, ?_⟩
  · rw [cut, List.append_nil, List.append_nil, List.append_assoc _ s.impotab]
    rfl
  · show s.lost ++ s.impiMsg = []
    rw [sound.lost, empty]
    rfl

end Vdh

/-! ### What the imp has accepted -/

theorem parts_prefix (short more : List Packet) :
    ((parts (short ++ more)).1 = (parts short).1 ∧ (parts short).2 <+: (parts (short ++ more)).2) ∨
      ∃ message others, (parts (short ++ more)).1 = (parts short).1 ++ message :: others ∧
        (parts short).2 <+: message := by
  induction more using List.reverseRecOn with
  | nil =>
    rw [List.append_nil]
    exact .inl ⟨rfl, List.prefix_refl _⟩
  | append_singleton more p inductionHypothesis =>
    rw [← List.append_assoc, parts_snoc]
    rcases inductionHypothesis with ⟨same, begun⟩ | ⟨message, others, cut, begun⟩
    · rw [same]
      split
      · exact .inr ⟨_, [], rfl, begun.trans (List.prefix_append _ _)⟩
      · exact .inl ⟨rfl, begun.trans (List.prefix_append _ _)⟩
    · rw [cut]
      split
      · exact .inr ⟨message, _, List.append_assoc _ _ _, begun⟩
      · exact .inr ⟨message, others, rfl, begun⟩

theorem Begins.of_prefix {packets fewer : List Packet} {m : OutMessage} {left : List (BitVec 16)}
    (begins : Begins packets m left) (shorter : fewer <+: packets) (some : fewer ≠ []) :
    ∃ left, Begins fewer m left := by
  obtain ⟨more, rfl⟩ := shorter
  obtain ⟨wordsOf, p, others, first, leader⟩ := begins
  obtain ⟨q, rest, rfl⟩ := List.exists_cons_of_ne_nil some
  refine ⟨words more ++ left, ?_, q, rest, rfl, ?_⟩
  · rw [← wordsOf]
    unfold words
    rw [List.flatMap_append, List.append_assoc]
  · rw [(List.cons.inj first).1]
    exact leader

theorem forall₂_append {α β : Type} {R : α → β → Prop} {first second : List α} {values : List β}
    (related : List.Forall₂ R (first ++ second) values) :
    ∃ front back, values = front ++ back ∧ List.Forall₂ R first front ∧ List.Forall₂ R second back :=
  ⟨values.take first.length, values.drop first.length, (List.take_append_drop _ _).symm,
    (List.forall₂_take_append _ _ _ related.flip).flip,
    (List.forall₂_drop_append _ _ _ related.flip).flip⟩

/-- The packets are whole messages of those handed to the driver, one after another, and the
beginning of the next one. -/
def Received (packets : List Packet) (handed : List OutMessage) : Prop :=
  ∃ earlier sent later, handed = earlier ++ sent ++ later ∧
    List.Forall₂ IsMessage (parts packets).1 sent ∧
    ((parts packets).2 = [] ∨ ∃ m rest left, later = m :: rest ∧ Begins (parts packets).2 m left)

theorem Whole.received {opaks accepted : List Packet} {vdbuf : List (BitVec 16)}
    {impotab handed : List OutMessage} (whole : Whole opaks vdbuf impotab handed)
    (shorter : accepted <+: opaks) : Received accepted handed := by
  obtain ⟨earlier, sent, now, cut, complete, state⟩ := whole
  obtain ⟨more, rfl⟩ := shorter
  rcases parts_prefix accepted more with ⟨same, begun⟩ | ⟨message, others, split, begun⟩
  · refine ⟨earlier, sent, now ++ impotab, by rw [cut, List.append_assoc _ now], same ▸ complete, ?_⟩
    by_cases none : (parts accepted).2 = []
    · exact .inl none
    · rcases state with ⟨-, -, empty⟩ | ⟨m, rfl, -, begins⟩
      · rw [empty] at begun
        exact .inl (List.prefix_nil.mp begun)
      · obtain ⟨left, begins⟩ := begins.of_prefix begun none
        exact .inr ⟨m, impotab, left, rfl, begins⟩
  · rw [split] at complete
    obtain ⟨front, back, rfl, first, second⟩ := forall₂_append complete
    obtain ⟨m, rest, isMessage, -, rfl⟩ := List.forall₂_cons_left_iff.mp second
    refine ⟨earlier, front, m :: (rest ++ now ++ impotab), by rw [cut]; simp, first, ?_⟩
    by_cases none : (parts accepted).2 = []
    · exact .inl none
    · have begins : Begins message m [] := ⟨(List.append_nil _).trans isMessage.1, isMessage.2⟩
      obtain ⟨left, begins⟩ := begins.of_prefix begun none
      exact .inr ⟨m, _, left, rfl, begins⟩

/-! ### Runs -/

namespace DownLine

variable {s : DownLine}

/-- What holds in every state of a run. -/
structure Held (s : DownLine) : Prop where
  line : ∃ seen, s.line.Held seen
  sound : s.line.vdh.Sound s.handed

theorem Held.line_step (held : s.Held) {e : OutEvent} (between : s.Between (.line e)) {line : OutLine}
    (taken : s.line.step e = some line) : (DownLine.mk line (s.handed ++ message e)).Held := by
  obtain ⟨⟨seen, lineHeld⟩, sound⟩ := held
  refine ⟨lineHeld.step taken, ?_⟩
  cases e with
  | output m =>
    cases taken
    exact sound.impOutput m
  | oint timer eot =>
    cases taken
    rw [show s.handed ++ message (.oint timer eot) = s.handed from List.append_nil _]
    exact sound.vdhoint timer eot
  | iint count =>
    cases taken
    rw [show s.handed ++ message (.iint count) = s.handed from List.append_nil _]
    exact sound.vdhiint _
  | input =>
    cases taken
    rw [show s.handed ++ message .input = s.handed from List.append_nil _]
    exact sound.impInput between
  | deliver =>
    rw [show s.handed ++ message .deliver = s.handed from List.append_nil _]
    unfold OutLine.step OutLine.deliver at taken
    dsimp only at taken
    split at taken
    next => cases taken
    next =>
      split at taken <;> cases taken
      · exact sound
      · exact sound
  | reply r =>
    cases taken
    rw [show s.handed ++ message (.reply r) = s.handed from List.append_nil _]
    exact sound
  | loseOut i =>
    cases taken
    rw [show s.handed ++ message (.loseOut i) = s.handed from List.append_nil _]
    exact sound
  | loseBack i =>
    cases taken
    rw [show s.handed ++ message (.loseBack i) = s.handed from List.append_nil _]
    exact sound

theorem Held.step (held : s.Held) {e : DownEvent} (between : s.Between e) {next : DownLine}
    (taken : s.step e = some next) : next.Held := by
  cases e with
  | line e =>
    obtain ⟨line, lineTaken, rfl⟩ := Option.map_eq_some_iff.mp taken
    exact held.line_step between lineTaken
  | init =>
    cases taken
    exact ⟨⟨0, (OutLine.impInit_fresh s.line.vdh).held⟩,
      held.sound.impInit between.1 between.2⟩

theorem start_held : start.Held where
  line := ⟨0, (OutLine.impInit_fresh Vdh.static).held⟩
  sound := ⟨⟨[], [], [], rfl, .nil, .inl ⟨rfl, rfl, rfl⟩⟩, rfl⟩

/-- A failure of the line leaves messages whole. In any sequence of messages, interrupts with any
reports, answers, losses and initialisations in which the line is only initialised between two
messages of both directions and messages from the imp itself bring no data, what the imp has
accepted since the last initialisation are whole messages from those handed to the driver, one
after another, and the beginning of the next; and the driver has forgotten no data. -/
theorem messages_whole {history : List DownEvent}
    (run : Transition.Run (Transition.Guarded (Transition.Takes step) Between) start history s) :
    Received s.line.accepted s.handed ∧ s.line.vdh.lost = [] := by
  obtain ⟨⟨seen, held⟩, sound⟩ : s.Held :=
    run.always Held start_held fun _ _ _ held taken => held.step taken.1 taken.2
  exact ⟨sound.whole.received held.accepted, sound.lost⟩

instance (s : DownLine) : ∀ e, Decidable (s.Between e)
  | .init => inferInstanceAs (Decidable (s.line.vdh.vdbuf = [] ∧ s.line.vdh.impiMsg = []))
  | .line .input => inferInstanceAs (Decidable (s.line.vdh.vdhilast = true →
      s.line.vdh.impType.1 >>> 8 &&& 0o137 ≠ 0 → s.line.vdh.impType.1 >>> 8 &&& 0o137 ≠ 15 →
      s.line.vdh.impiMsg = []))
  | .line (.output _) | .line (.oint _ _) | .line (.iint _) | .line .deliver | .line (.reply _)
  | .line (.loseOut _) | .line (.loseBack _) => .isTrue trivial

/-- A tick of the timer at the end of a transmission; an interval with an answer; a transmission
that reaches the imp. -/
def aTick : DownEvent := .line (.oint (some true) true)

def heardYou : List DownEvent :=
  [.line .deliver, .line (.reply (.packet ⟨vSpbit ||| vHello, []⟩ 0 false)), .line (.iint 1)]

def answeredInterval : List DownEvent := aTick :: List.replicate 73 aTick ++ heardYou ++ [aTick]

/-- The driver waits before it tries and the line comes up. -/
def comesUp : List DownEvent :=
  List.replicate 599 aTick ++ (List.replicate 4 answeredInterval).flatten ++ [aTick]

theorem messages_whole_up : (Transition.last step start comesUp).line.vdh.lost = [] :=
  (messages_whole (Transition.run_can (by decide +kernel))).2

/-- The end of a transmission. -/
def eot : DownEvent := .line (.oint none true)

/-- A message is queued behind the first ones; two of those are sent and acknowledged, so that the
leader of the message is built and the rest of it waits. -/
def halfSent : List DownEvent :=
  [.line (.output ⟨(1, 2), [3, 4]⟩), eot, eot, eot, .line .deliver, .line .deliver, .line .deliver,
    .line (.reply (.packet ⟨0, []⟩ 0 false)), .line (.iint 1)]

/-- The line fails; when it is up again, a packet is sent and accepted. -/
def upAgain : List DownEvent :=
  .init :: List.replicate 599 aTick ++ answeredInterval ++
    [aTick, eot, eot, .line .deliver, .line .deliver]

/-- The rest of the message is accepted without its leader. -/
theorem messages_headless :
    Transition.Run (Transition.Takes step) start (comesUp ++ halfSent ++ upAgain)
      (Transition.last step start (comesUp ++ halfSent ++ upAgain)) ∧
    ¬ Received (Transition.last step start (comesUp ++ halfSent ++ upAgain)).line.accepted
      (Transition.last step start (comesUp ++ halfSent ++ upAgain)).handed := by
  refine ⟨Transition.run_all (by decide +kernel), fun received => ?_⟩
  have facts : (parts (Transition.last step start
      (comesUp ++ halfSent ++ upAgain)).line.accepted).1.map (List.map Packet.data) = [[[3, 4]]] ∧
      ∀ m ∈ (Transition.last step start (comesUp ++ halfSent ++ upAgain)).handed,
        [m.leader.1, m.leader.2] ≠ [3, 4] := by
    decide +kernel
  obtain ⟨message, leaders⟩ := facts
  obtain ⟨earlier, sent, later, cut, complete, -⟩ := received
  obtain ⟨packets, isOne, dataOf⟩ := List.map_eq_singleton_iff.mp message
  rw [isOne] at complete
  obtain ⟨m, others, isMessage, -, rfl⟩ := List.forall₂_cons_left_iff.mp complete
  obtain ⟨-, p, rest, first, leader⟩ := isMessage
  rw [first, List.map_cons, leader] at dataOf
  refine leaders m ?_ (List.cons.inj dataOf).1
  rw [cut]
  simp

end DownLine

end NetworkUnix.Ncpk
