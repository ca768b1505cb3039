/-
This file proves the reliable delivery over the link. A line that is lost, damaged or
repeated does no harm, as each message is sent until it is acknowledged and the order of the
lines is kept. What does harm is a message that comes while its receiver waits for an
acknowledgement itself: it is counted and not kept, and its repeat is acknowledged.
-/

import NetworkUnix.Mmdf.Lines

namespace NetworkUnix.Mmdf

open Function

variable {linelgh : Nat}

/-! ### What is promised -/

/-- How a message looks to the caller of `d_getmsg`. -/
def Message.seen (m : Message linelgh) : Got :=
  if m.code = exitCode then .eexit else .message m.code m.text

/-- No `d_sndmsg` has returned ETRANS. -/
def System.Unbroken (s : System linelgh) : Prop := ∀ side, Result.etrans ∉ (s.station side).results

/-- While no transmission has failed, what a station got is what the other sent, up to some message;
and a message for which `d_sndmsg` returned OK is among it. -/
def System.Delivers (s : System linelgh) : Prop :=
  s.Unbroken → ∀ side,
    (s.station side).returned <+: (s.station (!side)).passed.map Message.seen ∧
    ∀ k, (s.station (!side)).results[k]? = some .ok → k < (s.station side).returned.length

/-- The next message comes while the station waits for an ACK. -/
def Station.drops (s : Station linelgh) (raw : List Byte) : Bool :=
  s.ackonly &&
    match heard linelgh raw with
    | .message seqno _ code _ => decide (code ≠ ackCode) && decide (seqno = s.rcvseq)
    | _ => false

/-- The first line is such a message. -/
def System.drops (s : System linelgh) (side : Bool) : Bool :=
  match s.line side with
  | [] => false
  | raw :: _ => (s.station side).drops raw

/-- No message comes to a station that waits for an ACK, and no interrupt is asked for. -/
def System.Apart (s : System linelgh) : Event linelgh → Prop
  | .read side => s.drops side = false
  | .dlintr _ _ => False
  | _ => True

instance (s : System linelgh) : ∀ e, Decidable (s.Apart e)
  | .read _ => inferInstanceAs (Decidable (_ = _))
  | .dlintr _ _ => inferInstanceAs (Decidable False)
  | .sndmsg _ _ | .getmsg _ | .timeout _ | .lose _ _ | .damage _ _ _ => inferInstanceAs (Decidable True)

/-! ### The numbers in a line -/

/-- The number of a message in a line. -/
def dataNo (linelgh : Nat) (raw : List Byte) : Option Nat :=
  match heard linelgh raw with
  | .message seqno _ code _ => if code = ackCode then none else some seqno
  | _ => none

/-- The number of an acknowledgement. -/
def ackNo (linelgh : Nat) (raw : List Byte) : Option Nat :=
  match heard linelgh raw with
  | .message seqno _ code _ => if code = ackCode then some seqno else none
  | _ => none

/-- Behind a line with this number there is no other. -/
def Settled (no : List Byte → Option Nat) (seqno : Nat) (x y : List Byte) : Prop :=
  no x = some seqno → ∀ other, no y = some other → other = seqno

variable {raw : List Byte} {lines : List (List Byte)} {no : List Byte → Option Nat} {seqno : Nat}

theorem dataNo_ignored (ignored : heard linelgh raw = .ignored) :
    dataNo linelgh raw = none := by
  rw [dataNo, ignored]

theorem ackNo_ignored (ignored : heard linelgh raw = .ignored) :
    ackNo linelgh raw = none := by
  rw [ackNo, ignored]

theorem Settled.set (settled : lines.Pairwise (Settled no seqno)) (none : no raw = none)
    (place : Nat) : (lines.set place raw).Pairwise (Settled no seqno) := by
  induction lines generalizing place with
  | nil => exact settled
  | cons first rest inductionHypothesis =>
    rw [List.pairwise_cons] at settled
    cases place with
    | zero =>
      refine List.pairwise_cons.mpr ⟨fun y _ some => ?_, settled.2⟩
      rw [none] at some
      cases some
    | succ place =>
      refine List.pairwise_cons.mpr ⟨fun y member some other number => ?_,
        inductionHypothesis settled.2 place⟩
      rcases List.mem_or_eq_of_mem_set member with member | rfl
      · exact settled.1 y member some other number
      · rw [none] at number
        cases number

theorem Settled.append (settled : lines.Pairwise (Settled no seqno))
    (last : ∀ x ∈ lines, no x = some seqno → ∀ other, no raw = some other → other = seqno) :
    (lines ++ [raw]).Pairwise (Settled no seqno) :=
  List.pairwise_append.mpr ⟨settled, List.pairwise_singleton _ _, fun x member y single => by
    rw [List.mem_singleton.mp single]
    exact last x member⟩

theorem Settled.absent (absent : ∀ x ∈ lines, no x ≠ some seqno) :
    lines.Pairwise (Settled no seqno) := by
  induction lines with
  | nil => exact List.Pairwise.nil
  | cons first rest inductionHypothesis =>
    exact List.pairwise_cons.mpr ⟨fun y _ some => absurd some (absent first List.mem_cons_self),
      inductionHypothesis fun x member => absent x (List.mem_cons_of_mem first member)⟩

theorem Message.rawLines_eq (m : Message linelgh) (seqno : Nat) :
    rawLines (lineOf seqno m.code m.text) = [bare seqno m.code m.text] := by
  have plain := m.plain
  rw [List.all_cons, Bool.and_eq_true] at plain
  refine rawLines_lineOf seqno ?_
  rw [cstring_plain plain.2]
  exact m.plain

theorem Message.heard_eq (m : Message linelgh) (small : seqno < 8) :
    heard linelgh (bare seqno m.code m.text) = .message seqno false m.code m.text := by
  have plain := m.plain
  rw [List.all_cons, Bool.and_eq_true] at plain
  have text := cstring_plain plain.2
  rw [heard_bare (by omega) (by rw [text]; exact m.plain) (by rw [text]; exact m.fits), text,
    Nat.mod_eq_of_lt small, Nat.div_eq_of_lt small]
  rfl

/-! ### One direction -/

/-- A line is no end of file, and if it is a message, then it is the last one that was taken or the
next one. -/
def Carries (passed : List (Message linelgh)) (taken : Nat) (raw : List Byte) : Prop :=
  match heard linelgh raw with
  | .eof => False
  | .ignored => True
  | .message seqno intrflag code text =>
    code = ackCode ∨ intrflag = false ∧ ∃ j m, passed[j]? = some m ∧ seqno = j % 8 ∧
      code = m.code ∧ text = m.text ∧ (j + 1 = taken ∨ j = taken)

/-- An acknowledgement is for the last message that was sent or for the one before, and for no more
than was taken. -/
def Acks (sent taken : Nat) (waits : Bool) (raw : List Byte) : Prop :=
  ∀ seqno intrflag text, heard linelgh raw = .message seqno intrflag ackCode text →
    intrflag = false ∧ ∃ a, seqno = a % 8 ∧ sent ≤ a + 1 ∧ a ≤ taken ∧ (waits = false → a = sent)

/-- The call of `d_sndmsg` that a station is in is the last one, and every other has returned. -/
def Station.Calls (s : Station linelgh) (taken : Nat) : Prop :=
  match s.phase with
  | .sending message _ => s.results.length + 1 = s.passed.length ∧
      ∃ m, s.passed[s.results.length]? = some m ∧
        message = lineOf (s.results.length % 8) m.code m.text
  | _ => s.results.length = s.passed.length ∧ taken = s.passed.length

/-- One direction: `forth` is under way to the receiver, `back` to the sender. -/
structure Way (sender receiver : Station linelgh) (forth back : List (List Byte)) : Prop where
  trans : sender.transeq = sender.passed.length % 8
  recv : receiver.rcvseq = receiver.returned.length % 8
  last : receiver.lastseq = (receiver.returned.length - 1) % 8
  calm : receiver.tranint = false
  behind : receiver.returned.length ≤ sender.passed.length
  ahead : sender.passed.length ≤ receiver.returned.length + 1
  whole : receiver.returned =
    (sender.passed.map Message.seen).take receiver.returned.length
  calls : sender.Calls receiver.returned.length
  data : ∀ raw ∈ forth, Carries sender.passed receiver.returned.length raw
  dataOrder : forth.Pairwise (Settled (dataNo linelgh) receiver.rcvseq)
  acks : ∀ raw ∈ back, @Acks linelgh sender.passed.length receiver.returned.length
    sender.ackonly raw
  ackOrder : back.Pairwise (Settled (ackNo linelgh) sender.transeq)

/-! ### What a line can do -/

/-- What `d_getmsg` can do with a line: it passes it over, returns 0, takes an ACK, drops a message,
accepts one, or acknowledges a repeat. -/
inductive Station.Hears (s : Station linelgh) (raw : List Byte) : Station linelgh → List Byte → Prop
  | passes (notEof : heard linelgh raw ≠ .eof)
      (notAck : s.ackonly = true → ackNo linelgh raw ≠ some s.transeq)
      (notNext : dataNo linelgh raw ≠ some s.rcvseq) : Hears s raw s []
  | ends (eof : heard linelgh raw = .eof) : Hears s raw (s.comesBack .eof) []
  | acked (waits : s.ackonly = true) (intrflag : Bool) (text : List Byte)
      (line : heard linelgh raw = .message s.transeq intrflag ackCode text) :
      Hears s raw (s.comesBack (gotOf intrflag ackCode text)) []
  | drops (dropped : s.drops raw = true) : Hears s raw s.advance []
  | accepts (gets : s.ackonly = false) (intrflag : Bool) (code : Byte) (text : List Byte)
      (notAck : code ≠ ackCode)
      (line : heard linelgh raw = .message s.rcvseq intrflag code text) :
      Hears s raw (s.advance.sndAck.comesBack (gotOf intrflag code text)) s.advance.ackLine
  | repeats (intrflag : Bool) (code : Byte) (text : List Byte) (notAck : code ≠ ackCode)
      (notNext : s.lastseq ≠ s.rcvseq)
      (line : heard linelgh raw = .message s.lastseq intrflag code text) :
      Hears s raw s.sndAck s.ackLine

theorem Station.hear_hears (s : Station linelgh) (raw : List Byte) :
    s.Hears raw (s.hear raw).1 (s.hear raw).2 := by
  unfold Station.hear
  cases line : heard linelgh raw with
  | eof => exact .ends line
  | ignored =>
    refine .passes (by rw [line]; exact Heard.noConfusion) (fun _ => ?_) ?_
    · rw [ackNo_ignored line]
      exact (Option.some_ne_none _).symm
    · rw [dataNo_ignored line]
      exact (Option.some_ne_none _).symm
  | message seqno intrflag code text =>
    have notEof : heard linelgh raw ≠ .eof := by rw [line]; exact Heard.noConfusion
    dsimp only
    by_cases ack : code = ackCode
    · have noData : dataNo linelgh raw = none := by rw [dataNo, line]; exact if_pos ack
      rw [if_pos ack]
      by_cases taken : seqno = s.transeq ∧ s.ackonly = true
      · rw [if_pos taken]
        rw [ack, taken.1] at line
        rw [ack]
        exact .acked taken.2 intrflag text line
      · rw [if_neg taken]
        refine .passes notEof (fun waits number => taken ⟨?_, waits⟩) ?_
        · rw [ackNo, line] at number
          dsimp only at number
          rw [if_pos ack] at number
          exact Option.some.inj number
        · rw [noData]
          exact (Option.some_ne_none _).symm
    · have noAck : ackNo linelgh raw = none := by rw [ackNo, line]; exact if_neg ack
      have number : dataNo linelgh raw = some seqno := by rw [dataNo, line]; exact if_neg ack
      rw [if_neg ack]
      by_cases next : seqno = s.rcvseq
      · rw [if_pos next]
        cases waits : s.ackonly with
        | true =>
          rw [if_pos rfl]
          refine .drops ?_
          unfold Station.drops
          rw [waits, line]
          simp [ack, next]
        | false =>
          rw [if_neg Bool.false_ne_true]
          rw [next] at line
          exact .accepts waits intrflag code text ack line
      · rw [if_neg next]
        by_cases again : seqno = s.lastseq
        · rw [if_pos again]
          rw [again] at line next
          exact .repeats intrflag code text ack next line
        · rw [if_neg again]
          refine .passes notEof (fun _ => ?_) ?_
          · rw [noAck]
            exact (Option.some_ne_none _).symm
          · rw [number]
            exact fun same => next (Option.some.inj same)

/-! ### What the receiver does -/

namespace Way

variable {sender receiver : Station linelgh} {forth back : List (List Byte)} {raw : List Byte}

theorem skip (way : Way sender receiver (raw :: forth) back) : Way sender receiver forth back :=
  { way with
    data := fun other member => way.data other (List.mem_cons_of_mem raw member)
    dataOrder := (List.pairwise_cons.mp way.dataOrder).2 }

theorem skipBack (way : Way sender receiver forth (raw :: back)) : Way sender receiver forth back :=
  { way with
    acks := fun other member => way.acks other (List.mem_cons_of_mem raw member)
    ackOrder := (List.pairwise_cons.mp way.ackOrder).2 }

theorem heard_ack {seqno : Nat} (small : seqno < 8) (room : headlngh ≤ linelgh) :
    heard linelgh (bare seqno ackCode []) = .message seqno false ackCode [] := by
  rw [heard_bare (by omega) (by decide) (by exact Nat.le_trans (Nat.le_refl _) (by simpa [cstring] using room))]
  rw [Nat.mod_eq_of_lt small, Nat.div_eq_of_lt small]
  rfl

theorem acknowledge (way : Way sender receiver forth back) (room : headlngh ≤ linelgh) :
    Way sender receiver forth (back ++ [bare receiver.rcvseq ackCode []]) := by
  have line := @heard_ack linelgh receiver.rcvseq
    (by rw [way.recv]; exact Nat.mod_lt _ (by decide)) room
  have ahead := way.ahead
  have behind := way.behind
  have calls := way.calls
  have idle : sender.ackonly = false → receiver.returned.length = sender.passed.length := by
    intro gets
    unfold Station.Calls at calls
    unfold Station.ackonly at gets
    cases phase : sender.phase with
    | sending message retry =>
      rw [phase] at gets
      cases gets
    | idle =>
      rw [phase] at calls
      exact calls.2
    | getting =>
      rw [phase] at calls
      exact calls.2
  refine { way with acks := fun other member => ?_, ackOrder := ?_ }
  · rcases List.mem_append.mp member with old | new
    · exact way.acks other old
    · rw [List.mem_singleton.mp new]
      intro seqno intrflag text said
      rw [line, Heard.message.injEq] at said
      obtain ⟨rfl, rfl, _⟩ := said
      exact ⟨rfl, receiver.returned.length, way.recv, by omega, Nat.le_refl _, idle⟩
  · refine Settled.append way.ackOrder fun x member number other said => ?_
    rw [ackNo, line] at said
    cases said
    unfold ackNo at number
    split at number
    next seqno intrflag code text heardX =>
      split at number
      next isAck =>
        cases number
        rw [isAck] at heardX
        obtain ⟨_, a, same, sent, taken, _⟩ := way.acks x member _ _ _ heardX
        have trans := way.trans
        have recv := way.recv
        omega
      next => cases number
    next => cases number

variable {code : Byte} {intrflag : Bool} {text : List Byte}

theorem message_of (way : Way sender receiver (raw :: forth) back) {seqno : Nat}
    (notAck : code ≠ ackCode) (line : heard linelgh raw = .message seqno intrflag code text) :
    intrflag = false ∧ ∃ j m, sender.passed[j]? = some m ∧ seqno = j % 8 ∧
      code = m.code ∧ text = m.text ∧
      (j + 1 = receiver.returned.length ∨ j = receiver.returned.length) := by
  have carried := way.data raw List.mem_cons_self
  unfold Carries at carried
  rw [line] at carried
  rcases carried with ack | carried
  · exact absurd ack notAck
  · exact carried

theorem again (way : Way sender receiver (raw :: forth) back) {seqno : Nat}
    (notAck : code ≠ ackCode) (line : heard linelgh raw = .message seqno intrflag code text) :
    Way sender receiver.sndAck forth (back ++ rawLines receiver.ackLine) := by
  obtain ⟨_, _, m, _⟩ := way.message_of notAck line
  have room : headlngh ≤ linelgh := Nat.le_trans (Nat.le_add_left _ _) m.fits
  have written : rawLines receiver.ackLine = [bare receiver.rcvseq ackCode []] := by
    unfold Station.ackLine
    rw [way.calm, if_neg Bool.false_ne_true, rawLines_lineOf _ (by decide)]
  rw [written]
  exact { way.skip.acknowledge room with calm := rfl }

/-- The next message is taken. -/
theorem take (way : Way sender receiver (raw :: forth) back) (gets : receiver.phase = .getting)
    (notAck : code ≠ ackCode)
    (line : heard linelgh raw = .message receiver.rcvseq intrflag code text) :
    Way sender (receiver.advance.sndAck.comesBack (Station.gotOf intrflag code text)) forth
      (back ++ rawLines receiver.advance.ackLine) := by
  obtain ⟨rfl, j, m, isM, number, rfl, rfl, place⟩ := way.message_of notAck line
  have room : headlngh ≤ linelgh := Nat.le_trans (Nat.le_add_left _ _) m.fits
  have recv := way.recv
  have next : j = receiver.returned.length := by omega
  obtain ⟨inside, isM⟩ := List.getElem?_eq_some_iff.mp isM
  have written : rawLines receiver.advance.ackLine =
      [bare ((receiver.rcvseq + 1) % 8) ackCode []] := by
    unfold Station.ackLine Station.advance
    dsimp only
    rw [way.calm, if_neg Bool.false_ne_true, rawLines_lineOf _ (by decide)]
  have after : receiver.advance.sndAck.comesBack (Station.gotOf false m.code m.text) =
      { receiver with
        lastseq := receiver.rcvseq
        rcvseq := (receiver.rcvseq + 1) % 8
        tranint := false
        phase := .idle
        returned := receiver.returned ++ [m.seen] } := by
    unfold Station.advance Station.sndAck Station.comesBack
    dsimp only
    rw [gets]
    rfl
  have length : (receiver.returned ++ [m.seen]).length = receiver.returned.length + 1 :=
    List.length_append
  have first : dataNo linelgh raw = some receiver.rcvseq := by
    rw [dataNo, line]
    exact if_neg notAck
  have order := (List.pairwise_cons.mp way.dataOrder).1
  rw [after, written]
  refine acknowledge { way.skip with
    recv := ?_
    last := ?_
    calm := rfl
    behind := ?_
    ahead := ?_
    whole := ?_
    calls := ?_
    data := fun other member => ?_
    dataOrder := ?_
    acks := fun other member => ?_ } room
  · show (receiver.rcvseq + 1) % 8 = (receiver.returned ++ [m.seen]).length % 8
    rw [length, recv]
    omega
  · show receiver.rcvseq = ((receiver.returned ++ [m.seen]).length - 1) % 8
    rw [length, recv]
    omega
  · rw [length]
    omega
  · have := way.ahead
    rw [length]
    omega
  · rw [length, List.take_add_one, ← way.whole]
    rw [← next, List.getElem?_map, List.getElem?_eq_getElem inside, isM]
    rfl
  · have calls := way.calls
    unfold Station.Calls at *
    cases phase : sender.phase with
    | sending message retry =>
      rw [phase] at calls
      exact calls
    | idle =>
      rw [phase] at calls
      have calls : _ ∧ _ := calls
      omega
    | getting =>
      rw [phase] at calls
      have calls : _ ∧ _ := calls
      omega
  · have carried := way.data other (List.mem_cons_of_mem raw member)
    have same := order other member first
    unfold Carries at *
    unfold dataNo at same
    cases heardOther : heard linelgh other with
    | eof => rw [heardOther] at carried; exact carried
    | ignored => trivial
    | message seqno' intrflag' code' text' =>
      rw [heardOther] at carried same
      dsimp only at carried same ⊢
      by_cases ack : code' = ackCode
      · exact .inl ack
      · rw [if_neg ack] at same
        rcases carried with isAck | ⟨noFlag, j', m', isM', number', isCode, isText, place'⟩
        · exact absurd isAck ack
        · have same := same seqno' rfl
          exact .inr ⟨noFlag, j', m', isM', number', isCode, isText, .inl (by rw [length]; omega)⟩
  · refine Settled.absent fun other member number => ?_
    have same := order other member first _ number
    have same : (receiver.rcvseq + 1) % 8 = receiver.rcvseq := same
    omega
  · intro seqno intrflag text said
    obtain ⟨noFlag, a, isA, sent, taken, idle⟩ := way.acks other member _ _ _ said
    exact ⟨noFlag, a, isA, sent, by rw [length]; omega, idle⟩

/-! ### What the sender does -/

theorem ackonly_eq (s : Station linelgh) : s.ackonly = true ↔
    ∃ message retry, s.phase = .sending message retry := by
  unfold Station.ackonly
  cases s.phase with
  | idle => simp
  | getting => simp
  | sending message retry => simp

theorem finish (way : Way sender receiver forth (raw :: back)) (waits : sender.ackonly = true)
    (line : heard linelgh raw = .message sender.transeq intrflag ackCode text) :
    Way (sender.comesBack (Station.gotOf intrflag ackCode text)) receiver forth back := by
  obtain ⟨message, retry, phase⟩ := (ackonly_eq sender).mp waits
  obtain ⟨rfl, a, number, sent, taken, _⟩ := way.acks raw List.mem_cons_self _ _ _ line
  have trans := way.trans
  have behind := way.behind
  have calls := way.calls
  unfold Station.Calls at calls
  rw [phase] at calls
  obtain ⟨calls, _⟩ := calls
  have after : sender.comesBack (Station.gotOf false ackCode text) =
      { sender with phase := .idle, results := sender.results ++ [.ok] } := by
    unfold Station.comesBack
    rw [phase]
    rfl
  have first : ackNo linelgh raw = some sender.transeq := by
    rw [ackNo, line]
    exact if_pos rfl
  have order := (List.pairwise_cons.mp way.ackOrder).1
  rw [after]
  refine { way.skipBack with calls := ?_, acks := fun other member => ?_ }
  · refine ⟨?_, ?_⟩
    · show (sender.results ++ [Result.ok]).length = _
      rw [List.length_append]
      exact calls
    · show receiver.returned.length = sender.passed.length
      omega
  · intro seqno intrflag text said
    obtain ⟨noFlag, a', isA, sent', taken', _⟩ :=
      way.acks other (List.mem_cons_of_mem raw member) _ _ _ said
    have same := order other member first seqno (by rw [ackNo, said]; exact if_pos rfl)
    exact ⟨noFlag, a', isA, sent', taken', fun _ => by
      show a' = sender.passed.length
      omega⟩

section

variable (way : Way sender receiver forth back)
include way

theorem resend {message : List Byte} {retry : Nat}
    (phase : sender.phase = .sending message retry) :
    Way { sender with phase := .sending message (retry + 1) } receiver
      (forth ++ rawLines message) back := by
  have calls := way.calls
  unfold Station.Calls at calls
  rw [phase] at calls
  obtain ⟨count, m, isM, isMessage⟩ := calls
  have line := m.heard_eq (Nat.mod_lt sender.results.length (show 8 > 0 by decide))
  have behind := way.behind
  have ahead := way.ahead
  have recv := way.recv
  have waits : sender.ackonly = true := (ackonly_eq sender).mpr ⟨_, _, phase⟩
  have written : rawLines message = [bare (sender.results.length % 8) m.code m.text] := by
    rw [isMessage, m.rawLines_eq]
  rw [written]
  refine { way with
    calls := ⟨count, m, isM, isMessage⟩
    data := fun other member => ?_
    dataOrder := ?_
    acks := fun other member seqno intrflag text said => ?_ }
  · rcases List.mem_append.mp member with old | new
    · exact way.data other old
    · rw [List.mem_singleton.mp new]
      unfold Carries
      rw [line]
      exact .inr ⟨rfl, sender.results.length, m, isM, rfl, rfl, rfl, by omega⟩
  · refine Settled.append way.dataOrder fun x member number other said => ?_
    unfold dataNo at number said
    rw [line] at said
    dsimp only at said
    rw [if_neg m.notAck] at said
    cases said
    have carried := way.data x member
    unfold Carries at carried
    split at number
    next seqno' intrflag' code' text' heardX =>
      rw [heardX] at carried
      split at number
      next => cases number
      next notAck =>
        cases number
        rcases carried with ack | ⟨_, j, m', isM', number', _, _, place⟩
        · exact absurd ack notAck
        · obtain ⟨inside, _⟩ := List.getElem?_eq_some_iff.mp isM'
          omega
    next => cases number
  · obtain ⟨noFlag, a, isA, sent, taken, _⟩ := way.acks other member _ _ _ said
    exact ⟨noFlag, a, isA, sent, taken, fun idle => absurd idle (by simp [Station.ackonly])⟩

/-- The next message is sent. -/
theorem send (idle : sender.phase = .idle)
    (m : Message linelgh) :
    Way (sender.sndmsg m).1 receiver (forth ++ rawLines (sender.sndmsg m).2) back := by
  have calls := way.calls
  unfold Station.Calls at calls
  rw [idle] at calls
  obtain ⟨count, all⟩ := calls
  have gets : sender.ackonly = false := by rw [Station.ackonly, idle]
  have trans := way.trans
  have line := m.heard_eq (show sender.transeq < 8 by omega)
  have written : rawLines (sender.sndmsg m).2 = [bare sender.transeq m.code m.text] :=
    m.rawLines_eq _
  have recv := way.recv
  have length : (sender.passed ++ [m]).length = sender.passed.length + 1 := List.length_append
  have last : (sender.passed ++ [m])[sender.passed.length]? = some m := by
    rw [List.getElem?_append_right (Nat.le_refl _), Nat.sub_self]
    rfl
  rw [written]
  refine {
    trans := ?_
    recv := recv
    last := way.last
    calm := way.calm
    behind := ?_
    ahead := ?_
    whole := ?_
    calls := ?_
    data := fun other member => ?_
    dataOrder := ?_
    acks := fun other member seqno intrflag text said => ?_
    ackOrder := ?_ }
  · show (sender.transeq + 1) % 8 = (sender.passed ++ [m]).length % 8
    rw [length]
    omega
  · show _ ≤ (sender.passed ++ [m]).length
    omega
  · show (sender.passed ++ [m]).length ≤ _
    omega
  · show _ = ((sender.passed ++ [m]).map Message.seen).take _
    rw [List.map_append, List.take_append_of_le_length (by rw [List.length_map]; omega)]
    exact way.whole
  · show sender.results.length + 1 = (sender.passed ++ [m]).length ∧
      ∃ m', (sender.passed ++ [m])[sender.results.length]? = some m' ∧
        lineOf sender.transeq m.code m.text = lineOf (sender.results.length % 8) m'.code m'.text
    exact ⟨by omega, m, by rw [count]; exact last, by rw [count, trans]⟩
  · show Carries (sender.passed ++ [m]) _ other
    rcases List.mem_append.mp member with old | new
    · have carried := way.data other old
      unfold Carries at *
      cases heardOther : heard linelgh other with
      | eof => rw [heardOther] at carried; exact carried
      | ignored => trivial
      | message seqno' intrflag' code' text' =>
        rw [heardOther] at carried
        rcases carried with ack | ⟨noFlag, j, m', isM, others⟩
        · exact .inl ack
        · obtain ⟨inside, _⟩ := List.getElem?_eq_some_iff.mp isM
          exact .inr ⟨noFlag, j, m', by rw [List.getElem?_append_left inside]; exact isM, others⟩
    · rw [List.mem_singleton.mp new]
      unfold Carries
      rw [line]
      exact .inr ⟨rfl, sender.passed.length, m, last, trans, rfl, rfl, .inr all.symm⟩
  · refine Settled.append way.dataOrder fun x member number other said => ?_
    rw [dataNo, line] at said
    dsimp only at said
    rw [if_neg m.notAck] at said
    cases said
    omega
  · obtain ⟨noFlag, a, isA, sent, taken, waiting⟩ := way.acks other member _ _ _ said
    have atLast := waiting gets
    exact ⟨noFlag, a, isA, by show (sender.passed ++ [m]).length ≤ _; omega, taken,
      fun isIdle => absurd isIdle (by simp [Station.ackonly, Station.sndmsg])⟩
  · show back.Pairwise (Settled (ackNo linelgh) ((sender.transeq + 1) % 8))
    refine Settled.absent fun other member number => ?_
    unfold ackNo at number
    split at number
    next seqno intrflag code text heardOther =>
      split at number
      next isAck =>
        cases number
        rw [isAck] at heardOther
        obtain ⟨_, a, isA, _, _, waiting⟩ := way.acks other member _ _ _ heardOther
        have atLast := waiting gets
        omega
      next => cases number
    next => cases number

/-! ### What the line does -/

theorem lose {forth' back' : List (List Byte)}
    (less : forth'.Sublist forth) (less' : back'.Sublist back) :
    Way sender receiver forth' back' :=
  { way with
    data := fun other member => way.data other (less.mem member)
    dataOrder := way.dataOrder.sublist less
    acks := fun other member => way.acks other (less'.mem member)
    ackOrder := way.ackOrder.sublist less' }

theorem damage (ignored : heard linelgh raw = .ignored)
    (place : Nat) : Way sender receiver (forth.set place raw) back ∧
      Way sender receiver forth (back.set place raw) := by
  refine ⟨{ way with data := fun other member => ?_, dataOrder := ?_ },
    { way with acks := fun other member seqno intrflag text said => ?_, ackOrder := ?_ }⟩
  · rcases List.mem_or_eq_of_mem_set member with old | rfl
    · exact way.data other old
    · unfold Carries
      rw [ignored]
      trivial
  · exact Settled.set way.dataOrder (dataNo_ignored ignored) place
  · rcases List.mem_or_eq_of_mem_set member with old | rfl
    · exact way.acks other old _ _ _ said
    · rw [ignored] at said
      cases said
  · exact Settled.set way.ackOrder (ackNo_ignored ignored) place

end

end Way

/-! ### Both directions -/

/-- Two stations with the lines under way to each. -/
structure Both (x y : Station linelgh) (toX toY : List (List Byte)) : Prop where
  into : Way y x toX toY
  out : Way x y toY toX

namespace Both

variable {x y : Station linelgh} {toX toY : List (List Byte)} {raw : List Byte}

theorem swap (both : Both x y toX toY) : Both y x toY toX := ⟨both.out, both.into⟩

theorem start : @Both linelgh .start .start [] [] := by
  have way : @Way linelgh .start .start [] [] := {
    trans := rfl
    recv := rfl
    last := rfl
    calm := rfl
    behind := Nat.le_refl 0
    ahead := Nat.zero_le 1
    whole := rfl
    calls := ⟨rfl, rfl⟩
    data := fun _ member => absurd member List.not_mem_nil
    dataOrder := List.Pairwise.nil
    acks := fun _ member => absurd member List.not_mem_nil
    ackOrder := List.Pairwise.nil }
  exact ⟨way, way⟩

theorem unacknowledged (way : Way x y toY toX) (ack : List Byte)
    (line : ∃ seqno intrflag text, heard linelgh ack = .message seqno intrflag ackCode text) :
    Way x y (toY ++ [ack]) toX := by
  obtain ⟨seqno, intrflag, text, line⟩ := line
  refine { way with data := fun other member => ?_, dataOrder := ?_ }
  · rcases List.mem_append.mp member with old | new
    · exact way.data other old
    · rw [List.mem_singleton.mp new]
      unfold Carries
      rw [line]
      exact .inl rfl
  · refine Settled.append way.dataOrder fun _ _ _ other said => ?_
    rw [dataNo, line] at said
    cases said

theorem ackLine (way : Way x y toY toX) (calm : x.tranint = false) (small : x.rcvseq < 8)
    (room : headlngh ≤ linelgh) : Way x y (toY ++ rawLines x.ackLine) toX := by
  have written : rawLines x.ackLine = [bare x.rcvseq ackCode []] := by
    unfold Station.ackLine
    rw [calm, if_neg Bool.false_ne_true, rawLines_lineOf _ (by decide)]
  rw [written]
  exact unacknowledged way _ ⟨_, _, _, Way.heard_ack small room⟩

theorem hear (both : Both x y (raw :: toX) toY) (called : x.phase ≠ .idle)
    (kept : x.drops raw = false) :
    Both (x.hear raw).1 y toX (toY ++ rawLines (x.hear raw).2) := by
  have hears := x.hear_hears raw
  revert hears
  generalize x.hear raw = out
  obtain ⟨x', written⟩ := out
  intro hears
  have hears : x.Hears raw x' written := hears
  have small : ∀ number, number % 8 < 8 := fun number => Nat.mod_lt number (by decide)
  cases hears with
  | passes notEof notAck notNext =>
    rw [show rawLines [] = [] from rfl, List.append_nil]
    exact ⟨both.into.skip, both.out.skipBack⟩
  | ends eof =>
    have carried := both.into.data raw List.mem_cons_self
    unfold Carries at carried
    rw [eof] at carried
    exact carried.elim
  | acked waits intrflag text line =>
    rw [show rawLines [] = [] from rfl, List.append_nil]
    have out := both.out.finish waits line
    obtain ⟨message, retry, phase⟩ := (Way.ackonly_eq x).mp waits
    refine ⟨?_, out⟩
    unfold Station.comesBack
    rw [phase]
    exact { both.into.skip with }
  | drops dropped => exact absurd (kept.symm.trans dropped) Bool.false_ne_true
  | accepts gets intrflag code text notAck line =>
    have phase : x.phase = .getting := by
      unfold Station.ackonly at gets
      cases phase : x.phase with
      | idle => exact absurd phase called
      | getting => rfl
      | sending message retry =>
        rw [phase] at gets
        cases gets
    obtain ⟨_, _, m, _⟩ := both.into.message_of notAck line
    have room : headlngh ≤ linelgh := Nat.le_trans (Nat.le_add_left _ _) m.fits
    refine ⟨both.into.take phase notAck line, ?_⟩
    have moved : Way x.advance y toY toX := { both.out.skipBack with }
    have sent := ackLine moved both.into.calm (small _) room
    unfold Station.comesBack
    rw [show x.advance.sndAck.phase = .getting from phase]
    have calls := sent.calls
    unfold Station.Calls at calls
    rw [show x.advance.phase = .getting from phase] at calls
    exact { sent with
      calls := calls
      acks := fun other member seqno intrflag text said => by
        obtain ⟨noFlag, a, isA, few, taken, idle⟩ := sent.acks other member _ _ _ said
        exact ⟨noFlag, a, isA, few, taken, fun _ => idle gets⟩ }
  | repeats intrflag code text notAck notNext line =>
    obtain ⟨_, _, m, _⟩ := both.into.message_of notAck line
    have room : headlngh ≤ linelgh := Nat.le_trans (Nat.le_add_left _ _) m.fits
    refine ⟨both.into.again notAck line, ?_⟩
    have sent := ackLine both.out.skipBack both.into.calm
      (by rw [both.into.recv]; exact small _) room
    exact { sent with }

theorem unheard (way : Way y x toX toY) {message : List Byte}
    (line : ackNo linelgh message = none) (heardLine : ∀ seqno intrflag text,
      heard linelgh message ≠ .message seqno intrflag ackCode text) :
    Way y x toX (toY ++ [message]) := by
  refine { way with acks := fun other member seqno intrflag text said => ?_, ackOrder := ?_ }
  · rcases List.mem_append.mp member with old | new
    · exact way.acks other old _ _ _ said
    · rw [List.mem_singleton.mp new] at said
      exact absurd said (heardLine _ _ _)
  · refine Settled.append way.ackOrder fun _ _ _ other said => ?_
    rw [line] at said
    cases said

theorem message_unheard (way : Way y x toX toY) (m : Message linelgh) {seqno : Nat}
    (small : seqno < 8) : Way y x toX (toY ++ rawLines (lineOf seqno m.code m.text)) := by
  rw [m.rawLines_eq]
  have line := m.heard_eq small
  refine unheard way ?_ fun seqno intrflag text said => ?_
  · rw [ackNo, line]
    exact if_neg m.notAck
  · rw [line, Heard.message.injEq] at said
    exact m.notAck said.2.2.1

theorem sndmsg (both : Both x y toX toY) (idle : x.phase = .idle) (m : Message linelgh) :
    Both (x.sndmsg m).1 y toX (toY ++ rawLines (x.sndmsg m).2) :=
  ⟨{ message_unheard both.into m (by rw [both.out.trans]; exact Nat.mod_lt _ (by decide)) with },
    both.out.send idle m⟩

theorem getmsg (both : Both x y toX toY) (idle : x.phase = .idle) :
    Both { x with phase := .getting } y toX toY := by
  have calls := both.out.calls
  unfold Station.Calls at calls
  rw [idle] at calls
  exact ⟨{ both.into with }, { both.out with
    calls := calls
    acks := fun other member seqno intrflag text said => by
      obtain ⟨noFlag, a, isA, few, taken, gets⟩ := both.out.acks other member _ _ _ said
      exact ⟨noFlag, a, isA, few, taken, fun _ => gets (by rw [Station.ackonly, idle])⟩ }⟩

theorem timeout (both : Both x y toX toY)
    (unbroken : Result.etrans ∉ x.timeout.1.results) :
    Both x.timeout.1 y toX (toY ++ rawLines x.timeout.2) := by
  have calls := both.out.calls
  unfold Station.timeout at *
  unfold Station.Calls at calls
  cases phase : x.phase with
  | idle =>
    rw [show rawLines [] = [] from rfl, List.append_nil]
    exact both
  | getting =>
    rw [phase] at calls
    rw [show rawLines [] = [] from rfl, List.append_nil]
    exact ⟨{ both.into with }, { both.out with
      calls := calls
      acks := fun other member seqno intrflag text said => by
        obtain ⟨noFlag, a, isA, few, taken, gets⟩ := both.out.acks other member _ _ _ said
        exact ⟨noFlag, a, isA, few, taken, fun _ => gets (by rw [Station.ackonly, phase])⟩ }⟩
  | sending message retry =>
    rw [phase] at calls unbroken
    dsimp only at unbroken ⊢
    split
    next more =>
      obtain ⟨_, m, _, isMessage⟩ := calls
      refine ⟨?_, both.out.resend phase⟩
      rw [isMessage]
      exact { message_unheard both.into m (Nat.mod_lt _ (by decide)) with }
    next last =>
      rw [if_neg last] at unbroken
      exact absurd (List.mem_append_right _ (List.mem_singleton_self _)) unbroken

end Both

/-! ### A run -/

theorem Station.results_comesBack (s : Station linelgh) (got : Got) :
    s.results <+: (s.comesBack got).results := by
  unfold Station.comesBack
  cases s.phase with
  | idle => exact List.prefix_rfl
  | getting => exact List.prefix_rfl
  | sending message retry => exact List.prefix_append _ _

theorem Station.Hears.results {s s' : Station linelgh} {written : List Byte}
    (hears : s.Hears raw s' written) : s.results <+: s'.results := by
  cases hears with
  | passes notEof notAck notNext => exact List.prefix_rfl
  | ends eof => exact s.results_comesBack _
  | acked waits intrflag text line => exact s.results_comesBack _
  | drops dropped => exact List.prefix_rfl
  | accepts gets intrflag code text notAck line => exact s.advance.sndAck.results_comesBack _
  | repeats intrflag code text notAck notNext line => exact List.prefix_rfl

theorem Station.results_timeout (s : Station linelgh) : s.results <+: s.timeout.1.results := by
  unfold Station.timeout
  cases s.phase with
  | idle => exact List.prefix_rfl
  | getting => exact List.prefix_rfl
  | sending message retry =>
    dsimp only
    split
    next => exact List.prefix_rfl
    next => exact List.prefix_append _ _

namespace System

/-- Both directions hold, seen from either side. -/
def Ways (s : System linelgh) : Prop :=
  ∀ side, Both (s.station side) (s.station (!side)) (s.line side) (s.line (!side))

variable {s s' : System linelgh} {side : Bool} {e : Event linelgh}

theorem Ways.of_side (side : Bool)
    (both : Both (s.station side) (s.station (!side)) (s.line side) (s.line (!side))) : s.Ways := by
  intro other
  by_cases same : other = side
  · rw [same]
    exact both
  · have across : other = !side := Bool.eq_not_of_ne same
    rw [across, Bool.not_not]
    exact both.swap

section

variable (s : System linelgh) (side : Bool) (out : Station linelgh × List Byte)
  (lines : List (List Byte))

@[simp] theorem put_station : (s.put side out).station side = out.1 := update_self ..

@[simp] theorem put_station_not : (s.put side out).station (!side) = s.station (!side) :=
  update_of_ne (by simp) ..

@[simp] theorem put_line : (s.put side out).line side = s.line side :=
  update_of_ne (by simp) ..

@[simp] theorem put_line_not :
    (s.put side out).line (!side) = s.line (!side) ++ rawLines out.2 := update_self ..

@[simp] theorem setLine_station : (s.setLine side lines).station = s.station := rfl

@[simp] theorem setLine_line : (s.setLine side lines).line side = lines :=
  update_self ..

@[simp] theorem setLine_line_not : (s.setLine side lines).line (!side) = s.line (!side) :=
  update_of_ne (by simp) ..

end

theorem put_ways {out : Station linelgh × List Byte}
    (both : Both out.1 (s.station (!side)) (s.line side) (s.line (!side) ++ rawLines out.2)) :
    (s.put side out).Ways := by
  refine Ways.of_side side ?_
  rw [put_station, put_station_not, put_line, put_line_not]
  exact both

/-- What happens in a step: a station does something, reads a line, or the lines to it become
others. -/
inductive Acts (s : System linelgh) : Event linelgh → System linelgh → Prop
  | sndmsg (side : Bool) (m : Message linelgh) (idle : (s.station side).phase = .idle) :
      Acts s (.sndmsg side m) (s.put side ((s.station side).sndmsg m))
  | getmsg (side : Bool) (idle : (s.station side).phase = .idle) :
      Acts s (.getmsg side) (s.put side ({ s.station side with phase := .getting }, []))
  | dlintr (side : Bool) (reason : List Byte) :
      Acts s (.dlintr side reason) (s.put side ((s.station side).dlintr reason, []))
  | read (side : Bool) (raw : List Byte) (rest : List (List Byte))
      (line : s.line side = raw :: rest) (called : (s.station side).phase ≠ .idle)
      (met : (s.station side).accepts raw = false) :
      Acts s (.read side) ((s.setLine side rest).put side ((s.station side).hear raw))
  | meets (side : Bool) (raw : List Byte) (rest : List (List Byte))
      (line : s.line side = raw :: rest) (called : (s.station side).phase ≠ .idle)
      (met : (s.station side).accepts raw = true) :
      Acts s (.read side) (((s.setLine side rest).put side ((s.station side).hear raw)).meet side)
  | timeout (side : Bool) (called : (s.station side).phase ≠ .idle) :
      Acts s (.timeout side) (s.put side (s.station side).timeout)
  | lose (side : Bool) (place : Nat) (inside : place < (s.line side).length) :
      Acts s (.lose side place) (s.setLine side ((s.line side).eraseIdx place))
  | damage (side : Bool) (place : Nat) (raw : List Byte) (inside : place < (s.line side).length)
      (ignored : heard linelgh raw = .ignored) :
      Acts s (.damage side place raw) (s.setLine side ((s.line side).set place raw))

theorem acts (taken : s.act e = some s') :
    s.Acts e s' := by
  cases e with
  | sndmsg side m =>
    obtain ⟨idle, same⟩ := Option.ite_none_right_eq_some.mp taken
    rw [← Option.some.inj same]
    exact .sndmsg side m idle
  | getmsg side =>
    obtain ⟨idle, same⟩ := Option.ite_none_right_eq_some.mp taken
    rw [← Option.some.inj same]
    exact .getmsg side idle
  | dlintr side reason =>
    cases taken
    exact .dlintr side reason
  | read side =>
    have taken : s.read side = some s' := taken
    unfold System.read at taken
    cases line : s.line side with
    | nil =>
      rw [line] at taken
      cases taken
    | cons raw rest =>
      rw [line] at taken
      obtain ⟨called, same⟩ := Option.ite_none_left_eq_some.mp taken
      rw [← Option.some.inj same]
      cases met : (s.station side).accepts raw with
      | false => exact .read side raw rest line called met
      | true => exact .meets side raw rest line called met
  | timeout side =>
    obtain ⟨called, same⟩ := Option.ite_none_left_eq_some.mp taken
    rw [← Option.some.inj same]
    exact .timeout side called
  | lose side place =>
    obtain ⟨inside, same⟩ := Option.ite_none_right_eq_some.mp taken
    rw [← Option.some.inj same]
    exact .lose side place inside
  | damage side place raw =>
    obtain ⟨⟨inside, ignored⟩, same⟩ := Option.ite_none_right_eq_some.mp taken
    rw [← Option.some.inj same]
    exact .damage side place raw inside ignored

theorem put_results {out : Station linelgh × List Byte}
    (grows : (s.station side).results <+: out.1.results) (other : Bool) :
    (s.station other).results <+: ((s.put side out).station other).results := by
  by_cases same : other = side
  · rw [same, put_station]
    exact grows
  · have unchanged := put_station_not s side out
    rw [← Bool.eq_not_of_ne same] at unchanged
    exact unchanged ▸ List.prefix_rfl

theorem Acts.results (acts : s.Acts e s') (side : Bool) :
    (s.station side).results <+: (s'.station side).results := by
  cases acts with
  | sndmsg other m idle => exact put_results List.prefix_rfl side
  | getmsg other idle => exact put_results List.prefix_rfl side
  | dlintr other reason => exact put_results List.prefix_rfl side
  | read other raw rest line called met =>
    exact put_results (s := s.setLine other rest) ((s.station other).hear_hears raw).results side
  | meets other raw rest line called met =>
    exact put_results (s := s.setLine other rest) ((s.station other).hear_hears raw).results side
  | timeout other called => exact put_results (s.station other).results_timeout side
  | lose other place inside => exact List.prefix_rfl
  | damage other place raw inside ignored => exact List.prefix_rfl

theorem Acts.unbroken (acts : s.Acts e s') (unbroken : s'.Unbroken) :
    s.Unbroken :=
  fun side failed => unbroken side ((acts.results side).subset failed)

theorem Ways.read (ways : s.Ways) {raw : List Byte} {rest : List (List Byte)}
    (line : s.line side = raw :: rest) (called : (s.station side).phase ≠ .idle)
    (kept : (s.station side).drops raw = false) :
    ((s.setLine side rest).put side ((s.station side).hear raw)).Ways := by
  refine put_ways ?_
  rw [setLine_station, setLine_line, setLine_line_not]
  have both := ways side
  rw [line] at both
  exact both.hear called kept

theorem Acts.ways (acts : s.Acts e s') (apart : s.Apart e) (unbroken : s'.Unbroken)
    (ways : s.Ways) : s'.Ways := by
  cases acts with
  | sndmsg side m idle => exact put_ways ((ways side).sndmsg idle m)
  | getmsg side idle =>
    refine put_ways ?_
    rw [show rawLines [] = [] from rfl, List.append_nil]
    exact (ways side).getmsg idle
  | dlintr side reason => exact apart.elim
  | read side raw rest line called met =>
    have apart : s.drops side = false := apart
    unfold System.drops at apart
    rw [line] at apart
    exact ways.read line called apart
  | meets side raw rest line called met =>
    have apart : s.drops side = false := apart
    unfold System.drops at apart
    rw [line] at apart
    exact ways.read line called apart
  | timeout side called =>
    refine put_ways ((ways side).timeout ?_)
    have whole := unbroken side
    rw [put_station] at whole
    exact whole
  | lose side place inside =>
    refine Ways.of_side side ?_
    rw [setLine_station, setLine_line, setLine_line_not]
    exact ⟨(ways side).into.lose (List.eraseIdx_sublist _ _) (List.Sublist.refl _),
      (ways side).out.lose (List.Sublist.refl _) (List.eraseIdx_sublist _ _)⟩
  | damage side place raw inside ignored =>
    refine Ways.of_side side ?_
    rw [setLine_station, setLine_line, setLine_line_not]
    exact ⟨((ways side).into.damage ignored place).1, ((ways side).out.damage ignored place).2⟩

theorem Ways.delivers (ways : s.Ways) : s.Delivers := by
  intro _ side
  have way := (ways side).into
  refine ⟨?_, fun k ok => ?_⟩
  · rw [way.whole]
    exact List.take_prefix _ _
  · obtain ⟨inside, _⟩ := List.getElem?_eq_some_iff.mp ok
    have calls := way.calls
    have ahead := way.ahead
    unfold Station.Calls at calls
    cases phase : (s.station (!side)).phase with
    | idle =>
      rw [phase] at calls
      have calls : _ ∧ _ := calls
      omega
    | getting =>
      rw [phase] at calls
      have calls : _ ∧ _ := calls
      omega
    | sending message retry =>
      rw [phase] at calls
      have count := calls.1
      omega

/-- The messages arrive whole and in order in every run in which no message comes to a station that
waits for an acknowledgement. -/
theorem link_delivers {history : List (Event linelgh)} {s : System linelgh}
    (run : Transition.Run (Transition.Guarded (Transition.Takes act) Apart) start history s) :
    s.Delivers := by
  intro unbroken
  have ways := run.always (fun s => s.Unbroken → s.Ways) (fun _ _ => Both.start)
    fun state e next held taken unbroken =>
      (acts taken.2).ways taken.1 unbroken (held ((acts taken.2).unbroken unbroken))
  exact (ways unbroken).delivers unbroken

/-- A message whose acknowledgement is lost is repeated, acknowledged again and taken once; then one
goes the other way. -/
def repeated : List (Event 32) :=
  [.getmsg true, .sndmsg false { code := 0x31, text := [0x68, 0x69] }, .damage true 0 [0x58],
    .read true, .timeout false, .read true, .lose false 0, .timeout false, .getmsg true,
    .read true, .read false, .getmsg false, .timeout true, .sndmsg true { code := 0x31, text := [] },
    .read false, .read true]

theorem link_delivers_repeated : (Transition.last act start repeated).Delivers :=
  link_delivers (Transition.run_can (by decide +kernel))

/-- Both stations send at the same time. Each drops the message of the other and acknowledges its
repeat, so that both calls return OK; the next message is the first that is returned. -/
def crossing : List (Event 32) :=
  [.sndmsg false { code := 0x31, text := [0x61] }, .sndmsg true { code := 0x31, text := [0x62] },
    .read false, .read true, .timeout false, .timeout true, .read false, .read true, .read false,
    .read true, .sndmsg true { code := 0x31, text := [0x63] }, .getmsg false, .read false]

theorem crossing_drops : ∃ s : System 32, Transition.Run (Transition.Takes act) start crossing s ∧
    s.Unbroken ∧ (s.station true).results = [.ok] ∧
    ¬ (s.station false).returned <+: (s.station true).passed.map Message.seen :=
  ⟨_, Transition.run_all (by decide +kernel), by unfold Unbroken; decide +kernel,
    by decide +kernel, by decide +kernel⟩

end System

end NetworkUnix.Mmdf
