/-
This file models the writes to the raw message interface: `NetOut`, which puts a
leader in front of the segment in TcpOut and writes both, with the simulation of
a flaky gateway, and the parts of `PsipOut` that finish a write and that send
the segment of FlkBuff. A write may take any part of what it is given, or fail.
What stands in a segment is not looked at. Every segment of which anything is
written is written whole before TcpOut is used again.
-/

import NetworkUnix.Lib.Memory
import NetworkUnix.UserTcp.Psipout

namespace NetworkUnix.UserTcp.Output

open Memory

/-- The length of a BSL leader, which is where a segment starts in a buffer. -/
def bsllngth : Nat := 16

/-- TCPOTSZ -/
def tcpotsz : Nat := 700

/-- Where the leader of the raw message interface starts, which ends where the segment starts; the
leader has `anLngth` words behind the word with the length. -/
def leaderAt (anLngth : Nat) : Nat := bsllngth - anLngth * 2 - 2

/-- A word in a buffer, its low byte first. -/
def word (buffer : Nat → Byte) (place : Nat) : Nat :=
  (buffer place).toNat + 256 * (buffer (place + 1)).toNat

/-- The bytes of a word. -/
def bytesOf (value : Nat) : List Byte := [BitVec.ofNat 8 value, BitVec.ofNat 8 (value / 256)]

/-- A segment as it is handed to `NetOut`: what is copied to TcpOut in front of it, the leader that
it gets, and its text as it is written, the bytes of its headers swapped and perhaps one of them
smashed. -/
structure Segment where
  bsl : List Byte
  leader : List Byte
  text : List Byte

/-- What is written for a segment: its length, its leader and its text. -/
def Segment.image (seg : Segment) : List Byte :=
  bytesOf (2 + seg.leader.length + seg.text.length) ++ (seg.leader ++ seg.text)

/-- What `NetOut` does with a segment: it is for this host and is read again, it is lost, it is kept
to be sent later, or it is written, perhaps also kept for a delayed duplicate; a write may fail. -/
inductive Fate
  | echoed
  | lost
  | reordered
  | written (dup : Bool) (count : Option Nat)

/-- What `PsipOut` does once nothing is left to be written: it sends the segment of FlkBuff; it has
nothing to send, and the block stays if there is more data; or it sends a segment, behind which the
connection is aborted or more data is to be sent. -/
inductive Turn
  | flaky (count : Option Nat)
  | nothing (more : Bool)
  | segment (seg : Segment) (fate : Fate) (aborts more : Bool)

/-- The return code of `PsipOut` behind a segment. -/
def returnCode (aborts more partWr : Bool) : WorkRet :=
  if aborts then .abort else if more then .requeue else if partWr then .keep else .remove

/-- The state of the output: the two buffers, what is left of a write, whether FlkBuff is in use,
the bytes written to NetFdsW and the segments that `NetOut` has built. -/
structure Net where
  tcpOut : Nat → Byte
  flkBuff : Nat → Byte
  flkFlag : Bool
  partWr : Bool
  outPtr : Nat
  outCnt : Nat
  wire : List Byte
  built : List (List Byte)

namespace Net

/-- The start: the buffers are cleared. -/
def init : Net := ⟨fun _ => 0, fun _ => 0, false, false, 0, 0, [], []⟩

/-- The first bytes at OutPtr. -/
def out (s : Net) (count : Nat) : List Byte := window s.tcpOut s.outPtr count

/-- A write that takes so many bytes. -/
def write (count : Nat) (s : Net) : Net :=
  let s := { s with wire := s.wire ++ s.out count }
  if count = s.outCnt then s
  else { s with outPtr := s.outPtr + count, outCnt := s.outCnt - count, partWr := true }

/-- A segment is copied to TcpOut. -/
def load (seg : Segment) (s : Net) : Net :=
  { s with tcpOut := put seg.text bsllngth (put seg.bsl 0 s.tcpOut) }

/-- The leader is filled in. -/
def lead (anLngth : Nat) (seg : Segment) (s : Net) : Net :=
  let tcpOut := put seg.image (leaderAt anLngth) s.tcpOut
  { s with
    tcpOut
    outPtr := leaderAt anLngth
    outCnt := word tcpOut (leaderAt anLngth)
    built := seg.image :: s.built }

/-- TcpOut is copied to FlkBuff. -/
def save (anLngth : Nat) (s : Net) : Net :=
  { s with
    flkBuff := copy s.tcpOut (leaderAt anLngth) s.flkBuff (leaderAt anLngth)
      (word s.tcpOut (leaderAt anLngth))
    flkFlag := true }

/-- NetOut, for a segment that is copied to TcpOut before the call. -/
def netOut (anLngth : Nat) (seg : Segment) (fate : Fate) (s : Net) : Net :=
  match fate with
  | .echoed => s.load seg
  | .lost => (s.load seg).lead anLngth seg
  | .reordered => ((s.load seg).lead anLngth seg).save anLngth
  | .written dup count =>
    let led := (s.load seg).lead anLngth seg
    let led := if dup then led.save anLngth else led
    match count with
    | none => led
    | some count => led.write count

/-- The part of `PsipOut` that sends the segment of FlkBuff. -/
def flaky (anLngth : Nat) (count : Option Nat) (s : Net) : Net :=
  let outCnt := word s.flkBuff (leaderAt anLngth)
  let s := { s with
    tcpOut := copy s.flkBuff (leaderAt anLngth) s.tcpOut (leaderAt anLngth) outCnt
    outPtr := leaderAt anLngth
    outCnt
    flkFlag := false }
  match count with
  | none => { s with partWr := true }
  | some count => s.write count

/-- The part of `PsipOut` that writes what is left of the previous segment. -/
def finish (count : Option Nat) (s : Net) : Net :=
  match count with
  | none => s
  | some count => { s.write count with partWr := decide (count ≠ s.outCnt) }

/-- The part of `PsipOut` behind that, with the return code. -/
def turn (anLngth : Nat) (turn : Turn) (s : Net) : Net × WorkRet :=
  match turn with
  | .flaky count =>
    let next := s.flaky anLngth count
    (next, if next.partWr then .keep else .remove)
  | .nothing more => (s, if more then .keep else .remove)
  | .segment seg fate aborts more =>
    let next := s.netOut anLngth seg fate
    (next, returnCode aborts more next.partWr)

/-- PsipOut -/
def psipOut (anLngth : Nat) (count : Option Nat) (turn : Turn) (s : Net) : Net × WorkRet :=
  if s.partWr then
    let next := s.finish count
    if next.partWr then (next, .keep) else next.turn anLngth turn
  else s.turn anLngth turn

/-- A segment that another part of the program sends, which does not do so while something is left
to be written. -/
def unlessPart (anLngth : Nat) (seg : Segment) (fate : Fate) (s : Net) : Net :=
  if s.partWr then s else s.netOut anLngth seg fate

/-! ### What can be asked of the system -/

/-- A write takes no more than it is given. -/
def takes (count : Option Nat) (outCnt : Nat) : Bool :=
  match count with
  | none => true
  | some count => decide (count ≤ outCnt)

/-- A leader has its length, and what is in front of a segment does not reach into it. -/
def shaped (anLngth : Nat) (seg : Segment) : Bool :=
  decide (seg.leader.length = anLngth * 2) && decide (seg.bsl.length ≤ bsllngth)

/-- What `NetOut` can do with a segment: FlkBuff is used only if it is free. -/
def mayFate (seg : Segment) (fate : Fate) (s : Net) : Bool :=
  match fate with
  | .echoed | .lost => true
  | .reordered => !s.flkFlag
  | .written dup count => !(dup && s.flkFlag) && takes count seg.image.length

/-- What `PsipOut` can do when nothing is left to be written. -/
def mayTurn (anLngth : Nat) (turn : Turn) (s : Net) : Bool :=
  match turn with
  | .flaky count => takes count (word s.flkBuff (leaderAt anLngth))
  | .nothing _ => true
  | .segment seg fate _ _ => shaped anLngth seg && s.mayFate seg fate

/-- The segment fits in TcpOut. -/
def fits (seg : Segment) : Bool := decide (bsllngth + seg.text.length ≤ tcpotsz)

/-- The segment of a turn fits in TcpOut. -/
def fitsTurn (turn : Turn) : Bool :=
  match turn with
  | .segment seg _ _ _ => fits seg
  | _ => true

/-! ### Segments are written whole -/

/-- What is left of a segment of which a part is written. -/
def remaining (s : Net) : List Byte := if s.partWr then s.out s.outCnt else []

/-- A segment that `NetOut` has built, or nothing at all. -/
def Known (s : Net) (image : List Byte) : Prop := image = [] ∨ image ∈ s.built

/-- What is written and what is left to be written is a row of segments, the last of which ends with
what is left; and a segment is in FlkBuff. -/
structure Whole (anLngth : Nat) (s : Net) : Prop where
  wire : ∃ whole last, (∀ image ∈ last :: whole, s.Known image) ∧
    s.wire ++ s.remaining = whole.flatten ++ last ∧ s.remaining <:+ last
  flk : s.Known (window s.flkBuff (leaderAt anLngth) (word s.flkBuff (leaderAt anLngth)))

variable {anLngth : Nat} {s : Net}

theorem init_whole (anLngth : Nat) : init.Whole anLngth where
  wire := ⟨[], [], by simp [Known], rfl, List.suffix_refl _⟩
  flk := .inl rfl

theorem remaining_of_all (all : s.partWr = false) : s.remaining = [] := by
  unfold remaining
  rw [all]
  rfl

theorem remaining_of_part (part : s.partWr = true) : s.remaining = s.out s.outCnt := by
  unfold remaining
  rw [part]
  rfl

theorem word_put {value : Nat} (small : value < 65536) (rest : List Byte) (place : Nat)
    (buffer : Nat → Byte) : word (put (bytesOf value ++ rest) place buffer) place = value := by
  have low : put (bytesOf value ++ rest) place buffer (place + 0) = _ :=
    put_at _ place buffer (by simp [bytesOf])
  have high : put (bytesOf value ++ rest) place buffer (place + 1) = _ :=
    put_at _ place buffer (by simp [bytesOf])
  unfold word
  rw [Nat.add_zero] at low
  rw [low, high]
  simp only [bytesOf, List.cons_append, List.getElem_cons_zero, List.getElem_cons_succ,
    BitVec.toNat_ofNat]
  omega

theorem length_image (seg : Segment) :
    seg.image.length = 2 + seg.leader.length + seg.text.length := by
  simp [Segment.image, bytesOf]
  omega

variable {seg : Segment} {image : List Byte} {next : Net} {count : Option Nat}

theorem lead_out (isShaped : shaped anLngth seg = true) (isFit : fits seg = true)
    (short : anLngth ≤ 6) (s : Net) :
    (s.lead anLngth seg).outCnt = seg.image.length ∧
      (s.lead anLngth seg).out seg.image.length = seg.image := by
  simp only [shaped, fits, Bool.and_eq_true, decide_eq_true_eq] at isShaped isFit
  unfold bsllngth tcpotsz at isFit
  constructor
  · rw [length_image]
    exact word_put (by omega) _ _ _
  · exact window_put_self seg.image (leaderAt anLngth) s.tcpOut

/-- A state that differs in what is written and what is left as it would behind a segment that is
ready to be written. -/
structure Ready (anLngth : Nat) (s next : Net) (image : List Byte) : Prop where
  wire : next.wire = s.wire
  known : ∀ other, s.Known other → next.Known other
  isKnown : next.Known image
  out : next.outCnt = image.length ∧ next.out image.length = image
  flk : next.Known (window next.flkBuff (leaderAt anLngth) (word next.flkBuff (leaderAt anLngth)))

theorem Ready.part (ready : Ready anLngth s next image) (whole : s.Whole anLngth)
    (all : s.partWr = false) :
    { next with partWr := true }.Whole anLngth := by
  obtain ⟨segments, last, known, wire, -⟩ := whole.wire
  rw [remaining_of_all all, List.append_nil] at wire
  have isOut : next.out next.outCnt = image := by rw [ready.out.1, ready.out.2]
  refine ⟨⟨segments ++ [last], image, ?_, ?_, ?_⟩, ready.flk⟩
  · intro other member
    rcases List.mem_cons.mp member with rfl | before
    · exact ready.isKnown
    · refine ready.known other (known other ?_)
      simpa [or_comm] using before
  · show next.wire ++ next.out next.outCnt = _
    rw [isOut, ready.wire, wire, List.flatten_append, List.flatten_singleton]
  · exact (show next.out next.outCnt = image from isOut) ▸ List.suffix_refl _

theorem Ready.dropped (ready : Ready anLngth s next image) (whole : s.Whole anLngth)
    (all : s.partWr = false) (still : next.partWr = false) :
    next.Whole anLngth := by
  obtain ⟨segments, last, known, wire, -⟩ := whole.wire
  rw [remaining_of_all all, List.append_nil] at wire
  refine ⟨⟨segments, last, fun other member => ready.known other (known other member), ?_, ?_⟩,
    ready.flk⟩
  · rw [remaining_of_all still, List.append_nil, ready.wire, wire]
  · rw [remaining_of_all still]
    exact List.nil_suffix

theorem write_left (count : Nat) (s : Net) :
    (s.write count).wire = s.wire ++ s.out count ∧
      { s.write count with partWr := decide (count ≠ s.outCnt) }.remaining =
        window s.tcpOut (s.outPtr + count) (s.outCnt - count) := by
  unfold write
  dsimp only
  split
  next same =>
    refine ⟨rfl, ?_⟩
    rw [remaining_of_all (by simpa using same), same, Nat.sub_self, window_zero]
  next other =>
    refine ⟨rfl, ?_⟩
    rw [remaining_of_part (by simpa using other)]
    rfl

theorem finish_whole (whole : s.Whole anLngth) (part : s.partWr = true)
    (may : takes count s.outCnt = true) : (s.finish count).Whole anLngth := by
  cases count with
  | none => exact whole
  | some count =>
    obtain ⟨segments, last, known, wire, left⟩ := whole.wire
    have inside : count ≤ s.outCnt := by simpa [takes] using may
    obtain ⟨written, rest⟩ := s.write_left count
    have cut : s.remaining =
        s.out count ++ window s.tcpOut (s.outPtr + count) (s.outCnt - count) := by
      rw [remaining_of_part part]
      unfold out
      rw [← window_append, Nat.add_sub_of_le inside]
    have built : (s.write count).built = s.built ∧ (s.write count).flkBuff = s.flkBuff := by
      unfold write
      dsimp only
      split <;> exact ⟨rfl, rfl⟩
    have same : ∀ image, s.Known image → (s.finish (some count)).Known image := by
      intro image isKnown
      show image = [] ∨ image ∈ (s.write count).built
      rw [built.1]
      exact isKnown
    refine ⟨⟨segments, last, fun image member => same image (known image member), ?_, ?_⟩, ?_⟩
    · rw [← wire, cut, ← List.append_assoc, ← written]
      exact congrArg ((s.write count).wire ++ ·) rest
    · refine List.IsSuffix.trans ?_ left
      rw [cut]
      exact rest ▸ List.suffix_append _ _
    · refine same _ ?_
      show s.Known (window (s.write count).flkBuff _ (word (s.write count).flkBuff _))
      rw [built.2]
      exact whole.flk

theorem write_eq_finish (count : Nat) (s : Net) (all : s.partWr = false) :
    s.write count = { s with partWr := true }.finish (some count) := by
  unfold finish write
  dsimp only
  split
  next same =>
    have done : decide (count ≠ s.outCnt) = false := by simpa using same
    rw [done, ← all]
    rfl
  next other =>
    have part : decide (count ≠ s.outCnt) = true := by simpa using other
    rw [part]
    rfl

theorem Ready.write {count : Nat} (ready : Ready anLngth s next image) (whole : s.Whole anLngth)
    (all : s.partWr = false) (still : next.partWr = false) (inside : count ≤ image.length) :
    (next.write count).Whole anLngth := by
  rw [write_eq_finish count next still]
  refine finish_whole (ready.part whole all) rfl ?_
  show decide (count ≤ next.outCnt) = true
  rw [ready.out.1]
  exact decide_eq_true inside

/-! ### NetOut and PsipOut -/

theorem lead_ready (isShaped : shaped anLngth seg = true) (isFit : fits seg = true)
    (short : anLngth ≤ 6) (whole : s.Whole anLngth) :
    Ready anLngth s ((s.load seg).lead anLngth seg) seg.image ∧
      Ready anLngth s (((s.load seg).lead anLngth seg).save anLngth) seg.image := by
  obtain ⟨outCnt, out⟩ := lead_out isShaped isFit short (s.load seg)
  have known : ∀ other, s.Known other → ((s.load seg).lead anLngth seg).Known other :=
    fun other => Or.imp id (List.mem_cons_of_mem _)
  have isKnown : ((s.load seg).lead anLngth seg).Known seg.image := .inr List.mem_cons_self
  refine ⟨⟨rfl, known, isKnown, ⟨outCnt, out⟩, known _ whole.flk⟩,
    ⟨rfl, known, isKnown, ⟨outCnt, out⟩, ?_⟩⟩
  have count : word ((s.load seg).lead anLngth seg).tcpOut (leaderAt anLngth) =
      seg.image.length := outCnt
  have copied : ∀ place, place = leaderAt anLngth ∨ place = leaderAt anLngth + 1 →
      (((s.load seg).lead anLngth seg).save anLngth).flkBuff place =
        ((s.load seg).lead anLngth seg).tcpOut place := by
    intro place header
    have long : 2 ≤ seg.image.length := by
      rw [length_image]
      omega
    show copy _ _ _ _ (word ((s.load seg).lead anLngth seg).tcpOut (leaderAt anLngth)) place = _
    rw [count]
    unfold copy
    rw [if_pos (by omega)]
    congr 1
    omega
  have sameWord : word (((s.load seg).lead anLngth seg).save anLngth).flkBuff (leaderAt anLngth) =
      seg.image.length := by
    rw [← count]
    unfold word
    rw [copied _ (.inl rfl), copied _ (.inr rfl)]
  have sameImage : window (((s.load seg).lead anLngth seg).save anLngth).flkBuff
      (leaderAt anLngth) seg.image.length = seg.image := by
    refine Eq.trans ?_ out
    show window (copy _ _ _ _ (word ((s.load seg).lead anLngth seg).tcpOut (leaderAt anLngth))) _ _ =
      window ((s.load seg).lead anLngth seg).tcpOut (leaderAt anLngth) _
    rw [count]
    exact window_copy_self _ _ _ _ _
  rw [sameWord, sameImage]
  exact isKnown

theorem netOut_whole {fate : Fate} (whole : s.Whole anLngth) (all : s.partWr = false)
    (isShaped : shaped anLngth seg = true) (isFit : fits seg = true) (short : anLngth ≤ 6)
    (may : s.mayFate seg fate = true) :
    (s.netOut anLngth seg fate).Whole anLngth := by
  obtain ⟨ready, saved⟩ := lead_ready isShaped isFit short whole
  cases fate with
  | echoed =>
    obtain ⟨segments, last, known, wire, left⟩ := whole.wire
    rw [remaining_of_all all] at wire left
    have none : (s.load seg).remaining = [] := remaining_of_all all
    exact ⟨⟨segments, last, known, (congrArg (s.wire ++ ·) none).trans wire, none ▸ left⟩,
      whole.flk⟩
  | lost => exact ready.dropped whole all all
  | reordered => exact saved.dropped whole all all
  | written dup count =>
    have each : ∀ next : Net, Ready anLngth s next seg.image → next.partWr = false →
        (match count with
          | none => next
          | some count => next.write count).Whole anLngth := by
      intro next isReady still
      cases count with
      | none => exact isReady.dropped whole all still
      | some count =>
        refine isReady.write whole all still ?_
        have inside := (Bool.and_eq_true _ _).mp may
        exact of_decide_eq_true inside.2
    cases dup with
    | false => exact each _ ready all
    | true => exact each _ saved all

theorem flaky_whole (whole : s.Whole anLngth) (all : s.partWr = false)
    (may : takes count (word s.flkBuff (leaderAt anLngth)) = true) :
    (s.flaky anLngth count).Whole anLngth := by
  have ready : Ready anLngth s
      { s with
        tcpOut := copy s.flkBuff (leaderAt anLngth) s.tcpOut (leaderAt anLngth)
          (word s.flkBuff (leaderAt anLngth))
        outPtr := leaderAt anLngth
        outCnt := word s.flkBuff (leaderAt anLngth)
        flkFlag := false }
      (window s.flkBuff (leaderAt anLngth) (word s.flkBuff (leaderAt anLngth))) := by
    refine ⟨rfl, fun _ known => known, whole.flk, ⟨(length_window _ _ _).symm, ?_⟩, whole.flk⟩
    rw [length_window]
    exact window_copy_self _ _ _ _ _
  cases count with
  | none => exact ready.part whole all
  | some count =>
    refine ready.write whole all all ?_
    rw [length_window]
    exact of_decide_eq_true may

theorem write_wire (count : Nat) (s : Net) : s.wire <+: (s.write count).wire := by
  rw [(s.write_left count).1]
  exact List.prefix_append _ _

theorem netOut_wire (anLngth : Nat) (seg : Segment) (fate : Fate) (s : Net) :
    s.wire <+: (s.netOut anLngth seg fate).wire := by
  cases fate with
  | echoed | lost | reordered => exact List.prefix_refl _
  | written dup count =>
    have led : (if dup then ((s.load seg).lead anLngth seg).save anLngth
        else (s.load seg).lead anLngth seg).wire = s.wire := by
      cases dup <;> rfl
    cases count with
    | none => exact led ▸ List.prefix_refl _
    | some count => exact led ▸ write_wire count _

theorem turn_wire (anLngth : Nat) (turn : Turn) (s : Net) :
    s.wire <+: (s.turn anLngth turn).1.wire := by
  cases turn with
  | flaky count =>
    cases count with
    | none => exact List.prefix_refl _
    | some count =>
      have after := write_wire count { s with
        tcpOut := copy s.flkBuff (leaderAt anLngth) s.tcpOut (leaderAt anLngth)
          (word s.flkBuff (leaderAt anLngth))
        outPtr := leaderAt anLngth
        outCnt := word s.flkBuff (leaderAt anLngth)
        flkFlag := false }
      exact after
  | nothing more => exact List.prefix_refl _
  | segment seg fate aborts more => exact netOut_wire anLngth seg fate s

theorem turn_whole {turn : Turn} (whole : s.Whole anLngth) (all : s.partWr = false)
    (short : anLngth ≤ 6) (may : s.mayTurn anLngth turn = true) (isFit : fitsTurn turn = true) :
    (s.turn anLngth turn).1.Whole anLngth := by
  cases turn with
  | flaky count => exact flaky_whole whole all may
  | nothing more => exact whole
  | segment seg fate aborts more =>
    obtain ⟨isShaped, mayFate⟩ := (Bool.and_eq_true _ _).mp may
    exact netOut_whole whole all isShaped isFit short mayFate

theorem finish_kept (count : Option Nat) (s : Net) :
    (s.finish count).tcpOut = s.tcpOut ∧ (s.finish count).flkFlag = s.flkFlag ∧
      (s.finish count).flkBuff = s.flkBuff := by
  cases count with
  | none => exact ⟨rfl, rfl, rfl⟩
  | some count =>
    unfold finish write
    dsimp only
    split <;> exact ⟨rfl, rfl, rfl⟩

theorem finish_done (part : s.partWr = true) (done : (s.finish count).partWr = false) :
    (s.finish count).wire = s.wire ++ s.remaining := by
  cases count with
  | none =>
    rw [show s.finish none = s from rfl, part] at done
    cases done
  | some count =>
    have all : count = s.outCnt := by simpa [finish] using done
    rw [remaining_of_part part, ← all]
    exact (s.write_left count).1

theorem psipOut_whole {turn : Turn} (whole : s.Whole anLngth) (short : anLngth ≤ 6)
    (may : takes count s.outCnt = true) (mayTurn : s.mayTurn anLngth turn = true)
    (isFit : fitsTurn turn = true) :
    (s.psipOut anLngth count turn).1.Whole anLngth ∧
      (s.partWr = true → (s.psipOut anLngth count turn).1.tcpOut = s.tcpOut ∨
        s.wire ++ s.remaining <+: (s.psipOut anLngth count turn).1.wire) := by
  unfold psipOut
  split
  next part =>
    have finished := finish_whole whole part may
    obtain ⟨tcpOut, flkFlag, flkBuff⟩ := s.finish_kept count
    dsimp only
    split
    next => exact ⟨finished, fun _ => .inl tcpOut⟩
    next done =>
      have all : (s.finish count).partWr = false := by simpa using done
      have same : (s.finish count).mayTurn anLngth turn = s.mayTurn anLngth turn := by
        unfold Net.mayTurn mayFate
        rw [flkFlag, flkBuff]
      refine ⟨turn_whole finished all short (same ▸ mayTurn) isFit, fun _ => .inr ?_⟩
      rw [← finish_done part all]
      exact turn_wire anLngth turn _
  next none =>
    have all : s.partWr = false := by simpa using none
    refine ⟨turn_whole whole all short mayTurn isFit, fun part => ?_⟩
    rw [all] at part
    cases part

theorem Whole.segments (whole : s.Whole anLngth) :
    ∃ segments : List (List Byte), (∀ image ∈ segments, image ∈ s.built) ∧
      s.wire ++ s.remaining = segments.flatten ∧ s.remaining <:+ segments.getLast?.getD [] := by
  obtain ⟨segments, last, known, wire, left⟩ := whole.wire
  have without : ∀ list : List (List Byte), (∀ image ∈ list, s.Known image) →
      ∃ full : List (List Byte), (∀ image ∈ full, image ∈ s.built) ∧ list.flatten = full.flatten := by
    intro list isKnown
    refine ⟨list.filter fun image => !decide (image = []), fun image member => ?_, ?_⟩
    · obtain ⟨inside, full⟩ := List.mem_filter.mp member
      exact (isKnown image inside).resolve_left (by simpa using full)
    · induction list with
      | nil => rfl
      | cons image rest inductionHypothesis =>
        have others := inductionHypothesis fun image inside =>
          isKnown image (List.mem_cons_of_mem _ inside)
        by_cases empty : image = []
        · simp [empty, others]
        · simp [empty, others]
  obtain ⟨full, isBuilt, same⟩ := without segments fun image member =>
    known image (List.mem_cons_of_mem _ member)
  rcases known last List.mem_cons_self with empty | lastBuilt
  · rw [empty, List.suffix_nil] at left
    refine ⟨full, isBuilt, ?_, ?_⟩
    · rw [wire, empty, List.append_nil, same]
    · rw [left]
      exact List.nil_suffix
  · refine ⟨full ++ [last], ?_, ?_, ?_⟩
    · intro image member
      rcases List.mem_append.mp member with before | isLast
      · exact isBuilt image before
      · rw [List.mem_singleton.mp isLast]
        exact lastBuilt
    · rw [wire, same, List.flatten_append, List.flatten_singleton]
    · rw [List.getLast?_concat]
      exact left

end Net

end NetworkUnix.UserTcp.Output
