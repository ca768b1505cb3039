/-
This file models how the network mailer of MMDF reads the replies of an FTP server, and says for
which streams it keeps in step with them. The end of a long reply is known by its number alone,
what follows the number is looked up among the printable characters, and a stream that ends within
a long reply is not told from its end.
-/

import Mathlib.Logic.Function.Basic
import Mathlib.Data.List.GetD
import Mathlib.Data.List.TakeWhile

namespace NetworkUnix.Mmdf.Netsnd

open Function

abbrev Byte := BitVec 8

/-- ERRLINSIZ; `errline` has one more character. -/
def errlinsiz : Nat := 300

def newline : Byte := 0o12
def hyphen : Byte := 0x2D
def blank : Byte := 0x20

def isDigit (c : Byte) : Bool := decide (0x30 ≤ c) && decide (c ≤ 0x39)

/-- A character that is stored. -/
def printable (c : Byte) : Bool := decide (0x20 ≤ c) && decide (c < 0x7f)

/-- The number at the front of a text, of three digits at most. -/
def numeral (text : List Byte) : Nat :=
  ((text.take 3).takeWhile isDigit).foldl (fun code c => code * 10 + (c.toNat - 0x30)) 0

/-- `getcod1` with `errline` filled up to `i`: the number, or nothing at the end of the stream, what
is in `errline` then, and what is left of the stream. -/
def getcod1 (errline : Nat → Byte) (i : Nat) : List Byte → Option Nat × (Nat → Byte) × List Byte
  | [] => (none, errline, [])
  | c :: rest =>
    if c = newline then
      let errline := update errline i 0
      (some (numeral [errline 0, errline 1, errline 2]), errline, rest)
    else if i < errlinsiz ∧ printable c = true then getcod1 (update errline i c) (i + 1) rest
    else getcod1 errline i rest

theorem getcod1_shorter (errline : Nat → Byte) (i : Nat) (c : Byte) (stream : List Byte) :
    (getcod1 errline i (c :: stream)).2.2.length ≤ stream.length := by
  induction stream generalizing errline i c with
  | nil =>
    unfold getcod1
    split
    · exact Nat.le_refl _
    · split <;> exact Nat.le_refl _
  | cons next stream inductionHypothesis =>
    unfold getcod1
    split
    · exact Nat.le_refl _
    · split <;> exact Nat.le_succ_of_le (inductionHypothesis _ _ _)

/-- The loop of `getcode` over the further lines of a long reply. -/
def skip (code : Option Nat) (errline : Nat → Byte) (stream : List Byte) :
    (Nat → Byte) × List Byte :=
  match stream with
  | [] => (errline, [])
  | c :: rest =>
    let read := getcod1 errline 0 (c :: rest)
    if read.1 ≠ code ∧ read.1 ≠ none then skip code read.2.1 read.2.2 else read.2
termination_by stream.length
decreasing_by exact Nat.lt_succ_of_le (getcod1_shorter errline 0 c rest)

/-- getcode -/
def getcode (errline : Nat → Byte) (stream : List Byte) : Option Nat × (Nat → Byte) × List Byte :=
  let read := getcod1 errline 0 stream
  if read.2.1 3 = hyphen then (read.1, skip read.1 read.2.1 read.2.2) else read

/-! ### Replies -/

/-- A line without its end, and three digits. -/
abbrev Text := { text : List Byte // newline ∉ text }
abbrev Number := { ddd : List Byte // ddd.length = 3 ∧ ddd.all isDigit = true }

/-- The further lines of a long reply, which do not begin with its number and a blank. -/
def Inside (ddd : Number) (middle : List Text) : Prop :=
  ∀ text ∈ middle, ¬ ddd.1 ++ [blank] <+: text.1

/-- A reply: a line, or a long one from its first line to its last. -/
inductive Reply
  | line (ddd : Number) (rest : Text) (short : rest.1.head? ≠ some hyphen)
  | long (ddd : Number) (first : Text) (middle : List Text) (inside : Inside ddd middle)
      (last : Text)

/-- What a stream ends with: a line that is not complete, maybe empty, or a long reply that is not.
-/
inductive Tail
  | part (text : Text)
  | long (ddd : Number) (first : Text) (middle : List Text) (inside : Inside ddd middle)
      (cut : Text)

/-- Whole lines as they are sent. -/
def sent (lines : List (List Byte)) : List Byte := lines.flatMap (· ++ [newline])

def Reply.bytes : Reply → List Byte
  | .line ddd rest _ => sent [ddd.1 ++ rest.1]
  | .long ddd first middle _ last =>
    sent ([ddd.1 ++ hyphen :: first.1] ++ middle.map (·.1) ++ [ddd.1 ++ blank :: last.1])

def Reply.number : Reply → Nat
  | .line ddd _ _ | .long ddd _ _ _ _ => numeral ddd.1

def Tail.bytes : Tail → List Byte
  | .part text => text.1
  | .long ddd first middle _ cut =>
    sent ([ddd.1 ++ hyphen :: first.1] ++ middle.map (·.1)) ++ cut.1

/-- What comes from the server. -/
def stream (replies : List Reply) (tail : Tail) : List Byte :=
  replies.flatMap Reply.bytes ++ tail.bytes

/-- Each call consumes one reply and returns its number, and the call after the last one finds the
end of the stream. -/
def InStep (tail : Tail) : (Nat → Byte) → List Reply → Prop
  | errline, [] => (getcode errline (stream [] tail)).1 = none
  | errline, reply :: replies =>
    let read := getcode errline (stream (reply :: replies) tail)
    read.1 = some reply.number ∧ read.2.2 = stream replies tail ∧ InStep tail read.2.1 replies

/-- A reply is told from what comes `after` it by what is looked at. -/
def Reply.Told (after : List Byte) : Reply → Prop
  | .line _ rest _ => (rest.1.filter printable).head? ≠ some hyphen ∨ after = []
  | .long ddd _ middle _ _ => ∀ text ∈ middle, numeral (text.1.filter printable) ≠ numeral ddd.1

/-- Every reply is told from what comes after it, and the stream does not end within a long one. -/
def Told (tail : Tail) : List Reply → Prop
  | [] => ∃ text, tail = .part text
  | reply :: replies => reply.Told (stream replies tail) ∧ Told tail replies

/-! ### A line -/

theorem getcod1_text {text : List Byte} (whole : newline ∉ text) (rest : List Byte)
    (errline : Nat → Byte) {i : Nat} (low : i ≤ errlinsiz) :
    ∃ e, getcod1 errline i (text ++ newline :: rest) = (some (numeral [e 0, e 1, e 2]), e, rest) ∧
      (∀ k < i, e k = errline k) ∧
      ∀ k ≤ (text.filter printable).length, i + k < errlinsiz →
        e (i + k) = (text.filter printable).getD k 0 := by
  induction text generalizing errline i with
  | nil =>
    refine ⟨update errline i 0, if_pos rfl, fun k less => update_of_ne (Nat.ne_of_lt less) _ _,
      fun k none _ => ?_⟩
    obtain rfl := Nat.le_zero.mp none
    exact update_self ..
  | cons c text inductionHypothesis =>
    obtain ⟨other, whole⟩ := not_or.mp (mt List.mem_cons.mpr whole)
    rw [List.cons_append, getcod1, if_neg (Ne.symm other)]
    by_cases shown : printable c = true
    · rw [List.filter_cons_of_pos shown]
      rcases Nat.lt_or_ge i errlinsiz with room | full
      · rw [if_pos ⟨room, shown⟩]
        obtain ⟨e, read, kept, filled⟩ := inductionHypothesis whole (update errline i c) room
        refine ⟨e, read, fun k less => ?_, fun k most small => ?_⟩
        · rw [kept k (Nat.lt_succ_of_lt less), update_of_ne (Nat.ne_of_lt less)]
        · cases k with
          | zero => exact (kept i (Nat.lt_succ_self i)).trans (update_self ..)
          | succ k =>
            rw [show i + (k + 1) = i.succ + k by omega]
            exact filled k (Nat.le_of_succ_le_succ most) (by omega)
      · rw [if_neg fun both => Nat.not_lt.mpr full both.1]
        obtain ⟨e, read, kept, -⟩ := inductionHypothesis whole errline low
        exact ⟨e, read, kept, fun k _ small => by omega⟩
    · rw [List.filter_cons_of_neg shown, if_neg fun both => shown both.2]
      exact inductionHypothesis whole errline low

theorem numeral_shown {e : Nat → Byte} {shown : List Byte}
    (filled : ∀ k ≤ shown.length, k < errlinsiz → e k = shown.getD k 0) :
    numeral [e 0, e 1, e 2] = numeral shown := by
  have first := filled 0 (Nat.zero_le _) (by decide)
  have none : isDigit 0#8 = false := by decide
  rw [first]
  match shown with
  | [] => rfl
  | [a] =>
    rw [filled 1 (Nat.le_refl _) (by decide)]
    simp [numeral, List.takeWhile_cons, none]
  | [a, b] =>
    rw [filled 1 (by simp) (by decide), filled 2 (Nat.le_refl _) (by decide)]
    simp [numeral, List.takeWhile_cons, none]
  | a :: b :: c :: more =>
    rw [filled 1 (by simp) (by decide), filled 2 (by simp) (by decide)]
    rfl

theorem getcod1_line {text : List Byte} (whole : newline ∉ text) (rest : List Byte)
    (errline : Nat → Byte) :
    ∃ e, getcod1 errline 0 (text ++ newline :: rest) =
        (some (numeral (text.filter printable)), e, rest) ∧
      (3 ≤ (text.filter printable).length → e 3 = (text.filter printable).getD 3 0) := by
  obtain ⟨e, read, -, filled⟩ := getcod1_text whole rest errline (Nat.zero_le errlinsiz)
  simp only [Nat.zero_add] at filled
  rw [numeral_shown filled] at read
  exact ⟨e, read, fun three => filled 3 three (by decide)⟩

theorem getcod1_part {text : List Byte} (whole : newline ∉ text) (errline : Nat → Byte) (i : Nat) :
    (getcod1 errline i text).1 = none := by
  induction text generalizing errline i with
  | nil => rfl
  | cons c text inductionHypothesis =>
    obtain ⟨other, whole⟩ := not_or.mp (mt List.mem_cons.mpr whole)
    rw [getcod1, if_neg (Ne.symm other)]
    split <;> exact inductionHypothesis whole _ _

theorem getcod1_outside (errline : Nat → Byte) {i : Nat} (low : i ≤ errlinsiz) (stream : List Byte)
    {k : Nat} (outside : errlinsiz < k) : (getcod1 errline i stream).2.1 k = errline k := by
  have other {i : Nat} (low : i ≤ errlinsiz) : k ≠ i := by omega
  induction stream generalizing errline i with
  | nil => rfl
  | cons c stream inductionHypothesis =>
    unfold getcod1
    split
    · exact update_of_ne (other low) _ _
    · split
      next room => rw [inductionHypothesis _ room.1, update_of_ne (other low)]
      next => exact inductionHypothesis _ low

/-! ### The further lines -/

theorem skip_eq (code : Option Nat) (errline : Nat → Byte) (stream : List Byte) :
    skip code errline stream =
      if (getcod1 errline 0 stream).1 ≠ code ∧ (getcod1 errline 0 stream).1 ≠ none then
        skip code (getcod1 errline 0 stream).2.1 (getcod1 errline 0 stream).2.2
      else (getcod1 errline 0 stream).2 := by
  cases stream with
  | nil =>
    rw [if_neg fun both => both.2 rfl, skip]
    rfl
  | cons c rest => rw [skip]

theorem skip_outside (code : Option Nat) (errline : Nat → Byte) (stream : List Byte) {k : Nat}
    (outside : errlinsiz < k) : (skip code errline stream).1 k = errline k := by
  fun_induction skip code errline stream with
  | case1 => rfl
  | case2 errline c rest read _ inductionHypothesis =>
    rw [inductionHypothesis]
    exact getcod1_outside errline (Nat.zero_le _) _ outside
  | case3 errline c rest read _ => exact getcod1_outside errline (Nat.zero_le _) _ outside

theorem skip_shorter (code : Option Nat) (errline : Nat → Byte) (stream : List Byte) :
    (skip code errline stream).2.length ≤ stream.length - 1 := by
  fun_induction skip code errline stream with
  | case1 => exact Nat.le_refl _
  | case2 errline c rest read _ inductionHypothesis =>
    have shorter := getcod1_shorter errline 0 c rest
    exact Nat.le_trans inductionHypothesis (Nat.le_trans (Nat.sub_le _ _) shorter)
  | case3 errline c rest read _ => exact getcod1_shorter errline 0 c rest

theorem skip_line (code : Nat) (errline : Nat → Byte) (text : Text) (rest : List Byte) :
    ∃ e, skip (some code) errline (text.1 ++ newline :: rest) =
      if numeral (text.1.filter printable) = code then (e, rest) else skip (some code) e rest := by
  obtain ⟨e, read, -⟩ := getcod1_line text.2 rest errline
  refine ⟨e, ?_⟩
  rw [skip_eq, read]
  by_cases same : numeral (text.1.filter printable) = code
  · rw [if_pos same, if_neg fun both => both.1 (congrArg some same)]
  · rw [if_neg same, if_pos ⟨fun eq => same (Option.some.inj eq), Option.some_ne_none _⟩]

theorem skip_lines_iff {code : Nat} {last : Text}
    (ends : numeral (last.1.filter printable) = code) (middle : List Text) (errline : Nat → Byte)
    (rest : List Byte) :
    (skip (some code) errline (sent (middle.map (·.1)) ++ (last.1 ++ newline :: rest))).2 = rest ↔
      ∀ text ∈ middle, numeral (text.1.filter printable) ≠ code := by
  induction middle generalizing errline with
  | nil =>
    obtain ⟨e, skips⟩ := skip_line code errline last rest
    refine iff_of_true ?_ (by simp)
    show (skip (some code) errline (last.1 ++ newline :: rest)).2 = rest
    rw [skips, if_pos ends]
  | cons text middle inductionHypothesis =>
    obtain ⟨e, skips⟩ := skip_line code errline text
      (sent (middle.map (·.1)) ++ (last.1 ++ newline :: rest))
    have front : sent ((text :: middle).map (·.1)) ++ (last.1 ++ newline :: rest) =
        text.1 ++ newline :: (sent (middle.map (·.1)) ++ (last.1 ++ newline :: rest)) := by
      simp [sent]
    rw [front, skips, List.forall_mem_cons]
    by_cases same : numeral (text.1.filter printable) = code
    · rw [if_pos same]
      refine iff_of_false (fun early => ?_) fun both => both.1 same
      have longer := congrArg List.length early
      simp only [List.length_append, List.length_cons] at longer
      omega
    · rw [if_neg same, inductionHypothesis]
      exact (and_iff_right same).symm

/-! ### Replies in step -/

theorem filter_number (ddd : Number) (rest : List Byte) :
    (ddd.1 ++ rest).filter printable = ddd.1 ++ rest.filter printable := by
  rw [List.filter_append, List.filter_eq_self.mpr fun c member => ?_]
  have digit := List.all_eq_true.mp ddd.2.2 c member
  simp only [isDigit, printable, Bool.and_eq_true, decide_eq_true_eq] at digit ⊢
  bv_omega

theorem numeral_append (ddd : Number) (rest : List Byte) :
    numeral (ddd.1 ++ rest) = numeral ddd.1 := by
  unfold numeral
  rw [List.take_left' ddd.2.1, List.take_of_length_le (Nat.le_of_eq ddd.2.1)]

theorem newline_notMem_number (ddd : Number) : newline ∉ ddd.1 := fun member =>
  absurd (List.all_eq_true.mp ddd.2.2 _ member) (by decide)

theorem getcod1_first (ddd : Number) {text : List Byte} (whole : newline ∉ text) (rest : List Byte)
    (errline : Nat → Byte) :
    ∃ e, getcod1 errline 0 (ddd.1 ++ text ++ newline :: rest) = (some (numeral ddd.1), e, rest) ∧
      e 3 = (text.filter printable).headD 0 := by
  obtain ⟨e, read, shown⟩ := @getcod1_line (ddd.1 ++ text)
    (fun member => (List.mem_append.mp member).elim (newline_notMem_number ddd) whole) rest errline
  rw [filter_number] at read shown
  rw [numeral_append] at read
  refine ⟨e, read, ?_⟩
  rw [shown (by rw [List.length_append, ddd.2.1]; exact Nat.le_add_right ..),
    List.getD_append_right _ _ _ _ (Nat.le_of_eq ddd.2.1), ddd.2.1]
  cases text.filter printable <;> rfl

theorem getcod1_long (ddd : Number) (first : Text) (rest : List Byte) (errline : Nat → Byte) :
    ∃ e, getcod1 errline 0 (ddd.1 ++ hyphen :: first.1 ++ newline :: rest) =
      (some (numeral ddd.1), e, rest) ∧ e 3 = hyphen :=
  @getcod1_first ddd (hyphen :: first.1)
    (fun member => (List.mem_cons.mp member).elim (by decide) first.2) rest errline

theorem getcode_outside (errline : Nat → Byte) (stream : List Byte) {k : Nat}
    (outside : errlinsiz < k) : (getcode errline stream).2.1 k = errline k := by
  have first := getcod1_outside errline (Nat.zero_le errlinsiz) stream outside
  unfold getcode
  dsimp only
  split
  · exact (skip_outside _ _ _ outside).trans first
  · exact first

theorem getcode_reply (reply : Reply) (after : List Byte) (errline : Nat → Byte) :
    (getcode errline (reply.bytes ++ after)).1 = some reply.number ∧
      ((getcode errline (reply.bytes ++ after)).2.2 = after ↔ reply.Told after) := by
  cases reply with
  | line ddd rest short =>
    obtain ⟨e, read, fourth⟩ := getcod1_first ddd rest.2 after errline
    have bytes : (Reply.line ddd rest short).bytes ++ after =
        ddd.1 ++ rest.1 ++ newline :: after := by
      simp [Reply.bytes, sent]
    have marked : e 3 = hyphen ↔ (rest.1.filter printable).head? = some hyphen := by
      rw [fourth, List.headD_eq_head?_getD]
      cases (rest.1.filter printable).head? <;> simp [hyphen]
    rw [bytes, getcode, read]
    dsimp only
    by_cases long : (rest.1.filter printable).head? = some hyphen
    · rw [if_pos (marked.mpr long)]
      refine ⟨rfl, fun all => .inr ?_, fun told => ?_⟩
      · have shorter := skip_shorter (some (numeral ddd.1)) e after
        rw [all] at shorter
        exact List.length_eq_zero_iff.mp (by omega)
      · rw [told.resolve_left (not_not_intro long), skip]
    · rw [if_neg (mt marked.mp long)]
      exact ⟨rfl, iff_of_true rfl (.inl long)⟩
  | long ddd first middle inside last =>
    obtain ⟨e, read, marked⟩ := getcod1_long ddd first
      (sent (middle.map (·.1)) ++ (ddd.1 ++ blank :: last.1 ++ newline :: after)) errline
    have bytes : (Reply.long ddd first middle inside last).bytes ++ after =
        ddd.1 ++ hyphen :: first.1 ++ newline ::
          (sent (middle.map (·.1)) ++ (ddd.1 ++ blank :: last.1 ++ newline :: after)) := by
      simp [Reply.bytes, sent]
    rw [bytes, getcode, read]
    dsimp only
    rw [if_pos marked]
    have whole : newline ∉ ddd.1 ++ blank :: last.1 := fun member =>
      (List.mem_append.mp member).elim (newline_notMem_number ddd)
        fun member => (List.mem_cons.mp member).elim (by decide) last.2
    refine ⟨rfl, @skip_lines_iff _ ⟨_, whole⟩ ?_ middle e after⟩
    rw [filter_number, numeral_append]

theorem getcode_tail (tail : Tail) (errline : Nat → Byte) :
    (getcode errline tail.bytes).1 = none ↔ ∃ text, tail = .part text := by
  have number (errline : Nat → Byte) (stream : List Byte) :
      (getcode errline stream).1 = (getcod1 errline 0 stream).1 := by
    unfold getcode
    dsimp only
    split <;> rfl
  rw [number]
  cases tail with
  | part text => exact iff_of_true (getcod1_part text.2 errline 0) ⟨text, rfl⟩
  | long ddd first middle inside cut =>
    obtain ⟨e, read, -⟩ := getcod1_long ddd first (sent (middle.map (·.1)) ++ cut.1) errline
    have bytes : (Tail.long ddd first middle inside cut).bytes =
        ddd.1 ++ hyphen :: first.1 ++ newline :: (sent (middle.map (·.1)) ++ cut.1) := by
      simp [Tail.bytes, sent]
    rw [bytes, read]
    exact iff_of_false (Option.some_ne_none _) fun ⟨_, isPart⟩ => Tail.noConfusion isPart

/-- The calls keep in step with a stream, whatever `errline` held before, exactly when its replies
are told from what comes after them; and nothing is ever stored behind `errline`. -/
theorem replies_inStep_iff (tail : Tail) (replies : List Reply) (errline : Nat → Byte) :
    (InStep tail errline replies ∧
        ∀ errline stream k, errlinsiz < k → (getcode errline stream).2.1 k = errline k) ↔
      Told tail replies := by
  rw [and_iff_left fun errline stream k outside => getcode_outside errline stream outside]
  induction replies generalizing errline with
  | nil => exact getcode_tail tail errline
  | cons reply replies inductionHypothesis =>
    have bytes : stream (reply :: replies) tail = reply.bytes ++ stream replies tail := by
      simp [stream]
    have takes := getcode_reply reply (stream replies tail) errline
    rw [InStep, Told, bytes, and_iff_right takes.1, takes.2, inductionHypothesis]

/-- The long reply of the lines 220-a, 220-b and 220 c. -/
def greeting : Reply :=
  .long ⟨[0x32, 0x32, 0x30], by decide⟩ ⟨[0x61], by decide⟩
    [⟨[0x32, 0x32, 0x30, 0x2D, 0x62], by decide⟩] (by unfold Inside; decide) ⟨[0x63], by decide⟩

theorem replies_out_of_step :
    ¬ ∀ (tail : Tail) (replies : List Reply) (errline : Nat → Byte), InStep tail errline replies :=
  fun claimed => absurd
    (((getcode_reply greeting [] fun _ => 0).2.mp
      (claimed (.part ⟨[], by decide⟩) [greeting] fun _ => 0).2.1) _ (List.mem_singleton_self _))
    (by decide)

end NetworkUnix.Mmdf.Netsnd
