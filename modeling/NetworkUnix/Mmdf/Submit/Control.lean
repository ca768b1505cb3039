/-
This file models how `submit` reads its control stream: a line up to a character of the break
set, at most as long as the buffer, and the flags that say that the text of the message, or the
whole stream, has ended. A line that is read shortens the stream, and where nothing is left to
read the end of the text is set; that is what every loop of `submit` runs down.
-/

import NetworkUnix.Lib.Loop
import NetworkUnix.Mmdf.Rml

namespace NetworkUnix.Mmdf.Submit

/-- The code of a character. -/
def ascii (text : List Char) : List Byte := text.map fun c => BitVec.ofNat 8 c.toNat

def blank : Byte := 0x20

def tab : Byte := 0x09

def colon : Byte := 0x3a

def comma : Byte := 0x2c

/-- LINESIZE -/
def lineSize : Nat := 256

/-- nltrm -/
def nltrm (c : Byte) : Bool := c == newline

/-- nultrm -/
def nultrm (c : Byte) : Bool := c == 0

/-- lstnultrm -/
def lstnultrm (c : Byte) : Bool := c == comma || c == newline || c == 0

/-- The break set of the name of a component. -/
def nametrm (c : Byte) : Bool := c == colon || c == newline || c == 0

/-- The break set where a line of addresses may be the next component. -/
def moretrm (c : Byte) : Bool := c == colon || c == comma || c == newline || c == 0

/-- What `submit` has of the message: the rest of the control stream, the flags of its end, what
`cmpntin` left behind, the text file, and how many addresses were looked up. -/
structure State where
  input : List Byte
  msgend : Bool
  eofhit : Bool
  morcmpnt : Bool
  moreline : Option (List Byte)
  mfil : List Byte
  looked : Nat
  deriving DecidableEq

/-- gcread: the characters up to one of the break set, and what follows them. -/
def gcread (brkset : Byte → Bool) : Nat → List Byte → List Byte × List Byte
  | 0, input => ([], input)
  | _ + 1, [] => ([], [])
  | most + 1, c :: input =>
    if brkset c then ([c], input)
    else (c :: (gcread brkset most input).1, (gcread brkset most input).2)

/-- cntlin: the line that was read, empty at the end of the stream. -/
def cntlin (brkset : Byte → Bool) (s : State) : List Byte × State :=
  let (line, rest) := gcread brkset (lineSize - 1) s.input
  (line, { s with
    input := rest
    msgend := s.msgend || line.isEmpty || line.getLast? == some 0
    eofhit := s.eofhit || line.isEmpty })

/-- What is added to the text file. -/
def State.fwrite (s : State) (text : List Byte) : State := { s with mfil := s.mfil ++ text }

/-! ### The end of the text comes nearer -/

/-- How far off the end of the text is. -/
def State.left (s : State) : Nat := s.input.length + if s.msgend then 0 else 1

@[simp] theorem State.fwrite_left (s : State) (text : List Byte) : (s.fwrite text).left = s.left :=
  rfl

@[simp] theorem State.fwrite_moreline (s : State) (text : List Byte) :
    (s.fwrite text).moreline = s.moreline := rfl

theorem gcread_append (brkset : Byte → Bool) (most : Nat) (input : List Byte) :
    (gcread brkset most input).1 ++ (gcread brkset most input).2 = input := by
  induction most, input using gcread.induct brkset with
  | case1 input => rfl
  | case2 => rfl
  | case3 most c input breaks =>
    rw [gcread, if_pos breaks]
    rfl
  | case4 most c input breaks inductionHypothesis =>
    rw [gcread, if_neg breaks]
    exact congrArg (c :: ·) inductionHypothesis

variable (brkset : Byte → Bool) (s : State)

theorem cntlin_input : (cntlin brkset s).1 ++ (cntlin brkset s).2.input = s.input :=
  gcread_append brkset (lineSize - 1) s.input

theorem cntlin_moreline : (cntlin brkset s).2.moreline = s.moreline := rfl

theorem cntlin_msgend (ended : s.msgend = true) : (cntlin brkset s).2.msgend = true := by
  unfold cntlin
  rw [ended]
  rfl

theorem cntlin_nil (nothing : (cntlin brkset s).1 = []) : (cntlin brkset s).2.msgend = true := by
  unfold cntlin at *
  dsimp only at *
  rw [nothing]
  simp only [List.isEmpty_nil, Bool.or_true, Bool.true_or]

theorem cntlin_length : (cntlin brkset s).1.length + (cntlin brkset s).2.input.length =
    s.input.length := by
  rw [← List.length_append, cntlin_input]

theorem cntlin_left_le : (cntlin brkset s).2.left ≤ s.left := by
  have shorter := cntlin_length brkset s
  unfold State.left
  by_cases ended : s.msgend = true
  · rw [cntlin_msgend brkset s ended, ended]
    simp only [if_true]
    omega
  · rw [if_neg ended]
    split <;> omega

theorem cntlin_left_lt (more : s.msgend = false ∨ (cntlin brkset s).1 ≠ []) :
    (cntlin brkset s).2.left < s.left := by
  have shorter := cntlin_length brkset s
  have never := cntlin_left_le brkset s
  by_cases nothing : (cntlin brkset s).1 = []
  · have going : s.msgend = false := more.resolve_right (not_not_intro nothing)
    unfold State.left
    rw [cntlin_nil brkset s nothing, going]
    rw [nothing, List.length_nil] at shorter
    simp only [if_true, Bool.false_eq_true, if_false]
    omega
  · have some := List.length_pos_iff.mpr nothing
    unfold State.left at *
    by_cases ended : s.msgend = true
    · rw [cntlin_msgend brkset s ended, ended]
      simp only [if_true]
      omega
    · rw [if_neg ended]
      split <;> omega

end NetworkUnix.Mmdf.Submit
