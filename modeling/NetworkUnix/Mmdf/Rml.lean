/-
This file models the link protocol of MMDF: how a message is put into a line, how a line is
read and checked, and the one receiving routine that runs both by itself and inside the
sending routine. Two stations are joined by a line that may lose or damage what is on it.
The log, the transcript and errors of the port are left out.
-/

import NetworkUnix.Lib.Run
import Mathlib.Algebra.Ring.Int.Defs
import Mathlib.Logic.Function.Basic

namespace NetworkUnix.Mmdf

abbrev Byte := BitVec 8

/-- HEADLNGH: the bytes of the header of a message. -/
def headlngh : Nat := 6

/-- NRETRIES: how often a message is sent. -/
def nretries : Nat := 5

def newline : Byte := 0o12

/-- ACK -/
def ackCode : Byte := 0o60

/-- EXIT -/
def exitCode : Byte := 0o64

/-- A character that `d_getline` keeps; `char` has a sign. -/
def printable (c : Byte) : Bool := decide (0o40 ≤ c.toInt)

/-- A string ends at its null. -/
def cstring (text : List Byte) : List Byte := text.takeWhile (· ≠ 0)

/-! ### Hex numbers -/

/-- d_ishex -/
def dIshex (c : Byte) : Bool := decide (0x30 ≤ c ∧ c ≤ 0x39) || decide (0x41 ≤ c ∧ c ≤ 0x46)

/-- The value of a digit; any other character is taken for a letter. -/
def dDigit (c : Byte) : Nat :=
  if 0x30 ≤ c ∧ c ≤ 0x39 then c.toNat - 0x30 else ((c.toInt - 0x41 + 10) % 16).toNat

/-- d_atoh -/
def dAtoh (places : List Byte) : Nat := places.foldl (fun value c => value * 16 + dDigit c) 0

/-- The character of a digit. -/
def dChar (digit : Nat) : Byte :=
  if digit < 10 then BitVec.ofNat 8 (digit + 0x30) else BitVec.ofNat 8 (digit - 10 + 0x41)

/-- d_htoa -/
def dHtoa (value : Nat) : Nat → List Byte
  | 0 => []
  | nplaces + 1 => dHtoa (value / 16) nplaces ++ [dChar (value % 16)]

/-- The sum of the characters in an `int`. -/
def checksum (text : List Byte) : Nat := ((text.map BitVec.toInt).sum % 2 ^ 16).toNat

/-! ### Lines -/

/-- The bytes that `d_sndmsg` writes. -/
def lineOf (seqno : Nat) (code : Byte) (text : List Byte) : List Byte :=
  let body := dHtoa seqno 1 ++ code :: cstring text
  dHtoa (checksum body) 4 ++ body ++ [newline]

/-- The lines in what is written to the port. -/
def rawLines : List Byte → List (List Byte)
  | [] => []
  | c :: rest =>
    if c = newline then [] :: rawLines rest
    else
      match rawLines rest with
      | [] => []
      | first :: others => (c :: first) :: others

/-- What `d_getmsg` finds in a line: it is so long that `d_getline` returns 0, it is to be ignored,
or it is a message with a good checksum. -/
inductive Heard
  | eof
  | ignored
  | message (seqno : Nat) (intrflag : Bool) (code : Byte) (text : List Byte)
  deriving DecidableEq

/-- d_getline, and the checks of length and checksum in `d_getmsg`. -/
def heard (linelgh : Nat) (raw : List Byte) : Heard :=
  let kept := raw.filter printable
  if linelgh + 1 ≤ kept.length then .eof
  else
    match kept with
    | a :: b :: c :: d :: seq :: code :: text =>
      if [a, b, c, d].all dIshex ∧ checksum (seq :: code :: text) = dAtoh [a, b, c, d] then
        .message (dAtoh [seq] % 8) (decide (dAtoh [seq] / 8 % 2 = 1)) code text
      else .ignored
    | _ => .ignored

/-! ### A station -/

/-- A message that a caller of `d_sndmsg` may send: it is no ACK, its text is encoded and fits into
a line. -/
structure Message (linelgh : Nat) where
  code : Byte
  text : List Byte
  notAck : code ≠ ackCode := by decide
  plain : (code :: text).all printable = true := by decide
  fits : text.length + headlngh ≤ linelgh := by decide
  deriving DecidableEq

/-- What `d_getmsg` returns. -/
inductive Got
  | message (code : Byte) (text : List Byte)
  | eexit
  | eintrupt (reason : List Byte)
  | eof
  deriving DecidableEq

/-- What `d_sndmsg` returns; EINTRUPT comes with `d_errmesg`. -/
inductive Result
  | ok
  | eexit
  | eintrupt (reason : List Byte)
  | esystem
  | etrans
  deriving DecidableEq

/-- Where a station is: between two calls, in `d_getmsg` with NOTACK, or in `d_sndack` with a line.
-/
inductive Phase
  | idle
  | getting
  | sending (message : List Byte) (retry : Nat)
  deriving DecidableEq

/-- A station: `struct rmenv`, and the call it is in. The last fields record the messages passed to
`d_sndmsg` with the results of the calls that returned, what `d_getmsg` returned for a message, and
the reasons given to `dlintr`. -/
structure Station (linelgh : Nat) where
  rcvseq : Nat
  transeq : Nat
  lastseq : Nat
  tranint : Bool
  intmesg : List Byte
  phase : Phase
  passed : List (Message linelgh)
  results : List Result
  returned : List Got
  asked : List (List Byte)

namespace Station

variable {linelgh : Nat}

/-- All numbers at zero, and no interrupt pending. -/
def start : Station linelgh where
  rcvseq := 0
  transeq := 0
  lastseq := 0
  tranint := false
  intmesg := []
  phase := .idle
  passed := []
  results := []
  returned := []
  asked := []

/-- The station waits for an ACK. -/
def ackonly (s : Station linelgh) : Bool :=
  match s.phase with
  | .sending _ _ => true
  | _ => false

/-- The line of `d_sndmsg(ACK, 0)`. -/
def ackLine (s : Station linelgh) : List Byte :=
  if s.tranint then lineOf (s.rcvseq + 8) ackCode s.intmesg else lineOf s.rcvseq ackCode []

/-- d_sndmsg(ACK, 0) -/
def sndAck (s : Station linelgh) : Station linelgh := { s with tranint := false }

/-- The message is the next one. -/
def advance (s : Station linelgh) : Station linelgh :=
  { s with lastseq := s.rcvseq, rcvseq := (s.rcvseq + 1) % 8 }

/-- The end of `d_getmsg` for a message. -/
def gotOf (intrflag : Bool) (code : Byte) (text : List Byte) : Got :=
  if code = exitCode then .eexit
  else if intrflag then .eintrupt text
  else .message code text

/-- What `d_sndack` makes of it. -/
def resultOf : Got → Result
  | .message _ _ => .ok
  | .eexit => .eexit
  | .eintrupt reason => .eintrupt reason
  | .eof => .esystem

/-- `d_getmsg` returns, and with it `d_sndmsg` if it was called there. -/
def comesBack (s : Station linelgh) (got : Got) : Station linelgh :=
  match s.phase with
  | .idle => s
  | .getting => { s with phase := .idle, returned := s.returned ++ [got] }
  | .sending _ _ => { s with phase := .idle, results := s.results ++ [resultOf got] }

/-- `d_getmsg` with a line: the station after it, and what it writes. -/
def hear (s : Station linelgh) (raw : List Byte) : Station linelgh × List Byte :=
  match heard linelgh raw with
  | .eof => (s.comesBack .eof, [])
  | .ignored => (s, [])
  | .message seqno intrflag code text =>
    if code = ackCode then
      if seqno = s.transeq ∧ s.ackonly then (s.comesBack (gotOf intrflag code text), [])
      else (s, [])
    else if seqno = s.rcvseq then
      if s.ackonly then (s.advance, [])
      else (s.advance.sndAck.comesBack (gotOf intrflag code text), s.advance.ackLine)
    else if seqno = s.lastseq then (s.sndAck, s.ackLine)
    else (s, [])

/-- d_sndmsg -/
def sndmsg (s : Station linelgh) (m : Message linelgh) : Station linelgh × List Byte :=
  let message := lineOf s.transeq m.code m.text
  ({ s with
      transeq := (s.transeq + 1) % 8
      phase := .sending message 0
      passed := s.passed ++ [m] }, message)

/-- The alarm in a read. -/
def timeout (s : Station linelgh) : Station linelgh × List Byte :=
  match s.phase with
  | .idle => (s, [])
  | .getting => ({ s with phase := .idle }, [])
  | .sending message retry =>
    if retry + 1 < nretries then ({ s with phase := .sending message (retry + 1) }, message)
    else ({ s with phase := .idle, results := s.results ++ [.etrans] }, [])

/-- dlintr -/
def dlintr (s : Station linelgh) (reason : List Byte) : Station linelgh :=
  { s with intmesg := cstring reason, tranint := true, asked := s.asked ++ [cstring reason] }

/-- `d_getmsg` accepts the message of a line and returns it. -/
def accepts (s : Station linelgh) (raw : List Byte) : Bool :=
  decide (s.phase = .getting) &&
    match heard linelgh raw with
    | .message seqno _ code _ => decide (code ≠ ackCode) && decide (seqno = s.rcvseq)
    | _ => false

end Station

/-! ### Two stations -/

/-- The stations and the lines under way to each. For each interrupt that was asked for at a
station, `deadlines` records how many calls of `d_sndmsg` the other station had made when the first
message after it was accepted. -/
structure System (linelgh : Nat) where
  station : Bool → Station linelgh
  line : Bool → List (List Byte)
  deadlines : Bool → List Nat

/-- What can happen: the calls of a station, a read that returns a line or is timed out, and a line
that is lost or damaged, so that the checksum test fails. -/
inductive Event (linelgh : Nat)
  | sndmsg (side : Bool) (m : Message linelgh)
  | getmsg (side : Bool)
  | dlintr (side : Bool) (reason : List Byte)
  | read (side : Bool)
  | timeout (side : Bool)
  | lose (side : Bool) (place : Nat)
  | damage (side : Bool) (place : Nat) (raw : List Byte)

namespace System

variable {linelgh : Nat}

def start : System linelgh := ⟨fun _ => .start, fun _ => [], fun _ => []⟩

/-- A station has moved on and has written to its port. -/
def put (s : System linelgh) (side : Bool) (out : Station linelgh × List Byte) : System linelgh :=
  { s with
    station := Function.update s.station side out.1
    line := Function.update s.line (!side) (s.line (!side) ++ rawLines out.2) }

/-- The lines under way to a station are others. -/
def setLine (s : System linelgh) (side : Bool) (lines : List (List Byte)) : System linelgh :=
  { s with line := Function.update s.line side lines }

/-- A message is accepted, which sets the deadline for what was asked before. -/
def meet (s : System linelgh) (side : Bool) : System linelgh :=
  { s with
    deadlines := Function.update s.deadlines side (s.deadlines side ++
      List.replicate ((s.station side).asked.length - (s.deadlines side).length)
        (s.station (!side)).passed.length) }

/-- A read returns the first line. -/
def read (s : System linelgh) (side : Bool) : Option (System linelgh) :=
  match s.line side with
  | [] => none
  | raw :: rest =>
    if (s.station side).phase = .idle then none
    else
      let t := (s.setLine side rest).put side ((s.station side).hear raw)
      some (if (s.station side).accepts raw then t.meet side else t)

/-- The effect of an event, if it can happen. -/
def act (s : System linelgh) : Event linelgh → Option (System linelgh)
  | .sndmsg side m =>
    if (s.station side).phase = .idle then some (s.put side ((s.station side).sndmsg m)) else none
  | .getmsg side =>
    if (s.station side).phase = .idle then
      some (s.put side ({ s.station side with phase := .getting }, []))
    else none
  | .dlintr side reason => some (s.put side ((s.station side).dlintr reason, []))
  | .read side => s.read side
  | .timeout side =>
    if (s.station side).phase = .idle then none
    else some (s.put side (s.station side).timeout)
  | .lose side place =>
    if place < (s.line side).length then some (s.setLine side ((s.line side).eraseIdx place))
    else none
  | .damage side place raw =>
    if place < (s.line side).length ∧ heard linelgh raw = .ignored then
      some (s.setLine side ((s.line side).set place raw))
    else none

end System

end NetworkUnix.Mmdf
