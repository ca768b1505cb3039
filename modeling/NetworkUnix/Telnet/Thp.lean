/-
This file models the data of the Telnet program in its THP form: the control codes, the
circular buffers, the table of options with their tests, and the connection block together
with its state block. Messages to the user, the log and the terminal modes are left out.
-/

import Mathlib.Logic.Function.Basic

namespace NetworkUnix.Telnet

abbrev Byte := BitVec 8

/-! ### THP -/

/-- IAC -/
def iac : Byte := 170
def ipCode : Byte := 254
def aoCode : Byte := 253
def aytCode : Byte := 252
def ecCode : Byte := 251
def elCode : Byte := 250
def doCode : Byte := 249
def willCode : Byte := 248
def dontCode : Byte := 247
def wontCode : Byte := 246
def dataCode : Byte := 244
def suspendCode : Byte := 243
def suspendedCode : Byte := 233
def continueCode : Byte := 242
def setModeCode : Byte := 241
def requestModeCode : Byte := 240
def dmCode : Byte := 239
def nopCode : Byte := 238
def breakCode : Byte := 237
def repeatCode : Byte := 234

/-- RECORD or STREAM -/
inductive XMode
  | record
  | stream
  deriving DecidableEq

/-- `RECORD` is 0, and any other code is taken for `STREAM`. -/
def XMode.ofByte (c : Byte) : XMode := if c = 0 then .record else .stream

def XMode.code : XMode → Byte
  | .record => 0
  | .stream => 1

def cr : Byte := 0o15
def lf : Byte := 0o12

/-! ### Circular buffers -/

def cbufsize : Nat := 500

/-- A circular buffer: what is in it, and how many characters it had no room for. -/
structure CircBuf where
  bytes : List Byte
  flushed : Nat
  deriving DecidableEq

namespace CircBuf

/-- Cinit -/
def init (b : CircBuf) : CircBuf := { b with bytes := [] }

/-- Clen -/
def len (b : CircBuf) : Nat := b.bytes.length

/-- Cputc -/
def putc (b : CircBuf) (c : Byte) : CircBuf :=
  if b.len = cbufsize then { b with flushed := b.flushed + 1 }
  else { b with bytes := b.bytes ++ [c] }

def puts (b : CircBuf) (text : List Byte) : CircBuf := text.foldl putc b

theorem puts_fits {b : CircBuf} {text : List Byte} (fits : b.len + text.length ≤ cbufsize) :
    b.puts text = { b with bytes := b.bytes ++ text } := by
  unfold puts
  induction text generalizing b with
  | nil =>
    rw [List.append_nil]
    rfl
  | cons c rest inductionHypothesis =>
    rw [List.length_cons] at fits
    have room : b.len ≠ cbufsize := by omega
    have once : b.putc c = { b with bytes := b.bytes ++ [c] } := if_neg room
    have len : (b.putc c).len = b.len + 1 := by
      rw [once]
      exact List.length_append
    rw [List.foldl_cons, inductionHypothesis (by omega), once]
    show ({ b with bytes := b.bytes ++ [c] ++ rest } : CircBuf) = _
    rw [List.append_assoc, List.singleton_append]

end CircBuf

/-! ### Options -/

/-- MY_WILL, MY_DO, MY_WONT, MY_DONT -/
inductive Op
  | will
  | do_
  | wont
  | dont
  deriving DecidableEq

/-- DO_SIDE and WILL_SIDE -/
inductive Side
  | do_
  | will
  deriving DecidableEq

namespace Op

def side : Op → Side
  | .do_ | .dont => .do_
  | .will | .wont => .will

/-- YES or NO -/
def nstate : Op → Bool
  | .do_ | .will => true
  | .wont | .dont => false

/-- DO and WILL reversed. -/
def reverse : Op → Op
  | .do_ => .will
  | .will => .do_
  | .dont => .wont
  | .wont => .dont

/-- The control of an option. -/
def ctrl : Op → Byte
  | .will => willCode
  | .do_ => doCode
  | .wont => wontCode
  | .dont => dontCode

end Op

def optEcho : Nat := 0
def optBinary : Nat := 1
def optReconnect : Nat := 5
def optRecordSize : Nat := 6
def optCrDisp : Nat := 11
def optLfDisp : Nat := 12
def optFfDisp : Nat := 13
def optHtDisp : Nat := 14
def optVtDisp : Nat := 15
def optUnimpl : Nat := 16

def senderCode : Byte := 0
def receiverCode : Byte := 1
def startCode : Byte := 0
def dispDiscard : Byte := 255
def dispSimulate : Byte := 254
def dispCrlf : Byte := 253

/-- `optlength`, where `none` stands for -1. -/
def optlength (opnum : Nat) : Option Nat :=
  if opnum ≤ 4 then some 1
  else if opnum = optReconnect then some 9
  else if opnum ≤ 8 then some 3
  else if opnum ≤ 10 then none
  else if opnum ≤ optVtDisp then some 3
  else none

/-- Two bytes as an `int`. -/
def int16 (hi lo : Byte) : Int := (hi ++ lo).toInt

/-- EchoTst -/
def echoTst (usingPty : Bool) (op : Op) : Bool :=
  if usingPty then decide (op = .do_) else decide (op = .will)

/-- FormTst -/
def formTst (usingPty : Bool) (op : Op) (args : List Byte) : Bool :=
  if usingPty then !(decide (op = .do_) && decide (args.getD 1 0 = receiverCode))
  else !(decide (op = .will) && decide (args.getD 1 0 = senderCode))

/-- ReconTst -/
def reconTst (org : Bool) (op : Op) (args : List Byte) : Bool :=
  if args.getD 7 0 ≠ startCode then false
  else if org then decide (op = .will) else decide (op = .do_)

/-- SizeTst -/
def sizeTst (op : Op) (args : List Byte) : Bool :=
  let size := int16 (args.getD 1 0) (args.getD 2 0)
  if op = .will then true else decide (size < cbufsize) && decide (4 < size)

/-- DispTst; where the source ends without a value, it is `ends`. -/
def dispTst (ends usingPty : Bool) (op : Op) (args : List Byte) : Bool :=
  let opnum := (args.getD 0 0).toNat
  let sr := args.getD 1 0
  let value := args.getD 2 0
  if (op = .will ∧ sr = receiverCode) ∨ (op = .do_ ∧ sr = senderCode) then true
  else if op = .do_ ∧ sr = receiverCode then
    decide (opnum = optHtDisp) && decide (value = dispSimulate) && !usingPty
  else if op = .will ∧ sr = senderCode then
    if value = dispSimulate then
      if opnum = optLfDisp ∨ opnum = optFfDisp ∨ opnum = optVtDisp then false
      else if opnum = optHtDisp then usingPty
      else true
    else ends
  else ends

/-- `opt[opnum].testf`, with the new terminal driver. -/
def testf (ends usingPty org : Bool) (opnum : Nat) (op : Op) (args : List Byte) : Bool :=
  if opnum = optEcho then echoTst usingPty op
  else if opnum = optBinary then true
  else if opnum = optReconnect then reconTst org op args
  else if opnum = optRecordSize then sizeTst op args
  else if opnum = 7 ∨ opnum = 8 then formTst usingPty op args
  else if optCrDisp ≤ opnum ∧ opnum ≤ optVtDisp then dispTst ends usingPty op args
  else false

/-! ### The connection -/

/-- ACTIVE, SUSPING or SUSP -/
inductive Susp
  | active
  | susping
  | susp
  deriving DecidableEq

/-- The state of `NetChar`, with what `ctrl` holds in it. -/
inductive CmdState
  | escapeExp
  | hibyteExp
  | lobyteExp
  | ctrlExp
  | optionExp (ctrl : Op)
  | modeExp (request : Bool)
  | countExp
  | charExp (ctrl : Nat)
  | withinData
  deriving DecidableEq

/-- What the rest of the machine gives: the erase, kill and interrupt characters of the terminal,
and what `DispTst` returns where it ends without a value. -/
structure Host where
  erase : Byte
  kill : Byte
  intr : Byte
  ends : Bool
  deriving DecidableEq

/-- NetConn and SBlk -/
structure NetConn where
  host : Host
  usingPty : Bool
  locState : Susp
  remState : Susp
  outSynCnt : Nat
  inSynCnt : Int
  recSize : Int
  toNetBin : Bool
  toNetCr : Bool
  toUsrBin : Bool
  toUsrCr : Bool
  toNetEOF : Nat
  toNetBuf : CircBuf
  toUsrBuf : CircBuf
  fmNetBuf : CircBuf
  cmdstate : CmdState
  count : Nat
  rest : List Byte
  xMode : XMode
  state : Nat → Side → Bool
  orig : Nat → Side → Bool
  value : Nat → Side → Byte × Byte

/-- AllocConn and AllocSB -/
def NetConn.alloc (host : Host) (usingPty : Bool) : NetConn where
  host := host
  usingPty := usingPty
  locState := .active
  remState := .active
  outSynCnt := 0
  inSynCnt := 0
  recSize := 0
  toNetBin := false
  toNetCr := false
  toUsrBin := false
  toUsrCr := false
  toNetEOF := 0
  toNetBuf := ⟨[], 0⟩
  toUsrBuf := ⟨[], 0⟩
  fmNetBuf := ⟨[], 0⟩
  cmdstate := .escapeExp
  count := 0
  rest := []
  xMode := .stream
  state := fun _ _ => false
  orig := fun _ _ => false
  value := fun _ _ => (0, 0)

end NetworkUnix.Telnet
