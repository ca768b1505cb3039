/-
This file models what the Telnet program writes to the net and how it reads from it: text and
controls in records, the characters for the user, the negotiation of options, and the
machine that takes the stream apart.
-/

import NetworkUnix.Telnet.Thp

namespace NetworkUnix.Telnet

namespace NetConn

/-! ### Writing -/

def putNet (conn : NetConn) (text : List Byte) : NetConn :=
  { conn with toNetBuf := conn.toNetBuf.puts text }

def putUsr (conn : NetConn) (c : Byte) : NetConn := { conn with toUsrBuf := conn.toUsrBuf.putc c }

/-- A control and its arguments with their count. -/
def record (ctrl : Byte) (args : List Byte) : List Byte :=
  iac :: BitVec.ofNat 8 (args.length / 256) :: BitVec.ofNat 8 args.length :: ctrl :: args

/-- SendCtrl -/
def sendCtrl (conn : NetConn) (ctrl : Byte) (args : List Byte) : NetConn :=
  conn.putNet (record ctrl args)

/-- SendSynch -/
def sendSynch (conn : NetConn) : NetConn :=
  { conn.sendCtrl dmCode [] with outSynCnt := (conn.sendCtrl dmCode []).toNetBuf.len }

/-- The chunks of a buffer in `NetBuf`. -/
def cut (recSize : Int) : Nat → List Byte → List (List Byte)
  | 0, _ => []
  | fuel + 1, buf =>
    if buf = [] then []
    else if 0 < recSize ∧ recSize < buf.length then
      buf.take recSize.toNat :: cut recSize fuel (buf.drop recSize.toNat)
    else [buf]

/-- A buffer is sent in records: in record mode, or when it holds an IAC. -/
def InRecords (xMode : XMode) (buf : List Byte) : Prop := xMode = .record ∨ iac ∈ buf

instance (xMode : XMode) (buf : List Byte) : Decidable (InRecords xMode buf) :=
  inferInstanceAs (Decidable (_ ∨ _))

/-- NetBuf -/
def netBuf (conn : NetConn) (buf : List Byte) : NetConn :=
  if InRecords conn.xMode buf then
    (cut conn.recSize buf.length buf).foldl (fun conn chunk => conn.sendCtrl dataCode chunk) conn
  else conn.putNet buf

/-- The disposition option of a character. -/
def optnum (c : Byte) : Option Nat :=
  if c = 0o11 then some optHtDisp
  else if c = lf then some optLfDisp
  else if c = 0o13 then some optVtDisp
  else if c = 0o14 then some optFfDisp
  else if c = cr then some optCrDisp
  else none

/-- What is to be done about a character. -/
def action (conn : NetConn) (opnum : Nat) : Byte :=
  if conn.state opnum .will ∧ (conn.value opnum .will).1 = senderCode then (conn.value opnum .will).2
  else 0

/-- The loop of `SendBuf`, with what is in `obuf`; `crlf` is the call for CR and LF. -/
def sendLoop (crlf : NetConn → NetConn) : NetConn → List Byte → List Byte → NetConn
  | conn, obuf, [] => if obuf = [] then conn else conn.netBuf obuf
  | conn, obuf, c :: rest =>
    match optnum c with
    | none => sendLoop crlf conn (obuf ++ [c]) rest
    | some opnum =>
      if conn.action opnum = dispDiscard then sendLoop crlf conn obuf rest
      else if conn.action opnum = dispCrlf ∧ (c = 0o13 ∨ c = 0o14) then
        sendLoop crlf (crlf (conn.netBuf obuf)) [] rest
      else if conn.action opnum ≠ 0 then
        sendLoop crlf ((conn.netBuf (obuf ++ [c])).sendCtrl repeatCode [conn.action opnum, 0]) [] rest
      else sendLoop crlf conn (obuf ++ [c]) rest

/-- SendBuf -/
def sendBuf (conn : NetConn) (buf : List Byte) : NetConn :=
  sendLoop (fun conn => sendLoop id conn [] [cr, lf]) conn [] buf

/-- UserChar -/
def userChar (conn : NetConn) (c : Byte) : NetConn :=
  if c = cr ∧ conn.toUsrBin = false then { conn.putUsr c with toUsrCr := true }
  else if conn.toUsrCr = false then conn.putUsr c
  else if c = 0 ∨ c = lf ∧ conn.usingPty = true then { conn with toUsrCr := false }
  else { conn.putUsr c with toUsrCr := false }

/-! ### Options -/

/-- SendReply -/
def sendReply (conn : NetConn) (reply : Bool) (op : Op) (args : List Byte) : NetConn :=
  match op with
  | .do_ => conn.sendCtrl (if reply then willCode else wontCode) args
  | .will => conn.sendCtrl (if reply then doCode else dontCode) args
  | .dont => conn.sendCtrl wontCode args
  | .wont => conn.sendCtrl dontCode args

/-- vcopy -/
def vcopy : List Byte → Byte × Byte → Byte × Byte
  | [], old => old
  | [a], old => (a, old.2)
  | a :: b :: _, _ => (a, b)

/-- veq -/
def veq : List Byte → Byte × Byte → Bool
  | [], _ => true
  | [a], old => decide (a = old.1)
  | a :: b :: _, old => decide (a = old.1) && decide (b = old.2)

/-- An entry of a table with a row for each option. -/
def setEntry {α : Type} (table : Nat → Side → α) (opnum : Nat) (side : Side) (entry : α) :
    Nat → Side → α :=
  Function.update table opnum (Function.update (table opnum) side entry)

def setState (conn : NetConn) (opnum : Nat) (side : Side) (nstate : Bool) : NetConn :=
  { conn with state := setEntry conn.state opnum side nstate }

def setOrig (conn : NetConn) (opnum : Nat) (side : Side) (orig : Bool) : NetConn :=
  { conn with orig := setEntry conn.orig opnum side orig }

/-- The values of an option are remembered. -/
def setValue (conn : NetConn) (opnum : Nat) (side : Side) (values : List Byte) : NetConn :=
  { conn with value := setEntry conn.value opnum side (vcopy values (conn.value opnum side)) }

/-- `opt[opnum].actf`, but for the modes of the terminal. -/
def actf (conn : NetConn) (opnum : Nat) (op : Op) (args : List Byte) : NetConn :=
  if opnum = optBinary then
    match op with
    | .do_ => { conn with toNetBin := true }
    | .dont => { conn with toNetBin := false }
    | .will => { conn with toUsrBin := true }
    | .wont => { conn with toUsrBin := false }
  else if opnum = optReconnect ∧ op = .do_ then { conn with toNetEOF := 1 }
  else if opnum = optRecordSize ∧ op = .do_ then
    { conn with recSize := int16 (args.getD 1 0) (args.getD 2 0) }
  else if opnum = optRecordSize ∧ op = .dont then { conn with recSize := 0 }
  else conn

/-- The number of an option, one for all that are not implemented. -/
def opnumOf (args : List Byte) : Nat := min (args.getD 0 0).toNat optUnimpl

/-- `negotiate` for a request that is made here; `op` is as if it came over the net. -/
def originate (conn : NetConn) (op : Op) (args : List Byte) : NetConn :=
  let opnum := opnumOf args
  if op.nstate = false ∨ testf conn.host.ends conn.usingPty true opnum op args = true then
    ((conn.sendReply true op args).setOrig opnum op.side true).setValue opnum op.side args.tail
  else conn

/-- The option is already in effect. -/
def already (conn : NetConn) (op : Op) (args : List Byte) : Bool :=
  decide (conn.state (opnumOf args) op.side = op.nstate) &&
    (!op.nstate || veq args.tail (conn.value (opnumOf args) op.side))

/-- `negotiate` for a request that comes over the net. -/
def answer (conn : NetConn) (op : Op) (args : List Byte) : NetConn :=
  let opnum := opnumOf args
  let verdict := !op.nstate || testf conn.host.ends conn.usingPty false opnum op args
  if conn.already op args then conn
  else
    let replied := (conn.setValue opnum op.side args.tail).sendReply verdict op args
    if verdict then
      ((replied.actf opnum op args).setState opnum op.side op.nstate).setValue opnum op.side args.tail
    else replied

/-- `negotiate` for what is taken for the reply to a request that was made here. -/
def settled (conn : NetConn) (op : Op) (args : List Byte) : NetConn :=
  let opnum := opnumOf args
  (((conn.actf opnum op args).setOrig opnum op.side false).setState opnum op.side op.nstate).setValue
    opnum op.side args.tail

/-- negotiate -/
def negotiate (conn : NetConn) (orgHere : Bool) (op : Op) (args : List Byte) : NetConn :=
  if optlength (opnumOf args) ≠ none ∧ optlength (opnumOf args) ≠ some args.length then conn
  else if orgHere then conn.originate op.reverse args
  else if conn.orig (opnumOf args) op.side = false then conn.answer op args
  else conn.settled op args

/-! ### Reading -/

/-- The states after `CTRL_EXP`, in which a header is complete. -/
def CmdState.past : CmdState → Bool
  | .escapeExp | .hibyteExp | .lobyteExp | .ctrlExp => false
  | _ => true

/-- The end of `NetChar`, where the count is taken down. -/
def settle (conn : NetConn) (rstate : CmdState) : NetConn :=
  if CmdState.past rstate then
    if conn.count = 0 then
      { conn with cmdstate := if rstate = .withinData then .escapeExp else rstate }
    else { conn with count := conn.count - 1, cmdstate := rstate }
  else { conn with cmdstate := rstate }

/-- `InSynCnt--`, where an `int` has 16 bits. -/
def downCnt (count : Int) : Int := if count = -32768 then 32767 else count - 1

/-- A control is received. -/
def netCtrl (conn : NetConn) (c : Byte) : NetConn × CmdState :=
  if c = dataCode then (conn, .withinData)
  else if c = repeatCode then (conn, .countExp)
  else if c = setModeCode then (conn, .modeExp false)
  else if c = requestModeCode then (conn, .modeExp true)
  else if c = suspendCode then
    ({ conn with remState := .susp }.sendCtrl suspendedCode [], .escapeExp)
  else if c = suspendedCode then
    (if conn.locState = .susping then { conn with locState := .susp } else conn, .escapeExp)
  else if c = continueCode then
    (if conn.remState = .susp then { conn with remState := .active } else conn, .escapeExp)
  else if c = dmCode then ({ conn with inSynCnt := downCnt conn.inSynCnt }, .escapeExp)
  else if c = willCode then (conn, .optionExp .will)
  else if c = doCode then (conn, .optionExp .do_)
  else if c = wontCode then (conn, .optionExp .wont)
  else if c = dontCode then (conn, .optionExp .dont)
  else if c = breakCode then (conn.userChar 0, .escapeExp)
  else if c = aytCode then
    ((conn.sendCtrl nopCode []).sendBuf [0x59, 0x65, 0x73, cr, lf], .escapeExp)
  else if c = ipCode then ((conn.userChar conn.host.intr).sendSynch, .escapeExp)
  else if c = ecCode then (conn.userChar conn.host.erase, .escapeExp)
  else if c = elCode then (conn.userChar conn.host.kill, .escapeExp)
  else (conn, .escapeExp)

/-- A byte of an option is received. -/
def netOption (conn : NetConn) (op : Op) (c : Byte) : NetConn × CmdState :=
  let more := if conn.rest.length < 16 then conn.rest ++ [c] else conn.rest
  if conn.count = 0 then
    ({ { conn with rest := more }.negotiate false op more with rest := [] }, .escapeExp)
  else ({ conn with rest := more }, .optionExp op)

/-- NetChar -/
def netChar (conn : NetConn) (c : Byte) : NetConn :=
  match conn.cmdstate with
  | .escapeExp =>
    if c ≠ iac then
      (if conn.inSynCnt ≤ 0 then conn.userChar c else conn).settle .escapeExp
    else conn.settle .hibyteExp
  | .hibyteExp => { conn with count := c.toNat * 256 }.settle .lobyteExp
  | .lobyteExp => { conn with count := conn.count + c.toNat }.settle .ctrlExp
  | .ctrlExp => (conn.netCtrl c).1.settle (conn.netCtrl c).2
  | .optionExp op => (conn.netOption op c).1.settle (conn.netOption op c).2
  | .modeExp true =>
    ({ conn with xMode := XMode.ofByte c }.sendCtrl setModeCode [c]).settle .escapeExp
  | .modeExp false => conn.settle .escapeExp
  | .countExp => conn.settle (.charExp c.toNat)
  | .charExp ctrl => ((List.replicate ctrl c).foldl userChar conn).settle .escapeExp
  | .withinData => (conn.userChar c).settle .withinData

/-! ### One byte -/

section

variable {conn : NetConn}

@[simp] theorem settle_escape : conn.settle .escapeExp = { conn with cmdstate := .escapeExp } := rfl

theorem settle_count {rstate : CmdState} (past : CmdState.past rstate = true)
    (some : conn.count ≠ 0) :
    conn.settle rstate = { conn with count := conn.count - 1, cmdstate := rstate } := by
  unfold settle
  rw [if_pos past, if_neg some]

theorem netChar_iac (cmdstate : conn.cmdstate = .escapeExp) :
    conn.netChar iac = { conn with cmdstate := .hibyteExp } := by
  unfold netChar
  rw [cmdstate]
  rfl

theorem netChar_hibyte (cmdstate : conn.cmdstate = .hibyteExp) (c : Byte) :
    conn.netChar c = { conn with count := c.toNat * 256, cmdstate := .lobyteExp } := by
  unfold netChar
  rw [cmdstate]
  rfl

theorem netChar_lobyte (cmdstate : conn.cmdstate = .lobyteExp) (c : Byte) :
    conn.netChar c = { conn with count := conn.count + c.toNat, cmdstate := .ctrlExp } := by
  unfold netChar
  rw [cmdstate]
  rfl

theorem netChar_ctrl (cmdstate : conn.cmdstate = .ctrlExp) (c : Byte) :
    conn.netChar c = (conn.netCtrl c).1.settle (conn.netCtrl c).2 := by
  unfold netChar
  rw [cmdstate]

theorem netChar_option {op : Op} (cmdstate : conn.cmdstate = .optionExp op) (c : Byte) :
    conn.netChar c = (conn.netOption op c).1.settle (conn.netOption op c).2 := by
  unfold netChar
  rw [cmdstate]

theorem netOption_last (count : conn.count = 0) (room : conn.rest.length < 16) (op : Op) (c : Byte) :
    conn.netOption op c = ({ { conn with rest := conn.rest ++ [c] }.negotiate false op
      (conn.rest ++ [c]) with rest := [] }, .escapeExp) := by
  unfold netOption
  dsimp only
  rw [if_pos room, if_pos count]

end

end NetConn

end NetworkUnix.Telnet
