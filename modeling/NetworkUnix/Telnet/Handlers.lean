/-
This file models the handlers that the Telnet program runs when there is something to read or
room to write: from the user or the pty to the net and back, and the commands that send
controls. Typed commands are taken as given; a character that is no part of one is text.
-/

import NetworkUnix.Telnet.Netcmd

namespace NetworkUnix.Telnet

/-- NETGROW -/
def netgrow : Nat := 7

/-- USERGROW -/
def usergrow : Nat := 255

/-- Cfree -/
def CircBuf.free (b : CircBuf) : Nat := cbufsize - b.len

namespace NetConn

/-! ### From the user -/

/-- What `process` makes of text: LF follows CR. -/
def processed (bin : Bool) (inbuf : List Byte) : List Byte :=
  inbuf.flatMap fun c => if c = cr ∧ bin = false then [c, lf] else [c]

/-- `process` with command interpretation off. -/
def process (conn : NetConn) (inbuf : List Byte) : NetConn :=
  if inbuf = [] then conn else conn.sendBuf (processed conn.toNetBin inbuf)

/-- What `servproc` makes of text, and `ToNetCr` after it. -/
def served (bin : Bool) : Bool → List Byte → List Byte × Bool
  | toNetCr, [] => ([], toNetCr)
  | toNetCr, c :: rest =>
    let others := served bin (decide (c = cr) && !bin) rest
    ((if toNetCr = true ∧ c ≠ lf then [0, c] else [c]) ++ others.1, others.2)

/-- servproc -/
def servproc (conn : NetConn) (inbuf : List Byte) : NetConn :=
  let out := served conn.toNetBin conn.toNetCr inbuf
  if out.1 = [] then conn else { conn with toNetCr := out.2 }.sendBuf out.1

/-- How much `FromUser` reads when the capacity is `cap`; `commands` tells that command processing
is on. -/
def fromUserReq (conn : NetConn) (commands : Bool) (cap : Nat) : Nat :=
  let nreq := conn.toNetBuf.free
  if conn.remState = .susp then 0
  else if nreq < cbufsize / 2 ∧ (conn.usingPty ∨ commands = false) then 0
  else
    let nreq := if nreq = 0 then 1 else nreq
    min (if netgrow ≤ nreq then nreq / netgrow else nreq) cap

/-- FromUser, with the text that is read. -/
def fromUser (conn : NetConn) (inbuf : List Byte) : NetConn :=
  if conn.usingPty then conn.servproc inbuf else conn.process inbuf

/-- The commands that send a control. -/
def netsend (conn : NetConn) (arg : Byte) : NetConn :=
  if arg = suspendCode then { conn.sendCtrl suspendCode [] with locState := .susping }
  else if arg = continueCode then { conn.sendCtrl continueCode [] with locState := .active }
  else if arg = aoCode ∨ arg = breakCode ∨ arg = ipCode then (conn.sendCtrl arg []).sendSynch
  else if arg = aytCode ∨ arg = ecCode ∨ arg = elCode then conn.sendCtrl arg []
  else if arg = dmCode then conn.sendSynch
  else conn

/-- The commands for the mode: `will` and `wont` set it, `do` and `dont` ask for it. -/
def modeCmd (conn : NetConn) (op : Op) (mode : XMode) : NetConn :=
  match op with
  | .will | .wont => { conn.sendCtrl setModeCode [mode.code] with xMode := mode }
  | .do_ | .dont => conn.sendCtrl requestModeCode [mode.code]

/-- netintr -/
def netintr (conn : NetConn) : NetConn := (conn.sendCtrl ipCode []).sendSynch

/-! ### To and from the net -/

/-- ToNet, with what is sent; `urgent` and `normal` tell whether the two calls of `TcpSend`
succeed. -/
def toNet (conn : NetConn) (urgent normal : Bool) : NetConn × List Byte :=
  let buffer := conn.toNetBuf.bytes
  if buffer = [] then (if conn.toNetEOF = 1 then { conn with toNetEOF := 2 } else conn, [])
  else if conn.toNetEOF = 2 then (conn, [])
  else if conn.outSynCnt ≠ 0 ∧ urgent = false then (conn, [])
  else if normal then
    ({ conn with outSynCnt := 0, toNetBuf := conn.toNetBuf.init }, buffer)
  else
    ({ conn with
        outSynCnt := 0
        toNetBuf := { conn.toNetBuf with bytes := buffer.drop conn.outSynCnt } },
      buffer.take conn.outSynCnt)

/-- BeginSynch -/
def beginSynch (conn : NetConn) : NetConn :=
  { conn with inSynCnt := 1, toUsrBuf := conn.toUsrBuf.init }

/-- How much `FromNet` asks for. -/
def fromNetReq (conn : NetConn) : Nat :=
  if conn.inSynCnt ≤ 0 then conn.fmNetBuf.free else cbufsize

/-- FromNet, with what `TcpReceive` gives. -/
def fromNet (conn : NetConn) (fnbuffer : List Byte) (urgFlag : Bool) : NetConn :=
  let begun := if urgFlag then conn.beginSynch else conn
  { begun with fmNetBuf := begun.fmNetBuf.puts fnbuffer }

/-- A round of the loop of `NetCmd`. -/
def netCmd (conn : NetConn) : Option NetConn :=
  match conn.fmNetBuf.bytes with
  | [] => none
  | c :: rest =>
    if usergrow ≤ conn.toUsrBuf.free then
      some ({ conn with fmNetBuf := { conn.fmNetBuf with bytes := rest } }.netChar c)
    else none

/-- ToUser, with what `Cwrite` writes. -/
def toUser (conn : NetConn) (nwrite : Nat) : NetConn × List Byte :=
  ({ conn with toUsrBuf := { conn.toUsrBuf with bytes := conn.toUsrBuf.bytes.drop nwrite } },
    conn.toUsrBuf.bytes.take nwrite)

end NetConn

end NetworkUnix.Telnet
