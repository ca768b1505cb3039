/-
This file models `DataIn`, which reads the messages of the user from the send port into the
ring of the connection: a control message with the security level and the flags, then the
header of the data message, then its text as far as there is room. The user closing his
port is left out.
-/

import NetworkUnix.UserTcp.Psipout

namespace NetworkUnix.UserTcp

/-! ### The port -/

/-- The bytes that a message takes in the port. -/
def PortMessage.size (message : PortMessage) : Nat :=
  if message.header then hdrlngth + message.text.length else message.text.length

/-- The bytes in the port. -/
def portSize (port : List PortMessage) : Nat := (port.map PortMessage.size).sum

/-- A write to the port. -/
def portWrite (port : List PortMessage) (text : List Byte) : List PortMessage :=
  if written : text ≠ [] then port ++ [PortMessage.mk true text written] else port

/-- The port after `count` bytes of its first message are read. -/
def portRead (message : PortMessage) (rest : List PortMessage) (count : Nat) :
    List PortMessage :=
  if written : message.text.drop count ≠ [] then
    PortMessage.mk false (message.text.drop count) written :: rest
  else rest

/-! ### The state of the data stream -/

/-- The state for a control message: the security, the flags, and 1. -/
def controlState (secur flags : Byte) : BitVec 16 :=
  (secur.signExtend 16 <<< 8) + (flags.signExtend 16 <<< 4) + 1

/-- What is stored in `FlagBuff` with each byte of the message. -/
def securOf (dataState : BitVec 16) : Byte :=
  (dataState.sshiftRight 5 &&& 0o170).setWidth 8

/-- The EOL bit of the message. -/
def eolOf (dataState : BitVec 16) : Bool := dataState.sshiftRight 4 &&& 1 = 1

/-- The level in the control message is not between the limits. -/
def Tcb.secBad (p : Params) (t : Tcb) (secur : Byte) : Bool :=
  p.auth && (decide (t.scMaxOut < secur.toInt) || decide (secur.toInt < t.scMinOut))

/-- The space at the end of the ring. -/
def Tcb.tailSpc (t : Tcb) : Int :=
  if t.dataHd ≤ t.dataTl then
    if t.dataHd = 0 then rbuffsize - t.dataTl - 1 else rbuffsize - t.dataTl
  else t.dataHd - t.dataTl - 1

/-- `FlagBuff` when the bytes of a message are stored. -/
def Tcb.storeFlags (p : Params) (t : Tcb) (count : Nat) (last : Bool) : Int → Byte :=
  if p.auth then
    let flags := Circular.place t.flagBuff t.dataTl
      (List.replicate count (securOf t.dataState))
    let top := t.dataTl + count - 1
    if last && eolOf t.dataState then Function.update flags top (flags top ||| 1) else flags
  else t.flagBuff

/-- Bytes of a message are stored in the ring; `last` tells that the message ends with them. -/
def Tcb.store (p : Params) (t : Tcb) (bytes : List Byte) (last : Bool) : Tcb :=
  { t with
    retranBuff := Circular.place t.retranBuff t.dataTl bytes
    flagBuff := t.storeFlags p bytes.length last
    dataTl := if t.dataTl + bytes.length = rbuffsize then 0 else t.dataTl + bytes.length
    dataLeft := if last then t.dataLeft else t.dataLeft - bytes.length
    dataState := if last then 0 else t.dataState }

/-! ### The loop -/

/-- The variables of the loop: the space in the ring, the bytes in the port, and whether data came.
-/
structure Reading where
  conn : Conn
  spcAvl : Int
  cap : Int
  newData : Bool

namespace Reading

/-- The control message is read. -/
def readControl (p : Params) (r : Reading) (message : PortMessage) (rest : List PortMessage) :
    Reading :=
  let secur := message.text.getD 0 0
  let t := r.conn.tcb
  { r with
    conn := { r.conn with
      sendPort := rest
      secur
      tcb := { t with
        dataState := controlState secur (message.text.getD 1 0)
        flags := { t.flags with discdata := t.secBad p secur } } }
    cap := r.cap - (message.text.length + hdrlngth) }

/-- The header of the data message is read. -/
def readHeader (r : Reading) (message : PortMessage) (rest : List PortMessage) : Reading :=
  { r with
    conn := { r.conn with
      sendPort := { message with header := false } :: rest
      tcb := { r.conn.tcb with
        dataState := r.conn.tcb.dataState + 1
        dataLeft := message.text.length } }
    cap := r.cap - hdrlngth }

/-- The text is thrown away, and the user is told. -/
def discard (r : Reading) (message : PortMessage) (rest : List PortMessage) : Reading :=
  let left := r.conn.tcb.dataLeft
  { r with
    conn := { r.conn with
      sendPort := portRead message rest left.toNat
      tcb := { r.conn.tcb with
        dataState := 0
        dataLeft := if left ≤ tcpinsz then left else (left - 1) % tcpinsz + 1 } }.tell (.secErr left)
    cap := r.cap - left }

/-- The text is read, as much as there is space for at the end of the ring. -/
def readText (p : Params) (r : Reading) (message : PortMessage) (rest : List PortMessage) :
    Reading :=
  let t := r.conn.tcb
  let count := min t.dataLeft t.tailSpc
  let bytes := message.text.take count.toNat
  { conn := { r.conn with
      sendPort := portRead message rest count.toNat
      tcb := t.store p bytes (decide (t.dataLeft ≤ t.tailSpc))
      taken := r.conn.taken ++ bytes.map fun byte => ⟨byte, r.conn.secur⟩ }
    spcAvl := r.spcAvl - count
    cap := r.cap - count
    newData := true }

/-- One turn of the loop, by the state of the data stream. -/
def turn (p : Params) (r : Reading) : Reading :=
  match r.conn.sendPort with
  | [] => r
  | message :: rest =>
    let state := r.conn.tcb.dataState &&& 0o17
    if state = 0 then r.readControl p message rest
    else if state = 1 then r.readHeader message rest
    else if state = 2 then
      if p.auth && r.conn.tcb.flags.discdata then r.discard message rest
      else r.readText p message rest
    else r

/-- The loop. -/
def loop (p : Params) : Nat → Reading → Reading
  | 0, r => r
  | more + 1, r => if 0 < r.spcAvl ∧ 0 < r.cap then loop p more (r.turn p) else r

end Reading

/-- All that is to go before the FIN is in the ring. -/
def Tcb.atClose (t : Tcb) : Bool :=
  t.flags.sendfin &&
    decide (t.leftSeq + BitVec.ofInt 32 (around t.dataTl t.dataHd) = t.sndFSN)

/-- The states in which new data is sent at once. -/
def Tcb.sending (t : Tcb) : Bool := decide (t.state = .estab) || decide (t.state = .closewait)

/-- DataIn. A turn of the loop takes at least one byte from the port. -/
def Conn.dataIn (p : Params) (c : Conn) : Conn :=
  let cap : Int := portSize c.sendPort
  let spcAvl := around (c.tcb.dataHd - 1) c.tcb.dataTl
  if c.tcb.state = .closed ∨ cap = 0 ∨ spcAvl = 0 ∨ c.tcb.atClose then c
  else
    let r := Reading.loop p cap.toNat ⟨c, spcAvl, cap, false⟩
    if r.newData && r.conn.tcb.sending then r.conn.makeWrk else r.conn

end NetworkUnix.UserTcp
