/-
This file models the tables of the user-level TCP and the commands that change
them: the control blocks on the active list and on the free list, the bit map of
the local ports, the entries of FdsBffer, the retransmission queue and the
descriptors that are open in the system. The linked lists of control blocks are
Lean lists. What the system and the authorization file answer to an open is part
of the command.
-/

import Mathlib.Data.List.Nodup
import NetworkUnix.UserTcp.Tcb
import NetworkUnix.UserTcp.Work

namespace NetworkUnix.UserTcp.Process

/-- NUMBTCBS -/
def numbtcbs : Nat := 10

/-- FDSSIZE -/
def fdssize : Nat := 50

/-- PORTCNT -/
def portcnt : Nat := 16

/-- BASEPORT -/
def baseport : Int := 512

/-- A picture of a FdsBffer entry. -/
@[ext]
structure FdsBlk where
  buffFlags : Opcode
  buffFds : Nat
  buffTcbPtr : TcbPtr
  deriving DecidableEq

/-- The Open Parameters of a control block that the authorization file decides. -/
structure OpenParams where
  scMaxOut : Int
  scMinOut : Int
  scMaxIn : Int
  scMinIn : Int
  atPrec : Int
  sndPrec : Int
  mnRcvPrec : Int
  mxRcvPrec : Int
  tccCnt : Nat
  tccList : Nat → Int

/-- The parameters of a connection are within those of one that accepts it. -/
def OpenParams.within (params other : OpenParams) : Bool :=
  decide (params.scMaxOut ≤ other.scMaxOut) && decide (other.scMinOut ≤ params.scMinOut) &&
    decide (params.scMaxIn ≤ other.scMaxIn) && decide (other.scMinIn ≤ params.scMinIn) &&
    decide (params.sndPrec ≤ other.atPrec) && decide (params.mxRcvPrec ≤ other.mxRcvPrec) &&
    decide (other.mnRcvPrec ≤ params.mnRcvPrec) &&
    (List.range other.tccCnt).any fun i => decide (params.tccList 0 = other.tccList i)

/-- The part of a control block that the commands read and write; its sequence numbers and its
data are those of `Tcb`. -/
structure TcpTcb where
  connHandle : Int
  state : ConnState
  tMode : Int
  procID : Int
  tcpCmdPort : Nat
  userCmdPort : Nat
  sendPort : Nat
  recvPort : Nat
  params : OpenParams
  srcePort : Int
  dst : Skt

/-- The tables: the active list and the free list of control blocks, the control blocks, the rows of
PortMap, FdsBffer, the retransmission queue and the descriptors that are open. -/
structure Tables where
  tcbHd : List Nat
  tcbAvl : List Nat
  tcb : Nat → TcpTcb
  portMap : Nat → BitVec 16
  fdsBffer : Nat → FdsBlk
  retranQ : List Nat
  inUse : Nat → Bool

/-- The error codes with which an open is answered. -/
inductive OErr
  | esysc
  | eunauth
  | eunspec
  | esndprt
  | ercvprt
  | ebadparam
  deriving DecidableEq

/-- The answer to an open. -/
inductive Answer
  | oack (handle : Nat)
  | oerr (code : OErr)
  deriving DecidableEq

/-- lib -> tcp: open (listen for) a connection -/
structure MOpen where
  oHandle : Int
  openMode : Int
  net : Int
  hostH : Int
  hostL : Int
  srcPrt : Int
  dstPrt : Int

/-- A part of the foreign socket is not specified. -/
def MOpen.unspecified (msg : MOpen) : Bool :=
  decide (msg.net = 0) || (decide (msg.hostH = 0) && decide (msg.hostL = 0)) ||
    decide (msg.dstPrt = 0)

/-- What an open is told from outside: the process that sent it, the result of `Authorize`, whether
the user may use the first 256 ports, and the descriptors of the two data ports, none where the
port could not be opened. -/
structure OpenWith where
  usrPID : Int
  authorize : Except OErr OpenParams
  first256 : Bool
  sndFds : Option Nat
  rcvFds : Option Nat

namespace Tables

/-! ### The tables -/

def setTcb (tables : Tables) (handle : Nat) (block : TcpTcb) : Tables :=
  { tables with tcb := Function.update tables.tcb handle block }

/-- An entry is made in FdsBffer if there is one for the descriptor. -/
def enter (tables : Tables) (fd : Nat) (flags : Opcode) (ptr : TcbPtr) : Tables :=
  if fd < fdssize then
    { tables with fdsBffer := Function.update tables.fdsBffer fd ⟨flags, fd, ptr⟩ }
  else tables

/-- The flags of an entry are cleared. -/
def clear (tables : Tables) (fd : Nat) : Tables :=
  { tables with
    fdsBffer := Function.update tables.fdsBffer fd { tables.fdsBffer fd with buffFlags := .unused } }

/-- A descriptor is opened. -/
def acquire (tables : Tables) (fd : Nat) : Tables :=
  { tables with inUse := Function.update tables.inUse fd true }

/-- close -/
def close (tables : Tables) (fd : Nat) : Tables :=
  { tables with inUse := Function.update tables.inUse fd false }

/-- The first bit of a row that is not set. -/
def freeBit (row : BitVec 16) : Option Nat := (List.range 16).find? fun j => !row.getLsbD j

/-- The first row and column of PortMap that is not used. -/
def freePort (portMap : Nat → BitVec 16) : Option (Nat × Nat) :=
  (List.range portcnt).findSome? fun i => (freeBit (portMap i)).map fun j => (i, j)

def setBit (tables : Tables) (i j : Nat) : Tables :=
  { tables with portMap := Function.update tables.portMap i (tables.portMap i ||| 1#16 <<< j) }

def clearBit (tables : Tables) (i j : Nat) : Tables :=
  { tables with portMap := Function.update tables.portMap i (tables.portMap i &&& ~~~(1#16 <<< j)) }

/-- The bit of a local port is cleared if it is one of those that the program gives out. -/
def clearPort (tables : Tables) (port : Int) : Tables :=
  if baseport ≤ port ∧ port < baseport + 256 then
    tables.clearBit ((port.toNat / 16) % 16) (port.toNat % 16)
  else tables

/-- The start: no connections, no ports, no entries. -/
def init (tcb : Nat → TcpTcb) : Tables where
  tcbHd := []
  tcbAvl := List.range numbtcbs
  tcb
  portMap _ := 0
  fdsBffer _ := ⟨.unused, 0, .null⟩
  retranQ := []
  inUse _ := false

/-- ChkPtr -/
def chkPtr (tables : Tables) (handle fds : Nat) : Bool :=
  decide (handle ∈ tables.tcbHd) && decide ((tables.tcb handle).userCmdPort = fds)

/-! ### An open -/

/-- The control block of an open that fails is returned: it is first on the active list. -/
def giveBack (tables : Tables) (handle : Nat) : Tables :=
  { tables with tcbHd := tables.tcbHd.tail, tcbAvl := handle :: tables.tcbAvl }

/-- An open is answered with an error, its control block returned. -/
def refuse (tables : Tables) (handle : Nat) (code : OErr) : Answer × Tables :=
  (.oerr code, tables.giveBack handle)

/-- The choice of a local port, or the check of the one that the user asks for. -/
def localPort (auth : Bool) (outside : OpenWith) (port : Int) (tables : Tables) :
    Except OErr (Int × Tables) :=
  if port = 0 then
    match freePort tables.portMap with
    | none => .error .esysc
    | some (i, j) => .ok (baseport + 16 * i + j, tables.setBit i j)
  else if port < 256 then
    if auth && !outside.first256 then .error .eunauth else .ok (port, tables)
  else if baseport ≤ port ∧ port < baseport + 256 then .error .ebadparam
  else .ok (port, tables)

/-- Another active control block has the same pair of sockets. -/
def pairTaken (tables : Tables) (handle : Nat) (port : Int) (dst : Skt) : Bool :=
  tables.tcbHd.any fun other => decide (other ≠ handle) &&
    decide ((tables.tcb other).srcePort = port) && decide ((tables.tcb other).dst = dst)

/-- The control block of an open that has got its ports is filled in, and the ports are entered. -/
def fillIn (portFds : Nat) (msg : MOpen) (usrPID : Int) (handle : Nat) (port : Int) (snd rcv : Nat)
    (tables : Tables) : Tables :=
  ((tables.setTcb handle
    { tables.tcb handle with
      state := .opened
      tMode := msg.openMode
      procID := usrPID
      userCmdPort := portFds
      sendPort := snd
      recvPort := rcv
      srcePort := port
      dst := ⟨msg.net, msg.hostH, msg.hostL, msg.dstPrt⟩ }).enter snd .userinhp (.tcb handle)).enter
    rcv .userouthp (.tcb handle)

/-- The last part of an open: the data ports, the control block and the check of the pair of
sockets. -/
def openPorts (portFds : Nat) (msg : MOpen) (outside : OpenWith) (handle : Nat) (port : Int)
    (tables : Tables) : Answer × Tables :=
  match outside.sndFds, outside.rcvFds with
  | none, _ => tables.refuse handle .esndprt
  | some snd, none => (.oerr .ercvprt, ((tables.acquire snd).giveBack handle).close snd)
  | some snd, some rcv =>
    let filled :=
      ((tables.acquire snd).acquire rcv).fillIn portFds msg outside.usrPID handle port snd rcv
    if msg.openMode = 0 ∧ filled.pairTaken handle port ⟨msg.net, msg.hostH, msg.hostL, msg.dstPrt⟩ then
      (.oerr .ebadparam,
        ((((filled.giveBack handle).close snd).close rcv).clear snd).clear rcv)
    else (.oack handle, filled)

/-- An open that has a control block and is authorized. -/
def openLocal (auth : Bool) (portFds : Nat) (msg : MOpen) (outside : OpenWith) (handle : Nat)
    (tables : Tables) : Answer × Tables :=
  match localPort auth outside msg.srcPrt tables with
  | .error code => tables.refuse handle code
  | .ok (port, tables) =>
    if msg.openMode = 0 ∧ msg.unspecified then tables.refuse handle .eunspec
    else tables.openPorts portFds msg outside handle port

/-- An open that has a control block. -/
def openTcb (auth : Bool) (portFds : Nat) (msg : MOpen) (outside : OpenWith) (handle : Nat)
    (tables : Tables) : Answer × Tables :=
  if auth then
    match outside.authorize with
    | .error code => tables.refuse handle code
    | .ok params =>
      (tables.setTcb handle { tables.tcb handle with params }).openLocal auth portFds msg outside
        handle
  else tables.openLocal auth portFds msg outside handle

/-- The first free control block is put on the active list. -/
def activate (handle : Nat) (rest : List Nat) (connHandle : Int) (tcpFds : Nat) (tables : Tables) :
    Tables :=
  { tables.setTcb handle { tables.tcb handle with connHandle, tcpCmdPort := tcpFds } with
    tcbHd := handle :: tables.tcbHd
    tcbAvl := rest }

/-- Where no control block is free, the search for one to preempt looks at the first active one for
ever. -/
def searches (auth : Bool) (tables : Tables) : Bool :=
  tables.tcbAvl.isEmpty && auth && !tables.tcbHd.isEmpty

/-- OOPEN, which has no result if it searches for ever. -/
def oopen (auth : Bool) (portFds tcpFds : Nat) (msg : MOpen) (outside : OpenWith)
    (tables : Tables) : Option (Answer × Tables) :=
  match tables.tcbAvl with
  | [] => if tables.searches auth then none else some (.oerr .esysc, tables)
  | handle :: rest =>
    some ((tables.activate handle rest msg.oHandle tcpFds).openTcb auth portFds msg outside handle)

/-! ### The other commands -/

/-- UnQTcb -/
def unQTcb (handle : Nat) (tables : Tables) : Tables :=
  { tables with retranQ := tables.retranQ.filter (· ≠ handle) }

/-- QTcb -/
def qTcb (handle : Nat) (tables : Tables) : Tables :=
  if handle ∈ tables.retranQ then tables else { tables with retranQ := handle :: tables.retranQ }

/-- A control block is taken off the active list and put on the free list. -/
def deleteTcb (handle : Nat) (tables : Tables) : Tables :=
  if handle ∈ tables.tcbHd then
    { tables with tcbHd := tables.tcbHd.erase handle, tcbAvl := handle :: tables.tcbAvl }
  else tables

/-- What `Abort` does to the tables. -/
def abort (handle : Nat) (tables : Tables) : Tables :=
  (((((((tables.close (tables.tcb handle).sendPort).close (tables.tcb handle).recvPort).clear
    (tables.tcb handle).sendPort).clear (tables.tcb handle).recvPort).clearPort
    (tables.tcb handle).srcePort).unQTcb handle).deleteTcb handle)

/-- What the close of a command port does to the tables. -/
def closeCmd (portFds tcpFds : Nat) (tables : Tables) : Tables :=
  (((tables.close portFds).close tcpFds).clear portFds).clear tcpFds

/-- What OINIT does to the tables: the port of the user and that of the program are entered. -/
def initUser (usrFds fDesc : Nat) (tables : Tables) : Tables :=
  (((tables.acquire usrFds).acquire fDesc).enter usrFds .usrcmd (.fds fDesc)).enter fDesc .tcpcmd
    .null

/-- The state of a control block and its foreign socket are changed. -/
def change (handle : Nat) (state : ConnState) (dst : Skt) (tables : Tables) : Tables :=
  tables.setTcb handle { tables.tcb handle with state, dst }

/-- A control block that accepts the connection of another one. -/
def accepts (auth : Bool) (misc : Int) (mover block : TcpTcb) : Bool :=
  decide (block.tMode = 2) && decide (block.state = .opened) &&
    (decide (misc = 0) || decide (misc = block.procID)) &&
    (!auth || mover.params.within block.params)

/-- The control block that accepts a connection, where it may be moved. -/
def acceptor (auth : Bool) (misc : Int) (mover : Nat) (tables : Tables) : Option Nat :=
  if (tables.tcb mover).state = .estab ∨ (tables.tcb mover).state = .closewait ∨
      (tables.tcb mover).state = .finwait then
    tables.tcbHd.find? fun handle => accepts auth misc (tables.tcb mover) (tables.tcb handle)
  else none

/-- What a move does to the tables: the mover and the acceptor exchange their ports and handles. -/
def exchange (mover acceptor : Nat) (tables : Tables) : Tables :=
  let from_ := tables.tcb mover
  let to_ := tables.tcb acceptor
  { tables with
    tcb := Function.update (Function.update tables.tcb mover
        { from_ with
          tcpCmdPort := to_.tcpCmdPort
          userCmdPort := to_.userCmdPort
          sendPort := to_.sendPort
          recvPort := to_.recvPort
          connHandle := to_.connHandle
          procID := to_.procID }) acceptor
      { to_ with
        tcpCmdPort := from_.tcpCmdPort
        userCmdPort := from_.userCmdPort
        sendPort := from_.sendPort
        recvPort := from_.recvPort
        connHandle := from_.connHandle
        state := .closed }
    fdsBffer := fun fd =>
      if fd < fdssize ∧ (tables.fdsBffer fd).buffFlags ≠ .unused then
        { tables.fdsBffer fd with
          buffTcbPtr := (tables.fdsBffer fd).buffTcbPtr.exchange acceptor mover }
      else tables.fdsBffer fd }

end Tables

end NetworkUnix.UserTcp.Process
