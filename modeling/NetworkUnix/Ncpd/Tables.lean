/-
This file models the tables of the network control program's daemon: the socket
structs, the file structs, the request for the socket machine, and the numbers
that are assigned from bit maps. It also models what the daemon writes to the
kernel and to the host status file.

A socket number stands in network byte order in the tables, so it is kept as the
number it denotes. The per-host queues are those of the protocol file; every use
of a per-host table is remembered with the value of the global host. What happens
to a socket struct is remembered with it: its states, the commands built from it
with the queue they were put on, and the events that concern it.
-/

import NetworkUnix.Ncpd.Protocol

namespace NetworkUnix.Ncpd

/-! ### Socket and file structs -/

def nsockets : Nat := 64

def nfiles : Nat := 16

abbrev SktNo := Fin nsockets

abbrev FileNo := Fin nfiles

/-- The type index of a socket within its file. -/
inductive SktIndex
  | rcv
  | xmit
  | icp
deriving DecidableEq

/-- The index of the data socket for the other direction. -/
def SktIndex.other : SktIndex → SktIndex
  | .rcv => .xmit
  | .xmit => .rcv
  | .icp => .icp

inductive SktState
  | glsn
  | slsn
  | rfcw
  | q
  | cacw
  | clsw
  | clow
  | opened
  | c2cw
  | orfnmw
  | clorfnmw
  | rfnmw
  | null
deriving DecidableEq

/-- The operations of the socket machine. -/
inductive SktOp
  | glsn
  | slsn
  | init
  | rfc
  | cls
  | close
  | kill
  | timo
  | dead
deriving DecidableEq

/-- The code of a request is the state of the struct that is made from it. -/
def SktOp.state : SktOp → SktState
  | .glsn => .glsn
  | .slsn => .slsn
  | .init => .rfcw
  | .rfc => .q
  | .cls => .cacw
  | .close => .clsw
  | .kill => .clow
  | .timo => .opened
  | .dead => .c2cw

/-- A socket struct. A timeout of zero is none. -/
structure Socket where
  lskt : BitVec 16
  fskt : BitVec 32
  hlHost : BitVec 8
  hlLink : BitVec 8
  state : SktState
  bysz : BitVec 8
  filep : Option FileNo
  timeo : Int
  sinx : SktIndex
deriving DecidableEq

/-- The request for the socket machine. -/
structure Request where
  lskt : BitVec 16
  fskt : BitVec 32
  hlHost : BitVec 8
  hlLink : BitVec 8
  state : SktOp
  bysz : BitVec 8
  filep : Option FileNo
  sinx : SktIndex
deriving DecidableEq

inductive FileState
  | null
  | uiopw
  | uisnw
  | dopnw
  | opened
  | gonew
  | siopw
  | sialw
  | sirfw
deriving DecidableEq

/-- A file struct, with the byte size of its connection. -/
structure File where
  id : BitVec 16
  sbase : BitVec 16
  state : FileState
  sktX : SktIndex → Option SktNo
  nsatt : Int
  nsrsrv : Int
  timeo : Int
  bysz : BitVec 8

/-! ### What the daemon writes -/

/-- What a setup or a modification tells the kernel about a socket. -/
structure Sumod where
  sinx : SktIndex
  id : BitVec 16
  hlHost : BitVec 8
  hlLink : BitVec 8
  stat : BitVec 8
  bysz : BitVec 8
  msgs : BitVec 16
  bitsHi : BitVec 16
  bitsLo : BitVec 16
  lskt : BitVec 16
  fskt : BitVec 32

/-- The instructions to the kernel, but for the host-host messages, and the entries of the host
status file. -/
inductive Output
  | send (host : Nat) (link bysz : BitVec 8) (data : List (BitVec 8))
  | stup (socket : Sumod)
  | mod (socket : Sumod)
  | redy (id : BitVec 16) (code : Nat)
  | clen (id : BitVec 16) (sinx : SktIndex) (hlHost hlLink : BitVec 8)
  | rset (host : Nat)
  | frlse (id : BitVec 16)
  | timo
  | hsUpdate (host : Nat) (stat : BitVec 16)

def ksbOpen : BitVec 8 := 0x40

def ksbDdat : BitVec 8 := 0x20

def edaeio : Nat := 49

def edinv : Nat := 50

def ednores : Nat := 51

def stimeout : Int := 20

def ftimeout : Int := 60

/-- The number of retries on a transmission. -/
def xRetries : Int := 1

/-! ### The daemon -/

/-- What happens to a socket struct: it takes a state; the kernel is told to clean it; a command is
built from it and queued for a host, while its own host is another entry; the kernel closes it; a
close matches it; its timer runs out; its host dies. -/
inductive Mark
  | state (state : SktState)
  | clean
  | rfc (host : Nat) (hlHost : BitVec 8)
  | cls (host : Nat) (hlHost : BitVec 8)
  | all (host : Nat) (hlHost : BitVec 8)
  | closed
  | matched
  | expired
  | dead
deriving DecidableEq

/-- The tables and the global variables. `sfhbyte` says that the daemon is built for byte sizes other
than eight bits; `clock` is the time of day; `died` says that the daemon has
found an inconsistency and stopped, and nothing that happens after that is seen. The last three
entries are histories: of each socket struct, of the values of the global host that have indexed a
table, and of the requests that found no struct. -/
structure Daemon where
  sfhbyte : Bool
  ncp : Ncp
  sockets : SktNo → Socket
  files : FileNo → File
  nsLeft : Int
  nfLeft : Int
  sktReq : Request
  fp : FileNo
  sktMap : Nat → Bool
  lasktn : Int
  laslnkn : Int
  stimeo : Int
  ftimeo : Int
  timeo : Int
  clock : Int
  died : Bool
  output : List Output
  life : SktNo → List Mark
  indexed : List Nat
  failed : List Request

namespace Daemon

def setSkt (d : Daemon) (i : SktNo) (change : Socket → Socket) : Daemon :=
  { d with sockets := Function.update d.sockets i (change (d.sockets i)) }

def setFile (d : Daemon) (f : FileNo) (change : File → File) : Daemon :=
  { d with files := Function.update d.files f (change (d.files f)) }

def write (d : Daemon) (entry : Output) : Daemon := { d with output := d.output ++ [entry] }

def mark (d : Daemon) (i : SktNo) (m : Mark) : Daemon :=
  { d with life := Function.update d.life i (d.life i ++ [m]) }

def die (d : Daemon) : Daemon := { d with died := true }

/-- A use of the per-host tables. -/
def onHost (d : Daemon) (change : Ncp → Ncp) : Daemon :=
  { d with ncp := change d.ncp, indexed := d.indexed ++ [d.ncp.host] }

/-- The whole global host is set. -/
def setHost (d : Daemon) (h : Nat) : Daemon := { d with ncp := { d.ncp with host := h } }

/-- The low byte of the global host is set. -/
def setHostLow (d : Daemon) (h : BitVec 8) : Daemon := { d with ncp := d.ncp.setLow h.toNat }

/-! ### Host-host commands -/

def qupPro (d : Daemon) (cmd : Cmd) : Daemon := d.onHost fun s => Ncpd.qupPro s cmd

def sendPro (d : Daemon) : Daemon := d.onHost (Ncpd.sendPro xRetries)

end Daemon

/-- The bytes of a number, the high one first. -/
def bytes16 (n : BitVec 16) : List (BitVec 8) := [(n >>> 8).setWidth 8, n.setWidth 8]

def bytes32 (n : BitVec 32) : List (BitVec 8) :=
  bytes16 ((n >>> 16).setWidth 16) ++ bytes16 (n.setWidth 16)

/-- The eight bytes of the socket numbers in a command. -/
def hwS2b (s : Socket) : List (BitVec 8) := [0, 0] ++ bytes16 s.lskt ++ bytes32 s.fskt

/-- A send socket has an odd number. -/
def isSend (lskt : BitVec 16) : Bool := lskt.getLsbD 0

/-- The request for a connection that a socket struct stands for. -/
def rfcOf (s : Socket) : Cmd :=
  if isSend s.lskt then ⟨2 :: (hwS2b s ++ [s.bysz]), List.cons_ne_nil _ _, by simp [hwS2b, bytes16, bytes32]⟩
  else ⟨1 :: (hwS2b s ++ [s.hlLink]), List.cons_ne_nil _ _, by simp [hwS2b, bytes16, bytes32]⟩

def clsOf (s : Socket) : Cmd := ⟨3 :: hwS2b s, List.cons_ne_nil _ _, by simp [hwS2b, bytes16, bytes32]⟩

def allOf (s : Socket) (msgs bits : BitVec 16) : Cmd :=
  ⟨4 :: s.hlLink :: (bytes16 msgs ++ [0, 0] ++ bytes16 bits), List.cons_ne_nil _ _,
    by simp [bytes16]⟩

/-- An error command: the code and ten bytes, padded with zeros. -/
def errOf (code : BitVec 8) (text : List (BitVec 8)) : Cmd :=
  ⟨11 :: code :: (text ++ List.replicate 10 0).take 10, List.cons_ne_nil _ _,
    by simp [List.length_take]⟩

namespace Daemon

/-- A command is built from a socket struct and queued for the current host. -/
def hwFrom (d : Daemon) (i : SktNo) (cmd : Cmd) (m : Nat → BitVec 8 → Mark) : Daemon :=
  (d.qupPro cmd).mark i (m d.ncp.host (d.sockets i).hlHost)

def hwRfc (d : Daemon) (i : SktNo) : Daemon := d.hwFrom i (rfcOf (d.sockets i)) .rfc

def hwCls (d : Daemon) (i : SktNo) : Daemon := d.hwFrom i (clsOf (d.sockets i)) .cls

def hwAll (d : Daemon) (i : SktNo) (msgs bits : BitVec 16) : Daemon :=
  d.hwFrom i (allOf (d.sockets i) msgs bits) .all

def hwErr (d : Daemon) (code : BitVec 8) (text : List (BitVec 8)) : Daemon :=
  d.qupPro (errOf code text)

/-- A host that is not up gets a reset, unless a reply is awaited; the result says that there was no
need. -/
def chkHost (d : Daemon) : Daemon × Bool :=
  (d.onHost fun s => (Ncpd.chkHost xRetries s).1, (Ncpd.chkHost xRetries d.ncp).2)

def prFlush (d : Daemon) : Daemon := d.onHost Ncpd.prFlush

def hsUpdate (d : Daemon) (host : Nat) (stat : BitVec 16) : Daemon := d.write (.hsUpdate host stat)

def hostDead : BitVec 16 := 0xffe1

def hostAlive : BitVec 16 := 0

def setUp (d : Daemon) (up : Bool) : Daemon :=
  d.onHost fun s => s.atHost fun p => { p with up := up }

def hsAlive (d : Daemon) : Daemon := (d.setUp true).hsUpdate d.ncp.host hostAlive

/-! ### Instructions to the kernel -/

/-- The kernel's id for the file of a socket. -/
def idOf (d : Daemon) (i : SktNo) : BitVec 16 :=
  match (d.sockets i).filep with
  | some f => (d.files f).id
  | none => 0

def sumod (d : Daemon) (i : SktNo) (stat : BitVec 8) (msgs bitsHi bitsLo : BitVec 16) : Sumod :=
  let s := d.sockets i
  ⟨s.sinx, d.idOf i, s.hlHost, s.hlLink, stat, s.bysz, msgs, bitsHi, bitsLo, s.lskt, s.fskt⟩

def kwStup (d : Daemon) (i : SktNo) (stat : BitVec 8) : Daemon :=
  d.write (.stup (d.sumod i stat 0 0 0))

def kwMod (d : Daemon) (i : SktNo) (stat : BitVec 8) (msgs bitsHi bitsLo : BitVec 16) : Daemon :=
  d.write (.mod (d.sumod i stat msgs bitsHi bitsLo))

def kwRdy (d : Daemon) (id : BitVec 16) (code : Nat) : Daemon := d.write (.redy id code)

def kwClean (d : Daemon) (i : SktNo) : Daemon :=
  let s := d.sockets i
  (d.write (.clen (d.idOf i) s.sinx s.hlHost s.hlLink)).mark i .clean

def kwReset (d : Daemon) (h : Nat) : Daemon := d.write (.rset h)

def kwTimo (d : Daemon) : Daemon := { d.write .timo with timeo := d.timeo + 1 }

/-! ### Numbers from bit maps -/

/-- The first number from `start` on whose bit is set. -/
def findBit (map : Nat → Bool) (size start : Nat) : Option Nat :=
  (List.range' start (size - start)).find? map

def sktBase : Nat := 1024

def sktMpsz : Nat := 256

/-- A block of eight socket numbers is assigned; the search starts after the last one. -/
def asnSktn (d : Daemon) : Daemon × Option (BitVec 16) :=
  let d : Daemon := if d.lasktn < 0 then { d with lasktn := 0, sktMap := fun _ => true } else d
  match (findBit d.sktMap sktMpsz d.lasktn.toNat).or (findBit d.sktMap sktMpsz 0) with
  | some n =>
    ({ d with lasktn := n + 1, sktMap := Function.update d.sktMap n false },
      some (BitVec.ofNat 16 (n * 8 + sktBase)))
  | none => ({ d with lasktn := 0 }, none)

/-- A block within the map is released. -/
def rlsSktn (d : Daemon) (sbase : BitVec 16) : Daemon :=
  if sktBase ≤ sbase.toNat ∧ sbase.toNat < sktBase + 8 * sktMpsz then
    { d with sktMap := Function.update d.sktMap ((sbase.toNat - sktBase) / 8) true }
  else d

/-- The link number is that of a receive socket of the current host. -/
def linkUsed (d : Daemon) (n : Nat) : Bool :=
  (List.finRange nsockets).any fun i =>
    let s := d.sockets i
    s.state ≠ .null ∧ s.hlHost = BitVec.ofNat 8 d.ncp.host ∧ s.state ≠ .q ∧ isSend s.lskt = false ∧
      s.hlLink.toNat = n

/-- A receive link number for the current host: 2 up to 71, from the one after the last. -/
def asnLnkn (d : Daemon) : Daemon × Option Nat :=
  let free := fun n => decide (2 ≤ n) && !d.linkUsed n
  let start := ((if d.laslnkn < 0 then 1 else d.laslnkn) + 1).toNat
  match (findBit free 72 start).or (findBit free 72 2) with
  | some n => ({ d with laslnkn := n }, some n)
  | none => ({ d with laslnkn := -1 }, none)

/-- A link number as it stands in a struct; the failure code is all ones. -/
def linkByte : Option Nat → BitVec 8
  | some n => BitVec.ofNat 8 n
  | none => 0xff

end Daemon

end NetworkUnix.Ncpd
