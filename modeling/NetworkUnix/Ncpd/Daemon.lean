/-
This file models the main loop of the network control program's daemon: the
instructions from the kernel, the messages from the interface message processor
they may carry, the host-host commands in those messages, and the timeouts. One
event is one trip of the main loop.

Logging and statistics are left out. A regular message is given by its leader and
the bytes of its data.
-/

import NetworkUnix.Ncpd.Sockets

namespace NetworkUnix.Ncpd

namespace Daemon

/-! ### Finding a socket by host and link -/

/-- The first socket in use whose host and link are the low and the high byte of a word. -/
def hlFind (d : Daemon) (hslk : Nat) : Option SktNo :=
  (List.finRange nsockets).find? fun i =>
    (d.sockets i).state ≠ .null ∧
      (d.sockets i).hlHost.toNat + 256 * (d.sockets i).hlLink.toNat = hslk

/-- The word for a link of the current host. -/
def hostLink (d : Daemon) (link : BitVec 8) : Nat := (d.ncp.host ||| link.toNat * 256) % 65536

/-! ### Hosts that are dead or come up -/

/-- What belongs to the current host is cleaned up. -/
def hDead (d : Daemon) : Daemon :=
  let h := d.ncp.host
  let d := (List.finRange nsockets).foldl (fun d i =>
    if (d.sockets i).state ≠ .null ∧ (d.sockets i).hlHost.toNat = h then d.deadSkt i else d) d
  ((d.prFlush.setUp false).kwReset h).hsUpdate h hostDead

/-- The loop of `rst_all` over the hosts; `tries` is the number of hosts left. -/
def rstLoop : Nat → Daemon → Daemon
  | 0, d => { d with ncp := { d.ncp with initHost := d.ncp.initHost + 1 } }
  | tries + 1, d =>
    let d : Daemon := { d with ncp := { d.ncp with initHost := d.ncp.initHost + 1 } }
    if d.ncp.known d.ncp.initHost then
      let d := if d.ncp.pro2send then d.sendPro else d
      let checked := (d.setHost d.ncp.initHost).chkHost
      if checked.2 then rstLoop tries checked.1 else checked.1
    else rstLoop tries d

/-- The next known host that is down gets a reset; the map is read before the first one. -/
def rstAll (hnames : Nat → Bool) (d : Daemon) : Daemon :=
  let d : Daemon :=
    if d.ncp.initHost = 0 then { d with ncp := { d.ncp with known := hnames } } else d
  rstLoop (255 - d.ncp.initHost) d

/-! ### Host-host commands -/

/-- The number that two or four bytes denote. -/
def word (high low : BitVec 8) : BitVec 16 := high ++ low

def long (b0 b1 b2 b3 : BitVec 8) : BitVec 32 := word b0 b1 ++ word b2 b3

/-- The length of a command by its code. -/
def hhIlgth : Nat → Nat
  | 0 => 1
  | 1 => 10
  | 2 => 10
  | 3 => 9
  | 4 => 8
  | 5 => 4
  | 6 => 8
  | 7 => 2
  | 8 => 2
  | 9 => 2
  | 10 => 2
  | 11 => 12
  | 12 => 1
  | _ => 1

section Commands

variable (p : List (BitVec 8))

/-- A byte of the command. -/
def byte (k : Nat) : BitVec 8 := p.getD k 0

/-- The foreign socket of a request or a close. -/
def cmdFskt : BitVec 32 := long (byte p 1) (byte p 2) (byte p 3) (byte p 4)

/-- The last two bytes of the local socket. -/
def cmdLskt : BitVec 16 := word (byte p 7) (byte p 8)

/-- The first two bytes of the local socket are zero. -/
def lsktOk : Bool := byte p 5 ||| byte p 6 = 0

/-- The two sockets are of different polarity. -/
def polarity : Bool := (byte p 4 ^^^ byte p 8).getLsbD 0

/-- A request is refused with a close that is built from its own socket numbers. -/
def refuse (d : Daemon) : Daemon :=
  d.qupPro ⟨3 :: ((p.drop 5).take 4 ++ (p.drop 1).take 4), List.cons_ne_nil _ _, by
    simp only [List.length_cons, List.length_append, List.length_take, List.length_drop]
    omega⟩

/-- The request that a command of a foreign host makes. -/
def rfcRequest (d : Daemon) : Request :=
  let r := { d.sktReq with
    lskt := cmdLskt p, fskt := cmdFskt p, hlHost := BitVec.ofNat 8 d.ncp.host, state := .rfc,
    filep := none }
  if byte p 0 = 2 then { r with bysz := byte p 9, hlLink := 0 }
  else { r with hlLink := byte p 9 ||| 0x80 }

/-- A request that is well formed. -/
def rfcValid : Bool :=
  polarity p && (byte p 4 ^^^ byte p 0).getLsbD 0 &&
    !(byte p 0 = 1 && ((byte p 9).toInt < 2 || (byte p 9).toInt > 71))

/-- A well formed request is refused for its byte size or its local socket. -/
def rfcTaken : Bool := !(byte p 0 = 2 && byte p 9 &&& 7 ≠ 0) && lsktOk p

def hrRfc (d : Daemon) : Daemon :=
  if rfcValid p = false then d.hwErr 3 (p.take 10)
  else if rfcTaken p = false then d.refuse p
  else
    let d := d.hsAlive
    ({ d with sktReq := d.rfcRequest p } : Daemon).getSkt

/-- The request that a close of a foreign host makes. -/
def clsRequest (d : Daemon) : Request :=
  { d.sktReq with
    lskt := cmdLskt p, fskt := cmdFskt p, hlHost := BitVec.ofNat 8 d.ncp.host, state := .cls }

def hrCls (d : Daemon) : Daemon :=
  if polarity p = false then d.hwErr 3 (p.take 9)
  else if lsktOk p = false then d
  else ({ d with sktReq := d.clsRequest p } : Daemon).getSkt

def hrEco (d : Daemon) : Daemon :=
  (d.qupPro ⟨[10, byte p 1], List.cons_ne_nil _ _, by simp⟩).hsAlive

def hrRst (d : Daemon) : Daemon :=
  (d.hDead.hsAlive).qupPro ⟨[13], by decide, by decide⟩

def hrAll (d : Daemon) : Daemon :=
  match d.hlFind (d.hostLink (byte p 1 ||| 0x80)) with
  | some i =>
    match (d.sockets i).state with
    | .opened =>
      d.fiAll i (word (byte p 2) (byte p 3)) (word (byte p 4) (byte p 5)) (word (byte p 6) (byte p 7))
    | .cacw | .clsw | .c2cw => d
    | _ => d.hwErr 5 (p.take 8)
  | none => d.hwErr 4 (p.take 8)

/-- The command with a legal code. -/
def hrProc (d : Daemon) : Daemon :=
  match (byte p 0).toNat with
  | 1 | 2 => d.hrRfc p
  | 3 => d.hrCls p
  | 4 => d.hrAll p
  | 9 => d.hrEco p
  | 11 => d
  | 12 => d.hrRst
  | _ => d.hsAlive

end Commands

/-- The commands of a message one after another. Each takes at least one byte, so the number of
bytes bounds the number of commands. -/
def hrDcodeFrom : Nat → List (BitVec 8) → Daemon → Daemon
  | 0, _, d => d
  | bound + 1, p, d =>
    if p = [] then d
    else
      let op := (byte p 0).toNat
      if op > 13 then d.hwErr 1 (p.take 10)
      else if p.length < hhIlgth op then d.hwErr 2 p
      else hrDcodeFrom bound (p.drop (hhIlgth op)) (d.hrProc p)

def hrDcode (data : List (BitVec 8)) (d : Daemon) : Daemon := hrDcodeFrom data.length data d

/-! ### Messages from the interface message processor -/

/-- A message: the leader and the data. A reply on the control link answers the message of that
number among those that have not been answered. -/
structure KrRcv where
  type : BitVec 8
  host : BitVec 8
  link : BitVec 8
  sbty : BitVec 8
  data : List (BitVec 8)
  answers : Nat

/-- Data on a connection: the socket number for a user's contact connection. -/
def hrData (m : KrRcv) (d : Daemon) : Daemon :=
  match d.hlFind (d.hostLink m.link) with
  | some i =>
    match (d.sockets i).state with
    | .opened =>
      if (d.sockets i).sinx = .icp then
        if 4 ≤ m.data.length then
          d.fiSktnm i (long (byte m.data 0) (byte m.data 1) (byte m.data 2) (byte m.data 3))
        else d.killSkt i
      else d
    | .cacw | .clsw => d
    | _ =>
      d.hwErr 5
        (([m.type, m.host, m.link, m.sbty] ++ m.data ++ List.replicate 6 0).take
          (if m.data = [] then 9 else 10))
  | none => d

def irReglr (m : KrRcv) (d : Daemon) : Daemon :=
  if m.link = 0 then hrDcode m.data d
  else if m.link = 1 ∨ m.link.toInt > 71 then d
  else hrData m d

def irRfnm (m : KrRcv) (hnames : Nat → Bool) (d : Daemon) : Daemon :=
  if m.link ≠ 0 then
    match d.hlFind (d.hostLink (m.link ||| 0x80)) with
    | some i => d.fiRfnm i
    | none => d
  else
    let d := d.onHost fun s => s.atHost (.irRfnm m.answers)
    let d : Daemon :=
      if (d.ncp.hosts d.ncp.host).pbQ ≠ [] then { d with ncp := { d.ncp with pro2send := true } }
      else d
    if d.ncp.host = d.ncp.initHost then rstAll hnames d else d

def irReX (m : KrRcv) (hnames : Nat → Bool) (d : Daemon) : Daemon :=
  if m.link ≠ 0 then
    match d.hlFind (d.hostLink (m.link ||| 0x80)) with
    | some i => d.killSkt i
    | none => d
  else
    let d := d.onHost fun s => s.atHost (.irReX m.answers)
    if (d.ncp.hosts d.ncp.host).rtry ≤ 0 then
      let h := d.ncp.host
      let d := d.hDead
      if h = d.ncp.initHost then rstAll hnames d else d
    else { d with ncp := { d.ncp with pro2send := true } }

/-- The hosts are cleaned up one after another; then no reply is awaited from any. -/
def irReset (hnames : Nat → Bool) (d : Daemon) : Daemon :=
  let d := d.hsUpdate 0 hostAlive
  let d := (List.range' 1 255).foldl (fun d h => (d.setHost h).hDead) d
  let d : Daemon :=
    { d with ncp := { d.ncp with
        host := 256, initHost := 0, hosts := fun h => { d.ncp.hosts h with rfnm := false } } }
  rstAll hnames d

/-- A message from host zero is dropped, but for three types. -/
def krRcv (m : KrRcv) (hnames : Nat → Bool) (d : Daemon) : Daemon :=
  let d := d.setHostLow m.host
  let type := (m.type &&& 15).toNat
  if m.host = 0 ∧ ¬(type = 10 ∨ type = 1 ∨ type = 2) then d
  else
    match type with
    | 0 => irReglr m d
    | 2 => d.hsUpdate 0 (m.link ++ m.sbty)
    | 5 => irRfnm m hnames d
    | 6 => (d.setUp false).hsUpdate d.ncp.host (m.link ++ m.sbty)
    | 7 | 8 | 9 => irReX m hnames d
    | 10 => irReset hnames d
    | _ => d

/-! ### Opens -/

/-- An open from the kernel; the numbers are those of the host. -/
structure KrOpen where
  drct : Bool
  serv : Bool
  init : Bool
  spcf : Bool
  dux : Bool
  rltv : Bool
  id : BitVec 16
  lskt : BitVec 16
  fskt : BitVec 32
  host : BitVec 8
  timo : Int
  relid : BitVec 16
  bysz : BitVec 8

/-- The operation that a direct open performs. -/
def KrOpen.op (o : KrOpen) : SktOp := if o.init then .init else if o.spcf then .slsn else .glsn

/-- A general listen without a foreign socket. -/
def KrOpen.wild (o : KrOpen) : Bool := o.op = .glsn && o.fskt = 0

/-- The file that an open refers to is open. -/
def relFile (d : Daemon) (o : KrOpen) : Option FileNo :=
  (d.fById o.relid).filter fun f => (d.files f).state = .opened

/-- The local socket of a direct open; none stands for the error code. -/
def drctLskt (d : Daemon) (o : KrOpen) : Daemon × Except Nat (BitVec 16) :=
  if o.rltv then
    match d.relFile o with
    | some f => if o.lskt.toNat > 7 then (d, .error edinv) else (d, .ok ((d.files f).sbase + o.lskt))
    | none => (d, .error edinv)
  else if o.lskt = 0 then
    if o.op ≠ .init then (d, .error edinv)
    else
      match d.asnSktn with
      | (d, some lskt) => (d, .ok (if o.fskt.getLsbD 0 then lskt else lskt ||| 1))
      | (d, none) => (d, .error ednores)
  else if o.lskt.toNat ≥ sktBase then (d, .error edinv)
  else (d, .ok o.lskt)

/-- The foreign socket of a direct open: a small number is relative to the file's. -/
def drctFskt (d : Daemon) (o : KrOpen) : Daemon × BitVec 32 :=
  if o.rltv ∧ o.wild = false ∧ o.fskt.toNat ≤ 7 then
    match d.relFile o with
    | some f =>
      match ((d.files f).sktX .rcv).or ((d.files f).sktX .xmit) with
      | some x => (d, ((d.sockets x).fskt &&& ~~~7) + o.fskt)
      | none => (d.die, o.fskt)
    | none => (d, o.fskt)
  else (d, o.fskt)

/-- The file has been made: its state and socket base are set, the host is checked, and the sockets
are created. -/
def drctMade (d : Daemon) (o : KrOpen) (lskt : BitVec 16) (fskt : BitVec 32) : Daemon :=
  let d := d.setFile d.fp fun f =>
    { f with state := .dopnw, sbase := lskt &&& ~~~7, bysz := o.bysz }
  let d := if d.ncp.host ≠ 0 then d.chkHost.1 else d
  if o.dux then d.smDux (lskt &&& ~~~1) (fskt &&& ~~~1) o.op
  else d.smSplx lskt fskt (if isSend lskt then .xmit else .rcv) o.op

def krOdrct (d : Daemon) (o : KrOpen) : Daemon :=
  let d := d.setHostLow o.host
  match d.drctLskt o with
  | (d, .error code) => d.kwRdy o.id code
  | (d, .ok lskt) =>
    if o.op ≠ .glsn ∧ d.ncp.host = 0 then d.kwRdy o.id edinv
    else
      let reached := d.drctFskt o
      let d := reached.1
      let fskt := reached.2
      if o.dux = false ∧ o.wild = false ∧ isSend lskt = fskt.getLsbD 0 then d.kwRdy o.id edinv
      else
        let made := d.fMake o.id (if o.dux then 2 else 1)
        if made.2 then made.1.kwRdy o.id ednores else made.1.drctMade o lskt fskt

/-- The contact socket of a user: one unless the open names an odd one. -/
def contact (fskt : BitVec 32) : Option (BitVec 32) :=
  if fskt = 0 then some 1 else if fskt.getLsbD 0 then some fskt else none

/-- The file has been made. -/
def krOuicp (d : Daemon) (o : KrOpen) : Daemon :=
  let d := d.setHostLow o.host
  if o.host = 0 then d.fRlse.kwRdy o.id edinv
  else
    let linked := d.asnLnkn
    let d := linked.1
    match linked.2 with
    | none => d.fRlse.kwRdy o.id ednores
    | some link =>
      let d := d.chkHost.1
      let assigned := d.asnSktn
      let base := assigned.2.getD 0xffff
      let d := assigned.1
      let d := d.setFile d.fp fun f => { f with sbase := base }
      match contact o.fskt with
      | none => d.fRlse.kwRdy o.id edinv
      | some fskt =>
        let d : Daemon := { d with
          sktReq := ⟨base, fskt, BitVec.ofNat 8 d.ncp.host, BitVec.ofNat 8 link, .init, 32,
            some d.fp, .icp⟩ }
        let d := d.setFile d.fp fun f => { f with state := .uiopw, bysz := o.bysz }
        let d : Daemon :=
          if o.timo ≠ 0 then
            { d.setFile d.fp (fun f => { f with timeo := d.clock + o.timo }) with
              ftimeo := d.ftimeo + 1 }
          else d
        d.getSkt

/-- The contact socket of a server. -/
def serverSkt (lskt : BitVec 16) : Option (BitVec 16) :=
  if lskt = 0 then some 1
  else if lskt.toNat ≥ sktBase ∨ isSend lskt = false then none
  else some lskt

def krOsicp (d : Daemon) (o : KrOpen) : Daemon :=
  let assigned := d.asnSktn
  let d := assigned.1
  let d := d.setFile d.fp fun f => { f with sbase := assigned.2.getD 0xffff }
  if assigned.2 = none then d.fRlse.kwRdy o.id ednores
  else
    match serverSkt o.lskt with
    | none => d.fRlse.kwRdy o.id edinv
    | some lskt =>
      let d : Daemon := { d with sktReq := ⟨lskt, 0, 0, 0xff, .glsn, 32, some d.fp, .icp⟩ }
      (d.setFile d.fp fun f => { f with state := .siopw, bysz := o.bysz }).getSkt

def krOicp (d : Daemon) (o : KrOpen) : Daemon :=
  let made := d.fMake o.id 3
  if made.2 then made.1.kwRdy o.id ednores
  else if o.serv then made.1.krOsicp o
  else made.1.krOuicp o

/-- A file that has the same id loses it. -/
def krOpen (d : Daemon) (o : KrOpen) : Daemon :=
  let d :=
    match d.fById o.id with
    | some f => d.setFile f fun f => { f with id := 0 }
    | none => d
  if o.drct then d.krOdrct o else d.krOicp o

/-! ### Closes, timeouts and resets -/

def krClose (d : Daemon) (id : BitVec 16) (sinx : SktIndex) : Daemon :=
  match d.fById id with
  | none => d
  | some f =>
    match (d.files f).sktX sinx with
    | none => d
    | some i => (d.setHostLow (d.sockets i).hlHost).closeSkt i

/-- One of the sockets of a file whose time has run out is killed, with its host as the global
one. -/
def killDue (f : FileNo) (d : Daemon) (x : SktIndex) : Daemon :=
  match (d.files f).sktX x with
  | some i => (d.setHost (d.sockets i).hlHost.toNat).killSkt i
  | none => d

def timoFile (d : Daemon) (f : FileNo) : Daemon :=
  if (d.files f).state ≠ .null ∧ (d.files f).timeo ≠ 0 then
    if (d.files f).timeo ≤ d.clock then
      let d := [SktIndex.rcv, .xmit, .icp].foldl (killDue f) d
      (d.setFile f fun f => { f with timeo := 0 }).kwRdy (d.files f).id edaeio
    else { d with ftimeo := d.ftimeo + 1 }
  else d

def timoSocket (d : Daemon) (i : SktNo) : Daemon :=
  let s := d.sockets i
  if s.state ≠ .null ∧ s.timeo ≠ 0 then
    if s.timeo ≤ d.clock then (d.timoSkt i).setSkt i fun s => { s with timeo := 0 }
    else { d with stimeo := d.stimeo + 1 }
  else d

/-- The counts of what waits are taken anew. -/
def krTimo (d : Daemon) : Daemon :=
  let oftimeo := d.ftimeo
  let ostimeo := d.stimeo
  let d : Daemon := { d with timeo := 0, ftimeo := 0, stimeo := 0 }
  let d := if oftimeo ≠ 0 then (List.finRange nfiles).foldl timoFile d else d
  if ostimeo ≠ 0 then (List.finRange nsockets).foldl timoSocket d else d

def krReset (d : Daemon) (h : BitVec 8) : Daemon := (d.setHost h.toNat).hDead.chkHost.1

/-! ### The main loop -/

/-- An instruction of the kernel. The last one stands for those that are only logged. -/
inductive Instr
  | userOpen (o : KrOpen)
  | rcv (m : KrRcv) (hnames : Nat → Bool)
  | close (id : BitVec 16) (sinx : SktIndex)
  | timo
  | reset (h : BitVec 8)
  | log

/-- An instruction and the time at which it is read. -/
structure Event where
  instr : Instr
  clock : Int

def krDcode (d : Daemon) : Instr → Daemon
  | .userOpen o => d.krOpen o
  | .rcv m hnames => krRcv m hnames d
  | .close id sinx => d.krClose id sinx
  | .timo => d.krTimo
  | .reset h => d.krReset h
  | .log => d

/-- The beginning of a trip. -/
def read (d : Daemon) (clock : Int) : Daemon :=
  { d with ncp := { d.ncp with pro2send := false }, clock := clock }

/-- The end of a trip: what is queued is sent, and the timer is set. -/
def finish (d : Daemon) : Daemon :=
  let d := if d.ncp.pro2send then d.sendPro else d
  if (d.stimeo ≠ 0 ∨ d.ftimeo ≠ 0) ∧ d.timeo = 0 then d.kwTimo else d

def trip (d : Daemon) (e : Event) : Daemon := ((d.read e.clock).krDcode e.instr).finish

def nullSocket : Socket := ⟨0, 0, 0, 0, .null, 0, none, 0, .rcv⟩

def nullFile : File := ⟨0, 0, .null, fun _ => none, 0, 0, 0, 0⟩

/-- The daemon before its first trip. -/
def start : Daemon where
  sfhbyte := false
  ncp := ncpStart
  sockets := fun _ => nullSocket
  files := fun _ => nullFile
  nsLeft := nsockets
  nfLeft := nfiles
  sktReq := ⟨0, 0, 0, 0, .glsn, 0, none, .rcv⟩
  fp := ⟨0, by decide⟩
  sktMap := fun _ => false
  lasktn := -1
  laslnkn := 1
  stimeo := 0
  ftimeo := 0
  timeo := 0
  clock := 0
  died := false
  output := [.rset 0]
  life := fun _ => []
  indexed := []
  failed := []

/-- A trip; a daemon that has died makes no more. -/
def Trip (d : Daemon) (e : Event) (next : Daemon) : Prop := d.died = false ∧ next = d.trip e

end Daemon

end NetworkUnix.Ncpd
