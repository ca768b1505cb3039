/-
This file models the socket machine of the daemon and the files that own the
sockets: the procedures for each operation and state, the search for a socket
that fits a request, what is done when none fits, and what a file does when one
of its sockets is opened or gone.

Freeing a socket tells its file, which may kill the data socket for the other
direction, which may free that one in turn. The depth of these calls is a
parameter of the recursion; a file has two data sockets, so two is enough.
-/

import NetworkUnix.Ncpd.Tables

namespace NetworkUnix.Ncpd

namespace Daemon

/-! ### Closing a socket -/

/-- Close wait: the numbers and the host are zeroed. -/
def cleanSkt (s : Socket) : Socket :=
  if s.state = .clow then { s with lskt := 0, fskt := 0, hlHost := 0, hlLink := 0 } else s

def toState (d : Daemon) (i : SktNo) (state : SktState) : Daemon :=
  (d.setSkt i fun s => { s with state := state }).mark i (.state state)

/-- The state is set to close wait and part of the struct is cleaned up. -/
def toClow (d : Daemon) (i : SktNo) : Daemon := (d.toState i .clow).setSkt i cleanSkt

def stimeoutSkt (d : Daemon) (i : SktNo) : Daemon :=
  { d.setSkt i (fun s => { s with timeo := d.clock + stimeout }) with stimeo := d.stimeo + 1 }

def soUt1 (d : Daemon) (i : SktNo) : Daemon := (d.kwClean i).toClow i

def soUt2 (d : Daemon) (i : SktNo) : Daemon := d.toClow i

def soUt3 (d : Daemon) (i : SktNo) : Daemon := ((d.hwCls i).kwClean i).toState i .cacw

def kiClorfnmw (d : Daemon) (i : SktNo) : Daemon := d.toState i .c2cw

/-- The kill operation, with the procedure that frees a socket. -/
def killWith (free : SktNo → Daemon → Daemon) (i : SktNo) (d : Daemon) : Daemon :=
  match (d.sockets i).state with
  | .glsn | .slsn => d.soUt1 i
  | .rfcw | .opened | .orfnmw => d.soUt3 i
  | .clorfnmw => d.kiClorfnmw i
  | .rfnmw => free i d
  | _ => d

/-- A file struct is released; the block of socket numbers goes with the last file that uses it. -/
def fRlse (d : Daemon) : Daemon :=
  let f := d.files d.fp
  let d : Daemon := { d with nsLeft := d.nsLeft + f.nsrsrv, nfLeft := d.nfLeft + 1 }
  let d := (d.setFile d.fp fun f => { f with state := .null, timeo := 0 }).write (.frlse f.id)
  if f.sbase ≠ 0 then
    if ∃ g, (d.files g).state ≠ .null ∧ (d.files g).sbase = f.sbase then d else d.rlsSktn f.sbase
  else d

/-- The file in the gone wait is released when no socket is attached to it. -/
def goneChk (f : FileNo) (d : Daemon) : Daemon :=
  if (d.files f).nsatt = 0 then d.fRlse else d

/-- A socket has been detached from its file; the kill of the other data socket is `kill`. -/
def fiSgone (kill : SktNo → Daemon → Daemon) (i : SktNo) (f : FileNo) (d : Daemon) : Daemon :=
  let x := (d.sockets i).sinx
  let d : Daemon := { d with fp := f }
  let d := d.setFile f fun f =>
    { f with sktX := Function.update f.sktX x none, nsatt := f.nsatt - 1, nsrsrv := f.nsrsrv - 1 }
  if x = .icp then
    match (d.files f).state with
    | .uisnw | .sialw | .sirfw | .uiopw | .siopw => (d.kwRdy (d.files f).id edaeio).fRlse
    | .gonew => d.goneChk f
    | _ => d
  else
    match (d.files f).state with
    | .dopnw | .opened =>
      let d := if (d.files f).state = .dopnw then d.kwRdy (d.files f).id edaeio else d
      let d :=
        match (d.files f).sktX x.other with
        | some j => kill j d
        | none => d
      (d.setFile f fun f => { f with state := .gonew }).goneChk f
    | .gonew => d.goneChk f
    | _ => d

/-- A socket is detached from its file and its struct is given back. -/
def freeSktAt : Nat → SktNo → Daemon → Daemon
  | 0, _, d => d
  | depth + 1, i, d =>
    let d := d.setSkt i fun s => { s with timeo := 0 }
    let d :=
      match (d.sockets i).filep with
      | some f => fiSgone (killWith (freeSktAt depth)) i f d
      | none => d
    ({ d with nsLeft := d.nsLeft + 1 } : Daemon).toState i .null

def freeSkt (d : Daemon) (i : SktNo) : Daemon := freeSktAt 2 i d

def killSkt (d : Daemon) (i : SktNo) : Daemon := killWith (fun i d => d.freeSkt i) i d

/-! ### Opening a socket -/

/-- A socket is attached to its file. -/
def attSkt (d : Daemon) (i : SktNo) : Daemon :=
  let s := d.sockets i
  match s.filep with
  | some f => d.setFile f fun f =>
      { f with sktX := Function.update f.sktX s.sinx (some i), nsatt := f.nsatt + 1 }
  | none => d

def nomMall : BitVec 16 := 10

def nomBall : BitVec 16 := 512

/-- A connection has been opened. -/
def fiSopn (d : Daemon) (i : SktNo) : Daemon :=
  let s := d.sockets i
  match s.filep with
  | none => d
  | some f =>
    let d : Daemon := { d with fp := f }
    if s.sinx = .icp then
      match (d.files f).state with
      | .uiopw =>
        ((d.kwMod i (ksbOpen ||| ksbDdat) 1 0 32).hwAll i 1 32).setFile f fun f =>
          { f with state := .uisnw }
      | .siopw =>
        let d := d.kwMod i (ksbOpen ||| ksbDdat) 0 0 0
        { d.setFile f (fun f => { f with timeo := d.clock + ftimeout, state := .sialw }) with
          ftimeo := d.ftimeo + 1 }
      | _ => d.die
    else if (d.files f).state ≠ .dopnw then d.die
    else
      let d :=
        if isSend s.lskt then d.kwMod i ksbOpen 0 0 0
        else (d.kwMod i ksbOpen nomMall 0 nomBall).hwAll i nomMall nomBall
      let others : Bool :=
        match (d.files f).sktX s.sinx.other with
        | none => true
        | some j => decide ((d.sockets j).state = .opened)
      if (d.files f).nsatt = (d.files f).nsrsrv ∧ others then
        (d.setFile f fun f => { f with state := .opened, timeo := 0 }).kwRdy (d.files f).id 0
      else d

/-! ### The operations on a socket that a request may fit -/

/-- Host and foreign socket, where a host or a foreign socket of zero is wild. -/
def glMatch (wildHost : BitVec 8) (wildFskt : BitVec 32) (host : BitVec 8) (fskt : BitVec 32) :
    Bool :=
  (wildHost = 0 || wildHost = host) && (wildFskt = 0 || wildFskt = fskt)

def soMatch (d : Daemon) (i : SktNo) : Bool :=
  d.sktReq.hlHost = (d.sockets i).hlHost && d.sktReq.fskt = (d.sockets i).fskt

/-- A queued request becomes a socket of the file that the request is for. It was counted when it
was queued and when the file was made. -/
def adopt (d : Daemon) (i : SktNo) : Daemon :=
  let r := d.sktReq
  let d := d.setSkt i fun s =>
    if isSend r.lskt then { s with bysz := r.bysz } else { s with hlLink := r.hlLink }
  let d := d.setSkt i fun s => { s with filep := r.filep, sinx := r.sinx }
  let d := (d.attSkt i).toState i .opened
  { d with nsLeft := d.nsLeft + 1 }

/-- A listen or an init meets a queued request. -/
def lsintQ (d : Daemon) (i : SktNo) : Daemon × Bool :=
  if d.soMatch i then ((((d.adopt i).kwStup i ksbOpen).hwRfc i).fiSopn i, true) else (d, false)

/-- The wild fields of the listen are filled in, and the global host is set. -/
def glsnQ (d : Daemon) (i : SktNo) : Daemon × Bool :=
  let s := d.sockets i
  if glMatch d.sktReq.hlHost d.sktReq.fskt s.hlHost s.fskt then
    ({ d with sktReq := { d.sktReq with hlHost := s.hlHost, fskt := s.fskt } }.setHost
      s.hlHost.toNat).lsintQ i
  else (d, false)

def rfcUtil (d : Daemon) (i : SktNo) : Daemon × Bool :=
  if d.soMatch i then
    let r := d.sktReq
    let d := d.setSkt i fun s => if isSend r.lskt then { s with hlLink := r.hlLink } else
      { s with bysz := r.bysz }
    (d.toState i .opened, true)
  else (d, false)

def rfcRfcw (d : Daemon) (i : SktNo) : Daemon × Bool :=
  let opened := d.rfcUtil i
  if opened.2 then (opened.1.fiSopn i, true) else (opened.1, false)

def rfcSlsn (d : Daemon) (i : SktNo) : Daemon × Bool :=
  let opened := d.rfcUtil i
  if opened.2 then ((opened.1.hwRfc i).fiSopn i, true) else (opened.1, false)

def rfcGlsn (d : Daemon) (i : SktNo) : Daemon × Bool :=
  let s := d.sockets i
  let r := d.sktReq
  if glMatch s.hlHost s.fskt r.hlHost r.fskt then
    ((d.setSkt i fun s => { s with hlHost := r.hlHost, fskt := r.fskt }).setHost
      r.hlHost.toNat).rfcSlsn i
  else (d, false)

/-- What a procedure does when a close matches in host and foreign socket. -/
def onMatch (d : Daemon) (i : SktNo) (act : Daemon → Daemon) : Daemon × Bool :=
  if d.soMatch i then (act (d.mark i .matched), true) else (d, false)

def clsRfcw (d : Daemon) (i : SktNo) : Daemon × Bool :=
  d.onMatch i fun d =>
    ((((d.kwClean i).hwCls i).toState i .clow).stimeoutSkt i).setSkt i cleanSkt

def clsQ (d : Daemon) (i : SktNo) : Daemon × Bool := d.onMatch i fun d => (d.hwCls i).freeSkt i

def clsCacw (d : Daemon) (i : SktNo) : Daemon × Bool := d.onMatch i fun d => d.toClow i

def clsClsw (d : Daemon) (i : SktNo) : Daemon × Bool := d.onMatch i fun d => d.freeSkt i

def clsOpen (d : Daemon) (i : SktNo) : Daemon × Bool :=
  d.onMatch i fun d => (d.kwClean i).toState i .c2cw

def clsOrfnmw (d : Daemon) (i : SktNo) : Daemon × Bool :=
  d.onMatch i fun d => (d.kwClean i).toState i .clorfnmw

/-! ### The operations of the kernel, the clock and dead hosts -/

def cloLsn (d : Daemon) (i : SktNo) : Daemon := (d.kwClean i).freeSkt i

def cloRfop (d : Daemon) (i : SktNo) : Daemon :=
  (((d.hwCls i).kwClean i).toState i .clsw).stimeoutSkt i

def cloCacw (d : Daemon) (i : SktNo) : Daemon := (d.toState i .clsw).stimeoutSkt i

def cloC2cw (d : Daemon) (i : SktNo) : Daemon := (d.hwCls i).freeSkt i

def cloClorfnmw (d : Daemon) (i : SktNo) : Daemon := (d.hwCls i).toState i .rfnmw

/-- The matrix of operations and states for the requests; the result says whether the request has
been met. -/
def sktOper (op : SktOp) (d : Daemon) (i : SktNo) : Daemon × Bool :=
  match op, (d.sockets i).state with
  | .glsn, .q => d.glsnQ i
  | .slsn, .q | .init, .q => d.lsintQ i
  | .rfc, .glsn => d.rfcGlsn i
  | .rfc, .slsn => d.rfcSlsn i
  | .rfc, .rfcw => d.rfcRfcw i
  | .cls, .rfcw => d.clsRfcw i
  | .cls, .q => d.clsQ i
  | .cls, .cacw => d.clsCacw i
  | .cls, .clsw => d.clsClsw i
  | .cls, .opened => d.clsOpen i
  | .cls, .orfnmw => d.clsOrfnmw i
  | _, _ => (d, false)

/-- The row of the matrix for a close from the kernel. -/
def closeSkt (d : Daemon) (i : SktNo) : Daemon :=
  let d := d.mark i .closed
  match (d.sockets i).state with
  | .glsn | .slsn => d.cloLsn i
  | .rfcw | .opened | .orfnmw => d.cloRfop i
  | .cacw => d.cloCacw i
  | .clow => d.freeSkt i
  | .c2cw => d.cloC2cw i
  | .clorfnmw => d.cloClorfnmw i
  | _ => d

/-- The row of the matrix for a timeout. -/
def timoSkt (d : Daemon) (i : SktNo) : Daemon :=
  match (d.sockets i).state with
  | .clsw => (d.mark i .expired).freeSkt i
  | _ => d

/-- The row of the matrix for a dead host. -/
def deadSkt (d : Daemon) (i : SktNo) : Daemon :=
  let d := d.mark i .dead
  match (d.sockets i).state with
  | .glsn | .slsn | .rfcw | .opened | .orfnmw => d.soUt1 i
  | .q | .clsw | .rfnmw => d.freeSkt i
  | .cacw | .c2cw | .clorfnmw => d.soUt2 i
  | _ => d

/-! ### The search for a socket -/

/-- The struct that is made from a request. -/
def Request.toSocket (r : Request) : Socket where
  lskt := r.lskt
  fskt := r.fskt
  hlHost := r.hlHost
  hlLink := r.hlLink
  state := r.state.state
  bysz := r.bysz
  filep := r.filep
  timeo := 0
  sinx := r.sinx

/-- The first struct that is not in use. -/
def nullSkt (d : Daemon) : Option SktNo :=
  (List.finRange nsockets).find? fun i => (d.sockets i).state = .null

/-- The request is copied to a struct; a request of a foreign host is counted there. -/
def soUrfc (d : Daemon) : Daemon × Option SktNo :=
  match d.nullSkt with
  | some i =>
    let s := Request.toSocket d.sktReq
    let d := (d.setSkt i fun _ => s).mark i (.state s.state)
    (if d.sktReq.state = .rfc then { d with nsLeft := d.nsLeft - 1 } else d, some i)
  | none => ({ d with failed := d.failed ++ [d.sktReq] }, none)

def soUlsn (d : Daemon) : Daemon × Option SktNo :=
  match d.soUrfc with
  | (d, some i) => ((d.attSkt i).kwStup i 0, some i)
  | (d, none) => (d, none)

def soUinit (d : Daemon) : Daemon :=
  match d.soUlsn with
  | (d, some i) => d.hwRfc i
  | (d, none) => d

/-- What is done with a request that no socket meets. -/
def soUnm (d : Daemon) : Daemon :=
  match d.sktReq.state with
  | .glsn | .slsn => d.soUlsn.1
  | .init => d.soUinit
  | .rfc => d.soUrfc.1
  | _ => d

/-- The sockets are tried in order until one meets the request. -/
def getSktFrom : List SktNo → Daemon → Daemon × Bool
  | [], d => (d, false)
  | i :: rest, d =>
    if (d.sockets i).state ≠ .null ∧ (d.sockets i).lskt = d.sktReq.lskt then
      let tried := sktOper d.sktReq.state d i
      if tried.2 then tried else getSktFrom rest tried.1
    else getSktFrom rest d

def getSkt (d : Daemon) : Daemon :=
  let tried := getSktFrom (List.finRange nsockets) d
  if tried.2 then tried.1 else tried.1.soUnm

/-- The byte size of the data sockets of the global file; a size of zero stands for eight bits. -/
def dataBysz (d : Daemon) : BitVec 8 :=
  if d.sfhbyte ∧ (d.files d.fp).bysz ≠ 0 then (d.files d.fp).bysz else 8

/-- A data socket is created from the global file and host. -/
def smSplx (d : Daemon) (lskt : BitVec 16) (fskt : BitVec 32) (sinx : SktIndex) (op : SktOp) :
    Daemon :=
  let linked := if isSend lskt then (d, 0xff) else (d.asnLnkn.1, linkByte d.asnLnkn.2)
  let d := linked.1
  ({ d with
      sktReq := ⟨lskt, fskt, BitVec.ofNat 8 d.ncp.host, linked.2, op, d.dataBysz,
        some d.fp, sinx⟩ } :
    Daemon).getSkt

/-- The two data sockets of a duplex connection. -/
def smDux (d : Daemon) (lskt : BitVec 16) (fskt : BitVec 32) (op : SktOp) : Daemon :=
  (d.smSplx (lskt + 1) fskt .xmit op).smSplx lskt (fskt + 1) .rcv op

/-! ### Files -/

/-- A file struct is taken, with a number of socket structs reserved for it; the result says that it
failed. -/
def fMake (d : Daemon) (id : BitVec 16) (nRSkts : Int) : Daemon × Bool :=
  if d.nfLeft ≤ 0 ∨ d.nsLeft < nRSkts then (d, true)
  else
    match (List.finRange nfiles).find? fun f => (d.files f).state = .null with
    | some f =>
      let d : Daemon := { d with fp := f, nfLeft := d.nfLeft - 1, nsLeft := d.nsLeft - nRSkts }
      (d.setFile f fun f =>
        { f with id := id, sbase := 0, nsrsrv := nRSkts, sktX := fun _ => none, nsatt := 0 }, false)
    | none => (d.die, false)

/-- The file in use with an id. -/
def fById (d : Daemon) (id : BitVec 16) : Option FileNo :=
  (List.finRange nfiles).find? fun f => (d.files f).state ≠ .null ∧ (d.files f).id = id

/-- The socket number for the data connection has come. -/
def fiSktnm (d : Daemon) (i : SktNo) (fskt : BitVec 32) : Daemon :=
  match (d.sockets i).filep with
  | none => d
  | some f =>
    let d : Daemon := { d with fp := f }
    if (d.files f).state = .uisnw then
      if fskt.getLsbD 0 then d.killSkt i
      else
        let d := d.setFile f fun f => { f with state := .dopnw }
        (d.smDux ((d.sockets i).lskt + 2) fskt .init).killSkt i
    else d

/-- The socket number is sent on the contact connection. -/
def fiSsn (d : Daemon) (i : SktNo) : Daemon :=
  d.write (.send d.ncp.host ((d.sockets i).hlLink &&& 0x7f) 32
    ([0, 0] ++ bytes16 (d.files d.fp).sbase))

/-- An allocation has come. -/
def fiAll (d : Daemon) (i : SktNo) (msgs bitsHi bitsLo : BitVec 16) : Daemon :=
  let s := d.sockets i
  match s.filep with
  | none => d
  | some f =>
    let d : Daemon := { d with fp := f }
    match s.sinx with
    | .icp =>
      if isSend s.lskt = false then d.die
      else if (d.files f).state ≠ .sialw then d
      else if msgs = 0 ∨ bitsHi = 0 ∧ bitsLo.toNat < 32 then d.killSkt i
      else
        ((d.fiSsn i).setFile f fun f => { f with state := .sirfw }).toState i .orfnmw
    | .xmit => d.kwMod i ksbOpen msgs bitsHi bitsLo
    | .rcv => d.die

/-- The socket number has been received: the data connection is initiated. -/
def fiRfnm (d : Daemon) (i : SktNo) : Daemon :=
  match (d.sockets i).filep with
  | none => d
  | some f =>
    let d : Daemon := { d with fp := f }
    if (d.files f).state = .sirfw then
      let d := d.setFile f fun f => { f with state := .dopnw }
      (d.smDux (d.files f).sbase ((d.sockets i).fskt + 2) .init).killSkt i
    else d

end Daemon

end NetworkUnix.Ncpd
