/-
This file states the daemon's tables as a board: the cells of the sockets, the
entries of the files, the counts, and what has happened to each socket. A move is
what a routine does to the board at once, with the facts that allow it. Every
invariant of the tables is proved for the moves, and the routines are shown
elsewhere to be paths of moves.

The board leaves out what no move looks at: byte sizes, times, what has been
written, and the global variables other than the current host.
-/

import NetworkUnix.Ncpd.Daemon
import NetworkUnix.Lib.Table

namespace NetworkUnix.Ncpd

open Function

open scoped BigOperators

/-! ### The board -/

structure Cell where
  lskt : BitVec 16
  fskt : BitVec 32
  hlHost : BitVec 8
  hlLink : BitVec 8
  state : SktState
  filep : Option FileNo
  sinx : SktIndex

structure Entry where
  state : FileState
  sbase : BitVec 16
  sktX : SktIndex → Option SktNo
  nsatt : Int
  nsrsrv : Int

structure Board where
  cells : SktNo → Cell
  entries : FileNo → Entry
  nsLeft : Int
  nfLeft : Int
  ncp : Ncp
  life : SktNo → List Mark
  sktMap : Nat → Bool
  lasktn : Int
  failed : List Request
  died : Bool

def Socket.cell (s : Socket) : Cell :=
  ⟨s.lskt, s.fskt, s.hlHost, s.hlLink, s.state, s.filep, s.sinx⟩

def File.entry (f : File) : Entry := ⟨f.state, f.sbase, f.sktX, f.nsatt, f.nsrsrv⟩

/-- The board of a daemon. -/
def Daemon.board (d : Daemon) : Board where
  cells := fun i => (d.sockets i).cell
  entries := fun f => (d.files f).entry
  nsLeft := d.nsLeft
  nfLeft := d.nfLeft
  ncp := d.ncp
  life := d.life
  sktMap := d.sktMap
  lasktn := d.lasktn
  failed := d.failed
  died := d.died

namespace Board

def setCell (b : Board) (i : SktNo) (c : Cell) : Board :=
  { b with cells := Function.update b.cells i c }

def setEntry (b : Board) (f : FileNo) (e : Entry) : Board :=
  { b with entries := Function.update b.entries f e }

def marks (b : Board) (i : SktNo) (ms : List Mark) : Board :=
  { b with life := Function.update b.life i (b.life i ++ ms) }

def net (b : Board) (ncp : Ncp) : Board := { b with ncp := ncp }

def left (b : Board) (n : Int) : Board := { b with nsLeft := n }

end Board

def Request.cell (r : Request) : Cell :=
  ⟨r.lskt, r.fskt, r.hlHost, r.hlLink, r.state.state, r.filep, r.sinx⟩

namespace Entry

def attach (e : Entry) (x : SktIndex) (i : SktNo) : Entry :=
  { e with sktX := Function.update e.sktX x (some i), nsatt := e.nsatt + 1 }

theorem attach_self (e : Entry) (x : SktIndex) (i : SktNo) : (e.attach x i).sktX x = some i :=
  update_self _ _ _

theorem attach_other (e : Entry) {x y : SktIndex} (apart : y ≠ x) (i : SktNo) :
    (e.attach x i).sktX y = e.sktX y := update_of_ne apart _ _

/-- A socket goes, and its reservation with it. -/
def detach (e : Entry) (x : SktIndex) : Entry :=
  { e with sktX := Function.update e.sktX x none, nsatt := e.nsatt - 1, nsrsrv := e.nsrsrv - 1 }

end Entry

/-! ### What holds of the tables -/

/-- The states of a file before its data sockets are created. -/
def FileState.contact : FileState → Bool
  | .uiopw | .uisnw | .siopw | .sialw | .sirfw => true
  | _ => false

/-- The states of a file whose contact socket is a server's. -/
def FileState.server : FileState → Bool
  | .siopw | .sialw | .sirfw => true
  | _ => false

/-- The number of sockets that a file is still going to create. -/
def FileState.pending (st : FileState) : Int := if st.contact then 2 else 0

def SktState.listening : SktState → Bool
  | .glsn | .slsn | .rfcw => true
  | _ => false

def SktState.rfnm : SktState → Bool
  | .orfnmw | .clorfnmw | .rfnmw => true
  | _ => false

/-- The number of sockets in a file's table. -/
def sktCount (sktX : SktIndex → Option SktNo) : Int :=
  (if (sktX .rcv).isSome then 1 else 0) + (if (sktX .xmit).isSome then 1 else 0) +
    (if (sktX .icp).isSome then 1 else 0)

/-- The link number of a receive socket. -/
def IsLink (link : BitVec 8) : Prop := 2 ≤ link.toNat ∧ link.toNat ≤ 71

/-- A socket fits the state of its file. -/
structure Fits (c : Cell) (st : FileState) : Prop where
  rfnm : c.state.rfnm = true → c.sinx = .icp
  data : c.sinx ≠ .icp → c.state.listening = true → st = .dopnw
  server : c.sinx = .icp → c.state = .glsn → st = .siopw
  serverSend : c.sinx = .icp → c.state = .glsn → isSend c.lskt = true
  noSlsn : c.sinx = .icp → c.state ≠ .slsn
  user : c.sinx = .icp → c.state = .rfcw → st = .uiopw ∧ c.fskt.getLsbD 0 = true
  opened : c.sinx = .icp → c.state = .opened → st = .uiopw ∨ st = .uisnw → isSend c.lskt = false
  polarity : c.sinx ≠ .icp → c.state ≠ .clow → (isSend c.lskt = true ↔ c.sinx = .xmit)
  link : c.state ≠ .clow → isSend c.lskt = false → IsLink c.hlLink

/-- What a request of a foreign host says. -/
structure Offered (c : Cell) : Prop where
  host : c.hlHost ≠ 0
  polarity : isSend c.lskt ≠ c.fskt.getLsbD 0
  link : isSend c.lskt = true → 128 ≤ c.hlLink.toNat
  unlinked : isSend c.lskt = false → c.hlLink = 0

/-- A file in use whose sockets are counted. -/
structure Entry.Ok (e : Entry) : Prop where
  counted : e.nsatt = sktCount e.sktX
  reserved : e.nsatt + e.state.pending ≤ e.nsrsrv
  contact : e.state.contact = true → e.sktX .rcv = none ∧ e.sktX .xmit = none
  opened : e.state = .opened → e.sktX .rcv ≠ none ∨ e.sktX .xmit ≠ none
  even : e.state.server = true → isSend e.sbase = false

/-- What a file has reserved. -/
def Entry.held (e : Entry) : Int := if e.state = .null then 0 else e.nsrsrv

def Entry.free (e : Entry) : Int := if e.state = .null then 1 else 0

/-- A struct in use without a file. -/
def Cell.loose (c : Cell) : Int := if c.state ≠ .null ∧ c.filep = none then 1 else 0

structure Board.Ok (b : Board) : Prop where
  alive : b.died = false
  queued : ∀ i, (b.cells i).state ≠ .null → ((b.cells i).state = .q ↔ (b.cells i).filep = none)
  owned : ∀ i f, (b.cells i).state ≠ .null → (b.cells i).filep = some f →
    (b.entries f).state ≠ .null ∧ (b.entries f).sktX (b.cells i).sinx = some i
  listed : ∀ f x i, (b.entries f).state ≠ .null → (b.entries f).sktX x = some i →
    (b.cells i).state ≠ .null ∧ (b.cells i).filep = some f ∧ (b.cells i).sinx = x
  fits : ∀ i f, (b.cells i).state ≠ .null → (b.cells i).filep = some f →
    Fits (b.cells i) (b.entries f).state
  offered : ∀ i, (b.cells i).state = .q → Offered (b.cells i)
  files : ∀ f, (b.entries f).state ≠ .null → (b.entries f).Ok
  nsLeft : b.nsLeft = nsockets - ∑ f, (b.entries f).held - ∑ i, (b.cells i).loose
  nfLeft : b.nfLeft = ∑ f, (b.entries f).free

/-! ### Requests -/

/-- The two data sockets of a file have one peer, whose numbers are next to each other. -/
def Adjacent (rcv xmit : Cell) : Prop := rcv.hlHost = xmit.hlHost ∧ rcv.fskt = xmit.fskt + 1

/-- A request for a file that has a struct reserved for it. -/
structure Asks (b : Board) (r : Request) (f : FileNo) : Prop where
  filep : r.filep = some f
  op : r.state = .glsn ∨ r.state = .slsn ∨ r.state = .init
  used : (b.entries f).state ≠ .null
  vacant : (b.entries f).sktX r.sinx = none
  room : (b.entries f).nsatt + (b.entries f).state.pending < (b.entries f).nsrsrv
  phase : (b.entries f).state.contact = true → r.sinx = .icp
  unopened : (b.entries f).state ≠ .opened
  fits : Fits r.cell (b.entries f).state
  contact : r.sinx = .icp → (b.entries f).state = .uiopw ∧ r.fskt.getLsbD 0 = true ∨
    (b.entries f).state = .siopw
  first : r.sinx = .xmit → (b.entries f).sktX .rcv = none
  pair : r.state ≠ .glsn → r.sinx = .rcv → ∀ j, (b.entries f).sktX .xmit = some j →
    Adjacent r.cell (b.cells j)

/-- A receive socket that messages may belong to. -/
def Cell.receives (c : Cell) : Bool := c.state ≠ .null ∧ c.state ≠ .q ∧ isSend c.lskt = false

/-- The link of a request is not that of another receive socket of the host. -/
def Fresh (b : Board) (r : Request) : Prop :=
  isSend r.lskt = false → ∀ i, (b.cells i).receives = true → (b.cells i).hlHost = r.hlHost →
    (b.cells i).hlLink ≠ r.hlLink

/-- A request of a foreign host. -/
structure Offers (r : Request) : Prop where
  op : r.state = .rfc
  filep : r.filep = none
  offered : Offered r.cell

/-- The socket number map as the next search sees it. -/
def Board.map (b : Board) : Nat → Bool := if b.lasktn < 0 then fun _ => true else b.sktMap

/-- The block of a file in the socket number map. -/
def groupOf (sbase : BitVec 16) : Option Nat :=
  if Daemon.sktBase ≤ sbase.toNat ∧ sbase.toNat < Daemon.sktBase + 8 * Daemon.sktMpsz then
    some ((sbase.toNat - Daemon.sktBase) / 8)
  else none

/-- The base of a file is the first of eight numbers, or the code that none has been assigned. -/
def Aligned (sbase : BitVec 16) : Prop := sbase &&& 7 = 0 ∨ sbase = 0xffff

/-- Where the socket numbers of a file come from: it has no block, or it shares that of another file
when it may, or it gets a new one. -/
inductive Assigned (share : Prop) (b : Board) (sbase : BitVec 16) : (Nat → Bool) → Int → Prop
  | own (none : groupOf sbase = none) (aligned : Aligned sbase) (map : Nat → Bool) (last : Int)
      (same : map = b.sktMap ∧ last = b.lasktn ∨ map = b.map ∧ 0 ≤ last) :
      Assigned share b sbase map last
  | shared (ok : share) (h : FileNo) (used : (b.entries h).state ≠ .null) (l : BitVec 16) (small : l.toNat ≤ 7)
      (base : sbase = ((b.entries h).sbase + l) &&& ~~~7) :
      Assigned share b sbase b.sktMap b.lasktn
  | new (n : Nat) (bound : n < Daemon.sktMpsz) (free : b.map n = true)
      (base : sbase = BitVec.ofNat 16 (n * 8 + Daemon.sktBase)) :
      Assigned share b sbase (Function.update b.map n false) (n + 1)

variable {b : Board}

theorem Assigned.share {share may : Prop} {sbase : BitVec 16} {map : Nat → Bool} {last : Int}
    (assigned : Assigned share b sbase map last) (permitted : share → may) :
    Assigned may b sbase map last := by
  cases assigned with
  | own none aligned map last same => exact .own none aligned map last same
  | shared ok h used l small base => exact .shared (permitted ok) h used l small base
  | new n bound free base => exact .new n bound free base

/-! ### Moves -/

/-- What is asked of some of the moves: of a command with the host it is queued for and the host of
its socket; of the current host; of a data socket's general listen that meets a request of a foreign
host, and of a queued request that such a listen adopts; of a request that is queued; of a change of
the socket number map without a file; whether a file may share its block; and of the link of a
request that takes a struct, unless the socket is a receive one or the link is no receive link. -/
structure Guards where
  command : Nat → BitVec 8 → Prop
  turn : Nat → Prop
  opens : Board → SktNo → Request → Prop
  adopt : Board → SktNo → Request → Prop
  offer : Board → Request → Prop
  group : Board → (Nat → Bool) → Prop
  share : FileNo → Prop
  link : Request → Prop
  high : ∀ r : Request, (isSend r.lskt = true → 128 ≤ r.hlLink.toNat) → link r
  still : ∀ b, group b b.map
  own : ∀ h, turn h → command h (BitVec.ofNat 8 h)
  byte : ∀ hl : BitVec 8, turn hl.toNat
  low : ∀ (s : Ncp) (l : BitVec 8), turn s.host → turn (s.setLow l.toNat).host

/-- Every command and every current host is permitted. -/
def Guards.Lax (g : Guards) : Prop := (∀ h hl, g.command h hl) ∧ ∀ h, g.turn h

/-- The live states: those in which a kill, or a close of the kernel, sends a close. -/
def SktState.live : SktState → Bool
  | .rfcw | .opened | .orfnmw => true
  | _ => false

/-- The states a socket goes through when it is closed: from which one, with which marks, to which.
The close that is sent is `cls`. -/
inductive Closes (cls : Mark) : SktState → List Mark → SktState → Prop
  | killListen {old} (listens : old = .glsn ∨ old = .slsn) : Closes cls old [.clean] .clow
  | kill {old} (live : old.live = true) : Closes cls old [cls, .clean] .cacw
  | killMatched : Closes cls .clorfnmw [] .c2cw
  | matchInit : Closes cls .rfcw [.matched, .clean, cls] .clow
  | matchKilled : Closes cls .cacw [.matched] .clow
  | matchOpen : Closes cls .opened [.matched, .clean] .c2cw
  | matchWait : Closes cls .orfnmw [.matched, .clean] .clorfnmw
  | close {old} (live : old.live = true) : Closes cls old [.closed, cls, .clean] .clsw
  | closeKilled : Closes cls .cacw [.closed] .clsw
  | closeMatched : Closes cls .clorfnmw [.closed, cls] .rfnmw
  | dead {old} (before : old = .glsn ∨ old = .slsn ∨ old.live = true) :
      Closes cls old [.dead, .clean] .clow
  | deadClosing {old} (closing : old = .cacw ∨ old = .c2cw ∨ old = .clorfnmw) :
      Closes cls old [.dead] .clow

/-- The states in which a struct is given back, with the marks of it. -/
inductive Ends (cls : Mark) : SktState → List Mark → Prop
  | closeListen {old} (listens : old = .glsn ∨ old = .slsn) : Ends cls old [.closed, .clean]
  | closeWait : Ends cls .clow [.closed]
  | closeMatched : Ends cls .c2cw [.closed, cls]
  | matchQueued : Ends cls .q [.matched, cls]
  | matchWait : Ends cls .clsw [.matched]
  | expired : Ends cls .clsw [.expired]
  | dead {old} (waits : old = .q ∨ old = .clsw ∨ old = .rfnmw) : Ends cls old [.dead]
  | kill : Ends cls .rfnmw []

/-- The queues after marks that may tell of a close that is sent. -/
def Sent (ncp next : Ncp) : Prop := next = ncp ∨ ∃ cmd, next = qupPro ncp cmd

theorem Sent.host {ncp next : Ncp} (sent : Sent ncp next) : next.host = ncp.host := by
  rcases sent with rfl | ⟨cmd, rfl⟩
  · rfl
  · rfl

/-- A cell that is being closed: its numbers stay, unless it waits for the close. -/
structure Cell.Closing (c next : Cell) : Prop where
  filep : next.filep = c.filep
  sinx : next.sinx = c.sinx
  numbers : next.lskt = c.lskt ∧ next.fskt = c.fskt ∧ next.hlHost = c.hlHost ∧
      next.hlLink = c.hlLink ∨
    next.state = .clow ∧ next.lskt = 0 ∧ next.fskt = 0 ∧ next.hlHost = 0 ∧ next.hlLink = 0

/-- What a cell becomes when a request of a foreign host opens it. -/
def Cell.open (c : Cell) (r : Request) : Cell :=
  { c with
    state := .opened, hlHost := r.hlHost, fskt := r.fskt,
    hlLink := if isSend r.lskt then r.hlLink else c.hlLink }

/-- What a queued cell becomes when a file adopts it. -/
def Cell.adopt (c : Cell) (r : Request) : Cell :=
  { c with
    state := .opened, filep := r.filep, sinx := r.sinx,
    hlLink := if isSend r.lskt then c.hlLink else r.hlLink }

/-- The state of a file after one of its data sockets is gone. -/
def FileState.gone (x : SktIndex) (st : FileState) : FileState :=
  if x ≠ .icp ∧ (st = .dopnw ∨ st = .opened) then .gonew else st

/-- A file whose socket is given back. -/
def Entry.giveBack (e : Entry) (x : SktIndex) : Entry :=
  { e.detach x with state := e.state.gone x }

/-- The socket number map after a file is released: its block stays while another file uses it. -/
def Board.Released (b : Board) (f : FileNo) (map : Nat → Bool) : Prop :=
  map = b.sktMap ∧ (∃ h, h ≠ f ∧ (b.entries h).state ≠ .null ∧
    (b.entries h).sbase = (b.entries f).sbase) ∨
  map = b.sktMap ∧ groupOf (b.entries f).sbase = none ∨
  ∃ n, groupOf (b.entries f).sbase = some n ∧ map = Function.update b.sktMap n true ∧
    ∀ h, h ≠ f → (b.entries h).state ≠ .null → (b.entries h).sbase ≠ (b.entries f).sbase

/-- A file is released. -/
def Board.release (b : Board) (f : FileNo) (map : Nat → Bool) : Board :=
  { b.setEntry f { b.entries f with state := .null } with
    nsLeft := b.nsLeft + (b.entries f).nsrsrv, nfLeft := b.nfLeft + 1, sktMap := map }

/-- The changes of a file's state. -/
inductive Proceeds : FileState → FileState → Prop
  | userOpen : Proceeds .uiopw .uisnw
  | userNumber : Proceeds .uisnw .dopnw
  | serverOpen : Proceeds .siopw .sialw
  | serverAll : Proceeds .sialw .sirfw
  | serverRfnm : Proceeds .sirfw .dopnw
  | data : Proceeds .dopnw .opened

inductive Move (g : Guards) (b : Board) : Board → Prop
  | queue (ncp : Ncp) (same : ncp.host = b.ncp.host) : Move g b (b.net ncp)
  | turn (ncp : Ncp) (ok : g.turn ncp.host) : Move g b (b.net ncp)
  | note (i : SktNo) (m : Mark) (event : m = .closed ∨ m = .dead) : Move g b (b.marks i [m])
  | command (i : SktNo) (cmd : Cmd) (m : Mark)
      (kind : m = .rfc b.ncp.host (b.cells i).hlHost ∨ m = .all b.ncp.host (b.cells i).hlHost)
      (used : (b.cells i).state ≠ .null)
      (ok : g.command b.ncp.host (b.cells i).hlHost) :
      Move g b ((b.marks i [m]).net (qupPro b.ncp cmd))
  | close (i : SktNo) (ms : List Mark) (c : Cell) (ncp : Ncp)
      (closes : Closes (.cls b.ncp.host (b.cells i).hlHost) (b.cells i).state ms c.state)
      (closing : (b.cells i).Closing c)
      (sent : Sent b.ncp ncp)
      (ok : .cls b.ncp.host (b.cells i).hlHost ∈ ms → g.command b.ncp.host (b.cells i).hlHost) :
      Move g b (((b.setCell i c).marks i (ms ++ [.state c.state])).net ncp)
  | wait (i : SktNo) (opened : (b.cells i).state = .opened) (contact : (b.cells i).sinx = .icp) :
      Move g b ((b.setCell i { b.cells i with state := .orfnmw }).marks i [.state .orfnmw])
  | opens (i : SktNo) (r : Request) (offers : Offers r)
      (listening : (b.cells i).state.listening = true) (lskt : (b.cells i).lskt = r.lskt)
      (exactly : (b.cells i).state ≠ .glsn →
        r.hlHost = (b.cells i).hlHost ∧ r.fskt = (b.cells i).fskt)
      (wildly : Daemon.glMatch (b.cells i).hlHost (b.cells i).fskt r.hlHost r.fskt = true)
      (ok : (b.cells i).state = .glsn → (b.cells i).sinx ≠ .icp → g.opens b i r) :
      Move g b ((b.setCell i ((b.cells i).open r)).marks i [.state .opened])
  | adopt (i : SktNo) (r : Request) (f : FileNo) (asks : Asks b r f)
      (queued : (b.cells i).state = .q) (lskt : (b.cells i).lskt = r.lskt)
      (host : r.hlHost = (b.cells i).hlHost) (fskt : r.fskt = (b.cells i).fskt)
      (fresh : r.state ≠ .glsn → Fresh b r)
      (ok : r.state = .glsn → r.sinx ≠ .icp → g.adopt b i r) :
      Move g b
        ((((b.setCell i ((b.cells i).adopt r)).setEntry f ((b.entries f).attach r.sinx i)).marks i
          [.state .opened]).left (b.nsLeft + 1))
  | create (i : SktNo) (r : Request) (f : FileNo) (asks : Asks b r f)
      (free : (b.cells i).state = .null) (fresh : Fresh b r) (link : g.link r) :
      Move g b
        (((b.setCell i r.cell).setEntry f ((b.entries f).attach r.sinx i)).marks i
          [.state r.cell.state])
  | offer (i : SktNo) (r : Request) (offers : Offers r) (free : (b.cells i).state = .null)
      (ok : g.offer b r) :
      Move g b
        (((b.setCell i r.cell).marks i [.state r.cell.state]).left (b.nsLeft - 1))
  | fail (r : Request) (none : ∀ i, (b.cells i).state ≠ .null)
      (asks : ∀ f, r.filep = some f → Asks b r f) :
      Move g b { b with failed := b.failed ++ [r] }
  | drop (i : SktNo) (ms : List Mark) (ncp : Ncp)
      (ends : Ends (.cls b.ncp.host (b.cells i).hlHost) (b.cells i).state ms)
      (filep : (b.cells i).filep = none) (sent : Sent b.ncp ncp)
      (ok : .cls b.ncp.host (b.cells i).hlHost ∈ ms → g.command b.ncp.host (b.cells i).hlHost) :
      Move g b
        ((((b.setCell i { b.cells i with state := .null }).marks i (ms ++ [.state .null])).left
          (b.nsLeft + 1)).net ncp)
  | giveBack (i : SktNo) (f : FileNo) (ms : List Mark) (ncp : Ncp)
      (ends : Ends (.cls b.ncp.host (b.cells i).hlHost) (b.cells i).state ms)
      (filep : (b.cells i).filep = some f) (sent : Sent b.ncp ncp)
      (ok : .cls b.ncp.host (b.cells i).hlHost ∈ ms → g.command b.ncp.host (b.cells i).hlHost)
      (quiet : (b.cells i).sinx ≠ .icp → ∀ j, (b.entries f).sktX (b.cells i).sinx.other = some j →
        (b.cells j).state.listening = false) :
      Move g b
        (((((b.setCell i { b.cells i with state := .null }).setEntry f
          ((b.entries f).giveBack (b.cells i).sinx)).marks i (ms ++ [.state .null])).left
          (b.nsLeft + 1)).net ncp)
  | release (f : FileNo) (map : Nat → Bool) (used : (b.entries f).state ≠ .null)
      (empty : ∀ x, (b.entries f).sktX x = none) (group : b.Released f map) :
      Move g b (b.release f map)
  | proceed (f : FileNo) (st : FileState) (proceeds : Proceeds (b.entries f).state st)
      (fits : ∀ i, (b.cells i).state ≠ .null → (b.cells i).filep = some f →
        Fits (b.cells i) (b.entries f).state → Fits (b.cells i) st)
      (data : st = .opened → ((b.entries f).sktX .rcv ≠ none ∨ (b.entries f).sktX .xmit ≠ none) ∧
        ∀ x i, x ≠ .icp → (b.entries f).sktX x = some i → (b.cells i).state = .opened) :
      Move g b (b.setEntry f { b.entries f with state := st })
  | make (f : FileNo) (st : FileState) (n : Int) (sbase : BitVec 16) (map : Nat → Bool) (last : Int)
      (free : (b.entries f).state = .null) (used : st ≠ .null) (unopened : st ≠ .opened)
      (room : st.pending ≤ n) (left : n ≤ b.nsLeft) (even : st.server = true → isSend sbase = false)
      (assigned : Assigned (g.share f) b sbase map last) :
      Move g b
        { b.setEntry f ⟨st, sbase, fun _ => none, 0, n⟩ with
          nsLeft := b.nsLeft - n, nfLeft := b.nfLeft - 1, sktMap := map, lasktn := last }
  | idle (f : FileNo) (e : Entry) (free : (b.entries f).state = .null) (still : e.state = .null)
      (counted : e.nsatt = sktCount e.sktX) :
      Move g b (b.setEntry f e)
  | group (map : Nat → Bool) (last : Int) (started : 0 ≤ last) (ok : g.group b map) :
      Move g b { b with sktMap := map, lasktn := last }

/-! ### The moves keep the tables -/

section Kept

variable {b : Board}

theorem setCell_self (i : SktNo) (c : Cell) : (b.setCell i c).cells i = c :=
  update_self _ _ _

variable {i : SktNo} {f : FileNo} {c : Cell} {e : Entry} {cls : Mark} {ms : List Mark}
  {x : SktIndex} {st : FileState} {r : Request}

theorem setCell_other {j : SktNo} (apart : j ≠ i) (c : Cell) :
    (b.setCell i c).cells j = b.cells j := update_of_ne apart _ _

theorem setEntry_self (f : FileNo) (e : Entry) : (b.setEntry f e).entries f = e :=
  update_self _ _ _

theorem setEntry_other {h : FileNo} (apart : h ≠ f) (e : Entry) :
    (b.setEntry f e).entries h = b.entries h := update_of_ne apart _ _

theorem sum_loose (i : SktNo) (c : Cell) :
    ∑ j, ((b.setCell i c).cells j).loose =
      ∑ j, (b.cells j).loose - (b.cells i).loose + c.loose :=
  Table.sum_update b.cells Cell.loose i c

theorem sum_held (f : FileNo) (e : Entry) :
    ∑ h, ((b.setEntry f e).entries h).held =
      ∑ h, (b.entries h).held - (b.entries f).held + e.held :=
  Table.sum_update b.entries Entry.held f e

theorem sum_free (f : FileNo) (e : Entry) :
    ∑ h, ((b.setEntry f e).entries h).free =
      ∑ h, (b.entries h).free - (b.entries f).free + e.free :=
  Table.sum_update b.entries Entry.free f e

theorem Cell.loose_of_file (filep : c.filep = some f) : c.loose = 0 :=
  if_neg fun loose => Option.some_ne_none f (filep.symm.trans loose.2)

theorem Cell.loose_of_none (used : c.state ≠ .null) (filep : c.filep = none) :
    c.loose = 1 := if_pos ⟨used, filep⟩

theorem Cell.loose_of_null (free : c.state = .null) : c.loose = 0 :=
  if_neg fun loose => loose.1 free

theorem Entry.held_of_used (used : e.state ≠ .null) : e.held = e.nsrsrv := if_neg used

theorem Entry.held_of_null (free : e.state = .null) : e.held = 0 := if_pos free

theorem Entry.free_of_used (used : e.state ≠ .null) : e.free = 0 := if_neg used

theorem Entry.free_of_null (free : e.state = .null) : e.free = 1 := if_pos free

theorem Board.Ok.apart (ok : b.Ok) {j : SktNo} (used : (b.cells i).state ≠ .null)
    (filep : (b.cells i).filep = some f) (usedJ : (b.cells j).state ≠ .null)
    (filepJ : (b.cells j).filep = some f) (sinx : (b.cells i).sinx = (b.cells j).sinx) : i = j := by
  have first := (ok.owned i f used filep).2
  rw [sinx, (ok.owned j f usedJ filepJ).2] at first
  exact (Option.some.inj first).symm

/-- The entry has the cell, and the cell fits. -/
structure Entry.Has (e : Entry) (i : SktNo) (c : Cell) : Prop where
  used : e.state ≠ .null
  there : e.sktX c.sinx = some i
  fits : Fits c e.state

/-- What holds of a cell beside the entries. -/
structure Cell.Ok (entries : FileNo → Entry) (i : SktNo) (c : Cell) : Prop where
  queued : c.state ≠ .null → (c.state = .q ↔ c.filep = none)
  owned : ∀ f, c.state ≠ .null → c.filep = some f → (entries f).Has i c
  listed : ∀ f x, (entries f).state ≠ .null → (entries f).sktX x = some i →
    c.state ≠ .null ∧ c.filep = some f ∧ c.sinx = x
  offered : c.state = .q → Offered c

theorem Board.Ok.has (ok : b.Ok) (used : (b.cells i).state ≠ .null)
    (filep : (b.cells i).filep = some f) : (b.entries f).Has i (b.cells i) :=
  ⟨(ok.owned i f used filep).1, (ok.owned i f used filep).2, ok.fits i f used filep⟩

theorem Board.Ok.cell (ok : b.Ok) (i : SktNo) : (b.cells i).Ok b.entries i :=
  ⟨ok.queued i, fun _ => ok.has, fun f x => ok.listed f x i, ok.offered i⟩

theorem Board.ok_of_cells (alive : b.died = false) (cells : ∀ i, (b.cells i).Ok b.entries i)
    (files : ∀ f, (b.entries f).state ≠ .null → (b.entries f).Ok)
    (nsLeft : b.nsLeft = nsockets - ∑ f, (b.entries f).held - ∑ i, (b.cells i).loose)
    (nfLeft : b.nfLeft = ∑ f, (b.entries f).free) : b.Ok where
  alive := alive
  queued := fun i => (cells i).queued
  owned := by
    intro i f used filep
    have has := (cells i).owned f used filep
    exact ⟨has.used, has.there⟩
  listed := fun f x i => (cells i).listed f x
  fits := fun i f used filep => ((cells i).owned f used filep).fits
  offered := fun i => (cells i).offered
  files := files
  nsLeft := nsLeft
  nfLeft := nfLeft

theorem Cell.Ok.setEntry {entries : FileNo → Entry} (cell : c.Ok entries i)
    (still : c.state ≠ .null → c.filep = some f → e.Has i c)
    (old : ∀ x, e.state ≠ .null → e.sktX x = some i →
      c.state ≠ .null ∧ c.filep = some f ∧ c.sinx = x) : c.Ok (update entries f e) i where
  queued := cell.queued
  owned :=
    (forall_update_iff entries fun h e => c.state ≠ .null → c.filep = some h → e.Has i c).mpr
      ⟨still, fun h _ => cell.owned h⟩
  listed :=
    (forall_update_iff entries fun h e => ∀ x, e.state ≠ .null → e.sktX x = some i →
      c.state ≠ .null ∧ c.filep = some h ∧ c.sinx = x).mpr ⟨old, fun h _ => cell.listed h⟩
  offered := cell.offered

theorem Board.Ok.setCell (ok : b.Ok) {left : Int} (cell : c.Ok b.entries i)
    (isLeft : left = b.nsLeft + (b.cells i).loose - c.loose) :
    ({ b.setCell i c with nsLeft := left } : Board).Ok := by
  refine Board.ok_of_cells ok.alive ?_ ok.files ?_ ok.nfLeft
  · exact (forall_update_iff b.cells fun j c => c.Ok b.entries j).mpr ⟨cell, fun j _ => ok.cell j⟩
  · show left = nsockets - ∑ f, (b.entries f).held - ∑ j, ((b.setCell i c).cells j).loose
    rw [sum_loose, isLeft, ok.nsLeft]
    omega

theorem Board.Ok.setEntry (ok : b.Ok) {left filesLeft : Int}
    (cells : ∀ j, (b.cells j).Ok (update b.entries f e) j) (entry : e.state ≠ .null → e.Ok)
    (isLeft : left = b.nsLeft + (b.entries f).held - e.held)
    (isFilesLeft : filesLeft = b.nfLeft - (b.entries f).free + e.free) :
    ({ b.setEntry f e with nsLeft := left, nfLeft := filesLeft } : Board).Ok := by
  refine Board.ok_of_cells ok.alive cells ?_ ?_ ?_
  · exact (forall_update_iff b.entries fun _ e => e.state ≠ .null → e.Ok).mpr
      ⟨entry, fun h _ => ok.files h⟩
  · show left = nsockets - ∑ h, ((b.setEntry f e).entries h).held - ∑ j, (b.cells j).loose
    rw [sum_held, isLeft, ok.nsLeft]
    omega
  · show filesLeft = ∑ h, ((b.setEntry f e).entries h).free
    rw [sum_free, isFilesLeft, ok.nfLeft]

theorem Board.Ok.setBoth (ok : b.Ok) {left : Int} (cell : c.Ok (update b.entries f e) i)
    (others : ∀ j, j ≠ i → (b.cells j).Ok (update b.entries f e) j)
    (entry : e.state ≠ .null → e.Ok)
    (isLeft : left = b.nsLeft + (b.entries f).held - e.held + (b.cells i).loose - c.loose)
    (sameFree : e.free = (b.entries f).free) :
    ({ (b.setCell i c).setEntry f e with nsLeft := left } : Board).Ok := by
  refine Board.ok_of_cells ok.alive ?_ ?_ ?_ ?_
  · exact (forall_update_iff b.cells fun j c => c.Ok (update b.entries f e) j).mpr ⟨cell, others⟩
  · exact (forall_update_iff b.entries fun _ e => e.state ≠ .null → e.Ok).mpr
      ⟨entry, fun h _ => ok.files h⟩
  · show left = nsockets - ∑ h, ((b.setEntry f e).entries h).held -
      ∑ j, ((b.setCell i c).cells j).loose
    rw [sum_held, sum_loose, isLeft, ok.nsLeft]
    omega
  · show b.nfLeft = ∑ h, ((b.setEntry f e).entries h).free
    rw [sum_free, sameFree, ok.nfLeft]
    omega

theorem Board.Ok.replace (ok : b.Ok) (used : (b.cells i).state ≠ .null) (still : c.state ≠ .null)
    (filep : c.filep = (b.cells i).filep) (sinx : c.sinx = (b.cells i).sinx)
    (q : c.state = .q ↔ (b.cells i).state = .q)
    (fits : ∀ f, (b.cells i).filep = some f → Fits c (b.entries f).state)
    (offered : c.state = .q → Offered c) : (b.setCell i c).Ok := by
  have cell : c.Ok b.entries i := by
    refine ⟨fun _ => ?_, fun f _ filepC => ?_, fun f x usedF there => ?_, offered⟩
    · rw [q, filep]
      exact ok.queued i used
    · have owned := ok.owned i f used (filep.symm.trans filepC)
      exact ⟨owned.1, sinx ▸ owned.2, fits f (filep.symm.trans filepC)⟩
    · rw [filep, sinx]
      exact ⟨still, (ok.listed f x i usedF there).2⟩
  have same : c.loose = (b.cells i).loose := by
    unfold Cell.loose
    rw [filep]
    simp only [ne_eq, used, still, not_false_eq_true, true_and]
  exact ok.setCell cell (by omega)

theorem Board.Ok.aside (ok : b.Ok) (ncp : Ncp) (life : SktNo → List Mark) (map : Nat → Bool)
    (last : Int) (failed : List Request) :
    ({ b with ncp := ncp, life := life, sktMap := map, lasktn := last, failed := failed } :
      Board).Ok :=
  ⟨ok.alive, ok.queued, ok.owned, ok.listed, ok.fits, ok.offered, ok.files, ok.nsLeft, ok.nfLeft⟩

theorem Closes.states {old st : SktState} (closes : Closes cls old ms st) :
    old ≠ .null ∧ old ≠ .q ∧ st ≠ .null ∧ st ≠ .q ∧ st.listening = false ∧ st ≠ .opened ∧
      (st.rfnm = true → old.rfnm = true) ∧ (old = .clow → st = .clow) := by
  cases closes <;>
    (try (rename_i before; revert before)) <;>
    (try cases old) <;>
    decide

theorem Entry.Ok.attach (ok : e.Ok) (vacant : e.sktX x = none)
    (room : e.nsatt + e.state.pending < e.nsrsrv) (phase : e.state.contact = true → x = .icp)
    (i : SktNo) : (e.attach x i).Ok where
  counted := by
    have counted := ok.counted
    show e.nsatt + 1 = sktCount (Function.update e.sktX x (some i))
    rw [counted]
    unfold sktCount
    cases x <;> simp [Function.update, vacant] <;> omega
  reserved := by
    show e.nsatt + 1 + e.state.pending ≤ e.nsrsrv
    omega
  contact := by
    intro isContact
    have contact := ok.contact isContact
    rw [phase isContact]
    exact contact
  opened := by
    intro isOpen
    have opened := ok.opened isOpen
    unfold Entry.attach
    cases x <;> simp [Function.update] at opened ⊢
    exact opened
  even := ok.even

theorem Entry.Ok.giveBack (ok : e.Ok) (there : e.sktX x = some i) :
    (e.giveBack x).Ok where
  counted := by
    have counted := ok.counted
    show e.nsatt - 1 = sktCount (Function.update e.sktX x none)
    rw [counted]
    unfold sktCount
    cases x <;> simp [Function.update, there] <;> omega
  reserved := by
    have reserved := ok.reserved
    have fewer : (e.state.gone x).pending ≤ e.state.pending := by
      cases e.state <;> cases x <;> decide
    show e.nsatt - 1 + (e.state.gone x).pending ≤ e.nsrsrv - 1
    omega
  contact := by
    intro isContact
    have was : e.state.contact = true := by
      change (e.state.gone x).contact = true at isContact
      revert isContact
      cases e.state <;> cases x <;> decide
    have contact := ok.contact was
    show Function.update e.sktX x none .rcv = none ∧ Function.update e.sktX x none .xmit = none
    constructor
    · by_cases same : SktIndex.rcv = x
      · rw [← same, update_self]
      · rw [update_of_ne same, contact.1]
    · by_cases same : SktIndex.xmit = x
      · rw [← same, update_self]
      · rw [update_of_ne same, contact.2]
  opened := by
    intro isOpen
    have icp : x = .icp ∧ e.state = .opened := by
      change e.state.gone x = .opened at isOpen
      revert isOpen
      cases e.state <;> cases x <;> decide
    rw [icp.1]
    exact ok.opened icp.2
  even := by
    intro isServer
    refine ok.even ?_
    change (e.state.gone x).server = true at isServer
    revert isServer
    cases e.state <;> cases x <;> decide

theorem Board.Ok.attach (ok : b.Ok) {left : Int}
    (free : (b.cells i).state = .null ∨ (b.cells i).filep = none) (used : (b.entries f).state ≠ .null)
    (vacant : (b.entries f).sktX x = none)
    (room : (b.entries f).nsatt + (b.entries f).state.pending < (b.entries f).nsrsrv)
    (phase : (b.entries f).state.contact = true → x = .icp) (still : c.state ≠ .null)
    (notQ : c.state ≠ .q) (filep : c.filep = some f) (sinx : c.sinx = x)
    (fits : Fits c (b.entries f).state) (isLeft : left = b.nsLeft + (b.cells i).loose) :
    ({ (b.setCell i c).setEntry f ((b.entries f).attach x i) with nsLeft := left } : Board).Ok := by
  have notHere : ∀ h y, (b.entries h).state ≠ .null → (b.entries h).sktX y ≠ some i := by
    intro h y usedH there
    have listed := ok.listed h y i usedH there
    rcases free with isNull | isLoose
    · exact listed.1 isNull
    · exact Option.some_ne_none h (listed.2.1.symm.trans isLoose)
  have cell : c.Ok (update b.entries f ((b.entries f).attach x i)) i := by
    refine ⟨fun _ => ?_, ?_, ?_, fun isQ => absurd isQ notQ⟩
    · rw [filep]
      exact ⟨fun isQ => absurd isQ notQ, fun isNone => absurd isNone (Option.some_ne_none f)⟩
    · intro h _ filepC
      obtain rfl : f = h := Option.some.inj (filep.symm.trans filepC)
      rw [update_self]
      exact ⟨used, sinx ▸ Entry.attach_self _ _ _, fits⟩
    · intro h y usedH there
      by_cases here : h = f
      · subst here
        rw [update_self] at usedH there
        by_cases same : y = x
        · exact ⟨still, filep, sinx.trans same.symm⟩
        · rw [Entry.attach_other _ same] at there
          exact absurd there (notHere h y usedH)
      · rw [update_of_ne here] at usedH there
        exact absurd there (notHere h y usedH)
  have others (j : SktNo) (apart : j ≠ i) :
      (b.cells j).Ok (update b.entries f ((b.entries f).attach x i)) j := by
    refine (ok.cell j).setEntry (fun usedJ filepJ => ?_) fun y _ there => ?_
    · have has := ok.has usedJ filepJ
      have elsewhere : (b.cells j).sinx ≠ x := by
        intro same
        exact Option.some_ne_none j (has.there.symm.trans (same ▸ vacant))
      exact ⟨has.used, (Entry.attach_other _ elsewhere i).trans has.there, has.fits⟩
    · by_cases same : y = x
      · rw [same, Entry.attach_self] at there
        exact absurd (Option.some.inj there).symm apart
      · rw [Entry.attach_other _ same] at there
        exact ok.listed f y j used there
  have held : ((b.entries f).attach x i).held = (b.entries f).held := rfl
  refine ok.setBoth cell others (fun usedF => (ok.files f usedF).attach vacant room phase i) ?_ rfl
  rw [held, isLeft, Cell.loose_of_file filep]
  omega

theorem Fits.ofQuiet (quiet : c.state.listening = false)
    (rfnm : c.state.rfnm = true → c.sinx = .icp)
    (opened : c.sinx = .icp → c.state = .opened → st = .uiopw ∨ st = .uisnw →
      isSend c.lskt = false)
    (polarity : c.sinx ≠ .icp → c.state ≠ .clow → (isSend c.lskt = true ↔ c.sinx = .xmit))
    (link : c.state ≠ .clow → isSend c.lskt = false → IsLink c.hlLink) : Fits c st := by
  have notListening : ∀ state : SktState, state.listening = true → c.state ≠ state := by
    intro state listens isState
    rw [← isState, quiet] at listens
    exact Bool.false_ne_true listens
  refine ⟨rfnm, ?_, ?_, ?_, ?_, ?_, opened, polarity, link⟩
  · intro _ listens
    rw [quiet] at listens
    exact absurd listens Bool.false_ne_true
  · exact fun _ listens => absurd listens (notListening _ rfl)
  · exact fun _ listens => absurd listens (notListening _ rfl)
  · exact fun _ listens => notListening _ rfl listens
  · exact fun _ listens => absurd listens (notListening _ rfl)

theorem Fits.gone (fits : Fits c st) (x : SktIndex)
    (quiet : st.gone x ≠ st → c.sinx ≠ .icp → c.state.listening = false) :
    Fits c (st.gone x) := by
  by_cases same : st.gone x = st
  · rw [same]
    exact fits
  · have wasData : st = .dopnw ∨ st = .opened := by
      by_contra isOther
      exact same (if_neg fun both => isOther both.2)
    have icpQuiet : c.sinx = .icp → c.state ≠ .glsn ∧ c.state ≠ .rfcw := by
      intro icp
      constructor
      · intro listens
        have server := fits.server icp listens
        rcases wasData with isData | isData <;> rw [isData] at server <;> cases server
      · intro inits
        have user := (fits.user icp inits).1
        rcases wasData with isData | isData <;> rw [isData] at user <;> cases user
    have gone : st.gone x = .gonew := by
      by_contra isOther
      refine isOther (if_pos ⟨?_, wasData⟩)
      intro icp
      exact same (if_neg fun both => both.1 icp)
    refine ⟨fits.rfnm, ?_, ?_, fits.serverSend, fits.noSlsn, ?_, ?_, fits.polarity, fits.link⟩
    · intro data listens
      rw [quiet same data] at listens
      exact absurd listens Bool.false_ne_true
    · exact fun icp listens => absurd listens (icpQuiet icp).1
    · exact fun icp inits => absurd inits (icpQuiet icp).2
    · intro _ _ phase
      rw [gone] at phase
      rcases phase with isPhase | isPhase <;> cases isPhase

theorem Board.Ok.drop (ok : b.Ok) (used : (b.cells i).state ≠ .null)
    (filep : (b.cells i).filep = none) :
    ({ b.setCell i { b.cells i with state := .null } with nsLeft := b.nsLeft + 1 } : Board).Ok := by
  refine ok.setCell ⟨fun still => absurd rfl still, fun _ still => absurd rfl still, ?_,
    SktState.noConfusion⟩ ?_
  · intro f x usedF there
    have listed := ok.listed f x i usedF there
    exact absurd (listed.2.1.symm.trans filep) (Option.some_ne_none f)
  · rw [Cell.loose_of_none used filep, Cell.loose_of_null rfl]
    omega

theorem Board.Ok.giveBack (ok : b.Ok) (used : (b.cells i).state ≠ .null)
    (filep : (b.cells i).filep = some f)
    (quiet : (b.cells i).sinx ≠ .icp → ∀ j, (b.entries f).sktX (b.cells i).sinx.other = some j →
      (b.cells j).state.listening = false) :
    ({ (b.setCell i { b.cells i with state := .null }).setEntry f
        ((b.entries f).giveBack (b.cells i).sinx) with nsLeft := b.nsLeft + 1 } : Board).Ok := by
  obtain ⟨usedF, there⟩ := ok.owned i f used filep
  have still : ((b.entries f).giveBack (b.cells i).sinx).state ≠ .null := by
    show (b.entries f).state.gone _ ≠ .null
    revert usedF
    cases (b.entries f).state <;> cases (b.cells i).sinx <;> decide
  have gone (y : SktIndex) {j : SktNo}
      (thereJ : ((b.entries f).giveBack (b.cells i).sinx).sktX y = some j) :
      y ≠ (b.cells i).sinx ∧ (b.entries f).sktX y = some j := by
    change update (b.entries f).sktX (b.cells i).sinx none y = some j at thereJ
    by_cases same : y = (b.cells i).sinx
    · rw [same, update_self] at thereJ
      exact absurd thereJ.symm (Option.some_ne_none j)
    · rw [update_of_ne same] at thereJ
      exact ⟨same, thereJ⟩
  have cell : ({ b.cells i with state := .null } : Cell).Ok
      (update b.entries f ((b.entries f).giveBack (b.cells i).sinx)) i := by
    refine ⟨fun used => absurd rfl used, fun _ used => absurd rfl used, ?_, SktState.noConfusion⟩
    intro h y usedH thereH
    by_cases here : h = f
    · subst here
      rw [update_self] at thereH
      obtain ⟨apart, thereH⟩ := gone y thereH
      exact absurd (ok.listed h y i usedF thereH).2.2.symm apart
    · rw [update_of_ne here] at usedH thereH
      have listed := ok.listed h y i usedH thereH
      exact absurd (Option.some.inj (listed.2.1.symm.trans filep)) here
  have others (j : SktNo) (here : j ≠ i) :
      (b.cells j).Ok (update b.entries f ((b.entries f).giveBack (b.cells i).sinx)) j := by
    refine (ok.cell j).setEntry (fun usedJ filepJ => ?_) fun y _ thereJ =>
      ok.listed f y j usedF (gone y thereJ).2
    have has := ok.has usedJ filepJ
    have apart : (b.cells j).sinx ≠ (b.cells i).sinx :=
      fun sinx => here (ok.apart usedJ filepJ used filep sinx)
    refine ⟨still, (update_of_ne apart _ _).trans has.there, has.fits.gone _ fun changed data => ?_⟩
    have isData : (b.cells i).sinx ≠ .icp := by
      intro icp
      refine changed (if_neg fun both => both.1 icp)
    refine quiet isData j ?_
    have other : (b.cells i).sinx.other = (b.cells j).sinx := by
      revert apart data isData
      cases (b.cells i).sinx <;> cases (b.cells j).sinx <;> decide
    rw [other]
    exact has.there
  have held : ((b.entries f).giveBack (b.cells i).sinx).held = (b.entries f).nsrsrv - 1 :=
    Entry.held_of_used still
  refine ok.setBoth cell others (fun _ => (ok.files f usedF).giveBack there) ?_ ?_
  · rw [held, Entry.held_of_used usedF, Cell.loose_of_file filep, Cell.loose_of_null rfl]
    omega
  · rw [Entry.free_of_used still, Entry.free_of_used usedF]

theorem Board.Ok.edit (ok : b.Ok) {left filesLeft : Int}
    (unused : ∀ i, (b.cells i).state ≠ .null → (b.cells i).filep ≠ some f)
    (empty : e.state ≠ .null → e.Ok ∧ ∀ x, e.sktX x = none)
    (isLeft : left = b.nsLeft + (b.entries f).held - e.held)
    (isFilesLeft : filesLeft = b.nfLeft - (b.entries f).free + e.free) :
    ({ b.setEntry f e with nsLeft := left, nfLeft := filesLeft } : Board).Ok := by
  refine ok.setEntry (fun i => ?_) (fun used => (empty used).1) isLeft isFilesLeft
  refine (ok.cell i).setEntry (fun used filep => absurd filep (unused i used)) fun x used there => ?_
  rw [(empty used).2 x] at there
  exact absurd there.symm (Option.some_ne_none i)

theorem Board.Ok.unused_null (ok : b.Ok) (free : (b.entries f).state = .null) (i : SktNo)
    (used : (b.cells i).state ≠ .null) : (b.cells i).filep ≠ some f :=
  fun filep => (ok.owned i f used filep).1 free

theorem Board.Ok.unused_empty (ok : b.Ok) (empty : ∀ x, (b.entries f).sktX x = none) (i : SktNo)
    (used : (b.cells i).state ≠ .null) : (b.cells i).filep ≠ some f := by
  intro filep
  have there := (ok.owned i f used filep).2
  rw [empty] at there
  exact Option.some_ne_none i there.symm

theorem Board.Ok.proceed (ok : b.Ok) (proceeds : Proceeds (b.entries f).state st)
    (fits : ∀ i, (b.cells i).state ≠ .null → (b.cells i).filep = some f →
      Fits (b.cells i) (b.entries f).state → Fits (b.cells i) st)
    (data : st = .opened → (b.entries f).sktX .rcv ≠ none ∨ (b.entries f).sktX .xmit ≠ none) :
    (b.setEntry f { b.entries f with state := st }).Ok := by
  have states : (b.entries f).state ≠ .null ∧ st ≠ .null ∧
      st.pending ≤ (b.entries f).state.pending ∧
      (st.contact = true → (b.entries f).state.contact = true) ∧
      (st.server = true → (b.entries f).state.server = true) := by
    revert proceeds
    generalize (b.entries f).state = old
    intro proceeds
    cases proceeds <;> decide
  obtain ⟨used, still, pending, contact, server⟩ := states
  have cells (i : SktNo) :
      (b.cells i).Ok (update b.entries f { b.entries f with state := st }) i := by
    refine (ok.cell i).setEntry (fun usedI filep => ?_) fun x _ there => ok.listed f x i used there
    have has := ok.has usedI filep
    exact ⟨still, has.there, fits i usedI filep has.fits⟩
  have files := ok.files f used
  have entry : Entry.Ok { b.entries f with state := st } := by
    refine ⟨files.counted, ?_, fun isContact => files.contact (contact isContact), data,
      fun isServer => files.even (server isServer)⟩
    have reserved := files.reserved
    show (b.entries f).nsatt + st.pending ≤ (b.entries f).nsrsrv
    omega
  refine ok.setEntry cells (fun _ => entry) ?_ ?_
  · rw [Entry.held_of_used used, Entry.held_of_used still]
    exact (Int.add_sub_cancel _ _).symm
  · rw [Entry.free_of_used used, Entry.free_of_used still]
    exact (Int.sub_add_cancel _ _).symm

theorem Fits.closing {next : Cell} (fits : Fits c st) (closes : Closes cls c.state ms next.state)
    (closing : c.Closing next) : Fits next st := by
  obtain ⟨-, -, -, -, quiet, unopened, rfnm, clow⟩ := closes.states
  have numbers : next.state ≠ .clow → next.lskt = c.lskt ∧ next.hlLink = c.hlLink ∧ c.state ≠ .clow := by
    intro notClow
    rcases closing.numbers with same | zero
    · exact ⟨same.1, same.2.2.2, fun isClow => notClow (clow isClow)⟩
    · exact absurd zero.1 notClow
  refine Fits.ofQuiet quiet ?_ (fun _ isOpen => absurd isOpen unopened) ?_ ?_
  · intro isRfnm
    rw [closing.sinx]
    exact fits.rfnm (rfnm isRfnm)
  · intro data notClow
    rw [closing.sinx] at data ⊢
    rw [(numbers notClow).1]
    exact fits.polarity data (numbers notClow).2.2
  · intro notClow receive
    rw [(numbers notClow).1] at receive
    rw [(numbers notClow).2.1]
    exact fits.link (numbers notClow).2.2 receive

theorem Fits.open (fits : Fits c st) (offers : Offers r) (listening : c.state.listening = true)
    (lskt : c.lskt = r.lskt) (exactly : c.state ≠ .glsn → r.hlHost = c.hlHost ∧ r.fskt = c.fskt) :
    Fits (c.open r) st := by
  have notClow : c.state ≠ .clow := by
    intro isClow
    rw [isClow] at listening
    exact absurd listening (by decide)
  refine Fits.ofQuiet rfl (fun isRfnm => Bool.noConfusion isRfnm) ?_
    (fun data _ => fits.polarity data notClow) ?_
  · intro icp _ phase
    show isSend c.lskt = false
    have inits : c.state = .rfcw := by
      cases state : c.state with
      | glsn =>
        have server := fits.server icp state
        rcases phase with isPhase | isPhase <;> rw [isPhase] at server <;> cases server
      | slsn => exact absurd state (fits.noSlsn icp)
      | rfcw => rfl
      | _ =>
        rw [state] at listening
        exact absurd listening (by decide)
    have notGlsn : c.state ≠ .glsn := by
      rw [inits]
      decide
    have odd := (fits.user icp inits).2
    have polarity := offers.offered.polarity
    change isSend r.lskt ≠ r.fskt.getLsbD 0 at polarity
    rw [(exactly notGlsn).2, odd, ← lskt] at polarity
    exact Bool.eq_false_iff.mpr polarity
  · intro _ receive
    change isSend c.lskt = false at receive
    have isReceive : isSend r.lskt = false := by
      rw [← lskt]
      exact receive
    show IsLink (if isSend r.lskt then r.hlLink else c.hlLink)
    rw [isReceive]
    exact fits.link notClow receive

theorem Fits.adopt (asks : Asks b r f) (offered : Offered c) (lskt : c.lskt = r.lskt)
    (fskt : r.fskt = c.fskt) :
    Fits (c.adopt r) (b.entries f).state := by
  have fits := asks.fits
  have notClow : r.cell.state ≠ .clow := by
    show r.state.state ≠ .clow
    rcases asks.op with op | op | op <;> rw [op] <;> decide
  refine Fits.ofQuiet rfl (fun isRfnm => Bool.noConfusion isRfnm) ?_ ?_ ?_
  · intro icp _ phase
    show isSend c.lskt = false
    have odd : r.fskt.getLsbD 0 = true := by
      rcases asks.contact icp with user | server
      · exact user.2
      · rcases phase with isPhase | isPhase <;> rw [isPhase] at server <;> cases server
    have polarity := offered.polarity
    rw [← fskt, odd] at polarity
    exact Bool.eq_false_iff.mpr polarity
  · intro data _
    show isSend c.lskt = true ↔ r.sinx = .xmit
    rw [lskt]
    exact fits.polarity data notClow
  · intro _ receive
    change isSend c.lskt = false at receive
    rw [lskt] at receive
    show IsLink (if isSend r.lskt then c.hlLink else r.hlLink)
    rw [receive]
    exact fits.link notClow receive

theorem Ends.used {old : SktState} (ends : Ends cls old ms) :
    old ≠ .null := by
  cases ends with
  | closeListen listens => rcases listens with rfl | rfl <;> decide
  | dead waits => rcases waits with rfl | rfl | rfl <;> decide
  | _ => decide

theorem Board.Ok.offer (ok : b.Ok) (offers : Offers r) (free : (b.cells i).state = .null) :
    ({ (b.setCell i r.cell).marks i [.state r.cell.state] with nsLeft := b.nsLeft - 1 } :
      Board).Ok := by
  have isQ : r.cell.state = .q := by
    show r.state.state = .q
    rw [offers.op]
    rfl
  have isNone : r.cell.filep = none := offers.filep
  have still : r.cell.state ≠ .null := by
    rw [isQ]
    decide
  have cell : r.cell.Ok b.entries i := by
    refine ⟨fun _ => ⟨fun _ => isNone, fun _ => isQ⟩, fun f _ filep => ?_, fun f x used there => ?_,
      fun _ => offers.offered⟩
    · rw [isNone] at filep
      exact absurd filep.symm (Option.some_ne_none f)
    · exact absurd free (ok.listed f x i used there).1
  have placed : ({ b.setCell i r.cell with nsLeft := b.nsLeft - 1 } : Board).Ok := by
    refine ok.setCell cell ?_
    rw [Cell.loose_of_null free, Cell.loose_of_none still isNone]
    omega
  exact placed.aside _ _ _ _ _

/-- Every move keeps the tables. -/
theorem Move.ok {g : Guards} {next : Board} (ok : b.Ok) (move : Move g b next) : next.Ok := by
  cases move with
  | queue | turn | note | command | fail | group => exact ok.aside _ _ _ _ _
  | close i ms c ncp closes closing sent =>
    obtain ⟨used, notQ, still, notQ', -⟩ := closes.states
    have replaced := ok.replace used still closing.filep closing.sinx
      ⟨fun isQ => absurd isQ notQ', fun isQ => absurd isQ notQ⟩
      (fun f filep => (ok.fits i f used filep).closing closes closing)
      fun isQ => absurd isQ notQ'
    exact replaced.aside _ _ _ _ _
  | wait i opened contact =>
    have used : (b.cells i).state ≠ .null := by
      rw [opened]
      decide
    have notClow : (b.cells i).state ≠ .clow := by
      rw [opened]
      decide
    have notQ : (b.cells i).state ≠ .q := by
      rw [opened]
      decide
    have replaced : (b.setCell i { b.cells i with state := .orfnmw }).Ok := by
      refine ok.replace used SktState.noConfusion rfl rfl
        ⟨SktState.noConfusion, fun isQ => absurd isQ notQ⟩ (fun f filep => ?_) SktState.noConfusion
      have fits := ok.fits i f used filep
      exact Fits.ofQuiet rfl (fun _ => contact) (fun _ isOpen => SktState.noConfusion isOpen)
        (fun data _ => fits.polarity data notClow) fun _ => fits.link notClow
    exact replaced.aside _ _ _ _ _
  | opens i r offers listening lskt exactly =>
    have used : (b.cells i).state ≠ .null := by
      intro isNull
      rw [isNull] at listening
      exact absurd listening (by decide)
    have notQ : (b.cells i).state ≠ .q := by
      intro isQ
      rw [isQ] at listening
      exact absurd listening (by decide)
    have replaced : (b.setCell i ((b.cells i).open r)).Ok :=
      ok.replace used SktState.noConfusion rfl rfl
        ⟨SktState.noConfusion, fun isQ => absurd isQ notQ⟩
        (fun f filep => (ok.fits i f used filep).open offers listening lskt exactly)
        SktState.noConfusion
    exact replaced.aside _ _ _ _ _
  | adopt i r f asks queued lskt host fskt =>
    have used : (b.cells i).state ≠ .null := by
      rw [queued]
      decide
    have filep := (ok.queued i used).mp queued
    have isLeft : b.nsLeft + 1 = b.nsLeft + (b.cells i).loose := by
      rw [Cell.loose_of_none used filep]
    have attached := ok.attach (Or.inr filep) asks.used asks.vacant asks.room asks.phase
      (SktState.noConfusion : ((b.cells i).adopt r).state ≠ .null) SktState.noConfusion asks.filep
      rfl (Fits.adopt asks (ok.offered i queued) lskt fskt) isLeft
    exact attached.aside _ _ _ _ _
  | create i r f asks free =>
    have states : r.state.state ≠ .null ∧ r.state.state ≠ .q := by
      rcases asks.op with op | op | op <;> rw [op] <;> decide
    have isLeft : b.nsLeft = b.nsLeft + (b.cells i).loose := by
      rw [Cell.loose_of_null free, Int.add_zero]
    have attached := ok.attach (c := r.cell) (Or.inl free) asks.used
      asks.vacant asks.room asks.phase states.1 states.2 asks.filep rfl asks.fits isLeft
    exact attached.aside _ _ _ _ _
  | offer i r offers free =>
    exact ok.offer offers free
  | drop i ms ncp ends filep =>
    have used : (b.cells i).state ≠ .null := ends.used
    exact (ok.drop used filep).aside _ _ _ _ _
  | giveBack i f ms ncp ends filep sent asks quiet =>
    exact (ok.giveBack ends.used filep quiet).aside _ _ _ _ _
  | release f map used empty =>
    have isLeft : b.nsLeft + (b.entries f).nsrsrv = b.nsLeft + (b.entries f).held -
        ({ b.entries f with state := .null } : Entry).held := by
      rw [Entry.held_of_used used, Entry.held_of_null rfl, Int.sub_zero]
    have isFilesLeft : b.nfLeft + 1 = b.nfLeft - (b.entries f).free +
        ({ b.entries f with state := .null } : Entry).free := by
      rw [Entry.free_of_used used, Entry.free_of_null rfl, Int.sub_zero]
    have edited := ok.edit (ok.unused_empty empty) (fun still => absurd rfl still) isLeft isFilesLeft
    exact edited.aside _ _ _ _ _
  | proceed f st proceeds fits data =>
    exact ok.proceed proceeds fits fun isOpen => (data isOpen).1
  | make f st n sbase map last free used unopened room left even =>
    have made : Entry.Ok ⟨st, sbase, fun _ => none, 0, n⟩ :=
      ⟨rfl, by simpa using room, fun _ => ⟨rfl, rfl⟩, fun isOpen => absurd isOpen unopened, even⟩
    have isLeft : b.nsLeft - n = b.nsLeft + (b.entries f).held -
        (⟨st, sbase, fun _ => none, 0, n⟩ : Entry).held := by
      rw [Entry.held_of_null free, Entry.held_of_used used, Int.add_zero]
    have isFilesLeft : b.nfLeft - 1 = b.nfLeft - (b.entries f).free +
        (⟨st, sbase, fun _ => none, 0, n⟩ : Entry).free := by
      rw [Entry.free_of_null free, Entry.free_of_used used, Int.add_zero]
    have edited := ok.edit (ok.unused_null free) (fun _ => ⟨made, fun _ => rfl⟩) isLeft isFilesLeft
    exact edited.aside _ _ _ _ _
  | idle f e free still =>
    have isLeft : b.nsLeft = b.nsLeft + (b.entries f).held - e.held := by
      rw [Entry.held_of_null free, Entry.held_of_null still]
      omega
    have isFilesLeft : b.nfLeft = b.nfLeft - (b.entries f).free + e.free := by
      rw [Entry.free_of_null free, Entry.free_of_null still]
      omega
    exact ok.edit (ok.unused_null free) (fun used => absurd still used) isLeft isFilesLeft

end Kept

/-- The paths of moves. -/
abbrev Moves (g : Guards) : Board → Board → Prop := Relation.ReflTransGen (Move g)

theorem Moves.turned {g : Guards} {next : Board} (moves : Moves g b next) (ok : g.turn b.ncp.host) :
    g.turn next.ncp.host := by
  induction moves with
  | refl => exact ok
  | @tail mid last _ move inductionHypothesis =>
    have sent : ∀ ncp, Sent mid.ncp ncp → g.turn ncp.host := by
      intro ncp sent
      rw [sent.host]
      exact inductionHypothesis
    cases move with
    | turn h ok => exact ok
    | queue ncp same =>
      show g.turn ncp.host
      rw [same]
      exact inductionHypothesis
    | close i ms c ncp closes closing isSent => exact sent ncp isSent
    | drop i ms ncp ends filep isSent => exact sent ncp isSent
    | giveBack i f ms ncp ends filep isSent => exact sent ncp isSent
    | _ => exact inductionHypothesis

theorem Moves.ok {g : Guards} {next : Board} (moves : Moves g b next) (ok : b.Ok) : next.Ok := by
  induction moves with
  | refl => exact ok
  | tail _ move inductionHypothesis => exact move.ok inductionHypothesis

end NetworkUnix.Ncpd
