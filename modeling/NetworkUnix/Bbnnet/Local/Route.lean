/-
This file models the routines that store and drop the route of a connection, and
puts them together with the local network into one system: what users, segments,
redirects, the IMP and interface resets do to the host table, in any order.
-/

import NetworkUnix.Bbnnet.Local.Imp
import NetworkUnix.Lib.Run

namespace NetworkUnix.Bbnnet.Local

/-! ### Routing -/

/-- Find a route to a destination: the local address to send to, of the destination itself or of
a gateway. -/
def ipRoute (env : Env) (src dst : Addr) : Option Addr :=
  let snet := iptonet src
  let dnet := iptonet dst
  if snet = dnet ∧ env.ifcbs.any (fun ip => decide (dnet = iptonet ip.ifAddr) && ip.ifAvail) then some dst
  else
    match env.gateways.find? fun gp =>
        decide (snet = gp.gLnet) && decide (dnet = gp.gFnet) && gp.gAvail with
    | some gp => some gp.gLocal
    | none =>
      (env.gateways.find? fun gp => gp.gRoute && decide (snet = gp.gLnet) && gp.gAvail).map Gway.gLocal

/-- What `ip_send` hands to the local network for a fragment: its length, the link and the text. -/
structure Fragment where
  len : BitVec 16
  link : BitVec 8
  text : Chain

/-- Send the fragments of a datagram to an address of the local network. -/
def ifSend (n : LocalNet) (ap : Addr) (frags : List Fragment) : LocalNet :=
  frags.foldl (fun n frag => (impSnd n ⟨impLeader ap frag.len frag.link, frag.text⟩).1) n

/-- The first part of `ip_send`: the connection with a route, if there is one, and the address to
send to. -/
def ipSendRoute (env : Env) (hosts : Hosts) (up : Ucb) (src dst : Addr) : Hosts × Ucb × Option Addr :=
  match up.ucRoute with
  | some hp => (hosts, up, some (hosts.getD hp Host.unused).hAddr)
  | none =>
    match ipRoute env src dst with
    | none => (hosts, up, none)
    | some ap =>
      let made := hMake hosts ap false
      (made.1, { up with ucRoute := made.2 }, made.2.map fun _ => ap)

/-- Send a datagram of a connection that is not on the list of connections, too. -/
def ipSendUcb (env : Env) (n : LocalNet) (up : Ucb) (src dst : Addr) (frags : List Fragment) :
    LocalNet × Ucb :=
  let routed := ipSendRoute env n.hosts up src dst
  let n := { n with hosts := routed.1 }
  match routed.2.2 with
  | none => (n, routed.2.1)
  | some ap => (ifSend n ap frags, routed.2.1)

/-- Drop the route of a connection. -/
def dropRoute (up : Ucb) : Ucb := { up with ucRoute := none }

/-- The part of `ip_raw` for a header the user supplies: the old route is freed, and a new one made
for this datagram. -/
def ipRawRoute (env : Env) (hosts : Hosts) (up : Ucb) (src dst : Addr) : Hosts × Ucb × Option Addr :=
  let hosts := hFreeRoute hosts up.ucRoute
  match ipRoute env src dst with
  | none => (hosts, up, none)
  | some ap =>
    let made := hMake hosts ap true
    (made.1, { up with ucRoute := made.2 }, made.2.map fun _ => ap)

/-! ### The connections -/

namespace LocalNet

/-- Replace a connection. -/
def setUcb (n : LocalNet) (index : Nat) (up : Ucb) : LocalNet := { n with ucbs := n.ucbs.set index up }

/-- Release a connection block. -/
def eraseUcb (n : LocalNet) (index : Nat) : LocalNet := { n with ucbs := n.ucbs.eraseIdx index }

/-- Free the route of a connection and drop it. -/
def freeRoute (n : LocalNet) (index : Nat) (up : Ucb) : LocalNet :=
  { n with hosts := hFreeRoute n.hosts up.ucRoute }.setUcb index (dropRoute up)

end LocalNet

/-- Send a datagram of a connection. -/
def ipSend (env : Env) (n : LocalNet) (index : Nat) (up : Ucb) (src dst : Addr) (frags : List Fragment) :
    LocalNet :=
  let sent := ipSendUcb env n up src dst frags
  sent.1.setUcb index sent.2

/-- Send a datagram with a header the user supplies, if an interface is on its network. -/
def ipRaw (env : Env) (n : LocalNet) (index : Nat) (up : Ucb) (src dst : Addr) (frags : List Fragment) :
    LocalNet :=
  let routed := ipRawRoute env n.hosts up src dst
  let n := { n with hosts := routed.1 }.setUcb index routed.2.1
  match routed.2.2 with
  | none => n
  | some ap =>
    if env.ifcbs.any fun ip => iptonet ip.ifAddr = iptonet ap then
      ipSend env n index routed.2.1 src dst frags
    else n

/-- Answer a segment that nobody wants: a connection block made up for the purpose gets a route
and gives it back. -/
def tcpReset (env : Env) (n : LocalNet) (src dst : Addr) (frags : List Fragment) : LocalNet :=
  let tempucb : Ucb := ⟨true, dst, src, false, false, false, none, 0, 0⟩
  let sent := ipSendUcb env n tempucb src dst frags
  { sent.1 with hosts := hFreeRoute sent.1.hosts sent.2.ucRoute }

/-- The part of `t_close` about the connection: its control block is gone, its route is freed, and
the block itself is released if the user has closed. -/
def tClose (n : LocalNet) (index : Nat) (up : Ucb) (usrAbort : Bool) : LocalNet :=
  let n := n.freeRoute index { up with ucTcb := false }
  if usrAbort then n.eraseUcb index else n

/-- The part of `netclose` about the connection: a TCP connection with a control block is left to
the machine, a raw one gives back its route, and the block is released. -/
def netclose (n : LocalNet) (index : Nat) (up : Ucb) : LocalNet :=
  if up.utcp then
    if up.ucTcb then n else n.eraseUcb index
  else if up.raw then (n.freeRoute index up).eraseUcb index
  else n.eraseUcb index

/-- `NETROUTE`: a new route is made, or none, before the old one is freed. -/
def netRoute (n : LocalNet) (index : Nat) (up : Ucb) (addr : Option Addr) : LocalNet :=
  let made := addr.elim (n.hosts, none) fun addr => hMake n.hosts addr false
  { n with hosts := hFreeRoute made.1 up.ucRoute }.setUcb index { up with ucRoute := made.2 }

/-- A redirect: the old route is freed before the new one is made. -/
def redirect (n : LocalNet) (index : Nat) (up : Ucb) (gaddr : Addr) : LocalNet :=
  let made := hMake (hFreeRoute n.hosts up.ucRoute) gaddr false
  { n with hosts := made.1 }.setUcb index { up with ucRoute := made.2 }

/-! ### The system -/

/-- What happens to the host table: what users, segments and gateways do to the connection at an
index, what is sent and received on the interface, and resets of the interface. -/
inductive NetEvent
  | netopen (up : Ucb)
  | ipSend (index : Nat) (src dst : Addr) (frags : List Fragment)
  | ipRaw (index : Nat) (src dst : Addr) (frags : List Fragment)
  | tcpReset (src dst : Addr) (frags : List Fragment)
  | forget (index : Nat)
  | tClose (index : Nat) (usrAbort : Bool)
  | netclose (index : Nat)
  | netRoute (index : Nat) (addr : Option Addr)
  | redirect (index : Nat) (gaddr : Addr)
  | impSnd (mp : Message)
  | impRcv (p : Leader)
  | ifUp
  | netreset

/-- The effect of an event. `forget` is the way `send_rst` and `netprepr` drop a route, and the
driver makes the interface available. -/
def netStep (env : Env) (n : LocalNet) (event : NetEvent) : LocalNet :=
  match event with
  | .netopen up => { n with ucbs := up :: n.ucbs }
  | .tcpReset src dst frags => tcpReset env n src dst frags
  | .impSnd mp => (impSnd n mp).1
  | .impRcv p => impRcv env n p
  | .ifUp => { n with ifAvail := true }
  | .netreset => { n with hosts := hReset n.hosts (iptonet n.ifAddr) }
  | .ipSend index src dst frags => n.ucbs[index]?.elim n fun up => ipSend env n index up src dst frags
  | .ipRaw index src dst frags => n.ucbs[index]?.elim n fun up => ipRaw env n index up src dst frags
  | .forget index => n.ucbs[index]?.elim n fun up => n.freeRoute index up
  | .tClose index usrAbort => n.ucbs[index]?.elim n fun up => tClose n index up usrAbort
  | .netclose index => n.ucbs[index]?.elim n fun up => netclose n index up
  | .netRoute index addr => n.ucbs[index]?.elim n fun up => netRoute n index up addr
  | .redirect index gaddr => n.ucbs[index]?.elim n fun up => redirect n index up gaddr

/-- The step relation of the system: what the rest of the kernel gives comes with the event. -/
def NetStep (n : LocalNet) (event : Env × NetEvent) (next : LocalNet) : Prop :=
  next = netStep event.1 n event.2

/-- The system as it comes up: a cleared host table, and no connections. -/
def netinit (nhost : Nat) (ifAddr : Addr) : LocalNet where
  hosts := List.replicate nhost Host.unused
  ucbs := []
  ifAddr := ifAddr
  ifAvail := false
  ifOutq := []

end NetworkUnix.Bbnnet.Local
