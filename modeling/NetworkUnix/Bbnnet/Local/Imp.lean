/-
This file models the 1822 local network: sending a message with the count of those
the IMP has not answered, holding messages back while too many are in flight, and
interpreting what the IMP sends.
-/

import NetworkUnix.Bbnnet.Local.Host

namespace NetworkUnix.Bbnnet.Local

/-! ### The state -/

/-- A user connection block, as far as routes go: which protocol it has, whether its control block
still exists, and the entry of its route. -/
structure Ucb where
  ucProc : Bool
  ucHost : Addr
  ucLocal : Addr
  utcp : Bool
  raw : Bool
  ucTcb : Bool
  ucRoute : Option Nat
  ucXstat : BitVec 16
  ucState : BitVec 16

/-- Set the state flag of the user. -/
def toUser (up : Ucb) (state : BitVec 16) : Ucb := { up with ucState := up.ucState ||| state }

/-- `UDEAD`: the destination is dead. -/
def udead : BitVec 16 := 0o40

/-- `UNRCH`: the destination is unreachable. -/
def unrch : BitVec 16 := 0o200

/-- A gateway table entry, with the availability of its interface. -/
structure Gway where
  gRoute : Bool
  gFnet : Net
  gLnet : Net
  gLocal : Addr
  gAvail : Bool

/-- What the rest of the kernel gives at a step: the interfaces and the gateways, and how many
buffers there are for no-ops. -/
structure Env where
  ifcbs : List Ifcb
  gateways : List Gway
  noopBufs : Nat

/-- The local network: the host table, the connections, and the interface with the messages that
have been put on its output queue, also those the driver has taken since. -/
structure LocalNet where
  hosts : Hosts
  ucbs : List Ucb
  ifAddr : Addr
  ifAvail : Bool
  ifOutq : List Message

namespace LocalNet

/-- An entry of the host table. -/
def host (n : LocalNet) (hp : Nat) : Host := n.hosts.getD hp Host.unused

/-- The local network with one entry of the host table changed. -/
def modifyHost (n : LocalNet) (hp : Nat) (change : Host → Host) : LocalNet :=
  { n with hosts := n.hosts.modify hp change }

/-- The local network with one entry of the host table replaced. -/
def setHost (n : LocalNet) (hp : Nat) (made : Host) : LocalNet :=
  { n with hosts := n.hosts.set hp made }

/-- Put a message on the output queue of the interface. -/
def put (n : LocalNet) (mp : Message) : LocalNet := { n with ifOutq := n.ifOutq ++ [mp] }

end LocalNet

/-! ### Output -/

/-- `IMP_NFF`. -/
def impNff : BitVec 8 := 15

/-- The leader `imp_snd` builds. -/
def impLeader (addr : Addr) (len : BitVec 16) (link : BitVec 8) : Leader where
  iNff := impNff
  iType := .data
  iHost := addr.host
  iImp := addr.impno ++ (0 : BitVec 8)
  iLink := link
  iStype := 0
  iMlen := len + 12

/-- The host a message is for. -/
def Leader.dest (p : Leader) (ifAddr : Addr) : Addr := ifAddr.at1822 p.iHost p.iImp

/-- The host a reply of the IMP is about: its network byte is stored in the handling type. -/
def Leader.source (p : Leader) (ifAddr : Addr) : Addr :=
  Addr.at1822 (iptonet ifAddr) p.iHost p.iImp

/-- The entry with one more message in flight; the count is a byte. -/
def Host.counted (h : Host) : Host := { h with hRfnm := (h.hRfnm + 1) % 256 }

/-- The entry with one message answered. -/
def Host.answered (h : Host) : Host := { h with hRfnm := h.hRfnm - 1 }

/-- The entry with no message in flight. -/
def Host.cleared (h : Host) : Host := { h with hRfnm := 0 }

/-- The entry of a dead host. -/
def Host.down (h : Host) : Host := { h with hUp := false, hRfnm := 0 }

/-- The entry without the first message that waits. -/
def Host.unqueued (h : Host) : Host := { h with hOutq := h.hOutq.tail }

/-- The entry with one more message that waits. -/
def Host.holding (mp : Message) (h : Host) : Host := { h with hOutq := h.hOutq ++ [mp] }

/-- Send a message to the IMP: count it for its host, or hold it if too many are in flight,
unless too many are held. -/
def impSnd (n : LocalNet) (mp : Message) : LocalNet × Bool :=
  if n.ifAvail = false then (n, false)
  else if mp.leader.iType = .data then
    let ohost := mp.leader.dest n.ifAddr
    match hFind n.hosts ohost with
    | some hp =>
      if 8 < (n.host hp).hRfnm then
        if (n.host hp).hOutq.length ≤ 8 then (n.modifyHost hp (Host.holding mp), true)
        else (n, false)
      else ((n.modifyHost hp Host.counted).put mp, true)
    | none =>
      let made := hMake n.hosts ohost true
      let n := { n with hosts := made.1 }
      match made.2 with
      | some hp => ((n.modifyHost hp Host.counted).put mp, true)
      | none => (n.put mp, true)
  else (n.put mp, true)

/-- What `imp_snd` does with a message: the interface is down, the message is no data and not
counted, it is held, refused since too many are held, counted at the entry of its host, counted at
an entry made for it, or sent without a count as the table is full. -/
inductive Sent (n : LocalNet) (mp : Message) : LocalNet → Bool → Prop
  | down (off : n.ifAvail = false) : Sent n mp n false
  | control (on : n.ifAvail = true) (control : mp.leader.iType ≠ .data) : Sent n mp (n.put mp) true
  | held {hp : Nat} (on : n.ifAvail = true) (data : mp.leader.iType = .data)
      (found : hFind n.hosts (mp.leader.dest n.ifAddr) = some hp) (busy : 8 < (n.host hp).hRfnm) :
      Sent n mp (n.modifyHost hp (Host.holding mp)) true
  | refused {hp : Nat} (on : n.ifAvail = true) (data : mp.leader.iType = .data)
      (found : hFind n.hosts (mp.leader.dest n.ifAddr) = some hp) (busy : 8 < (n.host hp).hRfnm) :
      Sent n mp n false
  | counted {hp : Nat} (on : n.ifAvail = true) (data : mp.leader.iType = .data)
      (found : hFind n.hosts (mp.leader.dest n.ifAddr) = some hp) (room : (n.host hp).hRfnm ≤ 8) :
      Sent n mp ((n.modifyHost hp Host.counted).put mp) true
  | made {hp : Nat} (on : n.ifAvail = true) (data : mp.leader.iType = .data)
      (absent : hFind n.hosts (mp.leader.dest n.ifAddr) = none) (unused : hUnused n.hosts = some hp) :
      Sent n mp ((n.setHost hp
        (Host.fresh (addr1822 (mp.leader.dest n.ifAddr)) true).counted).put mp) true
  | uncounted (on : n.ifAvail = true) (data : mp.leader.iType = .data)
      (absent : hFind n.hosts (mp.leader.dest n.ifAddr) = none) (full : hUnused n.hosts = none) :
      Sent n mp (n.put mp) true

theorem modify_set_self (hosts : Hosts) (hp : Nat) (made : Host) (change : Host → Host) :
    (hosts.set hp made).modify hp change = hosts.set hp (change made) := by
  refine List.ext_getElem? fun i => ?_
  rw [List.getElem?_modify, List.getElem?_set, List.getElem?_set]
  by_cases same : hp = i
  · simp only [if_pos same]
    split <;> rfl
  · simp [if_neg same]

theorem impSnd_sent (n : LocalNet) (mp : Message) : Sent n mp (impSnd n mp).1 (impSnd n mp).2 := by
  unfold impSnd
  split
  · rename_i off
    exact .down off
  rename_i available
  have on : n.ifAvail = true := by simpa using available
  split
  · rename_i data
    dsimp only
    split
    · rename_i hp found
      split
      · rename_i busy
        split
        · exact .held on data found busy
        · exact .refused on data found busy
      · rename_i room
        exact .counted on data found (by omega)
    · rename_i absent
      have made := hMake_made n.hosts (mp.leader.dest n.ifAddr) true
      generalize hMake n.hosts (mp.leader.dest n.ifAddr) true = result at made ⊢
      obtain ⟨hosts, entry⟩ := result
      cases made with
      | found permanent => exact absurd permanent (by simp)
      | fresh _ unused =>
        dsimp only
        rw [LocalNet.modifyHost, modify_set_self]
        exact .made on data absent unused
      | full _ full => exact .uncounted on data absent full
  · rename_i control
    exact .control on control

theorem impSnd_counted {n : LocalNet} {mp : Message} {hp : Nat} (on : n.ifAvail = true)
    (data : mp.leader.iType = .data) (found : hFind n.hosts (mp.leader.dest n.ifAddr) = some hp)
    (room : (n.host hp).hRfnm ≤ 8) : impSnd n mp = ((n.modifyHost hp Host.counted).put mp, true) := by
  unfold impSnd
  rw [if_neg (by rw [on]; decide), if_pos data]
  dsimp only
  rw [found]
  exact if_neg (by omega)

/-- A no-op. -/
def noop (inx : BitVec 8) : Message where
  leader := { iNff := impNff, iType := .nop, iHost := 0, iImp := 0, iLink := inx, iStype := 0, iMlen := 0 }
  text := []

/-- Put three no-ops at the head of the output queue, or as many as there are buffers for. -/
def impNoops (env : Env) (n : LocalNet) : LocalNet :=
  { n with
    ifOutq := ((List.range 3).take env.noopBufs).foldl
      (fun outq inx => noop (BitVec.ofNat 8 inx) :: outq) n.ifOutq }

/-! ### Input -/

/-- The smart gateway other than the entry in use. -/
def smartGateway (env : Env) (h : Host) : Option Gway :=
  env.gateways.find? fun gp =>
    gp.gRoute && gp.gAvail && decide (iptonet h.hAddr = gp.gLnet) && decide (gp.gLocal ≠ h.hAddr)

/-- Look for a smart gateway and use that for what the connection sends from now on. -/
def ipReroute (env : Env) (hosts : Hosts) (up : Ucb) (hp : Nat) : Hosts × Ucb × Bool :=
  match smartGateway env (hosts.getD hp Host.unused) with
  | none => (hosts, up, false)
  | some gp =>
    let made := hMake (hFree hosts hp) gp.gLocal false
    (made.1, { up with ucRoute := made.2 }, made.2.isSome)

/-- Signal a connection that an entry is dead: its own host, or a gateway that another one may
replace. -/
def deadUcb (env : Env) (p : Leader) (hp : Nat) (hosts : Hosts) (up : Ucb) : Hosts × Ucb :=
  if up.ucProc = true ∧ up.ucRoute = some hp then
    if (hosts.getD hp Host.unused).hAddr = addr1822 up.ucHost then
      (hosts, toUser { up with ucXstat := p.iStype.setWidth 16 } (if p.iStype = 1 then udead else unrch))
    else
      let rerouted := ipReroute env hosts up hp
      if rerouted.2.2 then (rerouted.1, rerouted.2.1)
      else (rerouted.1, toUser { rerouted.2.1 with ucXstat := 0 } unrch)
  else (hosts, up)

/-- Signal all connections to a dead host. -/
def deadLoop (env : Env) (p : Leader) (hp : Nat) : Hosts → List Ucb → Hosts × List Ucb
  | hosts, [] => (hosts, [])
  | hosts, up :: rest =>
    let signalled := deadUcb env p hp hosts up
    let more := deadLoop env p hp signalled.1 rest
    (more.1, signalled.2 :: more.2)

/-- The IMP says that a host is dead. -/
def impDead (env : Env) (n : LocalNet) (p : Leader) : LocalNet :=
  match hFind n.hosts (p.source n.ifAddr) with
  | none => n
  | some hp =>
    let n := n.modifyHost hp Host.down
    let signalled := deadLoop env p hp n.hosts n.ucbs
    { n with hosts := signalled.1, ucbs := signalled.2 }

/-- The IMP has answered a message: send a message that waits, or delete a temporary entry when
all have been answered. -/
def impRfnm (n : LocalNet) (p : Leader) : LocalNet :=
  match hFind n.hosts (p.source n.ifAddr) with
  | none => n
  | some hp =>
    if (n.host hp).hRfnm = 0 then n
    else
      let n := n.modifyHost hp Host.answered
      match (n.host hp).hOutq with
      | m :: _ => (impSnd (n.modifyHost hp Host.unqueued) m).1
      | [] =>
        if (n.host hp).hRfnm = 0 ∧ (n.host hp).hTemp = true then { n with hosts := hFree n.hosts hp }
        else n

/-- Clear the count for the host of a message that the IMP could not read. -/
def impDerror (n : LocalNet) (p : Leader) : LocalNet :=
  match hFind n.hosts (p.source n.ifAddr) with
  | none => n
  | some hp => n.modifyHost hp Host.cleared

/-- Interpret a message of the IMP. -/
def impRcv (env : Env) (n : LocalNet) (p : Leader) : LocalNet :=
  if p.iNff ≠ impNff then n
  else
    match p.iType with
    | .lerror => impNoops env { n with hosts := hReset n.hosts (iptonet n.ifAddr) }
    | .down => { n with ifAvail := false }
    | .nop => { n with ifAddr := n.ifAddr.at1822 p.iHost p.iImp }
    | .rfnm | .incomp => impRfnm n p
    | .dead => impDead env n p
    | .derror => impNoops env (impDerror n p)
    | .data | .hstat | .reset | .illegal _ => n

/-! ### Answers -/

theorem host_of_entry {n : LocalNet} {hp : Nat} {h : Host} (entry : n.hosts[hp]? = some h) : n.host hp = h := by
  rw [LocalNet.host, List.getD_eq_getElem?_getD, entry]
  rfl

theorem entry_of_found {n : LocalNet} {np : Addr} {hp : Nat} (found : hFind n.hosts np = some hp) :
    n.hosts[hp]? = some (n.host hp) ∧ (n.host hp).hAddr = np := by
  obtain ⟨h, entry, addr, _⟩ := hFind_some found
  rw [host_of_entry entry]
  exact ⟨entry, addr⟩

theorem entry_modifyHost {n : LocalNet} {hp : Nat} {h : Host} (entry : n.hosts[hp]? = some h) (change : Host → Host) :
    (n.modifyHost hp change).hosts[hp]? = some (change h) := by
  rw [LocalNet.modifyHost, List.getElem?_modify, entry]
  simp

/-- What `imp_rcv` does with the answer to a message: the host has no entry, or no message in
flight; a message that waits is sent, a temporary entry is deleted, or one message fewer is in
flight. -/
inductive Answered (n : LocalNet) (p : Leader) : LocalNet → Prop
  | unknown (absent : hFind n.hosts (p.source n.ifAddr) = none) : Answered n p n
  | early {hp : Nat} (found : hFind n.hosts (p.source n.ifAddr) = some hp)
      (none : (n.host hp).hRfnm = 0) : Answered n p n
  | released {hp : Nat} {m : Message} {rest : List Message}
      (found : hFind n.hosts (p.source n.ifAddr) = some hp) (some : (n.host hp).hRfnm ≠ 0)
      (queue : (n.host hp).hOutq = m :: rest) :
      Answered n p (impSnd ((n.modifyHost hp Host.answered).modifyHost hp Host.unqueued) m).1
  | deleted {hp : Nat} (found : hFind n.hosts (p.source n.ifAddr) = some hp)
      (last : (n.host hp).hRfnm = 1) (idle : (n.host hp).hOutq = [])
      (temp : (n.host hp).hTemp = true) :
      Answered n p { n with hosts := hFree (n.modifyHost hp Host.answered).hosts hp }
  | left {hp : Nat} (found : hFind n.hosts (p.source n.ifAddr) = some hp)
      (some : (n.host hp).hRfnm ≠ 0) (idle : (n.host hp).hOutq = []) :
      Answered n p (n.modifyHost hp Host.answered)

theorem impRfnm_answered (n : LocalNet) (p : Leader) : Answered n p (impRfnm n p) := by
  unfold impRfnm
  split
  · rename_i absent
    exact .unknown absent
  rename_i hp found
  split
  · rename_i none
    exact .early found none
  rename_i some
  dsimp only
  rw [host_of_entry (entry_modifyHost (entry_of_found found).1 Host.answered)]
  split
  · rename_i m rest queue
    exact .released found some queue
  · rename_i idle
    split
    · rename_i temp
      have last : (n.host hp).hRfnm - 1 = 0 := temp.1
      exact .deleted found (by omega) idle temp.2
    · exact .left found some idle

end NetworkUnix.Bbnnet.Local
