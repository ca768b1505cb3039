/-
This file models how a network connection is opened and closed as far as the
reservation of buffers goes: `netopen` with its error exits, `tcpopen`,
`netclose` and `t_close`. Every connection reserves its send and receive buffers
and two more in `n_lowat`. It proves which connections the reservations in
`n_lowat` stand for in every reachable state.

The chain of connection blocks is a list, the newest one first. A connection is
open at user level as long as a file refers to it. What a TCP open puts on the
work queue is left to the model of the finite state machine, and the routes and
the raw protocol numbers to theirs.
-/

import NetworkUnix.Lib.Run
import NetworkUnix.Bbnnet.Net
import Mathlib.Algebra.BigOperators.Group.List.Basic
import Mathlib.Algebra.Ring.Int.Defs
import Mathlib.Data.Int.Bitwise

namespace NetworkUnix.Bbnnet.Open

/-! ### Connection blocks -/

/-- The errors of an open. -/
inductive OpenError
  | efault
  | enetbuf
  | enfile
  | enetrng
  | enetdown
  | enetparm
deriving DecidableEq

/-- The bits of `c_mode` and of `uc_flags` that opening and closing look at. -/
structure Flags where
  conact : Bool
  tcp : Bool
  ip : Bool
  raw : Bool
  ctl : Bool
  udp : Bool
  cwait : Bool
  oblok : Bool
deriving DecidableEq

/-- The parameters of an open; no local address is the address zero. -/
structure Con where
  cMode : Flags
  cSbufs : Nat
  cRbufs : Nat
  cProto : Int
  cTimeo : Nat
  cLport : BitVec 16
  cFport : BitVec 16
  cFcon : Addr
  cLcon : Addr

/-- The part of a control block that opening and closing look at. -/
structure Tcb where
  tLport : BitVec 16
  tFport : BitVec 16
  usrAbort : Bool
deriving DecidableEq

/-- A connection block, and whether a file refers to it. -/
structure Ucb where
  pid : BitVec 16
  ucHost : Addr
  ucLocal : Addr
  ucSrcif : Option Ifcb
  ucSnd : Nat
  ucRcv : Nat
  ucTimeo : Nat
  ucFlags : Flags
  ucTcb : Option Tcb
  uLport : BitVec 16
  uFport : BitVec 16
  isOpen : Bool
deriving DecidableEq

/-- The free buffer marks, the interfaces and the connection blocks. -/
structure OpenNet where
  nLowat : Int
  nHiwat : Int
  ifcbs : List Ifcb
  ucbs : List Ucb

/-- What the rest of the kernel gives to an open: whether the parameters can be read, whether there
is a file entry, the outcomes of `m_get` for the connection block, the control block and the block
of protocol numbers, and the process. -/
structure OpenEnv where
  copied : Bool
  file : Bool
  ucbGot : Bool
  tcbGot : Bool
  protoGot : Bool
  pid : BitVec 16

namespace Flags

/-- A raw or UDP connection. -/
def rawOrUdp (f : Flags) : Bool := f.ip || f.raw || f.udp

end Flags

/-- The buffers a connection reserves. -/
def Ucb.size (up : Ucb) : Int := up.ucSnd + up.ucRcv + 2

/-! ### Opening -/

/-- The number of buffers for a direction: eight times the parameter, or eight where that is
outside the range. -/
def allocation (bufs : Nat) : Nat := if 8 * bufs < 8 ∨ 8 * bufs > 64 then 8 else 8 * bufs

/-- The pages of the network as buffers, less 32. -/
def maxLowat : Int := 256 * 8 - 32

def setLowat (n : OpenNet) (lowat : Int) : OpenNet :=
  { n with nLowat := lowat, nHiwat := (lowat * 3) >>> 1 }

/-- The interface and the local address: the interface of the address that is asked for, if it is
available; else the first available one, or rather an available one on the net of the foreign
host, with its address for an active open and none for a passive one. -/
def localIf (ifcbs : List Ifcb) (cp : Con) : Except OpenError (Ifcb × Addr) :=
  if cp.cLcon ≠ 0 then
    match ifcbs.find? fun lp => lp.ifAddr = addr1822 cp.cLcon with
    | none => .error .enetrng
    | some lp => if lp.ifAvail then .ok (lp, cp.cLcon) else .error .enetdown
  else
    match ifcbs.find? fun lp => lp.ifAvail with
    | none => .error .enetdown
    | some first =>
      let net := iptonet cp.cFcon
      let lp := (ifcbs.find? fun lp => iptonet lp.ifAddr = net && lp.ifAvail).getD first
      .ok (lp, if cp.cMode.conact then lp.ifAddr else 0)

/-- Another connection has the ports. -/
def portTaken (others : List Ucb) (up : Ucb) (lport fport : BitVec 16) : Bool :=
  others.any fun q => q.ucHost = up.ucHost && q.ucLocal = up.ucLocal &&
    (q.ucFlags.tcp && q.ucTcb.any (fun tp => tp.tLport = lport && tp.tFport = fport) ||
      q.ucFlags.udp && q.uLport = lport && q.uFport = fport)

/-- The search for a default port goes up from the first choice and passes over the low ports;
`tries` bounds it by the number of ports. -/
def defaultPort (others : List Ucb) (up : Ucb) (fport : BitVec 16) :
    Nat → BitVec 16 → Option (BitVec 16)
  | 0, _ => none
  | tries + 1, lport =>
    if portTaken others up lport fport then
      defaultPort others up fport tries (if (lport + 1).toNat < 0x100 then 0x100 else lport + 1)
    else some lport

/-- `others` are the connections after the new one, which is the first. -/
def uniqport (others : List Ucb) (up : Ucb) (lport fport : BitVec 16) : Option (BitVec 16) :=
  if lport = 0 then defaultPort others up fport 0x10000 (0x100 ||| (up.pid &&& 0xff))
  else if portTaken others up lport fport then none
  else some lport

/-- A control block is attached, unless there is no buffer for it or the ports are in use. -/
def tcpopen (env : OpenEnv) (others : List Ucb) (up : Ucb) (cp : Con) : Except OpenError Ucb :=
  if env.tcbGot = false then .error .enetbuf
  else
    match uniqport others up cp.cLport cp.cFport with
    | none => .error .enetrng
    | some lport =>
      let flags := { up.ucFlags with tcp := true }
      .ok { up with ucTcb := some ⟨lport, cp.cFport, false⟩, ucFlags := flags }

/-- The open routine of the protocol that the mode names, and of no other. The first protocol number
of a raw connection needs a block. -/
def protoOpen (env : OpenEnv) (others : List Ucb) (up : Ucb) (cp : Con) : Except OpenError Ucb :=
  match cp.cMode.tcp, cp.cMode.ip, cp.cMode.raw, cp.cMode.udp with
  | true, false, false, false => tcpopen env others up cp
  | false, false, false, true =>
    match uniqport others up cp.cLport cp.cFport with
    | none => .error .enetrng
    | some lport => .ok { up with uLport := lport, uFport := cp.cFport }
  | false, false, true, false => if env.protoGot then .ok up else .error .enetbuf
  | false, true, false, false => if env.protoGot then .ok up else .error .enetbuf
  | _, _, _, _ => .error .enetparm

/-- The new connection block. A TCP connection is not marked before it has a control block. -/
def newUcb (env : OpenEnv) (cp : Con) : Ucb where
  pid := env.pid
  ucHost := cp.cFcon
  ucLocal := cp.cLcon
  ucSrcif := none
  ucSnd := allocation cp.cSbufs
  ucRcv := allocation cp.cRbufs
  ucTimeo := cp.cTimeo
  ucFlags := { cp.cMode with tcp := false }
  ucTcb := none
  uLport := 0
  uFport := 0
  isOpen := true

/-- The connection block with its interface and what the protocol needs. -/
def attach (env : OpenEnv) (n : OpenNet) (cp : Con) : Except OpenError Ucb := do
  let (lp, address) ← localIf n.ifcbs cp
  let up := newUcb env cp
  let flags := { up.ucFlags with conact := !up.ucFlags.conact }
  protoOpen env n.ucbs { up with ucSrcif := some lp, ucLocal := address, ucFlags := flags } cp

/-! ### Closing -/

/-- A TCP connection with a control block is left to the machine; without one it holds no buffers
any more. A raw or UDP connection gives its buffers back. -/
def netclose (n : OpenNet) (index : Nat) (up : Ucb) : OpenNet :=
  if up.ucFlags.tcp then
    match up.ucTcb with
    | some tp =>
      let left : Ucb := { up with ucTcb := some { tp with usrAbort := true }, isOpen := false }
      { n with ucbs := n.ucbs.set index left }
    | none => { n with ucbs := n.ucbs.eraseIdx index }
  else if up.ucFlags.rawOrUdp then
    { setLowat n (n.nLowat - up.size) with ucbs := n.ucbs.eraseIdx index }
  else { n with ucbs := n.ucbs.eraseIdx index }

/-- The control block is deleted and the buffers are given back; the connection block goes too when
the user has closed. -/
def tClose (n : OpenNet) (index : Nat) (up : Ucb) (tp : Tcb) : OpenNet :=
  let n := setLowat n (n.nLowat - up.size)
  if tp.usrAbort then { n with ucbs := n.ucbs.eraseIdx index }
  else { n with ucbs := n.ucbs.set index { up with ucTcb := none } }

/-- The buffers are there, or none are asked for. -/
def enough (n : OpenNet) (cp : Con) : Bool :=
  cp.cMode.ctl || (allocation cp.cSbufs + allocation cp.cRbufs + 2 : Nat) ≤ maxLowat - n.nLowat

/-- The open up to the point where a TCP open waits, and its error. -/
def netopen (env : OpenEnv) (n : OpenNet) (cp : Con) : OpenNet × Option OpenError :=
  let up := newUcb env cp
  if env.copied = false then (n, some .efault)
  else if enough n cp = false then (n, some .enetbuf)
  else if env.file = false then (n, some .enfile)
  else if env.ucbGot = false then (n, some .enetbuf)
  else if cp.cMode.ctl then ({ n with ucbs := up :: n.ucbs }, none)
  else
    let reserved := setLowat n (n.nLowat + up.size)
    match attach env n cp with
    | .ok opened => ({ reserved with ucbs := opened :: n.ucbs }, none)
    | .error error => (netclose { reserved with ucbs := up :: n.ucbs } 0 up, some error)

/-! ### Runs -/

/-- The calls; `awaited` is the end of a blocking open, which closes the connection on an error. -/
inductive OpenEvent
  | netopen (env : OpenEnv) (cp : Con)
  | awaited (index : Nat) (failed : Bool)
  | netclose (index : Nat)
  | tClose (index : Nat)

inductive OpenStep : OpenNet → OpenEvent → OpenNet → Prop
  | netopen (n : OpenNet) (env : OpenEnv) (cp : Con) :
      OpenStep n (.netopen env cp) (Open.netopen env n cp).1
  | refused (n : OpenNet) (index : Nat) (up : Ucb) (entry : n.ucbs[index]? = some up)
      (opened : up.isOpen = true) : OpenStep n (.awaited index true) (Open.netclose n index up)
  | established (n : OpenNet) (index : Nat) : OpenStep n (.awaited index false) n
  | netclose (n : OpenNet) (index : Nat) (up : Ucb) (entry : n.ucbs[index]? = some up)
      (opened : up.isOpen = true) : OpenStep n (.netclose index) (Open.netclose n index up)
  | tClose (n : OpenNet) (index : Nat) (up : Ucb) (tp : Tcb) (entry : n.ucbs[index]? = some up)
      (present : up.ucTcb = some tp) : OpenStep n (.tClose index) (Open.tClose n index up tp)

/-- The system before any connection is opened. -/
def netinit (lowat : Int) (ifcbs : List Ifcb) : OpenNet :=
  setLowat { nLowat := 0, nHiwat := 0, ifcbs := ifcbs, ucbs := [] } lowat

/-! ### Reservations -/

/-- A connection that is not a control connection and has a control block, or is a raw or UDP
connection that is open at user level. -/
def Ucb.holds (up : Ucb) : Bool :=
  !up.ucFlags.ctl && (up.ucTcb.isSome || up.ucFlags.rawOrUdp && up.isOpen)

/-- The buffers that a connection still holds. -/
def share (up : Ucb) : Int := if up.holds then up.size else 0

def reserved (ucbs : List Ucb) : Int := (ucbs.map share).sum

theorem reserved_cons (up : Ucb) (ucbs : List Ucb) :
    reserved (up :: ucbs) = share up + reserved ucbs := by
  unfold reserved
  rw [List.map_cons, List.sum_cons]

theorem reserved_of_getElem {ucbs : List Ucb} {index : Nat} {up : Ucb}
    (entry : ucbs[index]? = some up) :
    reserved ucbs = share up + reserved (ucbs.eraseIdx index) := by
  obtain ⟨bound, rfl⟩ := List.getElem?_eq_some_iff.mp entry
  rw [← reserved_cons]
  exact ((List.getElem_cons_eraseIdx_perm bound).map share).sum_eq.symm

theorem reserved_set {ucbs : List Ucb} {index : Nat} {up : Ucb} (entry : ucbs[index]? = some up)
    (other : Ucb) :
    reserved (ucbs.set index other) = share other + reserved (ucbs.eraseIdx index) := by
  have bound := (List.getElem?_eq_some_iff.mp entry).1
  rw [reserved_of_getElem (List.getElem?_set_self bound), List.eraseIdx_set_eq]

/-- What keeps a connection block in order: only a TCP connection has a control block, and the
control block knows whether the user has closed; a block that nothing else refers to is open;
TCP and control connections are of no other kind. -/
structure Fit (up : Ucb) : Prop where
  tcb : ∀ tp : Tcb, up.ucTcb = some tp → up.ucFlags.tcp = true ∧ tp.usrAbort = !up.isOpen
  opened : up.ucTcb = none → up.isOpen = true
  tcp : up.ucFlags.tcp = true → up.ucFlags.ctl = false ∧ up.ucFlags.rawOrUdp = false
  ctl : up.ucFlags.ctl = true → up.ucFlags.rawOrUdp = false

/-- The reservations are in order: `lowat` is what there was before any connection. -/
structure Accounted (lowat : Int) (n : OpenNet) : Prop where
  lowat : n.nLowat = lowat + reserved n.ucbs
  fit : ∀ up ∈ n.ucbs, Fit up

/-- The open has reserved its buffers. -/
def Reserves (env : OpenEnv) (n : OpenNet) (cp : Con) : Prop :=
  env.copied = true ∧ enough n cp = true ∧ env.file = true ∧ env.ucbGot = true ∧
    cp.cMode.ctl = false

/-- The opens whose error exits `netclose` can undo: a control connection that is not marked as a
raw or UDP one, and an open that either is marked as one or does not fail after its reservation. -/
def Clean (n : OpenNet) : OpenEvent → Prop
  | .netopen env cp =>
    (cp.cMode.ctl = true → cp.cMode.rawOrUdp = false) ∧
      (Reserves env n cp → cp.cMode.rawOrUdp = true ∨ (attach env n cp).isOk = true)
  | _ => True

variable {lowat : Int} {n : OpenNet} {index : Nat} {up : Ucb}

theorem Fit.member (fit : ∀ up ∈ n.ucbs, Fit up) (entry : n.ucbs[index]? = some up) : Fit up :=
  fit up (List.mem_of_getElem? entry)

theorem share_tcb (fit : Fit up) {tp : Tcb} (present : up.ucTcb = some tp) :
    share up = up.size := by
  unfold share Ucb.holds
  rw [(fit.tcp (fit.tcb tp present).1).1, present]
  rfl

theorem share_no_tcb (fit : Fit up) (absent : up.ucTcb = none) (isTcp : up.ucFlags.tcp = true) :
    share up = 0 := by
  unfold share Ucb.holds
  rw [absent, (fit.tcp isTcp).2, Option.isSome_none, Bool.false_and, Bool.or_false, Bool.and_false]
  rfl

theorem Accounted.netclose (accounted : Accounted lowat n) (entry : n.ucbs[index]? = some up) :
    Accounted lowat (netclose n index up) := by
  have fit := Fit.member accounted.fit entry
  have split := reserved_of_getElem entry
  have total := accounted.lowat
  have others : ∀ q ∈ n.ucbs.eraseIdx index, Fit q :=
    fun q inside => accounted.fit q (List.mem_of_mem_eraseIdx inside)
  unfold Open.netclose
  cases isTcp : up.ucFlags.tcp with
  | true =>
    rw [if_pos rfl]
    cases present : up.ucTcb with
    | some tp =>
      have left : Fit { up with ucTcb := some { tp with usrAbort := true }, isOpen := false } :=
        ⟨fun _ same => ⟨isTcp, Option.some_inj.mp same ▸ rfl⟩,
          fun absent => absurd absent (Option.some_ne_none _), fit.tcp, fit.ctl⟩
      refine ⟨?_, fun q inside => ?_⟩
      · show n.nLowat = lowat + reserved (n.ucbs.set index _)
        rw [reserved_set entry, share_tcb left rfl, total, split, share_tcb fit present]
        rfl
      · rcases List.mem_or_eq_of_mem_set inside with old | rfl
        · exact accounted.fit q old
        · exact left
    | none =>
      refine ⟨?_, others⟩
      show n.nLowat = lowat + reserved (n.ucbs.eraseIdx index)
      rw [share_no_tcb fit present isTcp] at split
      omega
  | false =>
    rw [if_neg Bool.false_ne_true]
    have absent : up.ucTcb = none := by
      refine Option.eq_none_iff_forall_ne_some.mpr fun tp present => ?_
      rw [(fit.tcb tp present).1] at isTcp
      exact Bool.noConfusion isTcp
    have opened := fit.opened absent
    cases kind : up.ucFlags.rawOrUdp with
    | true =>
      have notCtl : up.ucFlags.ctl = false := by
        refine Bool.eq_false_iff.mpr fun isCtl => ?_
        rw [fit.ctl isCtl] at kind
        exact Bool.noConfusion kind
      have whole : share up = up.size := by
        unfold share Ucb.holds
        rw [notCtl, kind, opened, Bool.and_true, Bool.or_true]
        rfl
      rw [if_pos rfl]
      refine ⟨?_, others⟩
      show n.nLowat - up.size = lowat + reserved (n.ucbs.eraseIdx index)
      omega
    | false =>
      have none : share up = 0 := by
        unfold share Ucb.holds
        rw [absent, kind, Option.isSome_none, Bool.false_and, Bool.or_false, Bool.and_false]
        rfl
      rw [if_neg Bool.false_ne_true]
      refine ⟨?_, others⟩
      show n.nLowat = lowat + reserved (n.ucbs.eraseIdx index)
      omega

theorem Accounted.tClose (accounted : Accounted lowat n) (entry : n.ucbs[index]? = some up)
    {tp : Tcb} (present : up.ucTcb = some tp) : Accounted lowat (tClose n index up tp) := by
  have fit := Fit.member accounted.fit entry
  have split := reserved_of_getElem entry
  have total := accounted.lowat
  rw [share_tcb fit present] at split
  obtain ⟨isTcp, user⟩ := fit.tcb tp present
  unfold Open.tClose
  simp only
  split
  · refine ⟨?_, fun q inside => accounted.fit q (List.mem_of_mem_eraseIdx inside)⟩
    show n.nLowat - up.size = lowat + reserved (n.ucbs.eraseIdx index)
    omega
  next kept =>
    rw [user, Bool.not_eq_true, Bool.not_eq_false'] at kept
    have left : Fit { up with ucTcb := none } :=
      ⟨fun _ same => absurd same.symm (Option.some_ne_none _), fun _ => kept, fit.tcp, fit.ctl⟩
    refine ⟨?_, fun q inside => ?_⟩
    · show n.nLowat - up.size = lowat + reserved (n.ucbs.set index _)
      rw [reserved_set entry, share_no_tcb left rfl isTcp]
      omega
    · rcases List.mem_or_eq_of_mem_set inside with old | rfl
      · exact accounted.fit q old
      · exact left

/-! ### Opens -/

section Opens

variable {env : OpenEnv} {cp : Con} {others : List Ucb} {opened : Ucb}

/-- A block that has come out of an open: nobody has closed it, and it holds its buffers. -/
structure Fresh (opened up : Ucb) : Prop where
  size : opened.size = up.size
  fit : Fit opened
  holds : opened.holds = true

theorem Fresh.share (fresh : Fresh opened up) : share opened = up.size := by
  unfold Open.share
  rw [if_pos fresh.holds, fresh.size]

/-- A connection before the open routine of its protocol: not a TCP one yet, open and not for
control. -/
structure Plain (up : Ucb) : Prop where
  tcp : up.ucFlags.tcp = false
  ctl : up.ucFlags.ctl = false
  tcb : up.ucTcb = none
  isOpen : up.isOpen = true

theorem Plain.fresh (plain : Plain up) (same : opened.size = up.size)
    (flags : opened.ucFlags = up.ucFlags) (tcb : opened.ucTcb = up.ucTcb)
    (isOpen : opened.isOpen = up.isOpen) (kind : up.ucFlags.rawOrUdp = true) : Fresh opened up where
  size := same
  fit := by
    refine ⟨fun tp present => ?_, fun _ => isOpen.trans plain.isOpen, fun isTcp => ?_,
      fun isCtl => ?_⟩
    · rw [tcb, plain.tcb] at present
      exact absurd present.symm (Option.some_ne_none tp)
    · rw [flags, plain.tcp] at isTcp
      exact Bool.noConfusion isTcp
    · rw [flags, plain.ctl] at isCtl
      exact Bool.noConfusion isCtl
  holds := by
    unfold Ucb.holds
    rw [flags, isOpen, plain.ctl, plain.isOpen, kind, Bool.and_true, Bool.or_true]
    rfl

theorem tcpopen_fresh (plain : Plain up) (kind : up.ucFlags.rawOrUdp = false)
    (done : tcpopen env others up cp = .ok opened) : Fresh opened up := by
  unfold tcpopen at done
  split at done
  · cases done
  split at done
  · cases done
  next lport _ =>
    obtain rfl := Except.ok.inj done
    refine ⟨rfl, ⟨?_, ?_, ?_, ?_⟩, ?_⟩
    · intro tp same
      obtain rfl := Option.some_inj.mp same
      exact ⟨rfl, (congrArg not plain.isOpen).symm⟩
    · exact fun absent => absurd absent (Option.some_ne_none _)
    · exact fun _ => ⟨plain.ctl, kind⟩
    · exact fun isCtl => absurd isCtl (Bool.eq_false_iff.mp plain.ctl)
    · unfold Ucb.holds
      show (!up.ucFlags.ctl && _) = true
      rw [plain.ctl]
      rfl

theorem protoOpen_fresh (plain : Plain up)
    (kind : up.ucFlags.rawOrUdp = cp.cMode.rawOrUdp)
    (done : protoOpen env others up cp = .ok opened) : Fresh opened up := by
  unfold Flags.rawOrUdp at kind
  unfold protoOpen at done
  split at done
  next isTcp isIp isRaw isUdp =>
    rw [isIp, isRaw, isUdp] at kind
    exact tcpopen_fresh plain kind done
  next isTcp isIp isRaw isUdp =>
    rw [isIp, isRaw, isUdp] at kind
    split at done
    · cases done
    · obtain rfl := Except.ok.inj done
      exact plain.fresh rfl rfl rfl rfl kind
  next isTcp isIp isRaw isUdp =>
    rw [isIp, isRaw, isUdp] at kind
    split at done
    · obtain rfl := Except.ok.inj done
      exact plain.fresh rfl rfl rfl rfl kind
    · cases done
  next isTcp isIp isRaw isUdp =>
    rw [isIp, isRaw, isUdp] at kind
    split at done
    · obtain rfl := Except.ok.inj done
      exact plain.fresh rfl rfl rfl rfl kind
    · cases done
  · cases done

theorem attach_fresh (notCtl : cp.cMode.ctl = false) (done : attach env n cp = .ok opened) :
    Fresh opened (newUcb env cp) := by
  unfold attach at done
  cases found : localIf n.ifcbs cp with
  | error error =>
    rw [found] at done
    cases done
  | ok picked =>
    rw [found] at done
    have fresh := protoOpen_fresh ⟨rfl, notCtl, rfl, rfl⟩ rfl done
    exact ⟨fresh.size, fresh.fit, fresh.holds⟩

theorem netopen_error (clean : Clean n (.netopen env cp)) {error : OpenError}
    (failed : (netopen env n cp).2 = some error) :
    (netopen env n cp).1.nLowat = n.nLowat ∧ (netopen env n cp).1.ucbs = n.ucbs := by
  unfold netopen at failed ⊢
  simp only at failed ⊢
  split
  · exact ⟨rfl, rfl⟩
  next copied =>
  split
  · exact ⟨rfl, rfl⟩
  next room =>
  split
  · exact ⟨rfl, rfl⟩
  next file =>
  split
  · exact ⟨rfl, rfl⟩
  next got =>
  rw [if_neg copied, if_neg room, if_neg file, if_neg got] at failed
  split at failed
  · exact absurd failed.symm (Option.some_ne_none _)
  next notCtl =>
  rw [if_neg notCtl]
  have reserves : Reserves env n cp :=
    ⟨Bool.not_eq_false _ ▸ copied, Bool.not_eq_false _ ▸ room, Bool.not_eq_false _ ▸ file,
      Bool.not_eq_false _ ▸ got, Bool.not_eq_true _ ▸ notCtl⟩
  have kind := clean.2 reserves
  cases attached : attach env n cp with
  | ok opened =>
    rw [attached] at failed
    exact absurd failed.symm (Option.some_ne_none _)
  | error _ =>
    rw [attached] at kind
    have marked : (newUcb env cp).ucFlags.rawOrUdp = true := kind.resolve_right Bool.false_ne_true
    simp only
    unfold Open.netclose
    rw [if_neg (show ¬(newUcb env cp).ucFlags.tcp = true from Bool.false_ne_true), if_pos marked]
    refine ⟨?_, rfl⟩
    show n.nLowat + _ - _ = n.nLowat
    omega

theorem Accounted.netopen (accounted : Accounted lowat n) (clean : Clean n (.netopen env cp)) :
    Accounted lowat (netopen env n cp).1 := by
  cases outcome : (Open.netopen env n cp).2 with
  | some error =>
    obtain ⟨same, blocks⟩ := netopen_error clean outcome
    exact ⟨by rw [same, blocks, accounted.lowat], blocks ▸ accounted.fit⟩
  | none =>
    unfold Open.netopen at outcome ⊢
    simp only at outcome ⊢
    split
    · exact accounted
    next copied =>
    split
    · exact accounted
    next room =>
    split
    · exact accounted
    next file =>
    split
    · exact accounted
    next got =>
    rw [if_neg copied, if_neg room, if_neg file, if_neg got] at outcome
    split
    next isCtl =>
      have fit : Fit (newUcb env cp) :=
        ⟨fun tp present => absurd present.symm (Option.some_ne_none tp), fun _ => rfl,
          fun isTcp => absurd isTcp Bool.false_ne_true, clean.1⟩
      have none : share (newUcb env cp) = 0 := by
        unfold share Ucb.holds
        rw [show (newUcb env cp).ucFlags.ctl = true from isCtl]
        rfl
      refine ⟨?_, List.forall_mem_cons.mpr ⟨fit, accounted.fit⟩⟩
      show n.nLowat = lowat + reserved (newUcb env cp :: n.ucbs)
      rw [reserved_cons, none, accounted.lowat]
      omega
    next notCtl =>
      rw [if_neg notCtl] at outcome
      cases attached : attach env n cp with
      | ok opened =>
        have fresh := attach_fresh (Bool.eq_false_iff.mpr notCtl) attached
        refine ⟨?_, List.forall_mem_cons.mpr ⟨fresh.fit, accounted.fit⟩⟩
        show n.nLowat + (newUcb env cp).size = lowat + reserved (opened :: n.ucbs)
        rw [reserved_cons, fresh.share, accounted.lowat]
        omega
      | error error =>
        rw [attached] at outcome
        exact absurd outcome (Option.some_ne_none _)

end Opens

theorem netinit_accounted (lowat : Int) (ifcbs : List Ifcb) :
    Accounted lowat (netinit lowat ifcbs) where
  lowat := (Int.add_zero lowat).symm
  fit := fun _ inside => absurd inside List.not_mem_nil

theorem Accounted.step {event : OpenEvent} {next : OpenNet} (accounted : Accounted lowat n)
    (clean : Clean n event) (taken : OpenStep n event next) : Accounted lowat next := by
  cases taken with
  | netopen env cp => exact accounted.netopen clean
  | refused index up entry opened => exact accounted.netclose entry
  | established index => exact accounted
  | netclose index up entry opened => exact accounted.netclose entry
  | tClose index up tp entry present => exact accounted.tClose entry present

/-- In every run of clean calls the mark stands for the connections that have a control block and
the raw and UDP connections that are open at user level; and a clean open that fails before it waits
leaves it as it was. -/
theorem lowat_reserved (lowat : Int) (ifcbs : List Ifcb) (history : List OpenEvent) (n : OpenNet)
    (run : Transition.Run (Transition.Guarded OpenStep Clean) (netinit lowat ifcbs) history n) :
    n.nLowat = lowat + (n.ucbs.map fun up => if up.holds then up.size else 0).sum ∧
      ∀ env cp, Clean n (.netopen env cp) → (netopen env n cp).2 ≠ none →
        (netopen env n cp).1.nLowat = n.nLowat := by
  have accounted := run.always (Accounted lowat) (netinit_accounted lowat ifcbs)
    fun _ _ _ accounted taken => accounted.step taken.1 taken.2
  refine ⟨accounted.lowat, fun env cp clean failed => ?_⟩
  obtain ⟨error, failed⟩ := Option.ne_none_iff_exists'.mp failed
  exact (netopen_error clean failed).1

/-! ### A connection that the other side closes first -/

/-- One interface, and an open that gets all it asks for. -/
def oneIf : List Ifcb := [⟨0x0500020a, true, 1018⟩]

def given : OpenEnv := ⟨true, true, true, true, true, 7⟩

/-- An active TCP open with the smallest buffers. -/
def activeTcp : Con where
  cMode := ⟨true, true, false, false, false, false, false, false⟩
  cSbufs := 1
  cRbufs := 1
  cProto := 0
  cTimeo := 0
  cLport := 0
  cFport := 23
  cFcon := 0x0600000a
  cLcon := 0

def openedTcp : OpenNet := (netopen given (netinit 16 oneIf) activeTcp).1

/-- The connection that the open makes. -/
def activeUcb : Ucb where
  pid := 7
  ucHost := 0x0600000a
  ucLocal := 0x0500020a
  ucSrcif := some ⟨0x0500020a, true, 1018⟩
  ucSnd := 8
  ucRcv := 8
  ucTimeo := 0
  ucFlags := ⟨false, true, false, false, false, false, false, false⟩
  ucTcb := some ⟨0x107, 23, false⟩
  uLport := 0
  uFport := 0
  isOpen := true

def closedTcp : OpenNet := tClose openedTcp 0 activeUcb ⟨0x107, 23, false⟩

theorem openedTcp_entry : openedTcp.ucbs[0]? = some activeUcb := by decide

theorem closedTcp_taken : OpenStep openedTcp (.tClose 0) closedTcp :=
  .tClose openedTcp 0 activeUcb ⟨0x107, 23, false⟩ openedTcp_entry rfl

theorem lowat_reserved_closed : closedTcp.nLowat = 16 := by
  have clean : Clean (netinit 16 oneIf) (.netopen given activeTcp) :=
    ⟨fun _ => rfl, fun _ => Or.inr (by decide)⟩
  have opened : Transition.Run (Transition.Guarded OpenStep Clean) (netinit 16 oneIf) _ openedTcp :=
    Transition.Run.start.step ⟨clean, .netopen _ given activeTcp⟩
  have closed : Transition.Guarded OpenStep Clean openedTcp (.tClose 0) closedTcp :=
    ⟨trivial, closedTcp_taken⟩
  have total := (lowat_reserved 16 oneIf _ closedTcp (opened.step closed)).1
  rw [total]
  decide

/-- The connection is still open at user level, but its buffers have been given back. -/
theorem closed_by_peer_reserves_nothing :
    ¬ ∀ (lowat : Int) (ifcbs : List Ifcb) (history : List OpenEvent) (n : OpenNet),
      Transition.Run OpenStep (netinit lowat ifcbs) history n →
        n.nLowat = lowat + (n.ucbs.map fun up =>
          if !up.ucFlags.ctl && (up.isOpen || up.ucTcb.isSome) then up.size else 0).sum := by
  intro always
  have opened : Transition.Run OpenStep (netinit 16 oneIf) _ openedTcp :=
    Transition.Run.start.step (.netopen _ given activeTcp)
  have total := always 16 oneIf _ closedTcp (opened.step closedTcp_taken)
  exact absurd total (by decide)

end NetworkUnix.Bbnnet.Open
