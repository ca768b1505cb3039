/-
This file models the dispatcher of the TCP machine: the transition table, the
entry into the machine, the search for the control block of a segment, and the
run over the work list.
-/

import NetworkUnix.Bbnnet.Tcp.States

namespace NetworkUnix.Bbnnet

/-! ### The transition table -/

/-- The index of an input in the table. -/
def Work.input : Work → Nat
  | .uopena => 1
  | .recv _ => 2
  | .uopenr => 3
  | .uclose => 4
  | .timer _ => 5
  | .urecv => 6
  | .usend _ => 7
  | .uabort => 8
  | .nclear => 9

/-- The transition table: for each state the number of the action routine for each input. -/
def fstab : TState → List Nat
  | .closed => [0, 1, 0, 4, 0, 24, 0, 0, 0, 24]
  | .listen => [0, 0, 2, 0, 6, 9, 24, 24, 21, 23]
  | .synSent => [0, 0, 5, 0, 6, 9, 24, 24, 21, 23]
  | .synRcvd => [0, 0, 3, 0, 14, 9, 24, 24, 21, 23]
  | .lSynRcvd => [0, 0, 3, 0, 14, 9, 24, 24, 21, 23]
  | .estab => [0, 0, 7, 0, 14, 9, 20, 19, 22, 23]
  | .finW1 => [0, 0, 15, 0, 24, 9, 20, 25, 22, 23]
  | .finW2 => [0, 0, 16, 0, 24, 9, 20, 24, 22, 23]
  | .timeWait => [0, 0, 18, 0, 24, 9, 20, 25, 22, 23]
  | .closeWait => [0, 0, 17, 0, 8, 9, 20, 19, 22, 23]
  | .closing1 => [0, 0, 10, 0, 25, 9, 20, 25, 22, 23]
  | .closing2 => [0, 0, 11, 0, 25, 9, 20, 25, 22, 23]
  | .rcvWait => [0, 0, 13, 0, 25, 9, 12, 25, 22, 23]

/-- The action routines by number. A routine for segments sees the segment of the work entry,
one for timers its timer, and `sss_snd` its data. -/
def fsactab (env : Env) (c : Conn) (w : Work) (act : Nat) : Outcome :=
  match act, w with
  | 1, _ => lisCls c
  | 2, .recv n => lisNetr env c n
  | 3, .recv n => syrNetr env c n
  | 4, _ => sysCls env c
  | 5, .recv n => sysNetr env c n
  | 6, _ => clsOpn c
  | 7, .recv n => estNetr env c n
  | 8, _ => cl2Clw env c
  | 9, .timer i => timers env c i
  | 10, .recv n => cl1Netr env c n
  | 11, .recv n => cl2Netr env c n
  | 12, _ => clsRwt c
  | 13, .recv n => rwtNetr env c n
  | 14, _ => fw1Syr env c
  | 15, .recv n => fw1Netr env c n
  | 16, .recv n => fw2Netr env c n
  | 17, .recv n => cwtNetr env c n
  | 18, .recv n => sssSyn env c n
  | 19, .usend dat => sssSnd env c dat
  | 20, _ => sssRcv env c
  | 21, _ => clsNsy c
  | 22, _ => clsSyn env c
  | 23, _ => clsAct c
  | 25, _ => clsErr c
  | _, _ => (c, none)

/-- The number of the action routine for a state and an input. -/
def Tcb.act (tp : Tcb) (w : Work) : Nat := (fstab tp.tState).getD w.input 0

/-- The connection an action routine leaves, in the state it enters. -/
def Outcome.conn (outcome : Outcome) : Conn :=
  match outcome.2 with
  | none => outcome.1
  | some state => outcome.1.enter state

/-- The connection as an action routine finds it. -/
def Conn.entered (c : Conn) : Conn := c.withTcb { c.tcb with netKeep := false }

/-- Entry into the machine. An invalid transition is ignored. -/
def action (env : Env) (c : Conn) (w : Work) : Conn :=
  if c.tcb.act w = 0 then c else (fsactab env c.entered w (c.tcb.act w)).conn

/-! ### Segments from the network -/

/-- The control block matches the addresses and ports of a segment exactly. -/
def matchExact (c : Conn) (n : Th) : Prop :=
  c.tcb.tLport = n.tDst ∧ c.tcb.tFport = n.tSrc ∧ c.ucb.ucHost = n.tS ∧ c.ucb.ucLocal = n.tD

/-- The control block matches a segment, with zero as a wild card. -/
def matchWild (c : Conn) (n : Th) : Prop :=
  c.tcb.tLport = n.tDst ∧ (c.tcb.tFport = n.tSrc ∨ c.tcb.tFport = 0) ∧
    (c.ucb.ucHost = n.tS ∨ c.ucb.ucHost = 0) ∧ (c.ucb.ucLocal = n.tD ∨ c.ucb.ucLocal = 0)

instance (c : Conn) (n : Th) : Decidable (matchExact c n) := inferInstanceAs (Decidable (_ ∧ _))
instance (c : Conn) (n : Th) : Decidable (matchWild c n) := inferInstanceAs (Decidable (_ ∧ _))

/-- Find the control block for an incoming segment: an exact match, or else the first wild card
match. -/
def lookTcb (tcbs : List Conn) (n : Th) : Option Nat :=
  match tcbs.findIdx? fun c => matchExact c n with
  | some found => some found
  | none => tcbs.findIdx? fun c => matchWild c n

/-- The effect of the options of a segment: the maximum segment size of a first SYN. -/
def tcpOpt (c : Conn) (n : Th) : Conn :=
  match n.tMss with
  | none => c
  | some len =>
    if n.tFlags.syn = true ∧ c.tcb.synRcvd = false then
      c.withTcb { c.tcb with tMaxseg := min (c.ucb.ucSrcif.ifMtu - tcpipmax) len }
    else c

/-- Put an acceptable segment on the unacked queue if the receive queue of the user is full and
there are few free buffers, and give it to the machine otherwise. -/
def tcpAccept (env : Env) (c : Conn) (n : Th) : Conn :=
  if c.ucb.ucRcv ≤ c.ucb.ucRsize ∧ n.tLen ≠ 0 then
    if env.bufsLow c.clock then
      c.tick.withTcb { c.tcb with tRcvUnack := c.tcb.tRcvUnack ++ [n] }
    else action env c.tick (.recv (skipHeader n))
  else action env c (.recv (skipHeader n))

/-- The input of a segment to the control block it is for: options, the check, the queue or
the machine. -/
def tcpSegment (env : Env) (c : Conn) (n : Th) : Conn :=
  let checked := netprepr env (tcpOpt c n) n
  match checked.2 with
  | .accept => tcpAccept env checked.1 n
  | .eat => checked.1
  | .enter state => checked.1.enter state

/-- The input of a segment: the control block it is for, and what becomes of the connections. A
segment nobody wants changes no connection. -/
def tcpInput (env : Env) (tcbs : List Conn) (n : Th) : List Conn :=
  match lookTcb tcbs n with
  | none => tcbs
  | some found => tcbs.modify found fun c => tcpSegment env c n

/-- Take the first entry of the work list. -/
def takeWork (env : Env) (c : Conn) : Conn :=
  match c.work with
  | [] => c
  | w :: rest => action env { c with work := rest } w

end NetworkUnix.Bbnnet
