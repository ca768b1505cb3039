/-
This file models the kernel's decoding of host-host messages. The commands of a
message are taken from its buffers one by one; an allocation or an interrupt for a
connection of the sending host is handed to the socket, a command that does nothing
is dropped, and all others are put together in a message for the daemon.

A command that is cut short takes the way of the others and is filled up with what
is left in the buffer for commands. A search of the write connection table for link
zero is taken for one for a free entry, which may still have the pointer to a socket
that is gone. The first byte of a message without bytes is what its buffer held
before. It is proved that the decoding does what it is for exactly when none of these
happens.
-/

import NetworkUnix.Ncpk.Ncpio
import NetworkUnix.Lib.Commands

namespace NetworkUnix.Ncpk.HostHost

open Kerbuf Commands

/-! ### Host-host commands -/

/-- Largest legal host to host op code. -/
def numhhops : Nat := 13

/-- The lengths of the host-host commands by their op codes. -/
def hhsize : List Nat := [1, 10, 10, 9, 8, 4, 8, 2, 2, 2, 2, 12, 1, 1]

def hhnop : BitVec 8 := 0

def hhall : BitVec 8 := 4

def hhinr : BitVec 8 := 7

def hhins : BitVec 8 := 8

theorem hhsize_pos (op : Nat) (legal : op ≤ numhhops) : 0 < hhsize.getD op 0 := by
  have all : ∀ i < 14, 0 < hhsize.getD i 0 := by decide
  exact all op (Nat.lt_succ_of_le legal)

theorem hhsize_le (op : Nat) : hhsize.getD op 0 ≤ 12 := by
  by_cases legal : op < 14
  · have all : ∀ i < 14, hhsize.getD i 0 ≤ 12 := by decide
    exact all op legal
  · rw [List.getD_eq_getElem?_getD, List.getElem?_eq_none (Nat.le_of_not_lt legal)]
    exact Nat.zero_le _

/-- The stream of commands in a message. -/
def hostHost : Grammar (BitVec 8) where
  size op := if op.toNat > numhhops then none else some (hhsize.getD op.toNat 0)
  positive op n size := by
    split at size
    · exact absurd size.symm (Option.some_ne_none n)
    · rename_i legal
      rw [← Option.some_inj.mp size]
      exact hhsize_pos _ (Nat.le_of_not_lt legal)

/-! ### The connection tables -/

/-- An entry of a connection table: host in the high byte and link in the low byte, zero when it is
free, and the socket, which stays when the entry is removed. -/
structure Conentry where
  cHostlink : Nat
  cSiptr : Nat
  named : cHostlink ≠ 0 → cSiptr ≠ 0

structure Contab where
  rContab : List Conentry
  wContab : List Conentry

/-- Search the connection table for a host and link; with the write bit alone as the link a zero
entry is looked for. -/
def incontab (t : Contab) (srchwd : Nat) : Option Conentry :=
  let contab := if srchwd / 128 % 2 = 1 then t.wContab else t.rContab
  let srchwd := if srchwd % 256 = 128 then 0 else srchwd
  contab.find? fun conptr => conptr.cHostlink = srchwd

/-- Why the decoding gives no result. -/
inductive Halt
  | stopped (stop : Stop)
  | panic

/-- The socket of a link of the sending host, zero if there is none. -/
def imphostlink (t : Contab) (host link : BitVec 8) : Except Halt Nat :=
  if host = 0 then .error .panic
  else .ok ((incontab t (host.toNat * 256 + link.toNat)).map Conentry.cSiptr |>.getD 0)

/-! ### The decoding -/

/-- What becomes of a command. -/
inductive Fate
  | passed
  | dropped
  | handed (sktp : Nat)
deriving DecidableEq

/-- A socket is handed the command if there is one. -/
def toSocket (sktp : Nat) : Fate := if sktp = 0 then .passed else .handed sktp

/-- The tests of the code and the link of a command. -/
def fate (t : Contab) (host : BitVec 8) (hhcom : BitVec 8) (hhproto : List (BitVec 8)) :
    Except Halt Fate :=
  let link := hhproto.getD 1 0
  if hhcom = hhall then (imphostlink t host (link ||| 0o200)).map toSocket
  else if hhcom = hhins then (imphostlink t host (link &&& 0o177)).map toSocket
  else if hhcom = hhinr then (imphostlink t host (link ||| 0o200)).map toSocket
  else if hhcom = hhnop then .ok .dropped
  else .ok .passed

/-- What the loop leaves: the message for the daemon, and the commands that sockets were handed. -/
structure Decoded where
  ncp : Ncp
  daemsg : Option Nat
  handed : List (Nat × List (BitVec 8))

section Routines

variable (netBSize bHyster : Nat) (getblk : Getblk) (t : Contab) (host : BitVec 8)
variable (nrcv : List (BitVec 8)) (toncp : Nat → Bool)

/-- An allocation for a socket is kept there, or sent to the daemon if the socket is the
daemon's. -/
def allocate (sktp : Nat) (allocp : List (BitVec 8)) (ncp : Ncp) : Except Stop Ncp :=
  if toncp sktp then
    match vectomsg netBSize getblk (allocp.take 8) none ncp.pool with
    | .error stop => .error stop
    | .ok (k, msgp) =>
      (toNcp netBSize bHyster getblk true nrcv msgp { ncp with pool := k }).map Prod.fst
  else .ok ncp

/-- The loop over the commands of a message. -/
def hh1From : (trips : Nat) → (impiMsg daemsg : Option Nat) → (hhproto : List (BitVec 8)) →
    List (Nat × List (BitVec 8)) → Ncp → Except Halt Decoded
  | _, none, daemsg, _, handed, ncp => .ok ⟨ncp, daemsg, handed⟩
  | 0, some _, _, _, _, _ => .error (.stopped .lost)
  | trips + 1, some impiMsg, daemsg, hhproto, handed, ncp =>
    let hhcom := ncp.pool.bData (ncp.pool.bQlink impiMsg) 0
    if hhcom.toNat > numhhops then
      match catmsg netBSize bHyster daemsg (some impiMsg) ncp.pool with
      | .error stop => .error (.stopped stop)
      | .ok (k, daemsg) => .ok ⟨{ ncp with pool := k }, daemsg, handed⟩
    else
      let cnt := hhsize.getD hhcom.toNat 0
      match bytesout bHyster (some impiMsg) cnt ncp.pool with
      | .error stop => .error (.stopped stop)
      | .ok (k, impiMsg, vec, more) =>
        let hhproto := vec ++ hhproto.drop vec.length
        match if more ≠ 0 then .ok .passed else fate t host hhcom hhproto with
        | .error halt => .error halt
        | .ok .dropped => hh1From trips impiMsg daemsg hhproto handed { ncp with pool := k }
        | .ok (.handed sktp) =>
          let command := hhproto.take cnt
          if hhcom = hhall then
            match allocate netBSize bHyster getblk nrcv toncp sktp command
              { ncp with pool := k } with
            | .error stop => .error (.stopped stop)
            | .ok ncp => hh1From trips impiMsg daemsg hhproto (handed ++ [(sktp, command)]) ncp
          else
            hh1From trips impiMsg daemsg hhproto (handed ++ [(sktp, command)])
              { ncp with pool := k }
        | .ok .passed =>
          match vectomsg netBSize getblk (hhproto.take cnt) daemsg k with
          | .error stop => .error (.stopped stop)
          | .ok (k, daemsg) => hh1From trips impiMsg daemsg hhproto handed { ncp with pool := k }

/-- Decode a message, and send to the daemon what is for it. There are no more trips than bytes in
the buffers, but for a message without bytes. -/
def hh1 (impiMsg : Option Nat) (hhproto : Vector (BitVec 8) 15) (ncp : Ncp) :
    Except Halt (Decoded × Ncp) :=
  match hh1From netBSize bHyster getblk t host nrcv toncp (mostBufs * netBSize + 1) impiMsg none
    hhproto.toList [] ncp with
  | .error halt => .error halt
  | .ok decoded =>
    match decoded.daemsg with
    | none => .ok (decoded, decoded.ncp)
    | some _ =>
      match toNcp netBSize bHyster getblk true nrcv decoded.daemsg decoded.ncp with
      | .error stop => .error (.stopped stop)
      | .ok (ncp, _) => .ok (decoded, ncp)

end Routines

/-! ### What the decoding is for -/

/-- The socket of the connection that a command names: an allocation and an interrupt by the
receiver name one that is written, an interrupt by the sender one that is read. -/
def connection (t : Contab) (host : BitVec 8) (command : List (BitVec 8)) : Option Nat :=
  let link := (command.getD 1 0 &&& 0o177).toNat
  let find (contab : List Conentry) (hostlink : Nat) : Option Nat :=
    (contab.find? fun conptr => conptr.cHostlink ≠ 0 ∧ conptr.cHostlink = hostlink).map
      Conentry.cSiptr
  if command.headD 0 = hhins then find t.rContab (host.toNat * 256 + link)
  else find t.wContab (host.toNat * 256 + (128 + link))

/-- What is to become of a command. -/
def wanted (t : Contab) (host : BitVec 8) (command : List (BitVec 8)) : Fate :=
  let op := command.headD 0
  if op = hhall ∨ op = hhins ∨ op = hhinr then
    ((connection t host command).map Fate.handed).getD .passed
  else if op = hhnop then .dropped
  else .passed

/-- A command with its socket, if it is handed to one. -/
def Fate.toHand (command : List (BitVec 8)) : Fate → Option (Nat × List (BitVec 8))
  | .handed sktp => some (sktp, command)
  | _ => none

/-- What is left begins a command that is longer. -/
def CutShort (rest : List (BitVec 8)) : Prop :=
  ∃ op more n, rest = op :: more ∧ hostHost.size op = some n ∧ rest.length < n

/-- The daemon gets the bytes of the commands that are neither dropped nor handed to a socket, in
order, and all from an illegal code on; a command that is cut short comes as it was received, or
not at all. -/
def Filtered (t : Contab) (host : BitVec 8) (body passed : List (BitVec 8))
    (handed : List (Nat × List (BitVec 8))) : Prop :=
  ∃ commands rest tail, Split hostHost body commands rest ∧
    passed = (commands.filter fun command => wanted t host command = .passed).flatten ++ tail ∧
    handed = commands.filterMap (fun command => (wanted t host command).toHand command) ∧
    (tail = rest ∨ tail = [] ∧ CutShort rest)

/-- The bytes of the message for the daemon. -/
def Decoded.passed (decoded : Decoded) : List (BitVec 8) :=
  content decoded.ncp.pool (buffers decoded.ncp.pool decoded.daemsg)

/-- What the decoding is to do: the message for the daemon and the commands for the sockets are as
they should be, and the daemon finds its message at the end of its queue. -/
def Filters (t : Contab) (host : BitVec 8) (nrcv body : List (BitVec 8))
    (result : Except Halt (Decoded × Ncp)) : Prop :=
  ∃ decoded last, result = .ok (decoded, last) ∧
    Filtered t host body decoded.passed decoded.handed ∧
    (decoded.daemsg ≠ none → 0 < decoded.ncp.ncpopnstate →
      ∃ news, buffers last.pool last.ncpirq =
          buffers decoded.ncp.pool decoded.ncp.ncpirq ++ news ∧
        content last.pool news = nrcv ++ decoded.passed)

/-! ### When it does so -/

/-- An allocation or an interrupt by the receiver for link zero. -/
def ZeroLink (command : List (BitVec 8)) : Prop :=
  (command.headD 0 = hhall ∨ command.headD 0 = hhinr) ∧ command.getD 1 0 &&& 0o177 = 0

instance (command : List (BitVec 8)) : Decidable (ZeroLink command) :=
  inferInstanceAs (Decidable ((_ ∨ _) ∧ _))

/-- An allocation or an interrupt. -/
def Asks (command : List (BitVec 8)) : Prop :=
  command.headD 0 = hhall ∨ command.headD 0 = hhins ∨ command.headD 0 = hhinr

/-- The socket that the first free entry of the write connection table still points to. -/
def freeSocket (t : Contab) : Option Nat :=
  ((t.wContab.find? fun conptr => conptr.cHostlink = 0).map Conentry.cSiptr).filter (· ≠ 0)

/-- No command is cut short, and none names link zero, or the first free entry is no other socket
than the one it names. -/
def Plain (t : Contab) (host : BitVec 8) (body : List (BitVec 8)) : Prop :=
  ∀ commands rest, Split hostHost body commands rest →
    ¬ CutShort rest ∧ ∀ command ∈ commands, ZeroLink command →
      freeSocket t = connection t host command

/-- Host zero, for which the search of a connection panics, asks for no connection. -/
def Hosted (host : BitVec 8) (body : List (BitVec 8)) : Prop :=
  ∀ commands rest, Split hostHost body commands rest → host = 0 →
    ∀ command ∈ commands, ¬ Asks command

/-- The message is plain, and without bytes the first byte of its buffer is no legal code. -/
def Sound (t : Contab) (host : BitVec 8) (first : BitVec 8) (body : List (BitVec 8)) : Prop :=
  (body = [] → first.toNat > numhhops) ∧ Plain t host body ∧ Hosted host body

/-! ### The tests of the code -/

variable {t : Contab} {host : BitVec 8} {command : List (BitVec 8)}

theorem write_link : ∀ link : BitVec 8, (link ||| 0o200).toNat = 128 + (link &&& 0o177).toNat := by
  decide

theorem low_link : ∀ link : BitVec 8, (link &&& 0o177).toNat < 128 := by decide

theorem zero_link : ∀ link : BitVec 8, (link &&& 0o177).toNat = 0 ↔ link &&& 0o177 = 0 := by decide

theorem incontab_write (t : Contab) (high low : Nat) (isLow : low < 128) :
    incontab t (high * 256 + (128 + low)) = t.wContab.find? fun conptr =>
      conptr.cHostlink = if low = 0 then 0 else high * 256 + (128 + low) := by
  unfold incontab
  rw [if_pos (by omega)]
  by_cases zero : low = 0
  · rw [if_pos zero, if_pos (by omega)]
  · rw [if_neg zero, if_neg (by omega)]

theorem incontab_read (t : Contab) (high low : Nat) (isLow : low < 128) :
    incontab t (high * 256 + low) = t.rContab.find? fun conptr =>
      conptr.cHostlink = high * 256 + low := by
  unfold incontab
  rw [if_neg (by omega), if_neg (by omega)]

theorem find?_named (contab : List Conentry) {hostlink : Nat} (some : hostlink ≠ 0) :
    (contab.find? fun conptr => conptr.cHostlink ≠ 0 ∧ conptr.cHostlink = hostlink) =
      contab.find? fun conptr => conptr.cHostlink = hostlink := by
  refine congrArg (List.find? · contab) (funext fun conptr => decide_eq_decide.mpr ?_)
  exact ⟨And.right, fun same => ⟨same ▸ some, same⟩⟩

theorem toSocket_named (contab : List Conentry) {hostlink : Nat} (some : hostlink ≠ 0) :
    toSocket (((contab.find? fun conptr => conptr.cHostlink = hostlink).map
      Conentry.cSiptr).getD 0) =
        (((contab.find? fun conptr => conptr.cHostlink = hostlink).map
          Conentry.cSiptr).map Fate.handed).getD .passed := by
  cases found : contab.find? fun conptr => conptr.cHostlink = hostlink with
  | none => rfl
  | some conptr =>
    have isKey : conptr.cHostlink = hostlink := by
      simpa only [decide_eq_true_eq] using List.find?_some found
    exact if_neg (conptr.named (isKey ▸ some))

theorem toSocket_free (t : Contab) :
    toSocket (((t.wContab.find? fun conptr => conptr.cHostlink = 0).map Conentry.cSiptr).getD 0) =
      ((freeSocket t).map Fate.handed).getD .passed := by
  unfold freeSocket
  cases (t.wContab.find? fun conptr => conptr.cHostlink = 0).map Conentry.cSiptr with
  | none => rfl
  | some sktp =>
    rw [Option.getD_some, toSocket, Option.filter_some]
    by_cases zero : sktp = 0
    · rw [if_pos zero, if_neg (by simpa using zero)]
      rfl
    · rw [if_neg zero, if_pos (by simpa using zero)]
      rfl

/-- What the code makes of a command. -/
def made (t : Contab) (host : BitVec 8) (command : List (BitVec 8)) : Fate :=
  if ZeroLink command then ((freeSocket t).map Fate.handed).getD .passed else wanted t host command

theorem toNat_pos (hostSome : host ≠ 0) : 0 < host.toNat :=
  Nat.pos_of_ne_zero fun zero => hostSome (BitVec.eq_of_toNat_eq zero)

theorem imphostlink_write (hostSome : host ≠ 0) (link : BitVec 8) :
    (imphostlink t host (link ||| 0o200)).map toSocket = .ok (
      if link &&& 0o177 = 0 then ((freeSocket t).map Fate.handed).getD .passed
      else (((t.wContab.find? fun conptr => conptr.cHostlink ≠ 0 ∧
        conptr.cHostlink = host.toNat * 256 + (128 + (link &&& 0o177).toNat)).map
          Conentry.cSiptr).map Fate.handed).getD .passed) := by
  have positive := toNat_pos hostSome
  rw [imphostlink, if_neg hostSome, write_link, incontab_write t _ _ (low_link link)]
  refine congrArg Except.ok ?_
  by_cases zero : link &&& 0o177 = 0
  · rw [if_pos zero, if_pos ((zero_link link).mpr zero)]
    exact toSocket_free t
  · rw [if_neg zero, if_neg (fun same => zero ((zero_link link).mp same)),
      find?_named _ (by omega)]
    exact toSocket_named _ (by omega)

theorem imphostlink_read (hostSome : host ≠ 0) (link : BitVec 8) :
    (imphostlink t host (link &&& 0o177)).map toSocket = .ok (
      (((t.rContab.find? fun conptr => conptr.cHostlink ≠ 0 ∧
        conptr.cHostlink = host.toNat * 256 + (link &&& 0o177).toNat).map
          Conentry.cSiptr).map Fate.handed).getD .passed) := by
  have positive := toNat_pos hostSome
  rw [imphostlink, if_neg hostSome, incontab_read t _ _ (low_link link), find?_named _ (by omega)]
  exact congrArg Except.ok (toSocket_named _ (by omega))

theorem fate_made (hostSome : host ≠ 0) :
    fate t host (command.headD 0) command = .ok (made t host command) := by
  unfold fate made ZeroLink wanted connection
  dsimp only
  have allIns : hhall ≠ hhins := by decide
  have insAll : hhins ≠ hhall := by decide
  have insInr : hhins ≠ hhinr := by decide
  have inrIns : hhinr ≠ hhins := by decide
  by_cases all : command.headD 0 = hhall
  · rw [if_pos all, imphostlink_write hostSome]
    simp only [all, true_or, true_and, if_true, allIns, if_false]
  · rw [if_neg all]
    by_cases ins : command.headD 0 = hhins
    · rw [if_pos ins, imphostlink_read hostSome]
      simp only [ins, true_or, or_true, if_true, insAll, insInr, or_self, false_and, if_false]
    · rw [if_neg ins]
      by_cases inr : command.headD 0 = hhinr
      · rw [if_pos inr, imphostlink_write hostSome]
        simp only [inr, inrIns, or_true, true_and, if_true, if_false]
      · rw [if_neg inr]
        simp only [all, ins, inr, or_self, false_and, if_false]
        split <;> rfl

theorem fate_cases (t : Contab) (host : BitVec 8) (command : List (BitVec 8)) :
    (host = 0 ∧ Asks command) ∧ fate t host (command.headD 0) command = .error .panic ∨
      (host = 0 → ¬ Asks command) ∧
        fate t host (command.headD 0) command = .ok (made t host command) := by
  by_cases hostSome : host = 0
  · subst hostSome
    unfold fate made ZeroLink wanted Asks
    dsimp only
    by_cases all : command.headD 0 = hhall
    · exact .inl ⟨⟨rfl, .inl all⟩, by rw [if_pos all]; rfl⟩
    · by_cases ins : command.headD 0 = hhins
      · exact .inl ⟨⟨rfl, .inr (.inl ins)⟩, by rw [if_neg all, if_pos ins]; rfl⟩
      · by_cases inr : command.headD 0 = hhinr
        · refine .inl ⟨⟨rfl, .inr (.inr inr)⟩, ?_⟩
          rw [if_neg all, if_neg ins, if_pos inr]
          rfl
        · right
          simp only [all, ins, inr, or_self, false_and, if_false]
          exact ⟨fun _ => not_false, by split <;> rfl⟩
  · exact .inr ⟨fun zero => absurd zero hostSome, fate_made hostSome⟩

theorem fate_append (t : Contab) (host : BitVec 8) (whole : Whole hostHost command)
    (stale : List (BitVec 8)) :
    fate t host (command.headD 0) (command ++ stale) =
      fate t host (command.headD 0) command := by
  obtain ⟨op, rest, rfl, isSize⟩ := whole
  cases rest with
  | cons link rest => rfl
  | nil =>
    have long : ∀ code : BitVec 8, hostHost.size code = some 1 →
        code ≠ hhall ∧ code ≠ hhins ∧ code ≠ hhinr := by decide
    obtain ⟨notAll, notIns, notInr⟩ := long op isSize
    show fate t host op _ = fate t host op _
    unfold fate
    simp only [if_neg notAll, if_neg notIns, if_neg notInr]

/-! ### What the code makes of a message -/

/-- What comes out of a message: the commands by what the code makes of them, and what is left as it
is, or filled up to the length of a command. -/
def Produced (t : Contab) (host : BitVec 8) (body passed : List (BitVec 8))
    (handed : List (Nat × List (BitVec 8))) : Prop :=
  ∃ commands rest tail, Split hostHost body commands rest ∧
    passed = (commands.filter fun command => made t host command = .passed).flatten ++ tail ∧
    handed = commands.filterMap (fun command => (made t host command).toHand command) ∧
    (¬ CutShort rest → tail = rest) ∧ (CutShort rest → rest.length < tail.length) ∧
    (host = 0 → ∀ command ∈ commands, ¬ Asks command)

theorem produced_nil (t : Contab) (host : BitVec 8) : Produced t host [] [] [] :=
  ⟨[], [], [], split_nil, rfl, rfl, fun _ => rfl, fun short => by
    obtain ⟨_, _, _, none, -⟩ := short
    exact absurd none (List.cons_ne_nil _ _).symm, fun _ _ inside => absurd inside List.not_mem_nil⟩

variable {body passed : List (BitVec 8)} {handed : List (Nat × List (BitVec 8))}

theorem produced_stuck {tail : List (BitVec 8)}
    (stuck : ∀ command, Whole hostHost command → ¬ command <+: body)
    (uncut : ¬ CutShort body → tail = body) (short : CutShort body → body.length < tail.length) :
    Produced t host body tail [] :=
  ⟨[], body, tail, split_stuck stuck, rfl, rfl, uncut, short,
    fun _ _ inside => absurd inside List.not_mem_nil⟩

theorem Produced.cons (whole : Whole hostHost command) (asks : host = 0 → ¬ Asks command)
    (produced : Produced t host body passed handed) :
    Produced t host (command ++ body)
      (if made t host command = .passed then command ++ passed else passed)
      (((made t host command).toHand command).toList ++ handed) := by
  obtain ⟨commands, rest, tail, split, rfl, rfl, uncut, short, hosted⟩ := produced
  refine ⟨command :: commands, rest, tail, split.cons whole, ?_, ?_, uncut, short,
    fun zero => List.forall_mem_cons.mpr ⟨asks zero, hosted zero⟩⟩
  · rw [List.filter_cons]
    by_cases passes : made t host command = .passed
    · rw [if_pos passes, if_pos (decide_eq_true passes), List.flatten_cons, List.append_assoc]
    · rw [if_neg passes, if_neg (by simpa using passes)]
  · rw [List.filterMap_cons]
    cases (made t host command).toHand command <;> rfl

section Constant

variable {α : Type} (zero : α → Prop) [DecidablePred zero] (f : α → Option (Nat × α))

theorem length_filterMap_none (b : Option Nat) (commands : List α) :
    (commands.filterMap fun c => if zero c then none else f c).length ≤
      (commands.filterMap fun c => if zero c then b.map (·, c) else f c).length := by
  induction commands with
  | nil => exact Nat.le_refl _
  | cons c rest inductionHypothesis =>
    rw [List.filterMap_cons, List.filterMap_cons]
    by_cases isZero : zero c
    · rw [if_pos isZero, if_pos isZero]
      cases b with
      | none => exact inductionHypothesis
      | some y => exact Nat.le_succ_of_le inductionHypothesis
    · rw [if_neg isZero, if_neg isZero]
      cases f c with
      | none => exact inductionHypothesis
      | some y => exact Nat.succ_le_succ inductionHypothesis

theorem filterMap_constant {a b : Option Nat} (apart : a ≠ b) (commands : List α)
    (same : (commands.filterMap fun c => if zero c then a.map (·, c) else f c) =
      commands.filterMap fun c => if zero c then b.map (·, c) else f c) :
    ∀ c ∈ commands, ¬ zero c := by
  induction commands with
  | nil => exact fun _ inside => absurd inside List.not_mem_nil
  | cons c rest inductionHypothesis =>
    rw [List.filterMap_cons, List.filterMap_cons] at same
    by_cases isZero : zero c
    · rw [if_pos isZero, if_pos isZero] at same
      exfalso
      cases a with
      | none =>
        cases b with
        | none => exact apart rfl
        | some y =>
          have size := length_filterMap_none zero f (some y) rest
          have sizes := congrArg List.length same
          simp only [Option.map_none, Option.map_some, List.length_cons] at sizes size
          omega
      | some x =>
        cases b with
        | none =>
          have size := length_filterMap_none zero f (some x) rest
          have sizes := congrArg List.length same
          simp only [Option.map_none, Option.map_some, List.length_cons] at sizes size
          omega
        | some y =>
          have heads := (List.cons.inj same).1
          exact apart (congrArg some (congrArg Prod.fst heads))
    · rw [if_neg isZero, if_neg isZero] at same
      intro other inside
      rcases List.mem_cons.mp inside with rfl | inside
      · exact isZero
      · refine inductionHypothesis ?_ other inside
        cases this : f c with
        | none =>
          rw [this] at same
          exact same
        | some y =>
          rw [this] at same
          exact (List.cons.inj same).2

end Constant

/-- The socket of the connection of link zero that is written. -/
def zeroConnection (t : Contab) (host : BitVec 8) : Option Nat :=
  (t.wContab.find? fun conptr => conptr.cHostlink ≠ 0 ∧
    conptr.cHostlink = host.toNat * 256 + (128 + 0)).map Conentry.cSiptr

theorem connection_zero (zero : ZeroLink command) :
    connection t host command = zeroConnection t host := by
  have notIns : ¬ command.headD 0 = hhins := fun ins => by
    have apart := zero.1
    rw [ins] at apart
    exact absurd apart (by decide)
  rw [connection, if_neg notIns, zero.2]
  rfl

theorem wanted_zero (zero : ZeroLink command) :
    wanted t host command = ((zeroConnection t host).map Fate.handed).getD .passed := by
  have tested : command.headD 0 = hhall ∨ command.headD 0 = hhins ∨ command.headD 0 = hhinr :=
    zero.1.imp_right .inr
  rw [wanted, if_pos tested, connection_zero zero]

theorem toHand_option (sktp : Option Nat) (command : List (BitVec 8)) :
    ((sktp.map Fate.handed).getD .passed).toHand command = sktp.map (·, command) := by
  cases sktp <;> rfl

theorem toHand_made (t : Contab) (host : BitVec 8) (command : List (BitVec 8)) :
    (made t host command).toHand command = if ZeroLink command then
      (freeSocket t).map (·, command) else (wanted t host command).toHand command := by
  rw [made]
  split
  · exact toHand_option _ _
  · rfl

theorem toHand_wanted (t : Contab) (host : BitVec 8) (command : List (BitVec 8)) :
    (wanted t host command).toHand command = if ZeroLink command then
      (zeroConnection t host).map (·, command) else (wanted t host command).toHand command := by
  by_cases zero : ZeroLink command
  · rw [if_pos zero, wanted_zero zero, toHand_option]
  · rw [if_neg zero]

theorem made_wanted (same : ZeroLink command → freeSocket t = connection t host command) :
    made t host command = wanted t host command := by
  rw [made]
  by_cases zero : ZeroLink command
  · rw [if_pos zero, same zero, connection_zero zero, wanted_zero zero]
  · rw [if_neg zero]

/-- The code does what it is for exactly when no command is cut short and none of link zero is taken
for one of another socket. -/
theorem Produced.filtered_iff (produced : Produced t host body passed handed) :
    Filtered t host body passed handed ↔ Plain t host body := by
  obtain ⟨commands, rest, tail, split, rfl, rfl, uncut, short, -⟩ := produced
  constructor
  · rintro ⟨others, left, end', splits, same, hands, ending⟩ these those splitThese
    obtain ⟨rfl, rfl⟩ := split.unique splitThese
    obtain ⟨rfl, rfl⟩ := split.unique splits
    have zeros : ∀ command ∈ commands, ZeroLink command →
        freeSocket t = connection t host command := by
      intro command inside zero
      rw [connection_zero zero]
      by_contra apart
      have both := (List.filterMap_congr fun c _ => toHand_made t host c).symm.trans
        (hands.trans (List.filterMap_congr fun c _ => toHand_wanted t host c))
      exact filterMap_constant ZeroLink _ apart commands both command inside zero
    refine ⟨fun isShort => ?_, zeros⟩
    have filters : (commands.filter fun command => made t host command = .passed) =
        commands.filter fun command => wanted t host command = .passed :=
      List.filter_congr fun command inside => by rw [made_wanted (zeros command inside)]
    rw [filters, List.append_cancel_left_eq] at same
    have longer := short isShort
    rw [same] at longer
    rcases ending with rfl | ⟨rfl, -⟩
    · exact absurd longer (Nat.lt_irrefl _)
    · exact absurd longer (Nat.not_lt_zero _)
  · intro sound
    obtain ⟨notShort, zeros⟩ := sound commands rest split
    refine ⟨commands, rest, rest, split, ?_, ?_, .inl rfl⟩
    · rw [uncut notShort]
      refine congrArg (fun kept => List.flatten kept ++ rest) ?_
      exact List.filter_congr fun command inside => by rw [made_wanted (zeros command inside)]
    · exact List.filterMap_congr fun command inside => by rw [made_wanted (zeros command inside)]

theorem Produced.hosted (produced : Produced t host body passed handed) :
    Hosted host body := by
  obtain ⟨commands, rest, tail, split, -, -, -, -, hosted⟩ := produced
  intro these those splitThese
  rw [← (split.unique splitThese).1]
  exact hosted

/-- The search of a connection for host zero panics. -/
def Panics (host : BitVec 8) (body : List (BitVec 8)) : Prop :=
  ∃ commands rest, Split hostHost body commands rest ∧ host = 0 ∧
    ∃ command ∈ commands, Asks command

theorem panics_cons (whole : Whole hostHost command)
    (panics : (host = 0 ∧ Asks command) ∨ Panics host body) : Panics host (command ++ body) := by
  rcases panics with ⟨zero, asks⟩ | ⟨commands, rest, split, zero, other, inside, asks⟩
  · obtain ⟨commands, rest, split⟩ := exists_split hostHost body
    exact ⟨_, rest, split.cons whole, zero, command, List.mem_cons_self, asks⟩
  · exact ⟨_, rest, split.cons whole, zero, other, List.mem_cons_of_mem _ inside, asks⟩

theorem Panics.not_hosted (panics : Panics host body) :
    ¬ Hosted host body := by
  obtain ⟨commands, rest, split, zero, command, inside, asks⟩ := panics
  exact fun hosted => hosted commands rest split zero command inside asks

/-! ### The loop -/

variable {netBSize : Nat} {ncp : Ncp} {free nodes queue : List Nat} {msgs : List Msg}
  {h : Option Nat} {k : Kernel}

/-- No buffer is empty. -/
def Solid (k : Kernel) (nodes : List Nat) : Prop := ∀ buf ∈ nodes, 0 < k.bLen buf

theorem Solid.head {first : Nat} {rest : List Nat} (solid : Solid k (first :: rest)) :
    ∃ more, content k (first :: rest) = k.bData first 0 :: more := by
  obtain ⟨n, length⟩ := Nat.exists_eq_add_one_of_ne_zero (solid first List.mem_cons_self).ne'
  refine ⟨((List.range n).map Nat.succ).map (k.bData first) ++ content k rest, ?_⟩
  rw [content, List.flatMap_cons, bytes, length, List.range_succ_eq_map]
  rfl

theorem Solid.nil (solid : Solid k nodes) (none : content k nodes = []) : nodes = [] := by
  cases nodes with
  | nil => rfl
  | cons first rest =>
    obtain ⟨more, whole⟩ := solid.head
    exact absurd (whole.symm.trans none) (List.cons_ne_nil _ _)

theorem Solid.kept {keep : List Nat} {next : Kernel} (solid : Solid k nodes)
    (kept : Kept k next keep) (within : ∀ buf ∈ nodes, buf ∈ keep) : Solid next nodes :=
  fun buf inside => by
    rw [kept.bLen buf (within buf inside)]
    exact solid buf inside

/-- The queue of the daemon is longer by a vector and a message. -/
def Delivered (vec : List (BitVec 8)) (ncp : Ncp) (nodes queue : List Nat) (next : Ncp)
    (later : List Nat) : Prop :=
  0 < ncp.ncpopnstate →
    ∃ news, later = queue ++ news ∧ content next.pool news = vec ++ content ncp.pool nodes

theorem toNcp_spec (size : 0 < netBSize) (bHyster : Nat) (getblk : Getblk) (vec : List (BitVec 8))
    (ok : Ok ncp.pool free ((h, nodes) :: (ncp.ncpirq, queue) :: msgs))
    (fits : Fits netBSize ncp.pool nodes) (given : vec ≠ [] ∨ nodes ≠ []) :
    toNcp netBSize bHyster getblk true vec h ncp = .error .asleep ∨
      ∃ next result left later,
        toNcp netBSize bHyster getblk true vec h ncp = .ok (next, result) ∧
        Ok next.pool left ((next.ncpirq, later) :: msgs) ∧
        Kept ncp.pool next.pool (held msgs) ∧ Delivered vec ncp nodes queue next later := by
  unfold toNcp
  by_cases closed : ncp.ncpopnstate ≤ 0
  · rw [if_pos closed]
    obtain ⟨next, left, freed, okNext, kept⟩ := ok.freemsg bHyster
    rw [held_cons] at kept
    rw [freed]
    exact .inr ⟨_, _, left, queue, rfl, okNext,
      kept.mono fun buf inside => List.mem_append_right _ inside,
      fun isOpen => absurd closed (Int.not_le.mpr isOpen)⟩
  · rw [if_neg closed]
    have isQueue : ncp.qptr true = ncp.ncpirq := rfl
    rw [isQueue]
    rcases ok.msgQ size bHyster getblk vec fits given with ⟨asleep, -⟩ |
      ⟨next, left, last, later, queued, okNext, whole, -, kept, -⟩
    · rw [asleep]
      exact .inl rfl
    · rw [queued]
      exact .inr ⟨_, _, left, queue ++ later, rfl, okNext,
        kept.mono fun buf inside => List.mem_append_right _ inside, fun _ => ⟨later, rfl, whole⟩⟩

theorem allocate_spec (size : 0 < netBSize) (bHyster : Nat) (getblk : Getblk)
    (nrcv : List (BitVec 8)) (toncp : Nat → Bool) (sktp : Nat) {allocp : List (BitVec 8)}
    (some : allocp ≠ []) (ok : Ok ncp.pool free ((ncp.ncpirq, queue) :: msgs)) :
    allocate netBSize bHyster getblk nrcv toncp sktp allocp ncp = .error .asleep ∨
      ∃ next left later,
        allocate netBSize bHyster getblk nrcv toncp sktp allocp ncp = .ok next ∧
        Ok next.pool left ((next.ncpirq, later) :: msgs) ∧
        Kept ncp.pool next.pool (held msgs) := by
  unfold allocate
  split
  · have bytesSome : allocp.take 8 ≠ [] := fun none =>
      some ((List.take_eq_nil_iff.mp none).resolve_left (by decide))
    rcases ok.cons_nil.vectomsg size getblk (allocp.take 8)
        (fun _ inside => absurd inside List.not_mem_nil) with ⟨asleep, -⟩ |
      ⟨mid, between, msgp, front, run, okMid, -, fitsMid, -, keptMid, filled, -⟩
    · rw [asleep]
      exact .inl rfl
    · rw [run]
      dsimp only
      have okNcp : Ok ({ ncp with pool := mid } : Ncp).pool between ((msgp, front) ::
          (({ ncp with pool := mid } : Ncp).ncpirq, queue) :: msgs) := okMid
      rw [held_cons] at keptMid
      rcases toNcp_spec size bHyster getblk nrcv okNcp fitsMid (.inr (filled bytesSome)) with
        asleep | ⟨next, result, left, later, put, okNext, kept, -⟩
      · rw [asleep]
        exact .inl rfl
      · rw [put]
        exact .inr ⟨next, left, later, rfl, okNext,
          (keptMid.mono fun buf inside => List.mem_append_right _ inside).trans kept⟩
  · exact .inr ⟨ncp, free, queue, rfl, ok, Kept.refl _ _⟩

/-- What the loop is to leave of a message: the pool as it should be, the message for the daemon
longer by what was passed, and the commands that sockets were handed. -/
def Decodes (netBSize : Nat) (t : Contab) (host : BitVec 8) (msgs : List Msg)
    (ahead body : List (BitVec 8)) (handed : List (Nat × List (BitVec 8)))
    (result : Except Halt Decoded) : Prop :=
  result = .error (.stopped .asleep) ∨ Panics host body ∧ result = .error .panic ∨
    ∃ decoded left later queue passed more, result = .ok decoded ∧
      Ok decoded.ncp.pool left ((decoded.daemsg, later) :: (decoded.ncp.ncpirq, queue) :: msgs) ∧
      Fits netBSize decoded.ncp.pool later ∧
      content decoded.ncp.pool later = ahead ++ passed ∧ decoded.handed = handed ++ more ∧
      Produced t host body passed more

theorem Decodes.cons {ahead : List (BitVec 8)} {result : Except Halt Decoded}
    (whole : Whole hostHost command)
    (asks : host = 0 → ¬ Asks command) (decodes : Decodes netBSize t host msgs
      (ahead ++ if made t host command = .passed then command else []) body
      (handed ++ ((made t host command).toHand command).toList) result) :
    Decodes netBSize t host msgs ahead (command ++ body) handed result := by
  rcases decodes with asleep | ⟨panics, panic⟩ |
    ⟨decoded, left, later, queue, passed, more, ends, ok, fits, whole', hands, produced⟩
  · exact .inl asleep
  · exact .inr (.inl ⟨panics_cons whole (.inr panics), panic⟩)
  · refine .inr (.inr ⟨decoded, left, later, queue, _, _, ends, ok, fits, ?_, ?_,
      produced.cons whole asks⟩)
    · rw [whole', List.append_assoc]
      split
      · rfl
      · rfl
    · rw [hands, List.append_assoc]

theorem third_first (first second third : Msg) (msgs : List Msg) :
    (third :: first :: second :: msgs).Perm (first :: second :: third :: msgs) :=
  (@List.perm_middle Msg third [first, second] msgs).symm

section Loop

variable (size : 0 < netBSize) (bHyster : Nat) (getblk : Getblk) (t : Contab) (host : BitVec 8)
  (nrcv : List (BitVec 8)) (toncp : Nat → Bool)

theorem hh1From_none (trips : Nat) (daemsg : Option Nat) (hhproto : List (BitVec 8))
    (handed : List (Nat × List (BitVec 8))) (ncp : Ncp) :
    hh1From netBSize bHyster getblk t host nrcv toncp trips none daemsg hhproto handed ncp =
      .ok ⟨ncp, daemsg, handed⟩ := by
  cases trips <;> rfl

/-- That a number of trips is enough for a message whose buffers all have bytes. -/
def Loops (netBSize bHyster : Nat) (getblk : Getblk) (t : Contab) (host : BitVec 8)
    (nrcv : List (BitVec 8)) (toncp : Nat → Bool) (msgs : List Msg) (trips : Nat) : Prop :=
  ∀ {ncp : Ncp} {free body ahead queue : List Nat} {impiMsg daemsg : Option Nat}
    {hhproto : List (BitVec 8)} {handed : List (Nat × List (BitVec 8))}, hhproto.length = 15 →
    Ok ncp.pool free ((impiMsg, body) :: (daemsg, ahead) :: (ncp.ncpirq, queue) :: msgs) →
    Fits netBSize ncp.pool body → Fits netBSize ncp.pool ahead → Solid ncp.pool body →
    (content ncp.pool body).length < trips →
    Decodes netBSize t host msgs (content ncp.pool ahead) (content ncp.pool body) handed
      (hh1From netBSize bHyster getblk t host nrcv toncp trips impiMsg daemsg hhproto handed ncp)

variable {ahead body : List Nat} {daemsg : Option Nat} {impiMsg : Nat}
  {hhproto : List (BitVec 8)} {handed : List (Nat × List (BitVec 8))}

theorem decodes_illegal (trips : Nat) {hhcom : BitVec 8}
    (ok : Ok ncp.pool free
      ((some impiMsg, body) :: (daemsg, ahead) :: (ncp.ncpirq, queue) :: msgs))
    (fits : Fits netBSize ncp.pool body) (fits' : Fits netBSize ncp.pool ahead)
    (leads : ncp.pool.bData (ncp.pool.bQlink impiMsg) 0 = hhcom)
    (illegal : hhcom.toNat > numhhops)
    (whole : (∃ after, content ncp.pool body = hhcom :: after) ∨ content ncp.pool body = []) :
    Decodes netBSize t host msgs (content ncp.pool ahead) (content ncp.pool body) handed
      (hh1From netBSize bHyster getblk t host nrcv toncp (trips + 1) (some impiMsg) daemsg hhproto
        handed ncp) := by
  have noSize : hostHost.size hhcom = none := if_pos illegal
  obtain ⟨next, left, last, later, joined, okNext, both, fitsNext, -, -, -⟩ :=
    (ok.perm (List.Perm.swap _ _ _)).catmsg bHyster fits' fits
  rw [hh1From, leads]
  dsimp only
  rw [if_pos illegal, joined]
  refine .inr (.inr ⟨_, left, later, queue, _, [], rfl, okNext, fitsNext, both,
    (List.append_nil _).symm, ?_⟩)
  rcases whole with ⟨after, whole⟩ | none
  · rw [whole]
    refine produced_stuck (stuck_of_size fun n some => ?_) (fun _ => rfl) fun short => ?_
    · exact absurd (noSize.symm.trans some).symm (Option.some_ne_none n)
    · obtain ⟨op, more, n, isBody, some, -⟩ := short
      rw [← (List.cons.inj isBody).1, noSize] at some
      exact absurd some.symm (Option.some_ne_none n)
  · rw [none]
    exact produced_nil t host

section Legal

variable {hhcom : BitVec 8} {after : List (BitVec 8)} {cnt : Nat} {next : Kernel}
  {left later : List Nat} (handed)

include size

theorem decodes_short (trips : Nat) (proto : hhproto.length = 15) (most : cnt ≤ 12)
    (isSize : hostHost.size hhcom = some cnt)
    (okNext : Ok next left ((daemsg, ahead) :: (ncp.ncpirq, queue) :: msgs))
    (fitsAhead : Fits netBSize next ahead) (short : (hhcom :: after).length < cnt) :
    Decodes netBSize t host msgs (content next ahead) (hhcom :: after) handed
      (match vectomsg netBSize getblk (((hhcom :: after) ++
          hhproto.drop (hhcom :: after).length).take cnt) daemsg next with
      | .error stop => .error (.stopped stop)
      | .ok (k, daemsg) =>
        hh1From netBSize bHyster getblk t host nrcv toncp trips none daemsg
          ((hhcom :: after) ++ hhproto.drop (hhcom :: after).length) handed
          { ncp with pool := k }) := by
  let filled := ((hhcom :: after) ++ hhproto.drop (hhcom :: after).length).take cnt
  have isLong : filled.length = cnt := by
    rw [List.length_take, List.length_append, List.length_drop]
    omega
  rcases okNext.vectomsg size getblk filled fitsAhead with ⟨asleep, -⟩ |
    ⟨last, between, daemsg, longer, put, okLast, both, fitsLast, -, -, -⟩
  · rw [asleep]
    exact .inl rfl
  · rw [put]
    dsimp only
    rw [hh1From_none]
    refine .inr (.inr ⟨_, between, longer, queue, filled, [], rfl, okLast, fitsLast, both,
      (List.append_nil _).symm, ?_⟩)
    have isShort : CutShort (hhcom :: after) := ⟨hhcom, after, cnt, rfl, isSize, short⟩
    refine produced_stuck (stuck_of_size fun n some => ?_)
      (fun uncut => absurd isShort uncut) fun _ => by rwa [isLong]
    rw [← Option.some_inj.mp (isSize.symm.trans some)]
    exact short

/-- A command is dropped, handed to a socket or put in the message for the daemon, and the loop goes
on with what is behind it. -/
theorem decodes_whole {trips : Nat}
    (loops : Loops netBSize bHyster getblk t host nrcv toncp msgs trips)
    (wholeCommand : Whole hostHost command) (isHead : command.headD 0 = hhcom)
    (isLong : command.length = cnt) (proto : hhproto.length = 15) (most : cnt ≤ 12)
    (okNext : Ok next left
      ((later.getLast?, later) :: (daemsg, ahead) :: (ncp.ncpirq, queue) :: msgs))
    (fitsNext : Fits netBSize next later) (fitsAhead : Fits netBSize next ahead)
    (solidLater : Solid next later) (fewer : (content next later).length < trips) :
    Decodes netBSize t host msgs (content next ahead) (command ++ content next later) handed
      (match fate t host hhcom (command ++ hhproto.drop command.length) with
      | .error halt => .error halt
      | .ok .dropped =>
        hh1From netBSize bHyster getblk t host nrcv toncp trips later.getLast? daemsg
          (command ++ hhproto.drop command.length) handed { ncp with pool := next }
      | .ok (.handed sktp) =>
        let command' := (command ++ hhproto.drop command.length).take cnt
        if hhcom = hhall then
          match allocate netBSize bHyster getblk nrcv toncp sktp command'
            { ncp with pool := next } with
          | .error stop => .error (.stopped stop)
          | .ok ncp =>
            hh1From netBSize bHyster getblk t host nrcv toncp trips later.getLast? daemsg
              (command ++ hhproto.drop command.length) (handed ++ [(sktp, command')]) ncp
        else
          hh1From netBSize bHyster getblk t host nrcv toncp trips later.getLast? daemsg
            (command ++ hhproto.drop command.length) (handed ++ [(sktp, command')])
            { ncp with pool := next }
      | .ok .passed =>
        match vectomsg netBSize getblk ((command ++ hhproto.drop command.length).take cnt) daemsg
          next with
        | .error stop => .error (.stopped stop)
        | .ok (k, daemsg) =>
          hh1From netBSize bHyster getblk t host nrcv toncp trips later.getLast? daemsg
            (command ++ hhproto.drop command.length) handed { ncp with pool := k }) := by
  have fates := fate_append t host wholeCommand (hhproto.drop command.length)
  have cases := fate_cases t host command
  have exact' : (command ++ hhproto.drop command.length).take cnt = command := by
    rw [← isLong, List.take_left]
  have proto' : (command ++ hhproto.drop command.length).length = 15 := by
    rw [List.length_append, List.length_drop]
    omega
  rw [isHead] at fates cases
  rw [fates, exact']
  have okNcp : Ok ({ ncp with pool := next } : Ncp).pool left
      ((later.getLast?, later) :: (daemsg, ahead) ::
        (({ ncp with pool := next } : Ncp).ncpirq, queue) :: msgs) := okNext
  rcases cases with ⟨zeroHost, panics⟩ | ⟨asks, decided⟩
  · rw [panics]
    exact .inr (.inl ⟨panics_cons wholeCommand (.inl zeroHost), rfl⟩)
  · rw [decided]
    refine Decodes.cons wholeCommand asks ?_
    cases made t host command with
    | dropped =>
      dsimp only [Fate.toHand]
      rw [if_neg Fate.noConfusion, List.append_nil, Option.toList_none, List.append_nil]
      exact loops proto' okNcp fitsNext fitsAhead solidLater fewer
    | handed sktp =>
      dsimp only [Fate.toHand]
      rw [if_neg Fate.noConfusion, List.append_nil, Option.toList_some]
      by_cases isAll : hhcom = hhall
      · rw [if_pos isAll]
        rcases allocate_spec size bHyster getblk nrcv toncp sktp wholeCommand.ne_nil
          (okNcp.perm (third_first _ _ _ msgs)) with
          asleep | ⟨last, between, grown, allocated, okLast, keptLast⟩
        · rw [asleep]
          exact .inl rfl
        · rw [allocated]
          dsimp only
          rw [held_cons, held_cons] at keptLast
          have inLater (buf : Nat) (inside : buf ∈ later) :
              buf ∈ later ++ (ahead ++ held msgs) := List.mem_append_left _ inside
          have inAhead (buf : Nat) (inside : buf ∈ ahead) :
              buf ∈ later ++ (ahead ++ held msgs) :=
            List.mem_append_right _ (List.mem_append_left _ inside)
          rw [← keptLast.content inLater, ← keptLast.content inAhead]
          refine loops proto' (okLast.perm (third_first _ _ _ msgs).symm)
            (keptLast.fits inLater fitsNext) (keptLast.fits inAhead fitsAhead)
            (solidLater.kept keptLast inLater) ?_
          rwa [keptLast.content inLater]
      · rw [if_neg isAll]
        exact loops proto' okNcp fitsNext fitsAhead solidLater fewer
    | passed =>
      dsimp only [Fate.toHand]
      rw [if_pos rfl, Option.toList_none, List.append_nil]
      rcases (okNext.perm (List.Perm.swap _ _ _)).vectomsg size getblk command fitsAhead with
        ⟨asleep, -⟩ | ⟨last, between, daemsg, longer, put, okLast, both, fitsLast, -, keptLast, -⟩
      · rw [asleep]
        exact .inl rfl
      · rw [put]
        dsimp only
        rw [held_cons] at keptLast
        have inLater (buf : Nat) (inside : buf ∈ later) :
            buf ∈ later ++ held ((ncp.ncpirq, queue) :: msgs) :=
          List.mem_append_left _ inside
        have okLast' : Ok ({ ncp with pool := last } : Ncp).pool between
            ((later.getLast?, later) :: (daemsg, longer) ::
              (({ ncp with pool := last } : Ncp).ncpirq, queue) :: msgs) :=
          okLast.perm (List.Perm.swap _ _ _)
        rw [← both, ← keptLast.content inLater]
        refine loops proto' okLast' (keptLast.fits inLater fitsNext) fitsLast
          (solidLater.kept keptLast inLater) ?_
        rwa [keptLast.content inLater]

end Legal

include size in
theorem loops_of_trips (trips : Nat) :
    Loops netBSize bHyster getblk t host nrcv toncp msgs trips := by
  induction trips with
  | zero => exact fun _ _ _ _ _ enough => absurd enough (Nat.not_lt_zero _)
  | succ trips inductionHypothesis =>
    intro ncp free body ahead queue impiMsg daemsg hhproto handed proto ok fits fits' solid enough
    cases impiMsg with
    | none =>
      obtain rfl := (ok.msgRing _ List.mem_cons_self).empty
      rw [hh1From_none]
      exact .inr (.inr ⟨_, free, ahead, queue, [], [], rfl, ok.tail_nil, fits',
        (List.append_nil _).symm, (List.append_nil _).symm, produced_nil t host⟩)
    | some impiMsg =>
      obtain ⟨rest, isFirst⟩ := (ok.msgRing _ List.mem_cons_self).first
      generalize leads : ncp.pool.bQlink impiMsg = first at isFirst
      subst isFirst
      obtain ⟨after, whole⟩ := solid.head
      by_cases illegal : (ncp.pool.bData first 0).toNat > numhhops
      · exact decodes_illegal bHyster getblk t host nrcv toncp trips ok fits fits' (by rw [leads])
          illegal (.inl ⟨after, whole⟩)
      · rw [hh1From, leads]
        generalize ncp.pool.bData first 0 = hhcom at whole illegal
        have isSize : hostHost.size hhcom = some (hhsize.getD hhcom.toNat 0) := if_neg illegal
        have positive := hhsize_pos _ (Nat.le_of_not_lt illegal)
        have most := hhsize_le hhcom.toNat
        dsimp only
        generalize hhsize.getD hhcom.toNat 0 = cnt at isSize positive most
        obtain ⟨next, left, later, taken, okNext, behind, fitsNext, -, kept, solidNext⟩ :=
          ok.bytesout bHyster cnt fits
        rw [held_cons] at kept
        have within (buf : Nat) (inside : buf ∈ ahead) :
            buf ∈ ahead ++ held ((ncp.ncpirq, queue) :: msgs) := List.mem_append_left _ inside
        have fitsAhead := kept.fits within fits'
        have solidLater : Solid next later := solidNext solid
        rw [if_neg illegal, taken]
        dsimp only
        rw [whole] at enough behind ⊢
        rw [← kept.content within]
        by_cases short : (hhcom :: after).length < cnt
        · obtain rfl : later = [] :=
            solidLater.nil (behind.trans (List.drop_eq_nil_of_le (Nat.le_of_lt short)))
          rw [if_pos (Nat.sub_ne_zero_of_lt short), List.take_of_length_le (Nat.le_of_lt short)]
          exact decodes_short size bHyster getblk t host nrcv toncp handed trips proto most isSize
            okNext.tail_nil fitsAhead short
        · have long : cnt ≤ (hhcom :: after).length := Nat.le_of_not_lt short
          have isHead : ((hhcom :: after).take cnt).headD 0 = hhcom := by
            obtain ⟨m, rfl⟩ := Nat.exists_eq_add_of_lt positive
            rw [Nat.zero_add]
            rfl
          rw [if_neg (by omega)]
          have fewer : (content next later).length < trips := by
            rw [behind, List.length_drop]
            omega
          have goes := decodes_whole size bHyster getblk t host nrcv toncp handed
            inductionHypothesis (whole_take isSize long) isHead (List.length_take_of_le long) proto
            most okNext fitsNext fitsAhead solidLater fewer
          rw [behind, List.take_append_drop] at goes
          exact goes

/-! ### Messages -/

include size in
theorem hh1_of_ok {impiMsg : Option Nat} {hhproto : Vector (BitVec 8) 15} {decoded : Decoded}
    {left later : List Nat}
    (loop : hh1From netBSize bHyster getblk t host nrcv toncp (mostBufs * netBSize + 1) impiMsg none
      hhproto.toList [] ncp = .ok decoded)
    (ok : Ok decoded.ncp.pool left
      ((decoded.daemsg, later) :: (decoded.ncp.ncpirq, queue) :: msgs))
    (fits : Fits netBSize decoded.ncp.pool later) :
    hh1 netBSize bHyster getblk t host nrcv toncp impiMsg hhproto ncp =
        .error (.stopped .asleep) ∨
      buffers decoded.ncp.pool decoded.daemsg = later ∧ ∃ last,
        hh1 netBSize bHyster getblk t host nrcv toncp impiMsg hhproto ncp = .ok (decoded, last) ∧
        (decoded.daemsg ≠ none → 0 < decoded.ncp.ncpopnstate →
          ∃ news, buffers last.pool last.ncpirq =
              buffers decoded.ncp.pool decoded.ncp.ncpirq ++ news ∧
            content last.pool news = nrcv ++ content decoded.ncp.pool later) := by
  unfold hh1
  rw [loop]
  dsimp only
  cases some : decoded.daemsg with
  | none => exact .inr ⟨some ▸ ok.buffers, _, rfl, fun none => absurd rfl none⟩
  | some daemsg =>
    have given : later ≠ [] := fun none => by
      have held := (ok.msgRing _ List.mem_cons_self).held
      rw [some, none] at held
      exact absurd held (Option.some_ne_none _)
    dsimp only
    rw [← some]
    rcases toNcp_spec size bHyster getblk nrcv ok fits (.inr given) with asleep |
      ⟨next, result, left, grown, put, okNext, -, delivered⟩
    · rw [asleep]
      exact .inl rfl
    · rw [put]
      refine .inr ⟨ok.buffers, next, rfl, fun _ isOpen => ?_⟩
      obtain ⟨news, isGrown, whole⟩ := delivered isOpen
      have isQueue := (ok.perm (List.Perm.swap _ _ _)).buffers
      exact ⟨news, by rw [okNext.buffers, isGrown, isQueue], whole⟩

include size in
theorem filters_of_decodes {body : List (BitVec 8)} {impiMsg : Option Nat}
    {hhproto : Vector (BitVec 8) 15} (decodes : Decodes netBSize t host msgs [] body []
      (hh1From netBSize bHyster getblk t host nrcv toncp (mostBufs * netBSize + 1) impiMsg none
        hhproto.toList [] ncp)) :
    hh1 netBSize bHyster getblk t host nrcv toncp impiMsg hhproto ncp =
        .error (.stopped .asleep) ∨
      (Filters t host nrcv body (hh1 netBSize bHyster getblk t host nrcv toncp impiMsg hhproto ncp)
        ↔ Plain t host body ∧ Hosted host body) := by
  rcases decodes with asleep | ⟨panics, panic⟩ |
    ⟨decoded, left, later, queue, passed, more, ends, ok, fits, whole, hands, produced⟩
  · left
    rw [hh1, asleep]
  · right
    rw [hh1, panic]
    refine iff_of_false ?_ fun sound => panics.not_hosted sound.2
    rintro ⟨_, _, noResult, -⟩
    cases noResult
  · refine (hh1_of_ok size bHyster getblk t host nrcv toncp ends ok fits).imp_right ?_
    rintro ⟨isLater, last, goes, delivered⟩
    rw [List.nil_append] at whole hands
    rw [goes]
    constructor
    · rintro ⟨decoded', last', same, filtered, -⟩
      obtain ⟨rfl, rfl⟩ := Prod.mk.inj (Except.ok.inj same)
      rw [Decoded.passed, isLater, whole, hands] at filtered
      exact ⟨produced.filtered_iff.mp filtered, produced.hosted⟩
    · rintro ⟨plain, -⟩
      refine ⟨decoded, last, rfl, ?_, by rwa [Decoded.passed, isLater]⟩
      rw [Decoded.passed, isLater, whole, hands]
      exact produced.filtered_iff.mpr plain

theorem filtered_nil {passed : List (BitVec 8)} {handed : List (Nat × List (BitVec 8))}
    (filtered : Filtered t host [] passed handed) : passed = [] := by
  obtain ⟨commands, rest, tail, split, rfl, -, ending⟩ := filtered
  obtain ⟨rfl, rfl⟩ := split.unique split_nil
  exact ending.elim id And.left

include size in
/-- For a message without bytes whose first buffer begins with a legal code, bytes are passed that
were never received. -/
theorem hollow_not_filtered {impiMsg only : Nat} (hhproto : Vector (BitVec 8) 15)
    (ok : Ok ncp.pool free ((some impiMsg, [only]) :: (ncp.ncpirq, queue) :: msgs))
    (hollow : ncp.pool.bLen only = 0) (legal : ¬ (ncp.pool.bData only 0).toNat > numhhops) :
    hh1 netBSize bHyster getblk t host nrcv toncp (some impiMsg) hhproto ncp =
        .error (.stopped .asleep) ∨
      ¬ Filters t host nrcv []
        (hh1 netBSize bHyster getblk t host nrcv toncp (some impiMsg) hhproto ncp) := by
  have ring := ok.msgRing _ List.mem_cons_self
  obtain ⟨rest, isFirst⟩ := ring.first
  have leads := (List.cons.inj isFirst).1
  obtain ⟨next, left, freed, okNext, kept, -⟩ := ok.freebuf bHyster
  have taken (cnt : Nat) (positive : 0 < cnt) :
      bytesout bHyster (some impiMsg) cnt ncp.pool = .ok (next, none, [], cnt) := by
    obtain ⟨m, rfl⟩ := Nat.exists_eq_add_one_of_ne_zero positive.ne'
    rw [bytesout, bytesoutFrom, ← leads]
    dsimp only
    rw [hollow, Nat.min_zero, if_neg (Nat.lt_irrefl 0), freed]
    rfl
  have positive := hhsize_pos _ (Nat.le_of_not_lt legal)
  have most := hhsize_le (ncp.pool.bData only 0).toNat
  have loop : hh1From netBSize bHyster getblk t host nrcv toncp (mostBufs * netBSize + 1)
      (some impiMsg) none hhproto.toList [] ncp =
        match vectomsg netBSize getblk
          (hhproto.toList.take (hhsize.getD (ncp.pool.bData only 0).toNat 0)) none next with
        | .error stop => .error (.stopped stop)
        | .ok (k, daemsg) => .ok ⟨{ ncp with pool := k }, daemsg, []⟩ := by
    rw [hh1From, ← leads]
    dsimp only
    rw [if_neg legal, taken _ positive]
    dsimp only
    rw [if_pos positive.ne']
    simp only [hh1From_none]
    rfl
  rcases okNext.tail_nil.cons_nil.vectomsg size getblk
      (hhproto.toList.take (hhsize.getD (ncp.pool.bData only 0).toNat 0))
      (fun _ inside => absurd inside List.not_mem_nil) with ⟨asleep, -⟩ |
    ⟨last, between, daemsg, longer, put, okLast, whole, fits, -, -, -⟩
  · left
    rw [hh1, loop, asleep]
  · rw [put] at loop
    dsimp only at loop
    have okNcp : Ok ({ ncp with pool := last } : Ncp).pool between ((daemsg, longer) ::
        (({ ncp with pool := last } : Ncp).ncpirq, queue) :: msgs) := okLast
    refine (hh1_of_ok size bHyster getblk t host nrcv toncp loop okNcp fits).imp_right ?_
    rintro ⟨isLater, final, goes, -⟩ ⟨decoded, last', same, filtered, -⟩
    obtain ⟨rfl, rfl⟩ := Prod.mk.inj (Except.ok.inj (goes.symm.trans same))
    have none := filtered_nil t host filtered
    rw [Decoded.passed, isLater] at none
    have sizes := congrArg List.length (whole.symm.trans none)
    rw [content, List.flatMap_nil, List.nil_append, List.length_take, Vector.length_toList,
      List.length_nil] at sizes
    omega

theorem length_content_le (fits : Fits netBSize k nodes) :
    (content k nodes).length ≤ nodes.length * netBSize := by
  rw [content, List.length_flatMap]
  refine Nat.le_trans (List.sum_le_card_nsmul _ netBSize fun length inside => ?_) ?_
  · obtain ⟨buf, member, rfl⟩ := List.mem_map.mp inside
    rw [length_bytes]
    exact fits buf member
  · rw [List.length_map]
    exact Nat.le_refl _

/-- For every message, in whatever buffers it came, the decoding does what it is for exactly when
the message is sound. -/
theorem commands_filtered (size : 0 < netBSize) (bHyster : Nat) (getblk : Getblk) (t : Contab)
    (host : BitVec 8) (nrcv : List (BitVec 8)) (toncp : Nat → Bool)
    (hhproto : Vector (BitVec 8) 15) {ncp : Ncp} {free body queue : List Nat} {msgs : List Msg}
    {impiMsg : Nat}
    (ok : Ok ncp.pool free ((some impiMsg, body) :: (ncp.ncpirq, queue) :: msgs))
    (fits : Fits netBSize ncp.pool body)
    (received : Solid ncp.pool body ∨ ∃ only, body = [only] ∧ ncp.pool.bLen only = 0) :
    hh1 netBSize bHyster getblk t host nrcv toncp (some impiMsg) hhproto ncp =
        .error (.stopped .asleep) ∨
      (Filters t host nrcv (content ncp.pool body)
          (hh1 netBSize bHyster getblk t host nrcv toncp (some impiMsg) hhproto ncp) ↔
        Sound t host (ncp.pool.bData (ncp.pool.bQlink impiMsg) 0) (content ncp.pool body)) := by
  have okAll := ok.cons_nil.perm (List.Perm.swap _ _ _)
  have fitsNil : Fits netBSize ncp.pool [] := fun _ inside => absurd inside List.not_mem_nil
  have enough : (content ncp.pool body).length < mostBufs * netBSize + 1 := by
    refine Nat.lt_succ_of_le (Nat.le_trans (length_content_le fits) ?_)
    exact Nat.mul_le_mul_right _ ok.length_msg
  rcases received with solid | ⟨only, rfl, hollow⟩
  · have some : content ncp.pool body ≠ [] := fun none => by
      have ring := ok.msgRing _ List.mem_cons_self
      obtain rfl : body = [] := solid.nil none
      exact absurd ring.last_mem List.not_mem_nil
    refine (filters_of_decodes size bHyster getblk t host nrcv toncp (loops_of_trips size bHyster
      getblk t host nrcv toncp _ hhproto.length_toList okAll fits fitsNil solid
        enough)).imp_right ?_
    exact fun filters => filters.trans
      ⟨fun sound => ⟨fun none => absurd none some, sound⟩, And.right⟩
  · have noBytes : content ncp.pool [only] = [] := by
      rw [content, List.flatMap_singleton, bytes_empty hollow]
    have leads : ncp.pool.bQlink impiMsg = only := by
      obtain ⟨rest, isFirst⟩ := (ok.msgRing _ List.mem_cons_self).first
      exact (List.cons.inj isFirst).1.symm
    rw [noBytes, leads]
    by_cases illegal : (ncp.pool.bData only 0).toNat > numhhops
    · have decodes : Decodes netBSize t host msgs (content ncp.pool []) (content ncp.pool [only]) []
          (hh1From netBSize bHyster getblk t host nrcv toncp (mostBufs * netBSize + 1)
            (some impiMsg) none hhproto.toList [] ncp) :=
        decodes_illegal bHyster getblk t host nrcv toncp _ okAll fits fitsNil (by rw [leads])
          illegal (.inr noBytes)
      rw [noBytes] at decodes
      refine (filters_of_decodes size bHyster getblk t host nrcv toncp decodes).imp_right ?_
      exact fun filters => filters.trans ⟨fun sound => ⟨fun _ => illegal, sound⟩, And.right⟩
    · refine (hollow_not_filtered size bHyster getblk t host nrcv toncp hhproto ok hollow
        illegal).imp_right fun wrong => iff_of_false wrong fun sound => ?_
      exact illegal (sound.1 rfl)

end Loop

/-- The bytes 7, 9 and 0 in a message, with one connection of host 5 on link 9 that is written. -/
def interrupted : Ncp where
  pool := { pair with bData := fun buf i => if buf = 0 then [7, 9, 0].getD i 0 else 0 }
  handles := []
  ncpirq := some 1
  ncprq := none
  ncptimo := false
  ncpopnstate := 1

def nine : Contab where
  rContab := []
  wContab := [⟨5 * 256 + (128 + 9), 3, fun _ => Nat.succ_ne_zero 2⟩]

/-- An interrupt by the receiver goes to the socket of its connection, and a command that does
nothing to nobody. -/
theorem commands_filtered_interrupted :
    Filters nine 5 [1, 2, 3, 4, 5] [7, 9, 0]
      (hh1 60 3 Getblk.above nine 5 [1, 2, 3, 4, 5] (fun _ => false) (some 0)
        (Vector.replicate 15 99) interrupted) := by
  have ok := pair_ok.fields pair.bLen pair.bEom interrupted.pool.bData fun _ _ => rfl
  have filters := commands_filtered (show 0 < 60 by decide) 3 Getblk.above nine 5 [1, 2, 3, 4, 5]
    (fun _ => false) (Vector.replicate 15 99) (show Ok interrupted.pool _ _ from ok)
    (fun buf inside => by
      rw [List.mem_singleton.mp inside]
      decide)
    (.inl fun buf inside => by
      rw [List.mem_singleton.mp inside]
      decide)
  have split : Split hostHost [7, 9, 0] [[7, 9], [0]] [] :=
    (split_nil.cons ⟨0, [], rfl, by decide⟩).cons ⟨7, [9], rfl, by decide⟩
  have awake : (hh1 60 3 Getblk.above nine 5 [1, 2, 3, 4, 5] (fun _ => false) (some 0)
      (Vector.replicate 15 99) interrupted).toOption.isSome := by decide +kernel
  refine (filters.resolve_left fun asleep => ?_).mpr ⟨fun none => ?_, ?_, ?_⟩
  · rw [asleep] at awake
    exact Bool.false_ne_true awake
  · exact absurd none (by decide)
  · intro commands rest other
    obtain ⟨rfl, rfl⟩ := split.unique other
    refine ⟨?_, fun command inside zero => absurd zero ?_⟩
    · rintro ⟨op, more, n, some, -⟩
      exact absurd some (List.cons_ne_nil op more).symm
    · revert command
      decide
  · exact fun _ _ _ zero => absurd zero (by decide)

theorem Filtered.length_le (filtered : Filtered t host body passed handed) :
    passed.length ≤ body.length := by
  obtain ⟨commands, rest, tail, split, rfl, -, ending⟩ := filtered
  have fewer : (commands.filter fun command => wanted t host command = .passed).flatten.length ≤
      commands.flatten.length := List.filter_sublist.flatten.length_le
  have short : tail.length ≤ rest.length := by
    rcases ending with rfl | ⟨rfl, -⟩
    · exact Nat.le_refl _
    · exact Nat.zero_le _
  rw [split.joined, List.length_append, List.length_append]
  omega

/-- The bytes 0, 1 and 2 in a message: the second command is cut short. -/
def shortened : Ncp where
  pool := pair
  handles := []
  ncpirq := some 1
  ncprq := none
  ncptimo := false
  ncpopnstate := 1

/-- The daemon gets eight bytes that were never received. -/
theorem command_filled_up :
    ((hh1 60 3 Getblk.above nine 5 [1, 2, 3, 4, 5] (fun _ => false) (some 0)
      (Vector.replicate 15 99) shortened).toOption.map fun result => result.1.passed) =
        some [1, 2, 99, 99, 99, 99, 99, 99, 99, 99] ∧
    ¬ Filters nine 5 [1, 2, 3, 4, 5] [0, 1, 2]
      (hh1 60 3 Getblk.above nine 5 [1, 2, 3, 4, 5] (fun _ => false) (some 0)
        (Vector.replicate 15 99) shortened) := by
  have passes : ((hh1 60 3 Getblk.above nine 5 [1, 2, 3, 4, 5] (fun _ => false) (some 0)
      (Vector.replicate 15 99) shortened).toOption.map fun result => result.1.passed) =
        some [1, 2, 99, 99, 99, 99, 99, 99, 99, 99] := by decide +kernel
  refine ⟨passes, ?_⟩
  rintro ⟨decoded, last, result, filtered, -⟩
  rw [result] at passes
  have all : decoded.passed = [1, 2, 99, 99, 99, 99, 99, 99, 99, 99] := Option.some_inj.mp passes
  have few := filtered.length_le
  rw [all] at few
  exact absurd few (by decide)

end NetworkUnix.Ncpk.HostHost
