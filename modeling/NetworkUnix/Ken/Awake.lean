/-
This file models the activity of the await system call: the table of the processes
that are enabled for an inode, with the mark of activity that is the sign of a
byte, the flag of a process, and the wakeup. A routine of the kernel that a
process runs, and an awake at interrupt level, go on by single statements, and an
interrupt may come between any two of them. It proves that no activity is lost,
reported twice or reported wrongly unless an interrupt comes at one of three
moments.
-/

import NetworkUnix.Ken.Awtto
import Mathlib.Data.List.Pairwise
import Mathlib.Tactic.Common

namespace NetworkUnix.Ken

open Function

/-- NINODE, AWTPER and NOFILE -/
def ninode : Nat := 130

def awtper : Nat := 2

def nofile : Nat := 60

/-- A pair of bytes of itab: the process, 0 if the slot is free, and its file descriptor plus 1,
negative if there was activity. -/
structure Slot where
  pid : Nat
  fd : Int
  deriving DecidableEq

/-- The slot is that of a process and a descriptor. -/
def Slot.holds (slot : Slot) (p fd : Nat) : Bool :=
  decide (slot.pid = p) && (decide (slot.fd = fd + 1) || decide (slot.fd = -(fd + 1)))

/-- What is next in `awake`, at a slot: the test for the process, the flag, the wakeup, the test of
the byte, and the load and the store of the negation. -/
inductive AwakeStage
  | look
  | flag (pp : Nat)
  | wake (pp : Nat)
  | test
  | load
  | store (fd : Int)
  deriving DecidableEq

/-- A call of `awake`: the inode, the process that wakes or 0, and where it is. -/
structure Waking where
  inode : Nat
  p : Nat
  pos : Nat
  stage : AwakeStage
  deriving DecidableEq

/-- The slot in itab. -/
def Waking.itp (waking : Waking) : Nat := waking.inode * awtper + waking.pos

/-- The result area of `awt`: what is left of it, the bytes in it, its length, and what there was
to report. -/
structure Area where
  bbl : Int
  bytes : List Int
  len : Int
  due : List Int
  deriving DecidableEq

/-- What is next in the routine that a process runs: in `awt` the test of the flag, the sleep, the
exit, the test of a slot, the change of its sign and its report; in `enablei` the second store; and
in `disablei` the test of a slot and the second store. -/
inductive Routine
  | entered (bbl : Int)
  | checked (bbl : Int)
  | awtex (bbl : Int)
  | scan (k : Nat) (area : Area)
  | off (k : Nat) (area : Area)
  | told (k : Nat) (area : Area)
  | enabling (k fd : Nat)
  | disabling (inode fd pos : Nat)
  | cleared (inode fd pos : Nat)
  deriving DecidableEq

/-- A return from `awt`: the process, the length of the result area and the bytes in it, and what
there was to report. -/
structure Return where
  p : Nat
  len : Int
  bytes : List Int
  due : List Int
  deriving DecidableEq

/-- The table, the flags and places of the processes and the lengths they gave to `awt`; the calls
of `awake`, the one that interrupted last first; the routine that a process runs; the slots with
activity, and the returns from `awt`. -/
structure Awaiting where
  itab : Nat → Slot
  sawake : Nat → Bool
  place : Nat → Place
  bbl : Nat → Int
  wakings : List Waking
  current : Option (Nat × Routine)
  active : Nat → Bool
  returns : List Return

namespace Awaiting

def setFd (s : Awaiting) (k : Nat) (fd : Int) : Awaiting :=
  { s with itab := Function.update s.itab k { s.itab k with fd } }

def setPid (s : Awaiting) (k : Nat) (pid : Nat) : Awaiting :=
  { s with itab := Function.update s.itab k { s.itab k with pid } }

def setActive (s : Awaiting) (k : Nat) (active : Bool) : Awaiting :=
  { s with active := Function.update s.active k active }

def setFlag (s : Awaiting) (p : Nat) (flag : Bool) : Awaiting :=
  { s with sawake := Function.update s.sawake p flag }

/-- wakeup, of a process that sleeps on its flag -/
def wakeup (s : Awaiting) (p : Nat) : Awaiting :=
  if s.place p = .asleep then { s with place := Function.update s.place p .woken } else s

/-- The calls of `awake` once one has done with a slot. -/
def skip (waking : Waking) (rest : List Waking) : List Waking :=
  if waking.pos + 1 < awtper then { waking with pos := waking.pos + 1, stage := .look } :: rest
  else rest

/-- awake, one statement -/
def awake (s : Awaiting) (waking : Waking) (rest : List Waking) : Awaiting :=
  let k := waking.itp
  let slot := s.itab k
  match waking.stage with
  | .look =>
    if slot.pid ≠ 0 ∧ slot.pid ≠ waking.p then
      { s with wakings := { waking with stage := .flag slot.pid } :: rest }
    else { s with wakings := skip waking rest }
  | .flag pp => { s.setFlag pp true with wakings := { waking with stage := .wake pp } :: rest }
  | .wake pp => { s.wakeup pp with wakings := { waking with stage := .test } :: rest }
  | .test =>
    if 0 ≤ slot.fd then { s with wakings := { waking with stage := .load } :: rest }
    else { s.setActive k true with wakings := skip waking rest }
  | .load => { s with wakings := { waking with stage := .store (-slot.fd) } :: rest }
  | .store fd =>
    { (s.setFd k fd).setActive k (s.active k || decide (slot.fd ≠ 0)) with
      wakings := skip waking rest }

/-- What there is to report when `awt` has looked at a slot. -/
def collect (s : Awaiting) (k : Nat) (area : Area) : Area :=
  if s.active k then { area with due := area.due ++ [((s.itab k).fd.natAbs : Int) - 1] } else area

/-- The process goes on in its routine. -/
def goTo (s : Awaiting) (p : Nat) (routine : Routine) : Awaiting :=
  { s with current := some (p, routine) }

/-- The process returns from `awt`; the end of the list is marked if there is room. -/
def return_ (s : Awaiting) (p : Nat) (area : Area) : Awaiting :=
  { s with
    current := none
    returns := s.returns ++
      [⟨p, area.len, area.bytes ++ (if 1 ≤ area.bbl then [-1] else []), area.due⟩] }

/-- A descriptor is put into the result area, if there is room for it and the mark of the end. -/
def report (s : Awaiting) (k : Nat) (area : Area) : Area :=
  if 1 < area.bbl then
    { area with bbl := area.bbl - 1, bytes := area.bytes ++ [(s.itab k).fd - 1] }
  else area

/-- A routine of a process, one statement. -/
def go (s : Awaiting) (p : Nat) : Routine → Awaiting
  | .entered bbl => s.goTo p (if s.sawake p then .awtex bbl else .checked bbl)
  | .checked bbl =>
    { s with
      current := none
      place := Function.update s.place p .asleep
      bbl := Function.update s.bbl p bbl }
  | .awtex bbl => (s.setFlag p false).goTo p (.scan 0 ⟨bbl, [], bbl, []⟩)
  | .scan k area =>
    if k < ninode * awtper then
      if (s.itab k).pid = p then
        if (s.itab k).fd < 0 then s.goTo p (.off k area)
        else (s.setActive k false).goTo p (.scan (k + 1) (s.collect k area))
      else s.goTo p (.scan (k + 1) area)
    else s.return_ p area
  | .off k area =>
    ((s.setFd k (-(s.itab k).fd)).setActive k false).goTo p (.told k (s.collect k area))
  | .told k area => s.goTo p (.scan (k + 1) (s.report k area))
  | .enabling k fd => { s.setFd k (fd + 1) with current := none }
  | .disabling inode fd pos =>
    if pos < awtper then
      if (s.itab (inode * awtper + pos)).holds p fd then
        (s.setPid (inode * awtper + pos) 0).goTo p (.cleared inode fd pos)
      else s.goTo p (.disabling inode fd (pos + 1))
    else { s with current := none }
  | .cleared inode fd pos =>
    ((s.setFd (inode * awtper + pos) 0).setActive (inode * awtper + pos) false).goTo p
      (.disabling inode fd (pos + 1))

/-- The slots of an inode. -/
def slots (inode : Nat) : List Nat := (List.range awtper).map fun pos => inode * awtper + pos

/-- enablei, up to the first store -/
def enablei (s : Awaiting) (p inode fd : Nat) : Awaiting :=
  if (slots inode).any fun k => (s.itab k).holds p fd then s
  else
    match (slots inode).reverse.find? fun k => decide ((s.itab k).pid = 0) with
    | some k => (s.setPid k p).goTo p (.enabling k fd)
    | none => s

/-- A process can call a routine: no other is under way, and it is not in `awt`. -/
def free (s : Awaiting) (p : Nat) : Bool :=
  s.wakings.isEmpty && s.current.isNone && decide (s.place p = .elsewhere) &&
    decide (0 < p) && decide (p < nproc)

end Awaiting

/-! ### Runs -/

/-- An interrupt calls `awake` for an inode, or a process does, naming itself or not; a statement is
executed; a process calls `awt`, `awtenb` or `awtdis`; it goes on in `awt`, or is taken out of it by
a signal; and `awtto` awakens it. -/
inductive AwtEvent
  | interrupt (inode : Nat)
  | call (p inode : Nat) (pf : Bool)
  | step
  | awt (p : Nat) (tim bbl : Int)
  | awtenb (p inode fd : Nat)
  | awtdis (p inode fd : Nat)
  | resume (p : Nat)
  | psig (p : Nat)
  | awtto (p : Nat)
  deriving DecidableEq

namespace Awaiting

def act (s : Awaiting) : AwtEvent → Option Awaiting
  | .interrupt inode =>
    if inode < ninode then some { s with wakings := ⟨inode, 0, 0, .look⟩ :: s.wakings } else none
  | .call p inode pf =>
    if s.free p && decide (inode < ninode) then
      some { s with wakings := [⟨inode, if pf then p else 0, 0, .look⟩] }
    else none
  | .step =>
    match s.wakings with
    | waking :: rest => some (s.awake waking rest)
    | [] => s.current.map fun running => s.go running.1 running.2
  | .awt p tim bbl =>
    if s.free p then some (s.goTo p (if 0 < tim then .entered bbl else .awtex bbl)) else none
  | .awtenb p inode fd =>
    if s.free p && decide (inode < ninode) && decide (fd < nofile) then some (s.enablei p inode fd)
    else none
  | .awtdis p inode fd =>
    if s.free p && decide (inode < ninode) && decide (fd < nofile) then
      some (s.goTo p (.disabling inode fd 0))
    else none
  | .resume p =>
    if s.wakings.isEmpty && s.current.isNone && decide (s.place p = .woken) then
      some ({ s with place := Function.update s.place p .elsewhere }.goTo p (.awtex (s.bbl p)))
    else none
  | .psig p =>
    if s.wakings.isEmpty && s.current.isNone && decide (s.place p ≠ .elsewhere) then
      some { s with place := Function.update s.place p .elsewhere }
    else none
  | .awtto p => some ((s.setFlag p true).wakeup p)

/-- Nothing is enabled, and no process is awakened. -/
def start : Awaiting where
  itab _ := ⟨0, 0⟩
  sawake _ := false
  place _ := .elsewhere
  bbl _ := 0
  wakings := []
  current := none
  active _ := false
  returns := []

/-- An `awake` for an inode does not disturb the process that runs: not while it has seen that it
was not awakened and is going to sleep, if it is enabled for the inode, and not while it has turned
off the mark of a slot of the inode and is going to report the descriptor. -/
def Undisturbed (s : Awaiting) (inode : Nat) : Prop :=
  match s.current with
  | some (p, .checked _) => ∀ k ∈ slots inode, (s.itab k).pid ≠ p
  | some (_, .told k area) => 1 < area.bbl → k ∉ slots inode
  | _ => True

instance (s : Awaiting) (inode : Nat) : Decidable (s.Undisturbed inode) := by
  unfold Undisturbed
  split <;> infer_instance

/-- An interrupt for an inode does not come while a process that is enabled for it has seen that it
was not awakened and is going to sleep, or has turned off the mark of one of its slots and is going
to report the descriptor; or while another `awake` for it has seen that there is no mark and is
going to make one. -/
def proper (s : Awaiting) : AwtEvent → Prop
  | .interrupt inode =>
    s.Undisturbed inode ∧ ∀ waking ∈ s.wakings, waking.stage = .load → waking.inode ≠ inode
  | _ => True

instance (s : Awaiting) : ∀ event, Decidable (s.proper event)
  | .interrupt _ => inferInstanceAs (Decidable (_ ∧ _))
  | .call .. | .step | .awt .. | .awtenb .. | .awtdis .. | .resume _ | .psig _ | .awtto _ =>
    inferInstanceAs (Decidable True)

/-- The bytes in a result area that has room for all descriptors, the mark of the end, or a part of
them. -/
def reported (len : Int) (due : List Int) : List Int :=
  if len < 1 then [] else due.take (len - 1).toNat ++ [-1]

/-- No process sleeps that has a slot with activity; and every return reports what there was to
report, and nothing else. -/
structure Faithful (s : Awaiting) : Prop where
  asleep : ∀ p k, s.place p = .asleep → (s.itab k).pid = p → s.active k = false
  returns : ∀ done ∈ s.returns, done.bytes = reported done.len done.due

/-- The activity of a slot after a step: it is still there, or the process disables the descriptor,
or it is now among what there is to report. -/
def Kept (s next : Awaiting) (p k : Nat) : Prop :=
  (next.active k = true ∧ (next.itab k).pid = p ∧ (next.itab k).fd.natAbs = (s.itab k).fd.natAbs) ∨
  (∃ inode fd pos, s.current = some (p, .disabling inode fd pos) ∧
    inode * awtper + pos = k ∧ (s.itab k).holds p fd = true) ∨
  ∃ area, next.current = some (p, .told k area) ∧
    area.due.getLast? = some (((s.itab k).fd.natAbs : Int) - 1)

end Awaiting

/-! ### The invariant -/

/-- The bytes in a result area are those of what there was to report, as far as there is room. -/
structure Area.Holds (area : Area) (due : List Int) : Prop where
  bytes : area.bytes = due.take (area.len - 1).toNat
  bbl : area.bbl = area.len - area.bytes.length

/-- The routine is going to look at a slot, or to turn off its mark. -/
def Routine.ahead (k : Nat) : Routine → Prop
  | .scan j _ | .off j _ => j ≤ k
  | .told j _ => j < k
  | _ => False

namespace Awaiting

variable {s next : Awaiting}

/-- The process of a slot has been awakened. -/
structure Woken (s : Awaiting) (k : Nat) : Prop where
  pid : (s.itab k).pid ≠ 0
  flag : s.sawake (s.itab k).pid = true
  place : s.place (s.itab k).pid ≠ .asleep

/-- What a call of `awake` knows. -/
def Knows (s : Awaiting) (k : Nat) : AwakeStage → Prop
  | .look => True
  | .flag pp => (s.itab k).pid = pp ∧ pp ≠ 0
  | .wake pp => (s.itab k).pid = pp ∧ pp ≠ 0 ∧ s.sawake pp = true
  | .test => s.Woken k
  | .load => s.Woken k ∧ 0 ≤ (s.itab k).fd
  | .store fd => s.Woken k ∧ fd ≤ 0 ∧ (fd = (s.itab k).fd ∨ fd = -(s.itab k).fd)

/-- What the routine of a process knows. -/
def Holds (s : Awaiting) (p : Nat) : Routine → Prop
  | .checked _ => ∀ k, (s.itab k).pid = p → 0 ≤ (s.itab k).fd
  | .scan _ area => area.Holds area.due
  | .off k area => (s.itab k).pid = p ∧ (s.itab k).fd < 0 ∧ area.Holds area.due
  | .told k area => ∃ due fd, area.due = due ++ [fd] ∧ area.Holds due ∧
      (1 < area.bbl → (s.itab k).fd = fd + 1)
  | .enabling k _ => (s.itab k).pid = p ∧ (s.itab k).fd = 0
  | .cleared inode _ pos => (s.itab (inode * awtper + pos)).pid = 0
  | _ => True

/-- What holds between statements: a slot has activity if its byte is negative; its process then
has the flag, or is going to look at the slot; a process that sleeps has no such slot; what is free
is clear; what the running process and the calls of `awake` know; and that these are apart. -/
structure Inv (s : Awaiting) : Prop where
  active : ∀ k, s.active k = true ↔ (s.itab k).fd < 0
  flagged : ∀ k, (s.itab k).pid ≠ 0 → (s.itab k).fd < 0 → s.sawake (s.itab k).pid = true ∨
    ∃ routine, s.current = some ((s.itab k).pid, routine) ∧ routine.ahead k
  asleep : ∀ k, s.place (s.itab k).pid = .asleep → 0 ≤ (s.itab k).fd
  nobody : s.place 0 = .elsewhere
  bound : ∀ k, ninode * awtper ≤ k → (s.itab k).pid = 0
  clear : ∀ k, (s.itab k).pid = 0 → (s.itab k).fd = 0 ∨ ∃ p inode fd pos,
    s.current = some (p, .cleared inode fd pos) ∧ inode * awtper + pos = k
  running : ∀ p routine, s.current = some (p, routine) →
    p ≠ 0 ∧ s.place p = .elsewhere ∧ s.Holds p routine
  wakings : ∀ waking ∈ s.wakings, waking.pos < awtper ∧ s.Knows waking.itp waking.stage
  apart : s.wakings.Pairwise fun upper lower => lower.stage = .load → upper.inode ≠ lower.inode
  undisturbed : ∀ waking ∈ s.wakings, s.Undisturbed waking.inode
  returns : ∀ done ∈ s.returns, done.bytes = reported done.len done.due

theorem start_inv : start.Inv where
  active _ := by simp [start]
  flagged _ pid := absurd rfl pid
  asleep _ asleep := by cases asleep
  nobody := rfl
  bound _ _ := rfl
  clear _ _ := .inl rfl
  running _ _ isRunning := by cases isRunning
  wakings _ member := by cases member
  apart := .nil
  undisturbed _ member := by cases member
  returns _ member := by cases member

theorem Inv.faithful (inv : s.Inv) : s.Faithful where
  asleep p k asleep pid := by
    subst pid
    have nonneg := inv.asleep k asleep
    rw [← Bool.not_eq_true, inv.active]
    omega
  returns := inv.returns

/-- A step that changes no slot and not what runs. -/
structure Still (s next : Awaiting) : Prop where
  itab : next.itab = s.itab
  active : next.active = s.active
  current : next.current = s.current
  returns : next.returns = s.returns
  flag : ∀ p, s.sawake p = true → next.sawake p = true
  place : ∀ p, next.place p = s.place p ∨ s.place p = .asleep ∧ next.place p = .woken

theorem Still.woken (still : Still s next) {k : Nat} (woken : s.Woken k) : next.Woken k := by
  obtain ⟨pid, flag, place⟩ := woken
  rw [← still.itab] at pid flag place
  refine ⟨pid, still.flag _ flag, ?_⟩
  rcases still.place (next.itab k).pid with same | ⟨asleep, -⟩
  · rw [same]
    exact place
  · exact absurd asleep place

theorem Still.knows (still : Still s next) {k : Nat} {stage : AwakeStage}
    (knows : s.Knows k stage) : next.Knows k stage := by
  cases stage with
  | look => trivial
  | flag pp =>
    unfold Knows
    rw [still.itab]
    exact knows
  | wake pp =>
    unfold Knows
    rw [still.itab]
    exact ⟨knows.1, knows.2.1, still.flag _ knows.2.2⟩
  | test => exact still.woken knows
  | load =>
    unfold Knows
    rw [still.itab]
    exact ⟨still.woken knows.1, knows.2⟩
  | store fd =>
    unfold Knows
    rw [still.itab]
    exact ⟨still.woken knows.1, knows.2⟩

theorem Still.undisturbed (still : Still s next) {inode : Nat} (held : s.Undisturbed inode) :
    next.Undisturbed inode := by
  unfold Undisturbed
  rw [still.current, still.itab]
  exact held

theorem Still.inv (still : Still s next) (inv : s.Inv)
    (wakings : ∀ waking ∈ next.wakings, waking.pos < awtper ∧ next.Knows waking.itp waking.stage)
    (apart : next.wakings.Pairwise fun upper lower =>
      lower.stage = .load → upper.inode ≠ lower.inode)
    (undisturbed : ∀ waking ∈ next.wakings, s.Undisturbed waking.inode) : next.Inv := by
  have notAsleep : ∀ p, next.place p = .asleep → s.place p = .asleep := by
    intro p asleep
    rcases still.place p with same | ⟨wasAsleep, -⟩
    · rw [← same]
      exact asleep
    · exact wasAsleep
  have elsewhere : ∀ p, s.place p = .elsewhere → next.place p = .elsewhere := by
    intro p isElsewhere
    rcases still.place p with same | ⟨asleep, -⟩
    · rw [same]
      exact isElsewhere
    · rw [isElsewhere] at asleep
      cases asleep
  refine ⟨?_, ?_, ?_, elsewhere 0 inv.nobody, ?_, ?_, ?_, wakings, apart,
    fun waking member => still.undisturbed (undisturbed waking member), ?_⟩
  · rw [still.active, still.itab]
    exact inv.active
  · rw [still.itab, still.current]
    intro k pid marked
    exact (inv.flagged k pid marked).imp (still.flag _) id
  · rw [still.itab]
    intro k asleep
    exact inv.asleep k (notAsleep _ asleep)
  · rw [still.itab]
    exact inv.bound
  · rw [still.itab, still.current]
    exact inv.clear
  · rw [still.current]
    intro p routine isRunning
    obtain ⟨notZero, isElsewhere, holds⟩ := inv.running p routine isRunning
    refine ⟨notZero, elsewhere p isElsewhere, ?_⟩
    unfold Holds
    rw [still.itab]
    exact holds
  · rw [still.returns]
    exact inv.returns

/-! ### A statement of `awake` -/

variable {waking : Waking} {rest : List Waking}

theorem Still.goesOn (still : Still s next) (inv : s.Inv) (top : s.wakings = waking :: rest)
    {onward : Waking} (isNext : next.wakings = onward :: rest)
    (inode : onward.inode = waking.inode) (pos : onward.pos < awtper)
    (knows : next.Knows onward.itp onward.stage) : next.Inv := by
  have wakings := inv.wakings
  have apart := inv.apart
  have undisturbed := inv.undisturbed
  rw [top] at wakings apart undisturbed
  rw [List.pairwise_cons] at apart
  refine still.inv inv ?_ ?_ ?_
  · rw [isNext]
    intro other member
    rcases List.mem_cons.mp member with rfl | member
    · exact ⟨pos, knows⟩
    · obtain ⟨inside, known⟩ := wakings other (List.mem_cons_of_mem _ member)
      exact ⟨inside, still.knows known⟩
  · rw [isNext, List.pairwise_cons, inode]
    exact apart
  · rw [isNext]
    intro other member
    rcases List.mem_cons.mp member with rfl | member
    · rw [inode]
      exact undisturbed waking List.mem_cons_self
    · exact undisturbed other (List.mem_cons_of_mem _ member)

theorem Still.skips (still : Still s next) (inv : s.Inv) (top : s.wakings = waking :: rest)
    (isNext : next.wakings = skip waking rest) : next.Inv := by
  unfold skip at isNext
  split at isNext
  next more => exact still.goesOn inv top isNext rfl more trivial
  next =>
    have wakings := inv.wakings
    have apart := inv.apart
    have undisturbed := inv.undisturbed
    rw [top] at wakings apart undisturbed
    rw [List.pairwise_cons] at apart
    refine still.inv inv ?_ ?_ ?_ <;> rw [isNext]
    · intro other member
      obtain ⟨inside, known⟩ := wakings other (List.mem_cons_of_mem _ member)
      exact ⟨inside, still.knows known⟩
    · exact apart.2
    · exact (List.forall_mem_cons.mp undisturbed).2

theorem setFlag_still (s : Awaiting) (p : Nat) (wakings : List Waking) :
    Still s { s.setFlag p true with wakings } := by
  refine ⟨rfl, rfl, rfl, rfl, fun other flag => ?_, fun _ => .inl rfl⟩
  show Function.update s.sawake p true other = true
  rw [update_apply]
  split
  · rfl
  · exact flag

theorem wakeup_still (s : Awaiting) (p : Nat) : Still s (s.wakeup p) := by
  unfold wakeup
  split
  next asleep =>
    refine ⟨rfl, rfl, rfl, rfl, fun _ flag => flag, fun other => ?_⟩
    show Function.update s.place p Place.woken other = _ ∨ _ ∧ Function.update s.place p _ other = _
    rw [update_apply]
    split
    next same =>
      subst same
      exact .inr ⟨asleep, rfl⟩
    next => exact .inl rfl
  next => exact ⟨rfl, rfl, rfl, rfl, fun _ flag => flag, fun _ => .inl rfl⟩

theorem wakeup_awake (s : Awaiting) (p : Nat) : (s.wakeup p).place p ≠ .asleep := by
  unfold wakeup
  split
  next =>
    show Function.update s.place p Place.woken p ≠ _
    rw [update_self]
    exact Place.noConfusion
  next awake => exact awake

theorem Still.refl (s : Awaiting) (wakings : List Waking) : Still s { s with wakings } :=
  ⟨rfl, rfl, rfl, rfl, fun _ flag => flag, fun _ => .inl rfl⟩

theorem Still.trans {mid : Awaiting} (first : Still s mid) (second : Still mid next) :
    Still s next := by
  refine ⟨second.itab.trans first.itab, second.active.trans first.active,
    second.current.trans first.current, second.returns.trans first.returns,
    fun p flag => second.flag p (first.flag p flag), fun p => ?_⟩
  rcases first.place p with same | ⟨asleep, woken⟩
  · rw [← same]
    exact second.place p
  · rcases second.place p with same | ⟨asleep', -⟩
    · exact .inr ⟨asleep, same.trans woken⟩
    · rw [woken] at asleep'
      cases asleep'

theorem mem_slots {inode k : Nat} :
    k ∈ slots inode ↔ ∃ pos, pos < awtper ∧ inode * awtper + pos = k := by
  simp [slots]

theorem Waking.inode_of_itp {one other : Waking} (inside : one.pos < awtper)
    (inside' : other.pos < awtper) (same : one.itp = other.itp) : one.inode = other.inode := by
  unfold Waking.itp awtper at same
  unfold awtper at inside inside'
  omega

@[simp] theorem setFd_pid (s : Awaiting) (k : Nat) (fd : Int) (j : Nat) :
    ((s.setFd k fd).itab j).pid = (s.itab j).pid := by
  show (Function.update s.itab k _ j : Slot).pid = _
  rw [update_apply]
  split
  next same => rw [same]
  next => rfl

theorem setFd_fd (s : Awaiting) (k : Nat) (fd : Int) (j : Nat) :
    ((s.setFd k fd).itab j).fd = if j = k then fd else (s.itab j).fd := by
  show (Function.update s.itab k _ j : Slot).fd = _
  rw [update_apply]
  split <;> rfl

theorem setActive_active (s : Awaiting) (k : Nat) (active : Bool) (j : Nat) :
    (s.setActive k active).active j = if j = k then active else s.active j :=
  update_apply _ _ _ _

/-- What the store of a mark leaves. -/
structure Marked (s : Awaiting) (k : Nat) (fd : Int) (next : Awaiting) : Prop where
  pid : ∀ j, (next.itab j).pid = (s.itab j).pid
  fd : ∀ j, (next.itab j).fd = if j = k then fd else (s.itab j).fd
  active : ∀ j, next.active j =
    if j = k then s.active k || decide ((s.itab k).fd ≠ 0) else s.active j
  flag : next.sawake = s.sawake
  place : next.place = s.place
  current : next.current = s.current
  returns : next.returns = s.returns

theorem store_marked {fd : Int} (stage : waking.stage = .store fd) :
    Marked s waking.itp fd (s.awake waking rest) ∧
      (s.awake waking rest).wakings = skip waking rest := by
  unfold awake
  rw [stage]
  exact ⟨⟨setFd_pid s _ fd, setFd_fd s _ fd, setActive_active _ _ _, rfl, rfl, rfl, rfl⟩, rfl⟩

theorem Marked.woken {k j : Nat} {fd : Int} (marked : Marked s k fd next) (woken : s.Woken j) :
    next.Woken j := by
  obtain ⟨pid, flag, place⟩ := woken
  rw [← marked.pid] at pid flag place
  rw [← marked.flag] at flag
  rw [← marked.place] at place
  exact ⟨pid, flag, place⟩

theorem Marked.knows {k j : Nat} {fd : Int} {stage : AwakeStage} (marked : Marked s k fd next)
    (low : fd ≤ 0) (either : fd = (s.itab k).fd ∨ fd = -(s.itab k).fd)
    (apart : stage = .load → j ≠ k) (knows : s.Knows j stage) : next.Knows j stage := by
  cases stage with
  | look => trivial
  | flag pp =>
    unfold Knows
    rw [marked.pid]
    exact knows
  | wake pp =>
    unfold Knows
    rw [marked.pid, marked.flag]
    exact knows
  | test => exact marked.woken knows
  | load =>
    refine ⟨marked.woken knows.1, ?_⟩
    rw [marked.fd, if_neg (apart rfl)]
    exact knows.2
  | store other =>
    obtain ⟨woken, low', either'⟩ := knows
    refine ⟨marked.woken woken, low', ?_⟩
    rw [marked.fd]
    split
    next same =>
      rw [same] at either'
      omega
    next => exact either'

theorem Marked.undisturbed {k inode : Nat} {fd : Int} (marked : Marked s k fd next)
    (held : s.Undisturbed inode) : next.Undisturbed inode := by
  unfold Undisturbed at held ⊢
  rw [marked.current]
  split at held
  · intro j member
    rw [marked.pid]
    exact held j member
  · exact held
  · trivial

theorem Marked.holds {k p inode : Nat} {fd : Int} {routine : Routine} (marked : Marked s k fd next)
    (low : fd ≤ 0) (either : fd = (s.itab k).fd ∨ fd = -(s.itab k).fd) (mine : k ∈ slots inode)
    (isRunning : s.current = some (p, routine)) (undisturbed : s.Undisturbed inode)
    (holds : s.Holds p routine) : next.Holds p routine := by
  unfold Undisturbed at undisturbed
  rw [isRunning] at undisturbed
  cases routine with
  | checked bbl =>
    intro j pid
    rw [marked.pid] at pid
    have apart : j ≠ k := by
      rintro rfl
      exact undisturbed j mine pid
    rw [marked.fd, if_neg apart]
    exact holds j pid
  | off j area =>
    obtain ⟨pid, mark, held⟩ := holds
    refine ⟨(marked.pid j).trans pid, ?_, held⟩
    rw [marked.fd]
    split
    next same =>
      rw [same] at mark
      omega
    next => exact mark
  | told j area =>
    obtain ⟨due, f, isDue, held, same⟩ := holds
    refine ⟨due, f, isDue, held, fun room => ?_⟩
    have apart : j ≠ k := by
      rintro rfl
      exact undisturbed room mine
    rw [marked.fd, if_neg apart]
    exact same room
  | enabling j f =>
    obtain ⟨pid, zero⟩ := holds
    refine ⟨(marked.pid j).trans pid, ?_⟩
    rw [marked.fd]
    split
    next same =>
      rw [same] at zero
      omega
    next => exact zero
  | cleared inode f pos => exact (marked.pid _).trans holds
  | _ => exact holds

/-- A mark is stored. -/
theorem store_inv (inv : s.Inv) (top : s.wakings = waking :: rest) {fd : Int}
    (stage : waking.stage = .store fd) : (s.awake waking rest).Inv := by
  have wakings := inv.wakings
  have apart := inv.apart
  have undisturbed := inv.undisturbed
  rw [top] at wakings apart undisturbed
  rw [List.pairwise_cons] at apart
  obtain ⟨inside, knows⟩ := wakings waking List.mem_cons_self
  rw [stage] at knows
  obtain ⟨woken, low, either⟩ := knows
  have mine : waking.itp ∈ slots waking.inode := mem_slots.mpr ⟨_, inside, rfl⟩
  obtain ⟨marked, skips⟩ := store_marked (s := s) stage
  have others : ∀ other ∈ rest, other.pos < awtper ∧
      (s.awake waking rest).Knows other.itp other.stage := by
    intro other member
    obtain ⟨inside', known⟩ := wakings other (List.mem_cons_of_mem _ member)
    refine ⟨inside', marked.knows low either (fun isLoad same => ?_) known⟩
    exact apart.1 other member isLoad (Waking.inode_of_itp inside' inside same).symm
  generalize s.awake waking rest = next at marked skips others ⊢
  refine ⟨fun j => ?_, fun j pid mark => ?_, fun j asleep => ?_, ?_, fun j above => ?_,
    fun j free => ?_, fun p routine isRunning => ?_, ?_, ?_, ?_, ?_⟩
  · have before := inv.active j
    rw [marked.active, marked.fd]
    split
    next same =>
      rw [Bool.or_eq_true, decide_eq_true_eq, ← same, before]
      rw [← same] at either
      omega
    next => exact before
  · rw [marked.pid] at pid ⊢
    rw [marked.flag, marked.current]
    rw [marked.fd] at mark
    split at mark
    next same =>
      subst same
      exact .inl woken.flag
    next => exact inv.flagged j pid mark
  · rw [marked.pid, marked.place] at asleep
    rw [marked.fd]
    split
    next same =>
      subst same
      exact absurd asleep woken.place
    next => exact inv.asleep j asleep
  · rw [marked.place]
    exact inv.nobody
  · rw [marked.pid]
    exact inv.bound j above
  · rw [marked.pid] at free
    rw [marked.fd, marked.current]
    split
    next same =>
      subst same
      exact absurd free woken.pid
    next => exact inv.clear j free
  · rw [marked.current] at isRunning
    obtain ⟨notZero, elsewhere, holds⟩ := inv.running p routine isRunning
    rw [marked.place]
    exact ⟨notZero, elsewhere, marked.holds low either mine isRunning
      (undisturbed waking List.mem_cons_self) holds⟩
  · rw [skips]
    unfold skip
    split
    next more =>
      exact List.forall_mem_cons.mpr ⟨⟨more, trivial⟩, others⟩
    next => exact others
  · rw [skips]
    unfold skip
    split
    · exact List.pairwise_cons.mpr apart
    · exact apart.2
  · rw [skips]
    have mineStill := marked.undisturbed (undisturbed waking List.mem_cons_self)
    have restStill : ∀ other ∈ rest, next.Undisturbed other.inode := fun other member =>
      marked.undisturbed (undisturbed other (List.mem_cons_of_mem _ member))
    unfold skip
    split
    · exact List.forall_mem_cons.mpr ⟨mineStill, restStill⟩
    · exact restStill
  · rw [marked.returns]
    exact inv.returns

theorem awake_inv (inv : s.Inv) (top : s.wakings = waking :: rest) :
    (s.awake waking rest).Inv := by
  have found := inv.wakings
  rw [top] at found
  obtain ⟨inside, knows⟩ := found waking List.mem_cons_self
  cases stage : waking.stage with
  | look =>
    unfold awake
    rw [stage]
    dsimp only
    split
    next other =>
      exact (Still.refl s _).goesOn inv top rfl rfl inside ⟨rfl, other.1⟩
    next => exact (Still.refl s _).skips inv top rfl
  | flag pp =>
    rw [stage] at knows
    unfold awake
    rw [stage]
    refine (setFlag_still s pp _).goesOn inv top rfl rfl inside ⟨knows.1, knows.2, ?_⟩
    exact update_self _ _ _
  | wake pp =>
    rw [stage] at knows
    obtain ⟨rfl, notZero, flag⟩ := knows
    have still := wakeup_still s (s.itab waking.itp).pid
    have isAwake := wakeup_awake s (s.itab waking.itp).pid
    unfold awake
    rw [stage]
    refine (still.trans (Still.refl _ _)).goesOn inv top rfl rfl inside ?_
    refine (Still.refl _ _).woken ⟨?_, ?_, ?_⟩ <;> rw [still.itab]
    · exact notZero
    · exact still.flag _ flag
    · exact isAwake
  | test =>
    rw [stage] at knows
    unfold awake
    rw [stage]
    dsimp only
    split
    next unmarked =>
      exact (Still.refl s _).goesOn inv top rfl rfl inside
        ⟨(Still.refl s _).woken knows, unmarked⟩
    next marked =>
      have active : Function.update s.active waking.itp true = s.active := by
        rw [update_eq_self_iff, eq_comm, inv.active]
        omega
      have still : Still s { s.setActive waking.itp true with wakings := skip waking rest } :=
        ⟨rfl, active, rfl, rfl, fun _ flag => flag, fun _ => .inl rfl⟩
      exact still.skips inv top rfl
  | load =>
    rw [stage] at knows
    unfold awake
    rw [stage]
    refine (Still.refl s _).goesOn inv top rfl rfl inside
      ⟨(Still.refl s _).woken knows.1, ?_, .inr rfl⟩
    have unmarked := knows.2
    omega
  | store fd => exact store_inv inv top stage

/-! ### A statement of a routine -/

/-- What must hold between statements while no call of `awake` is under way. -/
structure Calm (s : Awaiting) : Prop where
  none : s.wakings = []
  active : ∀ k, s.active k = true ↔ (s.itab k).fd < 0
  flagged : ∀ k, (s.itab k).pid ≠ 0 → (s.itab k).fd < 0 → s.sawake (s.itab k).pid = true ∨
    ∃ routine, s.current = some ((s.itab k).pid, routine) ∧ routine.ahead k
  asleep : ∀ k, s.place (s.itab k).pid = .asleep → 0 ≤ (s.itab k).fd
  nobody : s.place 0 = .elsewhere
  bound : ∀ k, ninode * awtper ≤ k → (s.itab k).pid = 0
  clear : ∀ k, (s.itab k).pid = 0 → (s.itab k).fd = 0 ∨ ∃ p inode fd pos,
    s.current = some (p, .cleared inode fd pos) ∧ inode * awtper + pos = k
  running : ∀ p routine, s.current = some (p, routine) →
    p ≠ 0 ∧ s.place p = .elsewhere ∧ s.Holds p routine
  returns : ∀ done ∈ s.returns, done.bytes = reported done.len done.due

theorem Calm.inv (calm : s.Calm) : s.Inv := by
  refine ⟨calm.active, calm.flagged, calm.asleep, calm.nobody, calm.bound, calm.clear,
    calm.running, ?_, ?_, ?_, calm.returns⟩ <;> rw [calm.none]
  · exact fun _ member => by cases member
  · exact .nil
  · exact fun _ member => by cases member

theorem Inv.goTo {p : Nat} {routine : Routine} (inv : s.Inv) (none : s.wakings = [])
    (notZero : p ≠ 0) (elsewhere : s.place p = .elsewhere)
    (ahead : ∀ k, (s.itab k).pid ≠ 0 → (s.itab k).fd < 0 → s.sawake (s.itab k).pid = true ∨
      (s.itab k).pid = p ∧ routine.ahead k)
    (clear : ∀ k, (s.itab k).pid = 0 → (s.itab k).fd = 0)
    (holds : s.Holds p routine) : (s.goTo p routine).Inv := by
  refine Calm.inv ⟨none, inv.active, fun k pid marked => ?_, inv.asleep, inv.nobody, inv.bound,
    fun k free => .inl (clear k free), fun other next isRunning => ?_, inv.returns⟩
  · refine (ahead k pid marked).imp id ?_
    rintro ⟨same, isAhead⟩
    exact ⟨routine, congrArg (fun p => some (p, routine)) same.symm, isAhead⟩
  · cases isRunning
    exact ⟨notZero, elsewhere, holds⟩

theorem Inv.flagged_of {p : Nat} {routine : Routine} (inv : s.Inv)
    (isRunning : s.current = some (p, routine)) {k : Nat} (pid : (s.itab k).pid ≠ 0)
    (marked : (s.itab k).fd < 0) :
    s.sawake (s.itab k).pid = true ∨ (s.itab k).pid = p ∧ routine.ahead k := by
  refine (inv.flagged k pid marked).imp id ?_
  rintro ⟨other, isOther, ahead⟩
  rw [isRunning] at isOther
  cases isOther
  exact ⟨rfl, ahead⟩

theorem Inv.clear_of {p : Nat} {routine : Routine} (inv : s.Inv)
    (isRunning : s.current = some (p, routine))
    (notCleared : ∀ inode fd pos, routine ≠ .cleared inode fd pos) {k : Nat}
    (free : (s.itab k).pid = 0) : (s.itab k).fd = 0 := by
  rcases inv.clear k free with zero | ⟨_, inode, fd, pos, isCleared, -⟩
  · exact zero
  · rw [isRunning] at isCleared
    cases isCleared
    exact absurd rfl (notCleared inode fd pos)

theorem report_holds {k : Nat} {area : Area} {due : List Int} {fd : Int}
    (isDue : area.due = due ++ [fd]) (held : area.Holds due)
    (same : 1 < area.bbl → (s.itab k).fd = fd + 1) :
    (s.report k area).Holds (s.report k area).due := by
  obtain ⟨bytes, bbl⟩ := held
  have length : area.bytes.length = min (area.len - 1).toNat due.length := by
    rw [bytes, List.length_take]
  unfold report
  split
  next room =>
    have shorter : due.length + 1 ≤ (area.len - 1).toNat := by omega
    refine ⟨?_, ?_⟩
    · dsimp only
      rw [isDue, List.take_of_length_le (by simpa using shorter), bytes,
        List.take_of_length_le (by omega), same room, Int.add_sub_cancel]
    · dsimp only
      rw [List.length_append, List.length_singleton]
      omega
  next full =>
    refine ⟨?_, bbl⟩
    rw [isDue, List.take_append_of_le_length (by omega)]
    exact bytes

theorem Area.Holds.reported {area : Area} {due : List Int} (held : area.Holds due) :
    area.bytes ++ (if 1 ≤ area.bbl then [-1] else []) = Awaiting.reported area.len due := by
  obtain ⟨bytes, bbl⟩ := held
  have length : area.bytes.length = min (area.len - 1).toNat due.length := by
    rw [bytes, List.length_take]
  unfold Awaiting.reported
  split
  next room =>
    rw [if_neg (by omega), bytes]
  next full =>
    rw [if_pos (by omega), bytes, List.append_nil, show (area.len - 1).toNat = 0 by omega,
      List.take_zero]

theorem scan_inv {p k : Nat} {area : Area} (inv : s.Inv) (none : s.wakings = [])
    (isRunning : s.current = some (p, .scan k area)) : (s.go p (.scan k area)).Inv := by
  obtain ⟨notZero, elsewhere, holds⟩ := inv.running p _ isRunning
  have flagged := fun j => inv.flagged_of isRunning (k := j)
  have clear := fun j => inv.clear_of isRunning (fun _ _ _ => Routine.noConfusion) (k := j)
  have next : ∀ j, (s.itab j).pid ≠ 0 → (s.itab j).fd < 0 →
      (j = k → (s.itab j).pid ≠ p ∨ ¬ (s.itab j).fd < 0) → s.sawake (s.itab j).pid = true ∨
        (s.itab j).pid = p ∧ k + 1 ≤ j := by
    intro j pid marked passed
    refine (flagged j pid marked).imp id ?_
    rintro ⟨same, ahead⟩
    refine ⟨same, Nat.lt_of_le_of_ne ahead ?_⟩
    rintro rfl
    rcases passed rfl with other | unmarked
    · exact other same
    · exact unmarked marked
  unfold go
  dsimp only
  split
  next inside =>
    split
    next mine =>
      split
      next marked => exact inv.goTo none notZero elsewhere flagged clear ⟨mine, marked, holds⟩
      next unmarked =>
        have inactive : s.active k = false := by
          rw [← Bool.not_eq_true, inv.active]
          exact unmarked
        have same : s.setActive k false = s := by
          unfold setActive
          rw [← inactive, update_eq_self]
        have collected : s.collect k area = area := by
          unfold collect
          rw [inactive]
          rfl
        rw [same, collected]
        exact inv.goTo none notZero elsewhere
          (fun j pid marked => next j pid marked fun isK => .inr (isK ▸ unmarked)) clear holds
    next other =>
      exact inv.goTo none notZero elsewhere
        (fun j pid marked => next j pid marked fun isK => .inl (isK ▸ other)) clear holds
  next outside =>
    refine Calm.inv ⟨none, inv.active, fun j pid marked => ?_, inv.asleep, inv.nobody, inv.bound,
      fun j free => .inl (clear j free), fun _ _ isOther => ?_, fun done member => ?_⟩
    · refine (flagged j pid marked).imp id ?_
      rintro ⟨-, ahead⟩
      have above : k ≤ j := ahead
      exact absurd (inv.bound j (by omega)) pid
    · cases isOther
    · rcases List.mem_append.mp member with before | now
      · exact inv.returns done before
      · rw [List.mem_singleton] at now
        subst now
        exact Area.Holds.reported holds

theorem setFd_inv {k : Nat} {fd : Int} {active : Nat → Bool} {current : Option (Nat × Routine)}
    (inv : s.Inv) (none : s.wakings = []) (low : 0 ≤ fd)
    (isActive : ∀ j, active j = if j = k then false else s.active j)
    (flagged : ∀ j, j ≠ k → (s.itab j).pid ≠ 0 → (s.itab j).fd < 0 →
      s.sawake (s.itab j).pid = true ∨
        ∃ routine, current = some ((s.itab j).pid, routine) ∧ routine.ahead j)
    (clear : ∀ j, (s.itab j).pid = 0 → (if j = k then fd else (s.itab j).fd) = 0)
    (running : ∀ p routine, current = some (p, routine) →
      p ≠ 0 ∧ s.place p = .elsewhere ∧ (s.setFd k fd).Holds p routine) :
    ({ s.setFd k fd with active, current } : Awaiting).Inv := by
  have pids := setFd_pid s k fd
  have fds := setFd_fd s k fd
  refine Calm.inv ⟨none, fun j => ?_, fun j pid marked => ?_, fun j asleep => ?_, inv.nobody,
    fun j above => (pids j).trans (inv.bound j above), fun j free => .inl ?_, running, inv.returns⟩
  · show active j = true ↔ ((s.setFd k fd).itab j).fd < 0
    rw [isActive, fds]
    split
    · simp only [Bool.false_eq_true, false_iff]
      omega
    · exact inv.active j
  · change ((s.setFd k fd).itab j).pid ≠ 0 at pid
    change ((s.setFd k fd).itab j).fd < 0 at marked
    show s.sawake ((s.setFd k fd).itab j).pid = true ∨
      ∃ routine, current = some (((s.setFd k fd).itab j).pid, routine) ∧ _
    rw [pids] at pid ⊢
    rw [fds] at marked
    split at marked
    next => omega
    next apart => exact flagged j apart pid marked
  · change s.place ((s.setFd k fd).itab j).pid = .asleep at asleep
    show 0 ≤ ((s.setFd k fd).itab j).fd
    rw [pids] at asleep
    rw [fds]
    split
    · exact low
    · exact inv.asleep j asleep
  · change ((s.setFd k fd).itab j).pid = 0 at free
    show ((s.setFd k fd).itab j).fd = 0
    rw [pids] at free
    rw [fds]
    exact clear j free

theorem off_inv {p k : Nat} {area : Area} (inv : s.Inv) (none : s.wakings = [])
    (isRunning : s.current = some (p, .off k area)) : (s.go p (.off k area)).Inv := by
  obtain ⟨notZero, elsewhere, mine, marked, held⟩ := inv.running p _ isRunning
  have isActive : s.active k = true := (inv.active k).mpr marked
  have collected : s.collect k area =
      { area with due := area.due ++ [((s.itab k).fd.natAbs : Int) - 1] } := by
    unfold collect
    rw [isActive]
    rfl
  unfold go
  dsimp only
  rw [collected]
  refine setFd_inv inv none (by omega) (setActive_active _ k false) (fun j apart pid marked' => ?_)
    (fun j free => ?_) fun other routine isOther => ?_
  · refine (inv.flagged_of isRunning pid marked').imp id ?_
    rintro ⟨same, ahead⟩
    rw [same]
    exact ⟨_, rfl, Nat.lt_of_le_of_ne ahead fun isK => apart isK.symm⟩
  · rw [if_neg]
    · exact inv.clear_of isRunning (fun _ _ _ => Routine.noConfusion) free
    · rintro rfl
      exact notZero (mine.symm.trans free)
  · cases isOther
    refine ⟨notZero, elsewhere, _, _, rfl, ⟨held.bytes, held.bbl⟩, fun _ => ?_⟩
    rw [setFd_fd, if_pos rfl]
    omega

theorem enabling_inv {p k fd : Nat} (inv : s.Inv) (none : s.wakings = [])
    (isRunning : s.current = some (p, .enabling k fd)) : (s.go p (.enabling k fd)).Inv := by
  obtain ⟨notZero, -, mine, zero⟩ := inv.running p _ isRunning
  refine setFd_inv inv none (by omega) (fun j => ?_) (fun j _ pid marked => ?_) (fun j free => ?_)
    fun _ _ isOther => by cases isOther
  · split
    next same =>
      show s.active j = false
      rw [same, ← Bool.not_eq_true, inv.active]
      omega
    next => rfl
  · rcases inv.flagged_of isRunning pid marked with flag | ⟨-, ahead⟩
    · exact .inl flag
    · cases ahead
  · rw [if_neg]
    · exact inv.clear_of isRunning (fun _ _ _ => Routine.noConfusion) free
    · rintro rfl
      exact notZero (mine.symm.trans free)

@[simp] theorem setPid_fd (s : Awaiting) (k pid j : Nat) :
    ((s.setPid k pid).itab j).fd = (s.itab j).fd := by
  show (Function.update s.itab k _ j : Slot).fd = _
  rw [update_apply]
  split
  next same => rw [same]
  next => rfl

theorem setPid_pid (s : Awaiting) (k pid j : Nat) :
    ((s.setPid k pid).itab j).pid = if j = k then pid else (s.itab j).pid := by
  show (Function.update s.itab k _ j : Slot).pid = _
  rw [update_apply]
  split <;> rfl

section

variable (inv : s.Inv) (none : s.wakings = [])
include inv none

theorem setPid_inv {k pid p : Nat} {routine : Routine} (notZero : p ≠ 0) (elsewhere : s.place p = .elsewhere)
    (other : ∀ j, j ≠ k → (s.itab j).pid ≠ 0 → (s.itab j).fd < 0 →
      s.sawake (s.itab j).pid = true)
    (taken : pid ≠ 0 → (s.itab k).fd = 0 ∧ k < ninode * awtper)
    (clear : ∀ j, j ≠ k → (s.itab j).pid = 0 → (s.itab j).fd = 0)
    (given : pid = 0 → ∃ inode fd pos, routine = .cleared inode fd pos ∧
      inode * awtper + pos = k)
    (holds : ((s.setPid k pid).goTo p routine).Holds p routine) :
    ((s.setPid k pid).goTo p routine).Inv := by
  have pids := setPid_pid s k pid
  have fds := setPid_fd s k pid
  refine Calm.inv ⟨none, fun j => ?_, fun j isPid marked => ?_, fun j asleep => ?_, inv.nobody,
    fun j above => ?_, fun j free => ?_, fun _ _ isOther => ?_, inv.returns⟩
  · show s.active j = true ↔ ((s.setPid k pid).itab j).fd < 0
    rw [fds]
    exact inv.active j
  · change ((s.setPid k pid).itab j).pid ≠ 0 at isPid
    change ((s.setPid k pid).itab j).fd < 0 at marked
    show s.sawake ((s.setPid k pid).itab j).pid = true ∨ _
    rw [pids] at isPid ⊢
    rw [fds] at marked
    split at isPid
    next same =>
      rw [same, (taken isPid).1] at marked
      omega
    next apart =>
      rw [if_neg apart]
      exact .inl (other j apart isPid marked)
  · change s.place ((s.setPid k pid).itab j).pid = .asleep at asleep
    show 0 ≤ ((s.setPid k pid).itab j).fd
    rw [pids] at asleep
    rw [fds]
    split at asleep
    next same =>
      by_cases zero : pid = 0
      · rw [zero, inv.nobody] at asleep
        cases asleep
      · exact Int.le_of_eq (same ▸ (taken zero).1.symm)
    next => exact inv.asleep j asleep
  · show ((s.setPid k pid).itab j).pid = 0
    rw [pids]
    split
    next same =>
      by_contra notFree
      have inside := (taken notFree).2
      omega
    next => exact inv.bound j above
  · change ((s.setPid k pid).itab j).pid = 0 at free
    show ((s.setPid k pid).itab j).fd = 0 ∨ _
    rw [pids] at free
    rw [fds]
    split at free
    next same =>
      obtain ⟨inode, fd, pos, rfl, isK⟩ := given free
      exact .inr ⟨p, inode, fd, pos, rfl, isK.trans same.symm⟩
    next apart => exact .inl (clear j apart free)
  · cases isOther
    exact ⟨notZero, elsewhere, holds⟩

theorem disabling_inv {p inode fd pos : Nat} (isRunning : s.current = some (p, .disabling inode fd pos)) :
    (s.go p (.disabling inode fd pos)).Inv := by
  obtain ⟨notZero, elsewhere, -⟩ := inv.running p _ isRunning
  have flagged : ∀ j, (s.itab j).pid ≠ 0 → (s.itab j).fd < 0 →
      s.sawake (s.itab j).pid = true := by
    intro j pid marked
    rcases inv.flagged_of isRunning pid marked with flag | ⟨-, ahead⟩
    · exact flag
    · cases ahead
  have clear := fun j => inv.clear_of isRunning (fun _ _ _ => Routine.noConfusion) (k := j)
  unfold go
  dsimp only
  split
  next =>
    split
    next =>
      exact setPid_inv inv none notZero elsewhere (fun j _ => flagged j)
        (fun isZero => absurd rfl isZero) (fun j _ => clear j) (fun _ => ⟨_, _, _, rfl, rfl⟩)
        ((setPid_pid s _ 0 _).trans (if_pos rfl))
    next =>
      exact inv.goTo none notZero elsewhere (fun j pid marked => .inl (flagged j pid marked)) clear
        trivial
  next =>
    exact Calm.inv ⟨none, inv.active, fun j pid marked => .inl (flagged j pid marked), inv.asleep,
      inv.nobody, inv.bound, fun j free => .inl (clear j free),
      fun _ _ isOther => (by cases isOther), inv.returns⟩

theorem cleared_inv {p inode fd pos : Nat} (isRunning : s.current = some (p, .cleared inode fd pos)) :
    (s.go p (.cleared inode fd pos)).Inv := by
  obtain ⟨notZero, elsewhere, -⟩ := inv.running p _ isRunning
  unfold go
  dsimp only
  generalize isK : inode * awtper + pos = k
  refine setFd_inv inv none (Int.le_refl 0) (setActive_active _ k false) (fun j _ pid marked => ?_)
    (fun j free => ?_) fun _ _ isOther => ?_
  · rcases inv.flagged_of isRunning pid marked with flag | ⟨-, ahead⟩
    · exact .inl flag
    · cases ahead
  · split
    next => rfl
    next apart =>
      rcases inv.clear j free with zero | ⟨_, inode', fd', pos', isCleared, isJ⟩
      · exact zero
      · rw [isRunning] at isCleared
        cases isCleared
        exact absurd (isJ.symm.trans isK) apart
  · cases isOther
    exact ⟨notZero, elsewhere, trivial⟩

theorem awt_inv {p : Nat} {routine : Routine} (isRunning : s.current = some (p, routine)) (isAwt : (∃ bbl, routine = .entered bbl) ∨
      (∃ bbl, routine = .checked bbl) ∨ ∃ bbl, routine = .awtex bbl) : (s.go p routine).Inv := by
  obtain ⟨notZero, elsewhere, holds⟩ := inv.running p routine isRunning
  have flagged : ∀ j, (s.itab j).pid ≠ 0 → (s.itab j).fd < 0 →
      s.sawake (s.itab j).pid = true := by
    intro j pid marked
    rcases inv.flagged_of isRunning pid marked with flag | ⟨-, ahead⟩
    · exact flag
    · rcases isAwt with ⟨bbl, rfl⟩ | ⟨bbl, rfl⟩ | ⟨bbl, rfl⟩ <;> cases ahead
  have clear : ∀ j, (s.itab j).pid = 0 → (s.itab j).fd = 0 := by
    refine fun j => inv.clear_of isRunning ?_
    rcases isAwt with ⟨bbl, rfl⟩ | ⟨bbl, rfl⟩ | ⟨bbl, rfl⟩ <;>
      exact fun _ _ _ => Routine.noConfusion
  rcases isAwt with ⟨bbl, rfl⟩ | ⟨bbl, rfl⟩ | ⟨bbl, rfl⟩
  · unfold go
    dsimp only
    refine inv.goTo none notZero elsewhere
      (fun j pid marked => .inl (flagged j pid marked)) clear ?_
    split
    next => trivial
    next unflagged =>
      intro j mine
      by_contra marked
      have flag := flagged j (by rw [mine]; exact notZero) (by omega)
      rw [mine] at flag
      exact unflagged flag
  · refine Calm.inv ⟨none, inv.active, fun j pid marked => .inl (flagged j pid marked),
      fun j asleep => ?_, ?_, inv.bound, fun j free => .inl (clear j free),
      fun _ _ isOther => (by cases isOther), inv.returns⟩
    · change Function.update s.place p Place.asleep (s.itab j).pid = .asleep at asleep
      rw [update_apply] at asleep
      split at asleep
      next mine => exact holds j mine
      next => exact inv.asleep j asleep
    · show Function.update s.place p Place.asleep 0 = .elsewhere
      rw [update_of_ne notZero.symm]
      exact inv.nobody
  · refine Calm.inv ⟨none, inv.active, fun j pid marked => ?_, inv.asleep, inv.nobody, inv.bound,
      fun j free => .inl (clear j free), fun _ _ isOther => ?_, inv.returns⟩
    · show Function.update s.sawake p false (s.itab j).pid = true ∨
        ∃ routine, some (p, Routine.scan 0 _) = some ((s.itab j).pid, routine) ∧ _
      by_cases mine : (s.itab j).pid = p
      · rw [mine]
        exact .inr ⟨_, rfl, Nat.zero_le j⟩
      · rw [update_of_ne mine]
        exact .inl (flagged j pid marked)
    · cases isOther
      exact ⟨notZero, elsewhere, by simp, by simp⟩

theorem go_inv {p : Nat} {routine : Routine} (isRunning : s.current = some (p, routine)) : (s.go p routine).Inv := by
  cases routine with
  | entered bbl => exact awt_inv inv none isRunning (.inl ⟨bbl, rfl⟩)
  | checked bbl => exact awt_inv inv none isRunning (.inr (.inl ⟨bbl, rfl⟩))
  | awtex bbl => exact awt_inv inv none isRunning (.inr (.inr ⟨bbl, rfl⟩))
  | scan k area => exact scan_inv inv none isRunning
  | off k area => exact off_inv inv none isRunning
  | told k area =>
    obtain ⟨notZero, elsewhere, due, fd, isDue, held, same⟩ := inv.running p _ isRunning
    exact inv.goTo none notZero elsewhere (fun j pid marked => inv.flagged_of isRunning pid marked)
      (fun j => inv.clear_of isRunning fun _ _ _ => Routine.noConfusion)
      (report_holds isDue held same)
  | enabling k fd => exact enabling_inv inv none isRunning
  | disabling inode fd pos => exact disabling_inv inv none isRunning
  | cleared inode fd pos => exact cleared_inv inv none isRunning

end

/-! ### Every run -/

theorem free_spec {p : Nat} (isFree : s.free p = true) :
    s.wakings = [] ∧ s.current = none ∧ s.place p = .elsewhere ∧ p ≠ 0 := by
  simp only [free, Bool.and_eq_true, List.isEmpty_iff, Option.isNone_iff_eq_none,
    decide_eq_true_eq] at isFree
  exact ⟨isFree.1.1.1.1, isFree.1.1.1.2, isFree.1.1.2, by omega⟩

theorem Inv.flagged_idle (inv : s.Inv) (idle : s.current = none) (j : Nat)
    (pid : (s.itab j).pid ≠ 0) (marked : (s.itab j).fd < 0) :
    s.sawake (s.itab j).pid = true := by
  rcases inv.flagged j pid marked with flag | ⟨_, isRunning, -⟩
  · exact flag
  · rw [idle] at isRunning
    cases isRunning

theorem Inv.clear_idle (inv : s.Inv) (idle : s.current = none) (j : Nat)
    (free : (s.itab j).pid = 0) : (s.itab j).fd = 0 := by
  rcases inv.clear j free with zero | ⟨_, _, _, _, isRunning, -⟩
  · exact zero
  · rw [idle] at isRunning
    cases isRunning

theorem Inv.calls {p : Nat} {routine : Routine} (inv : s.Inv) (isFree : s.free p = true)
    (holds : s.Holds p routine) : (s.goTo p routine).Inv := by
  obtain ⟨none, idle, elsewhere, notZero⟩ := free_spec isFree
  exact inv.goTo none notZero elsewhere
    (fun j pid marked => .inl (inv.flagged_idle idle j pid marked)) (inv.clear_idle idle) holds

theorem enablei_inv {p inode fd : Nat} (inv : s.Inv) (isFree : s.free p = true)
    (inside : inode < ninode) : (s.enablei p inode fd).Inv := by
  obtain ⟨none, idle, elsewhere, notZero⟩ := free_spec isFree
  unfold enablei
  split
  next => exact inv
  next =>
    split
    next k found =>
      have isFreeSlot : (s.itab k).pid = 0 := by
        have := List.find?_some found
        simpa using this
      have member : k ∈ slots inode := by
        have := List.mem_of_find?_eq_some found
        simpa using this
      obtain ⟨pos, small, rfl⟩ := mem_slots.mp member
      have zero := inv.clear_idle idle _ isFreeSlot
      refine setPid_inv inv none notZero elsewhere
        (fun j _ pid marked => inv.flagged_idle idle j pid marked) (fun _ => ⟨zero, ?_⟩)
        (fun j _ => inv.clear_idle idle j) (fun isZero => absurd isZero notZero) ⟨?_, ?_⟩
      · unfold ninode awtper at *
        omega
      · exact (setPid_pid s _ p _).trans (if_pos rfl)
      · exact (setPid_fd s _ p _).trans zero
    next => exact inv

theorem Inv.wakes (inv : s.Inv) {inode p : Nat} (disturbed : s.Undisturbed inode)
    (apart : ∀ waking ∈ s.wakings, waking.stage = .load → waking.inode ≠ inode) :
    Inv { s with wakings := ⟨inode, p, 0, .look⟩ :: s.wakings } := by
  refine (Still.refl s _).inv inv ?_ ?_ ?_
  · intro waking member
    rcases List.mem_cons.mp member with rfl | member
    · exact ⟨Nat.zero_lt_two, trivial⟩
    · obtain ⟨inside, knows⟩ := inv.wakings waking member
      exact ⟨inside, (Still.refl s _).knows knows⟩
  · exact List.pairwise_cons.mpr
      ⟨fun waking member isLoad same => apart waking member isLoad same.symm, inv.apart⟩
  · exact List.forall_mem_cons.mpr ⟨disturbed, inv.undisturbed⟩

theorem Inv.leaves {p : Nat} (inv : s.Inv) (none : s.wakings = []) (idle : s.current = .none) :
    Inv { s with place := Function.update s.place p .elsewhere } := by
  have notAsleep : ∀ q, Function.update s.place p .elsewhere q = Place.asleep →
      s.place q = .asleep := by
    intro q asleep
    rw [update_apply] at asleep
    split at asleep
    · cases asleep
    · exact asleep
  refine Calm.inv ⟨none, inv.active, inv.flagged, fun k asleep => inv.asleep k (notAsleep _ asleep),
    ?_, inv.bound, inv.clear, fun q routine isRunning => ?_, inv.returns⟩
  · show Function.update s.place p Place.elsewhere 0 = .elsewhere
    rw [update_apply]
    split
    · rfl
    · exact inv.nobody
  · have impossible : s.current = some (q, routine) := isRunning
    rw [idle] at impossible
    cases impossible

theorem act_inv {event : AwtEvent} (inv : s.Inv) (allowed : s.proper event)
    (taken : s.act event = some next) : next.Inv := by
  cases event with
  | interrupt inode =>
    unfold act at taken
    dsimp only at taken
    split at taken
    next =>
      cases taken
      exact inv.wakes allowed.1 allowed.2
    next => cases taken
  | call p inode pf =>
    unfold act at taken
    dsimp only at taken
    split at taken
    next can =>
      cases taken
      rw [Bool.and_eq_true] at can
      obtain ⟨none, idle, -⟩ := free_spec can.1
      have wakes := @Inv.wakes s inv inode (if pf then p else 0)
        (by unfold Undisturbed; rw [idle]; trivial)
        (by rw [none]; exact fun _ member => by cases member)
      rw [none] at wakes
      exact wakes
    next => cases taken
  | step =>
    unfold act at taken
    dsimp only at taken
    split at taken
    next waking rest top =>
      cases taken
      exact awake_inv inv top
    next none =>
      obtain ⟨⟨p, routine⟩, isRunning, rfl⟩ := Option.map_eq_some_iff.mp taken
      exact go_inv inv none isRunning
  | awt p tim bbl =>
    unfold act at taken
    dsimp only at taken
    split at taken
    next isFree =>
      cases taken
      refine inv.calls isFree ?_
      split <;> trivial
    next => cases taken
  | awtenb p inode fd =>
    unfold act at taken
    dsimp only at taken
    split at taken
    next can =>
      cases taken
      simp only [Bool.and_eq_true, decide_eq_true_eq] at can
      exact enablei_inv inv can.1.1 can.1.2
    next => cases taken
  | awtdis p inode fd =>
    unfold act at taken
    dsimp only at taken
    split at taken
    next can =>
      cases taken
      simp only [Bool.and_eq_true, decide_eq_true_eq] at can
      exact inv.calls can.1.1 trivial
    next => cases taken
  | resume p =>
    unfold act at taken
    dsimp only at taken
    split at taken
    next can =>
      cases taken
      simp only [Bool.and_eq_true, List.isEmpty_iff, Option.isNone_iff_eq_none,
        decide_eq_true_eq] at can
      obtain ⟨⟨none, idle⟩, woken⟩ := can
      have notZero : p ≠ 0 := by
        rintro rfl
        rw [inv.nobody] at woken
        cases woken
      exact (inv.leaves none idle).goTo none notZero (update_self _ _ _)
        (fun j pid marked => .inl (inv.flagged_idle idle j pid marked)) (inv.clear_idle idle)
        trivial
    next => cases taken
  | psig p =>
    unfold act at taken
    dsimp only at taken
    split at taken
    next can =>
      cases taken
      simp only [Bool.and_eq_true, List.isEmpty_iff, Option.isNone_iff_eq_none,
        decide_eq_true_eq] at can
      exact inv.leaves can.1.1 can.1.2
    next => cases taken
  | awtto p =>
    cases taken
    have still := (setFlag_still s p s.wakings).trans (wakeup_still (s.setFlag p true) p)
    have wakings : ((s.setFlag p true).wakeup p).wakings = s.wakings := by
      unfold wakeup
      split <;> rfl
    refine still.inv inv ?_ ?_ ?_ <;> rw [wakings]
    · intro waking member
      obtain ⟨inside, knows⟩ := inv.wakings waking member
      exact ⟨inside, still.knows knows⟩
    · exact inv.apart
    · exact inv.undisturbed

/-! ### Activity stays until it is reported -/

variable {p k : Nat}

theorem kept_same (itab : next.itab k = s.itab k) (active : next.active k = s.active k)
    (isActive : s.active k = true) (mine : (s.itab k).pid = p) : s.Kept next p k :=
  .inl ⟨active.trans isActive, by rw [itab]; exact mine, by rw [itab]⟩

theorem awake_kept (inv : s.Inv) (top : s.wakings = waking :: rest) (isActive : s.active k = true)
    (mine : (s.itab k).pid = p) : s.Kept (s.awake waking rest) p k := by
  cases stage : waking.stage with
  | store fd =>
    obtain ⟨marked, -⟩ := store_marked (s := s) stage
    refine .inl ⟨?_, (marked.pid k).trans mine, ?_⟩
    · rw [marked.active, isActive]
      split
      next same =>
        rw [← same, isActive]
        rfl
      next => rfl
    · rw [marked.fd]
      split
      next same =>
        have found := inv.wakings
        rw [top] at found
        obtain ⟨-, knows⟩ := found waking List.mem_cons_self
        rw [stage] at knows
        obtain ⟨-, -, either⟩ := knows
        rw [same]
        omega
      next => rfl
  | look | flag | load =>
    unfold awake
    rw [stage]
    dsimp only
    try split
    all_goals exact kept_same rfl rfl isActive mine
  | wake pp =>
    have still := wakeup_still s pp
    unfold awake
    rw [stage]
    exact kept_same (congrFun still.itab k) (congrFun still.active k) isActive mine
  | test =>
    unfold awake
    rw [stage]
    dsimp only
    split
    · exact kept_same rfl rfl isActive mine
    · refine kept_same rfl ?_ isActive mine
      show (s.setActive _ true).active k = _
      rw [setActive_active, isActive]
      split <;> rfl

theorem go_kept {running : Nat} {routine : Routine} (inv : s.Inv)
    (isRunning : s.current = some (running, routine)) (isActive : s.active k = true)
    (mine : (s.itab k).pid = p) (notZero : p ≠ 0) : s.Kept (s.go running routine) p k := by
  have marked := (inv.active k).mp isActive
  obtain ⟨-, -, holds⟩ := inv.running running routine isRunning
  cases routine with
  | entered | checked | awtex | told => exact kept_same rfl rfl isActive mine
  | scan j area =>
    unfold go
    dsimp only
    split_ifs with inside isMine negative
    · exact kept_same rfl rfl isActive mine
    · refine kept_same rfl ?_ isActive mine
      show (s.setActive j false).active k = _
      rw [setActive_active, if_neg]
      rintro rfl
      exact negative marked
    · exact kept_same rfl rfl isActive mine
    · exact kept_same rfl rfl isActive mine
  | off j area =>
    obtain ⟨isMine, -, -⟩ := holds
    unfold go
    dsimp only
    by_cases same : k = j
    · subst same
      refine .inr (.inr ⟨s.collect k area, ?_, ?_⟩)
      · show some (running, _) = some (p, _)
        rw [← isMine, mine]
      · unfold collect
        rw [if_pos isActive, List.getLast?_concat]
    · refine kept_same ?_ ?_ isActive mine
      · exact update_of_ne same _ _
      · exact update_of_ne same _ _
  | enabling j fd =>
    obtain ⟨-, zero⟩ := holds
    refine kept_same (update_of_ne ?_ _ _) rfl isActive mine
    rintro rfl
    omega
  | disabling inode fd pos =>
    unfold go
    dsimp only
    split_ifs with inside isHeld
    · by_cases same : k = inode * awtper + pos
      · subst same
        have isRunningP : running = p := by
          simp only [Slot.holds, Bool.and_eq_true, decide_eq_true_eq] at isHeld
          exact isHeld.1.symm.trans mine
        subst isRunningP
        exact .inr (.inl ⟨inode, fd, pos, isRunning, rfl, isHeld⟩)
      · exact kept_same (update_of_ne same _ _) rfl isActive mine
    · exact kept_same rfl rfl isActive mine
    · exact kept_same rfl rfl isActive mine
  | cleared inode fd pos =>
    have apart : k ≠ inode * awtper + pos := by
      rintro rfl
      exact notZero (mine.symm.trans holds)
    exact kept_same (update_of_ne apart _ _) (update_of_ne apart _ _)
      isActive mine

/-- In every run in which no interrupt comes at one of the three moments: no process sleeps in
`awt` that has an enabled descriptor with activity; what `awt` puts into the result area are the
descriptors with activity, in the order of the table, as far as there is room, and the mark of the
end; and the activity of a slot stays until the process disables the descriptor, or `awt` turns it
into one descriptor of what there is to report. -/
theorem await_faithful {events : List AwtEvent}
    (run : Transition.Run (Transition.Guarded (Transition.Takes act) proper) start events s) :
    s.Faithful ∧ ∀ event next p k, s.act event = some next → s.active k = true →
      (s.itab k).pid = p → p ≠ 0 → s.Kept next p k := by
  have inv : s.Inv := by
    refine run.always Inv start_inv ?_
    intro before event after inv taken
    exact act_inv inv taken.1 taken.2
  refine ⟨inv.faithful, fun event next p k taken isActive mine notZero => ?_⟩
  cases event with
  | step =>
    unfold act at taken
    dsimp only at taken
    split at taken
    next waking rest top =>
      cases taken
      exact awake_kept inv top isActive mine
    next =>
      obtain ⟨⟨running, routine⟩, isRunning, rfl⟩ := Option.map_eq_some_iff.mp taken
      exact go_kept inv isRunning isActive mine notZero
  | awtenb q inode fd =>
    unfold act at taken
    dsimp only at taken
    split at taken
    next =>
      cases taken
      unfold enablei
      split
      · exact kept_same rfl rfl isActive mine
      · split
        next j found =>
          have isFreeSlot : (s.itab j).pid = 0 := by
            have := List.find?_some found
            simpa using this
          refine kept_same (update_of_ne ?_ _ _) rfl isActive mine
          rintro rfl
          exact notZero (mine.symm.trans isFreeSlot)
        next => exact kept_same rfl rfl isActive mine
    next => cases taken
  | awtto q =>
    cases taken
    have still := (setFlag_still s q s.wakings).trans (wakeup_still (s.setFlag q true) q)
    exact kept_same (congrFun still.itab k) (congrFun still.active k) isActive mine
  | _ =>
    unfold act at taken
    dsimp only at taken
    split at taken
    · cases taken
      exact kept_same rfl rfl isActive mine
    · cases taken

/-- A process enables a descriptor, is awakened by an interrupt while it sleeps, and is told. -/
theorem sleeper_faithful :
    let s := Transition.last act start ([AwtEvent.awtenb 1 3 5, .step, .awt 1 10 4, .step, .step,
      .interrupt 3] ++ List.replicate 7 AwtEvent.step ++ [AwtEvent.resume 1] ++
      List.replicate 264 AwtEvent.step)
    s.Faithful ∧ ∀ event next p k, s.act event = some next → s.active k = true →
      (s.itab k).pid = p → p ≠ 0 → s.Kept next p k :=
  await_faithful (Transition.run_can (by decide +kernel))

/-- An interrupt between the test of the flag and the sleep leaves a process asleep whose
descriptor has activity; one between the test and the negation of another `awake` leaves no mark,
and the descriptor is not reported; and one between the turning off of a mark and the report makes
a descriptor that does not exist. -/
theorem activity_lost :
    (∃ events s, Transition.Run (Transition.Takes act) start events s ∧
      s.place 1 = .asleep ∧ (s.itab 7).pid = 1 ∧ s.active 7 = true) ∧
    (∃ events s, Transition.Run (Transition.Takes act) start events s ∧
      ⟨1, 4, [-1], [5]⟩ ∈ s.returns) ∧
    ∃ events s, Transition.Run (Transition.Takes act) start events s ∧
      ⟨1, 4, [-7, -1], [5]⟩ ∈ s.returns := by
  refine ⟨⟨[AwtEvent.awtenb 1 3 5, .step, .awt 1 10 4, .step, .interrupt 3] ++
        List.replicate 8 AwtEvent.step, _,
      Transition.run_all (by decide +kernel), by decide +kernel⟩,
    ⟨[AwtEvent.awtenb 1 3 5, .step, .call 2 3 true] ++ List.replicate 5 AwtEvent.step ++
        [AwtEvent.interrupt 3] ++ List.replicate 9 AwtEvent.step ++
        [AwtEvent.awt 1 10 4] ++ List.replicate 263 AwtEvent.step, _,
      Transition.run_all (by decide +kernel), by decide +kernel⟩,
    ⟨[AwtEvent.awtenb 1 3 5, .step, .call 2 3 true] ++ List.replicate 7 AwtEvent.step ++
        [AwtEvent.awt 1 10 4] ++ List.replicate 11 AwtEvent.step ++
        [AwtEvent.interrupt 3] ++ List.replicate 261 AwtEvent.step, _,
      Transition.run_all (by decide +kernel), by decide +kernel⟩⟩

end Awaiting

end NetworkUnix.Ken
