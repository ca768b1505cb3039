/-
This file proves what holds of the pool of network buffers in every run. Any number
of owners get buffers, write into them, free them, put space at the end of their
messages, make two messages one, and take bytes out of them; a kernel buffer may
be got ahead of need. An owner that would have to sleep tries again later.

No routine follows a null pointer or goes round for ever, so the search of the free
list for the buffers of a kernel buffer ends every time. The free list is one ring,
the three counts agree, and every buffer of a kernel buffer in the table is free or
in one message.
-/

import NetworkUnix.Ncpk.Messages
import Mathlib.Algebra.BigOperators.Group.Finset.Basic
import Mathlib.Algebra.BigOperators.Group.Finset.Piecewise
import Mathlib.Data.List.Iterate

namespace NetworkUnix.Ncpk.Kerbuf

open TailRing

/-! ### Runs -/

/-- What the owners do. Messages are given by their handles. -/
inductive Call (netBSize : Nat)
  | getbuf (getblk : Getblk)
  | freebuf (msg : Option Nat)
  | freemsg (msg : Option Nat)
  | appendb (getblk : Getblk) (msg : Option Nat)
  | catmsg (msg1 msg2 : Option Nat)
  | bytesout (msg : Option Nat) (count : Nat)
  | getkb (getblk : Getblk)
  | write (msg : Option Nat) (bLen : Nat → Fin (netBSize + 1)) (bData : Nat → Nat → BitVec 8)

/-- The pool and the handles of all messages. -/
abbrev State := Kernel × List (Option Nat)

/-- The buffers that the links of a message lead to. -/
def reached (k : Kernel) (msg : Option Nat) : List Nat :=
  (msg.map fun p => List.iterate k.bQlink (k.bQlink p) mostBufs).getD []

section Calls

variable (netBSize bHyster : Nat)

/-- A call with its result among the handles. An owner whose message is gone has none. -/
def call (state : State) : Call netBSize → Except Stop State
  | .getbuf getblk => (getbuf getblk state.1).map fun got => (got.1, some got.2 :: state.2)
  | .freebuf msg =>
    (freebuf bHyster msg state.1).map fun left => (left.1, left.2 :: state.2.erase msg)
  | .freemsg msg => (freemsg bHyster msg state.1).map fun k => (k, none :: state.2.erase msg)
  | .appendb getblk msg =>
    (appendb netBSize getblk msg state.1).map fun got => (got.1, some got.2 :: state.2.erase msg)
  | .catmsg msg1 msg2 => (catmsg netBSize bHyster msg1 msg2 state.1).map fun joined =>
    (joined.1, joined.2 :: none :: (state.2.erase msg1).erase msg2)
  | .bytesout msg count => (bytesout bHyster msg count state.1).map fun left =>
    (left.1, left.2.1 :: state.2.erase msg)
  | .getkb getblk => (getkb getblk state.1).map fun k => (k, state.2)
  | .write msg bLen bData =>
    let own := reached state.1 msg
    .ok ({ state.1 with
      bLen := fun buf => if buf ∈ own then bLen buf else state.1.bLen buf
      bData := fun buf => if buf ∈ own then bData buf else state.1.bData buf }, state.2)

/-- The messages of a call are held by its caller. -/
def Call.owns (handles : List (Option Nat)) : Call netBSize → Bool
  | .freebuf msg | .freemsg msg | .appendb _ msg | .bytesout msg _ | .write msg _ _ =>
    handles.contains msg
  | .catmsg msg1 msg2 => handles.contains msg1 && (handles.erase msg1).contains msg2
  | .getbuf _ | .getkb _ => true

/-- One step of a run: nothing is done by an owner that has to sleep, nor with a message that is not
held. -/
def step (state : State) (event : Call netBSize) : Except Stop State :=
  if event.owns netBSize state.2 then
    match call netBSize bHyster state event with
    | .error .asleep => .ok state
    | result => result
  else .ok state

def run (state : State) (events : List (Call netBSize)) : Except Stop State :=
  events.foldlM (step netBSize bHyster) state

end Calls

/-- No kernel buffer is taken. -/
def start (k : Kernel) : Kernel :=
  { k with kb := fun _ => none, bAlloc := 0, bCntfree := 0, bFreel := none }

/-! ### One call -/

/-- The lengths in a message are right, and no buffer of it is marked. -/
structure Plain (netBSize : Nat) (k : Kernel) (nodes : List Nat) : Prop where
  fits : Fits netBSize k nodes
  clean : ∀ buf ∈ nodes, k.bEom buf = false

/-- The pool is as it should be, and its messages are those of the handles and `rest`. -/
def Inv (netBSize : Nat) (rest : List Msg) (state : State) : Prop :=
  ∃ free msgs, Ok state.1 free (msgs ++ rest) ∧ (msgs.map Prod.fst).Perm state.2 ∧
    ∀ msg ∈ msgs, Plain netBSize state.1 msg.2

variable {netBSize : Nat} {k next : Kernel} {free nodes : List Nat} {msgs rest : List Msg}
  {h : Option Nat} {handles : List (Option Nat)}

theorem plain_nil (netBSize : Nat) (k : Kernel) : Plain netBSize k [] :=
  ⟨fun _ inside => absurd inside List.not_mem_nil, fun _ inside => absurd inside List.not_mem_nil⟩

theorem held_append (msgs rest : List Msg) : held (msgs ++ rest) = held msgs ++ held rest := by
  rw [held, List.map_append, List.flatten_append]
  rfl

theorem Plain.kept {keep : List Nat} (plain : Plain netBSize k nodes) (kept : Kept k next keep)
    (within : ∀ buf ∈ nodes, buf ∈ keep) : Plain netBSize next nodes where
  fits := kept.fits within plain.fits
  clean buf inside := (kept.bEom buf (within buf inside)).trans (plain.clean buf inside)

theorem Plain.marksOf {later : List Nat} (plain : Plain netBSize k nodes)
    (fits : Fits netBSize next later) (marks : MarksOf k nodes next later) :
    Plain netBSize next later where
  fits := fits
  clean buf inside := by
    cases marked : next.bEom buf with
    | false => rfl
    | true =>
      obtain ⟨inside, marked⟩ := marks buf inside marked
      exact absurd ((plain.clean buf inside).symm.trans marked) Bool.false_ne_true

theorem plain_kept (kept : Kept k next (held (msgs ++ rest)))
    (plain : ∀ msg ∈ msgs, Plain netBSize k msg.2) : ∀ msg ∈ msgs, Plain netBSize next msg.2 :=
  fun msg member => (plain msg member).kept kept fun _ inside =>
    mem_held.mpr ⟨msg, List.mem_append_left _ member, inside⟩

theorem Kept.ofRest (kept : Kept k next (held (msgs ++ rest))) : Kept k next (held rest) :=
  kept.mono fun buf inside => by
    rw [held_append]
    exact List.mem_append_right _ inside

theorem start_ok (k : Kernel) : Ok (start k) [] [] where
  freeRing := shape_empty _
  msgRing _ member := absurd member List.not_mem_nil
  all := List.Perm.refl _
  nodup := List.nodup_nil
  size _ b there := absurd there (Option.some_ne_none b).symm
  member _ b there := absurd there (Option.some_ne_none b).symm
  freect _ b there := absurd there (Option.some_ne_none b).symm
  alloc := rfl
  cntfree := rfl
  clean _ inside := absurd inside List.not_mem_nil

theorem start_all (k : Kernel) (owners : Nat) :
    Ok (start k) [] (List.replicate owners (none, [])) := by
  induction owners with
  | zero => exact start_ok k
  | succ owners inductionHypothesis => exact inductionHypothesis.cons_nil

theorem start_inv (k : Kernel) (owners : Nat) :
    Inv netBSize [] (start k, List.replicate owners none) := by
  refine ⟨[], List.replicate owners (none, []), ?_, ?_, fun msg member => ?_⟩
  · rw [List.append_nil]
    exact start_all k owners
  · rw [List.map_replicate]
  · rw [(List.mem_replicate.mp member).2]
    exact plain_nil _ _

theorem Inv.front (inv : Inv netBSize rest (k, handles)) (inside : h ∈ handles) :
    ∃ free nodes msgs, Ok k free ((h, nodes) :: (msgs ++ rest)) ∧
      (msgs.map Prod.fst).Perm (handles.erase h) ∧
      Plain netBSize k nodes ∧ ∀ msg ∈ msgs, Plain netBSize k msg.2 := by
  obtain ⟨free, msgs, ok, same, plain⟩ := inv
  obtain ⟨msg, member, isHandle⟩ := List.mem_map.mp (same.mem_iff.mpr inside)
  subst isHandle
  obtain ⟨front, back, rfl⟩ := List.append_of_mem member
  have moved : (msg :: (front ++ back)).Perm (front ++ msg :: back) := List.perm_middle.symm
  refine ⟨free, msg.2, front ++ back, ok.perm (moved.append_right rest), ?_, plain _ member,
    fun other inRest => plain other (moved.mem_iff.mp (List.mem_cons_of_mem _ inRest))⟩
  have tail := ((moved.map Prod.fst).trans same).erase msg.1
  rwa [List.map_cons, List.erase_cons_head] at tail

theorem Ok.inv (ok : Ok k free ((h, nodes) :: (msgs ++ rest)))
    (same : (msgs.map Prod.fst).Perm handles) (plain : Plain netBSize k nodes)
    (others : ∀ msg ∈ msgs, Plain netBSize k msg.2) : Inv netBSize rest (k, h :: handles) := by
  refine ⟨free, (h, nodes) :: msgs, ok, same.cons h, fun msg member => ?_⟩
  rcases List.mem_cons.mp member with rfl | member
  · exact plain
  · exact others msg member

theorem Ok.reached (ok : Ok k free ((h, nodes) :: msgs)) {buf : Nat}
    (inside : buf ∈ Kerbuf.reached k h) : buf ∈ nodes := by
  have ring := ok.msgRing _ List.mem_cons_self
  cases h with
  | none => exact absurd inside List.not_mem_nil
  | some p =>
    obtain ⟨trips, -, rfl⟩ := List.mem_iterate.mp inside
    clear inside
    induction trips with
    | zero => exact ring.next_mem ring.last_mem
    | succ trips inductionHypothesis =>
      rw [Function.iterate_succ_apply']
      exact ring.next_mem inductionHypothesis

/-- What a call leaves: the invariant and the messages of others, unless it has to sleep. -/
def Leaves (netBSize : Nat) (rest : List Msg) (k : Kernel) (result : Except Stop State) : Prop :=
  result = .error .asleep ∨
    ∃ state, result = .ok state ∧ Inv netBSize rest state ∧ Kept k state.1 (held rest)

section

variable (inv : Inv netBSize rest (k, handles))
include inv

theorem Inv.getbuf (getblk : Getblk) :
    Leaves netBSize rest k
      ((Kerbuf.getbuf getblk k).map fun got => (got.1, some got.2 :: handles)) := by
  obtain ⟨free, msgs, ok, same, plain⟩ := inv
  rcases ok.getbuf getblk with ⟨asleep, -⟩ | ⟨next, left, buf, got, okNext, empty, clean, kept, -⟩
  · rw [asleep]
    exact .inl rfl
  · rw [got]
    refine .inr ⟨_, rfl, okNext.inv same ⟨fun other inside => ?_, fun other inside => ?_⟩
      (plain_kept kept plain), kept.ofRest⟩
    · rw [List.mem_singleton.mp inside, empty]
      exact Nat.zero_le _
    · rwa [List.mem_singleton.mp inside]

theorem Inv.freebuf (bHyster : Nat) (inside : h ∈ handles) :
    Leaves netBSize rest k ((Kerbuf.freebuf bHyster h k).map fun left =>
      (left.1, left.2 :: handles.erase h)) := by
  obtain ⟨free, nodes, msgs, ok, same, plain, others⟩ := inv.front inside
  cases nodes with
  | nil =>
    obtain rfl : h = none := (ok.msgRing _ List.mem_cons_self).none_iff.mpr rfl
    exact .inr ⟨_, rfl, ok.inv same plain others, Kept.refl k _⟩
  | cons first after =>
    obtain ⟨next, left, freed, okNext, kept, -⟩ := ok.freebuf bHyster
    have keptOthers := kept.mono fun _ here => List.mem_append_right _ here
    have plainAfter : Plain netBSize k after :=
      ⟨(List.forall_mem_cons.mp plain.fits).2,
        (List.forall_mem_cons.mp plain.clean).2⟩
    rw [freed]
    exact .inr ⟨_, rfl, okNext.inv same
      (plainAfter.kept kept fun _ here => List.mem_append_left _ here)
      (plain_kept keptOthers others), keptOthers.ofRest⟩

theorem Inv.freemsg (bHyster : Nat) (inside : h ∈ handles) :
    Leaves netBSize rest k
      ((Kerbuf.freemsg bHyster h k).map fun k => (k, none :: handles.erase h)) := by
  obtain ⟨free, nodes, msgs, ok, same, plain, others⟩ := inv.front inside
  obtain ⟨next, left, freed, okNext, kept⟩ := ok.freemsg bHyster
  rw [freed]
  exact .inr ⟨_, rfl, okNext.cons_nil.inv same (plain_nil _ _) (plain_kept kept others), kept.ofRest⟩

theorem Inv.appendb (size : 0 < netBSize) (getblk : Getblk)
    (inside : h ∈ handles) :
    Leaves netBSize rest k ((Kerbuf.appendb netBSize getblk h k).map fun got =>
      (got.1, some got.2 :: handles.erase h)) := by
  obtain ⟨free, nodes, msgs, ok, same, plain, others⟩ := inv.front inside
  rcases ok.appendb size getblk plain.fits with ⟨asleep, -⟩ |
    ⟨next, left, p, later, got, okNext, -, fits, marks, -, kept, -⟩
  · rw [asleep]
    exact .inl rfl
  · rw [got]
    exact .inr ⟨_, rfl, okNext.inv same (plain.marksOf fits marks) (plain_kept kept others),
      kept.ofRest⟩

theorem Inv.catmsg (bHyster : Nat) {h' : Option Nat}
    (inside : h ∈ handles) (inside' : h' ∈ handles.erase h) :
    Leaves netBSize rest k ((Kerbuf.catmsg netBSize bHyster h h' k).map fun joined =>
      (joined.1, joined.2 :: none :: (handles.erase h).erase h')) := by
  obtain ⟨free, nodes, msgs, ok, same, plain, others⟩ := inv.front inside
  obtain ⟨msg, member, isHandle⟩ := List.mem_map.mp (same.mem_iff.mpr inside')
  subst isHandle
  obtain ⟨ahead, behind, rfl⟩ := List.append_of_mem member
  have moved : (msg :: (ahead ++ behind)).Perm (ahead ++ msg :: behind) := List.perm_middle.symm
  have tail := ((moved.map Prod.fst).trans same).erase msg.1
  rw [List.map_cons, List.erase_cons_head] at tail
  obtain ⟨next, left, last, later, joined, okNext, -, fits, marks, kept, -⟩ :=
    (ok.perm ((moved.append_right rest).cons _)).catmsg bHyster plain.fits (others _ member).fits
  have both : Plain netBSize k (nodes ++ msg.2) := by
    refine ⟨fun buf here => ?_, fun buf here => ?_⟩
    · exact (List.mem_append.mp here).elim (plain.fits buf) ((others _ member).fits buf)
    · exact (List.mem_append.mp here).elim (plain.clean buf) ((others _ member).clean buf)
  have okNone : Ok next left ((last, later) :: (((none, []) :: (ahead ++ behind)) ++ rest)) :=
    okNext.cons_nil.perm (List.Perm.swap _ _ _)
  have unchanged : ∀ other ∈ ahead ++ behind, Plain netBSize next other.2 :=
    plain_kept kept fun other inRest =>
      others other (moved.mem_iff.mp (List.mem_cons_of_mem _ inRest))
  rw [joined]
  refine .inr ⟨_, rfl, okNone.inv (tail.cons none)
    (both.marksOf fits marks) fun other inRest => ?_, kept.ofRest⟩
  rcases List.mem_cons.mp inRest with rfl | inRest
  · exact plain_nil _ _
  · exact unchanged other inRest

theorem Inv.bytesout (bHyster count : Nat)
    (inside : h ∈ handles) :
    Leaves netBSize rest k ((Kerbuf.bytesout bHyster h count k).map fun left =>
      (left.1, left.2.1 :: handles.erase h)) := by
  obtain ⟨free, nodes, msgs, ok, same, plain, others⟩ := inv.front inside
  obtain ⟨next, left, later, taken, okNext, -, fits, marks, kept, -⟩ :=
    ok.bytesout bHyster count plain.fits
  rw [taken]
  exact .inr ⟨_, rfl, okNext.inv same (plain.marksOf fits marks) (plain_kept kept others),
    kept.ofRest⟩

theorem Inv.getkb (getblk : Getblk) :
    Leaves netBSize rest k ((Kerbuf.getkb getblk k).map fun k => (k, handles)) := by
  by_cases few : k.bAlloc < kbHiwat
  · obtain ⟨free, msgs, ok, same, plain⟩ := inv
    obtain ⟨next, got, okNext, kept⟩ := ok.getkb getblk few
    rw [got]
    exact .inr ⟨_, rfl, ⟨_, msgs, okNext, same, plain_kept kept plain⟩, kept.ofRest⟩
  · rw [Kerbuf.getkb, if_pos (Nat.le_of_not_lt few)]
    exact .inr ⟨_, rfl, inv, Kept.refl k _⟩

theorem Inv.write (bLen : Nat → Fin (netBSize + 1))
    (bData : Nat → Nat → BitVec 8) (inside : h ∈ handles) :
    Leaves netBSize rest k (.ok ({ k with
      bLen := fun buf => if buf ∈ reached k h then bLen buf else k.bLen buf
      bData := fun buf => if buf ∈ reached k h then bData buf else k.bData buf }, handles)) := by
  obtain ⟨free, nodes, msgs, ok, same, plain, others⟩ := inv.front inside
  have apart (buf : Nat) (here : buf ∈ held rest) : buf ∉ reached k h := fun own => by
    refine ok.apart_head ?_ (ok.reached own)
    rw [held_append]
    exact List.mem_append_right _ here
  refine .inr ⟨_, rfl, ⟨free, (h, nodes) :: msgs, ok.fields _ _ _ ok.clean,
    (same.cons h).trans (List.perm_cons_erase inside).symm, fun msg member => ⟨?_, ?_⟩⟩,
    fun buf here => if_neg (apart buf here), fun _ _ => rfl,
    fun buf here => if_neg (apart buf here)⟩
  · intro buf here
    dsimp only
    split
    · exact Nat.le_of_lt_succ (bLen buf).isLt
    · rcases List.mem_cons.mp member with rfl | member
      · exact plain.fits buf here
      · exact (others msg member).fits buf here
  · intro buf here
    rcases List.mem_cons.mp member with rfl | member
    · exact plain.clean buf here
    · exact (others msg member).clean buf here

end

theorem Inv.step {state : State} (inv : Inv netBSize rest state) (size : 0 < netBSize)
    (bHyster : Nat) (event : Call netBSize) :
    ∃ later, Kerbuf.step netBSize bHyster state event = .ok later ∧ Inv netBSize rest later ∧
      Kept state.1 later.1 (held rest) := by
  obtain ⟨k, handles⟩ := state
  unfold Kerbuf.step
  by_cases owns : event.owns netBSize handles
  · rw [if_pos owns]
    have leaves : Leaves netBSize rest k (call netBSize bHyster (k, handles) event) := by
      cases event with
      | getbuf getblk => exact inv.getbuf getblk
      | freebuf msg => exact inv.freebuf bHyster (List.contains_iff_mem.mp owns)
      | freemsg msg => exact inv.freemsg bHyster (List.contains_iff_mem.mp owns)
      | appendb getblk msg => exact inv.appendb size getblk (List.contains_iff_mem.mp owns)
      | catmsg msg1 msg2 =>
        obtain ⟨first, second⟩ := Bool.and_eq_true_iff.mp owns
        exact inv.catmsg bHyster (List.contains_iff_mem.mp first) (List.contains_iff_mem.mp second)
      | bytesout msg count => exact inv.bytesout bHyster count (List.contains_iff_mem.mp owns)
      | getkb getblk => exact inv.getkb getblk
      | write msg bLen bData => exact inv.write bLen bData (List.contains_iff_mem.mp owns)
    rcases leaves with asleep | ⟨later, done, invLater, kept⟩
    · rw [asleep]
      exact ⟨_, rfl, inv, Kept.refl k _⟩
    · rw [done]
      exact ⟨later, rfl, invLater, kept⟩
  · rw [if_neg owns]
    exact ⟨_, rfl, inv, Kept.refl k _⟩

theorem Inv.run {state : State} (inv : Inv netBSize rest state) (size : 0 < netBSize)
    (bHyster : Nat) (events : List (Call netBSize)) :
    ∃ later, Kerbuf.run netBSize bHyster state events = .ok later ∧ Inv netBSize rest later := by
  induction events generalizing state with
  | nil => exact ⟨state, rfl, inv⟩
  | cons event others inductionHypothesis =>
    obtain ⟨mid, done, invMid, -⟩ := inv.step size bHyster event
    obtain ⟨later, goes, invLater⟩ := inductionHypothesis invMid
    refine ⟨later, ?_, invLater⟩
    rw [Kerbuf.run, List.foldlM_cons, done]
    exact goes

/-! ### The counts -/

theorem sum_countP (f : Nat → Nat) (n : Nat) (xs : List Nat) (below : ∀ x ∈ xs, f x < n) :
    ∑ i ∈ Finset.range n, xs.countP (fun x => f x = i) = xs.length := by
  induction xs with
  | nil => exact Finset.sum_eq_zero fun i _ => rfl
  | cons x rest inductionHypothesis =>
    have one : ∑ i ∈ Finset.range n, (if f x = i then 1 else 0) = 1 := by
      rw [Finset.sum_ite_eq, if_pos (Finset.mem_range.mpr (below x List.mem_cons_self))]
    have rest := inductionHypothesis (List.forall_mem_cons.mp below).2
    rw [List.length_cons, ← rest]
    simp only [List.countP_cons, decide_eq_true_eq, Finset.sum_add_distrib, one]

/-- How many buffers of the kernel buffer in a place of the table are free. -/
def freectAt (k : Kernel) (index : Nat) : Nat := ((k.kb index).map Kbuf.bFreect).getD 0

theorem Ok.sum_freect (ok : Ok k free msgs) :
    k.bCntfree = ∑ i ∈ Finset.range kbHiwat, freectAt k i := by
  have place (buf : Nat) (inside : buf ∈ free) :
      ∃ i < kbHiwat, ∃ b, k.kb i = some b ∧ k.bMember buf = i := by
    obtain ⟨i, inRange, b, there, here⟩ :=
      mem_owned.mp (ok.all.mem_iff.mp (List.mem_append_left _ inside))
    exact ⟨i, inRange, b, there, ok.member i b there buf here⟩
  rw [ok.cntfree, ← sum_countP k.bMember kbHiwat free fun buf inside => by
    obtain ⟨i, inRange, -, -, isMember⟩ := place buf inside
    rwa [isMember]]
  refine Finset.sum_congr rfl fun i _ => ?_
  rw [freectAt]
  cases there : k.kb i with
  | some b => exact (ok.freect i b there).symm
  | none =>
    refine List.countP_eq_zero.mpr fun buf inside same => ?_
    obtain ⟨j, -, b, at', isMember⟩ := place buf inside
    rw [isMember.symm.trans (of_decide_eq_true same), there] at at'
    exact Option.some_ne_none b at'.symm

/-! ### Every run -/

/-- In every run the free list is one ring and every message is one; the count of free buffers is
the length of the free list and the sum of the counts of the kernel buffers; the kernel buffers in
the table are counted, and there are no more than may be; and the eight buffers of each are the
buffers that are free or in a message, each once. -/
theorem pool_invariant (size : 0 < netBSize) (bHyster : Nat) (k : Kernel) (owners : Nat)
    (events : List (Call netBSize)) :
    ∃ last handles free msgs,
      run netBSize bHyster (start k, List.replicate owners none) events = .ok (last, handles) ∧
      (msgs.map Prod.fst).Perm handles ∧
      Shape last.bQlink last.bFreel free ∧ (∀ msg ∈ msgs, Shape last.bQlink msg.1 msg.2) ∧
      last.bCntfree = free.length ∧
      last.bCntfree = ∑ i ∈ Finset.range kbHiwat, freectAt last i ∧
      last.bAlloc = (List.range kbHiwat).countP (fun i => (last.kb i).isSome) ∧
      last.bAlloc ≤ kbHiwat ∧
      (∀ i b, last.kb i = some b → b.bufs.length = netBPerKB ∧ b.bufs.Nodup) ∧
      (free ++ held msgs).Nodup ∧
      ∀ buf, buf ∈ free ++ held msgs ↔ ∃ i b, last.kb i = some b ∧ buf ∈ b.bufs := by
  obtain ⟨⟨last, handles⟩, ran, free, msgs, ok, same, -⟩ :=
    (start_inv k owners).run size bHyster events
  rw [List.append_nil] at ok
  refine ⟨last, handles, free, msgs, ran, same, ok.freeRing, ok.msgRing, ok.cntfree,
    ok.sum_freect, ok.alloc, ?_, fun i b there => ⟨(ok.size i b there).2, ?_⟩, ok.apart,
    fun buf => ?_⟩
  · rw [ok.alloc]
    exact (List.countP_le_length).trans (Nat.le_of_eq List.length_range)
  · have once := (List.nodup_flatMap.mp ok.nodup).1 i
      (List.mem_range.mpr (ok.size i b there).1)
    rwa [bufsAt, there] at once
  · rw [ok.all.mem_iff, mem_owned]
    constructor
    · rintro ⟨i, -, b, there, here⟩
      exact ⟨i, b, there, here⟩
    · rintro ⟨i, b, there, here⟩
      exact ⟨i, (ok.size i b there).1, b, there, here⟩

theorem pool_invariant_sixty : ∃ last handles free msgs,
      run 60 3 (start pair, [none, none]) [.getbuf Getblk.above, .appendb Getblk.above none,
        .catmsg (some 1) (some 2), .freemsg (some 2)] = .ok (last, handles) ∧
      (msgs.map Prod.fst).Perm handles ∧ last.bCntfree = free.length ∧
      (free ++ held msgs).Nodup := by
  obtain ⟨last, handles, free, msgs, ran, same, -, -, count, -, -, -, -, once, -⟩ :=
    pool_invariant (show 0 < 60 by decide) 3 pair 2 [.getbuf Getblk.above,
      .appendb Getblk.above none, .catmsg (some 1) (some 2), .freemsg (some 2)]
  exact ⟨last, handles, free, msgs, ran, same, count, once⟩

end NetworkUnix.Ncpk.Kerbuf
