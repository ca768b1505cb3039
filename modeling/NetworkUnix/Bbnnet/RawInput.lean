/-
This file models the input of raw messages: the search of a protocol chain for
connections that take a message, the copies made for them, and their receive
queues. It proves that every such connection gets one copy of the whole message
or is told that one was dropped, and that every buffer ends up in one place.

A chain of buffers is given as the list of its buffers, and the null pointer as
the empty list. The pointer to the message may come to point at a block of
protocol entries: it then stands for that block and those linked behind it. The
waits for the lock of a receive queue are left out.
-/

import NetworkUnix.Bbnnet.Raw
import Mathlib.Data.List.Nodup
import Mathlib.Tactic.Linarith

namespace NetworkUnix.Bbnnet.RawInput

open Function

open Raw (RawState RawOk Header prHash)

/-! ### Connections, entries and buffers -/

/-- What input reads of a connection: its flags, its foreign and local address, and the number of
buffers that it may hold. -/
structure Ucb where
  ucFlags : Nat
  ucHost : Nat
  ucLocal : Nat
  ucRcv : Nat

/-- The connection wants error messages. -/
def RAWERR : Nat := 0o10000

/-- An entry of a protocol chain: its number, the block that it stands in, and the connection that
the block belongs to. -/
structure Entry where
  prNum : Int
  block : Nat
  mAct : Option Nat

/-- A protocol chain. A connection has one entry for a number at most. -/
structure ProtoChain where
  entries : List Entry
  once : entries.Pairwise fun p q => p.prNum = q.prNum → p.mAct = q.mAct → p.mAct = none

/-- The arguments of `raw_input` beside the message. -/
structure Arrival where
  src : Nat
  dst : Nat
  link : Int
  mask : Nat
  error : Bool

/-- The buffers that are free, what each buffer holds apart from its links, the receive queues with
the number of buffers counted for each, the connections told `UDROP`, and the number of calls of
`m_get`. -/
structure Store (Body : Type) where
  free : List Nat
  body : Nat → Body
  ucRbuf : Nat → List (List Nat)
  ucRsize : Nat → Nat
  told : List Nat
  gets : Nat

/-- What `m_get` gives at each call: a free buffer, or none. -/
structure Getter where
  pick : Nat → List Nat → Option Nat
  correct : ∀ gets free n, pick gets free = some n → n ∈ free

section Routines

variable {Body : Type} (getter : Getter) (ucbs : Nat → Ucb)

/-! ### Buffer routines -/

def mGet (s : Store Body) : Store Body × Option Nat :=
  match getter.pick s.gets s.free with
  | none => ({ s with gets := s.gets + 1 }, none)
  | some n => ({ s with free := s.free.erase n, gets := s.gets + 1 }, some n)

/-- Free a chain. A buffer that is free already is a panic. -/
def mFreem : List Nat → Store Body → Option (Store Body)
  | [], s => some s
  | m :: rest, s => if m ∈ s.free then none else mFreem rest { s with free := m :: s.free }

/-- The loop of `m_copy`, with the copy made so far. -/
def mCopyFrom : List Nat → List Nat → Store Body → Option (Store Body × List Nat)
  | [], top, s => some (s, top)
  | m :: rest, top, s =>
    match mGet getter s with
    | (s, none) => (mFreem top s).map fun s => (s, [])
    | (s, some n) =>
      mCopyFrom rest (top ++ [n]) { s with body := Function.update s.body n (s.body m) }

/-- Copy a chain; without the buffers for it nothing is kept. -/
def mCopy (mp : List Nat) (s : Store Body) : Option (Store Body × List Nat) :=
  mCopyFrom getter mp [] s

/-! ### Input -/

def toUser (up : Nat) (s : Store Body) : Store Body := { s with told := s.told ++ [up] }

/-- Put a message on the receive queue. It will either all fit, or be dropped. -/
def rawQueue (mp : List Nat) (up : Nat) (s : Store Body) : Option (Store Body) :=
  if mp.length + s.ucRsize up ≤ (ucbs up).ucRcv then
    some { s with
      ucRsize := Function.update s.ucRsize up (s.ucRsize up + mp.length)
      ucRbuf := Function.update s.ucRbuf up (s.ucRbuf up ++ [mp]) }
  else mFreem mp (toUser up s)

/-- The connection takes the message. -/
def takes (a : Arrival) (p : Entry) (up : Nat) : Bool :=
  p.prNum = a.link && (ucbs up).ucFlags &&& a.mask ≠ 0 &&
    ((ucbs up).ucHost = 0 || a.src = (ucbs up).ucHost) &&
    ((ucbs up).ucLocal = 0 || a.dst = (ucbs up).ucLocal) &&
    (!a.error || a.error && (ucbs up).ucFlags &&& RAWERR ≠ 0)

/-- The connection that the entry dispatches the message to. -/
def listener (a : Arrival) (p : Entry) : Option Nat := p.mAct.filter (takes ucbs a p)

/-- What the pointer to the message becomes, and whether it is a copy: if more entries remain the
message is copied, otherwise the pointer is left at the block of the entry. -/
def ahead (following : Nat → List Nat) (p : Entry) (rest : List Entry) (mp : List Nat)
    (s : Store Body) : Option (Store Body × List Nat × Bool) :=
  if rest ≠ [] then (mCopy getter mp s).map fun made => (made.1, made.2, made.2 ≠ [])
  else some (s, following p.block, false)

/-- The loop over the chain, and the drop of what is left over. -/
def dispatch (following : Nat → List Nat) (a : Arrival) :
    List Entry → List Nat → Bool → Store Body → Option (Store Body)
  | [], mp, copied, s => if copied then mFreem mp s else some s
  | p :: rest, mp, copied, s =>
    match listener ucbs a p with
    | none => dispatch following a rest mp copied s
    | some up =>
      (ahead getter following p rest mp s).bind fun made =>
        (if mp ≠ [] then rawQueue ucbs mp up made.1 else some (toUser up made.1)).bind fun s =>
          dispatch following a rest made.2.1 made.2.2 s

/-- Put raw message input on user receive queues. `following` gives the blocks from an address on. -/
def rawInput (protab : Int → ProtoChain) (following : Nat → List Nat) (mp : List Nat) (a : Arrival)
    (s : Store Body) : Option (Store Body) :=
  dispatch getter ucbs following a (protab (prHash a.link)).entries mp true s

end Routines

/-! ### The place of a buffer -/

/-- Where a buffer is: free, on a receive queue, or held by the routine that runs. -/
inductive Place
  | free
  | queue (up : Nat)
  | hand

variable {Body : Type} {getter : Getter} {ucbs : Nat → Ucb} {s next : Store Body}
variable {place : Nat → Option Place} {mine mp : List Nat}

/-- Every buffer is where `place` says, once. Other buffers have no place. -/
structure Placed (s : Store Body) (mine : List Nat) (place : Nat → Option Place) : Prop where
  freeOnce : s.free.Nodup
  mineOnce : mine.Nodup
  queueOnce : ∀ up, (s.ucRbuf up).flatten.Nodup
  free : ∀ m, m ∈ s.free ↔ place m = some .free
  hand : ∀ m, m ∈ mine ↔ place m = some .hand
  queue : ∀ up m, m ∈ (s.ucRbuf up).flatten ↔ place m = some (.queue up)

/-- The places after some buffers are moved. -/
def moved (place : Nat → Option Place) (ms : List Nat) (there : Place) : Nat → Option Place :=
  fun m => if m ∈ ms then some there else place m

variable {ms : List Nat} {there : Place} {up : Nat} {last : Store Body} {p : Entry}

theorem moved_in {m : Nat} (inside : m ∈ ms) :
    moved place ms there m = some there := if_pos inside

theorem moved_out {m : Nat} (outside : m ∉ ms) :
    moved place ms there m = place m := if_neg outside

theorem moved_other {elsewhere : Place} (apart : there ≠ elsewhere) (m : Nat) :
    moved place ms there m = some elsewhere ↔ m ∉ ms ∧ place m = some elsewhere := by
  by_cases inside : m ∈ ms
  · rw [moved_in inside, Option.some_inj]
    exact ⟨fun same => absurd same apart, fun out => absurd inside out.1⟩
  · rw [moved_out inside]
    exact ⟨fun at' => ⟨inside, at'⟩, fun out => out.2⟩

theorem moved_self (m : Nat) :
    moved place ms there m = some there ↔ m ∈ ms ∨ place m = some there := by
  by_cases inside : m ∈ ms
  · rw [moved_in inside]
    exact ⟨fun _ => .inl inside, fun _ => rfl⟩
  · rw [moved_out inside]
    exact ⟨.inr, fun either => either.resolve_left inside⟩

theorem Placed.take (placed : Placed s mine place) {n : Nat} (isFree : n ∈ s.free)
    (free : next.free = s.free.erase n) (queues : next.ucRbuf = s.ucRbuf) :
    Placed next (mine ++ [n]) (moved place [n] .hand) := by
  have atFree := (placed.free n).mp isFree
  have notMine : n ∉ mine := by
    intro inside
    rw [(placed.hand n).mp inside] at atFree
    cases atFree
  constructor
  · rw [free]
    exact placed.freeOnce.erase n
  · exact List.nodup_append.mpr ⟨placed.mineOnce, List.nodup_singleton n, fun m inside other only =>
      fun same => notMine (List.mem_singleton.mp only ▸ same ▸ inside)⟩
  · rw [queues]
    exact placed.queueOnce
  · intro m
    rw [free, placed.freeOnce.mem_erase_iff, moved_other (by simp), List.mem_singleton, placed.free]
  · intro m
    rw [moved_self, List.mem_append, placed.hand, or_comm]
  · intro up m
    rw [queues, moved_other (by simp), placed.queue, List.mem_singleton]
    refine ⟨fun queued => ⟨?_, queued⟩, And.right⟩
    rintro rfl
    rw [queued] at atFree
    cases atFree

theorem Placed.inHand {m : Nat} (placed : Placed s (mp ++ mine) place) (inside : m ∈ mp) :
    place m = some .hand :=
  (placed.hand m).mp (List.mem_append_left _ inside)

theorem Placed.stays {there : Place} (placed : Placed s (mp ++ mine) place)
    (other : there ≠ .hand) (m : Nat) : m ∈ mine ↔ moved place mp there m = some .hand := by
  obtain ⟨-, -, apart⟩ := List.nodup_append.mp placed.mineOnce
  rw [moved_other other, ← placed.hand, List.mem_append]
  exact ⟨fun inside => ⟨fun other => apart m other m inside rfl, .inr inside⟩,
    fun out => out.2.resolve_left out.1⟩

theorem Placed.release (placed : Placed s (mp ++ mine) place)
    (free : next.free = mp.reverse ++ s.free) (queues : next.ucRbuf = s.ucRbuf) : Placed next mine (moved place mp .free) := by
  obtain ⟨mpOnce, mineOnce, -⟩ := List.nodup_append.mp placed.mineOnce
  constructor
  · rw [free]
    refine List.nodup_append.mpr ⟨List.nodup_reverse.mpr mpOnce, placed.freeOnce, ?_⟩
    rintro m inside _ isFree rfl
    rw [placed.free, placed.inHand (List.mem_reverse.mp inside)] at isFree
    cases isFree
  · exact mineOnce
  · rw [queues]
    exact placed.queueOnce
  · intro m
    rw [free, moved_self, List.mem_append, List.mem_reverse, placed.free]
  · exact placed.stays (by simp)
  · intro up m
    rw [queues, moved_other (by simp), placed.queue]
    refine ⟨fun queued => ⟨fun inside => ?_, queued⟩, And.right⟩
    rw [placed.inHand inside] at queued
    cases queued

theorem Placed.enqueue (placed : Placed s (mp ++ mine) place) (free : next.free = s.free)
    (queues : next.ucRbuf = Function.update s.ucRbuf up (s.ucRbuf up ++ [mp])) :
    Placed next mine (moved place mp (.queue up)) := by
  obtain ⟨mpOnce, mineOnce, -⟩ := List.nodup_append.mp placed.mineOnce
  have grown : (next.ucRbuf up).flatten = (s.ucRbuf up).flatten ++ mp := by
    rw [queues, update_self, List.flatten_append, List.flatten_singleton]
  have others (other : Nat) (differs : other ≠ up) : next.ucRbuf other = s.ucRbuf other := by
    rw [queues, update_of_ne differs]
  constructor
  · rw [free]
    exact placed.freeOnce
  · exact mineOnce
  · intro other
    by_cases same : other = up
    · subst same
      rw [grown]
      refine List.nodup_append.mpr ⟨placed.queueOnce other, mpOnce, ?_⟩
      rintro m queued _ inside rfl
      rw [placed.queue, placed.inHand inside] at queued
      cases queued
    · rw [others other same]
      exact placed.queueOnce other
  · intro m
    rw [free, moved_other (by simp), placed.free]
    refine ⟨fun isFree => ⟨fun inside => ?_, isFree⟩, And.right⟩
    rw [placed.inHand inside] at isFree
    cases isFree
  · exact placed.stays (by simp)
  · intro other m
    by_cases same : other = up
    · subst same
      rw [grown, moved_self, List.mem_append, placed.queue, or_comm]
    · rw [others other same, moved_other (fun equal => same (Place.queue.inj equal).symm),
        placed.queue]
      refine ⟨fun queued => ⟨fun inside => ?_, queued⟩, And.right⟩
      rw [placed.inHand inside] at queued
      cases queued

/-! ### What a step leaves alone -/

/-- No buffer gets or loses a place, and those on the queues stay there with what they hold. -/
structure Frame (s next : Store Body) (place later : Nat → Option Place) : Prop where
  known : ∀ m, later m = none ↔ place m = none
  queued : ∀ up m, place m = some (.queue up) →
    later m = some (.queue up) ∧ next.body m = s.body m

theorem Frame.refl (s : Store Body) (place : Nat → Option Place) : Frame s s place place :=
  ⟨fun _ => Iff.rfl, fun _ _ queued => ⟨queued, rfl⟩⟩

theorem Frame.trans {later latest : Nat → Option Place} (first : Frame s next place later)
    (second : Frame next last later latest) :
    Frame s last place latest where
  known := fun m => (second.known m).trans (first.known m)
  queued := fun up m queued =>
    have mid := first.queued up m queued
    have done := second.queued up m mid.1
    ⟨done.1, done.2.trans mid.2⟩

theorem Frame.move (known : ∀ m ∈ ms, place m ≠ none)
    (off : ∀ up m, place m = some (.queue up) → m ∉ ms ∧ next.body m = s.body m) :
    Frame s next place (moved place ms there) where
  known := by
    intro m
    by_cases inside : m ∈ ms
    · rw [moved_in inside]
      exact ⟨fun none => absurd none (Option.some_ne_none _),
        fun none => absurd none (known m inside)⟩
    · rw [moved_out inside]
  queued := fun up m queued => ⟨(moved_out (off up m queued).1).trans queued, (off up m queued).2⟩

/-- The receive queues are as before. -/
structure Calm (s next : Store Body) : Prop where
  ucRbuf : next.ucRbuf = s.ucRbuf
  ucRsize : next.ucRsize = s.ucRsize
  told : next.told = s.told

/-! ### Freeing and copying -/

theorem mFreem_eq (once : mp.Nodup) (held : ∀ m ∈ mp, m ∉ s.free) :
    mFreem mp s = some { s with free := mp.reverse ++ s.free } := by
  induction mp generalizing s with
  | nil => rfl
  | cons m rest inductionHypothesis =>
    obtain ⟨new, restOnce⟩ := List.nodup_cons.mp once
    rw [mFreem, if_neg (held m List.mem_cons_self), inductionHypothesis restOnce]
    · rw [List.reverse_cons, List.append_assoc, List.singleton_append]
    · intro other inside isFree
      rcases List.mem_cons.mp isFree with rfl | isFree
      · exact new inside
      · exact held other (List.mem_cons_of_mem _ inside) isFree

theorem Placed.mFreem (placed : Placed s (mp ++ mine) place) :
    ∃ next, RawInput.mFreem mp s = some next ∧ Placed next mine (moved place mp .free) ∧
      Frame s next place (moved place mp .free) ∧ Calm s next ∧ next.body = s.body := by
  refine ⟨_, mFreem_eq (List.nodup_append.mp placed.mineOnce).1 ?_, placed.release rfl rfl,
    Frame.move ?_ ?_, ⟨rfl, rfl, rfl⟩, rfl⟩
  · intro m inside isFree
    rw [placed.free, placed.inHand inside] at isFree
    cases isFree
  · intro m inside none
    rw [placed.inHand inside] at none
    cases none
  · intro up m queued
    refine ⟨fun inside => ?_, rfl⟩
    rw [placed.inHand inside] at queued
    cases queued

theorem mGet_cases (getter : Getter) (s : Store Body) :
    mGet getter s = ({ s with gets := s.gets + 1 }, none) ∨
      ∃ n ∈ s.free,
        mGet getter s = ({ s with free := s.free.erase n, gets := s.gets + 1 }, some n) := by
  unfold mGet
  cases picked : getter.pick s.gets s.free with
  | none => exact .inl rfl
  | some n => exact .inr ⟨n, getter.correct _ _ _ picked, rfl⟩

theorem Placed.mCopyFrom (getter : Getter) {all rest top : List Nat}
    (placed : Placed s (all ++ top) place) (part : ∀ m ∈ rest, m ∈ all) :
    ∃ next made later, mCopyFrom getter rest top s = some (next, made) ∧
      Placed next (all ++ made) later ∧ Frame s next place later ∧ Calm s next ∧
      (∀ m ∈ all, next.body m = s.body m) ∧
      (made = [] ∨ made.map next.body = top.map s.body ++ rest.map s.body) := by
  induction rest generalizing s top place with
  | nil =>
    exact ⟨s, top, place, rfl, placed, Frame.refl s place, ⟨rfl, rfl, rfl⟩, fun _ _ => rfl,
      .inr (List.append_nil _).symm⟩
  | cons m rest inductionHypothesis =>
    rw [RawInput.mCopyFrom]
    rcases mGet_cases getter s with refused | ⟨n, isFree, got⟩
    · rw [refused]
      have counted : Placed { s with gets := s.gets + 1 } (top ++ all) place :=
        ⟨placed.freeOnce, List.nodup_append_comm.mp placed.mineOnce, placed.queueOnce, placed.free,
          fun m => by rw [← placed.hand, List.mem_append, List.mem_append, or_comm], placed.queue⟩
      obtain ⟨next, freed, placed', frame, calm, body⟩ := counted.mFreem
      refine ⟨next, [], _, congrArg (Option.map fun s => (s, [])) freed,
        by rwa [List.append_nil], ?_, ?_, ?_, .inl rfl⟩
      · exact ⟨frame.known, frame.queued⟩
      · exact ⟨calm.ucRbuf, calm.ucRsize, calm.told⟩
      · exact fun m _ => congrFun body m
    · rw [got]
      let taken : Store Body :=
        { s with free := s.free.erase n, gets := s.gets + 1,
                 body := Function.update s.body n (s.body m) }
      have atFree := (placed.free n).mp isFree
      have kept (k : Nat) (differs : k ≠ n) : taken.body k = s.body k :=
        update_of_ne differs _ _
      have apart (k : Nat) (inside : k ∈ all ++ top) : k ≠ n := by
        rintro rfl
        rw [(placed.hand k).mp inside] at atFree
        cases atFree
      have grown : Placed taken (all ++ (top ++ [n])) (moved place [n] .hand) := by
        rw [← List.append_assoc]
        exact placed.take isFree rfl rfl
      have framed : Frame s taken place (moved place [n] .hand) := by
        refine Frame.move ?_ fun up k queued => ?_
        · intro k only none
          rw [List.mem_singleton.mp only, atFree] at none
          cases none
        · have differs : k ≠ n := by
            rintro rfl
            rw [queued] at atFree
            cases atFree
          exact ⟨fun only => differs (List.mem_singleton.mp only), kept k differs⟩
      obtain ⟨next, made, later, run, placed', frame, calm, bodies, copied⟩ :=
        inductionHypothesis grown (List.forall_mem_cons.mp part).2
      refine ⟨next, made, later, run, placed', framed.trans frame,
        ⟨calm.ucRbuf, calm.ucRsize, calm.told⟩, ?_, copied.imp_right ?_⟩
      · intro k inside
        exact (bodies k inside).trans (kept k (apart k (List.mem_append_left _ inside)))
      · intro copied
        have tops : top.map taken.body = top.map s.body :=
          List.map_congr_left fun k inside => kept k (apart k (List.mem_append_right _ inside))
        have rests : rest.map taken.body = rest.map s.body :=
          List.map_congr_left fun k inside => kept k
            (apart k (List.mem_append_left _ (part k (List.mem_cons_of_mem _ inside))))
        have here : taken.body n = s.body m := update_self _ _ _
        rw [copied, List.map_append, tops, rests, List.map_singleton, here, List.append_assoc,
          List.singleton_append, List.map_cons]

theorem Placed.mCopy (getter : Getter) (placed : Placed s mp place) :
    ∃ next made later, mCopy getter mp s = some (next, made) ∧ Placed next (mp ++ made) later ∧
      Frame s next place later ∧ Calm s next ∧ mp.map next.body = mp.map s.body ∧
      (made = [] ∨ made.map next.body = mp.map s.body) := by
  have start : Placed s (mp ++ []) place := by rwa [List.append_nil]
  obtain ⟨next, made, later, run, placed', frame, calm, bodies, copied⟩ :=
    start.mCopyFrom getter fun _ inside => inside
  exact ⟨next, made, later, run, placed', frame, calm, List.map_congr_left bodies, copied⟩

/-! ### What a connection gets -/

/-- One copy of the message at the end of the receive queue, counted and within the limit. -/
def Got (ucbs : Nat → Ucb) (contents : List Body) (up : Nat) (s next : Store Body) : Prop :=
  ∃ copy, next.ucRbuf up = s.ucRbuf up ++ [copy] ∧ copy.map next.body = contents ∧
    next.ucRsize up = s.ucRsize up + copy.length ∧ next.ucRsize up ≤ (ucbs up).ucRcv ∧
    next.told.count up = s.told.count up

/-- A `UDROP` indication, and the receive queue as it was. -/
def Missed (up : Nat) (s next : Store Body) : Prop :=
  next.ucRbuf up = s.ucRbuf up ∧ next.ucRsize up = s.ucRsize up ∧
    next.told.count up = s.told.count up + 1

/-- Nothing. -/
def Passed (up : Nat) (s next : Store Body) : Prop :=
  next.ucRbuf up = s.ucRbuf up ∧ next.ucRsize up = s.ucRsize up ∧
    next.told.count up = s.told.count up

theorem Passed.trans (first : Passed up s next) (second : Passed up next last) :
    Passed up s last :=
  ⟨second.1.trans first.1, second.2.1.trans first.2.1, second.2.2.trans first.2.2⟩

theorem Calm.passed (calm : Calm s next) (up : Nat) : Passed up s next :=
  ⟨congrFun calm.ucRbuf up, congrFun calm.ucRsize up, by rw [calm.told]⟩

theorem Got.after {contents : List Body} (passed : Passed up s next)
    (got : Got ucbs contents up next last) : Got ucbs contents up s last := by
  obtain ⟨copy, queue, copied, size, limit, told⟩ := got
  exact ⟨copy, passed.1 ▸ queue, copied, passed.2.1 ▸ size, limit, told.trans passed.2.2⟩

theorem Missed.after (passed : Passed up s next) (missed : Missed up next last) :
    Missed up s last :=
  ⟨missed.1.trans passed.1, missed.2.1.trans passed.2.1, missed.2.2.trans (by rw [passed.2.2])⟩

theorem Missed.before (missed : Missed up s next) (passed : Passed up next last) :
    Missed up s last :=
  ⟨passed.1.trans missed.1, passed.2.1.trans missed.2.1, passed.2.2.trans missed.2.2⟩

theorem Got.before {contents : List Body} {later latest : Nat → Option Place}
    (got : Got ucbs contents up s next) (placed : Placed next mine later)
    (frame : Frame next last later latest) (passed : Passed up next last) :
    Got ucbs contents up s last := by
  obtain ⟨copy, queue, copied, size, limit, told⟩ := got
  refine ⟨copy, passed.1.trans queue, ?_, passed.2.1.trans size, passed.2.1 ▸ limit,
    passed.2.2.trans told⟩
  rw [← copied]
  refine List.map_congr_left fun m inside => (frame.queued up m ((placed.queue up m).mp ?_)).2
  rw [queue, List.flatten_append, List.flatten_singleton]
  exact List.mem_append_right _ inside

/-! ### One connection is served -/

theorem told_other {other : Nat} (differs : other ≠ up) (told : List Nat) :
    (told ++ [up]).count other = told.count other := by
  rw [List.count_append, List.count_singleton, if_neg, Nat.add_zero]
  rw [beq_iff_eq]
  exact differs.symm

theorem toUser_missed (up : Nat) (s : Store Body) : Missed up s (toUser up s) :=
  ⟨rfl, rfl, by rw [toUser, List.count_append, List.count_singleton_self]⟩

theorem toUser_passed {other : Nat} (differs : other ≠ up) (s : Store Body) :
    Passed other s (toUser up s) := ⟨rfl, rfl, told_other differs s.told⟩

theorem Placed.rawQueue (placed : Placed s (mp ++ mine) place) (up : Nat) :
    ∃ next later, RawInput.rawQueue ucbs mp up s = some next ∧ Placed next mine later ∧
      Frame s next place later ∧ next.body = s.body ∧
      (Got ucbs (mp.map s.body) up s next ∨ Missed up s next) ∧
      ∀ other, other ≠ up → Passed other s next := by
  unfold RawInput.rawQueue
  split
  next fits =>
    refine ⟨_, _, rfl, placed.enqueue rfl rfl, Frame.move ?_ ?_, rfl, .inl ?_, ?_⟩
    · intro m inside none
      rw [placed.inHand inside] at none
      cases none
    · intro other m queued
      refine ⟨fun inside => ?_, rfl⟩
      rw [placed.inHand inside] at queued
      cases queued
    · refine ⟨mp, update_self _ _ _, rfl, update_self _ _ _, ?_, rfl⟩
      show Function.update s.ucRsize up _ up ≤ _
      rw [update_self, Nat.add_comm]
      exact fits
    · exact fun other differs => ⟨update_of_ne differs _ _,
        update_of_ne differs _ _, rfl⟩
  next =>
    have told : Placed (toUser up s) (mp ++ mine) place :=
      ⟨placed.freeOnce, placed.mineOnce, placed.queueOnce, placed.free, placed.hand, placed.queue⟩
    obtain ⟨next, freed, placed', frame, calm, body⟩ := told.mFreem
    exact ⟨next, _, freed, placed', ⟨frame.known, frame.queued⟩, body,
      .inr ((toUser_missed up s).before (calm.passed up)),
      fun other differs => (toUser_passed differs s).trans (calm.passed other)⟩

/-! ### The loop -/

/-- What the pointer stands for: a copy in hand of the whole message that is still to be used or
dropped; or nothing in hand, and then the pointer is null or the chain is at its end. -/
def Ready (contents : List Body) (rest : List Entry) (mp : List Nat) (copied : Bool)
    (mine : List Nat) (s : Store Body) : Prop :=
  copied = true ∧ mine = mp ∧ mp.map s.body = contents ∨
    copied = false ∧ mine = [] ∧ (mp = [] ∨ rest = [])

variable {contents : List Body} {following : Nat → List Nat} {a : Arrival}

theorem Ready.inHand {rest : List Entry} {copied : Bool}
    (ready : Ready contents (p :: rest) mp copied mine s) :
    mine = mp ∧ (mp.map s.body = contents ∨ mp = []) := by
  rcases ready with ⟨-, same, whole⟩ | ⟨-, none, empty⟩
  · exact ⟨same, .inl whole⟩
  · have null : mp = [] := empty.resolve_right (List.cons_ne_nil p rest)
    exact ⟨none.trans null.symm, .inr null⟩

theorem Placed.ahead (getter : Getter) (following : Nat → List Nat) (placed : Placed s mp place)
    (whole : mp.map s.body = contents ∨ mp = []) (p : Entry) (rest : List Entry) :
    ∃ next m copied made later,
      ahead getter following p rest mp s = some (next, m, copied) ∧
      Placed next (mp ++ made) later ∧ Frame s next place later ∧ Calm s next ∧
      mp.map next.body = mp.map s.body ∧ Ready contents rest m copied made next := by
  unfold RawInput.ahead
  split
  next more =>
    obtain ⟨next, made, later, run, placed', frame, calm, same, copied⟩ :=
      placed.mCopy getter
    refine ⟨next, made, made ≠ [], made, later, ?_, placed', frame, calm, same, ?_⟩
    · rw [run, Option.map_some]
    by_cases null : made = []
    · exact .inr ⟨decide_eq_false (not_not_intro null), null, .inl null⟩
    · have copy := copied.resolve_left null
      refine .inl ⟨decide_eq_true null, rfl, copy.trans (whole.resolve_right ?_)⟩
      rintro rfl
      exact null (List.map_eq_nil_iff.mp copy)
  next more =>
    exact ⟨s, _, false, [], place, rfl, by rwa [List.append_nil], Frame.refl s place,
      ⟨rfl, rfl, rfl⟩, rfl, .inr ⟨rfl, rfl, .inr (Decidable.of_not_not more)⟩⟩

theorem Placed.serve (ucbs : Nat → Ucb) (placed : Placed s (mp ++ mine) place)
    (whole : mp.map s.body = contents ∨ mp = []) (up : Nat) :
    ∃ next later,
      (if mp ≠ [] then RawInput.rawQueue ucbs mp up s else some (toUser up s)) = some next ∧
      Placed next mine later ∧ Frame s next place later ∧ next.body = s.body ∧
      (Got ucbs contents up s next ∨ Missed up s next) ∧
      ∀ other, other ≠ up → Passed other s next := by
  by_cases null : mp = []
  · subst null
    rw [if_neg (not_not_intro rfl)]
    exact ⟨_, place, rfl,
      ⟨placed.freeOnce, placed.mineOnce, placed.queueOnce, placed.free, placed.hand, placed.queue⟩,
      ⟨fun _ => Iff.rfl, fun _ _ queued => ⟨queued, rfl⟩⟩, rfl, .inr (toUser_missed up s),
      fun other differs => toUser_passed differs s⟩
  · rw [if_pos null, ← whole.resolve_right null]
    exact placed.rawQueue up

theorem Placed.dispatch (getter : Getter) (following : Nat → List Nat) {entries : List Entry}
    {copied : Bool} (placed : Placed s mine place)
    (ready : Ready contents entries mp copied mine s)
    (once : (entries.filterMap (listener ucbs a)).Nodup) :
    ∃ last latest, dispatch getter ucbs following a entries mp copied s = some last ∧
      Placed last [] latest ∧ Frame s last place latest ∧
      (∀ up ∈ entries.filterMap (listener ucbs a),
        Got ucbs contents up s last ∨ Missed up s last) ∧
      ∀ up ∉ entries.filterMap (listener ucbs a), Passed up s last := by
  induction entries generalizing s mp mine copied place with
  | nil =>
    unfold RawInput.dispatch
    rcases ready with ⟨yes, rfl, -⟩ | ⟨no, rfl, -⟩
    · rw [if_pos yes]
      have held : Placed s (mine ++ []) place := by rwa [List.append_nil]
      obtain ⟨last, freed, placed', frame, calm, -⟩ := held.mFreem
      exact ⟨last, _, freed, placed', frame, fun _ inside => absurd inside List.not_mem_nil,
        fun up _ => calm.passed up⟩
    · rw [if_neg (Bool.eq_false_iff.mp no)]
      exact ⟨s, place, rfl, placed, Frame.refl s place,
        fun _ inside => absurd inside List.not_mem_nil, fun _ _ => ⟨rfl, rfl, rfl⟩⟩
  | cons p rest inductionHypothesis =>
    rw [RawInput.dispatch]
    cases heard : listener ucbs a p with
    | none =>
      rw [List.filterMap_cons_none heard] at once ⊢
      refine inductionHypothesis placed (ready.imp id fun empty => ?_) once
      exact ⟨empty.1, empty.2.1, .inl (empty.2.2.resolve_right (List.cons_ne_nil p rest))⟩
    | some up =>
      rw [List.filterMap_cons_some heard, List.nodup_cons] at once
      obtain ⟨rfl, whole⟩ := ready.inHand
      obtain ⟨copying, m, more, made, between, run, placed, frame, calm, same, ready⟩ :=
        placed.ahead getter following whole p rest
      rw [← same] at whole
      obtain ⟨served, later, goes, placed, moved, bodies, reached, others⟩ :=
        placed.serve ucbs whole up
      have ready : Ready contents rest m more made served := by
        unfold Ready at ready ⊢
        rwa [bodies]
      obtain ⟨last, latest, loops, emptied, framed, answered, passed⟩ :=
        inductionHypothesis placed ready once.2
      refine ⟨last, latest, ?_, emptied, (frame.trans moved).trans framed, ?_, ?_⟩
      · show (RawInput.ahead getter following p rest mine s).bind _ = _
        rw [run, Option.bind_some, goes, Option.bind_some, loops]
      · rw [List.filterMap_cons_some heard]
        intro other inside
        rcases List.mem_cons.mp inside with rfl | inside
        · have still := passed other once.1
          exact reached.imp
            (fun got => (got.after (calm.passed other)).before placed framed still)
            fun missed => (missed.after (calm.passed other)).before still
        · have differs : other ≠ up := fun equal => once.1 (equal ▸ inside)
          have before := (calm.passed other).trans (others other differs)
          exact (answered other inside).imp (Got.after before) (Missed.after before)
      · rw [List.filterMap_cons_some heard]
        intro other outside
        rw [List.mem_cons, not_or] at outside
        exact ((calm.passed other).trans (others other outside.1)).trans (passed other outside.2)

/-! ### The chains that additions and deletions keep -/

/-- The entries of a chain as the table of protocol numbers has them. -/
def entriesOf (r : RawState) (place : Int) : List Entry :=
  (r.chains (.hash place)).filterMap fun ref => (r.blocks ref.block).bind fun b =>
    (b.entries[ref.index]?).map fun p => ⟨p.prNum, ref.block, some b.mAct⟩

theorem key_of_entry {r : RawState} {ref : Raw.Ref} {k : Nat × Int}
    (entry : ((r.blocks ref.block).bind fun b =>
      (b.entries[ref.index]?).map fun p => Entry.mk p.prNum ref.block (some b.mAct)) = some p)
    (keyed : Raw.key r ref = some k) : p.mAct = some k.1 ∧ p.prNum = k.2 := by
  obtain ⟨b, found, there, inside, -, act, num⟩ := Raw.key_eq_some.mp keyed
  rw [there, Option.bind_some, inside, Option.map_some, Option.some_inj] at entry
  subst entry
  exact ⟨congrArg some act, num⟩

theorem entriesOf_once {raws : Nat → Raw.RawUcb} {r : RawState} (ok : RawOk raws r) (place : Int) :
    (entriesOf r place).Pairwise fun p q => p.prNum = q.prNum → p.mAct = q.mAct → p.mAct = none := by
  unfold entriesOf
  rw [List.pairwise_filterMap]
  refine (ok.filed.nodup (.hash place)).imp_of_mem ?_
  intro first second hasFirst hasSecond differ p isFirst q isSecond sameNum sameAct
  obtain ⟨k, keyed, -⟩ := (ok.filed.mem _ _).mp hasFirst
  obtain ⟨l, keyed', -⟩ := (ok.filed.mem _ _).mp hasSecond
  obtain ⟨act, num⟩ := key_of_entry isFirst keyed
  obtain ⟨act', num'⟩ := key_of_entry isSecond keyed'
  have equal : k = l :=
    Prod.ext (Option.some_inj.mp (act.symm.trans (sameAct.trans act')))
      (num.symm.trans (sameNum.trans num'))
  exact absurd (ok.filed.once first second k keyed (equal ▸ keyed')) differ

/-- The table of chains, for input to search. -/
def protabOf {raws : Nat → Raw.RawUcb} {r : RawState} (ok : RawOk raws r) (place : Int) :
    ProtoChain := ⟨entriesOf r place, entriesOf_once ok place⟩

theorem listener_some (heard : listener ucbs a p = some up) :
    p.mAct = some up ∧ p.prNum = a.link := by
  obtain ⟨act, taken⟩ := Option.filter_eq_some_iff.mp heard
  refine ⟨act, ?_⟩
  unfold takes at taken
  simp only [Bool.and_eq_true, decide_eq_true_eq] at taken
  exact taken.1.1.1.1

theorem ProtoChain.listeners_once (chain : ProtoChain) :
    (chain.entries.filterMap (listener ucbs a)).Nodup := by
  rw [List.Nodup, List.pairwise_filterMap]
  refine chain.once.imp fun {p q} once up heard other heard' same => ?_
  obtain ⟨act, num⟩ := listener_some heard
  obtain ⟨act', num'⟩ := listener_some heard'
  have none := once (num.trans num'.symm) (act.trans (same ▸ act'.symm))
  exact Option.some_ne_none up (act.symm.trans none)

/-! ### Input as a whole -/

/-- Input gives every connection that takes the message one copy of all of it or the indication
that one was dropped, and nothing to the others. Every buffer that was free, on a queue or in the
message is then free or on one queue, and no block of a chain is either. -/
theorem raw_input_delivers {protab : Int → ProtoChain} {message : List Nat}
    (placed : Placed s message place)
    (blocks : ∀ n, ∀ p ∈ (protab n).entries, place p.block = none) :
    ∃ last latest, rawInput getter ucbs protab following message a s = some last ∧
      Placed last [] latest ∧
      (∀ m, place m ≠ none ↔ latest m = some .free ∨ ∃ up, latest m = some (.queue up)) ∧
      (∀ up m, m ∈ (s.ucRbuf up).flatten → last.body m = s.body m) ∧
      (∀ up, (∃ p ∈ (protab (prHash a.link)).entries, listener ucbs a p = some up) →
        Got ucbs (message.map s.body) up s last ∨ Missed up s last) ∧
      (∀ up, (∀ p ∈ (protab (prHash a.link)).entries, listener ucbs a p ≠ some up) →
        Passed up s last) ∧
      ∀ n, ∀ p ∈ (protab n).entries,
        p.block ∉ last.free ∧ ∀ up, p.block ∉ (last.ucRbuf up).flatten := by
  obtain ⟨last, latest, run, emptied, frame, answered, passed⟩ :=
    placed.dispatch getter following (.inl ⟨rfl, rfl, rfl⟩)
      (protab (prHash a.link)).listeners_once
  refine ⟨last, latest, run, emptied, ?_, ?_, ?_, ?_, ?_⟩
  · intro m
    refine (not_congr (frame.known m)).symm.trans ⟨fun somewhere => ?_, ?_⟩
    · cases there : latest m with
      | none => exact absurd there somewhere
      | some spot =>
        cases spot with
        | free => exact .inl rfl
        | queue up => exact .inr ⟨up, rfl⟩
        | hand => exact absurd ((emptied.hand m).mpr there) List.not_mem_nil
    · rintro (free | ⟨up, queued⟩) none
      · exact Option.some_ne_none _ (free.symm.trans none)
      · exact Option.some_ne_none _ (queued.symm.trans none)
  · exact fun up m queued => (frame.queued up m ((placed.queue up m).mp queued)).2
  · exact fun up heard => answered up (List.mem_filterMap.mpr heard)
  · refine fun up unheard => passed up fun inside => ?_
    obtain ⟨p, member, heard⟩ := List.mem_filterMap.mp inside
    exact unheard p member heard
  · intro n p member
    have none := (frame.known _).mpr (blocks n p member)
    constructor
    · intro free
      exact Option.some_ne_none _ (((emptied.free _).mp free).symm.trans none)
    · intro up queued
      exact Option.some_ne_none _ (((emptied.queue up _).mp queued).symm.trans none)

/-- The first free buffer is given. -/
def firstFree : Getter where
  pick := fun _ free => free.head?
  correct := fun _ _ _ picked => List.mem_of_mem_head? (Option.mem_def.mpr picked)

/-- Two connections take a message of one buffer, and the copy for the second one fits as well. -/
theorem raw_input_both :
    ∃ last latest, rawInput firstFree (fun _ => ⟨1, 0, 0, 4⟩)
        (fun _ => ⟨[⟨5, 10, some 1⟩, ⟨5, 11, some 2⟩], by simp⟩) (fun block => [block]) [1]
        ⟨0, 0, 5, 1, false⟩ (Store.mk [2] id (fun _ => []) (fun _ => 0) [] 0) = some last ∧
      Placed last [] latest ∧
      (Got (fun _ => ⟨1, 0, 0, 4⟩) [1] 2 (Store.mk [2] id (fun _ => []) (fun _ => 0) [] 0) last ∨
        Missed 2 (Store.mk [2] id (fun _ => []) (fun _ => 0) [] 0) last) := by
  have placed : Placed (Store.mk [2] id (fun _ => []) (fun _ => 0) [] 0) [1]
      fun m => if m = 1 then some .hand else if m = 2 then some .free else none := by
    refine ⟨by simp, by simp, fun _ => List.nodup_nil, fun m => ?_, fun m => ?_, fun up m => ?_⟩
    · simp only [List.mem_singleton]
      split <;> simp_all
    · simp only [List.mem_singleton]
      split <;> simp_all
    · simp only [List.flatten_nil, List.not_mem_nil, false_iff]
      split
      · simp
      · split <;> simp
  obtain ⟨last, latest, run, emptied, -, -, answered, -⟩ :=
    @raw_input_delivers Nat firstFree (fun _ => ⟨1, 0, 0, 4⟩) _ _ (fun block => [block])
      ⟨0, 0, 5, 1, false⟩ (fun _ => ⟨[⟨5, 10, some 1⟩, ⟨5, 11, some 2⟩], by simp⟩) [1] placed
      (by simp)
  exact ⟨last, latest, run, emptied, answered 2 ⟨⟨5, 11, some 2⟩, by simp, by rfl⟩⟩

end NetworkUnix.Bbnnet.RawInput
