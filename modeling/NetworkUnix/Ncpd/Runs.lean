/-
This file proves what holds of the daemon's tables in every run: the daemon does
not die, and the counts of its sockets and files are right. It also states the
induction over the moves of a run that the other results use.
-/

import NetworkUnix.Ncpd.Trips
import NetworkUnix.Lib.Run

namespace NetworkUnix.Ncpd

open scoped BigOperators

/-- The guards that permit every command, every host, and everything else. -/
def Guards.all : Guards where
  command := fun _ _ => True
  turn := fun _ => True
  opens := fun _ _ _ => True
  adopt := fun _ _ _ => True
  offer := fun _ _ => True
  group := fun _ _ => True
  share := fun _ => True
  link := fun _ => True
  high := fun _ _ => trivial
  still := fun _ => trivial
  own := fun _ _ => trivial
  byte := fun _ => trivial
  low := fun _ _ _ => trivial

theorem Guards.all_lax : Guards.all.Lax := ⟨fun _ _ => trivial, fun _ => trivial⟩

theorem Proceeds.used {old st : FileState} (proceeds : Proceeds old st) : st ≠ .null := by
  cases proceeds <;> decide

namespace Daemon

theorem permits_all (d : Daemon) (instr : Instr) : Permits Guards.all d instr where
  receives := fun _ _ _ => ⟨fun _ _ _ _ => trivial, fun _ _ => trivial⟩
  listens := fun _ _ _ _ _ _ => trivial
  leaks := fun _ _ _ _ _ _ _ _ => trivial
  shares := fun _ _ _ _ _ _ => trivial
  blocks := fun _ _ _ _ _ _ _ _ _ _ _ => trivial
  full := fun _ _ _ _ _ => trivial

theorem start_ok : start.board.Ok where
  alive := rfl
  queued := fun _ used => absurd rfl used
  owned := fun _ _ used => absurd rfl used
  listed := fun _ _ _ used => absurd rfl used
  fits := fun _ _ used => absurd rfl used
  offered := fun _ queued => SktState.noConfusion queued
  files := fun _ used => absurd rfl used
  nsLeft := by
    show (nsockets : Int) = nsockets - ∑ f : FileNo, (0 : Int) - ∑ i : SktNo, (0 : Int)
    simp only [Finset.sum_const_zero, Int.sub_zero]
  nfLeft := by
    show (nfiles : Int) = ∑ f : FileNo, (1 : Int)
    simp only [Finset.sum_const, Finset.card_univ, Fintype.card_fin, nsmul_eq_mul, mul_one]

theorem moves_keep {g : Guards} {holds : Board → Prop}
    (kept : ∀ b next, b.Ok → holds b → Move g b next → holds next) {b next : Board}
    (moves : Moves g b next) (ok : b.Ok) (held : holds b) : next.Ok ∧ holds next := by
  induction moves with
  | refl => exact ⟨ok, held⟩
  | tail _ move inductionHypothesis =>
    exact ⟨move.ok inductionHypothesis.1, kept _ _ inductionHypothesis.1 inductionHypothesis.2 move⟩

theorem run_keeps {g : Guards} (lax : g.Lax) {condition : Daemon → Event → Prop}
    (holds : Board → Prop) (initially : holds start.board)
    (permits : ∀ d e, d.board.Ok → holds d.board → condition d e →
      Permits g (d.read e.clock) e.instr)
    (kept : ∀ b next, b.Ok → holds b → Move g b next → holds next) {history : List Event}
    {d : Daemon} (run : Transition.Run (Transition.Guarded Trip condition) start history d) :
    d.board.Ok ∧ holds d.board := by
  refine run.always (fun d => d.board.Ok ∧ holds d.board) ⟨start_ok, initially⟩ ?_
  intro d e next held taken
  obtain ⟨permitted, -, rfl⟩ := taken
  exact moves_keep kept (trip_moves held.1 lax (permits d e held.1 held.2 permitted)) held.1 held.2

/-! ### The daemon does not die -/

/-- The count of attached sockets is right for a file struct that is not in use. -/
def Idle (b : Board) : Prop :=
  ∀ f, (b.entries f).state = .null → (b.entries f).nsatt = sktCount (b.entries f).sktX

theorem idle_setEntry {b : Board} (idle : Idle b) {f : FileNo} {e : Entry}
    (counted : e.state = .null → e.nsatt = sktCount e.sktX) : Idle (b.setEntry f e) := by
  intro h isNull
  by_cases here : h = f
  · subst here
    rw [setEntry_self] at isNull ⊢
    exact counted isNull
  · rw [setEntry_other here] at isNull ⊢
    exact idle h isNull

theorem gone_null {x : SktIndex} {st : FileState} (used : st ≠ .null) : st.gone x ≠ .null := by
  unfold FileState.gone
  split
  next => decide
  next => exact used

theorem move_idle {g : Guards} {b next : Board} (ok : b.Ok) (idle : Idle b) (move : Move g b next) :
    Idle next := by
  cases move with
  | adopt i r f asks => exact idle_setEntry (b := b) idle fun isNull => absurd isNull asks.used
  | create i r f asks => exact idle_setEntry (b := b) idle fun isNull => absurd isNull asks.used
  | giveBack i f ms ncp ends filep =>
    exact idle_setEntry (b := b) idle fun isNull =>
      absurd isNull (gone_null (ok.owned i f ends.used filep).1)
  | release f map used => exact idle_setEntry (b := b) idle fun _ => (ok.files f used).counted
  | proceed f st proceeds =>
    exact idle_setEntry idle fun isNull => absurd isNull proceeds.used
  | make f st n sbase map last free used =>
    exact idle_setEntry (b := b) idle fun isNull => absurd isNull used
  | idle f e free still counted => exact idle_setEntry idle fun _ => counted
  | _ => exact idle

theorem events_ok (events : List Event) :
    (events.foldl trip start).board.Ok ∧ Idle (events.foldl trip start).board := by
  refine Table.foldl_keeps (fun d : Daemon => d.board.Ok ∧ Idle d.board) trip events
    (fun d e _ held => ?_) ⟨start_ok, fun _ _ => rfl⟩
  exact moves_keep (g := Guards.all) (fun b next ok idle move => move_idle ok idle move)
    (trip_moves held.1 Guards.all_lax (permits_all _ _)) held.1 held.2

/-- Instructions that meet a condition one after another. -/
def Meet (condition : Daemon → Event → Prop) : Daemon → List Event → Prop
  | _, [] => True
  | d, e :: rest => condition d e ∧ Meet condition (d.trip e) rest

instance decidableMeet {condition : Daemon → Event → Prop} [∀ d e, Decidable (condition d e)] :
    (d : Daemon) → (events : List Event) → Decidable (Meet condition d events)
  | _, [] => .isTrue trivial
  | d, e :: rest => @instDecidableAnd _ _ _ (decidableMeet (d.trip e) rest)

theorem run_meet {condition : Daemon → Event → Prop} {events : List Event}
    (meet : Meet condition start events) :
    Transition.Run (Transition.Guarded Trip condition) start events (events.foldl trip start) := by
  have follows : ∀ (events before : List Event), Meet condition (before.foldl trip start) events →
      Transition.Follows (Transition.Guarded Trip condition) trip (before.foldl trip start)
        events := by
    intro events
    induction events with
    | nil => exact fun _ _ => trivial
    | cons e rest inductionHypothesis =>
      intro before meet
      have later := inductionHypothesis (before ++ [e])
      rw [List.foldl_append] at later
      exact ⟨⟨meet.1, (events_ok before).1.alive, rfl⟩, later meet.2⟩
  exact Transition.Run.start.follows (follows events [] meet)

theorem run_events (events : List Event) :
    Transition.Run Trip start events (events.foldl trip start) := by
  have always : ∀ (events : List Event) (d : Daemon), Meet (fun _ _ => True) d events := by
    intro events
    induction events with
    | nil => exact fun _ => trivial
    | cons e rest inductionHypothesis => exact fun d => ⟨trivial, inductionHypothesis _⟩
  have run := run_meet (always events start)
  exact run.mono fun _ _ _ guarded => guarded.2

/-- The daemon does not die, whatever it reads: after any instructions it has found no
inconsistency, a file that is counted as free exists, a file in the open state has a data socket,
and the count of sockets that are attached to a file is that of the entries in its table. -/
theorem never_dies (events : List Event) :
    (events.foldl trip start).died = false ∧
    (0 < (events.foldl trip start).nfLeft →
      ∃ f, ((events.foldl trip start).files f).state = .null) ∧
    (∀ f, ((events.foldl trip start).files f).state = .opened →
      ((events.foldl trip start).files f).sktX .rcv ≠ none ∨
        ((events.foldl trip start).files f).sktX .xmit ≠ none) ∧
    ∀ f, ((events.foldl trip start).files f).nsatt =
      sktCount ((events.foldl trip start).files f).sktX := by
  have held := events_ok events
  generalize events.foldl trip start = d at held
  obtain ⟨ok, idle⟩ := held
  refine ⟨ok.alive, fun positive => ?_, fun f isOpen => ?_, fun f => ?_⟩
  · by_contra none
    have zero : ∀ f, (d.board.entries f).free = 0 := fun f =>
      Entry.free_of_used fun isNull => none ⟨f, isNull⟩
    have left := ok.nfLeft
    rw [Finset.sum_eq_zero fun f _ => zero f] at left
    change d.nfLeft = 0 at left
    omega
  · have used : (d.board.entries f).state ≠ .null := by
      show (d.files f).state ≠ .null
      rw [isOpen]
      decide
    exact (ok.files f used).opened isOpen
  · by_cases used : (d.board.entries f).state = .null
    · exact idle f used
    · exact (ok.files f used).counted

/-- The tables agree after any instructions: a socket in use is that of a queued request exactly
when it has no file; it has a file exactly when that file is in use and has it in its table at the
socket's index; and what a file in use has in its table is in use and has that index. -/
theorem tables_agree (events : List Event) :
    (∀ i, ((events.foldl trip start).sockets i).state ≠ .null →
      (((events.foldl trip start).sockets i).state = .q ↔
        ((events.foldl trip start).sockets i).filep = none) ∧
      ∀ f, ((events.foldl trip start).sockets i).filep = some f ↔
        ((events.foldl trip start).files f).state ≠ .null ∧
          ((events.foldl trip start).files f).sktX ((events.foldl trip start).sockets i).sinx =
            some i) ∧
    ∀ f x i, ((events.foldl trip start).files f).state ≠ .null →
      ((events.foldl trip start).files f).sktX x = some i →
        ((events.foldl trip start).sockets i).state ≠ .null ∧
          ((events.foldl trip start).sockets i).sinx = x := by
  have ok := (events_ok events).1
  generalize events.foldl trip start = d at ok
  refine ⟨fun i used => ⟨ok.queued i used, fun f => ⟨ok.owned i f used, fun has => ?_⟩⟩,
    fun f x i used there => ?_⟩
  · exact (ok.listed f _ i has.1 has.2).2.1
  · have listed := ok.listed f x i used there
    exact ⟨listed.1, listed.2.2⟩

/-- After any instructions a socket is in a state that its file's state allows, and a request that
is queued has a host and sends where the foreign socket receives. -/
theorem sockets_fit (events : List Event) :
    (∀ i f, ((events.foldl trip start).sockets i).state ≠ .null →
      ((events.foldl trip start).sockets i).filep = some f →
        Fits ((events.foldl trip start).sockets i).cell
          ((events.foldl trip start).files f).state) ∧
    ∀ i, ((events.foldl trip start).sockets i).state ≠ .null →
      ((events.foldl trip start).sockets i).filep = none →
        Offered ((events.foldl trip start).sockets i).cell := by
  have ok := (events_ok events).1
  generalize events.foldl trip start = d at ok
  exact ⟨ok.fits, fun i used isNone => ok.offered i ((ok.queued i used).mpr isNone)⟩

end Daemon

end NetworkUnix.Ncpd
