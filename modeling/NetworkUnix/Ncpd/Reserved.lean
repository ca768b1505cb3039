/-
This file proves that reservations of socket structs hold. A file reserves the
structs of its sockets when it is made, but a request of a foreign host that
nothing meets takes a struct without asking whether one is left over. As long as
every such request finds one, the count of what is left does not become negative
and a file always finds the structs that it has reserved.
-/

import NetworkUnix.Ncpd.Runs

namespace NetworkUnix.Ncpd

open scoped BigOperators

/-! ### The free structs -/

instance : Fintype SktIndex where
  elems := {.rcv, .xmit, .icp}
  complete := fun x => by cases x <;> decide

theorem sum_sktIndex (value : SktIndex → Int) :
    ∑ x, value x = value .rcv + value .xmit + value .icp := by
  show ∑ x ∈ ({.rcv, .xmit, .icp} : Finset SktIndex), value x = _
  rw [Finset.sum_insert (by decide), Finset.sum_insert (by decide), Finset.sum_singleton]
  omega

/-- A struct that is not in use. -/
def Cell.unused (c : Cell) : Int := if c.state = .null then 1 else 0

/-- The sockets of a file in use. -/
def Entry.attached (e : Entry) : Int := if e.state = .null then 0 else e.nsatt

/-- What a file in use has reserved but does not have. -/
def Entry.owed (e : Entry) : Int := e.held - e.attached

section Count

variable {b : Board}

/-- The entries of the tables of the files in use. -/
def Board.slot (b : Board) (k : FileNo × SktIndex) : Option SktNo :=
  if (b.entries k.1).state = .null then none else (b.entries k.1).sktX k.2

theorem slot_some {k : FileNo × SktIndex} {i : SktNo} (here : b.slot k = some i) :
    (b.entries k.1).state ≠ .null ∧ (b.entries k.1).sktX k.2 = some i := by
  unfold Board.slot at here
  split at here
  next => cases here
  next used => exact ⟨used, here⟩

theorem slot_apart (ok : b.Ok) (k k' : FileNo × SktIndex) (i : SktNo) (here : b.slot k = some i)
    (there : b.slot k' = some i) : k = k' := by
  obtain ⟨usedK, sktX⟩ := slot_some here
  obtain ⟨usedK', sktX'⟩ := slot_some there
  have listed := ok.listed k.1 k.2 i usedK sktX
  have listed' := ok.listed k'.1 k'.2 i usedK' sktX'
  refine Prod.ext ?_ (listed.2.2.symm.trans listed'.2.2)
  exact Option.some.inj (listed.2.1.symm.trans listed'.2.1)

theorem slot_iff (ok : b.Ok) (i : SktNo) :
    (∃ k, b.slot k = some i) ↔ (b.cells i).state ≠ .null ∧ (b.cells i).filep ≠ none := by
  constructor
  · rintro ⟨k, here⟩
    obtain ⟨used, sktX⟩ := slot_some here
    have listed := ok.listed k.1 k.2 i used sktX
    refine ⟨listed.1, ?_⟩
    rw [listed.2.1]
    exact Option.some_ne_none k.1
  · rintro ⟨used, isSome⟩
    obtain ⟨f, filep⟩ := Option.ne_none_iff_exists'.mp isSome
    have owned := ok.owned i f used filep
    refine ⟨(f, (b.cells i).sinx), ?_⟩
    unfold Board.slot
    rw [if_neg owned.1]
    exact owned.2

theorem slots_attached (ok : b.Ok) (f : FileNo) :
    ∑ x, (if (b.slot (f, x)).isSome then (1 : Int) else 0) = (b.entries f).attached := by
  rw [sum_sktIndex]
  unfold Board.slot Entry.attached
  by_cases isNull : (b.entries f).state = .null
  · simp only [isNull, if_true, Option.isSome_none, Bool.false_eq_true, if_false, Int.add_zero]
  · rw [if_neg isNull, (ok.files f isNull).counted]
    simp only [isNull, if_false]
    rfl

theorem structs_counted (ok : b.Ok) :
    ∑ i, (b.cells i).unused + ∑ i, (b.cells i).loose + ∑ f, (b.entries f).attached = nsockets := by
  classical
  have referenced := Table.sum_referenced b.slot (slot_apart ok)
  rw [Fintype.sum_prod_type, Finset.sum_congr rfl fun f _ => slots_attached ok f] at referenced
  rw [← referenced, ← Finset.sum_add_distrib, ← Finset.sum_add_distrib]
  have one : ∀ i, (b.cells i).unused + (b.cells i).loose +
      (if ∃ k, b.slot k = some i then (1 : Int) else 0) = 1 := by
    intro i
    unfold Cell.unused Cell.loose
    simp only [slot_iff ok i]
    by_cases isNull : (b.cells i).state = .null
    · simp [isNull]
    · by_cases isNone : (b.cells i).filep = none
      · simp [isNull, isNone]
      · simp [isNull, isNone]
  rw [Finset.sum_congr rfl fun i _ => one i, Finset.sum_const, Finset.card_univ, Fintype.card_fin]
  rfl

theorem structs_free (ok : b.Ok) :
    ∑ i, (b.cells i).unused = b.nsLeft + ∑ f, (b.entries f).owed := by
  have counted := structs_counted ok
  have left := ok.nsLeft
  have owed : ∑ f, (b.entries f).owed = ∑ f, (b.entries f).held - ∑ f, (b.entries f).attached :=
    Finset.sum_sub_distrib _ _
  omega

end Count

/-! ### Reservations -/

/-- A request of a foreign host is queued only while structs are left over. -/
def Guards.roomy : Guards := { Guards.all with offer := fun b _ => 0 < b.nsLeft }

theorem Guards.roomy_lax : Guards.roomy.Lax := Guards.all_lax

/-- The count of what is left is not negative, and only requests without a file found no struct. -/
structure Board.Roomed (b : Board) : Prop where
  left : 0 ≤ b.nsLeft
  failed : ∀ r ∈ b.failed, r.filep = none

theorem pending_nonneg (st : FileState) : 0 ≤ st.pending := by
  cases st <;> decide

theorem sktCount_nonneg (sktX : SktIndex → Option SktNo) : 0 ≤ sktCount sktX := by
  unfold sktCount
  split <;> split <;> split <;> omega

section Room

variable {b : Board}

theorem owed_used {f : FileNo} (used : (b.entries f).state ≠ .null) :
    (b.entries f).owed = (b.entries f).nsrsrv - (b.entries f).nsatt := by
  unfold Entry.owed Entry.attached
  rw [Entry.held_of_used used, if_neg used]

theorem owed_nonneg (ok : b.Ok) (f : FileNo) : 0 ≤ (b.entries f).owed := by
  by_cases used : (b.entries f).state = .null
  · unfold Entry.owed Entry.attached
    rw [Entry.held_of_null used, if_pos used]
    decide
  · rw [owed_used used]
    have reserved := (ok.files f used).reserved
    have pending := pending_nonneg (b.entries f).state
    omega

theorem asks_free (ok : b.Ok) (left : 0 ≤ b.nsLeft) {r : Request} {f : FileNo} (asks : Asks b r f) :
    ∃ i, (b.cells i).state = .null := by
  by_contra none
  have used : ∀ i, (b.cells i).unused = 0 := fun i => if_neg fun isNull => none ⟨i, isNull⟩
  have free := structs_free ok
  rw [Finset.sum_eq_zero fun i _ => used i] at free
  have some : (b.entries f).owed ≤ ∑ h, (b.entries h).owed :=
    Finset.single_le_sum (fun h _ => owed_nonneg ok h) (Finset.mem_univ f)
  rw [owed_used asks.used] at some
  have room := asks.room
  have pending := pending_nonneg (b.entries f).state
  omega

theorem move_roomed {next : Board} (ok : b.Ok) (roomed : b.Roomed) (move : Move Guards.roomy b next) :
    next.Roomed := by
  have left := roomed.left
  have more : 0 ≤ b.nsLeft + 1 := by omega
  cases move with
  | adopt => exact ⟨more, roomed.failed⟩
  | drop => exact ⟨more, roomed.failed⟩
  | giveBack => exact ⟨more, roomed.failed⟩
  | offer i r offers free permitted =>
    refine ⟨?_, roomed.failed⟩
    change 0 < b.nsLeft at permitted
    show 0 ≤ b.nsLeft - 1
    omega
  | fail r none asks =>
    refine ⟨left, fun r' member => ?_⟩
    rcases List.mem_append.mp member with before | now
    · exact roomed.failed r' before
    · rw [List.mem_singleton.mp now]
      cases filep : r.filep with
      | none => rfl
      | some f =>
        obtain ⟨i, free⟩ := asks_free ok left (asks f filep)
        exact absurd free (none i)
  | release f map used =>
    refine ⟨?_, roomed.failed⟩
    have files := ok.files f used
    have reserved := files.reserved
    have pending := pending_nonneg (b.entries f).state
    have count := sktCount_nonneg (b.entries f).sktX
    rw [← files.counted] at count
    show 0 ≤ b.nsLeft + (b.entries f).nsrsrv
    omega
  | make f st n sbase map last free used unopened room enough =>
    refine ⟨?_, roomed.failed⟩
    show 0 ≤ b.nsLeft - n
    omega
  | _ => exact ⟨left, roomed.failed⟩

end Room

namespace Daemon

/-- Every request of a foreign host that no socket of the daemon fits, and for which there is a free
struct, finds a positive count of structs left over. -/
def Roomy (d : Daemon) (e : Event) : Prop :=
  ∀ q ∈ (d.read e.clock).requests e.instr, q.sktReq.state = .rfc → q.found = none →
    (∃ i, (q.sockets i).state = .null) → 0 < q.nsLeft

instance (d : Daemon) (e : Event) : Decidable (d.Roomy e) :=
  inferInstanceAs (Decidable (∀ q ∈ (d.read e.clock).requests e.instr, q.sktReq.state = .rfc →
    q.found = none → (∃ i, (q.sockets i).state = .null) → 0 < q.nsLeft))

theorem roomy_permits {d : Daemon} {e : Event} (roomy : d.Roomy e) :
    Permits Guards.roomy (d.read e.clock) e.instr where
  receives := fun q member isRfc => ⟨fun _ _ _ _ => trivial, fun none free =>
    roomy q member isRfc none free⟩
  listens := fun _ _ _ _ _ _ => trivial
  leaks := fun _ _ _ _ _ _ _ _ => trivial
  shares := fun _ _ _ _ _ _ => trivial
  blocks := fun _ _ _ _ _ _ _ _ _ _ _ => trivial
  full := fun _ _ _ _ _ => trivial

/-- Reservations hold between any two trips of a run whose requests of foreign hosts are queued only
while structs are left over: what is left is what no file has reserved and no queued request has
taken, it is not negative, the free structs are enough for what the files in use have reserved but
do not have, and no request on behalf of a file has failed to find one. -/
theorem reservations_hold {history : List Event} {d : Daemon}
    (run : Transition.Run (Transition.Guarded Trip Roomy) start history d) :
    d.nsLeft = nsockets - ∑ f, (if (d.files f).state ≠ .null then (d.files f).nsrsrv else 0) -
      (Finset.univ.filter fun i => (d.sockets i).state ≠ .null ∧ (d.sockets i).filep = none).card ∧
    0 ≤ d.nsLeft ∧
    ∑ f, (if (d.files f).state ≠ .null then (d.files f).nsrsrv - (d.files f).nsatt else 0) ≤
      (Finset.univ.filter fun i => (d.sockets i).state = .null).card ∧
    ∀ r ∈ d.failed, r.filep = none := by
  obtain ⟨ok, roomed⟩ := run_keeps Guards.roomy_lax Board.Roomed
    ⟨by decide, fun r member => absurd member List.not_mem_nil⟩
    (fun d e _ _ roomy => roomy_permits roomy) (fun b next ok held move => move_roomed ok held move)
    run
  have loose : ∀ i, (d.board.cells i).loose =
      if (d.sockets i).state ≠ .null ∧ (d.sockets i).filep = none then 1 else 0 := fun i => rfl
  have unused : ∀ i, (d.board.cells i).unused = if (d.sockets i).state = .null then 1 else 0 :=
    fun i => rfl
  have held : ∀ f, (d.board.entries f).held =
      if (d.files f).state ≠ .null then (d.files f).nsrsrv else 0 := by
    intro f
    show (if (d.files f).state = .null then 0 else (d.files f).nsrsrv) = _
    split <;> simp [*]
  have owed : ∀ f, (d.board.entries f).owed =
      if (d.files f).state ≠ .null then (d.files f).nsrsrv - (d.files f).nsatt else 0 := by
    intro f
    show (if (d.files f).state = .null then 0 else (d.files f).nsrsrv) -
      (if (d.files f).state = .null then 0 else (d.files f).nsatt) = _
    split <;> simp [*]
  have left := ok.nsLeft
  have free := structs_free ok
  rw [Finset.sum_congr rfl fun i _ => loose i, Finset.sum_boole,
    Finset.sum_congr rfl fun f _ => held f] at left
  rw [Finset.sum_congr rfl fun i _ => unused i, Finset.sum_boole,
    Finset.sum_congr rfl fun f _ => owed f] at free
  refine ⟨left, roomed.left, ?_, roomed.failed⟩
  have isLeft := roomed.left
  omega

/-- A server waits for its contact connection, and host 1 sends a message with a number of requests
that no socket fits. -/
def requested (n : Nat) : List Event :=
  [⟨.userOpen ⟨false, true, false, false, false, false, 1, 0, 0, 0, 0, 0, 0⟩, 0⟩,
    ⟨.rcv ⟨0, 1, 0, 0, (List.replicate n [2, 0, 0, 0, 1, 0, 0, 0, 16, 8]).flatten, 0⟩ fun _ => false,
      0⟩]

theorem reservations_hold_two : (0 : Int) ≤ ((requested 2).foldl trip start).nsLeft :=
  (reservations_hold (run_meet (by decide +kernel))).2.1

/-- Sixty-two requests overdraw what a server's file has left over. -/
theorem requests_overdraw :
    Transition.Run Trip start (requested 62) ((requested 62).foldl trip start) ∧
      ((requested 62).foldl trip start).nsLeft < 0 :=
  ⟨run_events _, by decide +kernel⟩

end Daemon

end NetworkUnix.Ncpd
