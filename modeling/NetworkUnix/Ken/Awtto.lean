/-
This file models the clock of the await system call: the times at which processes are to be woken,
kept as circular values of a byte, and the routine that is called once a second while some process
waits. It proves that a process that is not awakened otherwise is woken in time, as long as no
process asks for the longest time just when the clock starts.
-/

import NetworkUnix.Lib.Run
import Mathlib.Logic.Function.Basic
import Mathlib.Tactic.SplitIfs

namespace NetworkUnix.Ken

open Function

/-- NPROC -/
def nproc : Nat := 28

/-- cirmin -/
def cirmin (r x y : Nat) : Nat :=
  let x := if x < r then x + 256 else x
  let y := if y < r then y + 256 else y
  if x < y then x % 256 else y % 256

/-- Where a process is: elsewhere, asleep in `awt`, or woken and about to go on there. -/
inductive Place
  | elsewhere
  | asleep
  | woken
  deriving DecidableEq

/-- What the process that runs in the kernel is doing in `awt`, if it is there: it has seen that it
was not awakened, or it has set up its time, with the clock locked out, and goes to sleep. -/
inductive Stage
  | checked (tim : Int)
  | going
  deriving DecidableEq

/-- The clock, 0 when it is not running, the next time when some process needs a poke, and the
times of the processes; their flags and places; the pending callouts of `awtto`; and the process in
`awt`. -/
structure Await where
  now : Nat
  nxttim : Nat
  awttim : Nat → Nat
  sawake : Nat → Bool
  place : Nat → Place
  callouts : Nat
  current : Option (Nat × Stage)

namespace Await

/-- wakeup, of a process that sleeps on its flag -/
def wakeup (s : Await) (p : Nat) : Await :=
  if s.place p = .asleep then { s with place := Function.update s.place p .woken } else s

/-- A process is given the flag and woken. -/
def poke (s : Await) (p : Nat) : Await :=
  { s with sawake := Function.update s.sawake p true }.wakeup p

/-- The exit of `awt`. -/
def awtex (s : Await) (p : Nat) : Await :=
  { s with
    sawake := Function.update s.sawake p false
    awttim := Function.update s.awttim p 0 }

/-- The time at which a process is to be woken. -/
def deadline (now : Nat) (tim : Int) : Nat :=
  let tim := if 255 < tim then 255 else tim.toNat
  let i := now + tim
  let i := if now = 0 then i + 1 else i
  let i := i % 256
  if i = 0 then i + 1 else i

/-- The part of `awt` that sets up the timeout. -/
def setup (s : Await) (p : Nat) (tim : Int) : Await :=
  let i := deadline s.now tim
  let s := { s with awttim := Function.update s.awttim p i }
  if s.now = 0 then { s with now := s.now + 1, nxttim := i, callouts := s.callouts + 1 }
  else { s with nxttim := cirmin s.now s.nxttim i }

/-- `awtto` looks at a process. -/
def look (s : Await) (p : Nat) : Await :=
  let a := s.awttim p
  if a = s.now then s.poke p
  else if a ≠ 0 then { s with nxttim := cirmin s.now s.nxttim a }
  else s

/-- The next value of the clock. -/
def next (now : Nat) : Nat := if 255 < now then 1 else now + 1

/-- The search of `awtto` for processes to wake and for the new next time. -/
def search (s : Await) : Await := (List.range nproc).foldl look { s with nxttim := 1000 }

/-- awtto -/
def awtto (s : Await) : Await :=
  let s := { s with now := next s.now, callouts := s.callouts - 1 }
  if s.now = s.nxttim then
    let s := s.search
    if s.nxttim = 1000 then { s with now := 0, nxttim := 0 }
    else { s with callouts := s.callouts + 1 }
  else { s with callouts := s.callouts + 1 }

end Await

/-! ### Runs -/

/-- A process calls `awt`, sets up its time, and goes to sleep; the clock ticks; a process is
awakened by an activity, goes on in `awt`, or is taken out of it by a signal; and it calls
`awtclr`. -/
inductive ClockEvent
  | awt (p : Nat) (tim : Int)
  | setup
  | sleep
  | awtto
  | awake (p : Nat)
  | resume (p : Nat)
  | psig (p : Nat)
  | awtclr (p : Nat)
  deriving DecidableEq

/-- A wait: the seconds asked for, cut to 255, and the ticks since. -/
structure Wait where
  tim : Nat
  ticks : Nat
  deriving DecidableEq

/-- The waits of processes that have not been awakened otherwise, and those that `awtto` has ended,
with the process. -/
structure Clock where
  kernel : Await
  waits : Nat → Option Wait
  ended : List (Nat × Wait)

namespace Clock

/-- A process no longer waits for the clock. -/
def drop (s : Clock) (p : Nat) (kernel : Await) : Clock :=
  { s with kernel := kernel, waits := Function.update s.waits p none }

/-- The waits after a tick. -/
def ticked (s : Clock) (p : Nat) : Option Wait :=
  (s.waits p).map fun wait => { wait with ticks := wait.ticks + 1 }

/-- A wait that ends with a tick: the process has now been given the flag and woken. -/
def ends (s : Clock) (p : Nat) : Bool :=
  (s.waits p).isSome && s.kernel.awtto.sawake p && decide (s.kernel.awtto.place p = .woken)

/-- The clock ticks. -/
def awtto (s : Clock) : Clock where
  kernel := s.kernel.awtto
  waits p := if s.ends p then none else s.ticked p
  ended := s.ended ++ (List.range nproc).filterMap fun p =>
    if s.ends p then (s.ticked p).map fun wait => (p, wait) else none

/-- The effect of an event, if it can happen. -/
def act (s : Clock) : ClockEvent → Option Clock
  | .awt p tim =>
    if p < nproc ∧ s.kernel.current = none ∧ s.kernel.place p = .elsewhere then
      if tim ≤ 0 ∨ s.kernel.sawake p then some { s with kernel := s.kernel.awtex p }
      else some { s with kernel := { s.kernel with current := some (p, .checked tim) } }
    else none
  | .setup =>
    match s.kernel.current with
    | some (p, .checked tim) =>
      some { s with
        kernel := { s.kernel.setup p tim with current := some (p, .going) }
        waits := Function.update s.waits p
          (some ⟨if 255 < tim then 255 else tim.toNat, 0⟩) }
    | _ => none
  | .sleep =>
    match s.kernel.current with
    | some (p, .going) =>
      some { s with kernel := { s.kernel with
        current := none
        place := Function.update s.kernel.place p .asleep } }
    | _ => none
  | .awtto =>
    match s.kernel.current with
    | some (_, .going) => none
    | _ => if s.kernel.callouts = 0 then none else some s.awtto
  | .awake p => if p < nproc then some (s.drop p (s.kernel.poke p)) else none
  | .resume p =>
    if p < nproc ∧ s.kernel.current = none ∧ s.kernel.place p = .woken then
      some (s.drop p { s.kernel.awtex p with
        place := Function.update s.kernel.place p .elsewhere })
    else none
  | .psig p =>
    if p < nproc ∧ s.kernel.current = none ∧ s.kernel.place p ≠ .elsewhere then
      some (s.drop p { s.kernel with place := Function.update s.kernel.place p .elsewhere })
    else none
  | .awtclr p =>
    if p < nproc ∧ s.kernel.current = none ∧ s.kernel.place p = .elsewhere then
      some { s with kernel := { s.kernel with awttim := Function.update s.kernel.awttim p 0 } }
    else none

/-- The start: no process waits. -/
def start : Clock where
  kernel := ⟨0, 0, fun _ => 0, fun _ => false, fun _ => .elsewhere, 0, none⟩
  waits _ := none
  ended := []

/-- The longest time is not asked for when the clock is about to start or has just started. -/
def proper (s : Clock) : ClockEvent → Bool
  | .setup =>
    match s.kernel.current with
    | some (_, .checked tim) => decide (tim < 255) || decide (1 < s.kernel.now)
    | _ => true
  | _ => true

end Clock

/-! ### Circular times -/

/-- The ticks until the clock has a value. -/
def dist (now x : Nat) : Nat := if now < x then x - now else x + 256 - now

/-- A time that is neither zero nor now. -/
structure Ahead (now x : Nat) : Prop where
  pos : 1 ≤ x
  le : x ≤ 255
  ne : x ≠ now

theorem cirmin_ahead {now x y : Nat} (clock : now ≤ 256) (first : Ahead now x) (second : Ahead now y) :
    Ahead now (cirmin now x y) ∧ dist now (cirmin now x y) ≤ dist now x ∧
      dist now (cirmin now x y) ≤ dist now y := by
  obtain ⟨pos₁, le₁, ne₁⟩ := first
  obtain ⟨pos₂, le₂, ne₂⟩ := second
  have picked : (cirmin now x y = x ∧ dist now x ≤ dist now y) ∨
      (cirmin now x y = y ∧ dist now y ≤ dist now x) := by
    unfold cirmin dist
    simp only
    split_ifs <;> omega
  rcases picked with ⟨same, le⟩ | ⟨same, le⟩
  · rw [same]
    exact ⟨⟨pos₁, le₁, ne₁⟩, Nat.le_refl _, le⟩
  · rw [same]
    exact ⟨⟨pos₂, le₂, ne₂⟩, le, Nat.le_refl _⟩

theorem cirmin_mark {now y : Nat} (clock : now ≤ 256) (second : Ahead now y) :
    cirmin now 1000 y = y := by
  obtain ⟨pos, le, ne⟩ := second
  unfold cirmin
  simp only
  split_ifs <;> omega

theorem dist_next {now x : Nat} (running : 1 ≤ now) (clock : now ≤ 256) (pos : 1 ≤ x)
    (le : x ≤ 255) : (x = Await.next now ∧ dist now x = 1) ∨
      (x ≠ Await.next now ∧ dist now x = dist (Await.next now) x + 1) := by
  unfold dist Await.next
  split_ifs <;> omega

theorem next_clock {now : Nat} (clock : now ≤ 256) : 1 ≤ Await.next now ∧ Await.next now ≤ 256 := by
  unfold Await.next
  split_ifs <;> omega

theorem deadline_ahead {now : Nat} {tim : Int} (clock : now ≤ 256) (positive : 0 < tim)
    (proper : tim < 255 ∨ 1 < now) :
    let start := if now = 0 then 1 else now
    let cut := if 255 < tim then 255 else tim.toNat
    Ahead start (Await.deadline now tim) ∧ cut ≤ dist start (Await.deadline now tim) ∧
      dist start (Await.deadline now tim) ≤ cut + 1 := by
  intro start cut
  have bounds : 1 ≤ cut ∧ cut ≤ 255 ∧ (cut < 255 ∨ 1 < now) := by
    simp only [cut]
    split_ifs <;> omega
  have value : Await.deadline now tim =
      if ((if now = 0 then now + cut + 1 else now + cut) % 256) = 0 then
        (if now = 0 then now + cut + 1 else now + cut) % 256 + 1
      else (if now = 0 then now + cut + 1 else now + cut) % 256 := rfl
  generalize cut = cut at bounds value ⊢
  obtain ⟨pos, le, apart⟩ := bounds
  have result : 1 ≤ Await.deadline now tim ∧ Await.deadline now tim ≤ 255 ∧
      Await.deadline now tim ≠ start ∧ cut ≤ dist start (Await.deadline now tim) ∧
      dist start (Await.deadline now tim) ≤ cut + 1 := by
    rw [value]
    simp only [start]
    unfold dist
    split_ifs <;> omega
  exact ⟨⟨result.1, result.2.1, result.2.2.1⟩, result.2.2.2⟩

/-! ### The search -/

namespace Await

variable {s : Await}

theorem wakeup_place (s : Await) (p q : Nat) : (s.wakeup p).place q =
    if q = p ∧ s.place p = .asleep then .woken else s.place q := by
  unfold wakeup
  split
  next asleep =>
    show Function.update s.place p .woken q = _
    by_cases same : q = p
    · rw [same, update_self, if_pos ⟨rfl, asleep⟩]
    · rw [update_of_ne same, if_neg fun both => same both.1]
  next awake => rw [if_neg fun both => awake both.2]

/-- What `look` leaves alone. -/
structure Same (s s' : Await) : Prop where
  now : s'.now = s.now
  awttim : s'.awttim = s.awttim
  callouts : s'.callouts = s.callouts
  current : s'.current = s.current

theorem poke_same (s : Await) (p : Nat) : Same s (s.poke p) ∧ (s.poke p).nxttim = s.nxttim ∧
    (s.poke p).sawake = Function.update s.sawake p true := by
  unfold poke wakeup
  split <;> exact ⟨⟨rfl, rfl, rfl, rfl⟩, rfl, rfl⟩

theorem look_same (s : Await) (p : Nat) : Same s (s.look p) := by
  unfold look
  simp only
  split
  · exact (poke_same s p).1
  · split <;> exact ⟨rfl, rfl, rfl, rfl⟩

theorem looks_same (ps : List Nat) (s : Await) : Same s (ps.foldl look s) := by
  induction ps generalizing s with
  | nil => exact ⟨rfl, rfl, rfl, rfl⟩
  | cons p rest inductionHypothesis =>
    obtain ⟨now, awttim, callouts, current⟩ := look_same s p
    obtain ⟨now', awttim', callouts', current'⟩ := inductionHypothesis (s.look p)
    exact ⟨now'.trans now, awttim'.trans awttim, callouts'.trans callouts, current'.trans current⟩

theorem looks_poke (ps : List Nat) (s : Await) (p : Nat) :
    (p ∈ ps → s.awttim p = s.now → (ps.foldl look s).sawake p = true ∧
      (s.place p = .asleep → (ps.foldl look s).place p = .woken)) ∧
    (s.place p = .woken → (ps.foldl look s).place p = .woken) ∧
    (s.awttim p ≠ s.now → (ps.foldl look s).place p = s.place p) ∧
    (s.sawake p = true → (ps.foldl look s).sawake p = true) := by
  induction ps generalizing s with
  | nil => exact ⟨fun mem => absurd mem List.not_mem_nil, id, fun _ => rfl, id⟩
  | cons q rest inductionHypothesis =>
    obtain ⟨inRest, stays, other, flag⟩ := inductionHypothesis (s.look q)
    obtain ⟨now, awttim, -, -⟩ := look_same s q
    rw [now, awttim] at inRest other
    have placed : (s.look q).place p =
        if s.awttim q = s.now ∧ p = q ∧ s.place q = .asleep then .woken else s.place p := by
      unfold look
      simp only
      split
      next due =>
        show (Await.wakeup { s with sawake := Function.update s.sawake q true } q).place p = _
        rw [wakeup_place]
        simp only [due, true_and]
      next notDue =>
        refine Eq.trans ?_ (if_neg fun all => notDue all.1).symm
        split <;> rfl
    have flagged : (s.sawake p = true ∨ (p = q ∧ s.awttim q = s.now)) →
        (s.look q).sawake p = true := by
      intro either
      unfold look
      simp only
      split
      next due =>
        rw [(poke_same s q).2.2]
        by_cases same : p = q
        · rw [same, update_self]
        · rw [update_of_ne same]
          exact either.resolve_right fun both => same both.1
      next notDue =>
        have before := either.resolve_right fun both => notDue both.2
        split <;> exact before
    refine ⟨fun mem due => ?_, fun woken => stays ?_, fun notDue => ?_, fun before =>
      flag (flagged (.inl before))⟩
    · rcases List.mem_cons.mp mem with rfl | mem
      · refine ⟨flag (flagged (.inr ⟨rfl, due⟩)), fun asleep => stays ?_⟩
        rw [placed, if_pos ⟨due, rfl, asleep⟩]
      · refine ⟨(inRest mem due).1, fun asleep => ?_⟩
        by_cases same : s.awttim q = s.now ∧ p = q ∧ s.place q = .asleep
        · exact stays (by rw [placed, if_pos same])
        · exact (inRest mem due).2 (by rw [placed, if_neg same, asleep])
    · rw [placed]
      split
      · rfl
      · exact woken
    · rw [List.foldl_cons, other notDue, placed, if_neg]
      rintro ⟨due, rfl, -⟩
      exact notDue due

/-- The next time is ahead, and no later than that of any process whose time has not come; it is the
mark for no time only if there is no such process. -/
theorem looks_nxttim (ps : List Nat) (s : Await) (clock : s.now ≤ 256)
    (times : ∀ p, s.awttim p ≤ 255) (before : s.nxttim = 1000 ∨ Ahead s.now s.nxttim) :
    ((ps.foldl look s).nxttim = 1000 ∧ s.nxttim = 1000 ∧
        ∀ p ∈ ps, s.awttim p = 0 ∨ s.awttim p = s.now) ∨
      (Ahead s.now (ps.foldl look s).nxttim ∧
        (s.nxttim ≠ 1000 → dist s.now (ps.foldl look s).nxttim ≤ dist s.now s.nxttim) ∧
        ∀ p ∈ ps, s.awttim p ≠ 0 → s.awttim p ≠ s.now →
          dist s.now (ps.foldl look s).nxttim ≤ dist s.now (s.awttim p)) := by
  induction ps generalizing s with
  | nil =>
    rcases before with mark | ahead
    · exact .inl ⟨mark, mark, fun _ mem => absurd mem List.not_mem_nil⟩
    · exact .inr ⟨ahead, fun _ => Nat.le_refl _, fun _ mem => absurd mem List.not_mem_nil⟩
  | cons q rest inductionHypothesis =>
    obtain ⟨now, awttim, -, -⟩ := look_same s q
    have looked : ((s.awttim q = 0 ∨ s.awttim q = s.now) ∧ (s.look q).nxttim = s.nxttim) ∨
        (s.awttim q ≠ 0 ∧ s.awttim q ≠ s.now ∧ Ahead s.now (s.look q).nxttim ∧
          (s.nxttim ≠ 1000 → dist s.now (s.look q).nxttim ≤ dist s.now s.nxttim) ∧
          dist s.now (s.look q).nxttim ≤ dist s.now (s.awttim q)) := by
      unfold look
      simp only
      split
      next due => exact .inl ⟨.inr due, (poke_same s q).2.1⟩
      next notDue =>
        split
        next nonzero =>
          have second : Ahead s.now (s.awttim q) := ⟨Nat.pos_of_ne_zero nonzero, times q, notDue⟩
          refine .inr ⟨nonzero, notDue, ?_⟩
          rcases before with mark | ahead
          · show Ahead s.now (cirmin s.now s.nxttim (s.awttim q)) ∧ _ ∧
              dist s.now (cirmin s.now s.nxttim (s.awttim q)) ≤ _
            rw [mark, cirmin_mark clock second]
            exact ⟨second, fun unmarked => absurd rfl unmarked, Nat.le_refl _⟩
          · obtain ⟨result, first, le⟩ := cirmin_ahead clock ahead second
            exact ⟨result, fun _ => first, le⟩
        next zero => exact .inl ⟨.inl (Decidable.not_not.mp zero), rfl⟩
    have after : (s.look q).nxttim = 1000 ∨ Ahead (s.look q).now (s.look q).nxttim := by
      rw [now]
      rcases looked with ⟨-, same⟩ | ⟨-, -, ahead, -⟩
      · rw [same]
        exact before
      · exact .inr ahead
    have further := inductionHypothesis (s.look q) (by rw [now]; exact clock)
      (by rw [awttim]; exact times) after
    rw [now, awttim] at further
    rw [List.foldl_cons]
    rcases further with ⟨mark, marked, done⟩ | ⟨ahead, le, each⟩
    · rcases looked with ⟨idle, same⟩ | ⟨-, -, ahead, -⟩
      · refine .inl ⟨mark, same ▸ marked, fun p mem => ?_⟩
        rcases List.mem_cons.mp mem with rfl | mem
        · exact idle
        · exact done p mem
      · have := ahead.le
        omega
    · refine .inr ⟨ahead, fun unmarked => ?_, fun p mem nonzero notDue => ?_⟩
      · rcases looked with ⟨-, same⟩ | ⟨-, -, aheadThere, nearer, -⟩
        · rw [same] at le
          exact le unmarked
        · have := aheadThere.le
          exact Nat.le_trans (le (by omega)) (nearer unmarked)
      · rcases List.mem_cons.mp mem with rfl | mem
        · rcases looked with ⟨idle, -⟩ | ⟨-, -, aheadThere, -, nearer⟩
          · rcases idle with zero | due
            · exact absurd zero nonzero
            · exact absurd due notDue
          · have := aheadThere.le
            exact Nat.le_trans (le (by omega)) nearer
        · exact each p mem nonzero notDue

/-- What the search does: those whose time has come are woken, no other process is; and the next
time is ahead and no later than any other time, or there is none. -/
structure Found (s found : Await) : Prop where
  same : Same s found
  pokes : ∀ p, p < nproc → s.awttim p = s.now → s.place p = .asleep →
    found.sawake p = true ∧ found.place p = .woken
  leaves : ∀ p, s.awttim p ≠ s.now → found.place p = s.place p
  next : (found.nxttim = 1000 ∧ ∀ p, p < nproc → s.awttim p = 0 ∨ s.awttim p = s.now) ∨
    (Ahead s.now found.nxttim ∧ ∀ p, p < nproc → s.awttim p ≠ 0 → s.awttim p ≠ s.now →
      dist s.now found.nxttim ≤ dist s.now (s.awttim p))

theorem search_found (s : Await) (clock : s.now ≤ 256) (times : ∀ p, s.awttim p ≤ 255) :
    Found s s.search := by
  unfold search
  generalize every : List.range nproc = ps
  have mem : ∀ p, p < nproc → p ∈ ps := fun p proc => every ▸ List.mem_range.mpr proc
  obtain ⟨now, awttim, callouts, current⟩ := looks_same ps { s with nxttim := 1000 }
  refine ⟨⟨now, awttim, callouts, current⟩, fun p proc due asleep => ?_, fun p notDue => ?_, ?_⟩
  · obtain ⟨flagged, woken⟩ := (looks_poke ps { s with nxttim := 1000 } p).1 (mem p proc) due
    exact ⟨flagged, woken asleep⟩
  · exact (looks_poke ps { s with nxttim := 1000 } p).2.2.1 notDue
  · rcases looks_nxttim ps { s with nxttim := 1000 } clock times (.inl rfl) with
      ⟨mark, -, idle⟩ | ⟨ahead, -, nearest⟩
    · exact .inl ⟨mark, fun p proc => idle p (mem p proc)⟩
    · exact .inr ⟨ahead, fun p proc => nearest p (mem p proc)⟩

end Await

/-! ### The invariant -/

/-- A wait is in time: the clock runs, the deadline is ahead at the ticks that are left, and the
next time of `awtto` is no later. -/
structure InTime (now nxttim deadline : Nat) (wait : Wait) : Prop where
  running : now ≠ 0
  ahead : Ahead now deadline
  low : wait.tim ≤ wait.ticks + dist now deadline
  high : wait.ticks + dist now deadline ≤ wait.tim + 1
  nearest : dist now nxttim ≤ dist now deadline

namespace Clock

/-- All times are bytes, `awtto` is to be called exactly while the clock runs, and its next time is
ahead; every process that waits does in time, and is about to sleep or asleep; and the waits that
have ended did in time. -/
structure Sound (s : Clock) : Prop where
  clock : s.kernel.now ≤ 256
  times : ∀ p, s.kernel.awttim p ≤ 255
  callouts : s.kernel.callouts = if s.kernel.now = 0 then 0 else 1
  nxttim : s.kernel.now ≠ 0 → Ahead s.kernel.now s.kernel.nxttim
  wait : ∀ p wait, s.waits p = some wait → p < nproc ∧
    InTime s.kernel.now s.kernel.nxttim (s.kernel.awttim p) wait ∧
    (s.kernel.current = some (p, .going) ∨ s.kernel.place p = .asleep)
  ended : ∀ p wait, (p, wait) ∈ s.ended → wait.tim ≤ wait.ticks ∧ wait.ticks ≤ wait.tim + 1
  current : ∀ p tim, s.kernel.current = some (p, .checked tim) → p < nproc ∧ 0 < tim

theorem start_sound : start.Sound where
  clock := Nat.zero_le _
  times _ := Nat.zero_le _
  callouts := rfl
  nxttim running := absurd rfl running
  wait _ _ isWait := by cases isWait
  ended _ _ mem := absurd mem List.not_mem_nil
  current _ _ isCurrent := by cases isCurrent

variable {s : Clock}

theorem Sound.frame (sound : s.Sound) {kernel : Await} {waits : Nat → Option Wait}
    (now : kernel.now = s.kernel.now) (nxttim : kernel.nxttim = s.kernel.nxttim)
    (callouts : kernel.callouts = s.kernel.callouts) (times : ∀ p, kernel.awttim p ≤ 255)
    (fewer : ∀ p wait, waits p = some wait → s.waits p = some wait ∧
      kernel.awttim p = s.kernel.awttim p ∧
      (kernel.current = some (p, .going) ∨ kernel.place p = .asleep))
    (current : ∀ p tim, kernel.current = some (p, .checked tim) → p < nproc ∧ 0 < tim) :
    Sound ⟨kernel, waits, s.ended⟩ := by
  refine ⟨?_, times, ?_, ?_, fun p wait isWait => ?_, sound.ended, current⟩
  · exact now ▸ sound.clock
  · show kernel.callouts = if kernel.now = 0 then 0 else 1
    rw [callouts, now]
    exact sound.callouts
  · intro running
    show Ahead kernel.now kernel.nxttim
    rw [now, nxttim]
    exact sound.nxttim (now ▸ running)
  · obtain ⟨before, awttim, place⟩ := fewer p wait isWait
    obtain ⟨proc, inTime, -⟩ := sound.wait p wait before
    refine ⟨proc, ?_, place⟩
    show InTime kernel.now kernel.nxttim (kernel.awttim p) wait
    rw [now, nxttim, awttim]
    exact inTime

theorem Sound.asleep (sound : s.Sound) {p : Nat} {wait : Wait} (isWait : s.waits p = some wait)
    (notGoing : s.kernel.current ≠ some (p, .going)) : s.kernel.place p = .asleep :=
  (sound.wait p wait isWait).2.2.resolve_left notGoing

theorem update_le {awttim : Nat → Nat} (times : ∀ p, awttim p ≤ 255) (p q : Nat) {i : Nat}
    (le : i ≤ 255) : Function.update awttim p i q ≤ 255 := by
  by_cases same : q = p
  · rw [same, update_self]
    exact le
  · rw [update_of_ne same]
    exact times q

theorem Sound.clear (sound : s.Sound) {p : Nat} (idle : s.kernel.current = none)
    (elsewhere : s.kernel.place p = .elsewhere) (sawake : Nat → Bool) :
    Sound { s with kernel := { s.kernel with
      sawake := sawake
      awttim := Function.update s.kernel.awttim p 0 } } := by
  have asleep : ∀ q wait, s.waits q = some wait → s.kernel.place q = .asleep := by
    intro q wait isWait
    refine sound.asleep isWait ?_
    rw [idle]
    exact (Option.some_ne_none _).symm
  refine sound.frame rfl rfl rfl (fun q => update_le sound.times p q (Nat.zero_le _))
    (fun q wait isWait => ⟨isWait, ?_, .inr (asleep q wait isWait)⟩) sound.current
  refine update_of_ne ?_ ..
  rintro rfl
  rw [asleep q wait isWait] at elsewhere
  cases elsewhere

theorem Sound.drop (sound : s.Sound) {p : Nat} {kernel : Await} (now : kernel.now = s.kernel.now)
    (nxttim : kernel.nxttim = s.kernel.nxttim) (callouts : kernel.callouts = s.kernel.callouts)
    (times : ∀ q, kernel.awttim q ≤ 255) (current : kernel.current = s.kernel.current)
    (others : ∀ q, q ≠ p → kernel.awttim q = s.kernel.awttim q ∧ kernel.place q = s.kernel.place q) :
    (s.drop p kernel).Sound := by
  refine sound.frame now nxttim callouts times (fun q wait isWait => ?_)
    fun q tim isCurrent => sound.current q tim (current ▸ isCurrent)
  by_cases same : q = p
  · rw [same, update_self] at isWait
    cases isWait
  · rw [update_of_ne same] at isWait
    rw [current, (others q same).1, (others q same).2]
    exact ⟨isWait, rfl, (sound.wait q wait isWait).2.2⟩

theorem Sound.awake (sound : s.Sound) (p : Nat) : (s.drop p (s.kernel.poke p)).Sound := by
  obtain ⟨⟨now, awttim, callouts, current⟩, nxttim, -⟩ := Await.poke_same s.kernel p
  refine sound.drop now nxttim callouts (fun q => awttim ▸ sound.times q) current
    fun q differ => ⟨congrFun awttim q, ?_⟩
  unfold Await.poke
  rw [Await.wakeup_place, if_neg fun both => differ both.1]

theorem Sound.setup (sound : s.Sound) {p : Nat} {tim : Int}
    (isCurrent : s.kernel.current = some (p, .checked tim)) (proper : tim < 255 ∨ 1 < s.kernel.now) :
    Sound { s with
      kernel := { s.kernel.setup p tim with current := some (p, .going) }
      waits := Function.update s.waits p (some ⟨if 255 < tim then 255 else tim.toNat, 0⟩) } := by
  obtain ⟨proc, positive⟩ := sound.current p tim isCurrent
  obtain ⟨ahead, low, high⟩ := deadline_ahead sound.clock positive proper
  have times : ∀ q, Function.update s.kernel.awttim p (Await.deadline s.kernel.now tim) q ≤ 255 :=
    fun q => update_le sound.times p q ahead.le
  have new : ∀ q wait, Function.update s.waits p
      (some ⟨if 255 < tim then 255 else tim.toNat, 0⟩) q = some wait →
      (q = p ∧ wait = ⟨if 255 < tim then 255 else tim.toNat, 0⟩) ∨
        (q ≠ p ∧ s.waits q = some wait ∧ s.kernel.place q = .asleep) := by
    intro q wait isWait
    by_cases same : q = p
    · rw [same, update_self] at isWait
      exact .inl ⟨same, (Option.some.inj isWait).symm⟩
    · rw [update_of_ne same] at isWait
      refine .inr ⟨same, isWait, sound.asleep isWait fun going => ?_⟩
      rw [isCurrent] at going
      cases going
  by_cases off : s.kernel.now = 0
  · simp only [off, ite_true] at ahead low high times
    have kernel : s.kernel.setup p tim = { s.kernel with
        awttim := Function.update s.kernel.awttim p (Await.deadline 0 tim)
        now := 1
        nxttim := Await.deadline 0 tim
        callouts := 1 } := by
      have callouts := sound.callouts
      rw [if_pos off] at callouts
      unfold Await.setup
      simp only [off, callouts, ite_true]
    rw [kernel]
    refine ⟨Nat.le_of_ble_eq_true rfl, times, rfl, fun _ => ahead, fun q wait isWait => ?_,
      sound.ended, fun q tim isCurrent => ?_⟩
    · rcases new q wait isWait with ⟨rfl, rfl⟩ | ⟨-, isWait, -⟩
      · refine ⟨proc, ?_, .inl rfl⟩
        show InTime 1 (Await.deadline 0 tim) (Function.update s.kernel.awttim q _ q) _
        rw [update_self]
        exact ⟨Nat.one_ne_zero, ahead, (Nat.zero_add _).symm ▸ low, (Nat.zero_add _).symm ▸ high,
          Nat.le_refl _⟩
      · exact absurd off (sound.wait q wait isWait).2.1.running
    · cases isCurrent
  · simp only [off, ite_false] at ahead low high
    have kernel : s.kernel.setup p tim = { s.kernel with
        awttim := Function.update s.kernel.awttim p (Await.deadline s.kernel.now tim)
        nxttim := cirmin s.kernel.now s.kernel.nxttim (Await.deadline s.kernel.now tim) } := by
      unfold Await.setup
      simp only [off, ite_false]
    rw [kernel]
    obtain ⟨nxttim, older, newer⟩ := cirmin_ahead sound.clock (sound.nxttim off) ahead
    refine ⟨sound.clock, times, sound.callouts, fun _ => nxttim, fun q wait isWait => ?_,
      sound.ended, fun q tim isCurrent => ?_⟩
    · rcases new q wait isWait with ⟨rfl, rfl⟩ | ⟨differ, isWait, asleep⟩
      · refine ⟨proc, ?_, .inl rfl⟩
        show InTime s.kernel.now (cirmin _ _ _) (Function.update s.kernel.awttim q _ q) _
        rw [update_self]
        exact ⟨off, ahead, (Nat.zero_add _).symm ▸ low, (Nat.zero_add _).symm ▸ high, newer⟩
      · obtain ⟨proc', ⟨running, aheadThere, low', high', nearest⟩, -⟩ := sound.wait q wait isWait
        refine ⟨proc', ?_, .inr asleep⟩
        show InTime s.kernel.now (cirmin _ _ _) (Function.update s.kernel.awttim p _ q) _
        rw [update_of_ne differ]
        exact ⟨running, aheadThere, low', high', Nat.le_trans older nearest⟩
    · cases isCurrent

/-! ### A tick -/

theorem awtto_quiet {s : Await} (quiet : Await.next s.now ≠ s.nxttim) :
    s.awtto = { s with now := Await.next s.now, callouts := s.callouts - 1 + 1 } := by
  unfold Await.awtto
  exact if_neg quiet

theorem awtto_due {s : Await} (clock : s.now ≤ 256) (times : ∀ p, s.awttim p ≤ 255)
    (due : Await.next s.now = s.nxttim) : ∃ found,
      Await.Found { s with now := Await.next s.now, callouts := s.callouts - 1 } found ∧
      s.awtto = if found.nxttim = 1000 then { found with now := 0, nxttim := 0 }
        else { found with callouts := found.callouts + 1 } := by
  refine ⟨_, Await.search_found { s with now := Await.next s.now, callouts := s.callouts - 1 }
    (next_clock clock).2 times, ?_⟩
  unfold Await.awtto
  exact if_pos due

theorem awtto_wakes {s : Await} (clock : s.now ≤ 256) (times : ∀ p, s.awttim p ≤ 255) :
    s.awtto.awttim = s.awttim ∧ s.awtto.current = s.current ∧
    (Await.next s.now = s.nxttim → ∀ p, p < nproc → s.awttim p = Await.next s.now →
      s.place p = .asleep → s.awtto.sawake p = true ∧ s.awtto.place p = .woken) ∧
    ∀ p, (s.awttim p ≠ Await.next s.now ∨ Await.next s.now ≠ s.nxttim) →
      s.awtto.place p = s.place p := by
  by_cases due : Await.next s.now = s.nxttim
  · obtain ⟨found, ⟨⟨-, awttim, -, current⟩, pokes, leaves, -⟩, value⟩ := awtto_due clock times due
    have parts : s.awtto.awttim = found.awttim ∧ s.awtto.current = found.current ∧
        s.awtto.sawake = found.sawake ∧ s.awtto.place = found.place := by
      rw [value]
      split <;> exact ⟨rfl, rfl, rfl, rfl⟩
    obtain ⟨awttim', current', sawake, place⟩ := parts
    refine ⟨awttim'.trans awttim, current'.trans current, fun _ p proc isDue asleep => ?_,
      fun p either => ?_⟩
    · rw [sawake, place]
      exact pokes p proc isDue asleep
    · rw [place]
      exact leaves p (either.resolve_right fun quiet => quiet due)
  · rw [awtto_quiet due]
    exact ⟨rfl, rfl, fun isDue => absurd isDue due, fun _ _ => rfl⟩

theorem Sound.ends_iff (sound : s.Sound) (notGoing : ∀ p, s.kernel.current ≠ some (p, .going))
    {p : Nat} {wait : Wait} (isWait : s.waits p = some wait) :
    s.ends p = true ↔ s.kernel.awttim p = Await.next s.kernel.now := by
  obtain ⟨proc, ⟨running, ahead, -, -, nearest⟩, -⟩ := sound.wait p wait isWait
  have asleep := sound.asleep isWait (notGoing p)
  have nxttim := sound.nxttim running
  have positive : 1 ≤ s.kernel.now := Nat.one_le_iff_ne_zero.mpr running
  obtain ⟨-, -, wakes, leaves⟩ := awtto_wakes sound.clock sound.times
  unfold ends
  rw [isWait, Option.isSome_some, Bool.true_and, Bool.and_eq_true, decide_eq_true_eq]
  constructor
  · rintro ⟨-, woken⟩
    by_contra notDue
    rw [leaves p (.inl notDue)] at woken
    cases asleep.symm.trans woken
  · intro isDue
    refine wakes ?_ p proc isDue asleep
    rcases dist_next positive sound.clock nxttim.pos nxttim.le with ⟨first, -⟩ | ⟨-, later⟩
    · exact first.symm
    · rcases dist_next positive sound.clock ahead.pos ahead.le with ⟨-, one⟩ | ⟨notDue, -⟩
      · rw [later, one] at nearest
        have clock := next_clock sound.clock
        have nonzero := nxttim.pos
        have pos : 1 ≤ dist (Await.next s.kernel.now) s.kernel.nxttim := by
          unfold dist
          split_ifs <;> omega
        omega
      · exact absurd isDue notDue

/-- The clock ticks. -/
theorem Sound.awtto (sound : s.Sound) (notGoing : ∀ p, s.kernel.current ≠ some (p, .going))
    (pending : s.kernel.callouts ≠ 0) : s.awtto.Sound := by
  have running : s.kernel.now ≠ 0 := fun off => pending (by rw [sound.callouts, if_pos off])
  have one : s.kernel.callouts = 1 := by rw [sound.callouts, if_neg running]
  have positive : 1 ≤ s.kernel.now := Nat.one_le_iff_ne_zero.mpr running
  have nxttim := sound.nxttim running
  obtain ⟨low, high⟩ := next_clock sound.clock
  obtain ⟨awttim, current, -, leaves⟩ := awtto_wakes sound.clock sound.times
  have remains : ∀ p wait, s.awtto.waits p = some wait → ∃ before, s.waits p = some before ∧
      wait = { before with ticks := before.ticks + 1 } ∧
      s.kernel.awttim p ≠ Await.next s.kernel.now ∧ s.kernel.awtto.place p = .asleep := by
    intro p wait isWait
    change (if s.ends p then none else s.ticked p) = some wait at isWait
    split at isWait
    next => cases isWait
    next goes =>
      obtain ⟨before, isBefore, same⟩ := Option.map_eq_some_iff.mp isWait
      have notDue := mt (sound.ends_iff notGoing isBefore).mpr goes
      have asleep := sound.asleep isBefore (notGoing p)
      exact ⟨before, isBefore, same.symm, notDue, (leaves p (.inl notDue)).trans asleep⟩
  have ended : ∀ p wait, (p, wait) ∈ s.awtto.ended →
      wait.tim ≤ wait.ticks ∧ wait.ticks ≤ wait.tim + 1 := by
    intro p wait mem
    rcases List.mem_append.mp mem with older | new
    · exact sound.ended p wait older
    · obtain ⟨q, -, found⟩ := List.mem_filterMap.mp new
      split at found
      next goes =>
        obtain ⟨after, isAfter, same⟩ := Option.map_eq_some_iff.mp found
        cases same
        obtain ⟨before, isBefore, same⟩ := Option.map_eq_some_iff.mp isAfter
        obtain ⟨-, ⟨-, ahead, lowTicks, highTicks, -⟩, -⟩ := sound.wait p before isBefore
        have due := (sound.ends_iff notGoing isBefore).mp goes
        rcases dist_next positive sound.clock ahead.pos ahead.le with ⟨-, distOne⟩ | ⟨notDue, -⟩
        · rw [distOne] at lowTicks highTicks
          rw [← same]
          exact ⟨lowTicks, highTicks⟩
        · exact absurd due notDue
      next => cases found
  have later : ∀ p before, s.waits p = some before →
      s.kernel.awttim p ≠ Await.next s.kernel.now →
      ∀ nxttim', dist (Await.next s.kernel.now) nxttim' ≤
          dist (Await.next s.kernel.now) (s.kernel.awttim p) →
        InTime (Await.next s.kernel.now) nxttim' (s.kernel.awttim p)
          { before with ticks := before.ticks + 1 } := by
    intro p before isBefore notDue nxttim' nearest
    obtain ⟨-, ⟨-, ahead, lowTicks, highTicks, -⟩, -⟩ := sound.wait p before isBefore
    rcases dist_next positive sound.clock ahead.pos ahead.le with ⟨due, -⟩ | ⟨-, nearer⟩
    · exact absurd due notDue
    · refine ⟨by omega, ⟨ahead.pos, ahead.le, notDue⟩, ?_, ?_, nearest⟩
      · show before.tim ≤ before.ticks + 1 + _
        omega
      · show before.ticks + 1 + _ ≤ before.tim + 1
        omega
  have times : ∀ p, s.awtto.kernel.awttim p ≤ 255 := fun p => by
    show s.kernel.awtto.awttim p ≤ 255
    rw [awttim]
    exact sound.times p
  have checked : ∀ p tim, s.awtto.kernel.current = some (p, .checked tim) → p < nproc ∧ 0 < tim := by
    intro p tim isCurrent
    exact sound.current p tim (current ▸ isCurrent)
  by_cases due : Await.next s.kernel.now = s.kernel.nxttim
  · obtain ⟨found, ⟨⟨now, -, callouts, -⟩, -, -, search⟩, value⟩ :=
      awtto_due sound.clock sound.times due
    simp only at now callouts search
    rw [one, Nat.sub_self] at callouts
    rcases search with ⟨mark, idle⟩ | ⟨ahead, nearest⟩
    · rw [if_pos mark] at value
      have none : ∀ p, s.awtto.waits p = none := by
        intro p
        cases isWait : s.awtto.waits p with
        | none => rfl
        | some wait =>
          obtain ⟨before, isBefore, -, notDue, -⟩ := remains p wait isWait
          obtain ⟨proc, ⟨-, ahead, -⟩, -⟩ := sound.wait p before isBefore
          have pos := ahead.pos
          rcases idle p proc with zero | isDue
          · omega
          · exact absurd isDue notDue
      refine ⟨?_, times, ?_, ?_, fun p wait isWait => ?_, ended, checked⟩
      · show s.kernel.awtto.now ≤ 256
        rw [value]
        exact Nat.zero_le _
      · show s.kernel.awtto.callouts = if s.kernel.awtto.now = 0 then 0 else 1
        rw [value]
        exact callouts
      · intro isRunning
        change s.kernel.awtto.now ≠ 0 at isRunning
        rw [value] at isRunning
        exact absurd rfl isRunning
      · cases (none p).symm.trans isWait
    · have unmarked : found.nxttim ≠ 1000 := by
        have := ahead.le
        omega
      rw [if_neg unmarked] at value
      refine ⟨?_, times, ?_, fun _ => ?_, fun p wait isWait => ?_, ended, checked⟩
      · show s.kernel.awtto.now ≤ 256
        rw [value, show _ = found.now from rfl, now]
        exact high
      · show s.kernel.awtto.callouts = if s.kernel.awtto.now = 0 then 0 else 1
        rw [value]
        show found.callouts + 1 = if found.now = 0 then 0 else 1
        rw [callouts, now, if_neg (by omega)]
      · show Ahead s.kernel.awtto.now s.kernel.awtto.nxttim
        rw [value]
        show Ahead found.now found.nxttim
        rw [now]
        exact ahead
      · obtain ⟨before, isBefore, rfl, notDue, asleep⟩ := remains p wait isWait
        obtain ⟨proc, ⟨-, aheadThere, -⟩, -⟩ := sound.wait p before isBefore
        have pos := aheadThere.pos
        refine ⟨proc, ?_, .inr asleep⟩
        show InTime s.kernel.awtto.now s.kernel.awtto.nxttim (s.kernel.awtto.awttim p) _
        rw [awttim, value]
        show InTime found.now found.nxttim _ _
        rw [now]
        exact later p before isBefore notDue _
          (nearest p proc (Nat.one_le_iff_ne_zero.mp pos) notDue)
  · have value := awtto_quiet due
    rw [one] at value
    refine ⟨?_, times, ?_, fun _ => ?_, fun p wait isWait => ?_, ended, checked⟩
    · show s.kernel.awtto.now ≤ 256
      rw [value]
      exact high
    · show s.kernel.awtto.callouts = if s.kernel.awtto.now = 0 then 0 else 1
      rw [value]
      show 1 = if Await.next s.kernel.now = 0 then 0 else 1
      rw [if_neg (by omega)]
    · show Ahead s.kernel.awtto.now s.kernel.awtto.nxttim
      rw [value]
      exact ⟨nxttim.pos, nxttim.le, fun same => due same.symm⟩
    · obtain ⟨before, isBefore, rfl, notDue, asleep⟩ := remains p wait isWait
      obtain ⟨proc, ⟨-, ahead, -, -, nearest⟩, -⟩ := sound.wait p before isBefore
      refine ⟨proc, ?_, .inr asleep⟩
      show InTime s.kernel.awtto.now s.kernel.awtto.nxttim (s.kernel.awtto.awttim p) _
      rw [awttim, value]
      refine later p before isBefore notDue _ ?_
      rcases dist_next positive sound.clock nxttim.pos nxttim.le with ⟨first, -⟩ | ⟨-, nxtNearer⟩
      · exact absurd first.symm due
      · rcases dist_next positive sound.clock ahead.pos ahead.le with ⟨isDue, -⟩ | ⟨-, nearer⟩
        · exact absurd isDue notDue
        · show dist _ s.kernel.nxttim ≤ _
          omega

/-! ### Runs -/

/-- A step keeps the invariant. -/
theorem Sound.act (sound : s.Sound) {event : ClockEvent} {next : Clock}
    (proper : s.proper event = true) (taken : s.act event = some next) : next.Sound := by
  cases event with
  | awt p tim =>
    change (if _ then _ else _) = some next at taken
    split at taken
    next enters =>
      obtain ⟨proc, idle, elsewhere⟩ := enters
      split at taken
      next =>
        cases taken
        exact sound.clear idle elsewhere _
      next stays =>
        cases taken
        refine sound.frame rfl rfl rfl sound.times (fun q wait isWait => ⟨isWait, rfl, .inr ?_⟩) ?_
        · refine sound.asleep isWait ?_
          rw [idle]
          exact (Option.some_ne_none _).symm
        · rintro q tim' ⟨⟩
          exact ⟨proc, Int.not_le.mp fun short => stays (.inl short)⟩
    next => cases taken
  | setup =>
    change (match s.kernel.current with | some (p, .checked tim) => _ | _ => none) = some next at taken
    split at taken
    next p tim isCurrent =>
      cases taken
      refine sound.setup isCurrent ?_
      simpa [Clock.proper, isCurrent] using proper
    next => cases taken
  | sleep =>
    change (match s.kernel.current with | some (p, .going) => _ | _ => none) = some next at taken
    split at taken
    next p isCurrent =>
      cases taken
      refine sound.frame rfl rfl rfl sound.times (fun q wait isWait => ⟨isWait, rfl, .inr ?_⟩) ?_
      · by_cases same : q = p
        · rw [same]
          exact update_self ..
        · refine (update_of_ne same ..).trans (sound.asleep isWait fun going => ?_)
          rw [isCurrent] at going
          exact same (congrArg Prod.fst (Option.some.inj going)).symm
      · intro q tim isChecked
        cases isChecked
    next => cases taken
  | awtto =>
    change (match s.kernel.current with | some (_, .going) => none | _ => _) = some next at taken
    split at taken
    next => cases taken
    next notGoing =>
      split at taken
      next => cases taken
      next pending =>
        cases taken
        exact sound.awtto (fun p going => notGoing p going) pending
  | awake p =>
    change (if _ then _ else _) = some next at taken
    split at taken
    next =>
      cases taken
      exact sound.awake p
    next => cases taken
  | resume p =>
    change (if _ then _ else _) = some next at taken
    split at taken
    next =>
      cases taken
      exact sound.drop rfl rfl rfl (fun q => update_le sound.times p q (Nat.zero_le _)) rfl
        fun q differ => ⟨update_of_ne differ .., update_of_ne differ ..⟩
    next => cases taken
  | psig p =>
    change (if _ then _ else _) = some next at taken
    split at taken
    next =>
      cases taken
      exact sound.drop rfl rfl rfl sound.times rfl
        fun q differ => ⟨rfl, update_of_ne differ ..⟩
    next => cases taken
  | awtclr p =>
    change (if _ then _ else _) = some next at taken
    split at taken
    next clears =>
      cases taken
      exact sound.clear clears.2.1 clears.2.2 s.kernel.sawake
    next => cases taken

/-- In every run in which the longest time is not asked for while the clock is off or has just
started, every wait that `awtto` ends, by giving the process the flag and waking it, has taken as
many ticks as it was to take or one more; a wait that has not ended has taken no more than it was
to take, and the clock runs; and while it runs, the next time of `awtto` is a time ahead, no later
than the deadline of any process that waits. -/
theorem await_in_time {events : List ClockEvent}
    (run : Transition.Run (Transition.Guarded (Transition.Takes act) fun s event =>
      s.proper event = true) start events s) :
    (∀ p wait, (p, wait) ∈ s.ended → wait.tim ≤ wait.ticks ∧ wait.ticks ≤ wait.tim + 1) ∧
    (∀ p wait, s.waits p = some wait → wait.ticks ≤ wait.tim ∧ s.kernel.callouts = 1 ∧
      (s.kernel.current = some (p, .going) ∨ s.kernel.place p = .asleep)) ∧
    (s.kernel.now ≠ 0 → Ahead s.kernel.now s.kernel.nxttim ∧ ∀ p, (s.waits p).isSome →
      dist s.kernel.now s.kernel.nxttim ≤ dist s.kernel.now (s.kernel.awttim p)) := by
  have sound : s.Sound := by
    refine run.always Sound start_sound ?_
    intro before event after sound taken
    exact sound.act taken.1 taken.2
  refine ⟨sound.ended, fun p wait isWait => ?_, fun running => ⟨sound.nxttim running, fun p isWait => ?_⟩⟩
  · obtain ⟨-, ⟨running, ahead, -, high, -⟩, place⟩ := sound.wait p wait isWait
    refine ⟨?_, by rw [sound.callouts, if_neg running], place⟩
    have clock := sound.clock
    have pos := ahead.pos
    have least : 1 ≤ dist s.kernel.now (s.kernel.awttim p) := by
      unfold dist
      split_ifs <;> omega
    omega
  · obtain ⟨wait, isWait⟩ := Option.isSome_iff_exists.mp isWait
    exact (sound.wait p wait isWait).2.1.nearest

/-- Two processes wait for two seconds and for one; both are woken in time. -/
theorem two_in_time :
    let s := Transition.last act start [.awt 1 2, .setup, .sleep, .awt 2 1, .setup, .sleep, .awtto, .awtto]
    s.ended = [(2, ⟨1, 1⟩), (1, ⟨2, 2⟩)] ∧
      ∀ p wait, (p, wait) ∈ s.ended → wait.tim ≤ wait.ticks ∧ wait.ticks ≤ wait.tim + 1 := by
  intro s
  exact ⟨by decide +kernel, (await_in_time (s := s) (Transition.run_can (by decide +kernel))).1⟩

/-- The first of two processes is awakened otherwise and clears its time; the next time of `awtto`
is still its deadline, at which no process is to be woken. -/
theorem nxttim_early : ∃ s, Transition.Run (Transition.Takes act) start
      [.awt 1 2, .setup, .sleep, .awt 2 9, .setup, .sleep, .awake 1, .resume 1] s ∧
    s.kernel.now = 1 ∧ s.kernel.nxttim = 3 ∧
      ∀ p, p < nproc → s.kernel.awttim p ≠ 0 → s.kernel.awttim p = 10 :=
  ⟨_, Transition.run_all (by decide +kernel), by decide +kernel, by decide +kernel,
    by decide +kernel⟩

end Clock

end NetworkUnix.Ken
