/-
This file proves the close handshake. The story of a socket struct is what has
happened to it since it was last taken; a struct that has been in the request wait
or open is given back only after one clean for the kernel, one close for the
foreign host unless that died first, and the events that the handshake waits for.

The story in each state is an invariant of the moves; the marks of a move say how
the story goes on.
-/

import NetworkUnix.Ncpd.Runs

namespace NetworkUnix.Ncpd

open Function

/-! ### Stories -/

/-- What has happened to a struct since it was taken: its state; whether it has been in the request
wait or open; the cleans and the closes that were sent for it; and the events that concern it. -/
structure Story where
  state : SktState
  lived : Bool
  cleans : Nat
  closes : Nat
  closed : Bool
  matched : Bool
  expired : Bool
  dead : Bool

namespace Story

/-- The story of a struct that has never been taken. -/
def unborn : Story := ⟨.null, false, 0, 0, false, false, false, false⟩

/-- A struct in use stays in its story; a free one begins a new one. -/
@[simp] def begun (s : Story) : Story := if s.state = .null then unborn else s

@[simp] def enter (s : Story) (st : SktState) : Story :=
  { s with state := st, lived := s.lived || decide (st = .rfcw ∨ st = .opened) }

@[simp] def read (s : Story) : Mark → Story
  | .state st => s.begun.enter st
  | .clean => { s with cleans := s.cleans + 1 }
  | .rfc _ _ => s
  | .cls _ _ => { s with closes := s.closes + 1 }
  | .all _ _ => s
  | .closed => { s with closed := true }
  | .matched => { s with matched := true }
  | .expired => { s with expired := true }
  | .dead => { s with dead := true }

end Story

/-- The story that the marks of a struct tell. -/
def story (ms : List Mark) : Story := ms.foldl Story.read .unborn

/-- A struct that may be given back: it is in use; if it has been in the request wait or open, one
clean and one close have been sent, or no close because the host died; the kernel has closed it, or
it is in one of the two waits after its own close; and a close has matched it, its time has run out,
or its host died. -/
@[mk_iff] structure Story.Over (s : Story) : Prop where
  used : s.state ≠ .null
  clean : s.lived = true → s.cleans = 1
  close : s.lived = true → s.closes = 1 ∨ s.closes = 0 ∧ s.dead = true
  closed : s.lived = true → s.closed = true ∨ s.state = .clsw ∨ s.state = .rfnmw
  answered : s.lived = true → s.matched = true ∨ s.expired = true ∨ s.dead = true

/-- The states in which a struct is taken for a connection. -/
@[simp] def SktState.taken : SktState → Bool
  | .glsn | .slsn | .rfcw | .q => true
  | _ => false

/-- A mark that may follow a story: a struct is given back when its story is over, and is taken only
when it is free. -/
@[simp] def Story.Allows (s : Story) (m : Mark) : Prop :=
  (m = .state .null → s.Over) ∧ ∀ st, m = .state st → st.taken = true → s.state = .null

/-- The marks of a struct in which every mark is allowed by the story before it. -/
def Told (ms : List Mark) : Prop :=
  ∀ before m after, ms = before ++ m :: after → (story before).Allows m

theorem Told.snoc {ms : List Mark} {m : Mark} (told : Told ms) (allows : (story ms).Allows m) :
    Told (ms ++ [m]) := by
  intro before m' after same
  rcases List.eq_nil_or_concat after with rfl | ⟨after, last, rfl⟩
  · obtain ⟨rfl, isLast⟩ := List.append_inj' same rfl
    obtain ⟨rfl, -⟩ := List.cons.inj isLast
    exact allows
  · rw [List.concat_eq_append, ← List.cons_append, ← List.append_assoc] at same
    obtain ⟨isMs, -⟩ := List.append_inj' same rfl
    exact told before m' after isMs

/-- Marks that are allowed one after another. -/
@[simp] def Story.Follows : Story → List Mark → Prop
  | _, [] => True
  | s, m :: rest => s.Allows m ∧ (s.read m).Follows rest

theorem story_append (ms more : List Mark) :
    story (ms ++ more) = more.foldl Story.read (story ms) := List.foldl_append

theorem Told.append {ms more : List Mark} (told : Told ms) (follows : (story ms).Follows more) :
    Told (ms ++ more) := by
  induction more generalizing ms with
  | nil =>
    rw [List.append_nil]
    exact told
  | cons m rest inductionHypothesis =>
    have next := inductionHypothesis (told.snoc follows.1) (by
      rw [story_append]
      exact follows.2)
    rw [List.append_assoc] at next
    exact next

/-! ### The story in each state -/

/-- The story of a struct in each state. -/
@[simp] def Story.Consistent (s : Story) : Prop :=
  match s.state with
  | .glsn | .slsn | .q => s.lived = false ∧ s.cleans = 0 ∧ s.closes = 0
  | .rfcw | .opened | .orfnmw => s.cleans = 0 ∧ s.closes = 0
  | .cacw | .clsw => s.cleans = 1 ∧ s.closes = 1
  | .c2cw | .clorfnmw => s.cleans = 1 ∧ s.closes = 0 ∧ s.matched = true
  | .rfnmw => s.cleans = 1 ∧ s.closes = 1 ∧ s.closed = true ∧ s.matched = true
  | .clow => s.lived = true → s.cleans = 1 ∧ (s.closes = 1 ∨ s.closes = 0 ∧ s.dead = true) ∧
      (s.matched = true ∨ s.dead = true)
  | .null => True

/-- A socket struct with its marks. -/
structure Lives (c : Cell) (ms : List Mark) : Prop where
  told : Told ms
  state : (story ms).state = c.state
  consistent : (story ms).Consistent

theorem Lives.append {c next : Cell} {ms more : List Mark} (lives : Lives c ms)
    (goesOn : ∀ s : Story, s.state = c.state → s.Consistent → s.Follows more ∧
      (more.foldl Story.read s).state = next.state ∧ (more.foldl Story.read s).Consistent) :
    Lives next (ms ++ more) := by
  obtain ⟨follows, state, consistent⟩ := goesOn (story ms) lives.state lives.consistent
  refine ⟨lives.told.append follows, ?_, ?_⟩
  · rw [story_append]
    exact state
  · rw [story_append]
    exact consistent

theorem live_states {old : SktState} (live : old.live = true) :
    old = .rfcw ∨ old = .opened ∨ old = .orfnmw := by
  revert live
  cases old <;> decide

theorem closes_goesOn {old st : SktState} {ms : List Mark} {h : Nat} {hl : BitVec 8}
    (closes : Closes (.cls h hl) old ms st) (s : Story) (state : s.state = old) :
    s.Consistent → s.Follows (ms ++ [Mark.state st]) ∧
      ((ms ++ [Mark.state st]).foldl Story.read s).state = st ∧
      ((ms ++ [Mark.state st]).foldl Story.read s).Consistent := by
  obtain ⟨old', lived, cleans, closes', closed, matched, expired, dead⟩ := s
  change old' = old at state
  subst state
  cases closes with
  | killListen listens => rcases listens with rfl | rfl <;> simp +contextual
  | kill live => rcases live_states live with rfl | rfl | rfl <;> simp +contextual
  | close live => rcases live_states live with rfl | rfl | rfl <;> simp +contextual
  | dead before =>
    rcases before with rfl | rfl | live
    · simp +contextual
    · simp +contextual
    · rcases live_states live with rfl | rfl | rfl <;> simp +contextual
  | deadClosing closing => rcases closing with rfl | rfl | rfl <;> simp +contextual
  | _ => simp +contextual

theorem ends_goesOn {old : SktState} {ms : List Mark} {h : Nat} {hl : BitVec 8}
    (ends : Ends (.cls h hl) old ms) (s : Story) (state : s.state = old) :
    s.Consistent → s.Follows (ms ++ [Mark.state .null]) ∧
      ((ms ++ [Mark.state .null]).foldl Story.read s).state = .null ∧
      ((ms ++ [Mark.state .null]).foldl Story.read s).Consistent := by
  obtain ⟨old', lived, cleans, closes', closed, matched, expired, dead⟩ := s
  change old' = old at state
  subst state
  cases ends with
  | closeListen listens => rcases listens with rfl | rfl <;> simp +contextual [Story.over_iff]
  | dead waits => rcases waits with rfl | rfl | rfl <;> simp +contextual [Story.over_iff]
  | closeWait =>
    simp +contextual [Story.over_iff]
    exact fun consistent lived => (consistent lived).2.2.imp_right Or.inr
  | _ => simp +contextual [Story.over_iff]

/-! ### The stories of a board -/

/-- The stories that the marks of a board tell. -/
def Board.Lives (b : Board) : Prop := ∀ i, Ncpd.Lives (b.cells i) (b.life i)

section Moves

variable {b : Board}

theorem lives_setCell (lives : b.Lives) {i : SktNo} {c : Cell} {more : List Mark}
    (goesOn : ∀ s : Story, s.state = (b.cells i).state → s.Consistent → s.Follows more ∧
      (more.foldl Story.read s).state = c.state ∧ (more.foldl Story.read s).Consistent) :
    ((b.setCell i c).marks i more).Lives := by
  intro j
  by_cases here : j = i
  · subst here
    show Ncpd.Lives ((b.setCell j c).cells j) (Function.update b.life j (b.life j ++ more) j)
    rw [setCell_self, update_self]
    exact (lives j).append goesOn
  · show Ncpd.Lives ((b.setCell i c).cells j) (Function.update b.life i (b.life i ++ more) j)
    rw [setCell_other here, update_of_ne here]
    exact lives j

theorem lives_marks (lives : b.Lives) {i : SktNo} {more : List Mark}
    (goesOn : ∀ s : Story, s.state = (b.cells i).state → s.Consistent → s.Follows more ∧
      (more.foldl Story.read s).state = (b.cells i).state ∧
      (more.foldl Story.read s).Consistent) : (b.marks i more).Lives := by
  have same : b.setCell i (b.cells i) = b := by
    unfold Board.setCell
    rw [update_eq_self]
  have kept := lives_setCell lives goesOn
  rw [same] at kept
  exact kept

theorem event_goesOn {m : Mark} {st : SktState}
    (event : m = .closed ∨ m = .dead ∨ (∃ h hl, m = .rfc h hl) ∨ ∃ h hl, m = .all h hl) (s : Story)
    (state : s.state = st) : s.Consistent → s.Follows [m] ∧ (([m] : List Mark).foldl Story.read s).state = st ∧
      (([m] : List Mark).foldl Story.read s).Consistent := by
  obtain ⟨old', lived, cleans, closes', closed, matched, expired, dead⟩ := s
  change old' = st at state
  subst state
  rcases event with rfl | rfl | ⟨h, hl, rfl⟩ | ⟨h, hl, rfl⟩
  · cases old' <;> simp +contextual
  · cases old' <;> simp +contextual
    exact fun consistent lived => (consistent lived).2.1.imp_right And.left
  · cases old' <;> simp +contextual
  · cases old' <;> simp +contextual

theorem enter_goesOn {old st : SktState}
    (enters : old = .null ∧ st.taken = true ∨ (old.listening = true ∨ old = .q) ∧ st = .opened ∨
      old = .opened ∧ st = .orfnmw) (s : Story) (state : s.state = old) :
    s.Consistent → s.Follows [Mark.state st] ∧ (([Mark.state st]).foldl Story.read s).state = st ∧
      (([Mark.state st]).foldl Story.read s).Consistent := by
  obtain ⟨old', lived, cleans, closes', closed, matched, expired, dead⟩ := s
  change old' = old at state
  subst state
  rcases enters with ⟨rfl, taken⟩ | ⟨before, rfl⟩ | ⟨rfl, rfl⟩
  · cases st <;> simp [Story.unborn] at taken ⊢
  · revert before
    cases old' <;> simp [SktState.listening]
  · simp

theorem move_lives {g : Guards} {next : Board} (lives : b.Lives) (move : Move g b next) :
    next.Lives := by
  cases move with
  | note i m event => exact lives_marks lives (event_goesOn (event.imp_right Or.inl))
  | command i cmd m kind =>
    refine lives_marks lives (event_goesOn (Or.inr (Or.inr ?_)))
    exact kind.imp (fun isRfc => ⟨_, _, isRfc⟩) fun isAll => ⟨_, _, isAll⟩
  | close i ms c ncp closes => exact lives_setCell lives (closes_goesOn closes)
  | wait i opened =>
    exact lives_setCell lives (enter_goesOn (Or.inr (Or.inr ⟨opened, rfl⟩)))
  | opens i r offers listening =>
    exact lives_setCell lives (enter_goesOn (Or.inr (Or.inl ⟨Or.inl listening, rfl⟩)))
  | adopt i r f asks queued =>
    exact lives_setCell lives (enter_goesOn (Or.inr (Or.inl ⟨Or.inr queued, rfl⟩)))
  | create i r f asks free =>
    refine lives_setCell lives (enter_goesOn (Or.inl ⟨free, ?_⟩))
    show r.state.state.taken = true
    rcases asks.op with op | op | op <;> rw [op] <;> rfl
  | offer i r offers free =>
    refine lives_setCell lives (enter_goesOn (Or.inl ⟨free, ?_⟩))
    show r.state.state.taken = true
    rw [offers.op]
    rfl
  | drop i ms ncp ends => exact lives_setCell lives (ends_goesOn ends)
  | giveBack i f ms ncp ends => exact lives_setCell lives (ends_goesOn ends)
  | _ => exact lives

end Moves

namespace Daemon

theorem start_lives : start.board.Lives := by
  intro i
  refine ⟨fun before m after same => ?_, rfl, trivial⟩
  exact absurd same.symm (List.append_ne_nil_of_right_ne_nil before (List.cons_ne_nil m after))

/-- The close handshake: whatever the daemon reads, a struct is given back only when its story is
over, and it is taken only when it is free. -/
theorem close_handshake (events : List Event) (i : SktNo) :
    Told ((events.foldl trip start).life i) := by
  have held : (events.foldl trip start).board.Ok ∧ (events.foldl trip start).board.Lives := by
    refine Table.foldl_keeps (fun d : Daemon => d.board.Ok ∧ d.board.Lives) trip events
      (fun d e _ held => ?_) ⟨start_ok, start_lives⟩
    exact moves_keep (g := Guards.all) (fun b next _ lives move => move_lives lives move)
      (trip_moves held.1 Guards.all_lax (permits_all _ _)) held.1 held.2
  exact (held.2 i).told

end Daemon

end NetworkUnix.Ncpd
