/-
This file models the search of an open for a connection to preempt. Where no control block is
free and the program checks authorizations, the open is to take the active connection that
matters least, unless all of them are of the first category. The loop over the active list does
not go on to the next control block, so that it ends on an empty list only, and in a sound
state, where a control block is free or active, never.
-/

import NetworkUnix.Lib.Halting
import NetworkUnix.UserTcp.Owners

namespace NetworkUnix.UserTcp.Process

open Halting

namespace Tables

/-! ### The search -/

/-- The send precedence of a control block. -/
def sndPrec (tables : Tables) (handle : Nat) : Int := (tables.tcb handle).params.sndPrec

/-- The variables of the search: the active list from XPtr on, the precedence T of the choice, and
the choice TPtr. -/
structure Search where
  xPtr : List Nat
  t : Int
  tPtr : Nat
  deriving DecidableEq

variable (tables : Tables)

/-- Before the search. TPtr holds what it held. -/
def Search.start (tPtr : Nat) : Search := ⟨tables.tcbHd, -1, tPtr⟩

/-- One trip around the loop, which leaves XPtr where it is. -/
def Search.trip (s : Search) : Search :=
  match s.xPtr with
  | [] => s
  | handle :: _ =>
    if s.t < tables.sndPrec handle ∧ tables.sndPrec handle < 12 then
      { s with t := tables.sndPrec handle, tPtr := handle }
    else s

/-- The end of the active list is reached. -/
def Search.Ended (s : Search) : Prop := s.xPtr = []

/-- The search ends, with these variables. -/
def SearchedTo (tPtr : Nat) (s : Search) : Prop :=
  s.Ended ∧ ∃ steps : Nat, (Search.trip tables)^[steps] (Search.start tables tPtr) = s

/-- What an open did: the connection that it aborted, its answer and the tables after it. -/
structure Opening where
  aborted : Option Nat
  answer : Answer
  after : Tables

/-- An open comes to its end, whether a control block is free or not. -/
inductive Opens (auth : Bool) (portFds tcpFds : Nat) (msg : MOpen) (outside : OpenWith)
    (tPtr : Nat) : Opening → Prop
  | free {handle : Nat} {rest : List Nat} (avail : tables.tcbAvl = handle :: rest)
      {answer : Answer} {after : Tables}
      (opened : (tables.activate handle rest msg.oHandle tcpFds).openTcb auth portFds msg outside
        handle = (answer, after)) : Opens auth portFds tcpFds msg outside tPtr ⟨none, answer, after⟩
  | barred (full : tables.tcbAvl = []) (unchecked : auth = false) :
      Opens auth portFds tcpFds msg outside tPtr ⟨none, .oerr .esysc, tables⟩
  | spared (full : tables.tcbAvl = []) (checked : auth = true) {s : Search}
      (searched : SearchedTo tables tPtr s) (nothing : s.t = -1) :
      Opens auth portFds tcpFds msg outside tPtr ⟨none, .oerr .esysc, tables⟩
  | preempts (full : tables.tcbAvl = []) (checked : auth = true) {s : Search}
      (searched : SearchedTo tables tPtr s) (chosen : s.t ≠ -1) {handle : Nat} {rest : List Nat}
      (avail : (tables.abort s.tPtr).tcbAvl = handle :: rest) {answer : Answer} {after : Tables}
      (opened : ((tables.abort s.tPtr).activate handle rest msg.oHandle tcpFds).openTcb auth portFds
        msg outside handle = (answer, after)) :
      Opens auth portFds tcpFds msg outside tPtr ⟨some s.tPtr, answer, after⟩

/-- An open preempts the least important connection: it ends, aborts a connection exactly when one
is below the first category, takes the one with the lowest precedence then, and otherwise refuses
and changes nothing. -/
structure Preempts (portFds tcpFds : Nat) (msg : MOpen) (outside : OpenWith) (tPtr : Nat) :
    Prop where
  ends : ∃ opening, Opens tables true portFds tcpFds msg outside tPtr opening
  when : ∀ opening, Opens tables true portFds tcpFds msg outside tPtr opening →
    (opening.aborted.isSome = true ↔ ∃ handle ∈ tables.tcbHd, tables.sndPrec handle < 12)
  least : ∀ opening, Opens tables true portFds tcpFds msg outside tPtr opening →
    ∀ handle ∈ opening.aborted, handle ∈ tables.tcbHd ∧
      ∀ other ∈ tables.tcbHd, tables.sndPrec handle ≤ tables.sndPrec other
  refused : ∀ opening, Opens tables true portFds tcpFds msg outside tPtr opening →
    opening.aborted = none → opening.answer = .oerr .esysc ∧ opening.after = tables

/-! ### The loop does not move -/

variable {tables} {portFds tcpFds tPtr : Nat} {msg : MOpen} {outside : OpenWith}

@[simp]
theorem trip_xPtr (s : Search) : (s.trip tables).xPtr = s.xPtr := by
  unfold Search.trip
  split
  · rfl
  · split_ifs <;> rfl

theorem trips_xPtr (steps : Nat) (s : Search) :
    ((Search.trip tables)^[steps] s).xPtr = s.xPtr := by
  have always : Always (Search.trip tables) (fun now => now.xPtr = s.xPtr) s :=
    always_of_kept rfl fun now same => (trip_xPtr now).trans same
  exact always steps

theorem search_halts_iff :
    Halts (Search.trip tables) Search.Ended (Search.start tables tPtr) ↔ tables.tcbHd = [] := by
  constructor
  · intro halts
    obtain ⟨steps, ended⟩ := halts_iff.mp halts
    exact (trips_xPtr steps (Search.start tables tPtr)).symm.trans ended
  · exact fun empty => .stop empty

theorem SearchedTo.halts {s : Search} (searched : SearchedTo tables tPtr s) :
    Halts (Search.trip tables) Search.Ended (Search.start tables tPtr) := by
  obtain ⟨ended, steps, reached⟩ := searched
  exact halts_iff.mpr ⟨steps, reached ▸ ended⟩

theorem SearchedTo.nothing {s : Search} (searched : SearchedTo tables tPtr s) :
    s = ⟨[], -1, tPtr⟩ := by
  have empty := search_halts_iff.mp searched.halts
  have first : Search.start tables tPtr = ⟨[], -1, tPtr⟩ := by
    unfold Search.start
    rw [empty]
  obtain ⟨_, steps, reached⟩ := searched
  rw [← reached, first]
  exact Function.iterate_fixed rfl steps

theorem Opens.empty {opening : Opening} (full : tables.tcbAvl = [])
    (opens : Opens tables true portFds tcpFds msg outside tPtr opening) :
    tables.tcbHd = [] ∧ opening = ⟨none, .oerr .esysc, tables⟩ := by
  cases opens with
  | free avail => exact absurd (full.symm.trans avail) (List.cons_ne_nil _ _).symm
  | barred _ unchecked => exact absurd unchecked (by decide)
  | spared _ _ searched => exact ⟨search_halts_iff.mp searched.halts, rfl⟩
  | preempts _ _ searched chosen =>
    rw [searched.nothing] at chosen
    exact absurd rfl chosen

theorem oopen_eq_some_iff {auth : Bool} {answer : Answer} {after : Tables} :
    tables.oopen auth portFds tcpFds msg outside = some (answer, after) ↔
      ∃ aborted, Opens tables auth portFds tcpFds msg outside tPtr ⟨aborted, answer, after⟩ := by
  unfold oopen
  constructor
  · intro result
    split at result
    · rename_i full
      unfold searches at result
      split_ifs at result with searching
      obtain ⟨rfl, rfl⟩ := Prod.ext_iff.mp (Option.some.inj result)
      cases auth with
      | false => exact ⟨none, .barred full rfl⟩
      | true =>
        have empty : tables.tcbHd = [] := by
          rw [full] at searching
          simpa using searching
        have searched : SearchedTo tables tPtr (Search.start tables tPtr) := ⟨empty, 0, rfl⟩
        exact ⟨none, .spared full rfl searched rfl⟩
    · rename_i avail
      exact ⟨none, .free avail (Option.some.inj result)⟩
  · rintro ⟨aborted, opens⟩
    cases opens with
    | free avail opened =>
      rw [avail]
      exact congrArg some opened
    | barred full unchecked =>
      rw [full]
      simp [searches, unchecked]
    | spared full _ searched =>
      have empty := search_halts_iff.mp searched.halts
      rw [full]
      simp [searches, empty]
    | preempts _ _ searched chosen =>
      rw [searched.nothing] at chosen
      exact absurd rfl chosen

theorem Sound.never_opens (sound : tables.Sound) (full : tables.tcbAvl = []) (opening : Opening) :
    ¬ Opens tables true portFds tcpFds msg outside tPtr opening := by
  intro opens
  have count := sound.parts.length_eq
  rw [(opens.empty full).1, full] at count
  exact absurd count (by decide)

/-! ### When the least important connection is preempted -/

/-- With no control block free, an open preempts as it should exactly when no connection is
active. -/
theorem preempts_iff (full : tables.tcbAvl = []) :
    Preempts tables portFds tcpFds msg outside tPtr ↔ tables.tcbHd = [] := by
  constructor
  · intro preempts
    obtain ⟨opening, opens⟩ := preempts.ends
    exact (opens.empty full).1
  · intro empty
    have searched : SearchedTo tables tPtr (Search.start tables tPtr) := ⟨empty, 0, rfl⟩
    refine ⟨⟨_, .spared full rfl searched rfl⟩, ?_, ?_, ?_⟩
    · intro opening opens
      rw [(opens.empty full).2, empty]
      simp
    · intro opening opens handle aborted
      rw [(opens.empty full).2] at aborted
      exact absurd aborted (by simp)
    · intro opening opens _
      rw [(opens.empty full).2]
      exact ⟨rfl, rfl⟩

/-- A control block whose connection has the given send precedence. -/
def ranked (sndPrec : Int) : TcpTcb :=
  ⟨1, .estab, 0, 7, 7, 6, 8, 9, ⟨3, 0, 3, 0, 0, sndPrec, 0, 12, 1, fun _ => 0⟩, 512, ⟨10, 0, 5, 23⟩⟩

/-- The ten control blocks are active, with precedences from nine down to nought. -/
def crowded : Tables :=
  { Tables.init fun handle => ranked (9 - handle) with
    tcbHd := List.range numbtcbs
    tcbAvl := [] }

/-- No control block is free and none is active. -/
def bare : Tables := { Tables.init fun _ => ranked 0 with tcbAvl := [] }

/-- A user asks for a connection to port 23 of a host. -/
def asks : MOpen := ⟨1, 0, 10, 0, 5, 0, 23⟩

def asksWith : OpenWith := ⟨7, .error .eunauth, false, some 10, some 11⟩

theorem preempts_iff_bare : Preempts bare 6 7 asks asksWith 0 :=
  (@preempts_iff bare 6 7 0 asks asksWith rfl).mpr rfl

/-- All ten connections may be preempted, and the open does not end. -/
theorem preempts_crowded : (∀ handle ∈ crowded.tcbHd, crowded.sndPrec handle < 12) ∧
    ¬ Preempts crowded 6 7 asks asksWith 0 := by
  refine ⟨by decide +kernel, fun preempts => ?_⟩
  obtain ⟨opening, opens⟩ := preempts.ends
  exact absurd (opens.empty rfl).1 (by decide +kernel)

end Tables

end NetworkUnix.UserTcp.Process
