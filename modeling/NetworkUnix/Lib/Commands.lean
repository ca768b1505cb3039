/-
This file treats streams of commands: the first item of a command decides how
long the command is, or that it is no command. Every stream splits in one way
into the whole commands at its start, as many as there are, and a rest that no
whole command begins.
-/

import Mathlib.Data.List.Basic

namespace Commands

variable {α : Type}

/-- How long a command is by its first item, or that no command begins with it. -/
structure Grammar (α : Type) where
  size : α → Option Nat
  positive : ∀ op n, size op = some n → 0 < n

/-- One whole command. -/
def Whole (g : Grammar α) (command : List α) : Prop :=
  ∃ op rest, command = op :: rest ∧ g.size op = some command.length

/-- The whole commands at the start of a stream, and what is left. -/
structure Split (g : Grammar α) (stream : List α) (commands : List (List α)) (rest : List α) :
    Prop where
  joined : stream = commands.flatten ++ rest
  whole : ∀ command ∈ commands, Whole g command
  stuck : ∀ command, Whole g command → ¬ command <+: rest

variable {g : Grammar α}

theorem Whole.ne_nil {command : List α} (whole : Whole g command) : command ≠ [] := by
  obtain ⟨op, rest, rfl, -⟩ := whole
  exact List.cons_ne_nil op rest

theorem Whole.unique {first second stream : List α} (whole : Whole g first)
    (other : Whole g second) (starts : first <+: stream) (begins : second <+: stream) :
    first = second := by
  obtain ⟨op, rest, rfl, size⟩ := whole
  obtain ⟨code, more, rfl, long⟩ := other
  obtain ⟨after, rfl⟩ := starts
  obtain ⟨behind, joined⟩ := begins
  obtain ⟨rfl, -⟩ := List.cons.inj joined
  have same := Option.some_inj.mp (size.symm.trans long)
  exact (List.append_inj joined.symm same).1

theorem split_nil : Split g ([] : List α) [] [] where
  joined := rfl
  whole := fun _ inside => absurd inside List.not_mem_nil
  stuck := fun _ whole starts => whole.ne_nil (List.prefix_nil.mp starts)

theorem split_stuck {stream : List α} (stuck : ∀ command, Whole g command → ¬ command <+: stream) :
    Split g stream [] stream where
  joined := rfl
  whole := fun _ inside => absurd inside List.not_mem_nil
  stuck := stuck

theorem Split.cons {command stream : List α} {commands : List (List α)} {rest : List α}
    (whole : Whole g command) (split : Split g stream commands rest) :
    Split g (command ++ stream) (command :: commands) rest where
  joined := by rw [split.joined, List.flatten_cons, List.append_assoc]
  whole := by
    exact List.forall_mem_cons.mpr ⟨whole, split.whole⟩
  stuck := split.stuck

theorem stuck_of_size {op : α} {rest : List α}
    (short : ∀ n, g.size op = some n → (op :: rest).length < n) (command : List α)
    (whole : Whole g command) : ¬ command <+: op :: rest := by
  intro starts
  obtain ⟨code, more, rfl, size⟩ := whole
  obtain ⟨rfl, -⟩ := List.cons_prefix_cons.mp starts
  exact absurd starts.length_le (Nat.not_le_of_lt (short _ size))

theorem whole_take {op : α} {rest : List α} {n : Nat} (size : g.size op = some n)
    (enough : n ≤ (op :: rest).length) : Whole g ((op :: rest).take n) := by
  have positive := g.positive op n size
  obtain ⟨m, rfl⟩ := Nat.exists_eq_add_of_lt positive
  refine ⟨op, rest.take m, by simp, ?_⟩
  rw [List.length_take_of_le enough, size]

theorem Split.unique {stream : List α} {commands others : List (List α)} {rest left : List α}
    (split : Split g stream commands rest) (second : Split g stream others left) :
    commands = others ∧ rest = left := by
  induction commands generalizing stream others with
  | nil =>
    cases others with
    | nil => exact ⟨rfl, split.joined.symm.trans second.joined⟩
    | cons other others =>
      have same := split.joined.symm.trans second.joined
      rw [List.flatten_nil, List.nil_append, List.flatten_cons, List.append_assoc] at same
      exact absurd ⟨_, same.symm⟩ (split.stuck other (second.whole other List.mem_cons_self))
  | cons command commands inductionHypothesis =>
    have whole := split.whole command List.mem_cons_self
    have starts : command <+: stream := by
      rw [split.joined, List.flatten_cons, List.append_assoc]
      exact List.prefix_append _ _
    cases others with
    | nil =>
      have all : stream = left := second.joined
      exact absurd (all ▸ starts) (second.stuck command whole)
    | cons other others =>
      have begins : other <+: stream := by
        rw [second.joined, List.flatten_cons, List.append_assoc]
        exact List.prefix_append _ _
      obtain rfl := whole.unique (second.whole other List.mem_cons_self) starts begins
      have joined := split.joined.symm.trans second.joined
      rw [List.flatten_cons, List.flatten_cons, List.append_assoc, List.append_assoc,
        List.append_cancel_left_eq] at joined
      have first : Split g (commands.flatten ++ rest) commands rest :=
        ⟨rfl, (List.forall_mem_cons.mp split.whole).2, split.stuck⟩
      have last : Split g (commands.flatten ++ rest) others left :=
        ⟨joined, (List.forall_mem_cons.mp second.whole).2, second.stuck⟩
      obtain ⟨rfl, rfl⟩ := inductionHypothesis first last
      exact ⟨rfl, rfl⟩

theorem exists_split (g : Grammar α) (stream : List α) :
    ∃ commands rest, Split g stream commands rest := by
  induction size : stream.length using Nat.strongRecOn generalizing stream with
  | ind length inductionHypothesis =>
    cases stream with
    | nil => exact ⟨[], [], split_nil⟩
    | cons op rest =>
      cases code : g.size op with
      | none =>
        refine ⟨[], _, split_stuck (stuck_of_size fun n some => ?_)⟩
        exact absurd (code.symm.trans some).symm (Option.some_ne_none n)
      | some n =>
        by_cases enough : n ≤ (op :: rest).length
        · have whole := whole_take code enough
          have positive := g.positive op n code
          obtain ⟨commands, left, split⟩ :=
            inductionHypothesis ((op :: rest).drop n).length
              (by rw [List.length_drop]; omega) _ rfl
          refine ⟨(op :: rest).take n :: commands, left, ?_⟩
          have cons := split.cons whole
          rwa [List.take_append_drop] at cons
        · refine ⟨[], _, split_stuck (stuck_of_size fun m some => ?_)⟩
          rw [← Option.some_inj.mp (code.symm.trans some)]
          exact Nat.lt_of_not_le enough

end Commands
