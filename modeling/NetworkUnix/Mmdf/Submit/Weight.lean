/-
This file says how far off the end of the control stream is for `submit`: the characters that are
left and the end that was not seen yet, and in the text of a message also what was read and is
still to be dealt with. Every line that is read brings the end nearer, until it is seen.
-/

import NetworkUnix.Mmdf.Submit.Stormsg

namespace NetworkUnix.Mmdf.Submit

/-! ### What is left of the stream -/

/-- What is left of the stream, and its end. -/
def State.weight (s : State) : Nat := 2 * s.input.length + if s.eofhit then 0 else 2

/-- The same in the text of a message; a line that waits and an end that was seen are still to be
dealt with. -/
def State.level (s : State) : Nat :=
  s.weight + if s.eofhit = true ∨ s.msgend = true ∨ s.moreline ≠ none then 1 else 0

theorem State.weight_le_level (s : State) : s.weight ≤ s.level := Nat.le_add_right _ _

theorem State.level_le (s : State) : s.level ≤ s.weight + 1 := by
  unfold State.level
  split <;> omega

theorem State.level_pos {s : State} (more : s.eofhit = true ∨ s.msgend = true ∨ s.moreline ≠ none) :
    s.level = s.weight + 1 := congrArg (s.weight + ·) (if_pos more)

theorem State.level_zero {s : State} (more : s.eofhit = false) (goes : s.msgend = false)
    (none : s.moreline = Option.none) : s.level = s.weight := by
  unfold State.level
  rw [if_neg]
  · rfl
  · rw [more, goes, none]
    simp only [Bool.false_eq_true, ne_eq, not_true_eq_false, or_self, not_false_eq_true]

variable (brkset : Byte → Bool) {s next : State}

theorem cntlin_eofhit (ended : s.eofhit = true → s.msgend = true) :
    (cntlin brkset s).2.eofhit = true → (cntlin brkset s).2.msgend = true := by
  intro hit
  by_cases nothing : (cntlin brkset s).1 = []
  · exact cntlin_nil brkset s nothing
  · refine cntlin_msgend brkset s (ended ?_)
    unfold cntlin at hit nothing
    dsimp only at hit nothing
    rw [List.isEmpty_eq_false_iff.mpr nothing, Bool.or_false] at hit
    exact hit

theorem cntlin_weight_lt (more : s.eofhit = false ∨ (cntlin brkset s).1 ≠ []) :
    (cntlin brkset s).2.weight + 2 ≤ s.weight := by
  have shorter := cntlin_length brkset s
  by_cases nothing : (cntlin brkset s).1 = []
  · have goes : s.eofhit = false := more.resolve_right (not_not_intro nothing)
    have hit : (cntlin brkset s).2.eofhit = true := by
      unfold cntlin at nothing ⊢
      dsimp only at nothing ⊢
      rw [nothing]
      simp only [List.isEmpty_nil, Bool.or_true]
    unfold State.weight
    rw [hit, goes]
    simp only [if_true, Bool.false_eq_true, if_false]
    omega
  · have some := List.length_pos_iff.mpr nothing
    have same : (cntlin brkset s).2.eofhit = s.eofhit := by
      unfold cntlin at nothing ⊢
      dsimp only at nothing ⊢
      rw [List.isEmpty_eq_false_iff.mpr nothing, Bool.or_false]
    unfold State.weight
    rw [same]
    omega

theorem cntlin_weight_le : (cntlin brkset s).2.weight ≤ s.weight := by
  by_cases goes : s.eofhit = false
  · exact Nat.le_of_add_right_le (cntlin_weight_lt brkset (.inl goes))
  · have finished : s.eofhit = true := eq_true_of_ne_false goes
    have hit : (cntlin brkset s).2.eofhit = true := by
      unfold cntlin
      dsimp only
      rw [finished, Bool.true_or]
    have shorter := cntlin_length brkset s
    unfold State.weight
    rw [hit, finished]
    simp only [if_true]
    omega

theorem cntlin_level : (cntlin brkset s).2.level ≤ s.level := by
  by_cases goes : s.eofhit = false
  · have less := cntlin_weight_lt brkset (.inl goes)
    have most := (cntlin brkset s).2.level_le
    have least := s.weight_le_level
    omega
  · have hit : s.eofhit = true := eq_true_of_ne_false goes
    rw [State.level_pos (s := s) (.inl hit)]
    exact (State.level_le _).trans (Nat.succ_le_succ (cntlin_weight_le brkset))

/-- What a loop over lines does with the state, as far as its end goes. -/
structure Runs (s next : State) : Prop where
  level : next.level ≤ s.level
  weight : next.weight ≤ s.weight
  moreline : next.moreline = s.moreline
  ended : (s.eofhit = true → s.msgend = true) → next.eofhit = true → next.msgend = true

theorem Runs.refl (s : State) : Runs s s := ⟨Nat.le_refl _, Nat.le_refl _, rfl, id⟩

theorem Runs.trans {s middle next : State} (first : Runs s middle) (second : Runs middle next) :
    Runs s next :=
  ⟨second.level.trans first.level, second.weight.trans first.weight,
    second.moreline.trans first.moreline, fun ended => second.ended (first.ended ended)⟩

theorem runs_cntlin (s : State) : Runs s (cntlin brkset s).2 :=
  ⟨cntlin_level brkset, cntlin_weight_le brkset, rfl, cntlin_eofhit brkset⟩

theorem Runs.fwrite (runs : Runs s next) (text : List Byte) : Runs s (next.fwrite text) :=
  ⟨runs.level, runs.weight, runs.moreline, runs.ended⟩

theorem runs_chksndr (h : Site) (s : State) : Runs s (chksndr h s).2 := by
  unfold chksndr
  dsimp only
  split
  · exact runs_cntlin nltrm s
  · exact (runs_cntlin nltrm s).fwrite _

theorem runs_cntline2mfil (last : Option Byte) (s : State) : Runs s (cntline2mfil last s) := by
  refine restOfLine.run_induct (fun begun out => Runs begun.2 out) ?_ ?_ (last, s)
  · rintro ⟨last, s⟩ out ends
    unfold restOfLine at ends
    dsimp only at ends
    split at ends
    · cases ends
      exact .refl s
    · cases ends
  · rintro ⟨last, s⟩ item ⟨_, next⟩ again rest
    unfold restOfLine at again
    dsimp only at again
    split at again
    · cases again
    · cases again
      exact ((runs_cntlin nltrm s).fwrite _).trans rest

theorem weight_dobody (h : Site) (s : State) :
    (dobody h s).weight ≤ s.weight ∧
      (s.eofhit = false → s.msgend = false → (dobody h s).weight + 2 ≤ s.weight) ∧
        (dobody h s).moreline = s.moreline := by
  refine restOfText.run_induct (fun begun out => out.weight ≤ begun.2.weight ∧
    (begun.2.eofhit = false → begun.2.msgend = false → out.weight + 2 ≤ begun.2.weight) ∧
      out.moreline = begun.2.moreline) ?_ ?_ (h.strayChar, s)
  · rintro ⟨c, s⟩ out ends
    unfold restOfText at ends
    dsimp only at ends
    split at ends
    next finished =>
      cases ends
      have never : s.msgend = false → False := fun goes => Bool.false_ne_true (goes.symm.trans finished)
      split
      · exact ⟨Nat.le_refl _, fun _ goes => (never goes).elim, rfl⟩
      · exact ⟨Nat.le_refl _, fun _ goes => (never goes).elim, rfl⟩
    · split at ends
      · cases ends
        have less : (cntlin nultrm s).2.weight ≤ s.weight := cntlin_weight_le nultrm
        have lower : s.eofhit = false → s.msgend = false →
            (cntlin nultrm s).2.weight + 2 ≤ s.weight := fun goes _ =>
          cntlin_weight_lt nultrm (.inl goes)
        split
        · exact ⟨less, lower, rfl⟩
        · exact ⟨less, lower, rfl⟩
      · cases ends
  · rintro ⟨c, s⟩ item ⟨_, next⟩ again rest
    unfold restOfText at again
    dsimp only at again
    split at again
    · cases again
    · split at again
      · cases again
      next some =>
        cases again
        have less := cntlin_weight_lt nultrm (.inr some)
        have lower : (restOfText.run (_, _)).weight + 2 ≤ s.weight :=
          (Nat.add_le_add_right rest.1 2).trans less
        exact ⟨Nat.le_of_add_right_le lower, fun _ _ => lower, rest.2.2⟩

theorem weight_suckup (s : State) : (suckup s).weight ≤ s.weight := by
  unfold suckup
  split
  · exact Nat.le_refl _
  · unfold State.weight
    dsimp only [List.length_nil]
    omega

theorem weight_cmpntin (h : Site) (none : s.moreline = Option.none)
    (ended : s.eofhit = true → s.msgend = true) :
    (cmpntin h s).2.weight ≤ s.weight ∧
      ((cmpntin h s).2.eofhit = true → (cmpntin h s).2.msgend = true) ∧
      ((cmpntin h s).1 ≠ [] →
        (cmpntin h s).2.weight + 2 ≤ s.weight ∧ (cmpntin h s).2.moreline = Option.none) ∧
      ((cmpntin h s).2.moreline ≠ Option.none →
        (cmpntin h s).2.weight + 2 ≤ s.weight ∧ (cmpntin h s).2.msgend = false) := by
  unfold cmpntin
  generalize (if s.morcmpnt = true then moretrm else lstnultrm) = brkset
  dsimp only
  have same : (cntlin brkset s).2.moreline = Option.none := none
  have less : (cntlin brkset s).2.weight ≤ s.weight := cntlin_weight_le brkset
  have finished := cntlin_eofhit brkset ended
  split
  · exact ⟨less, finished, fun some => absurd rfl some, fun waits => absurd same waits⟩
  next line =>
    obtain ⟨some, goes, -⟩ : ¬ (cntlin brkset s).1 = [] ∧ ¬ (cntlin brkset s).2.msgend = true ∧
        ¬ (cntlin brkset s).1.head? = Option.some 0 := by
      simpa only [not_or] using line
    have lower := cntlin_weight_lt brkset (.inr some)
    split
    · split
      · exact ⟨less, finished, fun empty => absurd rfl empty,
          fun _ => ⟨lower, Bool.eq_false_iff.mpr goes⟩⟩
      · exact ⟨less, finished, fun _ => ⟨lower, same⟩, fun waits => absurd same waits⟩
    · exact ⟨less, finished, fun _ => ⟨lower, same⟩, fun waits => absurd same waits⟩

theorem level_nextName (ended : s.eofhit = true → s.msgend = true)
    (waiting : s.moreline ≠ none → s.msgend = false) :
    (nextName s).2.moreline = none ∧
      ((nextName s).2.eofhit = true → (nextName s).2.msgend = true) ∧
        ((nextName s).1 = none → (nextName s).2.weight + 1 ≤ s.level) ∧
          ((nextName s).1 ≠ none → (nextName s).2.level < s.level) := by
  unfold nextName
  split
  next line waits =>
    have some : s.moreline ≠ none := by
      rw [waits]
      exact Option.some_ne_none line
    have goes := waiting some
    have more : s.eofhit = false :=
      Bool.eq_false_iff.mpr fun hit => Bool.false_ne_true (goes.symm.trans (ended hit))
    have here : s.level = s.weight + 1 := State.level_pos (.inr (.inr some))
    have there : State.level { s with moreline := none } = s.weight :=
      @State.level_zero { s with moreline := none } more goes rfl
    refine ⟨rfl, ended, fun none => absurd none (Option.some_ne_none line), fun _ => ?_⟩
    dsimp only
    rw [there, here]
    exact Nat.lt_succ_self _
  next none =>
    dsimp only
    split
    next finished =>
      exact ⟨none, ended, fun _ => Nat.le_of_eq (State.level_pos (.inr (.inl finished))).symm,
        fun some => absurd rfl some⟩
    next goes =>
      have going : s.msgend = false := Bool.eq_false_iff.mpr goes
      have more : s.eofhit = false := Bool.eq_false_iff.mpr fun hit => goes (ended hit)
      have lower := cntlin_weight_lt nametrm (.inl more)
      have least := s.weight_le_level
      have kept := cntlin_eofhit nametrm ended
      split
      · exact ⟨none, kept, fun _ => by dsimp only; omega, fun some => absurd rfl some⟩
      · have most := (cntlin nametrm s).2.level_le
        refine ⟨none, kept, fun none => absurd none (Option.some_ne_none _), fun _ => ?_⟩
        have same : ∀ text, ((cntlin nametrm s).2.fwrite text).level = (cntlin nametrm s).2.level :=
          fun _ => rfl
        dsimp only
        rw [same]
        omega

end NetworkUnix.Mmdf.Submit
