/-
This file models `stormsg`: the loop over the components of the headers with the verdict on the
author, the ways out of it, and the queue files that are left. What the loop reads does not
depend on the verdict, so the headers are also given as the list of what was read and how the
reading ended, and the outcome is a judgement on that list.
-/

import NetworkUnix.Mmdf.Submit.Message

namespace NetworkUnix.Mmdf.Submit

variable (h : Site) (k : Lookups) (o : Options)

/-! ### Reading a component -/

/-- What the name that was read says of its component. -/
inductive Kind where
  | unnamed
  | empty
  | continued
  | unterminated
  | sender
  | author
  | addresses
  | plain
  deriving DecidableEq

/-- isadrcmpt -/
def isadrcmpt (name : List Byte) : Bool := o.adrcmpt.any (strequ name)

/-- The tests of `tstfld`. -/
def kind (line : List Byte) : Kind :=
  if line.head? = some colon then .unnamed
  else if line.head? = some newline then .empty
  else if line.head? = some blank ∨ line.head? = some tab then .continued
  else if line.getLast? ≠ some colon then .unterminated
  else
    let name := h.compress (cstring line.dropLast)
    if strequ nameSender name ∧ o.passfrom = .check then .sender
    else if strequ nameFrom name then .author
    else if o.bldadrs ∧ o.adrcmpt ≠ [] ∧ isadrcmpt o name then .addresses
    else .plain

/-- The name of the next component: the line that `cmpntin` left, or a line that is read where
the text has not ended. -/
def nextName (s : State) : Option (List Byte) × State :=
  match s.moreline with
  | some line => (some line, { s with moreline := none })
  | none =>
    let (line, read) := cntlin nametrm s
    if s.msgend = true then (none, s)
    else if line = [] ∨ line.head? = some 0 then (none, read)
    else
      let text := if line.getLast? = some 0 then line.dropLast else line
      (some text, read.fwrite text)

/-- What a trip through the loop reads. -/
inductive Item where
  | sender (check : Check)
  | author (check : Check)
  | other
  deriving DecidableEq

/-- How the headers end: with an error, an empty line, the end of the text, or not at all. -/
inductive Ending where
  | aborts
  | body
  | finish
  | stuck
  deriving DecidableEq

/-- A component, or the end of the headers. -/
def item (s : State) : (Item × State) ⊕ Ending :=
  match nextName s with
  | (none, _) => .inr .finish
  | (some line, read) =>
    match kind k.toSite o line with
    | .unnamed => .inr .aborts
    | .empty => .inr .body
    | .continued => .inl (.other, cntline2mfil line.getLast? read)
    | .unterminated => .inr .aborts
    | .sender => .inl (.sender (chksndr k.toSite read).1, (chksndr k.toSite read).2)
    | .author => .inl (.author (chksndr k.toSite read).1, (chksndr k.toSite read).2)
    | .addresses =>
      match (adrlst o k).run read with
      | .done after => if after.moreline = none then .inr .finish else .inl (.other, after)
      | .aborted _ => .inr .aborts
      | .stuck => .inr .stuck
    | .plain => .inl (.other, cntline2mfil none read)

/-! ### The end of the text comes nearer -/

/-- The end of the text, and a line that waits. -/
def State.rank (s : State) : Nat := 2 * s.left + if s.moreline = none then 0 else 1

theorem rank_of_left {s next : State} (less : next.left ≤ s.left)
    (same : next.moreline = s.moreline) : next.rank ≤ s.rank := by
  unfold State.rank
  rw [same]
  omega

theorem rank_chksndr (s : State) : (chksndr h s).2.rank ≤ s.rank := by
  have read := rank_of_left (cntlin_left_le nltrm s) (cntlin_moreline nltrm s)
  unfold chksndr
  dsimp only
  split <;> exact read

theorem rank_cntline2mfil (last : Option Byte) (s : State) :
    (cntline2mfil last s).rank ≤ s.rank := by
  refine restOfLine.run_induct (fun begun out => out.rank ≤ begun.2.rank) ?_ ?_ (last, s)
  · rintro ⟨last, s⟩ out ends
    unfold restOfLine at ends
    dsimp only at ends
    split at ends
    · cases ends
      exact Nat.le_refl _
    · cases ends
  · rintro ⟨last, s⟩ item ⟨_, next⟩ again rest
    refine Nat.le_trans rest ?_
    unfold restOfLine at again
    dsimp only at again
    split at again
    · cases again
    · cases again
      exact rank_of_left (cntlin_left_le nltrm s) (cntlin_moreline nltrm s)

theorem rank_cmpntin {s : State} (none : s.moreline = none) :
    (cmpntin h s).2.rank ≤ s.rank ∧
      ((cmpntin h s).1 ≠ [] → (cmpntin h s).2.moreline = Option.none) := by
  unfold cmpntin
  generalize (if s.morcmpnt = true then moretrm else lstnultrm) = brkset
  dsimp only
  have same : (cntlin brkset s).2.moreline = Option.none := none
  have left := cntlin_left_le brkset s
  have less : (cntlin brkset s).2.rank ≤ s.rank := rank_of_left left (cntlin_moreline brkset s)
  split
  · exact ⟨less, fun some => absurd rfl some⟩
  next line =>
    have nearer := cntlin_left_lt brkset s (.inr (not_or.mp line).1)
    split
    · split
      · refine ⟨?_, fun some => absurd rfl some⟩
        have lines : ∀ next : State, next.left = (cntlin brkset s).2.left → next.rank ≤ s.rank := by
          intro next equal
          unfold State.rank
          split <;> omega
        exact lines _ rfl
      · exact ⟨less, fun _ => same⟩
    · exact ⟨less, fun _ => same⟩

theorem rank_adrlst {s after : State} (none : s.moreline = none)
    (ends : (adrlst o k).run s = .done after) : after.rank ≤ s.rank := by
  refine (adrlst o k).run_induct (fun begun out => begun.moreline = Option.none →
    ∀ after, out = .done after → after.rank ≤ begun.rank) ?_ ?_ s none after ends
  · intro s out stops none after done
    obtain ⟨less, -⟩ := rank_cmpntin k.toSite none
    unfold adrlst at stops
    dsimp only at stops
    split at stops
    · cases stops
      cases done
      exact less
    · unfold address msgabrt at stops
      dsimp only at stops
      repeat' split at stops
      all_goals first | (cases stops; cases done) | cases stops
  · intro s item next again rest none after done
    obtain ⟨less, kept⟩ := rank_cmpntin k.toSite none
    unfold adrlst at again
    dsimp only at again
    split at again
    · cases again
    next some =>
      obtain ⟨input, msgend, moreline⟩ := address_again o k again
      have same : next.left = (cmpntin k.toSite s).2.left := by
        unfold State.left
        rw [input, msgend]
      exact ((rest (moreline.trans (kept some)) after done).trans
        (rank_of_left (Nat.le_of_eq same) moreline)).trans less

theorem rank_nextName {s read : State} {line : List Byte}
    (name : nextName s = (some line, read)) : read.rank < s.rank ∧ read.moreline = none := by
  unfold nextName at name
  split at name
  next waits =>
    cases name
    refine ⟨?_, rfl⟩
    unfold State.rank
    rw [waits]
    exact Nat.lt_succ_self _
  next none =>
    dsimp only at name
    split at name
    · cases name
    next goes =>
      split at name
      · cases name
      · cases name
        have nearer := cntlin_left_lt nametrm s (.inl (Bool.eq_false_iff.mpr goes))
        have same : (cntlin nametrm s).2.moreline = Option.none := none
        refine ⟨?_, same⟩
        unfold State.rank
        rw [State.fwrite_moreline, State.fwrite_left, same, none]
        omega

theorem rank_item {s next : State} {i : Item} (read : item k o s = .inl (i, next)) :
    next.rank < s.rank := by
  unfold item at read
  split at read
  · cases read
  next line after name =>
    obtain ⟨less, none⟩ := rank_nextName name
    cases which : kind k.toSite o line <;> rw [which] at read <;> dsimp only at read
    case unnamed | empty | unterminated => cases read
    case continued | plain =>
      cases read
      exact Nat.lt_of_le_of_lt (rank_cntline2mfil _ after) less
    case sender | author =>
      cases read
      exact Nat.lt_of_le_of_lt (rank_chksndr k.toSite after) less
    case addresses =>
      split at read
      next done =>
        split at read
        · cases read
        · cases read
          exact Nat.lt_of_le_of_lt (rank_adrlst k o none done) less
      · cases read
      · cases read

/-- The headers: what was read, and how the reading ended. -/
def headers : Loop State Item (List Item × Ending) where
  body s :=
    match item k o s with
    | .inl (i, next) => .inl (i, next)
    | .inr ending => .inr ([], ending)
  join i out := (i :: out.1, out.2)
  measure := State.rank
  lowers := by
    intro s i next taken
    split at taken
    next read =>
      cases taken
      exact rank_item k o read
    · cases taken

/-! ### `stormsg` -/

/-- gotsender, gotfrom and authorok. -/
structure Verdict where
  gotsender : Byte
  gotfrom : Byte
  authorok : Check
  deriving DecidableEq

/-- The tests after the loop, and the body. -/
def afterHeaders (v : Verdict) (s : State) : Outcome :=
  if 0 < v.gotsender.toInt ∧ v.gotfrom = 0 then msgabrt s
  else if v.authorok.truth = false then msgabrt s
  else if s.msgend = false then .done (dobody h s)
  else .done s

/-- What is done with a component whose addresses are not taken. -/
def handle (line : List Byte) (v : Verdict) (s : State) : Kind → (Unit × Verdict × State) ⊕ Outcome
  | .unnamed => .inr (msgabrt s)
  | .empty => .inr (.done (dobody h s))
  | .continued => .inl ((), v, cntline2mfil line.getLast? s)
  | .unterminated => .inr (msgabrt s)
  | .sender =>
    if 0 < v.gotsender.toInt then .inr (msgabrt s)
    else
      let (check, read) := chksndr h s
      if check.truth = false then .inr (msgabrt read)
      else .inl ((), { v with gotsender := v.gotsender + 1, authorok := check }, read)
  | .author =>
    let (check, read) := chksndr h s
    .inl ((), { v with
      gotfrom := v.gotfrom + 1
      authorok := if v.gotsender = 0 then check else v.authorok }, read)
  | .addresses | .plain => .inl ((), v, cntline2mfil none s)

/-- A trip through the loop, after the name of the component. -/
def component (line : List Byte) (v : Verdict) (s : State) : (Unit × Verdict × State) ⊕ Outcome :=
  match kind k.toSite o line with
  | .addresses =>
    match (adrlst o k).run s with
    | .done read =>
      if read.moreline = none then .inr (afterHeaders k.toSite v read) else .inl ((), v, read)
    | .aborted read => .inr (.aborted read)
    | .stuck => .inr .stuck
  | which => handle k.toSite line v s which

/-- A trip through the loop. -/
def trip (v : Verdict) (s : State) : (Unit × Verdict × State) ⊕ Outcome :=
  match nextName s with
  | (none, read) => .inr (afterHeaders k.toSite v read)
  | (some line, read) => component k o line v read

theorem item_of_trip {v w : Verdict} {s next : State} {u : Unit}
    (again : trip k o v s = .inl (u, w, next)) : ∃ i, item k o s = .inl (i, next) := by
  unfold trip at again
  unfold item
  split at again
  · cases again
  next line read name =>
    unfold component at again
    cases which : kind k.toSite o line <;> rw [which] at again <;>
      dsimp only [handle] at again ⊢
    case unnamed | empty | unterminated => cases again
    case continued | plain =>
      cases again
      exact ⟨_, rfl⟩
    case sender =>
      split at again
      · cases again
      · split at again
        · cases again
        · cases again
          exact ⟨_, rfl⟩
    case author =>
      cases again
      exact ⟨_, rfl⟩
    case addresses =>
      split at again
      next =>
        split at again
        · cases again
        next waits =>
          cases again
          exact ⟨_, if_neg waits⟩
      · cases again
      · cases again

/-- The loop of `stormsg`. -/
def components : Loop (Verdict × State) Unit Outcome where
  body := fun (v, s) => trip k o v s
  join _ outcome := outcome
  measure := fun (_, s) => s.rank
  lowers := by
    rintro ⟨v, s⟩ item ⟨w, next⟩ taken
    obtain ⟨i, read⟩ := item_of_trip k o taken
    exact rank_item k o read

/-- dosrcinfo: what it writes. -/
def dosrcinfo : List Byte :=
  let named := ascii ['S', 'o', 'u', 'r', 'c', 'e', '-', 'I', 'n', 'f', 'o', ':', ' ']
  let disclaimer := ascii
    ['F', 'r', 'o', 'm', ' ', '(', 'a', 'n', 'd', '/', 'o', 'r', ' ', 'S', 'e', 'n', 'd', 'e', 'r',
      ')', ' ', 'n', 'a', 'm', 'e', ' ', 'n', 'o', 't', ' ', 'a', 'u', 't', 'h', 'e', 'n', 't',
      'i', 'c', 'a', 't', 'e', 'd', '.', '\n']
  let first := if o.passfrom = .flgfrom then disclaimer else []
  match o.sourcetxt with
  | none => named ++ first
  | some text =>
    let pad := if o.passfrom = .flgfrom then List.replicate 5 blank else []
    named ++ first ++ pad ++ text ++ if text.getLast? = some newline then [] else [newline]

/-- The verdict before the headers. -/
def Options.verdict : Verdict :=
  if o.passfrom = .check then ⟨0, 0, .no⟩ else ⟨1, 1, .yes⟩

/-- The control stream at the start of the text. -/
def atText (input : List Byte) (morcmpnt : Bool) : State where
  input := input
  msgend := false
  eofhit := false
  morcmpnt := morcmpnt
  moreline := none
  mfil := if o.passfrom = .flgfrom ∨ o.sourcetxt ≠ none then dosrcinfo o else []
  looked := 0

/-- stormsg -/
def stormsg (input : List Byte) (morcmpnt : Bool) : Outcome :=
  (components k o).run (o.verdict, atText o input morcmpnt)

end NetworkUnix.Mmdf.Submit
