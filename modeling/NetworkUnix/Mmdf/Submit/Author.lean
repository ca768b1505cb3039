/-
This file settles which messages `submit` takes on the word of their headers. A message names its
author rightly when it has a From component, at most one Sender component, and the one that
decides names a login name at the local host. The outcome of `stormsg` is a judgement on what the
headers were read as, and that judgement has a closed form; a message that is not taken leaves no
queue file.
-/

import NetworkUnix.Mmdf.Submit.Stormsg
import Mathlib.Tactic.Tauto

namespace NetworkUnix.Mmdf.Submit

variable (h : Site) (k : Lookups) (o : Options)

/-! ### The judgement -/

/-- What becomes of a message. -/
inductive Fate where
  | taken
  | refused
  | stuck
  deriving DecidableEq

/-- What becomes of the message by this outcome. -/
def Outcome.fate : Outcome → Fate
  | .done _ => .taken
  | .aborted _ => .refused
  | .stuck => .stuck

/-- The verdict after an item, unless the item is refused. -/
def Verdict.takes (v : Verdict) : Item → Option Verdict
  | .sender check =>
    if 0 < v.gotsender.toInt ∨ check = .no then none
    else some { v with gotsender := v.gotsender + 1, authorok := check }
  | .author check =>
    some { v with
      gotfrom := v.gotfrom + 1
      authorok := if v.gotsender = 0 then check else v.authorok }
  | .other => some v

/-- What becomes of a message whose headers end so. -/
def Verdict.ends (v : Verdict) : Ending → Fate
  | .aborts => .refused
  | .body => .taken
  | .finish => if 0 < v.gotsender.toInt ∧ v.gotfrom = 0 ∨ v.authorok = .no then .refused else .taken
  | .stuck => .stuck

/-- What becomes of a message with these headers. -/
def judge (ending : Ending) : Verdict → List Item → Fate
  | v, [] => v.ends ending
  | v, i :: items =>
    match v.takes i with
    | none => .refused
    | some w => judge ending w items

theorem truth_false {check : Check} : check.truth = false ↔ check = .no := by
  cases check <;> decide

theorem fate_afterHeaders (v : Verdict) (s : State) :
    (afterHeaders h v s).fate = v.ends .finish := by
  unfold afterHeaders
  dsimp only [Verdict.ends]
  by_cases missing : 0 < v.gotsender.toInt ∧ v.gotfrom = 0
  · rw [if_pos missing, if_pos (.inl missing)]
    rfl
  rw [if_neg missing]
  by_cases bad : v.authorok = .no
  · rw [if_pos (truth_false.mpr bad), if_pos (.inr bad)]
    rfl
  · rw [if_neg (fun no => bad (truth_false.mp no)), if_neg (not_or.mpr ⟨missing, bad⟩)]
    split <;> rfl

theorem trip_item (v : Verdict) (s : State) :
    (∃ ending out, item k o s = .inr ending ∧ trip k o v s = .inr out ∧ out.fate = v.ends ending) ∨
      ∃ i next, item k o s = .inl (i, next) ∧
        ((∃ w, v.takes i = some w ∧ trip k o v s = .inl ((), w, next)) ∨
          ∃ out, v.takes i = none ∧ trip k o v s = .inr out ∧ out.fate = .refused) := by
  unfold item trip
  cases named : nextName s with
  | mk line read =>
    cases line with
    | none => exact .inl ⟨_, _, rfl, rfl, fate_afterHeaders k.toSite v read⟩
    | some line =>
      dsimp only
      unfold component
      cases kind k.toSite o line with
      | unnamed => exact .inl ⟨_, _, rfl, rfl, rfl⟩
      | empty => exact .inl ⟨_, _, rfl, rfl, rfl⟩
      | continued => exact .inr ⟨_, _, rfl, .inl ⟨v, rfl, rfl⟩⟩
      | unterminated => exact .inl ⟨_, _, rfl, rfl, rfl⟩
      | sender =>
        refine .inr ⟨_, _, rfl, ?_⟩
        dsimp only [Verdict.takes, handle]
        by_cases second : 0 < v.gotsender.toInt
        · rw [if_pos (.inl second), if_pos second]
          exact .inr ⟨_, rfl, rfl, rfl⟩
        rw [if_neg second]
        by_cases bad : (chksndr k.toSite read).1 = .no
        · rw [if_pos (.inr bad), if_pos (truth_false.mpr bad)]
          exact .inr ⟨_, rfl, rfl, rfl⟩
        · rw [if_neg (not_or.mpr ⟨second, bad⟩), if_neg (fun no => bad (truth_false.mp no))]
          exact .inl ⟨_, rfl, rfl⟩
      | author => exact .inr ⟨_, _, rfl, .inl ⟨_, rfl, rfl⟩⟩
      | addresses =>
        dsimp only
        split
        next after _ =>
          by_cases none : after.moreline = Option.none
          · rw [if_pos none, if_pos none]
            exact .inl ⟨_, _, rfl, rfl, fate_afterHeaders k.toSite v after⟩
          · rw [if_neg none, if_neg none]
            exact .inr ⟨_, _, rfl, .inl ⟨v, rfl, rfl⟩⟩
        · exact .inl ⟨_, _, rfl, rfl, rfl⟩
        · exact .inl ⟨_, _, rfl, rfl, rfl⟩
      | plain => exact .inr ⟨_, _, rfl, .inl ⟨v, rfl, rfl⟩⟩

theorem headers_done {s : State} {ending : Ending} (ends : item k o s = .inr ending) :
    (headers k o).run s = ([], ending) := by
  refine Loop.run_done ?_
  unfold headers
  dsimp only
  rw [ends]

theorem headers_again {s next : State} {i : Item} (again : item k o s = .inl (i, next)) :
    (headers k o).run s = (i :: ((headers k o).run next).1, ((headers k o).run next).2) := by
  have body : (headers k o).body s = .inl (i, next) := by
    unfold headers
    dsimp only
    rw [again]
  exact Loop.run_again body

theorem fate_components (v : Verdict) (s : State) :
    ((components k o).run (v, s)).fate =
      judge ((headers k o).run s).2 v ((headers k o).run s).1 := by
  refine (components k o).run_induct (fun begun out => out.fate =
    judge ((headers k o).run begun.2).2 begun.1 ((headers k o).run begun.2).1) ?_ ?_ (v, s)
  · rintro ⟨v, s⟩ out stops
    rcases trip_item k o v s with ⟨ending, out', ends, tripped, fate⟩ |
      ⟨i, next, again, ⟨w, -, tripped⟩ | ⟨out', refused, tripped, fate⟩⟩
    · cases tripped.symm.trans stops
      rw [headers_done k o ends]
      exact fate
    · cases tripped.symm.trans stops
    · cases tripped.symm.trans stops
      rw [headers_again k o again]
      dsimp only [judge]
      rw [refused]
      exact fate
  · rintro ⟨v, s⟩ item ⟨w, next⟩ goes rest
    rcases trip_item k o v s with ⟨ending, out, -, tripped, -⟩ |
      ⟨i, next', again, ⟨w', takes, tripped⟩ | ⟨out, -, tripped, -⟩⟩
    · cases tripped.symm.trans goes
    · cases tripped.symm.trans goes
      rw [headers_again k o again]
      dsimp only [judge]
      rw [takes]
      exact rest
    · cases tripped.symm.trans goes

/-! ### The judgement in closed form -/

/-- What `chksndr` returned for the Sender components. -/
def senders (items : List Item) : List Check :=
  items.filterMap fun
    | .sender check => some check
    | _ => none

/-- What `chksndr` returned for the From components. -/
def authors (items : List Item) : List Check :=
  items.filterMap fun
    | .author check => some check
    | _ => none

theorem gotfrom_next (gotfrom : Byte) (check : Check) (items : List Item) :
    gotfrom + BitVec.ofNat 8 (authors (.author check :: items)).length =
      gotfrom + 1 + BitVec.ofNat 8 (authors items).length := by
  change gotfrom + BitVec.ofNat 8 ((authors items).length + 1) = _
  rw [BitVec.ofNat_add, BitVec.add_comm (BitVec.ofNat 8 _), BitVec.add_assoc]
  rfl

theorem judge_sent (ending : Ending) (items : List Item) {v : Verdict} (sent : v.gotsender = 1)
    (good : v.authorok ≠ .no) :
    judge ending v items = .refused ↔ senders items ≠ [] ∨ ending = .aborts ∨
      ending = .finish ∧ v.gotfrom + BitVec.ofNat 8 (authors items).length = 0 := by
  have positive : 0 < v.gotsender.toInt := by
    rw [sent]
    decide
  induction items generalizing v with
  | nil =>
    have none : v.gotfrom + BitVec.ofNat 8 (authors []).length = v.gotfrom := BitVec.add_zero _
    rw [none]
    cases ending <;> simp [judge, Verdict.ends, senders, positive, good]
  | cons i items inductionHypothesis =>
    cases i with
    | sender check =>
      have refused : judge ending v (.sender check :: items) = .refused := by
        dsimp only [judge, Verdict.takes]
        rw [if_pos (.inl positive)]
      exact ⟨fun _ => .inl (List.cons_ne_nil _ _), fun _ => refused⟩
    | author check =>
      have next : v.takes (.author check) =
          some { v with gotfrom := v.gotfrom + 1, authorok := v.authorok } := by
        dsimp only [Verdict.takes]
        rw [if_neg (by rw [sent]; decide)]
      rw [gotfrom_next]
      dsimp only [judge]
      rw [next]
      exact inductionHypothesis sent good positive
    | other => exact inductionHypothesis sent good positive

theorem judge_unsent (ending : Ending) (items : List Item) {v : Verdict} (unsent : v.gotsender = 0) :
    judge ending v items = .refused ↔
      ending = .aborts ∨ 1 < (senders items).length ∨ Check.no ∈ senders items ∨
        ending = .finish ∧
          (senders items ≠ [] ∧ v.gotfrom + BitVec.ofNat 8 (authors items).length = 0 ∨
            senders items = [] ∧ (authors items).getLast?.getD v.authorok = .no) := by
  have zero : ¬ 0 < v.gotsender.toInt := by
    rw [unsent]
    decide
  induction items generalizing v with
  | nil => cases ending <;> simp [judge, Verdict.ends, senders, authors, zero]
  | cons i items inductionHypothesis =>
    cases i with
    | sender check =>
      have here : senders (.sender check :: items) = check :: senders items := rfl
      have same : authors (.sender check :: items) = authors items := rfl
      rw [here, same]
      by_cases bad : check = .no
      · have refused : judge ending v (.sender check :: items) = .refused := by
          dsimp only [judge, Verdict.takes]
          rw [if_pos (.inr bad)]
        exact ⟨fun _ => .inr (.inr (.inl (bad ▸ List.mem_cons_self))), fun _ => refused⟩
      · have next : v.takes (.sender check) =
            some { v with gotsender := v.gotsender + 1, authorok := check } := by
          dsimp only [Verdict.takes]
          rw [if_neg (not_or.mpr ⟨zero, bad⟩)]
        have sent : v.gotsender + 1 = 1 := by
          rw [unsent]
          rfl
        dsimp only [judge]
        rw [next, judge_sent ending items sent bad]
        have first : Check.no ∈ check :: senders items ↔ Check.no ∈ senders items := by
          rw [List.mem_cons]
          exact or_iff_right fun no => bad no.symm
        have more : 1 < (check :: senders items).length ↔ senders items ≠ [] := by
          rw [List.length_cons, ← List.length_pos_iff]
          omega
        have some : Check.no ∈ senders items → senders items ≠ [] := List.ne_nil_of_mem
        have cons := List.cons_ne_nil check (senders items)
        rw [first, more]
        tauto
    | author check =>
      have next : v.takes (.author check) =
          some { v with gotfrom := v.gotfrom + 1, authorok := check } := by
        dsimp only [Verdict.takes]
        rw [if_pos unsent]
      have same : senders (.author check :: items) = senders items := rfl
      have last : (authors (.author check :: items)).getLast?.getD v.authorok =
          (authors items).getLast?.getD check := by
        change (check :: authors items).getLast?.getD v.authorok = _
        rw [List.getLast?_cons]
        rfl
      rw [same, last, gotfrom_next]
      dsimp only [judge]
      rw [next]
      exact inductionHypothesis unsent zero
    | other => exact inductionHypothesis unsent zero

theorem kind_sender {line : List Byte} (which : kind h o line = .sender) : o.passfrom = .check := by
  by_contra unchecked
  unfold kind at which
  simp only [unchecked, and_false, if_false] at which
  repeat' split at which
  all_goals cases which

theorem no_senders (unchecked : o.passfrom ≠ .check) (s : State) :
    senders ((headers k o).run s).1 = [] := by
  have read : ∀ {s next : State} {check : Check}, item k o s ≠ .inl (.sender check, next) := by
    intro s next check sender
    unfold item at sender
    split at sender
    · cases sender
    next line after _ =>
      cases which : kind k.toSite o line <;> rw [which] at sender <;> dsimp only at sender
      case unnamed | empty | continued | unterminated | author | plain => cases sender
      case sender => exact unchecked (kind_sender k.toSite o which)
      case addresses =>
        split at sender
        · split at sender <;> cases sender
        · cases sender
        · cases sender
  refine (headers k o).run_induct (fun _ out => senders out.1 = []) ?_ ?_ s
  · intro s out ends
    unfold headers at ends
    dsimp only at ends
    split at ends
    · cases ends
    · cases ends
      rfl
  · intro s i next again rest
    unfold headers at again
    dsimp only at again
    split at again
    next sender =>
      cases again
      cases i with
      | sender check => exact absurd sender read
      | author check => exact rest
      | other => exact rest
    · cases again

/-- Why `stormsg` refuses a message: an error ends the headers, there is a second Sender, the check
of a Sender fails, or the text ends with the headers and there is no From component, counted in a
`char`, or the check of the last From fails and there is no Sender. Without a check only an error
or the count is left. -/
def Refused (read : List Item × Ending) : Prop :=
  read.2 = .aborts ∨
    match o.passfrom with
    | .check =>
      1 < (senders read.1).length ∨ Check.no ∈ senders read.1 ∨
        read.2 = .finish ∧
          (senders read.1 ≠ [] ∧ 256 ∣ (authors read.1).length ∨
            senders read.1 = [] ∧ (authors read.1).getLast?.getD .no = .no)
    | _ => read.2 = .finish ∧ 256 ∣ (authors read.1).length + 1

theorem ofNat_eq_zero (count : Nat) : BitVec.ofNat 8 count = 0 ↔ 256 ∣ count := by
  rw [← BitVec.toNat_inj, BitVec.toNat_ofNat, Nat.dvd_iff_mod_eq_zero]
  rfl

theorem fate_stormsg (input : List Byte) (morcmpnt : Bool) :
    (stormsg k o input morcmpnt).fate = .refused ↔
      Refused o ((headers k o).run (atText o input morcmpnt)) := by
  unfold stormsg Refused
  rw [fate_components]
  have trusted : o.passfrom ≠ .check → (judge ((headers k o).run (atText o input morcmpnt)).2
      o.verdict ((headers k o).run (atText o input morcmpnt)).1 = .refused ↔
        ((headers k o).run (atText o input morcmpnt)).2 = .aborts ∨
        ((headers k o).run (atText o input morcmpnt)).2 = .finish ∧
          256 ∣ (authors ((headers k o).run (atText o input morcmpnt)).1).length + 1) := by
    intro unchecked
    have start : o.verdict = ⟨1, 1, .yes⟩ := if_neg unchecked
    have one : (1 : Byte) = BitVec.ofNat 8 1 := rfl
    rw [judge_sent _ _ (congrArg Verdict.gotsender start)
      (by rw [start]; exact Check.noConfusion), no_senders k o unchecked, start]
    dsimp only
    rw [one, ← BitVec.ofNat_add, ofNat_eq_zero, Nat.add_comm 1]
    exact or_iff_right fun some => some rfl
  cases passfrom : o.passfrom with
  | check =>
    have start : o.verdict = ⟨0, 0, .no⟩ := if_pos passfrom
    have zero : ∀ count : Byte, 0 + count = count := BitVec.zero_add
    rw [judge_unsent _ _ (congrArg Verdict.gotsender start), start]
    dsimp only
    rw [zero, ofNat_eq_zero]
  | flgfrom => exact trusted (by rw [passfrom]; exact Passfrom.noConfusion)
  | okfrom => exact trusted (by rw [passfrom]; exact Passfrom.noConfusion)

/-! ### The author of a message -/

/-- The text of the message: the control stream up to the null. -/
def textOf (input : List Byte) : List Byte := input.takeWhile (· ≠ 0)

/-- The lines of the headers: those before the first empty line. -/
def headerLines (text : List Byte) : List (List Byte) := (text.splitOn newline).takeWhile (· ≠ [])

/-- A line is put before the lines that continue it. -/
def addLine (line : List Byte) (after : List Byte × List (List Byte)) :
    List Byte × List (List Byte) :=
  if line.head? = some blank ∨ line.head? = some tab then (line ++ after.1, after.2)
  else ([], (line ++ after.1) :: after.2)

/-- The values of the components of this name, with the lines that continue them. -/
def values (name : List Byte) (text : List Byte) : List (List Byte) :=
  let unfolded := ((headerLines text).foldr addLine ([], [])).2
  (unfolded.filter fun line =>
    line.contains colon && strequ name (h.compress (line.takeWhile (· ≠ colon)))).map
      fun line => (line.dropWhile (· ≠ colon)).drop 1

/-- Only spaces and tabs. -/
def Blanks (text : List Byte) : Prop := ∀ c ∈ text, c = blank ∨ c = tab

/-- What may stand between a mailbox and a host: a mark with any space around it, or the word
with space on both sides. -/
def Separates (text : List Byte) : Prop :=
  ∃ before mark after, text = before ++ mark ++ after ∧ Blanks before ∧ Blanks after ∧
    (mark = [atSign] ∨ mark = [percent] ∨
      strequ mark (ascii ['a', 't']) = true ∧ before ≠ [] ∧ after ≠ [])

/-- The value is a login name at the local host. -/
def Names (value : List Byte) : Prop :=
  ∃ lead mbox between host trail, value = lead ++ mbox ++ between ++ host ++ trail ∧
    Blanks lead ∧ Separates between ∧ Blanks trail ∧ strequ host h.locname = true ∧
    ∃ login ∈ h.logins, strequ mbox login = true

/-- The text names its author rightly. -/
structure Valid (text : List Byte) : Prop where
  author : values h nameFrom text ≠ []
  once : (values h nameSender text).length ≤ 1
  names : ∃ value, ((values h nameSender text).head? <|> (values h nameFrom text).getLast?) =
    some value ∧ Names h value

/-! ### The queue -/

/-- The files of the message in the queue; one that is there was opened, and descriptor 0 is the
control stream. -/
structure Queue where
  tfilfd : Nat
  mfilfd : Nat
  tfil : Bool
  afil : Bool
  mfil : Bool
  addressed : (tfil || afil) = true → 0 < tfilfd
  written : mfil = true → 0 < mfilfd

/-- clrfiles -/
def clrfiles (q : Queue) : Queue where
  tfilfd := q.tfilfd
  mfilfd := q.mfilfd
  tfil := if 0 < q.tfilfd then false else q.tfil
  afil := if 0 < q.tfilfd then false else q.afil
  mfil := if 0 < q.mfilfd then false else q.mfil
  addressed := by
    split
    · intro none
      cases none
    · exact q.addressed
  written := by
    split
    · intro none
      cases none
    · exact q.written

/-- No file of the message is in the queue. -/
def Queue.Empty (q : Queue) : Prop := q.tfil = false ∧ q.afil = false ∧ q.mfil = false

theorem clrfiles_empty (q : Queue) : (clrfiles q).Empty := by
  have addresses : ¬ 0 < q.tfilfd → q.tfil = false ∧ q.afil = false := fun closed =>
    Bool.or_eq_false_iff.mp (Bool.eq_false_iff.mpr fun there => closed (q.addressed there))
  have text : ¬ 0 < q.mfilfd → q.mfil = false := fun closed =>
    Bool.eq_false_iff.mpr fun there => closed (q.written there)
  unfold clrfiles Queue.Empty
  dsimp only
  refine ⟨?_, ?_, ?_⟩
  · split
    · rfl
    next closed => exact (addresses closed).1
  · split
    · rfl
    next closed => exact (addresses closed).2
  · split
    · rfl
    next closed => exact text closed

/-- `stormsg` on the text of a message, and the queue after it. -/
def submitText (q : Queue) (input : List Byte) (morcmpnt : Bool) : Outcome × Queue :=
  match stormsg k o input morcmpnt with
  | .aborted s => (.aborted s, clrfiles q)
  | out => (out, q)

/-- A message is taken only if it names its author rightly, and every other is refused and leaves
no file. -/
structure Authenticates (q : Queue) (input : List Byte) (morcmpnt : Bool) : Prop where
  taken : ∀ s, (submitText k o q input morcmpnt).1 = .done s → Valid k.toSite (textOf input)
  refused : ¬ Valid k.toSite (textOf input) →
    (∃ s, (submitText k o q input morcmpnt).1 = .aborted s) ∧
      (submitText k o q input morcmpnt).2.Empty

/-- A host with one login name. -/
def oneLogin : Lookups where
  lwsp c := c == blank || c == tab
  compress text := (text.dropWhile (· = blank)).rdropWhile (· = blank)
  isAt c d := lower c == 0x61 && lower d == 0x74
  locname := ascii ['h', 'e', 'r', 'e']
  logins := [ascii ['r', 'o', 'o', 't']]
  strayHost := []
  strayMbox := []
  strayChar := 0
  compress_nil := unblanked_nil
  chkadr _ _ := .found
  addrfil _ _ := .found

/-- A message without options. -/
def noOptions : Options where
  passfrom := .check
  sourcetxt := none
  vrfyflg := false
  bldadrs := false
  adrcmpt := []

/-- The files of a message that is being submitted. -/
def opened : Queue where
  tfilfd := 3
  mfilfd := 4
  tfil := true
  afil := false
  mfil := true
  addressed _ := by decide
  written _ := by decide

/-- A message from the login name at the local host names its author rightly. -/
example : Valid oneLogin.toSite (ascii ['F', 'r', 'o', 'm', ':', ' ', 'R', 'o', 'o', 't', ' ', 'a', 't', ' ',
    'h', 'e', 'r', 'e', '\n', '\n', 'h', 'i']) where
  author := by decide
  once := by decide
  names := by
    refine ⟨_, rfl, [blank], ascii ['R', 'o', 'o', 't'], ascii [' ', 'a', 't', ' '], oneLogin.locname,
      [], rfl, by unfold Blanks; decide, ⟨[blank], ascii ['a', 't'], [blank], rfl,
        by unfold Blanks; decide, by unfold Blanks; decide, .inr (.inr (by decide))⟩, by
          unfold Blanks; decide, rfl, _, List.mem_cons_self, rfl⟩

example : checkName oneLogin.toSite (ascii [' ', 'r', 'o', 'o', 't', ' ', 'a', 't', ' ', 'h', 'e', 'r', 'e'])
    = .yes := by decide

example : checkName oneLogin.toSite (ascii [' ', 'r', 'o', 'o', 't', 'x', '@', 'h', 'e', 'r', 'e']) = .yes := by
  decide

example : checkName oneLogin.toSite (ascii [' ', 'r', 'o', 'o', 't', '@', 'h', 'e', 'r', 'e']) = .no := by
  decide

example : checkName oneLogin.toSite (ascii [' ', 'r', 'o', 'o', 't']) = .notok := by decide

end NetworkUnix.Mmdf.Submit
