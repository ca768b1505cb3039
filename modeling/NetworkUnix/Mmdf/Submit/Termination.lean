/-
This file settles when a run of `submit` comes to its end. Three loops can stay where they are:
the one of `switchinit` at the name of a component that an earlier option line gave, the one of
`queueinit` at the end of the control stream, and `adrlst` over an alias at a comma. As long as no
state of the run is at one of them, every step brings the end nearer, and every message that was
begun is queued or rejected.
-/

import NetworkUnix.Lib.Halting
import NetworkUnix.Mmdf.Submit.Descent

namespace NetworkUnix.Mmdf.Submit.Session

open Halting

variable (w : World)

/-- None of the loops that can stay where they are does. -/
def Fine (m : Session) : Prop :=
  match m.mode with
  | .top => m.ctl.eofhit = true ∨ m.useprot = false ∨ m.set.adrcmpt = []
  | .echo => m.ctl.input ≠ []
  | .adrs (.aliasin abufpos _ _ :: _) _ => ∀ c, abufpos.head? = some c → lstnultrm c = false
  | _ => True

/-- The run is over. -/
def Over (m : Session) : Prop := m.mode = .exit

/-- The run comes to its end, and every message was queued or rejected. -/
def Terminates (m : Session) : Prop :=
  ∃ steps, (((next w)^[steps]) m).Over ∧
    (((next w)^[steps]) m).results.length = (((next w)^[steps]) m).started

/-! ### Loops that stay where they are -/

theorem next_over (m : Session) (finished : m.Over) : m.next w = m := by
  unfold next
  rw [show m.mode = .exit from finished]

theorem not_over (m : Session) (bad : ¬ m.Fine) : ¬ m.Over := by
  intro finished
  refine bad ?_
  unfold Fine
  rw [show m.mode = .exit from finished]
  exact trivial

theorem address_nil (m : Session) (errabrt : Bool) (frames : List Frame) (back : Option Verdict) :
    m.address w [] errabrt frames back = { m with mode := .adrs frames back } := by
  unfold address rmcmnt
  dsimp only
  rw [if_neg (fun bad => Bool.false_ne_true bad.1.symm), w.compress_nil]

theorem next_stays (m : Session) (bad : ¬ m.Fine) : ¬ (m.next w).Fine := by
  unfold Fine at bad
  split at bad
  next top =>
    obtain ⟨going, protocol, names⟩ : ¬ m.ctl.eofhit = true ∧ ¬ m.useprot = false ∧
        ¬ m.set.adrcmpt = [] := by
      simpa only [not_or] using bad
    have same : m.next w = { m with ctl := { m.ctl with msgend := false } } := by
      unfold next atTop
      rw [top]
      dsimp only
      rw [if_neg going, if_neg protocol, if_pos names]
    rw [same]
    unfold Fine
    dsimp only
    rw [top]
    exact bad
  next echo =>
    have ended : m.ctl.input = [] := not_not.mp bad
    have same : m.next w = { m with ctl := { m.ctl with msgend := true, eofhit := true } } := by
      unfold next echochar
      rw [echo]
      dsimp only
      rw [ended]
    rw [same]
    unfold Fine
    dsimp only
    rw [echo]
    exact bad
  next abufpos oldpos oldalias under back adrs =>
    obtain ⟨c, rest, rfl, ends⟩ : ∃ c rest, abufpos = c :: rest ∧ lstnultrm c = true := by
      cases abufpos with
      | nil => exact absurd (fun c none => nomatch none) bad
      | cons c rest =>
        refine ⟨c, rest, rfl, eq_true_of_ne_false fun goes => bad ?_⟩
        intro d some
        cases some
        exact goes
    have stays : (!lstnultrm c) = false := congrArg not ends
    have same : m.next w = { m with
        mode := .adrs (.aliasin (c :: rest) oldpos oldalias :: under) back } := by
      unfold next
      rw [adrs]
      dsimp only
      unfold aliasAdr
      rw [if_neg (List.cons_ne_nil _ _), List.takeWhile_cons, List.dropWhile_cons, stays]
      exact address_nil w m _ _ _
    rw [same]
    exact bad
  next => exact absurd trivial bad

theorem not_terminates {m : Session} (steps : Nat) (bad : ¬ ((next w)^[steps] m).Fine) :
    ¬ m.Terminates w := by
  rintro ⟨all, finished, -⟩
  have halts : Halts (next w) Over m := halts_iff.mpr ⟨all, finished⟩
  exact not_halts not_over (next_stays w) bad (halts.iterate (next_over w) steps)

/-! ### Every message is settled -/

/-- Every message that was begun has a result, but for the one that is being taken. -/
def Settled (m : Session) : Prop := m.results.length + pending m.mode = m.started

/-- A message is being taken. -/
def Taking (m : Session) : Prop := m.results.length + 1 = m.started

section Settled

variable {w} {m : Session}

theorem pending_top (prot : Bool) : pending (if prot then .top else .exit) = 0 := by
  cases prot <;> rfl

section

variable (taking : m.Taking)
include taking

theorem Taking.ended {n : Session} {result : Result}
    (results : n.results = m.results ++ [result]) (started : n.started = m.started)
    (mode : pending n.mode = 0) : n.Settled := by
  unfold Settled
  rw [results, started, mode, List.length_append]
  exact taking

theorem Taking.msgabrt : m.msgabrt.Settled :=
  taking.ended rfl rfl (pending_top _)

theorem Taking.sysabrt : m.sysabrt.Settled := taking.ended rfl rfl rfl

theorem Taking.queue (ctl : State) : (m.queue ctl).Settled :=
  taking.ended rfl rfl rfl

theorem Taking.close {v : Verdict} {s : State} :
    (m.close (afterHeaders w.toSite v s)).Settled := by
  have read : ∀ ctl, Taking { m with ctl := ctl } := fun _ => taking
  unfold afterHeaders Submit.msgabrt
  split
  · exact (read _).msgabrt
  split
  · exact (read _).msgabrt
  split <;> exact taking.queue _

theorem Taking.stormsgs : (m.stormsgs w).Settled := by
  unfold Session.stormsgs
  dsimp only
  split
  · exact taking.queue _
  · exact taking

theorem Taking.afterAdrs : (m.afterAdrs w).Settled := by
  unfold Session.afterAdrs
  split
  · exact taking.sysabrt
  · exact taking.stormsgs

theorem Taking.afterEcho : (m.afterEcho w).Settled := by
  unfold Session.afterEcho
  split
  · exact taking
  · exact taking.afterAdrs

end

theorem settled_queueinit (settled : m.results.length = m.started) : (m.queueinit w).Settled := by
  have taking : Taking { m with started := m.started + 1 } := congrArg (· + 1) settled
  unfold queueinit
  dsimp only
  split
  · exact taking.afterEcho
  · exact taking

section

variable (taking : m.Taking)
include taking

theorem Taking.unknown (errabrt : Bool) (frames : List Frame)
    (back : Option Verdict) : (m.unknown errabrt frames back).Settled := by
  unfold Session.unknown
  split
  · exact taking.msgabrt
  · exact taking

theorem Taking.chkadr (adr : List Byte) (errabrt : Bool)
    (frames : List Frame) (back : Option Verdict) :
    (m.chkadr w adr errabrt frames back).Settled := by
  have sought : ∀ table, Taking { m with table := table } := fun _ => taking
  unfold Session.chkadr
  split
  · exact taking
  · exact taking.unknown ..
  · dsimp only
    split
    · exact taking
    · split
      · exact taking
      · exact (sought _).unknown ..

theorem Taking.addrfil (name : List Byte) (errabrt : Bool)
    (frames : List Frame) (back : Option Verdict) :
    (m.addrfil w name errabrt frames back).Settled := by
  have opens : Taking { m with opened := m.opened + 1 } := taking
  unfold Session.addrfil
  dsimp only
  split
  · exact opens.msgabrt
  · split
    · exact opens.msgabrt
    · exact taking

theorem Taking.address (adrline : List Byte) (errabrt : Bool)
    (frames : List Frame) (back : Option Verdict) :
    (m.address w adrline errabrt frames back).Settled := by
  unfold Session.address
  dsimp only
  split
  · exact taking.msgabrt
  · split
    · exact taking
    · split
      · exact taking.addrfil ..
      · exact taking.chkadr ..

theorem Taking.firstAdr (back : Option Verdict) :
    (m.firstAdr w back).Settled := by
  have read : ∀ ctl, Taking { m with ctl := ctl } := fun _ => taking
  unfold Session.firstAdr
  cases back with
  | none =>
    dsimp only
    split
    · exact (read _).afterAdrs
    · exact (read _).address ..
  | some v =>
    dsimp only
    split
    · split
      · exact (read _).close
      · exact taking
    · exact (read _).address ..

theorem Taking.handled {line : List Byte} {v : Verdict} {s : State} {which : Kind}
    {outcome : Outcome} (done : handle w.toSite line v s which = .inr outcome) :
    (m.close outcome).Settled := by
  have read : ∀ ctl, Taking { m with ctl := ctl } := fun _ => taking
  cases which <;> dsimp only [handle] at done
  case unnamed | unterminated =>
    cases done
    exact (read _).msgabrt
  case empty =>
    cases done
    exact taking.queue _
  case continued | author | addresses | plain => cases done
  case sender =>
    split at done
    · cases done
      exact (read _).msgabrt
    · split at done
      · cases done
        exact (read _).msgabrt
      · cases done

theorem Taking.textTrip (v : Verdict) : (m.textTrip w v).Settled := by
  unfold Session.textTrip
  split
  · exact taking.close
  · dsimp only
    split
    · exact taking
    · split
      next outcome done => exact taking.handled done
      · split <;> exact taking

end

theorem Settled.next (settled : m.Settled) : (m.next w).Settled := by
  unfold Session.next
  unfold Settled at settled
  split
  next top =>
    rw [top] at settled
    have none : m.results.length = m.started := settled
    unfold atTop
    dsimp only
    split
    · exact none
    split
    · exact settled_queueinit none
    split
    · unfold Settled
      dsimp only
      rw [top]
      exact none
    split
    · exact none
    · exact settled_queueinit none
  next echo =>
    rw [echo] at settled
    have taking : m.Taking := settled
    have same : ∀ ctl, Settled { m with ctl := ctl } := fun ctl => by
      unfold Settled
      dsimp only
      rw [echo]
      exact settled
    have read : ∀ ctl, Taking { m with ctl := ctl } := fun _ => taking
    unfold echochar
    split
    · exact same _
    · dsimp only
      split
      · split
        · exact (read _).afterEcho
        · exact same _
      · exact same _
  next adrs =>
    rw [adrs] at settled
    exact Taking.firstAdr settled _
  next adrs =>
    rw [adrs] at settled
    have taking : m.Taking := settled
    unfold aliasAdr
    split
    · exact taking
    · exact taking.address ..
  next adrs =>
    rw [adrs] at settled
    have read : ∀ infil, Taking { m with infil := infil } := fun _ => settled
    unfold fileAdr
    split
    · exact settled
    · dsimp only
      split
      · exact settled
      · exact (read _).address ..
  next text =>
    rw [text] at settled
    exact Taking.textTrip settled _
  next finished =>
    unfold Settled
    rw [finished]
    rw [finished] at settled
    exact settled

end Settled

/-! ### Aliases and address files -/

/-- The run comes to its end from here, if none of its loops stays where it is. -/
def Ends (m : Session) : Prop := Always (next w) Fine m → Halts (next w) Over m

variable {w} {ctl : State} {prot : Bool} {back : Option Verdict}

theorem ends_of_next {m : Session} (ends : (m.next w).Ends w) : m.Ends w := fun always =>
  .step (ends always.later)

/-- The run comes to its end where the message is given up. -/
def Aborts (w : World) (ctl : State) (prot : Bool) : Prop :=
  ∀ n : Session, n.ctl = ctl → n.useprot = prot → (n.curalias = false → n.table = w.aliases) →
    n.msgabrt.Ends w

/-- The run comes to its end where the loops that are left go on: with the place in the table as it
was, and with the address file, unless another was opened. -/
def Resumes (w : World) (ctl : State) (prot : Bool) (back : Option Verdict) (under : List Frame)
    (table : List (List Byte × List Byte)) (curalias : Bool) (infil : Option (List Byte)) : Prop :=
  ∀ n : Session, n.mode = .adrs under back → n.ctl = ctl → n.useprot = prot → n.table = table →
    n.curalias = curalias → n.infil = infil ∨ n.infil = none → n.Ends w

theorem Resumes.closed {under : List Frame} {table : List (List Byte × List Byte)} {curalias : Bool}
    {infil : Option (List Byte)} (resumes : Resumes w ctl prot back under table curalias infil) :
    Resumes w ctl prot back under table curalias none :=
  fun n mode sameCtl useprot sameTable sameAlias file =>
    resumes n mode sameCtl useprot sameTable sameAlias (.inr (file.elim id id))

theorem files_aliasin (abufpos : List Byte) (oldpos : List (List Byte × List Byte)) (oldalias : Bool)
    (under : List Frame) : files (.aliasin abufpos oldpos oldalias :: under) = files under := rfl

theorem files_filin (errabrt : Bool) (under : List Frame) :
    files (.filin errabrt :: under) = files under + 1 := List.countP_cons_of_pos rfl

theorem resumes_alias {under : List Frame} {oldpos : List (List Byte × List Byte)} {oldalias : Bool}
    {infil : Option (List Byte)} (resumes : Resumes w ctl prot back under oldpos oldalias infil)
    (abufpos : List Byte) (table : List (List Byte × List Byte)) (curalias : Bool) :
    Resumes w ctl prot back
      (.aliasin (abufpos.dropWhile fun c => !lstnultrm c) oldpos oldalias :: under)
      table curalias infil := by
  intro n mode sameCtl useprot _ _ file always
  have fine := always.now
  unfold Fine at fine
  rw [mode] at fine
  dsimp only at fine
  cases rest : abufpos.dropWhile fun c => !lstnultrm c with
  | nil =>
    rw [rest] at mode
    refine ends_of_next (resumes _ ?_ ?_ ?_ ?_ ?_ ?_) always
    all_goals
      unfold next
      rw [mode]
      dsimp only
      unfold aliasAdr
      rw [if_pos rfl]
    · exact sameCtl
    · exact useprot
    · exact file
  | cons c others =>
    have stops : (!lstnultrm c) ≠ true := by
      have some : (abufpos.dropWhile fun c => !lstnultrm c) ≠ [] := by
        rw [rest]
        exact List.cons_ne_nil c others
      have head := List.head_dropWhile_not (fun c => !lstnultrm c) some
      simp only [rest, List.head_cons] at head
      rw [head]
      exact Bool.false_ne_true
    rw [rest] at fine
    exact absurd (congrArg not (fine c rfl)) stops

/-- What goes on after the innermost loop. -/
def ResumesAfter (w : World) (prot : Bool) (back : Option Verdict) (m : Session)
    (under : List Frame) : Frame → Prop
  | .aliasin _ oldpos oldalias => Resumes w m.ctl prot back under oldpos oldalias m.infil
  | .filin _ => Resumes w m.ctl prot back under m.table m.curalias none

/-- The loops come to their end where this much is left: descriptors, and entries of the table. -/
def EndsWithin (w : World) (ctl : State) (prot : Bool) (back : Option Verdict) (budget : Nat) : Prop :=
  ∀ (f : Frame) (under : List Frame) (m : Session), m.mode = .adrs (f :: under) back →
    m.ctl = ctl → m.useprot = prot → (m.curalias = false → m.table = w.aliases) →
      w.nofile - files (f :: under) + m.table.length = budget → ResumesAfter w prot back m under f →
        m.Ends w

section Within

variable {budget : Nat} (aborts : Aborts w ctl prot)
  (below : ∀ less < budget, EndsWithin w ctl prot back less)

include aborts below

/-- An address is dealt with where the loop that took it goes on after it, and less is left for the
loops that are entered for it. -/
theorem ends_address {m n : Session} {frames : List Frame}
    (addressed : Addressed w m frames back n) (sameCtl : m.ctl = ctl) (useprot : m.useprot = prot)
    (table : m.curalias = false → m.table = w.aliases)
    (size : w.nofile - files frames + m.table.length = budget)
    (after : Resumes w ctl prot back frames m.table m.curalias m.infil) : n.Ends w := by
  cases addressed with
  | aborts same =>
    refine aborts _ (same.ctl.trans sameCtl) (same.useprot.trans useprot) ?_
    rw [same.curalias, same.table]
    exact table
  | stays same infil mode =>
    exact after _ mode (same.ctl.trans sameCtl) (same.useprot.trans useprot) same.table
      same.curalias (.inl infil)
  | @expands _ text sameCtl' useprot' curalias infil shorter mode =>
    refine below (w.nofile - files (.aliasin text m.table m.curalias :: frames) + n.table.length) ?_
      _ _ _ mode (sameCtl'.trans sameCtl) (useprot'.trans useprot)
      (fun outside => absurd (curalias.symm.trans outside) Bool.noConfusion) rfl ?_
    · rw [← size, files_aliasin]
      exact Nat.add_lt_add_left shorter _
    · unfold ResumesAfter
      rw [infil, sameCtl'.trans sameCtl]
      exact after
  | @opens _ errabrt same room mode =>
    refine below (w.nofile - files (.filin errabrt :: frames) + n.table.length) ?_
      _ _ _ mode (same.ctl.trans sameCtl) (same.useprot.trans useprot) ?_ rfl ?_
    · rw [← size, same.table, files_filin]
      omega
    · rw [same.curalias, same.table]
      exact table
    · unfold ResumesAfter
      rw [same.table, same.curalias, same.ctl.trans sameCtl]
      exact after.closed

theorem ends_alias {m : Session} {abufpos : List Byte} {oldpos : List (List Byte × List Byte)}
    {oldalias : Bool} {under : List Frame}
    (mode : m.mode = .adrs (.aliasin abufpos oldpos oldalias :: under) back)
    (sameCtl : m.ctl = ctl) (useprot : m.useprot = prot)
    (table : m.curalias = false → m.table = w.aliases)
    (size : w.nofile - files (.aliasin abufpos oldpos oldalias :: under) + m.table.length = budget)
    (resumes : Resumes w ctl prot back under oldpos oldalias m.infil) : m.Ends w := by
  have step : m.next w = m.aliasAdr w abufpos oldpos oldalias under back := by
    unfold next
    rw [mode]
  refine ends_of_next ?_
  rw [step]
  unfold aliasAdr
  split
  · exact resumes _ rfl sameCtl useprot rfl rfl (.inl rfl)
  · exact ends_address aborts below (addressed_address table ..) sameCtl useprot table size
      (resumes_alias resumes abufpos m.table m.curalias)

theorem ends_file {errabrt : Bool} {under : List Frame} {length : Nat} :
    ∀ m : Session, (m.infil.getD []).length = length → m.mode = .adrs (.filin errabrt :: under) back →
      m.ctl = ctl → m.useprot = prot → (m.curalias = false → m.table = w.aliases) →
        w.nofile - files (.filin errabrt :: under) + m.table.length = budget →
          Resumes w ctl prot back under m.table m.curalias none → m.Ends w := by
  induction length using Nat.strongRecOn with
  | ind length inductionHypothesis =>
    intro m left mode sameCtl useprot table size resumes
    have step : m.next w = m.fileAdr w errabrt under back := by
      unfold next
      rw [mode]
    refine ends_of_next ?_
    rw [step]
    unfold fileAdr
    split
    next closed => exact resumes _ rfl sameCtl useprot rfl rfl (.inl closed)
    next text file =>
      dsimp only
      split
      · exact resumes _ rfl sameCtl useprot rfl rfl (.inl rfl)
      next some =>
        have whole := congrArg List.length (gcread_append lstnultrm lineSize text)
        have line := List.length_pos_iff.mpr some
        rw [List.length_append] at whole
        have shorter : (gcread lstnultrm lineSize text).2.length < length := by
          rw [← left, file, Option.getD_some]
          omega
        have after : Resumes w ctl prot back (.filin errabrt :: under) m.table m.curalias
            (Option.some (gcread lstnultrm lineSize text).2) := by
          intro n mode sameCtl useprot sameTable sameAlias rest
          have less : (n.infil.getD []).length < length := by
            rcases rest with rest | rest <;> rw [rest]
            · exact shorter
            · exact Nat.lt_of_le_of_lt (Nat.zero_le _) shorter
          refine inductionHypothesis _ less n rfl mode sameCtl useprot ?_ ?_ ?_
          · rw [sameAlias, sameTable]
            exact table
          · rw [sameTable]
            exact size
          · rw [sameTable, sameAlias]
            exact resumes
        exact ends_address aborts below
          (addressed_address (m := { m with infil := Option.some (gcread lstnultrm lineSize text).2 })
            table ..) sameCtl useprot table size after

end Within

theorem ends_within (aborts : Aborts w ctl prot) (budget : Nat) :
    EndsWithin w ctl prot back budget := by
  induction budget using Nat.strongRecOn with
  | ind budget inductionHypothesis =>
    intro f under m mode sameCtl useprot table size resumes
    cases f with
    | aliasin abufpos oldpos oldalias =>
      exact ends_alias aborts inductionHypothesis mode sameCtl useprot table size (sameCtl ▸ resumes)
    | filin errabrt =>
      exact ends_file aborts inductionHypothesis m rfl mode sameCtl useprot table size
        (sameCtl ▸ resumes)

/-! ### Runs -/

theorem near_next {m : Session} (sound : m.Sound w) (fine : m.Fine) (going : ¬ m.Over)
    (first : ∀ f under back, m.mode ≠ .adrs (f :: under) back) : Near w m.off (m.next w) := by
  unfold Fine at fine
  unfold next
  cases mode : m.mode with
  | top =>
    rw [mode] at fine
    exact near_atTop sound mode fine
  | echo =>
    rw [mode] at fine
    exact near_echochar sound mode fine
  | adrs frames back =>
    cases frames with
    | nil => exact near_firstAdr sound mode
    | cons f under => exact absurd mode (first f under back)
  | text v => exact near_textTrip sound mode
  | exit => exact absurd mode going

theorem near_aborts {m n : Session} {frames : List Frame} (mode : m.mode = .adrs frames back)
    (none : m.ctl.moreline = Option.none) (sameCtl : n.ctl = m.ctl) (useprot : n.useprot = m.useprot)
    (table : n.curalias = false → n.table = w.aliases) : Near w m.off n.msgabrt := by
  refine near_given_up table (sameCtl ▸ none) ?_
  have most := State.weight_le m.ctl
  have less := weight_suckup m.ctl
  rw [off_msgabrt, off_adrs mode, sameCtl, useprot]
  unfold adrsOff
  cases m.useprot <;> cases back <;> simp only [Bool.false_eq_true, if_false, if_true] <;> omega

theorem ends_of_sound {m : Session} (sound : m.Sound w) : m.Ends w := by
  induction far : m.off using Nat.strongRecOn generalizing m with
  | ind far inductionHypothesis =>
    have nearer : ∀ {n : Session}, Near w m.off n → n.Ends w := fun near =>
      inductionHypothesis _ (far ▸ near.near) near.sound rfl
    have unframed : ∀ n : Session, n.off = m.off → n.Sound w →
        (∀ f under back, n.mode ≠ .adrs (f :: under) back) → n.Ends w := by
      intro n same sound first always
      by_cases finished : n.Over
      · exact .stop finished
      · exact ends_of_next (nearer (same ▸ near_next sound always.now finished first)) always
    by_cases adrs : ∃ frames back, m.mode = .adrs frames back
    · obtain ⟨frames, back, mode⟩ := adrs
      have none := sound.noMoreline (by rw [mode]; exact fun _ => Mode.noConfusion)
      have ended := sound.ended (by rw [mode]; rfl)
      have aborts : Aborts w m.ctl m.useprot := fun n sameCtl useprot table =>
        nearer (near_aborts mode none sameCtl useprot table)
      have resumes : ∀ (frames : List Frame) (n : Session), n.mode = .adrs frames back →
          n.ctl = m.ctl → n.useprot = m.useprot → (n.curalias = false → n.table = w.aliases) →
            Kept w (.adrs frames back) → n.Ends w := by
        intro frames
        induction frames with
        | nil =>
          intro n first sameCtl useprot table kept
          refine unframed n ?_ ⟨fun _ => sameCtl ▸ ended, fun waits => absurd none (sameCtl ▸ waits),
            table, first ▸ kept⟩ fun f under back framed => ?_
          · rw [off_adrs first, off_adrs mode, sameCtl, useprot]
          · rw [first] at framed
            cases framed
        | cons f under rest =>
          intro n framed sameCtl useprot table kept
          have under : Kept w (.adrs under back) := fun abufpos oldpos member =>
            kept abufpos oldpos (List.mem_cons_of_mem f member)
          refine ends_within aborts _ f _ n framed sameCtl useprot table rfl ?_
          cases f with
          | aliasin abufpos oldpos oldalias =>
            intro k mode same prot place inside _
            refine rest k mode (same.trans sameCtl) prot (fun outside => ?_) under
            rw [place]
            refine kept abufpos oldpos ?_
            rw [← inside.symm.trans outside]
            exact List.mem_cons_self
          | filin errabrt =>
            intro k mode same prot place inside _
            refine rest k mode (same.trans sameCtl) prot ?_ under
            rw [inside, place]
            exact table
      exact resumes frames m mode rfl rfl sound.table (mode ▸ sound.kept)
    · exact unframed m rfl sound fun f under back framed => adrs ⟨_, _, framed⟩

theorem sound_start (useprot : Bool) (set : Settings) (input : List Byte) :
    (start w useprot set input).Sound w :=
  ⟨fun one => absurd one Nat.zero_ne_one, fun some => absurd rfl some, fun _ => rfl, trivial⟩

/-- A host with an alias for two of its users. -/
def aliasOfTwo : World where
  lwsp c := c == blank || c == tab
  compress text := (text.dropWhile (· = blank)).rdropWhile (· = blank)
  isAt c d := lower c == 0x61 && lower d == 0x74
  locname := ascii ['h', 'e', 'r', 'e']
  logins := [ascii ['a', 'n', 'n'], ascii ['b', 'o', 'b']]
  strayHost := []
  strayMbox := []
  strayChar := 0
  compress_nil := unblanked_nil
  aliases := [(ascii ['a', 'l', 'l'], ascii ['a', 'n', 'n', ',', 'b', 'o', 'b'])]
  route adr := .mailbox adr
  fopen _ _ := none
  nofile := 15
  owner := false

/-- An option line without options, and a message to the alias. -/
def toAlias : List Byte :=
  ascii ['\n', 'a', 'n', 'n', '\n', 'a', 'l', 'l', '\n', '!', '\n', 'F', 'r', 'o', 'm', ':', ' ', 'a', 'n',
    'n', ' ', 'a', 't', ' ', 'h', 'e', 'r', 'e', '\n', '\n', 'h', 'i', '\n']

/-- The settings before the first option line. -/
def unset : Settings where
  passfrom := .check
  sourcetxt := none
  vrfyflg := false
  bldadrs := false
  adrcmpt := []
  trustflg := false
  rtn2sndr := false
  takadrs := false
  vianet := none

theorem not_fine_alias : ¬ Fine ((next aliasOfTwo)^[7] (start aliasOfTwo true unset toAlias)) := by
  intro fine
  have goes : lstnultrm comma = false := fine comma rfl
  cases goes

end NetworkUnix.Mmdf.Submit.Session
