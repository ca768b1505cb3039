/-
This file shows that a run of `submit` comes nearer to its end with every step at which no address
is taken from an alias or an address file. What is left of the control stream goes down, and where
nothing is read the run passes on to a later part of the message.
-/

import NetworkUnix.Mmdf.Submit.Session
import NetworkUnix.Mmdf.Submit.Weight

namespace NetworkUnix.Mmdf.Submit.Session

variable (w : World)

/-! ### How far off the end is -/

/-- What is left of the stream, and of what was read. -/
def level (m : Session) : Nat :=
  match m.mode with
  | .top => m.ctl.weight
  | .echo | .adrs _ none => 2 * m.ctl.input.length + if m.useprot then 3 else 2
  | .adrs _ (some _) => m.ctl.weight + 1
  | .text _ => m.ctl.level
  | .exit => 0

/-- The parts of a message that are still to come. -/
def rank : Mode → Nat
  | .top => 4
  | .echo => 3
  | .adrs _ none => 2
  | .text _ => 1
  | .adrs _ (some _) => 0
  | .exit => 0

/-- How far off the end of the run is. -/
def off (m : Session) : Nat := 5 * m.level + rank m.mode

/-- How far off it is while addresses are taken. -/
def adrsOff (prot : Bool) (ctl : State) : Option Verdict → Nat
  | none => 5 * (2 * ctl.input.length + if prot then 3 else 2) + 2
  | some _ => 5 * (ctl.weight + 1)

variable {back : Option Verdict} {frames : List Frame} {ctl : State} {v : Verdict} {n : Session}

theorem off_adrs {m : Session} (mode : m.mode = .adrs frames back) :
    m.off = adrsOff m.useprot m.ctl back := by
  unfold off level
  rw [mode]
  cases back <;> rfl

/-- How many messages are being taken. -/
def pending : Mode → Nat
  | .top | .exit => 0
  | .echo | .adrs .. | .text _ => 1

/-- An alias that was entered outside aliases was looked up from the start of the table. -/
def Kept : Mode → Prop
  | .adrs frames _ => ∀ abufpos oldpos, .aliasin abufpos oldpos false ∈ frames → oldpos = w.aliases
  | _ => True

/-- What holds between the steps: in a message the end of the stream ends the text; a line waits
only in the headers, and not at their end; outside aliases the table is at its start. -/
structure Sound (m : Session) : Prop where
  ended : pending m.mode = 1 → m.ctl.eofhit = true → m.ctl.msgend = true
  waiting : m.ctl.moreline ≠ none → (∃ v, m.mode = .text v) ∧ m.ctl.msgend = false
  table : m.curalias = false → m.table = w.aliases
  kept : Kept w m.mode

theorem Sound.noMoreline {m : Session} {w : World} (sound : m.Sound w)
    (other : ∀ v, m.mode ≠ .text v) : m.ctl.moreline = Option.none := by
  by_contra waits
  obtain ⟨⟨v, text⟩, -⟩ := sound.waiting waits
  exact other v text

/-- A state from which the end is nearer than this. -/
structure Near (bound : Nat) (n : Session) : Prop where
  sound : n.Sound w
  near : n.off < bound

variable {w} {m : Session} {bound : Nat}

theorem off_msgabrt (m : Session) :
    m.msgabrt.off = if m.useprot then 5 * (suckup m.ctl).weight + 4 else 0 := by
  unfold off level Session.msgabrt
  cases prot : m.useprot <;> rfl

section

variable (table : m.curalias = false → m.table = w.aliases)
include table

theorem near_given_up (none : m.ctl.moreline = Option.none) (less : m.msgabrt.off < bound) :
    Near w bound m.msgabrt := by
  have waits : (suckup m.ctl).moreline = Option.none := by
    unfold suckup
    split <;> exact none
  refine ⟨⟨fun one => ?_, fun some => absurd waits some, table, ?_⟩, less⟩
  · unfold Session.msgabrt at one
    cases prot : m.useprot <;> rw [prot] at one <;> cases one
  · unfold Session.msgabrt
    cases prot : m.useprot <;> exact trivial

theorem near_msgabrt (none : m.ctl.moreline = Option.none) (less : 5 * m.ctl.weight + 4 < bound) :
    Near w bound m.msgabrt := by
  have weight := weight_suckup m.ctl
  refine near_given_up table none ?_
  rw [off_msgabrt]
  split <;> omega

theorem near_sysabrt (none : m.ctl.moreline = Option.none) (less : 0 < bound) : Near w bound m.sysabrt := by
  have waits : (suckup m.ctl).moreline = Option.none := by
    unfold suckup
    split <;> exact none
  exact ⟨⟨fun one => absurd one Nat.zero_ne_one, fun some => absurd waits some, table, trivial⟩,
    less⟩

section

variable (none : ctl.moreline = Option.none) (less : 5 * ctl.weight + 4 < bound)
include none less

theorem near_queue :
    Near w bound (m.queue ctl) :=
  ⟨⟨fun one => absurd one Nat.zero_ne_one, fun some => absurd none some, table, trivial⟩, less⟩

theorem near_aborted :
    Near w bound (m.close (Submit.msgabrt ctl)) := by
  have weight := weight_suckup ctl
  have waits : (suckup ctl).moreline = Option.none := by
    unfold suckup
    split <;> exact none
  exact near_msgabrt (m := { m with ctl := suckup ctl }) table waits (by
    dsimp only
    omega)

theorem near_close :
    Near w bound (m.close (afterHeaders w.toSite v ctl)) := by
  have aborted := near_aborted (m := m) table none less
  have body := weight_dobody w.toSite ctl
  unfold afterHeaders
  split
  · exact aborted
  split
  · exact aborted
  split
  · exact near_queue table (body.2.2.trans none) (by omega)
  · exact near_queue table none less

end

theorem near_stormsgs (none : m.ctl.moreline = Option.none) (more : m.ctl.eofhit = false)
    (goes : m.ctl.msgend = false) (less : 5 * m.ctl.weight + 1 < bound) :
    Near w bound (m.stormsgs w) := by
  have body : ∀ ctl : State, ctl.moreline = Option.none → ctl.eofhit = false →
      ctl.msgend = false → 5 * ctl.weight + 1 < bound →
        Near w bound (m.queue (dobody w.toSite ctl)) := by
    intro ctl none more goes less
    obtain ⟨-, lower, waits⟩ := weight_dobody w.toSite ctl
    have drop := lower more goes
    exact near_queue table (waits.trans none) (by omega)
  unfold stormsgs
  dsimp only
  generalize (if m.set.passfrom = .flgfrom ∨ m.set.sourcetxt ≠ Option.none then
    dosrcinfo m.set.toOptions else []) = text
  split
  · exact body _ none more goes less
  · refine ⟨⟨fun _ hit => absurd (more.symm.trans hit) Bool.false_ne_true,
      fun some => absurd none some, table, trivial⟩, ?_⟩
    have level : State.level { m.ctl with mfil := text } = m.ctl.weight :=
      @State.level_zero { m.ctl with mfil := text } more goes none
    unfold off Session.level
    dsimp only [rank]
    rw [level]
    exact less

theorem near_afterAdrs (none : m.ctl.moreline = Option.none) (ended : m.ctl.eofhit = true → m.ctl.msgend = true)
    (less : 5 * m.ctl.weight + 1 < bound) : Near w bound (m.afterAdrs w) := by
  unfold afterAdrs
  split
  · exact near_sysabrt table none (Nat.lt_of_le_of_lt (Nat.zero_le _) less)
  next goes =>
    have going : m.ctl.msgend = false := Bool.eq_false_iff.mpr goes
    refine near_stormsgs table none (Bool.eq_false_iff.mpr fun hit => goes (ended hit)) going less

end

theorem near_adrs (table : n.curalias = false → n.table = w.aliases)
    (none : n.ctl.moreline = Option.none) (ended : n.ctl.eofhit = true → n.ctl.msgend = true)
    (mode : n.mode = .adrs frames back) (kept : Kept w (.adrs frames back))
    (less : adrsOff n.useprot n.ctl back < bound) :
    Near w bound n :=
  ⟨⟨fun _ => ended, fun some => absurd none some, table, mode ▸ kept⟩, by rwa [off_adrs mode]⟩

theorem kept_first (back : Option Verdict) : Kept w (.adrs [] back) := fun _ _ member =>
  absurd member List.not_mem_nil

theorem State.weight_le (s : State) : s.weight ≤ 2 * s.input.length + 2 := by
  unfold State.weight
  split <;> omega

theorem near_afterEcho (table : m.curalias = false → m.table = w.aliases)
    (none : m.ctl.moreline = Option.none) (ended : m.ctl.eofhit = true → m.ctl.msgend = true)
    (less : adrsOff m.useprot m.ctl Option.none < bound) : Near w bound (m.afterEcho w) := by
  have weight := State.weight_le m.ctl
  unfold afterEcho
  split
  · exact near_adrs (n := { m with mode := .adrs [] Option.none }) table none ended rfl
      (kept_first _) less
  · refine near_afterAdrs table none ended ?_
    have least : 2 ≤ if m.useprot then 3 else 2 := by split <;> decide
    have bounded : 5 * (2 * m.ctl.input.length + if m.useprot then 3 else 2) + 2 < bound := less
    omega

theorem near_queueinit (table : m.curalias = false → m.table = w.aliases)
    (none : m.ctl.moreline = Option.none) (ended : m.ctl.eofhit = true → m.ctl.msgend = true)
    (less : adrsOff m.useprot m.ctl Option.none + 1 < bound) : Near w bound (m.queueinit w) := by
  unfold queueinit
  dsimp only
  split
  · exact near_afterEcho (m := { m with started := m.started + 1 }) table none ended
      (Nat.lt_of_succ_lt less)
  · exact ⟨⟨fun _ => ended, fun some => absurd none some, table, trivial⟩, less⟩

/-! ### What comes of an address -/

/-- The same control stream, and the same place in the alias table. -/
structure Same (m n : Session) : Prop where
  ctl : n.ctl = m.ctl
  useprot : n.useprot = m.useprot
  curalias : n.curalias = m.curalias
  table : n.table = m.table

variable (w) in
/-- What an address comes to: the message is given up, the loop goes on, or another loop is entered
over an alias, which is looked up in a shorter table from then on, or over an address file. -/
inductive Addressed (m : Session) (frames : List Frame) (back : Option Verdict) : Session → Prop
  | aborts {n : Session} (same : Same m n) : Addressed m frames back n.msgabrt
  | stays {n : Session} (same : Same m n) (infil : n.infil = m.infil)
      (mode : n.mode = .adrs frames back) : Addressed m frames back n
  | expands {n : Session} {text : List Byte} (ctl : n.ctl = m.ctl) (useprot : n.useprot = m.useprot)
      (curalias : n.curalias = true) (infil : n.infil = m.infil)
      (shorter : n.table.length < m.table.length)
      (mode : n.mode = .adrs (.aliasin text m.table m.curalias :: frames) back) :
      Addressed m frames back n
  | opens {n : Session} {errabrt : Bool} (same : Same m n) (room : files frames < w.nofile)
      (mode : n.mode = .adrs (.filin errabrt :: frames) back) : Addressed m frames back n

theorem aliasrch_shorter {mbox text : List Byte} {table rest : List (List Byte × List Byte)}
    (entry : aliasrch mbox table = some (text, rest)) : rest.length < table.length := by
  induction table with
  | nil => cases entry
  | cons first others inductionHypothesis =>
    unfold aliasrch at entry
    split at entry
    · cases entry
      exact Nat.lt_succ_self _
    · exact Nat.lt_succ_of_lt (inductionHypothesis entry)

theorem addressed_unknown (same : Same m n) (infil : n.infil = m.infil) (errabrt : Bool) :
    Addressed w m frames back (n.unknown errabrt frames back) := by
  unfold unknown
  split
  · exact .aborts same
  · exact .stays (n := { n with mode := .adrs frames back })
      ⟨same.ctl, same.useprot, same.curalias, same.table⟩ infil rfl

theorem addressed_chkadr (table : m.curalias = false → m.table = w.aliases) (adr : List Byte)
    (errabrt : Bool) (frames : List Frame) (back : Option Verdict) :
    Addressed w m frames back (m.chkadr w adr errabrt frames back) := by
  have oldpos : (if m.curalias then m.table else w.aliases) = m.table := by
    split
    · rfl
    next not => exact (table (Bool.eq_false_iff.mpr not)).symm
  unfold chkadr
  split
  · exact .stays ⟨rfl, rfl, rfl, rfl⟩ rfl rfl
  · exact addressed_unknown ⟨rfl, rfl, rfl, rfl⟩ rfl errabrt
  · dsimp only
    rw [oldpos]
    split
    next entry => exact .expands rfl rfl rfl rfl (aliasrch_shorter entry) rfl
    · split
      · exact .stays ⟨rfl, rfl, rfl, rfl⟩ rfl rfl
      · exact addressed_unknown (n := { m with table := m.table }) ⟨rfl, rfl, rfl, rfl⟩ rfl errabrt

theorem addressed_addrfil (name : List Byte) (errabrt : Bool) (frames : List Frame)
    (back : Option Verdict) : Addressed w m frames back (m.addrfil w name errabrt frames back) := by
  have same : Same m { m with opened := m.opened + 1 } := ⟨rfl, rfl, rfl, rfl⟩
  unfold addrfil
  dsimp only
  split
  · exact .aborts same
  next room =>
    split
    · exact .aborts same
    · exact .opens ⟨rfl, rfl, rfl, rfl⟩ (Nat.lt_of_not_le room) rfl

theorem addressed_address (table : m.curalias = false → m.table = w.aliases)
    (adrline : List Byte) (errabrt : Bool) (frames : List Frame) (back : Option Verdict) :
    Addressed w m frames back (m.address w adrline errabrt frames back) := by
  unfold address
  dsimp only
  split
  · exact .aborts ⟨rfl, rfl, rfl, rfl⟩
  · split
    · exact .stays ⟨rfl, rfl, rfl, rfl⟩ rfl rfl
    · split
      · exact addressed_addrfil ..
      · exact addressed_chkadr table ..

theorem Addressed.near (addressed : Addressed w m frames back n)
    (table : m.curalias = false → m.table = w.aliases) (none : m.ctl.moreline = Option.none)
    (ended : m.ctl.eofhit = true → m.ctl.msgend = true) (kept : Kept w (.adrs frames back))
    (aborts : 5 * m.ctl.weight + 4 < bound) (less : adrsOff m.useprot m.ctl back < bound) :
    Near w bound n := by
  cases addressed with
  | aborts same =>
    refine near_msgabrt ?_ (same.ctl ▸ none) (same.ctl ▸ aborts)
    rw [same.curalias, same.table]
    exact table
  | stays same infil mode =>
    refine near_adrs ?_ (same.ctl ▸ none) (same.ctl ▸ ended) mode kept (by
      rwa [same.useprot, same.ctl])
    rw [same.curalias, same.table]
    exact table
  | expands ctl useprot curalias infil shorter mode =>
    refine near_adrs ?_ (ctl ▸ none) (ctl ▸ ended) mode ?_ (by rwa [useprot, ctl])
    · intro outside
      exact absurd (curalias.symm.trans outside) Bool.noConfusion
    · intro abufpos oldpos member
      rcases List.mem_cons.mp member with first | other
      · obtain ⟨-, rfl, outside⟩ := Frame.aliasin.inj first
        exact table outside.symm
      · exact kept abufpos oldpos other
  | opens same room mode =>
    refine near_adrs ?_ (same.ctl ▸ none) (same.ctl ▸ ended) mode ?_ (by
      rwa [same.useprot, same.ctl])
    · rw [same.curalias, same.table]
      exact table
    · intro abufpos oldpos member
      rcases List.mem_cons.mp member with first | other
      · cases first
      · exact kept abufpos oldpos other

/-! ### Steps -/

theorem near_firstAdr (sound : m.Sound w) (mode : m.mode = .adrs [] back) :
    Near w m.off (m.firstAdr w back) := by
  have ended := sound.ended (by rw [mode]; rfl)
  have none := sound.noMoreline (by rw [mode]; exact fun _ => Mode.noConfusion)
  rw [off_adrs mode]
  unfold firstAdr
  cases back with
  | none =>
    have read : (primeadrs m.ctl).2 = (cntlin lstnultrm m.ctl).2 ∧
        ((primeadrs m.ctl).1 ≠ [] → (cntlin lstnultrm m.ctl).1 ≠ []) := by
      unfold primeadrs
      dsimp only
      split
      · exact ⟨rfl, fun some => absurd rfl some⟩
      next some => exact ⟨rfl, fun _ nothing => some (.inl nothing)⟩
    have finished : (primeadrs m.ctl).2.eofhit = true → (primeadrs m.ctl).2.msgend = true := by
      rw [read.1]
      exact cntlin_eofhit lstnultrm ended
    have waits : (primeadrs m.ctl).2.moreline = Option.none := by
      rw [read.1]
      exact none
    have less : (primeadrs m.ctl).2.weight ≤ m.ctl.weight := by
      rw [read.1]
      exact cntlin_weight_le lstnultrm
    have most := State.weight_le m.ctl
    have least : 2 ≤ if m.useprot then 3 else 2 := by split <;> decide
    have bound : adrsOff m.useprot m.ctl Option.none =
      5 * (2 * m.ctl.input.length + if m.useprot then 3 else 2) + 2 := rfl
    dsimp only
    split
    · exact near_afterAdrs (m := { m with ctl := (primeadrs m.ctl).2 }) sound.table waits finished (by
        dsimp only
        omega)
    next some =>
      have shorter := cntlin_input_lt (read.2 some)
      rw [← read.1] at shorter
      have weight := State.weight_le (primeadrs m.ctl).2
      have later : adrsOff m.useprot (primeadrs m.ctl).2 Option.none =
        5 * (2 * (primeadrs m.ctl).2.input.length + if m.useprot then 3 else 2) + 2 := rfl
      exact (addressed_address (m := { m with ctl := (primeadrs m.ctl).2 }) sound.table ..).near
        sound.table waits finished (kept_first _) (by dsimp only; omega) (by dsimp only; omega)
  | some v =>
    obtain ⟨less, finished, read, waiting⟩ := weight_cmpntin w.toSite none ended
    have bound : adrsOff m.useprot m.ctl (some v) = 5 * (m.ctl.weight + 1) := rfl
    dsimp only
    split
    · split
      next waits =>
        exact near_close (m := { m with ctl := (cmpntin w.toSite m.ctl).2 }) sound.table waits
          (by omega)
      next waits =>
        obtain ⟨lower, goes⟩ := waiting waits
        refine ⟨⟨fun _ => finished, fun _ => ⟨⟨v, rfl⟩, goes⟩, sound.table, trivial⟩, ?_⟩
        have most := (cmpntin w.toSite m.ctl).2.level_le
        unfold off level
        dsimp only [rank]
        omega
    next some =>
      obtain ⟨lower, waits⟩ := read some
      have later : adrsOff m.useprot (cmpntin w.toSite m.ctl).2 (Option.some v) =
        5 * ((cmpntin w.toSite m.ctl).2.weight + 1) := rfl
      exact (addressed_address (m := { m with ctl := (cmpntin w.toSite m.ctl).2 }) sound.table
        ..).near sound.table waits finished (kept_first _) (by dsimp only; omega) (by dsimp only; omega)

theorem near_handled (table : m.curalias = false → m.table = w.aliases) {line : List Byte}
    {s : State} {which : Kind} {outcome : Outcome} (none : s.moreline = Option.none)
    (done : handle w.toSite line v s which = .inr outcome) (less : 5 * s.weight + 4 < bound) :
    Near w bound (m.close outcome) := by
  have check := runs_chksndr w.toSite s
  have body := weight_dobody w.toSite s
  cases which <;> dsimp only [handle] at done
  case unnamed | unterminated =>
    cases done
    exact near_aborted table none less
  case empty =>
    cases done
    exact near_queue table (body.2.2.trans none) (by omega)
  case continued | author | addresses | plain => cases done
  case sender =>
    have weight := check.weight
    split at done
    · cases done
      exact near_aborted table none less
    · split at done
      · cases done
        exact near_aborted table (check.moreline.trans none) (by omega)
      · cases done

theorem runs_handled {line : List Byte} {next : Verdict} {s : State} {which : Kind} {u : Unit}
    (again : handle w.toSite line v s which = .inl (u, next, ctl)) : Runs s ctl := by
  cases which <;> dsimp only [handle] at again
  case unnamed | unterminated | empty => cases again
  case continued | addresses | plain =>
    cases again
    exact runs_cntline2mfil _ s
  case author =>
    cases again
    exact runs_chksndr w.toSite s
  case sender =>
    split at again
    · cases again
    · split at again
      · cases again
      · cases again
        exact runs_chksndr w.toSite s

theorem near_textTrip (sound : m.Sound w) (mode : m.mode = .text v) :
    Near w m.off (m.textTrip w v) := by
  obtain ⟨waits, finished, last, more⟩ := level_nextName (sound.ended (by rw [mode]; rfl))
    fun some => (sound.waiting some).2
  have bound : m.off = 5 * m.ctl.level + 1 := by
    unfold off level
    rw [mode]
    rfl
  rw [bound]
  unfold textTrip
  cases named : nextName m.ctl with
  | mk name read =>
    rw [named] at waits finished last more
    cases name with
    | none =>
      have nearer := last rfl
      dsimp only at nearer
      exact near_close sound.table waits (by omega)
    | some line =>
      have nearer : read.level < m.ctl.level := more (Option.some_ne_none line)
      have least := read.weight_le_level
      dsimp only
      split
      · exact near_adrs (n := { m with ctl := read, mode := .adrs [] (some v) }) sound.table waits
          finished rfl (kept_first _) (show 5 * (read.weight + 1) < _ by omega)
      · split
        next done =>
          exact near_handled sound.table waits done (show 5 * read.weight + 4 < _ by omega)
        next next ctl again =>
          have runs := runs_handled again
          have lower := runs.level
          have none := runs.moreline.trans waits
          have text : ∀ written, Near w (5 * m.ctl.level + 1)
              { m with ctl := ctl.fwrite written, mode := .text next } := fun written =>
            ⟨⟨fun _ => runs.ended finished, fun some => absurd none some, sound.table, trivial⟩,
              show 5 * ctl.level + 1 < _ by omega⟩
          split
          · exact text _
          · exact ⟨⟨fun _ => runs.ended finished, fun some => absurd none some, sound.table, trivial⟩,
              show 5 * ctl.level + 1 < _ by omega⟩

theorem near_atTop (sound : m.Sound w) (mode : m.mode = .top)
    (fine : m.ctl.eofhit = true ∨ m.useprot = false ∨ m.set.adrcmpt = []) :
    Near w m.off (m.atTop w) := by
  have none := sound.noMoreline (by rw [mode]; exact fun _ => Mode.noConfusion)
  have bound : m.off = 5 * m.ctl.weight + 4 := by
    unfold off level
    rw [mode]
    rfl
  have exits : ∀ (ctl : State) (set : Settings), ctl.moreline = Option.none →
      Near w (5 * m.ctl.weight + 4) { m with ctl := ctl, set := set, mode := .exit } :=
    fun ctl set none => ⟨⟨fun one => absurd one Nat.zero_ne_one, fun some => absurd none some,
      sound.table, trivial⟩, Nat.succ_pos _⟩
  rw [bound]
  unfold atTop
  dsimp only
  split
  · exact exits m.ctl m.set none
  next goes =>
    have more : m.ctl.eofhit = false := Bool.eq_false_iff.mpr goes
    have weight : m.ctl.weight = 2 * m.ctl.input.length + 2 := by
      unfold State.weight
      rw [more]
      rfl
    split
    next alone =>
      have start : adrsOff m.useprot { m.ctl with msgend := false } Option.none + 1 =
          5 * (2 * m.ctl.input.length + 2) + 3 := by
        unfold adrsOff
        rw [alone]
        rfl
      exact near_queueinit (m := { m with ctl := { m.ctl with msgend := false } }) sound.table none
        (fun hit => absurd hit goes) (Nat.lt_of_le_of_lt (Nat.le_of_eq start) (by omega))
    next protocol =>
      rw [if_neg (not_not_intro ((fine.resolve_left goes).resolve_left protocol))]
      split
      · exact exits _ _ none
      next some =>
        have shorter : (cntlin nltrm { m.ctl with msgend := false }).2.input.length <
            m.ctl.input.length := cntlin_input_lt some
        have prot : m.useprot = true := eq_true_of_ne_false protocol
        have start : adrsOff m.useprot (cntlin nltrm { m.ctl with msgend := false }).2 Option.none +
            1 = 5 * (2 * (cntlin nltrm { m.ctl with msgend := false }).2.input.length + 3) + 3 := by
          unfold adrsOff
          rw [prot]
          rfl
        exact near_queueinit (m := { m with
            ctl := (cntlin nltrm { m.ctl with msgend := false }).2
            set := parminit w.owner (cntlin nltrm { m.ctl with msgend := false }).1
              m.set.cleared }) sound.table none
          (cntlin_eofhit nltrm fun hit => absurd hit goes)
          (Nat.lt_of_le_of_lt (Nat.le_of_eq start) (by omega))

theorem near_echochar (sound : m.Sound w) (mode : m.mode = .echo) (fine : m.ctl.input ≠ []) :
    Near w m.off (m.echochar w) := by
  have ended := sound.ended (by rw [mode]; rfl)
  have none := sound.noMoreline (by rw [mode]; exact fun _ => Mode.noConfusion)
  have bound : m.off = adrsOff m.useprot m.ctl Option.none + 1 := by
    unfold off level
    rw [mode]
    rfl
  obtain ⟨c, rest, input⟩ : ∃ c rest, m.ctl.input = c :: rest := List.exists_cons_of_ne_nil fine
  have shorter : ∀ ctl : State, ctl.input = rest →
      adrsOff m.useprot ctl Option.none + 1 < m.off := by
    intro ctl same
    rw [bound]
    unfold adrsOff
    dsimp only
    rw [same, input, List.length_cons]
    omega
  have echoes : ∀ ctl : State, ctl.input = rest → ctl.moreline = Option.none →
      (ctl.eofhit = true → ctl.msgend = true) → Near w m.off { m with ctl := ctl } := by
    intro ctl same none ended
    refine ⟨⟨fun _ => ended, fun some => absurd none some, sound.table, by rw [mode]; trivial⟩, ?_⟩
    have after : off { m with ctl := ctl } = adrsOff m.useprot ctl Option.none + 1 := by
      unfold off level
      dsimp only
      rw [mode]
      rfl
    rw [after]
    exact shorter ctl same
  unfold echochar
  split
  next nothing => exact absurd nothing fine
  next d others same =>
    obtain ⟨-, rfl⟩ := List.cons.inj (input.symm.trans same)
    dsimp only
    split
    · split
      · exact near_afterEcho (m := { m with ctl := { m.ctl with input := rest } }) sound.table none
          ended (Nat.lt_of_succ_lt (shorter { m.ctl with input := rest } rfl))
      · exact echoes _ rfl none ended
    · exact echoes _ rfl none fun _ => rfl

end NetworkUnix.Mmdf.Submit.Session
