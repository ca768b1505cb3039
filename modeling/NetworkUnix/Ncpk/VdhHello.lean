/-
This file proves when the driver of the very distant host interface keeps the rule for
the line. The record of what has happened to the line is read by a watch that counts the
intervals in a row whose hello was answered and the hellos in a row that were not. The
line should come up only when enough intervals were answered since the driver began to
try, and go down exactly when too many hellos were not.

The driver counts answers instead of intervals and never resets the count when it begins
to try, so that answers from an earlier time may count.
-/

import NetworkUnix.Lib.Run
import NetworkUnix.Ncpk.Vdh

namespace NetworkUnix.Ncpk

/-! ### The watch -/

/-- What the record tells: whether the driver tries and the line is up; whether a hello was sent in
the interval, and whether it was answered; the intervals in a row that were answered, of those with
a hello since the driver began to try; the hellos in a row that were not answered; the answers
since the driver last forgot them, and whether these are not just one for each answered interval;
and whether the line must go down. -/
structure Watch where
  trying : Bool
  up : Bool
  sent : Bool
  heard : Bool
  row : Nat
  unanswered : Nat
  answers : Nat
  stale : Bool
  due : Bool

namespace Watch

def start : Watch := ⟨false, false, false, false, 0, 0, 0, false, false⟩

/-- Answers are forgotten at the end of an interval while the line is not up, if a hello was not
answered; their number is kept in eight bits. -/
def endInterval (w : Watch) : Watch :=
  let forgets := w.trying && !w.up && decide (w.unanswered % 256 ≠ 0)
  { w with
    row := if w.sent then if w.heard then w.row + 1 else 0 else w.row
    sent := false
    heard := false
    answers := if forgets then 0 else w.answers
    stale := if forgets then false else w.stale
    due := w.up && decide (vdhT < w.unanswered) }

def read (w : Watch) : Mark → Watch
  | .hello => { w with sent := true, heard := false, unanswered := w.unanswered + 1 }
  | .heard =>
    { w with
      heard := w.sent
      unanswered := 0
      answers := w.answers + 1
      stale := w.stale || !w.sent || w.heard }
  | .interval => w.endInterval
  | .trying => { w with trying := true, row := 0, stale := decide (w.answers ≠ 0) }
  | .up => { w with up := true }
  | .down | .closed | .init => { w with trying := false, up := false, due := false }

/-- The marks that the rule allows. -/
def Allows (w : Watch) : Mark → Prop
  | .up => w.due = false ∧ w.trying = true ∧ vdhK ≤ w.row
  | .down => w.due = true
  | _ => w.due = false

def Follows : Watch → List Mark → Prop
  | _, [] => True
  | w, m :: rest => w.Allows m ∧ (w.read m).Follows rest

end Watch

def watch (marks : List Mark) : Watch := marks.foldl Watch.read Watch.start

theorem watch_snoc (marks : List Mark) (m : Mark) : watch (marks ++ [m]) = (watch marks).read m := by
  unfold watch
  rw [List.foldl_append]
  rfl

variable {marks : List Mark} {w : Watch} {t : Vdh} {m : Mark}

theorem follows_append {more : List Mark} :
    w.Follows (marks ++ more) ↔ w.Follows marks ∧ (marks.foldl Watch.read w).Follows more := by
  induction marks generalizing w with
  | nil => exact ⟨fun follows => ⟨trivial, follows⟩, fun both => both.2⟩
  | cons m marks inductionHypothesis =>
    exact (and_congr_right fun _ => inductionHypothesis).trans and_assoc.symm

/-! ### The driver under watch -/

/-- What the watch knows of the driver. -/
structure Watched (s : Vdh) (w : Watch) : Prop where
  due : w.due = false
  trying : w.trying = s.trying
  up : w.up = s.up
  tries : s.up = true → s.trying = true
  pending : s.sendhello = true → w.sent = false
  unacked : s.hellounacked = BitVec.ofNat 8 w.unanswered
  inarow : s.helloinarow = BitVec.ofNat 8 w.answers
  few : s.up = true → w.unanswered ≤ 4 + w.sent.toNat
  answered : s.trying = true → s.up = false → w.row ≠ 0 → w.unanswered ≤ w.sent.toNat
  counted : s.trying = true → s.up = false → w.stale = false → w.answers ≤ w.row + w.heard.toNat
  heard : w.heard = true → w.sent = true ∧ w.unanswered = 0
  silent : w.sent = true → w.unanswered = 0 → w.heard = true

/-- The record of the driver follows the rule. -/
structure Ruled (s : Vdh) : Prop where
  follows : Watch.start.Follows s.marks
  watched : Watched s (watch s.marks)

namespace Vdh

/-- What the rule for the line depends on. -/
def ruling (s : Vdh) : Bool × Bool × Bool × BitVec 8 × BitVec 8 × List Mark :=
  (s.trying, s.up, s.sendhello, s.hellounacked, s.helloinarow, s.marks)

theorem fillLoop_ruling (n : Nat) (s : Vdh) : (fillLoop n s).ruling = s.ruling := by
  obtain ⟨_, _, _, _, _, _, same⟩ := fillLoop_spec n s
  rw [same]
  rfl

theorem sndLoop_ruling (n : Nat) (s : Vdh) : (sndLoop n s).ruling = s.ruling := by
  obtain ⟨_, _, _, _, _, _, same, _⟩ := sndLoop_spec n s
  rw [same]
  rfl

theorem dataIn_ruling (s : Vdh) (p : Packet) (beyond : BitVec 16) (short : Bool) :
    (s.dataIn p beyond short).ruling = s.ruling := by
  obtain ⟨_, _, _, _, _, _, _, _, _, _, _, _, _, same⟩ := dataIn_spec s p beyond short
  rw [same]
  rfl

theorem impInput_ruling (s : Vdh) : s.impInput.ruling = s.ruling := by
  unfold impInput impldrd
  dsimp only
  split
  · rfl
  · split <;> rfl

end Vdh

variable {s : Vdh}

theorem Ruled.same (ruled : Ruled s) (same : t.ruling = s.ruling) : Ruled t := by
  simp only [Vdh.ruling, Prod.mk.injEq] at same
  obtain ⟨trying, up, sendhello, unacked, inarow, marks⟩ := same
  obtain ⟨follows, watched⟩ := ruled
  constructor
  · rw [marks]
    exact follows
  · rw [marks]
    constructor
    · exact watched.due
    · rw [trying]
      exact watched.trying
    · rw [up]
      exact watched.up
    · rw [up, trying]
      exact watched.tries
    · rw [sendhello]
      exact watched.pending
    · rw [unacked]
      exact watched.unacked
    · rw [inarow]
      exact watched.inarow
    · rw [up]
      exact watched.few
    · rw [trying, up]
      exact watched.answered
    · rw [trying, up]
      exact watched.counted
    · exact watched.heard
    · exact watched.silent

/-- A record that follows the rule and what the watch reads in it. -/
structure Recorded (marks : List Mark) (w : Watch) : Prop where
  follows : Watch.start.Follows marks
  reads : watch marks = w

theorem Recorded.snoc (recorded : Recorded marks w) (allows : w.Allows m) :
    Recorded (marks ++ [m]) (w.read m) := by
  obtain ⟨follows, rfl⟩ := recorded
  exact ⟨follows_append.mpr ⟨follows, allows, trivial⟩, watch_snoc marks m⟩

theorem Recorded.ruled (recorded : Recorded s.marks w) (watched : Watched s w) :
    Ruled s := by
  obtain ⟨follows, rfl⟩ := recorded
  exact ⟨follows, watched⟩

section

variable (ruled : Ruled s)
include ruled

theorem Ruled.mark (marks : t.marks = s.marks ++ [m])
    (allows : (watch s.marks).Allows m) (watched : Watched t ((watch s.marks).read m)) : Ruled t := by
  have recorded := (Recorded.mk ruled.follows rfl).snoc allows
  rw [← marks] at recorded
  exact recorded.ruled watched

theorem Ruled.vdhostart : Ruled s.vdhostart := by
  have watched := ruled.watched
  unfold Vdh.vdhostart
  split
  next => exact ruled
  split
  next => exact ruled.same rfl
  split
  next asked =>
    have noneSent := watched.pending asked
    have noneHeard : (watch s.marks).heard = false :=
      Bool.eq_false_iff.mpr fun heard => by
        have sent := (watched.heard heard).1
        rw [noneSent] at sent
        cases sent
    refine ruled.mark (m := .hello) rfl watched.due ?_
    constructor
    case due => exact watched.due
    case trying => exact watched.trying
    case up => exact watched.up
    case tries => exact watched.tries
    case pending =>
      intro none
      cases none
    case unacked =>
      show s.hellounacked + 1 = BitVec.ofNat 8 ((watch s.marks).unanswered + 1)
      rw [watched.unacked, BitVec.ofNat_add]
      rfl
    case inarow => exact watched.inarow
    case few =>
      intro up
      have few := watched.few up
      rw [noneSent] at few
      exact Nat.succ_le_succ few
    case answered =>
      intro tries down row
      have answered := watched.answered tries down row
      rw [noneSent] at answered
      exact Nat.succ_le_succ answered
    case counted =>
      intro tries down fresh
      have counted := watched.counted tries down fresh
      rw [noneHeard] at counted
      exact counted
    case heard =>
      intro none
      cases none
    case silent =>
      intro _ none
      cases none
  split
  next => exact ruled
  next => exact ruled.same ((Vdh.sndLoop_ruling _ _).trans (Vdh.fillLoop_ruling _ _))

theorem Ruled.restart : Ruled s.restart := by
  unfold Vdh.restart
  split
  · exact ruled
  · exact ruled.vdhostart

theorem Ruled.impOutput (m : OutMessage) : Ruled (s.impOutput m) := by
  have queued : Ruled { s with impotab := s.impotab ++ [m] } := ruled.same rfl
  unfold Vdh.impOutput
  dsimp only
  split
  · exact queued.restart
  · exact queued

theorem Ruled.receive (r : Receipt) : Ruled (s.receive r) := by
  have watched := ruled.watched
  unfold Vdh.receive
  split
  next => exact ruled
  next => exact ruled
  split
  next => exact ruled
  split
  next =>
    split
    next => exact ruled
    split
    next => exact ruled.same rfl
    next =>
      refine ruled.mark (m := .heard) rfl watched.due ?_
      constructor
      case due => exact watched.due
      case trying => exact watched.trying
      case up => exact watched.up
      case tries => exact watched.tries
      case pending => exact watched.pending
      case unacked => rfl
      case inarow =>
        show s.helloinarow + 1 = BitVec.ofNat 8 ((watch s.marks).answers + 1)
        rw [watched.inarow, BitVec.ofNat_add]
        rfl
      case few => exact fun _ => Nat.zero_le _
      case answered => exact fun _ _ _ => Nat.zero_le _
      case counted =>
        intro tries down fresh
        change (((watch s.marks).stale || !(watch s.marks).sent) || (watch s.marks).heard) = false
          at fresh
        obtain ⟨staleOrUnsent, unheard⟩ := Bool.or_eq_false_iff.mp fresh
        obtain ⟨notStale, sent⟩ := Bool.or_eq_false_iff.mp staleOrUnsent
        have counted := watched.counted tries down notStale
        show (watch s.marks).answers + 1 ≤ (watch s.marks).row + (watch s.marks).sent.toNat
        rw [unheard] at counted
        rw [Bool.not_eq_eq_eq_not.mp sent]
        exact Nat.succ_le_succ counted
      case heard => exact fun sent => ⟨sent, rfl⟩
      case silent => exact fun sent _ => sent
  split
  next => exact ruled
  split
  next => exact ruled
  next => exact ruled.same (Vdh.dataIn_ruling _ _ _ _)

theorem Ruled.vdhiint (receipts : List Receipt) : Ruled (s.vdhiint receipts) := by
  have received : Ruled (receipts.foldl Vdh.receive s) := by
    induction receipts generalizing s with
    | nil => exact ruled
    | cons r receipts inductionHypothesis => exact inductionHypothesis (ruled.receive r)
  unfold Vdh.vdhiint
  dsimp only
  split
  · exact ruled
  · split
    · exact received.restart.same rfl
    · exact received.same rfl

theorem Ruled.impInput : Ruled s.impInput := ruled.same (Vdh.impInput_ruling s)

end

theorem Watched.stops (watched : Watched s w) (trying : t.trying = false) (up : t.up = false)
    (asked : t.sendhello = true → s.sendhello = true) (unacked : t.hellounacked = s.hellounacked)
    (inarow : t.helloinarow = s.helloinarow) :
    Watched t { w with trying := false, up := false, due := false } := by
  constructor
  case due => rfl
  case trying => exact trying.symm
  case up => exact up.symm
  case tries =>
    intro isUp
    rw [up] at isUp
    cases isUp
  case pending => exact fun asks => watched.pending (asked asks)
  case unacked => exact unacked.trans watched.unacked
  case inarow => exact inarow.trans watched.inarow
  case few =>
    intro isUp
    rw [up] at isUp
    cases isUp
  case answered =>
    intro tries
    rw [trying] at tries
    cases tries
  case counted =>
    intro tries
    rw [trying] at tries
    cases tries
  case heard => exact watched.heard
  case silent => exact watched.silent

theorem Ruled.impInit (ruled : Ruled s) : Ruled s.impInit :=
  ruled.mark (m := .init) rfl ruled.watched.due
    (ruled.watched.stops rfl rfl (fun asked => Bool.noConfusion asked) rfl rfl)

/-! ### The end of an interval -/

/-- The answers are forgotten at the end of the interval. -/
def Vdh.forgets (s : Vdh) : Bool := s.trying && !s.up && decide (s.hellounacked ≠ 0)

/-- What the watch knows of the driver when the interval has ended and the driver has yet to act. -/
structure Ended (s : Vdh) (w : Watch) : Prop where
  due : w.due = (s.up && decide (vdhT < w.unanswered))
  trying : w.trying = s.trying
  up : w.up = s.up
  tries : s.up = true → s.trying = true
  sent : w.sent = false
  heard : w.heard = false
  unacked : s.hellounacked = BitVec.ofNat 8 w.unanswered
  inarow : (if s.forgets then 0 else s.helloinarow) = BitVec.ofNat 8 w.answers
  few : s.up = true → w.unanswered ≤ 5
  answered : s.trying = true → s.up = false → w.row ≠ 0 → w.unanswered = 0
  counted : s.trying = true → s.up = false → w.stale = false → w.answers ≤ w.row

theorem endInterval_row (w : Watch) :
    w.endInterval.row = if w.sent then if w.heard then w.row + 1 else 0 else w.row := rfl

theorem ofNat_ne_zero (n : Nat) : BitVec.ofNat 8 n ≠ 0 ↔ n % 256 ≠ 0 := by
  rw [Ne, ← BitVec.toNat_inj, BitVec.toNat_ofNat]
  rfl

theorem ofNat_toInt_le (n : Nat) : (BitVec.ofNat 8 n).toInt ≤ n := by
  rw [BitVec.toInt_eq_toNat_cond, BitVec.toNat_ofNat]
  split <;> omega

theorem ofNat_toInt {n : Nat} (small : n < 128) : (BitVec.ofNat 8 n).toInt = n := by
  rw [BitVec.toInt_eq_toNat_cond, BitVec.toNat_ofNat]
  split <;> omega

theorem endInterval_stale (fresh : w.stale = false) : w.endInterval.stale = false := by
  unfold Watch.endInterval
  dsimp only
  split
  · rfl
  · exact fresh

theorem Watched.ended (watched : Watched s w) : Ended s w.endInterval := by
  have forgets : (w.trying && !w.up && decide (w.unanswered % 256 ≠ 0)) = s.forgets := by
    unfold Vdh.forgets
    rw [watched.trying, watched.up, watched.unacked, decide_eq_decide.mpr (ofNat_ne_zero _)]
  have answers : w.endInterval.answers = if s.forgets then 0 else w.answers := by
    rw [← forgets]
    rfl
  have stale : w.endInterval.stale = if s.forgets then false else w.stale := by
    rw [← forgets]
    rfl
  constructor
  case due =>
    rw [← watched.up]
    rfl
  case trying => exact watched.trying
  case up => exact watched.up
  case tries => exact watched.tries
  case sent => rfl
  case heard => rfl
  case unacked => exact watched.unacked
  case inarow =>
    rw [answers, watched.inarow]
    split <;> rfl
  case few =>
    intro up
    have few := watched.few up
    have one := Bool.toNat_le w.sent
    show w.unanswered ≤ 5
    omega
  case answered =>
    intro tries down row
    rw [endInterval_row] at row
    split at row
    next sent =>
      split at row
      next heard => exact (watched.heard heard).2
      next => exact absurd rfl row
    next unsent =>
      have answered := watched.answered tries down row
      rw [Bool.eq_false_iff.mpr unsent] at answered
      exact Nat.le_zero.mp answered
  case counted =>
    intro tries down fresh
    rw [answers, endInterval_row]
    rw [stale] at fresh
    split
    next => exact Nat.zero_le _
    next keeps =>
      rw [if_neg keeps] at fresh
      have counted := watched.counted tries down fresh
      split
      next sent =>
        split
        next heard =>
          rw [heard] at counted
          exact counted
        next unheard =>
          have unanswered : w.unanswered ≠ 0 := fun none => unheard (watched.silent sent none)
          have whole : ¬ w.unanswered % 256 ≠ 0 := by
            intro some
            rw [← forgets, watched.trying, watched.up, tries, down] at keeps
            exact keeps (decide_eq_true some)
          have noRow : w.row = 0 := by
            by_contra row
            have answered := watched.answered tries down row
            have one := Bool.toNat_le w.sent
            omega
          rw [Bool.eq_false_iff.mpr unheard, noRow] at counted
          exact counted
      next unsent =>
        have unheard : w.heard = false :=
          Bool.eq_false_iff.mpr fun heard => unsent (watched.heard heard).1
        rw [unheard] at counted
        exact counted

theorem Ended.unheard (ended : Ended s w) (heard : w.heard = true) :
    w.sent = true ∧ w.unanswered = 0 := by
  rw [ended.heard] at heard
  cases heard

theorem Ended.unsent (ended : Ended s w) (sent : w.sent = true) (_ : w.unanswered = 0) :
    w.heard = true := by
  rw [ended.sent] at sent
  cases sent

theorem Ended.continues (ended : Ended s w) (due : w.due = false)
    (few : s.up = true → w.unanswered ≤ 4) (trying : t.trying = s.trying) (up : t.up = s.up)
    (unacked : t.hellounacked = s.hellounacked)
    (inarow : t.helloinarow = if s.forgets then 0 else s.helloinarow) : Watched t w := by
  constructor
  case due => exact due
  case trying => exact ended.trying.trans trying.symm
  case up => exact ended.up.trans up.symm
  case tries =>
    rw [up, trying]
    exact ended.tries
  case pending => exact fun _ => ended.sent
  case unacked => exact unacked.trans ended.unacked
  case inarow => exact inarow.trans ended.inarow
  case few =>
    rw [up, ended.sent]
    exact few
  case answered =>
    rw [up, trying]
    exact fun tries down row => (ended.answered tries down row).le.trans (Nat.zero_le _)
  case counted =>
    rw [up, trying, ended.heard]
    exact ended.counted
  case heard => exact ended.unheard
  case silent => exact ended.unsent

/-- The count of answers is not left over: if the line comes up now, the answers since they were
last forgotten are one for each answered interval. -/
def Fresh (s : Vdh) : Prop :=
  s.trying = true → s.up = false → s.hellounacked = 0 → vdhK ≤ s.helloinarow.toInt →
    (watch s.marks).stale = false

/-- The end of an interval, before the driver acts. -/
def Vdh.elapsed (s : Vdh) (house : Chan → Int) (next : Int) : Vdh :=
  { s with vdhouse := house, hellonext := next, marks := s.marks ++ [.interval] }

theorem Ended.stops (ended : Ended s w) (trying : t.trying = false) (up : t.up = false)
    (unacked : t.hellounacked = s.hellounacked)
    (inarow : t.helloinarow = if s.forgets then 0 else s.helloinarow) :
    Watched t { w with trying := false, up := false, due := false } := by
  constructor
  case due => rfl
  case trying => exact trying.symm
  case up => exact up.symm
  case pending => exact fun _ => ended.sent
  case unacked => exact unacked.trans ended.unacked
  case inarow => exact inarow.trans ended.inarow
  case heard => exact ended.unheard
  case silent => exact ended.unsent
  all_goals
    intro never
    simp [trying, up] at never

theorem Ended.comesUp (ended : Ended s w) (due : w.due = false) (answered : w.unanswered = 0)
    (tries : s.trying = true) (trying : t.trying = s.trying) (up : t.up = true)
    (unacked : t.hellounacked = s.hellounacked)
    (inarow : t.helloinarow = BitVec.ofNat 8 w.answers) : Watched t { w with up := true } := by
  constructor
  case due => exact due
  case trying => exact ended.trying.trans trying.symm
  case up => exact up.symm
  case tries => exact fun _ => trying.trans tries
  case pending => exact fun _ => ended.sent
  case unacked => exact unacked.trans ended.unacked
  case inarow => exact inarow
  case few =>
    intro _
    dsimp only
    rw [answered]
    exact Nat.zero_le _
  case heard => exact ended.unheard
  case silent => exact ended.unsent
  all_goals
    intro _ never
    rw [up] at never
    cases never

theorem Ended.begins (ended : Ended s w) (due : w.due = false) (down : s.up = false)
    (trying : t.trying = true) (up : t.up = false) (unacked : t.hellounacked = s.hellounacked)
    (inarow : t.helloinarow = BitVec.ofNat 8 w.answers) :
    Watched t { w with trying := true, row := 0, stale := decide (w.answers ≠ 0) } := by
  constructor
  case due => exact due
  case trying => exact trying.symm
  case up => exact (ended.up.trans down).trans up.symm
  case tries => exact fun _ => trying
  case pending => exact fun _ => ended.sent
  case unacked => exact unacked.trans ended.unacked
  case inarow => exact inarow
  case few =>
    intro isUp
    rw [up] at isUp
    cases isUp
  case answered => exact fun _ _ none => absurd rfl none
  case counted =>
    intro _ _ fresh
    have none : w.answers = 0 := Decidable.not_not.mp (of_decide_eq_false fresh)
    dsimp only
    rw [none]
    exact Nat.zero_le _
  case heard => exact ended.unheard
  case silent => exact ended.unsent

theorem Ruled.interval (ruled : Ruled s) (fresh : Fresh s) (house : Chan → Int) (next : Int) :
    Ruled (s.elapsed house next).interval := by
  have ended := ruled.watched.ended
  have recorded : Recorded (s.marks ++ [.interval]) (watch s.marks).endInterval :=
    (Recorded.mk ruled.follows rfl).snoc ruled.watched.due
  have kept := endInterval_stale (w := watch s.marks)
  generalize (watch s.marks).endInterval = w at ended recorded kept
  have due := ended.due
  unfold Vdh.interval Vdh.elapsed
  dsimp only
  split
  next tries =>
    split
    next isUp =>
      have few := ended.few isUp
      have unanswered : s.hellounacked.toInt = w.unanswered := by
        rw [ended.unacked, ofNat_toInt (by omega)]
      have forgets : s.forgets = false := by
        unfold Vdh.forgets
        rw [tries, isUp]
        rfl
      rw [isUp, Bool.true_and] at due
      split
      next many =>
        rw [unanswered] at many
        have isDue : w.due = true := due.trans (decide_eq_true many)
        refine (recorded.snoc (m := .down) isDue).ruled (ended.stops rfl rfl rfl ?_)
        rw [forgets]
        rfl
      next notMany =>
        rw [unanswered] at notMany
        have notDue : w.due = false := due.trans (decide_eq_false notMany)
        refine recorded.ruled (ended.continues notDue (fun _ => ?_) rfl rfl rfl ?_)
        · unfold vdhT at notMany
          omega
        · rw [forgets]
          rfl
    next isDown =>
      have down : s.up = false := Bool.eq_false_iff.mpr isDown
      have notDue : w.due = false := by
        rw [due, down]
        rfl
      have noUp : s.up = true → w.unanswered ≤ 4 := fun isUp => absurd isUp isDown
      split
      next unanswered =>
        have forgets : s.forgets = true := by
          unfold Vdh.forgets
          rw [tries, down]
          exact decide_eq_true unanswered
        refine recorded.ruled (ended.continues notDue noUp rfl rfl rfl ?_)
        rw [forgets]
        rfl
      next answered =>
        have none : s.hellounacked = 0 := Decidable.not_not.mp answered
        have forgets : s.forgets = false := by
          unfold Vdh.forgets
          rw [tries, down]
          exact decide_eq_false answered
        have answers := ended.inarow
        rw [forgets, if_neg Bool.false_ne_true] at answers
        split
        next enough =>
          have counted := ended.counted tries down (kept (fresh tries down none enough))
          have shown := ofNat_toInt_le w.answers
          rw [← answers] at shown
          have inRow : vdhK ≤ w.row := by omega
          refine (recorded.snoc (m := .up) ⟨notDue, ended.trying.trans tries, inRow⟩).ruled ?_
          have allAnswered : w.unanswered = 0 :=
            ended.answered tries down fun none => by
              unfold vdhK at inRow
              omega
          exact ended.comesUp notDue allAnswered tries rfl rfl rfl answers
        next =>
          refine recorded.ruled (ended.continues notDue noUp rfl rfl rfl ?_)
          rw [forgets]
          rfl
  next idle =>
    have notUp : s.up = false := Bool.eq_false_iff.mpr fun up => idle (ended.tries up)
    have forgets : s.forgets = false := by
      unfold Vdh.forgets
      rw [Bool.eq_false_iff.mpr idle]
      rfl
    have answers := ended.inarow
    rw [forgets, if_neg Bool.false_ne_true] at answers
    rw [notUp] at due
    refine (recorded.snoc (m := .trying) due).ruled ?_
    exact ended.begins due notUp rfl rfl rfl answers

theorem Ruled.tick (ruled : Ruled s) (ncpopnstate : Bool)
    (fresh : ncpopnstate = true → s.hellonext ≤ 1 → Fresh s) : Ruled (s.tick ncpopnstate) := by
  unfold Vdh.tick
  dsimp only
  split
  next closed =>
    exact ruled.mark (m := .closed) rfl ruled.watched.due
      (ruled.watched.stops rfl rfl id rfl rfl)
  next opened =>
    split
    next => exact ruled.same rfl
    next ends =>
      have isOpen : ncpopnstate = true := by simpa using opened
      exact ruled.interval (fresh isOpen (by omega)) _ _

/-! ### Runs -/

/-- What happens to the driver: a message to be sent, the interrupts of both sides, a message that
is taken by the input process, and the initialisation. -/
inductive HelloEvent
  | output (m : OutMessage)
  | oint (timer : Option Bool) (eot : Bool)
  | iint (receipts : List Receipt)
  | input
  | init

namespace Vdh

def happens (s : Vdh) : HelloEvent → Vdh
  | .output m => s.impOutput m
  | .oint timer eot => s.vdhoint timer eot
  | .iint receipts => s.vdhiint receipts
  | .input => s.impInput
  | .init => s.impInit

/-- Anything may happen at any time. -/
def takes (s : Vdh) (e : HelloEvent) : Option Vdh := some (s.happens e)

/-- At the end of an interval the count of answers is not left over. -/
def Steady (s : Vdh) : HelloEvent → Prop
  | .oint (some true) _ => s.hellonext ≤ 1 → Fresh s
  | _ => True

instance (s : Vdh) : Decidable (Fresh s) := by
  unfold Fresh
  infer_instance

instance (s : Vdh) : ∀ e, Decidable (s.Steady e)
  | .oint (some true) _ => inferInstanceAs (Decidable (s.hellonext ≤ 1 → Fresh s))
  | .oint (some false) _ | .oint none _ | .output _ | .iint _ | .input | .init => .isTrue trivial

end Vdh

theorem Ruled.happens (ruled : Ruled s) {e : HelloEvent} (steady : s.Steady e) :
    Ruled (s.happens e) := by
  cases e with
  | output m => exact ruled.impOutput m
  | oint timer eot =>
    have timed : Ruled (s.timed timer) := by
      cases timer with
      | none => exact ruled
      | some ncpopnstate =>
        refine ruled.tick ncpopnstate fun isOpen ends => ?_
        rw [isOpen] at steady
        exact steady ends
    have ended : Ruled ((s.timed timer).ended eot) := by
      cases eot with
      | false => exact timed
      | true => exact timed.same rfl
    exact ended.restart
  | iint receipts => exact ruled.vdhiint receipts
  | input => exact ruled.impInput
  | init => exact ruled.impInit

theorem static_ruled : Ruled Vdh.static where
  follows := trivial
  watched := by
    constructor <;> decide

theorem follows_at {before after : List Mark} (follows : Watch.start.Follows marks)
    (cut : marks = before ++ m :: after) : (watch before).Allows m := by
  rw [cut] at follows
  exact (follows_append.mp follows).2.1

/-- The rule for the line. In any sequence of messages, interrupts with any reports and
initialisations in which the count of answers is never left over at the end of an interval, the
line comes up only when the driver tries and enough intervals in a row were answered since it
began; the line goes down right after an interval that ends with too many hellos unanswered, and
only then; and the driver takes the line to be up exactly when the record says so. -/
theorem line_rule {history : List HelloEvent}
    (run : Transition.Run (Transition.Guarded (Transition.Takes Vdh.takes) Vdh.Steady) Vdh.static
      history s) :
    (∀ before after, s.marks = before ++ .up :: after →
      (watch before).trying = true ∧ vdhK ≤ (watch before).row) ∧
      (∀ before m after, s.marks = before ++ m :: after →
        ((watch before).due = true ↔ m = .down)) ∧
      (watch s.marks).due = false ∧ (watch s.marks).up = s.up := by
  have ruled : Ruled s := run.always Ruled static_ruled fun _ _ _ ruled taken => by
    obtain ⟨steady, taken⟩ := taken
    rw [← Option.some_inj.mp taken]
    exact ruled.happens steady
  refine ⟨fun before after cut => (follows_at ruled.follows cut).2, fun before m after cut => ?_,
    ruled.watched.due, ruled.watched.up⟩
  have allows := follows_at ruled.follows cut
  constructor
  · intro due
    cases m with
    | down => rfl
    | up =>
      rw [allows.1] at due
      cases due
    | hello | heard | interval | trying | closed | init =>
      rw [show (watch before).due = false from allows] at due
      cases due
  · rintro rfl
    exact allows

/-- The answer to a hello. -/
def heardYou : Receipt := .packet ⟨vSpbit ||| vHello, []⟩ 0 false

/-- A tick of the timer at the end of a transmission, and an interval with an answer. -/
def aTick : HelloEvent := .oint (some true) true

def answeredInterval : List HelloEvent := aTick :: .iint [heardYou] :: List.replicate 74 aTick

/-- Enough intervals are answered. -/
def comesUp : List HelloEvent := (List.replicate 4 answeredInterval).flatten

/-- The daemon closes when the line has come up; later the driver tries again, and one interval is
answered. -/
def leftOver : List HelloEvent :=
  comesUp ++ .oint (some false) false :: List.replicate 74 aTick ++ answeredInterval ++ [aTick]

theorem line_rule_up :
    (watch (Transition.last Vdh.takes Vdh.static comesUp).marks).due = false :=
  (line_rule (Transition.run_can (by decide +kernel))).2.2.1

example : (Transition.last Vdh.takes Vdh.static comesUp).up = true := by
  decide +kernel

/-- The answers from before count: the line comes up when one interval has been answered. -/
theorem line_rule_left_over :
    Transition.Run (Transition.Takes Vdh.takes) Vdh.static leftOver
      (Transition.last Vdh.takes Vdh.static leftOver) ∧
    ¬ ∀ before after, (Transition.last Vdh.takes Vdh.static leftOver).marks = before ++ .up :: after →
      (watch before).trying = true ∧ vdhK ≤ (watch before).row := by
  refine ⟨Transition.run_all (by decide +kernel), fun rule => ?_⟩
  have last : (Transition.last Vdh.takes Vdh.static leftOver).marks =
      (Transition.last Vdh.takes Vdh.static leftOver).marks.dropLast.dropLast ++ .up :: [.hello] := by
    decide +kernel
  have row : (watch (Transition.last Vdh.takes Vdh.static leftOver).marks.dropLast.dropLast).row = 1 := by
    decide +kernel
  have enough := (rule _ _ last).2
  rw [row] at enough
  exact absurd enough (by decide)

end NetworkUnix.Ncpk
