/-
This file models how a terminal is read and written, and proves when the capacities that `ttycap`
reports are right. The end-of-file mark, the classes of characters, their types and the high water
mark come from files that are not here; they are parameters. The page length, the flow control of
the line and what echoing puts out are left out.
-/

import Mathlib.Data.List.Basic
import Mathlib.Tactic.NormNum

namespace NetworkUnix.Newtty

abbrev Byte := BitVec 8

/-- T_EOFMARK, `class`, TB_NON_ASCII, TTHIWAT and whether `partab` has a character as P_PRINTING. -/
structure Config where
  eofmark : Byte
  classOf : Byte → BitVec 16
  nonAscii : BitVec 16
  tthiwat : Nat
  isPrinting : Byte → Bool

/-- A terminal: its queues, its break classes, whether echoing is deferred and has been done
already, and which transformations of output are enabled (TO_CLR_MSB, TO_ONECASE, TO_AUTONL).
`echoed` records the characters given to `echo`. -/
structure Tty where
  carrOn : Bool
  rawq : List Byte
  canq : List Byte
  outq : List Byte
  breaks : BitVec 16
  deferEcho : Bool
  alreadyEchoed : Bool
  clrMsb : Bool
  oneCase : Bool
  autoNl : Bool
  col : Nat
  echoed : List Byte

/-- is_wakeup -/
def isWakeup (config : Config) (breaks : BitVec 16) (c : Byte) : Bool :=
  c == config.eofmark ||
    (breaks &&& if c &&& 0x80 ≠ 0 then config.nonAscii else config.classOf c) != 0

namespace Tty

variable {config : Config} {t : Tty}

/-- The loop of `ecanon` over the characters of t_rawq; `none` if there is no break. -/
def canonLoop (config : Config) (echoflag : Bool) (t : Tty) : List Byte → Bool × Tty
  | [] => (false, { t with rawq := t.canq, canq := [], alreadyEchoed := true })
  | c :: rest =>
    let echoed := if echoflag then t.echoed else t.echoed ++ [c]
    if isWakeup config t.breaks c then
      (true, { t with
        rawq := rest
        canq := if c ≠ config.eofmark then t.canq ++ [c] else t.canq
        alreadyEchoed := false
        echoed := echoed })
    else
      canonLoop config echoflag { t with rawq := rest, canq := t.canq ++ [c], echoed := echoed }
        rest

/-- ecanon -/
def ecanon (config : Config) (t : Tty) : Bool × Tty :=
  canonLoop config (if t.deferEcho then t.alreadyEchoed else true) t t.rawq

/-- The transfer of characters in `ttread`, `count` at most. -/
def pass (t : Tty) (count : Nat) : List Byte × Tty :=
  let left := t.canq.drop count
  (t.canq.take count, { t with
    canq := left
    alreadyEchoed := t.alreadyEchoed && !left.isEmpty })

/-- `ttread` of at least one character; `none` if it sleeps. -/
def ttread (config : Config) (t : Tty) (count : Nat) : Option (List Byte × Tty) :=
  if t.canq ≠ [] then some (t.pass count)
  else if !t.carrOn then some ([], t)
  else if t.rawq = [] then none
  else
    let (found, next) := t.ecanon config
    if found then some (next.pass count) else none

/-- `ttyoutput`. What it does with the characters that are not printing, and where a
transformation is enabled, is a parameter. -/
def ttyoutput (config : Config) (transform : Tty → Byte → Tty) (t : Tty) (c : Byte) : Tty :=
  if !t.clrMsb && !t.oneCase && !t.autoNl && config.isPrinting c then
    { t with outq := t.outq ++ [c], col := t.col + 1 }
  else transform t c

/-- `ttwrite`; `none` if it sleeps for space in t_outq. Before each character `drains` says how many
characters the line has taken since the last one. -/
def ttwrite (config : Config) (transform : Tty → Byte → Tty) :
    List Nat → Tty → List Byte → Option Tty
  | _, t, [] => some t
  | drains, t, c :: rest =>
    if !t.carrOn then some t
    else
      let t := { t with outq := t.outq.drop (drains.headD 0) }
      if config.tthiwat < t.outq.length then none
      else ttwrite config transform drains.tail (t.ttyoutput config transform c) rest

/-- The count of `ttycap` over the characters of t_rawq. -/
def peekLoop (config : Config) (breaks : BitVec 16) (i : Nat) : List Byte → Nat
  | [] => 0
  | c :: rest => if isWakeup config breaks c then i + 1 else peekLoop config breaks (i + 1) rest

/-- ttycap -/
def ttycap (config : Config) (t : Tty) : Int × Int :=
  if !t.carrOn then (-1, -1)
  else
    (if t.canq.length ≠ 0 then t.canq.length
      else if t.rawq.length = 0 then 0
      else peekLoop config t.breaks 0 t.rawq,
    if config.tthiwat < t.outq.length then 0 else config.tthiwat - t.outq.length + 1)

/-! ### Reading -/

/-- The capacity for reading is what a `ttread` without limit returns at once. -/
def ReadExact (config : Config) (t : Tty) : Prop :=
  ∀ count, t.canq.length + t.rawq.length ≤ count →
    (t.ttycap config).1 = (t.ttread config count).elim 0 fun result => result.1.length

/-- The record that the next read takes out of t_rawq ends with the end-of-file mark. -/
def EndsFile (config : Config) (t : Tty) : Prop :=
  t.canq = [] ∧ t.rawq.find? (isWakeup config t.breaks) = some config.eofmark

theorem canonLoop_none {rest : List Byte} (echoflag : Bool) (i : Nat)
    (none : rest.find? (isWakeup config t.breaks) = none) :
    (canonLoop config echoflag t rest).1 = false ∧ peekLoop config t.breaks i rest = 0 := by
  induction rest generalizing t i with
  | nil => exact ⟨rfl, rfl⟩
  | cons c rest inductionHypothesis =>
    rw [List.find?_cons] at none
    unfold canonLoop peekLoop
    cases wakes : isWakeup config t.breaks c with
    | true =>
      rw [wakes] at none
      cases none
    | false =>
      rw [wakes] at none
      exact inductionHypothesis (i + 1) none

theorem canonLoop_some {rest : List Byte} {c : Byte} (echoflag : Bool) (i : Nat)
    (found : rest.find? (isWakeup config t.breaks) = some c) :
    (canonLoop config echoflag t rest).1 = true ∧
      (canonLoop config echoflag t rest).2.canq.length + (if c = config.eofmark then 1 else 0) + i =
        t.canq.length + peekLoop config t.breaks i rest := by
  induction rest generalizing t i with
  | nil => cases found
  | cons first rest inductionHypothesis =>
    rw [List.find?_cons] at found
    unfold canonLoop peekLoop
    cases wakes : isWakeup config t.breaks first with
    | true =>
      rw [wakes] at found
      obtain rfl := Option.some.inj found
      refine ⟨rfl, ?_⟩
      show (if first ≠ config.eofmark then t.canq ++ [first] else t.canq).length + _ + i =
        t.canq.length + (i + 1)
      by_cases isMark : first = config.eofmark
      · rw [if_neg (not_not_intro isMark), if_pos isMark]
        omega
      · rw [if_pos isMark, if_neg isMark, List.length_append, List.length_singleton]
        omega
    | false =>
      rw [wakes] at found
      obtain ⟨isFound, count⟩ := @inductionHypothesis { t with
        rawq := rest
        canq := t.canq ++ [first]
        echoed := if echoflag then t.echoed else t.echoed ++ [first] } (i + 1) found
      rw [List.length_append, List.length_singleton] at count
      change _ = _ + peekLoop config t.breaks (i + 1) rest at count
      refine ⟨isFound, ?_⟩
      show (canonLoop config echoflag _ rest).2.canq.length + _ + i =
        t.canq.length + peekLoop config t.breaks (i + 1) rest
      omega

theorem peekLoop_le (config : Config) (breaks : BitVec 16) (i : Nat) (rest : List Byte) :
    peekLoop config breaks i rest ≤ i + rest.length := by
  induction rest generalizing i with
  | nil => exact Nat.zero_le _
  | cons c rest inductionHypothesis =>
    have later := inductionHypothesis (i + 1)
    unfold peekLoop
    rw [List.length_cons]
    split <;> omega

theorem carrier_on (carrier : t.carrOn = true) : ¬ (!t.carrOn) = true := by
  rw [carrier]
  decide

theorem ttycap_raw (carrier : t.carrOn = true) (empty : t.canq = []) :
    (t.ttycap config).1 =
      if t.rawq.length = 0 then 0 else (peekLoop config t.breaks 0 t.rawq : Int) := by
  unfold ttycap
  rw [if_neg (carrier_on carrier), empty]
  rfl

theorem ttread_found {c : Byte} (carrier : t.carrOn = true) (empty : t.canq = [])
    (found : t.rawq.find? (isWakeup config t.breaks) = some c) {count : Nat}
    (unlimited : t.rawq.length ≤ count) :
    ∃ result, t.ttread config count = some result ∧
      ((result.1.length + if c = config.eofmark then 1 else 0 : Nat) : Int) =
        (t.ttycap config).1 := by
  have ends := canonLoop_some (if t.deferEcho then t.alreadyEchoed else true) 0 found
  have short := peekLoop_le config t.breaks 0 t.rawq
  have raw : t.rawq ≠ [] := fun none => by rw [none] at found; cases found
  have some : t.rawq.length ≠ 0 := fun none => raw (List.length_eq_zero_iff.mp none)
  refine ⟨(t.ecanon config).2.pass count, ?_, ?_⟩
  · unfold ttread
    rw [if_neg (not_not_intro empty), if_neg (carrier_on carrier), if_neg raw]
    exact if_pos ends.1
  · rw [ttycap_raw carrier empty, if_neg some, pass, List.length_take]
    rw [empty, List.length_nil] at ends
    change _ ∧ (t.ecanon config).2.canq.length + _ + 0 = _ at ends
    omega

/-- The capacity for reading is right but for a record that ends with the end-of-file mark. -/
theorem readExact_iff (carrier : t.carrOn = true) : t.ReadExact config ↔ ¬ t.EndsFile config := by
  by_cases empty : t.canq = []
  · cases found : t.rawq.find? (isWakeup config t.breaks) with
    | none =>
      refine iff_of_true (fun count _ => ?_) fun ends => by
        rw [EndsFile, found] at ends
        cases ends.2
      have nothing := canonLoop_none (if t.deferEcho then t.alreadyEchoed else true) 0 found
      have sleeps : t.ttread config count = none := by
        unfold ttread
        rw [if_neg (not_not_intro empty), if_neg (carrier_on carrier)]
        split
        · rfl
        · exact if_neg (Bool.eq_false_iff.mp nothing.1)
      rw [sleeps, ttycap_raw carrier empty, nothing.2, Int.ofNat_zero, ite_self]
      rfl
    | some c =>
      by_cases isMark : c = config.eofmark
      · refine iff_of_false (fun exact_ => ?_) (not_not_intro ⟨empty, by rw [found, isMark]⟩)
        have same := exact_ _ (Nat.le_refl _)
        obtain ⟨result, returns, count⟩ := ttread_found carrier empty found
          (Nat.le_add_left t.rawq.length t.canq.length)
        rw [returns, ← count, if_pos isMark] at same
        change _ = ((result.1.length : Nat) : Int) at same
        omega
      · refine iff_of_true (fun count unlimited => ?_) fun ends => ?_
        · obtain ⟨result, returns, length⟩ := ttread_found carrier empty found
            (Nat.le_trans (Nat.le_add_left _ _) unlimited)
          rw [returns, ← length, if_neg isMark]
          rfl
        · rw [EndsFile, found] at ends
          exact isMark (Option.some.inj ends.2)
  · refine iff_of_true (fun count unlimited => ?_) fun ends => empty ends.1
    have some : t.canq.length ≠ 0 := fun none => empty (List.length_eq_zero_iff.mp none)
    unfold ttycap ttread pass
    rw [if_neg (carrier_on carrier), if_pos empty]
    dsimp only
    rw [if_pos some, Option.elim_some, List.length_take, Nat.min_eq_right (by omega)]

/-! ### Writing -/

/-- A `ttwrite` of printing characters that are not transformed, no more of them than the capacity
for writing, does not sleep for space, whatever the line takes meanwhile. -/
def WriteFits (config : Config) (t : Tty) : Prop :=
  t.clrMsb = false → t.oneCase = false → t.autoNl = false →
    ∀ (transform : Tty → Byte → Tty) (drains : List Nat) (text : List Byte),
      text.all config.isPrinting = true → (text.length : Int) ≤ (t.ttycap config).2 →
      (t.ttwrite config transform drains text).isSome = true

theorem ttyoutput_plain (transform : Tty → Byte → Tty) {c : Byte}
    (plain : t.clrMsb = false ∧ t.oneCase = false ∧ t.autoNl = false)
    (printing : config.isPrinting c = true) :
    t.ttyoutput config transform c = { t with outq := t.outq ++ [c], col := t.col + 1 } := by
  unfold ttyoutput
  rw [plain.1, plain.2.1, plain.2.2, printing]
  rfl

theorem ttwrite_fits {transform : Tty → Byte → Tty} {drains : List Nat} {text : List Byte}
    (plain : t.clrMsb = false ∧ t.oneCase = false ∧ t.autoNl = false)
    (printing : text.all config.isPrinting = true)
    (room : text = [] ∨ t.outq.length + text.length ≤ config.tthiwat + 1) :
    (ttwrite config transform drains t text).isSome = true := by
  induction text generalizing t drains with
  | nil => rfl
  | cons c rest inductionHypothesis =>
    have space := room.resolve_left (List.cons_ne_nil c rest)
    rw [List.length_cons] at space
    rw [List.all_cons, Bool.and_eq_true] at printing
    unfold ttwrite
    split
    · rfl
    · dsimp only
      rw [List.length_drop, if_neg (by omega)]
      rw [ttyoutput_plain transform (by exact plain) printing.1]
      refine inductionHypothesis (by exact plain) printing.2 (.inr ?_)
      show (t.outq.drop _ ++ [c]).length + rest.length ≤ config.tthiwat + 1
      rw [List.length_append, List.length_drop, List.length_singleton]
      omega

theorem writeFits (carrier : t.carrOn = true) : t.WriteFits config := by
  intro clrMsb oneCase autoNl transform drains text printing short
  refine ttwrite_fits ⟨clrMsb, oneCase, autoNl⟩ printing ?_
  unfold ttycap at short
  rw [if_neg (carrier_on carrier)] at short
  dsimp only at short
  split at short
  · exact .inl (List.length_eq_zero_iff.mp (by omega))
  · exact .inr (by omega)

/-- The capacities agree with reading and writing if and only if the next read does not take a
record that ends with the end-of-file mark: the mark is counted and not passed on. -/
theorem capacity_exact_iff (config : Config) (t : Tty) (carrier : t.carrOn = true) :
    (t.ReadExact config ∧ t.WriteFits config) ↔ ¬ t.EndsFile config :=
  ⟨fun both => (readExact_iff carrier).mp both.1,
    fun more => ⟨(readExact_iff carrier).mpr more, writeFits carrier⟩⟩

/-- Every control character breaks. -/
def someConfig : Config where
  eofmark := 0xff
  classOf c := if c < 0x20 then 0o400 else 0o2
  nonAscii := 0o100000
  tthiwat := 100
  isPrinting c := decide (0x20 ≤ c)

/-- A terminal with these characters in t_rawq. -/
def typed (rawq : List Byte) : Tty where
  carrOn := true
  rawq := rawq
  canq := []
  outq := []
  breaks := 0o400
  deferEcho := true
  alreadyEchoed := false
  clrMsb := false
  oneCase := false
  autoNl := false
  col := 0
  echoed := []

theorem capacity_exact_line :
    (typed [0x61, 0x62, 0x0a, 0x63]).ReadExact someConfig ∧
      (typed [0x61, 0x62, 0x0a, 0x63]).WriteFits someConfig :=
  (capacity_exact_iff someConfig (typed [0x61, 0x62, 0x0a, 0x63]) rfl).mpr fun ends =>
    absurd ends.2 (by decide)

/-- With the end-of-file mark alone a read returns nothing, and the capacity is 1. -/
theorem mark_counted :
    ¬ ∀ (config : Config) (t : Tty), t.carrOn = true → t.ReadExact config ∧ t.WriteFits config := by
  intro claimed
  have same := (claimed someConfig (typed [0xff]) rfl).1 1 (by decide)
  revert same
  decide

end Tty

end NetworkUnix.Newtty
