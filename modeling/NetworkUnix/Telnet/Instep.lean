/-
This file says when the machine of `NetChar` keeps in step with the records of a stream. The
count of a record is taken down only by what follows some controls, and it is tested after the
state has moved: a control that expects nothing leaves the further bytes to be taken as text, and
one that expects more than the record has takes it from what follows the record.
-/

import NetworkUnix.Telnet.Received

namespace NetworkUnix.Telnet

/-! ### Streams -/

/-- A part of a stream: a character that is not IAC, or a record with any control and as many
further bytes as two bytes can count. -/
inductive Portion
  | text (c : Byte) (plain : c ≠ iac)
  | record (ctrl : Byte) (args : List Byte) (small : args.length < 256 * 256)

def Portion.bytes : Portion → List Byte
  | .text c _ => [c]
  | .record ctrl args _ => NetConn.record ctrl args

/-- The number of further bytes suits a control. -/
def SuitsCtrl (ctrl : Byte) (count : Nat) : Prop :=
  if ctrl = dataCode then True
  else if ctrl = repeatCode then count = 2
  else if ctrl = setModeCode ∨ ctrl = requestModeCode then count = 1
  else if ctrl = willCode ∨ ctrl = doCode ∨ ctrl = wontCode ∨ ctrl = dontCode then count ≠ 0
  else count = 0

/-- The number of bytes of a record suits its control. -/
def Portion.Suits : Portion → Prop
  | .text _ _ => True
  | .record ctrl args _ => SuitsCtrl ctrl args.length

/-- The states in which a byte goes to `UserChar` as text. -/
def CmdState.takesText : CmdState → Bool
  | .escapeExp | .charExp _ | .withinData => true
  | _ => false

section Inside

variable {State : Type} (next : State → Byte → State) (place : State → CmdState × Nat)
variable (ctrl : Byte)

/-- The bytes that are left of a record are taken as parts of it: no byte finds the machine at the
start, none is text unless the record is one of text, and after the last one the machine is at the
start with nothing left to count. -/
def Inside : State → List Byte → Prop
  | s, [] => place s = (.escapeExp, 0)
  | s, c :: more =>
    ((place s).1 ≠ .escapeExp ∧
      ((place s).1.takesText = true → ctrl = dataCode ∨ ctrl = repeatCode)) ∧
      Inside (next s c) more

variable {next place ctrl}

theorem Inside.last {s : State} {bytes : List Byte} (inside : Inside next place ctrl s bytes) :
    place (bytes.foldl next s) = (.escapeExp, 0) := by
  induction bytes generalizing s with
  | nil => exact inside
  | cons c more inductionHypothesis => exact inductionHypothesis inside.2

end Inside

namespace NetConn

/-- A part of the stream is taken as what it is. -/
def Consumes (conn : NetConn) : Portion → Prop
  | .text c _ => (conn.netChar c).machine = (.escapeExp, 0)
  | .record ctrl args _ => Inside netChar machine ctrl (conn.netChar iac) (record ctrl args).tail

/-- The machine keeps in step with a stream. -/
def InStep : NetConn → List Portion → Prop
  | _, [] => True
  | conn, portion :: stream =>
    conn.Consumes portion ∧ (portion.bytes.foldl netChar conn).InStep stream

/-! ### The machine alone -/

theorem inside_iff {conn : NetConn} (counted : conn.Counted) (ctrl : Byte) (bytes : List Byte) :
    Inside netChar machine ctrl conn bytes ↔ Inside advance id ctrl conn.machine bytes := by
  induction bytes generalizing conn with
  | nil => exact Iff.rfl
  | cons c more inductionHypothesis =>
    obtain ⟨_, _, takes⟩ := takes counted c
    refine and_congr_right fun _ => ?_
    rw [← takes.machine]
    exact inductionHypothesis (counted_netChar counted c)

theorem inside_escape (ctrl : Byte) (count : Nat) (args : List Byte) :
    Inside advance id ctrl (.escapeExp, count) args ↔ args = [] ∧ count = 0 := by
  cases args with
  | nil => simp [Inside]
  | cons c more => simp [Inside]

theorem inside_data (args : List Byte) :
    Inside advance id dataCode (countDown .withinData args.length) args := by
  induction args with
  | nil => rfl
  | cons c more inductionHypothesis =>
    exact ⟨⟨CmdState.noConfusion, fun _ => .inl rfl⟩, inductionHypothesis⟩

theorem inside_option (ctrl : Byte) (op : Op) (args : List Byte) (some : args ≠ []) :
    Inside advance id ctrl (.optionExp op, args.length - 1) args := by
  induction args with
  | nil => exact absurd rfl some
  | cons c more inductionHypothesis =>
    refine ⟨⟨CmdState.noConfusion, fun text => Bool.noConfusion (show false = true from text)⟩, ?_⟩
    cases more with
    | nil => rfl
    | cons c' more => exact inductionHypothesis (List.cons_ne_nil c' more)

theorem inside_repeat (args : List Byte) :
    Inside advance id repeatCode (countDown .countExp args.length) args ↔ args.length = 2 := by
  match args with
  | [] => simp [Inside, countDown, CmdState.past]
  | [a] => simp [Inside, countDown, CmdState.past, advance, CmdState.takesText]
  | [a, b] => simp [Inside, countDown, CmdState.past, advance, CmdState.takesText]
  | a :: b :: c :: more => simp [Inside, countDown, CmdState.past, advance, CmdState.takesText]

theorem inside_mode (ctrl : Byte) (request : Bool) (args : List Byte) :
    Inside advance id ctrl (countDown (.modeExp request) args.length) args ↔ args.length = 1 := by
  match args with
  | [] => simp [Inside, countDown, CmdState.past]
  | [a] => simp [Inside, countDown, CmdState.past, advance, CmdState.takesText]
  | a :: b :: more => simp [Inside, countDown, CmdState.past, advance, CmdState.takesText]

theorem inside_ctrl (ctrl : Byte) (args : List Byte) :
    Inside advance id ctrl (countDown (ctrlNext ctrl) args.length) args ↔
      SuitsCtrl ctrl args.length := by
  have option (op : Op) :
      Inside advance id ctrl (countDown (.optionExp op) args.length) args ↔ args.length ≠ 0 := by
    cases args with
    | nil => simp [Inside, countDown, CmdState.past]
    | cons c more => exact iff_of_true (inside_option ctrl op (c :: more) (by simp)) (by simp)
  unfold ctrlNext SuitsCtrl
  by_cases isData : ctrl = dataCode
  · subst isData
    exact iff_of_true (inside_data args) trivial
  by_cases isRepeat : ctrl = repeatCode
  · subst isRepeat
    exact inside_repeat args
  rw [if_neg isData, if_neg isRepeat, if_neg isData, if_neg isRepeat]
  by_cases isSet : ctrl = setModeCode
  · rw [if_pos isSet, if_pos (.inl isSet)]
    exact inside_mode ctrl false args
  by_cases isRequest : ctrl = requestModeCode
  · rw [if_neg isSet, if_pos isRequest, if_pos (.inr isRequest)]
    exact inside_mode ctrl true args
  rw [if_neg isSet, if_neg isRequest, if_neg (not_or.mpr ⟨isSet, isRequest⟩)]
  by_cases isWill : ctrl = willCode
  · rw [if_pos isWill, if_pos (.inl isWill)]
    exact option .will
  by_cases isDo : ctrl = doCode
  · rw [if_neg isWill, if_pos isDo, if_pos (.inr (.inl isDo))]
    exact option .do_
  by_cases isWont : ctrl = wontCode
  · rw [if_neg isWill, if_neg isDo, if_pos isWont, if_pos (.inr (.inr (.inl isWont)))]
    exact option .wont
  by_cases isDont : ctrl = dontCode
  · rw [if_neg isWill, if_neg isDo, if_neg isWont, if_pos isDont,
      if_pos (.inr (.inr (.inr isDont)))]
    exact option .dont
  rw [if_neg isWill, if_neg isDo, if_neg isWont, if_neg isDont,
    if_neg (by simp [isWill, isDo, isWont, isDont])]
  show Inside advance id ctrl (.escapeExp, args.length) args ↔ args.length = 0
  rw [inside_escape, ← List.length_eq_zero_iff, and_self]

/-! ### A part of the stream -/

/-- The machine is at the start, with nothing to count. -/
def Ready (conn : NetConn) : Prop := conn.machine = (.escapeExp, 0)

theorem Ready.counted {conn : NetConn} (ready : conn.Ready) : conn.Counted := by
  intro times charExp
  exact absurd ((congrArg Prod.fst ready).symm.trans charExp) CmdState.noConfusion

theorem Ready.netChar {conn : NetConn} (ready : conn.Ready) (c : Byte) :
    (conn.netChar c).machine = advance (.escapeExp, 0) c := by
  obtain ⟨_, _, takes⟩ := takes ready.counted c
  rw [takes.machine, ready]

theorem Ready.record_iff {conn : NetConn} (ready : conn.Ready) (ctrl : Byte) {args : List Byte}
    (small : args.length < 256 * 256) :
    conn.Consumes (.record ctrl args small) ↔ SuitsCtrl ctrl args.length := by
  have count : (BitVec.ofNat 8 (args.length / 256)).toNat * 256 +
      (BitVec.ofNat 8 args.length).toNat = args.length := by
    rw [BitVec.toNat_ofNat, BitVec.toNat_ofNat]
    omega
  show Inside NetConn.netChar machine ctrl (conn.netChar iac) (record ctrl args).tail ↔ _
  rw [inside_iff (counted_netChar ready.counted iac), ready.netChar, ← inside_ctrl]
  have header : advance (advance (advance (.escapeExp, 0) iac)
      (BitVec.ofNat 8 (args.length / 256))) (BitVec.ofNat 8 args.length) =
      (.ctrlExp, args.length) := Prod.ext rfl count
  have text (state : CmdState × Nat) (header : state.1.takesText = false) :
      state.1 ≠ .escapeExp ∧
        (state.1.takesText = true → ctrl = dataCode ∨ ctrl = repeatCode) := by
    refine ⟨fun start => ?_, fun text => absurd (header.symm.trans text) Bool.false_ne_true⟩
    rw [start] at header
    exact absurd header (by decide)
  constructor
  · rintro ⟨_, _, _, inside⟩
    rwa [header] at inside
  · intro inside
    refine ⟨text _ rfl, text _ rfl, text _ (by rw [header]; rfl), ?_⟩
    rw [header]
    exact inside

theorem Consumes.after {conn : NetConn} {portion : Portion}
    (consumes : conn.Consumes portion) : (portion.bytes.foldl NetConn.netChar conn).Ready := by
  cases portion with
  | text c plain => exact consumes
  | record ctrl args small =>
    have inside : Inside NetConn.netChar machine ctrl (conn.netChar iac) (record ctrl args).tail :=
      consumes
    exact inside.last

/-! ### The stream -/

theorem Ready.consumes_iff {conn : NetConn} (ready : conn.Ready) (portion : Portion) :
    conn.Consumes portion ↔ portion.Suits := by
  cases portion with
  | text c plain =>
    refine iff_of_true ?_ trivial
    show (conn.netChar c).machine = (.escapeExp, 0)
    rw [ready.netChar]
    exact if_pos plain
  | record ctrl args small => exact ready.record_iff ctrl small

/-- From the start the machine keeps in step with a stream exactly when the number of bytes of every
record suits its control. -/
theorem inStep_iff {conn : NetConn} (ready : conn.Ready) (stream : List Portion) :
    conn.InStep stream ↔ ∀ portion ∈ stream, portion.Suits := by
  induction stream generalizing conn with
  | nil => exact iff_of_true trivial (by simp)
  | cons portion stream inductionHypothesis =>
    rw [List.forall_mem_cons, ← ready.consumes_iff]
    exact and_congr_right fun consumes => inductionHypothesis consumes.after

/-- A character and a message about an option are taken as what they are. -/
theorem inStep_greeting : (alloc ⟨0o10, 0o30, 0o177, false⟩ false).InStep
    [.text 0x78 (by decide), .record willCode [1] (by decide)] := by
  have ready : (alloc ⟨0o10, 0o30, 0o177, false⟩ false).Ready := rfl
  refine (inStep_iff ready _).mpr ?_
  simp [Portion.Suits, SuitsCtrl, dataCode, repeatCode, setModeCode, requestModeCode, willCode]

/-- A NOP with a further byte: that byte is shown to the user. -/
theorem not_inStep_nop :
    ¬ (alloc ⟨0o10, 0o30, 0o177, false⟩ false).InStep [.record nopCode [0x78] (by decide)] ∧
      ((record nopCode [0x78]).foldl NetConn.netChar
        (alloc ⟨0o10, 0o30, 0o177, false⟩ false)).toUsrBuf.bytes = [0x78] :=
  ⟨fun inStep => inStep.1.2.2.2.1.1 rfl, rfl⟩

end NetConn

end NetworkUnix.Telnet
