/-
This file proves that text goes through unchanged. A station adds LF or NUL after CR and may cut
its text into records; the other one takes the records apart and drops what was added. As long
as nothing but text is turned into characters for the user, what the user gets is what was
typed.
-/

import NetworkUnix.Lib.Run
import NetworkUnix.Telnet.Writes

namespace NetworkUnix.Telnet

open Function

namespace NetConn

/-! ### CR -/

/-- What `UserChar` makes of text; `pty` tells whether it is for a pty. -/
def strip (pty : Bool) : Bool → List Byte → List Byte
  | _, [] => []
  | toUsrCr, c :: rest =>
    (if c ≠ cr ∧ toUsrCr = true ∧ (c = 0 ∨ c = lf ∧ pty = true) then [] else [c]) ++
      strip pty (decide (c = cr)) rest

/-- `ToUsrCr` after text. -/
def pending (toUsrCr : Bool) (text : List Byte) : Bool :=
  text.foldl (fun _ c => decide (c = cr)) toUsrCr

theorem strip_one (pty toUsrCr : Bool) (c : Byte) : strip pty toUsrCr [c] =
    if c ≠ cr ∧ toUsrCr = true ∧ (c = 0 ∨ c = lf ∧ pty = true) then [] else [c] :=
  List.append_nil _

theorem strip_append (pty toUsrCr : Bool) (text more : List Byte) :
    strip pty toUsrCr (text ++ more) =
      strip pty toUsrCr text ++ strip pty (pending toUsrCr text) more := by
  induction text generalizing toUsrCr with
  | nil => rfl
  | cons c rest inductionHypothesis =>
    show _ ++ strip pty _ (rest ++ more) = (_ ++ strip pty _ rest) ++ _
    rw [inductionHypothesis, List.append_assoc]
    rfl

theorem pending_append (toUsrCr : Bool) (text more : List Byte) :
    pending toUsrCr (text ++ more) = pending (pending toUsrCr text) more :=
  List.foldl_append

theorem strip_processed (text : List Byte) :
    strip true false (processed false text) = text ∧ pending false (processed false text) = false := by
  induction text with
  | nil => exact ⟨rfl, rfl⟩
  | cons c rest inductionHypothesis =>
    have first : processed false (c :: rest) =
        (if c = cr ∧ false = false then [c, lf] else [c]) ++ processed false rest :=
      List.flatMap_cons
    rw [first, strip_append, pending_append]
    by_cases isCr : c = cr
    · rw [if_pos ⟨isCr, rfl⟩, isCr]
      have once : strip true false [cr, lf] = [cr] := by decide
      have done : pending false [cr, lf] = false := by decide
      rw [once, done, inductionHypothesis.1]
      exact ⟨rfl, inductionHypothesis.2⟩
    · rw [if_neg fun both => isCr both.1]
      have once : strip true false [c] = [c] := by
        rw [strip_one, if_neg fun all => Bool.false_ne_true all.2.1]
      have done : pending false [c] = false := decide_eq_false isCr
      rw [once, done, inductionHypothesis.1]
      exact ⟨rfl, inductionHypothesis.2⟩

theorem strip_served (toNetCr : Bool) (text : List Byte) :
    strip false toNetCr (served false toNetCr text).1 = text ∧
      pending toNetCr (served false toNetCr text).1 = (served false toNetCr text).2 := by
  induction text generalizing toNetCr with
  | nil => exact ⟨rfl, rfl⟩
  | cons c rest inductionHypothesis =>
    have after : (decide (c = cr) && !false) = decide (c = cr) := Bool.and_true _
    have first : served false toNetCr (c :: rest) =
        ((if toNetCr = true ∧ c ≠ lf then [0, c] else [c]) ++
          (served false (decide (c = cr)) rest).1, (served false (decide (c = cr)) rest).2) := by
      rw [← after]
      rfl
    have once : strip false toNetCr (if toNetCr = true ∧ c ≠ lf then [0, c] else [c]) = [c] := by
      cases toNetCr with
      | false =>
        rw [if_neg fun both => Bool.false_ne_true both.1, strip_one,
          if_neg fun all => Bool.false_ne_true all.2.1]
      | true =>
        by_cases isLf : c = lf
        · rw [if_neg fun both => both.2 isLf, isLf]
          decide
        · have zero : strip false true [0] = [] := by decide
          have past : pending true [0] = false := by decide
          rw [if_pos ⟨rfl, isLf⟩, show [0, c] = [0] ++ [c] from rfl, strip_append, zero, past,
            strip_one, if_neg fun all => Bool.false_ne_true all.2.1]
          rfl
    have done : pending toNetCr (if toNetCr = true ∧ c ≠ lf then [0, c] else [c]) =
        decide (c = cr) := by
      split <;> rfl
    obtain ⟨same, last⟩ := inductionHypothesis (decide (c = cr))
    rw [first]
    dsimp only
    rw [strip_append, pending_append, once, done, same]
    exact ⟨rfl, last⟩

theorem userChar_eq {conn : NetConn} (bin : conn.toUsrBin = false) (c : Byte) :
    conn.userChar c =
      { conn with
        toUsrBuf := conn.toUsrBuf.puts (strip conn.usingPty conn.toUsrCr [c])
        toUsrCr := decide (c = cr) } := by
  unfold userChar
  rw [strip_one]
  by_cases isCr : c = cr
  · rw [if_pos ⟨isCr, bin⟩, if_neg fun all => all.1 isCr, decide_eq_true isCr]
    rfl
  · rw [if_neg fun both => isCr both.1, decide_eq_false isCr]
    cases toUsrCr : conn.toUsrCr with
    | false =>
      rw [if_pos rfl, if_neg fun all => Bool.false_ne_true all.2.1]
      unfold putUsr
      rw [← toUsrCr]
      rfl
    | true =>
      rw [if_neg Bool.noConfusion]
      by_cases dropped : c = 0 ∨ c = lf ∧ conn.usingPty = true
      · rw [if_pos dropped, if_pos ⟨isCr, rfl, dropped⟩]
        rfl
      · rw [if_neg dropped, if_neg fun all => dropped all.2.2]
        rfl

end NetConn

/-! ### Records on the line -/

/-- A record: text, a message about an option, the setting of the mode or a request for it, or
another control. -/
inductive Record
  | data (payload : List Byte) (some : payload ≠ [])
  | option (op : Op) (args : List Byte) (some : args ≠ [])
  | mode (request : Bool) (code : Byte)
  | other (ctrl : Byte) (isOther : ctrl ∉ [dataCode, repeatCode, setModeCode, requestModeCode,
      willCode, doCode, wontCode, dontCode])

namespace Record

def ctrl : Record → Byte
  | .data _ _ => dataCode
  | .option op _ _ => op.ctrl
  | .mode request _ => if request then requestModeCode else setModeCode
  | .other ctrl _ => ctrl

def args : Record → List Byte
  | .data payload _ => payload
  | .option _ args _ => args
  | .mode _ code => [code]
  | .other _ _ => []

def text : Record → List Byte
  | .data payload _ => payload
  | _ => []

end Record

/-- What is on the line: a character, or a record that is not too long. -/
inductive Item
  | char (c : Byte) (plain : c ≠ iac)
  | whole (record : Record) (small : record.args.length < 256 * 256)

namespace Item

def bytes : Item → List Byte
  | .char c _ => [c]
  | .whole record _ => NetConn.record record.ctrl record.args

def text : Item → List Byte
  | .char c _ => [c]
  | .whole record _ => record.text

theorem exists_chars {buf : List Byte} (plain : iac ∉ buf) :
    ∃ items : List Item, items.flatMap bytes = buf ∧ items.flatMap text = buf := by
  induction buf with
  | nil => exact ⟨[], rfl, rfl⟩
  | cons c rest inductionHypothesis =>
    rw [List.mem_cons, not_or] at plain
    obtain ⟨items, isBytes, isText⟩ := inductionHypothesis plain.2
    refine ⟨.char c (Ne.symm plain.1) :: items, ?_, ?_⟩
    · rw [List.flatMap_cons, isBytes]
      rfl
    · rw [List.flatMap_cons, isText]
      rfl

theorem exists_chunks {chunks : List (List Byte)} (some : ∀ chunk ∈ chunks, chunk ≠ [])
    (small : (chunks.flatMap (NetConn.record dataCode)).length < 256 * 256) :
    ∃ items : List Item, items.flatMap bytes = chunks.flatMap (NetConn.record dataCode) ∧
      items.flatMap text = chunks.flatten := by
  induction chunks with
  | nil => exact ⟨[], rfl, rfl⟩
  | cons chunk rest inductionHypothesis =>
    rw [List.flatMap_cons, List.length_append, NetConn.length_record] at small
    obtain ⟨items, isBytes, isText⟩ := inductionHypothesis
      (fun other member => some other (List.mem_cons_of_mem chunk member)) (by omega)
    refine ⟨.whole (.data chunk (some chunk List.mem_cons_self))
      (show chunk.length < 256 * 256 by omega) :: items, ?_, ?_⟩
    · rw [List.flatMap_cons, List.flatMap_cons, isBytes]
      rfl
    · rw [List.flatMap_cons, List.flatten_cons, isText]
      rfl

theorem exists_netText {xMode : XMode} {recSize : Int} {buf : List Byte}
    (small : (NetConn.netText xMode recSize buf).length < 256 * 256) :
    ∃ items : List Item, items.flatMap bytes = NetConn.netText xMode recSize buf ∧
      items.flatMap text = buf := by
  unfold NetConn.netText at *
  by_cases records : NetConn.InRecords xMode buf
  · rw [if_pos records] at *
    obtain ⟨items, isBytes, isText⟩ := exists_chunks (fun _ => NetConn.cut_some) small
    exact ⟨items, isBytes, isText.trans (NetConn.cut_flatten recSize (Nat.le_refl _))⟩
  · rw [if_neg records]
    exact exists_chars fun member => records (.inr member)

end Item

/-- What a station has read of a record, what is still under way to it, and the text in that. -/
inductive Carries (conn : NetConn) : List Byte → List Byte → Prop
  | escape (queue : List Item) (cmdstate : conn.cmdstate = .escapeExp) (rest : conn.rest = []) :
      Carries conn (queue.flatMap Item.bytes) (queue.flatMap Item.text)
  | hibyte (record : Record) (small : record.args.length < 256 * 256) (queue : List Item)
      (cmdstate : conn.cmdstate = .hibyteExp) (rest : conn.rest = []) :
      Carries conn ((NetConn.record record.ctrl record.args).drop 1 ++ queue.flatMap Item.bytes)
        (record.text ++ queue.flatMap Item.text)
  | lobyte (record : Record) (small : record.args.length < 256 * 256) (queue : List Item)
      (cmdstate : conn.cmdstate = .lobyteExp)
      (count : conn.count = record.args.length / 256 * 256) (rest : conn.rest = []) :
      Carries conn ((NetConn.record record.ctrl record.args).drop 2 ++ queue.flatMap Item.bytes)
        (record.text ++ queue.flatMap Item.text)
  | ctrl (record : Record) (queue : List Item) (cmdstate : conn.cmdstate = .ctrlExp)
      (count : conn.count = record.args.length) (rest : conn.rest = []) :
      Carries conn ((NetConn.record record.ctrl record.args).drop 3 ++ queue.flatMap Item.bytes)
        (record.text ++ queue.flatMap Item.text)
  | within (payload : List Byte) (queue : List Item) (cmdstate : conn.cmdstate = .withinData)
      (count : conn.count + 1 = payload.length) (rest : conn.rest = []) :
      Carries conn (payload ++ queue.flatMap Item.bytes) (payload ++ queue.flatMap Item.text)
  | option (op : Op) (args : List Byte) (queue : List Item)
      (cmdstate : conn.cmdstate = .optionExp op) (count : conn.count + 1 = args.length) :
      Carries conn (args ++ queue.flatMap Item.bytes) (queue.flatMap Item.text)
  | mode (request : Bool) (code : Byte) (queue : List Item)
      (cmdstate : conn.cmdstate = .modeExp request) (rest : conn.rest = []) :
      Carries conn (code :: queue.flatMap Item.bytes) (queue.flatMap Item.text)

namespace Carries

variable {conn : NetConn} {line text : List Byte}

theorem append (carries : Carries conn line text) (more : List Item) :
    Carries conn (line ++ more.flatMap Item.bytes) (text ++ more.flatMap Item.text) := by
  cases carries with
  | escape queue cmdstate rest =>
    rw [← List.flatMap_append, ← List.flatMap_append]
    exact .escape _ cmdstate rest
  | hibyte record small queue cmdstate rest =>
    rw [List.append_assoc, List.append_assoc, ← List.flatMap_append, ← List.flatMap_append]
    exact .hibyte record small _ cmdstate rest
  | lobyte record small queue cmdstate count rest =>
    rw [List.append_assoc, List.append_assoc, ← List.flatMap_append, ← List.flatMap_append]
    exact .lobyte record small _ cmdstate count rest
  | ctrl record queue cmdstate count rest =>
    rw [List.append_assoc, List.append_assoc, ← List.flatMap_append, ← List.flatMap_append]
    exact .ctrl record _ cmdstate count rest
  | within payload queue cmdstate count rest =>
    rw [List.append_assoc, List.append_assoc, ← List.flatMap_append, ← List.flatMap_append]
    exact .within payload _ cmdstate count rest
  | option op args queue cmdstate count =>
    rw [List.append_assoc, ← List.flatMap_append, ← List.flatMap_append]
    exact .option op args _ cmdstate count
  | mode request code queue cmdstate rest =>
    rw [List.cons_append, ← List.flatMap_append, ← List.flatMap_append]
    exact .mode request code _ cmdstate rest

theorem congr (carries : Carries conn line text) {after : NetConn}
    (cmdstate : after.cmdstate = conn.cmdstate) (count : after.count = conn.count)
    (rest : after.rest = conn.rest) : Carries after line text := by
  cases carries with
  | escape queue isState isRest =>
    exact .escape queue (cmdstate.trans isState) (rest.trans isRest)
  | hibyte record small queue isState isRest =>
    exact .hibyte record small queue (cmdstate.trans isState) (rest.trans isRest)
  | lobyte record small queue isState isCount isRest =>
    exact .lobyte record small queue (cmdstate.trans isState) (count.trans isCount)
      (rest.trans isRest)
  | ctrl record queue isState isCount isRest =>
    exact .ctrl record queue (cmdstate.trans isState) (count.trans isCount) (rest.trans isRest)
  | within payload queue isState isCount isRest =>
    exact .within payload queue (cmdstate.trans isState)
      ((congrArg (· + 1) count).trans isCount) (rest.trans isRest)
  | option op args queue isState isCount =>
    exact .option op args queue (cmdstate.trans isState) ((congrArg (· + 1) count).trans isCount)
  | mode request code queue isState isRest =>
    exact .mode request code queue (cmdstate.trans isState) (rest.trans isRest)

theorem empty (carries : Carries conn [] text) : text = [] := by
  generalize none : ([] : List Byte) = line at carries
  cases carries with
  | escape queue cmdstate rest =>
    cases queue with
    | nil => rfl
    | cons item queue => cases item <;> cases none
  | hibyte record small queue cmdstate rest => cases none
  | lobyte record small queue cmdstate count rest => cases none
  | ctrl record queue cmdstate count rest => cases none
  | within payload queue cmdstate count rest =>
    rw [(List.append_eq_nil_iff.mp none.symm).1, List.length_nil] at count
    omega
  | option op args queue cmdstate count =>
    rw [(List.append_eq_nil_iff.mp none.symm).1, List.length_nil] at count
    omega
  | mode request code queue cmdstate rest => cases none

end Carries

/-! ### One byte -/

open NetConn

/-- What a byte does: `left` is the text that is still under way, `out` goes to the user, and
`answers` to the net. -/
structure Hears (conn after : NetConn) (line text left out answers : List Byte) : Prop where
  carries : Carries after line left
  toUsrBuf : after.toUsrBuf = conn.toUsrBuf.puts out
  shown : out ++ strip conn.usingPty after.toUsrCr left = strip conn.usingPty conn.toUsrCr text
  pending : pending after.toUsrCr left = pending conn.toUsrCr text
  toNetBuf : after.toNetBuf = conn.toNetBuf.puts answers
  silent : answers.length < 256 * 256 →
    ∃ items : List Item, items.flatMap Item.bytes = answers ∧ items.flatMap Item.text = []
  fmNetBuf : after.fmNetBuf = conn.fmNetBuf
  usingPty : after.usingPty = conn.usingPty
  inSynCnt : after.inSynCnt ≤ conn.inSynCnt
  toNetCr : after.toNetCr = conn.toNetCr

theorem silent_record {record : Record} (none : record.text = [])
    (small : (NetConn.record record.ctrl record.args).length < 256 * 256) :
    ∃ items : List Item, items.flatMap Item.bytes = NetConn.record record.ctrl record.args ∧
      items.flatMap Item.text = [] := by
  rw [length_record] at small
  refine ⟨[.whole record (by omega)], List.flatMap_singleton .., ?_⟩
  rw [List.flatMap_singleton]
  exact none

theorem silent_nil : ∃ items : List Item, items.flatMap Item.bytes = [] ∧
    items.flatMap Item.text = [] :=
  ⟨[], rfl, rfl⟩

section

variable {conn : NetConn} {line text : List Byte}

theorem hears_machine {after : NetConn} (carries : Carries after line text)
    (toUsrBuf : after.toUsrBuf = conn.toUsrBuf) (toUsrCr : after.toUsrCr = conn.toUsrCr)
    (toNetBuf : after.toNetBuf = conn.toNetBuf) (fmNetBuf : after.fmNetBuf = conn.fmNetBuf)
    (usingPty : after.usingPty = conn.usingPty) (inSynCnt : after.inSynCnt ≤ conn.inSynCnt)
    (toNetCr : after.toNetCr = conn.toNetCr) : Hears conn after line text text [] [] where
  carries := carries
  toUsrBuf := toUsrBuf
  shown := by rw [toUsrCr, List.nil_append]
  pending := by rw [toUsrCr]
  toNetBuf := toNetBuf
  silent := fun _ => silent_nil
  fmNetBuf := fmNetBuf
  usingPty := usingPty
  inSynCnt := inSynCnt
  toNetCr := toNetCr

variable {c : Byte} {queue : List Item}

theorem hears_char (bin : conn.toUsrBin = false) {cmdstate : CmdState} {count : Nat}
    (carries : Carries { conn.userChar c with cmdstate := cmdstate, count := count } line text) :
    Hears conn { conn.userChar c with cmdstate := cmdstate, count := count } line (c :: text) text
      (strip conn.usingPty conn.toUsrCr [c]) [] := by
  rw [userChar_eq bin] at *
  exact {
    carries := carries
    toUsrBuf := rfl
    shown := (strip_append conn.usingPty conn.toUsrCr [c] text).symm
    pending := rfl
    toNetBuf := rfl
    silent := fun _ => silent_nil
    fmNetBuf := rfl
    usingPty := rfl
    inSynCnt := Int.le_refl _
    toNetCr := rfl }

theorem hears_record {after : NetConn} {record : Record} (none : record.text = [])
    (sends : Sends conn after (NetConn.record record.ctrl record.args)) {cmdstate : CmdState}
    {rest : List Byte} (carries : Carries { after with cmdstate := cmdstate, rest := rest } line text) :
    Hears conn { after with cmdstate := cmdstate, rest := rest } line text text []
      (NetConn.record record.ctrl record.args) where
  carries := carries
  toUsrBuf := sends.kept.toUsrBuf
  shown := congrArg (strip conn.usingPty · text) sends.kept.toUsrCr
  pending := congrArg (NetConn.pending · text) sends.kept.toUsrCr
  toNetBuf := sends.toNetBuf
  silent := silent_record none
  fmNetBuf := sends.kept.fmNetBuf
  usingPty := sends.kept.usingPty
  inSynCnt := Int.le_of_eq sends.kept.inSynCnt
  toNetCr := sends.kept.toNetCr

/-- The controls that stand for a character or ask for text. -/
def spoken : List Byte := [breakCode, aytCode, ipCode, ecCode, elCode]

theorem hears_other {ctrl : Byte} (isOther : ctrl ∉ [dataCode, repeatCode,
      setModeCode, requestModeCode, willCode, doCode, wontCode, dontCode]) (silent : ctrl ∉ spoken)
    (falls : ctrl = dmCode → conn.inSynCnt ≠ -32768) (cmdstate : conn.cmdstate = .ctrlExp)
    (rest : conn.rest = []) :
    ∃ answers, Hears conn (conn.netChar ctrl) (queue.flatMap Item.bytes)
      (queue.flatMap Item.text) (queue.flatMap Item.text) [] answers := by
  simp only [spoken, List.mem_cons, List.not_mem_nil, or_false, not_or] at isOther silent
  obtain ⟨notData, notRepeat, notSet, notRequest, notWill, notDo, notWont, notDont⟩ := isOther
  obtain ⟨notBreak, notAyt, notIp, notEc, notEl⟩ := silent
  rw [netChar_ctrl cmdstate]
  unfold netCtrl
  rw [if_neg notData, if_neg notRepeat, if_neg notSet, if_neg notRequest]
  by_cases isSuspend : ctrl = suspendCode
  · rw [if_pos isSuspend, settle_escape]
    have sends := (sends_remState conn .susp).trans (sends_putNet _ (record suspendedCode []))
    have noText : (Record.other suspendedCode (by decide)).text = [] := rfl
    exact ⟨_, hears_record noText sends (.escape queue rfl (sends.kept.rest.trans rest))⟩
  · refine ⟨[], ?_⟩
    rw [if_neg isSuspend, if_neg notWill, if_neg notDo, if_neg notWont, if_neg notDont,
      if_neg notBreak, if_neg notAyt, if_neg notIp, if_neg notEc, if_neg notEl]
    by_cases isSuspended : ctrl = suspendedCode
    · rw [if_pos isSuspended, settle_escape]
      by_cases susping : conn.locState = .susping
      · rw [if_pos susping]
        exact hears_machine (.escape queue rfl rest) rfl rfl rfl rfl rfl (Int.le_refl _) rfl
      · rw [if_neg susping]
        exact hears_machine (.escape queue rfl rest) rfl rfl rfl rfl rfl (Int.le_refl _) rfl
    · rw [if_neg isSuspended]
      by_cases isContinue : ctrl = continueCode
      · rw [if_pos isContinue, settle_escape]
        by_cases susp : conn.remState = .susp
        · rw [if_pos susp]
          exact hears_machine (.escape queue rfl rest) rfl rfl rfl rfl rfl (Int.le_refl _) rfl
        · rw [if_neg susp]
          exact hears_machine (.escape queue rfl rest) rfl rfl rfl rfl rfl (Int.le_refl _) rfl
      · rw [if_neg isContinue]
        by_cases isDm : ctrl = dmCode
        · rw [if_pos isDm, settle_escape]
          exact hears_machine (.escape queue rfl rest) rfl rfl rfl rfl rfl
            (show downCnt conn.inSynCnt ≤ conn.inSynCnt by
              unfold downCnt
              rw [if_neg (falls isDm)]
              omega) rfl
        · rw [if_neg isDm, settle_escape]
          exact hears_machine (.escape queue rfl rest) rfl rfl rfl rfl rfl (Int.le_refl _) rfl

theorem hears_ctrl {read : Record} (silent : read.ctrl ∉ spoken)
    (falls : read.ctrl = dmCode → conn.inSynCnt ≠ -32768) (cmdstate : conn.cmdstate = .ctrlExp) (count : conn.count = read.args.length)
    (rest : conn.rest = []) :
    ∃ answers, Hears conn (conn.netChar read.ctrl) (read.args ++ queue.flatMap Item.bytes)
      (read.text ++ queue.flatMap Item.text) (read.text ++ queue.flatMap Item.text) [] answers := by
  have counted : ∀ rstate, CmdState.past rstate = true → read.args ≠ [] →
      conn.settle rstate = { conn with count := conn.count - 1, cmdstate := rstate } ∧
        conn.count - 1 + 1 = read.args.length := by
    intro rstate past some
    have positive := List.length_pos_iff.mpr some
    exact ⟨settle_count past (by omega), by omega⟩
  cases read with
  | other ctrl isOther => exact hears_other isOther silent falls cmdstate rest
  | data payload some =>
    obtain ⟨settled, left⟩ := counted .withinData rfl some
    rw [netChar_ctrl cmdstate]
    show ∃ answers, Hears conn (conn.settle .withinData) _ _ _ [] answers
    rw [settled]
    exact ⟨[], hears_machine (.within payload queue rfl left rest) rfl rfl rfl rfl rfl
      (Int.le_refl _) rfl⟩
  | option op args some =>
    obtain ⟨settled, left⟩ := counted (.optionExp op) rfl some
    have isOption : conn.netCtrl op.ctrl = (conn, .optionExp op) := by cases op <;> rfl
    rw [netChar_ctrl cmdstate]
    show ∃ answers, Hears conn ((conn.netCtrl op.ctrl).1.settle (conn.netCtrl op.ctrl).2) _ _ _ []
      answers
    rw [isOption, settled]
    exact ⟨[], hears_machine (.option op args queue rfl left) rfl rfl rfl rfl rfl
      (Int.le_refl _) rfl⟩
  | mode request code =>
    obtain ⟨settled, left⟩ := counted (.modeExp request) rfl (List.cons_ne_nil code [])
    have isMode : conn.netCtrl (Record.mode request code).ctrl = (conn, .modeExp request) := by
      cases request <;> rfl
    rw [netChar_ctrl cmdstate, isMode, settled]
    exact ⟨[], hears_machine (.mode request code queue rfl rest) rfl rfl rfl rfl rfl
      (Int.le_refl _) rfl⟩

theorem hears_plain (plain : c ≠ iac) (bin : conn.toUsrBin = false) (calm : conn.inSynCnt ≤ 0)
    (cmdstate : conn.cmdstate = .escapeExp) (rest : conn.rest = []) :
    Hears conn (conn.netChar c) (queue.flatMap Item.bytes) (c :: queue.flatMap Item.text)
      (queue.flatMap Item.text) (strip conn.usingPty conn.toUsrCr [c]) [] := by
  have isNext : conn.netChar c = (conn.userChar c).settle .escapeExp := by
    unfold netChar
    rw [cmdstate]
    dsimp only
    rw [if_pos plain, if_pos calm]
  rw [isNext, settle_escape]
  have keeps : (conn.userChar c).rest = conn.rest := by rw [userChar_eq bin]
  exact hears_char bin (.escape queue rfl (keeps.trans rest))

theorem hears_within {payload : List Byte} (bin : conn.toUsrBin = false)
    (cmdstate : conn.cmdstate = .withinData) (count : conn.count = payload.length)
    (rest : conn.rest = []) :
    Hears conn (conn.netChar c) (payload ++ queue.flatMap Item.bytes)
      (c :: (payload ++ queue.flatMap Item.text)) (payload ++ queue.flatMap Item.text)
      (strip conn.usingPty conn.toUsrCr [c]) [] := by
  have isNext : conn.netChar c = (conn.userChar c).settle .withinData := by
    unfold netChar
    rw [cmdstate]
  have keeps : (conn.userChar c).rest = conn.rest ∧ (conn.userChar c).count = conn.count := by
    rw [userChar_eq bin]
    exact ⟨rfl, rfl⟩
  rw [isNext]
  cases payload with
  | nil =>
    have none : (conn.userChar c).count = 0 := keeps.2.trans count
    unfold settle
    rw [if_pos rfl, if_pos none]
    exact hears_char bin (.escape queue rfl (keeps.1.trans rest))
  | cons first others =>
    rw [List.length_cons] at count
    rw [settle_count rfl (by omega), keeps.2]
    exact hears_char bin (.within (first :: others) queue rfl
      (show conn.count - 1 + 1 = others.length + 1 by omega) (keeps.1.trans rest))

theorem hears_option {op : Op} {args : List Byte} (cmdstate : conn.cmdstate = .optionExp op)
    (count : conn.count = args.length) :
    ∃ answers, Hears conn (conn.netChar c) (args ++ queue.flatMap Item.bytes)
      (queue.flatMap Item.text) (queue.flatMap Item.text) [] answers := by
  have some : (if conn.rest.length < 16 then conn.rest ++ [c] else conn.rest) ≠ [] := by
    split
    next => exact List.append_ne_nil_of_right_ne_nil _ (List.cons_ne_nil c [])
    next full =>
      intro none
      rw [none] at full
      exact full (by decide)
  rw [netChar_option cmdstate]
  unfold netOption
  dsimp only
  revert some
  generalize (if conn.rest.length < 16 then conn.rest ++ [c] else conn.rest) = more
  intro some
  cases args with
  | nil =>
    rw [List.length_nil] at count
    rw [if_pos count, settle_escape]
    rcases sends_negotiate { conn with rest := more } false op more with sends | ⟨op', sends⟩
    · exact ⟨[], hears_machine (.escape queue rfl rfl) sends.kept.toUsrBuf sends.kept.toUsrCr
        sends.toNetBuf sends.kept.fmNetBuf sends.kept.usingPty
        (Int.le_of_eq sends.kept.inSynCnt) sends.kept.toNetCr⟩
    · have hears := @hears_record _ _ _ _ (.option op' more some) rfl sends _ []
        (.escape queue rfl rfl)
      exact ⟨_, { hears with }⟩
  | cons first others =>
    rw [List.length_cons] at count
    rw [if_neg (by omega)]
    have settled : ({ conn with rest := more } : NetConn).settle (.optionExp op) =
        { conn with rest := more, count := conn.count - 1, cmdstate := .optionExp op } :=
      settle_count rfl (show conn.count ≠ 0 by omega)
    show ∃ answers, Hears conn (({ conn with rest := more } : NetConn).settle (.optionExp op)) _ _ _
      [] answers
    rw [settled]
    exact ⟨[], hears_machine (.option op (first :: others) queue rfl
      (show conn.count - 1 + 1 = others.length + 1 by omega)) rfl rfl rfl rfl rfl (Int.le_refl _) rfl⟩

theorem hears_mode {request : Bool} (c : Byte) (cmdstate : conn.cmdstate = .modeExp request)
    (rest : conn.rest = []) :
    ∃ answers, Hears conn (conn.netChar c) (queue.flatMap Item.bytes)
      (queue.flatMap Item.text) (queue.flatMap Item.text) [] answers := by
  unfold netChar
  rw [cmdstate]
  cases request with
  | false =>
    exact ⟨[], hears_machine (.escape queue rfl rest) rfl rfl rfl rfl rfl (Int.le_refl _) rfl⟩
  | true =>
    dsimp only
    rw [settle_escape]
    have sends := (sends_xMode conn (XMode.ofByte c)).trans (sends_putNet _ (record setModeCode [c]))
    rw [List.nil_append] at sends
    have isCtrl : setModeCode = (Record.mode false c).ctrl := rfl
    rw [isCtrl] at sends
    show ∃ answers, Hears conn { ({ conn with xMode := XMode.ofByte c } : NetConn).putNet
      (record (Record.mode false c).ctrl [c]) with cmdstate := .escapeExp } _ _ _ [] answers
    revert sends
    generalize ({ conn with xMode := XMode.ofByte c } : NetConn).putNet
      (record (Record.mode false c).ctrl [c]) = after
    intro sends
    have noText : (Record.mode false c).text = [] := rfl
    exact ⟨_, hears_record noText sends (.escape queue rfl (sends.kept.rest.trans rest))⟩

theorem Carries.hears (carries : Carries conn (c :: line) text) (bin : conn.toUsrBin = false)
    (calm : conn.inSynCnt ≤ 0)
    (silent : conn.cmdstate = .ctrlExp →
      c ∉ spoken ∧ (c = dmCode → conn.inSynCnt ≠ -32768)) :
    ∃ left out answers, Hears conn (conn.netChar c) line text left out answers := by
  generalize isLine : c :: line = whole at carries
  cases carries with
  | escape queue cmdstate rest =>
    cases queue with
    | nil => cases isLine
    | cons item queue =>
      cases item with
      | char c plain =>
        obtain ⟨rfl, rfl⟩ := List.cons.inj isLine
        exact ⟨_, _, _, hears_plain plain bin calm cmdstate rest⟩
      | whole record small =>
        obtain ⟨rfl, rfl⟩ := List.cons.inj isLine
        rw [netChar_iac cmdstate]
        exact ⟨_, [], [], hears_machine (.hibyte record small queue rfl rest) rfl rfl rfl rfl rfl
          (Int.le_refl _) rfl⟩
  | hibyte record small queue cmdstate rest =>
    obtain ⟨rfl, rfl⟩ := List.cons.inj isLine
    have high : (BitVec.ofNat 8 (record.args.length / 256)).toNat = record.args.length / 256 := by
      rw [BitVec.toNat_ofNat]
      omega
    rw [netChar_hibyte cmdstate, high]
    exact ⟨_, [], [], hears_machine (.lobyte record small queue rfl rfl rest) rfl rfl rfl rfl rfl
      (Int.le_refl _) rfl⟩
  | lobyte record small queue cmdstate count rest =>
    obtain ⟨rfl, rfl⟩ := List.cons.inj isLine
    have counted : conn.count + (BitVec.ofNat 8 record.args.length).toNat = record.args.length := by
      rw [count, BitVec.toNat_ofNat]
      omega
    rw [netChar_lobyte cmdstate, counted]
    exact ⟨_, [], [], hears_machine (.ctrl record queue rfl rfl rest) rfl rfl rfl rfl rfl
      (Int.le_refl _) rfl⟩
  | ctrl record queue cmdstate count rest =>
    obtain ⟨rfl, rfl⟩ := List.cons.inj isLine
    exact ⟨_, _, hears_ctrl (silent cmdstate).1 (silent cmdstate).2 cmdstate count rest⟩
  | within payload queue cmdstate count rest =>
    cases payload with
    | nil => cases count
    | cons first others =>
      obtain ⟨rfl, rfl⟩ := List.cons.inj isLine
      exact ⟨_, _, _, hears_within bin cmdstate (Nat.succ.inj count) rest⟩
  | option op args queue cmdstate count =>
    cases args with
    | nil => cases count
    | cons first others =>
      obtain ⟨rfl, rfl⟩ := List.cons.inj isLine
      exact ⟨_, _, hears_option cmdstate (Nat.succ.inj count)⟩
  | mode request code queue cmdstate rest =>
    obtain ⟨rfl, rfl⟩ := List.cons.inj isLine
    exact ⟨_, [], hears_mode c cmdstate rest⟩

end

/-! ### Writing -/

/-- No disposition and no binary option is in effect. -/
def NetConn.Plain (conn : NetConn) : Prop :=
  (∀ opnum ∈ [optCrDisp, optLfDisp, optFfDisp, optHtDisp, optVtDisp], conn.action opnum = 0) ∧
    conn.toNetBin = false ∧ conn.toUsrBin = false

instance (conn : NetConn) : Decidable conn.Plain := inferInstanceAs (Decidable (_ ∧ _))

theorem optnum_mem {c : Byte} {opnum : Nat} (isOptnum : optnum c = some opnum) :
    opnum ∈ [optCrDisp, optLfDisp, optFfDisp, optHtDisp, optVtDisp] := by
  unfold optnum at isOptnum
  repeat' split at isOptnum
  all_goals cases isOptnum
  all_goals decide

variable {conn : NetConn}

theorem sendLoop_plain (crlf : NetConn → NetConn) (obuf buf : List Byte)
    (plain : ∀ opnum ∈ [optCrDisp, optLfDisp, optFfDisp, optHtDisp, optVtDisp],
      conn.action opnum = 0) :
    sendLoop crlf conn obuf buf = if obuf ++ buf = [] then conn else conn.netBuf (obuf ++ buf) := by
  induction buf generalizing obuf with
  | nil =>
    rw [List.append_nil]
    rfl
  | cons c rest inductionHypothesis =>
    have kept : sendLoop crlf conn (obuf ++ [c]) rest =
        if obuf ++ c :: rest = [] then conn else conn.netBuf (obuf ++ c :: rest) := by
      rw [inductionHypothesis, List.append_assoc, List.singleton_append]
    unfold sendLoop
    cases isOptnum : optnum c with
    | none => exact kept
    | some opnum =>
      have none := plain opnum (optnum_mem isOptnum)
      dsimp only
      rw [none, if_neg (by decide), if_neg fun both => absurd both.1 (by decide),
        if_neg fun other => other rfl]
      exact kept

theorem sendBuf_plain (plain : conn.Plain) (buf : List Byte) :
    conn.sendBuf buf = conn.putNet (netText conn.xMode conn.recSize buf) := by
  unfold sendBuf
  rw [sendLoop_plain _ _ _ plain.1, List.nil_append, netBuf_eq]
  split
  next none =>
    rw [none, netText_nil]
    rfl
  next => rfl

theorem process_plain (plain : conn.Plain) (piece : List Byte) :
    conn.process piece = conn.putNet (netText conn.xMode conn.recSize (processed false piece)) := by
  unfold process
  split
  next none =>
    rw [none]
    show conn = conn.putNet (netText conn.xMode conn.recSize [])
    rw [netText_nil]
    rfl
  next => rw [plain.2.1, sendBuf_plain plain]

theorem servproc_plain (plain : conn.Plain) (piece : List Byte) :
    conn.servproc piece =
      ({ conn with toNetCr := (served false conn.toNetCr piece).2 } : NetConn).putNet
        (netText conn.xMode conn.recSize (served false conn.toNetCr piece).1) := by
  have isServed : served conn.toNetBin conn.toNetCr piece = served false conn.toNetCr piece := by
    rw [plain.2.1]
  have stays : ({ conn with toNetCr := (served false conn.toNetCr piece).2 } : NetConn).Plain := plain
  unfold servproc
  dsimp only
  rw [isServed]
  cases piece with
  | nil =>
    show conn = conn.putNet (netText conn.xMode conn.recSize [])
    rw [netText_nil]
    rfl
  | cons c rest =>
    have some : (served false conn.toNetCr (c :: rest)).1 ≠ [] := by
      unfold served
      dsimp only
      split <;> exact List.cons_ne_nil _ _
    rw [if_neg some]
    exact sendBuf_plain stays _

/-- What a station does of its own: it takes `piece` from its user and writes `sent`. -/
structure Utters (conn after : NetConn) (piece sent : List Byte) : Prop where
  usingPty : after.usingPty = conn.usingPty
  inSynCnt : after.inSynCnt = conn.inSynCnt
  toUsrCr : after.toUsrCr = conn.toUsrCr
  toUsrBuf : after.toUsrBuf = conn.toUsrBuf
  fmNetBuf : after.fmNetBuf = conn.fmNetBuf
  cmdstate : after.cmdstate = conn.cmdstate
  count : after.count = conn.count
  rest : after.rest = conn.rest
  toNetBuf : after.toNetBuf = conn.toNetBuf.puts sent
  toNetCr : conn.usingPty = false → after.toNetCr = conn.toNetCr
  said : sent.length < 256 * 256 → (conn.usingPty = false → conn.toNetCr = false) →
    ∃ items : List Item, items.flatMap Item.bytes = sent ∧
      strip (!conn.usingPty) conn.toNetCr (items.flatMap Item.text) = piece ∧
      pending conn.toNetCr (items.flatMap Item.text) = after.toNetCr

theorem utters_sends {after : NetConn} {sent : List Byte} (sends : Sends conn after sent)
    (silent : sent.length < 256 * 256 → ∃ items : List Item, items.flatMap Item.bytes = sent ∧
      items.flatMap Item.text = []) : Utters conn after [] sent where
  usingPty := sends.kept.usingPty
  inSynCnt := sends.kept.inSynCnt
  toUsrCr := sends.kept.toUsrCr
  toUsrBuf := sends.kept.toUsrBuf
  fmNetBuf := sends.kept.fmNetBuf
  cmdstate := sends.kept.cmdstate
  count := sends.kept.count
  rest := sends.kept.rest
  toNetBuf := sends.toNetBuf
  toNetCr := fun _ => sends.kept.toNetCr
  said := by
    intro small _
    obtain ⟨items, isBytes, none⟩ := silent small
    refine ⟨items, isBytes, ?_⟩
    rw [none]
    exact ⟨rfl, sends.kept.toNetCr.symm⟩

theorem utters_fromUser (plain : conn.Plain) (piece : List Byte) :
    ∃ sent, Utters conn (conn.fromUser piece) piece sent := by
  unfold fromUser
  cases isPty : conn.usingPty with
  | false =>
    rw [if_neg Bool.false_ne_true]
    rw [process_plain plain]
    refine ⟨_, rfl, rfl, rfl, rfl, rfl, rfl, rfl, rfl, rfl, fun _ => rfl, ?_⟩
    intro small none
    obtain ⟨items, isBytes, isText⟩ := Item.exists_netText small
    refine ⟨items, isBytes, ?_⟩
    have same := strip_processed piece
    rw [isText, isPty, none isPty]
    exact ⟨same.1, same.2.trans (none isPty).symm⟩
  | true =>
    rw [if_pos rfl]
    rw [servproc_plain plain]
    refine ⟨_, rfl, rfl, rfl, rfl, rfl, rfl, rfl, rfl, rfl, fun isUser => ?_, ?_⟩
    · rw [isPty] at isUser
      cases isUser
    · intro small _
      obtain ⟨items, isBytes, isText⟩ := Item.exists_netText small
      refine ⟨items, isBytes, ?_⟩
      rw [isText, isPty]
      exact strip_served conn.toNetCr piece

theorem silent_controls (ctrls : List Byte) (others : ∀ ctrl ∈ ctrls, ctrl ∉ [dataCode, repeatCode,
      setModeCode, requestModeCode, willCode, doCode, wontCode, dontCode]) :
    ∃ items : List Item, items.flatMap Item.bytes = ctrls.flatMap (record · []) ∧
      items.flatMap Item.text = [] := by
  induction ctrls with
  | nil => exact silent_nil
  | cons ctrl rest inductionHypothesis =>
    obtain ⟨items, isBytes, isText⟩ := inductionHypothesis fun other member =>
      others other (List.mem_cons_of_mem ctrl member)
    refine ⟨.whole (.other ctrl (others ctrl List.mem_cons_self)) (by decide : 0 < 256 * 256) :: items,
      ?_, ?_⟩
    · rw [List.flatMap_cons, List.flatMap_cons, isBytes]
      rfl
    · rw [List.flatMap_cons, isText]
      rfl

theorem utters_netsend (conn : NetConn) (arg : Byte) :
    ∃ sent, Utters conn (conn.netsend arg) [] sent := by
  have other : ∀ {after : NetConn} (ctrls : List Byte), Sends conn after (ctrls.flatMap (record · [])) →
      (∀ ctrl ∈ ctrls, ctrl ∉ [dataCode, repeatCode, setModeCode, requestModeCode, willCode, doCode,
        wontCode, dontCode]) → ∃ sent, Utters conn after [] sent :=
    fun ctrls sends others => ⟨_, utters_sends sends fun _ => silent_controls ctrls others⟩
  unfold netsend
  split
  next => exact other [suspendCode] ((sends_putNet conn _).still (sends_locState _ _)) (by decide)
  next =>
    split
    next => exact other [continueCode] ((sends_putNet conn _).still (sends_locState _ _)) (by decide)
    next =>
      split
      next urgent =>
        refine other [arg, dmCode] ((sends_putNet conn (record arg [])).trans (sends_sendSynch _)) ?_
        intro ctrl member
        rcases List.mem_cons.mp member with rfl | last
        · rcases urgent with rfl | rfl | rfl <;> decide
        · rw [List.mem_singleton.mp last]
          decide
      next =>
        split
        next plain =>
          refine other [arg] (sends_putNet conn (record arg [])) ?_
          intro ctrl member
          rw [List.mem_singleton.mp member]
          rcases plain with rfl | rfl | rfl <;> decide
        next =>
          split
          next => exact other [dmCode] (sends_sendSynch conn) (by decide)
          next => exact other [] (.refl conn) (fun _ member => absurd member List.not_mem_nil)

theorem utters_modeCmd (conn : NetConn) (op : Op) (mode : XMode) :
    ∃ sent, Utters conn (conn.modeCmd op mode) [] sent := by
  have one : ∀ {after : NetConn} (request : Bool), Sends conn after
      (record (Record.mode request mode.code).ctrl [mode.code]) → ∃ sent, Utters conn after [] sent :=
    fun request sends => ⟨_, utters_sends sends (silent_record rfl)⟩
  have sets : Sends conn { conn.sendCtrl setModeCode [mode.code] with xMode := mode }
      (record setModeCode [mode.code]) := (sends_putNet conn _).still (sends_xMode _ mode)
  have asks : Sends conn (conn.sendCtrl requestModeCode [mode.code])
      (record requestModeCode [mode.code]) := sends_putNet conn _
  cases op with
  | will => exact one false sets
  | wont => exact one false sets
  | do_ => exact one true asks
  | dont => exact one true asks

theorem utters_negotiate (conn : NetConn) (op : Op) {args : List Byte} (some : args ≠ []) :
    ∃ sent, Utters conn (conn.negotiate true op args) [] sent := by
  rcases sends_negotiate conn true op args with sends | ⟨op', sends⟩
  · exact ⟨[], utters_sends sends fun _ => silent_nil⟩
  · exact ⟨_, utters_sends sends (@silent_record (.option op' args some) rfl)⟩

/-! ### Two stations -/

/-- A user and a server, the bytes under way to each, what each has shown its user, and what was
typed at each. -/
structure Pair where
  station : Bool → NetConn
  wire : Bool → List Byte
  shown : Bool → List Byte
  typed : Bool → List Byte

namespace Pair

/-- What may happen at a station. -/
inductive Event
  | text (side : Bool) (piece : List Byte)
  | control (side : Bool) (arg : Byte)
  | option (side : Bool) (op : Op) (args : List Byte)
  | mode (side : Bool) (op : Op) (mode : XMode)
  | toNet (side : Bool) (urgent normal : Bool)
  | fromNet (side : Bool) (nread : Nat) (urgFlag : Bool)
  | netCmd (side : Bool)
  | toUser (side : Bool) (nwrite : Nat)

/-- An urgent notice is read. -/
def Event.urgFlag : Event → Bool
  | .fromNet _ _ urgFlag => urgFlag
  | _ => false

/-- A user and a server, with any size of records. -/
def start (user server : Host) (recSize : Bool → Int) : Pair where
  station side :=
    { NetConn.alloc (if side then server else user) side with recSize := recSize side }
  wire _ := []
  shown _ := []
  typed _ := []

/-- A station has moved on: `wire` is left of what is under way to it, and it has sent, shown and
taken from its user what is given. -/
def move (s : Pair) (side : Bool) (conn : NetConn) (wire sent shown typed : List Byte) : Pair where
  station := Function.update s.station side conn
  wire := Function.update (Function.update s.wire side wire) (!side) (s.wire (!side) ++ sent)
  shown := Function.update s.shown side (s.shown side ++ shown)
  typed := Function.update s.typed side (s.typed side ++ typed)

/-- The effect of an event, if it can happen. -/
def act (s : Pair) : Event → Option Pair
  | .text side piece =>
    some (s.move side ((s.station side).fromUser piece) (s.wire side) [] [] piece)
  | .control side arg => some (s.move side ((s.station side).netsend arg) (s.wire side) [] [] [])
  | .option side op args =>
    if args = [] then none
    else some (s.move side ((s.station side).negotiate true op args) (s.wire side) [] [] [])
  | .mode side op mode =>
    some (s.move side ((s.station side).modeCmd op mode) (s.wire side) [] [] [])
  | .toNet side urgent normal =>
    let out := (s.station side).toNet urgent normal
    some (s.move side out.1 (s.wire side) out.2 [] [])
  | .fromNet side nread urgFlag =>
    if nread ≤ (s.station side).fromNetReq ∧ nread ≤ (s.wire side).length then
      some (s.move side ((s.station side).fromNet ((s.wire side).take nread) urgFlag)
        ((s.wire side).drop nread) [] [] [])
    else none
  | .netCmd side =>
    match (s.station side).netCmd with
    | none => none
    | some conn => some (s.move side conn (s.wire side) [] [] [])
  | .toUser side nwrite =>
    let out := (s.station side).toUser nwrite
    some (s.move side out.1 (s.wire side) [] out.2 [])

/-- What a station has got for its user. -/
def got (s : Pair) (side : Bool) : List Byte := s.shown side ++ (s.station side).toUsrBuf.bytes

/-- What is under way to a station. -/
def under (s : Pair) (side : Bool) : List Byte :=
  (s.station side).fmNetBuf.bytes ++ s.wire side ++ (s.station (!side)).toNetBuf.bytes

/-- A station has got the beginning of what was typed at the other, and all of it if nothing is
under way. -/
def Clear (s : Pair) : Prop :=
  ∀ side, s.got side <+: s.typed (!side) ∧ (s.under side = [] → s.got side = s.typed (!side))

end Pair

/-- No buffer was full for a character. -/
def NetConn.Roomy (conn : NetConn) : Prop :=
  conn.toNetBuf.flushed = 0 ∧ conn.toUsrBuf.flushed = 0 ∧ conn.fmNetBuf.flushed = 0

instance (conn : NetConn) : Decidable conn.Roomy := inferInstanceAs (Decidable (_ ∧ _))

namespace Pair

/-- There is no disposition and no binary option, no urgent notice is read, and no buffer is full
for a character. -/
def Bare (s : Pair) (e : Event) : Prop :=
  ((s.station false).Plain ∧ (s.station true).Plain) ∧ e.urgFlag = false ∧
    ∀ next ∈ s.act e, (next.station false).Roomy ∧ (next.station true).Roomy

/-- The control that is read, if any, stands for no character and asks for no text, and does not
count below what an `int` holds. -/
def Unspoken (s : Pair) : Event → Prop
  | .netCmd side => (s.station side).cmdstate = .ctrlExp →
      ∀ c ∈ (s.station side).fmNetBuf.bytes.head?,
        c ∉ spoken ∧ (c = dmCode → (s.station side).inSynCnt ≠ -32768)
  | _ => True

def Mute (s : Pair) (e : Event) : Prop := s.Bare e ∧ s.Unspoken e

instance (s : Pair) (e : Event) : Decidable (s.Bare e) := inferInstanceAs (Decidable (_ ∧ _ ∧ _))

instance (s : Pair) : ∀ e, Decidable (s.Unspoken e)
  | .netCmd _ => inferInstanceAs (Decidable (_ → _))
  | .text _ _ | .control _ _ | .option _ _ _ | .mode _ _ _ | .toNet _ _ _ | .fromNet _ _ _
  | .toUser _ _ => inferInstanceAs (Decidable True)

instance (s : Pair) (e : Event) : Decidable (s.Mute e) := inferInstanceAs (Decidable (_ ∧ _))

/-! ### The invariant -/

/-- What comes from `y` to `x`: with the text that is under way, `x` has got what was typed at `y`.
-/
def Flow (x y : NetConn) (wire shown typed : List Byte) : Prop :=
  ∃ text, Carries x (x.fmNetBuf.bytes ++ wire ++ y.toNetBuf.bytes) text ∧
    shown ++ x.toUsrBuf.bytes ++ strip x.usingPty x.toUsrCr text = typed ∧
    pending x.toUsrCr text = y.toNetCr

/-- What holds of a station. -/
structure Sound (side : Bool) (conn : NetConn) : Prop where
  usingPty : conn.usingPty = side
  toNetCr : side = false → conn.toNetCr = false
  inSynCnt : conn.inSynCnt ≤ 0
  roomy : conn.Roomy
  toNetBuf : conn.toNetBuf.len ≤ cbufsize
  toUsrBuf : conn.toUsrBuf.len ≤ cbufsize
  fmNetBuf : conn.fmNetBuf.len ≤ cbufsize

/-- What holds of both. -/
structure Held (s : Pair) : Prop where
  sound : ∀ side, Sound side (s.station side)
  flow : ∀ side, Flow (s.station side) (s.station (!side)) (s.wire side) (s.shown side)
    (s.typed (!side))

theorem start_held (user server : Host) (recSize : Bool → Int) :
    (start user server recSize).Held where
  sound := fun _ =>
    ⟨rfl, fun _ => rfl, Int.le_refl 0, ⟨rfl, rfl, rfl⟩, Nat.zero_le _, Nat.zero_le _, Nat.zero_le _⟩
  flow := fun _ => ⟨[], .escape [] rfl rfl, rfl, rfl⟩

theorem sides (side : Bool) {holds : Bool → Prop} (here : holds side) (there : holds (!side))
    (other : Bool) : holds other := by
  by_cases same : other = side
  · rw [same]
    exact here
  · rw [show other = !side from Bool.eq_not_of_ne same]
    exact there

variable {s : Pair} {side : Bool}

theorem Held.there (held : s.Held) (side : Bool) :
    Flow (s.station (!side)) (s.station side) (s.wire (!side)) (s.shown (!side)) (s.typed side) := by
  have flow := held.flow (!side)
  rwa [Bool.not_not] at flow

theorem Held.move {conn : NetConn} {wire sent shown typed : List Byte} (held : s.Held)
    (sound : Sound side conn)
    (here : Flow conn (s.station (!side)) wire (s.shown side ++ shown) (s.typed (!side)))
    (there : Flow (s.station (!side)) conn (s.wire (!side) ++ sent) (s.shown (!side))
      (s.typed side ++ typed)) :
    (s.move side conn wire sent shown typed).Held := by
  have differs : (!side) ≠ side := by simp
  have stationX : (s.move side conn wire sent shown typed).station side = conn :=
    update_self ..
  have stationY : (s.move side conn wire sent shown typed).station (!side) = s.station (!side) :=
    update_of_ne differs ..
  have wireX : (s.move side conn wire sent shown typed).wire side = wire := by
    show Function.update (Function.update s.wire side wire) (!side) _ side = wire
    rw [update_of_ne differs.symm, update_self]
  have wireY : (s.move side conn wire sent shown typed).wire (!side) = s.wire (!side) ++ sent :=
    update_self ..
  have shownX : (s.move side conn wire sent shown typed).shown side = s.shown side ++ shown :=
    update_self ..
  have shownY : (s.move side conn wire sent shown typed).shown (!side) = s.shown (!side) :=
    update_of_ne differs ..
  have typedX : (s.move side conn wire sent shown typed).typed side = s.typed side ++ typed :=
    update_self ..
  have typedY : (s.move side conn wire sent shown typed).typed (!side) = s.typed (!side) :=
    update_of_ne differs ..
  constructor
  · refine sides side ?_ ?_
    · rw [stationX]
      exact sound
    · rw [stationY]
      exact held.sound (!side)
  · refine sides side ?_ ?_
    · rw [stationX, stationY, wireX, shownX, typedY]
      exact here
    · rw [Bool.not_not, stationX, stationY, wireY, shownY, typedX]
      exact there

theorem puts_roomy {b : CircBuf} {text : List Byte} (bounded : b.len ≤ cbufsize)
    (before : b.flushed = 0) (after : (b.puts text).flushed = 0) :
    b.puts text = { b with bytes := b.bytes ++ text } ∧ text.length < 256 * 256 := by
  have room := (CircBuf.puts_flushed_iff bounded).mp (after.trans before.symm)
  refine ⟨CircBuf.puts_room room bounded, ?_⟩
  have small : b.free ≤ cbufsize := Nat.sub_le _ _
  have isSize : cbufsize = 500 := rfl
  omega

theorem Held.utters {conn : NetConn} {piece sent : List Byte} (held : s.Held)
    (utters : Utters (s.station side) conn piece sent) (roomy : conn.Roomy) :
    (s.move side conn (s.wire side) [] [] piece).Held := by
  have sound := held.sound side
  obtain ⟨puts, small⟩ := puts_roomy sound.toNetBuf sound.roomy.1 (by
    rw [← utters.toNetBuf]
    exact roomy.1)
  have noCr : (s.station side).usingPty = false → (s.station side).toNetCr = false := by
    rw [sound.usingPty]
    exact sound.toNetCr
  refine held.move ?_ ?_ ?_
  · refine ⟨utters.usingPty.trans sound.usingPty, fun isUser => ?_, ?_, roomy, ?_, ?_, ?_⟩
    · rw [utters.toNetCr (sound.usingPty.trans isUser)]
      exact sound.toNetCr isUser
    · rw [utters.inSynCnt]
      exact sound.inSynCnt
    · rw [utters.toNetBuf]
      exact CircBuf.puts_bounded sound.toNetBuf sent
    · rw [utters.toUsrBuf]
      exact sound.toUsrBuf
    · rw [utters.fmNetBuf]
      exact sound.fmNetBuf
  · obtain ⟨text, carries, isTyped, isPending⟩ := held.flow side
    refine ⟨text, ?_, ?_, ?_⟩
    · rw [utters.fmNetBuf]
      exact carries.congr utters.cmdstate utters.count utters.rest
    · rw [utters.toUsrBuf, utters.usingPty, utters.toUsrCr, List.append_nil]
      exact isTyped
    · rw [utters.toUsrCr]
      exact isPending
  · obtain ⟨text, carries, isTyped, isPending⟩ := held.there side
    obtain ⟨items, isBytes, isPiece, isAfter⟩ := utters.said small noCr
    have other : (s.station (!side)).usingPty = !(s.station side).usingPty := by
      rw [(held.sound (!side)).usingPty, sound.usingPty]
    refine ⟨text ++ items.flatMap Item.text, ?_, ?_, ?_⟩
    · rw [utters.toNetBuf, puts, List.append_nil]
      show Carries _ (_ ++ ((s.station side).toNetBuf.bytes ++ sent)) _
      rw [← List.append_assoc, ← isBytes]
      exact carries.append items
    · rw [strip_append, isPending, ← List.append_assoc, isTyped, other, isPiece]
    · rw [pending_append, isPending]
      exact isAfter

/-- A station reads a byte. -/
theorem Held.netCmd {s' : Pair} (held : s.Held) (mute : s.Mute (.netCmd side))
    (taken : s.act (.netCmd side) = some s') : s'.Held := by
  have sound := held.sound side
  obtain ⟨⟨⟨plainUser, plainServer⟩, _, roomy⟩, unspoken⟩ := mute
  have plain : (s.station side).Plain := by cases side <;> assumption
  have roomy := roomy s' taken
  have isNext : s.act (.netCmd side) = match (s.station side).netCmd with
      | none => none
      | some conn => some (s.move side conn (s.wire side) [] [] []) := rfl
  rw [isNext] at taken
  unfold NetConn.netCmd at taken
  cases bytes : (s.station side).fmNetBuf.bytes with
  | nil =>
    rw [bytes] at taken
    cases taken
  | cons c rest =>
    rw [bytes] at taken
    dsimp only at taken
    by_cases room : usergrow ≤ (s.station side).toUsrBuf.free
    · rw [if_pos room] at taken
      rw [← Option.some.inj taken] at roomy ⊢
      obtain ⟨text, carries, isTyped, isPending⟩ := held.flow side
      rw [bytes] at carries
      have silent : (s.station side).cmdstate = .ctrlExp →
          c ∉ spoken ∧ (c = dmCode → (s.station side).inSynCnt ≠ -32768) := fun ctrlExp =>
        unspoken ctrlExp c (by rw [bytes]; rfl)
      have began : Carries { s.station side with
          fmNetBuf := { (s.station side).fmNetBuf with bytes := rest } }
          (c :: (rest ++ s.wire side ++ (s.station (!side)).toNetBuf.bytes)) text :=
        carries.congr rfl rfl rfl
      obtain ⟨left, out, answers, hears⟩ := began.hears plain.2.2 sound.inSynCnt silent
      revert hears roomy
      generalize NetConn.netChar { s.station side with
        fmNetBuf := { (s.station side).fmNetBuf with bytes := rest } } c = after
      intro roomy hears
      have roomyX : after.Roomy := by
        have isStation : (s.move side after (s.wire side) [] [] []).station side = after :=
          update_self ..
        rw [← isStation]
        cases side
        · exact roomy.1
        · exact roomy.2
      obtain ⟨putsNet, small⟩ := puts_roomy sound.toNetBuf sound.roomy.1 (by
        rw [← hears.toNetBuf]
        exact roomyX.1)
      obtain ⟨putsUsr, _⟩ := puts_roomy sound.toUsrBuf sound.roomy.2.1 (by
        rw [← hears.toUsrBuf]
        exact roomyX.2.1)
      have toNetBuf : after.toNetBuf = (s.station side).toNetBuf.puts answers := hears.toNetBuf
      have toUsrBuf : after.toUsrBuf = (s.station side).toUsrBuf.puts out := hears.toUsrBuf
      have shown : out ++ strip (s.station side).usingPty after.toUsrCr left =
          strip (s.station side).usingPty (s.station side).toUsrCr text := hears.shown
      refine held.move ?_ ?_ ?_
      · refine ⟨hears.usingPty.trans sound.usingPty, fun isUser => ?_,
          Int.le_trans hears.inSynCnt sound.inSynCnt, roomyX, ?_, ?_, ?_⟩
        · exact hears.toNetCr.trans (sound.toNetCr isUser)
        · rw [toNetBuf]
          exact CircBuf.puts_bounded sound.toNetBuf answers
        · rw [toUsrBuf]
          exact CircBuf.puts_bounded sound.toUsrBuf out
        · have less : rest.length ≤ (s.station side).fmNetBuf.bytes.length := by
            rw [bytes]
            exact Nat.le_succ _
          rw [hears.fmNetBuf]
          exact Nat.le_trans less sound.fmNetBuf
      · refine ⟨left, ?_, ?_, hears.pending.trans isPending⟩
        · rw [hears.fmNetBuf]
          exact hears.carries
        · rw [toUsrBuf, putsUsr, hears.usingPty, ← isTyped, List.append_nil]
          show s.shown side ++ ((s.station side).toUsrBuf.bytes ++ out) ++ _ = _
          rw [← shown, List.append_assoc, List.append_assoc, List.append_assoc]
      · obtain ⟨items, isBytes, none⟩ := hears.silent small
        obtain ⟨other, carriesY, isTypedY, isPendingY⟩ := held.there side
        refine ⟨other, ?_, ?_, ?_⟩
        · rw [toNetBuf, putsNet, List.append_nil]
          show Carries _ (_ ++ ((s.station side).toNetBuf.bytes ++ answers)) _
          have more := carriesY.append items
          rw [none, List.append_nil, isBytes, List.append_assoc] at more
          exact more
        · rw [List.append_nil]
          exact isTypedY
        · exact isPendingY.trans hears.toNetCr.symm
    · rw [if_neg room] at taken
      cases taken

theorem toNet_eq (conn : NetConn) (urgent normal : Bool) :
    ∃ toNetEOF outSynCnt kept, (conn.toNet urgent normal).1 = { conn with
        toNetEOF := toNetEOF
        outSynCnt := outSynCnt
        toNetBuf := { conn.toNetBuf with bytes := kept } } ∧
      (conn.toNet urgent normal).2 ++ kept = conn.toNetBuf.bytes := by
  unfold NetConn.toNet
  dsimp only
  split
  next none =>
    split
    next => exact ⟨2, conn.outSynCnt, conn.toNetBuf.bytes, rfl, rfl⟩
    next => exact ⟨conn.toNetEOF, conn.outSynCnt, conn.toNetBuf.bytes, rfl, rfl⟩
  next =>
    split
    next => exact ⟨conn.toNetEOF, conn.outSynCnt, conn.toNetBuf.bytes, rfl, rfl⟩
    next =>
      split
      next => exact ⟨conn.toNetEOF, conn.outSynCnt, conn.toNetBuf.bytes, rfl, rfl⟩
      next =>
        split
        next => exact ⟨conn.toNetEOF, 0, [], rfl, List.append_nil _⟩
        next =>
          exact ⟨conn.toNetEOF, 0, conn.toNetBuf.bytes.drop conn.outSynCnt, rfl,
            List.take_append_drop ..⟩

theorem Held.toNet (held : s.Held) (side urgent normal : Bool) :
    (s.move side ((s.station side).toNet urgent normal).1 (s.wire side)
      ((s.station side).toNet urgent normal).2 [] []).Held := by
  have sound := held.sound side
  obtain ⟨toNetEOF, outSynCnt, kept, isAfter, all⟩ := toNet_eq (s.station side) urgent normal
  rw [isAfter]
  have fewer : kept.length ≤ cbufsize := by
    refine Nat.le_trans ?_ sound.toNetBuf
    unfold CircBuf.len
    rw [← all, List.length_append]
    omega
  refine held.move { sound with toNetBuf := fewer } ?_ ?_
  · obtain ⟨text, carries, isTyped, isPending⟩ := held.flow side
    refine ⟨text, carries.congr rfl rfl rfl, ?_, isPending⟩
    rw [List.append_nil]
    exact isTyped
  · obtain ⟨text, carries, isTyped, isPending⟩ := held.there side
    refine ⟨text, ?_, ?_, isPending⟩
    · rw [← all] at carries
      rw [List.append_assoc, List.append_assoc]
      rw [List.append_assoc] at carries
      exact carries
    · rw [List.append_nil]
      exact isTyped

theorem Held.fromNet {nread : Nat} (held : s.Held)
    (roomy : ((s.station side).fromNet ((s.wire side).take nread) false).Roomy) :
    (s.move side ((s.station side).fromNet ((s.wire side).take nread) false)
      ((s.wire side).drop nread) [] [] []).Held := by
  have sound := held.sound side
  obtain ⟨puts, _⟩ := puts_roomy sound.fmNetBuf sound.roomy.2.2 roomy.2.2
  refine held.move ?_ ?_ ?_
  · exact {
      usingPty := sound.usingPty
      toNetCr := sound.toNetCr
      inSynCnt := sound.inSynCnt
      roomy := roomy
      toNetBuf := sound.toNetBuf
      toUsrBuf := sound.toUsrBuf
      fmNetBuf := CircBuf.puts_bounded sound.fmNetBuf _ }
  · obtain ⟨text, carries, isTyped, isPending⟩ := held.flow side
    refine ⟨text, ?_, ?_, isPending⟩
    · show Carries _ (((s.station side).fmNetBuf.puts ((s.wire side).take nread)).bytes ++
        (s.wire side).drop nread ++ (s.station (!side)).toNetBuf.bytes) text
      rw [puts]
      dsimp only
      rw [List.append_assoc (s.station side).fmNetBuf.bytes, List.take_append_drop]
      exact carries.congr rfl rfl rfl
    · rw [List.append_nil]
      exact isTyped
  · rw [List.append_nil, List.append_nil]
    exact held.there side

theorem Held.toUser (held : s.Held) (side : Bool) (nwrite : Nat) :
    (s.move side ((s.station side).toUser nwrite).1 (s.wire side) []
      ((s.station side).toUser nwrite).2 []).Held := by
  have sound := held.sound side
  have fewer : ((s.station side).toUsrBuf.bytes.drop nwrite).length ≤ cbufsize := by
    refine Nat.le_trans ?_ sound.toUsrBuf
    rw [List.length_drop]
    exact Nat.sub_le _ _
  refine held.move { sound with toUsrBuf := fewer } ?_ ?_
  · obtain ⟨text, carries, isTyped, isPending⟩ := held.flow side
    refine ⟨text, carries.congr rfl rfl rfl, ?_, isPending⟩
    show s.shown side ++ (s.station side).toUsrBuf.bytes.take nwrite ++
      (s.station side).toUsrBuf.bytes.drop nwrite ++ _ = _
    rw [List.append_assoc (s.shown side), List.take_append_drop]
    exact isTyped
  · rw [List.append_nil, List.append_nil]
    exact held.there side

theorem Held.act {s' : Pair} {event : Event} (held : s.Held) (mute : s.Mute event)
    (taken : s.act event = some s') : s'.Held := by
  have roomy : ∀ {side : Bool} {conn : NetConn} {wire sent shown typed : List Byte},
      s' = s.move side conn wire sent shown typed → conn.Roomy := by
    intro side conn wire sent shown typed isMove
    have both := mute.1.2.2 s' taken
    have isStation : s'.station side = conn := by
      rw [isMove]
      exact update_self ..
    rw [← isStation]
    cases side
    · exact both.1
    · exact both.2
  have plain : ∀ side, (s.station side).Plain := by
    intro side
    cases side
    · exact mute.1.1.1
    · exact mute.1.1.2
  cases event with
  | text side piece =>
    have isMove := (Option.some.inj taken).symm
    obtain ⟨sent, utters⟩ := utters_fromUser (plain side) piece
    rw [isMove]
    exact held.utters utters (roomy isMove)
  | control side arg =>
    have isMove := (Option.some.inj taken).symm
    obtain ⟨sent, utters⟩ := utters_netsend (s.station side) arg
    rw [isMove]
    exact held.utters utters (roomy isMove)
  | option side op args =>
    unfold Pair.act at taken
    obtain ⟨some, same⟩ := Option.ite_none_left_eq_some.mp taken
    have isMove := (Option.some.inj same).symm
    obtain ⟨sent, utters⟩ := utters_negotiate (s.station side) op some
    rw [isMove]
    exact held.utters utters (roomy isMove)
  | mode side op mode =>
    have isMove := (Option.some.inj taken).symm
    obtain ⟨sent, utters⟩ := utters_modeCmd (s.station side) op mode
    rw [isMove]
    exact held.utters utters (roomy isMove)
  | toNet side urgent normal =>
    rw [← Option.some.inj taken]
    exact held.toNet side urgent normal
  | fromNet side nread urgFlag =>
    have calm : urgFlag = false := mute.1.2.1
    unfold Pair.act at taken
    obtain ⟨_, same⟩ := Option.ite_none_right_eq_some.mp taken
    have isMove := (Option.some.inj same).symm
    rw [calm] at isMove
    rw [isMove]
    exact held.fromNet (roomy isMove)
  | netCmd side => exact held.netCmd mute taken
  | toUser side nwrite =>
    rw [← Option.some.inj taken]
    exact held.toUser side nwrite

theorem Held.clear (held : s.Held) : s.Clear := by
  intro side
  obtain ⟨text, carries, isTyped, _⟩ := held.flow side
  refine ⟨⟨_, isTyped⟩, fun none => ?_⟩
  unfold under at none
  rw [none] at carries
  rw [carries.empty] at isTyped
  show s.shown side ++ _ = _
  rw [← isTyped]
  exact (List.append_nil _).symm

/-- In every run in which no other control than such as stand for no character and ask for no text
is read, what a station has got is what was typed at the other, as far as it has come. -/
theorem text_transparent {user server : Host} {recSize : Bool → Int} {history : List Event}
    {s : Pair} (run : Transition.Run (Transition.Guarded (Transition.Takes act) Mute)
      (start user server recSize) history s) : s.Clear := by
  have held : s.Held := run.always Held (start_held user server recSize)
    fun _ _ _ held taken => held.act taken.1 taken.2
  exact held.clear

def someHost : Host := ⟨0o10, 0o30, 0o177, false⟩

/-- The user types text in both modes, with IAC and a bare CR, and the pty answers with CR, NUL and
LF. -/
def talking : List Event :=
  [Event.text false [0x61, cr, iac], .mode true .do_ .record, .text true [0x62, cr]] ++
    [Event.toNet false true true, .toNet true true true, .text true [0, cr], .toNet true true true,
      .fromNet false 10 false] ++ List.replicate 10 (Event.netCmd false) ++
    [Event.text false [cr, 0x63]] ++
    [Event.control false aoCode, .text false [lf], .toNet false false true, .toNet false true true,
      .fromNet true 33 false] ++ List.replicate 33 (Event.netCmd true) ++ [Event.toUser true 2]

theorem text_transparent_talking :
    (Transition.last act (start someHost someHost fun _ => 5) talking).Clear :=
  text_transparent (Transition.run_can (by decide +kernel))

/-- The user erases a character. -/
def erasing : List Event :=
  [Event.text false [0x61], .control false ecCode, .text false [0x62], .toNet false true true,
    .fromNet true 6 false] ++ List.replicate 6 (Event.netCmd true)

theorem erasing_shows :
    ∃ s, Transition.Run (Transition.Guarded (Transition.Takes act) Bare)
      (start someHost someHost fun _ => 0) erasing s ∧ ¬ s.Clear := by
  refine ⟨_, Transition.run_can (by decide +kernel), fun clear => ?_⟩
  have got := (clear true).1
  revert got
  decide +kernel

end Pair

end NetworkUnix.Telnet
