/-
This file says what the Telnet program does with a byte from the net. Where the machine of
`NetChar` is after it depends on the bytes alone; what the byte makes the program write is a
reply of known length to the net, made of whole records, and a few characters for the user.
-/

import NetworkUnix.Telnet.Writes

namespace NetworkUnix.Telnet

/-! ### Whole records -/

/-- Bytes that are characters and whole records. -/
inductive Whole : List Byte → Prop
  | nil : Whole []
  | char {c : Byte} {rest : List Byte} (plain : c ≠ iac) (whole : Whole rest) : Whole (c :: rest)
  | record {ctrl : Byte} {args rest : List Byte} (whole : Whole rest) :
      Whole (NetConn.record ctrl args ++ rest)

theorem Whole.append {bytes more : List Byte} (first : Whole bytes) (second : Whole more) :
    Whole (bytes ++ more) := by
  induction first with
  | nil => exact second
  | char plain _ inductionHypothesis => exact .char plain inductionHypothesis
  | record _ inductionHypothesis =>
    rw [List.append_assoc]
    exact .record inductionHypothesis

namespace NetConn

theorem whole_record (ctrl : Byte) (args : List Byte) : Whole (record ctrl args) := by
  have whole : Whole (record ctrl args ++ []) := .record .nil
  rw [List.append_nil] at whole
  exact whole

theorem whole_netText (xMode : XMode) (recSize : Int) (buf : List Byte) :
    Whole (netText xMode recSize buf) := by
  unfold netText
  split
  next =>
    generalize cut recSize buf.length buf = chunks
    induction chunks with
    | nil => exact .nil
    | cons chunk rest inductionHypothesis =>
      rw [List.flatMap_cons]
      exact .record inductionHypothesis
  next plain =>
    induction buf with
    | nil => exact .nil
    | cons c rest inductionHypothesis =>
      rw [InRecords, List.mem_cons, not_or, not_or] at plain
      exact .char (Ne.symm plain.2.1) (inductionHypothesis (not_or.mpr ⟨plain.1, plain.2.2⟩))

theorem whole_loopText (conn : NetConn) {crlf : List Byte} (whole : Whole crlf)
    (obuf buf : List Byte) : Whole (loopText conn crlf obuf buf) := by
  induction buf generalizing obuf with
  | nil => exact whole_netText ..
  | cons c rest inductionHypothesis =>
    unfold loopText
    cases optnum c with
    | none => exact inductionHypothesis _
    | some opnum =>
      dsimp only
      split
      next => exact inductionHypothesis _
      next =>
        split
        next => exact ((whole_netText ..).append whole).append (inductionHypothesis _)
        next =>
          split
          next =>
            exact ((whole_netText ..).append (whole_record ..)).append (inductionHypothesis _)
          next => exact inductionHypothesis _

theorem whole_bufText (conn : NetConn) (buf : List Byte) : Whole (conn.bufText buf) :=
  whole_loopText conn (whole_loopText conn .nil [] [cr, lf]) [] buf

/-! ### The machine -/

/-- The state after a control. -/
def ctrlNext (c : Byte) : CmdState :=
  if c = dataCode then .withinData
  else if c = repeatCode then .countExp
  else if c = setModeCode then .modeExp false
  else if c = requestModeCode then .modeExp true
  else if c = willCode then .optionExp .will
  else if c = doCode then .optionExp .do_
  else if c = wontCode then .optionExp .wont
  else if c = dontCode then .optionExp .dont
  else .escapeExp

/-- The state and the count after the count is taken down. -/
def countDown (rstate : CmdState) (count : Nat) : CmdState × Nat :=
  if CmdState.past rstate then
    if count = 0 then (if rstate = .withinData then .escapeExp else rstate, 0)
    else (rstate, count - 1)
  else (rstate, count)

/-- The state and the count after a byte. -/
def advance (machine : CmdState × Nat) (c : Byte) : CmdState × Nat :=
  match machine.1 with
  | .escapeExp => if c ≠ iac then machine else (.hibyteExp, machine.2)
  | .hibyteExp => (.lobyteExp, c.toNat * 256)
  | .lobyteExp => (.ctrlExp, machine.2 + c.toNat)
  | .ctrlExp => countDown (ctrlNext c) machine.2
  | .optionExp op => countDown (if machine.2 = 0 then .escapeExp else .optionExp op) machine.2
  | .modeExp _ => (.escapeExp, machine.2)
  | .countExp => countDown (.charExp c.toNat) machine.2
  | .charExp _ => (.escapeExp, machine.2)
  | .withinData => countDown .withinData machine.2

/-- Where the machine of a station is. -/
def machine (conn : NetConn) : CmdState × Nat := (conn.cmdstate, conn.count)

theorem machine_settle (conn : NetConn) (rstate : CmdState) :
    (conn.settle rstate).machine = countDown rstate conn.count := by
  unfold settle countDown
  split
  next =>
    split
    next none => exact Prod.ext rfl none
    next => rfl
  next => rfl

/-! ### What is written -/

/-- What a byte makes a station do besides moving the machine: it writes `net` to the net and `usr`
to the user. -/
structure Puts (conn after : NetConn) (net usr : List Byte) : Prop where
  toNetBuf : after.toNetBuf = conn.toNetBuf.puts net
  toUsrBuf : after.toUsrBuf = conn.toUsrBuf.puts usr
  fmNetBuf : after.fmNetBuf = conn.fmNetBuf
  inSynCnt : after.inSynCnt = conn.inSynCnt
  outSynCnt : after.outSynCnt = conn.outSynCnt ∨ after.outSynCnt = after.toNetBuf.len
  count : after.count = conn.count
  whole : Whole net

namespace Puts

variable {conn after next : NetConn} {net usr net' usr' : List Byte}

theorem refl (conn : NetConn) : Puts conn conn [] [] := ⟨rfl, rfl, rfl, rfl, .inl rfl, rfl, .nil⟩

theorem trans (first : Puts conn after net usr) (second : Puts after next net' usr')
    (kept : after.outSynCnt = conn.outSynCnt) : Puts conn next (net ++ net') (usr ++ usr') where
  toNetBuf := by rw [second.toNetBuf, first.toNetBuf, CircBuf.puts_append]
  toUsrBuf := by rw [second.toUsrBuf, first.toUsrBuf, CircBuf.puts_append]
  fmNetBuf := second.fmNetBuf.trans first.fmNetBuf
  inSynCnt := second.inSynCnt.trans first.inSynCnt
  outSynCnt := second.outSynCnt.imp (·.trans kept) id
  count := second.count.trans first.count
  whole := first.whole.append second.whole

end Puts

variable {after conn : NetConn} {c : Byte} {times : Nat}

theorem puts_sends {text : List Byte} (sends : Sends conn after text)
    (outSynCnt : after.outSynCnt = conn.outSynCnt) (whole : Whole text) : Puts conn after text [] where
  toNetBuf := sends.toNetBuf
  toUsrBuf := sends.kept.toUsrBuf
  fmNetBuf := sends.kept.fmNetBuf
  inSynCnt := sends.kept.inSynCnt
  outSynCnt := .inl outSynCnt
  count := sends.kept.count
  whole := whole

theorem puts_putNet (conn : NetConn) {text : List Byte} (whole : Whole text) :
    Puts conn (conn.putNet text) text [] :=
  puts_sends (sends_putNet conn text) (outSynCnt_putNet conn text) whole

theorem Puts.urgent {conn after : NetConn} {net usr : List Byte} (puts : Puts conn after net usr) :
    Puts conn { after with outSynCnt := after.toNetBuf.len } net usr :=
  { puts with outSynCnt := .inr rfl }

theorem puts_sendSynch (conn : NetConn) : Puts conn conn.sendSynch (record dmCode []) [] :=
  (puts_putNet conn (whole_record dmCode [])).urgent

theorem puts_userChar (conn : NetConn) (c : Byte) :
    (∃ usr, usr.length ≤ 1 ∧ Puts conn (conn.userChar c) [] usr) ∧
      (conn.userChar c).outSynCnt = conn.outSynCnt := by
  have one : ∀ toUsrCr, Puts conn { conn.putUsr c with toUsrCr := toUsrCr } [] [c] := fun _ =>
    ⟨rfl, rfl, rfl, rfl, .inl rfl, rfl, .nil⟩
  unfold userChar
  split
  next => exact ⟨⟨[c], Nat.le_refl _, one _⟩, rfl⟩
  next =>
    split
    next => exact ⟨⟨[c], Nat.le_refl _, one conn.toUsrCr⟩, rfl⟩
    next =>
      split
      next => exact ⟨⟨[], Nat.zero_le _, rfl, rfl, rfl, rfl, .inl rfl, rfl, .nil⟩, rfl⟩
      next => exact ⟨⟨[c], Nat.le_refl _, one _⟩, rfl⟩

theorem puts_repeat (conn : NetConn) (c : Byte) (times : Nat) :
    (∃ usr, usr.length ≤ times ∧ Puts conn ((List.replicate times c).foldl userChar conn) [] usr) ∧
      ((List.replicate times c).foldl userChar conn).outSynCnt = conn.outSynCnt := by
  induction times generalizing conn with
  | zero => exact ⟨⟨[], Nat.le_refl _, .refl conn⟩, rfl⟩
  | succ times inductionHypothesis =>
    obtain ⟨⟨usr, few, puts⟩, kept⟩ := puts_userChar conn c
    obtain ⟨⟨others, fewOthers, putsOthers⟩, keptOthers⟩ := inductionHypothesis (conn.userChar c)
    refine ⟨⟨usr ++ others, ?_, puts.trans putsOthers kept⟩, keptOthers.trans kept⟩
    rw [List.length_append]
    omega

/-! ### What text needs -/

/-- How many records a chunk of text makes. -/
def chunks (recSize : Int) (len : Nat) : Nat :=
  if 0 < recSize then (len + recSize.toNat - 1) / recSize.toNat else 1

/-- How many bytes `NetBuf` makes of text of a length; `hasIac` tells whether there is an IAC in
it. -/
def netNeed (conn : NetConn) (len : Nat) (hasIac : Bool) : Nat :=
  if len = 0 then 0
  else if conn.xMode = .record ∨ hasIac then len + 4 * chunks conn.recSize len
  else len

/-- How many bytes the loop of `SendBuf` makes of text. -/
def loopNeed (conn : NetConn) (crlf : Nat) : Nat → Bool → List Byte → Nat
  | len, hasIac, [] => conn.netNeed len hasIac
  | len, hasIac, c :: rest =>
    match optnum c with
    | none => loopNeed conn crlf (len + 1) (hasIac || decide (c = iac)) rest
    | some opnum =>
      if conn.action opnum = dispDiscard then loopNeed conn crlf len hasIac rest
      else if conn.action opnum = dispCrlf ∧ (c = 0o13 ∨ c = 0o14) then
        conn.netNeed len hasIac + crlf + loopNeed conn crlf 0 false rest
      else if conn.action opnum ≠ 0 then
        conn.netNeed (len + 1) hasIac + 6 + loopNeed conn crlf 0 false rest
      else loopNeed conn crlf (len + 1) hasIac rest

/-- How many bytes `SendBuf` makes of text. -/
def bufNeed (conn : NetConn) (buf : List Byte) : Nat :=
  loopNeed conn (loopNeed conn 0 0 false [cr, lf]) 0 false buf

theorem length_cut {recSize : Int} {fuel : Nat} {buf : List Byte} (enough : buf.length ≤ fuel)
    (some : buf ≠ []) : (cut recSize fuel buf).length = chunks recSize buf.length := by
  have positive := List.length_pos_iff.mpr some
  unfold chunks
  induction fuel generalizing buf with
  | zero => omega
  | succ fuel inductionHypothesis =>
    unfold cut
    rw [if_neg some]
    by_cases sized : 0 < recSize
    · rw [if_pos sized] at *
      have size : 0 < recSize.toNat := by omega
      split
      next longer =>
        have left : (buf.drop recSize.toNat).length = buf.length - recSize.toNat := List.length_drop
        have others := @inductionHypothesis (buf.drop recSize.toNat) (by omega)
          (by rw [← List.length_pos_iff]; omega) (by omega)
        rw [List.length_cons, others, left, if_pos sized, ← Nat.add_div_right _ size]
        congr 1
        omega
      next short =>
        have once : buf.length + recSize.toNat - 1 = (buf.length - 1) + 1 * recSize.toNat := by omega
        rw [once, Nat.add_mul_div_right _ _ size, Nat.div_eq_of_lt (by omega)]
        rfl
    · rw [if_neg sized, if_neg fun both => sized both.1]
      rfl

theorem length_records (pieces : List (List Byte)) :
    (pieces.flatMap (record dataCode)).length = pieces.flatten.length + 4 * pieces.length := by
  induction pieces with
  | nil => rfl
  | cons piece rest inductionHypothesis =>
    rw [List.flatMap_cons, List.length_append, inductionHypothesis, length_record, List.flatten_cons,
      List.length_append, List.length_cons]
    omega

theorem length_netText (conn : NetConn) (buf : List Byte) :
    (netText conn.xMode conn.recSize buf).length = conn.netNeed buf.length (decide (iac ∈ buf)) := by
  unfold netNeed netText
  by_cases none : buf = []
  · rw [none]
    split <;> rfl
  · have positive := List.length_pos_iff.mpr none
    rw [if_neg (Nat.ne_of_gt positive)]
    by_cases records : InRecords conn.xMode buf
    · rw [if_pos records, if_pos (records.imp id decide_eq_true), length_records,
        cut_flatten _ (Nat.le_refl _), length_cut (Nat.le_refl _) none]
    · rw [if_neg records, if_neg fun either => records (either.imp id of_decide_eq_true)]

theorem optnum_iac : optnum iac = none := by decide

theorem length_loopText (conn : NetConn) (crlf obuf buf : List Byte) :
    (loopText conn crlf obuf buf).length =
      conn.loopNeed crlf.length obuf.length (decide (iac ∈ obuf)) buf := by
  induction buf generalizing obuf with
  | nil => exact length_netText ..
  | cons c rest inductionHypothesis =>
    have longer : (obuf ++ [c]).length = obuf.length + 1 := List.length_append
    have more : decide (iac ∈ obuf ++ [c]) = (decide (iac ∈ obuf) || decide (c = iac)) := by
      rw [← Bool.decide_or]
      refine decide_eq_decide.mpr ?_
      rw [List.mem_append, List.mem_singleton, eq_comm]
    unfold loopText loopNeed
    cases isOptnum : optnum c with
    | none =>
      dsimp only
      rw [inductionHypothesis, longer, more]
    | some opnum =>
      have notIac : decide (c = iac) = false := by
        refine decide_eq_false fun isIac => ?_
        rw [isIac, optnum_iac] at isOptnum
        cases isOptnum
      rw [notIac, Bool.or_false] at more
      dsimp only
      split
      next => exact inductionHypothesis obuf
      next =>
        split
        next =>
          rw [List.length_append, List.length_append, inductionHypothesis, length_netText]
          rfl
        next =>
          split
          next =>
            rw [List.length_append, List.length_append, inductionHypothesis, length_netText, longer,
              more]
            rfl
          next => rw [inductionHypothesis, longer, more]

theorem length_bufText (conn : NetConn) (buf : List Byte) :
    (conn.bufText buf).length = conn.bufNeed buf := by
  unfold bufText bufNeed
  rw [length_loopText, length_loopText]
  rfl

/-! ### What a reply needs -/

/-- A message about an option is answered. -/
def replies (conn : NetConn) (op : Op) (args : List Byte) : Bool :=
  (decide (optlength (opnumOf args) = none) || decide (optlength (opnumOf args) = some args.length)) &&
    !conn.orig (opnumOf args) op.side && !conn.already op args

/-- The text of the answer to AYT. -/
def yes : List Byte := [0x59, 0x65, 0x73, cr, lf]

/-- How many bytes the reply to a byte has. -/
def replyNeed (conn : NetConn) (c : Byte) : Nat :=
  match conn.cmdstate with
  | .ctrlExp =>
    if c = suspendCode ∨ c = ipCode then 4
    else if c = aytCode then 4 + conn.bufNeed yes
    else 0
  | .optionExp op =>
    let args := if conn.rest.length < 16 then conn.rest ++ [c] else conn.rest
    if conn.count = 0 ∧ conn.replies op args then 4 + args.length else 0
  | .modeExp true => 5
  | _ => 0

theorem puts_negotiate (conn : NetConn) (op : Op) (args : List Byte) :
    ∃ net, Puts conn (conn.negotiate false op args) net [] ∧
      net.length = if conn.replies op args then 4 + args.length else 0 := by
  have kept := outSynCnt_negotiate conn false op args
  unfold negotiate at *
  unfold replies
  by_cases wrong : optlength (opnumOf args) ≠ none ∧ optlength (opnumOf args) ≠ some args.length
  · rw [if_pos wrong, decide_eq_false wrong.1, decide_eq_false wrong.2]
    exact ⟨[], .refl conn, rfl⟩
  · have right : (decide (optlength (opnumOf args) = none) ||
        decide (optlength (opnumOf args) = some args.length)) = true := by
      rw [Bool.or_eq_true, decide_eq_true_eq, decide_eq_true_eq]
      exact Decidable.or_iff_not_not_and_not.mpr wrong
    rw [if_neg wrong, if_neg Bool.false_ne_true] at kept ⊢
    rw [right, Bool.true_and]
    cases orig : conn.orig (opnumOf args) op.side with
    | true =>
      rw [orig, if_neg Bool.noConfusion] at kept
      rw [if_neg Bool.noConfusion]
      exact ⟨[], puts_sends (sends_settled conn op args) kept .nil, rfl⟩
    | false =>
      rw [orig, if_pos rfl] at kept
      rw [if_pos rfl]
      have sends := sends_answer conn op args
      cases already : conn.already op args with
      | true =>
        rw [already, if_pos rfl] at sends
        exact ⟨[], puts_sends sends kept .nil, rfl⟩
      | false =>
        rw [already, if_neg Bool.false_ne_true] at sends
        refine ⟨_, puts_sends sends kept (whole_record ..), ?_⟩
        rw [length_record]
        exact Nat.add_comm ..

/-- A control is received. -/
structure Controls (conn : NetConn) (c : Byte) (net usr : List Byte) : Prop where
  puts : Puts { conn with inSynCnt := if c = dmCode then downCnt conn.inSynCnt else conn.inSynCnt }
    (conn.netCtrl c).1 net usr
  next : (conn.netCtrl c).2 = ctrlNext c
  need : net.length = if c = suspendCode ∨ c = ipCode then 4
    else if c = aytCode then 4 + conn.bufNeed yes else 0
  few : usr.length ≤ 1

theorem Controls.of {net usr : List Byte} (notDm : c ≠ dmCode) (puts : Puts conn after net usr)
    (isAfter : conn.netCtrl c = (after, ctrlNext c))
    (need : net.length = if c = suspendCode ∨ c = ipCode then 4
      else if c = aytCode then 4 + conn.bufNeed yes else 0) (few : usr.length ≤ 1) :
    Controls conn c net usr where
  puts := by
    rw [isAfter, if_neg notDm]
    exact puts
  next := by rw [isAfter]
  need := need
  few := few

theorem controls (conn : NetConn) (c : Byte) : ∃ net usr, Controls conn c net usr := by
  by_cases isSuspend : c = suspendCode
  · rw [isSuspend]
    have sends := (sends_remState conn .susp).trans (sends_putNet _ (record suspendedCode []))
    exact ⟨_, [], .of (by decide) (puts_sends sends rfl (whole_record suspendedCode [])) rfl rfl
      (Nat.zero_le _)⟩
  by_cases isIp : c = ipCode
  · rw [isIp]
    obtain ⟨⟨usr, few, puts⟩, kept⟩ := puts_userChar conn conn.host.intr
    have both := puts.trans (puts_sendSynch (conn.userChar conn.host.intr)) kept
    rw [List.append_nil] at both
    exact ⟨_, usr, .of (by decide) both rfl rfl few⟩
  by_cases isAyt : c = aytCode
  · rw [isAyt]
    have action : (conn.putNet (record nopCode [])).action = conn.action := rfl
    have text := bufText_congr action rfl rfl yes
    have answers : conn.netCtrl aytCode =
        ((conn.putNet (record nopCode [])).putNet (conn.bufText yes), .escapeExp) := by
      rw [← text, ← sendBuf_eq]
      rfl
    refine ⟨record nopCode [] ++ conn.bufText yes, [], .of (by decide) ((puts_putNet conn
      (whole_record nopCode [])).trans (puts_putNet _ (whole_bufText conn yes)) rfl) answers ?_
      (Nat.zero_le _)⟩
    rw [List.length_append, length_bufText]
    rfl
  have none : (if c = suspendCode ∨ c = ipCode then 4
      else if c = aytCode then 4 + conn.bufNeed yes else 0) = 0 := by
    rw [if_neg (not_or.mpr ⟨isSuspend, isIp⟩), if_neg isAyt]
  have still : ∀ {after : NetConn}, Puts conn after [] [] → c ≠ dmCode →
      conn.netCtrl c = (after, ctrlNext c) → ∃ net usr, Controls conn c net usr :=
    fun puts notDm isAfter => ⟨[], [], .of notDm puts isAfter none.symm (Nat.zero_le _)⟩
  have char : ∀ shown : Byte, c ≠ dmCode → conn.netCtrl c = (conn.userChar shown, ctrlNext c) →
      ∃ net usr, Controls conn c net usr := by
    intro shown notDm isAfter
    obtain ⟨⟨usr, few, puts⟩, _⟩ := puts_userChar conn shown
    exact ⟨[], usr, .of notDm puts isAfter none.symm few⟩
  by_cases isData : c = dataCode
  · exact still (.refl conn) (by rw [isData]; decide) (by rw [isData]; rfl)
  by_cases isRepeat : c = repeatCode
  · exact still (.refl conn) (by rw [isRepeat]; decide) (by rw [isRepeat]; rfl)
  by_cases isSet : c = setModeCode
  · exact still (.refl conn) (by rw [isSet]; decide) (by rw [isSet]; rfl)
  by_cases isRequest : c = requestModeCode
  · exact still (.refl conn) (by rw [isRequest]; decide) (by rw [isRequest]; rfl)
  by_cases isSuspended : c = suspendedCode
  · have quiet : Puts conn (if conn.locState = .susping then { conn with locState := .susp } else conn)
        [] [] := by
      split
      next => exact ⟨rfl, rfl, rfl, rfl, .inl rfl, rfl, .nil⟩
      next => exact .refl conn
    exact still quiet (by rw [isSuspended]; decide) (by rw [isSuspended]; rfl)
  by_cases isContinue : c = continueCode
  · have quiet : Puts conn (if conn.remState = .susp then { conn with remState := .active } else conn)
        [] [] := by
      split
      next => exact ⟨rfl, rfl, rfl, rfl, .inl rfl, rfl, .nil⟩
      next => exact .refl conn
    exact still quiet (by rw [isContinue]; decide) (by rw [isContinue]; rfl)
  by_cases isDm : c = dmCode
  · refine ⟨[], [], ?_, by rw [isDm]; rfl, none.symm, Nat.zero_le _⟩
    rw [if_pos isDm, isDm]
    exact .refl _
  by_cases isWill : c = willCode
  · exact still (.refl conn) isDm (by rw [isWill]; rfl)
  by_cases isDo : c = doCode
  · exact still (.refl conn) isDm (by rw [isDo]; rfl)
  by_cases isWont : c = wontCode
  · exact still (.refl conn) isDm (by rw [isWont]; rfl)
  by_cases isDont : c = dontCode
  · exact still (.refl conn) isDm (by rw [isDont]; rfl)
  by_cases isBreak : c = breakCode
  · exact char 0 isDm (by rw [isBreak]; rfl)
  by_cases isEc : c = ecCode
  · exact char conn.host.erase isDm (by rw [isEc]; rfl)
  by_cases isEl : c = elCode
  · exact char conn.host.kill isDm (by rw [isEl]; rfl)
  refine still (.refl conn) isDm ?_
  unfold netCtrl ctrlNext
  rw [if_neg isData, if_neg isRepeat, if_neg isSet, if_neg isRequest, if_neg isSuspend,
    if_neg isSuspended, if_neg isContinue, if_neg isDm, if_neg isWill, if_neg isDo, if_neg isWont,
    if_neg isDont, if_neg isBreak, if_neg isAyt, if_neg isIp, if_neg isEc, if_neg isEl,
    if_neg isData, if_neg isRepeat, if_neg isSet, if_neg isRequest, if_neg isWill, if_neg isDo,
    if_neg isWont, if_neg isDont]

/-- A byte is received. -/
structure Takes (conn : NetConn) (c : Byte) (net usr : List Byte) : Prop where
  machine : (conn.netChar c).machine = advance conn.machine c
  toNetBuf : (conn.netChar c).toNetBuf = conn.toNetBuf.puts net
  toUsrBuf : (conn.netChar c).toUsrBuf = conn.toUsrBuf.puts usr
  fmNetBuf : (conn.netChar c).fmNetBuf = conn.fmNetBuf
  inSynCnt : (conn.netChar c).inSynCnt =
    if conn.cmdstate = .ctrlExp ∧ c = dmCode then downCnt conn.inSynCnt else conn.inSynCnt
  outSynCnt : (conn.netChar c).outSynCnt = conn.outSynCnt ∨
    (conn.netChar c).outSynCnt = (conn.netChar c).toNetBuf.len
  whole : Whole net
  need : net.length = conn.replyNeed c
  few : usr.length ≤ 255

theorem settle_fields (conn : NetConn) (rstate : CmdState) :
    (conn.settle rstate).toNetBuf = conn.toNetBuf ∧ (conn.settle rstate).toUsrBuf = conn.toUsrBuf ∧
      (conn.settle rstate).fmNetBuf = conn.fmNetBuf ∧
      (conn.settle rstate).inSynCnt = conn.inSynCnt ∧
      (conn.settle rstate).outSynCnt = conn.outSynCnt := by
  unfold settle
  split
  next => split <;> exact ⟨rfl, rfl, rfl, rfl, rfl⟩
  next => exact ⟨rfl, rfl, rfl, rfl, rfl⟩

theorem takes_of {net usr : List Byte} {rstate : CmdState}
    (isAfter : conn.netChar c = after.settle rstate) (puts : Puts conn after net usr)
    (notCtrl : conn.cmdstate ≠ .ctrlExp) (machine : advance conn.machine c = countDown rstate conn.count)
    (need : net.length = conn.replyNeed c) (few : usr.length ≤ 255) : Takes conn c net usr := by
  obtain ⟨toNetBuf, toUsrBuf, fmNetBuf, inSynCnt, outSynCnt⟩ := settle_fields after rstate
  constructor
  · rw [isAfter, machine_settle, puts.count, machine]
  · rw [isAfter, toNetBuf, puts.toNetBuf]
  · rw [isAfter, toUsrBuf, puts.toUsrBuf]
  · rw [isAfter, fmNetBuf, puts.fmNetBuf]
  · rw [isAfter, inSynCnt, puts.inSynCnt, if_neg fun both => notCtrl both.1]
  · rw [isAfter, outSynCnt, toNetBuf]
    exact puts.outSynCnt
  · exact puts.whole
  · exact need
  · exact few

theorem takes_escape (cmdstate : conn.cmdstate = .escapeExp) (c : Byte) :
    ∃ net usr, Takes conn c net usr := by
  have machine : advance conn.machine c =
      if c ≠ iac then (.escapeExp, conn.count) else (.hibyteExp, conn.count) := by
    unfold advance NetConn.machine
    rw [cmdstate]
  have isNext : conn.netChar c = if c ≠ iac then
      (if conn.inSynCnt ≤ 0 then conn.userChar c else conn).settle .escapeExp
      else conn.settle .hibyteExp := by
    unfold netChar
    rw [cmdstate]
  have none : 0 = conn.replyNeed c := by
    unfold replyNeed
    rw [cmdstate]
  have notCtrl : conn.cmdstate ≠ .ctrlExp := by
    rw [cmdstate]
    decide
  by_cases plain : c ≠ iac
  · rw [if_pos plain] at machine isNext
    by_cases calm : conn.inSynCnt ≤ 0
    · rw [if_pos calm] at isNext
      obtain ⟨⟨usr, few, puts⟩, _⟩ := puts_userChar conn c
      exact ⟨[], usr, takes_of isNext puts notCtrl machine none (Nat.le_trans few (by decide))⟩
    · rw [if_neg calm] at isNext
      exact ⟨[], [], takes_of isNext (.refl conn) notCtrl machine none (Nat.zero_le _)⟩
  · rw [if_neg plain] at machine isNext
    exact ⟨[], [], takes_of isNext (.refl conn) notCtrl machine none (Nat.zero_le _)⟩

theorem takes_count {cmdstate : CmdState} {count : Nat}
    (isNext : conn.netChar c = { conn with count := count, cmdstate := cmdstate })
    (machine : advance conn.machine c = (cmdstate, count)) (notCtrl : conn.cmdstate ≠ .ctrlExp)
    (none : 0 = conn.replyNeed c) : Takes conn c [] [] where
  machine := by
    rw [isNext, machine]
    rfl
  toNetBuf := by
    rw [isNext]
    rfl
  toUsrBuf := by
    rw [isNext]
    rfl
  fmNetBuf := by rw [isNext]
  inSynCnt := by rw [isNext, if_neg fun both => notCtrl both.1]
  outSynCnt := by
    rw [isNext]
    exact .inl rfl
  whole := .nil
  need := none
  few := Nat.zero_le _

theorem takes_hibyte (cmdstate : conn.cmdstate = .hibyteExp) (c : Byte) :
    Takes conn c [] [] := by
  refine takes_count (netChar_hibyte cmdstate c) ?_ ?_ ?_
  · unfold advance NetConn.machine
    rw [cmdstate]
  · rw [cmdstate]
    decide
  · unfold replyNeed
    rw [cmdstate]

theorem takes_lobyte (cmdstate : conn.cmdstate = .lobyteExp) (c : Byte) :
    Takes conn c [] [] := by
  refine takes_count (netChar_lobyte cmdstate c) ?_ ?_ ?_
  · unfold advance NetConn.machine
    rw [cmdstate]
  · rw [cmdstate]
    decide
  · unfold replyNeed
    rw [cmdstate]

theorem takes_ctrl (cmdstate : conn.cmdstate = .ctrlExp) (c : Byte) :
    ∃ net usr, Takes conn c net usr := by
  obtain ⟨net, usr, controls⟩ := controls conn c
  refine ⟨net, usr, ?_⟩
  obtain ⟨toNetBuf, toUsrBuf, fmNetBuf, inSynCnt, outSynCnt⟩ :=
    settle_fields (conn.netCtrl c).1 (conn.netCtrl c).2
  have isNext := netChar_ctrl cmdstate c
  constructor
  · rw [isNext, machine_settle, controls.next, controls.puts.count]
    unfold advance NetConn.machine
    rw [cmdstate]
  · rw [isNext, toNetBuf, controls.puts.toNetBuf]
  · rw [isNext, toUsrBuf, controls.puts.toUsrBuf]
  · rw [isNext, fmNetBuf, controls.puts.fmNetBuf]
  · rw [isNext, inSynCnt, controls.puts.inSynCnt]
    by_cases isDm : c = dmCode
    · rw [if_pos isDm, if_pos ⟨cmdstate, isDm⟩]
    · rw [if_neg isDm, if_neg fun both => isDm both.2]
  · rw [isNext, outSynCnt, toNetBuf]
    exact controls.puts.outSynCnt
  · exact controls.puts.whole
  · rw [controls.need]
    unfold replyNeed
    rw [cmdstate]
  · exact Nat.le_trans controls.few (by decide)

theorem takes_option {op : Op} (cmdstate : conn.cmdstate = .optionExp op) (c : Byte) :
    ∃ net usr, Takes conn c net usr := by
  have machine : advance conn.machine c =
      countDown (if conn.count = 0 then .escapeExp else .optionExp op) conn.count := by
    unfold advance NetConn.machine
    rw [cmdstate]
  have notCtrl : conn.cmdstate ≠ .ctrlExp := by
    rw [cmdstate]
    exact CmdState.noConfusion
  have isNeed : conn.replyNeed c = if conn.count = 0 ∧ conn.replies op
      (if conn.rest.length < 16 then conn.rest ++ [c] else conn.rest) = true then
      4 + (if conn.rest.length < 16 then conn.rest ++ [c] else conn.rest).length else 0 := by
    unfold replyNeed
    rw [cmdstate]
  have isNext := netChar_option cmdstate c
  unfold netOption at isNext
  dsimp only at isNext
  revert isNeed isNext
  generalize (if conn.rest.length < 16 then conn.rest ++ [c] else conn.rest) = more
  intro isNeed isNext
  by_cases last : conn.count = 0
  · rw [if_pos last] at machine isNext
    obtain ⟨net, puts, need⟩ := puts_negotiate { conn with rest := more } op more
    refine ⟨net, [], takes_of isNext ⟨puts.toNetBuf, puts.toUsrBuf, puts.fmNetBuf, puts.inSynCnt,
      puts.outSynCnt, puts.count, puts.whole⟩ notCtrl machine ?_ (Nat.zero_le _)⟩
    have same : ({ conn with rest := more } : NetConn).replies op more = conn.replies op more := rfl
    rw [isNeed, need, same]
    by_cases answers : conn.replies op more = true
    · rw [if_pos answers, if_pos ⟨last, answers⟩]
    · rw [if_neg answers, if_neg fun both => answers both.2]
  · rw [if_neg last] at machine isNext
    refine ⟨[], [], takes_of isNext ⟨rfl, rfl, rfl, rfl, .inl rfl, rfl, .nil⟩ notCtrl machine ?_
      (Nat.zero_le _)⟩
    rw [isNeed, if_neg fun both => last both.1]
    rfl

theorem takes_mode {request : Bool} (cmdstate : conn.cmdstate = .modeExp request) (c : Byte) :
    ∃ net usr, Takes conn c net usr := by
  have machine : advance conn.machine c = countDown .escapeExp conn.count := by
    unfold advance NetConn.machine
    rw [cmdstate]
    rfl
  have notCtrl : conn.cmdstate ≠ .ctrlExp := by
    rw [cmdstate]
    exact CmdState.noConfusion
  cases request with
  | false =>
    have isNext : conn.netChar c = conn.settle .escapeExp := by
      unfold netChar
      rw [cmdstate]
    refine ⟨[], [], takes_of isNext (.refl conn) notCtrl machine ?_ (Nat.zero_le _)⟩
    unfold replyNeed
    rw [cmdstate]
    rfl
  | true =>
    have sends := (sends_xMode conn (XMode.ofByte c)).trans (sends_putNet _ (record setModeCode [c]))
    have isNext : conn.netChar c = (({ conn with xMode := XMode.ofByte c } : NetConn).putNet
        (record setModeCode [c])).settle .escapeExp := by
      unfold netChar
      rw [cmdstate]
      rfl
    have puts := puts_sends sends (outSynCnt_putNet _ _) (whole_record setModeCode [c])
    refine ⟨_, [], takes_of isNext puts notCtrl machine ?_ (Nat.zero_le _)⟩
    unfold replyNeed
    rw [cmdstate]
    rfl

theorem takes_text (c : Byte) (text : conn.cmdstate = .countExp ∨
      (∃ times ≤ 255, conn.cmdstate = .charExp times) ∨ conn.cmdstate = .withinData) :
    ∃ net usr, Takes conn c net usr := by
  have none : 0 = conn.replyNeed c := by
    unfold replyNeed
    rcases text with cmdstate | ⟨_, _, cmdstate⟩ | cmdstate <;> rw [cmdstate]
  have notCtrl : conn.cmdstate ≠ .ctrlExp := by
    rcases text with cmdstate | ⟨_, _, cmdstate⟩ | cmdstate <;>
    · rw [cmdstate]
      exact CmdState.noConfusion
  rcases text with cmdstate | ⟨times, few, cmdstate⟩ | cmdstate
  · have machine : advance conn.machine c = countDown (.charExp c.toNat) conn.count := by
      unfold advance NetConn.machine
      rw [cmdstate]
    have isNext : conn.netChar c = conn.settle (.charExp c.toNat) := by
      unfold netChar
      rw [cmdstate]
    exact ⟨[], [], takes_of isNext (.refl conn) notCtrl machine none (Nat.zero_le _)⟩
  · have machine : advance conn.machine c = countDown .escapeExp conn.count := by
      unfold advance NetConn.machine
      rw [cmdstate]
      rfl
    have isNext : conn.netChar c =
        ((List.replicate times c).foldl userChar conn).settle .escapeExp := by
      unfold netChar
      rw [cmdstate]
    obtain ⟨⟨usr, fewer, puts⟩, _⟩ := puts_repeat conn c times
    exact ⟨[], usr, takes_of isNext puts notCtrl machine none (Nat.le_trans fewer few)⟩
  · have machine : advance conn.machine c = countDown .withinData conn.count := by
      unfold advance NetConn.machine
      rw [cmdstate]
    have isNext : conn.netChar c = (conn.userChar c).settle .withinData := by
      unfold netChar
      rw [cmdstate]
    obtain ⟨⟨usr, fewer, puts⟩, _⟩ := puts_userChar conn c
    exact ⟨[], usr, takes_of isNext puts notCtrl machine none (Nat.le_trans fewer (by decide))⟩

/-- A station repeats a character 255 times at most. -/
def Counted (conn : NetConn) : Prop := ∀ times, conn.cmdstate = .charExp times → times ≤ 255

theorem takes (counted : conn.Counted) (c : Byte) :
    ∃ net usr, Takes conn c net usr := by
  cases cmdstate : conn.cmdstate with
  | escapeExp => exact takes_escape cmdstate c
  | hibyteExp => exact ⟨[], [], takes_hibyte cmdstate c⟩
  | lobyteExp => exact ⟨[], [], takes_lobyte cmdstate c⟩
  | ctrlExp => exact takes_ctrl cmdstate c
  | optionExp op => exact takes_option cmdstate c
  | modeExp request => exact takes_mode cmdstate c
  | countExp => exact takes_text c (.inl cmdstate)
  | charExp times => exact takes_text c (.inr (.inl ⟨times, counted times cmdstate, cmdstate⟩))
  | withinData => exact takes_text c (.inr (.inr cmdstate))

theorem countDown_charExp {rstate : CmdState} {count : Nat}
    (charExp : (countDown rstate count).1 = .charExp times) : rstate = .charExp times := by
  unfold countDown at charExp
  split at charExp
  next =>
    split at charExp
    next =>
      split at charExp
      next => cases charExp
      next => exact charExp
    next => exact charExp
  next => exact charExp

theorem ctrlNext_charExp : ctrlNext c ≠ .charExp times := by
  unfold ctrlNext
  repeat' split
  all_goals exact CmdState.noConfusion

theorem advance_charExp {machine : CmdState × Nat}
    (charExp : (advance machine c).1 = .charExp times) : times ≤ 255 := by
  obtain ⟨cmdstate, count⟩ := machine
  unfold advance at charExp
  cases cmdstate with
  | escapeExp =>
    dsimp only at charExp
    split at charExp <;> cases charExp
  | hibyteExp => cases charExp
  | lobyteExp => cases charExp
  | ctrlExp => exact absurd (countDown_charExp charExp) ctrlNext_charExp
  | optionExp op =>
    have next := countDown_charExp charExp
    split at next <;> cases next
  | modeExp request => cases charExp
  | countExp =>
    have next := CmdState.charExp.inj (countDown_charExp charExp)
    have small := c.isLt
    omega
  | charExp ctrl => cases charExp
  | withinData => cases countDown_charExp charExp

theorem counted_netChar (counted : conn.Counted) (c : Byte) :
    (conn.netChar c).Counted := by
  obtain ⟨net, usr, takes⟩ := takes counted c
  intro times charExp
  have isNext : (advance conn.machine c).1 = .charExp times := by
    rw [← takes.machine]
    exact charExp
  exact advance_charExp isNext

end NetConn

end NetworkUnix.Telnet
