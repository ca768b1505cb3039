/-
This file says what the routines of the Telnet program put in the circular buffers. Whatever a
routine writes to the net is a single text, so that room is needed for that text and for no
more; what it does besides is told apart from it.
-/

import NetworkUnix.Telnet.Handlers

namespace NetworkUnix.Telnet

/-! ### Circular buffers -/

namespace CircBuf

variable {b : CircBuf} {text : List Byte}

theorem puts_append (b : CircBuf) (text more : List Byte) :
    b.puts (text ++ more) = (b.puts text).puts more :=
  List.foldl_append

theorem puts_eq (bounded : b.len ≤ cbufsize) (text : List Byte) :
    b.puts text = ⟨b.bytes ++ text.take b.free, b.flushed + (text.length - b.free)⟩ := by
  induction text generalizing b with
  | nil =>
    rw [List.take_nil, List.append_nil, List.length_nil, Nat.zero_sub, Nat.add_zero]
    rfl
  | cons c rest inductionHypothesis =>
    show (b.putc c).puts rest = _
    by_cases full : b.len = cbufsize
    · have once : b.putc c = { b with flushed := b.flushed + 1 } := if_pos full
      have none : b.free = 0 := by
        unfold free
        omega
      have lost : ({ b with flushed := b.flushed + 1 } : CircBuf).puts rest =
          ⟨b.bytes ++ rest.take b.free, b.flushed + 1 + (rest.length - b.free)⟩ :=
        inductionHypothesis bounded
      rw [once, lost, none, List.take_zero, List.take_zero, List.length_cons, Nat.sub_zero, Nat.sub_zero,
        Nat.add_assoc, Nat.add_comm 1]
    · have once : b.putc c = { b with bytes := b.bytes ++ [c] } := if_neg full
      have len : (b.putc c).len = b.len + 1 := by
        rw [once]
        exact List.length_append
      obtain ⟨left, isLeft⟩ : ∃ left, b.free = left + 1 :=
        Nat.exists_eq_succ_of_ne_zero (by unfold free; omega)
      have less : (b.putc c).free = left := by
        unfold free at *
        omega
      rw [inductionHypothesis (by omega), less, isLeft, List.take_succ_cons, List.length_cons,
        Nat.add_sub_add_right, once, List.append_assoc, List.singleton_append]

theorem puts_flushed_iff (bounded : b.len ≤ cbufsize) :
    (b.puts text).flushed = b.flushed ↔ text.length ≤ b.free := by
  rw [puts_eq bounded]
  show b.flushed + _ = b.flushed ↔ _
  omega

theorem puts_room (room : text.length ≤ b.free) (bounded : b.len ≤ cbufsize) :
    b.puts text = { b with bytes := b.bytes ++ text } := by
  rw [puts_eq bounded, List.take_of_length_le room, Nat.sub_eq_zero_of_le room, Nat.add_zero]

theorem puts_bounded (bounded : b.len ≤ cbufsize) (text : List Byte) :
    (b.puts text).len ≤ cbufsize := by
  rw [puts_eq bounded]
  show (b.bytes ++ text.take b.free).length ≤ cbufsize
  have isLen : b.len = b.bytes.length := rfl
  have isFree : b.free = cbufsize - b.len := rfl
  rw [List.length_append, List.length_take]
  omega

end CircBuf

namespace NetConn

/-! ### Text to the net -/

theorem putNet_nil (conn : NetConn) : conn.putNet [] = conn := rfl

theorem putNet_putNet (conn : NetConn) (text more : List Byte) :
    (conn.putNet text).putNet more = conn.putNet (text ++ more) := by
  unfold putNet
  rw [CircBuf.puts_append]

theorem length_record (ctrl : Byte) (args : List Byte) :
    (record ctrl args).length = args.length + 4 := rfl

/-- What `NetBuf` makes of text. -/
def netText (xMode : XMode) (recSize : Int) (buf : List Byte) : List Byte :=
  if InRecords xMode buf then (cut recSize buf.length buf).flatMap (record dataCode) else buf

theorem netText_nil (xMode : XMode) (recSize : Int) : netText xMode recSize [] = [] := by
  unfold netText
  split <;> rfl

theorem netBuf_eq (conn : NetConn) (buf : List Byte) :
    conn.netBuf buf = conn.putNet (netText conn.xMode conn.recSize buf) := by
  have fold : ∀ (chunks : List (List Byte)) (conn : NetConn),
      chunks.foldl (fun conn chunk => conn.sendCtrl dataCode chunk) conn =
        conn.putNet (chunks.flatMap (record dataCode)) := by
    intro chunks
    induction chunks with
    | nil => exact fun _ => rfl
    | cons chunk rest inductionHypothesis =>
      intro conn
      rw [List.foldl_cons, inductionHypothesis, List.flatMap_cons]
      exact putNet_putNet ..
  unfold netBuf netText
  split
  · exact fold _ conn
  · rfl

theorem cut_flatten (recSize : Int) {fuel : Nat} {buf : List Byte} (enough : buf.length ≤ fuel) :
    (cut recSize fuel buf).flatten = buf := by
  induction fuel generalizing buf with
  | zero =>
    rw [List.length_eq_zero_iff.mp (Nat.le_zero.mp enough)]
    rfl
  | succ fuel inductionHypothesis =>
    unfold cut
    split
    next none =>
      rw [none]
      rfl
    next =>
      split
      next chunks =>
        have shorter : (buf.drop recSize.toNat).length ≤ fuel := by
          rw [List.length_drop]
          omega
        rw [List.flatten_cons, inductionHypothesis shorter, List.take_append_drop]
      next => exact List.flatten_singleton

theorem cut_some {recSize : Int} {fuel : Nat} {buf chunk : List Byte}
    (member : chunk ∈ cut recSize fuel buf) : chunk ≠ [] := by
  induction fuel generalizing buf with
  | zero => cases member
  | succ fuel inductionHypothesis =>
    unfold cut at member
    split at member
    next => cases member
    next some =>
      split at member
      next chunks =>
        rcases List.mem_cons.mp member with rfl | later
        · intro none
          have length := congrArg List.length none
          rw [List.length_take, List.length_nil] at length
          omega
        · exact inductionHypothesis later
      next =>
        rw [List.mem_singleton.mp member]
        exact some

/-- What the loop of `SendBuf` makes of text, with `obuf` before it and `crlf` in the place of VT or
FF. -/
def loopText (conn : NetConn) (crlf : List Byte) : List Byte → List Byte → List Byte
  | obuf, [] => netText conn.xMode conn.recSize obuf
  | obuf, c :: rest =>
    match optnum c with
    | none => loopText conn crlf (obuf ++ [c]) rest
    | some opnum =>
      if conn.action opnum = dispDiscard then loopText conn crlf obuf rest
      else if conn.action opnum = dispCrlf ∧ (c = 0o13 ∨ c = 0o14) then
        netText conn.xMode conn.recSize obuf ++ crlf ++ loopText conn crlf [] rest
      else if conn.action opnum ≠ 0 then
        netText conn.xMode conn.recSize (obuf ++ [c]) ++ record repeatCode [conn.action opnum, 0] ++
          loopText conn crlf [] rest
      else loopText conn crlf (obuf ++ [c]) rest

/-- What `SendBuf` makes of text. -/
def bufText (conn : NetConn) (buf : List Byte) : List Byte :=
  loopText conn (loopText conn [] [] [cr, lf]) [] buf

theorem loopText_congr {conn other : NetConn} (action : other.action = conn.action)
    (xMode : other.xMode = conn.xMode) (recSize : other.recSize = conn.recSize)
    (crlf obuf buf : List Byte) : loopText other crlf obuf buf = loopText conn crlf obuf buf := by
  induction buf generalizing obuf with
  | nil =>
    unfold loopText
    rw [xMode, recSize]
  | cons c rest inductionHypothesis =>
    unfold loopText
    simp only [inductionHypothesis, action, xMode, recSize]

theorem loopText_putNet (conn : NetConn) (text crlf obuf buf : List Byte) :
    loopText (conn.putNet text) crlf obuf buf = loopText conn crlf obuf buf :=
  have action : (conn.putNet text).action = conn.action := rfl
  loopText_congr action rfl rfl crlf obuf buf

theorem bufText_congr {conn other : NetConn} (action : other.action = conn.action)
    (xMode : other.xMode = conn.xMode) (recSize : other.recSize = conn.recSize) (buf : List Byte) :
    other.bufText buf = conn.bufText buf := by
  unfold bufText
  rw [loopText_congr action xMode recSize, loopText_congr action xMode recSize]

theorem bufText_nil (conn : NetConn) : conn.bufText [] = [] := netText_nil ..

theorem sendLoop_eq {call : NetConn → NetConn} {crlf : List Byte} (conn : NetConn)
    (calls : ∀ text, call (conn.putNet text) = (conn.putNet text).putNet crlf)
    (obuf buf : List Byte) :
    sendLoop call conn obuf buf = conn.putNet (loopText conn crlf obuf buf) := by
  induction buf generalizing conn obuf with
  | nil =>
    unfold sendLoop loopText
    split
    next none =>
      rw [none, netText_nil]
      rfl
    next => exact netBuf_eq ..
  | cons c rest inductionHypothesis =>
    have later : ∀ text obuf, sendLoop call (conn.putNet text) obuf rest =
        conn.putNet (text ++ loopText conn crlf obuf rest) := by
      intro text obuf
      rw [inductionHypothesis (conn.putNet text), loopText_putNet, putNet_putNet]
      intro more
      rw [putNet_putNet]
      exact calls _
    unfold sendLoop loopText
    cases optnum c with
    | none => exact inductionHypothesis conn calls _
    | some opnum =>
      dsimp only
      split
      next => exact inductionHypothesis conn calls _
      next =>
        split
        next =>
          rw [netBuf_eq, calls, putNet_putNet]
          exact later _ _
        next =>
          split
          next =>
            rw [netBuf_eq]
            show sendLoop call ((conn.putNet _).putNet _) _ _ = _
            rw [putNet_putNet]
            exact later _ _
          next => exact inductionHypothesis conn calls _

theorem sendBuf_eq (conn : NetConn) (buf : List Byte) :
    conn.sendBuf buf = conn.putNet (conn.bufText buf) := by
  refine sendLoop_eq conn (fun text => ?_) [] buf
  rw [sendLoop_eq (conn.putNet text) (fun _ => (putNet_nil _).symm), loopText_putNet]

theorem process_eq (conn : NetConn) (piece : List Byte) :
    conn.process piece = conn.putNet (conn.bufText (processed conn.toNetBin piece)) := by
  unfold process
  split
  next none =>
    rw [none]
    show conn = conn.putNet (conn.bufText [])
    rw [bufText_nil]
    rfl
  next => exact sendBuf_eq ..

theorem servproc_eq (conn : NetConn) (piece : List Byte) :
    ∃ toNetCr, conn.servproc piece = ({ conn with toNetCr := toNetCr } : NetConn).putNet
      (conn.bufText (served conn.toNetBin conn.toNetCr piece).1) := by
  unfold servproc
  dsimp only
  split
  next none =>
    refine ⟨conn.toNetCr, ?_⟩
    rw [none, bufText_nil]
    rfl
  next =>
    have action : ({ conn with
      toNetCr := (served conn.toNetBin conn.toNetCr piece).2 } : NetConn).action = conn.action := rfl
    refine ⟨(served conn.toNetBin conn.toNetCr piece).2, ?_⟩
    rw [sendBuf_eq, bufText_congr action rfl rfl]

/-! ### What else changes -/

/-- What the negotiation of options leaves alone. -/
structure Kept (conn after : NetConn) : Prop where
  usingPty : after.usingPty = conn.usingPty
  inSynCnt : after.inSynCnt = conn.inSynCnt
  toNetCr : after.toNetCr = conn.toNetCr
  toUsrCr : after.toUsrCr = conn.toUsrCr
  toUsrBuf : after.toUsrBuf = conn.toUsrBuf
  fmNetBuf : after.fmNetBuf = conn.fmNetBuf
  cmdstate : after.cmdstate = conn.cmdstate
  count : after.count = conn.count
  rest : after.rest = conn.rest

theorem Kept.refl (conn : NetConn) : Kept conn conn := ⟨rfl, rfl, rfl, rfl, rfl, rfl, rfl, rfl, rfl⟩

theorem Kept.trans {conn after next : NetConn} (first : Kept conn after) (second : Kept after next) :
    Kept conn next where
  usingPty := second.usingPty.trans first.usingPty
  inSynCnt := second.inSynCnt.trans first.inSynCnt
  toNetCr := second.toNetCr.trans first.toNetCr
  toUsrCr := second.toUsrCr.trans first.toUsrCr
  toUsrBuf := second.toUsrBuf.trans first.toUsrBuf
  fmNetBuf := second.fmNetBuf.trans first.fmNetBuf
  cmdstate := second.cmdstate.trans first.cmdstate
  count := second.count.trans first.count
  rest := second.rest.trans first.rest

/-- A station does nothing of this but to write a text to the net. -/
structure Sends (conn after : NetConn) (text : List Byte) : Prop where
  kept : Kept conn after
  toNetBuf : after.toNetBuf = conn.toNetBuf.puts text

theorem Sends.refl (conn : NetConn) : Sends conn conn [] := ⟨.refl conn, rfl⟩

theorem Sends.trans {conn after next : NetConn} {text more : List Byte}
    (first : Sends conn after text) (second : Sends after next more) :
    Sends conn next (text ++ more) where
  kept := first.kept.trans second.kept
  toNetBuf := by rw [second.toNetBuf, first.toNetBuf, CircBuf.puts_append]

theorem sends_putNet (conn : NetConn) (text : List Byte) : Sends conn (conn.putNet text) text :=
  ⟨⟨rfl, rfl, rfl, rfl, rfl, rfl, rfl, rfl, rfl⟩, rfl⟩

theorem Sends.still {conn after next : NetConn} {text : List Byte} (first : Sends conn after text)
    (second : Sends after next []) : Sends conn next text := by
  have both := first.trans second
  rw [List.append_nil] at both
  exact both

theorem sends_actf (conn : NetConn) (opnum : Nat) (op : Op) (args : List Byte) :
    Sends conn (conn.actf opnum op args) [] := by
  unfold actf
  split
  · cases op <;> exact ⟨⟨rfl, rfl, rfl, rfl, rfl, rfl, rfl, rfl, rfl⟩, rfl⟩
  · repeat' split
    all_goals exact ⟨⟨rfl, rfl, rfl, rfl, rfl, rfl, rfl, rfl, rfl⟩, rfl⟩

theorem sends_setState (conn : NetConn) (opnum : Nat) (side : Side) (nstate : Bool) :
    Sends conn (conn.setState opnum side nstate) [] :=
  ⟨⟨rfl, rfl, rfl, rfl, rfl, rfl, rfl, rfl, rfl⟩, rfl⟩

theorem sends_setOrig (conn : NetConn) (opnum : Nat) (side : Side) (orig : Bool) :
    Sends conn (conn.setOrig opnum side orig) [] :=
  ⟨⟨rfl, rfl, rfl, rfl, rfl, rfl, rfl, rfl, rfl⟩, rfl⟩

theorem sends_setValue (conn : NetConn) (opnum : Nat) (side : Side) (values : List Byte) :
    Sends conn (conn.setValue opnum side values) [] :=
  ⟨⟨rfl, rfl, rfl, rfl, rfl, rfl, rfl, rfl, rfl⟩, rfl⟩

theorem sends_xMode (conn : NetConn) (mode : XMode) : Sends conn { conn with xMode := mode } [] :=
  ⟨⟨rfl, rfl, rfl, rfl, rfl, rfl, rfl, rfl, rfl⟩, rfl⟩

theorem sends_locState (conn : NetConn) (next : Susp) : Sends conn { conn with locState := next } [] :=
  ⟨⟨rfl, rfl, rfl, rfl, rfl, rfl, rfl, rfl, rfl⟩, rfl⟩

theorem sends_remState (conn : NetConn) (next : Susp) : Sends conn { conn with remState := next } [] :=
  ⟨⟨rfl, rfl, rfl, rfl, rfl, rfl, rfl, rfl, rfl⟩, rfl⟩

theorem sends_outSynCnt (conn : NetConn) (count : Nat) :
    Sends conn { conn with outSynCnt := count } [] :=
  ⟨⟨rfl, rfl, rfl, rfl, rfl, rfl, rfl, rfl, rfl⟩, rfl⟩

theorem sends_sendSynch (conn : NetConn) : Sends conn conn.sendSynch (record dmCode []) :=
  (sends_putNet conn (record dmCode [])).still (sends_outSynCnt _ _)

theorem outSynCnt_sendSynch (conn : NetConn) : conn.sendSynch.outSynCnt = conn.sendSynch.toNetBuf.len :=
  rfl

/-- The option that `SendReply` replies with. -/
def replyOp (reply : Bool) : Op → Op
  | .do_ => if reply then .will else .wont
  | .will => if reply then .do_ else .dont
  | .dont => .wont
  | .wont => .dont

section

variable (conn : NetConn)
include conn

theorem sends_sendReply (reply : Bool) (op : Op) (args : List Byte) :
    Sends conn (conn.sendReply reply op args) (record (replyOp reply op).ctrl args) := by
  cases op <;> cases reply <;> exact sends_putNet conn _

theorem sends_originate (op : Op) (args : List Byte) :
    Sends conn (conn.originate op args)
      (if op.nstate = false ∨ testf conn.host.ends conn.usingPty true (opnumOf args) op args = true then
        record (replyOp true op).ctrl args else []) := by
  unfold originate
  dsimp only
  split
  next =>
    exact ((sends_sendReply conn true op args).still (sends_setOrig ..)).still (sends_setValue ..)
  next => exact .refl conn

theorem sends_answer (op : Op) (args : List Byte) :
    Sends conn (conn.answer op args) (if conn.already op args then [] else
      record (replyOp (!op.nstate || testf conn.host.ends conn.usingPty false (opnumOf args) op args)
        op).ctrl args) := by
  unfold answer
  dsimp only
  split
  next => exact .refl conn
  next =>
    have replied := (sends_setValue conn (opnumOf args) op.side args.tail).trans
      (sends_sendReply _ (!op.nstate || testf conn.host.ends conn.usingPty false (opnumOf args) op
        args) op args)
    split
    next =>
      exact ((replied.still (sends_actf ..)).still (sends_setState ..)).still (sends_setValue ..)
    next => exact replied

theorem sends_settled (op : Op) (args : List Byte) :
    Sends conn (conn.settled op args) [] :=
  (((sends_actf conn (opnumOf args) op args).still (sends_setOrig ..)).still
    (sends_setState ..)).still (sends_setValue ..)

theorem sends_negotiate (orgHere : Bool) (op : Op) (args : List Byte) :
    Sends conn (conn.negotiate orgHere op args) [] ∨
      ∃ op' : Op, Sends conn (conn.negotiate orgHere op args) (record op'.ctrl args) := by
  unfold negotiate
  split
  next => exact .inl (.refl conn)
  next =>
    split
    next =>
      have sends := sends_originate conn op.reverse args
      split at sends
      next => exact .inr ⟨_, sends⟩
      next => exact .inl sends
    next =>
      split
      next =>
        have sends := sends_answer conn op args
        split at sends
        next => exact .inl sends
        next => exact .inr ⟨_, sends⟩
      next => exact .inl (sends_settled conn op args)

/-! ### The urgent count -/

theorem outSynCnt_putNet (text : List Byte) :
    (conn.putNet text).outSynCnt = conn.outSynCnt := rfl

theorem outSynCnt_setState (opnum : Nat) (side : Side) (nstate : Bool) :
    (conn.setState opnum side nstate).outSynCnt = conn.outSynCnt := rfl

theorem outSynCnt_setOrig (opnum : Nat) (side : Side) (orig : Bool) :
    (conn.setOrig opnum side orig).outSynCnt = conn.outSynCnt := rfl

theorem outSynCnt_setValue (opnum : Nat) (side : Side) (values : List Byte) :
    (conn.setValue opnum side values).outSynCnt = conn.outSynCnt := rfl

theorem outSynCnt_actf (opnum : Nat) (op : Op) (args : List Byte) :
    (conn.actf opnum op args).outSynCnt = conn.outSynCnt := by
  unfold actf
  split
  · cases op <;> rfl
  · repeat' split
    all_goals rfl

theorem outSynCnt_sendReply (reply : Bool) (op : Op) (args : List Byte) :
    (conn.sendReply reply op args).outSynCnt = conn.outSynCnt := by
  cases op <;> rfl

theorem outSynCnt_negotiate (orgHere : Bool) (op : Op) (args : List Byte) :
    (conn.negotiate orgHere op args).outSynCnt = conn.outSynCnt := by
  unfold negotiate
  split
  next => rfl
  next =>
    split
    next =>
      unfold originate
      dsimp only
      split
      next => rw [outSynCnt_setValue, outSynCnt_setOrig, outSynCnt_sendReply]
      next => rfl
    next =>
      split
      next =>
        unfold answer
        dsimp only
        split
        next => rfl
        next =>
          split
          next =>
            rw [outSynCnt_setValue, outSynCnt_setState, outSynCnt_actf, outSynCnt_sendReply,
              outSynCnt_setValue]
          next => rw [outSynCnt_sendReply, outSynCnt_setValue]
      next =>
        unfold settled
        dsimp only
        rw [outSynCnt_setValue, outSynCnt_setState, outSynCnt_setOrig, outSynCnt_actf]

end

end NetConn

end NetworkUnix.Telnet
