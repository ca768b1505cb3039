/-
This file proves when the Telnet program loses nothing for lack of room. The buffer for the user
always has room, since `NetCmd` looks for it before each byte. What is written to the net and
what is read from it fits as long as it is no more than there is room for; then what waits for
the net is whole characters and records.
-/

import NetworkUnix.Lib.Run
import NetworkUnix.Telnet.Received

namespace NetworkUnix.Telnet

/-- A connection, and how many of the characters that `FromUser` has read are still to be handled.
-/
structure Session where
  conn : NetConn
  left : Nat

namespace Session

/-- What the handlers do: `FromUser` reads, and what it has read is text or commands; the others are
called in between, and an interrupt comes at any time. -/
inductive Event
  | read (commands : Bool) (cap nread : Nat)
  | text (piece : List Byte)
  | control (arg : Byte)
  | option (op : Op) (args : List Byte)
  | mode (op : Op) (mode : XMode)
  | interrupt
  | urgent
  | fromNet (bytes : List Byte) (urgFlag : Bool)
  | netCmd
  | toNet (urgent normal : Bool)
  | toUser (nwrite : Nat)

def put (s : Session) (conn : NetConn) : Session := { s with conn := conn }

/-- A command has been typed; what is left is one character less at least. -/
def command (s : Session) (conn : NetConn) : Option Session :=
  if 0 < s.left then some { conn := conn, left := s.left - 1 } else none

/-- The effect of an event, if it can happen. -/
def act (s : Session) : Event → Option Session
  | .read commands cap nread =>
    if s.left = 0 ∧ nread ≤ s.conn.fromUserReq commands cap then some { s with left := nread } else none
  | .text piece =>
    if piece.length ≤ s.left then
      some { conn := s.conn.fromUser piece, left := s.left - piece.length }
    else none
  | .control arg => s.command (s.conn.netsend arg)
  | .option op args => s.command (s.conn.negotiate true op args)
  | .mode op mode => s.command (s.conn.modeCmd op mode)
  | .interrupt => some (s.put s.conn.netintr)
  | .urgent => if s.left = 0 then some (s.put s.conn.beginSynch) else none
  | .fromNet bytes urgFlag =>
    if s.left = 0 ∧ bytes.length ≤ s.conn.fromNetReq then some (s.put (s.conn.fromNet bytes urgFlag))
    else none
  | .netCmd =>
    match s.conn.netCmd with
    | some conn => if s.left = 0 then some (s.put conn) else none
    | none => none
  | .toNet urgent normal => if s.left = 0 then some (s.put (s.conn.toNet urgent normal).1) else none
  | .toUser nwrite => if s.left = 0 then some (s.put (s.conn.toUser nwrite).1) else none

def start (host : Host) (usingPty : Bool) : Session := ⟨.alloc host usingPty, 0⟩

/-- No character was lost, and what waits for the net is characters and whole records. -/
def Lossless (s : Session) : Prop :=
  (s.conn.toNetBuf.flushed = 0 ∧ s.conn.toUsrBuf.flushed = 0 ∧ s.conn.fmNetBuf.flushed = 0) ∧
    Whole s.conn.toNetBuf.bytes

/-! ### What is needed -/

/-- Text with what is added after CR. -/
def encoded (conn : NetConn) (piece : List Byte) : List Byte :=
  if conn.usingPty then (NetConn.served conn.toNetBin conn.toNetCr piece).1
  else NetConn.processed conn.toNetBin piece

/-- How many bytes a command that sends a control needs. -/
def controlNeed (arg : Byte) : Nat :=
  if arg = aoCode ∨ arg = breakCode ∨ arg = ipCode then 8
  else if arg = suspendCode ∨ arg = continueCode ∨ arg = aytCode ∨ arg = ecCode ∨ arg = elCode ∨
      arg = dmCode then 4
  else 0

/-- How many bytes a request about an option needs. -/
def optionNeed (conn : NetConn) (op : Op) (args : List Byte) : Nat :=
  if optlength (NetConn.opnumOf args) ≠ none ∧ optlength (NetConn.opnumOf args) ≠ some args.length then 0
  else if op.nstate = false ∨
    testf conn.host.ends conn.usingPty true (NetConn.opnumOf args) op.reverse args = true then 4 + args.length
  else 0

/-- There is room for what the handler writes to the net, or gets from it. -/
def Room (s : Session) : Event → Prop
  | .text piece => s.conn.bufNeed (encoded s.conn piece) ≤ s.conn.toNetBuf.free
  | .control arg => controlNeed arg ≤ s.conn.toNetBuf.free
  | .option op args => optionNeed s.conn op args ≤ s.conn.toNetBuf.free
  | .mode _ _ => 5 ≤ s.conn.toNetBuf.free
  | .interrupt => 8 ≤ s.conn.toNetBuf.free
  | .fromNet bytes _ => bytes.length ≤ s.conn.fmNetBuf.free
  | .netCmd => ∀ c ∈ s.conn.fmNetBuf.bytes.head?, s.conn.replyNeed c ≤ s.conn.toNetBuf.free
  | .read _ _ _ | .urgent | .toNet _ _ | .toUser _ => True

instance (s : Session) : ∀ e, Decidable (s.Room e)
  | .text _ | .control _ | .option _ _ | .mode _ _ | .interrupt | .fromNet _ _ =>
    inferInstanceAs (Decidable (_ ≤ _))
  | .netCmd => inferInstanceAs (Decidable (∀ c ∈ s.conn.fmNetBuf.bytes.head?, _ ≤ _))
  | .read _ _ _ | .urgent | .toNet _ _ | .toUser _ => inferInstanceAs (Decidable True)

/-! ### The invariant -/

/-- What holds of a connection. -/
structure Sound (conn : NetConn) : Prop where
  toNetBuf : conn.toNetBuf.flushed = 0 ∧ conn.toNetBuf.len ≤ cbufsize
  toUsrBuf : conn.toUsrBuf.flushed = 0 ∧ conn.toUsrBuf.len ≤ cbufsize
  fmNetBuf : conn.fmNetBuf.flushed = 0 ∧ conn.fmNetBuf.len ≤ cbufsize
  outSynCnt : conn.outSynCnt ≤ conn.toNetBuf.len
  urgent : Whole (conn.toNetBuf.bytes.take conn.outSynCnt)
  normal : Whole (conn.toNetBuf.bytes.drop conn.outSynCnt)
  counted : conn.Counted

variable {conn after : NetConn}

theorem Sound.whole (sound : Sound conn) : Whole conn.toNetBuf.bytes := by
  rw [← List.take_append_drop conn.outSynCnt conn.toNetBuf.bytes]
  exact sound.urgent.append sound.normal

theorem start_sound (host : Host) (usingPty : Bool) : Sound (start host usingPty).conn where
  toNetBuf := ⟨rfl, Nat.zero_le _⟩
  toUsrBuf := ⟨rfl, Nat.zero_le _⟩
  fmNetBuf := ⟨rfl, Nat.zero_le _⟩
  outSynCnt := Nat.le_refl 0
  urgent := .nil
  normal := .nil
  counted := fun _ charExp => CmdState.noConfusion charExp

theorem Sound.writes {net usr : List Byte} (sound : Sound conn)
    (toNetBuf : after.toNetBuf = conn.toNetBuf.puts net)
    (toUsrBuf : after.toUsrBuf = conn.toUsrBuf.puts usr) (fmNetBuf : after.fmNetBuf = conn.fmNetBuf)
    (outSynCnt : after.outSynCnt = conn.outSynCnt ∨ after.outSynCnt = after.toNetBuf.len)
    (counted : after.Counted) (whole : Whole net) (room : net.length ≤ conn.toNetBuf.free)
    (roomUsr : usr.length ≤ conn.toUsrBuf.free) : Sound after := by
  have puts := CircBuf.puts_room room sound.toNetBuf.2
  have putsUsr := CircBuf.puts_room roomUsr sound.toUsrBuf.2
  have bounded := CircBuf.puts_bounded sound.toNetBuf.2 net
  have boundedUsr := CircBuf.puts_bounded sound.toUsrBuf.2 usr
  have bytes : after.toNetBuf.bytes = conn.toNetBuf.bytes ++ net := by rw [toNetBuf, puts]
  have before : conn.outSynCnt ≤ conn.toNetBuf.bytes.length := sound.outSynCnt
  have all : Whole after.toNetBuf.bytes := by
    rw [bytes]
    exact sound.whole.append whole
  have cut : after.outSynCnt ≤ after.toNetBuf.len ∧
      Whole (after.toNetBuf.bytes.take after.outSynCnt) ∧
      Whole (after.toNetBuf.bytes.drop after.outSynCnt) := by
    rcases outSynCnt with same | synch
    · rw [same, bytes, List.take_append_of_le_length before, List.drop_append_of_le_length before]
      refine ⟨?_, sound.urgent, sound.normal.append whole⟩
      unfold CircBuf.len
      rw [bytes, List.length_append]
      omega
    · rw [synch]
      unfold CircBuf.len
      rw [List.take_length, List.drop_length]
      exact ⟨Nat.le_refl _, all, .nil⟩
  exact {
    toNetBuf := by
      rw [toNetBuf]
      refine ⟨?_, bounded⟩
      rw [puts]
      exact sound.toNetBuf.1
    toUsrBuf := by
      rw [toUsrBuf]
      refine ⟨?_, boundedUsr⟩
      rw [putsUsr]
      exact sound.toUsrBuf.1
    fmNetBuf := by
      rw [fmNetBuf]
      exact sound.fmNetBuf
    outSynCnt := cut.1
    urgent := cut.2.1
    normal := cut.2.2
    counted := counted }

theorem Sound.sends {net : List Byte} (sound : Sound conn) (sends : NetConn.Sends conn after net)
    (outSynCnt : after.outSynCnt = conn.outSynCnt ∨ after.outSynCnt = after.toNetBuf.len)
    (whole : Whole net) (room : net.length ≤ conn.toNetBuf.free) : Sound after := by
  refine @writes conn after net [] sound sends.toNetBuf sends.kept.toUsrBuf sends.kept.fmNetBuf outSynCnt
    ?_ whole room (Nat.zero_le _)
  intro times charExp
  exact sound.counted times (sends.kept.cmdstate.symm.trans charExp)

theorem Sound.text (sound : Sound conn) {piece : List Byte}
    (room : conn.bufNeed (encoded conn piece) ≤ conn.toNetBuf.free) :
    Sound (conn.fromUser piece) := by
  rw [← NetConn.length_bufText] at room
  have written : ∃ toNetCr, conn.fromUser piece =
      ({ conn with toNetCr := toNetCr } : NetConn).putNet (conn.bufText (encoded conn piece)) := by
    unfold NetConn.fromUser encoded
    by_cases isPty : conn.usingPty = true
    · rw [if_pos isPty, if_pos isPty]
      exact NetConn.servproc_eq conn piece
    · rw [if_neg isPty, if_neg isPty]
      exact ⟨conn.toNetCr, NetConn.process_eq conn piece⟩
  obtain ⟨toNetCr, isNext⟩ := written
  rw [isNext]
  have same : Sound { conn with toNetCr := toNetCr } := { sound with }
  exact same.sends (NetConn.sends_putNet _ _) (.inl rfl) (NetConn.whole_bufText ..) room

theorem Sound.record (sound : Sound conn) {ctrl : Byte} {args : List Byte}
    (sends : NetConn.Sends conn after (NetConn.record ctrl args))
    (outSynCnt : after.outSynCnt = conn.outSynCnt ∨ after.outSynCnt = after.toNetBuf.len)
    (room : args.length + 4 ≤ conn.toNetBuf.free) : Sound after := by
  refine sound.sends sends outSynCnt (NetConn.whole_record ctrl args) ?_
  rw [NetConn.length_record]
  exact room

theorem Sound.synch (sound : Sound conn) (ctrl : Byte) (room : 8 ≤ conn.toNetBuf.free) :
    Sound (conn.sendCtrl ctrl []).sendSynch := by
  have sends := (NetConn.sends_putNet conn (NetConn.record ctrl [])).trans
    (NetConn.sends_sendSynch (conn.putNet (NetConn.record ctrl [])))
  refine sound.sends sends (.inr (NetConn.outSynCnt_sendSynch _))
    ((NetConn.whole_record ctrl []).append (NetConn.whole_record dmCode [])) ?_
  rw [List.length_append, NetConn.length_record, NetConn.length_record]
  exact room

theorem Sound.locState (sound : Sound conn) (locState : Susp) :
    Sound { conn with locState } := { sound with }

theorem Sound.xMode (sound : Sound conn) (xMode : XMode) : Sound { conn with xMode } :=
  { sound with }

theorem Sound.control (sound : Sound conn) {arg : Byte}
    (room : controlNeed arg ≤ conn.toNetBuf.free) : Sound (conn.netsend arg) := by
  have once : ∀ ctrl, 4 ≤ conn.toNetBuf.free → Sound (conn.sendCtrl ctrl []) := fun ctrl four =>
    sound.record (NetConn.sends_putNet conn (NetConn.record ctrl []))
      (.inl (NetConn.outSynCnt_putNet _ _)) four
  unfold NetConn.netsend
  unfold controlNeed at room
  split
  next isSuspend =>
    rw [isSuspend] at room
    exact (once suspendCode room).locState .susping
  next notSuspend =>
    split
    next isContinue =>
      rw [isContinue] at room
      exact (once continueCode room).locState .active
    next notContinue =>
      split
      next urgent =>
        rw [if_pos urgent] at room
        exact sound.synch arg room
      next notUrgent =>
        rw [if_neg notUrgent] at room
        split
        next plain =>
          refine once arg ?_
          rcases plain with rfl | rfl | rfl <;> exact room
        next =>
          split
          next isDm =>
            rw [isDm] at room
            exact sound.record (NetConn.sends_sendSynch conn) (.inr rfl) room
          next => exact sound

theorem Sound.option (sound : Sound conn) {op : Op} {args : List Byte}
    (room : optionNeed conn op args ≤ conn.toNetBuf.free) : Sound (conn.negotiate true op args) := by
  have kept := NetConn.outSynCnt_negotiate conn true op args
  unfold NetConn.negotiate at *
  unfold optionNeed at room
  by_cases wrong : optlength (NetConn.opnumOf args) ≠ none ∧
      optlength (NetConn.opnumOf args) ≠ some args.length
  · rw [if_pos wrong]
    exact sound
  · rw [if_neg wrong] at room kept ⊢
    rw [if_pos rfl] at kept ⊢
    have sends := NetConn.sends_originate conn op.reverse args
    have nstate : op.reverse.nstate = op.nstate := by cases op <;> rfl
    rw [nstate] at sends
    split at sends
    next can =>
      rw [if_pos can] at room
      rw [Nat.add_comm] at room
      exact sound.record sends (.inl kept) room
    next => exact sound.sends sends (.inl kept) .nil (Nat.zero_le _)

theorem Sound.mode (sound : Sound conn) {op : Op} {mode : XMode} (room : 5 ≤ conn.toNetBuf.free) :
    Sound (conn.modeCmd op mode) := by
  have sends (ctrl : Byte) : Sound (conn.sendCtrl ctrl [mode.code]) :=
    sound.record (NetConn.sends_putNet conn (NetConn.record ctrl [mode.code]))
      (.inl (NetConn.outSynCnt_putNet _ _)) room
  have sets := (sends setModeCode).xMode mode
  have asks := sends requestModeCode
  cases op with
  | will => exact sets
  | wont => exact sets
  | do_ => exact asks
  | dont => exact asks

theorem Sound.interrupt (sound : Sound conn) (room : 8 ≤ conn.toNetBuf.free) :
    Sound conn.netintr := sound.synch ipCode room

theorem Sound.beginSynch (sound : Sound conn) : Sound conn.beginSynch :=
  { sound with toUsrBuf := ⟨sound.toUsrBuf.1, Nat.zero_le _⟩ }

theorem Sound.fromNet (sound : Sound conn) {bytes : List Byte} {urgFlag : Bool}
    (room : bytes.length ≤ conn.fmNetBuf.free) : Sound (conn.fromNet bytes urgFlag) := by
  have fits : ∀ {begun : NetConn}, Sound begun → begun.fmNetBuf = conn.fmNetBuf →
      Sound { begun with fmNetBuf := begun.fmNetBuf.puts bytes } := by
    intro begun sound same
    refine { sound with fmNetBuf := ⟨?_, CircBuf.puts_bounded sound.fmNetBuf.2 bytes⟩ }
    rw [← same] at room
    rw [CircBuf.puts_room room sound.fmNetBuf.2]
    exact sound.fmNetBuf.1
  cases urgFlag with
  | false => exact fits sound rfl
  | true => exact fits sound.beginSynch rfl

theorem Sound.netCmd {next : NetConn} (sound : Sound conn) (taken : conn.netCmd = some next)
    (room : ∀ c ∈ conn.fmNetBuf.bytes.head?, conn.replyNeed c ≤ conn.toNetBuf.free) : Sound next := by
  unfold NetConn.netCmd at taken
  cases isBytes : conn.fmNetBuf.bytes with
  | nil =>
    rw [isBytes] at taken
    cases taken
  | cons c rest =>
    rw [isBytes] at taken room
    obtain ⟨free, isNext⟩ := Option.ite_none_right_eq_some.mp taken
    have less : rest.length ≤ cbufsize := by
      have bounded := sound.fmNetBuf.2
      unfold CircBuf.len at bounded
      rw [isBytes, List.length_cons] at bounded
      omega
    have read : Sound { conn with fmNetBuf := { conn.fmNetBuf with bytes := rest } } :=
      { sound with fmNetBuf := ⟨sound.fmNetBuf.1, less⟩ }
    obtain ⟨net, usr, takes⟩ := NetConn.takes read.counted c
    have need := room c rfl
    have few := takes.few
    have grow : usergrow = 255 := rfl
    rw [← Option.some.inj isNext]
    refine read.writes takes.toNetBuf takes.toUsrBuf takes.fmNetBuf takes.outSynCnt
      (NetConn.counted_netChar read.counted c) takes.whole ?_ ?_
    · rw [takes.need]
      exact need
    · show usr.length ≤ conn.toUsrBuf.free
      omega

theorem Sound.toNet (sound : Sound conn) (urgent normal : Bool) :
    Sound (conn.toNet urgent normal).1 := by
  have empty : Sound { conn with outSynCnt := 0, toNetBuf := conn.toNetBuf.init } :=
    { sound with
      toNetBuf := ⟨sound.toNetBuf.1, Nat.zero_le _⟩
      outSynCnt := Nat.zero_le _
      urgent := .nil
      normal := .nil }
  have kept : (conn.toNetBuf.bytes.drop conn.outSynCnt).length ≤ cbufsize := by
    refine Nat.le_trans ?_ sound.toNetBuf.2
    rw [List.length_drop]
    exact Nat.sub_le _ _
  have partly : Sound { conn with
      outSynCnt := 0
      toNetBuf := { conn.toNetBuf with bytes := conn.toNetBuf.bytes.drop conn.outSynCnt } } :=
    { sound with
      toNetBuf := ⟨sound.toNetBuf.1, kept⟩
      outSynCnt := Nat.zero_le _
      urgent := .nil
      normal := sound.normal }
  unfold NetConn.toNet
  dsimp only
  split
  next =>
    split
    next => exact { sound with }
    next => exact sound
  next =>
    split
    next => exact sound
    next =>
      split
      next => exact sound
      next =>
        split
        next => exact empty
        next => exact partly

theorem Sound.toUser (sound : Sound conn) (nwrite : Nat) :
    Sound (conn.toUser nwrite).1 := by
  have fewer : (conn.toUsrBuf.bytes.drop nwrite).length ≤ cbufsize := by
    refine Nat.le_trans ?_ sound.toUsrBuf.2
    rw [List.length_drop]
    exact Nat.sub_le _ _
  exact { sound with toUsrBuf := ⟨sound.toUsrBuf.1, fewer⟩ }

theorem Sound.act {s s' : Session} {event : Event} (sound : Sound s.conn) (room : s.Room event)
    (taken : s.act event = some s') : Sound s'.conn := by
  have command : ∀ {conn : NetConn}, Sound conn → s.command conn = some s' → Sound s'.conn := by
    intro conn sound taken
    obtain ⟨_, same⟩ := Option.ite_none_right_eq_some.mp taken
    rw [← Option.some.inj same]
    exact sound
  have handler : ∀ {conn : NetConn}, Sound conn →
      (if s.left = 0 then some (s.put conn) else none) = some s' → Sound s'.conn := by
    intro conn sound taken
    obtain ⟨_, same⟩ := Option.ite_none_right_eq_some.mp taken
    rw [← Option.some.inj same]
    exact sound
  cases event with
  | read commands cap nread =>
    obtain ⟨_, same⟩ := Option.ite_none_right_eq_some.mp taken
    rw [← Option.some.inj same]
    exact sound
  | text piece =>
    obtain ⟨_, same⟩ := Option.ite_none_right_eq_some.mp taken
    rw [← Option.some.inj same]
    exact sound.text room
  | control arg => exact command (sound.control room) taken
  | option op args => exact command (sound.option room) taken
  | mode op mode => exact command (sound.mode room) taken
  | interrupt =>
    rw [← Option.some.inj taken]
    exact sound.interrupt room
  | urgent => exact handler sound.beginSynch taken
  | fromNet bytes urgFlag =>
    obtain ⟨_, same⟩ := Option.ite_none_right_eq_some.mp taken
    rw [← Option.some.inj same]
    exact sound.fromNet room
  | netCmd =>
    unfold Session.act at taken
    dsimp only at taken
    cases isNext : s.conn.netCmd with
    | none =>
      rw [isNext] at taken
      cases taken
    | some conn =>
      rw [isNext] at taken
      exact handler (sound.netCmd isNext room) taken
  | toNet urgent normal => exact handler (sound.toNet urgent normal) taken
  | toUser nwrite => exact handler (sound.toUser nwrite) taken

/-- In every run in which there is room for what each handler writes to the net and gets from it, no
character is lost, and what waits for the net is characters and whole records. -/
theorem room_enough {host : Host} {usingPty : Bool} {history : List Event} {s : Session}
    (run : Transition.Run (Transition.Guarded (Transition.Takes act) Room) (start host usingPty)
      history s) : s.Lossless := by
  have sound : Sound s.conn := run.always (fun s => Sound s.conn) (start_sound host usingPty)
    fun _ _ _ sound taken => sound.act taken.1 taken.2
  exact ⟨⟨sound.toNetBuf.1, sound.toUsrBuf.1, sound.fmNetBuf.1⟩, sound.whole⟩

def someHost : Host := ⟨0o10, 0o30, 0o177, false⟩

/-- The user types text and commands, and the server sends text, a repeated character and AYT. -/
def busy : List Event :=
  [Event.read true 80 6, .text [0x61, cr, iac], .mode .will .record, .option .do_ [1],
    .text [0x62], .interrupt, .toNet true false,
    .fromNet ([0x63] ++ NetConn.record repeatCode [200, 0x64] ++ NetConn.record aytCode []) false] ++
    List.replicate 11 Event.netCmd ++ [Event.urgent, .toUser 10, .toNet false true]

theorem room_enough_busy : (Transition.last act (start someHost false) busy).Lossless :=
  room_enough (Transition.run_can (by decide +kernel))

/-- The server asks 56 times whether the user is there. -/
def curious : List Event :=
  .fromNet (List.replicate 56 (NetConn.record aytCode [])).flatten false ::
    List.replicate 224 Event.netCmd

theorem curious_overflows :
    ∃ s, Transition.Run (Transition.Takes act) (start someHost false) curious s ∧ ¬ s.Lossless := by
  refine ⟨_, Transition.run_all (by decide +kernel), fun lossless => ?_⟩
  have none := lossless.1.1
  revert none
  decide +kernel

end Session

end NetworkUnix.Telnet
