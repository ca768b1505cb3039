/-
This file proves that discarding ends. Urgent notices come by the command port, where `CmdNet`
reads them or, while it waits for a reply, the library does and keeps them for later; data comes
by the receive ports. As long as no notice is reported after its data mark has been read and no
byte is lost for lack of room, a station discards text only up to a data mark that is still to
come.
-/

import NetworkUnix.Lib.Run
import NetworkUnix.Telnet.Received
import Mathlib.Algebra.GroupWithZero.Nat

namespace NetworkUnix.Telnet

/-! ### The library -/

/-- NUMBCONNS -/
def numbconns : Nat := 10

/-- A connection: `UserTcb` with the urgent event and the others in `CNFlags`, its `NetConn`, and
how much has arrived at its receive port and been read from there. -/
structure UserTcb where
  conn : NetConn
  rcvCount : BitVec 32
  urgCount : BitVec 32
  urgent : Bool
  others : Bool
  arrived : Nat
  received : Nat

/-- What TCP writes to the command port: an urgent notice, or a notice of another kind. -/
inductive Notice
  | urgent (handle : Nat) (byteNo : BitVec 32)
  | other (handle : Nat)
  deriving DecidableEq

/-- The connections and what is in the command port. -/
structure Library where
  tcb : Nat → UserTcb
  port : List Notice

/-- What the peers send: the bytes on each connection. -/
abbrev Peers := Nat → Nat → Byte

/-- Where the machine is after the first bytes from a peer. -/
def heard (bytes : Nat → Byte) : Nat → CmdState × Nat
  | 0 => (.escapeExp, 0)
  | n + 1 => NetConn.advance (heard bytes n) (bytes n)

/-- The first `n` bytes from a peer end with a data mark. -/
def Marks (bytes : Nat → Byte) (n : Nat) : Prop :=
  0 < n ∧ (heard bytes (n - 1)).1 = .ctrlExp ∧ bytes (n - 1) = dmCode

instance (bytes : Nat → Byte) (n : Nat) : Decidable (Marks bytes n) :=
  inferInstanceAs (Decidable (_ ∧ _ ∧ _))

namespace Library

/-- TCP writes to the command port, data arrives, the library reads a notice while it waits for a
reply, and the handlers are called; `TcpReceive` gives `nread` bytes. -/
inductive Event
  | notice (handle position : Nat)
  | other (handle : Nat)
  | arrive (handle count : Nat)
  | readCmd
  | cmdNet
  | fromNet (handle nread : Nat)
  | netCmd (handle : Nat)
  | toUser (handle nwrite : Nat)

def set (s : Library) (handle : Nat) (tcb : UserTcb) : Library :=
  { s with tcb := Function.update s.tcb handle tcb }

/-- A notice is read in `ReadCmd`. -/
def readCmd (s : Library) : Notice → Library
  | .urgent handle byteNo =>
    let x := s.tcb handle
    if x.rcvCount.slt byteNo then s.set handle { x with urgent := true, urgCount := byteNo } else s
  | .other handle => s.set handle { s.tcb handle with others := true }

/-- `CmdNet` with what `TcpCmd` reports first, an event that was kept. -/
def report (s : Library) (handle : Nat) : Library :=
  let x := s.tcb handle
  s.set handle { x with
    urgent := false
    others := false
    conn := if x.urgent then x.conn.beginSynch else x.conn }

/-- `CmdNet` with a notice that `TcpCmd` has just read. -/
def hear (s : Library) : Notice → Library
  | .urgent handle byteNo =>
    let x := s.tcb handle
    if x.rcvCount.slt byteNo then
      s.set handle { x with urgCount := byteNo, conn := x.conn.beginSynch }
    else s
  | .other _ => s

/-- The first connection with an event that was kept. -/
def kept (s : Library) : Option Nat :=
  (List.range numbconns).find? fun handle => (s.tcb handle).urgent || (s.tcb handle).others

/-- `FromNet` with `nread` bytes from the port. -/
def fromNet (bytes : Nat → Byte) (x : UserTcb) (nread : Nat) : UserTcb :=
  { x with
    conn := x.conn.fromNet ((List.range nread).map fun k => bytes (x.received + k))
      (x.rcvCount.slt x.urgCount)
    rcvCount := x.rcvCount + BitVec.ofNat 32 nread
    received := x.received + nread }

/-- The effect of an event, if it can happen. -/
def act (peers : Peers) (s : Library) : Event → Option Library
  | .notice handle position =>
    if handle < numbconns ∧ Marks (peers handle) position then
      some { s with port := s.port ++ [.urgent handle (BitVec.ofNat 32 position)] }
    else none
  | .other handle =>
    if handle < numbconns then some { s with port := s.port ++ [.other handle] } else none
  | .arrive handle count =>
    some (s.set handle { s.tcb handle with arrived := (s.tcb handle).arrived + count })
  | .readCmd =>
    match s.port with
    | [] => none
    | notice :: rest => some ({ s with port := rest }.readCmd notice)
  | .cmdNet =>
    match s.port with
    | [] => none
    | notice :: rest =>
      match s.kept with
      | some handle => some (s.report handle)
      | none => some ({ s with port := rest }.hear notice)
  | .fromNet handle nread =>
    let x := s.tcb handle
    if 0 < nread ∧ nread ≤ x.conn.fromNetReq ∧ x.received + nread ≤ x.arrived then
      some (s.set handle (fromNet (peers handle) x nread))
    else none
  | .netCmd handle =>
    match (s.tcb handle).conn.netCmd with
    | some conn => some (s.set handle { s.tcb handle with conn := conn })
    | none => none
  | .toUser handle nwrite =>
    some (s.set handle { s.tcb handle with conn := ((s.tcb handle).conn.toUser nwrite).1 })

/-- Connections that have just been opened. -/
def start (host : Nat → Host) (usingPty : Nat → Bool) : Library where
  tcb handle := ⟨.alloc (host handle) (usingPty handle), 0, 0, false, false, 0, 0⟩
  port := []

/-- An event of a connection is still to be reported. -/
def Pending (s : Library) (handle : Nat) : Prop :=
  (s.tcb handle).urgent = true ∨ (s.tcb handle).others = true ∨
    ∃ notice ∈ s.port, (∃ byteNo, notice = .urgent handle byteNo) ∨ notice = .other handle

/-- A connection of which all urgent bytes have been read and handled, and of which nothing is to be
reported, does not discard text. -/
def Ended (s : Library) : Prop :=
  ∀ handle, (s.tcb handle).rcvCount.slt (s.tcb handle).urgCount = false →
    (s.tcb handle).conn.fmNetBuf.bytes = [] → ¬ s.Pending handle →
      (s.tcb handle).conn.inSynCnt ≤ 0

/-- How many bytes the machine of a connection has read. -/
def read (x : UserTcb) : Nat := x.received - x.conn.fmNetBuf.len

/-- A notice that was kept is reported before its data mark is read, a connection that discards text
reads no more than it has room for, its counter does not go below what an `int` holds, and all
counts are below 2^31. -/
def Timely (s : Library) : Event → Prop
  | .notice _ position => position < 2 ^ 31
  | .cmdNet => ∀ handle ∈ s.kept, (s.tcb handle).urgent = true →
      read (s.tcb handle) < (s.tcb handle).urgCount.toNat
  | .fromNet handle nread =>
    nread ≤ (s.tcb handle).conn.fmNetBuf.free ∧ (s.tcb handle).received + nread < 2 ^ 31
  | .netCmd handle => ∀ c ∈ (s.tcb handle).conn.fmNetBuf.bytes.head?,
      (s.tcb handle).conn.cmdstate = .ctrlExp ∧ c = dmCode →
        (s.tcb handle).conn.inSynCnt ≠ -32768
  | .other _ | .arrive _ _ | .readCmd | .toUser _ _ => True

instance (s : Library) : ∀ e, Decidable (s.Timely e)
  | .notice _ _ => inferInstanceAs (Decidable (_ < _))
  | .cmdNet => inferInstanceAs (Decidable (∀ handle ∈ s.kept, _ → _))
  | .fromNet _ _ => inferInstanceAs (Decidable (_ ∧ _))
  | .netCmd handle => inferInstanceAs (Decidable (∀ c ∈ (s.tcb handle).conn.fmNetBuf.bytes.head?,
      _ → _))
  | .other _ | .arrive _ _ | .readCmd | .toUser _ _ => inferInstanceAs (Decidable True)

/-! ### The invariant -/

theorem slt_iff {a b : BitVec 32} (smallA : a.toNat < 2 ^ 31) (smallB : b.toNat < 2 ^ 31) :
    a.slt b = true ↔ a.toNat < b.toNat := by
  rw [BitVec.slt_iff_toInt_lt, BitVec.toInt_eq_toNat_of_lt (by omega),
    BitVec.toInt_eq_toNat_of_lt (by omega)]
  omega

/-- What holds of a connection. -/
structure Sound (bytes : Nat → Byte) (x : UserTcb) : Prop where
  rcvCount : x.rcvCount.toNat = x.received
  small : x.received < 2 ^ 31
  fewer : x.conn.fmNetBuf.len ≤ x.received
  bounded : x.conn.fmNetBuf.len ≤ cbufsize
  fmNetBuf : x.conn.fmNetBuf.bytes =
    (List.range x.conn.fmNetBuf.len).map fun k => bytes (read x + k)
  machine : x.conn.machine = heard bytes (read x)
  counted : x.conn.Counted
  urgCount : x.urgCount.toNat < 2 ^ 31
  marks : 0 < x.urgCount.toNat → Marks bytes x.urgCount.toNat
  inSynCnt : 0 < x.conn.inSynCnt → x.conn.inSynCnt = 1 ∧
    ∃ n, Marks bytes n ∧ read x < n ∧ (n ≤ x.received ∨ n ≤ x.urgCount.toNat)

/-- What holds of all connections, and of the notices in the command port. -/
structure Held (peers : Peers) (s : Library) : Prop where
  sound : ∀ handle, Sound (peers handle) (s.tcb handle)
  notices : ∀ handle byteNo, .urgent handle byteNo ∈ s.port →
    byteNo.toNat < 2 ^ 31 ∧ Marks (peers handle) byteNo.toNat

theorem start_held (peers : Peers) (host : Nat → Host) (usingPty : Nat → Bool) :
    Held peers (start host usingPty) where
  sound := fun handle => {
    rcvCount := rfl
    small := by
      show 0 < 2 ^ 31
      decide
    fewer := Nat.le_refl 0
    bounded := Nat.zero_le _
    fmNetBuf := rfl
    machine := rfl
    counted := fun _ charExp => CmdState.noConfusion charExp
    urgCount := by
      show 0 < 2 ^ 31
      decide
    marks := fun some => absurd some (Nat.lt_irrefl 0)
    inSynCnt := fun some => absurd some (Int.lt_irrefl 0) }
  notices := fun _ _ member => absurd member List.not_mem_nil

theorem Held.set {peers : Peers} {s : Library} {handle : Nat} {x : UserTcb} (held : Held peers s)
    (sound : Sound (peers handle) x) : Held peers (s.set handle x) where
  sound := by
    intro other
    by_cases same : other = handle
    · rw [same]
      show Sound _ (Function.update s.tcb handle x handle)
      rw [Function.update_self]
      exact sound
    · show Sound _ (Function.update s.tcb handle x other)
      rw [Function.update_of_ne same]
      exact held.sound other
  notices := held.notices

theorem Held.rest {peers : Peers} {s : Library} {notice : Notice} {rest : List Notice}
    (held : Held peers s) (port : s.port = notice :: rest) : Held peers { s with port := rest } where
  sound := held.sound
  notices := fun handle byteNo member => held.notices handle byteNo (by
    rw [port]
    exact List.mem_cons_of_mem notice member)

section

variable {bytes : Nat → Byte} {x : UserTcb}

theorem Sound.begin (sound : Sound bytes x) {n : Nat} (marks : Marks bytes n) (later : read x < n)
    (known : n ≤ x.received ∨ n ≤ x.urgCount.toNat) :
    Sound bytes { x with conn := x.conn.beginSynch } where
  rcvCount := sound.rcvCount
  small := sound.small
  fewer := sound.fewer
  bounded := sound.bounded
  fmNetBuf := sound.fmNetBuf
  machine := sound.machine
  counted := sound.counted
  urgCount := sound.urgCount
  marks := sound.marks
  inSynCnt := fun _ => ⟨rfl, n, marks, later, known⟩

theorem Sound.ahead (sound : Sound bytes x) {byteNo : BitVec 32} (small : byteNo.toNat < 2 ^ 31)
    (marks : Marks bytes byteNo.toNat) (later : x.rcvCount.slt byteNo = true) :
    Sound bytes { x with urgCount := byteNo } ∧ read x < byteNo.toNat := by
  rw [slt_iff (by rw [sound.rcvCount]; exact sound.small) small, sound.rcvCount] at later
  have unread : read x < byteNo.toNat := Nat.lt_of_le_of_lt (Nat.sub_le _ _) later
  refine ⟨{ sound with urgCount := small, marks := fun _ => marks, inSynCnt := fun some => ?_ }, unread⟩
  exact ⟨(sound.inSynCnt some).1, byteNo.toNat, marks, unread, .inr (Nat.le_refl _)⟩

theorem Sound.events (sound : Sound bytes x) (urgent others : Bool) :
    Sound bytes { x with urgent := urgent, others := others } := { sound with }

/-- Bytes come from the port. -/
theorem Sound.fromNet (sound : Sound bytes x) {nread : Nat}
    (room : nread ≤ x.conn.fmNetBuf.free) (small : x.received + nread < 2 ^ 31) :
    Sound bytes (Library.fromNet bytes x nread) := by
  have isUrgent : x.rcvCount.slt x.urgCount = true ↔ x.received < x.urgCount.toNat := by
    rw [slt_iff (by rw [sound.rcvCount]; exact sound.small) sound.urgCount, sound.rcvCount]
  have text : ((List.range nread).map fun k => bytes (x.received + k)).length = nread := by
    rw [List.length_map, List.length_range]
  have begun : ∃ conn, Sound bytes { x with conn := conn } ∧ conn.fmNetBuf = x.conn.fmNetBuf ∧
      Library.fromNet bytes x nread = { x with
        conn := { conn with
          fmNetBuf := conn.fmNetBuf.puts ((List.range nread).map fun k => bytes (x.received + k)) }
        rcvCount := x.rcvCount + BitVec.ofNat 32 nread
        received := x.received + nread } := by
    unfold Library.fromNet NetConn.fromNet
    cases urgFlag : x.rcvCount.slt x.urgCount with
    | false => exact ⟨x.conn, sound, rfl, rfl⟩
    | true =>
      have unread := isUrgent.mp urgFlag
      exact ⟨x.conn.beginSynch, sound.begin (sound.marks (Nat.lt_of_le_of_lt (Nat.zero_le _) unread))
        (Nat.lt_of_le_of_lt (Nat.sub_le _ _) unread) (.inr (Nat.le_refl _)), rfl, rfl⟩
  obtain ⟨conn, sound, same, isNext⟩ := begun
  have isFree : x.conn.fmNetBuf.free = cbufsize - x.conn.fmNetBuf.len := rfl
  have bounded := sound.bounded
  have fewer := sound.fewer
  dsimp only at bounded fewer
  have puts := CircBuf.puts_room (b := conn.fmNetBuf)
    (by rw [text, same]; exact room)
    bounded
  have len : (conn.fmNetBuf.puts ((List.range nread).map fun k => bytes (x.received + k))).len =
      conn.fmNetBuf.len + nread := by
    rw [puts]
    show (conn.fmNetBuf.bytes ++ _).length = _
    rw [List.length_append, text]
    rfl
  have isRead : x.received + nread - (conn.fmNetBuf.len + nread) = x.received - conn.fmNetBuf.len :=
    Nat.add_sub_add_right ..
  rw [isNext]
  exact {
    rcvCount := by
      have wide : x.received + nread < 2 ^ 32 := Nat.lt_trans small (by decide)
      show (x.rcvCount + BitVec.ofNat 32 nread).toNat = x.received + nread
      rw [BitVec.toNat_add, BitVec.toNat_ofNat, sound.rcvCount, Nat.add_mod_mod,
        Nat.mod_eq_of_lt wide]
    small := small
    fewer := by
      dsimp only
      rw [len]
      omega
    bounded := by
      dsimp only
      rw [len, same]
      rw [same] at bounded
      omega
    fmNetBuf := by
      dsimp only
      unfold read
      dsimp only
      rw [len, isRead, puts]
      dsimp only
      rw [sound.fmNetBuf, List.range_add, List.map_append, List.map_map]
      have positions : ∀ k, x.received + k =
          x.received - conn.fmNetBuf.len + (conn.fmNetBuf.len + k) := by
        intro k
        omega
      congr 1
      refine List.map_congr_left fun k _ => ?_
      rw [positions k]
      rfl
    machine := by
      unfold read
      dsimp only
      rw [len, isRead]
      exact sound.machine
    counted := sound.counted
    urgCount := sound.urgCount
    marks := sound.marks
    inSynCnt := by
      intro some
      obtain ⟨once, n, marks, later, known⟩ := sound.inSynCnt some
      refine ⟨once, n, marks, ?_, known.imp (Nat.le_trans · (Nat.le_add_right _ _)) id⟩
      unfold read
      dsimp only
      rw [len, isRead]
      exact later }

/-- The machine reads a byte. -/
theorem Sound.netCmd (sound : Sound bytes x) {conn : NetConn} (taken : x.conn.netCmd = some conn)
    (falls : ∀ c ∈ x.conn.fmNetBuf.bytes.head?, x.conn.cmdstate = .ctrlExp ∧ c = dmCode →
      x.conn.inSynCnt ≠ -32768) : Sound bytes { x with conn := conn } := by
  unfold NetConn.netCmd at taken
  cases isBytes : x.conn.fmNetBuf.bytes with
  | nil =>
    rw [isBytes] at taken
    cases taken
  | cons c rest =>
    rw [isBytes] at taken falls
    dsimp only at taken
    obtain ⟨_, isNext⟩ := Option.ite_none_right_eq_some.mp taken
    have counted : NetConn.Counted
        { x.conn with fmNetBuf := { x.conn.fmNetBuf with bytes := rest } } := sound.counted
    obtain ⟨net, usr, takes⟩ := NetConn.takes counted c
    have stays := NetConn.counted_netChar counted c
    have len : x.conn.fmNetBuf.len = rest.length + 1 := by
      unfold CircBuf.len
      rw [isBytes]
      rfl
    have fewer := sound.fewer
    have bounded := sound.bounded
    have all := sound.fmNetBuf
    rw [isBytes, len, List.range_succ_eq_map, List.map_cons, List.map_map] at all
    obtain ⟨isFirst, isRest⟩ := List.cons.inj all
    have isRead : read { x with conn := conn } = read x + 1 := by
      unfold read
      rw [← Option.some.inj isNext, takes.fmNetBuf, len]
      show x.received - rest.length = _
      omega
    have now : x.received - rest.length = read x + 1 := by
      unfold read
      omega
    have fmNetBuf : conn.fmNetBuf = { x.conn.fmNetBuf with bytes := rest } := by
      rw [← Option.some.inj isNext, takes.fmNetBuf]
    have isLen : conn.fmNetBuf.len = rest.length := by
      rw [fmNetBuf]
      rfl
    constructor
    · exact sound.rcvCount
    · exact sound.small
    · show conn.fmNetBuf.len ≤ x.received
      omega
    · show conn.fmNetBuf.len ≤ cbufsize
      omega
    · show conn.fmNetBuf.bytes = _
      rw [isRead]
      dsimp only
      rw [isLen, fmNetBuf]
      dsimp only
      rw [isRest]
      have lengthened : (List.map ((fun k => bytes (read x + k)) ∘ Nat.succ)
          (List.range rest.length)).length = rest.length := by
        rw [List.length_map, List.length_range]
      rw [lengthened]
      refine List.map_congr_left fun k _ => ?_
      show bytes (read x + (k + 1)) = bytes (read x + 1 + k)
      rw [Nat.add_assoc, Nat.add_comm 1]
    · rw [isRead]
      have machine : conn.machine = NetConn.advance x.conn.machine c := by
        rw [← Option.some.inj isNext]
        exact takes.machine
      show conn.machine = NetConn.advance (heard bytes (read x)) (bytes (read x))
      rw [machine, sound.machine, isFirst]
      rfl
    · rw [← Option.some.inj isNext]
      exact stays
    · exact sound.urgCount
    · exact sound.marks
    · have inSynCnt : conn.inSynCnt = if x.conn.cmdstate = .ctrlExp ∧ c = dmCode then
          NetConn.downCnt x.conn.inSynCnt else x.conn.inSynCnt := by
        rw [← Option.some.inj isNext]
        exact takes.inSynCnt
      show 0 < conn.inSynCnt → _
      intro some
      by_cases isMark : x.conn.cmdstate = .ctrlExp ∧ c = dmCode
      · have bound := falls c rfl isMark
        rw [inSynCnt, if_pos isMark] at some
        unfold NetConn.downCnt at some
        rw [if_neg bound] at some
        have once := (sound.inSynCnt (by omega)).1
        omega
      · rw [inSynCnt, if_neg isMark] at some
        obtain ⟨once, n, marks, later, known⟩ := sound.inSynCnt some
        refine ⟨by rw [inSynCnt, if_neg isMark]; exact once, n, marks, ?_, known⟩
        rw [isRead]
        have notNow : n ≠ read x + 1 := by
          intro isNow
          rw [isNow] at marks
          refine isMark ⟨?_, ?_⟩
          · have state := marks.2.1
            rw [Nat.add_sub_cancel, ← sound.machine] at state
            exact state
          · have byte := marks.2.2
            rw [Nat.add_sub_cancel] at byte
            rw [isFirst]
            exact byte
        omega

end

/-- An event happens in time. -/
theorem Held.act {peers : Peers} {s s' : Library} {event : Event} (held : Held peers s)
    (timely : s.Timely event) (taken : act peers s event = some s') : Held peers s' := by
  unfold Library.act at taken
  cases event with
  | notice handle position =>
    obtain ⟨⟨_, marks⟩, same⟩ := Option.ite_none_right_eq_some.mp taken
    rw [← Option.some.inj same]
    refine { sound := held.sound, notices := fun other byteNo member => ?_ }
    rcases List.mem_append.mp member with before | last
    · exact held.notices other byteNo before
    · obtain ⟨rfl, rfl⟩ := Notice.urgent.inj (List.mem_singleton.mp last)
      have small : position < 2 ^ 31 := timely
      have isPosition : (BitVec.ofNat 32 position).toNat = position := by
        rw [BitVec.toNat_ofNat, Nat.mod_eq_of_lt (Nat.lt_trans small (by decide))]
      rw [isPosition]
      exact ⟨small, marks⟩
  | other handle =>
    obtain ⟨_, same⟩ := Option.ite_none_right_eq_some.mp taken
    rw [← Option.some.inj same]
    refine { sound := held.sound, notices := fun other byteNo member => ?_ }
    rcases List.mem_append.mp member with before | last
    · exact held.notices other byteNo before
    · cases List.mem_singleton.mp last
  | arrive handle count =>
    rw [← Option.some.inj taken]
    exact held.set { held.sound handle with }
  | readCmd =>
    dsimp only at taken
    cases port : s.port with
    | nil =>
      rw [port] at taken
      cases taken
    | cons notice rest =>
      rw [port] at taken
      rw [← Option.some.inj taken]
      have less := held.rest port
      cases notice with
      | other handle => exact less.set ((held.sound handle).events _ true)
      | urgent handle byteNo =>
        obtain ⟨small, marks⟩ := held.notices handle byteNo (by rw [port]; exact List.mem_cons_self)
        unfold Library.readCmd
        dsimp only
        split
        next later => exact less.set (((held.sound handle).ahead small marks later).1.events true _)
        next => exact less
  | cmdNet =>
    dsimp only at taken
    cases port : s.port with
    | nil =>
      rw [port] at taken
      cases taken
    | cons notice rest =>
      rw [port] at taken
      dsimp only at taken
      cases isKept : s.kept with
      | some handle =>
        rw [isKept] at taken
        rw [← Option.some.inj taken]
        have sound := held.sound handle
        unfold report
        dsimp only
        refine held.set (Sound.events (x := { s.tcb handle with
          conn := if (s.tcb handle).urgent then _ else _ }) ?_ false false)
        cases urgent : (s.tcb handle).urgent with
        | false => exact sound
        | true =>
          have unread := timely handle isKept urgent
          exact sound.begin (sound.marks (Nat.lt_of_le_of_lt (Nat.zero_le _) unread)) unread
            (.inr (Nat.le_refl _))
      | none =>
        rw [isKept] at taken
        rw [← Option.some.inj taken]
        have less := held.rest port
        cases notice with
        | other handle => exact less
        | urgent handle byteNo =>
          obtain ⟨small, marks⟩ := held.notices handle byteNo (by rw [port]; exact List.mem_cons_self)
          unfold hear
          dsimp only
          split
          next later =>
            obtain ⟨sound, unread⟩ := (held.sound handle).ahead small marks later
            exact less.set (sound.begin marks unread (.inr (Nat.le_refl _)))
          next => exact less
  | fromNet handle nread =>
    obtain ⟨_, same⟩ := Option.ite_none_right_eq_some.mp taken
    rw [← Option.some.inj same]
    exact held.set ((held.sound handle).fromNet timely.1 timely.2)
  | netCmd handle =>
    dsimp only at taken
    cases isNext : (s.tcb handle).conn.netCmd with
    | none =>
      rw [isNext] at taken
      cases taken
    | some conn =>
      rw [isNext] at taken
      rw [← Option.some.inj taken]
      exact held.set ((held.sound handle).netCmd isNext timely)
  | toUser handle nwrite =>
    rw [← Option.some.inj taken]
    exact held.set { held.sound handle with }

/-- Each peer sends two characters and a data mark. -/
def twoAndMark : Peers := fun _ n => [0x61, 0x62, iac, 0, 0, dmCode].getD n 0x63

def someHost : Host := ⟨0o10, 0o30, 0o177, false⟩

/-- The notice of one connection is read while a reply is waited for, and reported between its data
and the data mark; that of the other is read at once. -/
def inTime : List Event :=
  [.notice 0 6, .readCmd, .arrive 0 7, .fromNet 0 4, .notice 1 6, .cmdNet, .cmdNet, .fromNet 0 3,
    .netCmd 0, .netCmd 0, .netCmd 0, .netCmd 0, .netCmd 0, .netCmd 0, .netCmd 0, .arrive 1 6,
    .fromNet 1 6]

/-- The notice is kept, all is read, and then a notice for the other connection comes. -/
def tooLate : List Event :=
  [.notice 0 6, .readCmd, .arrive 0 6, .fromNet 0 6, .netCmd 0, .netCmd 0, .netCmd 0, .netCmd 0,
    .netCmd 0, .netCmd 0, .other 1, .cmdNet]

end Library

end NetworkUnix.Telnet
