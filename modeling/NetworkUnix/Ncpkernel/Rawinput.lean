/-
This file models the input of raw messages from the IMP, step by step: the read of
a leader, the reads of data into buffers, the end of a message, and the flushing
of a message for which there is no buffer. It proves that as long as the entry of
a message is not given to another in its midst, and no message is flushed from
its leader on while an NCP connection is remembered, every raw message goes whole
to a socket that has claimed it, or its buffers are freed, and touches no NCP
connection.
-/

import NetworkUnix.Ncpkernel.Rawclaims

namespace NetworkUnix.Ncpkernel

abbrev Byte := BitVec 8

/-! ### The leader -/

/-- The bytes of `imp` after a read that may have been shorter. -/
def reload (imp piece : List Byte) : List Byte := piece ++ imp.drop piece.length

/-- The fields of `imp`, in the long format. -/
def impType (imp : List Byte) : Byte := imp.getD 3 0

def impHost (localnet : Byte) (imp : List Byte) : Host :=
  let hoi := imp.getD 5 0
  let imp1 := imp.getD 6 0
  let imp0 := imp.getD 7 0
  (if hoi = 0 ∧ imp1 = 0 ∧ imp0 = 0 then 0 else localnet) ++ hoi ++ imp1 ++ imp0

/-- The message number, right adjusted. -/
def messid (imp : List Byte) : Int :=
  (((imp.getD 8 0 ++ imp.getD 9 0 : BitVec 16).sshiftRight 4) &&& 0o7777).toNat

/-- Whether a leader has a message number. -/
def hasMessid (imp : List Byte) : Bool :=
  let i := (impType imp &&& 0o137).toNat
  decide (i = 0) || decide (i = 3) || decide (i = 5) || (decide (7 ≤ i) && decide (i ≤ 9)) ||
    (decide (11 ≤ i) && decide (i ≤ 14))

/-! ### The input routines -/

/-- A message that is being built: whether its buffers are marked raw, and its bytes. -/
structure ImpMsg where
  raw : Bool
  bytes : List Byte
  deriving DecidableEq

/-- The variables of the IMP input: whether a leader is being read, the message and its length,
whether it is flushed, the entry that was found for it, and the connection of a message for the
NCP. -/
structure Impi where
  leader : Bool
  msg : Option ImpMsg
  mlen : Nat
  flush : Bool
  con : Option (Fin rawtsize)
  sockt : Option Nat
  deriving DecidableEq

/-- A connection of the NCP: its flags, and the rest of it. -/
structure RdSkt where
  r_eof : Bool
  r_msgs : Int
  r_msgq : List Byte
  r_qtotal : Int
  deriving DecidableEq

abbrev Ncp := Nat → RdSkt

/-- The tables, the struct `imp` and the local network, the variables of the input, and the
connections of the NCP. -/
structure RawIn where
  rmi : Rmi
  imp : List Byte
  localnet : Byte
  impi : Impi
  ncp : Ncp

/-- What an interrupt of the IMP finds: the bytes that were read and whether they end the message,
whether there is a buffer, and what the NCP makes of a leader or a message of its own: whether the
leader is legal, its connection, and any change of the connections. -/
structure Read where
  piece : List Byte
  endmsg : Bool
  hasBuf : Bool
  legal : Bool
  sockt : Option Nat
  ncp : Ncp

/-- inrawtab, for the table for reading -/
def Rmi.inrawtab (s : Rmi) (host : Host) (msg : Int) : Option (Fin rawtsize) :=
  if msg < s.lomsg then none
  else
    match (List.finRange rawtsize).find? fun rp =>
      match (s.tab false rp).rawskt with
      | some ip => (s.inode ip).skt.isOpen &&
          (decide ((s.tab false rp).host = host) || decide ((s.tab false rp).host = 0)) &&
            decide ((s.tab false rp).lomsg ≤ msg) && decide (msg ≤ (s.tab false rp).himsg)
      | none => false with
    | some rp => some rp
    | none => s.elseentry

namespace RawIn

def host (s : RawIn) : Host := impHost s.localnet s.imp

/-- rawhostmsg -/
def rawhostmsg (s : RawIn) : Option (Fin rawtsize) := s.rmi.inrawtab s.host (messid s.imp)

/-- The two bytes of a length. -/
def lenword (n : Nat) : List Byte := [BitVec.ofNat 8 n, BitVec.ofNat 8 (n / 256)]

/-- flushimp -/
def flushimp (s : RawIn) : RawIn := { s with impi := { s.impi with flush := true } }

/-- rawlget: whether it got a buffer -/
def rawlget (s : RawIn) (read : Read) : Bool × RawIn :=
  if read.hasBuf then
    let amt := 2 + read.piece.length
    (true, { s with impi := { s.impi with
      msg := some ⟨true, lenword amt ++ read.piece⟩
      mlen := amt } })
  else (false, if read.endmsg then s else s.flushimp)

/-- rawstrat -/
def rawstrat (s : RawIn) (rp : Fin rawtsize) : RawIn :=
  match (s.rmi.tab false rp).rawskt, s.impi.msg with
  | some j, some msg =>
    let inode := s.rmi.inode j
    { s with rmi := s.rmi.setInode j { inode with skt :=
      { inode.skt with
        msgq := inode.skt.msgq ++ [msg.bytes]
        qtotal := inode.skt.qtotal + s.impi.mlen } } }
  | _, _ => s

/-- Another leader is read. -/
def implread (s : RawIn) : RawIn := { s with impi := { s.impi with msg := none, leader := true } }

/-- The entry for a leader that is a whole message. -/
def ihEntry (s : RawIn) : Option (Fin rawtsize) :=
  if hasMessid s.imp then s.rawhostmsg else s.rmi.elseentry

/-- A leader that is a whole message is given to the socket of an entry, if there is a buffer. -/
def ihGive (s : RawIn) (j : Fin rawtsize) (read : Read) : RawIn :=
  let got := s.rawlget read
  if got.1 then { got.2 with impi := { got.2.impi with con := some j } }.rawstrat j else got.2

/-- rawih: whether it has processed the leader -/
def rawih (s : RawIn) (read : Read) : Bool × RawIn :=
  let ret := hasMessid s.imp && s.rawhostmsg.isSome
  let s := (s.ihEntry.map fun j => s.ihGive j read).getD s
  if ret || decide (s.rmi.ncpopnstate < 0) then (true, s.implread) else (false, s)

/-- ih -/
def ih (s : RawIn) (read : Read) : RawIn :=
  let done := s.rawih read
  if done.1 then done.2 else { done.2 with ncp := read.ncp }.implread

/-- ihbget -/
def ihbget (s : RawIn) (read : Read) : RawIn :=
  if read.hasBuf then
    { s with impi := { s.impi with msg := some (s.impi.msg.getD ⟨false, []⟩) } }
  else s.flushimp

/-- Bytes are added to the message, if there is one. -/
def fill (s : RawIn) (piece : List Byte) : RawIn :=
  { s with impi := { s.impi with
    msg := s.impi.msg.map fun msg => { msg with bytes := msg.bytes ++ piece } } }

/-- The length of the message is put into its first word. -/
def putLength (s : RawIn) : RawIn :=
  { s with impi := { s.impi with
    msg := s.impi.msg.map fun msg =>
      { msg with bytes := lenword s.impi.mlen ++ msg.bytes.drop 2 } } }

/-- rawhh -/
def rawhh (s : RawIn) (read : Read) : RawIn :=
  let s := { s with impi :=
    { s.impi with mlen := s.impi.mlen + read.piece.length } }.fill read.piece
  if read.endmsg then
    if s.impi.flush then { s with impi := { s.impi with flush := false } }.implread
    else
      let s := s.putLength
      (match s.impi.con with
        | some con => s.rawstrat con
        | none => s).implread
  else if s.impi.flush then s.flushimp
  else s.ihbget read

/-- hh; a message of the NCP is handed to it whole. -/
def hh (s : RawIn) (read : Read) : RawIn :=
  let s := s.fill read.piece
  if read.endmsg then
    if s.impi.flush then
      let s := { s with impi := { s.impi with msg := none, flush := false } }
      (match s.impi.sockt with
        | some sktp =>
          { s with ncp := Function.update s.ncp sktp { s.ncp sktp with r_eof := true } }
        | none => s).implread
    else { s with ncp := read.ncp }.implread
  else if s.impi.flush then s.flushimp
  else s.ihbget read

/-- A leader for the NCP, with data to follow. -/
def leaderNcp (s : RawIn) (read : Read) : RawIn :=
  if read.legal then { s with impi := { s.impi with sockt := read.sockt } }.ihbget read
  else { s with impi := { s.impi with sockt := none } }.flushimp

/-- imp_input -/
def impInput (s : RawIn) (read : Read) : RawIn :=
  if s.impi.leader then
    let s := { s with imp := reload s.imp read.piece, impi := { s.impi with leader := false } }
    if read.endmsg then s.ih read
    else
      let s := { s with impi := { s.impi with con := s.rawhostmsg } }
      if s.impi.con.isSome then (s.rawlget read).2
      else if s.rmi.ncpopnstate < 0 then s.flushimp
      else s.leaderNcp read
  else if (s.impi.msg.any fun msg => msg.raw) || decide (s.rmi.ncpopnstate < 0) then s.rawhh read
  else s.hh read

end RawIn

/-! ### Claims at a moment -/

instance (entry : RawEntry) (host : Host) (msg : Int) : Decidable (entry.claims host msg) :=
  inferInstanceAs (Decidable (_ ∧ _ ∧ _))

/-- A message of a host may go to the socket of an entry: the entry claims it, or it is the entry
for all other messages and no entry in use claims it. A leader without a number is claimed by no
entry. -/
def Rmi.goesTo (s : Rmi) (rp : Fin rawtsize) (host : Host) : Option Int → Prop
  | some msg => (s.tab false rp).claims host msg ∨
      s.elseentry = some rp ∧ ∀ other, s.Used false other → ¬ (s.tab false other).claims host msg
  | none => s.elseentry = some rp

instance (s : Rmi) (mode : Bool) (rp : Fin rawtsize) : Decidable (s.Used mode rp) :=
  inferInstanceAs (Decidable (_ ≠ _))

instance (s : Rmi) (rp : Fin rawtsize) (host : Host) : ∀ msg, Decidable (s.goesTo rp host msg)
  | some _ => inferInstanceAs (Decidable (_ ∨ _ ∧ _))
  | none => inferInstanceAs (Decidable (_ = _))

/-! ### Runs -/

/-- A raw message whose leader has been read: its host and number, and its bytes so far. -/
structure Raw where
  host : Host
  msg : Int
  data : List Byte
  deriving DecidableEq

/-- The input and the raw message that comes in, whether it is kept or flushed. -/
structure RawSys where
  inp : RawIn
  raw : Option Raw

/-- An interrupt of the IMP, an event of the tables, or a change of the connections of the NCP. -/
inductive InEvent
  | read (read : Read)
  | tables (event : RawEvent)
  | ncp (ncp : Ncp)

/-- An event of the tables that is not an open or a close of a kernel. -/
def RawEvent.ofTables : RawEvent → Bool
  | .kernelOpen _ | .kernelClose => false
  | _ => true

namespace RawSys

/-- The input with a leader. -/
def reloaded (s : RawSys) (read : Read) : RawIn :=
  { s.inp with imp := reload s.inp.imp read.piece, impi := { s.inp.impi with leader := false } }

/-- The raw message after a read. -/
def rawAfter (s : RawSys) (read : Read) : Option Raw :=
  if read.endmsg then none
  else if s.inp.impi.leader then
    let inp := s.reloaded read
    if inp.rawhostmsg.isSome then some ⟨inp.host, messid inp.imp, read.piece⟩ else none
  else s.raw.map fun raw => { raw with data := raw.data ++ read.piece }

/-- The raw message that a read completes, or the leader that is one: its host, its number and its
bytes. -/
def completes (s : RawSys) (read : Read) : Option (Host × Option Int × List Byte) :=
  if !read.endmsg then none
  else if s.inp.impi.leader then
    let inp := s.reloaded read
    inp.ihEntry.map fun _ =>
      (inp.host, if hasMessid inp.imp then some (messid inp.imp) else none, read.piece)
  else s.raw.map fun raw => (raw.host, some raw.msg, raw.data ++ read.piece)

/-- A read is of a raw message, and no matter of the NCP. -/
def isRaw (s : RawSys) (read : Read) : Bool :=
  if s.inp.impi.leader then
    (s.reloaded read).rawhostmsg.isSome && (!read.endmsg || hasMessid (s.reloaded read).imp)
  else s.raw.isSome

/-- The effect of an event, if it can happen. -/
def act (s : RawSys) : InEvent → Option RawSys
  | .read read =>
    if s.inp.impi.leader && decide (16 < read.piece.length) then none
    else some ⟨s.inp.impInput read, s.rawAfter read⟩
  | .tables event =>
    if event.ofTables then
      (s.inp.rmi.act event).map fun rmi => { s with inp := { s.inp with rmi := rmi } }
    else none
  | .ncp ncp => some { s with inp := { s.inp with ncp := ncp } }

/-- The start: one of the kernels is open, no raw file is, and a leader is to be read. -/
def start (file : Nat → NetFile) (inode : Nat → Inode) (state : Int) (localnet : Byte) (ncp : Ncp) :
    RawSys where
  inp :=
    { rmi := { Rmi.start file inode with ncpopnstate := state }
      imp := []
      localnet
      impi := ⟨true, none, 0, false, none, none⟩
      ncp }
  raw := none

/-- When a message is whole, the entry that was found for it is free or may have it; and when there
is no buffer for the leader of a raw message with data to follow, no connection of the NCP is
remembered. -/
def proper (s : RawSys) : InEvent → Prop
  | .read read =>
    if s.inp.impi.leader then
      read.endmsg = true ∨ read.hasBuf = true ∨ (s.reloaded read).rawhostmsg = none ∨
        s.inp.rmi.ncpopnstate < 0 ∨ s.inp.impi.sockt = none
    else
      match s.raw, s.inp.impi.con with
      | some raw, some rp =>
        read.endmsg = false ∨ s.inp.impi.flush = true ∨ (s.inp.rmi.tab false rp).rawskt = none ∨
          s.inp.rmi.goesTo rp raw.host (some raw.msg)
      | _, _ => True
  | _ => True

instance (s : RawSys) : ∀ event, Decidable (s.proper event)
  | .read read => by
    unfold proper
    dsimp only
    split
    · infer_instance
    · split <;> infer_instance
  | .tables _ => inferInstanceAs (Decidable True)
  | .ncp _ => inferInstanceAs (Decidable True)

/-- A message is put on the queue of a socket, whole and with its length, and the total is raised by
that. -/
def appended (rmi : Rmi) (ip : Nat) (bytes : List Byte) : Rmi :=
  let inode := rmi.inode ip
  rmi.setInode ip { inode with skt :=
    { inode.skt with
      msgq := inode.skt.msgq ++ [RawIn.lenword (2 + bytes.length) ++ bytes]
      qtotal := inode.skt.qtotal + (2 + bytes.length : Nat) } }

/-- What a read does: it leaves the tables and sockets alone, or it completes a raw message and
puts it on the queue of a socket whose entry may have it; a read of a raw message changes no
connection of the NCP; and after the end of a message there are no buffers left. -/
structure Owned (s : RawSys) (read : Read) (next : RawSys) : Prop where
  queue : next.inp.rmi = s.inp.rmi ∨ ∃ host msg bytes rp ip,
    s.completes read = some (host, msg, bytes) ∧ (s.inp.rmi.tab false rp).rawskt = some ip ∧
      s.inp.rmi.goesTo rp host msg ∧ next.inp.rmi = appended s.inp.rmi ip bytes
  ncp : s.isRaw read = true → next.inp.ncp = s.inp.ncp
  freed : read.endmsg = true → next.inp.impi.msg = none

end RawSys

/-! ### The tables do not open a kernel -/

namespace Rmi

theorem rmSkt_state (mode : Bool) (ip : Nat) (s : Rmi) :
    (s.rmSkt mode ip).ncpopnstate = s.ncpopnstate := by
  unfold rmSkt
  split
  · exact (rmrawtab_kept mode _ s).2.1
  · rfl

theorem relEnd_state (fp : Nat) (mode : Bool) (s : Rmi) :
    (s.relEnd fp mode).ncpopnstate = s.ncpopnstate := by
  unfold relEnd
  split
  · rfl
  · exact rmSkt_state mode _ s

theorem rawrel_state (fp : Nat) (s : Rmi) : (s.rawrel fp).ncpopnstate = s.ncpopnstate :=
  (relEnd_state fp true _).trans (relEnd_state fp false s)

theorem putrawtab_state {mode : Bool} {host : Host} {lo hi : Int} {riptr : Nat} {s after : Rmi}
    (made : s.putrawtab mode host lo hi riptr = some after) :
    after.ncpopnstate = s.ncpopnstate := by
  unfold putrawtab at made
  split at made
  · split at made
    · cases made
      unfold enter
      dsimp only
      split <;> rfl
    · cases made
  · cases made

theorem openEnd_state (asked : RawOpen) (fp : Nat) (mode : Bool) (s : Rmi) :
    (s.openEnd asked fp mode).2.ncpopnstate = s.ncpopnstate := by
  unfold openEnd
  split
  · cases found : s.rawinode with
    | none => rfl
    | some result =>
      obtain ⟨ip, made⟩ := result
      have state : made.ncpopnstate = s.ncpopnstate := by
        unfold rawinode at found
        split at found
        · cases found
          rfl
        · cases found
      dsimp only
      split
      · exact state
      · split
        · exact state
        next put => exact (putrawtab_state put).trans state
  · rfl

theorem openEnds_state (asked : RawOpen) (fp : Nat) (s : Rmi) :
    (s.openEnds asked fp).2.ncpopnstate = s.ncpopnstate := by
  have first := openEnd_state asked fp false s
  unfold openEnds
  revert first
  rcases s.openEnd asked fp false with ⟨done, after⟩
  intro first
  cases done with
  | true => exact (openEnd_state asked fp true after).trans first
  | false => exact first

theorem openFile_state (asked : RawOpen) (s : Rmi) :
    (s.openFile asked).2.ncpopnstate = s.ncpopnstate := by
  unfold openFile
  cases s.falloc asked.hasFd with
  | none => rfl
  | some fp =>
    have ends := openEnds_state asked fp (s.setFile fp ⟨2, true, fun _ => none⟩)
    dsimp only
    revert ends
    rcases (s.setFile fp ⟨2, true, fun _ => none⟩).openEnds asked fp with ⟨done, after⟩
    intro ends
    cases done with
    | true => exact ends
    | false => exact (rawrel_state fp after).trans ends

theorem rawopen_state (asked : RawOpen) (s : Rmi) :
    (s.rawopen asked).2.ncpopnstate = s.ncpopnstate := by
  unfold rawopen
  split
  · rfl
  split
  · rfl
  dsimp only
  split
  · rfl
  · exact openFile_state asked _

theorem rawclose_state (fp : Nat) (s : Rmi) : (s.rawclose fp).ncpopnstate = s.ncpopnstate := by
  unfold rawclose
  split
  · split
    · rfl
    · exact rawrel_state fp s
  · rfl

theorem rawclean_state (s : Rmi) : s.rawclean.ncpopnstate = s.ncpopnstate := by
  unfold rawclean
  generalize List.range nfile = files
  induction files generalizing s with
  | nil => rfl
  | cons fp rest inductionHypothesis =>
    rw [List.foldl_cons, inductionHypothesis]
    split
    · exact rawrel_state fp s
    · rfl

end Rmi

theorem Rmi.does_state {event : RawEvent} (tables : event.ofTables = true) (s : Rmi) :
    (s.does event).ncpopnstate = s.ncpopnstate := by
  cases event with
  | rawopen asked => exact Rmi.rawopen_state asked s
  | rawclose fp => exact Rmi.rawclose_state fp s
  | rawclean => exact Rmi.rawclean_state s
  | kernelOpen | kernelClose => cases tables
  | dup | file | inode | transfer => rfl

/-! ### The entry for a message -/

theorem Rmi.Sound.inrawtab {s : Rmi} (sound : s.Sound) {host : Host} {msg : Int}
    {rp : Fin rawtsize} (found : s.inrawtab host msg = some rp) :
    s.Used false rp ∧ s.goesTo rp host (some msg) := by
  unfold Rmi.inrawtab at found
  split at found
  · cases found
  split at found
  next first =>
    cases found
    have holds := List.find?_some first
    split at holds
    next ip entry =>
      simp only [Bool.and_eq_true, Bool.or_eq_true, decide_eq_true_eq] at holds
      obtain ⟨⟨⟨-, host⟩, low⟩, high⟩ := holds
      refine ⟨fun free => ?_, .inl ⟨host.symm, low, high⟩⟩
      rw [entry] at free
      cases free
    next => cases holds
  next none =>
    refine ⟨((sound.elseentry rp).mp found).1, .inr ⟨found, fun other used claims => ?_⟩⟩
    have missed := List.find?_eq_none.mp none other (List.mem_finRange other)
    obtain ⟨ip, entry⟩ := Option.ne_none_iff_exists'.mp used
    obtain ⟨fp, isRaw, node⟩ := sound.named false other ip entry
    have isOpen := (sound.entered fp false ip isRaw node).2.1
    obtain ⟨host, low, high⟩ := claims
    refine missed ?_
    simp only [entry, Bool.and_eq_true, Bool.or_eq_true, decide_eq_true_eq]
    exact ⟨⟨⟨isOpen, host.symm⟩, low⟩, high⟩

/-! ### What a read does -/

namespace RawIn

variable {s : RawIn} {read : Read} {rp : Fin rawtsize}

theorem rawstrat_kept (s : RawIn) (rp : Fin rawtsize) :
    (s.rawstrat rp).impi = s.impi ∧ (s.rawstrat rp).ncp = s.ncp := by
  unfold rawstrat
  split <;> exact ⟨rfl, rfl⟩

theorem rawstrat_free (free : (s.rmi.tab false rp).rawskt = none) : s.rawstrat rp = s := by
  unfold rawstrat
  rw [free]

theorem rawstrat_rmi {ip : Nat} {bytes : List Byte}
    (entry : (s.rmi.tab false rp).rawskt = some ip)
    (msg : s.impi.msg = some ⟨true, lenword (2 + bytes.length) ++ bytes⟩)
    (mlen : s.impi.mlen = 2 + bytes.length) :
    (s.rawstrat rp).rmi = RawSys.appended s.rmi ip bytes := by
  unfold rawstrat
  rw [entry, msg, mlen]
  rfl

/-- The message of a leader that is a whole message. -/
def withLeader (s : RawIn) (read : Read) (con : Option (Fin rawtsize)) : RawIn :=
  { s with impi := { s.impi with
    msg := some ⟨true, lenword (2 + read.piece.length) ++ read.piece⟩
    mlen := 2 + read.piece.length
    con } }

theorem ihGive_buf (hasBuf : read.hasBuf = true) :
    s.ihGive rp read = (s.withLeader read (some rp)).rawstrat rp := by
  unfold ihGive rawlget
  rw [if_pos hasBuf]
  rfl

theorem ihGive_none (hasBuf : read.hasBuf = false) (whole : read.endmsg = true) :
    s.ihGive rp read = s := by
  have got : s.rawlget read = (false, s) := by
    unfold rawlget
    rw [if_neg (by simp [hasBuf]), if_pos whole]
  unfold ihGive
  rw [got]
  rfl

theorem ihGive_kept (whole : read.endmsg = true) :
    (s.ihGive rp read).impi.flush = s.impi.flush ∧ (s.ihGive rp read).ncp = s.ncp := by
  cases hasBuf : read.hasBuf with
  | true =>
    obtain ⟨impi, ncp⟩ := rawstrat_kept (s.withLeader read (some rp)) rp
    rw [ihGive_buf hasBuf, impi, ncp]
    exact ⟨rfl, rfl⟩
  | false =>
    rw [ihGive_none hasBuf whole]
    exact ⟨rfl, rfl⟩

theorem ihGive_rmi {ip : Nat} (entry : (s.rmi.tab false rp).rawskt = some ip)
    (whole : read.endmsg = true) :
    (s.ihGive rp read).rmi = s.rmi ∨
      (s.ihGive rp read).rmi = RawSys.appended s.rmi ip read.piece := by
  cases hasBuf : read.hasBuf with
  | true =>
    rw [ihGive_buf hasBuf]
    exact .inr (rawstrat_rmi entry rfl rfl)
  | false =>
    rw [ihGive_none hasBuf whole]
    exact .inl rfl

/-- The input after a leader that is a whole message. -/
structure Ended (s : RawIn) (read : Read) (after : RawIn) : Prop where
  rmi : after.rmi = s.rmi ∨ ∃ rp ip, s.ihEntry = some rp ∧ (s.rmi.tab false rp).rawskt = some ip ∧
    after.rmi = RawSys.appended s.rmi ip read.piece
  leader : after.impi.leader = true
  msg : after.impi.msg = none
  flush : after.impi.flush = s.impi.flush
  ncp : (hasMessid s.imp && s.rawhostmsg.isSome) = true → after.ncp = s.ncp

theorem ih_ended (whole : read.endmsg = true)
    (used : ∀ rp, s.ihEntry = some rp → s.rmi.Used false rp) :
    Ended s read (s.ih read) := by
  have given : ∃ got : RawIn, got = (s.ihEntry.map fun j => s.ihGive j read).getD s ∧
      got.impi.flush = s.impi.flush ∧ got.ncp = s.ncp ∧
      (got.rmi = s.rmi ∨ ∃ rp ip, s.ihEntry = some rp ∧ (s.rmi.tab false rp).rawskt = some ip ∧
        got.rmi = RawSys.appended s.rmi ip read.piece) := by
    refine ⟨_, rfl, ?_⟩
    cases entry : s.ihEntry with
    | none => exact ⟨rfl, rfl, .inl rfl⟩
    | some rp =>
      obtain ⟨flush, ncp⟩ := ihGive_kept (s := s) whole
      obtain ⟨ip, isIp⟩ := Option.ne_none_iff_exists'.mp (used rp entry)
      refine ⟨flush, ncp, ?_⟩
      rcases ihGive_rmi isIp whole with same | appended
      · exact .inl same
      · exact .inr ⟨rp, ip, rfl, isIp, appended⟩
  obtain ⟨got, isGot, flush, ncp, rmi⟩ := given
  unfold ih rawih
  rw [← isGot]
  dsimp only
  by_cases done : (hasMessid s.imp && s.rawhostmsg.isSome) ||
      decide (got.rmi.ncpopnstate < 0)
  · rw [if_pos done, if_pos rfl]
    exact ⟨rmi, rfl, rfl, flush, fun _ => ncp⟩
  · rw [if_neg done]
    refine ⟨rmi, rfl, rfl, flush, fun raw => absurd ?_ done⟩
    rw [raw, Bool.true_or]

theorem leaderNcp_msg (empty : s.impi.msg = none) :
    ((s.leaderNcp read).impi.msg.any fun msg => msg.raw) = false := by
  unfold leaderNcp ihbget flushimp
  split
  · split
    · dsimp only
      rw [empty]
      rfl
    · dsimp only
      rw [empty]
      rfl
  · dsimp only
    rw [empty]
    rfl

theorem leaderNcp_kept (s : RawIn) (read : Read) :
    (s.leaderNcp read).rmi = s.rmi ∧ (s.leaderNcp read).ncp = s.ncp ∧
      (s.leaderNcp read).impi.leader = s.impi.leader := by
  unfold leaderNcp ihbget flushimp
  split
  · split <;> exact ⟨rfl, rfl, rfl⟩
  · exact ⟨rfl, rfl, rfl⟩

/-- A read that leaves the tables alone, goes on flushing, and has as raw buffers as there were. -/
structure Passed (s : RawIn) (after : RawIn) : Prop where
  rmi : after.rmi = s.rmi
  ncp : after.ncp = s.ncp
  leader : after.impi.leader = s.impi.leader
  con : after.impi.con = s.impi.con
  sockt : after.impi.sockt = s.impi.sockt
  flush : s.impi.flush = true → after.impi.flush = true
  msg : s.impi.flush = true → s.impi.msg = none → after.impi.msg = none
  raw : (after.impi.msg.any fun msg => msg.raw) = s.impi.msg.any fun msg => msg.raw

theorem Passed.trans {mid after : RawIn} (first : Passed s mid) (second : Passed mid after) :
    Passed s after where
  rmi := second.rmi.trans first.rmi
  ncp := second.ncp.trans first.ncp
  leader := second.leader.trans first.leader
  con := second.con.trans first.con
  sockt := second.sockt.trans first.sockt
  flush flush := second.flush (first.flush flush)
  msg flush empty := second.msg (first.flush flush) (first.msg flush empty)
  raw := second.raw.trans first.raw

theorem fill_passed (s : RawIn) (mlen : Nat) (piece : List Byte) :
    Passed s ({ s with impi := { s.impi with mlen } }.fill piece) where
  rmi := rfl
  ncp := rfl
  leader := rfl
  con := rfl
  sockt := rfl
  flush flush := flush
  msg _ empty := by
    unfold fill
    dsimp only
    rw [empty]
    rfl
  raw := by
    unfold fill
    dsimp only
    cases s.impi.msg <;> rfl

theorem fill_msg {s : RawIn} {msg : ImpMsg} (isMsg : s.impi.msg = some msg) (mlen : Nat)
    (piece : List Byte) :
    ({ s with impi := { s.impi with mlen } }.fill piece).impi.msg =
      some { msg with bytes := msg.bytes ++ piece } := by
  unfold fill
  dsimp only
  rw [isMsg]
  rfl

theorem goOn_passed (s : RawIn) (read : Read) :
    Passed s (if s.impi.flush then s.flushimp else s.ihbget read) := by
  split
  next => exact ⟨rfl, rfl, rfl, rfl, rfl, fun _ => rfl, fun _ empty => empty, rfl⟩
  next notFlush =>
    unfold ihbget
    split
    next =>
      refine ⟨rfl, rfl, rfl, rfl, rfl, fun flush => absurd flush notFlush,
        fun flush => absurd flush notFlush, ?_⟩
      show Option.any _ (some _) = _
      cases s.impi.msg <;> rfl
    next => exact ⟨rfl, rfl, rfl, rfl, rfl, fun _ => rfl, fun _ empty => empty, rfl⟩

theorem rawhh_more (s : RawIn) (more : read.endmsg = false) : Passed s (s.rawhh read) := by
  have filled := (fill_passed s (s.impi.mlen + read.piece.length) read.piece).trans
    (goOn_passed _ read)
  unfold rawhh
  dsimp only
  rw [if_neg (by simp [more])]
  exact filled

theorem rawhh_kept {msg : ImpMsg} (more : read.endmsg = false) (flush : s.impi.flush = false)
    (isMsg : s.impi.msg = some msg) :
    (s.rawhh read).impi.msg = some { msg with bytes := msg.bytes ++ read.piece } ∧
      (s.rawhh read).impi.mlen = s.impi.mlen + read.piece.length := by
  have filled := fill_msg isMsg (s.impi.mlen + read.piece.length) read.piece
  have input : s.rawhh read = ({ s with impi :=
      { s.impi with mlen := s.impi.mlen + read.piece.length } }.fill read.piece).ihbget read := by
    unfold rawhh
    dsimp only
    rw [if_neg (by simp [more])]
    exact if_neg (by simp [fill, flush])
  rw [input]
  unfold ihbget
  split
  next =>
    refine ⟨?_, rfl⟩
    show some (Option.getD _ _) = _
    rw [filled]
    rfl
  next => exact ⟨filled, rfl⟩

theorem hh_more (s : RawIn) (more : read.endmsg = false) : Passed s (s.hh read) := by
  have filled := (fill_passed s s.impi.mlen read.piece).trans (goOn_passed _ read)
  unfold hh
  dsimp only
  rw [if_neg (by simp [more])]
  exact filled

theorem rawhh_flushed (whole : read.endmsg = true) (flush : s.impi.flush = true) :
    ∃ filled, Passed s filled ∧ s.rawhh read =
      { filled with impi := { filled.impi with flush := false } }.implread := by
  refine ⟨_, fill_passed s (s.impi.mlen + read.piece.length) read.piece, ?_⟩
  unfold rawhh
  dsimp only
  rw [if_pos whole]
  exact if_pos flush

theorem hh_whole (whole : read.endmsg = true) :
    (s.hh read).rmi = s.rmi ∧ (s.hh read).impi.leader = true ∧ (s.hh read).impi.msg = none ∧
      (s.hh read).impi.flush = false ∧
      (s.impi.flush = true → s.impi.sockt = none → (s.hh read).ncp = s.ncp) := by
  have filled := fill_passed s s.impi.mlen read.piece
  unfold hh
  dsimp only
  rw [if_pos whole]
  cases flush : s.impi.flush with
  | true =>
    rw [if_pos (show (s.fill read.piece).impi.flush = true from flush)]
    cases sockt : (s.fill read.piece).impi.sockt with
    | none => exact ⟨rfl, rfl, rfl, rfl, fun _ _ => rfl⟩
    | some sktp =>
      refine ⟨rfl, rfl, rfl, rfl, fun _ noSkt => ?_⟩
      rw [show (s.fill read.piece).impi.sockt = s.impi.sockt from rfl, noSkt] at sockt
      cases sockt
  | false =>
    rw [if_neg (by simp [fill, flush])]
    exact ⟨rfl, rfl, rfl, flush, fun isTrue => Bool.noConfusion isTrue⟩

/-- The end of a raw message that is kept: its length is put before its bytes, and it is given to
the entry that was found for it. -/
theorem rawhh_whole {head bytes : List Byte} (whole : read.endmsg = true)
    (flush : s.impi.flush = false) (con : s.impi.con = some rp) (two : head.length = 2)
    (msg : s.impi.msg = some ⟨true, head ++ bytes⟩) (mlen : s.impi.mlen = 2 + bytes.length) :
    ∃ filled : RawIn, s.rawhh read = (filled.rawstrat rp).implread ∧ filled.rmi = s.rmi ∧
      filled.ncp = s.ncp ∧ filled.impi.flush = false ∧
      filled.impi.mlen = 2 + (bytes ++ read.piece).length ∧
      filled.impi.msg = some ⟨true, lenword (2 + (bytes ++ read.piece).length) ++
        (bytes ++ read.piece)⟩ := by
  have total : s.impi.mlen + read.piece.length = 2 + (bytes ++ read.piece).length := by
    rw [mlen, List.length_append, Nat.add_assoc]
  have filled := fill_msg msg (s.impi.mlen + read.piece.length) read.piece
  refine ⟨({ s with impi :=
    { s.impi with mlen := s.impi.mlen + read.piece.length } }.fill read.piece).putLength,
    ?_, rfl, rfl, flush, total, ?_⟩
  · unfold rawhh
    dsimp only
    rw [if_pos whole, if_neg (by simp [fill, flush])]
    congr 1
    split
    next other found =>
      have isRp : some rp = some other := con.symm.trans found
      cases isRp
      rfl
    next found =>
      have impossible : some rp = none := con.symm.trans found
      cases impossible
  · unfold putLength
    dsimp only
    rw [filled]
    show some (ImpMsg.mk true (lenword (s.impi.mlen + read.piece.length) ++ _)) = _
    rw [total, List.append_assoc, List.drop_append_of_le_length (by omega), ← two, List.drop_length,
      List.nil_append]

end RawIn

/-! ### The invariant -/

namespace RawSys

variable {s next : RawSys} {read : Read}

/-- What holds between interrupts: the tables are sound; while a leader is read there is no message;
of a raw message that is kept there are all the bytes, and its length; one that is flushed has
buffers that show that it is raw, or there is no one else that it could be taken for; and what is
no raw message has no raw buffers. -/
structure Good (s : RawSys) : Prop where
  sound : s.inp.rmi.Sound
  idle : s.inp.impi.leader = true →
    s.inp.impi.msg = none ∧ s.inp.impi.flush = false ∧ s.raw = none
  con : ∀ raw, s.raw = some raw → s.inp.impi.con.isSome = true
  kept : ∀ raw, s.raw = some raw → s.inp.impi.flush = false →
    (∃ head, head.length = 2 ∧ s.inp.impi.msg = some ⟨true, head ++ raw.data⟩) ∧
      s.inp.impi.mlen = 2 + raw.data.length
  flushed : ∀ raw, s.raw = some raw → s.inp.impi.flush = true →
    (∃ msg, s.inp.impi.msg = some msg ∧ msg.raw = true) ∨ s.inp.rmi.ncpopnstate < 0 ∨
      s.inp.impi.msg = none ∧ s.inp.impi.sockt = none
  other : s.inp.impi.leader = false → s.raw = none →
    (s.inp.impi.msg.any fun msg => msg.raw) = false ∧
      (s.inp.rmi.ncpopnstate < 0 → s.inp.impi.flush = true)

theorem start_good (file : Nat → NetFile) (inode : Nat → Inode) (state : Int) (localnet : Byte)
    (ncp : Ncp) : (start file inode state localnet ncp).Good where
  sound := (Rmi.start_sound file inode).withState state
  idle _ := ⟨rfl, rfl, rfl⟩
  con _ isRaw := by cases isRaw
  kept _ isRaw := by cases isRaw
  flushed _ isRaw := by cases isRaw
  other isFalse := Bool.noConfusion isFalse

theorem appended_sound {rmi : Rmi} (sound : rmi.Sound) {rp : Fin rawtsize} {ip : Nat}
    (entry : (rmi.tab false rp).rawskt = some ip) (bytes : List Byte) :
    (appended rmi ip bytes).Sound := by
  obtain ⟨fp, isRaw, node⟩ := sound.named false rp ip entry
  obtain ⟨count, isOpen, -⟩ := sound.entered fp false ip isRaw node
  exact sound.setInode fun _ _ _ => ⟨count, isOpen⟩

theorem Owned.rmi (owned : Owned s read next) (good : s.Good) :
    next.inp.rmi.Sound ∧ next.inp.rmi.ncpopnstate = s.inp.rmi.ncpopnstate := by
  rcases owned.queue with same | ⟨_, _, bytes, rp, ip, -, entry, -, same⟩
  · rw [same]
    exact ⟨good.sound, rfl⟩
  · rw [same]
    exact ⟨appended_sound good.sound entry bytes, rfl⟩

/-- A leader is to be read. -/
structure Idle (s : RawSys) : Prop where
  leader : s.inp.impi.leader = true
  msg : s.inp.impi.msg = none
  flush : s.inp.impi.flush = false
  raw : s.raw = none

theorem Idle.good (idle : s.Idle) (sound : s.inp.rmi.Sound) : s.Good where
  sound
  idle _ := ⟨idle.msg, idle.flush, idle.raw⟩
  con raw isRaw := by rw [idle.raw] at isRaw; cases isRaw
  kept raw isRaw := by rw [idle.raw] at isRaw; cases isRaw
  flushed raw isRaw := by rw [idle.raw] at isRaw; cases isRaw
  other isFalse := by rw [idle.leader] at isFalse; cases isFalse

section

variable (sound : s.inp.rmi.Sound) (leader : s.inp.impi.leader = false)
include sound leader

theorem good_kept {raw : Raw} {head : List Byte} (isRaw : s.raw = some raw)
    (con : s.inp.impi.con.isSome = true) (flush : s.inp.impi.flush = false) (two : head.length = 2)
    (msg : s.inp.impi.msg = some ⟨true, head ++ raw.data⟩)
    (mlen : s.inp.impi.mlen = 2 + raw.data.length) : s.Good where
  sound
  idle isTrue := by rw [leader] at isTrue; cases isTrue
  con _ _ := con
  kept other isOther _ := by
    rw [isRaw] at isOther
    cases isOther
    exact ⟨⟨head, two, msg⟩, mlen⟩
  flushed _ _ isTrue := by rw [flush] at isTrue; cases isTrue
  other _ isNone := by rw [isRaw] at isNone; cases isNone

theorem good_flushed {raw : Raw} (isRaw : s.raw = some raw) (con : s.inp.impi.con.isSome = true) (flush : s.inp.impi.flush = true)
    (known : (∃ msg, s.inp.impi.msg = some msg ∧ msg.raw = true) ∨ s.inp.rmi.ncpopnstate < 0 ∨
      s.inp.impi.msg = none ∧ s.inp.impi.sockt = none) : s.Good where
  sound
  idle isTrue := by rw [leader] at isTrue; cases isTrue
  con _ _ := con
  kept _ _ isFalse := by rw [flush] at isFalse; cases isFalse
  flushed _ _ _ := known
  other _ isNone := by rw [isRaw] at isNone; cases isNone

theorem good_other (notRaw : s.raw = none) (msg : (s.inp.impi.msg.any fun msg => msg.raw) = false)
    (flush : s.inp.rmi.ncpopnstate < 0 → s.inp.impi.flush = true) : s.Good where
  sound
  idle isTrue := by rw [leader] at isTrue; cases isTrue
  con _ isRaw := by rw [notRaw] at isRaw; cases isRaw
  kept _ isRaw := by rw [notRaw] at isRaw; cases isRaw
  flushed _ isRaw := by rw [notRaw] at isRaw; cases isRaw
  other _ _ := ⟨msg, flush⟩

end

/-- The state after a read. -/
def after (s : RawSys) (read : Read) : RawSys := ⟨s.inp.impInput read, s.rawAfter read⟩

theorem rawAfter_end (whole : read.endmsg = true) : s.rawAfter read = none := by
  unfold rawAfter
  rw [if_pos whole]

/-! ### A leader -/

theorem ended_leader (good : s.Good) (leader : s.inp.impi.leader = true)
    (whole : read.endmsg = true) :
    Owned s read (s.after read) ∧ (s.after read).Idle := by
  obtain ⟨msg, flush, raw⟩ := good.idle leader
  have input : s.inp.impInput read = (s.reloaded read).ih read := by
    unfold RawIn.impInput
    rw [if_pos leader]
    dsimp only
    rw [if_pos whole]
    rfl
  have sound : (s.reloaded read).rmi.Sound := good.sound
  have used : ∀ rp, (s.reloaded read).ihEntry = some rp →
      s.inp.rmi.Used false rp ∧ s.inp.rmi.goesTo rp (s.reloaded read).host
        (if hasMessid (s.reloaded read).imp then some (messid (s.reloaded read).imp) else none) := by
    intro rp entry
    unfold RawIn.ihEntry at entry
    split at entry
    next number =>
      rw [if_pos number]
      exact sound.inrawtab entry
    next number =>
      rw [if_neg number]
      exact ⟨((sound.elseentry rp).mp entry).1, entry⟩
  have ended := RawIn.ih_ended (s := s.reloaded read) whole fun rp entry => (used rp entry).1
  have rawNext : s.rawAfter read = none := rawAfter_end whole
  unfold after
  rw [input, rawNext]
  refine ⟨⟨?_, fun isRaw => ?_, fun _ => ended.msg⟩,
    ⟨ended.leader, ended.msg, ended.flush.trans flush, rfl⟩⟩
  · rcases ended.rmi with same | ⟨rp, ip, entry, isIp, same⟩
    · exact .inl same
    · refine .inr ⟨_, _, _, rp, ip, ?_, isIp, (used rp entry).2, same⟩
      unfold completes
      rw [whole, if_neg (by decide), if_pos leader]
      dsimp only
      rw [entry]
      rfl
  · unfold RawSys.isRaw at isRaw
    rw [if_pos leader, whole, Bool.not_true, Bool.false_or, Bool.and_comm] at isRaw
    exact ended.ncp isRaw

/-- What a read that does not end a message leaves. -/
structure Middle (s : RawSys) (read : Read) (input : RawIn) (raw : Option Raw) : Prop where
  takes : s.inp.impInput read = input
  builds : s.rawAfter read = raw
  rmi : input.rmi = s.inp.rmi
  ncp : input.ncp = s.inp.ncp

theorem Middle.owned {input : RawIn} {raw : Option Raw} (middle : Middle s read input raw)
    (more : read.endmsg = false) (good : s.inp.rmi.Sound → Good ⟨input, raw⟩)
    (sound : s.inp.rmi.Sound) : Owned s read (s.after read) ∧ (s.after read).Good := by
  have same : s.after read = ⟨input, raw⟩ := by
    rw [← middle.takes, ← middle.builds]
    rfl
  rw [same]
  exact ⟨⟨.inl middle.rmi, fun _ => middle.ncp, fun whole => by rw [more] at whole; cases whole⟩,
    good sound⟩

theorem begun_leader (good : s.Good) (leader : s.inp.impi.leader = true)
    (more : read.endmsg = false) (allowed : s.proper (.read read)) :
    Owned s read (s.after read) ∧ (s.after read).Good := by
  obtain ⟨msg, flush, raw⟩ := good.idle leader
  have input : s.inp.impInput read =
      let t := { s.reloaded read with impi :=
        { (s.reloaded read).impi with con := (s.reloaded read).rawhostmsg } }
      if (s.reloaded read).rawhostmsg.isSome then (t.rawlget read).2
      else if s.inp.rmi.ncpopnstate < 0 then t.flushimp
      else t.leaderNcp read := by
    unfold RawIn.impInput
    rw [if_pos leader]
    dsimp only
    rw [if_neg (by simp [more])]
    rfl
  have rawNext : s.rawAfter read = if (s.reloaded read).rawhostmsg.isSome then
      some ⟨(s.reloaded read).host, messid (s.reloaded read).imp, read.piece⟩ else none := by
    unfold rawAfter
    rw [if_neg (by simp [more]), if_pos leader]
  unfold RawSys.proper at allowed
  dsimp only at allowed
  rw [if_pos leader] at allowed
  cases found : (s.reloaded read).rawhostmsg with
  | some rp =>
    rw [found] at input rawNext allowed
    rw [Option.isSome_some, if_pos rfl] at rawNext
    dsimp only at input
    rw [Option.isSome_some, if_pos rfl] at input
    unfold RawIn.rawlget at input
    cases hasBuf : read.hasBuf with
    | true =>
      rw [if_pos hasBuf] at input
      exact Middle.owned ⟨input, rawNext, rfl, rfl⟩ more (fun sound =>
        good_kept sound rfl rfl rfl flush rfl rfl rfl) good.sound
    | false =>
      rw [if_neg (by simp [hasBuf]), if_neg (by simp [more])] at input
      refine Middle.owned ⟨input, rawNext, rfl, rfl⟩ more (fun sound =>
        good_flushed sound rfl rfl rfl rfl (.inr ?_)) good.sound
      rcases allowed with whole | buf | notRaw | closed | noSkt
      · rw [more] at whole
        cases whole
      · rw [hasBuf] at buf
        cases buf
      · cases notRaw
      · exact .inl closed
      · exact .inr ⟨msg, noSkt⟩
  | none =>
    rw [found] at input rawNext
    rw [if_neg (by simp)] at rawNext
    dsimp only at input
    rw [if_neg (by simp)] at input
    by_cases closed : s.inp.rmi.ncpopnstate < 0
    · rw [if_pos closed] at input
      refine Middle.owned ⟨input, rawNext, rfl, rfl⟩ more (fun sound =>
        good_other sound rfl rfl ?_ fun _ => rfl) good.sound
      show (s.inp.impi.msg.any fun msg => msg.raw) = false
      rw [msg]
      rfl
    · rw [if_neg closed] at input
      have kept := RawIn.leaderNcp_kept { s.reloaded read with impi :=
        { (s.reloaded read).impi with con := none } } read
      refine Middle.owned ⟨input, rawNext, kept.1, kept.2.1⟩ more (fun sound =>
        good_other ?_ kept.2.2 rfl (RawIn.leaderNcp_msg msg) fun isClosed => ?_) good.sound
      · rw [kept.1]
        exact sound
      · rw [kept.1] at isClosed
        exact absurd isClosed closed

/-! ### Data -/

theorem input_data (s : RawSys) (read : Read) (leader : s.inp.impi.leader = false) :
    s.inp.impInput read =
      if (s.inp.impi.msg.any fun msg => msg.raw) || decide (s.inp.rmi.ncpopnstate < 0) then
        s.inp.rawhh read
      else s.inp.hh read := by
  unfold RawIn.impInput
  rw [if_neg (by simp [leader])]

theorem rawAfter_data (leader : s.inp.impi.leader = false) (more : read.endmsg = false) :
    s.rawAfter read = s.raw.map fun raw => { raw with data := raw.data ++ read.piece } := by
  unfold rawAfter
  rw [if_neg (by simp [more]), if_neg (by simp [leader])]

theorem input_passed (leader : s.inp.impi.leader = false) (more : read.endmsg = false) :
    RawIn.Passed s.inp (s.inp.impInput read) := by
  rw [input_data s read leader]
  split
  · exact RawIn.rawhh_more _ more
  · exact RawIn.hh_more _ more

theorem middle_data (good : s.Good) (leader : s.inp.impi.leader = false)
    (more : read.endmsg = false) : Owned s read (s.after read) ∧ (s.after read).Good := by
  have passed := input_passed (s := s) leader more
  have builds := rawAfter_data leader more
  refine Middle.owned ⟨rfl, builds, passed.rmi, passed.ncp⟩ more (fun sound => ?_) good.sound
  have notLeader := passed.leader.trans leader
  have still : (s.inp.impInput read).rmi.Sound := by
    rw [passed.rmi]
    exact sound
  cases isRaw : s.raw with
  | none =>
    obtain ⟨msg, flush⟩ := good.other leader isRaw
    refine good_other still notLeader rfl (passed.raw.trans msg) fun closed => ?_
    rw [passed.rmi] at closed
    exact passed.flush (flush closed)
  | some raw =>
    have con := good.con raw isRaw
    rw [← passed.con] at con
    cases flush : s.inp.impi.flush with
    | true =>
      refine good_flushed still notLeader rfl con (passed.flush flush) ?_
      rw [passed.rmi]
      rcases good.flushed raw isRaw flush with ⟨msg, isMsg, rawMsg⟩ | closed | ⟨empty, noSkt⟩
      · have any : (s.inp.impi.msg.any fun msg => msg.raw) = true := by
          rw [isMsg]
          exact rawMsg
        rw [← passed.raw, Option.any_eq_true] at any
        exact .inl any
      · exact .inr (.inl closed)
      · exact .inr (.inr ⟨passed.msg flush empty, passed.sockt.trans noSkt⟩)
    | false =>
      obtain ⟨⟨head, two, msg⟩, mlen⟩ := good.kept raw isRaw flush
      have input : s.inp.impInput read = s.inp.rawhh read := by
        rw [input_data s read leader, msg]
        rfl
      obtain ⟨msgNext, mlenNext⟩ := RawIn.rawhh_kept more flush msg
      rw [← input] at msgNext mlenNext
      rw [List.append_assoc] at msgNext
      cases flushed : (s.inp.impInput read).impi.flush with
      | true => exact good_flushed still notLeader rfl con flushed (.inl ⟨_, msgNext, rfl⟩)
      | false =>
        refine good_kept still notLeader rfl con flushed two msgNext ?_
        dsimp only
        rw [mlenNext, mlen, List.length_append, Nat.add_assoc]

/-! ### The end of a message -/

theorem idle_owned {input : RawIn} (takes : s.inp.impInput read = input)
    (whole : read.endmsg = true) (rmi : input.rmi = s.inp.rmi)
    (ncp : s.raw.isSome = true → input.ncp = s.inp.ncp) (leader : s.inp.impi.leader = false)
    (isLeader : input.impi.leader = true) (msg : input.impi.msg = none)
    (flush : input.impi.flush = false) :
    Owned s read (s.after read) ∧ (s.after read).Idle := by
  subst takes
  refine ⟨⟨.inl rmi, fun isRaw => ncp ?_, fun _ => msg⟩, isLeader, msg, flush, rawAfter_end whole⟩
  unfold RawSys.isRaw at isRaw
  rw [if_neg (by simp [leader])] at isRaw
  exact isRaw

theorem ended_flushed (leader : s.inp.impi.leader = false) (whole : read.endmsg = true)
    (flush : s.inp.impi.flush = true) (takes : s.inp.impInput read = s.inp.rawhh read) :
    Owned s read (s.after read) ∧ (s.after read).Idle := by
  obtain ⟨filled, passed, isFilled⟩ := RawIn.rawhh_flushed whole flush
  exact idle_owned (takes.trans isFilled) whole passed.rmi (fun _ => passed.ncp) leader rfl rfl rfl

theorem ended_data (good : s.Good) (leader : s.inp.impi.leader = false)
    (whole : read.endmsg = true) (allowed : s.proper (.read read)) :
    Owned s read (s.after read) ∧ (s.after read).Idle := by
  have input := input_data s read leader
  obtain ⟨rmi, isLeader, empty, notFlush, ncp⟩ := RawIn.hh_whole (s := s.inp) whole
  cases isRaw : s.raw with
  | none =>
    obtain ⟨msg, flush⟩ := good.other leader isRaw
    rw [msg, Bool.false_or] at input
    by_cases closed : s.inp.rmi.ncpopnstate < 0
    · rw [if_pos (by simpa using closed)] at input
      exact ended_flushed leader whole (flush closed) input
    · rw [if_neg (by simpa using closed)] at input
      refine idle_owned input whole rmi (fun raw => ?_) leader isLeader empty notFlush
      rw [isRaw] at raw
      cases raw
  | some raw =>
    cases flush : s.inp.impi.flush with
    | true =>
      by_cases rawhh : (s.inp.impi.msg.any fun msg => msg.raw) || decide (s.inp.rmi.ncpopnstate < 0)
      · rw [if_pos rawhh] at input
        exact ended_flushed leader whole flush input
      · rw [if_neg rawhh] at input
        refine idle_owned input whole rmi (fun _ => ncp flush ?_) leader isLeader empty notFlush
        rw [Bool.or_eq_true, decide_eq_true_eq, not_or] at rawhh
        rcases good.flushed raw isRaw flush with ⟨msg, isMsg, rawMsg⟩ | closed | ⟨-, noSkt⟩
        · refine absurd ?_ rawhh.1
          rw [isMsg]
          exact rawMsg
        · exact absurd closed rawhh.2
        · exact noSkt
    | false =>
      obtain ⟨⟨head, two, msg⟩, mlen⟩ := good.kept raw isRaw flush
      obtain ⟨rp, con⟩ := Option.isSome_iff_exists.mp (good.con raw isRaw)
      have takes : s.inp.impInput read = s.inp.rawhh read := by
        rw [input, msg]
        rfl
      obtain ⟨filled, isFilled, sameRmi, sameNcp, still, length, bytes⟩ :=
        RawIn.rawhh_whole whole flush con two msg mlen
      obtain ⟨impi, ncpKept⟩ := RawIn.rawstrat_kept filled rp
      have flushNext : (filled.rawstrat rp).implread.impi.flush = false := by
        show (filled.rawstrat rp).impi.flush = false
        rw [impi]
        exact still
      cases entry : (s.inp.rmi.tab false rp).rawskt with
      | none =>
        refine idle_owned (takes.trans isFilled) whole ?_ (fun _ => ncpKept.trans sameNcp) leader
          rfl rfl flushNext
        rw [RawIn.rawstrat_free (by rw [sameRmi]; exact entry)]
        exact sameRmi
      | some ip =>
        unfold RawSys.proper at allowed
        dsimp only at allowed
        rw [if_neg (by simp [leader]), isRaw, con] at allowed
        have mayGo : s.inp.rmi.goesTo rp raw.host (some raw.msg) := by
          rcases allowed with more | isFlush | free | mayGo
          · rw [whole] at more
            cases more
          · rw [flush] at isFlush
            cases isFlush
          · rw [entry] at free
            cases free
          · exact mayGo
        have appends := RawIn.rawstrat_rmi (by rw [sameRmi]; exact entry) bytes length
        rw [sameRmi] at appends
        have after : s.after read = ⟨(filled.rawstrat rp).implread, none⟩ := by
          rw [← isFilled, ← takes, ← rawAfter_end (s := s) whole]
          rfl
        rw [after]
        refine ⟨⟨.inr ⟨_, _, _, rp, ip, ?_, entry, mayGo, appends⟩, fun _ => ncpKept.trans sameNcp,
          fun _ => rfl⟩, rfl, rfl, flushNext, rfl⟩
        unfold completes
        rw [whole, if_neg (by decide), if_neg (by simp [leader]), isRaw]
        rfl

/-! ### Every run -/

theorem act_read (short : (s.inp.impi.leader && decide (16 < read.piece.length)) = false) :
    s.act (.read read) = some (s.after read) := by
  unfold act
  dsimp only
  rw [short]
  rfl

theorem read_owned (good : s.Good) (allowed : s.proper (.read read))
    (taken : s.act (.read read) = some next) : Owned s read next ∧ next.Good := by
  have isNext : next = s.after read := by
    unfold act at taken
    dsimp only at taken
    split at taken
    · cases taken
    · cases taken
      rfl
  subst isNext
  cases leader : s.inp.impi.leader with
  | true =>
    cases whole : read.endmsg with
    | true =>
      obtain ⟨owned, idle⟩ := ended_leader good leader whole
      exact ⟨owned, idle.good (owned.rmi good).1⟩
    | false => exact begun_leader good leader whole allowed
  | false =>
    cases whole : read.endmsg with
    | true =>
      obtain ⟨owned, idle⟩ := ended_data good leader whole allowed
      exact ⟨owned, idle.good (owned.rmi good).1⟩
    | false => exact middle_data good leader whole

theorem Good.tables (good : s.Good) {rmi : Rmi} (sound : rmi.Sound)
    (state : rmi.ncpopnstate = s.inp.rmi.ncpopnstate) :
    Good { s with inp := { s.inp with rmi } } where
  sound
  idle := good.idle
  con := good.con
  kept := good.kept
  flushed raw isRaw flush := by
    rw [show RawIn.rmi _ = rmi from rfl, state]
    exact good.flushed raw isRaw flush
  other leader notRaw := by
    rw [show RawIn.rmi _ = rmi from rfl, state]
    exact good.other leader notRaw

theorem act_tables {event : RawEvent} (taken : s.act (.tables event) = some next) :
    event.ofTables = true ∧ s.inp.rmi.can event = true ∧
      next = { s with inp := { s.inp with rmi := s.inp.rmi.does event } } := by
  unfold act at taken
  dsimp only at taken
  split at taken
  next tables =>
    obtain ⟨rmi, isRmi, rfl⟩ := Option.map_eq_some_iff.mp taken
    unfold Rmi.act at isRmi
    split at isRmi
    next can =>
      cases isRmi
      exact ⟨tables, can, rfl⟩
    next => cases isRmi
  next => cases taken

theorem act_good {event : InEvent} (good : s.Good) (allowed : s.proper event)
    (taken : s.act event = some next) : next.Good := by
  cases event with
  | read read => exact (read_owned good allowed taken).2
  | tables event =>
    obtain ⟨tables, can, rfl⟩ := act_tables taken
    exact good.tables (Rmi.does_sound good.sound can) (Rmi.does_state tables _)
  | ncp ncp =>
    cases taken
    exact ⟨good.sound, good.idle, good.con, good.kept, good.flushed, good.other⟩

/-- The start, the opens and the leader of the runs below. -/
def tryStart : RawSys := start (fun _ => ⟨0, false, fun _ => none⟩) (fun _ => .cleared) 1 10
  fun _ => ⟨false, 0, [], 0⟩

def tryOpen (host : Host) (lomsg himsg : Int) : InEvent :=
  .tables (.rawopen ⟨true, true, 10, 0, host, lomsg, himsg⟩)

def tryLeader (host : Byte) : List Byte := [0, 0, 0, 0, 0, 0, 0, host, 0x7d, 0, 0, 0]

def tryRead (piece : List Byte) (endmsg hasBuf : Bool) : Read :=
  ⟨piece, endmsg, hasBuf, true, some 7, fun _ => ⟨false, 0, [], 0⟩⟩

/-- The socket of a message in its midst is closed, and its entry is given to another. -/
def tryStray : RawSys := Transition.last act tryStart
  [tryOpen 5 2000 2010, .read (tryRead (tryLeader 5) false true), .tables (.rawclose 0),
    tryOpen 9 3000 3010]

theorem tryStray_refused :
    tryStray.completes (tryRead [1, 2] true true) =
        some (0x0a000005, some 2000, tryLeader 5 ++ [1, 2]) ∧
      ∀ rp, tryStray.inp.rmi.Used false rp →
        ¬ tryStray.inp.rmi.goesTo rp 0x0a000005 (some 2000) := by
  decide +kernel

end RawSys

end NetworkUnix.Ncpkernel
