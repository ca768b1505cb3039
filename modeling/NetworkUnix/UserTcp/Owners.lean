/-
This file proves who owns what in the tables of the user-level TCP: each active
control block has the two entries of FdsBffer for its data ports, and no other
entry for a data port is in use; each command port has its partner; only
descriptors that are open have entries. The commands keep this, and an open that
fails changes none of it.
-/

import NetworkUnix.UserTcp.Tables

namespace NetworkUnix.UserTcp.Process.Tables

open Function

variable {tables after : Tables}

/-- Who owns the control blocks, the entries and the descriptors. -/
structure Sound (tables : Tables) : Prop where
  parts : (tables.tcbHd ++ tables.tcbAvl).Perm (List.range numbtcbs)
  sends : ∀ handle ∈ tables.tcbHd, tables.fdsBffer (tables.tcb handle).sendPort =
    ⟨.userinhp, (tables.tcb handle).sendPort, .tcb handle⟩
  recvs : ∀ handle ∈ tables.tcbHd, tables.fdsBffer (tables.tcb handle).recvPort =
    ⟨.userouthp, (tables.tcb handle).recvPort, .tcb handle⟩
  sender : ∀ fd, (tables.fdsBffer fd).buffFlags = .userinhp →
    ∃ handle ∈ tables.tcbHd, (tables.tcb handle).sendPort = fd
  receiver : ∀ fd, (tables.fdsBffer fd).buffFlags = .userouthp →
    ∃ handle ∈ tables.tcbHd, (tables.tcb handle).recvPort = fd
  used : ∀ fd, (tables.fdsBffer fd).buffFlags ≠ .unused →
    fd < fdssize ∧ tables.inUse fd = true ∧ (tables.fdsBffer fd).buffFds = fd
  cmds : ∀ fd, (tables.fdsBffer fd).buffFlags = .usrcmd →
    ∃ fDesc, (tables.fdsBffer fd).buffTcbPtr = .fds fDesc ∧
      (tables.fdsBffer fDesc).buffFlags = .tcpcmd
  partner : ∀ fd other, (tables.fdsBffer fd).buffFlags = .usrcmd →
    (tables.fdsBffer other).buffFlags = .usrcmd →
    (tables.fdsBffer fd).buffTcbPtr = (tables.fdsBffer other).buffTcbPtr → fd = other
  shared : ∀ fd handle, (tables.fdsBffer fd).buffFlags ≠ .unused →
    (tables.fdsBffer fd).buffTcbPtr = .tcb handle →
    (tables.fdsBffer fd).buffFlags = .userinhp ∨ (tables.fdsBffer fd).buffFlags = .userouthp
  queued : ∀ handle ∈ tables.retranQ, handle ∈ tables.tcbHd

/-! ### Acts on FdsBffer -/

theorem enter_eq (tables : Tables) {fd : Nat} (inside : fd < fdssize) (flags : Opcode)
    (ptr : TcbPtr) :
    tables.enter fd flags ptr =
      { tables with fdsBffer := Function.update tables.fdsBffer fd ⟨flags, fd, ptr⟩ } :=
  if_pos inside

theorem enter_other (tables : Tables) {fd other : Nat} (flags : Opcode) (ptr : TcbPtr)
    (apart : other ≠ fd) : (tables.enter fd flags ptr).fdsBffer other = tables.fdsBffer other := by
  unfold enter
  split_ifs
  · exact update_of_ne apart _ _
  · rfl

theorem clear_self (tables : Tables) (fd : Nat) :
    ((tables.clear fd).fdsBffer fd).buffFlags = .unused := by
  simp [clear]

theorem clear_other (tables : Tables) {fd other : Nat} (apart : other ≠ fd) :
    (tables.clear fd).fdsBffer other = tables.fdsBffer other :=
  update_of_ne apart _ _

/-- The flags of two entries have been cleared, and the other entries are as they were. -/
structure Cleared (tables after : Tables) (one two : Nat) : Prop where
  first : (after.fdsBffer one).buffFlags = .unused
  second : (after.fdsBffer two).buffFlags = .unused
  others : ∀ fd, fd ≠ one → fd ≠ two → after.fdsBffer fd = tables.fdsBffer fd

theorem clear_clear (tables : Tables) (one two : Nat) :
    Cleared tables ((tables.clear one).clear two) one two where
  first := by
    by_cases same : one = two
    · rw [same]
      exact clear_self _ two
    · rw [clear_other _ same, clear_self]
  second := clear_self _ two
  others fd apart apart' := by
    rw [clear_other _ apart', clear_other _ apart]

theorem Cleared.stays {one two : Nat} (cleared : Cleared tables after one two) (fd : Nat)
    (stillUsed : (after.fdsBffer fd).buffFlags ≠ .unused) :
    fd ≠ one ∧ fd ≠ two ∧ after.fdsBffer fd = tables.fdsBffer fd := by
  have first : fd ≠ one := by
    rintro rfl
    exact stillUsed cleared.first
  have second : fd ≠ two := by
    rintro rfl
    exact stillUsed cleared.second
  exact ⟨first, second, cleared.others fd first second⟩

/-! ### The tables as they were -/

/-- The lists, the ports of the active control blocks, the entries in use, the descriptors and the
retransmission queue are as they were. -/
structure Unchanged (tables after : Tables) : Prop where
  tcbHd : after.tcbHd = tables.tcbHd
  tcbAvl : after.tcbAvl = tables.tcbAvl
  tcb : ∀ handle ∈ tables.tcbHd, (after.tcb handle).sendPort = (tables.tcb handle).sendPort ∧
    (after.tcb handle).recvPort = (tables.tcb handle).recvPort ∧
    (after.tcb handle).srcePort = (tables.tcb handle).srcePort
  flags : ∀ fd, (after.fdsBffer fd).buffFlags = (tables.fdsBffer fd).buffFlags
  entries : ∀ fd, (tables.fdsBffer fd).buffFlags ≠ .unused →
    after.fdsBffer fd = tables.fdsBffer fd
  inUse : after.inUse = tables.inUse
  retranQ : ∀ handle ∈ after.retranQ, handle ∈ tables.tcbHd

theorem Sound.unchanged (sound : tables.Sound) (same : Unchanged tables after) : after.Sound := by
  have inUse : ∀ fd, (after.fdsBffer fd).buffFlags ≠ .unused →
      after.fdsBffer fd = tables.fdsBffer fd := by
    intro fd used
    rw [same.flags fd] at used
    exact same.entries fd used
  refine ⟨?_, ?_, ?_, ?_, ?_, ?_, ?_, ?_, ?_, ?_⟩
  · rw [same.tcbHd, same.tcbAvl]
    exact sound.parts
  · intro handle active
    rw [same.tcbHd] at active
    have entry := sound.sends handle active
    rw [(same.tcb handle active).1, same.entries _ (by rw [entry]; simp), entry]
  · intro handle active
    rw [same.tcbHd] at active
    have entry := sound.recvs handle active
    rw [(same.tcb handle active).2.1, same.entries _ (by rw [entry]; simp), entry]
  · intro fd flags
    rw [same.flags] at flags
    obtain ⟨handle, active, isPort⟩ := sound.sender fd flags
    exact ⟨handle, same.tcbHd ▸ active, (same.tcb handle active).1.trans isPort⟩
  · intro fd flags
    rw [same.flags] at flags
    obtain ⟨handle, active, isPort⟩ := sound.receiver fd flags
    exact ⟨handle, same.tcbHd ▸ active, (same.tcb handle active).2.1.trans isPort⟩
  · intro fd used
    rw [inUse fd used, same.inUse]
    exact sound.used fd (same.flags fd ▸ used)
  · intro fd flags
    have used : (after.fdsBffer fd).buffFlags ≠ .unused := by simp [flags]
    rw [inUse fd used]
    obtain ⟨fDesc, ptr, partner⟩ := sound.cmds fd (same.flags fd ▸ flags)
    exact ⟨fDesc, ptr, (same.flags fDesc).trans partner⟩
  · intro fd other flags flags'
    rw [inUse fd (by simp [flags]), inUse other (by simp [flags'])]
    exact sound.partner fd other (same.flags fd ▸ flags) (same.flags other ▸ flags')
  · intro fd handle used ptr
    have entry := inUse fd used
    rw [entry] at used ptr ⊢
    exact sound.shared fd handle used ptr
  · intro handle queued
    rw [same.tcbHd]
    exact same.retranQ handle queued

/-! ### Descriptors -/

namespace Sound

theorem closed_unused (sound : tables.Sound) {fd : Nat} (closed : tables.inUse fd = false) :
    (tables.fdsBffer fd).buffFlags = .unused := by
  by_contra used
  have := (sound.used fd used).2.1
  rw [closed] at this
  exact Bool.noConfusion this

theorem owner (sound : tables.Sound) {fd handle : Nat}
    (used : (tables.fdsBffer fd).buffFlags ≠ .unused)
    (ptr : (tables.fdsBffer fd).buffTcbPtr = .tcb handle) :
    handle ∈ tables.tcbHd ∧
      ((tables.tcb handle).sendPort = fd ∨ (tables.tcb handle).recvPort = fd) := by
  rcases sound.shared fd handle used ptr with isSend | isRecv
  · obtain ⟨other, active, isPort⟩ := sound.sender fd isSend
    have entry := sound.sends other active
    rw [isPort] at entry
    rw [entry] at ptr
    obtain rfl : other = handle := TcbPtr.tcb.inj ptr
    exact ⟨active, .inl isPort⟩
  · obtain ⟨other, active, isPort⟩ := sound.receiver fd isRecv
    have entry := sound.recvs other active
    rw [isPort] at entry
    rw [entry] at ptr
    obtain rfl : other = handle := TcbPtr.tcb.inj ptr
    exact ⟨active, .inr isPort⟩

theorem active_distinct (sound : tables.Sound) : tables.tcbHd.Nodup :=
  (sound.parts.nodup_iff.mpr List.nodup_range).sublist (List.sublist_append_left _ _)

theorem active_le (sound : tables.Sound) : tables.tcbHd.length ≤ numbtcbs := by
  have := sound.parts.length_eq
  rw [List.length_append, List.length_range] at this
  omega

end Sound

/-! ### Abort and the close of a command port -/

theorem abort_cleared (tables : Tables) (handle : Nat) :
    Cleared tables (tables.abort handle) (tables.tcb handle).sendPort
      (tables.tcb handle).recvPort := by
  have same : (tables.abort handle).fdsBffer = ((tables.clear (tables.tcb handle).sendPort).clear
      (tables.tcb handle).recvPort).fdsBffer := by
    unfold abort deleteTcb unQTcb clearPort
    split_ifs <;> rfl
  have cleared := tables.clear_clear (tables.tcb handle).sendPort (tables.tcb handle).recvPort
  exact ⟨same ▸ cleared.first, same ▸ cleared.second, same ▸ cleared.others⟩

theorem abort_inUse (tables : Tables) (handle : Nat) :
    (tables.abort handle).inUse = Function.update
      (Function.update tables.inUse (tables.tcb handle).sendPort false)
      (tables.tcb handle).recvPort false := by
  unfold abort deleteTcb unQTcb clearPort
  split_ifs <;> rfl

theorem abort_tcb (tables : Tables) (handle : Nat) : (tables.abort handle).tcb = tables.tcb := by
  unfold abort deleteTcb unQTcb clearPort
  split_ifs <;> rfl

theorem abort_retranQ (tables : Tables) (handle : Nat) :
    (tables.abort handle).retranQ = tables.retranQ.filter (· ≠ handle) := by
  unfold abort deleteTcb unQTcb clearPort
  split_ifs <;> rfl

theorem abort_lists (tables : Tables) {handle : Nat} (active : handle ∈ tables.tcbHd) :
    (tables.abort handle).tcbHd = tables.tcbHd.erase handle ∧
      (tables.abort handle).tcbAvl = handle :: tables.tcbAvl := by
  unfold abort deleteTcb unQTcb clearPort
  split_ifs <;> first | exact ⟨rfl, rfl⟩ | contradiction

/-- `Abort` gives back all that an active control block owns. -/
theorem Sound.abort (sound : tables.Sound) {handle : Nat} (active : handle ∈ tables.tcbHd) :
    (tables.abort handle).Sound := by
  obtain ⟨hd, avl⟩ := tables.abort_lists active
  have cleared := tables.abort_cleared handle
  have send := sound.sends handle active
  have recv := sound.recvs handle active
  have inside : ∀ other, other ∈ tables.tcbHd.erase handle ↔
      other ≠ handle ∧ other ∈ tables.tcbHd := fun other =>
    sound.active_distinct.mem_erase_iff
  have stays := cleared.stays
  have apart : ∀ other ∈ tables.tcbHd, other ≠ handle →
      (tables.tcb other).sendPort ≠ (tables.tcb handle).sendPort ∧
      (tables.tcb other).sendPort ≠ (tables.tcb handle).recvPort ∧
      (tables.tcb other).recvPort ≠ (tables.tcb handle).sendPort ∧
      (tables.tcb other).recvPort ≠ (tables.tcb handle).recvPort := by
    intro other otherActive different
    have otherSend := sound.sends other otherActive
    have otherRecv := sound.recvs other otherActive
    refine ⟨?_, ?_, ?_, ?_⟩ <;> intro same
    · rw [same, send] at otherSend
      simp only [FdsBlk.mk.injEq, TcbPtr.tcb.injEq, true_and] at otherSend
      exact different otherSend.symm
    · rw [same, recv] at otherSend
      simp at otherSend
    · rw [same, send] at otherRecv
      simp at otherRecv
    · rw [same, recv] at otherRecv
      simp only [FdsBlk.mk.injEq, TcbPtr.tcb.injEq, true_and] at otherRecv
      exact different otherRecv.symm
  refine ⟨?_, ?_, ?_, ?_, ?_, ?_, ?_, ?_, ?_, ?_⟩
  · rw [hd, avl]
    refine List.Perm.trans ?_ sound.parts
    refine List.perm_middle.trans ?_
    rw [← List.cons_append]
    exact (List.perm_cons_erase active).symm.append_right _
  · intro other isActive
    rw [hd, inside] at isActive
    obtain ⟨toSend, toRecv, -, -⟩ := apart other isActive.2 isActive.1
    rw [abort_tcb, cleared.others _ toSend toRecv]
    exact sound.sends other isActive.2
  · intro other isActive
    rw [hd, inside] at isActive
    obtain ⟨-, -, toSend, toRecv⟩ := apart other isActive.2 isActive.1
    rw [abort_tcb, cleared.others _ toSend toRecv]
    exact sound.recvs other isActive.2
  · intro fd flags
    obtain ⟨notSend, -, entry⟩ := stays fd (by simp [flags])
    rw [entry] at flags
    obtain ⟨other, otherActive, isPort⟩ := sound.sender fd flags
    rw [hd, abort_tcb]
    refine ⟨other, (inside other).mpr ⟨?_, otherActive⟩, isPort⟩
    rintro rfl
    exact notSend isPort.symm
  · intro fd flags
    obtain ⟨-, notRecv, entry⟩ := stays fd (by simp [flags])
    rw [entry] at flags
    obtain ⟨other, otherActive, isPort⟩ := sound.receiver fd flags
    rw [hd, abort_tcb]
    refine ⟨other, (inside other).mpr ⟨?_, otherActive⟩, isPort⟩
    rintro rfl
    exact notRecv isPort.symm
  · intro fd used
    obtain ⟨notSend, notRecv, entry⟩ := stays fd used
    rw [entry] at used ⊢
    rw [abort_inUse, update_of_ne notRecv, update_of_ne notSend]
    exact sound.used fd used
  · intro fd flags
    obtain ⟨-, -, entry⟩ := stays fd (by simp [flags])
    rw [entry] at flags ⊢
    obtain ⟨fDesc, ptr, partner⟩ := sound.cmds fd flags
    refine ⟨fDesc, ptr, ?_⟩
    rw [cleared.others, partner]
    · rintro rfl
      rw [send] at partner
      simp at partner
    · rintro rfl
      rw [recv] at partner
      simp at partner
  · intro fd other flags flags'
    obtain ⟨-, -, entry⟩ := stays fd (by simp [flags])
    obtain ⟨-, -, entry'⟩ := stays other (by simp [flags'])
    rw [entry] at flags ⊢
    rw [entry'] at flags' ⊢
    exact sound.partner fd other flags flags'
  · intro fd other used ptr
    obtain ⟨-, -, entry⟩ := stays fd used
    rw [entry] at used ptr ⊢
    exact sound.shared fd other used ptr
  · intro other queued
    rw [abort_retranQ, List.mem_filter] at queued
    rw [hd, inside]
    exact ⟨by simpa using queued.2, sound.queued other queued.1⟩

theorem Sound.closeCmd (sound : tables.Sound) {fd fDesc : Nat}
    (flags : (tables.fdsBffer fd).buffFlags = .usrcmd)
    (ptr : (tables.fdsBffer fd).buffTcbPtr = .fds fDesc) :
    (tables.closeCmd fd fDesc).Sound := by
  have both := tables.clear_clear fd fDesc
  have cleared : Cleared tables (tables.closeCmd fd fDesc) fd fDesc :=
    ⟨both.first, both.second, both.others⟩
  have isPartner : (tables.fdsBffer fDesc).buffFlags = .tcpcmd := by
    obtain ⟨other, isOther, partner⟩ := sound.cmds fd flags
    obtain rfl : other = fDesc := TcbPtr.fds.inj (isOther.symm.trans ptr)
    exact partner
  have stays := cleared.stays
  have kept : ∀ other, (tables.fdsBffer other).buffFlags ≠ .usrcmd →
      (tables.fdsBffer other).buffFlags ≠ .tcpcmd →
      (tables.closeCmd fd fDesc).fdsBffer other = tables.fdsBffer other := by
    intro other notUser notTcp
    refine cleared.others other ?_ ?_
    · rintro rfl
      exact notUser flags
    · rintro rfl
      exact notTcp isPartner
  refine ⟨sound.parts, ?_, ?_, ?_, ?_, ?_, ?_, ?_, ?_, sound.queued⟩
  · intro handle active
    have entry := sound.sends handle active
    show (tables.closeCmd fd fDesc).fdsBffer (tables.tcb handle).sendPort = _
    rw [kept _ (by simp [entry]) (by simp [entry])]
    exact entry
  · intro handle active
    have entry := sound.recvs handle active
    show (tables.closeCmd fd fDesc).fdsBffer (tables.tcb handle).recvPort = _
    rw [kept _ (by simp [entry]) (by simp [entry])]
    exact entry
  · intro other isSend
    rw [(stays other (by simp [isSend])).2.2] at isSend
    exact sound.sender other isSend
  · intro other isRecv
    rw [(stays other (by simp [isRecv])).2.2] at isRecv
    exact sound.receiver other isRecv
  · intro other used
    obtain ⟨notFd, notDesc, entry⟩ := stays other used
    rw [entry] at used ⊢
    show _ ∧ Function.update (Function.update tables.inUse fd false) fDesc false other = true ∧ _
    rw [update_of_ne notDesc, update_of_ne notFd]
    exact sound.used other used
  · intro other isUser
    obtain ⟨notFd, -, entry⟩ := stays other (by simp [isUser])
    rw [entry] at isUser ⊢
    obtain ⟨desc, isPtr, partner⟩ := sound.cmds other isUser
    refine ⟨desc, isPtr, ?_⟩
    rw [cleared.others, partner]
    · rintro rfl
      rw [flags] at partner
      exact Opcode.noConfusion partner
    · rintro rfl
      exact notFd (sound.partner other fd isUser flags (isPtr.trans ptr.symm))
  · intro one other isUser isUser'
    obtain ⟨-, -, entry⟩ := stays one (by simp [isUser])
    obtain ⟨-, -, entry'⟩ := stays other (by simp [isUser'])
    rw [entry] at isUser ⊢
    rw [entry'] at isUser' ⊢
    exact sound.partner one other isUser isUser'
  · intro other handle used isTcb
    obtain ⟨-, -, entry⟩ := stays other used
    rw [entry] at used isTcb ⊢
    exact sound.shared other handle used isTcb

/-! ### Two entries are made -/

/-- Two entries have been made for descriptors that had none, and the others are as they were. -/
structure Entered (tables after : Tables) (one two : FdsBlk) : Prop where
  apart : one.buffFds ≠ two.buffFds
  fresh : tables.inUse one.buffFds = false ∧ tables.inUse two.buffFds = false
  inside : one.buffFds < fdssize ∧ two.buffFds < fdssize
  inUse : after.inUse = Function.update (Function.update tables.inUse one.buffFds true)
    two.buffFds true
  first : after.fdsBffer one.buffFds = one
  second : after.fdsBffer two.buffFds = two
  others : ∀ fd, fd ≠ one.buffFds → fd ≠ two.buffFds → after.fdsBffer fd = tables.fdsBffer fd

namespace Entered

variable {one two : FdsBlk}

theorem split (entered : Entered tables after one two) (fd : Nat) :
    (fd = one.buffFds ∧ after.fdsBffer fd = one) ∨ (fd = two.buffFds ∧ after.fdsBffer fd = two) ∨
      fd ≠ one.buffFds ∧ fd ≠ two.buffFds ∧ after.fdsBffer fd = tables.fdsBffer fd := by
  by_cases isOne : fd = one.buffFds
  · exact .inl ⟨isOne, isOne ▸ entered.first⟩
  · by_cases isTwo : fd = two.buffFds
    · exact .inr (.inl ⟨isTwo, isTwo ▸ entered.second⟩)
    · exact .inr (.inr ⟨isOne, isTwo, entered.others fd isOne isTwo⟩)

theorem keeps (entered : Entered tables after one two) (sound : tables.Sound) {fd : Nat}
    (used : (tables.fdsBffer fd).buffFlags ≠ .unused) :
    after.fdsBffer fd = tables.fdsBffer fd := by
  refine entered.others fd ?_ ?_
  · rintro rfl
    exact used (sound.closed_unused entered.fresh.1)
  · rintro rfl
    exact used (sound.closed_unused entered.fresh.2)

theorem used (entered : Entered tables after one two) (sound : tables.Sound) (fd : Nat)
    (used : (after.fdsBffer fd).buffFlags ≠ .unused) :
    fd < fdssize ∧ after.inUse fd = true ∧ (after.fdsBffer fd).buffFds = fd := by
  rw [entered.inUse]
  rcases entered.split fd with ⟨rfl, entry⟩ | ⟨rfl, entry⟩ | ⟨notOne, notTwo, entry⟩
  · rw [entry, update_of_ne entered.apart, update_self]
    exact ⟨entered.inside.1, rfl, rfl⟩
  · rw [entry, update_self]
    exact ⟨entered.inside.2, rfl, rfl⟩
  · rw [entry] at used ⊢
    rw [update_of_ne notTwo, update_of_ne notOne]
    exact sound.used fd used

end Entered

theorem enter_enter (tables : Tables) {one two : Nat} (apart : one ≠ two)
    (fresh : tables.inUse one = false ∧ tables.inUse two = false)
    (inside : one < fdssize ∧ two < fdssize) (flags flags' : Opcode) (ptr ptr' : TcbPtr) :
    Entered tables ((((tables.acquire one).acquire two).enter one flags ptr).enter two flags' ptr')
      ⟨flags, one, ptr⟩ ⟨flags', two, ptr'⟩ := by
  rw [enter_eq _ inside.1, enter_eq _ inside.2]
  refine ⟨apart, fresh, inside, rfl, ?_, ?_, ?_⟩
  · show Function.update _ two _ one = _
    rw [update_of_ne apart]
    exact update_self _ _ _
  · exact update_self _ _ _
  · intro fd notOne notTwo
    show Function.update _ two _ fd = _
    rw [update_of_ne notTwo]
    exact update_of_ne notOne _ _

/-- OINIT enters a command port and its partner. -/
theorem Sound.initUser (sound : tables.Sound) {usrFds fDesc : Nat} (apart : usrFds ≠ fDesc)
    (fresh : tables.inUse usrFds = false ∧ tables.inUse fDesc = false)
    (inside : usrFds < fdssize ∧ fDesc < fdssize) : (tables.initUser usrFds fDesc).Sound := by
  have entered : Entered tables (tables.initUser usrFds fDesc) ⟨.usrcmd, usrFds, .fds fDesc⟩
      ⟨.tcpcmd, fDesc, .null⟩ :=
    tables.enter_enter apart fresh inside _ _ _ _
  have partner := entered.second
  obtain ⟨hd, avl, tcb, retranQ⟩ :
      (tables.initUser usrFds fDesc).tcbHd = tables.tcbHd ∧
      (tables.initUser usrFds fDesc).tcbAvl = tables.tcbAvl ∧
      (tables.initUser usrFds fDesc).tcb = tables.tcb ∧
      (tables.initUser usrFds fDesc).retranQ = tables.retranQ := by
    unfold Tables.initUser
    rw [enter_eq _ inside.1, enter_eq _ inside.2]
    exact ⟨rfl, rfl, rfl, rfl⟩
  refine ⟨?_, ?_, ?_, ?_, ?_, entered.used sound, ?_, ?_, ?_, ?_⟩
  · rw [hd, avl]
    exact sound.parts
  · intro handle active
    rw [hd] at active
    have entry := sound.sends handle active
    rw [tcb, entered.keeps sound (by simp [entry])]
    exact entry
  · intro handle active
    rw [hd] at active
    have entry := sound.recvs handle active
    rw [tcb, entered.keeps sound (by simp [entry])]
    exact entry
  · intro fd isSend
    rcases entered.split fd with ⟨-, entry⟩ | ⟨-, entry⟩ | ⟨-, -, entry⟩ <;> rw [entry] at isSend
    · cases isSend
    · cases isSend
    · rw [hd, tcb]
      exact sound.sender fd isSend
  · intro fd isRecv
    rcases entered.split fd with ⟨-, entry⟩ | ⟨-, entry⟩ | ⟨-, -, entry⟩ <;> rw [entry] at isRecv
    · cases isRecv
    · cases isRecv
    · rw [hd, tcb]
      exact sound.receiver fd isRecv
  · intro fd isUser
    rcases entered.split fd with ⟨-, entry⟩ | ⟨-, entry⟩ | ⟨-, -, entry⟩ <;>
      rw [entry] at isUser ⊢
    · exact ⟨fDesc, rfl, by rw [partner]⟩
    · cases isUser
    · obtain ⟨desc, ptr, isPartner⟩ := sound.cmds fd isUser
      exact ⟨desc, ptr, by rw [entered.keeps sound (by simp [isPartner]), isPartner]⟩
  · intro fd other isUser isUser'
    have alone : ∀ fd, (tables.fdsBffer fd).buffFlags = .usrcmd →
        (tables.fdsBffer fd).buffTcbPtr ≠ .fds fDesc := by
      intro fd isUser same
      obtain ⟨desc, ptr, isPartner⟩ := sound.cmds fd isUser
      obtain rfl : desc = fDesc := TcbPtr.fds.inj (ptr.symm.trans same)
      rw [sound.closed_unused fresh.2] at isPartner
      exact Opcode.noConfusion isPartner
    have users : ∀ fd, ((tables.initUser usrFds fDesc).fdsBffer fd).buffFlags = .usrcmd →
        (fd = usrFds ∧ ((tables.initUser usrFds fDesc).fdsBffer fd).buffTcbPtr = .fds fDesc) ∨
          (tables.fdsBffer fd).buffFlags = .usrcmd ∧
            (tables.initUser usrFds fDesc).fdsBffer fd = tables.fdsBffer fd := by
      intro fd isUser
      rcases entered.split fd with ⟨isFd, entry⟩ | ⟨-, entry⟩ | ⟨-, -, entry⟩
      · exact .inl ⟨isFd, by rw [entry]⟩
      · rw [entry] at isUser
        cases isUser
      · exact .inr ⟨entry ▸ isUser, entry⟩
    intro same
    rcases users fd isUser with ⟨isFd, ptr⟩ | ⟨before, entry⟩ <;>
      rcases users other isUser' with ⟨isFd', ptr'⟩ | ⟨before', entry'⟩
    · rw [isFd, isFd']
    · rw [ptr, entry'] at same
      exact absurd same.symm (alone other before')
    · rw [ptr', entry] at same
      exact absurd same (alone fd before)
    · rw [entry, entry'] at same
      exact sound.partner fd other before before' same
  · intro fd handle used ptr
    rcases entered.split fd with ⟨-, entry⟩ | ⟨-, entry⟩ | ⟨-, -, entry⟩ <;>
      rw [entry] at used ptr ⊢
    · cases ptr
    · cases ptr
    · exact sound.shared fd handle used ptr
  · intro handle queued
    rw [retranQ] at queued
    rw [hd]
    exact sound.queued handle queued

theorem Sound.enterNull (sound : tables.Sound) {fd : Nat} {flags : Opcode} (inside : fd < fdssize)
    (unused : (tables.fdsBffer fd).buffFlags = .unused)
    (kind : flags = .earin ∨ flags = .netinhp ∨ flags = .netouthp) :
    ((tables.acquire fd).enter fd flags .null).Sound := by
  rw [enter_eq _ inside]
  have self : Function.update tables.fdsBffer fd ⟨flags, fd, .null⟩ fd = ⟨flags, fd, .null⟩ :=
    update_self _ _ _
  have others : ∀ other, (tables.fdsBffer other).buffFlags ≠ .unused →
      Function.update tables.fdsBffer fd ⟨flags, fd, .null⟩ other = tables.fdsBffer other := by
    intro other used
    refine update_of_ne ?_ _ _
    rintro rfl
    exact used unused
  have before : ∀ other wanted, wanted = .userinhp ∨ wanted = .userouthp ∨ wanted = .usrcmd →
      (Function.update tables.fdsBffer fd ⟨flags, fd, .null⟩ other).buffFlags = wanted →
      (tables.fdsBffer other).buffFlags = wanted ∧
        Function.update tables.fdsBffer fd ⟨flags, fd, .null⟩ other = tables.fdsBffer other := by
    intro other wanted isKind isFlags
    have apart : other ≠ fd := by
      rintro rfl
      rw [self] at isFlags
      rcases kind with rfl | rfl | rfl <;> rcases isKind with rfl | rfl | rfl <;> cases isFlags
    rw [update_of_ne apart] at isFlags ⊢
    exact ⟨isFlags, rfl⟩
  refine ⟨sound.parts, ?_, ?_, ?_, ?_, ?_, ?_, ?_, ?_, sound.queued⟩
  · intro handle active
    have entry := sound.sends handle active
    exact (others (tables.tcb handle).sendPort (by simp [entry])).trans entry
  · intro handle active
    have entry := sound.recvs handle active
    exact (others (tables.tcb handle).recvPort (by simp [entry])).trans entry
  · intro other isSend
    exact sound.sender other (before other _ (.inl rfl) isSend).1
  · intro other isRecv
    exact sound.receiver other (before other _ (.inr (.inl rfl)) isRecv).1
  · intro other used
    show _ ∧ Function.update tables.inUse fd true other = true ∧
      (Function.update tables.fdsBffer fd ⟨flags, fd, .null⟩ other).buffFds = other
    by_cases isFd : other = fd
    · subst isFd
      rw [self, update_self]
      exact ⟨inside, rfl, rfl⟩
    · change (Function.update tables.fdsBffer fd ⟨flags, fd, .null⟩ other).buffFlags ≠ _ at used
      rw [update_of_ne isFd] at used ⊢
      rw [update_of_ne isFd]
      exact sound.used other used
  · intro other isUser
    obtain ⟨wasUser, entry⟩ := before other _ (.inr (.inr rfl)) isUser
    obtain ⟨fDesc, ptr, partner⟩ := sound.cmds other wasUser
    refine ⟨fDesc, (congrArg FdsBlk.buffTcbPtr entry).trans ptr, ?_⟩
    exact (congrArg FdsBlk.buffFlags (others fDesc (by simp [partner]))).trans partner
  · intro one other isUser isUser' same
    obtain ⟨wasUser, entry⟩ := before one _ (.inr (.inr rfl)) isUser
    obtain ⟨wasUser', entry'⟩ := before other _ (.inr (.inr rfl)) isUser'
    refine sound.partner one other wasUser wasUser' ?_
    rw [← entry, ← entry']
    exact same
  · intro other handle used ptr
    show (Function.update tables.fdsBffer fd ⟨flags, fd, .null⟩ other).buffFlags = _ ∨
      (Function.update tables.fdsBffer fd ⟨flags, fd, .null⟩ other).buffFlags = _
    change (Function.update tables.fdsBffer fd ⟨flags, fd, .null⟩ other).buffFlags ≠ _ at used
    change (Function.update tables.fdsBffer fd ⟨flags, fd, .null⟩ other).buffTcbPtr = _ at ptr
    by_cases isFd : other = fd
    · subst isFd
      rw [self] at ptr
      cases ptr
    · rw [update_of_ne isFd] at used ptr ⊢
      exact sound.shared other handle used ptr

theorem init_sound (tcb : Nat → TcpTcb) (inUse : Nat → Bool) :
    ({ init tcb with inUse } : Tables).Sound := by
  refine ⟨by simp [init], ?_, ?_, ?_, ?_, ?_, ?_, ?_, ?_, ?_⟩ <;> simp [init]

/-! ### A move -/

/-- The other of two control blocks. -/
def across (mover acceptor handle : Nat) : Nat :=
  if handle = acceptor then mover else if handle = mover then acceptor else handle

theorem across_across (mover acceptor handle : Nat) :
    across mover acceptor (across mover acceptor handle) = handle := by
  unfold across
  split_ifs <;> simp_all

theorem exchange_tcb (mover acceptor handle : Nat) :
    (TcbPtr.tcb handle).exchange acceptor mover = .tcb (across mover acceptor handle) := by
  unfold TcbPtr.exchange across
  split_ifs <;> simp_all

theorem exchange_eq_tcb {mover acceptor handle : Nat} {ptr : TcbPtr}
    (same : ptr.exchange acceptor mover = .tcb handle) :
    ptr = .tcb (across mover acceptor handle) := by
  rw [← exchange_tcb, ← same, TcbPtr.exchange_exchange]

theorem exchange_fds (mover acceptor fDesc : Nat) :
    (TcbPtr.fds fDesc).exchange acceptor mover = .fds fDesc := by
  simp [TcbPtr.exchange]

theorem exchange_ports (tables : Tables) {mover acceptor : Nat} (apart : acceptor ≠ mover)
    (handle : Nat) :
    ((tables.exchange mover acceptor).tcb (across mover acceptor handle)).sendPort =
        (tables.tcb handle).sendPort ∧
      ((tables.exchange mover acceptor).tcb (across mover acceptor handle)).recvPort =
        (tables.tcb handle).recvPort := by
  unfold exchange across
  by_cases isAcceptor : handle = acceptor
  · subst isAcceptor
    simp [apart.symm]
  · by_cases isMover : handle = mover
    · subst isMover
      simp [isAcceptor]
    · simp [isAcceptor, isMover]

theorem exchange_entry (sound : tables.Sound) (mover acceptor fd : Nat) :
    ((tables.exchange mover acceptor).fdsBffer fd).buffFlags = (tables.fdsBffer fd).buffFlags ∧
      ((tables.fdsBffer fd).buffFlags ≠ .unused →
        (tables.exchange mover acceptor).fdsBffer fd =
          { tables.fdsBffer fd with
            buffTcbPtr := (tables.fdsBffer fd).buffTcbPtr.exchange acceptor mover }) := by
  show ((if _ then _ else _ : FdsBlk)).buffFlags = _ ∧ (_ → (if _ then _ else _ : FdsBlk) = _)
  constructor
  · split_ifs <;> rfl
  · intro used
    rw [if_pos ⟨(sound.used fd used).1, used⟩]

theorem Sound.exchange (sound : tables.Sound) {mover acceptor : Nat} (apart : acceptor ≠ mover)
    (moverActive : mover ∈ tables.tcbHd) (acceptorActive : acceptor ∈ tables.tcbHd) :
    (tables.exchange mover acceptor).Sound := by
  have flags := fun fd => (exchange_entry sound mover acceptor fd).1
  have entries := fun fd => (exchange_entry sound mover acceptor fd).2
  have ports := tables.exchange_ports apart
  have active : ∀ handle ∈ tables.tcbHd, across mover acceptor handle ∈ tables.tcbHd := by
    intro handle inside
    unfold across
    split_ifs <;> assumption
  refine ⟨sound.parts, ?_, ?_, ?_, ?_, ?_, ?_, ?_, ?_, sound.queued⟩
  · intro handle inside
    have entry := sound.sends _ (active handle inside)
    have port := (ports (across mover acceptor handle)).1
    rw [across_across] at port
    rw [port, entries _ (by rw [entry]; simp), entry, exchange_tcb, across_across]
  · intro handle inside
    have entry := sound.recvs _ (active handle inside)
    have port := (ports (across mover acceptor handle)).2
    rw [across_across] at port
    rw [port, entries _ (by rw [entry]; simp), entry, exchange_tcb, across_across]
  · intro fd isSend
    rw [flags] at isSend
    obtain ⟨handle, inside, port⟩ := sound.sender fd isSend
    exact ⟨_, active handle inside, (ports handle).1.trans port⟩
  · intro fd isRecv
    rw [flags] at isRecv
    obtain ⟨handle, inside, port⟩ := sound.receiver fd isRecv
    exact ⟨_, active handle inside, (ports handle).2.trans port⟩
  · intro fd used
    rw [flags] at used
    rw [entries fd used]
    exact sound.used fd used
  · intro fd isUser
    rw [flags] at isUser
    obtain ⟨fDesc, ptr, partner⟩ := sound.cmds fd isUser
    refine ⟨fDesc, ?_, (flags fDesc).trans partner⟩
    rw [entries fd (by simp [isUser])]
    show (tables.fdsBffer fd).buffTcbPtr.exchange acceptor mover = _
    rw [ptr, exchange_fds]
  · intro fd fd' isUser isUser' same
    rw [flags] at isUser isUser'
    rw [entries fd (by simp [isUser]), entries fd' (by simp [isUser'])] at same
    refine sound.partner fd fd' isUser isUser' ?_
    have back := congrArg (TcbPtr.exchange acceptor mover) same
    simpa only [TcbPtr.exchange_exchange] using back
  · intro fd handle used ptr
    rw [flags] at used ⊢
    rw [entries fd used] at ptr
    exact sound.shared fd _ used (exchange_eq_tcb ptr)

end NetworkUnix.UserTcp.Process.Tables
