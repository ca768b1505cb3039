/-
This file follows an open through its steps: the control block, the local port,
the two data ports and the check of the pair of sockets. An open that fails
leaves the lists, the entries and the descriptors as they were; an open that is
acknowledged has made one control block active with its two entries. The bit of
a local port that the program has given out is set and not cleared again.
-/

import NetworkUnix.UserTcp.Owners

namespace NetworkUnix.UserTcp.Process.Tables

open Function

variable {tables now : Tables} {handle : Nat}

/-! ### An open in its course -/

/-- The descriptors that the system gives to an open are not in use. -/
def fresh (tables : Tables) (outside : OpenWith) : Bool :=
  (outside.sndFds.all fun snd => !tables.inUse snd) &&
    outside.rcvFds.all fun rcv => !tables.inUse rcv && decide (outside.sndFds ≠ some rcv)

/-- An open has got a control block and nothing else yet. -/
structure Pending (tables now : Tables) (handle : Nat) : Prop where
  tcbHd : now.tcbHd = handle :: tables.tcbHd
  tcbAvl : handle :: now.tcbAvl = tables.tcbAvl
  tcb : ∀ other, other ≠ handle → now.tcb other = tables.tcb other
  fdsBffer : now.fdsBffer = tables.fdsBffer
  inUse : now.inUse = tables.inUse
  retranQ : now.retranQ = tables.retranQ

/-- An open has made its control block active, with two entries. -/
structure Opened (tables after : Tables) (handle : Nat) (port : Int) (snd rcv : Nat) : Prop where
  tcbHd : after.tcbHd = handle :: tables.tcbHd
  tcbAvl : handle :: after.tcbAvl = tables.tcbAvl
  tcb : ∀ other, other ≠ handle → after.tcb other = tables.tcb other
  sendPort : (after.tcb handle).sendPort = snd
  recvPort : (after.tcb handle).recvPort = rcv
  srcePort : (after.tcb handle).srcePort = port
  entered : Entered tables after ⟨.userinhp, snd, .tcb handle⟩ ⟨.userouthp, rcv, .tcb handle⟩
  retranQ : after.retranQ = tables.retranQ

theorem activate_pending {rest : List Nat} (avail : tables.tcbAvl = handle :: rest)
    (connHandle : Int) (tcpFds : Nat) :
    Pending tables (tables.activate handle rest connHandle tcpFds) handle where
  tcbHd := rfl
  tcbAvl := avail.symm
  tcb _ apart := update_of_ne apart _ _
  fdsBffer := rfl
  inUse := rfl
  retranQ := rfl

theorem Sound.free_inactive (sound : tables.Sound) (free : handle ∈ tables.tcbAvl) :
    handle ∉ tables.tcbHd := by
  intro active
  have distinct := sound.parts.nodup_iff.mpr List.nodup_range
  exact (List.disjoint_of_nodup_append distinct) active free

namespace Pending

variable (pending : Pending tables now handle)

include pending

theorem free : handle ∈ tables.tcbAvl := by
  rw [← pending.tcbAvl]
  exact List.mem_cons_self

theorem setTcb (block : TcpTcb) : Pending tables (now.setTcb handle block) handle :=
  { pending with
    tcb := fun other apart => (update_of_ne apart _ _).trans (pending.tcb other apart) }

theorem setBit (i j : Nat) : Pending tables (now.setBit i j) handle := { pending with }

theorem giveBack (sound : tables.Sound) {after : Tables}
    (lists : after.tcbHd = now.tcbHd.tail ∧ after.tcbAvl = handle :: now.tcbAvl)
    (tcb : ∀ other, other ≠ handle → after.tcb other = now.tcb other)
    (flags : ∀ fd, (after.fdsBffer fd).buffFlags = (now.fdsBffer fd).buffFlags)
    (entries : ∀ fd, (now.fdsBffer fd).buffFlags ≠ .unused → after.fdsBffer fd = now.fdsBffer fd)
    (inUse : after.inUse = now.inUse) (retranQ : after.retranQ = now.retranQ) :
    Unchanged tables after where
  tcbHd := by rw [lists.1, pending.tcbHd, List.tail_cons]
  tcbAvl := by rw [lists.2, pending.tcbAvl]
  tcb other active := by
    have apart : other ≠ handle := by
      rintro rfl
      exact sound.free_inactive pending.free active
    rw [tcb other apart, pending.tcb other apart]
    exact ⟨rfl, rfl, rfl⟩
  flags fd := by rw [flags, pending.fdsBffer]
  entries fd used := by rw [entries fd (pending.fdsBffer ▸ used), pending.fdsBffer]
  inUse := by rw [inUse, pending.inUse]
  retranQ other queued := by
    rw [retranQ, pending.retranQ] at queued
    exact sound.queued other queued

theorem refuse (sound : tables.Sound) (code : OErr) :
    Unchanged tables (now.refuse handle code).2 :=
  pending.giveBack sound ⟨rfl, rfl⟩ (fun _ _ => rfl) (fun _ => rfl) (fun _ _ => rfl) rfl rfl

end Pending

/-! ### The data ports -/

/-- The control block of an open as it is filled in. -/
def filledTcb (portFds : Nat) (msg : MOpen) (usrPID : Int) (handle : Nat) (port : Int)
    (snd rcv : Nat) (tables : Tables) : TcpTcb :=
  { tables.tcb handle with
    state := .opened
    tMode := msg.openMode
    procID := usrPID
    userCmdPort := portFds
    sendPort := snd
    recvPort := rcv
    srcePort := port
    dst := ⟨msg.net, msg.hostH, msg.hostL, msg.dstPrt⟩ }

variable {portFds : Nat} {msg : MOpen} {usrPID port : Int} {snd rcv : Nat}

theorem fillIn_eq :
    ((now.acquire snd).acquire rcv).fillIn portFds msg usrPID handle port snd rcv =
      ((((now.setTcb handle (now.filledTcb portFds msg usrPID handle port snd rcv)).acquire
        snd).acquire rcv).enter snd .userinhp (.tcb handle)).enter rcv .userouthp (.tcb handle) :=
  rfl

theorem Pending.fillIn (pending : Pending tables now handle) (apart : snd ≠ rcv)
    (fresh : tables.inUse snd = false ∧ tables.inUse rcv = false)
    (inside : snd < fdssize ∧ rcv < fdssize) :
    Opened tables
        (((now.acquire snd).acquire rcv).fillIn portFds msg usrPID handle port snd rcv) handle port
        snd rcv ∧
      (((now.acquire snd).acquire rcv).fillIn portFds msg usrPID handle port snd rcv).portMap =
        now.portMap := by
  rw [fillIn_eq]
  have entered := enter_enter
    (now.setTcb handle (now.filledTcb portFds msg usrPID handle port snd rcv)) apart
    (show now.inUse snd = false ∧ now.inUse rcv = false by rw [pending.inUse]; exact fresh) inside
    .userinhp .userouthp (.tcb handle) (.tcb handle)
  have whole := pending.setTcb (now.filledTcb portFds msg usrPID handle port snd rcv)
  have isFilled : (now.setTcb handle (now.filledTcb portFds msg usrPID handle port snd rcv)).tcb
      handle = now.filledTcb portFds msg usrPID handle port snd rcv := update_self _ _ _
  rw [enter_eq _ inside.1, enter_eq _ inside.2] at entered ⊢
  refine ⟨⟨whole.tcbHd, whole.tcbAvl, whole.tcb, ?_, ?_, ?_, ?_, whole.retranQ⟩, rfl⟩
  · exact congrArg TcpTcb.sendPort isFilled
  · exact congrArg TcpTcb.recvPort isFilled
  · exact congrArg TcpTcb.srcePort isFilled
  · refine ⟨apart, fresh, inside, ?_, entered.first, entered.second, fun fd notOne notTwo => ?_⟩
    · rw [entered.inUse, ← pending.inUse]
      rfl
    · rw [entered.others fd notOne notTwo, ← pending.fdsBffer]
      rfl

theorem Opened.apart (sound : tables.Sound) {after : Tables}
    (opened : Opened tables after handle port snd rcv) :
    ∀ other ∈ tables.tcbHd, other ≠ handle := by
  rintro other active rfl
  refine sound.free_inactive ?_ active
  rw [← opened.tcbAvl]
  exact List.mem_cons_self

theorem Opened.undo (sound : tables.Sound) {after : Tables}
    (opened : Opened tables after handle port snd rcv) :
    Unchanged tables (((((after.giveBack handle).close snd).close rcv).clear snd).clear rcv) := by
  have entered := opened.entered
  have cleared := clear_clear (((after.giveBack handle).close snd).close rcv) snd rcv
  have others : ∀ fd, fd ≠ snd → fd ≠ rcv →
      (((((after.giveBack handle).close snd).close rcv).clear snd).clear rcv).fdsBffer fd =
        tables.fdsBffer fd := fun fd notSnd notRcv =>
    (cleared.others fd notSnd notRcv).trans (entered.others fd notSnd notRcv)
  have unusedSnd := sound.closed_unused entered.fresh.1
  have unusedRcv := sound.closed_unused entered.fresh.2
  refine ⟨?_, ?_, ?_, ?_, ?_, ?_, ?_⟩
  · show after.tcbHd.tail = _
    rw [opened.tcbHd, List.tail_cons]
  · exact opened.tcbAvl
  · intro other active
    have apart := opened.apart sound other active
    show (after.tcb other).sendPort = _ ∧ (after.tcb other).recvPort = _ ∧
      (after.tcb other).srcePort = _
    rw [opened.tcb other apart]
    exact ⟨rfl, rfl, rfl⟩
  · intro fd
    by_cases isSnd : fd = snd
    · rw [isSnd]
      exact cleared.first.trans unusedSnd.symm
    · by_cases isRcv : fd = rcv
      · rw [isRcv]
        exact cleared.second.trans unusedRcv.symm
      · rw [others fd isSnd isRcv]
  · intro fd used
    refine others fd ?_ ?_
    · rintro rfl
      exact used unusedSnd
    · rintro rfl
      exact used unusedRcv
  · show Function.update (Function.update after.inUse snd false) rcv false = _
    rw [entered.inUse]
    funext fd
    by_cases isRcv : fd = rcv
    · subst isRcv
      rw [update_self]
      exact entered.fresh.2.symm
    · rw [update_of_ne isRcv]
      by_cases isSnd : fd = snd
      · subst isSnd
        rw [update_self]
        exact entered.fresh.1.symm
      · rw [update_of_ne isSnd, update_of_ne isRcv, update_of_ne isSnd]
  · intro other queued
    exact sound.queued other (opened.retranQ ▸ queued)

/-- Descriptors that have an entry in FdsBffer. -/
def inTable (outside : OpenWith) : Bool :=
  (outside.sndFds.all fun snd => decide (snd < fdssize)) &&
    outside.rcvFds.all fun rcv => decide (rcv < fdssize)

/-- How the last part of an open ends. -/
inductive Ends (tables now : Tables) (msg : MOpen) (outside : OpenWith) (handle : Nat) (port : Int) :
    Answer × Tables → Prop
  | noPort (code : OErr) (after : Tables) (same : Unchanged tables after)
      (portMap : after.portMap = now.portMap)
      (missing : outside.sndFds = none ∨ outside.rcvFds = none) : Ends tables now msg outside handle
        port (.oerr code, after)
  | taken (after : Tables) (same : Unchanged tables after) (portMap : after.portMap = now.portMap)
      (other : Nat) (active : other ∈ tables.tcbHd) (isPort : (tables.tcb other).srcePort = port) :
      Ends tables now msg outside handle port (.oerr .ebadparam, after)
  | done (after : Tables) (snd rcv : Nat) (isSnd : outside.sndFds = some snd)
      (isRcv : outside.rcvFds = some rcv) (opened : Opened tables after handle port snd rcv)
      (portMap : after.portMap = now.portMap) : Ends tables now msg outside handle port
        (.oack handle, after)

theorem pairTaken_port {after : Tables} {dst : Skt} (opened : Opened tables after handle port snd rcv)
    (taken : after.pairTaken handle port dst = true) :
    ∃ other ∈ tables.tcbHd, (tables.tcb other).srcePort = port := by
  unfold pairTaken at taken
  rw [List.any_eq_true] at taken
  obtain ⟨other, active, same⟩ := taken
  simp only [Bool.and_eq_true, decide_eq_true_eq] at same
  obtain ⟨⟨apart, isPort⟩, -⟩ := same
  rw [opened.tcbHd] at active
  rw [opened.tcb other apart] at isPort
  exact ⟨other, (List.mem_cons.mp active).resolve_left apart, isPort⟩

theorem Pending.openPorts (pending : Pending tables now handle) (sound : tables.Sound)
    {outside : OpenWith} (isFresh : tables.fresh outside = true) (inside : inTable outside = true) :
    Ends tables now msg outside handle port (now.openPorts portFds msg outside handle port) := by
  unfold Tables.openPorts
  unfold fresh at isFresh
  unfold inTable at inside
  cases isSnd : outside.sndFds with
  | none =>
    exact .noPort .esndprt (now.refuse handle .esndprt).2 (pending.refuse sound .esndprt) rfl
      (.inl isSnd)
  | some snd =>
    cases isRcv : outside.rcvFds with
    | none =>
      refine .noPort .ercvprt (((now.acquire snd).giveBack handle).close snd) ?_ rfl (.inr isRcv)
      refine pending.giveBack sound ⟨rfl, rfl⟩ (fun _ _ => rfl) (fun _ => rfl) (fun _ _ => rfl) ?_ rfl
      show Function.update (Function.update now.inUse snd true) snd false = _
      have closed : now.inUse snd = false := by
        rw [pending.inUse]
        simp_all
      rw [update_idem, ← closed, update_eq_self]
    | some rcv =>
      have apart : snd ≠ rcv := by
        rintro rfl
        simp_all
      have filled := @Pending.fillIn _ _ _ portFds msg outside.usrPID port _ _ pending apart
        (by simp_all) (by simp_all)
      dsimp only
      split
      next dup =>
        obtain ⟨other, active, isPort⟩ := pairTaken_port filled.1 dup.2
        exact .taken _ (filled.1.undo sound) filled.2 other active isPort
      next => exact .done _ snd rcv isSnd isRcv filled.1 filled.2

theorem Opened.sound (sound : tables.Sound) {after : Tables}
    (opened : Opened tables after handle port snd rcv) : after.Sound := by
  have entered := opened.entered
  have apart := opened.apart sound
  have user : ∀ fd, (after.fdsBffer fd).buffFlags = .usrcmd →
      after.fdsBffer fd = tables.fdsBffer fd := by
    intro fd isUser
    rcases entered.split fd with ⟨-, entry⟩ | ⟨-, entry⟩ | ⟨-, -, entry⟩
    · rw [entry] at isUser
      cases isUser
    · rw [entry] at isUser
      cases isUser
    · exact entry
  refine ⟨?_, ?_, ?_, ?_, ?_, entered.used sound, ?_, ?_, ?_, ?_⟩
  · refine List.Perm.trans ?_ sound.parts
    rw [opened.tcbHd, ← opened.tcbAvl, List.cons_append]
    exact List.perm_middle.symm
  · intro other active
    rw [opened.tcbHd] at active
    rcases List.mem_cons.mp active with rfl | before
    · rw [opened.sendPort]
      exact entered.first
    · have entry := sound.sends other before
      rw [opened.tcb other (apart other before), entered.keeps sound (by simp [entry]), entry]
  · intro other active
    rw [opened.tcbHd] at active
    rcases List.mem_cons.mp active with rfl | before
    · rw [opened.recvPort]
      exact entered.second
    · have entry := sound.recvs other before
      rw [opened.tcb other (apart other before), entered.keeps sound (by simp [entry]), entry]
  · intro fd isSend
    rw [opened.tcbHd]
    rcases entered.split fd with ⟨isFd, -⟩ | ⟨-, entry⟩ | ⟨-, -, entry⟩
    · exact ⟨handle, List.mem_cons_self, opened.sendPort.trans isFd.symm⟩
    · rw [entry] at isSend
      cases isSend
    · rw [entry] at isSend
      obtain ⟨other, active, isPort⟩ := sound.sender fd isSend
      refine ⟨other, List.mem_cons_of_mem _ active, ?_⟩
      rw [opened.tcb other (apart other active), isPort]
  · intro fd isRecv
    rw [opened.tcbHd]
    rcases entered.split fd with ⟨-, entry⟩ | ⟨isFd, -⟩ | ⟨-, -, entry⟩
    · rw [entry] at isRecv
      cases isRecv
    · exact ⟨handle, List.mem_cons_self, opened.recvPort.trans isFd.symm⟩
    · rw [entry] at isRecv
      obtain ⟨other, active, isPort⟩ := sound.receiver fd isRecv
      refine ⟨other, List.mem_cons_of_mem _ active, ?_⟩
      rw [opened.tcb other (apart other active), isPort]
  · intro fd isUser
    have entry := user fd isUser
    rw [entry] at isUser ⊢
    obtain ⟨fDesc, ptr, partner⟩ := sound.cmds fd isUser
    exact ⟨fDesc, ptr, by rw [entered.keeps sound (by simp [partner]), partner]⟩
  · intro fd other isUser isUser'
    have entry := user fd isUser
    have entry' := user other isUser'
    rw [entry] at isUser ⊢
    rw [entry'] at isUser' ⊢
    exact sound.partner fd other isUser isUser'
  · intro fd other used ptr
    rcases entered.split fd with ⟨-, entry⟩ | ⟨-, entry⟩ | ⟨-, -, entry⟩
    · exact .inl (by rw [entry])
    · exact .inr (by rw [entry])
    · rw [entry] at used ptr ⊢
      exact sound.shared fd other used ptr
  · intro other queued
    rw [opened.retranQ] at queued
    rw [opened.tcbHd]
    exact List.mem_cons_of_mem _ (sound.queued other queued)

/-! ### The whole open -/

theorem freePort_some {portMap : Nat → BitVec 16} {i j : Nat} (isFree : freePort portMap = some (i, j)) :
    i < portcnt ∧ j < 16 ∧ (portMap i).getLsbD j = false := by
  unfold freePort at isFree
  obtain ⟨row, inside, found⟩ := List.exists_of_findSome?_eq_some isFree
  obtain ⟨column, isColumn, same⟩ := Option.map_eq_some_iff.mp found
  cases same
  unfold freeBit at isColumn
  have clear := List.find?_some isColumn
  exact ⟨List.mem_range.mp inside, List.mem_range.mp (List.mem_of_find?_eq_some isColumn),
    by simpa using clear⟩

/-- The bit of PortMap that an open is given, where the program chooses its local port. -/
def givenPort (auth : Bool) (msg : MOpen) (outside : OpenWith) (tables : Tables) :
    Option (Nat × Nat) :=
  if tables.tcbAvl = [] ∨ (auth = true ∧ outside.authorize.toOption.isNone) ∨ msg.srcPrt ≠ 0 then
    none
  else freePort tables.portMap

/-- How an open ends: it is refused with no local port given to it, it is refused with a local port
that was given to it, or it is acknowledged. -/
inductive Answered (tables : Tables) (auth : Bool) (msg : MOpen) (outside : OpenWith) :
    Answer × Tables → Prop
  | refused (code : OErr) (after : Tables) (same : Unchanged tables after)
      (portMap : after.portMap = tables.portMap)
      (notGiven : tables.givenPort auth msg outside = none) :
      Answered tables auth msg outside (.oerr code, after)
  | leaked (code : OErr) (after : Tables) (same : Unchanged tables after) (i j : Nat)
      (portMap : after.portMap = (tables.setBit i j).portMap)
      (given : tables.givenPort auth msg outside = some (i, j))
      (why : (msg.openMode = 0 ∧ msg.unspecified) ∨ outside.sndFds = none ∨ outside.rcvFds = none ∨
        ∃ other ∈ tables.tcbHd, (tables.tcb other).srcePort = baseport + 16 * i + j) :
      Answered tables auth msg outside (.oerr code, after)
  | done (handle : Nat) (after : Tables) (port : Int) (snd rcv : Nat)
      (opened : Opened tables after handle port snd rcv)
      (portMap : after.portMap = tables.portMap) (notGiven : tables.givenPort auth msg outside = none)
      (outsideMap : ¬(baseport ≤ port ∧ port < baseport + 256)) :
      Answered tables auth msg outside (.oack handle, after)
  | doneGiven (handle : Nat) (after : Tables) (i j snd rcv : Nat)
      (opened : Opened tables after handle (baseport + 16 * i + j) snd rcv)
      (portMap : after.portMap = (tables.setBit i j).portMap)
      (given : tables.givenPort auth msg outside = some (i, j))
      (whole : (msg.openMode = 0 → msg.unspecified = false) ∧ outside.sndFds ≠ none ∧
        outside.rcvFds ≠ none) :
      Answered tables auth msg outside (.oack handle, after)

section Whole

variable {auth : Bool} {outside : OpenWith}

theorem Pending.openAt (pending : Pending tables now handle) (sound : tables.Sound)
    (isFresh : tables.fresh outside = true) (inside : inTable outside = true)
    (settled : (now.portMap = tables.portMap ∧ tables.givenPort auth msg outside = none ∧
        ¬(baseport ≤ port ∧ port < baseport + 256)) ∨
      ∃ i j, now.portMap = (tables.setBit i j).portMap ∧
        tables.givenPort auth msg outside = some (i, j) ∧ port = baseport + 16 * i + j) :
    Answered tables auth msg outside
      (if msg.openMode = 0 ∧ msg.unspecified then now.refuse handle .eunspec
      else now.openPorts portFds msg outside handle port) := by
  split
  next bad =>
    rcases settled with ⟨portMap, notGiven, -⟩ | ⟨i, j, portMap, given, -⟩
    · exact .refused .eunspec (now.refuse handle .eunspec).2 (pending.refuse sound .eunspec) portMap
        notGiven
    · exact .leaked .eunspec (now.refuse handle .eunspec).2 (pending.refuse sound .eunspec) i j
        portMap given (.inl bad)
  next good =>
    have ends := @Pending.openPorts _ _ _ portFds msg port pending sound _ isFresh inside
    generalize now.openPorts portFds msg outside handle port = out at ends
    rcases settled with ⟨sameMap, notGiven, outsideMap⟩ | ⟨i, j, setMap, given, rfl⟩
    · cases ends with
      | noPort code after same portMap => exact .refused code after same (portMap.trans sameMap) notGiven
      | taken after same portMap => exact .refused _ after same (portMap.trans sameMap) notGiven
      | done after snd rcv isSnd isRcv opened portMap =>
        exact .done handle after port snd rcv opened (portMap.trans sameMap) notGiven outsideMap
    · cases ends with
      | noPort code after same portMap missing =>
        exact .leaked code after same i j (portMap.trans setMap) given
          (.inr (missing.imp id .inl))
      | taken after same portMap other active isPort =>
        exact .leaked _ after same i j (portMap.trans setMap) given
          (.inr (.inr (.inr ⟨other, active, isPort⟩)))
      | done after snd rcv isSnd isRcv opened portMap =>
        refine .doneGiven handle after i j snd rcv opened (portMap.trans setMap) given ⟨?_, ?_, ?_⟩
        · intro isZero
          by_contra isBad
          exact good ⟨isZero, by simpa using isBad⟩
        · simp [isSnd]
        · simp [isRcv]

theorem Pending.openLocal (pending : Pending tables now handle) (sound : tables.Sound)
    (isFresh : tables.fresh outside = true) (inside : inTable outside = true)
    (sameMap : now.portMap = tables.portMap)
    (may : ¬(auth = true ∧ outside.authorize.toOption.isNone)) :
    Answered tables auth msg outside (now.openLocal auth portFds msg outside handle) := by
  have some_free : tables.tcbAvl ≠ [] := by
    rw [← pending.tcbAvl]
    exact List.cons_ne_nil _ _
  have notGiven : msg.srcPrt ≠ 0 → tables.givenPort auth msg outside = none := fun chosen =>
    if_pos (.inr (.inr chosen))
  unfold Tables.openLocal localPort
  by_cases isZero : msg.srcPrt = 0
  · have given : tables.givenPort auth msg outside = freePort tables.portMap := by
      refine if_neg ?_
      rintro (noneFree | denied | chosen)
      · exact some_free noneFree
      · exact may denied
      · exact chosen isZero
    rw [if_pos isZero, sameMap]
    cases isFree : freePort tables.portMap with
    | none =>
      exact .refused .esysc (now.refuse handle .esysc).2 (pending.refuse sound .esysc) sameMap
        (given.trans isFree)
    | some bit =>
      obtain ⟨i, j⟩ := bit
      refine (pending.setBit i j).openAt sound isFresh inside (.inr ⟨i, j, ?_, given.trans isFree, rfl⟩)
      show Function.update now.portMap i _ = Function.update tables.portMap i _
      rw [sameMap]
  · rw [if_neg isZero]
    by_cases low : msg.srcPrt < 256
    · rw [if_pos low]
      by_cases denied : (auth && !outside.first256) = true
      · rw [if_pos denied]
        exact .refused .eunauth (now.refuse handle .eunauth).2 (pending.refuse sound .eunauth)
          sameMap (notGiven isZero)
      · rw [if_neg denied]
        refine pending.openAt sound isFresh inside (.inl ⟨sameMap, notGiven isZero, ?_⟩)
        unfold baseport
        omega
    · rw [if_neg low]
      by_cases reserved : baseport ≤ msg.srcPrt ∧ msg.srcPrt < baseport + 256
      · rw [if_pos reserved]
        exact .refused .ebadparam (now.refuse handle .ebadparam).2 (pending.refuse sound .ebadparam)
          sameMap (notGiven isZero)
      · rw [if_neg reserved]
        exact pending.openAt sound isFresh inside (.inl ⟨sameMap, notGiven isZero, reserved⟩)

theorem oopen_isSome (tables : Tables) (portFds tcpFds : Nat) (msg : MOpen) (outside : OpenWith)
    (ends : tables.searches auth = false) :
    ∃ out, tables.oopen auth portFds tcpFds msg outside = some out := by
  unfold oopen
  split
  · rw [ends]
    exact ⟨_, rfl⟩
  · exact ⟨_, rfl⟩

theorem oopen_answered {tcpFds : Nat} {out : Answer × Tables} (sound : tables.Sound)
    (isFresh : tables.fresh outside = true) (inside : inTable outside = true)
    (opens : tables.oopen auth portFds tcpFds msg outside = some out) :
    Answered tables auth msg outside out := by
  unfold oopen at opens
  split at opens
  next empty =>
    split at opens
    · cases opens
    · cases opens
      refine .refused .esysc tables ⟨rfl, rfl, fun _ _ => ⟨rfl, rfl, rfl⟩, fun _ => rfl,
        fun _ _ => rfl, rfl, sound.queued⟩ rfl (if_pos (.inl empty))
  next handle rest avail =>
    obtain rfl := Option.some.inj opens
    have pending := activate_pending avail msg.oHandle tcpFds
    unfold openTcb
    split
    next isAuth =>
      cases result : outside.authorize with
      | error code =>
        refine .refused code _ (pending.refuse sound code) rfl (if_pos (.inr (.inl ⟨isAuth, ?_⟩)))
        rw [result]
        rfl
      | ok params =>
        refine (pending.setTcb _).openLocal sound isFresh inside rfl ?_
        rintro ⟨-, denied⟩
        rw [result] at denied
        exact Bool.noConfusion denied
    next notAuth => exact pending.openLocal sound isFresh inside rfl fun both => notAuth both.1

end Whole

end NetworkUnix.UserTcp.Process.Tables
