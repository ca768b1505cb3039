/-
This file is about the byte size of a connection. The kernel divides by it, and by
the number of whole eights in it. The daemon tells the kernel a size that comes from
the user's open, from the request of a foreign host, or is that of a contact
connection.

A size of a user that is not zero is taken as it is, and a request of a foreign host
is refused only if its size is not a multiple of eight, which zero is. It is proved
that in every run in which the sizes of the users and the foreign hosts are positive
multiples of eight the kernel is told no others.
-/

import NetworkUnix.Ncpd.Runs

namespace NetworkUnix.Ncpd

open Function

/-! ### What the kernel divides by -/

/-- A division, which traps if the divisor is zero. -/
def divide (n divisor : Int) : Option Int := if divisor = 0 then none else some (n.tdiv divisor)

/-- The byte size of a socket in the kernel: the signed byte that the daemon writes. -/
def Sumod.bsize (socket : Sumod) : Int := socket.bysz.toInt

/-- The nominal allocation of a read socket that has been opened. -/
def rHiwat (oNomall rBsize : Int) : Option Int :=
  if oNomall ≠ 0 then some oNomall else divide (256 * 8) rBsize

/-- What has been read, in bytes of the byte size. -/
def amtRead (amt rBsize : Int) : Option Int := divide (amt * 8) rBsize

/-- How many bytes are allocated for a write. -/
def anyalloc (wMsgs : Int) (wFalloc : Int × Int) (wBsize : Int) : Option Int :=
  if wMsgs = 0 then some 0
  else if wFalloc.1 ≠ 0 ∨ wFalloc.2 ≥ 8000 then divide 8000 wBsize
  else divide wFalloc.2 wBsize

/-- The number of bytes in a leader. -/
def lBcnt (ucnt : Int) (link : BitVec 8) (wBsize : Int) : Option Int :=
  divide ucnt ((if link = 0 then 8 else wBsize) / 8)

/-- No division by a byte size traps. -/
structure Divides (bsize : Int) : Prop where
  netopen : ∀ oNomall, (rHiwat oNomall bsize).isSome
  netread : ∀ amt, (amtRead amt bsize).isSome
  netwrite : ∀ wMsgs wFalloc, (anyalloc wMsgs wFalloc bsize).isSome
  sndnetbytes : ∀ ucnt link, (lBcnt ucnt link bsize).isSome

/-- A positive multiple of eight in a signed byte. -/
def Usable (bysz : BitVec 8) : Prop := 0 < bysz.toInt ∧ bysz.toInt % 8 = 0

instance (bysz : BitVec 8) : Decidable (Usable bysz) := inferInstanceAs (Decidable (_ ∧ _))

theorem divide_isSome {divisor : Int} (n : Int) (some : divisor ≠ 0) :
    (divide n divisor).isSome := by
  rw [divide, if_neg some]
  rfl

theorem Usable.divides {bysz : BitVec 8} (usable : Usable bysz) : Divides bysz.toInt := by
  obtain ⟨positive, eights⟩ := usable
  have some : bysz.toInt ≠ 0 := positive.ne'
  refine ⟨fun oNomall => ?_, fun amt => divide_isSome _ some, fun wMsgs wFalloc => ?_,
    fun ucnt link => divide_isSome _ ?_⟩
  · unfold rHiwat
    split
    · rfl
    · exact divide_isSome _ some
  · unfold anyalloc
    split
    · rfl
    · split
      · exact divide_isSome _ some
      · exact divide_isSome _ some
  · split
    · decide
    · omega

namespace Daemon

/-! ### The sizes that come in -/

/-- A request with a byte size that is not refused has a usable one. -/
def StrSized (p : List (BitVec 8)) : Prop :=
  byte p 0 = 2 → rfcValid p = true → rfcTaken p = true → Usable (byte p 9)

instance (p : List (BitVec 8)) : Decidable (StrSized p) :=
  inferInstanceAs (Decidable (_ → _ → _ → _))

/-- The requests among the commands of a message have usable byte sizes. -/
def CommandsSized : Nat → List (BitVec 8) → Prop
  | 0, _ => True
  | bound + 1, p =>
    (p ≠ [] ∧ (byte p 0).toNat ≤ 13 ∧ hhIlgth (byte p 0).toNat ≤ p.length) →
      StrSized p ∧ CommandsSized bound (p.drop (hhIlgth (byte p 0).toNat))

instance decidableCommandsSized : (bound : Nat) → (p : List (BitVec 8)) →
    Decidable (CommandsSized bound p)
  | 0, _ => .isTrue trivial
  | bound + 1, p =>
    have := decidableCommandsSized bound (p.drop (hhIlgth (byte p 0).toNat))
    inferInstanceAs (Decidable (_ → _ ∧ _))

/-- The byte size of an open is zero or usable, and the requests in a message have usable ones. -/
def Sizes (_ : Daemon) (e : Event) : Prop :=
  match e.instr with
  | .userOpen o => o.bysz = 0 ∨ Usable o.bysz
  | .rcv m _ => (m.type &&& 15).toNat = 0 → m.link = 0 → CommandsSized m.data.length m.data
  | _ => True

instance (d : Daemon) (e : Event) : Decidable (Sizes d e) := by
  unfold Sizes
  split <;> infer_instance

/-! ### The sizes that are kept -/

/-- A struct is not in use, or it is a request for a send socket, whose size is that of the socket
that adopts it, or its size is usable. -/
def Socket.Fine (s : Socket) : Prop :=
  s.state = .null ∨ (s.state = .q ∧ isSend s.lskt = true) ∨ Usable s.bysz

/-- The kernel is told a usable byte size. -/
def Output.Regular : Output → Prop
  | .stup socket => Usable socket.bysz
  | .mod socket => Usable socket.bysz
  | _ => True

/-- All sizes that are kept are usable. -/
def Sized (d : Daemon) : Prop :=
  (∀ i, Socket.Fine (d.sockets i)) ∧ (∀ f, (d.files f).bysz = 0 ∨ Usable (d.files f).bysz) ∧
    ∀ entry ∈ d.output, Output.Regular entry

/-- The size of a request is usable, but for a close and a request for a send socket. -/
def Request.Fine (r : Request) : Prop :=
  r.state = .cls ∨ (r.state = .rfc ∧ isSend r.lskt = true) ∨ Usable r.bysz

variable {d : Daemon}

theorem usable_eight : Usable 8 := by decide

theorem usable_icp : Usable 32 := by decide

variable {i : SktNo}

section

variable (sized : d.Sized)
include sized

theorem Sized.bysz (used : (d.sockets i).state ≠ .null)
    (notQ : (d.sockets i).state ≠ .q) : Usable (d.sockets i).bysz := by
  rcases sized.1 i with null | ⟨queued, -⟩ | usable
  · exact absurd null used
  · exact absurd queued notQ
  · exact usable

theorem Sized.dataBysz : Usable d.dataBysz := by
  unfold Daemon.dataBysz
  split
  · rename_i given
    exact (sized.2.1 d.fp).resolve_left given.2
  · exact usable_eight

/-! ### One change -/

theorem Sized.setSkt (i : SktNo) {change : Socket → Socket}
    (fine : Socket.Fine (change (d.sockets i))) : (d.setSkt i change).Sized := by
  refine ⟨fun j => ?_, sized.2⟩
  show Socket.Fine (Function.update d.sockets i _ j)
  by_cases here : j = i
  · rw [here, update_self]
    exact fine
  · rw [update_of_ne here]
    exact sized.1 j

theorem Sized.setFile (f : FileNo) {change : File → File}
    (fine : (change (d.files f)).bysz = 0 ∨ Usable (change (d.files f)).bysz) :
    (d.setFile f change).Sized := by
  refine ⟨sized.1, fun g => ?_, sized.2.2⟩
  show (Function.update d.files f _ g).bysz = 0 ∨ Usable (Function.update d.files f _ g).bysz
  by_cases here : g = f
  · rw [here, update_self]
    exact fine
  · rw [update_of_ne here]
    exact sized.2.1 g

theorem Sized.write {entry : Output} (fine : Output.Regular entry) :
    (d.write entry).Sized := by
  refine ⟨sized.1, sized.2.1, fun other inside => ?_⟩
  rcases List.mem_append.mp inside with inside | only
  · exact sized.2.2 other inside
  · rw [List.mem_singleton.mp only]
    exact fine

theorem Sized.keepSkt (i : SktNo) {change : Socket → Socket}
    (bysz : (change (d.sockets i)).bysz = (d.sockets i).bysz)
    (state : (change (d.sockets i)).state = (d.sockets i).state)
    (lskt : (d.sockets i).state = .q → (change (d.sockets i)).lskt = (d.sockets i).lskt) :
    (d.setSkt i change).Sized := by
  refine sized.setSkt i ?_
  rcases sized.1 i with null | ⟨queued, send⟩ | usable
  · exact .inl (state.trans null)
  · exact .inr (.inl ⟨state.trans queued, (lskt queued).symm ▸ send⟩)
  · exact .inr (.inr (bysz.symm ▸ usable))

theorem Sized.keepFile (f : FileNo) {change : File → File}
    (bysz : (change (d.files f)).bysz = (d.files f).bysz) : (d.setFile f change).Sized := by
  refine sized.setFile f ?_
  rw [bysz]
  exact sized.2.1 f

theorem Sized.toState (i : SktNo) (state : SktState)
    (fine : state = .null ∨ Usable (d.sockets i).bysz) : (d.toState i state).Sized := by
  show (d.setSkt i fun s => { s with state := state }).Sized
  exact sized.setSkt i (fine.imp_right .inr)

/-! ### Numbers -/

theorem Sized.asnLnkn : d.asnLnkn.1.Sized := by
  unfold Daemon.asnLnkn
  simp only
  split <;> exact sized

theorem Sized.asnSktn : d.asnSktn.1.Sized := by
  unfold Daemon.asnSktn
  simp only
  split
  · split <;> exact sized
  · split <;> exact sized

end

/-! ### Closing a socket -/

theorem stimeoutSkt_bysz (d : Daemon) (i : SktNo) :
    ((d.stimeoutSkt i).sockets i).bysz = (d.sockets i).bysz := by
  show ((d.setSkt i fun s => { s with timeo := d.clock + stimeout }).sockets i).bysz = _
  rw [setSkt_self]

theorem toState_bysz (d : Daemon) (i : SktNo) (state : SktState) :
    ((d.toState i state).sockets i).bysz = (d.sockets i).bysz := by
  show ((d.setSkt i fun s => { s with state := state }).sockets i).bysz = _
  rw [setSkt_self]

section

variable (sized : d.Sized)
include sized

theorem Sized.clean (usable : Usable (d.sockets i).bysz) :
    (d.setSkt i cleanSkt).Sized := by
  refine sized.setSkt i (.inr (.inr ?_))
  unfold cleanSkt
  split
  · exact usable
  · exact usable

theorem Sized.toClow (usable : Usable (d.sockets i).bysz) :
    (d.toClow i).Sized := by
  refine (sized.toState i .clow (.inr usable)).clean ?_
  rw [toState_bysz]
  exact usable

theorem Sized.stimeoutSkt (i : SktNo) : (d.stimeoutSkt i).Sized := by
  show (d.setSkt i fun s => { s with timeo := d.clock + stimeout }).Sized
  exact sized.keepSkt i rfl rfl fun _ => rfl

theorem Sized.kwClean (i : SktNo) : (d.kwClean i).Sized :=
  sized.write trivial

theorem Sized.kwRdy (id : BitVec 16) (code : Nat) : (d.kwRdy id code).Sized :=
  sized.write trivial

section

variable (usable : Usable (d.sockets i).bysz)
include usable

theorem Sized.kwMod (stat : BitVec 8)
    (msgs bitsHi bitsLo : BitVec 16) :
    (d.kwMod i stat msgs bitsHi bitsLo).Sized :=
  sized.write usable

theorem Sized.kwStup (stat : BitVec 8) :
    (d.kwStup i stat).Sized :=
  sized.write usable

theorem Sized.soUt1 :
    (d.soUt1 i).Sized :=
  (sized.kwClean i).toClow usable

theorem Sized.soUt3 :
    (d.soUt3 i).Sized := by
  have told : ((d.hwCls i).kwClean i).Sized := Sized.kwClean (d := d.hwCls i) sized i
  exact told.toState i .cacw (.inr usable)

end

end

/-- A procedure that keeps the sizes. -/
def Keeps (act : SktNo → Daemon → Daemon) : Prop := ∀ i d, d.Sized → (act i d).Sized

theorem keeps_killWith {free : SktNo → Daemon → Daemon} (frees : Keeps free) :
    Keeps (killWith free) := by
  intro i d sized
  have usable (state : SktState) (is : (d.sockets i).state = state)
      (used : state ≠ .null ∧ state ≠ .q) : Usable (d.sockets i).bysz :=
    sized.bysz (is ▸ used.1) (is ▸ used.2)
  unfold killWith
  split
  · rename_i is
    exact sized.soUt1 (usable _ is (by decide))
  · rename_i is
    exact sized.soUt1 (usable _ is (by decide))
  · rename_i is
    exact sized.soUt3 (usable _ is (by decide))
  · rename_i is
    exact sized.soUt3 (usable _ is (by decide))
  · rename_i is
    exact sized.soUt3 (usable _ is (by decide))
  · rename_i is
    exact sized.toState i .c2cw (.inr (usable _ is (by decide)))
  · exact frees i d sized
  · exact sized

theorem Sized.rlsSktn (sized : d.Sized) (sbase : BitVec 16) : (d.rlsSktn sbase).Sized := by
  unfold Daemon.rlsSktn
  split <;> exact sized

theorem Sized.fRlse (sized : d.Sized) : d.fRlse.Sized := by
  have counted : ({ d with
      nsLeft := d.nsLeft + (d.files d.fp).nsrsrv, nfLeft := d.nfLeft + 1 } : Daemon).Sized := sized
  have released : ((({ d with
      nsLeft := d.nsLeft + (d.files d.fp).nsrsrv, nfLeft := d.nfLeft + 1 } : Daemon).setFile d.fp
        fun f => { f with state := .null, timeo := 0 }).write (.frlse (d.files d.fp).id)).Sized :=
    (counted.keepFile d.fp rfl).write trivial
  unfold Daemon.fRlse
  dsimp only
  split
  · split
    · exact released
    · exact released.rlsSktn _
  · exact released

theorem Sized.goneChk (sized : d.Sized) (f : FileNo) : (goneChk f d).Sized := by
  unfold Daemon.goneChk
  split
  · exact sized.fRlse
  · exact sized

theorem Sized.fiSgone (sized : d.Sized) {kill : SktNo → Daemon → Daemon} (kills : Keeps kill)
    (i : SktNo) (f : FileNo) : (fiSgone kill i f d).Sized := by
  unfold Daemon.fiSgone
  generalize (d.sockets i).sinx = x
  have current : ({ d with fp := f } : Daemon).Sized := sized
  have detached : (({ d with fp := f } : Daemon).setFile f fun f =>
      { f with
        sktX := Function.update f.sktX x none, nsatt := f.nsatt - 1, nsrsrv := f.nsrsrv - 1 }).Sized :=
    current.keepFile f rfl
  simp only
  revert detached
  generalize (({ d with fp := f } : Daemon).setFile f fun f =>
      { f with
        sktX := Function.update f.sktX x none, nsatt := f.nsatt - 1, nsrsrv := f.nsrsrv - 1 }) = e
  intro detached
  have told : (if (e.files f).state = .dopnw then e.kwRdy (e.files f).id edaeio else e).Sized := by
    split
    · exact detached.kwRdy _ _
    · exact detached
  revert told
  generalize (if (e.files f).state = .dopnw then e.kwRdy (e.files f).id edaeio else e) = t
  intro told
  have closed (e : Daemon) (before : e.Sized) :
      (e.setFile f fun f => { f with state := .gonew }).Sized :=
    before.keepFile f rfl
  split
  · split
    all_goals first
      | exact (detached.kwRdy _ _).fRlse
      | exact detached.goneChk f
      | exact detached
  · split
    all_goals try first
      | exact detached.goneChk f
      | exact detached
    all_goals
      split
      · exact (closed _ (kills _ _ told)).goneChk f
      · exact (closed _ told).goneChk f

theorem keeps_freeSktAt (depth : Nat) : Keeps (freeSktAt depth) := by
  induction depth with
  | zero => exact fun _ _ sized => sized
  | succ depth inductionHypothesis =>
    intro i d sized
    have cleared : (d.setSkt i fun s => { s with timeo := 0 }).Sized :=
      sized.keepSkt i rfl rfl fun _ => rfl
    have given (e : Daemon) (before : e.Sized) :
        (({ e with nsLeft := e.nsLeft + 1 } : Daemon).toState i .null).Sized :=
      Sized.toState (d := { e with nsLeft := e.nsLeft + 1 }) before i .null (.inl rfl)
    refine given _ ?_
    split
    · exact cleared.fiSgone (keeps_killWith inductionHypothesis) i _
    · exact cleared

theorem Sized.freeSkt (sized : d.Sized) (i : SktNo) : (d.freeSkt i).Sized :=
  keeps_freeSktAt 2 i d sized

theorem Sized.killSkt (sized : d.Sized) (i : SktNo) : (d.killSkt i).Sized :=
  keeps_killWith (fun i _ sized => sized.freeSkt i) i d sized

/-! ### Opening a socket -/

theorem Sized.attSkt (sized : d.Sized) (i : SktNo) : (d.attSkt i).Sized := by
  unfold Daemon.attSkt
  simp only
  split
  · exact sized.keepFile _ rfl
  · exact sized

theorem Sized.fiSopn (sized : d.Sized) (usable : Usable (d.sockets i).bysz) :
    (d.fiSopn i).Sized := by
  unfold Daemon.fiSopn
  simp only
  split
  · exact sized
  · rename_i f _
    have current : ({ d with fp := f } : Daemon).Sized := sized
    split
    · split
      · refine Sized.keepFile ?_ f rfl
        exact current.kwMod usable _ _ _ _
      · show ((({ d with fp := f } : Daemon).kwMod i (ksbOpen ||| ksbDdat) 0 0 0).setFile f
          fun g => { g with timeo := d.clock + ftimeout, state := .sialw }).Sized
        refine Sized.keepFile ?_ f rfl
        exact current.kwMod usable _ _ _ _
      · exact current
    · split
      · exact current
      · have told : (if isSend (d.sockets i).lskt then
            ({ d with fp := f } : Daemon).kwMod i ksbOpen 0 0 0
          else
            (({ d with fp := f } : Daemon).kwMod i ksbOpen nomMall 0 nomBall).hwAll i nomMall
              nomBall).Sized := by
          split
          · exact current.kwMod usable _ _ _ _
          · exact current.kwMod usable _ _ _ _
        revert told
        generalize (if isSend (d.sockets i).lskt then
            ({ d with fp := f } : Daemon).kwMod i ksbOpen 0 0 0
          else
            (({ d with fp := f } : Daemon).kwMod i ksbOpen nomMall 0 nomBall).hwAll i nomMall
              nomBall) = t
        intro told
        split
        all_goals
          split
          · refine Sized.kwRdy ?_ _ _
            exact Sized.keepFile told f rfl
          · exact told

/-! ### The operations on a socket that a request may fit -/

theorem attSkt_sockets (d : Daemon) (i : SktNo) : (d.attSkt i).sockets = d.sockets := by
  unfold Daemon.attSkt
  simp only
  split <;> rfl

section

variable (sized : d.Sized) (usable : Usable d.sktReq.bysz)
  (lskt : (d.sockets i).lskt = d.sktReq.lskt) (queued : (d.sockets i).state = .q)
include sized usable lskt queued

theorem Sized.adopt :
    (d.adopt i).Sized ∧ Usable ((d.adopt i).sockets i).bysz := by
  have given : Usable (if isSend d.sktReq.lskt then
      ({ d.sockets i with bysz := d.sktReq.bysz } : Socket)
      else { d.sockets i with hlLink := d.sktReq.hlLink }).bysz := by
    split
    · exact usable
    · rename_i receives
      rcases sized.1 i with null | ⟨-, send⟩ | kept
      · rw [queued] at null
        cases null
      · rw [lskt] at send
        exact absurd send receives
      · exact kept
  have taken : (d.taken i).Sized := by
    refine Sized.keepSkt (d := d.setSkt i fun s =>
      if isSend d.sktReq.lskt then { s with bysz := d.sktReq.bysz }
      else { s with hlLink := d.sktReq.hlLink }) ?_ i rfl rfl fun _ => rfl
    exact sized.setSkt i (.inr (.inr given))
  have bysz : Usable (((d.taken i).attSkt i).sockets i).bysz := by
    rw [attSkt_sockets]
    unfold Daemon.taken
    rw [setSkt_self, setSkt_self]
    exact given
  refine ⟨(taken.attSkt i).toState i .opened (.inr bysz), ?_⟩
  show Usable ((((d.taken i).attSkt i).toState i .opened).sockets i).bysz
  rw [toState_bysz]
  exact bysz

theorem Sized.lsintQ :
    (d.lsintQ i).1.Sized := by
  unfold Daemon.lsintQ
  split
  · obtain ⟨adopted, usable⟩ := sized.adopt usable lskt queued
    exact Sized.fiSopn (d := ((d.adopt i).kwStup i ksbOpen).hwRfc i)
      (adopted.kwStup usable ksbOpen) usable
  · exact sized

theorem Sized.glsnQ :
    (d.glsnQ i).1.Sized := by
  unfold Daemon.glsnQ
  simp only
  split
  · exact Sized.lsintQ (d := d.filled i) sized usable lskt queued
  · exact sized

end

section

variable (sized : d.Sized) (fine : Request.Fine d.sktReq) (isRfc : d.sktReq.state = .rfc)
include sized fine isRfc

theorem Sized.rfcUtil (usable : Usable (d.sockets i).bysz) :
    (d.rfcUtil i).1.Sized ∧ Usable ((d.rfcUtil i).1.sockets i).bysz := by
  have given : Usable (if isSend d.sktReq.lskt then
      ({ d.sockets i with hlLink := d.sktReq.hlLink } : Socket)
      else { d.sockets i with bysz := d.sktReq.bysz }).bysz := by
    split
    · exact usable
    · rename_i receives
      rcases fine with isCls | ⟨-, send⟩ | sent
      · rw [isRfc] at isCls
        cases isCls
      · exact absurd send receives
      · exact sent
  unfold Daemon.rfcUtil
  split
  · have bysz : Usable ((d.setSkt i fun s => if isSend d.sktReq.lskt then
        { s with hlLink := d.sktReq.hlLink } else
        { s with bysz := d.sktReq.bysz }).sockets i).bysz := by
      rw [setSkt_self]
      exact given
    have changed : (d.setSkt i fun s => if isSend d.sktReq.lskt then
        { s with hlLink := d.sktReq.hlLink } else { s with bysz := d.sktReq.bysz }).Sized :=
      sized.setSkt i (.inr (.inr given))
    refine ⟨changed.toState i .opened (.inr bysz), ?_⟩
    simp only
    rw [toState_bysz]
    exact bysz
  · exact ⟨sized, usable⟩

theorem Sized.rfcRfcw (usable : Usable (d.sockets i).bysz) :
    (d.rfcRfcw i).1.Sized := by
  obtain ⟨opened, usable⟩ := sized.rfcUtil fine isRfc usable
  unfold Daemon.rfcRfcw
  simp only
  split
  · exact opened.fiSopn usable
  · exact opened

theorem Sized.rfcSlsn (usable : Usable (d.sockets i).bysz) :
    (d.rfcSlsn i).1.Sized := by
  obtain ⟨opened, usable⟩ := sized.rfcUtil fine isRfc usable
  unfold Daemon.rfcSlsn
  simp only
  split
  · exact Sized.fiSopn (d := (d.rfcUtil i).1.hwRfc i) opened usable
  · exact opened

theorem Sized.rfcGlsn (isGlsn : (d.sockets i).state = .glsn) :
    (d.rfcGlsn i).1.Sized := by
  have usable : Usable (d.sockets i).bysz :=
    sized.bysz (by rw [isGlsn]; decide) (by rw [isGlsn]; decide)
  unfold Daemon.rfcGlsn
  simp only
  split
  · have wildly : (d.setSkt i fun s =>
        { s with hlHost := d.sktReq.hlHost, fskt := d.sktReq.fskt }).Sized :=
      sized.keepSkt i rfl rfl fun _ => rfl
    have bysz : Usable ((d.setSkt i fun s =>
        { s with hlHost := d.sktReq.hlHost, fskt := d.sktReq.fskt }).sockets i).bysz := by
      rw [setSkt_self]
      exact usable
    exact Sized.rfcSlsn (d := d.wildly i) wildly fine isRfc bysz
  · exact sized

end

theorem Sized.onMatch (sized : d.Sized) (i : SktNo) {act : Daemon → Daemon}
    (acts : (act (d.mark i .matched)).Sized) : (d.onMatch i act).1.Sized := by
  unfold Daemon.onMatch
  split
  · exact acts
  · exact sized

theorem Sized.sktOper (sized : d.Sized) (fine : Request.Fine d.sktReq)
    (lskt : (d.sockets i).lskt = d.sktReq.lskt) : (sktOper d.sktReq.state d i).1.Sized := by
  have asked (isOp : d.sktReq.state ≠ .cls ∧ d.sktReq.state ≠ .rfc) : Usable d.sktReq.bysz :=
    (fine.resolve_left isOp.1).resolve_left fun both => isOp.2 both.1
  have usable {state : SktState} (is : (d.sockets i).state = state)
      (used : state ≠ .null ∧ state ≠ .q) : Usable (d.sockets i).bysz :=
    sized.bysz (is ▸ used.1) (is ▸ used.2)
  have marked : (d.mark i .matched).Sized := sized
  unfold Daemon.sktOper
  split
  · rename_i op queued
    exact sized.glsnQ (asked (by rw [op]; decide)) lskt queued
  · rename_i op queued
    exact sized.lsintQ (asked (by rw [op]; decide)) lskt queued
  · rename_i op queued
    exact sized.lsintQ (asked (by rw [op]; decide)) lskt queued
  · rename_i op isGlsn
    exact sized.rfcGlsn fine op isGlsn
  · rename_i op is
    exact sized.rfcSlsn fine op (usable is (by decide))
  · rename_i op is
    exact sized.rfcRfcw fine op (usable is (by decide))
  · rename_i op is
    have usable := usable is (by decide)
    have closed : ((((d.mark i .matched).kwClean i).hwCls i).toState i .clow).Sized :=
      Sized.toState (d := ((d.mark i .matched).kwClean i).hwCls i) (marked.kwClean i) i .clow
        (.inr usable)
    refine sized.onMatch i ((closed.stimeoutSkt i).clean ?_)
    rw [stimeoutSkt_bysz, toState_bysz]
    exact usable
  · rename_i op is
    exact sized.onMatch i (Sized.freeSkt (d := (d.mark i .matched).hwCls i) sized i)
  · rename_i op is
    exact sized.onMatch i (marked.toClow (usable is (by decide)))
  · rename_i op is
    exact sized.onMatch i (marked.freeSkt i)
  · rename_i op is
    exact sized.onMatch i ((marked.kwClean i).toState i .c2cw (.inr (usable is (by decide))))
  · rename_i op is
    exact sized.onMatch i ((marked.kwClean i).toState i .clorfnmw (.inr (usable is (by decide))))
  · exact sized

theorem Sized.closeSkt (sized : d.Sized) (i : SktNo) : (d.closeSkt i).Sized := by
  have marked : (d.mark i .closed).Sized := sized
  have told : (((d.mark i .closed).hwCls i).kwClean i).Sized :=
    Sized.kwClean (d := (d.mark i .closed).hwCls i) sized i
  have usable {state : SktState} (is : (d.sockets i).state = state)
      (used : state ≠ .null ∧ state ≠ .q) : Usable (d.sockets i).bysz :=
    sized.bysz (is ▸ used.1) (is ▸ used.2)
  unfold Daemon.closeSkt
  simp only
  split
  · exact (marked.kwClean i).freeSkt i
  · exact (marked.kwClean i).freeSkt i
  · rename_i is
    exact (told.toState i .clsw (.inr (usable is (by decide)))).stimeoutSkt i
  · rename_i is
    exact (told.toState i .clsw (.inr (usable is (by decide)))).stimeoutSkt i
  · rename_i is
    exact (told.toState i .clsw (.inr (usable is (by decide)))).stimeoutSkt i
  · rename_i is
    exact (marked.toState i .clsw (.inr (usable is (by decide)))).stimeoutSkt i
  · exact marked.freeSkt i
  · exact Sized.freeSkt (d := (d.mark i .closed).hwCls i) sized i
  · rename_i is
    exact Sized.toState (d := (d.mark i .closed).hwCls i) sized i .rfnmw
      (.inr (usable is (by decide)))
  · exact marked

theorem Sized.timoSkt (sized : d.Sized) (i : SktNo) : (d.timoSkt i).Sized := by
  unfold Daemon.timoSkt
  split
  · exact Sized.freeSkt (d := d.mark i .expired) sized i
  · exact sized

theorem Sized.deadSkt (sized : d.Sized) (i : SktNo) : (d.deadSkt i).Sized := by
  have marked : (d.mark i .dead).Sized := sized
  have usable {state : SktState} (is : (d.sockets i).state = state)
      (used : state ≠ .null ∧ state ≠ .q) : Usable (d.sockets i).bysz :=
    sized.bysz (is ▸ used.1) (is ▸ used.2)
  unfold Daemon.deadSkt
  simp only
  split
  · rename_i is
    exact marked.soUt1 (usable is (by decide))
  · rename_i is
    exact marked.soUt1 (usable is (by decide))
  · rename_i is
    exact marked.soUt1 (usable is (by decide))
  · rename_i is
    exact marked.soUt1 (usable is (by decide))
  · rename_i is
    exact marked.soUt1 (usable is (by decide))
  · exact marked.freeSkt i
  · exact marked.freeSkt i
  · exact marked.freeSkt i
  · rename_i is
    exact marked.toClow (usable is (by decide))
  · rename_i is
    exact marked.toClow (usable is (by decide))
  · rename_i is
    exact marked.toClow (usable is (by decide))
  · exact marked

/-! ### The search for a socket -/

theorem Request.Fine.toSocket {r : Request} (fine : Request.Fine r) (notCls : r.state ≠ .cls) :
    Socket.Fine (Request.toSocket r) := by
  rcases fine with isCls | ⟨isRfc, send⟩ | usable
  · exact absurd isCls notCls
  · refine .inr (.inl ⟨?_, send⟩)
    show r.state.state = .q
    rw [isRfc]
    rfl
  · exact .inr (.inr usable)

section

variable (sized : d.Sized)
include sized

theorem Sized.created (fine : Request.Fine d.sktReq)
    (notCls : d.sktReq.state ≠ .cls) (i : SktNo) : (d.created i).Sized := by
  have made : (d.setSkt i fun _ => Request.toSocket d.sktReq).Sized :=
    sized.setSkt i (fine.toSocket notCls)
  exact made

theorem Sized.soUrfc (fine : Request.Fine d.sktReq)
    (isRfc : d.sktReq.state = .rfc) : d.soUrfc.1.Sized := by
  cases found : d.nullSkt with
  | none =>
    rw [soUrfc_none found]
    exact sized
  | some i =>
    rw [soUrfc_offer found isRfc]
    exact sized.created fine (by rw [isRfc]; decide) i

theorem Sized.soUlsn (usable : Usable d.sktReq.bysz)
    (asked : d.sktReq.state ≠ .cls ∧ d.sktReq.state ≠ .rfc) :
    d.soUlsn.1.Sized := by
  unfold Daemon.soUlsn
  cases found : d.nullSkt with
  | none =>
    rw [soUrfc_none found]
    exact sized
  | some i =>
    rw [soUrfc_some found asked.2]
    refine Sized.kwStup ((sized.created (.inr (.inr usable)) asked.1 i).attSkt i) ?_ 0
    rw [attSkt_sockets, created_socket]
    exact usable

theorem Sized.soUinit (usable : Usable d.sktReq.bysz)
    (asked : d.sktReq.state ≠ .cls ∧ d.sktReq.state ≠ .rfc) : d.soUinit.Sized := by
  have made := sized.soUlsn usable asked
  unfold Daemon.soUinit
  split
  · rename_i e i isMade
    rw [isMade] at made
    exact made
  · rename_i e isMade
    rw [isMade] at made
    exact made

theorem Sized.soUnm (fine : Request.Fine d.sktReq) : d.soUnm.Sized := by
  have asked (isOp : d.sktReq.state ≠ .cls ∧ d.sktReq.state ≠ .rfc) : Usable d.sktReq.bysz :=
    (fine.resolve_left isOp.1).resolve_left fun both => isOp.2 both.1
  unfold Daemon.soUnm
  split
  · rename_i op
    have isOp : d.sktReq.state ≠ .cls ∧ d.sktReq.state ≠ .rfc := by rw [op]; decide
    exact sized.soUlsn (asked isOp) isOp
  · rename_i op
    have isOp : d.sktReq.state ≠ .cls ∧ d.sktReq.state ≠ .rfc := by rw [op]; decide
    exact sized.soUlsn (asked isOp) isOp
  · rename_i op
    have isOp : d.sktReq.state ≠ .cls ∧ d.sktReq.state ≠ .rfc := by rw [op]; decide
    exact sized.soUinit (asked isOp) isOp
  · rename_i op
    exact sized.soUrfc fine op
  · exact sized

theorem Sized.getSkt (fine : Request.Fine d.sktReq) : d.getSkt.Sized := by
  rcases getSkt_cases (d := d) with ⟨-, unmet⟩ | ⟨i, -, meets, met⟩
  · rw [unmet]
    exact sized.soUnm fine
  · rw [met]
    exact sized.sktOper fine meets.2.1

theorem Sized.smSplx (lskt : BitVec 16) (fskt : BitVec 32) (sinx : SktIndex)
    (op : SktOp) : (d.smSplx lskt fskt sinx op).Sized := by
  have linked : (if isSend lskt then (d, (0xff : BitVec 8))
      else (d.asnLnkn.1, linkByte d.asnLnkn.2)).1.Sized := by
    split
    · exact sized
    · exact sized.asnLnkn
  rw [smSplx_eq]
  refine Sized.getSkt (d := d.splx lskt fskt sinx op) linked (.inr (.inr ?_))
  exact linked.dataBysz

theorem Sized.smDux (lskt : BitVec 16) (fskt : BitVec 32) (op : SktOp) :
    (d.smDux lskt fskt op).Sized :=
  (sized.smSplx (lskt + 1) fskt .xmit op).smSplx lskt (fskt + 1) .rcv op

/-! ### Files -/

theorem Sized.fMake (id : BitVec 16) (nRSkts : Int) :
    (d.fMake id nRSkts).1.Sized := by
  unfold Daemon.fMake
  split
  · exact sized
  · split
    · rename_i f _
      have made : (d.setFile f fun f =>
          { f with id := id, sbase := 0, nsrsrv := nRSkts, sktX := fun _ => none,
                   nsatt := 0 }).Sized := sized.keepFile f rfl
      exact made
    · exact sized

theorem Sized.fiSktnm (i : SktNo) (fskt : BitVec 32) :
    (d.fiSktnm i fskt).Sized := by
  unfold Daemon.fiSktnm
  split
  · exact sized
  · rename_i f _
    have current : ({ d with fp := f } : Daemon).Sized := sized
    have waits : (({ d with fp := f } : Daemon).setFile f fun f =>
        { f with state := .dopnw }).Sized := current.keepFile f rfl
    simp only
    split
    · split
      · exact current.killSkt i
      · exact (waits.smDux _ fskt .init).killSkt i
    · exact current

theorem Sized.fiAll (usable : Usable (d.sockets i).bysz)
    (msgs bitsHi bitsLo : BitVec 16) : (d.fiAll i msgs bitsHi bitsLo).Sized := by
  unfold Daemon.fiAll
  simp only
  split
  · exact sized
  · rename_i f _
    have current : ({ d with fp := f } : Daemon).Sized := sized
    split
    · split
      · exact current
      · split
        · exact current
        · split
          · exact current.killSkt i
          · have sent : (({ d with fp := f } : Daemon).fiSsn i).Sized := current.write trivial
            have waits : ((({ d with fp := f } : Daemon).fiSsn i).setFile f fun f =>
                { f with state := .sirfw }).Sized := sent.keepFile f rfl
            exact waits.toState i .orfnmw (.inr usable)
    · exact current.kwMod usable _ _ _ _
    · exact current

theorem Sized.fiRfnm (i : SktNo) : (d.fiRfnm i).Sized := by
  unfold Daemon.fiRfnm
  split
  · exact sized
  · rename_i f _
    have current : ({ d with fp := f } : Daemon).Sized := sized
    have waits : (({ d with fp := f } : Daemon).setFile f fun f =>
        { f with state := .dopnw }).Sized := current.keepFile f rfl
    simp only
    split
    · exact (waits.smDux _ _ .init).killSkt i
    · exact current

/-! ### Hosts -/

theorem Sized.hDead : d.hDead.Sized := by
  obtain ⟨e, dead, same⟩ := hDead_keeps Daemon.Sized sized fun e i before => before.deadSkt i
  rw [same]
  have told : ((e.prFlush.setUp false).kwReset d.ncp.host).Sized :=
    Sized.write (d := e.prFlush.setUp false) dead trivial
  exact told.write trivial

theorem Sized.flushed : d.flushed.Sized := by
  unfold Daemon.flushed
  split
  · exact sized
  · exact sized

theorem Sized.asked : d.asked.1.Sized := sized.flushed

theorem Sized.rstLoop (tries : Nat) : (rstLoop tries d).Sized := by
  induction tries generalizing d with
  | zero => exact sized
  | succ tries inductionHypothesis =>
    have next : d.stepped.Sized := sized
    rw [rstLoop_succ]
    split
    · split
      · exact inductionHypothesis next.asked
      · exact next.asked
    · exact inductionHypothesis next

theorem Sized.rstAll (hnames : Nat → Bool) : (rstAll hnames d).Sized := by
  have mapped : (d.mapped hnames).Sized := by
    unfold Daemon.mapped
    split
    · exact sized
    · exact sized
  rw [rstAll_eq]
  exact mapped.rstLoop _

theorem Sized.onHost (change : Ncp → Ncp) : (d.onHost change).Sized := sized

theorem Sized.hsAlive : d.hsAlive.Sized :=
  Sized.write (d := d.setUp true) sized trivial

theorem Sized.cleared : d.cleared.Sized := sized

theorem Sized.irReset (hnames : Nat → Bool) : (irReset hnames d).Sized := by
  have told : (d.hsUpdate 0 hostAlive).Sized := sized.write trivial
  have dead : d.allDead.Sized := by
    refine Table.foldl_keeps Daemon.Sized _ _ (fun e h _ before => ?_) told
    exact Sized.hDead (d := e.setHost h) before
  rw [irReset_eq]
  exact dead.cleared.rstAll hnames

end

/-! ### Host-host commands -/

section Commands

variable (p : List (BitVec 8))

theorem Sized.hrRfc (sized : d.Sized) (code : byte p 0 = 1 ∨ byte p 0 = 2) (str : StrSized p) :
    (d.hrRfc p).Sized := by
  unfold Daemon.hrRfc
  split
  · exact sized
  · rename_i valid
    have isValid : rfcValid p = true := Bool.not_eq_false _ ▸ valid
    split
    · exact sized
    · rename_i taken
      have isTaken : rfcTaken p = true := Bool.not_eq_false _ ▸ taken
      refine Sized.getSkt (d := d.offering p) sized.hsAlive ?_
      have request := rfcRequest_spec (d := d.hsAlive) p
      rcases code with rts | isStr
      · refine .inr (.inl ⟨request.1, ?_⟩)
        show isSend (d.hsAlive.rfcRequest p).lskt = true
        rw [request.2.2.1, cmdLskt_send]
        unfold rfcValid at isValid
        rw [Bool.and_eq_true, Bool.and_eq_true] at isValid
        obtain ⟨⟨parity, kind⟩, -⟩ := isValid
        unfold polarity at parity
        rw [BitVec.getLsbD_xor] at parity kind
        rw [rts] at kind
        revert parity kind
        cases (byte p 4).getLsbD 0 <;> cases (byte p 8).getLsbD 0 <;> decide
      · refine .inr (.inr ?_)
        have bysz : (d.hsAlive.rfcRequest p).bysz = byte p 9 := by
          unfold Daemon.rfcRequest
          simp only
          rw [if_pos isStr]
        show Usable (d.hsAlive.rfcRequest p).bysz
        rw [bysz]
        exact str isStr isValid isTaken

theorem Sized.hrCls (sized : d.Sized) : (d.hrCls p).Sized := by
  unfold Daemon.hrCls
  split
  · exact sized
  · split
    · exact sized
    · exact Sized.getSkt (d := d.closing p) sized (.inl rfl)

theorem Sized.hrEco (sized : d.Sized) : (d.hrEco p).Sized :=
  (sized.onHost _).hsAlive

theorem Sized.hrRst (sized : d.Sized) : d.hrRst.Sized := sized.hDead.hsAlive.onHost _

theorem Sized.hrAll (sized : d.Sized) : (d.hrAll p).Sized := by
  unfold Daemon.hrAll
  split
  · split
    · rename_i is
      exact sized.fiAll (sized.bysz (by rw [is]; decide) (by rw [is]; decide)) _ _ _
    all_goals exact sized
  · exact sized

theorem Sized.hrProc (sized : d.Sized) (str : StrSized p) : (d.hrProc p).Sized := by
  have code {n : Nat} (is : (byte p 0).toNat = n) (small : n < 256) :
      byte p 0 = BitVec.ofNat 8 n := by
    apply BitVec.eq_of_toNat_eq
    rw [is, BitVec.toNat_ofNat, Nat.mod_eq_of_lt small]
  unfold Daemon.hrProc
  split
  · rename_i is
    exact sized.hrRfc p (.inl (code is (by decide))) str
  · rename_i is
    exact sized.hrRfc p (.inr (code is (by decide))) str
  · exact sized.hrCls p
  · exact sized.hrAll p
  · exact sized.hrEco p
  · exact sized
  · exact sized.hrRst
  · exact sized.hsAlive

end Commands

theorem Sized.hrDcodeFrom (sized : d.Sized) (bound : Nat) (p : List (BitVec 8))
    (commands : CommandsSized bound p) : (hrDcodeFrom bound p d).Sized := by
  induction bound generalizing p d with
  | zero => exact sized
  | succ bound inductionHypothesis =>
    unfold Daemon.hrDcodeFrom
    simp only
    split
    · exact sized
    · rename_i some
      split
      · exact sized
      · rename_i legal
        split
        · exact sized
        · rename_i whole
          obtain ⟨str, rest⟩ := commands ⟨some, not_lt.mp legal, not_lt.mp whole⟩
          exact inductionHypothesis (sized.hrProc p str) _ rest

/-! ### Messages -/

theorem Sized.hrData (sized : d.Sized) (m : KrRcv) : (hrData m d).Sized := by
  unfold Daemon.hrData
  split
  · split
    · split
      · split
        · exact sized.fiSktnm _ _
        · exact sized.killSkt _
      · exact sized
    all_goals exact sized
  · exact sized

theorem Sized.irReglr (sized : d.Sized) (m : KrRcv)
    (commands : m.link = 0 → CommandsSized m.data.length m.data) : (irReglr m d).Sized := by
  unfold Daemon.irReglr
  split
  · rename_i control
    exact sized.hrDcodeFrom _ _ (commands control)
  · split
    · exact sized
    · exact sized.hrData m

theorem Sized.irRfnm (sized : d.Sized) (m : KrRcv) (hnames : Nat → Bool) :
    (irRfnm m hnames d).Sized := by
  unfold Daemon.irRfnm
  split
  · split
    · exact sized.fiRfnm _
    · exact sized
  · have answered := sized.onHost fun s => s.atHost (.irRfnm m.answers)
    simp only
    generalize (d.onHost fun s => s.atHost (.irRfnm m.answers)) = e at answered
    by_cases queued : (e.ncp.hosts e.ncp.host).pbQ ≠ []
    · have sends : ({ e with ncp := { e.ncp with pro2send := true } } : Daemon).Sized := answered
      rw [if_pos queued]
      split
      · exact sends.rstAll hnames
      · exact sends
    · rw [if_neg queued]
      split
      · exact answered.rstAll hnames
      · exact answered

theorem Sized.irReX (sized : d.Sized) (m : KrRcv) (hnames : Nat → Bool) :
    (irReX m hnames d).Sized := by
  unfold Daemon.irReX
  split
  · split
    · exact sized.killSkt _
    · exact sized
  · have answered := sized.onHost fun s => s.atHost (.irReX m.answers)
    simp only
    generalize (d.onHost fun s => s.atHost (.irReX m.answers)) = e at answered
    split
    · have dead := answered.hDead
      generalize e.hDead = e' at dead
      split
      · exact dead.rstAll hnames
      · exact dead
    · exact answered

theorem Sized.krRcv (sized : d.Sized) (m : KrRcv) (hnames : Nat → Bool)
    (commands : (m.type &&& 15).toNat = 0 → m.link = 0 → CommandsSized m.data.length m.data) :
    (krRcv m hnames d).Sized := by
  have turned : (d.setHostLow m.host).Sized := sized
  unfold Daemon.krRcv
  simp only
  split
  · exact turned
  · split
    · rename_i regular
      exact turned.irReglr m (commands regular)
    · exact turned.write trivial
    · exact turned.irRfnm m hnames
    · exact Sized.write (d := (d.setHostLow m.host).setUp false) turned trivial
    · exact turned.irReX m hnames
    · exact turned.irReX m hnames
    · exact turned.irReX m hnames
    · exact turned.irReset hnames
    · exact turned

/-! ### Opens -/

section Opens

variable {o : KrOpen}

section

variable (sized : d.Sized)
include sized

theorem Sized.drctLskt (o : KrOpen) : (d.drctLskt o).1.Sized := by
  unfold Daemon.drctLskt
  split
  · split
    · split <;> exact sized
    · exact sized
  · split
    · split
      · exact sized
      · have assigned := sized.asnSktn
        split
        · rename_i isAssigned
          rw [isAssigned] at assigned
          exact assigned
        · rename_i isAssigned
          rw [isAssigned] at assigned
          exact assigned
    · split <;> exact sized

theorem Sized.drctFskt (o : KrOpen) : (d.drctFskt o).1.Sized := by
  unfold Daemon.drctFskt
  split
  · split
    · split <;> exact sized
    · exact sized
  · exact sized

section

variable (size : o.bysz = 0 ∨ Usable o.bysz)
include size

theorem Sized.drctMade (lskt : BitVec 16)
    (fskt : BitVec 32) : (d.drctMade o lskt fskt).Sized := by
  have waits : (d.setFile d.fp fun f =>
      { f with state := .dopnw, sbase := lskt &&& ~~~7, bysz := o.bysz }).Sized :=
    sized.setFile d.fp size
  have ready : (d.drctReady o lskt).Sized := by
    unfold Daemon.drctReady
    simp only
    split
    · exact waits.onHost _
    · exact waits
  have isMade : d.drctMade o lskt fskt =
      if o.dux then (d.drctReady o lskt).smDux (lskt &&& ~~~1) (fskt &&& ~~~1) o.op
      else (d.drctReady o lskt).smSplx lskt fskt (if isSend lskt then .xmit else .rcv) o.op := rfl
  rw [isMade]
  split
  · exact ready.smDux _ _ _
  · exact ready.smSplx _ _ _ _

theorem Sized.krOdrct :
    (d.krOdrct o).Sized := by
  have turned : (d.setHostLow o.host).Sized := sized
  have numbered := turned.drctLskt o
  unfold Daemon.krOdrct
  simp only
  split
  · rename_i isRefused
    rw [isRefused] at numbered
    exact numbered.kwRdy _ _
  · rename_i e lskt isLocal
    rw [isLocal] at numbered
    have reached := Sized.drctFskt numbered o
    split
    · exact Sized.kwRdy numbered _ _
    · split
      · exact reached.kwRdy _ _
      · generalize (if o.dux then 2 else 1 : Int) = n
        have made := reached.fMake o.id n
        split
        · exact made.kwRdy _ _
        · exact made.drctMade size lskt _

theorem Sized.krOuicp :
    (d.krOuicp o).Sized := by
  have turned : (d.setHostLow o.host).Sized := sized
  have linked := turned.asnLnkn
  unfold Daemon.krOuicp
  simp only
  split
  · exact turned.fRlse.kwRdy _ _
  · generalize (d.setHostLow o.host).asnLnkn = l at linked
    split
    · exact linked.fRlse.kwRdy _ _
    · have assigned := (linked.onHost fun s => (Ncpd.chkHost xRetries s).1).asnSktn
      change l.1.chkHost.1.asnSktn.1.Sized at assigned
      generalize l.1.chkHost.1.asnSktn = a at assigned
      have based : (a.1.setFile a.1.fp fun f => { f with sbase := a.2.getD 0xffff }).Sized :=
        assigned.keepFile _ rfl
      generalize (a.1.setFile a.1.fp fun f => { f with sbase := a.2.getD 0xffff }) = e at based
      split
      · exact based.fRlse.kwRdy _ _
      · have waits : (e.setFile e.fp fun f =>
            { f with state := .uiopw, bysz := o.bysz }).Sized := based.setFile _ size
        refine Sized.getSkt ?_ ?_
        · have timed : ((e.setFile e.fp fun f =>
              { f with state := .uiopw, bysz := o.bysz }).setFile e.fp fun f =>
                { f with timeo := e.clock + o.timo }).Sized := waits.keepFile _ rfl
          split
          · exact timed
          · exact waits
        · split
          · exact .inr (.inr usable_icp)
          · exact .inr (.inr usable_icp)

theorem Sized.krOsicp :
    (d.krOsicp o).Sized := by
  have assigned := sized.asnSktn
  unfold Daemon.krOsicp
  simp only
  generalize d.asnSktn = a at assigned
  have based : (a.1.setFile a.1.fp fun f => { f with sbase := a.2.getD 0xffff }).Sized :=
    assigned.keepFile _ rfl
  split
  · exact based.fRlse.kwRdy _ _
  · generalize (a.1.setFile a.1.fp fun f => { f with sbase := a.2.getD 0xffff }) = e at based
    split
    · exact based.fRlse.kwRdy _ _
    · have waits : (e.setFile e.fp fun f =>
          { f with state := .siopw, bysz := o.bysz }).Sized := based.setFile _ size
      refine Sized.getSkt ?_ ?_
      · exact waits
      · exact .inr (.inr usable_icp)

theorem Sized.krOicp :
    (d.krOicp o).Sized := by
  have made := sized.fMake o.id 3
  unfold Daemon.krOicp
  simp only
  split
  · exact made.kwRdy _ _
  · split
    · exact made.krOsicp size
    · exact made.krOuicp size

theorem Sized.krOpen :
    (d.krOpen o).Sized := by
  have unnamed : (d.unnamed o).Sized := by
    unfold Daemon.unnamed
    split
    · exact sized.keepFile _ rfl
    · exact sized
  have isOpen : d.krOpen o =
      if o.drct then (d.unnamed o).krOdrct o else (d.unnamed o).krOicp o := rfl
  rw [isOpen]
  split
  · exact unnamed.krOdrct size
  · exact unnamed.krOicp size

end

end

end Opens

/-! ### Trips -/

section

variable (sized : d.Sized)
include sized

theorem Sized.krClose (id : BitVec 16) (sinx : SktIndex) :
    (d.krClose id sinx).Sized := by
  unfold Daemon.krClose
  split
  · exact sized
  · split
    · exact sized
    · rename_i i _
      exact Sized.closeSkt (d := d.setHostLow (d.sockets i).hlHost) sized i

theorem Sized.killDue (f : FileNo) (x : SktIndex) :
    (killDue f d x).Sized := by
  unfold Daemon.killDue
  split
  · rename_i i _
    exact Sized.killSkt (d := d.setHost (d.sockets i).hlHost.toNat) sized i
  · exact sized

theorem Sized.timoFile (f : FileNo) : (d.timoFile f).Sized := by
  unfold Daemon.timoFile
  split
  · split
    · have killed : ([SktIndex.rcv, .xmit, .icp].foldl (Daemon.killDue f) d).Sized :=
        Table.foldl_keeps Daemon.Sized _ _ (fun e x _ before => before.killDue f x) sized
      simp only
      generalize [SktIndex.rcv, .xmit, .icp].foldl (Daemon.killDue f) d = e at killed
      exact (killed.keepFile f rfl).kwRdy _ _
    · exact sized
  · exact sized

theorem Sized.timoSocket (i : SktNo) : (d.timoSocket i).Sized := by
  unfold Daemon.timoSocket
  simp only
  split
  · split
    · exact (sized.timoSkt i).keepSkt i rfl rfl fun _ => rfl
    · exact sized
  · exact sized

theorem Sized.krTimo : d.krTimo.Sized := by
  unfold Daemon.krTimo
  simp only
  have counted : ({ d with timeo := 0, ftimeo := 0, stimeo := 0 } : Daemon).Sized := sized
  generalize ({ d with timeo := 0, ftimeo := 0, stimeo := 0 } : Daemon) = e at counted
  have files : (if d.ftimeo ≠ 0 then
      (List.finRange nfiles).foldl Daemon.timoFile e else e).Sized := by
    split
    · exact Table.foldl_keeps Daemon.Sized _ _ (fun e f _ before => before.timoFile f) counted
    · exact counted
  generalize (if d.ftimeo ≠ 0 then
      (List.finRange nfiles).foldl Daemon.timoFile e else e) = later at files
  split
  · exact Table.foldl_keeps Daemon.Sized _ _ (fun e i _ before => before.timoSocket i) files
  · exact files

theorem Sized.krReset (h : BitVec 8) : (d.krReset h).Sized := by
  have dead := Sized.hDead (d := d.setHost h.toNat) sized
  unfold Daemon.krReset
  generalize (d.setHost h.toNat).hDead = e at dead
  exact dead.onHost _

theorem Sized.finish : d.finish.Sized := by
  have sent := sized.flushed
  unfold Daemon.flushed at sent
  unfold Daemon.finish
  simp only
  generalize (if d.ncp.pro2send then d.sendPro else d) = e at sent
  split
  · exact sent.write trivial
  · exact sent

theorem Sized.trip {e : Event} (sizes : Sizes d e) : (d.trip e).Sized := by
  obtain ⟨instr, clock⟩ := e
  have began : (d.read clock).Sized := sized
  refine Sized.finish ?_
  cases instr with
  | userOpen o => exact began.krOpen sizes
  | rcv m hnames => exact began.krRcv m hnames sizes
  | close id sinx => exact began.krClose id sinx
  | timo => exact began.krTimo
  | reset h => exact began.krReset h
  | log => exact began

end

/-! ### Runs -/

/-- The daemon that is built for other byte sizes, before its first trip. -/
def startSfh : Daemon := { start with sfhbyte := true }

theorem startSfh_sized : startSfh.Sized := by
  refine ⟨fun _ => .inl rfl, fun _ => .inl rfl, fun entry inside => ?_⟩
  rw [List.mem_singleton.mp inside]
  trivial

/-- The socket that an instruction sets up or modifies. -/
def told : Output → Option Sumod
  | .stup socket => some socket
  | .mod socket => some socket
  | _ => none

/-- The byte sizes of the connections that have been set up or modified in the kernel. -/
def toldSizes (d : Daemon) : List Int := (d.output.filterMap told).map Sumod.bsize

theorem Sized.told (sized : d.Sized) {size : Int} (isTold : size ∈ d.toldSizes) :
    ∃ bysz, Usable bysz ∧ bysz.toInt = size := by
  obtain ⟨socket, given, rfl⟩ := List.mem_map.mp isTold
  obtain ⟨entry, inside, isSocket⟩ := List.mem_filterMap.mp given
  have fine := sized.2.2 entry inside
  refine ⟨socket.bysz, ?_, rfl⟩
  cases entry with
  | stup _ =>
    obtain rfl := Option.some.inj isSocket
    exact fine
  | mod _ =>
    obtain rfl := Option.some.inj isSocket
    exact fine
  | _ => cases isSocket

/-- The byte sizes of connections are usable. In every run in which the byte size of every open is
zero or a positive multiple of eight, and that of every request of a foreign host that is not
refused a positive multiple of eight, the byte size of every connection that the daemon sets up or
modifies in the kernel is a positive multiple of eight, and none of the divisions of the kernel by
it is a division by zero. -/
theorem bytesizes_usable {history : List Event} {d : Daemon}
    (run : Transition.Run (Transition.Guarded Trip Sizes) startSfh history d) :
    ∀ size ∈ d.toldSizes, (0 < size ∧ size % 8 = 0) ∧ Divides size := by
  have sized : d.Sized := by
    refine run.always Daemon.Sized startSfh_sized fun d e next before taken => ?_
    obtain ⟨sizes, -, rfl⟩ := taken
    exact before.trip sizes
  intro size isTold
  obtain ⟨bysz, usable, rfl⟩ := sized.told isTold
  exact ⟨usable, usable.divides⟩

/-- A direct open for a connection between socket 2 here and socket 5 of host 7, or for one between
3 here and 6 there. -/
def directOpen (init send : Bool) (bysz : BitVec 8) : Event :=
  ⟨.userOpen ⟨true, false, init, true, false, false, 1, if send then 3 else 2,
    if send then 6 else 5, 7, 0, 0, bysz⟩, 0⟩

/-- The request of host 7 to send to socket 2 from its socket 5. -/
def strCommand (bysz : BitVec 8) : Event :=
  ⟨.rcv ⟨0, 7, 0, 0, [2, 0, 0, 0, 5, 0, 0, 0, 2, bysz], 0⟩ fun _ => false, 0⟩

theorem bytesizes_usable_sixteen :
    (16 : Int) ∈ ((startSfh.trip (directOpen false false 0)).trip (strCommand 16)).toldSizes ∧
    Divides 16 := by
  have isTold : (16 : Int) ∈
      ((startSfh.trip (directOpen false false 0)).trip (strCommand 16)).toldSizes := by
    decide +kernel
  have first : Transition.Guarded Trip Sizes startSfh (directOpen false false 0) _ :=
    ⟨by decide +kernel, rfl, rfl⟩
  have second : Transition.Guarded Trip Sizes (startSfh.trip (directOpen false false 0))
      (strCommand 16) _ := ⟨by decide +kernel, by decide +kernel, rfl⟩
  exact ⟨isTold, (bytesizes_usable ((Transition.Run.start.step first).step second) 16 isTold).2⟩

/-- A user opens a connection with bytes of seven bits, and the size of a foreign host's request is
zero: the kernel is told both, and divides by zero. -/
theorem size_unusable :
    (Transition.Run Trip startSfh [directOpen true true 7]
        (startSfh.trip (directOpen true true 7)) ∧
      (7 : Int) ∈ (startSfh.trip (directOpen true true 7)).toldSizes ∧ lBcnt 1 71 7 = none) ∧
    Transition.Run Trip startSfh [directOpen false false 0, strCommand 0]
      ((startSfh.trip (directOpen false false 0)).trip (strCommand 0)) ∧
    (0 : Int) ∈ ((startSfh.trip (directOpen false false 0)).trip (strCommand 0)).toldSizes ∧
    amtRead 1 0 = none ∧ rHiwat 0 0 = none := by
  have seven : Trip startSfh (directOpen true true 7) _ := ⟨rfl, rfl⟩
  have listen : Trip startSfh (directOpen false false 0) _ := ⟨rfl, rfl⟩
  have request : Trip (startSfh.trip (directOpen false false 0)) (strCommand 0) _ :=
    ⟨by decide +kernel, rfl⟩
  refine ⟨⟨Transition.Run.start.step seven, by decide +kernel, by decide⟩,
    (Transition.Run.start.step listen).step request, by decide +kernel, by decide, by decide⟩

end Daemon

end NetworkUnix.Ncpd
