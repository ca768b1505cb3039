/-
This file proves that both data sockets of a file belong to one peer. The two
sockets are requested one after the other, and for one host and two socket numbers
next to each other, unless they are general listens: these are met one by one, each
by any host and any socket that its own wild fields allow. As long as the second
one is met by the peer of the first one, the sockets of an open file are a pair.

The states inside a trip, between the commands of a message, are looked at as well,
since a file may be opened by one command and lose a socket to the next one.
-/

import NetworkUnix.Ncpd.Runs

namespace NetworkUnix.Ncpd

/-! ### Pairs of data sockets -/

/-- The states of a socket whose peer is known, until it is closed. -/
def SktState.settled : SktState → Bool
  | .slsn | .rfcw | .opened => true
  | _ => false

/-- The numbers of a data socket fit those of the other one. -/
def Faces (x : SktIndex) (host : BitVec 8) (fskt : BitVec 32) (mate : Cell) : Prop :=
  host = mate.hlHost ∧ if x = .rcv then fskt = mate.fskt + 1 else mate.fskt = fskt + 1

/-- A general listen for a data socket is met only by the peer of the other one. -/
def Guards.paired : Guards :=
  { Guards.all with
    opens := fun b i r => ∀ j, (b.cells j).filep = (b.cells i).filep →
      (b.cells j).sinx = (b.cells i).sinx.other → (b.cells j).state.settled = true →
      Faces (b.cells i).sinx r.hlHost r.fskt (b.cells j)
    adopt := fun b _ r => ∀ j, (b.cells j).filep = r.filep → (b.cells j).sinx = r.sinx.other →
      (b.cells j).state.settled = true → Faces r.sinx r.hlHost r.fskt (b.cells j) }

theorem Guards.paired_lax : Guards.paired.Lax := Guards.all_lax

/-- The two data sockets of a file, when the peers of both are known, have one peer. -/
def Board.Paired (b : Board) : Prop :=
  ∀ i j, (b.cells i).state.settled = true → (b.cells j).state.settled = true →
    (b.cells i).filep = (b.cells j).filep → (b.cells i).sinx = .rcv → (b.cells j).sinx = .xmit →
    Adjacent (b.cells i) (b.cells j)

section Paired

variable {b : Board}

theorem Board.Paired.replace (paired : b.Paired) {i : SktNo} {c : Cell}
    (faces : c.state.settled = true → c.sinx ≠ .icp → ∀ j, j ≠ i → (b.cells j).filep = c.filep →
      (b.cells j).sinx = c.sinx.other → (b.cells j).state.settled = true →
      Faces c.sinx c.hlHost c.fskt (b.cells j)) : (b.setCell i c).Paired := by
  intro j k settledJ settledK same rcv xmit
  have apart : j ≠ k := by
    intro same
    rw [same, xmit] at rcv
    cases rcv
  by_cases hereJ : j = i
  · subst hereJ
    rw [setCell_self] at settledJ same rcv ⊢
    rw [setCell_other apart.symm] at settledK same xmit ⊢
    have numbers := faces settledJ (by rw [rcv]; decide) k apart.symm same.symm
      (by rw [rcv]; exact xmit) settledK
    rw [rcv] at numbers
    exact numbers
  · rw [setCell_other hereJ] at settledJ same rcv ⊢
    by_cases hereK : k = i
    · subst hereK
      rw [setCell_self] at settledK same xmit ⊢
      have numbers := faces settledK (by rw [xmit]; decide) j hereJ same (by rw [xmit]; exact rcv)
        settledJ
      rw [xmit] at numbers
      exact ⟨numbers.1.symm, numbers.2⟩
    · rw [setCell_other hereK] at settledK same xmit ⊢
      exact paired j k settledJ settledK same rcv xmit

theorem Board.Paired.forget (paired : b.Paired) {i : SktNo} {c : Cell}
    (unsettled : c.state.settled = false) : (b.setCell i c).Paired :=
  paired.replace fun settled => absurd (settled.symm.trans unsettled) (by decide)

theorem Board.Paired.faces (paired : b.Paired) {i j : SktNo}
    (settledI : (b.cells i).state.settled = true) (data : (b.cells i).sinx ≠ .icp)
    (same : (b.cells j).filep = (b.cells i).filep)
    (other : (b.cells j).sinx = (b.cells i).sinx.other)
    (settledJ : (b.cells j).state.settled = true) :
    Faces (b.cells i).sinx (b.cells i).hlHost (b.cells i).fskt (b.cells j) := by
  cases sinx : (b.cells i).sinx with
  | rcv =>
    rw [sinx] at other
    exact paired i j settledI settledJ same.symm sinx other
  | xmit =>
    rw [sinx] at other
    have numbers := paired j i settledJ settledI same other sinx
    exact ⟨numbers.1.symm, numbers.2⟩
  | icp => exact absurd sinx data

theorem listening_cases {st : SktState} (listening : st.listening = true) :
    st = .glsn ∨ st.settled = true := by
  revert listening
  cases st <;> decide

theorem asks_faces (ok : b.Ok) {r : Request} {f : FileNo} (asks : Asks b r f)
    (exact : r.state ≠ .glsn) (data : r.sinx ≠ .icp) {j : SktNo}
    (same : (b.cells j).filep = r.filep) (other : (b.cells j).sinx = r.sinx.other)
    (settled : (b.cells j).state.settled = true) : Faces r.sinx r.hlHost r.fskt (b.cells j) := by
  have used : (b.cells j).state ≠ .null := by
    intro isNull
    rw [isNull] at settled
    cases settled
  have there := (ok.owned j f used (same.trans asks.filep)).2
  rw [other] at there
  cases sinx : r.sinx with
  | rcv =>
    rw [sinx] at there
    exact asks.pair exact sinx j there
  | xmit =>
    rw [sinx] at there
    have none := asks.first sinx
    exact absurd (none.symm.trans there).symm (Option.some_ne_none j)
  | icp => exact absurd sinx data

theorem move_paired {next : Board} (ok : b.Ok) (paired : b.Paired)
    (move : Move Guards.paired b next) : next.Paired := by
  cases move with
  | close i ms c ncp closes =>
    obtain ⟨-, -, -, -, quiet, unopened, -⟩ := closes.states
    refine paired.forget (i := i) (Bool.eq_false_iff.mpr fun settled => ?_)
    revert settled quiet unopened
    cases c.state <;> decide
  | wait i => exact paired.forget (i := i) rfl
  | opens i r offers listening lskt exactly wildly permitted =>
    refine paired.replace (i := i) fun _ data j _ same other settled => ?_
    rcases listening_cases listening with general | settledI
    · exact permitted general data j same other settled
    · have notGeneral : (b.cells i).state ≠ .glsn := by
        intro general
        rw [general] at settledI
        cases settledI
      have faces := paired.faces settledI data same other settled
      rw [← (exactly notGeneral).1, ← (exactly notGeneral).2] at faces
      exact faces
  | adopt i r f asks queued lskt host fskt fresh permitted =>
    refine paired.replace (i := i) fun _ data j _ same other settled => ?_
    show Faces r.sinx (b.cells i).hlHost (b.cells i).fskt (b.cells j)
    rw [← host, ← fskt]
    by_cases general : r.state = .glsn
    · exact permitted general data j same other settled
    · exact asks_faces ok asks general data same other settled
  | create i r f asks =>
    refine paired.replace (i := i) fun settledI data j _ same other settled => ?_
    refine asks_faces ok asks (fun general => ?_) data same other settled
    change r.state.state.settled = true at settledI
    rw [general] at settledI
    cases settledI
  | offer i r offers =>
    refine paired.forget (i := i) ?_
    show r.state.state.settled = false
    rw [offers.op]
    rfl
  | drop i => exact paired.forget (i := i) rfl
  | giveBack i => exact paired.forget (i := i) rfl
  | _ => exact paired

end Paired

namespace Daemon

instance (x : SktIndex) (host : BitVec 8) (fskt : BitVec 32) (mate : Cell) :
    Decidable (Faces x host fskt mate) :=
  inferInstanceAs (Decidable (host = mate.hlHost ∧
    if x = .rcv then fskt = mate.fskt + 1 else mate.fskt = fskt + 1))

/-- A peer suits a data socket of a file: it is that of the other one, when that is known. -/
def Suits (d : Daemon) (filep : Option FileNo) (x : SktIndex) (host : BitVec 8)
    (fskt : BitVec 32) : Prop :=
  ∀ j, (d.sockets j).filep = filep → (d.sockets j).sinx = x.other →
    (d.sockets j).state.settled = true → Faces x host fskt (d.sockets j).cell

instance (d : Daemon) (filep : Option FileNo) (x : SktIndex) (host : BitVec 8) (fskt : BitVec 32) :
    Decidable (d.Suits filep x host fskt) :=
  inferInstanceAs (Decidable (∀ j, _ → _ → _ → Faces x host fskt (d.sockets j).cell))

/-- When a general listen for a data socket is met by a request that has just come, or is made and
meets a request that is queued, the peer of the request suits the socket. -/
def Matched (d : Daemon) (e : Event) : Prop :=
  ∀ q ∈ (d.read e.clock).requests e.instr, ∀ i, q.found = some i →
    (q.sktReq.state = .rfc → (q.sockets i).state = .glsn → (q.sockets i).sinx ≠ .icp →
      q.Suits (q.sockets i).filep (q.sockets i).sinx q.sktReq.hlHost q.sktReq.fskt) ∧
    (q.sktReq.state = .glsn → q.sktReq.sinx ≠ .icp →
      q.Suits q.sktReq.filep q.sktReq.sinx (q.sockets i).hlHost (q.sockets i).fskt)

instance (d : Daemon) (e : Event) : Decidable (d.Matched e) := List.decidableBAll _ _

theorem matched_permits {d : Daemon} {e : Event} (matched : d.Matched e) :
    Permits Guards.paired (d.read e.clock) e.instr where
  receives := fun q member isRfc => ⟨fun i general data isFound =>
    (matched q member i isFound).1 isRfc general data, fun _ _ => trivial⟩
  listens := fun q member i general data isFound => (matched q member i isFound).2 general data
  leaks := fun _ _ _ _ _ _ _ _ => trivial
  shares := fun _ _ _ _ _ _ => trivial
  blocks := fun _ _ _ _ _ _ _ _ _ _ _ => trivial
  full := fun _ _ _ _ _ => trivial

/-- In a run whose second halves are met by the peers of the first ones, between any two commands
and any two trips, the two open data sockets of an open file have the same host, and the foreign
socket of the receive one follows that of the send one. -/
theorem halves_paired {history : List Event} {d : Daemon} {e : Event}
    (run : Transition.Run (Transition.Guarded Trip Matched) start history d)
    (matched : d.Matched e) : ∀ q ∈ d.stages e, ∀ f r x, (q.files f).state = .opened →
      (q.files f).sktX .rcv = some r → (q.files f).sktX .xmit = some x →
      (q.sockets r).state = .opened → (q.sockets x).state = .opened →
      (q.sockets r).hlHost = (q.sockets x).hlHost ∧
      (q.sockets r).fskt = (q.sockets x).fskt + 1 := by
  intro q member f r x isOpen rcv xmit openR openX
  have kept : ∀ b next, b.Ok → b.Paired → Move Guards.paired b next → next.Paired :=
    fun b next ok held move => move_paired ok held move
  have held := run_keeps Guards.paired_lax Board.Paired
    (fun i j settled => absurd (show false = true from settled) (by decide))
    (fun d e _ _ matched => matched_permits matched) kept run
  obtain ⟨ok, paired⟩ := moves_keep kept
    (stages_moves held.1 Guards.paired_lax (matched_permits matched) member) held.1 held.2
  have used : (q.board.entries f).state ≠ .null := by
    show (q.files f).state ≠ .null
    rw [isOpen]
    decide
  have listedR := ok.listed f .rcv r used rcv
  have listedX := ok.listed f .xmit x used xmit
  refine paired r x ?_ ?_ (listedR.2.1.trans listedX.2.1.symm) listedR.2.2 listedX.2.2
  · show (q.sockets r).state.settled = true
    rw [openR]
    rfl
  · show (q.sockets x).state.settled = true
    rw [openX]
    rfl

/-- A general listen of a duplex file for any host. -/
def listenDuplex : Event :=
  ⟨.userOpen ⟨true, false, false, false, true, false, 1, 16, 0, 0, 0, 0, 0⟩, 0⟩

/-- A host asks to receive on its socket `fskt` what local socket 17 sends. -/
def receivesAt (host fskt : BitVec 8) : Event :=
  ⟨.rcv ⟨0, host, 0, 0, [1, 0, 0, 0, fskt, 0, 0, 0, 17, 5], 0⟩ fun _ => false, 0⟩

/-- A host asks to send from its socket 1 to local socket 16. -/
def sendsFrom (host : BitVec 8) : Event :=
  ⟨.rcv ⟨0, host, 0, 0, [2, 0, 0, 0, 1, 0, 0, 0, 16, 8], 0⟩ fun _ => false, 0⟩

theorem nfiles_pos : 0 < nfiles := by decide

/-- The state of the file and the peers of its two sockets. -/
def peers (d : Daemon) : FileState × (BitVec 8 × BitVec 32) × BitVec 8 × BitVec 32 :=
  ((d.files ⟨0, nfiles_pos⟩).state,
    ((d.sockets ⟨1, by decide⟩).hlHost, (d.sockets ⟨1, by decide⟩).fskt),
    (d.sockets ⟨0, by decide⟩).hlHost, (d.sockets ⟨0, by decide⟩).fskt)

theorem halves_paired_one :
    ([listenDuplex, receivesAt 1 0].foldl trip start).Matched (sendsFrom 1) ∧
    ∀ q ∈ ([listenDuplex, receivesAt 1 0].foldl trip start).stages (sendsFrom 1),
      ∀ f r x, (q.files f).state = .opened →
      (q.files f).sktX .rcv = some r → (q.files f).sktX .xmit = some x →
      (q.sockets r).state = .opened → (q.sockets x).state = .opened →
      (q.sockets r).hlHost = (q.sockets x).hlHost ∧
        (q.sockets r).fskt = (q.sockets x).fskt + 1 :=
  have matched := by decide +kernel
  ⟨matched, halves_paired (run_meet (by decide +kernel)) matched⟩

/-- A file that is open with one half to host 1 and the other to host 2. -/
theorem halves_split :
    Transition.Run Trip start [listenDuplex, receivesAt 1 8, sendsFrom 2]
      ([listenDuplex, receivesAt 1 8, sendsFrom 2].foldl trip start) ∧
    ([listenDuplex, receivesAt 1 8, sendsFrom 2].foldl trip start).peers =
      (.opened, (2, 1), 1, 8) :=
  ⟨run_events _, by decide +kernel⟩

end Daemon

end NetworkUnix.Ncpd
