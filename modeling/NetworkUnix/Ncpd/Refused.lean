/-
This file shows that an open that is refused leaves nothing behind. An open that is
not refused at once writes no error: what its requests write are setups, commands
and the ready of a file that is open. An open that writes an error has given back the
file struct, the reservation and the group that it may have taken, unless it is a
direct init, which takes its group before the last checks.
-/

import NetworkUnix.Ncpd.Groups

namespace NetworkUnix.Ncpd

namespace Daemon

variable {d : Daemon}

/-! ### Requests write no errors -/

/-- An entry that is not an error. -/
def Output.Fine : Output → Prop
  | .redy _ code => code = 0
  | _ => True

/-- From one state to another no error is written. -/
def Quiet (d next : Daemon) : Prop :=
  ∃ written, next.output = d.output ++ written ∧ ∀ entry ∈ written, Output.Fine entry

variable {next e : Daemon} {f : FileNo} {id : BitVec 16} {marked : FileNo → Prop} {o : KrOpen}

theorem Quiet.of_same (same : next.output = d.output) : Quiet d next :=
  ⟨[], same.trans (List.append_nil _).symm, fun _ member => absurd member List.not_mem_nil⟩

theorem Quiet.refl (d : Daemon) : Quiet d d := .of_same rfl

theorem Quiet.trans (first : Quiet d e) (second : Quiet e next) :
    Quiet d next := by
  obtain ⟨written, output, fine⟩ := first
  obtain ⟨more, outputMore, fineMore⟩ := second
  refine ⟨written ++ more, ?_, fun entry member => ?_⟩
  · rw [outputMore, output, List.append_assoc]
  · rcases List.mem_append.mp member with before | after
    · exact fine entry before
    · exact fineMore entry after

theorem Quiet.write {entry : Output} (first : Quiet d e) (fine : Output.Fine entry) :
    Quiet d (e.write entry) := by
  refine first.trans ⟨[entry], rfl, fun other member => ?_⟩
  rw [List.mem_singleton.mp member]
  exact fine

theorem Quiet.tail (first : Quiet d e) (same : next.output = e.output) :
    Quiet d next := first.trans (.of_same same)

theorem attSkt_output (i : SktNo) : (d.attSkt i).output = d.output := by
  unfold attSkt
  simp only
  split <;> rfl

theorem kwMod_quiet (i : SktNo) (stat : BitVec 8) (msgs bitsHi bitsLo : BitVec 16) :
    Quiet d (d.kwMod i stat msgs bitsHi bitsLo) := by
  refine (Quiet.refl d).write ?_
  exact trivial

theorem kwStup_quiet (i : SktNo) (stat : BitVec 8) : Quiet d (d.kwStup i stat) := by
  refine (Quiet.refl d).write ?_
  exact trivial

theorem fiSopn_quiet (i : SktNo) : Quiet d (d.fiSopn i) := by
  unfold fiSopn
  simp only
  split
  next => exact .refl d
  next f _ =>
    have turned : Quiet d { d with fp := f } := .of_same rfl
    split
    next =>
      split
      next => exact (turned.trans (kwMod_quiet _ _ _ _ _)).tail rfl
      next => exact (turned.trans (kwMod_quiet _ _ _ _ _)).tail rfl
      next => exact .of_same rfl
    next =>
      split
      next => exact .of_same rfl
      next =>
        have told : ∀ next : Daemon, Quiet d next → ∀ p : Prop, [Decidable p] →
            Quiet d (if p then (next.setFile f fun f =>
              { f with state := .opened, timeo := 0 }).kwRdy (next.files f).id 0 else next) := by
          intro next quiet p _
          split
          · exact (quiet.tail rfl).write rfl
          · exact quiet
        refine told _ ?_ _
        split
        · exact turned.trans (kwMod_quiet _ _ _ _ _)
        · exact (turned.trans (kwMod_quiet _ _ _ _ _)).tail rfl

theorem adopt_output (i : SktNo) : (d.adopt i).output = d.output := by
  unfold adopt
  simp only
  exact attSkt_output (d := d.taken i) i

theorem lsintQ_quiet (i : SktNo) : Quiet d (d.lsintQ i).1 := by
  unfold lsintQ
  split
  next =>
    have adopted : Quiet d (((d.adopt i).kwStup i ksbOpen).hwRfc i) :=
      ((Quiet.of_same (adopt_output i)).trans (kwStup_quiet i ksbOpen)).tail rfl
    exact adopted.trans (fiSopn_quiet i)
  next => exact .refl d

theorem glsnQ_quiet (i : SktNo) : Quiet d (d.glsnQ i).1 := by
  unfold glsnQ
  simp only
  split
  next => exact (Quiet.of_same rfl).trans (lsintQ_quiet (d := d.filled i) i)
  next => exact .refl d

theorem soUrfc_output : d.soUrfc.1.output = d.output := by
  unfold soUrfc
  split
  next =>
    simp only
    split <;> rfl
  next => rfl

theorem soUlsn_quiet : Quiet d d.soUlsn.1 := by
  have same := soUrfc_output (d := d)
  unfold soUlsn
  split
  next e i isSome =>
    rw [isSome] at same
    exact (Quiet.of_same ((attSkt_output i).trans same)).trans (kwStup_quiet i 0)
  next e isNone =>
    rw [isNone] at same
    exact .of_same same

theorem soUinit_quiet : Quiet d d.soUinit := by
  have listened := soUlsn_quiet (d := d)
  unfold soUinit
  split
  next e i isSome =>
    rw [isSome] at listened
    exact listened.tail rfl
  next e isNone =>
    rw [isNone] at listened
    exact listened

theorem getSkt_quiet
    (op : d.sktReq.state = .glsn ∨ d.sktReq.state = .slsn ∨ d.sktReq.state = .init) :
    Quiet d d.getSkt := by
  rcases getSkt_cases (d := d) with ⟨-, unmet⟩ | ⟨i, -, -, met⟩
  · rw [unmet]
    unfold soUnm
    rcases op with op | op | op <;> rw [op]
    · exact soUlsn_quiet
    · exact soUlsn_quiet
    · exact soUinit_quiet
  · rw [met]
    unfold sktOper
    rcases op with op | op | op <;> rw [op] <;> cases (d.sockets i).state <;> first
      | exact .refl d
      | exact glsnQ_quiet i
      | exact lsintQ_quiet i

theorem asnLnkn_output : d.asnLnkn.1.output = d.output := by
  obtain ⟨n, assigned, -⟩ := asnLnkn_some d
  rw [assigned]

theorem splx_output (lskt : BitVec 16) (fskt : BitVec 32) (sinx : SktIndex) (op : SktOp) :
    (d.splx lskt fskt sinx op).output = d.output := by
  unfold splx
  simp only
  split
  next => rfl
  next => exact asnLnkn_output

theorem smSplx_quiet (lskt : BitVec 16) (fskt : BitVec 32) (sinx : SktIndex) {op : SktOp}
    (isOp : op = .glsn ∨ op = .slsn ∨ op = .init) : Quiet d (d.smSplx lskt fskt sinx op) := by
  rw [smSplx_eq]
  obtain ⟨-, -, link, request, -⟩ := splx_spec (d := d) lskt fskt sinx op
  refine (Quiet.of_same (splx_output lskt fskt sinx op)).trans (getSkt_quiet ?_)
  rw [request]
  exact isOp

theorem drctMade_quiet (o : KrOpen) (lskt : BitVec 16) (fskt : BitVec 32) :
    Quiet d (d.drctMade o lskt fskt) := by
  have ready : Quiet d (d.drctReady o lskt) := by
    unfold drctReady
    simp only
    split <;> exact .of_same rfl
  have isMade : d.drctMade o lskt fskt =
      if o.dux then (d.drctReady o lskt).smDux (lskt &&& ~~~1) (fskt &&& ~~~1) o.op
      else (d.drctReady o lskt).smSplx lskt fskt (if isSend lskt then .xmit else .rcv) o.op := rfl
  rw [isMade]
  split
  next =>
    exact (ready.trans (smSplx_quiet _ _ _ o.op_cases)).trans (smSplx_quiet _ _ _ o.op_cases)
  next => exact ready.trans (smSplx_quiet _ _ _ o.op_cases)

/-! ### What is given up leaves nothing behind -/

/-- The groups, the counts and the files in use are as they were. -/
structure Unchanged (d next : Daemon) : Prop where
  map : next.board.map = d.board.map
  nsLeft : next.nsLeft = d.nsLeft
  nfLeft : next.nfLeft = d.nfLeft
  free : ∀ f, (next.files f).state = .null ↔ (d.files f).state = .null
  files : ∀ f, (d.files f).state ≠ .null → next.files f = d.files f

theorem Unchanged.trans (first : Unchanged d e) (second : Unchanged e next) :
    Unchanged d next where
  map := second.map.trans first.map
  nsLeft := second.nsLeft.trans first.nsLeft
  nfLeft := second.nfLeft.trans first.nfLeft
  free := fun f => (second.free f).trans (first.free f)
  files := fun f used =>
    (second.files f fun isNull => used ((first.free f).mp isNull)).trans (first.files f used)

theorem Unchanged.of_same (map : next.board.map = d.board.map) (nsLeft : next.nsLeft = d.nsLeft)
    (nfLeft : next.nfLeft = d.nfLeft) (files : next.files = d.files) :
    Unchanged d next :=
  ⟨map, nsLeft, nfLeft, fun f => by rw [files], fun f _ => by rw [files]⟩

theorem rlsSktn_files (sbase : BitVec 16) : (d.rlsSktn sbase).files = d.files := by
  unfold rlsSktn
  split <;> rfl

theorem fRlse_files : d.fRlse.files =
    Function.update d.files d.fp { d.files d.fp with state := .null, timeo := 0 } := by
  unfold fRlse
  simp only
  split
  next =>
    split
    next => rfl
    next => exact rlsSktn_files _
  next => rfl

theorem fRlse_unchanged {x : Entry} {map : Nat → Bool} {last : Int}
    (free : (d.files f).state = .null) (isFp : e.fp = f)
    (files : ∀ h, h ≠ f → e.files h = d.files h)
    (board : e.board = { d.board.setEntry f x with
      nsLeft := d.nsLeft - x.nsrsrv, nfLeft := d.nfLeft - 1, sktMap := map, lasktn := last })
    (given : ∀ next, e.board.Released f next →
      (if last < 0 then fun _ => true else next) = d.board.map) : Unchanged d e.fRlse := by
  obtain ⟨next, released, isNext⟩ := refused_board isFp board
  have other : ∀ h, h ≠ f → e.fRlse.files h = d.files h := by
    intro h apart
    rw [fRlse_files, isFp, Function.update_of_ne apart]
    exact files h apart
  have self : (e.fRlse.files f).state = .null := by
    rw [fRlse_files, isFp, Function.update_self]
  refine ⟨?_, congrArg Board.nsLeft isNext, congrArg Board.nfLeft isNext, fun h => ?_,
    fun h used => ?_⟩
  · rw [isNext]
    exact given next released
  · by_cases here : h = f
    · rw [here, self, free]
    · rw [other h here]
  · exact other h fun same => used (same ▸ free)

theorem made_other {n : Int} {h : FileNo} (apart : h ≠ f) :
    (d.made id n f).files h = d.files h := setFile_other apart _

theorem gaveUp_unchanged {base : BitVec 16} {map : Nat → Bool} {last : Int}
    (grouped : d.board.Grouped marked) (free : (d.files f).state = .null)
    (took : Took d.board base map last)
    (isFile : e = (({ d with lasktn := last, sktMap := map } : Daemon).made id 3 f).setFile f fun f =>
      { f with sbase := base }) : Unchanged d e.fRlse := by
  refine fRlse_unchanged free (by rw [isFile]; rfl) (fun h apart => ?_) (gaveUp_board isFile)
    fun next released => ?_
  · rw [isFile, setFile_other apart]
    exact made_other apart
  · rw [if_neg (Int.not_lt.mpr took.started)]
    rcases gaveUp_released took isFile released with same | ⟨n, h, small, isFree, used, shares⟩
    · exact same
    · have group := (baseOf_blocks ⟨n, small⟩).2.2.2.2.2
      have clear := (grouped.taken n small).mpr ⟨h, used, shares ▸ group⟩
      exact Bool.noConfusion (isFree.symm.trans clear)

/-! ### Opens that are refused -/

/-- An open leaves the tables as they were, or it writes no error. -/
def Settles (d next : Daemon) : Prop := Unchanged d next ∨ Quiet d next

theorem Unchanged.settles (unchanged : Unchanged d next) (id : BitVec 16) (code : Nat) :
    Settles d (next.kwRdy id code) :=
  Or.inl (unchanged.trans (.of_same rfl rfl rfl rfl))

theorem Settles.before (settles : Settles e next) (map : e.board.map = d.board.map)
    (nsLeft : e.nsLeft = d.nsLeft) (nfLeft : e.nfLeft = d.nfLeft) (files : e.files = d.files)
    (output : e.output = d.output) : Settles d next := by
  rcases settles with unchanged | quiet
  · exact Or.inl ((Unchanged.of_same map nsLeft nfLeft files).trans unchanged)
  · exact Or.inr ((Quiet.of_same output).trans quiet)

theorem krOsicp_settles (grouped : d.board.Grouped marked) (free : (d.files f).state = .null) :
    Settles d ((d.made o.id 3 f).krOsicp o) := by
  obtain ⟨map, last, result, block, took, -⟩ := asnSktn_took d
  unfold krOsicp
  rw [asnSktn_made, block]
  simp only
  split
  next => exact (gaveUp_unchanged grouped free took rfl).settles _ _
  next =>
    split
    next => exact (gaveUp_unchanged grouped free took rfl).settles _ _
    next lskt _ =>
      refine Or.inr ((Quiet.of_same ?_).trans (getSkt_quiet (Or.inl rfl)))
      rfl

theorem krOuicp_settles (grouped : d.board.Grouped marked) (free : (d.files f).state = .null) :
    Settles d ((d.made o.id 3 f).krOuicp o) := by
  unfold krOuicp
  simp only
  split
  next =>
    have sbase : (((d.made o.id 3 f).setHostLow o.host).board.entries f).sbase = 0 := by
      show ((d.made o.id 3 f).files f).sbase = 0
      rw [made_files]
      rfl
    have unchanged : Unchanged (d.setHostLow o.host) ((d.made o.id 3 f).setHostLow o.host).fRlse := by
      refine fRlse_unchanged (d := d.setHostLow o.host) free rfl (fun h apart => made_other apart)
        (made_board_null (d := d.setHostLow o.host)) fun next released => ?_
      rw [released_none released (by rw [sbase]; decide)]
      rfl
    exact (unchanged.settles _ _).before rfl rfl rfl rfl rfl
  next =>
    obtain ⟨link, assigned, -⟩ := asnLnkn_some ((d.made o.id 3 f).setHostLow o.host)
    rw [assigned]
    simp only
    have same : ({ (d.made o.id 3 f).setHostLow o.host with laslnkn := link } : Daemon).chkHost.1 =
        (d.userReady o link).made o.id 3 f := rfl
    obtain ⟨map, last, result, block, took, -⟩ := asnSktn_took (d.userReady o link)
    rw [same, asnSktn_made, block]
    simp only
    have ready {next : Daemon} (settles : Settles (d.userReady o link) next) : Settles d next :=
      settles.before rfl rfl rfl rfl rfl
    have groupedR : (d.userReady o link).board.Grouped marked :=
      grouped.same rfl (fun _ => Iff.rfl) fun _ _ => rfl
    split
    next => exact ready ((gaveUp_unchanged groupedR free took rfl).settles _ _)
    next fskt _ =>
      refine ready (Or.inr ?_)
      split
      next => exact (Quiet.of_same rfl).trans (getSkt_quiet (Or.inr (Or.inr rfl)))
      next => exact (Quiet.of_same rfl).trans (getSkt_quiet (Or.inr (Or.inr rfl)))

theorem krOicp_settles (ok : d.board.Ok) (grouped : d.board.Grouped marked) :
    Settles d (d.krOicp o) := by
  unfold krOicp
  rcases fMake_spec ok o.id 3 with ⟨failed, -⟩ | ⟨f, free, -, made⟩
  · rw [failed]
    exact (Unchanged.of_same rfl rfl rfl rfl).settles _ _
  · rw [made]
    simp only
    rw [if_neg (by decide)]
    split
    next => exact krOsicp_settles grouped free
    next => exact krOuicp_settles grouped free

/-! ### Direct opens that are refused -/

/-- A direct open that takes a group is not refused afterwards, unless no group is left. -/
def KeepsGroup (d : Daemon) (o : KrOpen) : Prop :=
  o.takes → ¬ Full d.board →
    (d.setHostLow o.host).ncp.host ≠ 0 ∧ 0 < d.nfLeft ∧ (if o.dux then 2 else 1) ≤ d.nsLeft

theorem keepsGroup_opens {n : Nat} {lskt : BitVec 16} (ok : d.board.Ok)
    (found : (d.setHostLow o.host).drctLskt o =
      ({ d.setHostLow o.host with lasktn := n + 1, sktMap := Function.update d.board.map n false },
        .ok lskt)) (host : (d.setHostLow o.host).ncp.host ≠ 0) (files : 0 < d.nfLeft)
    (sockets : (if o.dux then 2 else 1) ≤ d.nsLeft) (rltv : o.rltv = false)
    (polarity : isSend lskt = !o.fskt.getLsbD 0) : d.drctOpens o ≠ none := by
  have okE : ({ d.setHostLow o.host with
      lasktn := n + 1, sktMap := Function.update d.board.map n false } : Daemon).board.Ok :=
    (setHostLow_move (g := Guards.all) trivial o.host).ok ok |>.aside _ _ _ _ _
  have fskt : ∀ e : Daemon, (e.drctFskt o) = (e, o.fskt) := by
    intro e
    unfold drctFskt
    rw [if_neg fun relative => by rw [rltv] at relative; exact Bool.noConfusion relative.1]
  unfold drctOpens
  rw [found]
  simp only
  rw [if_neg fun refused => host refused.2, fskt]
  simp only
  rw [if_neg fun refused => by
    rw [polarity] at refused
    exact absurd refused.2.2 (by cases o.fskt.getLsbD 0 <;> decide)]
  rcases fMake_spec okE o.id (if o.dux then 2 else 1) with ⟨-, few⟩ | ⟨f, -, -, made⟩
  · change d.nfLeft ≤ 0 ∨ d.nsLeft < (if o.dux then 2 else 1) at few
    omega
  · rw [made]
    exact Option.some_ne_none _

theorem krOdrct_settles (ok : d.board.Ok) (keeps : d.KeepsGroup o) :
    Settles d (d.krOdrct o) := by
  have okT : (d.setHostLow o.host).board.Ok := (setHostLow_move (g := Guards.all) trivial o.host).ok ok
  have made : ∀ (e : Daemon) lskt f fskt,
      d.krOdrct o = (e.made o.id (if o.dux then 2 else 1) f).drctMade o lskt fskt →
      e.output = d.output → Settles d (d.krOdrct o) := by
    intro e lskt f fskt isMade output
    rw [isMade]
    exact Or.inr ((Quiet.of_same output).trans (drctMade_quiet o lskt fskt))
  have refused : ∀ (e : Daemon) code, d.krOdrct o = e.kwRdy o.id code →
      e.board.map = d.board.map → e.nsLeft = d.nsLeft → e.nfLeft = d.nfLeft → e.files = d.files →
      Settles d (d.krOdrct o) := by
    intro e code isRdy map nsLeft nfLeft files
    rw [isRdy]
    exact (Unchanged.of_same map nsLeft nfLeft files).settles _ _
  rcases drctLskt_spec (d.setHostLow o.host) o with ⟨code, found⟩ | ⟨code, found⟩ |
    ⟨lskt, found, -⟩ | ⟨n, lskt, ⟨small, free⟩, found, -, rltv, zero, isInit, polarity⟩
  · have isRdy : d.krOdrct o = (d.setHostLow o.host).kwRdy o.id code := by
      unfold krOdrct
      simp only
      rw [found]
    exact refused _ code isRdy rfl rfl rfl rfl
  · have isRdy : d.krOdrct o = ({ d.setHostLow o.host with
        lasktn := 0, sktMap := (d.setHostLow o.host).board.map } : Daemon).kwRdy o.id code := by
      unfold krOdrct
      simp only
      rw [found]
    exact refused _ code isRdy rfl rfl rfl rfl
  · rcases krOdrct_ok okT found with ⟨-, code, isRdy⟩ | ⟨f, fskt, -, -, -, isMade⟩
    · exact refused _ code isRdy rfl rfl rfl rfl
    · exact made _ lskt f fskt isMade rfl
  · have okE : ({ d.setHostLow o.host with
        lasktn := n + 1, sktMap := Function.update d.board.map n false } : Daemon).board.Ok :=
      okT.aside _ _ _ _ _
    rcases krOdrct_ok okE found with ⟨isNone, -⟩ | ⟨f, fskt, -, -, -, isMade⟩
    · have notFull : ¬ Full d.board := fun full =>
        Bool.noConfusion (free.symm.trans (full n small))
      obtain ⟨host, files, sockets⟩ := keeps ⟨rltv, zero, isInit⟩ notFull
      exact absurd isNone (keepsGroup_opens ok found host files sockets rltv polarity)
    · exact made _ lskt f fskt isMade rfl

/-! ### Trips and runs -/

/-- A direct open of the kernel that takes a group is not refused afterwards. -/
def Kept (d : Daemon) (e : Event) : Prop :=
  match e.instr with
  | .userOpen o => o.drct = true → d.KeepsGroup o
  | _ => True

instance (o : KrOpen) : Decidable o.takes := inferInstanceAs (Decidable (_ ∧ _ ∧ _))

instance (b : Board) : Decidable (Full b) :=
  inferInstanceAs (Decidable (∀ n, n < sktMpsz → b.map n = false))

instance (d : Daemon) (o : KrOpen) : Decidable (d.KeepsGroup o) :=
  inferInstanceAs (Decidable (_ → _ → _))

instance (d : Daemon) : ∀ e : Event, Decidable (d.Kept e)
  | ⟨.userOpen _, _⟩ => inferInstanceAs (Decidable (_ → _))
  | ⟨.rcv .., _⟩ | ⟨.close .., _⟩ | ⟨.timo, _⟩ | ⟨.reset _, _⟩ | ⟨.log, _⟩ =>
    inferInstanceAs (Decidable True)

theorem keepsGroup_unnamed (keeps : d.KeepsGroup o) : (d.unnamed o).KeepsGroup o := by
  have board := unnamed_board (d := d) o
  have ncp : (d.unnamed o).ncp = d.ncp := congrArg Board.ncp board
  have nfLeft : (d.unnamed o).nfLeft = d.nfLeft := congrArg Board.nfLeft board
  have nsLeft : (d.unnamed o).nsLeft = d.nsLeft := congrArg Board.nsLeft board
  unfold KeepsGroup setHostLow
  rw [board, ncp, nfLeft, nsLeft]
  exact keeps

theorem unnamed_files (o : KrOpen) (f : FileNo) : (d.unnamed o).files f = d.files f ∨
    (d.files f).id = o.id ∧ (d.unnamed o).files f = { d.files f with id := 0 } := by
  unfold unnamed
  cases found : d.fById o.id with
  | none => exact Or.inl rfl
  | some h =>
    have named := of_decide_eq_true (List.find?_some
      (p := fun f => decide ((d.files f).state ≠ .null ∧ (d.files f).id = o.id)) found)
    by_cases here : f = h
    · subst here
      exact Or.inr ⟨named.2, setFile_self f _⟩
    · exact Or.inl (setFile_other here _)

theorem krOpen_settles (ok : d.board.Ok) (grouped : d.board.Grouped marked)
    (keeps : o.drct = true → d.KeepsGroup o) :
    Settles (d.unnamed o) (d.krOpen o) := by
  have board := unnamed_board (d := d) o
  have isOpen : d.krOpen o =
      if o.drct then (d.unnamed o).krOdrct o else (d.unnamed o).krOicp o := rfl
  rw [isOpen]
  split
  next drct => exact krOdrct_settles (board.symm ▸ ok) (keepsGroup_unnamed (keeps drct))
  next => exact krOicp_settles (board.symm ▸ ok) (board.symm ▸ grouped)

theorem finish_spec : Quiet d d.finish ∧ Unchanged d d.finish := by
  have sent : ∀ e : Daemon, Quiet d e ∧ Unchanged d e → ∀ p : Prop, [Decidable p] →
      Quiet d (if p then e.kwTimo else e) ∧ Unchanged d (if p then e.kwTimo else e) := by
    intro e both p _
    split
    · refine ⟨(both.1.write (?_ : Output.Fine .timo)).tail rfl,
        both.2.trans (.of_same rfl rfl rfl rfl)⟩
      exact trivial
    · exact both
  unfold finish
  simp only
  refine sent _ ?_ _
  split
  next => exact ⟨.of_same rfl, .of_same rfl rfl rfl rfl⟩
  next => exact ⟨.refl d, .of_same rfl rfl rfl rfl⟩

theorem trip_refused {clock : Int} (ok : d.board.Ok) (grouped : d.board.Grouped marked)
    (keeps : o.drct = true → d.KeepsGroup o) {written : List Output} {code : Nat}
    (output : (d.trip ⟨.userOpen o, clock⟩).output = d.output ++ written)
    (error : .redy id code ∈ written) (isError : code ≠ 0) :
    Unchanged ((d.read clock).unnamed o) (d.trip ⟨.userOpen o, clock⟩) := by
  have okR : (d.read clock).board.Ok := (read_move (g := Guards.all) clock).ok ok
  have groupedR : (d.read clock).board.Grouped marked :=
    grouped.same rfl (fun _ => Iff.rfl) fun _ _ => rfl
  have settles := krOpen_settles (d := d.read clock) (o := o) okR groupedR keeps
  have ends := finish_spec (d := (d.read clock).krOpen o)
  have isTrip : d.trip ⟨.userOpen o, clock⟩ = ((d.read clock).krOpen o).finish := rfl
  rcases settles with unchanged | quiet
  · exact unchanged.trans ends.2
  · have unnamedOutput : ((d.read clock).unnamed o).output = d.output := by
      unfold unnamed
      split <;> rfl
    obtain ⟨fineOnes, sameOutput, fine⟩ := quiet.trans ends.1
    rw [unnamedOutput, ← isTrip, output] at sameOutput
    have same := List.append_cancel_left sameOutput
    exact absurd (fine (.redy id code) (same ▸ error)) isError

/-- The opens that may take a group. -/
def Instr.asks : Instr → Prop
  | .userOpen o => o.drct = false ∨ o.takes
  | _ => False

/-- The files in use for which an open has been assigned a group. -/
def owns (s : Daemon × (FileNo → Prop)) (e : Event) : Daemon × (FileNo → Prop) :=
  (s.1.trip e, fun f => ((s.1.trip e).files f).state ≠ .null ∧
    (s.2 f ∨ (s.1.files f).state = .null ∧ e.instr.asks))

def owners (history : List Event) : FileNo → Prop :=
  (history.foldl owns (start, fun _ => False)).2

theorem kept_permits {e : Event} (ok : d.board.Ok) (grouped : d.board.Grouped marked)
    (kept : d.Kept e) (fresh : ∀ f, (d.files f).state = .null → marked f → e.instr.asks) :
    Permits (Guards.grouped marked) (d.read e.clock) e.instr where
  receives := fun _ _ _ => ⟨fun _ _ _ _ => trivial, fun _ _ => trivial⟩
  listens := fun _ _ _ _ _ _ => trivial
  leaks := by
    intro o isOpen drct takes isNone lskt found map
    have keeps : d.KeepsGroup o := by
      unfold Kept at kept
      rw [isOpen] at kept
      exact kept drct
    have keepsU : ((d.read e.clock).unnamed o).KeepsGroup o :=
      keepsGroup_unnamed (d := d.read e.clock) keeps
    generalize isU : (d.read e.clock).unnamed o = u at isNone found keepsU ⊢
    have okU : u.board.Ok := by
      rw [← isU, unnamed_board]
      exact (read_move (g := Guards.all) e.clock).ok ok
    rcases drctLskt_takes (u.setHostLow o.host) takes with
      failed | ⟨n, number, ⟨small, free⟩, assigned, -, polarity⟩
    · rw [failed] at found
      cases found
    · have notFull : ¬ Full u.board := fun full =>
        Bool.noConfusion (free.symm.trans (full n small))
      obtain ⟨host, files, sockets⟩ := keepsU takes notFull
      exact absurd isNone (keepsGroup_opens okU assigned host files sockets takes.1 polarity)
  shares := by
    intro o isOpen drct rltv f free isMarked
    rcases (isOpen ▸ fresh f free isMarked : (Instr.userOpen o).asks) with notDrct | takes
    · exact Bool.noConfusion (drct.symm.trans notDrct)
    · exact Bool.noConfusion (rltv.symm.trans takes.1)
  blocks := by
    intro o isOpen notDrct n h small free used base ncp map
    have group := (baseOf_blocks ⟨n, small⟩).2.2.2.2.2
    have clear := (grouped.taken n small).mpr ⟨h, used, base ▸ group⟩
    exact Bool.noConfusion (free.symm.trans clear)
  full := fun _ _ _ _ _ => trivial

theorem start_grouped (marked : FileNo → Prop) : start.board.Grouped marked := by
  have none : ∀ f n, ¬ start.board.Has f n := fun f n has => has.1 rfl
  refine ⟨fun n _ => ⟨fun clear => ?_, fun ⟨f, has⟩ => absurd has (none f n)⟩, fun f used =>
    absurd rfl used, fun f h n _ _ _ has => absurd has (none f n)⟩
  have isTrue : start.board.map n = true := rfl
  exact Bool.noConfusion (isTrue.symm.trans clear)

/-- What holds between two trips of a run that loses no group. -/
structure Holds (history : List Event) (d : Daemon) : Prop where
  ok : d.board.Ok
  grouped : d.board.Grouped (owners history)
  replayed : (history.foldl owns (start, fun _ => False)).1 = d
  used : ∀ f, owners history f → (d.files f).state ≠ .null

theorem owners_snoc {history : List Event} {d : Daemon} (e : Event)
    (replayed : (history.foldl owns (start, fun _ => False)).1 = d) :
    (history ++ [e]).foldl owns (start, fun _ => False) = owns (d, owners history) e := by
  rw [List.foldl_append, ← replayed]
  rfl

theorem run_holds {history : List Event} {d : Daemon}
    (run : Transition.Run (Transition.Guarded Trip Kept) start history d) : Holds history d := by
  refine run.invariant Holds ⟨start_ok, start_grouped _, rfl, fun f owner => False.elim owner⟩ ?_
  rintro history d e next held ⟨kept, -, rfl⟩
  have snoc := owners_snoc e held.replayed
  have after : owners (history ++ [e]) = (owns (d, owners history) e).2 := congrArg Prod.snd snoc
  have owner : ∀ {f n}, (owners history f ∨ (d.files f).state = .null ∧ e.instr.asks) →
      d.board.Has f n → owners history f := fun isMarked has =>
    isMarked.resolve_right fun fresh => has.1 fresh.1
  have marked : d.board.Grouped fun f =>
      owners history f ∨ (d.files f).state = .null ∧ e.instr.asks :=
    ⟨held.grouped.taken, held.grouped.aligned, fun f h n markedF markedH apart hasF hasH =>
      held.grouped.apart f h n (owner markedF hasF) (owner markedH hasH) apart hasF hasH⟩
  have permits := kept_permits held.ok marked kept fun f free isMarked =>
    (isMarked.resolve_left fun owned => held.used f owned free).2
  obtain ⟨ok, grouped⟩ := moves_keep
    (fun b next ok grouped move => move_grouped ok grouped move)
    (trip_moves held.ok (Guards.grouped_lax _) permits) held.ok marked
  refine ⟨ok, ?_, congrArg Prod.fst snoc, fun f isOwner => ?_⟩
  · refine ⟨grouped.taken, grouped.aligned, fun f h n ownerF ownerH => ?_⟩
    rw [after] at ownerF ownerH
    exact grouped.apart f h n ownerF.2 ownerH.2
  · rw [after] at isOwner
    exact isOwner.1

/-- Groups are neither shared nor lost in a run whose direct opens are not refused once they have
taken a group. Between any two trips, a bit of the map, as the next search sees it, is clear exactly
when a file in use has the group; two files in use for which a group was assigned have different
groups; and an open that then ends with an error leaves the map, the counts and the files as they
were, but for the id of an older file with the id of the open. -/
theorem groups_kept {history : List Event} {d : Daemon}
    (run : Transition.Run (Transition.Guarded Trip Kept) start history d) :
    (∀ n, n < sktMpsz → (d.board.map n = false ↔
      ∃ f, (d.files f).state ≠ .null ∧ groupOf (d.files f).sbase = some n)) ∧
    (∀ f h n, owners history f → owners history h → f ≠ h →
      groupOf (d.files f).sbase = some n → groupOf (d.files h).sbase ≠ some n) ∧
    ∀ (o : KrOpen) (clock : Int) (written : List Output) (id : BitVec 16) (code : Nat),
      d.Kept ⟨.userOpen o, clock⟩ →
      (d.trip ⟨.userOpen o, clock⟩).output = d.output ++ written → .redy id code ∈ written →
      code ≠ 0 →
      (d.trip ⟨.userOpen o, clock⟩).board.map = d.board.map ∧
      (d.trip ⟨.userOpen o, clock⟩).nsLeft = d.nsLeft ∧
      (d.trip ⟨.userOpen o, clock⟩).nfLeft = d.nfLeft ∧
      ∀ f, if (d.files f).state = .null then ((d.trip ⟨.userOpen o, clock⟩).files f).state = .null
        else (d.trip ⟨.userOpen o, clock⟩).files f = d.files f ∨
          (d.files f).id = o.id ∧
            (d.trip ⟨.userOpen o, clock⟩).files f = { d.files f with id := 0 } := by
  have held := run_holds run
  refine ⟨held.grouped.taken, fun f h n ownerF ownerH apart groupF groupH => ?_, ?_⟩
  · exact held.grouped.apart f h n ownerF ownerH apart ⟨held.used f ownerF, groupF⟩
      ⟨held.used h ownerH, groupH⟩
  · intro o clock written id code kept output error isError
    have unchanged := trip_refused held.ok held.grouped kept output error isError
    have board : ((d.read clock).unnamed o).board = (d.read clock).board := unnamed_board o
    have map : ((d.read clock).unnamed o).board.map = d.board.map := by
      rw [board]
      rfl
    refine ⟨unchanged.map.trans map, unchanged.nsLeft.trans (congrArg Board.nsLeft board),
      unchanged.nfLeft.trans (congrArg Board.nfLeft board), fun f => ?_⟩
    have state : (((d.read clock).unnamed o).files f).state = (d.files f).state :=
      congrArg (fun b : Board => (b.entries f).state) board
    split
    next free => exact (unchanged.free f).mpr (state.trans free)
    next used =>
      rw [unchanged.files f fun isNull => used (state.symm.trans isNull)]
      exact unnamed_files (d := d.read clock) o f

/-- An init with a new group to host 3, and one to no host. -/
def initOpen (host : BitVec 8) (id : BitVec 16) : Event :=
  ⟨.userOpen ⟨true, false, true, false, false, false, id, 0, 7, host, 0, 0, 0⟩, 0⟩

theorem groups_kept_one :
    Transition.Run (Transition.Guarded Trip Kept) start [initOpen 3 1]
      ([initOpen 3 1].foldl trip start) ∧
    ∀ n, n < sktMpsz →
      (([initOpen 3 1].foldl trip start).board.map n = false ↔
        ∃ f, (([initOpen 3 1].foldl trip start).files f).state ≠ .null ∧
          groupOf (([initOpen 3 1].foldl trip start).files f).sbase = some n) :=
  have run := run_meet (by decide +kernel)
  ⟨run, (groups_kept run).1⟩

/-- The group of an init to no host is lost: its bit is clear while no file is in use. -/
theorem group_lost :
    Transition.Run Trip start [initOpen 0 1] ([initOpen 0 1].foldl trip start) ∧
      0 ≤ ([initOpen 0 1].foldl trip start).lasktn ∧
      ([initOpen 0 1].foldl trip start).sktMap 0 = false ∧
      ∀ f, (([initOpen 0 1].foldl trip start).files f).state = .null :=
  ⟨run_events _, by decide +kernel⟩

end Daemon

end NetworkUnix.Ncpd
