/-
This file models the parser of host-host commands with its pointer and its count:
the scan of the buffer, the calls of the handlers, and the error that quotes what
cannot be parsed. It proves which commands are handled for every buffer and every
count, and that the assembly buffer of the error command is overrun in one case
alone: when an error command of the foreign host lacks its last byte.

What the handlers and the queue of outgoing commands do is left open: they act on
a state of any kind. A handler is given the code of its command and the place of
its first byte.
-/

import NetworkUnix.Ncpd.Daemon
import NetworkUnix.Lib.Commands
import NetworkUnix.Lib.Loop

namespace NetworkUnix.Ncpd.Decode

open Commands

/-! ### The parser -/

/-- The largest legal code. -/
def hhiRrp : Nat := 13

/-- The host-host commands: their codes and lengths. -/
def hostHost : Grammar (BitVec 8) where
  size op := if op.toNat > hhiRrp then none else some (Daemon.hhIlgth op.toNat)
  positive := by
    intro op n size
    split at size
    · exact absurd size.symm (Option.some_ne_none n)
    · rw [← Option.some_inj.mp size]
      unfold Daemon.hhIlgth
      split <;> decide

/-- The bytes that `hw_err` writes from the start of `hw_buf` on. -/
def hwErr (code : BitVec 8) (krBuf : Nat → BitVec 8) (byteP : Nat) (nBytes : Int) :
    List (BitVec 8) :=
  11 :: code :: ((List.range nBytes.toNat).map (fun k => krBuf (byteP + k)) ++
    List.replicate (10 - nBytes).toNat 0)

/-- The scan: the place of the current byte, the count of bytes that are not processed, and the
state that the handlers act on. -/
structure Scan (State : Type) where
  krP : Nat
  krBytes : Int
  daemon : State

section Routines

variable {State : Type} (hrProc : BitVec 8 → Nat → State → State)
variable (qupPro : List (BitVec 8) → State → State) (krBuf : Nat → BitVec 8)

/-- The error is built, and its first 12 bytes are queued for sending. -/
def sendErr (code : BitVec 8) (nBytes : Int) (s : Scan State) :
    State × Option (List (BitVec 8)) :=
  let written := hwErr code krBuf s.krP nBytes
  (qupPro (written.take 12) s.daemon, some written)

/-- One trip of the loop. -/
def trip (s : Scan State) : (Unit × Scan State) ⊕ (State × Option (List (BitVec 8))) :=
  if s.krBytes > 0 then
    let op := krBuf s.krP
    if op.toNat > hhiRrp then
      .inr (sendErr qupPro krBuf 1 (if s.krBytes < 10 then s.krBytes else 10) s)
    else
      let long := Daemon.hhIlgth op.toNat
      if s.krBytes - long < 0 then .inr (sendErr qupPro krBuf 2 (s.krBytes - long + long) s)
      else .inl ((), ⟨s.krP + long, s.krBytes - long, hrProc op s.krP s.daemon⟩)
  else .inr (s.daemon, none)

theorem hhIlgth_pos (op : Nat) : 0 < Daemon.hhIlgth op := by
  unfold Daemon.hhIlgth
  split <;> decide

/-- The loop over the commands: every further trip has fewer bytes to process. -/
def decoding : Loop (Scan State) Unit (State × Option (List (BitVec 8))) where
  body := trip hrProc qupPro krBuf
  join _ out := out
  measure s := s.krBytes.toNat
  lowers := by
    intro s item next again
    unfold trip at again
    split at again
    next more =>
      dsimp only at again
      split at again
      · exact absurd again Sum.inr_ne_inl
      split at again
      · exact absurd again Sum.inr_ne_inl
      obtain ⟨-, rfl⟩ := Prod.mk.inj (Sum.inl.inj again)
      have positive := hhIlgth_pos (krBuf s.krP).toNat
      dsimp only
      omega
    next => exact absurd again Sum.inr_ne_inl

/-- The parser: the state after it, and the bytes written to `hw_buf` if there was an error. -/
def hrDcode (krBytes : Int) (d : State) : State × Option (List (BitVec 8)) :=
  (decoding hrProc qupPro krBuf).run ⟨0, krBytes, d⟩

end Routines

/-! ### The bytes of the buffer -/

/-- The bytes from a place on. -/
def bytesFrom (krBuf : Nat → BitVec 8) (krP : Nat) (krBytes : Int) : List (BitVec 8) :=
  (List.range krBytes.toNat).map fun k => krBuf (krP + k)

variable {krBuf : Nat → BitVec 8} {krP : Nat} {krBytes : Int}

@[simp] theorem length_bytesFrom (krBuf : Nat → BitVec 8) (krP : Nat) (krBytes : Int) :
    (bytesFrom krBuf krP krBytes).length = krBytes.toNat := by
  rw [bytesFrom, List.length_map, List.length_range]

theorem bytesFrom_done (done : ¬ krBytes > 0) : bytesFrom krBuf krP krBytes = [] := by
  rw [bytesFrom, Int.toNat_of_nonpos (by omega), List.range_zero, List.map_nil]

theorem bytesFrom_more (krBuf : Nat → BitVec 8) (krP : Nat) (more : krBytes > 0) :
    bytesFrom krBuf krP krBytes = krBuf krP :: bytesFrom krBuf (krP + 1) (krBytes - 1) := by
  have size : krBytes.toNat = (krBytes - 1).toNat + 1 := by omega
  rw [bytesFrom, size, List.range_succ_eq_map, List.map_cons, List.map_map]
  refine congrArg (List.cons _) (List.map_congr_left fun k _ => ?_)
  rw [Function.comp_apply, Nat.succ_eq_add_one, Nat.add_comm k 1, Nat.add_assoc]

theorem take_bytesFrom (n : Nat) :
    (bytesFrom krBuf krP krBytes).take n =
      bytesFrom krBuf krP (if krBytes < n then krBytes else n) := by
  rw [bytesFrom, ← List.map_take, List.take_range, bytesFrom]
  congr 2
  split <;> omega

theorem drop_bytesFrom (krBuf : Nat → BitVec 8) (krP : Nat) (krBytes : Int) (n : Nat) :
    (bytesFrom krBuf krP krBytes).drop n = bytesFrom krBuf (krP + n) (krBytes - n) := by
  refine List.ext_getElem (by simp) fun k _ _ => ?_
  simp only [bytesFrom, List.getElem_drop, List.getElem_map, List.getElem_range, Nat.add_assoc]

/-! ### What the parser should do -/

section Meaning

variable {State : Type} (hrProc : BitVec 8 → Nat → State → State)

/-- The handlers of some commands in order, each called with the place of the first byte. -/
def handle : Nat → List (List (BitVec 8)) → State → State
  | _, [], d => d
  | krP, command :: rest, d =>
    handle (krP + command.length) rest (hrProc (command.headD 0) krP d)

/-- The code of the error: an illegal code, or parameters that are short. -/
def errCode (rest : List (BitVec 8)) : BitVec 8 :=
  if (rest.headD 0).toNat > hhiRrp then 1 else 2

/-- The error command: the first ten bytes of what cannot be parsed, padded with zeros. -/
def errText (rest : List (BitVec 8)) : List (BitVec 8) :=
  11 :: errCode rest :: (rest.take 10 ++ List.replicate (10 - rest.length) 0)

/-- The bytes that the parser quotes. -/
def quoted (rest : List (BitVec 8)) : List (BitVec 8) :=
  if (rest.headD 0).toNat > hhiRrp then rest.take 10 else rest

/-- The bytes written to `hw_buf`. -/
def written (rest : List (BitVec 8)) : List (BitVec 8) :=
  11 :: errCode rest :: (quoted rest ++ List.replicate (10 - (quoted rest).length) 0)

end Meaning

/-- What the parser leaves of a buffer that splits into these commands and this rest. -/
def outcome {State : Type} (hrProc : BitVec 8 → Nat → State → State)
    (qupPro : List (BitVec 8) → State → State) (krP : Nat) (commands : List (List (BitVec 8)))
    (rest : List (BitVec 8)) (d : State) : State × Option (List (BitVec 8)) :=
  if rest = [] then (handle hrProc krP commands d, none)
  else (qupPro (errText rest) (handle hrProc krP commands d), some (written rest))

theorem hwErr_eq (code : BitVec 8) {n : Int} (least : 0 ≤ n) : hwErr code krBuf krP n =
    11 :: code :: (bytesFrom krBuf krP n ++
      List.replicate (10 - (bytesFrom krBuf krP n).length) 0) := by
  have zeros : (10 - n).toNat = 10 - n.toNat := by omega
  rw [length_bytesFrom, hwErr, zeros]
  rfl

theorem take_written {rest : List (BitVec 8)} : (written rest).take 12 = errText rest := by
  have quotes (q : List (BitVec 8)) :
      (q ++ List.replicate (10 - q.length) 0).take 10 =
        q.take 10 ++ List.replicate (10 - q.length) 0 := by
    rw [List.take_append, List.take_of_length_le (i := 10 - q.length)]
    rw [List.length_replicate]
  unfold written errText quoted
  split
  · rw [List.take_succ_cons, List.take_succ_cons, quotes, List.take_take, Nat.min_self,
      List.length_take]
    congr 4
    omega
  · rw [List.take_succ_cons, List.take_succ_cons, quotes]

section Run

variable {State : Type} {hrProc : BitVec 8 → Nat → State → State}
variable {qupPro : List (BitVec 8) → State → State}

theorem sendErr_eq {rest : List (BitVec 8)} {s : Scan State} {n : Int} (least : 0 ≤ n)
    (quote : bytesFrom krBuf s.krP n = quoted rest) :
    sendErr qupPro krBuf (errCode rest) n s =
      (qupPro (errText rest) s.daemon, some (written rest)) := by
  have all : hwErr (errCode rest) krBuf s.krP n = written rest := by
    rw [hwErr_eq _ least, quote]
    rfl
  unfold sendErr
  dsimp only
  rw [all, take_written]

theorem trip_cases (hrProc : BitVec 8 → Nat → State → State)
    (qupPro : List (BitVec 8) → State → State) (krBuf : Nat → BitVec 8) (s : Scan State) :
    (bytesFrom krBuf s.krP s.krBytes = [] ∧ trip hrProc qupPro krBuf s = .inr (s.daemon, none)) ∨
    (∃ rest, bytesFrom krBuf s.krP s.krBytes = rest ∧ rest ≠ [] ∧
      (∀ command, Whole hostHost command → ¬ command <+: rest) ∧
      trip hrProc qupPro krBuf s =
        .inr (qupPro (errText rest) s.daemon, some (written rest))) ∨
    ∃ command next, Whole hostHost command ∧
      bytesFrom krBuf s.krP s.krBytes = command ++ bytesFrom krBuf next.krP next.krBytes ∧
      next.krP = s.krP + command.length ∧
      next.daemon = hrProc (command.headD 0) s.krP s.daemon ∧
      trip hrProc qupPro krBuf s = .inl ((), next) := by
  unfold trip
  split
  next more =>
    have bytes := bytesFrom_more krBuf s.krP more
    have first : (bytesFrom krBuf s.krP s.krBytes).headD 0 = krBuf s.krP := by rw [bytes]; rfl
    have size := length_bytesFrom krBuf s.krP s.krBytes
    dsimp only
    split
    next illegal =>
      refine .inr (.inl ⟨_, rfl, by rw [bytes]; exact List.cons_ne_nil _ _, ?_, ?_⟩)
      · rw [bytes]
        refine stuck_of_size fun n some => ?_
        rw [show hostHost.size (krBuf s.krP) = none from if_pos illegal] at some
        exact absurd some.symm (Option.some_ne_none n)
      · have code : errCode (bytesFrom krBuf s.krP s.krBytes) = 1 := by
          rw [errCode, first, if_pos illegal]
        rw [← code, sendErr_eq]
        · split <;> omega
        · rw [quoted, first, if_pos illegal, take_bytesFrom]
          rfl
    next legal =>
      have long : hostHost.size (krBuf s.krP) = some (Daemon.hhIlgth (krBuf s.krP).toNat) :=
        if_neg legal
      split
      next short =>
        refine .inr (.inl ⟨_, rfl, by rw [bytes]; exact List.cons_ne_nil _ _, ?_, ?_⟩)
        · rw [bytes] at size ⊢
          refine stuck_of_size fun n some => ?_
          rw [← Option.some_inj.mp (long.symm.trans some), size]
          omega
        · have code : errCode (bytesFrom krBuf s.krP s.krBytes) = 2 := by
            rw [errCode, first, if_neg legal]
          rw [Int.sub_add_cancel, ← code, sendErr_eq]
          · omega
          · rw [quoted, first, if_neg legal]
      next enough =>
        have fits : Daemon.hhIlgth (krBuf s.krP).toNat ≤
            (bytesFrom krBuf s.krP s.krBytes).length := by
          rw [size]
          omega
        have drops := drop_bytesFrom krBuf s.krP s.krBytes
          (Daemon.hhIlgth (krBuf s.krP).toNat)
        refine .inr (.inr ⟨(bytesFrom krBuf s.krP s.krBytes).take
          (Daemon.hhIlgth (krBuf s.krP).toNat), _, ?_, ?_, ?_, ?_, rfl⟩)
        · rw [bytes] at fits ⊢
          exact whole_take long fits
        · rw [← drops, List.take_append_drop]
        · rw [List.length_take_of_le fits]
        · have positive := hhIlgth_pos (krBuf s.krP).toNat
          obtain ⟨m, isSucc⟩ := Nat.exists_eq_add_of_lt positive
          rw [isSucc, bytes, Nat.zero_add, List.take_succ_cons]
          rfl
  next none => exact .inl ⟨bytesFrom_done none, rfl⟩

theorem run_eq (s : Scan State) : ∀ (commands : List (List (BitVec 8))) (rest : List (BitVec 8)),
    Split hostHost (bytesFrom krBuf s.krP s.krBytes) commands rest →
    (decoding hrProc qupPro krBuf).run s =
      outcome hrProc qupPro s.krP commands rest s.daemon := by
  refine Loop.run_induct (fun s out => ∀ (commands : List (List (BitVec 8)))
    (rest : List (BitVec 8)), Split hostHost (bytesFrom krBuf s.krP s.krBytes) commands rest →
      out = outcome hrProc qupPro s.krP commands rest s.daemon) ?_ ?_ s
  · intro s out done commands rest split
    have ends : trip hrProc qupPro krBuf s = .inr out := done
    obtain ⟨empty, at'⟩ | ⟨left, isRest, more, stuck, at'⟩ | ⟨_, _, -, -, -, -, at'⟩ :=
      trip_cases hrProc qupPro krBuf s
    · obtain ⟨rfl, rfl⟩ := split.unique (empty ▸ split_nil)
      rw [Sum.inr.inj (ends.symm.trans at'), outcome, if_pos empty]
      rfl
    · subst isRest
      obtain ⟨rfl, rfl⟩ := split.unique (split_stuck stuck)
      rw [Sum.inr.inj (ends.symm.trans at'), outcome, if_neg more]
      rfl
    · exact absurd (ends.symm.trans at') Sum.inr_ne_inl
  · intro s item next again inductionHypothesis commands rest split
    have goes : trip hrProc qupPro krBuf s = .inl (item, next) := again
    obtain ⟨-, at'⟩ | ⟨_, -, -, -, at'⟩ | ⟨command, later, whole, joined, place, state, at'⟩ :=
      trip_cases hrProc qupPro krBuf s
    · exact absurd (at'.symm.trans goes) Sum.inr_ne_inl
    · exact absurd (at'.symm.trans goes) Sum.inr_ne_inl
    · obtain ⟨-, rfl⟩ := Prod.mk.inj (Sum.inl.inj (goes.symm.trans at'))
      obtain ⟨behind, left, splits⟩ := exists_split hostHost (bytesFrom krBuf next.krP next.krBytes)
      obtain ⟨rfl, rfl⟩ := split.unique (joined ▸ splits.cons whole)
      show (decoding hrProc qupPro krBuf).run next = _
      rw [inductionHypothesis behind rest splits, place, state]
      rfl

end Run

/-! ### When the assembly buffer is long enough -/

/-- The parser handles exactly the whole commands at the start of the bytes received, in order and
each at its place. If anything follows, one error is sent that quotes the first ten bytes of it,
padded with zeros, and no byte is written beyond the assembly buffer. -/
def Decodes (krBuf : Nat → BitVec 8) (krBytes : Int) : Prop :=
  ∃ commands rest, Split hostHost (bytesFrom krBuf 0 krBytes) commands rest ∧
    ∀ (State : Type) (hrProc : BitVec 8 → Nat → State → State)
      (qupPro : List (BitVec 8) → State → State) (d : State),
      (hrDcode hrProc qupPro krBuf krBytes d).1 =
          (if rest = [] then handle hrProc 0 commands d
           else qupPro (errText rest) (handle hrProc 0 commands d)) ∧
        ∀ text, (hrDcode hrProc qupPro krBuf krBytes d).2 = some text → text.length ≤ 12

/-- An error command that lacks its last byte. -/
def ErrCut (rest : List (BitVec 8)) : Prop := rest.head? = some 11 ∧ rest.length = 11

theorem hhIlgth_le (op : Nat) : Daemon.hhIlgth op ≤ 12 ∧ (10 < Daemon.hhIlgth op → op = 11) := by
  unfold Daemon.hhIlgth
  split <;> simp

theorem length_written {rest : List (BitVec 8)} (more : rest ≠ [])
    (stuck : ∀ command, Whole hostHost command → ¬ command <+: rest) :
    (written rest).length ≤ 12 ↔ ¬ ErrCut rest := by
  obtain ⟨op, tail, rfl⟩ := List.exists_cons_of_ne_nil more
  have size : (written (op :: tail)).length =
      2 + max 10 (quoted (op :: tail)).length := by
    simp only [written, List.length_cons, List.length_append, List.length_replicate]
    omega
  rw [size]
  unfold quoted ErrCut
  rw [List.headD_cons, List.head?_cons, Option.some_inj]
  split
  next illegal =>
    have least := List.length_take_le 10 (op :: tail)
    constructor
    · rintro - ⟨rfl, -⟩
      exact absurd illegal (by decide)
    · omega
  next legal =>
    have long : hostHost.size op = some (Daemon.hhIlgth op.toNat) := if_neg legal
    have short : (op :: tail).length < Daemon.hhIlgth op.toNat := by
      refine Nat.lt_of_not_le fun enough => ?_
      exact stuck _ (whole_take long enough) (List.take_prefix _ _)
    obtain ⟨most, only⟩ := hhIlgth_le op.toNat
    constructor
    · rintro fits ⟨-, eleven⟩
      omega
    · intro notCut
      by_contra more
      exact notCut ⟨BitVec.eq_of_toNat_eq (only (by omega)), by omega⟩

theorem Decodes.uncut (decodes : Decodes krBuf krBytes) {commands : List (List (BitVec 8))}
    {rest : List (BitVec 8)} (split : Split hostHost (bytesFrom krBuf 0 krBytes) commands rest) :
    ¬ ErrCut rest := by
  obtain ⟨others, left, another, right⟩ := decodes
  obtain ⟨rfl, rfl⟩ := split.unique another
  intro cut
  have more : rest ≠ [] := by
    rintro rfl
    exact absurd cut.1.symm (Option.some_ne_none _)
  obtain ⟨-, fits⟩ := right Unit (fun _ _ d => d) (fun _ d => d) ()
  refine (length_written more split.stuck).mp (fits _ ?_) cut
  rw [hrDcode, run_eq _ commands rest split, outcome, if_neg more]

/-- The parser is right exactly when what follows the whole commands is not an error command that
lacks its last byte. -/
theorem hr_dcode_exact_iff (krBuf : Nat → BitVec 8) (krBytes : Int) :
    Decodes krBuf krBytes ↔
      ∀ commands rest, Split hostHost (bytesFrom krBuf 0 krBytes) commands rest →
        ¬ ErrCut rest := by
  refine ⟨fun decodes commands rest split => decodes.uncut split, fun uncut => ?_⟩
  obtain ⟨commands, rest, split⟩ := exists_split hostHost (bytesFrom krBuf 0 krBytes)
  refine ⟨commands, rest, split, fun State hrProc qupPro d => ?_⟩
  rw [hrDcode, run_eq _ commands rest split, outcome]
  split
  next done => exact ⟨rfl, fun text none => absurd none.symm (Option.some_ne_none text)⟩
  next more =>
    refine ⟨rfl, fun text some => ?_⟩
    rw [← Option.some_inj.mp some]
    exact (length_written more split.stuck).mpr (uncut commands rest split)

/-- An error command of eleven bytes. -/
theorem hr_dcode_overruns : ¬ Decodes (fun k => if k = 0 then 11 else 0) 11 := by
  intro decodes
  have bytes := bytesFrom_more (fun k => if k = 0 then (11 : BitVec 8) else 0) 0
    (show (11 : Int) > 0 by decide)
  refine decodes.uncut (split_stuck ?_) ⟨by rw [bytes]; rfl, length_bytesFrom _ _ _⟩
  rw [bytes]
  refine stuck_of_size fun n size => ?_
  obtain rfl : 12 = n := Option.some_inj.mp size
  rw [List.length_cons, length_bytesFrom]
  decide

/-! ### The parser of the daemon -/

/-- The queue of the daemon takes the error command. -/
def qupErr (text : List (BitVec 8)) (d : Daemon) : Daemon :=
  d.qupPro ⟨11 :: (text.drop 1).take 11, List.cons_ne_nil _ _, by
    rw [List.length_cons, List.length_take]
    omega⟩

variable {data : List (BitVec 8)}

end NetworkUnix.Ncpd.Decode
