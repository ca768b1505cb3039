/-
This file proves that the copy from the send buffer gives the bytes between two sequence
numbers when there are buffers to copy into: the search for the first buffer, the part of
it that is copied first, and the loop that packs the buffers after it into new ones.
-/

import NetworkUnix.Bbnnet.Tcp.User
import Mathlib.Data.Nat.Count

namespace NetworkUnix.Bbnnet

open Memory

variable {env : Env}

theorem Mbuf.Fits.mLen_le {m : Mbuf} (fits : m.Fits) : m.mLen ≤ mlen := by
  have low : 10 ≤ m.mOff := fits.1
  have high : m.mOff + m.mLen ≤ 128 := fits.2
  show m.mLen ≤ 118
  omega

/-! ### The loop -/

/-- A buffer with bytes of another one copied behind its own. -/
def copyInto (n m : Mbuf) (len : Nat) : Mbuf :=
  { n with
    mLen := n.mLen + len
    mDat := Memory.copy m.mDat m.mOff n.mDat (mhead + n.mLen) len }

theorem data_copyInto {n m : Mbuf} {len : Nat} (front : n.mOff = mhead) (inside : len ≤ m.mLen) :
    (copyInto n m len).data = n.data ++ m.data.take len := by
  unfold copyInto Mbuf.data
  dsimp only
  rw [window_append, front, window_copy_outside _ _ _ _ _ _ _ (.inl (Nat.le_refl _)),
    window_copy_self, take_window _ inside]

/-- A new buffer with the bytes of another one from some place on. -/
def partOf (m : Mbuf) (adj : Nat) : Mbuf :=
  { Mbuf.fresh with
    mOff := mhead
    mLen := m.mLen - adj
    mDat := Memory.copy m.mDat (m.mOff + adj) Mbuf.fresh.mDat mhead (m.mLen - adj) }

theorem data_partOf (m : Mbuf) (adj : Nat) : (partOf m adj).data = m.data.drop adj := by
  unfold partOf Mbuf.data
  dsimp only
  rw [window_copy_self, drop_window]

theorem chainData_cutBack {done : Chain} {n : Mbuf} {want count : Nat}
    (balance : want + count = chainLen done + n.mLen) (least : chainLen done ≤ want) :
    chainData (done ++ [n.cutBack count]) = (chainData done ++ n.data).take want := by
  have whole : (chainData done).take want = chainData done :=
    List.take_of_length_le (by rw [length_chainData]; exact least)
  rw [chainData_append, chainData_cons, chainData_nil, List.append_nil, Mbuf.data_cutBack,
    List.take_append, length_chainData, whole]
  congr 2
  omega

/-! ### How a copy ends -/

/-- How a copy ends: before it has a buffer, with the chain that it returns, or with the chain that
it gives to `m_freem`. -/
inductive Copied
  | refused
  | returned (top : Chain)
  | freed (top : Chain)

/-- What `snd_copy` returns. -/
def Copied.chain : Copied → Option Chain
  | .returned top => some top
  | _ => none

/-- The loop of `snd_copy` with the chain that it leaves. -/
def sndCopyEnd (env : Env) (fin : Seq) : Chain → Chain → Mbuf → Seq → Nat → Nat × Copied
  | src, done, n, off, clock =>
    if seqGt fin off then
      match src with
      | [] => (clock, .freed (done ++ [n]))
      | m :: rest =>
        let adj := mlen - n.mLen
        let len := if m.mLen ≤ adj then m.mLen else adj
        let off' := off + BitVec.ofNat 32 len
        if seqGt fin off' ∧ adj < m.mLen then
          if env.mGet clock then
            sndCopyEnd env fin rest (done ++ [copyInto n m len]) (partOf m adj)
              (off' + BitVec.ofNat 32 (m.mLen - adj)) (clock + 1)
          else (clock + 1, .freed (done ++ [copyInto n m len]))
        else sndCopyEnd env fin rest done (copyInto n m len) off' clock
    else (clock, .returned (done ++ [n.cutBack (off - fin).toNat]))

theorem sndCopyLoop_eq (fin : Seq) (src done : Chain) (n : Mbuf) (off : Seq) (clock : Nat) :
    sndCopyLoop env fin src done n off clock =
      ((sndCopyEnd env fin src done n off clock).1,
        (sndCopyEnd env fin src done n off clock).2.chain) := by
  induction src generalizing done n off clock with
  | nil =>
    unfold sndCopyLoop sndCopyEnd
    split <;> rfl
  | cons m rest inductionHypothesis =>
    unfold sndCopyLoop sndCopyEnd
    dsimp only
    generalize (if m.mLen ≤ mlen - n.mLen then m.mLen else mlen - n.mLen) = len
    split
    · split
      · split
        · exact inductionHypothesis _ _ _ _
        · rfl
      · exact inductionHypothesis _ _ _ _
    · rfl

/-- The buffers that `m_get` has given before a time. -/
def got (env : Env) (clock : Nat) : Nat := Nat.count (fun t => env.mGet t = true) clock

theorem got_succ (clock : Nat) :
    got env (clock + 1) = got env clock + if env.mGet clock = true then 1 else 0 :=
  Nat.count_succ ..

/-- A copy that had `had` buffers at `clock` ends as it should: it returns the bytes in buffers with
room for them, or a buffer was not to be had; and what it returns or frees is all it got. -/
def Ends (env : Env) (bytes : List Byte) (had clock : Nat) : Nat × Copied → Prop
  | (later, .returned top) => chainData top = bytes ∧ (∀ m ∈ top, m.Fits) ∧
      top.length + got env clock = had + got env later
  | (later, .freed top) => (∃ t, clock ≤ t ∧ t < later ∧ env.mGet t = false) ∧
      top.length + got env clock = had + got env later
  | (later, .refused) => (∃ t, clock ≤ t ∧ t < later ∧ env.mGet t = false) ∧
      got env clock = had + got env later

theorem Ends.of_next {bytes : List Byte} {had clock : Nat} {result : Nat × Copied}
    (ends : Ends env bytes (had + 1) (clock + 1) result) (given : env.mGet clock = true) :
    Ends env bytes had clock result := by
  have counted : got env (clock + 1) = _ := got_succ clock
  rw [if_pos given] at counted
  obtain ⟨later, copied⟩ := result
  cases copied with
  | returned top => exact ⟨ends.1, ends.2.1, by have := ends.2.2; omega⟩
  | freed top =>
    obtain ⟨⟨t, low, high, failed⟩, count⟩ := ends
    exact ⟨⟨t, by omega, high, failed⟩, by omega⟩
  | refused =>
    obtain ⟨⟨t, low, high, failed⟩, count⟩ := ends
    exact ⟨⟨t, by omega, high, failed⟩, by omega⟩

section Loop

variable (base : Seq) {stop want p clock : Nat} {done : Chain} {n m : Mbuf} {rest src : Chain}

theorem sndCopyEnd_done (low : stop ≤ p) (high : p < 2 ^ 31)
    (fits : ∀ m ∈ done ++ [n], m.Fits)
    (balance : want + p = chainLen done + n.mLen + stop) (least : chainLen done ≤ want) :
    Ends env ((chainData done ++ n.data ++ chainData src).take want) (done.length + 1) clock
      (sndCopyEnd env (Serial.point base stop) src done n (Serial.point base p) clock) := by
  have ended : ¬ seqGt (Serial.point base stop) (Serial.point base p) := by
    rw [seqGt_point base (by omega) (by omega)]
    omega
  have distance : (Serial.point base (p : Int) - Serial.point base stop).toNat = p - stop := by
    rw [Serial.point_sub_point, ← Int.ofNat_sub low, BitVec.ofInt_natCast, BitVec.toNat_ofNat]
    omega
  unfold sndCopyEnd
  rw [if_neg ended, distance]
  have within : want ≤ (chainData done ++ n.data).length := by
    rw [List.length_append, length_chainData, Mbuf.length_data]
    omega
  refine ⟨?_, fun m member => ?_, by rw [List.length_append]; rfl⟩
  · rw [chainData_cutBack (by omega) least, List.take_append_of_le_length within]
  · rcases List.mem_append.mp member with before | last
    · exact fits m (List.mem_append_left _ before)
    · obtain ⟨above, below⟩ := fits n (List.mem_append_right _ (List.mem_singleton_self n))
      rw [List.mem_singleton.mp last]
      exact ⟨above, Nat.le_trans (Nat.add_le_add_left (Nat.sub_le _ _) _) below⟩

theorem sndCopyEnd_cons (more : p < stop) (low : stop < 2 ^ 31) (high : p + m.mLen < 2 ^ 31) :
    sndCopyEnd env (Serial.point base stop) (m :: rest) done n (Serial.point base p) clock =
      if m.mLen ≤ mlen - n.mLen then
        sndCopyEnd env (Serial.point base stop) rest done (copyInto n m m.mLen)
          (Serial.point base (p + m.mLen : Nat)) clock
      else if p + (mlen - n.mLen) < stop then
        if env.mGet clock then
          sndCopyEnd env (Serial.point base stop) rest (done ++ [copyInto n m (mlen - n.mLen)])
            (partOf m (mlen - n.mLen)) (Serial.point base (p + m.mLen : Nat)) (clock + 1)
        else (clock + 1, .freed (done ++ [copyInto n m (mlen - n.mLen)]))
      else
        sndCopyEnd env (Serial.point base stop) rest done (copyInto n m (mlen - n.mLen))
          (Serial.point base (p + (mlen - n.mLen) : Nat)) clock := by
  have going : seqGt (Serial.point base stop) (Serial.point base p) := by
    rw [seqGt_point base (by omega) (by omega)]
    omega
  have further (len : Nat) : Serial.point base (p : Int) + BitVec.ofNat 32 len =
      Serial.point base (p + len : Nat) := Serial.point_add base p len
  conv_lhs => unfold sndCopyEnd
  rw [if_pos going]
  dsimp only
  by_cases whole : m.mLen ≤ mlen - n.mLen
  · rw [if_pos whole, if_neg (fun both => by omega), if_pos whole, further]
  · rw [if_neg whole, if_neg whole, further]
    have beyond : seqGt (Serial.point base stop) (Serial.point base (p + (mlen - n.mLen) : Nat)) ↔
        p + (mlen - n.mLen) < stop := by
      rw [seqGt_point base (by omega) (by omega)]
      omega
    by_cases enough : p + (mlen - n.mLen) < stop
    · have sum : p + (mlen - n.mLen) + (m.mLen - (mlen - n.mLen)) = p + m.mLen := by omega
      rw [if_pos ⟨beyond.mpr enough, by omega⟩, if_pos enough, Serial.point_add, ← Nat.cast_add,
        sum]
    · rw [if_neg (fun both => enough (beyond.mp both.1)), if_neg enough]

theorem fits_of_front (front : n.mOff = mhead) (room : n.mLen ≤ mlen) : n.Fits := by
  unfold Mbuf.Fits
  rw [front]
  exact ⟨Nat.le_refl _, Nat.add_le_add_left room mhead⟩

theorem fits_snoc (copied : ∀ m ∈ done, m.Fits) (fitsLast : n.Fits) : ∀ m ∈ done ++ [n], m.Fits :=
  List.forall_mem_append.mpr ⟨copied, List.forall_mem_singleton.mpr fitsLast⟩

/-- The loop gives the bytes that were copied before it and as many of the source as are wanted,
or fewer than were copied, unless it gets no buffer. `p` is the position copied up to, and `stop`
the one to copy up to. -/
theorem sndCopyEnd_spec (low : stop < 2 ^ 31) (fits : ∀ m ∈ src, m.Fits)
    (copied : ∀ m ∈ done, m.Fits) (front : n.mOff = mhead) (room : n.mLen ≤ mlen)
    (high : p + chainLen src < 2 ^ 31) (balance : want + p = chainLen done + n.mLen + stop)
    (least : chainLen done ≤ want) (most : want ≤ chainLen done + n.mLen + chainLen src) :
    Ends env ((chainData done ++ n.data ++ chainData src).take want) (done.length + 1) clock
      (sndCopyEnd env (Serial.point base stop) src done n (Serial.point base p) clock) := by
  induction src generalizing done n p clock with
  | nil =>
    rw [chainLen_nil] at most high
    have fitsDone := fits_snoc copied (fits_of_front front room)
    exact sndCopyEnd_done base (by omega) high fitsDone balance least
  | cons m rest inductionHypothesis =>
    obtain ⟨fitsHere, fitsRest⟩ := List.forall_mem_cons.mp fits
    rw [chainLen_cons] at most high
    rcases Nat.lt_or_ge p stop with more | enough
    swap
    · have fitsDone := fits_snoc copied (fits_of_front front room)
      exact sndCopyEnd_done base enough (by omega) fitsDone balance least
    rw [sndCopyEnd_cons base more low (by omega), chainData_cons]
    split
    next whole =>
      have ends := @inductionHypothesis (p + m.mLen) clock done (copyInto n m m.mLen) fitsRest
        copied front (show n.mLen + m.mLen ≤ mlen by omega) (by omega)
        (show want + (p + m.mLen) = chainLen done + (n.mLen + m.mLen) + stop by omega) least
        (show want ≤ chainLen done + (n.mLen + m.mLen) + chainLen rest by omega)
      rw [data_copyInto front (Nat.le_refl _),
        List.take_of_length_le (Nat.le_of_eq m.length_data)] at ends
      simpa only [List.append_assoc] using ends
    next part =>
      have small := fitsHere.mLen_le
      have full : (copyInto n m (mlen - n.mLen)).mLen = mlen := Nat.add_sub_of_le room
      have parts : chainData done ++ n.data ++ (m.data ++ chainData rest) =
          (chainData done ++ (copyInto n m (mlen - n.mLen)).data) ++
            (m.data.drop (mlen - n.mLen) ++ chainData rest) := by
        rw [data_copyInto front (by omega)]
        simp only [List.append_assoc]
        rw [← List.append_assoc (m.data.take _), List.take_append_drop]
      rw [parts]
      split
      next =>
        have length : chainLen (done ++ [copyInto n m (mlen - n.mLen)]) = chainLen done + mlen := by
          rw [chainLen_append, chainLen_cons, chainLen_nil, full, Nat.add_zero]
        split
        next given =>
          have ends := @inductionHypothesis (p + m.mLen) (clock + 1)
            (done ++ [copyInto n m (mlen - n.mLen)]) (partOf m (mlen - n.mLen)) fitsRest
            (fits_snoc copied (fits_of_front front (Nat.le_of_eq full))) rfl
            (show m.mLen - (mlen - n.mLen) ≤ mlen by omega) (by omega)
            (show want + (p + m.mLen) = _ + (m.mLen - (mlen - n.mLen)) + stop by
              rw [length]; omega) (by rw [length]; omega)
            (show want ≤ _ + (m.mLen - (mlen - n.mLen)) + chainLen rest by rw [length]; omega)
          rw [chainData_append, chainData_cons, chainData_nil, List.append_nil, data_partOf,
            List.length_append, List.append_assoc] at ends
          exact ends.of_next given
        next refused =>
          refine ⟨⟨clock, Nat.le_refl _, Nat.lt_succ_self _, Bool.eq_false_iff.mpr refused⟩, ?_⟩
          rw [got_succ, if_neg refused, List.length_append]
          rfl
      next =>
        have ends := @inductionHypothesis (p + (mlen - n.mLen)) clock done
          (copyInto n m (mlen - n.mLen)) fitsRest copied front (Nat.le_of_eq full) (by omega)
          (by rw [full]; omega) least (by rw [full]; omega)
        have within : want ≤ (chainData done ++ (copyInto n m (mlen - n.mLen)).data).length := by
          rw [List.length_append, length_chainData, Mbuf.length_data, full]
          omega
        rwa [List.take_append_of_le_length within] at ends ⊢

end Loop

/-! ### The copy -/

theorem sndCopyFind_spec (base : Seq) {k : Nat} {src : Chain} :
    ∀ {off : Nat}, off ≤ k → k < off + chainLen src → off + chainLen src < 2 ^ 31 →
      ∃ pre m rest, src = pre ++ m :: rest ∧
        sndCopyFind (Serial.point base k) (Serial.point base off) src =
          (Serial.point base (off + chainLen pre : Nat), m :: rest) ∧
        off + chainLen pre ≤ k ∧ k < off + chainLen pre + m.mLen := by
  induction src with
  | nil =>
    intro off low inside high
    rw [chainLen_nil] at inside
    omega
  | cons m rest inductionHypothesis =>
    intro off low inside high
    rw [chainLen_cons] at inside high
    have reached : seqGeq (Serial.point base k) (Serial.point base (off + m.mLen : Nat)) ↔
        off + m.mLen ≤ k := by
      rw [seqGeq_point base (by omega) (by omega)]
      omega
    have further : Serial.point base (off : Int) + BitVec.ofNat 32 m.mLen =
        Serial.point base (off + m.mLen : Nat) := Serial.point_add base off m.mLen
    rw [sndCopyFind, further]
    rcases Nat.lt_or_ge k (off + m.mLen) with here | beyond
    · rw [if_neg (fun passed => absurd (reached.mp passed) (Nat.not_le.mpr here))]
      exact ⟨[], m, rest, rfl, rfl, low, here⟩
    · rw [if_pos (reached.mpr beyond)]
      obtain ⟨pre, n, post, rfl, found, before, within⟩ :=
        @inductionHypothesis (off + m.mLen) beyond (by omega) (by omega)
      refine ⟨m :: pre, n, post, rfl, ?_, ?_, ?_⟩
      · rw [found, chainLen_cons, Nat.add_assoc]
      · rw [chainLen_cons]
        omega
      · rw [chainLen_cons]
        omega

/-- `snd_copy` with the chain that it leaves. -/
def sndCopyEnds (env : Env) (c : Conn) (start fin : Seq) : Nat × Copied :=
  if seqGeq start fin then (c.clock, .refused)
  else
    match sndCopyFind start (sndBase c.tcb) c.ucb.ucSbuf with
    | (_, []) => (c.clock, .refused)
    | (off, m :: rest) =>
      if env.mGet c.clock then
        let adj := Serial.diff start off
        let part := (((m.mLen : Int) - adj) % 256).toNat
        let n := { Mbuf.fresh with
          mOff := mhead
          mLen := part
          mDat := Memory.copy m.mDat ((m.mOff : Int) + adj).toNat Mbuf.fresh.mDat mhead part }
        sndCopyEnd env fin rest [] n (start + BitVec.ofNat 32 part) (c.clock + 1)
      else (c.clock + 1, .refused)

theorem sndCopy_eq (env : Env) (c : Conn) (start fin : Seq) :
    sndCopy env c start fin = ({ c with clock := (sndCopyEnds env c start fin).1 },
      (sndCopyEnds env c start fin).2.chain) := by
  unfold sndCopy sndCopyEnds
  dsimp only
  split
  · rfl
  · rcases sndCopyFind start (sndBase c.tcb) c.ucb.ucSbuf with ⟨off, - | ⟨m, rest⟩⟩
    · rfl
    · dsimp only
      split
      · rw [sndCopyLoop_eq]
      · rfl

theorem sndCopyEnds_spec {c : Conn} {k stop : Nat} (fits : ∀ m ∈ c.ucb.ucSbuf, m.Fits)
    (some_wanted : k < stop) (inside : stop ≤ chainLen c.ucb.ucSbuf)
    (small : chainLen c.ucb.ucSbuf < 2 ^ 31) :
    Ends env (((chainData c.ucb.ucSbuf).drop k).take (stop - k)) 0 c.clock
      (sndCopyEnds env c (Serial.point (sndBase c.tcb) k) (Serial.point (sndBase c.tcb) stop)) := by
  generalize isBase : sndBase c.tcb = base
  have positive : ¬ seqGeq (Serial.point base k) (Serial.point base stop) := by
    rw [seqGeq_point _ (by omega) (by omega)]
    omega
  have origin : sndBase c.tcb = Serial.point base (0 : Nat) :=
    isBase.trans (Serial.point_zero _).symm
  obtain ⟨pre, m, rest, parts, found, before, within⟩ :=
    @sndCopyFind_spec base k c.ucb.ucSbuf 0 (Nat.zero_le k) (by omega) (by omega)
  rw [Nat.zero_add] at found before within
  have fitsHere := fits m (by rw [parts]; simp)
  have length : chainLen c.ucb.ucSbuf = chainLen pre + (m.mLen + chainLen rest) := by
    rw [parts, chainLen_append, chainLen_cons]
  have adj : Serial.diff (Serial.point base k) (Serial.point base (chainLen pre : Nat)) =
      (k - chainLen pre : Nat) := by
    rw [diff_point _ (by omega) (by omega)]
    omega
  have smallPart : m.mLen ≤ 118 := fitsHere.mLen_le
  have part : (((m.mLen : Int) - (k - chainLen pre : Nat)) % 256).toNat =
      m.mLen - (k - chainLen pre) := by
    omega
  have place : ((m.mOff : Int) + (k - chainLen pre : Nat)).toNat =
      m.mOff + (k - chainLen pre) := by
    omega
  unfold sndCopyEnds
  rw [if_neg positive, origin, found]
  dsimp only
  split
  swap
  next refused =>
    refine ⟨⟨c.clock, Nat.le_refl _, Nat.lt_succ_self _, Bool.eq_false_iff.mpr refused⟩, ?_⟩
    rw [got_succ, if_neg refused, Nat.zero_add]
    rfl
  next given =>
    rw [adj, part, place, Serial.point_add, ← Nat.cast_add]
    have ends := @sndCopyEnd_spec env base stop (stop - k)
      (k + (m.mLen - (k - chainLen pre))) (c.clock + 1) [] (partOf m (k - chainLen pre)) rest
      (by omega) (fun n member => fits n (by rw [parts]; simp [member])) (by simp) rfl
      (show m.mLen - (k - chainLen pre) ≤ 118 by omega) (by omega)
      (show stop - k + _ = 0 + (m.mLen - (k - chainLen pre)) + stop by omega) (Nat.zero_le _)
      (show stop - k ≤ 0 + (m.mLen - (k - chainLen pre)) + chainLen rest by omega)
    have front : (chainData pre).drop k = [] :=
      List.drop_eq_nil_of_le (by rw [length_chainData]; exact before)
    have short : k - chainLen pre - m.mLen = 0 := by omega
    rw [parts, chainData_append, chainData_cons, List.drop_append, front, length_chainData,
      List.drop_append, Mbuf.length_data, short]
    rw [data_partOf] at ends
    exact ends.of_next given

theorem sndCopy_spec (buffers : ∀ t, env.mGet t = true) {c : Conn} {k stop : Nat}
    (acked : c.tcb.synAcked = true) (fits : ∀ m ∈ c.ucb.ucSbuf, m.Fits) (some_wanted : k < stop)
    (inside : stop ≤ chainLen c.ucb.ucSbuf) (small : chainLen c.ucb.ucSbuf < 2 ^ 31) :
    ∃ out, (sndCopy env c (Serial.point c.tcb.sndUna k) (Serial.point c.tcb.sndUna stop)).2 =
        some out ∧ chainData out = ((chainData c.ucb.ucSbuf).drop k).take (stop - k) := by
  have ends : Ends env _ _ _ (sndCopyEnds env c _ _) :=
    sndCopyEnds_spec fits some_wanted inside small
  rw [show sndBase c.tcb = c.tcb.sndUna from if_pos acked] at ends
  rw [sndCopy_eq]
  generalize sndCopyEnds env c _ _ = result at ends ⊢
  obtain ⟨later, copied⟩ := result
  cases copied with
  | returned top => exact ⟨top, rfl, ends.1⟩
  | freed top =>
    obtain ⟨⟨t, -, -, failed⟩, -⟩ := ends
    exact absurd (buffers t) (by rw [failed]; decide)
  | refused =>
    obtain ⟨⟨t, -, -, failed⟩, -⟩ := ends
    exact absurd (buffers t) (by rw [failed]; decide)

/-- Whatever part of the send buffer is asked for, in whatever way the bytes lie in it, and whether
or not its SYN is acknowledged: the copy has exactly these bytes, in buffers of its own with room
for them, or it is given up because a buffer was not to be had, and all that it got is freed. -/
theorem snd_copy_exact {c : Conn} (fits : ∀ m ∈ c.ucb.ucSbuf, m.Fits)
    (small : chainLen c.ucb.ucSbuf < 2 ^ 31) {k stop : Nat} (low : k ≤ chainLen c.ucb.ucSbuf)
    (high : stop ≤ chainLen c.ucb.ucSbuf) :
    let start := Serial.point (sndBase c.tcb) k
    let fin := Serial.point (sndBase c.tcb) stop
    sndCopy env c start fin = ({ c with clock := (sndCopyEnds env c start fin).1 },
      (sndCopyEnds env c start fin).2.chain) ∧
    if k < stop then
      Ends env (((chainData c.ucb.ucSbuf).drop k).take (stop - k)) 0 c.clock
        (sndCopyEnds env c start fin)
    else sndCopyEnds env c start fin = (c.clock, .refused) := by
  refine ⟨sndCopy_eq .., ?_⟩
  split
  next wanted => exact sndCopyEnds_spec fits wanted high small
  next empty =>
    have ended : seqGeq (Serial.point (sndBase c.tcb) (k : Int))
        (Serial.point (sndBase c.tcb) (stop : Int)) := by
      rw [seqGeq_point _ (by omega) (by omega)]
      omega
    exact if_pos ended

/-- A connection with buffers of the given lengths to be sent. -/
def buffered (lens : List Nat) : Conn :=
  let c := tcpopen activeOpen 0
  { c with ucb := { c.ucb with
      ucSbuf := lens.map fun len => { Mbuf.fresh with mOff := mhead, mLen := len } } }

/-- From the third byte of the first buffer to the fourth of the second. -/
theorem snd_copy_exact_seven :
    let c := buffered [5, 118]
    let start := Serial.point (sndBase c.tcb) (2 : Nat)
    let fin := Serial.point (sndBase c.tcb) (9 : Nat)
    sndCopy host2 c start fin = ({ c with clock := (sndCopyEnds host2 c start fin).1 },
      (sndCopyEnds host2 c start fin).2.chain) ∧
    if 2 < 9 then
      Ends host2 (((chainData c.ucb.ucSbuf).drop 2).take (9 - 2)) 0 c.clock
        (sndCopyEnds host2 c start fin)
    else sndCopyEnds host2 c start fin = (c.clock, .refused) :=
  snd_copy_exact (by decide) (by decide) (by decide) (by decide)

end NetworkUnix.Bbnnet
