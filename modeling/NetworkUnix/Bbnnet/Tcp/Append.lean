/-
This file says what a send request leaves in the send buffer and where it puts the marks
for PUSH and urgent data. The bytes are appended and the buffers counted as they should
be, but the end of the data is added up on the walk to the last buffer, which leaves the
first buffer out and takes the last one twice: the marks are right when these two are
equally long.
-/

import NetworkUnix.Bbnnet.Tcp.Frame

namespace NetworkUnix.Bbnnet

open Memory

/-! ### The new bytes -/

theorem data_appendMbuf (m n : Mbuf) : (appendMbuf m n).data = m.data ++ n.data := by
  unfold appendMbuf Mbuf.data
  rw [window_append, window_copy_outside _ _ _ _ _ _ _ (.inl (Nat.le_refl _)), window_copy_self]

/-- The number of new buffers that fit into a room one after another. -/
def joins : Nat → Chain → Nat
  | _, [] => 0
  | room, n :: rest => if n.mLen ≤ room then joins (room - n.mLen) rest + 1 else 0

theorem consolidate_spec {m : Mbuf} (inside : m.mOff + m.mLen ≤ msize) (dat : Chain) :
    (consolidate m dat).1.data ++ chainData (consolidate m dat).2.1 = m.data ++ chainData dat ∧
    (consolidate m dat).2.2 = joins (msize - (m.mOff + m.mLen)) dat ∧
    (consolidate m dat).2.1.length + (consolidate m dat).2.2 = dat.length := by
  induction dat generalizing m with
  | nil => exact ⟨rfl, rfl, rfl⟩
  | cons n rest inductionHypothesis =>
    rw [consolidate, joins]
    split
    · rename_i room
      obtain ⟨bytes, freed, count⟩ := @inductionHypothesis (appendMbuf m n)
        (show m.mOff + (m.mLen + n.mLen) ≤ msize by omega)
      refine ⟨?_, ?_, ?_⟩
      · rw [bytes, data_appendMbuf, chainData_cons, List.append_assoc]
      · rw [if_pos (by omega)]
        refine congrArg Nat.succ (freed.trans (congrArg (joins · rest) ?_))
        show msize - (m.mOff + (m.mLen + n.mLen)) = _
        omega
      · rw [List.length_cons, ← count]
        rfl
    · rw [if_neg (by omega)]
      exact ⟨rfl, rfl, rfl⟩

/-- The number of new buffers that are freed when they are appended to a send buffer. -/
def freed (sbuf dat : Chain) : Nat :=
  match sbuf.getLast? with
  | none => 0
  | some m => joins (msize - (m.mOff + m.mLen)) dat

theorem sndAppend_spec {sbuf : Chain} (fits : ∀ m ∈ sbuf, m.Fits) (dat : Chain) :
    chainData (sndAppend sbuf dat).1 = chainData sbuf ++ chainData dat ∧
    (sndAppend sbuf dat).2 = freed sbuf dat ∧
    (sndAppend sbuf dat).1.length + freed sbuf dat = sbuf.length + dat.length ∧
    freed sbuf dat ≤ dat.length := by
  unfold sndAppend freed
  rcases List.eq_nil_or_concat sbuf with rfl | ⟨pre, m, rfl⟩
  · exact ⟨rfl, rfl, (Nat.zero_add _).symm, Nat.zero_le _⟩
  simp only [List.getLast?_append, List.getLast?_singleton, Option.some_or, List.dropLast_concat,
    List.concat_eq_append] at fits ⊢
  obtain ⟨bytes, count, length⟩ := consolidate_spec (fits m (by simp)).2 dat
  refine ⟨?_, count, ?_, by omega⟩
  · rw [chainData_append, chainData_cons, bytes, chainData_append, chainData_cons, chainData_nil,
      List.append_nil, List.append_assoc]
  · rw [← count, List.length_append, List.length_cons, List.length_append, List.length_singleton]
    omega

/-! ### The end of the data -/

theorem sndWalk_add : ∀ {sbuf : Chain} {first last : Mbuf}, sbuf.head? = some first →
    sbuf.getLast? = some last → sndWalk sbuf + first.mLen = chainLen sbuf + last.mLen
  | [m], _, _, rfl, rfl => rfl
  | m :: n :: rest, _, last, rfl, final => by
    rw [List.getLast?_cons_cons] at final
    have inductionHypothesis := sndWalk_add rfl final
    rw [sndWalk, chainLen_cons]
    omega

/-- The first and the last buffer are equally long. -/
def EvenEnds (sbuf : Chain) : Prop := sbuf.head?.map Mbuf.mLen = sbuf.getLast?.map Mbuf.mLen

instance (sbuf : Chain) : Decidable (EvenEnds sbuf) := inferInstanceAs (Decidable (_ = _))

theorem last_right_iff {sbuf : Chain} (fits : ∀ m ∈ sbuf, m.Fits) (una : Seq) (count : Nat) :
    una + BitVec.ofNat 32 (count + sndWalk sbuf) = una + BitVec.ofNat 32 (chainLen sbuf + count) ↔
      EvenEnds sbuf := by
  cases sbuf with
  | nil => exact ⟨fun _ => rfl, fun _ => by rw [Nat.add_comm]; rfl⟩
  | cons first rest =>
    have final := List.getLast?_eq_some_getLast (List.cons_ne_nil first rest)
    generalize (first :: rest).getLast (List.cons_ne_nil first rest) = last at final
    have walk := sndWalk_add rfl final
    have small : ∀ m ∈ first :: rest, m.mLen ≤ 128 := fun m member =>
      Nat.le_trans (Nat.le_add_left _ _) (fits m member).2
    have left := small first List.mem_cons_self
    have right := small last (List.mem_of_getLast? final)
    rw [EvenEnds, final]
    show _ ↔ some first.mLen = some last.mLen
    rw [Option.some.injEq, ← BitVec.toNat_inj]
    simp only [BitVec.toNat_add, BitVec.toNat_ofNat]
    omega

/-! ### A send request -/

/-- The bytes are appended, the count is that of the buffers, and the marks that were asked for
stand at the end of the data. -/
structure Appended (c : Conn) (dat : Chain) (after : Conn) : Prop where
  bytes : chainData after.ucb.ucSbuf = chainData c.ucb.ucSbuf ++ chainData dat
  count : after.ucb.ucSsize = after.ucb.ucSbuf.length
  push : c.ucb.uEol = true →
    after.tcb.sndEnd = after.tcb.sndUna + BitVec.ofNat 32 (chainLen after.ucb.ucSbuf)
  urgent : c.ucb.uUrg = true →
    after.tcb.sndUrp - 1 = after.tcb.sndUna + BitVec.ofNat 32 (chainLen after.ucb.ucSbuf)

theorem sends_of_sendErased {c d : Conn} (same : c.sendErased = d.sendErased) :
    c.ucb.ucSbuf = d.ucb.ucSbuf ∧ c.ucb.ucSsize = d.ucb.ucSsize ∧ c.tcb.sndUna = d.tcb.sndUna ∧
      c.tcb.sndEnd = d.tcb.sndEnd ∧ c.tcb.sndUrp = d.tcb.sndUrp :=
  ⟨congrArg (fun conn => conn.ucb.ucSbuf) same, congrArg (fun erased => erased.ucb.ucSsize) same,
    congrArg (fun conn => conn.tcb.sndUna) same, congrArg (fun erased => erased.tcb.sndEnd) same,
    congrArg (fun conn => conn.tcb.sndUrp) same⟩

/-- A send request does what it should exactly when the buffers can still be counted, and no mark
is asked for or the ends of the old send buffer are equally long. -/
theorem snd_appended {env : Env} {c : Conn} {dat : Chain} (fits : ∀ m ∈ c.ucb.ucSbuf, m.Fits)
    (counted : c.ucb.ucSsize = c.ucb.ucSbuf.length) :
    Appended c dat (sssSnd env c dat).1 ↔
      c.ucb.ucSbuf.length + dat.length - freed c.ucb.ucSbuf dat < 256 ∧
        (c.ucb.uEol = true ∨ c.ucb.uUrg = true → EvenEnds c.ucb.ucSbuf) := by
  have same : (sssSnd env c dat).1.sendErased = (sndQueue c dat).sendErased :=
    sendErased_sendTcp env (sndQueue c dat) .data
  obtain ⟨queued, ssize, kept, marked, urged⟩ := sends_of_sendErased same
  have sbuf : (sssSnd env c dat).1.ucb.ucSbuf = (sndAppend c.ucb.ucSbuf dat).1 := queued
  have una : (sssSnd env c dat).1.tcb.sndUna = c.tcb.sndUna := kept
  obtain ⟨bytes, gone, length, few⟩ := sndAppend_spec fits dat
  have total : chainLen (sssSnd env c dat).1.ucb.ucSbuf =
      chainLen c.ucb.ucSbuf + chainLen dat := by
    rw [sbuf, ← length_chainData, bytes, List.length_append, length_chainData, length_chainData]
  have number : (sssSnd env c dat).1.ucb.ucSsize =
      (c.ucb.ucSbuf.length + dat.length - freed c.ucb.ucSbuf dat) % 256 := by
    rw [ssize]
    show (c.ucb.ucSsize + (dat.length - (sndAppend c.ucb.ucSbuf dat).2)) % 256 = _
    rw [gone, counted, Nat.add_sub_assoc few]
  have right := last_right_iff fits c.tcb.sndUna (chainLen dat)
  have push : c.ucb.uEol = true → (sssSnd env c dat).1.tcb.sndEnd =
      c.tcb.sndUna + BitVec.ofNat 32 (chainLen dat + sndWalk c.ucb.ucSbuf) := by
    intro asked
    rw [marked]
    exact if_pos asked
  have urgent : c.ucb.uUrg = true → (sssSnd env c dat).1.tcb.sndUrp =
      c.tcb.sndUna + BitVec.ofNat 32 (chainLen dat + sndWalk c.ucb.ucSbuf) + 1 := by
    intro asked
    rw [urged]
    exact if_pos asked
  constructor
  · intro appended
    refine ⟨?_, ?_⟩
    · have count := appended.count
      rw [number, sbuf] at count
      omega
    · rintro (asked | asked)
      · have mark := appended.push asked
        rw [una, total, push asked] at mark
        exact right.mp mark
      · have mark := appended.urgent asked
        rw [una, total, urgent asked, BitVec.add_sub_cancel] at mark
        exact right.mp mark
  · rintro ⟨countable, even⟩
    refine ⟨sbuf ▸ bytes, ?_, fun asked => ?_, fun asked => ?_⟩
    · rw [number, sbuf, Nat.mod_eq_of_lt countable]
      omega
    · rw [una, total, push asked]
      exact right.mpr (even (.inl asked))
    · rw [una, total, urgent asked, BitVec.add_sub_cancel]
      exact right.mpr (even (.inr asked))

/-- A connection with buffers of the given lengths to be sent, and PUSH asked for. -/
def pushing (lens : List Nat) : Conn :=
  let c := tcpopen activeOpen 0
  { c with
    tcb := { c.tcb with tState := .estab, synAcked := true }
    ucb := { c.ucb with
      ucSbuf := lens.map fun len => { Mbuf.fresh with mOff := mhead, mLen := len }
      ucSsize := lens.length
      uEol := true } }

theorem snd_appended_even : Appended (pushing [5, 118, 5]) [{ Mbuf.fresh with mLen := 3 }]
    (sssSnd host2 (pushing [5, 118, 5]) [{ Mbuf.fresh with mLen := 3 }]).1 :=
  (snd_appended (by decide) rfl).mpr (by decide)

/-- With a buffer of 118 bytes before one of 5, PUSH is put 113 bytes before the end. -/
theorem push_misplaced : ¬ Appended (pushing [118, 5]) [{ Mbuf.fresh with mLen := 3 }]
    (sssSnd host2 (pushing [118, 5]) [{ Mbuf.fresh with mLen := 3 }]).1 := by
  intro appended
  exact absurd (appended.push rfl) (by decide +kernel)

end NetworkUnix.Bbnnet
