/-
This file models the circular buffers of the Telnet program as they are kept in memory: two
pointers that may be equal for a full or an empty buffer, a flag that tells which, and the
two system calls that take data which may wrap around the end. The buffer stands for a queue
of at most CBUFSIZE bytes, and each routine does to the queue what its name says.
-/

import NetworkUnix.Lib.Run
import NetworkUnix.Telnet.Thp

namespace NetworkUnix.Telnet.Cbuf

/-! ### The routines -/

/-- `struct CircBuf`; a pointer is an index into `c_buf`. -/
structure CircBuf where
  cGet : Int
  cPut : Int
  cFull : Bool
  cBuf : Int → Byte

/-- The bytes from an index on. -/
def bytesAt (cells : Int → Byte) (start count : Int) : List Byte :=
  (List.range count.toNat).map fun i : Nat => cells (start + i)

/-- Bytes are stored from an index on. -/
def store (cells : Int → Byte) (start : Int) (bytes : List Byte) : Int → Byte := fun i =>
  if start ≤ i ∧ i < start + bytes.length then bytes.getD (i - start).toNat 0 else cells i

/-- Cwrap -/
def cwrap (p t b : Int) : Int := if p = t then b else p

namespace CircBuf

/-- Cinit, with whatever the buffer holds. -/
def cinit (cells : Int → Byte) : CircBuf := ⟨0, 0, false, cells⟩

/-- Cempty -/
def cempty (cb : CircBuf) : Bool := decide (cb.cGet = cb.cPut) && !cb.cFull

/-- Clen -/
def clen (cb : CircBuf) : Int :=
  if cb.cFull then cbufsize
  else if 0 ≤ cb.cPut - cb.cGet then cb.cPut - cb.cGet
  else cbufsize + (cb.cPut - cb.cGet)

/-- Cfree -/
def cfree (cb : CircBuf) : Int := cbufsize - cb.clen

/-- Cgetc -/
def cgetc (cb : CircBuf) : Int × CircBuf :=
  if cb.cempty then (-1, cb)
  else
    ((cb.cBuf cb.cGet).toNat,
      { cb with cGet := cwrap (cb.cGet + 1) cbufsize 0, cFull := false })

/-- Cungetc -/
def cungetc (ch : Byte) (cb : CircBuf) : Int × CircBuf :=
  if cb.cFull then (-1, cb)
  else
    let cGet := if cb.cGet - 1 < 0 then cb.cGet - 1 + cbufsize else cb.cGet - 1
    (0,
      { cb with
        cGet
        cBuf := store cb.cBuf cGet [ch]
        cFull := cb.cFull || decide (cb.cPut = cGet) })

/-- Cputc -/
def cputc (ch : Byte) (cb : CircBuf) : Int × CircBuf :=
  if cb.cFull then (-1, cb)
  else
    let cPut := cwrap (cb.cPut + 1) cbufsize 0
    (0,
      { cb with
        cPut
        cBuf := store cb.cBuf cb.cPut [ch]
        cFull := cb.cFull || decide (cPut = cb.cGet) })

/-- The data is in one part: it does not wrap, or the part before the end is enough. -/
def easyOut (n : Int) (cb : CircBuf) : Bool :=
  decide (cb.cGet < cb.cPut) || decide (n ≤ cbufsize - cb.cGet)

/-- The bytes that Cwrite hands to `write`. -/
def offered (n : Int) (cb : CircBuf) : List Byte :=
  if cb.easyOut n then
    bytesAt cb.cBuf cb.cGet (if cb.cGet < cb.cPut then min (cb.cPut - cb.cGet) n else n)
  else
    let nwrite := min n (cbufsize - cb.cGet)
    bytesAt cb.cBuf cb.cGet nwrite ++ bytesAt cb.cBuf 0 (min cb.cPut (n - nwrite))

/-- Cwrite returns before the system call. -/
def idleOut (n : Int) (cb : CircBuf) : Bool := decide (n ≤ 0) || cb.cempty

/-- Cwrite; `nwrite` is what `write` returns. -/
def cwrite (n nwrite : Int) (cb : CircBuf) : Int × CircBuf :=
  if n < 0 then (-1, cb)
  else if cb.idleOut n then (0, cb)
  else if cb.easyOut n then
    (nwrite,
      if 0 < nwrite then
        { cb with cGet := cwrap (cb.cGet + nwrite) cbufsize 0, cFull := false }
      else cb)
  else if nwrite ≤ 0 then (nwrite, cb)
  else
    (nwrite,
      { cb with
        cGet := if cbufsize ≤ cb.cGet + nwrite then cb.cGet + nwrite - cbufsize
          else cb.cGet + nwrite
        cFull := false })

/-- The space is in one part. -/
def easyIn (n : Int) (cb : CircBuf) : Bool :=
  decide (cb.cPut < cb.cGet) || decide (n ≤ cbufsize - cb.cPut)

/-- The number of bytes that Cread asks of `read`. -/
def asked (n : Int) (cb : CircBuf) : Int :=
  if cb.easyIn n then if cb.cPut < cb.cGet then min (cb.cGet - cb.cPut) n else n
  else min n cb.cfree

/-- Cread returns before the system call. -/
def idleIn (n : Int) (cb : CircBuf) : Bool := decide (n ≤ 0 ∨ (cbufsize : Int) < n) || cb.cFull

/-- Cread; `bytes` is what `read` stores, unless it fails. -/
def cread (n : Int) (bytes : Option (List Byte)) (cb : CircBuf) : Int × CircBuf :=
  if n < 0 ∨ (cbufsize : Int) < n then (-1, cb)
  else if cb.idleIn n then (0, cb)
  else
    match bytes with
    | none => (-1, cb)
    | some bytes =>
      if bytes = [] then (0, cb)
      else if cb.easyIn n then
        let cPut := cwrap (cb.cPut + bytes.length) cbufsize 0
        (bytes.length,
          { cb with
            cPut
            cBuf := store cb.cBuf cb.cPut bytes
            cFull := cb.cFull || decide (cPut = cb.cGet) })
      else
        let nread := min (bytes.length : Int) (cbufsize - cb.cPut)
        let n2 := min cb.cGet (bytes.length - nread)
        let cPut := if cbufsize ≤ cb.cPut + bytes.length then cb.cPut + bytes.length - cbufsize
          else cb.cPut + bytes.length
        (bytes.length,
          { cb with
            cPut
            cBuf := store (store cb.cBuf cb.cPut (bytes.take nread.toNat)) 0
              ((bytes.drop nread.toNat).take n2.toNat)
            cFull := cb.cFull || decide (cPut = cb.cGet) })

end CircBuf

/-! ### What the buffer stands for -/

/-- A cell so many places behind another. -/
def behind (cell : Int) (places : Nat) : Int :=
  if cell + places < cbufsize then cell + places else cell + places - cbufsize

/-- The buffer holds the bytes of a queue from `c_get` on, and `c_put` is behind the last. What is
in memory around the buffer is as it was at the start. -/
structure CircBuf.Holds (cb : CircBuf) (origin : Int → Byte) (queue : List Byte) : Prop where
  nonneg : 0 ≤ cb.cGet
  below : cb.cGet < cbufsize
  small : queue.length ≤ cbufsize
  put : cb.cPut = behind cb.cGet queue.length
  full : cb.cFull = decide (queue.length = cbufsize)
  held : ∀ i (inside : i < queue.length), cb.cBuf (behind cb.cGet i) = queue[i]
  around : ∀ i, i < 0 ∨ (cbufsize : Int) ≤ i → cb.cBuf i = origin i

theorem store_inside {cells : Int → Byte} {start : Int} {bytes : List Byte} {i : Nat}
    (inside : i < bytes.length) : store cells start bytes (start + i) = bytes[i] := by
  unfold store
  rw [if_pos (by omega), show (start + i - start).toNat = i by omega, List.getD_eq_getElem?_getD,
    List.getElem?_eq_getElem inside]
  rfl

theorem store_first (cells : Int → Byte) (start : Int) (ch : Byte) :
    store cells start [ch] start = ch := by
  unfold store
  rw [if_pos ⟨Int.le_refl start, by rw [List.length_singleton]; omega⟩, Int.sub_self]
  rfl

theorem store_outside {cells : Int → Byte} {start cell : Int} {bytes : List Byte}
    (outside : cell < start ∨ start + bytes.length ≤ cell) :
    store cells start bytes cell = cells cell := by
  unfold store
  rw [if_neg (by omega)]

theorem behind_inside {cell : Int} {places : Nat} (nonneg : 0 ≤ cell) (below : cell < cbufsize)
    (near : places ≤ cbufsize) : 0 ≤ behind cell places ∧ behind cell places < cbufsize := by
  unfold behind
  split <;> omega

theorem behind_behind {cell : Int} (first second : Nat) (below : cell < cbufsize)
    (near : first + second ≤ cbufsize) :
    behind (behind cell first) second = behind cell (first + second) := by
  unfold behind
  split <;> split <;> split <;> omega

theorem behind_inj (cell : Int) {first second : Nat} (less : first < cbufsize)
    (less' : second < cbufsize) (same : behind cell first = behind cell second) :
    first = second := by
  unfold behind at same
  split at same <;> split at same <;> omega

namespace CircBuf.Holds

variable {cb : CircBuf} {origin : Int → Byte} {queue : List Byte}

section

variable (holds : cb.Holds origin queue)
include holds

theorem put_inside : 0 ≤ cb.cPut ∧ cb.cPut < cbufsize := by
  rw [holds.put]
  exact behind_inside holds.nonneg holds.below holds.small

theorem get_lt_put :
    cb.cGet < cb.cPut ↔ 0 < queue.length ∧ cb.cGet + queue.length < cbufsize := by
  have nonneg := holds.nonneg
  have below := holds.below
  have small := holds.small
  rw [holds.put]
  unfold behind
  split <;> omega

theorem put_lt_get :
    cb.cPut < cb.cGet ↔ queue.length < cbufsize ∧ cbufsize ≤ cb.cGet + queue.length := by
  have nonneg := holds.nonneg
  have below := holds.below
  have small := holds.small
  rw [holds.put]
  unfold behind
  split <;> omega

theorem cempty_iff : cb.cempty = true ↔ queue = [] := by
  have put := holds.put
  have small := holds.small
  have nonneg := holds.nonneg
  rw [← List.length_eq_zero_iff]
  unfold CircBuf.cempty
  rw [holds.full]
  unfold behind at put
  simp only [Bool.and_eq_true, decide_eq_true_eq, Bool.not_eq_true', decide_eq_false_iff_not]
  have below := holds.below
  have positive : 0 < cbufsize := by decide
  split at put <;> omega

theorem clen_eq : cb.clen = queue.length := by
  have put := holds.put
  have small := holds.small
  have nonneg := holds.nonneg
  unfold CircBuf.clen
  rw [holds.full]
  unfold behind at put
  by_cases full : queue.length = cbufsize
  · rw [decide_eq_true full, if_pos rfl, full]
  · rw [decide_eq_false full, if_neg Bool.false_ne_true]
    split at put <;> split <;> omega

theorem drop (count : Nat) (positive : 0 < count)
    (inside : count ≤ queue.length) {cGet : Int} (moved : cGet = behind cb.cGet count) :
    CircBuf.Holds { cb with cGet, cFull := false } origin (queue.drop count) := by
  have small := holds.small
  obtain ⟨nonneg, below⟩ := behind_inside holds.nonneg holds.below (Nat.le_trans inside small)
  refine ⟨by rw [moved]; exact nonneg, by rw [moved]; exact below, ?_, ?_, ?_, fun i here => ?_,
    holds.around⟩
  · rw [List.length_drop]
    omega
  · rw [moved, List.length_drop, behind_behind _ _ holds.below (by omega),
      Nat.add_sub_cancel' inside]
    exact holds.put
  · rw [List.length_drop]
    exact (decide_eq_false (by omega)).symm
  · rw [List.length_drop] at here
    rw [moved, List.getElem_drop]
    show cb.cBuf (behind (behind cb.cGet count) i) = _
    rw [behind_behind _ _ holds.below (by omega)]
    exact holds.held (count + i) (by omega)

theorem append {bytes : List Byte}
    (room : queue.length + bytes.length ≤ cbufsize) (some : bytes ≠ []) {cPut : Int}
    {cBuf : Int → Byte} (moved : cPut = behind cb.cGet (queue.length + bytes.length))
    (kept : ∀ i < queue.length, cBuf (behind cb.cGet i) = cb.cBuf (behind cb.cGet i))
    (stored : ∀ i (inside : i < bytes.length),
      cBuf (behind cb.cGet (queue.length + i)) = bytes[i])
    (around : ∀ i, i < 0 ∨ (cbufsize : Int) ≤ i → cBuf i = cb.cBuf i) :
    CircBuf.Holds { cb with cPut, cBuf, cFull := cb.cFull || decide (cPut = cb.cGet) } origin
      (queue ++ bytes) := by
  have positive := List.length_pos_iff.mpr some
  have nonneg := holds.nonneg
  refine ⟨nonneg, holds.below, ?_, ?_, ?_, fun i here => ?_,
    fun i outside => (around i outside).trans (holds.around i outside)⟩
  · rw [List.length_append]
    exact room
  · rw [List.length_append]
    exact moved
  · have wrapped : cPut = cb.cGet ↔ queue.length + bytes.length = cbufsize := by
      rw [moved]
      unfold behind
      split <;> omega
    rw [List.length_append, holds.full, decide_eq_false (by omega), Bool.false_or]
    exact decide_eq_decide.mpr wrapped
  · rw [List.length_append] at here
    by_cases old : i < queue.length
    · rw [List.getElem_append_left old]
      exact (kept i old).trans (holds.held i old)
    · rw [List.getElem_append_right (Nat.le_of_not_lt old)]
      have new := stored (i - queue.length) (by omega)
      rw [Nat.add_sub_cancel' (Nat.le_of_not_lt old)] at new
      exact new

theorem bytesAt_eq {start count : Int} (first : Nat)
    (nonneg : 0 ≤ count) (inside : first + count ≤ queue.length)
    (straight : ∀ i < count.toNat, start + i = behind cb.cGet (first + i)) :
    bytesAt cb.cBuf start count = (queue.drop first).take count.toNat := by
  refine List.ext_getElem ?_ fun i here there => ?_
  · unfold bytesAt
    rw [List.length_map, List.length_range, List.length_take, List.length_drop]
    omega
  · unfold bytesAt at *
    rw [List.length_map, List.length_range] at here
    rw [List.getElem_map, List.getElem_range, List.getElem_take, List.getElem_drop,
      straight i here]
    exact holds.held (first + i) (by omega)

end

end CircBuf.Holds

/-! ### The system calls -/

namespace CircBuf.Holds

variable {cb : CircBuf} {origin : Int → Byte} {queue : List Byte}

section

variable (holds : cb.Holds origin queue)
include holds

theorem idleOut_iff (n : Int) :
    cb.idleOut n = true ↔ n ≤ 0 ∨ queue = [] := by
  unfold CircBuf.idleOut
  rw [Bool.or_eq_true, decide_eq_true_eq, holds.cempty_iff]

theorem idleIn_iff (n : Int) :
    cb.idleIn n = true ↔ (n ≤ 0 ∨ (cbufsize : Int) < n) ∨ queue.length = cbufsize := by
  unfold CircBuf.idleIn
  rw [Bool.or_eq_true, decide_eq_true_eq, holds.full, decide_eq_true_eq]

theorem offered_eq {n : Int} (busy : cb.idleOut n = false) :
    cb.offered n = queue.take n.toNat := by
  have idle := mt (holds.idleOut_iff n).mpr (by rw [busy]; exact Bool.false_ne_true)
  rw [not_or, Int.not_le] at idle
  obtain ⟨positive, some⟩ := idle
  have someLength := List.length_pos_iff.mpr some
  have nonneg := holds.nonneg
  have below := holds.below
  have small := holds.small
  have put := holds.put
  have less := holds.get_lt_put
  unfold CircBuf.offered CircBuf.easyOut
  by_cases forward : cb.cGet < cb.cPut
  · obtain ⟨_, straight⟩ := less.mp forward
    have length : cb.cPut - cb.cGet = queue.length := by
      rw [put]
      unfold behind
      rw [if_pos straight]
      omega
    rw [decide_eq_true forward, Bool.true_or, if_pos rfl, if_pos forward, length,
      holds.bytesAt_eq 0 (by omega) (by omega) fun i here => by
        unfold behind
        rw [if_pos (by omega), Nat.zero_add]]
    rw [List.drop_zero]
    by_cases all : n ≤ queue.length
    · rw [Int.min_eq_right all]
    · rw [Int.min_eq_left (by omega), Int.toNat_natCast, List.take_length,
        List.take_of_length_le (by omega)]
  · have crosses : cbufsize ≤ cb.cGet + queue.length := by
      by_contra straight
      exact forward (less.mpr ⟨someLength, by omega⟩)
    rw [decide_eq_false forward, Bool.false_or]
    by_cases part : n ≤ cbufsize - cb.cGet
    · rw [decide_eq_true part, if_pos rfl, if_neg forward,
        holds.bytesAt_eq 0 (by omega) (by omega) fun i here => by
          unfold behind
          rw [if_pos (by omega), Nat.zero_add]]
      rw [List.drop_zero]
    · have second : min cb.cPut (n - (cbufsize - cb.cGet)) =
          min (queue.length : Int) n - (cbufsize - cb.cGet) := by
        rw [put]
        unfold behind
        rw [if_neg (by omega)]
        omega
      rw [decide_eq_false part, if_neg Bool.false_ne_true, Int.min_eq_right (by omega)]
      dsimp only
      rw [second, holds.bytesAt_eq 0 (by omega) (by omega) fun i here => by
          unfold behind
          rw [if_pos (by omega), Nat.zero_add],
        holds.bytesAt_eq (cbufsize - cb.cGet).toNat (by omega) (by omega)
          fun i here => by
            unfold behind
            rw [if_neg (by omega)]
            omega]
      rw [List.drop_zero, ← List.take_add]
      by_cases all : n ≤ queue.length
      · congr 1
        omega
      · rw [List.take_of_length_le (by omega), List.take_of_length_le (by omega)]

theorem cwrite {n nwrite : Int} (busy : cb.idleOut n = false)
    (most : nwrite ≤ (cb.offered n).length) :
    (cb.cwrite n nwrite).1 = nwrite ∧
      (cb.cwrite n nwrite).2.Holds origin (queue.drop nwrite.toNat) := by
  have idle := mt (holds.idleOut_iff n).mpr (by rw [busy]; exact Bool.false_ne_true)
  rw [not_or, Int.not_le] at idle
  have nonneg := holds.nonneg
  have below := holds.below
  have small := holds.small
  rw [holds.offered_eq busy, List.length_take] at most
  unfold CircBuf.cwrite
  rw [if_neg (by omega), busy, if_neg Bool.false_ne_true]
  by_cases positive : 0 < nwrite
  · have straight : cb.easyOut n = true → cb.cGet + nwrite ≤ cbufsize := by
      intro easy
      unfold CircBuf.easyOut at easy
      rw [Bool.or_eq_true, decide_eq_true_eq, decide_eq_true_eq, holds.get_lt_put] at easy
      omega
    by_cases easy : cb.easyOut n = true
    · have inside := straight easy
      rw [if_pos easy, if_pos positive]
      refine ⟨rfl, holds.drop _ (by omega) (by omega) ?_⟩
      unfold cwrap behind
      split <;> split <;> omega
    · rw [if_neg easy, if_neg (by omega)]
      refine ⟨rfl, holds.drop _ (by omega) (by omega) ?_⟩
      unfold behind
      split <;> split <;> omega
  · rw [show nwrite.toNat = 0 by omega, List.drop_zero]
    by_cases easy : cb.easyOut n = true
    · rw [if_pos easy, if_neg positive]
      exact ⟨rfl, holds⟩
    · rw [if_neg easy, if_pos (by omega)]
      exact ⟨rfl, holds⟩

theorem asked_eq {n : Int} (busy : cb.idleIn n = false) :
    cb.asked n = min n (cbufsize - queue.length) := by
  have idle := mt (holds.idleIn_iff n).mpr (by rw [busy]; exact Bool.false_ne_true)
  have nonneg := holds.nonneg
  have below := holds.below
  have small := holds.small
  have put := holds.put
  unfold behind at put
  have easy : cb.easyIn n = true ↔ cb.cPut < cb.cGet ∨ n ≤ cbufsize - cb.cPut := by
    unfold CircBuf.easyIn
    rw [Bool.or_eq_true, decide_eq_true_eq, decide_eq_true_eq]
  unfold CircBuf.asked CircBuf.cfree
  rw [holds.clen_eq]
  simp only [easy]
  split at put <;> split <;> (try split) <;> omega

theorem cread {n : Int} {bytes : List Byte}
    (busy : cb.idleIn n = false) (most : (bytes.length : Int) ≤ cb.asked n) :
    (cb.cread n (some bytes)).1 = bytes.length ∧
      (cb.cread n (some bytes)).2.Holds origin (queue ++ bytes) := by
  have idle := mt (holds.idleIn_iff n).mpr (by rw [busy]; exact Bool.false_ne_true)
  have nonneg := holds.nonneg
  have below := holds.below
  have small := holds.small
  have put := holds.put
  rw [holds.asked_eq busy] at most
  unfold CircBuf.cread
  rw [if_neg (by omega), busy, if_neg Bool.false_ne_true]
  dsimp only
  by_cases none : bytes = []
  · rw [if_pos none, none, List.append_nil]
    exact ⟨rfl, holds⟩
  · have some := List.length_pos_iff.mpr none
    rw [if_neg none]
    by_cases easy : cb.easyIn n = true
    · have straight : cb.cPut + bytes.length ≤ cbufsize := by
        unfold CircBuf.easyIn at easy
        rw [Bool.or_eq_true, decide_eq_true_eq, decide_eq_true_eq, holds.put_lt_get] at easy
        unfold behind at put
        split at put <;> omega
      rw [if_pos easy]
      have above := holds.put_inside.1
      refine ⟨rfl, holds.append (by omega) none ?_ (fun i here => ?_) (fun i here => ?_)
        fun i outside => store_outside (by omega)⟩
      · rw [put] at straight ⊢
        unfold behind at straight
        unfold cwrap behind
        split at straight <;> split <;> split <;> (try split) <;> omega
      · refine store_outside ?_
        rw [put] at straight ⊢
        unfold behind at straight ⊢
        split at straight <;> split <;> omega
      · rw [← store_inside here]
        congr 1
        rw [put] at straight ⊢
        unfold behind at straight ⊢
        split at straight <;> split <;> omega
    · have apart : cb.cPut = cb.cGet + queue.length ∧ cb.cGet + queue.length < cbufsize ∧
          cbufsize - cb.cPut < n := by
        unfold CircBuf.easyIn at easy
        rw [Bool.or_eq_true, decide_eq_true_eq, decide_eq_true_eq, holds.put_lt_get] at easy
        unfold behind at put
        split at put <;> omega
      obtain ⟨put, straight, crosses⟩ := apart
      have parts : (min (bytes.length : Int) (cbufsize - cb.cPut)).toNat +
            (min cb.cGet (bytes.length - min (bytes.length : Int) (cbufsize - cb.cPut))).toNat =
          bytes.length := by
        omega
      have before : (min cb.cGet
          (bytes.length - min (bytes.length : Int) (cbufsize - cb.cPut))).toNat ≤ cb.cGet := by
        omega
      rw [if_neg easy]
      dsimp only
      generalize second :
        (min cb.cGet (bytes.length - min (bytes.length : Int) (cbufsize - cb.cPut))).toNat = n2 at *
      generalize first : (min (bytes.length : Int) (cbufsize - cb.cPut)).toNat = nread at *
      refine ⟨rfl, holds.append (by omega) none ?_ (fun i here => ?_) (fun i here => ?_)
        fun i outside => ?_⟩
      · rw [put]
        unfold behind
        split <;> split <;> omega
      · have cell : behind cb.cGet i = cb.cGet + i := if_pos (by omega)
        rw [cell, store_outside (.inr (by rw [List.length_take, List.length_drop]; omega)),
          store_outside (.inl (by omega))]
      · by_cases near : i < nread
        · have cell : behind cb.cGet (queue.length + i) = cb.cPut + i := by
            unfold behind
            rw [if_pos (by omega)]
            omega
          rw [cell, store_outside (.inr (by rw [List.length_take, List.length_drop]; omega)),
            store_inside (by rw [List.length_take]; omega), List.getElem_take]
        · have cell : behind cb.cGet (queue.length + i) = 0 + (i - nread : Nat) := by
            unfold behind
            rw [if_neg (by omega)]
            omega
          rw [cell, store_inside (by rw [List.length_take, List.length_drop]; omega),
            List.getElem_take, List.getElem_drop]
          congr 1
          omega
      · rw [store_outside (by rw [List.length_take, List.length_drop]; omega),
          store_outside (by rw [List.length_take]; omega)]

/-! ### One byte -/

theorem cputc (ch : Byte) :
    (cb.cputc ch).1 = (if queue.length = cbufsize then -1 else 0) ∧
      (cb.cputc ch).2.Holds origin (if queue.length = cbufsize then queue else queue ++ [ch]) := by
  have put := holds.put
  have small := holds.small
  have inside := holds.put_inside
  have positive : 0 < cbufsize := by decide
  unfold CircBuf.cputc
  rw [holds.full]
  by_cases full : queue.length = cbufsize
  · rw [decide_eq_true full, if_pos rfl, if_pos full, if_pos full]
    exact ⟨rfl, holds⟩
  · rw [decide_eq_false full, if_neg Bool.false_ne_true, if_neg full, if_neg full]
    have same : cb.cFull = false := by rw [holds.full, decide_eq_false full]
    rw [← same]
    refine ⟨rfl, holds.append ?_ (List.cons_ne_nil _ _) ?_ (fun i here => ?_) (fun i here => ?_)
      fun i outside => store_outside (by rw [List.length_singleton]; omega)⟩
    · rw [List.length_singleton]
      omega
    · rw [List.length_singleton, put]
      have next := behind_behind queue.length 1 holds.below (by omega)
      rw [← next, ← put]
      unfold cwrap behind
      split <;> split <;> omega
    · refine store_outside ?_
      have apart : behind cb.cGet i ≠ behind cb.cGet queue.length := fun same =>
        absurd (behind_inj cb.cGet (by omega) (by omega) same) (by omega)
      rw [← put] at apart
      rw [List.length_singleton]
      omega
    · rw [List.length_singleton] at here
      obtain rfl : i = 0 := by omega
      show store cb.cBuf cb.cPut [ch] (behind cb.cGet queue.length) = ch
      rw [← put]
      exact store_first cb.cBuf cb.cPut ch

end

theorem cgetc_empty (holds : cb.Holds origin []) : cb.cgetc = (-1, cb) :=
  if_pos (holds.cempty_iff.mpr rfl)

theorem cgetc {c : Byte} {rest : List Byte} (holds : cb.Holds origin (c :: rest)) :
    cb.cgetc.1 = c.toNat ∧ cb.cgetc.2.Holds origin rest := by
  have below := holds.below
  have first := holds.held 0 (Nat.zero_lt_succ _)
  have here : behind cb.cGet 0 = cb.cGet := by
    unfold behind
    rw [if_pos (by omega)]
    omega
  rw [here] at first
  unfold CircBuf.cgetc
  rw [if_neg (mt holds.cempty_iff.mp (List.cons_ne_nil c rest))]
  refine ⟨congrArg (fun c : Byte => (c.toNat : Int)) first,
    holds.drop 1 Nat.one_pos (Nat.succ_le_succ (Nat.zero_le _)) ?_⟩
  unfold cwrap behind
  split <;> split <;> omega

theorem cungetc (holds : cb.Holds origin queue) (ch : Byte) :
    (cb.cungetc ch).1 = (if queue.length = cbufsize then -1 else 0) ∧
      (cb.cungetc ch).2.Holds origin (if queue.length = cbufsize then queue else ch :: queue) := by
  have put := holds.put
  have small := holds.small
  have nonneg := holds.nonneg
  have below := holds.below
  have positive : 0 < cbufsize := by decide
  unfold CircBuf.cungetc
  rw [holds.full]
  by_cases full : queue.length = cbufsize
  · rw [decide_eq_true full, if_pos rfl, if_pos full, if_pos full]
    exact ⟨rfl, holds⟩
  · rw [decide_eq_false full, if_neg Bool.false_ne_true, if_neg full, if_neg full]
    dsimp only
    rw [Bool.false_or]
    have back : behind (if cb.cGet - 1 < 0 then cb.cGet - 1 + cbufsize else cb.cGet - 1) 1 =
        cb.cGet := by
      unfold behind
      split <;> split <;> omega
    have inside : 0 ≤ (if cb.cGet - 1 < 0 then cb.cGet - 1 + cbufsize else cb.cGet - 1) ∧
        (if cb.cGet - 1 < 0 then cb.cGet - 1 + cbufsize else cb.cGet - 1) < cbufsize := by
      split <;> omega
    generalize (if cb.cGet - 1 < 0 then cb.cGet - 1 + cbufsize else cb.cGet - 1) = cGet at *
    obtain ⟨above, under⟩ := inside
    have next : ∀ i, i < cbufsize → behind cb.cGet i = behind cGet (1 + i) := fun i near => by
      rw [← back, behind_behind 1 i under (by omega)]
    have start : behind cGet 0 = cGet := by
      unfold behind
      rw [if_pos (by omega)]
      omega
    refine ⟨rfl, above, under, ?_, ?_, ?_, fun i here => ?_, fun i outside => ?_⟩
    · rw [List.length_cons]
      omega
    · rw [List.length_cons, Nat.add_comm, ← next _ (by omega)]
      exact put
    · rw [List.length_cons]
      refine decide_eq_decide.mpr ?_
      rw [put, next _ (by omega)]
      unfold behind
      split <;> omega
    · rw [List.length_cons] at here
      cases i with
      | zero =>
        rw [start]
        exact store_first cb.cBuf cGet ch
      | succ i =>
        have apart : behind cGet (1 + i) ≠ behind cGet 0 := fun same =>
          absurd (behind_inj cGet (by omega) (by omega) same) (by omega)
        rw [start] at apart
        show store cb.cBuf cGet [ch] (behind cGet (i + 1)) = queue[i]
        rw [Nat.add_comm i 1, store_outside (by rw [List.length_singleton]; omega),
          ← next _ (by omega)]
        exact holds.held i (by omega)
    · show store cb.cBuf cGet [ch] i = origin i
      rw [store_outside (by rw [List.length_singleton]; omega)]
      exact holds.around i outside

end CircBuf.Holds

/-! ### Every sequence of calls -/

/-- A call, with what its system call does: the number that `write` returns, the bytes that `read`
stores unless it fails. -/
inductive Call
  | clen
  | cgetc
  | cungetc (ch : Byte)
  | cputc (ch : Byte)
  | cwrite (n nwrite : Int)
  | cread (n : Int) (bytes : Option (List Byte))

/-- What comes of a call: the value returned, and the bytes that were handed to `write`. -/
structure Answer where
  value : Int
  handed : List Byte
  deriving DecidableEq

/-- A buffer, and what came of the calls so far. -/
structure Session (State : Type) where
  state : State
  answers : List Answer

/-- The result of a call is noted. -/
def Session.note {State : Type} (s : Session State) (handed : List Byte) (out : Int × State) :
    Session State :=
  ⟨out.2, s.answers ++ [⟨out.1, handed⟩]⟩

/-- The system call transfers no more than it is asked for. -/
def CircBuf.can (cb : CircBuf) : Call → Bool
  | .cwrite n nwrite => cb.idleOut n || decide (-1 ≤ nwrite ∧ nwrite ≤ (cb.offered n).length)
  | .cread n (some bytes) => cb.idleIn n || decide ((bytes.length : Int) ≤ cb.asked n)
  | _ => true

/-- A call of one of the routines. -/
def CircBuf.act (s : Session CircBuf) (call : Call) : Option (Session CircBuf) :=
  if s.state.can call then
    match call with
    | .clen => some (s.note [] (s.state.clen, s.state))
    | .cgetc => some (s.note [] s.state.cgetc)
    | .cungetc ch => some (s.note [] (s.state.cungetc ch))
    | .cputc ch => some (s.note [] (s.state.cputc ch))
    | .cwrite n nwrite =>
      some (s.note (if s.state.idleOut n then [] else s.state.offered n) (s.state.cwrite n nwrite))
    | .cread n bytes => some (s.note [] (s.state.cread n bytes))
  else none

namespace Queue

/-- The value of a call that comes to nothing: -1 for a bad count, 0 for nothing to do. -/
def nothing (bad : Prop) [Decidable bad] : Int := if bad then -1 else 0

/-- What a call is to do to a queue of at most CBUFSIZE bytes. -/
def act (s : Session (List Byte)) : Call → Option (Session (List Byte))
  | .clen => some (s.note [] (s.state.length, s.state))
  | .cgetc =>
    match s.state with
    | [] => some (s.note [] (-1, []))
    | c :: rest => some (s.note [] (c.toNat, rest))
  | .cungetc ch =>
    if s.state.length = cbufsize then some (s.note [] (-1, s.state))
    else some (s.note [] (0, ch :: s.state))
  | .cputc ch =>
    if s.state.length = cbufsize then some (s.note [] (-1, s.state))
    else some (s.note [] (0, s.state ++ [ch]))
  | .cwrite n nwrite =>
    if n ≤ 0 ∨ s.state = [] then some (s.note [] (nothing (n < 0), s.state))
    else if -1 ≤ nwrite ∧ nwrite ≤ (s.state.take n.toNat).length then
      some (s.note (s.state.take n.toNat) (nwrite, s.state.drop nwrite.toNat))
    else none
  | .cread n bytes =>
    if (n ≤ 0 ∨ (cbufsize : Int) < n) ∨ s.state.length = cbufsize then
      some (s.note [] (nothing (n < 0 ∨ (cbufsize : Int) < n), s.state))
    else
      match bytes with
      | none => some (s.note [] (-1, s.state))
      | some bytes =>
        if (bytes.length : Int) ≤ min n (cbufsize - s.state.length) then
          some (s.note [] (bytes.length, s.state ++ bytes))
        else none

end Queue

/-- The buffer holds the queue, and the same has come of the calls. -/
structure Agrees (origin : Int → Byte) (s : Session CircBuf) (q : Session (List Byte)) : Prop where
  holds : s.state.Holds origin q.state
  answers : s.answers = q.answers

section

variable {origin : Int → Byte} {s : Session CircBuf} {q : Session (List Byte)}

theorem Agrees.note (agrees : Agrees origin s q) {handed : List Byte} {out : Int × CircBuf}
    {value : Int} {queue : List Byte} (result : out.1 = value) (holds : out.2.Holds origin queue) :
    Agrees origin (s.note handed out) (q.note handed (value, queue)) where
  holds := holds
  answers := by
    unfold Session.note
    dsimp only
    rw [agrees.answers, result]

/-- A call is possible for the one when it is for the other, and the two agree after it. -/
theorem act_agrees (agrees : Agrees origin s q) (call : Call) :
    Option.Rel (Agrees origin) (CircBuf.act s call) (Queue.act q call) := by
  have holds := agrees.holds
  unfold CircBuf.act
  cases call with
  | clen => exact .some (agrees.note holds.clen_eq holds)
  | cgetc =>
    show Option.Rel _ (some _) (match q.state with | [] => _ | c :: rest => _)
    cases here : q.state with
    | nil =>
      rw [here] at holds
      rw [holds.cgetc_empty]
      exact .some (agrees.note rfl holds)
    | cons c rest =>
      rw [here] at holds
      exact .some (agrees.note holds.cgetc.1 holds.cgetc.2)
  | cungetc ch =>
    obtain ⟨value, after⟩ := holds.cungetc ch
    show Option.Rel _ (some _) (if _ then _ else _)
    split
    next full =>
      rw [if_pos full] at value after
      exact .some (agrees.note value after)
    next room =>
      rw [if_neg room] at value after
      exact .some (agrees.note value after)
  | cputc ch =>
    obtain ⟨value, after⟩ := holds.cputc ch
    show Option.Rel _ (some _) (if _ then _ else _)
    split
    next full =>
      rw [if_pos full] at value after
      exact .some (agrees.note value after)
    next room =>
      rw [if_neg room] at value after
      exact .some (agrees.note value after)
  | cwrite n nwrite =>
    have idle := holds.idleOut_iff n
    unfold Queue.act
    dsimp only
    by_cases busy : s.state.idleOut n = true
    · have unwritten : s.state.cwrite n nwrite = (Queue.nothing (n < 0), s.state) := by
        unfold CircBuf.cwrite Queue.nothing
        rw [if_pos busy]
        split <;> rfl
      have can : s.state.can (.cwrite n nwrite) = true := Bool.or_eq_true_iff.mpr (.inl busy)
      rw [if_pos can, if_pos busy, if_pos (idle.mp busy), unwritten]
      exact .some (agrees.note rfl holds)
    · have offered := holds.offered_eq (Bool.eq_false_iff.mpr busy)
      have can : s.state.can (.cwrite n nwrite) = true ↔
          -1 ≤ nwrite ∧ nwrite ≤ (q.state.take n.toNat).length := by
        unfold CircBuf.can
        dsimp only
        rw [Bool.eq_false_iff.mpr busy, Bool.false_or, offered, decide_eq_true_eq]
      rw [if_neg (mt idle.mpr busy)]
      by_cases possible : s.state.can (.cwrite n nwrite) = true
      · have wrote := holds.cwrite (Bool.eq_false_iff.mpr busy)
          (show nwrite ≤ _ by rw [offered]; exact (can.mp possible).2)
        rw [if_pos possible, if_pos (can.mp possible), if_neg busy, offered]
        exact .some (agrees.note wrote.1 wrote.2)
      · rw [if_neg possible, if_neg (mt can.mpr possible)]
        exact .none
  | cread n bytes =>
    have idle := holds.idleIn_iff n
    unfold Queue.act
    dsimp only
    by_cases busy : s.state.idleIn n = true
    · have unread : s.state.cread n bytes =
          (Queue.nothing (n < 0 ∨ (cbufsize : Int) < n), s.state) := by
        unfold CircBuf.cread Queue.nothing
        rw [if_pos busy]
        split <;> rfl
      have can : s.state.can (.cread n bytes) = true := by
        cases bytes with
        | none => rfl
        | some bytes => exact Bool.or_eq_true_iff.mpr (.inl busy)
      rw [if_pos can, if_pos (idle.mp busy), unread]
      exact .some (agrees.note rfl holds)
    · rw [if_neg (mt idle.mpr busy)]
      cases bytes with
      | none =>
        have failed : s.state.cread n none = (-1, s.state) := by
          unfold CircBuf.cread
          rw [if_neg busy]
          split <;> rfl
        show Option.Rel _ (some _) _
        rw [failed]
        exact .some (agrees.note rfl holds)
      | some bytes =>
        have asked := holds.asked_eq (Bool.eq_false_iff.mpr busy)
        have can : s.state.can (.cread n (some bytes)) = true ↔
            (bytes.length : Int) ≤ min n (cbufsize - q.state.length) := by
          unfold CircBuf.can
          dsimp only
          rw [Bool.eq_false_iff.mpr busy, Bool.false_or, decide_eq_true_eq, asked]
        dsimp only
        by_cases possible : s.state.can (.cread n (some bytes)) = true
        · have read := holds.cread (Bool.eq_false_iff.mpr busy)
            (show (bytes.length : Int) ≤ _ by rw [asked]; exact can.mp possible)
          rw [if_pos possible, if_pos (can.mp possible)]
          exact .some (agrees.note read.1 read.2)
        · rw [if_neg possible, if_neg (mt can.mpr possible)]
          exact .none

theorem Agrees.cinit (origin : Int → Byte) : Agrees origin ⟨.cinit origin, []⟩ ⟨[], []⟩ where
  holds := ⟨Int.le_refl 0, Int.natCast_pos.mpr (by decide), Nat.zero_le _, rfl, rfl,
    fun _ inside => absurd inside (Nat.not_lt_zero _), fun _ _ => rfl⟩
  answers := rfl

theorem act_takes (agrees : Agrees origin s q) (call : Call) :
    (∀ next, Transition.Takes CircBuf.act s call next →
      ∃ after, Transition.Takes Queue.act q call after ∧ Agrees origin next after) ∧
    ∀ after, Transition.Takes Queue.act q call after →
      ∃ next, Transition.Takes CircBuf.act s call next ∧ Agrees origin next after := by
  have both := act_agrees agrees call
  unfold Transition.Takes
  generalize CircBuf.act s call = one at both ⊢
  generalize Queue.act q call = other at both ⊢
  cases both with
  | none => exact ⟨nofun, nofun⟩
  | some agrees =>
    exact ⟨fun _ taken => ⟨_, rfl, Option.some.inj taken ▸ agrees⟩,
      fun _ taken => ⟨_, rfl, Option.some.inj taken ▸ agrees⟩⟩

theorem simulated {history : List Call}
    (run : Transition.Run (Transition.Takes CircBuf.act) ⟨.cinit origin, []⟩ history s) :
    ∃ q, Transition.Run (Transition.Takes Queue.act) ⟨[], []⟩ history q ∧ Agrees origin s q :=
  run.simulated (Agrees origin) (.cinit origin)
    fun _ call next _ agrees => (act_takes agrees call).1 next

end

/-- In every sequence of calls the buffer stands for a queue of at most CBUFSIZE bytes: the calls
return what they are to return for the queue and do to it what they are to do, and the pointers stay
inside the buffer. -/
theorem queue_refined {origin : Int → Byte} {s : Session CircBuf} {history : List Call}
    (run : Transition.Run (Transition.Takes CircBuf.act) ⟨.cinit origin, []⟩ history s) :
    ∃ queue, Transition.Run (Transition.Takes Queue.act) ⟨[], []⟩ history ⟨queue, s.answers⟩ ∧
      s.state.Holds origin queue ∧ 0 ≤ s.state.cPut ∧ s.state.cPut < cbufsize := by
  obtain ⟨⟨queue, answers⟩, queued, holds, same⟩ := simulated run
  obtain rfl : s.answers = answers := same
  exact ⟨queue, queued, holds, holds.put_inside⟩

/-- A buffer is filled and read with data that wrap around the end. -/
def tryCalls : List Call :=
  [.cread 400 (some (List.replicate 400 1)), .cwrite 500 399,
    .cread 300 (some (List.replicate 200 2)), .cungetc 3, .cputc 4, .cwrite 500 150,
    .cread 20 none, .cgetc, .clen]

theorem queue_refined_wrapped :
    ∃ queue, Transition.Run (Transition.Takes Queue.act) ⟨[], []⟩ tryCalls
        ⟨queue, (Transition.last CircBuf.act ⟨.cinit fun _ => 0, []⟩ tryCalls).answers⟩ ∧
      (Transition.last CircBuf.act ⟨.cinit fun _ => 0, []⟩ tryCalls).state.Holds (fun _ => 0)
        queue ∧
      0 ≤ (Transition.last CircBuf.act ⟨.cinit fun _ => 0, []⟩ tryCalls).state.cPut ∧
      (Transition.last CircBuf.act ⟨.cinit fun _ => 0, []⟩ tryCalls).state.cPut < cbufsize :=
  queue_refined (Transition.run_all (by decide +kernel))

/-- A caller sees of the buffer what it would see of the queue: the same calls are possible one
after another, and the same comes of them. -/
theorem queue_followed (origin : Int → Byte) (history : List Call) (answers : List Answer) :
    (∃ buffer, Transition.Run (Transition.Takes CircBuf.act) ⟨.cinit origin, []⟩ history
        ⟨buffer, answers⟩) ↔
      ∃ queue, Transition.Run (Transition.Takes Queue.act) ⟨[], []⟩ history ⟨queue, answers⟩ := by
  constructor
  · rintro ⟨buffer, run⟩
    obtain ⟨⟨queue, _⟩, queued, -, rfl⟩ := simulated run
    exact ⟨queue, queued⟩
  · rintro ⟨queue, run⟩
    obtain ⟨⟨buffer, _⟩, buffered, -, rfl⟩ := run.simulated
      (fun q s => Agrees origin s q) (.cinit origin)
      fun _ call after _ agrees => (act_takes agrees call).2 after
    exact ⟨buffer, buffered⟩

end NetworkUnix.Telnet.Cbuf
