/-
This file models the loop of `PsipIn` that goes over the internet options of a datagram.
It looks for the option with security, precedence and TCC and steps over any other by the
byte behind its code, which it takes as a signed character and of which only zero is
guarded against. The file says for which option bytes the loop ends without going back and
stays within the options.
-/

import NetworkUnix.Lib.Halting
import NetworkUnix.UserTcp.Tcb

namespace NetworkUnix.UserTcp.Options

open Halting

/-! ### The loop -/

/-- OPTSPT -/
def optspt : Byte := 2

/-- Where the option field of a header in TcpIn starts: behind the BSL leader and the fixed part. -/
def optionsAt : Int := 36

/-- `IOptions[i]` -/
def iOptions (tcpIn : Int → Byte) (i : Int) : Byte := tcpIn (optionsAt + i)

/-- The bytes of options that a header announces in `IVerHdr`. -/
def area (iVerHdr : Byte) : Int := (((iVerHdr &&& 0o17).toNat : Int) - 5) * 4

/-- The variables of the loop: the index, and what the last SPT option gave. -/
structure Scan where
  i : Int
  spt : Option Spt
  deriving DecidableEq

/-- Before the loop. -/
def Scan.start : Scan := ⟨0, none⟩

variable (tcpIn : Int → Byte) (size : Int)

/-- One trip around the loop; nothing is done once the index is behind the options. -/
def Scan.trip (s : Scan) : Scan :=
  if size ≤ s.i then s
  else if iOptions tcpIn s.i = optspt then
    ⟨short (s.i + 4), some ⟨iOptions tcpIn (s.i + 2), iOptions tcpIn (s.i + 3)⟩⟩
  else if iOptions tcpIn (s.i + 1) = 0 then { s with i := size }
  else { s with i := short (s.i + (iOptions tcpIn (s.i + 1)).toInt) }

/-- The indices of the option bytes that a trip reads. -/
def Scan.reads (s : Scan) : List Int :=
  if size ≤ s.i then []
  else if iOptions tcpIn s.i = optspt then [s.i, s.i + 2, s.i + 3]
  else [s.i, s.i + 1]

/-- What is taken from an SPT option comes from one that is wholly within the options. -/
def Scan.Whole (s : Scan) : Prop :=
  ∀ spt ∈ s.spt, ∃ p, 0 ≤ p ∧ p + 4 ≤ size ∧ iOptions tcpIn p = optspt ∧
    spt = ⟨iOptions tcpIn (p + 2), iOptions tcpIn (p + 3)⟩

/-- The loop ends, never moves backwards, reads only option bytes, and takes the values of an
option that is there. -/
structure Sound (first : Scan) : Prop where
  ends : Halts (Scan.trip tcpIn size) (fun s => size ≤ s.i) first
  forward : Always (Scan.trip tcpIn size) (fun s => s.i ≤ (s.trip tcpIn size).i) first
  inside : Always (Scan.trip tcpIn size)
    (fun s => ∀ index ∈ s.reads tcpIn size, 0 ≤ index ∧ index < size) first
  whole : Always (Scan.trip tcpIn size) (Scan.Whole tcpIn size) first

/-! ### Lists of options -/

/-- The bytes from an index on are a list of options: an SPT option has its four bytes, and any
other has its code and its length, which is positive, or is zero and ends the list. -/
inductive Listed : Int → Prop
  | past {i : Int} (beyond : size ≤ i) : Listed i
  | spt {i : Int} (code : iOptions tcpIn i = optspt) (inside : i + 4 ≤ size)
      (more : Listed (i + 4)) : Listed i
  | last {i : Int} (code : iOptions tcpIn i ≠ optspt) (inside : i + 2 ≤ size)
      (length : iOptions tcpIn (i + 1) = 0) : Listed i
  | other {i : Int} (code : iOptions tcpIn i ≠ optspt) (inside : i + 2 ≤ size)
      (length : 0 < (iOptions tcpIn (i + 1)).toInt)
      (more : Listed (i + (iOptions tcpIn (i + 1)).toInt)) : Listed i

variable {tcpIn : Int → Byte} {size : Int}

/-! ### One trip -/

theorem trip_past {s : Scan} (past : size ≤ s.i) : s.trip tcpIn size = s := if_pos past

theorem trip_spt {s : Scan} (here : s.i < size) (code : iOptions tcpIn s.i = optspt) :
    s.trip tcpIn size =
      ⟨short (s.i + 4), some ⟨iOptions tcpIn (s.i + 2), iOptions tcpIn (s.i + 3)⟩⟩ := by
  unfold Scan.trip
  rw [if_neg (by omega), if_pos code]

theorem trip_last {s : Scan} (here : s.i < size) (code : iOptions tcpIn s.i ≠ optspt)
    (length : iOptions tcpIn (s.i + 1) = 0) : s.trip tcpIn size = { s with i := size } := by
  unfold Scan.trip
  rw [if_neg (by omega), if_neg code, if_pos length]

theorem trip_other {s : Scan} (here : s.i < size) (code : iOptions tcpIn s.i ≠ optspt)
    (length : iOptions tcpIn (s.i + 1) ≠ 0) : s.trip tcpIn size =
      { s with i := short (s.i + (iOptions tcpIn (s.i + 1)).toInt) } := by
  unfold Scan.trip
  rw [if_neg (by omega), if_neg code, if_neg length]

theorem reads_spt {s : Scan} (here : s.i < size) (code : iOptions tcpIn s.i = optspt) :
    s.reads tcpIn size = [s.i, s.i + 2, s.i + 3] := by
  unfold Scan.reads
  rw [if_neg (by omega), if_pos code]

theorem reads_other {s : Scan} (here : s.i < size) (code : iOptions tcpIn s.i ≠ optspt) :
    s.reads tcpIn size = [s.i, s.i + 1] := by
  unfold Scan.reads
  rw [if_neg (by omega), if_neg code]

theorem short_small {i : Int} (low : -200 ≤ i) (high : i ≤ 200) : short i = i := by
  unfold short
  exact Int.bmod_eq_of_le (by omega) (by omega)

theorem byte_bounds (byte : Byte) : -128 ≤ byte.toInt ∧ byte.toInt ≤ 127 := by
  have low := BitVec.le_toInt byte
  have high := BitVec.toInt_lt (x := byte)
  omega

/-! ### The loop over a list -/

theorem always_cons {State : Type} {next : State → State} {fine : State → Prop} {state : State}
    (now : fine state) (later : Always next fine (next state)) : Always next fine state := by
  intro steps
  cases steps with
  | zero => exact now
  | succ steps => exact later steps

theorem Sound.past {s : Scan} (past : size ≤ s.i) (whole : s.Whole tcpIn size) :
    Sound tcpIn size s := by
  have stays (state : Scan) (here : state = s) : state.trip tcpIn size = s := by
    rw [here]
    exact trip_past past
  have always : Always (Scan.trip tcpIn size) (fun state => state = s) s :=
    always_of_kept rfl stays
  refine ⟨.stop past, ?_, ?_, ?_⟩
  · intro steps
    rw [always steps]
    exact Int.le_of_eq (congrArg Scan.i (trip_past past)).symm
  · intro steps
    rw [always steps]
    show ∀ index ∈ s.reads tcpIn size, 0 ≤ index ∧ index < size
    unfold Scan.reads
    rw [if_pos past]
    exact fun _ member => absurd member List.not_mem_nil
  · intro steps
    rw [always steps]
    exact whole

theorem Sound.cons {s : Scan} (forward : s.i ≤ (s.trip tcpIn size).i)
    (inside : ∀ index ∈ s.reads tcpIn size, 0 ≤ index ∧ index < size)
    (whole : s.Whole tcpIn size) (more : Sound tcpIn size (s.trip tcpIn size)) :
    Sound tcpIn size s where
  ends := .step more.ends
  forward := always_cons forward more.forward
  inside := always_cons inside more.inside
  whole := always_cons whole more.whole

theorem Listed.sound (small : size ≤ 40) {i : Int} (listed : Listed tcpIn size i) (low : 0 ≤ i)
    (spt : Option Spt) (whole : Scan.Whole tcpIn size ⟨i, spt⟩) :
    Sound tcpIn size ⟨i, spt⟩ := by
  induction listed generalizing spt with
  | past beyond => exact .past beyond whole
  | @spt i code inside more inductionHypothesis =>
    have here : (⟨i, spt⟩ : Scan).i < size := show i < size by omega
    have next := trip_spt here code
    rw [short_small (show -200 ≤ i + 4 by omega) (show i + 4 ≤ 200 by omega)] at next
    have taken : Scan.Whole tcpIn size
        ⟨i + 4, some ⟨iOptions tcpIn (i + 2), iOptions tcpIn (i + 3)⟩⟩ := by
      intro spt given
      exact ⟨i, low, inside, code, (Option.some.inj given).symm⟩
    refine .cons ?_ ?_ whole ?_
    · rw [next]
      show i ≤ i + 4
      omega
    · rw [reads_spt here code]
      show ∀ index ∈ [i, i + 2, i + 3], 0 ≤ index ∧ index < size
      simp only [List.mem_cons, List.not_mem_nil, or_false]
      rintro index (rfl | rfl | rfl) <;> omega
    · rw [next]
      exact inductionHypothesis (by omega) _ taken
  | @last i code inside length =>
    have here : (⟨i, spt⟩ : Scan).i < size := show i < size by omega
    have next := trip_last here code length
    refine .cons ?_ ?_ whole ?_
    · rw [next]
      exact Int.le_of_lt here
    · rw [reads_other here code]
      show ∀ index ∈ [i, i + 1], 0 ≤ index ∧ index < size
      simp only [List.mem_cons, List.not_mem_nil, or_false]
      rintro index (rfl | rfl) <;> omega
    · rw [next]
      exact .past (Int.le_refl _) whole
  | @other i code inside length more inductionHypothesis =>
    have here : (⟨i, spt⟩ : Scan).i < size := show i < size by omega
    have bounds := byte_bounds (iOptions tcpIn (i + 1))
    have next := trip_other here code (fun zero => by
      have zero : iOptions tcpIn (i + 1) = 0 := zero
      rw [zero] at length
      exact absurd length (by decide))
    rw [short_small (show -200 ≤ i + (iOptions tcpIn (i + 1)).toInt by omega)
      (show i + (iOptions tcpIn (i + 1)).toInt ≤ 200 by omega)] at next
    refine .cons ?_ ?_ whole ?_
    · rw [next]
      show i ≤ i + _
      omega
    · rw [reads_other here code]
      show ∀ index ∈ [i, i + 1], 0 ≤ index ∧ index < size
      simp only [List.mem_cons, List.not_mem_nil, or_false]
      rintro index (rfl | rfl) <;> omega
    · rw [next]
      exact inductionHypothesis (by omega) spt whole

theorem Sound.listed (small : size ≤ 40) {s : Scan} (sound : Sound tcpIn size s) :
    Listed tcpIn size s.i := by
  obtain ⟨ends, forward, inside, -⟩ := sound
  induction ends with
  | stop past => exact .past past
  | @step s _ inductionHypothesis =>
    have more := inductionHypothesis forward.later inside.later
    have forward := forward.now
    have inside := inside.now
    by_cases past : size ≤ s.i
    · exact .past past
    have here : s.i < size := by omega
    by_cases code : iOptions tcpIn s.i = optspt
    · rw [reads_spt here code] at inside
      have first := inside s.i (by simp)
      have fourth := inside (s.i + 3) (by simp)
      rw [trip_spt here code] at more
      change Listed tcpIn size (short (s.i + 4)) at more
      rw [short_small (by omega) (by omega)] at more
      exact .spt code (by omega) more
    · rw [reads_other here code] at inside
      have first := inside s.i (by simp)
      have second := inside (s.i + 1) (by simp)
      by_cases length : iOptions tcpIn (s.i + 1) = 0
      · exact .last code (by omega) length
      · have bounds := byte_bounds (iOptions tcpIn (s.i + 1))
        have notZero : (iOptions tcpIn (s.i + 1)).toInt ≠ 0 := fun zero =>
          length (BitVec.eq_of_toInt_eq zero)
        rw [trip_other here code length] at more forward
        change Listed tcpIn size (short (s.i + (iOptions tcpIn (s.i + 1)).toInt)) at more
        change s.i ≤ short (s.i + (iOptions tcpIn (s.i + 1)).toInt) at forward
        rw [short_small (by omega) (by omega)] at more forward
        exact .other code (by omega) (by omega) more

theorem area_le (iVerHdr : Byte) : area iVerHdr ≤ 40 := by
  have fewer : (iVerHdr &&& 0o17).toNat ≤ 15 := by
    rw [BitVec.toNat_and]
    exact Nat.and_le_right
  unfold area
  omega

/-- Option scanning is sound for the datagrams whose option bytes are a list of options in which
every option other than SPT has a positive length, or a length of zero that ends the list, and in
which no SPT option and no code and length go beyond the header. -/
theorem scan_sound_iff (iVerHdr : Byte) (tcpIn : Int → Byte) :
    Sound tcpIn (area iVerHdr) .start ↔ Listed tcpIn (area iVerHdr) 0 := by
  refine ⟨Sound.listed (area_le iVerHdr), fun listed => ?_⟩
  exact listed.sound (area_le iVerHdr) (Int.le_refl 0) none fun _ none => by cases none

/-- A header of six words whose options are a one and a length of minus one. -/
def turned (index : Int) : Byte :=
  if index = 17 then 0x46 else if index = 36 then 1 else if index = 37 then 0xff else 0

/-- The loop goes back to the byte before the options and from there to their first one again, so
it never ends. -/
theorem scan_hangs : area (turned 17) = 4 ∧
    ¬ Halts (Scan.trip turned (area (turned 17))) (fun s => area (turned 17) ≤ s.i) .start := by
  have size : area (turned 17) = 4 := by decide
  refine ⟨size, ?_⟩
  rw [size]
  refine @not_halts Scan _ _ _ (fun s => s = ⟨0, none⟩ ∨ s = ⟨-1, none⟩) ?_ ?_ (.inl rfl)
  · rintro _ (rfl | rfl) <;> decide
  · rintro _ (rfl | rfl)
    · exact .inr (by decide)
    · exact .inl (by decide)

end NetworkUnix.UserTcp.Options
