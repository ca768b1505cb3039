/-
This file models the loop that goes over the options of a segment. The loop trusts the
length byte of an option, which it takes as a signed character: a length of zero keeps it
where it is, a negative one moves it back, and an option that begins in the last byte has
its length read behind the header. The file says for which option bytes the loop ends
inside the header and leaves a segment size that can be used.
-/

import NetworkUnix.Bbnnet.Tcp.Input

namespace NetworkUnix.Bbnnet.Options

/-! ### The loop over the options -/

/-- The size of `struct th`, which the options follow. -/
abbrev sizeofTh : Int := 40

/-- Size of TCP leader (bytes). -/
abbrev tcpsize : Int := 20

/-- A byte as a signed character. -/
def signed (byte : Byte) : Int := byte.toBitVec.toInt

/-- A short as received from the net. -/
def shortFromNet (mem : Int → Byte) (address : Int) : Nat :=
  256 * (mem address).toNat + (mem (address + 1)).toNat

/-- The variables of the loop. Addresses are counted from the segment, and `reads` keeps those
that were read. -/
structure Vars where
  p : Int
  i : Int
  tMaxseg : Int
  reads : List Int

/-- Before the first option. -/
def Vars.start (hlen tMaxseg : Int) : Vars where
  p := sizeofTh
  i := hlen - tcpsize
  tMaxseg := tMaxseg
  reads := []

/-- `*p++` -/
def Vars.kind (s : Vars) : Vars := { s with p := s.p + 1, reads := s.p :: s.reads }

/-- The maximum segment size, which follows the length byte. -/
def Vars.maxseg (mem : Int → Byte) (ifMtu : Int) (s : Vars) : Vars where
  p := s.p
  i := s.i
  tMaxseg := min (ifMtu - tcpipmax) (shortFromNet mem (s.p + 1))
  reads := (s.p + 2) :: (s.p + 1) :: s.reads

/-- `i -= *p; p += *p - 1` -/
def Vars.skip (mem : Int → Byte) (s : Vars) : Vars where
  p := s.p + (signed (mem s.p) - 1)
  i := s.i - signed (mem s.p)
  tMaxseg := s.tMaxseg
  reads := s.p :: s.reads

/-- One trip around the loop, and whether it goes on. `first` is whether the segment is the first
SYN of the connection. -/
def Vars.trip (mem : Int → Byte) (first : Bool) (ifMtu : Int) (s : Vars) : Vars × Bool :=
  match (mem s.p).toNat with
  | 0 => (s.kind, false)
  | 1 => ({ s.kind with i := s.i - 1 }, true)
  | 2 => ((if first then s.kind.maxseg mem ifMtu else s.kind).skip mem, true)
  | _ => (s.kind.skip mem, true)

/-- The loop, or `none` when the trips are used up before it ends. -/
def tcpOpt (mem : Int → Byte) (first : Bool) (ifMtu : Int) : Nat → Vars → Option Vars
  | 0, _ => none
  | trips + 1, s =>
    if 0 < s.i then
      if (s.trip mem first ifMtu).2 then tcpOpt mem first ifMtu trips (s.trip mem first ifMtu).1
      else some (s.trip mem first ifMtu).1
    else some s

/-! ### Lists of options -/

/-- The bytes from an address on are a list of options that ends at `last` or before: each has its
kind and its length inside, and the list goes on where the length says. The value is that of the
last maximum segment size, if the list has one and it counts. -/
inductive Listed (mem : Int → Byte) (first : Bool) (last : Int) : Int → Option Nat → Prop
  | past {p : Int} (beyond : last ≤ p) : Listed mem first last p none
  | ends {p : Int} (inside : p < last) (kind : (mem p).toNat = 0) : Listed mem first last p none
  | nop {p : Int} {value : Option Nat} (inside : p < last) (kind : (mem p).toNat = 1)
      (more : Listed mem first last (p + 1) value) : Listed mem first last p value
  | plain {p : Int} {value : Option Nat} (inside : p + 1 < last) (kind : 1 < (mem p).toNat)
      (ignored : (mem p).toNat = 2 → first = false)
      (more : Listed mem first last (p + signed (mem (p + 1))) value) :
      Listed mem first last p value
  | maxseg {p : Int} {value : Option Nat} (inside : p + 3 < last) (kind : (mem p).toNat = 2)
      (counts : first = true) (more : Listed mem first last (p + signed (mem (p + 1))) value) :
      Listed mem first last p (value.or (some (shortFromNet mem (p + 2))))

theorem Listed.length_ne_zero {mem : Int → Byte} {first : Bool} {last p : Int} {value : Option Nat}
    (listed : Listed mem first last p value) (inside : p < last) (kind : 1 < (mem p).toNat) :
    signed (mem (p + 1)) ≠ 0 := by
  induction listed with
  | past beyond => omega
  | ends _ other => omega
  | nop _ other => omega
  | plain _ _ _ _ inductionHypothesis =>
    intro zero
    rw [zero, Int.add_zero] at inductionHypothesis
    exact inductionHypothesis inside kind zero
  | maxseg _ _ _ _ inductionHypothesis =>
    intro zero
    rw [zero, Int.add_zero] at inductionHypothesis
    exact inductionHypothesis inside kind zero

/-! ### The loop follows the list -/

/-- The segment size after the options. -/
def sizeAfter (ifMtu before : Int) : Option Nat → Int
  | none => before
  | some len => min (ifMtu - tcpipmax) len

theorem sizeAfter_or (ifMtu before : Int) (value : Option Nat) (len : Nat) :
    sizeAfter ifMtu before (value.or (some len)) =
      sizeAfter ifMtu (min (ifMtu - tcpipmax) len) value := by
  cases value <;> rfl

section Loop

variable {mem : Int → Byte} {first : Bool} {ifMtu last : Int}

theorem trip_ends {s : Vars} (kind : (mem s.p).toNat = 0) :
    s.trip mem first ifMtu = (s.kind, false) := by
  unfold Vars.trip
  generalize (mem s.p).toNat = byte at kind
  subst kind
  rfl

theorem trip_nop {s : Vars} (kind : (mem s.p).toNat = 1) :
    s.trip mem first ifMtu = ({ s.kind with i := s.i - 1 }, true) := by
  unfold Vars.trip
  generalize (mem s.p).toNat = byte at kind
  subst kind
  rfl

theorem trip_plain {s : Vars} (kind : 1 < (mem s.p).toNat)
    (ignored : (mem s.p).toNat = 2 → first = false) :
    s.trip mem first ifMtu = (s.kind.skip mem, true) := by
  unfold Vars.trip
  split
  · omega
  · omega
  · rename_i two
    rw [ignored two, if_neg Bool.false_ne_true]
  · rfl

theorem trip_maxseg {s : Vars} (kind : (mem s.p).toNat = 2) (counts : first = true) :
    s.trip mem first ifMtu = ((s.kind.maxseg mem ifMtu).skip mem, true) := by
  unfold Vars.trip
  generalize (mem s.p).toNat = byte at kind
  subst kind counts
  rfl

theorem reads_trip (s : Vars) : s.reads ⊆ (s.trip mem first ifMtu).1.reads := by
  intro address member
  unfold Vars.trip
  split
  · exact .tail _ member
  · exact .tail _ member
  · split
    · exact .tail _ (.tail _ (.tail _ (.tail _ member)))
    · exact .tail _ (.tail _ member)
  · exact .tail _ (.tail _ member)

theorem reads_tcpOpt {trips : Nat} {s after : Vars}
    (result : tcpOpt mem first ifMtu trips s = some after) : s.reads ⊆ after.reads := by
  induction trips generalizing s with
  | zero => cases result
  | succ trips inductionHypothesis =>
    rw [tcpOpt] at result
    split at result
    · split at result
      · exact fun _ member => inductionHypothesis result (reads_trip s member)
      · rw [← Option.some.inj result]
        exact reads_trip s
    · rw [← Option.some.inj result]
      exact fun _ member => member

theorem listed_of_tcpOpt {trips : Nat} {s after : Vars} (edge : s.p + s.i = last)
    (result : tcpOpt mem first ifMtu trips s = some after) (inside : ∀ a ∈ after.reads, a < last) :
    ∃ value, Listed mem first last s.p value ∧
      after.tMaxseg = sizeAfter ifMtu s.tMaxseg value := by
  induction trips generalizing s with
  | zero => cases result
  | succ trips inductionHypothesis =>
    rw [tcpOpt] at result
    split at result
    swap
    · rw [← Option.some.inj result]
      exact ⟨none, .past (by omega), rfl⟩
    rename_i more
    rcases Nat.lt_or_ge 1 (mem s.p).toNat with option | simple
    · by_cases counts : (mem s.p).toNat = 2 ∧ first = true
      · rw [trip_maxseg counts.1 counts.2, if_pos rfl] at result
        obtain ⟨value, listed, size⟩ := inductionHypothesis
          (show s.p + 1 + (signed (mem (s.p + 1)) - 1) + (s.i - signed (mem (s.p + 1))) = last by
            omega) result
        have value_read := inside (s.p + 1 + 2)
          (reads_tcpOpt result (.tail _ (.head _)))
        have next : s.p + 1 + (signed (mem (s.p + 1)) - 1) = s.p + signed (mem (s.p + 1)) := by
          omega
        replace listed : Listed mem first last (s.p + 1 + (signed (mem (s.p + 1)) - 1)) value :=
          listed
        rw [next] at listed
        refine ⟨_, .maxseg (by omega) counts.1 counts.2 listed, ?_⟩
        rw [sizeAfter_or, size]
        show sizeAfter ifMtu (min _ (shortFromNet mem (s.p + 1 + 1) : Int)) value = _
        rw [Int.add_assoc]
        rfl
      · have ignored : (mem s.p).toNat = 2 → first = false := fun two =>
          Bool.eq_false_of_not_eq_true fun isFirst => counts ⟨two, isFirst⟩
        rw [trip_plain option ignored, if_pos rfl] at result
        obtain ⟨value, listed, size⟩ := inductionHypothesis
          (show s.p + 1 + (signed (mem (s.p + 1)) - 1) + (s.i - signed (mem (s.p + 1))) = last by
            omega) result
        have length_read := inside (s.p + 1) (reads_tcpOpt result (.head _))
        have next : s.p + 1 + (signed (mem (s.p + 1)) - 1) = s.p + signed (mem (s.p + 1)) := by
          omega
        replace listed : Listed mem first last (s.p + 1 + (signed (mem (s.p + 1)) - 1)) value :=
          listed
        rw [next] at listed
        exact ⟨value, .plain length_read option ignored listed, size⟩
    · rcases Nat.lt_or_ge 0 (mem s.p).toNat with one | zero
      · have kind : (mem s.p).toNat = 1 := by omega
        rw [trip_nop kind, if_pos rfl] at result
        obtain ⟨value, listed, size⟩ := inductionHypothesis
          (show s.p + 1 + (s.i - 1) = last by omega) result
        exact ⟨value, .nop (by omega) kind listed, size⟩
      · have kind : (mem s.p).toNat = 0 := by omega
        rw [trip_ends kind, if_neg Bool.false_ne_true] at result
        rw [← Option.some.inj result]
        exact ⟨none, .ends (by omega) kind, rfl⟩

theorem tcpOpt_of_listed {p : Int} {value : Option Nat} (listed : Listed mem first last p value) :
    ∀ s : Vars, s.p = p → s.p + s.i = last → (∀ a ∈ s.reads, a < last) →
      ∃ trips after, tcpOpt mem first ifMtu trips s = some after ∧
        (∀ a ∈ after.reads, a < last) ∧ after.tMaxseg = sizeAfter ifMtu s.tMaxseg value := by
  induction listed with
  | past beyond =>
    rintro s rfl edge inside
    exact ⟨1, s, if_neg (by omega), inside, rfl⟩
  | ends within kind =>
    rintro s rfl edge inside
    refine ⟨1, s.kind, ?_, List.forall_mem_cons.mpr ⟨within, inside⟩, rfl⟩
    rw [tcpOpt, if_pos (by omega), trip_ends kind, if_neg Bool.false_ne_true]
  | nop within kind _ inductionHypothesis =>
    rintro s rfl edge inside
    obtain ⟨trips, after, result, reads, size⟩ := inductionHypothesis { s.kind with i := s.i - 1 }
      rfl (show s.p + 1 + (s.i - 1) = _ by omega) (List.forall_mem_cons.mpr ⟨within, inside⟩)
    refine ⟨trips + 1, after, ?_, reads, size⟩
    rw [tcpOpt, if_pos (by omega), trip_nop kind, if_pos rfl]
    exact result
  | plain within kind ignored _ inductionHypothesis =>
    rintro s rfl edge inside
    obtain ⟨trips, after, result, reads, size⟩ := inductionHypothesis (s.kind.skip mem)
      (show s.p + 1 + (signed (mem (s.p + 1)) - 1) = _ by omega)
      (show s.p + 1 + (signed (mem (s.p + 1)) - 1) + (s.i - signed (mem (s.p + 1))) = _ by omega)
      (List.forall_mem_cons.mpr ⟨within, List.forall_mem_cons.mpr ⟨by omega, inside⟩⟩)
    refine ⟨trips + 1, after, ?_, reads, size⟩
    rw [tcpOpt, if_pos (by omega), trip_plain kind ignored, if_pos rfl]
    exact result
  | maxseg within kind counts _ inductionHypothesis =>
    rintro s rfl edge inside
    obtain ⟨trips, after, result, reads, size⟩ := inductionHypothesis
      ((s.kind.maxseg mem ifMtu).skip mem)
      (show s.p + 1 + (signed (mem (s.p + 1)) - 1) = _ by omega)
      (show s.p + 1 + (signed (mem (s.p + 1)) - 1) + (s.i - signed (mem (s.p + 1))) = _ by omega)
      (List.forall_mem_cons.mpr ⟨show s.p + 1 < _ by omega,
        List.forall_mem_cons.mpr ⟨show s.p + 1 + 2 < _ by omega,
          List.forall_mem_cons.mpr ⟨show s.p + 1 + 1 < _ by omega,
            List.forall_mem_cons.mpr ⟨by omega, inside⟩⟩⟩⟩)
    refine ⟨trips + 1, after, ?_, reads, ?_⟩
    · rw [tcpOpt, if_pos (by omega), trip_maxseg kind counts, if_pos rfl]
      exact result
    · rw [sizeAfter_or, size]
      show sizeAfter ifMtu (min _ (shortFromNet mem (s.p + 1 + 1) : Int)) _ = _
      rw [Int.add_assoc]
      rfl

end Loop

/-! ### Inside the header -/

/-- The loop ends, has read no byte at or beyond the end of the header, and leaves a segment size
that is positive and no larger than the interface takes, or as it was. -/
def Contained (mem : Int → Byte) (first : Bool) (ifMtu hlen tMaxseg : Int) : Prop :=
  ∃ trips after, tcpOpt mem first ifMtu trips (.start hlen tMaxseg) = some after ∧
    (∀ a ∈ after.reads, a < sizeofTh - tcpsize + hlen) ∧ 0 < after.tMaxseg ∧
    (after.tMaxseg ≤ ifMtu - tcpipmax ∨ after.tMaxseg = tMaxseg)

/-- The segment size that counts is positive: the last one in the list, with an interface that
takes more than a header, or else the one there was. -/
def Usable (ifMtu tMaxseg : Int) : Option Nat → Prop
  | none => 0 < tMaxseg
  | some len => 0 < len ∧ tcpipmax < ifMtu

theorem usable_iff (ifMtu tMaxseg : Int) (value : Option Nat) :
    0 < sizeAfter ifMtu tMaxseg value ↔ Usable ifMtu tMaxseg value := by
  cases value with
  | none => exact Iff.rfl
  | some len =>
    show 0 < min (ifMtu - tcpipmax) (len : Int) ↔ 0 < len ∧ tcpipmax < ifMtu
    omega

/-- The options are parsed inside the header exactly when its bytes are a list of options with a
usable segment size. -/
theorem tcp_opt_contained (mem : Int → Byte) (first : Bool) (ifMtu hlen tMaxseg : Int) :
    Contained mem first ifMtu hlen tMaxseg ↔
      ∃ value, Listed mem first (sizeofTh - tcpsize + hlen) sizeofTh value ∧
        Usable ifMtu tMaxseg value := by
  have edge : (Vars.start hlen tMaxseg).p + (Vars.start hlen tMaxseg).i =
      sizeofTh - tcpsize + hlen := by
    show sizeofTh + (hlen - tcpsize) = _
    omega
  constructor
  · rintro ⟨trips, after, result, inside, positive, _⟩
    obtain ⟨value, listed, size⟩ := listed_of_tcpOpt edge result inside
    exact ⟨value, listed, (usable_iff ..).mp (size ▸ positive)⟩
  · rintro ⟨value, listed, usable⟩
    obtain ⟨trips, after, result, inside, size⟩ := @tcpOpt_of_listed _ _ ifMtu _ _ _ listed
      (.start hlen tMaxseg) rfl edge (fun _ member => absurd member List.not_mem_nil)
    refine ⟨trips, after, result, inside, size ▸ (usable_iff ..).mpr usable, ?_⟩
    rw [size]
    cases value with
    | none => exact .inr rfl
    | some len => exact .inl (Int.min_le_left _ _)

/-- The options of a header of 24 bytes are four zeros, but for the first two bytes. -/
def optionBytes (kind length : Byte) (address : Int) : Byte :=
  if address = 40 then kind else if address = 41 then length else 0

/-- An option of length zero keeps the loop from ending. -/
theorem zero_length_loops : ¬ Contained (optionBytes 3 0) false 1019 24 496 := by
  rintro ⟨trips, after, result, inside, -⟩
  obtain ⟨value, listed, -⟩ := listed_of_tcpOpt rfl result inside
  exact listed.length_ne_zero (by decide) (by decide) rfl

end NetworkUnix.Bbnnet.Options
