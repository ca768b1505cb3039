/-
This file models the grave encoding of MMDF, in which a control character or one of a few
others becomes a pair of printable ones, and proves that decoding gives the text back.
-/

import NetworkUnix.Mmdf.Rml

namespace NetworkUnix.Mmdf

def grave : Byte := 0o140

/-- d_tograve -/
def dTograve (b : Byte) : List Byte :=
  let c := b &&& 0o177
  if 0o1 ≤ c ∧ c ≤ 0o37 then
    if c ≤ 0o32 then [grave, c + 0o100] else [grave, c + (0x61 - 0o33)]
  else if c = 0 then [grave, 0x20]
  else if c = 0x40 then [grave, 0x30]
  else if c = 0x5e then [grave, 0x31]
  else if c = grave then [grave, grave]
  else if c = 0o177 then [grave, 0x32]
  else [c]

/-- What a character after a grave stands for. -/
def dUngrave (c : Byte) : List Byte :=
  if 0x41 ≤ c ∧ c ≤ 0x5a then [c - 0o100]
  else if 0x61 ≤ c ∧ c ≤ 0x65 then [c - (0x61 - 0o33)]
  else if c = 0x30 then [0x40]
  else if c = 0x31 then [0x5e]
  else if c = 0x32 then [0o177]
  else if c = grave then [grave]
  else if c = 0x20 then [0]
  else [grave, c]

/-- d_fromgrave: what is put into the buffer, without the null behind it. -/
def dFromgrave : List Byte → List Byte
  | [] => []
  | [c] => if c = 0 then [] else [c]
  | c :: d :: rest =>
    if c = 0 then []
    else if c ≠ grave then c :: dFromgrave (d :: rest)
    else if d = 0 then [grave]
    else dUngrave d ++ dFromgrave rest

/-- dlread: the code and the text. -/
def dlread : Got → Option (Byte × List Byte)
  | .message code text => some (code, dFromgrave text)
  | _ => none

/-- A text does not end in the middle of a pair. -/
def wholePairs : List Byte → Bool
  | [] => true
  | [c] => decide (c ≠ grave)
  | c :: d :: rest => if c = grave then wholePairs rest else wholePairs (d :: rest)

/-! ### One character -/

theorem dTograve_cases : ∀ b : Byte,
    dTograve b = [b &&& 0o177] ∧ (b &&& 0o177) ≠ 0 ∧ (b &&& 0o177) ≠ grave ∨
      dTograve b = [grave, (dTograve b).getLastD 0] ∧ (dTograve b).getLastD 0 ≠ 0 ∧
        dUngrave ((dTograve b).getLastD 0) = [b &&& 0o177] := by
  decide +kernel

/-- The characters of an encoded text. -/
def graveChar (c : Byte) : Bool :=
  decide (0x20 ≤ c) && decide (c ≤ 0x7e) && decide (c ≠ 0x40) && decide (c ≠ 0x5e)

theorem graveChar_dTograve : ∀ b : Byte, (dTograve b).all graveChar = true := by decide +kernel

theorem length_dTograve (b : Byte) : 1 ≤ (dTograve b).length ∧ (dTograve b).length ≤ 2 := by
  rcases dTograve_cases b with ⟨single, _⟩ | ⟨pair, _⟩
  · rw [single]
    exact ⟨Nat.le_refl 1, Nat.le_succ 1⟩
  · rw [pair]
    exact ⟨Nat.le_succ 1, Nat.le_refl 2⟩

theorem not_null_of_graveChar {c : Byte} (char : graveChar c = true) : c ≠ 0 := by
  rintro rfl
  exact absurd char (by decide)

/-! ### Texts -/

theorem dFromgrave_dTograve (b : Byte) (text : List Byte) :
    dFromgrave (dTograve b ++ text) = (b &&& 0o177) :: dFromgrave text := by
  rcases dTograve_cases b with ⟨single, notNull, notGrave⟩ | ⟨pair, notNull, back⟩
  · rw [single]
    cases text with
    | nil =>
      show (if _ then _ else _) = _
      rw [if_neg notNull]
      rfl
    | cons d rest =>
      show (if _ then _ else if _ then _ else _) = _
      rw [if_neg notNull, if_pos notGrave]
  · rw [pair]
    show (if grave = 0 then _ else if grave ≠ grave then _ else _) = _
    rw [if_neg (by decide), if_neg (fun differs => differs rfl), if_neg notNull, back]
    rfl

theorem dFromgrave_flatMap (bytes : List Byte) :
    dFromgrave (bytes.flatMap dTograve) = bytes.map (· &&& 0o177) := by
  induction bytes with
  | nil => rfl
  | cons b rest inductionHypothesis =>
    rw [List.flatMap_cons, dFromgrave_dTograve, inductionHypothesis]
    rfl

theorem wholePairs_dTograve (b : Byte) (text : List Byte) :
    wholePairs (dTograve b ++ text) = wholePairs text := by
  rcases dTograve_cases b with ⟨single, _, notGrave⟩ | ⟨pair, _⟩
  · rw [single]
    cases text with
    | nil => exact decide_eq_true notGrave
    | cons d rest => exact if_neg notGrave
  · rw [pair]
    exact if_pos rfl

theorem wholePairs_flatMap (bytes : List Byte) : wholePairs (bytes.flatMap dTograve) = true := by
  induction bytes with
  | nil => rfl
  | cons b rest inductionHypothesis =>
    rw [List.flatMap_cons, wholePairs_dTograve, inductionHypothesis]

theorem graveChar_flatMap (bytes : List Byte) :
    ∀ c ∈ bytes.flatMap dTograve, graveChar c = true := by
  intro c member
  obtain ⟨b, _, inside⟩ := List.mem_flatMap.mp member
  exact List.all_eq_true.mp (graveChar_dTograve b) c inside

theorem seven_bits {b : Byte} (seven : b < 0o200) : b &&& 0o177 = b := by
  have all : ∀ b : Byte, b < 0o200 → b &&& 0o177 = b := by decide +kernel
  exact all b seven

end NetworkUnix.Mmdf
