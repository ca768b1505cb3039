/-
This file proves that a line carries its message: what `d_sndmsg` writes is one line, and
`d_getmsg` finds in it the number, the code and the text that were put there.
-/

import NetworkUnix.Mmdf.Rml
import Mathlib.Algebra.GroupWithZero.Nat

namespace NetworkUnix.Mmdf

/-! ### Hex numbers -/

theorem dDigit_dChar : ∀ digit < 16, dDigit (dChar digit) = digit := by decide

theorem dIshex_dChar : ∀ digit < 16, dIshex (dChar digit) = true := by decide

theorem printable_dChar : ∀ digit < 16, printable (dChar digit) = true := by decide

theorem dAtoh_append (places : List Byte) (c : Byte) :
    dAtoh (places ++ [c]) = dAtoh places * 16 + dDigit c := by
  unfold dAtoh
  rw [List.foldl_append]
  rfl

theorem dAtoh_dHtoa {value nplaces : Nat} (fits : value < 16 ^ nplaces) :
    dAtoh (dHtoa value nplaces) = value := by
  induction nplaces generalizing value with
  | zero =>
    rw [Nat.pow_zero] at fits
    rw [show value = 0 by omega]
    rfl
  | succ nplaces inductionHypothesis =>
    rw [Nat.pow_succ] at fits
    rw [dHtoa, dAtoh_append, inductionHypothesis (Nat.div_lt_of_lt_mul (by omega)),
      dDigit_dChar _ (Nat.mod_lt _ (by decide))]
    omega

theorem all_dHtoa {test : Byte → Bool} (digits : ∀ digit < 16, test (dChar digit) = true)
    (value nplaces : Nat) : (dHtoa value nplaces).all test = true := by
  induction nplaces generalizing value with
  | zero => rfl
  | succ nplaces inductionHypothesis =>
    rw [dHtoa, List.all_append, inductionHypothesis, Bool.true_and, List.all_cons,
      digits _ (Nat.mod_lt _ (by decide))]
    rfl

theorem length_dHtoa (value nplaces : Nat) : (dHtoa value nplaces).length = nplaces := by
  induction nplaces generalizing value with
  | zero => rfl
  | succ nplaces inductionHypothesis =>
    rw [dHtoa, List.length_append, inductionHypothesis]
    rfl

theorem checksum_lt (text : List Byte) : checksum text < 16 ^ 4 := by
  have above := Int.emod_nonneg (text.map BitVec.toInt).sum (b := 2 ^ 16) (by decide)
  have below := Int.emod_lt_of_pos (text.map BitVec.toInt).sum (b := 2 ^ 16) (by decide)
  unfold checksum
  omega

/-! ### Lines -/

/-- The line without its newline. -/
def bare (seqno : Nat) (code : Byte) (text : List Byte) : List Byte :=
  dHtoa (checksum (dHtoa seqno 1 ++ code :: cstring text)) 4 ++
    (dHtoa seqno 1 ++ code :: cstring text)

theorem newline_not_printable : printable newline = false := by decide

theorem rawLines_plain {text : List Byte} (plain : text.all printable = true) :
    rawLines (text ++ [newline]) = [text] := by
  induction text with
  | nil => rfl
  | cons c rest inductionHypothesis =>
    rw [List.all_cons, Bool.and_eq_true] at plain
    rw [List.cons_append, rawLines, if_neg, inductionHypothesis plain.2]
    rintro rfl
    exact Bool.false_ne_true (newline_not_printable.symm.trans plain.1)

theorem all_bare {seqno : Nat} {code : Byte} {text : List Byte}
    (plain : (code :: cstring text).all printable = true) :
    (bare seqno code text).all printable = true := by
  unfold bare
  rw [List.all_append, List.all_append, all_dHtoa printable_dChar, all_dHtoa printable_dChar, plain]
  rfl

theorem rawLines_lineOf (seqno : Nat) {code : Byte} {text : List Byte}
    (plain : (code :: cstring text).all printable = true) :
    rawLines (lineOf seqno code text) = [bare seqno code text] :=
  rawLines_plain (all_bare plain)

theorem heard_bare {linelgh seqno : Nat} {code : Byte} {text : List Byte} (hex : seqno < 16)
    (plain : (code :: cstring text).all printable = true)
    (fits : (cstring text).length + headlngh ≤ linelgh) :
    heard linelgh (bare seqno code text) =
      .message (seqno % 8) (decide (seqno / 8 % 2 = 1)) code (cstring text) := by
  have kept : (bare seqno code text).filter printable = bare seqno code text :=
    List.filter_eq_self.mpr (List.all_eq_true.mp (all_bare plain))
  have length : (bare seqno code text).length = (cstring text).length + headlngh := by
    unfold bare headlngh
    rw [List.length_append, List.length_append, length_dHtoa, length_dHtoa, List.length_cons]
    omega
  have digits := all_dHtoa dIshex_dChar (checksum (dHtoa seqno 1 ++ code :: cstring text)) 4
  have sum := dAtoh_dHtoa (checksum_lt (dHtoa seqno 1 ++ code :: cstring text))
  have number := @dAtoh_dHtoa seqno 1 hex
  have four := length_dHtoa (checksum (dHtoa seqno 1 ++ code :: cstring text)) 4
  unfold heard
  dsimp only
  rw [kept, if_neg (by omega)]
  unfold bare
  rw [show dHtoa seqno 1 = [dChar (seqno % 16)] from rfl] at *
  match dHtoa (checksum ([dChar (seqno % 16)] ++ code :: cstring text)) 4, four, digits, sum with
  | [a, b, c, d], _, digits, sum =>
    show (if [a, b, c, d].all dIshex = true ∧ _ = dAtoh [a, b, c, d] then
      Heard.message (dAtoh [dChar (seqno % 16)] % 8) _ code (cstring text) else .ignored) = _
    rw [if_pos ⟨digits, sum.symm⟩, number]

theorem cstring_plain {text : List Byte} (plain : text.all printable = true) :
    cstring text = text := by
  unfold cstring
  induction text with
  | nil => rfl
  | cons c rest inductionHypothesis =>
    rw [List.all_cons, Bool.and_eq_true] at plain
    have some : c ≠ 0 := by
      rintro rfl
      exact absurd plain.1 (by decide)
    rw [List.takeWhile_cons_of_pos (by simpa using some), inductionHypothesis plain.2]

end NetworkUnix.Mmdf
