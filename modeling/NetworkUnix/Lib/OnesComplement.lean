/-
This file develops one's complement sums: addition with end-around carry, the sum of
a list of numbers, and the rule by which a sum may be taken in any order and in wider
steps. Two numbers stand for the same sum when they are congruent and both or none of
them is zero, and of the numbers up to the top only one stands for a given sum.
-/

import Mathlib.Algebra.BigOperators.Group.List.Basic
import Mathlib.Algebra.GroupWithZero.Nat

namespace OnesComplement

variable {top : Nat}

/-- Addition with end-around carry, on the numbers up to `top`. -/
def wrapAdd (top a b : Nat) : Nat := if a + b ≤ top then a + b else a + b - top

/-- The one's complement sum of a list. -/
def wrapSum (top : Nat) (words : List Nat) : Nat := words.foldl (wrapAdd top) 0

/-- Two numbers stand for the same sum. -/
structure Same (top a b : Nat) : Prop where
  residue : a % top = b % top
  zero : a = 0 ↔ b = 0

namespace Same

theorem refl (top a : Nat) : Same top a a := ⟨rfl, Iff.rfl⟩

theorem of_eq {a b : Nat} (equal : a = b) : Same top a b := equal ▸ refl top a

theorem symm {a b : Nat} (same : Same top a b) : Same top b a :=
  ⟨same.residue.symm, same.zero.symm⟩

theorem trans {a b c : Nat} (first : Same top a b) (second : Same top b c) : Same top a c :=
  ⟨first.residue.trans second.residue, first.zero.trans second.zero⟩

theorem add {a b x y : Nat} (left : Same top a b) (right : Same top x y) :
    Same top (a + x) (b + y) where
  residue := by rw [Nat.add_mod, left.residue, right.residue, ← Nat.add_mod]
  zero := by
    rw [Nat.add_eq_zero_iff, Nat.add_eq_zero_iff, left.zero, right.zero]

theorem carry (high low : Nat) : Same top (high * (top + 1) + low) (high + low) where
  residue := by
    rw [Nat.mul_add, Nat.mul_one, Nat.add_assoc, Nat.mul_add_mod_self_right]
  zero := by
    constructor
    · intro none
      obtain ⟨product, rfl⟩ := Nat.add_eq_zero_iff.mp none
      rcases Nat.mul_eq_zero.mp product with rfl | impossible
      · rfl
      · cases impossible
    · intro none
      obtain ⟨rfl, rfl⟩ := Nat.add_eq_zero_iff.mp none
      rw [Nat.zero_mul]

theorem eq {a b : Nat} (same : Same top a b) (left : a ≤ top) (right : b ≤ top) : a = b := by
  obtain ⟨residue, zero⟩ := same
  rcases Nat.lt_or_eq_of_le left with below | rfl
  · rcases Nat.lt_or_eq_of_le right with below' | rfl
    · rwa [Nat.mod_eq_of_lt below, Nat.mod_eq_of_lt below'] at residue
    · rw [Nat.mod_self, Nat.mod_eq_of_lt below] at residue
      rw [residue, zero.mp residue]
  · rcases Nat.lt_or_eq_of_le right with below' | rfl
    · rw [Nat.mod_self, Nat.mod_eq_of_lt below'] at residue
      rw [← residue, zero.mpr residue.symm]
    · rfl

end Same

theorem wrapAdd_le {a b : Nat} (left : a ≤ top) (right : b ≤ top) : wrapAdd top a b ≤ top := by
  unfold wrapAdd
  split <;> omega

theorem wrapAdd_same (top a b : Nat) : Same top (wrapAdd top a b) (a + b) := by
  unfold wrapAdd
  split
  · exact .refl top _
  · rename_i carries
    constructor
    · rw [← Nat.mod_eq_sub_mod (Nat.le_of_not_le carries)]
    · omega

theorem wrapSum_same {words : List Nat} (bounded : ∀ word ∈ words, word ≤ top) :
    wrapSum top words ≤ top ∧ Same top (wrapSum top words) words.sum := by
  have more : ∀ (start : Nat), start ≤ top → words.foldl (wrapAdd top) start ≤ top ∧
      Same top (words.foldl (wrapAdd top) start) (start + words.sum) := by
    induction words with
    | nil => exact fun start small => ⟨small, .refl top start⟩
    | cons word rest inductionHypothesis =>
      intro start small
      have first := bounded word List.mem_cons_self
      obtain ⟨le, same⟩ := inductionHypothesis
        ((List.forall_mem_cons.mp bounded).2)
        (wrapAdd top start word) (wrapAdd_le small first)
      refine ⟨le, same.trans ?_⟩
      rw [List.sum_cons, ← Nat.add_assoc]
      exact (wrapAdd_same top start word).add (.refl top _)
  obtain ⟨le, same⟩ := more 0 (Nat.zero_le _)
  rw [Nat.zero_add] at same
  exact ⟨le, same⟩

end OnesComplement
