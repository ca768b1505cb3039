/-
This file is about tables with a fixed number of slots that hold a set of keys. A slot is free
or has one key, and no two slots have the same key. A key that is not in the table may be put
in a free slot; a slot is free exactly when there are fewer keys than slots.
-/

import Mathlib.Data.Finset.Card
import Mathlib.Data.Finset.Option
import Mathlib.Logic.Function.Basic

namespace Slots

open Function

variable {Entry Key : Type} [DecidableEq Key] {key : Entry → Option Key} {size : Nat} {table : Nat → Entry}

/-- The slots of a table hold the keys of a set, each of them once. -/
structure Holds (key : Entry → Option Key) (size : Nat) (table : Nat → Entry)
    (keys : Finset Key) : Prop where
  mem : ∀ item, item ∈ keys ↔ ∃ i < size, key (table i) = some item
  once : ∀ i < size, ∀ j < size, ∀ item, key (table i) = some item → key (table j) = some item →
    i = j

omit [DecidableEq Key] in
theorem holds_empty (free : ∀ i < size, key (table i) = none) : Holds key size table ∅ where
  mem item := by
    constructor
    · exact fun member => absurd member (Finset.notMem_empty item)
    · rintro ⟨i, inside, used⟩
      exact absurd ((free i inside).symm.trans used) (by simp)
  once i inside _ _ _ used := absurd ((free i inside).symm.trans used) (by simp)

variable {keys : Finset Key}

section

variable (holds : Holds key size table keys)
include holds

omit [DecidableEq Key] in
theorem Holds.absent {item : Key} (new : item ∉ keys) {i : Nat}
    (inside : i < size) : key (table i) ≠ some item :=
  fun used => new ((holds.mem item).mpr ⟨i, inside, used⟩)

theorem Holds.card :
    ((Finset.range size).filter fun i => (key (table i)).isSome = true).card = keys.card := by
  have distinct : Set.InjOn (fun i => key (table i))
      ((Finset.range size).filter fun i => (key (table i)).isSome = true : Finset Nat) := by
    intro i used j other same
    rw [Finset.mem_coe, Finset.mem_filter, Finset.mem_range] at used other
    obtain ⟨item, held⟩ := Option.isSome_iff_exists.mp used.2
    exact holds.once i used.1 j other.1 item held (same.symm.trans held)
  have image : ((Finset.range size).filter fun i => (key (table i)).isSome = true).image
      (fun i => key (table i)) = keys.map Function.Embedding.some := by
    ext item
    simp only [Finset.mem_image, Finset.mem_filter, Finset.mem_range, Finset.mem_map,
      Function.Embedding.some_apply]
    constructor
    · rintro ⟨i, ⟨inside, used⟩, rfl⟩
      obtain ⟨item, held⟩ := Option.isSome_iff_exists.mp used
      exact ⟨item, (holds.mem item).mpr ⟨i, inside, held⟩, held.symm⟩
    · rintro ⟨item, member, rfl⟩
      obtain ⟨i, inside, held⟩ := (holds.mem item).mp member
      exact ⟨i, ⟨inside, by rw [held]; rfl⟩, held⟩
  rw [← Finset.card_image_of_injOn distinct, image, Finset.card_map]

theorem Holds.free_iff :
    (∃ i < size, key (table i) = none) ↔ keys.card < size := by
  have parts := Finset.card_filter_add_card_filter_not
    (s := Finset.range size) (fun i => (key (table i)).isSome = true)
  rw [holds.card, Finset.card_range] at parts
  have some : (∃ i < size, key (table i) = none) ↔
      0 < ((Finset.range size).filter fun i => ¬ (key (table i)).isSome = true).card := by
    rw [Finset.card_pos]
    constructor
    · rintro ⟨i, inside, free⟩
      exact ⟨i, by simp [inside, free]⟩
    · rintro ⟨i, member⟩
      simp only [Finset.mem_filter, Finset.mem_range, Option.not_isSome_iff_eq_none] at member
      exact ⟨i, member⟩
  rw [some]
  omega

theorem Holds.put {i : Nat} {entry : Entry}
    {item : Key} (inside : i < size) (free : key (table i) = none) (new : item ∉ keys)
    (coded : key entry = some item) :
    Holds key size (Function.update table i entry) (insert item keys) := by
  have apart {j : Nat} {other : Key} (used : key (table j) = some other) : j ≠ i := by
    rintro rfl
    exact absurd (free.symm.trans used) (by simp)
  refine ⟨fun other => ?_, fun j inside' k inside'' other used used' => ?_⟩
  · rw [Finset.mem_insert]
    constructor
    · rintro (rfl | member)
      · exact ⟨i, inside, by rw [update_self, coded]⟩
      · obtain ⟨j, within, used⟩ := (holds.mem other).mp member
        exact ⟨j, within, by rw [update_of_ne (apart used), used]⟩
    · rintro ⟨j, within, used⟩
      by_cases here : j = i
      · rw [here, update_self, coded] at used
        exact .inl (Option.some.inj used).symm
      · rw [update_of_ne here] at used
        exact .inr ((holds.mem other).mpr ⟨j, within, used⟩)
  · by_cases here : j = i <;> by_cases there : k = i
    · rw [here, there]
    · rw [here, update_self, coded] at used
      rw [update_of_ne there, ← used] at used'
      exact absurd used' (holds.absent new inside'')
    · rw [there, update_self, coded] at used'
      rw [update_of_ne here, ← used'] at used
      exact absurd used (holds.absent new inside')
    · rw [update_of_ne here] at used
      rw [update_of_ne there] at used'
      exact holds.once j inside' k inside'' other used used'

end

end Slots
