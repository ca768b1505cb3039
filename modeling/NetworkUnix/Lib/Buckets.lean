/-
This file states when a table of chains files a set of items right: an item with
a key is on the chain of its key's bucket, once, and on no other; an item
without a key is on no chain; and no two items have the same key. An item can be
filed under a key that nobody has, and taken out again.
-/

import Mathlib.Logic.Function.Basic

namespace Buckets

open Function

variable {Item Key Bucket : Type} [DecidableEq Item] [DecidableEq Bucket]
variable {bucket : Key → Bucket} {key : Item → Option Key} {chains : Bucket → List Item}

/-- The chains hold exactly the items with a key, each once and on the chain of its bucket. -/
structure Filed (bucket : Key → Bucket) (key : Item → Option Key) (chains : Bucket → List Item) :
    Prop where
  mem : ∀ (place : Bucket) (item : Item),
    item ∈ chains place ↔ ∃ k, key item = some k ∧ bucket k = place
  nodup : ∀ place : Bucket, (chains place).Nodup
  once : ∀ (first second : Item) (k : Key), key first = some k → key second = some k →
    first = second

omit [DecidableEq Item] [DecidableEq Bucket] in
theorem filed_empty : Filed bucket (fun _ : Item => none) fun _ => [] where
  mem := fun _ _ => ⟨fun inside => absurd inside List.not_mem_nil,
    fun ⟨_, keyed, _⟩ => absurd keyed.symm (Option.some_ne_none _)⟩
  nodup := fun _ => List.nodup_nil
  once := fun _ _ _ keyed => absurd keyed.symm (Option.some_ne_none _)

omit [DecidableEq Item] [DecidableEq Bucket] in
theorem Filed.on_chain (filed : Filed bucket key chains) {item : Item} {k : Key}
    (keyed : key item = some k) : item ∈ chains (bucket k) :=
  (filed.mem _ _).mpr ⟨k, keyed, rfl⟩

omit [DecidableEq Item] [DecidableEq Bucket] in
theorem Filed.off_chains (filed : Filed bucket key chains) {item : Item}
    (unkeyed : key item = none) (place : Bucket) : item ∉ chains place := by
  intro inside
  obtain ⟨k, keyed, _⟩ := (filed.mem _ _).mp inside
  exact Option.some_ne_none k (keyed.symm.trans unkeyed)

theorem Filed.insert (filed : Filed bucket key chains) {item : Item} (unkeyed : key item = none)
    {k : Key} (unused : ∀ other, key other ≠ some k) :
    Filed bucket (Function.update key item (some k))
      (Function.update chains (bucket k) (chains (bucket k) ++ [item])) := by
  constructor
  · intro place other
    by_cases same : other = item
    · subst same
      rw [update_self]
      by_cases here : place = bucket k
      · subst here
        rw [update_self]
        exact ⟨fun _ => ⟨k, rfl, rfl⟩, fun _ => List.mem_append_right _ List.mem_cons_self⟩
      · rw [update_of_ne here]
        refine ⟨fun inside => absurd inside (filed.off_chains unkeyed place), ?_⟩
        rintro ⟨found, same, there⟩
        exact absurd (Option.some_inj.mp same ▸ there).symm here
    · rw [update_of_ne same, ← filed.mem place other]
      by_cases here : place = bucket k
      · subst here
        rw [update_self, List.mem_append, List.mem_singleton]
        exact ⟨fun inside => inside.resolve_right same, Or.inl⟩
      · rw [update_of_ne here]
  · intro place
    by_cases here : place = bucket k
    · subst here
      rw [update_self]
      refine List.nodup_append.mpr ⟨filed.nodup _, List.pairwise_singleton _ _, ?_⟩
      intro other inside last isLast same
      rw [List.mem_singleton] at isLast
      subst isLast
      exact filed.off_chains unkeyed _ (same ▸ inside)
    · rw [update_of_ne here]
      exact filed.nodup place
  · intro first second other keyedFirst keyedSecond
    by_cases sameFirst : first = item <;> by_cases sameSecond : second = item
    · rw [sameFirst, sameSecond]
    · rw [sameFirst, update_self] at keyedFirst
      rw [update_of_ne sameSecond, ← keyedFirst] at keyedSecond
      exact absurd keyedSecond (unused second)
    · rw [sameSecond, update_self] at keyedSecond
      rw [update_of_ne sameFirst, ← keyedSecond] at keyedFirst
      exact absurd keyedFirst (unused first)
    · rw [update_of_ne sameFirst] at keyedFirst
      rw [update_of_ne sameSecond] at keyedSecond
      exact filed.once first second other keyedFirst keyedSecond

theorem Filed.erase (filed : Filed bucket key chains) {item : Item} {k : Key}
    (keyed : key item = some k) :
    Filed bucket (Function.update key item none)
      (Function.update chains (bucket k) ((chains (bucket k)).erase item)) := by
  constructor
  · intro place other
    by_cases same : other = item
    · subst same
      rw [update_self]
      refine ⟨fun inside => ?_, fun ⟨_, unkeyed, _⟩ => absurd unkeyed.symm (Option.some_ne_none _)⟩
      by_cases here : place = bucket k
      · subst here
        rw [update_self] at inside
        exact absurd inside (filed.nodup _).not_mem_erase
      · rw [update_of_ne here] at inside
        obtain ⟨found, keyedFound, there⟩ := (filed.mem _ _).mp inside
        rw [keyed] at keyedFound
        exact absurd (Option.some_inj.mp keyedFound ▸ there).symm here
    · rw [update_of_ne same, ← filed.mem place other]
      by_cases here : place = bucket k
      · subst here
        rw [update_self]
        exact List.mem_erase_of_ne same
      · rw [update_of_ne here]
  · intro place
    by_cases here : place = bucket k
    · subst here
      rw [update_self]
      exact (filed.nodup _).erase item
    · rw [update_of_ne here]
      exact filed.nodup place
  · intro first second other keyedFirst keyedSecond
    by_cases sameFirst : first = item
    · rw [sameFirst, update_self] at keyedFirst
      exact absurd keyedFirst.symm (Option.some_ne_none other)
    by_cases sameSecond : second = item
    · rw [sameSecond, update_self] at keyedSecond
      exact absurd keyedSecond.symm (Option.some_ne_none other)
    rw [update_of_ne sameFirst] at keyedFirst
    rw [update_of_ne sameSecond] at keyedSecond
    exact filed.once first second other keyedFirst keyedSecond

end Buckets
