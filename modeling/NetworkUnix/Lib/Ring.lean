/-
This file develops circular lists that are linked in both directions. A ring is
seen as its head and the list of its other members; a member can be made the
head, taken out, or a run of new members linked in behind the head, and a search
that starts behind the head and stops on it finds the first good member.
-/

import Mathlib.Data.List.Nodup
import Mathlib.Logic.Function.Basic

namespace Ring

open Function

variable {α : Type} {next prev : α → α}

/-- The links lead from the first element through the list to the last, and back. -/
def Path (next prev : α → α) : α → List α → α → Prop
  | first, [], last => next first = last ∧ prev last = first
  | first, member :: rest, last =>
    next first = member ∧ prev member = first ∧ Path next prev member rest last

/-- The links lead from the head through the other members back to the head. -/
structure IsRing (next prev : α → α) (head : α) (rest : List α) : Prop where
  nodup : (head :: rest).Nodup
  path : Path next prev head rest head

variable {back front members rest : List α} {first last member head : α}

theorem path_append :
    Path next prev first (front ++ member :: back) last ↔
      Path next prev first front member ∧ Path next prev member back last := by
  induction front generalizing first with
  | nil => exact and_assoc.symm
  | cons other rest inductionHypothesis =>
    simp only [List.cons_append, Path, inductionHypothesis, and_assoc]

theorem Path.congr {next' prev' : α → α} (path : Path next prev first members last)
    (sameNext : ∀ member ∈ first :: members, next' member = next member)
    (samePrev : ∀ member ∈ members ++ [last], prev' member = prev member) :
    Path next' prev' first members last := by
  induction members generalizing first with
  | nil =>
    exact ⟨(sameNext first List.mem_cons_self).trans path.1,
      (samePrev last (by simp)).trans path.2⟩
  | cons member rest inductionHypothesis =>
    obtain ⟨forth, back, path⟩ := path
    exact ⟨(sameNext first List.mem_cons_self).trans forth,
      (samePrev member (by simp)).trans back,
      inductionHypothesis path ((List.forall_mem_cons.mp sameNext).2)
        (List.forall_mem_cons.mp samePrev).2⟩

theorem Path.next_first (path : Path next prev first members last) :
    next first = (members ++ [last]).head (by simp) := by
  cases members with
  | nil => exact path.1
  | cons member rest => exact path.1

theorem Path.prev_last (path : Path next prev first members last) :
    prev last = (first :: members).getLast (by simp) := by
  induction members generalizing first with
  | nil => exact path.2
  | cons member rest inductionHypothesis =>
    rw [inductionHypothesis path.2.2]
    rfl

theorem IsRing.around (ring : IsRing next prev head (front ++ member :: back)) :
    prev member = (head :: front).getLast (by simp) ∧
      next member = (back ++ [head]).head (by simp) := by
  obtain ⟨before, behind⟩ := path_append.mp ring.path
  exact ⟨before.prev_last, behind.next_first⟩

theorem IsRing.rotate (ring : IsRing next prev head (front ++ member :: back)) :
    IsRing next prev member (back ++ head :: front) := by
  obtain ⟨before, behind⟩ := path_append.mp ring.path
  refine ⟨?_, path_append.mpr ⟨behind, before⟩⟩
  have shape : head :: (front ++ member :: back) = (head :: front) ++ member :: back := rfl
  have nodup := ring.nodup
  rw [shape, ← List.nodup_append_comm] at nodup
  exact nodup

theorem perm_rotate (head member : α) (front back : List α) :
    (head :: (front ++ member :: back)).Perm (member :: (back ++ head :: front)) :=
  @List.perm_append_comm _ (head :: front) (member :: back)

variable [DecidableEq α]

theorem Path.skip (path : Path next prev first (member :: rest) last) (firstOut : first ∉ rest)
    (lastOut : last ∉ rest) (nodup : rest.Nodup) :
    Path (Function.update next first (next member)) (Function.update prev (next member) first)
      first rest last := by
  obtain ⟨_, _, path⟩ := path
  cases rest with
  | nil =>
    rw [path.1]
    exact ⟨update_self .., update_self ..⟩
  | cons other rest =>
    obtain ⟨forth, _, path⟩ := path
    rw [List.nodup_cons] at nodup
    rw [forth]
    refine ⟨update_self .., update_self .., path.congr ?_ ?_⟩
    · intro inner inside
      refine update_of_ne (fun same => ?_) _ _
      exact firstOut (same ▸ inside)
    · intro inner inside
      refine update_of_ne (fun same => ?_) _ _
      rcases List.mem_append.mp inside with tail | only
      · exact nodup.1 (same ▸ tail)
      · rw [List.mem_singleton.mp only] at same
        exact lastOut (same ▸ List.mem_cons_self)

theorem IsRing.unlink (ring : IsRing next prev head (front ++ member :: back)) :
    IsRing (Function.update next (prev member) (next member))
      (Function.update prev (next member) (prev member)) head (front ++ back) := by
  obtain ⟨before, behind⟩ := ring.around
  obtain ⟨nodup, path⟩ := ring
  rw [List.nodup_cons, List.nodup_append, List.nodup_cons] at nodup
  obtain ⟨headOut, frontNodup, ⟨memberOut, backNodup⟩, apart⟩ := nodup
  have headFront : head ∉ front := fun inside => headOut (List.mem_append_left _ inside)
  have headBack : head ∉ back :=
    fun inside => headOut (List.mem_append_right _ (List.mem_cons_of_mem _ inside))
  have apartBack : ∀ other ∈ front, other ∉ back :=
    fun other inside tail => apart other inside other (List.mem_cons_of_mem _ tail) rfl
  refine ⟨?_, ?_⟩
  · rw [List.nodup_cons, List.nodup_append]
    refine ⟨?_, frontNodup, backNodup, fun other inside later tail same =>
      apartBack other inside (same ▸ tail)⟩
    rw [List.mem_append]
    exact fun inside => inside.elim headFront headBack
  rcases List.eq_nil_or_concat front with rfl | ⟨initial, last, rfl⟩
  · rw [show prev member = head from before]
    exact path.skip headBack headBack backNodup
  · rw [show prev member = last by rw [before]; simp]
    rw [List.concat_eq_append] at path headFront apartBack frontNodup ⊢
    rw [List.append_assoc, List.singleton_append] at path ⊢
    obtain ⟨front, path⟩ := path_append.mp path
    rw [List.nodup_append] at frontNodup
    refine path_append.mpr ⟨front.congr ?_ ?_, path.skip ?_ headBack backNodup⟩
    · intro other inside
      refine update_of_ne (fun same => ?_) _ _
      rcases List.mem_cons.mp inside with rfl | tail
      · exact headFront (List.mem_append_right _ (same ▸ List.mem_cons_self))
      · exact frontNodup.2.2 other tail last List.mem_cons_self same
    · intro other inside
      refine update_of_ne (fun same => ?_) _ _
      have member := List.head_mem (l := back ++ [head]) (by simp)
      rw [← behind, ← same] at member
      rcases List.mem_append.mp member with tail | only
      · exact apartBack other inside tail
      · exact headFront (List.mem_singleton.mp only ▸ inside)
    · exact apartBack last (List.mem_append_right _ List.mem_cons_self)

omit [DecidableEq α] in
theorem IsRing.insert {next' prev' : α → α} {run : List α} (ring : IsRing next prev head rest)
    (path : Path next' prev' head run (next head))
    (sameNext : ∀ member ∈ rest, next' member = next member)
    (samePrev : ∀ member ∈ head :: rest, member ≠ next head → prev' member = prev member)
    (nodup : run.Nodup) (fresh : ∀ member ∈ run, member ∉ head :: rest) :
    IsRing next' prev' head (run ++ rest) := by
  obtain ⟨ringNodup, ringPath⟩ := ring
  rw [List.nodup_cons] at ringNodup
  refine ⟨?_, ?_⟩
  · rw [List.nodup_cons, List.nodup_append, List.mem_append]
    refine ⟨?_, nodup, ringNodup.2, fun member inside other tail same =>
      fresh member inside (same ▸ List.mem_cons_of_mem _ tail)⟩
    rintro (inside | inside)
    · exact fresh head inside List.mem_cons_self
    · exact ringNodup.1 inside
  cases rest with
  | nil =>
    rw [List.append_nil]
    rw [ringPath.1] at path
    exact path
  | cons member rest =>
    obtain ⟨forth, _, ringPath⟩ := ringPath
    rw [forth] at path samePrev
    refine path_append.mpr ⟨path, ringPath.congr sameNext ?_⟩
    intro other inside
    rw [List.nodup_cons] at ringNodup
    rcases List.mem_append.mp inside with tail | only
    · exact samePrev other (List.mem_cons_of_mem _ (List.mem_cons_of_mem _ tail))
        fun same => ringNodup.2.1 (same ▸ tail)
    · rw [List.mem_singleton.mp only]
      exact samePrev head List.mem_cons_self fun same => ringNodup.1 (same ▸ List.mem_cons_self)

/-! ### Searching -/

/-- Follow the links until a good member is found, or the search is back where it stops. -/
def seek (next : α → α) (good : α → Bool) : Nat → α → α → Option α
  | 0, _, _ => none
  | fuel + 1, here, stop =>
    if here = stop then none
    else if good here then some here
    else seek next good fuel (next here) stop

theorem Path.seek {good : α → Bool} (path : Path next prev first members last)
    (lastOut : last ∉ members) {fuel : Nat} (enough : members.length < fuel) :
    Ring.seek next good fuel (next first) last = members.find? good := by
  induction members generalizing first fuel with
  | nil =>
    obtain ⟨fuel, rfl⟩ := Nat.exists_eq_succ_of_ne_zero (Nat.ne_of_gt enough)
    rw [Ring.seek, if_pos path.1, List.find?_nil]
  | cons member rest inductionHypothesis =>
    obtain ⟨fuel, rfl⟩ := Nat.exists_eq_succ_of_ne_zero (Nat.ne_of_gt (Nat.zero_lt_of_lt enough))
    obtain ⟨forth, _, path⟩ := path
    have apart : member ≠ last := fun same => lastOut (same ▸ List.mem_cons_self)
    rw [Ring.seek, forth, if_neg apart]
    cases found : good member with
    | true => rw [if_pos rfl, List.find?_cons_of_pos found]
    | false =>
      rw [if_neg Bool.false_ne_true, List.find?_cons_of_neg (by simp [found])]
      exact inductionHypothesis path (fun inside => lastOut (List.mem_cons_of_mem _ inside))
        (Nat.succ_lt_succ_iff.mp enough)

theorem IsRing.seek {good : α → Bool} (ring : IsRing next prev head rest) {fuel : Nat}
    (enough : rest.length < fuel) :
    Ring.seek next good fuel (next head) head = rest.find? good :=
  ring.path.seek (List.nodup_cons.mp ring.nodup).1 enough

end Ring
