/-
This file proves what the routines of the buffer pool do to it: kernel buffers are
given back and got, messages freed and buffers taken, and every time the pool is
as it should be and the other messages keep what they hold. The search of the
free list for the buffers of a kernel buffer comes to its end. A buffer is got
unless none is free and no kernel buffer may be taken from the system.
-/

import NetworkUnix.Ncpk.Kerbuf
import Mathlib.Algebra.Order.BigOperators.Group.List
import Mathlib.Algebra.Order.Group.Nat
import Mathlib.Data.List.Perm.Subperm

namespace NetworkUnix.Ncpk.Kerbuf

open Function TailRing

variable {k next : Kernel} {free nodes : List Nat} {msgs : List Msg} {h : Option Nat}

/-! ### A kernel buffer is given back -/

/-- What some buffers hold is kept. -/
structure Kept (k next : Kernel) (keep : List Nat) : Prop where
  bLen : ∀ buf ∈ keep, next.bLen buf = k.bLen buf
  bEom : ∀ buf ∈ keep, next.bEom buf = k.bEom buf
  bData : ∀ buf ∈ keep, next.bData buf = k.bData buf

theorem Kept.refl (k : Kernel) (keep : List Nat) : Kept k k keep :=
  ⟨fun _ _ => rfl, fun _ _ => rfl, fun _ _ => rfl⟩

theorem Kept.trans {last : Kernel} {keep : List Nat} (first : Kept k next keep)
    (second : Kept next last keep) : Kept k last keep where
  bLen buf inside := (second.bLen buf inside).trans (first.bLen buf inside)
  bEom buf inside := (second.bEom buf inside).trans (first.bEom buf inside)
  bData buf inside := (second.bData buf inside).trans (first.bData buf inside)

theorem Kept.mono {keep fewer : List Nat} (kept : Kept k next keep)
    (within : ∀ buf ∈ fewer, buf ∈ keep) : Kept k next fewer where
  bLen buf inside := kept.bLen buf (within buf inside)
  bEom buf inside := kept.bEom buf (within buf inside)
  bData buf inside := kept.bData buf (within buf inside)

variable {index buf : Nat} {b : Kbuf}

theorem countP_other {members : Nat → Nat} {ring : List Nat}
    (none : ∀ buf ∈ ring, members buf ≠ index) :
    ring.filter (fun buf => members buf ≠ index) = ring :=
  List.filter_eq_self.mpr fun buf inside => decide_eq_true (none buf inside)

/-- The search takes the buffers of one kernel buffer off a ring. What it has passed comes after
what it has still to look at. -/
theorem pullOut_spec {trips found prev : Nat} {newfreelist : Option Nat} {ahead passed : List Nat}
    (ring : Shape k.bQlink (some prev) (ahead ++ passed))
    (none : ∀ buf ∈ passed, k.bMember buf ≠ index)
    (count : ahead.countP (fun buf => k.bMember buf = index) = found + 1)
    (enough : ahead.length ≤ trips) :
    ∃ next freel left, pullOut index trips (found + 1) prev newfreelist k = .ok (next, freel) ∧
      Shape next.bQlink freel left ∧
      left.Perm ((ahead ++ passed).filter fun buf => k.bMember buf ≠ index) ∧
      (∀ buf, buf ∉ ahead ++ passed →
        next.bQlink buf = k.bQlink buf ∧ next.bLen buf = k.bLen buf) ∧
      next = { k with bQlink := next.bQlink, bLen := next.bLen } := by
  induction trips generalizing k found prev newfreelist ahead passed with
  | zero =>
    rw [List.length_eq_zero_iff.mp (Nat.le_zero.mp enough)] at count
    exact absurd count (Nat.succ_ne_zero found).symm
  | succ trips inductionHypothesis =>
    cases ahead with
    | nil => exact absurd count (Nat.succ_ne_zero found).symm
    | cons bufp ahead =>
      rw [List.length_cons, Nat.add_le_add_iff_right] at enough
      obtain ⟨leads, left⟩ := ring.unlink
      rw [pullOut, leads]
      by_cases here : k.bMember bufp = index
      · rw [if_pos here]
        rw [List.countP_cons, if_pos (decide_eq_true here), Nat.add_right_cancel_iff] at count
        have gone : (bufp :: ahead ++ passed).filter (fun buf => k.bMember buf ≠ index) =
            (ahead ++ passed).filter fun buf => k.bMember buf ≠ index :=
          List.filter_cons_of_neg (by rw [decide_eq_true_eq]; exact not_not_intro here)
        let freed : Kernel :=
          { k with bLen := Function.update k.bLen bufp 0, bQlink := unlink k.bQlink prev }
        have kept (buf : Nat) (outside : buf ∉ bufp :: ahead ++ passed) :
            freed.bQlink buf = k.bQlink buf ∧ freed.bLen buf = k.bLen buf := by
          refine ⟨unlink_other _ ?_ ?_, update_of_ne ?_ _ _⟩
          · rintro rfl
            exact outside ring.last_mem
          · rw [leads]
            rintro rfl
            exact outside List.mem_cons_self
          · rintro rfl
            exact outside List.mem_cons_self
        rw [gone]
        cases found with
        | zero =>
          refine ⟨freed, remaining k.bQlink prev, ahead ++ passed, ?_, left, ?_, kept, rfl⟩
          · rw [pullOut]
            rfl
          · rw [countP_other fun buf inside => ?_]
            rcases List.mem_append.mp inside with inside | inside
            · exact fun same => List.countP_eq_zero.mp count buf inside (decide_eq_true same)
            · exact none buf inside
        | succ found =>
          have more : ahead ≠ [] := by
            rintro rfl
            exact absurd count (Nat.succ_ne_zero found).symm
          have isLast : prev ∈ ahead ++ passed := by
            have final := ring.held
            rw [List.cons_append, List.getLast?_cons_of_ne_nil
              (List.append_ne_nil_of_left_ne_nil more passed)] at final
            exact List.mem_of_getLast? final.symm
          have differs : prev ≠ k.bQlink prev := by
            rw [leads]
            rintro rfl
            exact (List.nodup_cons.mp ring.nodup).1 isLast
          have remains : remaining k.bQlink prev = some prev := if_neg differs
          rw [remains] at left
          obtain ⟨next, freel, rest, run, shape, same, keeps, only⟩ :=
            @inductionHypothesis freed found prev (some prev) ahead passed left none count enough
          refine ⟨next, freel, rest, ?_, shape, same, fun buf outside => ?_, ?_⟩
          rotate_left
          · have before := keeps buf fun inside => outside (List.mem_cons_of_mem _ inside)
            exact ⟨before.1.trans (kept buf outside).1, before.2.trans (kept buf outside).2⟩
          · rw [only]
          · rw [← run]
            unfold Kerbuf.ifreebuf
            dsimp only
            rw [remains]
      · rw [if_neg here]
        rw [List.countP_cons, if_neg (fun same => here (of_decide_eq_true same)),
          Nat.add_zero] at count
        have turned : Shape k.bQlink (some bufp) (ahead ++ (passed ++ [bufp])) := by
          rw [← List.append_assoc]
          exact @Shape.rotate Nat k.bQlink (some prev) bufp [] (ahead ++ passed) ring
        obtain ⟨next, freel, rest, run, shape, same, keeps, only⟩ :=
          @inductionHypothesis k found bufp newfreelist ahead (passed ++ [bufp]) turned
            (fun buf inside => by
              rcases List.mem_append.mp inside with inside | inside
              · exact none buf inside
              · rwa [List.mem_singleton.mp inside]) count enough
        have swap : (ahead ++ (passed ++ [bufp])).Perm (bufp :: ahead ++ passed) := by
          rw [← List.append_assoc]
          exact List.perm_append_singleton bufp (ahead ++ passed)
        exact ⟨next, freel, rest, run, shape, same.trans (swap.filter _),
          fun buf outside => keeps buf fun inside => outside (swap.mem_iff.mp inside), only⟩

theorem mem_owned :
    buf ∈ owned k ↔ ∃ i < kbHiwat, ∃ b, k.kb i = some b ∧ buf ∈ b.bufs := by
  unfold owned
  rw [List.mem_flatMap]
  constructor
  · rintro ⟨i, inside, here⟩
    refine ⟨i, List.mem_range.mp inside, ?_⟩
    unfold bufsAt at here
    cases there : k.kb i with
    | none =>
      rw [there] at here
      exact absurd here List.not_mem_nil
    | some b =>
      rw [there] at here
      exact ⟨b, rfl, here⟩
  · rintro ⟨i, inRange, b, there, here⟩
    refine ⟨i, List.mem_range.mpr inRange, ?_⟩
    rw [bufsAt, there]
    exact here

theorem Ok.mem_bufs (ok : Ok k free msgs) (there : k.kb index = some b)
    (inside : buf ∈ free ++ held msgs) (here : k.bMember buf = index) : buf ∈ b.bufs := by
  obtain ⟨i, -, c, at', member⟩ := mem_owned.mp (ok.all.mem_iff.mp inside)
  obtain rfl : i = index := (ok.member i c at' buf member).symm.trans here
  rwa [← Option.some_inj.mp (at'.symm.trans there)]

theorem Ok.none_held (ok : Ok k free msgs) (there : k.kb index = some b)
    (full : b.bFreect = netBPerKB) (inside : buf ∈ held msgs) :
    k.bMember buf ≠ index := by
  intro here
  have once : (free.filter fun buf => k.bMember buf = index).Nodup :=
    ((List.nodup_append.mp ok.apart).1).filter _
  have within : (free.filter fun buf => k.bMember buf = index) ⊆ b.bufs := by
    intro other isFree
    obtain ⟨isFree, same⟩ := List.mem_filter.mp isFree
    exact ok.mem_bufs there (List.mem_append_left _ isFree) (of_decide_eq_true same)
  have whole : (free.filter fun buf => k.bMember buf = index).Perm b.bufs := by
    refine (once.subperm within).perm_of_length_le ?_
    rw [← List.countP_eq_length_filter, ← ok.freect index b there, full]
    exact Nat.le_of_eq (ok.size index b there).2
  have isFree := whole.mem_iff.mpr (ok.mem_bufs there (List.mem_append_right _ inside) here)
  exact (List.nodup_append.mp ok.apart).2.2 buf (List.mem_filter.mp isFree).1 buf inside rfl

theorem countP_update_none {n : Nat} {kb : Nat → Option Kbuf} (there : kb index = some b)
    (inRange : index < n) :
    (List.range n).countP (fun i => (kb i).isSome) =
      (List.range n).countP (fun i => (Function.update kb index none i).isSome) + 1 := by
  have split := List.perm_cons_erase (List.mem_range.mpr inRange)
  have rest : ((List.range n).erase index).countP (fun i => (kb i).isSome) =
      ((List.range n).erase index).countP fun i => (Function.update kb index none i).isSome := by
    refine List.countP_congr fun i inside => ?_
    rw [update_of_ne (List.nodup_range.mem_erase_iff.mp inside).1]
  rw [split.countP_eq, split.countP_eq, List.countP_cons, List.countP_cons, rest, there,
    update_self]
  rfl

theorem Ok.length_bufsAt (ok : Ok k free msgs) (index : Nat) :
    (bufsAt k index).length ≤ netBPerKB := by
  unfold bufsAt
  cases there : k.kb index with
  | none => exact Nat.zero_le _
  | some b => exact Nat.le_of_eq (ok.size index b there).2

theorem Ok.length_le (ok : Ok k free msgs) : (free ++ held msgs).length ≤ mostBufs := by
  rw [ok.all.length_eq, owned, List.length_flatMap]
  have bound := List.sum_le_card_nsmul ((List.range kbHiwat).map fun i => (bufsAt k i).length)
    netBPerKB fun size inside => by
      obtain ⟨i, -, rfl⟩ := List.mem_map.mp inside
      exact ok.length_bufsAt i
  rwa [List.length_map, List.length_range] at bound

/-- The pool after the buffers of one kernel buffer are taken off the free list. -/
def dropped (k : Kernel) (index : Nat) (links bLen : Nat → Nat) (freel : Option Nat) : Kernel :=
  { k with
    bQlink := links, bLen := bLen, bFreel := freel, kb := Function.update k.kb index none,
    bAlloc := k.bAlloc - 1, bCntfree := k.bCntfree - netBPerKB }

theorem Ok.owned_dropped (ok : Ok k free msgs) (index : Nat) (links bLen : Nat → Nat)
    (freel : Option Nat) : owned (dropped k index links bLen freel) =
      (owned k).filter fun buf => k.bMember buf ≠ index := by
  unfold owned
  rw [List.filter_flatMap]
  refine List.flatMap_congr fun i _ => ?_
  unfold bufsAt dropped
  by_cases here : i = index
  · subst here
    dsimp only
    rw [update_self]
    cases there : k.kb i with
    | none => rfl
    | some b =>
      refine (List.filter_eq_nil_iff.mpr fun buf inside => ?_).symm
      rw [decide_eq_true_eq]
      exact not_not_intro (ok.member i b there buf inside)
  · dsimp only
    rw [update_of_ne here]
    cases there : k.kb i with
    | none => rfl
    | some b =>
      refine (countP_other fun buf inside => ?_).symm
      rw [ok.member i b there buf inside]
      exact here

theorem dropped_some {i : Nat} {links bLen : Nat → Nat} {freel : Option Nat}
    (there : (dropped k index links bLen freel).kb i = some b) : i ≠ index ∧ k.kb i = some b := by
  have updated : Function.update k.kb index none i = some b := there
  have apart : i ≠ index := by
    rintro rfl
    rw [update_self] at updated
    exact Option.some_ne_none b updated.symm
  rw [update_of_ne apart] at updated
  exact ⟨apart, updated⟩

theorem Ok.drop (ok : Ok k free msgs) (there : k.kb index = some b) (full : b.bFreect = netBPerKB)
    {links : Nat → Nat} (bLen : Nat → Nat) {freel : Option Nat} {left : List Nat}
    (ring : Shape links freel left)
    (same : left.Perm (free.filter fun buf => k.bMember buf ≠ index))
    (keeps : ∀ buf, buf ∉ free → links buf = k.bQlink buf) :
    Ok (dropped k index links bLen freel) left msgs where
  freeRing := ring
  msgRing msg member := (ok.msgRing msg member).congr fun buf inside =>
    keeps buf (ok.not_free member inside)
  all := by
    have stays : (held msgs).filter (fun buf => k.bMember buf ≠ index) = held msgs :=
      countP_other fun buf inside => ok.none_held there full inside
    rw [ok.owned_dropped]
    refine ((same.append_right _).trans ?_).trans (ok.all.filter _)
    rw [List.filter_append, stays]
  nodup := by
    rw [ok.owned_dropped]
    exact ok.nodup.filter _
  size i c at' := ok.size i c (dropped_some at').2
  member i c at' := ok.member i c (dropped_some at').2
  freect := by
    intro i c at'
    obtain ⟨apart, at'⟩ := dropped_some at'
    show c.bFreect = left.countP fun buf => k.bMember buf = i
    rw [ok.freect i c at', same.countP_eq, List.countP_filter]
    refine List.countP_congr fun buf _ => ?_
    rw [decide_eq_true_eq, Bool.and_eq_true, decide_eq_true_eq, decide_eq_true_eq]
    exact ⟨fun here => ⟨here, here ▸ apart⟩, And.left⟩
  alloc := by
    show k.bAlloc - 1 = (List.range kbHiwat).countP fun i =>
      (Function.update k.kb index none i).isSome
    rw [ok.alloc, countP_update_none there (ok.size index b there).1, Nat.add_sub_cancel]
  cntfree := by
    show k.bCntfree - netBPerKB = left.length
    have split := List.length_eq_countP_add_countP (fun buf => k.bMember buf = index) (l := free)
    rw [← ok.freect index b there, full] at split
    rw [ok.cntfree, split, Nat.add_sub_cancel_left, same.length_eq, List.countP_eq_length_filter]
    simp only [decide_eq_true_eq, ne_eq]
  clean buf inside := ok.clean buf (List.mem_filter.mp (same.mem_iff.mp inside)).1

theorem Ok.releaseKb (ok : Ok k free msgs) (index : Nat) :
    ∃ next left, Kerbuf.releaseKb k index = .ok next ∧ Ok next left msgs ∧
      Kept k next (held msgs) ∧ next.bEom = k.bEom := by
  have same : ∃ next left, (Except.ok k : Except Stop Kernel) = .ok next ∧ Ok next left msgs ∧
      Kept k next (held msgs) ∧ next.bEom = k.bEom := ⟨k, free, rfl, ok, Kept.refl k _, rfl⟩
  unfold Kerbuf.releaseKb
  cases there : k.kb index with
  | none => exact same
  | some b =>
    dsimp only
    by_cases full : b.bFreect = netBPerKB
    · rw [if_pos full]
      have count := ok.freect index b there
      rw [full] at count
      cases isLast : k.bFreel with
      | none =>
        have empty : free = [] := ok.freeRing.none_iff.mp isLast
        rw [empty] at count
        exact absurd count.symm (Nat.succ_ne_zero 7).symm
      | some prev =>
        have ring := ok.freeRing
        rw [isLast, ← List.append_nil free] at ring
        have room : free.length ≤ mostBufs := by
          refine Nat.le_trans ?_ ok.length_le
          rw [List.length_append]
          exact Nat.le_add_right _ _
        obtain ⟨next, freel, left, run, shape, perm, kept, only⟩ :=
          @pullOut_spec k index mostBufs 7 prev none free [] ring
            (fun _ inside => absurd inside List.not_mem_nil) count.symm room
        rw [List.append_nil] at perm kept
        have goes : pullOut index mostBufs netBPerKB prev none k = .ok (next, freel) := run
        dsimp only
        rw [goes, only]
        refine ⟨_, left, rfl, ok.drop there full next.bLen shape perm fun buf outside =>
          (kept buf outside).1, ⟨fun buf inside => ?_, fun _ _ => rfl, fun _ _ => rfl⟩, rfl⟩
        obtain ⟨msg, member, here⟩ := mem_held.mp inside
        exact (kept buf (ok.not_free member here)).2
    · rw [if_neg full]
      exact same

theorem Ok.releaseAll (ok : Ok k free msgs) (indices : List Nat) :
    ∃ next left, indices.foldlM Kerbuf.releaseKb k = .ok next ∧ Ok next left msgs ∧
      Kept k next (held msgs) ∧ next.bEom = k.bEom := by
  induction indices generalizing k free with
  | nil => exact ⟨k, free, rfl, ok, Kept.refl k _, rfl⟩
  | cons index rest inductionHypothesis =>
    obtain ⟨mid, between, released, okMid, keptMid, sameMid⟩ := ok.releaseKb index
    obtain ⟨next, left, run, okNext, kept, same⟩ := inductionHypothesis okMid
    refine ⟨next, left, ?_, okNext, keptMid.trans kept, same.trans sameMid⟩
    rw [List.foldlM_cons, released]
    exact run

theorem Ok.freekb (bHyster : Nat) (ok : Ok k free msgs) :
    ∃ next left, Kerbuf.freekb bHyster k = .ok next ∧ Ok next left msgs ∧
      Kept k next (held msgs) ∧ next.bEom = k.bEom := by
  unfold Kerbuf.freekb
  split
  · exact ok.releaseAll _
  · exact ⟨k, free, rfl, ok, Kept.refl k _, rfl⟩

/-! ### Messages are freed -/

theorem Ok.freebuf (bHyster : Nat) {first : Nat} {rest : List Nat}
    (ok : Ok k free ((h, first :: rest) :: msgs)) :
    ∃ next left, Kerbuf.freebuf bHyster h k = .ok (next, rest.getLast?) ∧
      Ok next left ((rest.getLast?, rest) :: msgs) ∧ Kept k next (rest ++ held msgs) ∧
      next.bEom first = false := by
  have ring := ok.msgRing _ List.mem_cons_self
  obtain ⟨prev, isLast⟩ : ∃ prev, h = some prev :=
    Option.ne_none_iff_exists'.mp fun none =>
      absurd (ring.none_iff.mp none) (List.cons_ne_nil first rest)
  subst isLast
  obtain ⟨leads, split⟩ := ok.ifreebuf
  have handle : (Kerbuf.ifreebuf prev k).2 = rest.getLast? :=
    (split.msgRing _ (List.mem_cons_of_mem _ List.mem_cons_self)).held
  obtain ⟨next, left, run, okNext, kept, eoms⟩ := split.freeb.freekb bHyster
  rw [held_cons] at kept
  rw [handle] at okNext
  refine ⟨next, left, ?_, okNext, ?_, eoms ▸ update_self _ _ _⟩
  · unfold Kerbuf.freebuf
    dsimp only
    rw [leads, run, handle]
    rfl
  · have before : Kept k (Kerbuf.freeb first (Kerbuf.ifreebuf prev k).1) (rest ++ held msgs) := by
      refine ⟨fun _ _ => rfl, fun buf inside => update_of_ne ?_ _ _, fun _ _ => rfl⟩
      rintro rfl
      have apart := split.head_apart List.mem_cons_self
      rcases List.mem_append.mp inside with inside | inside
      · exact apart.2 _ List.mem_cons_self inside
      · obtain ⟨msg, member, here⟩ := mem_held.mp inside
        exact apart.2 msg (List.mem_cons_of_mem _ member) here
    exact before.trans kept

theorem Ok.tail_nil (ok : Ok k free ((h, []) :: msgs)) : Ok k free msgs :=
  ok.relink ok.freeRing ((List.forall_mem_cons.mp ok.msgRing).2)
    (by rw [held_cons]; exact List.Perm.refl _)

theorem Ok.freemsgFrom (bHyster : Nat) {trips : Nat} (ok : Ok k free ((h, nodes) :: msgs))
    (enough : nodes.length ≤ trips) :
    ∃ next left, Kerbuf.freemsgFrom bHyster trips h k = .ok next ∧ Ok next left msgs ∧
      Kept k next (held msgs) := by
  induction trips generalizing k free h nodes with
  | zero =>
    obtain rfl := List.length_eq_zero_iff.mp (Nat.le_zero.mp enough)
    have none : h = none := (ok.msgRing _ List.mem_cons_self).none_iff.mpr rfl
    subst none
    exact ⟨k, free, rfl, ok.tail_nil, Kept.refl k _⟩
  | succ trips inductionHypothesis =>
    cases nodes with
    | nil =>
      have none : h = none := (ok.msgRing _ List.mem_cons_self).none_iff.mpr rfl
      subst none
      exact ⟨k, free, rfl, ok.tail_nil, Kept.refl k _⟩
    | cons first rest =>
      obtain ⟨mid, between, freed, okMid, keptMid, -⟩ := ok.freebuf bHyster
      obtain ⟨next, left, run, okNext, kept⟩ :=
        inductionHypothesis okMid (Nat.le_of_succ_le_succ enough)
      refine ⟨next, left, ?_, okNext,
        (keptMid.mono fun buf inside => List.mem_append_right _ inside).trans kept⟩
      cases h with
      | none =>
        exact absurd ((ok.msgRing _ List.mem_cons_self).none_iff.mp rfl)
          (List.cons_ne_nil first rest)
      | some msg =>
        rw [Kerbuf.freemsgFrom, freed]
        exact run

theorem Ok.freemsg (bHyster : Nat) (ok : Ok k free ((h, nodes) :: msgs)) :
    ∃ next left, Kerbuf.freemsg bHyster h k = .ok next ∧ Ok next left msgs ∧
      Kept k next (held msgs) := by
  refine ok.freemsgFrom bHyster (Nat.le_trans ?_ ok.length_le)
  rw [held_cons]
  simp only [List.length_append]
  omega

/-! ### Buffers are got -/

theorem chop_spec {bufs : List Nat} {c : Kbuf} (ring : Shape k.bQlink k.bFreel free)
    (once : bufs.Nodup) (new : ∀ buf ∈ bufs, buf ∉ free) (there : k.kb index = some c) :
    Shape (chop index bufs k).bQlink (chop index bufs k).bFreel (free ++ bufs) ∧
      (∀ buf, buf ∉ free ++ bufs → (chop index bufs k).bQlink buf = k.bQlink buf) ∧
      (∀ buf, (chop index bufs k).bMember buf = if buf ∈ bufs then index else k.bMember buf) ∧
      (chop index bufs k).kb =
        Function.update k.kb index (some { c with bFreect := c.bFreect + bufs.length }) ∧
      (chop index bufs k).bCntfree = k.bCntfree + bufs.length ∧
      (chop index bufs k).bAlloc = k.bAlloc ∧
      (∀ buf, (chop index bufs k).bEom buf = if buf ∈ bufs then false else k.bEom buf) ∧
      (chop index bufs k).bLen = k.bLen ∧ (chop index bufs k).bData = k.bData := by
  induction bufs generalizing k free c with
  | nil =>
    have same : Function.update k.kb index (some c) = k.kb :=
      update_eq_self_iff.mpr there.symm
    rw [List.append_nil]
    exact ⟨ring, fun _ _ => rfl, fun _ => rfl, same.symm, rfl, rfl, fun _ => rfl, rfl, rfl⟩
  | cons buf rest inductionHypothesis =>
    obtain ⟨notRest, restOnce⟩ := List.nodup_cons.mp once
    have notFree := new buf List.mem_cons_self
    let marked : Kernel := { k with bMember := Function.update k.bMember buf index }
    have isMember : marked.bMember buf = index := update_self _ _ _
    have counted : (Kerbuf.freeb buf marked).kb =
        Function.update k.kb index (some { c with bFreect := c.bFreect + 1 }) := by
      show countFree marked (marked.bMember buf) (· + 1) = _
      rw [isMember, countFree, show marked.kb index = some c from there, Option.map_some]
    obtain ⟨shape, links, members, kbs, count, alloc, eoms, lens, data⟩ :=
      @inductionHypothesis (Kerbuf.freeb buf marked) (free ++ [buf])
        { c with bFreect := c.bFreect + 1 } (ring.put notFree) restOnce (by
          intro other inside isFree
          rcases List.mem_append.mp isFree with isFree | only
          · exact new other (List.mem_cons_of_mem _ inside) isFree
          · exact notRest (List.mem_singleton.mp only ▸ inside))
        (by rw [counted, update_self])
    have goes : chop index (buf :: rest) k = chop index rest (Kerbuf.freeb buf marked) := rfl
    rw [List.append_assoc, List.singleton_append] at shape
    rw [goes]
    refine ⟨shape, ?_, ?_, ?_, ?_, alloc, ?_, lens, data⟩
    · intro other outside
      rw [links other (by rwa [List.append_assoc, List.singleton_append])]
      refine put_other _ ?_ fun isLast => ?_
      · rintro rfl
        exact outside (List.mem_append_right _ List.mem_cons_self)
      · exact outside (List.mem_append_left _
          (List.mem_of_getLast? (ring.held.symm.trans isLast)))
    · intro other
      rw [members]
      by_cases here : other = buf
      · subst here
        rw [if_neg notRest, if_pos List.mem_cons_self]
        exact isMember
      · have same : (Kerbuf.freeb buf marked).bMember other = k.bMember other :=
          update_of_ne here _ _
        by_cases later : other ∈ rest
        · rw [if_pos later, if_pos (List.mem_cons_of_mem _ later)]
        · rw [if_neg later, same,
            if_neg fun inside => later ((List.mem_cons.mp inside).resolve_left here)]
    · rw [kbs, counted, update_idem, List.length_cons, Nat.add_assoc, Nat.add_comm 1]
    · rw [count, List.length_cons]
      show k.bCntfree + 1 + rest.length = _
      omega
    · intro other
      rw [eoms]
      by_cases later : other ∈ rest
      · rw [if_pos later, if_pos (List.mem_cons_of_mem _ later)]
      · rw [if_neg later]
        by_cases here : other = buf
        · rw [here, if_pos List.mem_cons_self]
          exact update_self _ _ _
        · rw [if_neg fun inside => later ((List.mem_cons.mp inside).resolve_left here)]
          exact update_of_ne here _ _

theorem owned_update {bufs : List Nat} (inRange : index < kbHiwat) (before : bufsAt k index = [])
    (after : bufsAt next index = bufs) (others : ∀ i, i ≠ index → bufsAt next i = bufsAt k i) :
    (owned next).Perm (bufs ++ owned k) := by
  have split := List.perm_cons_erase (List.mem_range.mpr inRange)
  have rest : ((List.range kbHiwat).erase index).flatMap (bufsAt next) =
      ((List.range kbHiwat).erase index).flatMap (bufsAt k) :=
    List.flatMap_congr fun i inside => others i (List.nodup_range.mem_erase_iff.mp inside).1
  have grown := split.flatMap_right (bufsAt next)
  have was := split.flatMap_right (bufsAt k)
  rw [List.flatMap_cons, after, rest] at grown
  rw [List.flatMap_cons, before, List.nil_append] at was
  exact grown.trans (was.symm.append_left bufs)

theorem Ok.hole (ok : Ok k free msgs) (few : k.bAlloc < kbHiwat) :
    ∃ index, (List.range kbHiwat).find? (fun index => (k.kb index).isNone) = some index ∧
      index < kbHiwat ∧ k.kb index = none := by
  cases found : (List.range kbHiwat).find? fun index => (k.kb index).isNone with
  | some index =>
    have empty : (k.kb index).isNone = true :=
      List.find?_some (p := fun i => (k.kb i).isNone) found
    exact ⟨index, rfl, List.mem_range.mp (List.mem_of_find?_eq_some found),
      Option.isNone_iff_eq_none.mp empty⟩
  | none =>
    have all : (List.range kbHiwat).countP (fun i => (k.kb i).isSome) = kbHiwat := by
      rw [List.countP_eq_length.mpr, List.length_range]
      intro i inside
      have taken := List.find?_eq_none.mp found i inside
      rwa [Option.isNone_iff_eq_none, ← Option.ne_none_iff_isSome] at *
    rw [ok.alloc, all] at few
    exact absurd few (Nat.lt_irrefl _)

/-- A kernel buffer is got: its network buffers are free, and the messages are as before. -/
theorem Ok.getkb (getblk : Getblk) (ok : Ok k free msgs) (few : k.bAlloc < kbHiwat) :
    ∃ next, Kerbuf.getkb getblk k = .ok next ∧ Ok next (free ++ getblk.pick k) msgs ∧
      Kept k next (held msgs) := by
  obtain ⟨index, found, inRange, hole⟩ := ok.hole few
  let bufs := getblk.pick k
  let grown : Kernel :=
    { k with bAlloc := k.bAlloc + 1, kb := Function.update k.kb index (some ⟨bufs, 0⟩) }
  have apart : ∀ buf ∈ bufs, buf ∉ owned k := getblk.fresh k
  have off : ∀ buf ∈ bufs, buf ∉ free ++ held msgs := fun buf inside known =>
    apart buf inside (ok.all.mem_iff.mp known)
  obtain ⟨shape, links, members, kbs, count, alloc, eoms, lens, data⟩ :=
    @chop_spec grown free index bufs ⟨bufs, 0⟩ ok.freeRing (getblk.nodup k)
      (fun buf inside isFree => off buf inside (List.mem_append_left _ isFree))
      (update_self _ _ _)
  rw [show bufs.length = netBPerKB from getblk.size k] at kbs count
  rw [Nat.zero_add] at kbs
  have table : (chop index bufs grown).kb =
      Function.update k.kb index (some ⟨bufs, netBPerKB⟩) := by
    rw [kbs]
    exact update_idem _ _ _
  have bufsHere : bufsAt (chop index bufs grown) index = bufs := by
    rw [bufsAt, table, update_self]
    rfl
  have bufsOther (i : Nat) (differs : i ≠ index) :
      bufsAt (chop index bufs grown) i = bufsAt k i := by
    rw [bufsAt, table, update_of_ne differs]
    rfl
  have pool : (owned (chop index bufs grown)).Perm (bufs ++ owned k) :=
    owned_update inRange (by rw [bufsAt, hole]; rfl) bufsHere bufsOther
  have old (buf : Nat) (known : buf ∈ free ++ held msgs) :
      (chop index bufs grown).bMember buf = k.bMember buf := by
    rw [members, if_neg fun inside => off buf inside known]
  have cases' (i : Nat) (b : Kbuf) (there : (chop index bufs grown).kb i = some b) :
      (i = index ∧ b = ⟨bufs, netBPerKB⟩) ∨ i ≠ index ∧ k.kb i = some b := by
    rw [table] at there
    by_cases here : i = index
    · subst here
      rw [update_self, Option.some_inj] at there
      exact .inl ⟨rfl, there.symm⟩
    · rw [update_of_ne here] at there
      exact .inr ⟨here, there⟩
  refine ⟨chop index bufs grown, ?_, ?_, ?_⟩
  · unfold Kerbuf.getkb
    rw [if_neg (Nat.not_le_of_lt few), found]
  · constructor
    · exact shape
    · intro msg member
      refine (ok.msgRing msg member).congr fun buf inside => links buf fun other => ?_
      rcases List.mem_append.mp other with isFree | fresh
      · exact ok.not_free member inside isFree
      · exact off buf fresh (List.mem_append_right _ (mem_held.mpr ⟨msg, member, inside⟩))
    · refine List.Perm.trans ?_ pool.symm
      refine List.Perm.trans ?_ (ok.all.append_left bufs)
      rw [← List.append_assoc]
      exact List.perm_append_comm.append_right _
    · refine pool.nodup_iff.mpr (List.nodup_append.mpr ⟨getblk.nodup k, ok.nodup, ?_⟩)
      rintro buf fresh _ isOwned rfl
      exact apart buf fresh isOwned
    · intro i b there
      rcases cases' i b there with ⟨rfl, rfl⟩ | ⟨-, there⟩
      · exact ⟨inRange, getblk.size k⟩
      · exact ok.size i b there
    · intro i b there buf inside
      rw [members]
      rcases cases' i b there with ⟨rfl, rfl⟩ | ⟨-, there⟩
      · exact if_pos inside
      · rw [if_neg fun fresh =>
          apart buf fresh (mem_owned.mpr ⟨i, (ok.size i b there).1, b, there, inside⟩)]
        exact ok.member i b there buf inside
    · intro i b there
      have fresh : bufs.countP (fun buf => (chop index bufs grown).bMember buf = i) =
          if i = index then netBPerKB else 0 := by
        by_cases here : i = index
        · rw [if_pos here, ← show bufs.length = netBPerKB from getblk.size k,
            List.countP_eq_length]
          intro buf inside
          rw [members, if_pos inside, here]
          exact decide_eq_true rfl
        · rw [if_neg here, List.countP_eq_zero]
          intro buf inside same
          rw [members, if_pos inside] at same
          exact here (of_decide_eq_true same).symm
      have frees : free.countP (fun buf => (chop index bufs grown).bMember buf = i) =
          free.countP fun buf => k.bMember buf = i :=
        List.countP_congr fun buf inside => by rw [old buf (List.mem_append_left _ inside)]
      rw [List.countP_append, fresh, frees]
      rcases cases' i b there with ⟨rfl, rfl⟩ | ⟨differs, there⟩
      · rw [if_pos rfl, List.countP_eq_zero.mpr, Nat.zero_add]
        intro buf inside same
        obtain ⟨j, -, c, at', here⟩ := mem_owned.mp
          (ok.all.mem_iff.mp (List.mem_append_left _ inside))
        obtain rfl := (ok.member j c at' buf here).symm.trans (of_decide_eq_true same)
        exact Option.some_ne_none c (at'.symm.trans hole)
      · rw [if_neg differs, Nat.add_zero]
        exact ok.freect i b there
    · have filled : Function.update (chop index bufs grown).kb index none = k.kb := by
        rw [table, update_idem]
        exact update_eq_self_iff.mpr hole.symm
      rw [alloc, countP_update_none (b := ⟨bufs, netBPerKB⟩)
        (by rw [table, update_self]) inRange, filled]
      show k.bAlloc + 1 = _
      rw [ok.alloc]
    · rw [count, List.length_append, getblk.size k]
      show k.bCntfree + netBPerKB = _
      rw [ok.cntfree]
    · intro buf inside
      rw [eoms]
      split
      · rfl
      · rename_i old
        exact ok.clean buf ((List.mem_append.mp inside).resolve_right old)
  · refine ⟨fun buf _ => by rw [lens], fun buf inside => ?_, fun buf _ => by rw [data]⟩
    rw [eoms, if_neg fun fresh => off buf fresh (List.mem_append_right _ inside)]

/-- How many buffers can be got without a wait: the free ones, and those of the kernel buffers that
can still be taken from the system. -/
def spare (k : Kernel) : Nat := k.bCntfree + netBPerKB * (kbHiwat - k.bAlloc)

theorem getkb_spare (getblk : Getblk) (ok : Ok k free msgs) (few : k.bAlloc < kbHiwat)
    (got : Kerbuf.getkb getblk k = .ok next) (okNext : Ok next (free ++ getblk.pick k) msgs) :
    spare next = spare k := by
  have count := okNext.cntfree
  rw [List.length_append, getblk.size k, ← ok.cntfree] at count
  have alloc : next.bAlloc = k.bAlloc + 1 := by
    obtain ⟨index, found, inRange, hole⟩ := ok.hole few
    unfold Kerbuf.getkb at got
    rw [if_neg (Nat.not_le_of_lt few), found] at got
    obtain rfl := Except.ok.inj got
    have chopped (bufs : List Nat) (k : Kernel) : (chop index bufs k).bAlloc = k.bAlloc := by
      induction bufs generalizing k with
      | nil => rfl
      | cons buf rest inductionHypothesis => exact inductionHypothesis _
    rw [chopped]
  unfold spare
  rw [count, alloc]
  unfold kbHiwat netBPerKB at *
  omega

theorem Ok.take {freel : Nat} (ok : Ok k free msgs) (isLast : k.bFreel = some freel) :
    ∃ left, Ok (Kerbuf.takeFree freel k).1 left
        ((some (Kerbuf.takeFree freel k).2, [(Kerbuf.takeFree freel k).2]) :: msgs) ∧
      (Kerbuf.takeFree freel k).1.bLen (Kerbuf.takeFree freel k).2 = 0 ∧
      (Kerbuf.takeFree freel k).1.bEom (Kerbuf.takeFree freel k).2 = false ∧
      Kept k (Kerbuf.takeFree freel k).1 (held msgs) ∧
      spare k = spare (Kerbuf.takeFree freel k).1 + 1 := by
  cases free with
  | nil =>
    have none := ok.freeRing.none_iff.mpr rfl
    exact absurd (isLast.symm.trans none) (Option.some_ne_none freel)
  | cons first rest =>
    obtain ⟨isFirst, taken⟩ := ok.takeFree isLast
    rw [← isFirst] at taken
    have unmarked : k.bEom (Kerbuf.takeFree freel k).2 = false := by
      rw [isFirst]
      exact ok.clean first List.mem_cons_self
    refine ⟨rest, taken, update_self _ _ _, unmarked, ⟨fun buf inside => ?_,
      fun _ _ => rfl, fun _ _ => rfl⟩, ?_⟩
    · refine update_of_ne ?_ _ _
      rintro rfl
      obtain ⟨msg, member, here⟩ := mem_held.mp inside
      exact (taken.head_apart List.mem_cons_self).2 msg member here
    · show k.bCntfree + netBPerKB * (kbHiwat - k.bAlloc) =
        k.bCntfree - 1 + netBPerKB * (kbHiwat - k.bAlloc) + 1
      have count := ok.cntfree
      rw [List.length_cons] at count
      omega

theorem Ok.getbuf (getblk : Getblk) (ok : Ok k free msgs) :
    (Kerbuf.getbuf getblk k = .error .asleep ∧ spare k = 0) ∨
      ∃ next left buf, Kerbuf.getbuf getblk k = .ok (next, buf) ∧
        Ok next left ((some buf, [buf]) :: msgs) ∧ next.bLen buf = 0 ∧
        next.bEom buf = false ∧ Kept k next (held msgs) ∧ spare k = spare next + 1 := by
  unfold Kerbuf.getbuf
  cases isLast : k.bFreel with
  | some freel =>
    obtain ⟨left, taken, empty, unmarked, kept, fewer⟩ := ok.take isLast
    exact .inr ⟨_, left, _, rfl, taken, empty, unmarked, kept, fewer⟩
  | none =>
    have none : free = [] := ok.freeRing.none_iff.mp isLast
    by_cases few : k.bAlloc < kbHiwat
    · obtain ⟨grown, got, okGrown, keptGrown⟩ := ok.getkb getblk few
      have some : grown.bFreel ≠ Option.none := fun absent => by
        have empty := okGrown.freeRing.none_iff.mp absent
        have size := getblk.size k
        rw [(List.append_eq_nil_iff.mp empty).2] at size
        exact absurd size (Nat.succ_ne_zero 7).symm
      obtain ⟨freel, isFreel⟩ := Option.ne_none_iff_exists'.mp some
      obtain ⟨left, taken, empty, unmarked, kept, fewer⟩ := okGrown.take isFreel
      refine .inr ⟨_, left, _, ?_, taken, empty, unmarked, keptGrown.trans kept, ?_⟩
      · dsimp only
        rw [got]
        dsimp only
        rw [isFreel]
      · rw [← fewer, getkb_spare getblk ok few got okGrown]
    · have full : kbHiwat ≤ k.bAlloc := Nat.le_of_not_lt few
      refine .inl ⟨?_, ?_⟩
      · dsimp only
        rw [Kerbuf.getkb, if_pos full]
        dsimp only
        rw [isLast]
      · rw [spare, ok.cntfree, none, Nat.sub_eq_zero_of_le full]
        rfl

end NetworkUnix.Ncpk.Kerbuf
