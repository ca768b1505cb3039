/-
This file proves when the four views of the free message buffers agree: the
count of all, the counts of the pages, the cursors, and the order of the list.
They do as long as every request is served from more than one counted buffer or
after the pool has grown, for a request that finds the last one clears the count
without taking it.
-/

import NetworkUnix.Bbnnet.MbufPages
import NetworkUnix.Lib.Run
import Mathlib.Algebra.BigOperators.Group.List.Basic
import Mathlib.Algebra.GroupWithZero.Nat
import Mathlib.Data.Finset.Card

namespace NetworkUnix.Bbnnet.Pages

open Function Ring

/-! ### The agreement of the four views -/

/-- The indices of the free mbufs in a page. -/
def freeSet (p : Pool) (page : Nat) : Finset Nat :=
  (Finset.range nmbpg).filter fun index => p.mOff ⟨page, index⟩ = freeMark

/-- An mbuf that somebody holds. -/
def Held (p : Pool) (m : Mb) : Prop :=
  p.netmap m.page = true ∧ m.index < nmbpg ∧ p.mOff m ≠ freeMark

/-- The pages in use are on the circular list, and the count and the cursor of each of them agree
with its mbufs. -/
structure Linked (p : Pool) (rest : List Nat) : Prop where
  ring : IsRing p.pNext p.pPrev p.nFree rest
  mapped : ∀ page, p.netmap page = true ↔ page ∈ p.nFree :: rest
  within : ∀ page ∈ p.nFree :: rest, page < nnetpages
  counts : ∀ page ∈ p.nFree :: rest, p.pFree page = (freeSet p page).card
  cursor : ∀ page ∈ p.nFree :: rest, 0 < p.pFree page →
    p.pOff page < nmbpg ∧ p.mOff ⟨page, p.pOff page⟩ = freeMark

/-- The wholly free pages behind the top come first. -/
def Blocked (p : Pool) (rest : List Nat) : Prop :=
  ∃ block others, rest = block ++ others ∧ (∀ page ∈ block, p.pFree page = nmbpg) ∧
    ∀ page ∈ others, p.pFree page ≠ nmbpg

/-- A pool whose top page has a free mbuf and whose wholly free pages are contiguous. -/
structure Sound (p : Pool) (rest : List Nat) : Prop extends Linked p rest where
  top : 0 < p.pFree p.nFree
  blocked : Blocked p rest

/-- The number of free mbufs, page by page. -/
def total (p : Pool) (rest : List Nat) : Nat := ((p.nFree :: rest).map p.pFree).sum

/-- A sound pool with `lag` more free mbufs than it counts. -/
def Good (p : Pool) (lag : Int) : Prop :=
  ∃ rest, Sound p rest ∧ (total p rest : Int) = p.nBufs + lag

theorem mem_freeSet {p : Pool} {page index : Nat} :
    index ∈ freeSet p page ↔ index < nmbpg ∧ p.mOff ⟨page, index⟩ = freeMark := by
  rw [freeSet, Finset.mem_filter, Finset.mem_range]

theorem freeSet_le (p : Pool) (page : Nat) : (freeSet p page).card ≤ nmbpg :=
  (Finset.card_filter_le _ _).trans_eq (Finset.card_range _)

theorem freeSet_congr {p q : Pool} {page : Nat}
    (same : ∀ index, q.mOff ⟨page, index⟩ = p.mOff ⟨page, index⟩) :
    freeSet q page = freeSet p page := by
  ext index
  rw [mem_freeSet, mem_freeSet, same]

theorem Linked.length_lt {p : Pool} {rest : List Nat} (linked : Linked p rest) :
    rest.length < nnetpages := by
  have inside : (p.nFree :: rest).toFinset ⊆ Finset.range nnetpages := by
    intro page member
    rw [Finset.mem_range]
    exact linked.within page (List.mem_toFinset.mp member)
  have bound := Finset.card_le_card inside
  rw [List.toFinset_card_of_nodup linked.ring.nodup, Finset.card_range, List.length_cons] at bound
  exact bound

theorem Good.congr {p q : Pool} {lag more : Int} (good : Good p lag)
    (same : q = { p with nBufs := q.nBufs, nPages := q.nPages })
    (counts : q.nBufs + more = p.nBufs + lag) : Good q more := by
  obtain ⟨rest, sound, sum⟩ := good
  rw [same]
  refine ⟨rest, ⟨⟨sound.ring, sound.mapped, sound.within, sound.counts, sound.cursor⟩,
    sound.top, sound.blocked⟩, ?_⟩
  show (total p rest : Int) = q.nBufs + more
  rw [sum, counts]

/-! ### Taking a buffer -/

theorem nextOff_some {p : Pool} {page : Nat} {tries j next : Nat}
    (found : nextOff p page tries j = some next) :
    next < nmbpg ∧ p.mOff ⟨page, next⟩ = freeMark := by
  induction tries generalizing j with
  | zero => exact absurd found.symm (Option.some_ne_none _)
  | succ tries inductionHypothesis =>
    rw [nextOff] at found
    split at found
    · rename_i free
      obtain rfl := Option.some.inj found
      exact ⟨Nat.mod_lt _ (by decide), free⟩
    · exact inductionHypothesis found

theorem nextOff_none {p : Pool} {page : Nat} {tries j : Nat}
    (nothing : nextOff p page tries j = none) :
    ∀ step < tries, p.mOff ⟨page, (j + 1 + step) % nmbpg⟩ ≠ freeMark := by
  induction tries generalizing j with
  | zero => exact fun step below => absurd below (Nat.not_lt_zero _)
  | succ tries inductionHypothesis =>
    rw [nextOff] at nothing
    split at nothing
    · exact absurd nothing (Option.some_ne_none _)
    rename_i used
    intro step below
    cases step with
    | zero => exact used
    | succ step =>
      have later := inductionHypothesis nothing step (Nat.lt_of_succ_lt_succ below)
      have same : (j + 1 + (step + 1)) % nmbpg = ((j + 1) % nmbpg + 1 + step) % nmbpg := by
        unfold nmbpg
        omega
      rw [same]
      exact later

theorem nextOff_finds {p : Pool} {page off other : Nat} (inside : off < nmbpg)
    (small : other < nmbpg) (apart : other ≠ off) (free : p.mOff ⟨page, other⟩ = freeMark) :
    ∃ next, nextOff p page (nmbpg - 1) off = some next := by
  cases found : nextOff p page (nmbpg - 1) off with
  | some next => exact ⟨next, rfl⟩
  | none =>
    have used := nextOff_none found ((other + 2 * nmbpg - off - 1) % nmbpg) (by
      unfold nmbpg at *
      omega)
    have same : (off + 1 + (other + 2 * nmbpg - off - 1) % nmbpg) % nmbpg = other := by
      unfold nmbpg at *
      omega
    rw [same] at used
    exact absurd free used

theorem total_perm {p q : Pool} {rest others : List Nat} (same : q.pFree = p.pFree)
    (perm : (q.nFree :: others).Perm (p.nFree :: rest)) : total q others = total p rest := by
  rw [total, total, same]
  exact (perm.map p.pFree).sum_eq

theorem allocated_pFree_other {p : Pool} {page : Nat} (apart : page ≠ p.nFree) :
    (allocated p).pFree page = p.pFree page := update_of_ne apart _ _

theorem allocated_pFree_top (p : Pool) : (allocated p).pFree p.nFree = p.pFree p.nFree - 1 :=
  update_self ..

theorem allocated_mOff_other {p : Pool} {m : Mb} (apart : m ≠ topMb p) :
    (allocated p).mOff m = p.mOff m := update_of_ne apart _ _

theorem allocated_freeSet (p : Pool) :
    freeSet (allocated p) p.nFree = (freeSet p p.nFree).erase (p.pOff p.nFree) := by
  ext index
  rw [Finset.mem_erase, mem_freeSet, mem_freeSet]
  by_cases same : index = p.pOff p.nFree
  · have used : (allocated p).mOff ⟨p.nFree, index⟩ = 0 := by
      rw [same]
      exact update_self ..
    rw [used]
    simp [same]
  · have apart : (⟨p.nFree, index⟩ : Mb) ≠ topMb p := fun equal => same (congrArg Mb.index equal)
    rw [allocated_mOff_other apart]
    simp [same]

theorem allocated_counts {p : Pool} {rest : List Nat} (sound : Sound p rest) :
    (∀ page ∈ p.nFree :: rest, (allocated p).pFree page = (freeSet (allocated p) page).card) ∧
      (∀ page ∈ rest, 0 < (allocated p).pFree page →
        (allocated p).pOff page < nmbpg ∧
          (allocated p).mOff ⟨page, (allocated p).pOff page⟩ = freeMark) ∧
      ((p.nFree :: rest).map (allocated p).pFree).sum + 1 = total p rest := by
  obtain ⟨topOut, _⟩ := List.nodup_cons.mp sound.ring.nodup
  have positive := sound.top
  obtain ⟨small, free⟩ := sound.cursor p.nFree List.mem_cons_self positive
  have apart : ∀ page ∈ rest, page ≠ p.nFree := fun page inside same => topOut (same ▸ inside)
  have otherMb : ∀ page ∈ rest, ∀ index, (⟨page, index⟩ : Mb) ≠ topMb p :=
    fun page inside index equal => apart page inside (congrArg Mb.page equal)
  have others : ∀ page ∈ rest, (allocated p).pFree page = p.pFree page :=
    fun page inside => allocated_pFree_other (apart page inside)
  refine ⟨?_, ?_, ?_⟩
  · intro page inside
    rcases List.mem_cons.mp inside with rfl | tail
    · rw [allocated_pFree_top, allocated_freeSet, Finset.card_erase_of_mem,
        sound.counts _ List.mem_cons_self]
      exact mem_freeSet.mpr ⟨small, free⟩
    · rw [others page tail, sound.counts page inside,
        freeSet_congr fun index => allocated_mOff_other (otherMb page tail index)]
  · intro page inside some
    rw [others page inside] at some
    rw [allocated_mOff_other (otherMb page inside _)]
    exact sound.cursor page (List.mem_cons_of_mem _ inside) some
  · rw [total, List.map_cons, List.map_cons, List.sum_cons, List.sum_cons,
      List.map_congr_left others, allocated_pFree_top]
    omega

theorem allocated_held {p : Pool} {rest : List Nat} (sound : Sound p rest) (m : Mb) :
    Held (allocated p) m ↔ Held p m ∨ m = topMb p := by
  by_cases same : m = topMb p
  · subst same
    have mapped := (sound.mapped p.nFree).mpr List.mem_cons_self
    have small := (sound.cursor p.nFree List.mem_cons_self sound.top).1
    have used : (allocated p).mOff (topMb p) = 0 := update_self ..
    simp only [or_true, iff_true]
    exact ⟨mapped, small, by rw [used]; decide⟩
  · rw [Held, Held, allocated_mOff_other same]
    simp only [same, or_false]
    exact Iff.rfl

/-- The mbuf that is handed out was free, and everything else stays as it was. -/
theorem mTake_spec {p : Pool} {lag : Int} (good : Good p lag) (two : 2 ≤ p.nBufs + lag) :
    ∃ q m, mTake p = .ok (q, m) ∧ Good q (lag - 1) ∧ q.nBufs = p.nBufs ∧ ¬ Held p m ∧
      ∀ other, Held q other ↔ Held p other ∨ other = m := by
  obtain ⟨rest, sound, sum⟩ := good
  obtain ⟨small, free⟩ := sound.cursor p.nFree List.mem_cons_self sound.top
  obtain ⟨topOut, restNodup⟩ := List.nodup_cons.mp sound.ring.nodup
  obtain ⟨counts, cursor, lost⟩ := allocated_counts sound
  have others : ∀ page ∈ rest, (allocated p).pFree page = p.pFree page :=
    fun page inside => allocated_pFree_other fun same => topOut (same ▸ inside)
  have notHeld : ¬ Held p (topMb p) := fun held => held.2.2 free
  have held := allocated_held sound
  unfold mTake
  simp only
  split
  · rename_i more
    have some : 0 < (freeSet (allocated p) p.nFree).card := by
      rw [← counts p.nFree List.mem_cons_self]
      exact Nat.pos_of_ne_zero more
    obtain ⟨index, member⟩ := Finset.card_pos.mp some
    obtain ⟨below, marked⟩ := mem_freeSet.mp member
    rw [allocated_freeSet, Finset.mem_erase] at member
    obtain ⟨next, found⟩ := nextOff_finds (p := allocated p) small below member.1 marked
    obtain ⟨nextBelow, nextFree⟩ := nextOff_some found
    rw [show nextOff (allocated p) (allocated p).nFree (nmbpg - 1) (topMb p).index =
      Option.some next from found]
    refine ⟨_, topMb p, rfl, ⟨rest, ⟨⟨sound.ring, sound.mapped, sound.within, counts, ?_⟩,
      Nat.pos_of_ne_zero more, ?_⟩, ?_⟩, rfl, notHeld, held⟩
    · intro page inside positive
      rcases List.mem_cons.mp inside with rfl | tail
      · show Function.update p.pOff p.nFree next p.nFree < nmbpg ∧
          (allocated p).mOff ⟨p.nFree, Function.update p.pOff p.nFree next p.nFree⟩ = freeMark
        rw [update_self]
        exact ⟨nextBelow, nextFree⟩
      · show Function.update p.pOff p.nFree next page < nmbpg ∧
          (allocated p).mOff ⟨page, Function.update p.pOff p.nFree next page⟩ = freeMark
        rw [update_of_ne fun same : page = p.nFree => topOut (same ▸ tail)]
        exact cursor page tail positive
    · obtain ⟨block, later, shape, whole, parts⟩ := sound.blocked
      refine ⟨block, later, shape, fun page inside => ?_, fun page inside => ?_⟩
      · exact (others page (shape ▸ List.mem_append_left _ inside)).trans (whole page inside)
      · exact (others page (shape ▸ List.mem_append_right _ inside)).trans_ne (parts page inside)
    · show (((p.nFree :: rest).map (allocated p).pFree).sum : Int) = p.nBufs + (lag - 1)
      omega
  · rename_i empty
    have empty : (allocated p).pFree p.nFree = 0 := Decidable.not_not.mp empty
    have ring : IsRing (allocated p).pNext (allocated p).pPrev p.nFree rest := sound.ring
    rw [show seek (allocated p).pNext (fun page => (allocated p).pFree page ≠ 0) nnetpages
      ((allocated p).pNext (allocated p).nFree) (allocated p).nFree =
        rest.find? (fun page => (allocated p).pFree page ≠ 0) from ring.seek sound.length_lt]
    cases found : rest.find? (fun page => (allocated p).pFree page ≠ 0) with
    | none =>
      have zero : (rest.map (allocated p).pFree).sum = 0 := by
        refine List.sum_eq_zero fun count inside => ?_
        obtain ⟨page, member, rfl⟩ := List.mem_map.mp inside
        simpa using List.find?_eq_none.mp found page member
      rw [List.map_cons, List.sum_cons, empty, zero] at lost
      omega
    | some page =>
      obtain ⟨some, before, behind, shape, nothing⟩ := List.find?_eq_some_iff_append.mp found
      have some : (allocated p).pFree page ≠ 0 := by simpa using some
      have perm : (page :: (behind ++ p.nFree :: before)).Perm (p.nFree :: rest) := by
        rw [shape]
        exact (perm_rotate _ _ _ _).symm
      refine ⟨_, topMb p, rfl, ⟨behind ++ p.nFree :: before, ⟨⟨?_, ?_, ?_, ?_, ?_⟩,
        Nat.pos_of_ne_zero some, ?_⟩, ?_⟩, rfl, notHeld, held⟩
      · rw [shape] at ring
        exact ring.rotate
      · exact fun other => (sound.mapped other).trans perm.mem_iff.symm
      · exact fun other inside => sound.within other (perm.mem_iff.mp inside)
      · exact fun other inside => counts other (perm.mem_iff.mp inside)
      · intro other inside positive
        rcases List.mem_cons.mp (perm.mem_iff.mp inside) with rfl | tail
        · rw [show (allocated p).pFree p.nFree = 0 from empty] at positive
          exact absurd positive (Nat.lt_irrefl 0)
        · exact cursor other tail positive
      · obtain ⟨block, later, blocks, whole, parts⟩ := sound.blocked
        have zeroParts : (allocated p).pFree p.nFree ≠ nmbpg := by
          rw [empty]
          decide
        cases block with
        | nil =>
          rw [List.nil_append] at blocks
          refine ⟨[], _, rfl, by simp, fun other inside => ?_⟩
          have member := perm.mem_iff.mp (List.mem_cons_of_mem page inside)
          rcases List.mem_cons.mp member with rfl | tail
          · exact zeroParts
          · exact (others other tail).trans_ne (parts other (blocks ▸ tail))
        | cons first block =>
          have firstWhole : (allocated p).pFree first = nmbpg :=
            (others first (by rw [blocks]; simp)).trans (whole first List.mem_cons_self)
          have nothingBefore : before = [] := by
            cases before with
            | nil => rfl
            | cons other before =>
              rw [blocks] at shape
              have same : first = other := (List.cons.inj shape).1
              have zero := nothing other List.mem_cons_self
              rw [← same] at zero
              simp only [Bool.not_eq_eq_eq_not, Bool.not_true, decide_eq_false_iff_not,
                Decidable.not_not] at zero
              rw [zero] at firstWhole
              exact absurd firstWhole (by decide)
          subst nothingBefore
          rw [blocks] at shape
          obtain ⟨rfl, tails⟩ := List.cons.inj shape
          refine ⟨block, later ++ [p.nFree], ?_, fun other inside => ?_, fun other inside => ?_⟩
          · rw [← List.append_assoc, show block ++ later = behind from tails]
          · exact (others other (by rw [blocks]; simp [inside])).trans
              (whole other (List.mem_cons_of_mem _ inside))
          · rcases List.mem_append.mp inside with tail | only
            · exact (others other (by rw [blocks]; simp [tail])).trans_ne (parts other tail)
            · rw [List.mem_singleton.mp only]
              exact zeroParts
      · have sums : (total { allocated p with nFree := page } (behind ++ p.nFree :: before)) =
            ((p.nFree :: rest).map (allocated p).pFree).sum :=
          (perm.map (allocated p).pFree).sum_eq
        rw [sums]
        show _ = p.nBufs + (lag - 1)
        omega

/-! ### Freeing a buffer -/

theorem linkRun_pNext (p : Pool) (i j : Nat) : (linkRun p i j).pNext =
    Function.update (Function.update p.pNext j (p.pNext p.nFree)) p.nFree i := rfl

theorem linkRun_pPrev (p : Pool) (i j : Nat) : (linkRun p i j).pPrev =
    Function.update (Function.update p.pPrev i p.nFree) (p.pNext p.nFree) j := rfl

theorem mInsert_fields (p : Pool) (i : Nat) :
    (mInsert p i).pFree = p.pFree ∧ (mInsert p i).pOff = p.pOff ∧ (mInsert p i).mOff = p.mOff ∧
      (mInsert p i).netmap = p.netmap ∧ (mInsert p i).nBufs = p.nBufs := by
  unfold mInsert
  split
  · exact ⟨rfl, rfl, rfl, rfl, rfl⟩
  split
  · exact ⟨rfl, rfl, rfl, rfl, rfl⟩
  · exact ⟨rfl, rfl, rfl, rfl, rfl⟩

/-- A page that has become wholly free joins the others. -/
theorem mInsert_ring {p : Pool} {rest block others : List Nat} {i : Nat}
    (ring : IsRing p.pNext p.pPrev p.nFree rest) (shape : rest = block ++ others)
    (whole : ∀ page ∈ block, p.pFree page = nmbpg) (full : p.pFree i = nmbpg)
    (parts : ∀ page ∈ others, page ≠ i → p.pFree page ≠ nmbpg)
    (place : i = p.nFree ∨ i ∈ others) :
    ∃ order, IsRing (mInsert p i).pNext (mInsert p i).pPrev (mInsert p i).nFree order ∧
      ((mInsert p i).nFree :: order).Perm (p.nFree :: rest) ∧
      ((mInsert p i).nFree = p.nFree ∨ (mInsert p i).nFree = i) ∧ Blocked (mInsert p i) order := by
  have nodup := ring.nodup
  have topOut := (List.nodup_cons.mp nodup).1
  by_cases top : i = p.nFree
  · have same : mInsert p i = p := by
      unfold mInsert
      simp only [top, ne_eq, not_true_eq_false, false_and, if_false]
      split
      · rfl
      · rfl
    rw [same]
    refine ⟨rest, ring, List.Perm.refl _, Or.inl rfl, block, others, shape, whole, ?_⟩
    intro page inside
    refine parts page inside fun equal => topOut ?_
    rw [← top, ← equal, shape]
    exact List.mem_append_right _ inside
  have inside : i ∈ others := place.resolve_left top
  obtain ⟨before, behind, split⟩ := List.append_of_mem inside
  have around : rest = (block ++ before) ++ i :: behind := by
    rw [shape, split, List.append_assoc]
  have links := ring
  rw [around] at links
  obtain ⟨prevLink, nextLink⟩ := links.around
  have apart : ∀ page ∈ before ++ behind, page ≠ i ∧ p.pFree page ≠ nmbpg := by
    have out : i ∉ before ++ behind := by
      have othersNodup : others.Nodup := by
        have := (List.nodup_cons.mp nodup).2
        rw [shape, List.nodup_append] at this
        exact this.2.1
      rw [split] at othersNodup
      exact (List.nodup_cons.mp (List.perm_middle.nodup_iff.mp othersNodup)).1
    intro page member
    have different : page ≠ i := fun same => out (same ▸ member)
    refine ⟨different, parts page ?_ different⟩
    rw [split]
    rcases List.mem_append.mp member with front | back
    · exact List.mem_append_left _ front
    · exact List.mem_append_right _ (List.mem_cons_of_mem _ back)
  by_cases alone : p.pFree (p.pPrev i) ≠ nmbpg ∧ p.pFree (p.pNext i) ≠ nmbpg
  · have moved := links.unlink
    have out : i ∉ p.nFree :: (block ++ before ++ behind) := by
      have := links.nodup
      rw [← List.cons_append] at this
      exact (List.nodup_cons.mp (List.perm_middle.nodup_iff.mp this)).1
    have result : mInsert p i = linkRun (unlinked p i) i i := by
      unfold mInsert
      exact if_pos ⟨top, alone⟩
    rw [result]
    have member : (unlinked p i).pNext p.nFree ∈ p.nFree :: (block ++ before ++ behind) := by
      have inside := List.head_mem (l := (block ++ before ++ behind) ++ [p.nFree]) (by simp)
      rw [← moved.path.next_first] at inside
      exact (List.perm_append_singleton _ _).mem_iff.mp inside
    have fresh : ∀ page ∈ p.nFree :: (block ++ before ++ behind), page ≠ i :=
      fun page inside same => out (same ▸ inside)
    refine ⟨[i] ++ (block ++ before ++ behind), moved.insert ⟨?_, ?_, ?_, ?_⟩ ?_ ?_
      (List.nodup_singleton i) ?_, ?_, Or.inl rfl, i :: block, before ++ behind, by simp, ?_, ?_⟩
    · exact update_self ..
    · rw [linkRun_pPrev]
      exact (update_of_ne (fresh _ member).symm _ _).trans (update_self ..)
    · rw [linkRun_pNext]
      exact (update_of_ne top _ _).trans (update_self ..)
    · exact update_self ..
    · intro page inside
      have notTop : page ≠ p.nFree := by
        intro same
        rw [same] at inside
        exact (List.nodup_cons.mp moved.nodup).1 inside
      exact (update_of_ne notTop _ _).trans
        (update_of_ne (fresh page (List.mem_cons_of_mem _ inside)) _ _)
    · intro page inside other
      exact (update_of_ne other _ _).trans (update_of_ne (fresh page inside) _ _)
    · intro page inside
      rw [List.mem_singleton.mp inside]
      exact out
    · show (p.nFree :: ([i] ++ (block ++ before ++ behind))).Perm (p.nFree :: rest)
      rw [around]
      exact (@List.perm_middle _ _ (block ++ before) _).symm.cons _
    · exact List.forall_mem_cons.mpr ⟨full, whole⟩
    · exact fun page inside => (apart page inside).2
  · have unmoved : ¬ (i ≠ p.nFree ∧ p.pFree (p.pPrev i) ≠ nmbpg ∧ p.pFree (p.pNext i) ≠ nmbpg) :=
      fun all => alone all.2
    by_cases follows : p.pFree (p.pNext i) = nmbpg
    · have result : mInsert p i = { p with nFree := i } := by
        unfold mInsert
        simp only [if_neg unmoved, if_pos follows]
      have last : behind = [] := by
        cases behind with
        | nil => rfl
        | cons next later =>
          rw [show p.pNext i = next from nextLink] at follows
          exact absurd follows (apart next (by simp)).2
      subst last
      rw [show p.pNext i = p.nFree from nextLink] at follows
      rw [result]
      refine ⟨[] ++ p.nFree :: (block ++ before), links.rotate, ?_, Or.inr rfl,
        p.nFree :: block, before, by simp, ?_, ?_⟩
      · rw [around]
        exact (perm_rotate _ _ _ _).symm
      · exact List.forall_mem_cons.mpr ⟨follows, whole⟩
      · exact fun page member => (apart page (by simp [member])).2
    · have result : mInsert p i = p := by
        unfold mInsert
        simp only [if_neg unmoved, if_neg follows]
      have preceded : p.pFree (p.pPrev i) = nmbpg := by
        by_contra other
        exact alone ⟨other, follows⟩
      have first : before = [] := by
        rcases List.eq_nil_or_concat before with none | ⟨initial, last, some⟩
        · exact none
        · have here : p.pPrev i = last := by
            rw [prevLink]
            simp [some]
          rw [here] at preceded
          exact absurd preceded (apart last (by simp [some])).2
      subst first
      rw [result]
      refine ⟨rest, ring, List.Perm.refl _, Or.inl rfl, block ++ [i], behind, by simp [around], ?_,
        fun page member => (apart page (by simpa using member)).2⟩
      intro page member
      rcases List.mem_append.mp member with front | only
      · exact whole page front
      · rw [List.mem_singleton.mp only]
        exact full

theorem marked_pFree_other {p : Pool} {m : Mb} {page : Nat} (apart : page ≠ m.page) :
    (marked p m).pFree page = p.pFree page := update_of_ne apart _ _

theorem marked_pFree_page (p : Pool) (m : Mb) :
    (marked p m).pFree m.page = p.pFree m.page + 1 := update_self ..

theorem marked_mOff_other {p : Pool} {m other : Mb} (apart : other ≠ m) :
    (marked p m).mOff other = p.mOff other := update_of_ne apart _ _

theorem marked_mOff_self (p : Pool) (m : Mb) : (marked p m).mOff m = freeMark :=
  update_self ..

theorem marked_freeSet {p : Pool} {m : Mb} (small : m.index < nmbpg) :
    freeSet (marked p m) m.page = insert m.index (freeSet p m.page) := by
  ext index
  rw [Finset.mem_insert, mem_freeSet, mem_freeSet]
  by_cases same : index = m.index
  · subst same
    rw [marked_mOff_self]
    simp [small]
  · rw [marked_mOff_other fun equal => same (congrArg Mb.index equal)]
    simp [same]

theorem marked_linked {p : Pool} {rest : List Nat} {m : Mb} (linked : Linked p rest)
    (held : Held p m) : Linked (marked p m) rest ∧ total (marked p m) rest = total p rest + 1 := by
  obtain ⟨mapped, small, used⟩ := held
  have inside := (linked.mapped m.page).mp mapped
  have notIn : m.index ∉ freeSet p m.page := fun member => used (mem_freeSet.mp member).2
  refine ⟨⟨linked.ring, linked.mapped, linked.within, ?_, ?_⟩, ?_⟩
  · intro page member
    by_cases same : page = m.page
    · rw [same, marked_pFree_page, marked_freeSet small, Finset.card_insert_of_notMem notIn,
        linked.counts _ inside]
    · rw [marked_pFree_other same, linked.counts page member]
      refine congrArg Finset.card (freeSet_congr fun index => (marked_mOff_other ?_)).symm
      exact fun equal => same (congrArg Mb.page equal)
  · intro page member positive
    by_cases same : page = m.page
    · have off : (marked p m).pOff page = m.index := by
        rw [same]
        exact update_self ..
      rw [off, same]
      exact ⟨small, marked_mOff_self p m⟩
    · rw [marked_pFree_other same] at positive
      have off : (marked p m).pOff page = p.pOff page := update_of_ne same _ _
      rw [off, marked_mOff_other fun equal => same (congrArg Mb.page equal)]
      exact linked.cursor page member positive
  · obtain ⟨front, back, shape⟩ := List.append_of_mem inside
    have nodup := linked.ring.nodup
    have top : (marked p m).nFree = p.nFree := rfl
    rw [total, total, top, shape, List.map_append, List.map_append, List.sum_append,
      List.sum_append, List.map_cons, List.map_cons, List.sum_cons, List.sum_cons,
      marked_pFree_page]
    rw [shape] at nodup
    have out := (List.nodup_cons.mp (List.perm_middle.nodup_iff.mp nodup)).1
    have other : ∀ page ∈ front ++ back, (marked p m).pFree page = p.pFree page :=
      fun page member => marked_pFree_other fun same => out (same ▸ member)
    rw [List.map_congr_left fun page member => other page (List.mem_append_left _ member),
      List.map_congr_left fun page member => other page (List.mem_append_right _ member)]
    omega

theorem marked_held {p : Pool} {m : Mb} (held : Held p m) (other : Mb) :
    Held (marked p m) other ↔ Held p other ∧ other ≠ m := by
  by_cases same : other = m
  · subst same
    simp [Held, marked_mOff_self]
  · rw [Held, Held, marked_mOff_other same]
    simp only [ne_eq, same, not_false_eq_true, and_true]
    exact Iff.rfl

theorem mFree_spec {p : Pool} {lag : Int} {m : Mb} (good : Good p lag) (held : Held p m) :
    ∃ q, mFree p m = .ok q ∧ Good q lag ∧ q.nBufs = p.nBufs + 1 ∧
      ∀ other, Held q other ↔ Held p other ∧ other ≠ m := by
  obtain ⟨rest, sound, sum⟩ := good
  obtain ⟨linked, gain⟩ := marked_linked sound.toLinked held
  have inside := (sound.mapped m.page).mp held.1
  have most : (marked p m).pFree m.page ≤ nmbpg := by
    rw [linked.counts m.page inside]
    exact freeSet_le _ _
  have topFree : 0 < (marked p m).pFree p.nFree := by
    by_cases same : p.nFree = m.page
    · rw [same, marked_pFree_page]
      exact Nat.succ_pos _
    · rw [marked_pFree_other same]
      exact sound.top
  obtain ⟨block, others, shape, whole, parts⟩ := sound.blocked
  have notWhole : p.pFree m.page ≠ nmbpg := by
    intro all
    rw [marked_pFree_page] at most
    omega
  have outside : m.page ∉ block := fun member => notWhole (whole m.page member)
  have blockWhole : ∀ page ∈ block, (marked p m).pFree page = nmbpg := by
    intro page member
    rw [marked_pFree_other fun same => outside (same ▸ member)]
    exact whole page member
  have otherParts : ∀ page ∈ others, page ≠ m.page → (marked p m).pFree page ≠ nmbpg := by
    intro page member apart
    rw [marked_pFree_other apart]
    exact parts page member
  rw [mFree, if_neg held.2.2]
  simp only
  by_cases full : (marked p m).pFree m.page ≥ nmbpg
  · have full' : (marked p m).pFree m.page = nmbpg := Nat.le_antisymm most full
    rw [if_pos full, if_neg (Nat.not_lt.mpr most)]
    obtain ⟨sameFree, sameOff, sameMOff, sameMap, sameBufs⟩ := mInsert_fields (marked p m) m.page
    have place : m.page = p.nFree ∨ m.page ∈ others := by
      rcases List.mem_cons.mp inside with top | tail
      · exact Or.inl top
      · rw [shape] at tail
        exact Or.inr ((List.mem_append.mp tail).resolve_left outside)
    obtain ⟨order, ring, perm, top, blocked⟩ :=
      mInsert_ring linked.ring shape blockWhole full' otherParts place
    have perm : ((mInsert (marked p m) m.page).nFree :: order).Perm (p.nFree :: rest) := perm
    refine ⟨_, rfl, ⟨order, ⟨⟨ring, ?_, ?_, ?_, ?_⟩, ?_, blocked⟩, ?_⟩, sameBufs, ?_⟩
    · intro page
      rw [sameMap]
      exact (linked.mapped page).trans perm.mem_iff.symm
    · exact fun page member => linked.within page (perm.mem_iff.mp member)
    · intro page member
      rw [sameFree, linked.counts page (perm.mem_iff.mp member)]
      exact congrArg Finset.card (freeSet_congr fun index => by rw [sameMOff]).symm
    · intro page member
      rw [sameFree, sameOff, sameMOff]
      exact linked.cursor page (perm.mem_iff.mp member)
    · rw [sameFree]
      rcases top with same | same
      · rw [same]
        exact topFree
      · rw [same, full']
        exact Nat.succ_pos _
    · have sums : total (mInsert (marked p m) m.page) order = total (marked p m) rest :=
        total_perm sameFree perm
      have bufs : (marked p m).nBufs = p.nBufs + 1 := rfl
      rw [sums, gain, sameBufs, bufs]
      omega
    · intro other
      rw [← marked_held held, Held, Held, sameMap, sameMOff]
  · rw [if_neg full]
    refine ⟨_, rfl, ⟨rest, ⟨linked, topFree, block, others, shape, blockWhole, ?_⟩, ?_⟩, rfl,
      marked_held held⟩
    · intro page member
      by_cases same : page = m.page
      · rw [same]
        exact fun equal => full (Nat.le_of_eq equal.symm)
      · exact otherParts page member same
    · have bufs : (marked p m).nBufs = p.nBufs + 1 := rfl
      rw [gain, bufs]
      omega

theorem mFreem_spec {p : Pool} {lag : Int} {chain : List Mb} (good : Good p lag)
    (held : ∀ m ∈ chain, Held p m) (nodup : chain.Nodup) :
    ∃ q, mFreem p chain = .ok q ∧ Good q lag ∧ q.nBufs = p.nBufs + chain.length ∧
      ∀ other, Held q other ↔ Held p other ∧ other ∉ chain := by
  induction chain generalizing p with
  | nil => exact ⟨p, rfl, good, by simp, by simp⟩
  | cons m rest inductionHypothesis =>
    obtain ⟨out, restNodup⟩ := List.nodup_cons.mp nodup
    obtain ⟨q, freed, qGood, qBufs, qHeld⟩ := mFree_spec good (held m List.mem_cons_self)
    have restHeld : ∀ other ∈ rest, Held q other := fun other inside =>
      (qHeld other).mpr ⟨held other (List.mem_cons_of_mem _ inside), fun same => out (same ▸ inside)⟩
    obtain ⟨r, all, rGood, rBufs, rHeld⟩ := inductionHypothesis qGood restHeld restNodup
    refine ⟨r, ?_, rGood, ?_, fun other => ?_⟩
    · rw [mFreem, freed]
      exact all
    · rw [rBufs, qBufs, List.length_cons]
      omega
    · rw [rHeld, qHeld, List.mem_cons, not_or, and_assoc]

/-! ### Growing -/

theorem path_range {next prev : Nat → Nat} {first start count last : Nat} (some : 0 < count)
    (forth : next first = start) (back : prev start = first)
    (inner : ∀ page, start ≤ page → page + 1 < start + count →
      next page = page + 1 ∧ prev (page + 1) = page)
    (out : next (start + count - 1) = last) (into : prev last = start + count - 1) :
    Path next prev first (List.range' start count) last := by
  induction count generalizing first start with
  | zero => exact absurd some (Nat.lt_irrefl 0)
  | succ count inductionHypothesis =>
    rw [List.range'_succ]
    refine ⟨forth, back, ?_⟩
    have shift : start + (count + 1) - 1 = start + count := by omega
    rw [shift] at out into
    rcases Nat.eq_zero_or_pos count with rfl | more
    · exact ⟨out, into⟩
    · obtain ⟨next, prev⟩ := inner start (Nat.le_refl _) (by omega)
      have shift : start + 1 + count - 1 = start + count := by omega
      exact inductionHypothesis more next prev (fun page low high => inner page (by omega) (by omega))
        (by rw [shift]; exact out) (by rw [shift]; exact into)

/-- The new pages are free and stand behind the top. -/
theorem pgAlloc_spec {rmalloc : Rmalloc} {p q : Pool} {n : Nat} {lag : Int} (good : Good p lag)
    (grown : pgAlloc rmalloc p n = some q) :
    Good q lag ∧ q.nBufs = p.nBufs + n * nmbpg ∧ 0 < n ∧ ∀ m, Held q m ↔ Held p m := by
  obtain ⟨rest, sound, sum⟩ := good
  unfold pgAlloc at grown
  cases picked : rmalloc.pick p.netmap n with
  | none =>
    rw [picked] at grown
    exact absurd grown.symm (Option.some_ne_none _)
  | some i =>
    rw [picked] at grown
    obtain rfl := Option.some.inj grown
    obtain ⟨notZero, some, bound, unused⟩ := rmalloc.correct _ _ _ picked
    have outside : ∀ page ∈ p.nFree :: rest, ¬ (i ≤ page ∧ page < i + n) := by
      intro page inside here
      have mapped := (sound.mapped page).mpr inside
      rw [unused page here.1 here.2] at mapped
      exact Bool.false_ne_true mapped
    have member : p.pNext p.nFree ∈ p.nFree :: rest := by
      have inside := List.head_mem (l := rest ++ [p.nFree]) (by simp)
      rw [← sound.ring.path.next_first] at inside
      exact (List.perm_append_singleton _ _).mem_iff.mp inside
    have apart : ∀ page ∈ p.nFree :: rest, ∀ other, i ≤ other → other < i + n → other ≠ page :=
      fun page inside other low high same => outside page inside (same ▸ ⟨low, high⟩)
    have topOut := (List.nodup_cons.mp sound.ring.nodup).1
    have next : (fresh p i n).pNext p.nFree = p.pNext p.nFree :=
      if_neg fun here => outside _ List.mem_cons_self (of_decide_eq_true here.1)
    have oldNext : ∀ page ∈ p.nFree :: rest, (fresh p i n).pNext page = p.pNext page :=
      fun page inside => if_neg fun here => outside _ inside (of_decide_eq_true here.1)
    have oldPrev : ∀ page ∈ p.nFree :: rest, (fresh p i n).pPrev page = p.pPrev page :=
      fun page inside => if_neg fun here => outside _ inside (of_decide_eq_true here.1)
    have oldFree : ∀ page ∈ p.nFree :: rest, (fresh p i n).pFree page = p.pFree page :=
      fun page inside => if_neg fun here => outside _ inside (of_decide_eq_true here)
    have oldOff : ∀ page ∈ p.nFree :: rest, (fresh p i n).pOff page = p.pOff page :=
      fun page inside => if_neg fun here => outside _ inside (of_decide_eq_true here)
    have oldMOff : ∀ m : Mb, m.page ∈ p.nFree :: rest → (fresh p i n).mOff m = p.mOff m :=
      fun m inside => if_neg fun here => outside _ inside (of_decide_eq_true here)
    have newFree : ∀ page ∈ List.range' i n, (fresh p i n).pFree page = nmbpg :=
      fun page inside => if_pos (decide_eq_true (List.mem_range'_1.mp inside))
    have newMOff : ∀ m : Mb, m.page ∈ List.range' i n → (fresh p i n).mOff m = freeMark :=
      fun m inside => if_pos (decide_eq_true (List.mem_range'_1.mp inside))
    have split : ∀ page, page ∈ p.nFree :: (List.range' i n ++ rest) ↔
        page ∈ List.range' i n ∨ page ∈ p.nFree :: rest := by
      intro page
      simp only [List.mem_cons, List.mem_append]
      tauto
    have path : Path (linkRun (fresh p i n) i (i + n - 1)).pNext
        (linkRun (fresh p i n) i (i + n - 1)).pPrev p.nFree (List.range' i n)
        (p.pNext p.nFree) := by
      rw [linkRun_pNext, linkRun_pPrev]
      show Path (Function.update (Function.update _ (i + n - 1) ((fresh p i n).pNext p.nFree))
        p.nFree i) (Function.update (Function.update _ i p.nFree)
          ((fresh p i n).pNext p.nFree) (i + n - 1)) _ _ _
      rw [next]
      refine path_range some (update_self ..) ?_ ?_ ?_ (update_self ..)
      · rw [update_of_ne (apart _ member i (Nat.le_refl _) (by omega)),
          update_self]
      · intro page low high
        have here : (decide (i ≤ page ∧ page < i + n) = true) ∧ n > 1 :=
          ⟨decide_eq_true ⟨low, by omega⟩, by omega⟩
        have there : (decide (i ≤ page + 1 ∧ page + 1 < i + n) = true) ∧ n > 1 :=
          ⟨decide_eq_true ⟨by omega, high⟩, by omega⟩
        rw [update_of_ne (apart _ List.mem_cons_self page low (by omega)),
          update_of_ne (by omega),
          update_of_ne (apart _ member (page + 1) (by omega) high),
          update_of_ne (by omega)]
        exact ⟨if_pos here, if_pos there⟩
      · rw [update_of_ne (apart _ List.mem_cons_self _ (by omega) (by omega)),
          update_self]
    refine ⟨⟨List.range' i n ++ rest, ⟨⟨?_, ?_, ?_, ?_, ?_⟩, ?_, ?_⟩, ?_⟩, rfl, some, ?_⟩
    · refine sound.ring.insert path ?_ ?_ (List.nodup_range' ..) ?_
      · intro page inside
        have notTop : page ≠ p.nFree := fun same => topOut (same ▸ inside)
        refine (update_of_ne notTop _ _).trans
          ((update_of_ne ?_ _ _).trans (oldNext page (List.mem_cons_of_mem _ inside)))
        exact (apart page (List.mem_cons_of_mem _ inside) _ (by omega) (by omega)).symm
      · intro page inside other
        refine (update_of_ne (fun same => other (same.trans next)) _ _).trans
          ((update_of_ne ?_ _ _).trans (oldPrev page inside))
        exact (apart page inside i (Nat.le_refl _) (by omega)).symm
      · exact fun page inside member => outside page member (List.mem_range'_1.mp inside)
    · intro page
      show (decide (i ≤ page ∧ page < i + n) || p.netmap page) = true ↔
        page ∈ p.nFree :: (List.range' i n ++ rest)
      rw [split, Bool.or_eq_true, decide_eq_true_iff, List.mem_range'_1, sound.mapped]
    · intro page inside
      rcases (split page).mp inside with new | old
      · have := List.mem_range'_1.mp new
        omega
      · exact sound.within page old
    · intro page inside
      show (fresh p i n).pFree page = _
      rcases (split page).mp inside with new | old
      · have all : freeSet { linkRun (fresh p i n) i (i + n - 1) with
            nPages := p.nPages + n, nBufs := p.nBufs + n * nmbpg } page = Finset.range nmbpg := by
          ext index
          rw [mem_freeSet, Finset.mem_range]
          exact and_iff_left (newMOff ⟨page, index⟩ new)
        rw [all, Finset.card_range, newFree page new]
      · rw [oldFree page old, sound.counts page old]
        exact congrArg Finset.card (freeSet_congr fun index => oldMOff ⟨page, index⟩ old).symm
    · intro page inside positive
      show (fresh p i n).pOff page < nmbpg ∧ (fresh p i n).mOff ⟨page, (fresh p i n).pOff page⟩ = _
      rcases (split page).mp inside with new | old
      · rw [newMOff _ new]
        have zero : (fresh p i n).pOff page = 0 :=
          if_pos (decide_eq_true (List.mem_range'_1.mp new))
        rw [zero]
        exact ⟨by decide, rfl⟩
      · rw [oldOff page old, oldMOff _ old]
        have positive : 0 < (fresh p i n).pFree page := positive
        rw [oldFree page old] at positive
        exact sound.cursor page old positive
    · show 0 < (fresh p i n).pFree p.nFree
      rw [oldFree _ List.mem_cons_self]
      exact sound.top
    · obtain ⟨block, others, shape, whole, parts⟩ := sound.blocked
      refine ⟨List.range' i n ++ block, others, by rw [shape, List.append_assoc], ?_, ?_⟩
      · intro page inside
        rcases List.mem_append.mp inside with new | old
        · exact newFree page new
        · have member : page ∈ p.nFree :: rest := by
            rw [shape]
            exact List.mem_cons_of_mem _ (List.mem_append_left _ old)
          exact (oldFree page member).trans (whole page old)
      · intro page inside
        have member : page ∈ p.nFree :: rest := by
          rw [shape]
          exact List.mem_cons_of_mem _ (List.mem_append_right _ inside)
        exact (oldFree page member).trans_ne (parts page inside)
    · have new : ((List.range' i n).map (fresh p i n).pFree).sum = n * nmbpg := by
        rw [List.map_congr_left newFree, List.map_const', List.sum_replicate, List.length_range']
        rfl
      have old : (rest.map (fresh p i n).pFree) = rest.map p.pFree :=
        List.map_congr_left (List.forall_mem_cons.mp oldFree).2
      show ((((p.nFree :: (List.range' i n ++ rest)).map (fresh p i n).pFree).sum : Nat) : Int) =
        p.nBufs + n * nmbpg + lag
      rw [total, List.map_cons, List.sum_cons] at sum
      rw [List.map_cons, List.map_append, List.sum_cons, List.sum_append, new, old,
        oldFree _ List.mem_cons_self]
      push_cast at sum ⊢
      omega
    · intro m
      show ((decide (i ≤ m.page ∧ m.page < i + n) || p.netmap m.page) = true ∧ m.index < nmbpg ∧
        (fresh p i n).mOff m ≠ freeMark) ↔ Held p m
      by_cases here : i ≤ m.page ∧ m.page < i + n
      · have free := newMOff m (List.mem_range'_1.mpr here)
        have unmapped := unused m.page here.1 here.2
        simp [Held, free, unmapped]
      · have same : (fresh p i n).mOff m = p.mOff m := if_neg fun h => here (of_decide_eq_true h)
        rw [same]
        simp [Held, here]

theorem singly_spec {rmalloc : Rmalloc} {needp : Int} {tries : Nat} {p : Pool} {need lag : Int}
    (good : Good p lag) :
    Good (singly rmalloc needp tries p need).1 lag ∧
      (singly rmalloc needp tries p need).1.nBufs + (singly rmalloc needp tries p need).2.1 =
        p.nBufs + need ∧
      ∀ m, Held (singly rmalloc needp tries p need).1 m ↔ Held p m := by
  induction tries generalizing p need with
  | zero => exact ⟨good, rfl, fun _ => Iff.rfl⟩
  | succ tries inductionHypothesis =>
    unfold singly
    split
    · exact ⟨good, rfl, fun _ => Iff.rfl⟩
    cases grown : pgAlloc rmalloc p 1 with
    | none => exact ⟨good, rfl, fun _ => Iff.rfl⟩
    | some q =>
      obtain ⟨qGood, bufs, _, held⟩ := pgAlloc_spec good grown
      obtain ⟨last, sum, same⟩ := @inductionHypothesis q (need - nmbpg) qGood
      refine ⟨last, ?_, fun m => (same m).trans (held m)⟩
      rw [sum, bufs]
      push_cast
      omega

/-- The mbufs that a list of queues holds. -/
def bufsOf (holders : List Holder) : List Mb := holders.flatMap Holder.bufs

theorem steal_spec {holders : List Holder} {p : Pool} {need lag : Int} (good : Good p lag)
    (held : ∀ m ∈ bufsOf holders, Held p m) (nodup : (bufsOf holders).Nodup) :
    ∃ q left freed, steal holders p need = .ok (q, left, freed) ∧ Good q lag ∧
      p.nBufs + need ≤ q.nBufs + left ∧ freed ⊆ bufsOf holders ∧
      ∀ m, Held q m ↔ Held p m ∧ m ∉ freed := by
  induction holders generalizing p need with
  | nil => exact ⟨p, need, [], rfl, good, Int.le_refl _, List.nil_subset _, by simp⟩
  | cons holder rest inductionHypothesis =>
    unfold steal
    split
    · rw [bufsOf, List.flatMap_cons] at held nodup
      rw [List.nodup_append] at nodup
      obtain ⟨here, later, apart⟩ := nodup
      obtain ⟨q, freed, qGood, bufs, qHeld⟩ := mFreem_spec good
        (fun m inside => held m (List.mem_append_left _ inside)) here
      have restHeld : ∀ m ∈ bufsOf rest, Held q m := fun m inside =>
        (qHeld m).mpr ⟨held m (List.mem_append_right _ inside),
          fun first => apart m first m inside rfl⟩
      obtain ⟨r, left, more, stolen, rGood, grows, subset, rHeld⟩ :=
        @inductionHypothesis q (need - holder.chains.flatten.length) qGood restHeld later
      rw [freed]
      simp only [stolen]
      refine ⟨r, left, holder.bufs ++ more, rfl, rGood, ?_, ?_, fun m => ?_⟩
      · rw [Holder.bufs, List.length_append] at bufs
        push_cast at bufs
        omega
      · intro m inside
        rw [bufsOf, List.flatMap_cons]
        rcases List.mem_append.mp inside with first | second
        · exact List.mem_append_left _ first
        · exact List.mem_append_right _ (subset second)
      · rw [rHeld, qHeld, List.mem_append, not_or, and_assoc]
    · exact ⟨p, need, [], rfl, good, Int.le_refl _, List.nil_subset _, by simp⟩

/-- The queues that may be stolen from hold their mbufs, each once. -/
structure Around.Right (around : Around) (p : Pool) : Prop where
  held : ∀ m ∈ bufsOf (around.nIp ++ around.nTcb), Held p m
  nodup : (bufsOf (around.nIp ++ around.nTcb)).Nodup

theorem mExpand_spec {around : Around} {p : Pool} {lag : Int} (good : Good p lag)
    (right : around.Right p) :
    ∃ q grown freed, mExpand around p = .ok (q, grown, freed) ∧ Good q lag ∧
      (grown = true → p.nBufs < q.nBufs) ∧ freed ⊆ bufsOf (around.nIp ++ around.nTcb) ∧
      ∀ m, Held q m ↔ Held p m ∧ m ∉ freed := by
  obtain ⟨held, nodup⟩ := right
  rw [bufsOf, List.flatMap_append] at held nodup
  rw [List.nodup_append] at nodup
  obtain ⟨ipNodup, tcbNodup, apart⟩ := nodup
  unfold mExpand
  simp only
  cases grown : pgAlloc around.rmalloc p ((around.nHiwat - p.nBufs) / nmbpg).toNat with
  | some q =>
    obtain ⟨qGood, bufs, some, qHeld⟩ := pgAlloc_spec good grown
    refine ⟨q, true, [], rfl, qGood, fun _ => ?_, List.nil_subset _, by simpa using qHeld⟩
    rw [bufs]
    exact Int.lt_add_of_pos_right _ (Int.mul_pos (Int.natCast_pos.mpr some) (by decide))
  | none =>
    obtain ⟨qGood, sum, qHeld⟩ := @singly_spec around.rmalloc
      ((around.nHiwat - p.nBufs) / nmbpg) ((around.nHiwat - p.nBufs) / nmbpg).toNat p
      (around.nHiwat - p.nBufs) lag good
    generalize singly around.rmalloc _ _ p _ = result at qGood sum qHeld
    obtain ⟨q, need, failed⟩ := result
    cases failed with
    | false =>
      refine ⟨q, _, [], rfl, qGood, fun less => ?_, List.nil_subset _, by simpa using qHeld⟩
      have less := of_decide_eq_true less
      simp only at sum
      omega
    | true =>
      simp only at qGood sum qHeld ⊢
      obtain ⟨r, left, first, stolen, rGood, grows, subset, rHeld⟩ := @steal_spec around.nIp q need
        lag qGood (fun m inside => (qHeld m).mpr (held m (List.mem_append_left _ inside))) ipNodup
      rw [stolen]
      simp only
      have tcbHeld : ∀ m ∈ bufsOf around.nTcb, Held r m := fun m inside =>
        (rHeld m).mpr ⟨(qHeld m).mpr (held m (List.mem_append_right _ inside)),
          fun early => apart m (subset early) m inside rfl⟩
      obtain ⟨s, rest, second, more, sGood, growsMore, subsetMore, sHeld⟩ :=
        @steal_spec around.nTcb r left lag rGood tcbHeld tcbNodup
      rw [more]
      refine ⟨s, _, first ++ second, rfl, sGood, fun less => ?_, ?_, fun m => ?_⟩
      · have less := of_decide_eq_true less
        omega
      · intro m inside
        rw [bufsOf, List.flatMap_append]
        rcases List.mem_append.mp inside with front | back
        · exact List.mem_append_left _ (subset front)
        · exact List.mem_append_right _ (subsetMore back)
      · rw [sHeld, rHeld, qHeld, List.mem_append, not_or, and_assoc]

/-! ### Getting a buffer -/

/-- The request finds more than one free mbuf counted, or the pool grows for it. -/
def Served (around : Around) (type : Nat) (p : Pool) : Prop :=
  2 ≤ p.nBufs ∨ type ≠ 0 ∧ ∃ q freed, mExpand around { p with nBufs := 0 } = .ok (q, true, freed)

theorem mGet_spec {around : Around} {type : Nat} {p : Pool} (good : Good p 0)
    (right : around.Right p) (served : Served around type p) :
    ∃ q m freed, mGet around type p = .ok (q, some m, freed) ∧ Good q 0 ∧
      freed ⊆ bufsOf (around.nIp ++ around.nTcb) ∧ ¬ (Held p m ∧ m ∉ freed) ∧
      ∀ other, Held q other ↔ (Held p other ∧ other ∉ freed) ∨ other = m := by
  have some : 1 ≤ p.nBufs := by
    obtain ⟨rest, sound, sum⟩ := good
    have positive := sound.top
    rw [total, List.map_cons, List.sum_cons] at sum
    omega
  unfold mGet
  simp only
  split
  · rename_i few
    have one : p.nBufs = 1 := by omega
    obtain ⟨asked, _⟩ := served.resolve_left (by omega)
    rw [if_neg asked]
    have lagging : Good { p with nBufs := 0 } 1 := good.congr rfl (by rw [one]; rfl)
    obtain ⟨q, grown, freed, expanded, qGood, grows, subset, qHeld⟩ :=
      mExpand_spec lagging ⟨right.held, right.nodup⟩
    have growth : grown = true := by
      obtain ⟨_, other, others, result⟩ := served.resolve_left (by omega)
      have same := expanded.symm.trans result
      injection same with same
      exact congrArg (fun r => r.2.1) same
    subst growth
    have more := grows rfl
    simp only at more
    obtain ⟨r, m, taken, rGood, _, notHeld, rHeld⟩ := mTake_spec qGood (by omega)
    rw [expanded]
    simp only [taken]
    refine ⟨r, m, freed, rfl, rGood, subset, fun held => notHeld ((qHeld m).mpr held),
      fun other => ?_⟩
    rw [rHeld, qHeld]
    exact Iff.rfl
  · rename_i many
    have lagging : Good { p with nBufs := p.nBufs - 1 } 1 := good.congr rfl (by simp)
    obtain ⟨r, m, taken, rGood, _, notHeld, rHeld⟩ := mTake_spec lagging (by
      simp only
      omega)
    rw [taken]
    refine ⟨r, m, [], rfl, rGood, List.nil_subset _, fun held => notHeld held.1, fun other => ?_⟩
    rw [rHeld]
    simp only [List.not_mem_nil, not_false_eq_true, and_true]
    exact Iff.rfl

/-! ### Shrinking -/

theorem pgRelse_spec {p : Pool} {rest block : List Nat} {i : Nat} {lag : Int}
    (sound : Sound p (rest ++ i :: block)) (sum : (total p (rest ++ i :: block) : Int) =
      p.nBufs + lag) (full : p.pFree i = nmbpg) (notZero : i ≠ 0) :
    Sound (pgRelse p i) (rest ++ block) ∧
      (total (pgRelse p i) (rest ++ block) : Int) = (pgRelse p i).nBufs + lag ∧
      (pgRelse p i).nFree = p.nFree ∧ (pgRelse p i).pFree = p.pFree ∧
      ∀ m, Held (pgRelse p i) m ↔ Held p m := by
  have nodup := sound.ring.nodup
  have out : i ∉ p.nFree :: (rest ++ block) := by
    rw [← List.cons_append] at nodup
    exact (List.nodup_cons.mp (List.perm_middle.nodup_iff.mp nodup)).1
  have notTop : p.nFree ≠ i := fun same => out (same ▸ List.mem_cons_self)
  have perm : (p.nFree :: (rest ++ i :: block)).Perm (i :: p.nFree :: (rest ++ block)) := by
    rw [← List.cons_append, ← List.cons_append]
    exact List.perm_middle
  have result : pgRelse p i = { unlinked p i with
      netmap := Function.update p.netmap i false
      nFree := p.nFree
      nPages := p.nPages - 1
      nBufs := p.nBufs - nmbpg } := by
    rw [pgRelse, if_neg notZero, if_neg notTop]
  have kept : ∀ page ∈ p.nFree :: (rest ++ block), page ∈ p.nFree :: (rest ++ i :: block) :=
    fun page inside => perm.mem_iff.mpr (List.mem_cons_of_mem _ inside)
  rw [result]
  refine ⟨⟨⟨sound.ring.unlink, ?_, fun page inside => sound.within page (kept page inside),
    fun page inside => sound.counts page (kept page inside),
    fun page inside => sound.cursor page (kept page inside)⟩, sound.top, ?_⟩, ?_, rfl, rfl, ?_⟩
  · intro page
    show Function.update p.netmap i false page = true ↔ _
    by_cases same : page = i
    · subst same
      rw [update_self]
      exact iff_of_false Bool.false_ne_true out
    · rw [update_of_ne same, sound.mapped, perm.mem_iff, List.mem_cons]
      exact or_iff_right same
  · obtain ⟨first, others, shape, whole, parts⟩ := sound.blocked
    refine ⟨first.erase i, others, ?_, ?_, parts⟩
    · have inside : i ∈ first := by
        have member : i ∈ first ++ others := by
          rw [← shape]
          simp
        exact (List.mem_append.mp member).resolve_right fun tail => parts i tail full
      rw [← List.erase_append_left _ inside, ← shape, List.erase_append_right, List.erase_cons_head]
      exact fun front => out (List.mem_cons_of_mem _ (List.mem_append_left _ front))
    · exact fun page inside => whole page (List.mem_of_mem_erase inside)
  · have sums : total p (rest ++ i :: block) = p.pFree i + total p (rest ++ block) :=
      (perm.map p.pFree).sum_eq
    show ((total p (rest ++ block) : Nat) : Int) = p.nBufs - nmbpg + lag
    rw [sums, full] at sum
    push_cast at sum ⊢
    omega
  · intro m
    show Function.update p.netmap i false m.page = true ∧ m.index < nmbpg ∧ p.mOff m ≠ freeMark ↔ _
    by_cases same : m.page = i
    · rw [same, update_self]
      refine iff_of_false (fun all => Bool.false_ne_true all.1) fun held => ?_
      have inside : i ∈ p.nFree :: (rest ++ i :: block) := by simp
      have all : freeSet p i = Finset.range nmbpg := by
        refine Finset.eq_of_subset_of_card_le (Finset.filter_subset _ _) ?_
        rw [Finset.card_range, ← sound.counts i inside, full]
      have member : m.index ∈ freeSet p i := by
        rw [all, Finset.mem_range]
        exact held.2.1
      exact held.2.2 (by rw [← (mem_freeSet.mp member).2, ← same])
    · rw [update_of_ne same]
      exact Iff.rfl

theorem Blocked.parts {p : Pool} {front rest : List Nat} {i : Nat}
    (blocked : Blocked p (front ++ i :: rest)) (part : p.pFree i ≠ nmbpg) :
    ∀ page ∈ i :: rest, p.pFree page ≠ nmbpg := by
  obtain ⟨block, others, shape, whole, parts⟩ := blocked
  intro page inside
  rcases List.append_eq_append_iff.mp shape with ⟨more, rfl, tail⟩ | ⟨more, rfl, tail⟩
  · cases more with
    | nil => exact parts page (by rw [List.nil_append] at tail; exact tail ▸ inside)
    | cons first more =>
      have same : i = first := (List.cons.inj tail).1
      exact absurd (whole i (by simp [same])) part
  · exact parts page (by rw [tail]; exact List.mem_append_right _ inside)

theorem relseLoop_spec {fuel : Nat} {p : Pool} {front rest : List Nat} {free lag : Int}
    (sound : Sound p (front ++ rest))
    (sum : (total p (front ++ rest) : Int) = p.nBufs + lag) (enough : rest.length < fuel)
    (kept : ∀ page ∈ front, page = 0) {q : Pool}
    (result : relseLoop fuel p free ((rest ++ [p.nFree]).head (by simp)) = q) :
    ∃ order, Sound q order ∧ (total q order : Int) = q.nBufs + lag ∧
      (∀ m, Held q m ↔ Held p m) ∧
      (q.nBufs + nmbpg * free ≤ p.nBufs ∨ ∀ page ∈ order, page ≠ 0 → q.pFree page ≠ nmbpg) := by
  induction fuel generalizing p front rest free with
  | zero => exact absurd enough (Nat.not_lt_zero _)
  | succ fuel inductionHypothesis =>
    unfold relseLoop at result
    cases rest with
    | nil =>
      have stops : ¬ (free > 0 ∧ ([] ++ [p.nFree]).head (by simp) ≠ p.nFree ∧
          p.pFree (([] ++ [p.nFree]).head (by simp)) = nmbpg) := fun all => all.2.1 rfl
      rw [if_neg stops] at result
      subst result
      refine ⟨_, sound, sum, fun _ => Iff.rfl, Or.inr fun page inside notZero => ?_⟩
      rw [List.append_nil] at inside
      exact absurd (kept page inside) notZero
    | cons i rest =>
      have here : ((i :: rest) ++ [p.nFree]).head (by simp) = i := rfl
      have next : p.pNext i = (rest ++ [p.nFree]).head (by simp) := sound.ring.around.2
      have notTop : i ≠ p.nFree := fun same =>
        (List.nodup_cons.mp sound.ring.nodup).1 (by rw [← same]; simp)
      simp only [here, next] at result
      split at result
      · rename_i excess
        split at result
        · rename_i notZero
          obtain ⟨less, lessSum, top, _, held⟩ :=
            pgRelse_spec sound sum excess.2.2 (Nat.ne_of_gt notZero)
          simp only [← top] at result
          obtain ⟨order, last, lastSum, lastHeld, done⟩ :=
            inductionHypothesis less lessSum (Nat.lt_of_succ_lt_succ enough) kept result
          have bufs : (pgRelse p i).nBufs = p.nBufs - nmbpg := by
            rw [pgRelse, if_neg (Nat.ne_of_gt notZero)]
          refine ⟨order, last, lastSum, fun m => (lastHeld m).trans (held m), ?_⟩
          refine done.imp_left fun gone => ?_
          rw [bufs] at gone
          unfold nmbpg at *
          push_cast at gone ⊢
          omega
        · rename_i zero
          have shift : front ++ i :: rest = (front ++ [i]) ++ rest := by simp
          refine inductionHypothesis (shift ▸ sound) (shift ▸ sum) (Nat.lt_of_succ_lt_succ enough)
            ?_ result
          intro page inside
          rcases List.mem_append.mp inside with old | only
          · exact kept page old
          · rw [List.mem_singleton.mp only]
            omega
      · rename_i stops
        subst result
        refine ⟨_, sound, sum, fun _ => Iff.rfl, ?_⟩
        by_cases enoughGone : free > 0
        · have part : p.pFree i ≠ nmbpg := fun full => stops ⟨enoughGone, notTop, full⟩
          refine Or.inr fun page inside notZero => ?_
          rcases List.mem_append.mp inside with old | later
          · exact absurd (kept page old) notZero
          · exact sound.blocked.parts part page later
        · refine Or.inl ?_
          unfold nmbpg
          push_cast
          omega

theorem mRelse_spec {p : Pool} {nHiwat lag : Int} (good : Good p lag) :
    Good (mRelse nHiwat p) lag ∧ (∀ m, Held (mRelse nHiwat p) m ↔ Held p m) ∧
      ((mRelse nHiwat p).nBufs - nHiwat < nmbpg ∨
        ∀ page, (mRelse nHiwat p).netmap page = true → page ≠ (mRelse nHiwat p).nFree →
          page ≠ 0 → (mRelse nHiwat p).pFree page ≠ nmbpg) := by
  obtain ⟨rest, sound, sum⟩ := good
  obtain ⟨order, last, lastSum, held, done⟩ := @relseLoop_spec nnetpages p [] rest
    ((p.nBufs - nHiwat) / nmbpg) lag sound sum sound.length_lt (by simp) _ rfl
  rw [← sound.ring.path.next_first] at last lastSum held done
  refine ⟨⟨order, last, lastSum⟩, held, done.imp ?_ ?_⟩
  · intro gone
    show (mRelse nHiwat p).nBufs - nHiwat < nmbpg
    unfold mRelse
    unfold nmbpg at *
    push_cast at gone ⊢
    omega
  · intro parts page mapped notTop notZero
    exact parts page (((List.mem_cons.mp ((last.mapped page).mp mapped))).resolve_left notTop) notZero

/-! ### Runs of the allocator -/

/-- A call of the allocator, or a caller that moves the data of an mbuf it holds. -/
inductive Call
  | get (around : Around) (type : Nat)
  | free (m : Mb)
  | freem (chain : List Mb)
  | alloc (rmalloc : Rmalloc) (n : Nat)
  | expand (around : Around)
  | relse (nHiwat : Int)
  | move (m : Mb) (off : Nat)

/-- The effect of a call: the pool, the mbuf that is handed out, and those that are stolen back. -/
def perform (p : Pool) : Call → Except Panic (Pool × Option Mb × List Mb)
  | .get around type => mGet around type p
  | .free m => (mFree p m).map fun q => (q, none, [])
  | .freem chain => (mFreem p chain).map fun q => (q, none, [])
  | .alloc rmalloc n => .ok ((pgAlloc rmalloc p n).getD p, none, [])
  | .expand around => (mExpand around p).map fun r => (r.1, none, r.2.2)
  | .relse nHiwat => .ok (mRelse nHiwat p, none, [])
  | .move m off => .ok ({ p with mOff := Function.update p.mOff m off }, none, [])

/-- What the callers keep to: they free only mbufs they hold. -/
def Promised (p : Pool) : Call → Prop
  | .get around _ => around.Right p
  | .free m => Held p m
  | .freem chain => (∀ m ∈ chain, Held p m) ∧ chain.Nodup
  | .alloc _ _ => True
  | .expand around => around.Right p
  | .relse _ => True
  | .move m off => Held p m ∧ off ≠ freeMark

/-- Every request is served. -/
def InStock (p : Pool) : Call → Prop
  | .get around type => Served around type p
  | _ => True

/-- The step relation. -/
def Calls (p : Pool) (call : Call) (next : Pool) : Prop :=
  Promised p call ∧ ∃ got freed, perform p call = .ok (next, got, freed)

/-- The four views of the free mbufs agree: the count, the counts of the pages on the circular list,
the cursors, and the order of the list. -/
def Agree (p : Pool) : Prop :=
  ∃ rest, IsRing p.pNext p.pPrev p.nFree rest ∧
    (∀ page, p.netmap page = true ↔ page ∈ p.nFree :: rest) ∧
    p.nBufs = ((p.nFree :: rest).map fun page => (freeSet p page).card).sum ∧
    p.nBufs = ((p.nFree :: rest).map p.pFree).sum ∧
    (∀ page ∈ p.nFree :: rest, 0 < p.pFree page →
      p.pOff page < nmbpg ∧ p.mOff ⟨page, p.pOff page⟩ = freeMark) ∧
    (0 < p.nBufs → 0 < p.pFree p.nFree) ∧ Blocked p rest

theorem Good.agree {p : Pool} (good : Good p 0) : Agree p := by
  obtain ⟨rest, sound, sum⟩ := good
  rw [Int.add_zero] at sum
  refine ⟨rest, sound.ring, sound.mapped, ?_, sum.symm, sound.cursor, fun _ => sound.top,
    sound.blocked⟩
  rw [← sum, total, List.map_congr_left sound.counts]

theorem Good.move {p : Pool} {m : Mb} {off : Nat} {lag : Int} (good : Good p lag)
    (held : Held p m) (used : off ≠ freeMark) :
    Good { p with mOff := Function.update p.mOff m off } lag := by
  obtain ⟨rest, sound, sum⟩ := good
  have same : ∀ other : Mb, Function.update p.mOff m off other = freeMark ↔
      p.mOff other = freeMark := by
    intro other
    by_cases here : other = m
    · rw [here, update_self]
      exact iff_of_false used held.2.2
    · rw [update_of_ne here]
  refine ⟨rest, ⟨⟨sound.ring, sound.mapped, sound.within, ?_, ?_⟩, sound.top, sound.blocked⟩, sum⟩
  · intro page inside
    rw [show p.pFree page = _ from sound.counts page inside]
    refine congrArg Finset.card ?_
    ext index
    rw [mem_freeSet, mem_freeSet]
    exact and_congr_right fun _ => (same _).symm
  · intro page inside positive
    obtain ⟨small, free⟩ := sound.cursor page inside positive
    exact ⟨small, (same _).mpr free⟩

theorem perform_spec {p : Pool} {call : Call} (good : Good p 0) (promised : Promised p call)
    (served : InStock p call) :
    ∃ q got freed, perform p call = .ok (q, got, freed) ∧ Good q 0 ∧
      ∀ m, got = some m → ¬ (Held p m ∧ m ∉ freed) := by
  have nobody {freed : List Mb} : ∀ m, (none : Option Mb) = some m → ¬ (Held p m ∧ m ∉ freed) :=
    fun m same => absurd same.symm (Option.some_ne_none m)
  cases call with
  | get around type =>
    obtain ⟨q, m, freed, result, qGood, _, notHeld, _⟩ := mGet_spec good promised served
    refine ⟨q, some m, freed, result, qGood, fun other same => ?_⟩
    rw [← Option.some.inj same]
    exact notHeld
  | free m =>
    obtain ⟨q, result, qGood, _, _⟩ := mFree_spec good promised
    exact ⟨q, none, [], by rw [perform, result]; rfl, qGood, nobody⟩
  | freem chain =>
    obtain ⟨q, result, qGood, _, _⟩ := mFreem_spec good promised.1 promised.2
    exact ⟨q, none, [], by rw [perform, result]; rfl, qGood, nobody⟩
  | alloc rmalloc n =>
    refine ⟨_, none, [], rfl, ?_, nobody⟩
    cases grown : pgAlloc rmalloc p n with
    | none => exact good
    | some q => exact (pgAlloc_spec good grown).1
  | expand around =>
    obtain ⟨q, grown, freed, result, qGood, _, _, _⟩ := mExpand_spec good promised
    exact ⟨q, none, freed, by rw [perform, result]; rfl, qGood, nobody⟩
  | relse nHiwat => exact ⟨_, none, [], rfl, (mRelse_spec good).1, nobody⟩
  | move m off => exact ⟨_, none, [], rfl, good.move promised.1 promised.2, nobody⟩

theorem pageZero_good : Good pageZero nmbpg := by
  refine ⟨[], ⟨⟨⟨List.nodup_singleton 0, rfl, rfl⟩, ?_, ?_, ?_, ?_⟩, by decide, [], [], rfl,
    by simp, by simp⟩, rfl⟩
  · intro page
    simp [pageZero]
  · intro page inside
    rw [List.mem_singleton.mp inside]
    decide
  · intro page inside
    rw [List.mem_singleton.mp inside]
    decide
  · intro page inside _
    rw [List.mem_singleton.mp inside]
    decide

theorem mbufinit_good {rmalloc : Rmalloc} (room : (rmalloc.pick pageZero.netmap 3).isSome) :
    Good (mbufinit rmalloc) 0 := by
  obtain ⟨i, picked⟩ := Option.isSome_iff_exists.mp room
  cases grown : pgAlloc rmalloc pageZero 3 with
  | none =>
    rw [pgAlloc, picked] at grown
    exact absurd grown (Option.some_ne_none _)
  | some q =>
    obtain ⟨good, bufs, _, _⟩ := pgAlloc_spec pageZero_good grown
    have shape : mbufinit rmalloc = { q with nPages := 4, nBufs := 32 } := by
      rw [mbufinit, grown]
      rfl
    rw [shape]
    refine good.congr rfl ?_
    rw [bufs]
    rfl

/-- In every run in which all requests are served, the four views of the free mbufs agree; the next
call that is served succeeds and hands out no mbuf that somebody holds, and `m_relse` gives back the
excess or every wholly free page but the top and page zero. -/
theorem free_views_agree {rmalloc : Rmalloc} {history : List Call} {last : Pool}
    (room : (rmalloc.pick pageZero.netmap 3).isSome)
    (run : Transition.Run (Transition.Guarded Calls InStock) (mbufinit rmalloc) history last) :
    Agree last ∧ ∀ call, Promised last call → InStock last call →
      ∃ q got freed, perform last call = .ok (q, got, freed) ∧
        (∀ m, got = some m → ¬ (Held last m ∧ m ∉ freed)) ∧
        ∀ nHiwat, call = .relse nHiwat → q.nBufs - nHiwat < nmbpg ∨
          ∀ page, q.netmap page = true → page ≠ q.nFree → page ≠ 0 → q.pFree page ≠ nmbpg := by
  have good : Good last 0 := by
    refine run.always (fun p => Good p 0) (mbufinit_good room) fun p call next held taken => ?_
    obtain ⟨served, promised, got, freed, result⟩ := taken
    obtain ⟨q, others, lost, same, qGood, _⟩ := perform_spec held promised served
    rw [result] at same
    injection same with same
    rw [show next = q from congrArg Prod.fst same]
    exact qGood
  refine ⟨good.agree, fun call promised served => ?_⟩
  obtain ⟨q, got, freed, result, _, fresh⟩ := perform_spec good promised served
  refine ⟨q, got, freed, result, fresh, ?_⟩
  rintro nHiwat rfl
  injection result with same
  rw [← show mRelse nHiwat last = q from congrArg Prod.fst same]
  exact (mRelse_spec good).2.2

/-! ### A request that finds one buffer -/

/-- The first run of pages that are not in use. -/
def firstFit : Rmalloc where
  pick := fun netmap n => (List.range nnetpages).find? fun i =>
    decide (0 < i ∧ 0 < n ∧ i + n ≤ nnetpages) && (List.range' i n).all fun page => !netmap page
  correct := by
    intro netmap n i found
    have good := List.find?_some found
    rw [Bool.and_eq_true, decide_eq_true_iff, List.all_eq_true] at good
    obtain ⟨⟨notZero, some, bound⟩, unused⟩ := good
    refine ⟨notZero, some, bound, fun page low high => ?_⟩
    have free := unused page (List.mem_range'_1.mpr ⟨low, high⟩)
    simpa using free

/-- No queue to steal from. -/
def quiet : Around where
  rmalloc := firstFit
  nHiwat := 32
  nIp := []
  nTcb := []

theorem quiet_right (p : Pool) : quiet.Right p := ⟨by simp [bufsOf, quiet], by simp [bufsOf, quiet]⟩

/-- The state after a call. -/
def after (p : Pool) (call : Call) : Pool :=
  match perform p call with
  | .ok result => result.1
  | .error _ => p

theorem calls_after {p : Pool} {call : Call} (promised : Promised p call)
    (succeeds : (perform p call).isOk) : Calls p call (after p call) := by
  refine ⟨promised, ?_⟩
  unfold after
  cases outcome : perform p call with
  | ok result => exact ⟨result.2.1, result.2.2, rfl⟩
  | error panic =>
    rw [outcome] at succeeds
    exact absurd succeeds Bool.false_ne_true

/-- Two buffers are taken and one is given back. -/
theorem free_views_agree_three_calls :
    Agree ([Call.get quiet 0, .get quiet 1, .free ⟨0, 1⟩].foldl after (mbufinit firstFit)) := by
  have follows : Transition.Follows (Transition.Guarded Calls InStock) after (mbufinit firstFit)
      [.get quiet 0, .get quiet 1, .free ⟨0, 1⟩] :=
    ⟨⟨Or.inl (by decide), calls_after (quiet_right _) (by decide +kernel)⟩,
      ⟨Or.inl (by decide +kernel), calls_after (quiet_right _) (by decide +kernel)⟩,
      ⟨trivial, calls_after ⟨by decide +kernel, by decide, by decide +kernel⟩ (by decide +kernel)⟩,
      trivial⟩
  exact (free_views_agree (by decide +kernel) (Transition.Run.start.follows follows)).1

/-- With seven of the eight buffers of page zero taken, a request fails and counts none free. -/
theorem last_buffer_uncounted :
    ¬ ∀ (rmalloc : Rmalloc) (history : List Call) (last : Pool),
      (rmalloc.pick pageZero.netmap 3).isSome →
      Transition.Run Calls (mbufinit rmalloc) history last → Agree last := by
  intro agree
  have follows : Transition.Follows Calls after (mbufinit firstFit)
      (.relse 0 :: List.replicate 8 (Call.get quiet 0)) :=
    ⟨calls_after trivial rfl, calls_after (quiet_right _) (by decide +kernel),
      calls_after (quiet_right _) (by decide +kernel),
      calls_after (quiet_right _) (by decide +kernel),
      calls_after (quiet_right _) (by decide +kernel),
      calls_after (quiet_right _) (by decide +kernel),
      calls_after (quiet_right _) (by decide +kernel),
      calls_after (quiet_right _) (by decide +kernel),
      calls_after (quiet_right _) (by decide +kernel), trivial⟩
  obtain ⟨rest, _, _, count, _⟩ := agree firstFit _ _ (by decide +kernel)
    (Transition.Run.start.follows follows)
  generalize final : ((Call.relse 0 :: List.replicate 8 (Call.get quiet 0)).foldl after
    (mbufinit firstFit)) = last at count
  have none : last.nBufs = 0 := by
    rw [← final]
    decide +kernel
  have some : 0 < (freeSet last last.nFree).card := by
    rw [← final]
    decide +kernel
  rw [none, List.map_cons, List.sum_cons] at count
  omega

end NetworkUnix.Bbnnet.Pages
