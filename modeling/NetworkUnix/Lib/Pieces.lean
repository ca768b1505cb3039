/-
This file develops resequencing queues: lists of non-empty pieces of one finite
stream, kept in order of position and disjoint. A new piece is merged by cutting
off what the queue already holds and by dropping the pieces it covers. The
merged queue is again ordered and disjoint, holds only bytes of the stream, and
covers exactly the positions covered before or by the new piece; the run that
starts at a position and has no gap is the part that can be handed on.
-/

import Mathlib.Data.List.Basic
import Mathlib.Tactic.Linarith

namespace Pieces

/-- A contiguous run of items together with the stream position of its first item. -/
structure Piece (α : Type) where
  start : Nat
  data : List α

variable {α : Type}

namespace Piece

/-- The position just past the piece. -/
def stop (piece : Piece α) : Nat := piece.start + piece.data.length

/-- What the piece holds at and after `bound`. -/
def after (piece : Piece α) (bound : Nat) : Piece α where
  start := piece.start + (bound - piece.start)
  data := piece.data.drop (bound - piece.start)

/-- What the piece holds before `bound`. -/
def before (piece : Piece α) (bound : Nat) : Piece α where
  start := piece.start
  data := piece.data.take (bound - piece.start)

/-- The piece is a non-empty part of the stream, at its own position. -/
def Of (stream : List α) (piece : Piece α) : Prop :=
  piece.data ≠ [] ∧ piece.data <+: stream.drop piece.start

/-- The piece holds the position. -/
def Holds (piece : Piece α) (position : Nat) : Prop :=
  piece.start ≤ position ∧ position < piece.stop

theorem start_lt_stop {stream : List α} {piece : Piece α} (part : piece.Of stream) :
    piece.start < piece.stop := by
  have := List.length_pos_iff.mpr part.1
  unfold stop
  omega

theorem stop_le_length {stream : List α} {piece : Piece α} (part : piece.Of stream) :
    piece.stop ≤ stream.length := by
  have positive := List.length_pos_iff.mpr part.1
  have bound := part.2.length_le
  rw [List.length_drop] at bound
  unfold stop
  omega

@[simp] theorem after_stop (piece : Piece α) (bound : Nat) (inside : bound ≤ piece.stop) :
    (piece.after bound).stop = piece.stop := by
  simp only [stop, after, List.length_drop] at inside ⊢
  omega

theorem after_start (piece : Piece α) (bound : Nat) (reached : piece.start ≤ bound) :
    (piece.after bound).start = bound := by
  simp only [after]
  omega

@[simp] theorem before_start (piece : Piece α) (bound : Nat) :
    (piece.before bound).start = piece.start := rfl

theorem before_stop (piece : Piece α) (bound : Nat) (reached : piece.start ≤ bound)
    (inside : bound ≤ piece.stop) : (piece.before bound).stop = bound := by
  simp only [stop, before, List.length_take] at inside ⊢
  omega

theorem after_of {stream : List α} {piece : Piece α} (part : piece.Of stream) {bound : Nat}
    (inside : bound < piece.stop) : (piece.after bound).Of stream := by
  constructor
  · intro empty
    have length := congrArg List.length empty
    have := start_lt_stop part
    simp only [after, List.length_drop, List.length_nil, stop] at length inside this
    omega
  · obtain ⟨rest, shape⟩ := part.2
    refine ⟨rest, ?_⟩
    simp only [after]
    rw [← List.drop_drop, ← shape, List.drop_append_of_le_length]
    have := start_lt_stop part
    simp only [stop] at inside this
    omega

theorem before_of {stream : List α} {piece : Piece α} (part : piece.Of stream) {bound : Nat}
    (reached : piece.start < bound) : (piece.before bound).Of stream := by
  constructor
  · intro empty
    have length := congrArg List.length empty
    have := List.length_pos_iff.mpr part.1
    simp only [before, List.length_take, List.length_nil] at length
    omega
  · exact (List.take_prefix _ _).trans part.2

end Piece

/-! ### Merging a piece into a queue -/

/-- A piece followed by the rest of the queue, left out when it has become empty. -/
def put (piece : Piece α) (rest : List (Piece α)) : List (Piece α) :=
  match piece.data with
  | [] => rest
  | _ :: _ => piece :: rest

/-- Put a piece before its successors: those it covers go, the first it only overlaps stays
and cuts the piece off. -/
def absorb (piece : Piece α) : List (Piece α) → List (Piece α)
  | [] => put piece []
  | next :: rest =>
    if piece.data = [] then next :: rest
    else if piece.stop ≤ next.start then piece :: next :: rest
    else if next.stop ≤ piece.stop then absorb piece rest
    else put (piece.before next.start) (next :: rest)

/-- Merge a piece into a queue. -/
def merge : List (Piece α) → Piece α → List (Piece α)
  | [], piece => [piece]
  | next :: rest, piece =>
    if next.stop ≤ piece.start then next :: merge rest piece
    else if piece.stop ≤ next.start then piece :: next :: rest
    else if piece.stop < next.stop then put (piece.before next.start) (next :: rest)
    else if piece.start ≤ next.start then absorb piece rest
    else next :: absorb (piece.after next.stop) rest

/-- The queue is in order and no two of its pieces meet. -/
def Ordered (queue : List (Piece α)) : Prop :=
  queue.Pairwise fun first second => first.stop ≤ second.start

/-- Every piece of the queue is a part of the stream. -/
def AllOf (stream : List α) (queue : List (Piece α)) : Prop :=
  ∀ piece ∈ queue, piece.Of stream

variable {first piece : Piece α} {rest queue : List (Piece α)} {stream : List α} {high low : Nat}

theorem AllOf.tail (all : AllOf stream (first :: rest)) :
    AllOf stream rest :=
  (List.forall_mem_cons.mp all).2

/-- Some piece of the queue holds the position. -/
def Covers (queue : List (Piece α)) (position : Nat) : Prop :=
  ∃ piece ∈ queue, piece.Holds position

@[simp] theorem covers_nil (position : Nat) : ¬ Covers ([] : List (Piece α)) position := by
  simp [Covers]

@[simp] theorem covers_cons (piece : Piece α) (rest : List (Piece α)) (position : Nat) :
    Covers (piece :: rest) position ↔ piece.Holds position ∨ Covers rest position := by
  simp [Covers]

theorem put_of_ne_nil (full : piece.data ≠ []) (rest : List (Piece α)) :
    put piece rest = piece :: rest := by
  unfold put
  split
  · contradiction
  · rfl

theorem put_of_nil (empty : piece.data = []) (rest : List (Piece α)) :
    put piece rest = rest := by
  simp [put, empty]

theorem mem_put {member : Piece α} (inside : member ∈ put piece rest) :
    (member = piece ∧ piece.data ≠ []) ∨ member ∈ rest := by
  by_cases empty : piece.data = []
  · rw [put_of_nil empty] at inside
    exact Or.inr inside
  · rw [put_of_ne_nil empty] at inside
    rcases List.mem_cons.mp inside with equal | tail
    · exact Or.inl ⟨equal, empty⟩
    · exact Or.inr tail

theorem before_data_eq_nil_iff (part : piece.Of stream) (bound : Nat) :
    (piece.before bound).data = [] ↔ bound ≤ piece.start := by
  have := List.length_pos_iff.mpr part.1
  rw [← List.length_eq_zero_iff]
  simp only [Piece.before, List.length_take]
  omega

theorem after_data_eq_nil_iff (piece : Piece α) (bound : Nat) :
    (piece.after bound).data = [] ↔ piece.stop ≤ bound ∨ piece.data = [] := by
  rw [← List.length_eq_zero_iff, ← List.length_eq_zero_iff]
  simp only [Piece.after, List.length_drop, Piece.stop]
  omega

/-! ### What merging keeps -/

theorem absorb_of_nil (empty : piece.data = []) (queue : List (Piece α)) :
    absorb piece queue = queue := by
  cases queue with
  | nil => simp [absorb, put_of_nil empty]
  | cons next rest => simp [absorb, empty]

section Kept

variable {kept : Piece α → Prop}
variable (before : ∀ p q, kept p → kept q → p.start < q.start → q.start < p.stop →
  kept (p.before q.start))
include before

theorem absorb_kept (all : ∀ member ∈ queue, kept member) (own : kept piece) :
    ∀ member ∈ absorb piece queue, kept member := by
  induction queue with
  | nil =>
    intro member inside
    rcases mem_put inside with ⟨rfl, _⟩ | none
    · exact own
    · cases none
  | cons next rest inductionHypothesis =>
    obtain ⟨nextKept, restKept⟩ := List.forall_mem_cons.mp all
    unfold absorb
    split
    · exact all
    split
    · exact List.forall_mem_cons.mpr ⟨own, all⟩
    rename_i overlap
    split
    · exact inductionHypothesis restKept
    · intro member inside
      rcases mem_put inside with ⟨rfl, full⟩ | tail
      · have reached := List.length_pos_iff.mpr full
        simp only [Piece.before, List.length_take] at reached
        exact before piece next own nextKept (by omega) (not_le.mp overlap)
      · exact all member tail

/-- What holds of the pieces and is kept when one is cut at the edge of another holds of the merged
queue. -/
theorem merge_kept (after : ∀ p q, kept p → kept q → p.start < q.stop → q.stop < p.stop →
      kept (p.after q.stop)) (all : ∀ member ∈ queue, kept member) (own : kept piece) :
    ∀ member ∈ merge queue piece, kept member := by
  induction queue with
  | nil =>
    intro member inside
    rw [List.mem_singleton.mp inside]
    exact own
  | cons next rest inductionHypothesis =>
    obtain ⟨nextKept, restKept⟩ := List.forall_mem_cons.mp all
    unfold merge
    split
    · exact List.forall_mem_cons.mpr ⟨nextKept, inductionHypothesis restKept⟩
    rename_i reached
    split
    · exact List.forall_mem_cons.mpr ⟨own, all⟩
    rename_i overlap
    split
    · intro member inside
      rcases mem_put inside with ⟨rfl, full⟩ | tail
      · have reached := List.length_pos_iff.mpr full
        simp only [Piece.before, List.length_take] at reached
        exact before piece next own nextKept (by omega) (not_le.mp overlap)
      · exact all member tail
    split
    · exact absorb_kept before restKept own
    · refine List.forall_mem_cons.mpr ⟨nextKept, fun member inside => ?_⟩
      by_cases longer : next.stop < piece.stop
      · exact absorb_kept before restKept
          (after piece next own nextKept (not_le.mp reached) longer) member inside
      · rw [absorb_of_nil ((after_data_eq_nil_iff piece next.stop).mpr
          (Or.inl (not_lt.mp longer)))] at inside
        exact restKept member inside

end Kept

theorem merge_allOf (all : AllOf stream queue) (part : piece.Of stream) :
    AllOf stream (merge queue piece) :=
  merge_kept (fun _ _ own _ reached _ => Piece.before_of own reached)
    (fun _ _ own _ _ inside => Piece.after_of own inside) all part

theorem merge_bound {bound : Nat} (all : ∀ member ∈ queue, bound ≤ member.start)
    (low : bound ≤ piece.start) :
    ∀ member ∈ merge queue piece, bound ≤ member.start :=
  merge_kept (fun _ _ own _ _ _ => own)
    (fun _ _ own _ _ _ => le_trans own (Nat.le_add_right _ _)) all low

/-- When pieces are merged that begin and end at certain positions, so do the pieces of the queue. -/
theorem merge_edges {edge : Nat → Prop}
    (all : ∀ member ∈ queue, edge member.start ∧ edge member.stop)
    (own : edge piece.start ∧ edge piece.stop) :
    ∀ member ∈ merge queue piece, edge member.start ∧ edge member.stop := by
  refine merge_kept (fun p q own other reached inside => ⟨own.1, ?_⟩)
    (fun p q own other reached inside => ⟨?_, ?_⟩) all own
  · rw [Piece.before_stop _ _ (le_of_lt reached) (le_of_lt inside)]
    exact other.1
  · rw [Piece.after_start _ _ (le_of_lt reached)]
    exact other.2
  · rw [Piece.after_stop _ _ (le_of_lt inside)]
    exact own.2

theorem Ordered.head (ordered : Ordered (first :: rest)) :
    ∀ member ∈ rest, first.stop ≤ member.start :=
  (List.pairwise_cons.mp ordered).1

theorem Ordered.tail (ordered : Ordered (first :: rest)) :
    Ordered rest :=
  (List.pairwise_cons.mp ordered).2

theorem Ordered.push (ordered : Ordered (first :: rest)) (apart : piece.stop ≤ first.start) :
    Ordered (piece :: first :: rest) := by
  refine List.pairwise_cons.mpr ⟨List.forall_mem_cons.mpr ⟨apart, fun member inside => ?_⟩, ordered⟩
  exact le_trans apart (le_trans (Nat.le_add_right _ _) (ordered.head member inside))

theorem Ordered.put (ordered : Ordered (first :: rest)) (piece : Piece α) :
    Ordered (put (piece.before first.start) (first :: rest)) := by
  by_cases empty : (piece.before first.start).data = []
  · rw [put_of_nil empty]
    exact ordered
  · rw [put_of_ne_nil empty]
    refine ordered.push ?_
    have length := List.length_pos_iff.mpr empty
    simp only [Piece.before, Piece.stop, List.length_take] at length ⊢
    omega

theorem absorb_ordered (ordered : Ordered queue) : Ordered (absorb piece queue) := by
  induction queue with
  | nil =>
    unfold absorb put
    split
    · exact List.Pairwise.nil
    · exact List.pairwise_singleton _ _
  | cons next rest inductionHypothesis =>
    unfold absorb
    split
    · exact ordered
    split
    next apart => exact ordered.push apart
    next =>
      split
      · exact inductionHypothesis ordered.tail
      · exact ordered.put piece

theorem merge_ordered (ordered : Ordered queue) : Ordered (merge queue piece) := by
  induction queue with
  | nil => exact List.pairwise_singleton _ _
  | cons next rest inductionHypothesis =>
    unfold merge
    split
    next skipped =>
      exact List.pairwise_cons.mpr
        ⟨merge_bound ordered.head skipped, inductionHypothesis ordered.tail⟩
    split
    next apart => exact ordered.push apart
    split
    · exact ordered.put piece
    split
    · exact absorb_ordered ordered.tail
    · refine List.pairwise_cons.mpr ⟨?_, absorb_ordered ordered.tail⟩
      exact absorb_kept (fun _ _ own _ _ _ => own) ordered.head (by
        rw [Piece.after_start _ _ (by omega)])

/-! ### Coverage -/

theorem before_holds (piece : Piece α) (bound position : Nat) :
    (piece.before bound).Holds position ↔ piece.Holds position ∧ position < bound := by
  simp only [Piece.Holds, Piece.before, Piece.stop, List.length_take]
  omega

theorem after_holds (piece : Piece α) (bound position : Nat) :
    (piece.after bound).Holds position ↔ piece.Holds position ∧ bound ≤ position := by
  simp only [Piece.Holds, Piece.after, Piece.stop, List.length_drop]
  omega

theorem put_covers (piece : Piece α) (rest : List (Piece α)) (position : Nat) :
    Covers (put piece rest) position ↔ piece.Holds position ∨ Covers rest position := by
  by_cases empty : piece.data = []
  · rw [put_of_nil empty]
    refine (or_iff_right fun held => ?_).symm
    have := held.2
    rw [Piece.stop, empty] at this
    exact absurd held.1 (not_le.mpr this)
  · rw [put_of_ne_nil empty, covers_cons]

theorem absorb_covers (first : ∀ member ∈ queue, piece.start ≤ member.start) (position : Nat) :
    Covers (absorb piece queue) position ↔ piece.Holds position ∨ Covers queue position := by
  induction queue with
  | nil => rw [absorb, put_covers]
  | cons next rest inductionHypothesis =>
    obtain ⟨nextFirst, restFirst⟩ := List.forall_mem_cons.mp first
    unfold absorb
    split
    next empty =>
      refine (or_iff_right fun held => ?_).symm
      have := held.2
      rw [Piece.stop, empty] at this
      exact absurd held.1 (not_le.mpr this)
    split
    · rw [covers_cons]
    split
    · rw [inductionHypothesis restFirst, covers_cons]
      grind [Piece.Holds]
    · rw [put_covers, before_holds, covers_cons]
      grind [Piece.Holds]

/-- The merged queue covers what the queue covered and what the piece holds, and no more. -/
theorem merge_covers (ordered : Ordered queue) (position : Nat) :
    Covers (merge queue piece) position ↔ piece.Holds position ∨ Covers queue position := by
  induction queue with
  | nil => simp [merge]
  | cons next rest inductionHypothesis =>
    have later := ordered.head
    have full : next.start ≤ next.stop := Nat.le_add_right _ _
    unfold merge
    split
    · rw [covers_cons, inductionHypothesis ordered.tail, covers_cons]
      exact or_left_comm
    split
    · rw [covers_cons]
    split
    · rw [put_covers, before_holds, covers_cons]
      grind [Piece.Holds]
    split
    next before =>
      rw [absorb_covers fun member inside => le_trans (le_trans before full) (later member inside),
        covers_cons]
      grind [Piece.Holds]
    next behind =>
      have start : (piece.after next.stop).start = next.stop := Piece.after_start _ _ (by omega)
      rw [covers_cons, absorb_covers (fun member inside => by rw [start]; exact later member inside),
        after_holds, covers_cons]
      grind [Piece.Holds]

theorem merge_append (front back : List (Piece α))
    (past : ∀ member ∈ front, member.stop ≤ piece.start) :
    merge (front ++ back) piece = front ++ merge back piece := by
  induction front with
  | nil => rfl
  | cons next rest inductionHypothesis =>
    rw [List.cons_append, merge, if_pos (past next List.mem_cons_self),
      inductionHypothesis (List.forall_mem_cons.mp past).2,
      List.cons_append]

/-! ### Runs without a gap -/

/-- The pieces follow one another without a gap from `low` to `high`. -/
def Tiles : Nat → Nat → List (Piece α) → Prop
  | low, high, [] => low = high
  | low, high, piece :: rest => piece.start = low ∧ Tiles piece.stop high rest

/-- The end of the run without a gap that starts at `low`. -/
def runEnd : Nat → List (Piece α) → Nat
  | low, [] => low
  | low, piece :: rest => if piece.start = low then runEnd piece.stop rest else low

theorem Tiles.le (tiles : Tiles low high queue) :
    low ≤ high := by
  induction queue generalizing low with
  | nil => exact le_of_eq tiles
  | cons piece rest inductionHypothesis =>
    have := inductionHypothesis tiles.2
    have start : low ≤ piece.stop := by
      rw [← tiles.1]
      exact Nat.le_add_right _ _
    exact le_trans start this

theorem Tiles.append {middle : Nat} {front back : List (Piece α)} (left : Tiles low middle front)
    (right : Tiles middle high back) :
    Tiles low high (front ++ back) := by
  induction front generalizing low with
  | nil =>
    subst left
    exact right
  | cons piece rest inductionHypothesis => exact ⟨left.1, inductionHypothesis left.2⟩

section

variable (tiles : Tiles low high queue)
include tiles

theorem Tiles.bounds :
    ∀ piece ∈ queue, low ≤ piece.start ∧ piece.stop ≤ high := by
  induction queue generalizing low with
  | nil => simp
  | cons first rest inductionHypothesis =>
    intro piece inside
    have firstStop : low ≤ first.stop := by
      rw [← tiles.1]
      exact Nat.le_add_right _ _
    rcases List.mem_cons.mp inside with rfl | tail
    · exact ⟨le_of_eq tiles.1.symm, tiles.2.le⟩
    · obtain ⟨start, stop⟩ := inductionHypothesis tiles.2 piece tail
      exact ⟨le_trans firstStop start, stop⟩

theorem Tiles.ordered :
    Ordered queue := by
  induction queue generalizing low with
  | nil => exact List.Pairwise.nil
  | cons first rest inductionHypothesis =>
    exact List.pairwise_cons.mpr
      ⟨fun piece inside => (tiles.2.bounds piece inside).1, inductionHypothesis tiles.2⟩

theorem Tiles.data (all : AllOf stream queue) :
    queue.flatMap Piece.data = (stream.drop low).take (high - low) := by
  induction queue generalizing low with
  | nil =>
    subst tiles
    simp
  | cons piece rest inductionHypothesis =>
    obtain ⟨start, restTiles⟩ := tiles
    obtain ⟨tail, shape⟩ := (all piece List.mem_cons_self).2
    have stopLe := restTiles.le
    rw [List.flatMap_cons, inductionHypothesis restTiles all.tail, ← start, ← shape,
      List.take_append]
    have dropStop : stream.drop piece.stop = tail := by
      rw [Piece.stop, ← List.drop_drop, ← shape, List.drop_left]
    have whole : piece.data.take (high - piece.start) = piece.data :=
      List.take_of_length_le (by unfold Piece.stop at stopLe; omega)
    rw [dropStop, whole]
    congr 2
    unfold Piece.stop
    omega

theorem Tiles.covers (position : Nat) :
    Covers queue position ↔ low ≤ position ∧ position < high := by
  induction queue generalizing low with
  | nil =>
    subst tiles
    simp
  | cons piece rest inductionHypothesis =>
    obtain ⟨start, restTiles⟩ := tiles
    have stopLe := restTiles.le
    have startLe : piece.start ≤ piece.stop := Nat.le_add_right _ _
    rw [covers_cons, inductionHypothesis restTiles, Piece.Holds]
    omega

theorem Tiles.stop_of_mem (some : queue ≠ []) :
    ∃ piece ∈ queue, piece.stop = high := by
  induction queue generalizing low with
  | nil => exact absurd rfl some
  | cons piece rest inductionHypothesis =>
    cases rest with
    | nil => exact ⟨piece, List.mem_cons_self, tiles.2⟩
    | cons next tail =>
      obtain ⟨last, inside, stop⟩ := inductionHypothesis tiles.2 (by simp)
      exact ⟨last, List.mem_cons_of_mem _ inside, stop⟩

end

theorem runEnd_le (queue : List (Piece α)) : low ≤ runEnd low queue := by
  induction queue generalizing low with
  | nil => exact le_rfl
  | cons piece rest inductionHypothesis =>
    unfold runEnd
    split
    · rename_i start
      rw [← start]
      exact le_trans (Nat.le_add_right _ _) inductionHypothesis
    · exact le_rfl

theorem runEnd_append {front : List (Piece α)} (tiles : Tiles low high front)
    (back : List (Piece α)) : runEnd low (front ++ back) = runEnd high back := by
  induction front generalizing low with
  | nil => rw [List.nil_append, show low = high from tiles]
  | cons piece rest inductionHypothesis =>
    rw [List.cons_append, runEnd, if_pos tiles.1, inductionHypothesis tiles.2]

/-- A queue that starts no earlier than `low` is the run from `low` followed by pieces that
start past the end of the run. -/
theorem runEnd_split (all : AllOf stream queue) (ordered : Ordered queue)
    (bound : ∀ piece ∈ queue, low ≤ piece.start) :
    ∃ front back, queue = front ++ back ∧ Tiles low (runEnd low queue) front ∧
      ∀ piece ∈ back, runEnd low queue < piece.start := by
  induction queue generalizing low with
  | nil => exact ⟨[], [], rfl, rfl, by simp⟩
  | cons first rest inductionHypothesis =>
    unfold runEnd
    split
    · rename_i start
      obtain ⟨front, back, shape, tiles, past⟩ :=
        inductionHypothesis all.tail ordered.tail ordered.head
      exact ⟨first :: front, back, by rw [shape, List.cons_append], ⟨start, tiles⟩, past⟩
    · rename_i gap
      refine ⟨[], first :: rest, rfl, rfl, fun piece inside => ?_⟩
      have firstBound := bound first List.mem_cons_self
      rcases List.mem_cons.mp inside with rfl | tail
      · omega
      · have := ordered.head piece tail
        have := Piece.start_lt_stop (all first List.mem_cons_self)
        omega

/-- An ordered queue that covers every position from `low` to the end of the stream, and
nothing before, is one run. -/
theorem tiles_of_covers (all : AllOf stream queue) (ordered : Ordered queue)
    (bound : ∀ piece ∈ queue, low ≤ piece.start) (within : low ≤ stream.length)
    (covered : ∀ position, low ≤ position → position < stream.length → Covers queue position) :
    Tiles low stream.length queue := by
  induction queue generalizing low with
  | nil =>
    by_contra apart
    have apart : low ≠ stream.length := apart
    exact covers_nil low (covered low le_rfl (by omega))
  | cons first rest inductionHypothesis =>
    have full := Piece.start_lt_stop (all first List.mem_cons_self)
    have stop := Piece.stop_le_length (all first List.mem_cons_self)
    have start : first.start = low := by
      have firstBound := bound first List.mem_cons_self
      rcases (covers_cons _ _ _).mp (covered low le_rfl (by omega)) with held | ⟨piece, inside, held⟩
      · exact le_antisymm held.1 firstBound
      · have := ordered.head piece inside
        have := held.1
        omega
    refine ⟨start, inductionHypothesis all.tail ordered.tail ordered.head stop ?_⟩
    intro position low high
    rcases (covers_cons _ _ _).mp (covered position (by omega) high) with held | later
    · have := held.2
      omega
    · exact later

end Pieces
