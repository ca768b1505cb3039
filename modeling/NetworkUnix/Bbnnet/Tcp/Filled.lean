/-
This file says how far the sequencing queue is filled after a segment has been
merged into it: the next sequence number expected is the first one that neither
the queue nor the segment holds, and it is never the last byte of the last
segment. A segment whose last byte is also the first of a later one is enqueued
in front of it with that byte, and the run of adjacent segments ends there.
-/

import NetworkUnix.Bbnnet.Tcp.Incoming

namespace NetworkUnix.Bbnnet

open Pieces Serial

variable {base : Seq} {stream : List Byte}

/-! ### A sequenced queue -/

variable {ready taken : Nat} {tp : Tcb} {queue : List Th} {t later : Th}

section

variable (sequenced : Sequenced base stream tp taken ready)
include sequenced

theorem Sequenced.ordered :
    Ordered (pieces base tp.tRcv) := by
  obtain ⟨front, back, shape, tiles, ordered, past⟩ := sequenced.run
  rw [shape, pieces_append]
  refine List.pairwise_append.mpr ⟨tiles.ordered, ordered, fun first inFront second inBack => ?_⟩
  obtain ⟨q, inside, rfl⟩ := List.mem_map.mp inBack
  exact le_trans (tiles.bounds first inFront).2 (le_of_lt (past q inside))

theorem Sequenced.le :
    taken ≤ ready := by
  obtain ⟨front, back, shape, tiles, ordered, past⟩ := sequenced.run
  exact tiles.le

theorem Sequenced.holds {k : Nat} (low : taken ≤ k) (high : k < ready) :
    Covers (pieces base tp.tRcv) k := by
  obtain ⟨front, back, shape, tiles, ordered, past⟩ := sequenced.run
  obtain ⟨piece, inside, holds⟩ := (tiles.covers k).mpr ⟨low, high⟩
  rw [shape, pieces_append]
  exact ⟨piece, List.mem_append_left _ inside, holds⟩

theorem Sequenced.lacks :
    ¬ Covers (pieces base tp.tRcv) ready := by
  obtain ⟨front, back, shape, tiles, ordered, past⟩ := sequenced.run
  rw [shape, pieces_append]
  rintro ⟨piece, inside, holds⟩
  rcases List.mem_append.mp inside with inFront | inBack
  · exact absurd holds.2 (not_lt.mpr (tiles.bounds piece inFront).2)
  · obtain ⟨q, held, rfl⟩ := List.mem_map.mp inBack
    exact absurd holds.1 (not_le.mpr (past q held))

theorem Sequenced.holds_iff {start stop : Nat} (low : taken ≤ start) (more : start ≤ ready) :
    (∀ k, start ≤ k → k < stop → Covers (pieces base tp.tRcv) k) ↔ stop ≤ ready := by
  constructor
  · intro all
    by_contra less
    exact sequenced.lacks (all ready more (not_le.mp less))
  · intro reached k least most
    exact sequenced.holds (le_trans low least) (lt_of_lt_of_le most reached)

end

section Short

variable (short : stream.length < 2 ^ 31)
include short

theorem Sequenced.ne_tEnd {tp : Tcb} {taken ready : Nat} {last : Th}
    (sequenced : Sequenced base stream tp taken ready) (ends : tp.tRcv.getLast? = some last) :
    tEnd last ≠ point base (ready : Int) := by
  have inside := List.mem_of_getLast? ends
  have carries := sequenced.carries last inside
  have bound := Piece.stop_le_length carries.part
  have full := Piece.start_lt_stop carries.part
  have within := sequenced.inside
  intro same
  rw [carries.tEnd, point_eq_iff base (by omega) (by omega)] at same
  refine sequenced.lacks ⟨piece base last, List.mem_map_of_mem inside, ?_, ?_⟩ <;> omega

theorem Sequenced.merge_holds {tp : Tcb} {taken ready : Nat} {t : Th}
    (sequenced : Sequenced base stream tp taken ready) (carries : Carries base stream t)
    (late : ready ≤ (piece base t).start) (clear : ¬ touches t tp.tRcv) :
    let merged := { tp with tRcv := (rcvMerge tp.rcvNxt (tEnd t) tp.tRcv t).1 }
    (∃ next, ready ≤ next ∧
      Sequenced base stream { merged with rcvNxt := firstempty merged } taken next) ∧
      ∀ k, Covers (pieces base merged.tRcv) k ↔
        (piece base t).Holds k ∨ Covers (pieces base tp.tRcv) k := by
  intro merged
  have bound := Piece.stop_le_length carries.part
  have full := Piece.start_lt_stop carries.part
  have within := sequenced.inside
  have fresh : seqGeq (tEnd t) tp.rcvNxt := by
    rw [sequenced.nxt, carries.tEnd, seqGeq_point base (by omega) (by omega)]
    omega
  have shape := (rcvMerge_pieces short sequenced.carries carries fresh clear).2
  refine ⟨sequenced.merge short carries late clear, fun k => ?_⟩
  rw [show pieces base merged.tRcv = _ from shape]
  exact merge_covers sequenced.ordered k

end Short

/-! ### A segment that touches a later one -/

theorem touches_elim (touch : touches t queue) :
    (∃ q ∈ queue, seqLeq (tEnd q) (tEnd t)) ∧ ∃ later ∈ queue, later.tSeq = tEnd t := by
  induction queue with
  | nil => exact touch.elim
  | cons q rest inductionHypothesis =>
    rcases touch with ⟨-, covered, later, inside, same⟩ | inRest
    · exact ⟨⟨q, List.mem_cons_self, covered⟩, later, List.mem_cons_of_mem _ inside, same⟩
    · obtain ⟨⟨p, inside, covered⟩, later, laterInside, same⟩ := inductionHypothesis inRest
      exact ⟨⟨p, List.mem_cons_of_mem _ inside, covered⟩, later, List.mem_cons_of_mem _ laterInside,
        same⟩

theorem rcvSuccessors_pass {last : Seq} {mid : List Th} (rest : List Th) (some : t.tLen ≠ 0)
    (covered : ∀ q ∈ mid, seqLt q.tSeq last ∧ seqLeq (tEnd q) last) :
    rcvSuccessors last (mid ++ rest) t = rcvSuccessors last rest t := by
  induction mid with
  | nil => rfl
  | cons q mid inductionHypothesis =>
    obtain ⟨before, inside⟩ := covered q List.mem_cons_self
    rw [List.cons_append, rcvSuccessors, if_pos ⟨some, before⟩, if_pos inside]
    exact inductionHypothesis (List.forall_mem_cons.mp covered).2

theorem rcvSuccessors_touching {mid : List Th} (after : List Th) (some : t.tLen ≠ 0)
    (covered : ∀ q ∈ mid, seqLt q.tSeq (tEnd t) ∧ seqLeq (tEnd q) (tEnd t))
    (same : later.tSeq = tEnd t) :
    (rcvEnqueue (rcvSuccessors (tEnd t) (mid ++ later :: after) t)).1 = t :: later :: after ∧
      (rcvEnqueue (rcvSuccessors (tEnd t) mid t)).1 = [t] := by
  have reached : ¬ seqLt later.tSeq (tEnd t) := by
    rw [same, seqLt, diff, BitVec.sub_self]
    decide
  constructor
  · rw [rcvSuccessors_pass _ some covered, rcvSuccessors, if_neg fun both => reached both.2,
      rcvEnqueue, if_pos some]
  · rw [← List.append_nil mid, rcvSuccessors_pass _ some covered, rcvSuccessors, rcvEnqueue,
      if_pos some]

/-- A segment that touches a later one is merged into the queue before that one, and what is left
of it ends there. -/
structure Split (rcvNxt : Seq) (queue : List Th) (t : Th) (low : List Th) (later : Th)
    (after : List Th) : Prop where
  shape : queue = low ++ later :: after
  same : later.tSeq = tEnd t
  clear : ¬ touches t low
  merged : (rcvMerge rcvNxt (tEnd t) queue t).1 =
    (rcvMerge rcvNxt (tEnd t) low t).1 ++ later :: after
  ends : ∃ left, (rcvMerge rcvNxt (tEnd t) low t).1.getLast? = some left ∧ tEnd left = tEnd t

theorem touches_split (short : stream.length < 2 ^ 31) (rcvNxt : Seq)
    (all : ∀ q ∈ queue, Carries base stream q) (carries : Carries base stream t)
    (ordered : Ordered (pieces base queue)) (touch : touches t queue) :
    ∃ low later after, Split rcvNxt queue t low later after := by
  have tBound := Piece.stop_le_length carries.part
  have tFull := Piece.start_lt_stop carries.part
  induction queue with
  | nil => exact touch.elim
  | cons q rest inductionHypothesis =>
    have qCarries := all q List.mem_cons_self
    have qFull := Piece.start_lt_stop qCarries.part
    have restAll : ∀ later ∈ rest, Carries base stream later :=
      (List.forall_mem_cons.mp all).2
    have restOrdered : Ordered (pieces base rest) := Ordered.tail ordered
    have behind : ∀ later ∈ rest, (piece base q).stop ≤ (piece base later).start :=
      fun later inside => Ordered.head ordered _ (List.mem_map_of_mem inside)
    by_cases past : seqGt t.tSeq (tEnd q)
    · have notHere : ¬ (seqLeq t.tSeq (tEnd q) ∧ seqLeq (tEnd q) (tEnd t) ∧
          ∃ later ∈ rest, later.tSeq = tEnd t) := fun here => absurd past (not_lt.mpr here.1)
      obtain ⟨low, later, after, split⟩ :=
        inductionHypothesis restAll restOrdered (touch.resolve_left notHere)
      refine ⟨q :: low, later, after, by rw [split.shape, List.cons_append], split.same, ?_, ?_, ?_⟩
      · rintro (here | inLow)
        · exact absurd past (not_lt.mpr here.1)
        · exact split.clear inLow
      · simp only [rcvMerge, if_pos past]
        rw [split.merged, List.cons_append]
      · obtain ⟨left, ends, same⟩ := split.ends
        refine ⟨left, ?_, same⟩
        simp only [rcvMerge, if_pos past, List.getLast?_cons, ends, Option.getD_some]
    · have meets : ¬ (piece base q).stop ≤ (piece base t).start :=
        fun low => past ((seqGt_tEnd short carries qCarries).mpr low)
      have reaches : (piece base q).stop ≤ (piece base t).stop ∧
          ∃ later ∈ rest, later.tSeq = tEnd t := by
        rcases touch with ⟨-, covered, found⟩ | inRest
        · exact ⟨(seqLeq_tEnd short qCarries carries).mp covered, found⟩
        · obtain ⟨⟨p, inside, covered⟩, found⟩ := touches_elim inRest
          have pFull := Piece.start_lt_stop (restAll p inside).part
          have least := (seqLeq_tEnd short (restAll p inside) carries).mp covered
          have later := behind p inside
          exact ⟨by omega, found⟩
      obtain ⟨reached, later, inside, same⟩ := reaches
      obtain ⟨mid, after, rfl⟩ := List.append_of_mem inside
      have laterStart : (piece base later).start + 1 = (piece base t).stop :=
        (tSeq_eq_tEnd short carries (restAll later inside)).mp same
      have qBefore := behind later inside
      have midBefore : ∀ x ∈ mid, (piece base x).stop ≤ (piece base later).start := by
        intro x member
        rw [pieces_append, pieces, pieces, List.map_cons] at restOrdered
        exact (List.pairwise_append.mp restOrdered).2.2 _ (List.mem_map_of_mem member) _
          List.mem_cons_self
      have covered : ∀ x ∈ mid, seqLt x.tSeq (tEnd t) ∧ seqLeq (tEnd x) (tEnd t) := by
        intro x member
        have xCarries := restAll x (List.mem_append_left _ member)
        have xFull := Piece.start_lt_stop xCarries.part
        have before := midBefore x member
        rw [seqLt_tSeq_tEnd short carries xCarries, seqLeq_tEnd short xCarries carries]
        omega
      have clear : ¬ touches t (q :: mid) := by
        intro inLow
        obtain ⟨x, member, start⟩ := (touches_elim inLow).2
        have xCarries := all x (by
          rcases List.mem_cons.mp member with rfl | inMid
          · exact List.mem_cons_self
          · exact List.mem_cons_of_mem _ (List.mem_append_left _ inMid))
        have xFull := Piece.start_lt_stop xCarries.part
        have xStart := (tSeq_eq_tEnd short carries xCarries).mp start
        have before : (piece base x).stop ≤ (piece base later).start := by
          rcases List.mem_cons.mp member with rfl | inMid
          · exact qBefore
          · exact midBefore x inMid
        omega
      have apart : ¬ seqLt (tEnd t) q.tSeq := by
        rw [seqLt_tSeq short carries qCarries]
        omega
      have within : ¬ seqLt (tEnd t) (tEnd q) := by
        rw [seqLt_tEnd short carries qCarries]
        omega
      by_cases before : seqLeq t.tSeq q.tSeq
      · have merges (others : List Th) : rcvMerge rcvNxt (tEnd t) (q :: others) t =
            rcvEnqueue (rcvSuccessors (tEnd t) others t) := by
          rw [rcvMerge, if_neg past, if_neg apart, if_neg within, if_pos before]
        obtain ⟨whole, alone⟩ := rcvSuccessors_touching after carries.positive.ne' covered same
        refine ⟨q :: mid, later, after, rfl, same, clear, ?_, t, ?_, rfl⟩
        · rw [merges, merges, whole, alone, List.singleton_append]
        · rw [merges, alone, List.getLast?_singleton]
      · have overlap := diff_overlap short qCarries carries
        have late := mt (seqLeq_tSeq short carries qCarries).mpr before
        have stop := carries.stop
        have less : diff (tEnd q + 1) t.tSeq < t.tLen := by
          rw [overlap]
          omega
        have lessNat : (diff (tEnd q + 1) t.tSeq).toNat < t.tLen := by
          rw [overlap] at less ⊢
          omega
        have cutCarries := carries.cutFront short lessNat
        have sameEnd := carries.tEnd_cutFront short lessNat
        have merges (others : List Th) : (rcvMerge rcvNxt (tEnd t) (q :: others) t).1 =
            q :: (rcvEnqueue (rcvSuccessors (tEnd t) others
              (t.cutFront (diff (tEnd q + 1) t.tSeq).toNat))).1 := by
          rw [rcvMerge, if_neg past, if_neg apart, if_neg within, if_neg before]
          dsimp only
          rw [if_pos less]
        rw [← sameEnd] at covered same
        obtain ⟨whole, alone⟩ := rcvSuccessors_touching after cutCarries.positive.ne' covered same
        rw [sameEnd] at whole alone same
        refine ⟨q :: mid, later, after, rfl, same, clear, ?_, _, ?_, sameEnd⟩
        · rw [merges, merges, whole, alone, List.cons_append, List.singleton_append]
        · rw [merges, alone]
          rfl

/-! ### The first empty spot before a segment that is touched -/

theorem tEndRun_append {p z : Th} {rest : List Th} (after : List Th)
    (ends : (p :: rest).getLast? = some z) (apart : tEnd z + 1 ≠ later.tSeq) :
    tEndRun p (rest ++ later :: after) = tEndRun p rest := by
  induction rest generalizing p with
  | nil =>
    have same : p = z := Option.some.inj ends
    rw [List.nil_append, same]
    exact if_neg apart
  | cons q rest inductionHypothesis =>
    rw [List.getLast?_cons_cons] at ends
    rw [List.cons_append, tEndRun, tEndRun, inductionHypothesis ends]

theorem firstempty_append {z : Th} (after : List Th) (ends : queue.getLast? = some z)
    (apart : tEnd z + 1 ≠ later.tSeq) :
    firstempty { tp with tRcv := queue ++ later :: after } = firstempty { tp with tRcv := queue } := by
  cases queue with
  | nil => cases ends
  | cons p rest =>
    unfold firstempty
    dsimp only [List.cons_append]
    rw [tEndRun_append after ends apart]

theorem Sequenced.front {low rest : List Th} (sequenced : Sequenced base stream tp taken ready)
    (shape : tp.tRcv = low ++ rest) (past : ∀ q ∈ rest, ready ≤ (piece base q).start) :
    Sequenced base stream { tp with tRcv := low } taken ready := by
  obtain ⟨front, back, split, tiles, ordered, backPast⟩ := sequenced.run
  have lowCarries : ∀ q ∈ low, Carries base stream q := fun q inside =>
    sequenced.carries q (by rw [shape]; exact List.mem_append_left _ inside)
  rcases List.append_eq_append_iff.mp (split.symm.trans shape) with
    ⟨more, isLow, isBack⟩ | ⟨more, isFront, isRest⟩
  · refine ⟨sequenced.nxt, sequenced.inside, lowCarries, front, more, isLow, tiles, ?_, ?_⟩
    · rw [isBack, pieces_append] at ordered
      exact (List.pairwise_append.mp ordered).1
    · exact fun q inside => backPast q (isBack ▸ List.mem_append_left _ inside)
  · have none : more = [] := by
      refine List.eq_nil_iff_forall_not_mem.mpr fun q inside => ?_
      have inFront : q ∈ front := isFront ▸ List.mem_append_right _ inside
      have full := Piece.start_lt_stop
        (sequenced.carries q (by rw [split]; exact List.mem_append_left _ inFront)).part
      have stop := (tiles.bounds _ (List.mem_map_of_mem inFront)).2
      have start := past q (isRest ▸ List.mem_append_left _ inside)
      omega
    rw [none, List.append_nil] at isFront
    exact ⟨sequenced.nxt, sequenced.inside, lowCarries, low, [], (List.append_nil low).symm,
      isFront ▸ tiles, List.Pairwise.nil, fun q inside => absurd inside List.not_mem_nil⟩

/-! ### How far a merge fills the queue -/

/-- Everything up to the end of the segment is held by it or by the queue. -/
def Reached (base : Seq) (queue : List Th) (ready : Nat) (t : Th) : Prop :=
  ∀ k, ready ≤ k → k < (piece base t).stop → (piece base t).Holds k ∨ Covers (pieces base queue) k

/-- What a merge leaves: the first empty spot, which is past the segment exactly when everything
before it has been reached, and the last segment of the queue, whose last byte is the first empty
spot only if the segment touches a later one and the queue ends one byte past it. -/
structure Filled (base : Seq) (tp : Tcb) (ready : Nat) (t : Th) (queue : List Th) (next : Nat)
    (z : Th) : Prop where
  small : next < 2 ^ 31
  empty : firstempty { tp with tRcv := queue } = point base (next : Int)
  again : firstempty { tp with tRcv := queue, rcvNxt := point base (next : Int) } =
    point base (next : Int)
  ends : queue.getLast? = some z
  reached : Reached base tp.tRcv ready t ↔ (piece base t).stop ≤ next
  last : tEnd z = point base (next : Int) ↔ touches t tp.tRcv ∧ Reached base tp.tRcv ready t ∧
    ∃ q, tp.tRcv.getLast? = some q ∧ tEnd q = tEnd t + 1
  meets : tEnd z = point base (next : Int) → next = (piece base t).stop

section Merging

variable (short : stream.length < 2 ^ 31)
include short

theorem Sequenced.filled_clear {tp : Tcb} {taken ready : Nat} {t : Th}
    (sequenced : Sequenced base stream tp taken ready) (carries : Carries base stream t)
    (late : ready ≤ (piece base t).start) (clear : ¬ touches t tp.tRcv) :
    ∃ next z, Filled base tp ready t (rcvMerge tp.rcvNxt (tEnd t) tp.tRcv t).1 next z ∧
      Sequenced base stream { tp with
        tRcv := (rcvMerge tp.rcvNxt (tEnd t) tp.tRcv t).1
        rcvNxt := point base (next : Int) } taken next ∧ ready ≤ next ∧
      ∀ k, Covers (pieces base (rcvMerge tp.rcvNxt (tEnd t) tp.tRcv t).1) k ↔
        (piece base t).Holds k ∨ Covers (pieces base tp.tRcv) k := by
  obtain ⟨⟨next, more, merged⟩, covers⟩ := sequenced.merge_holds short carries late clear
  have nxt := merged.nxt
  dsimp only at nxt covers
  rw [nxt] at merged
  have full := Piece.start_lt_stop carries.part
  have inside := merged.inside
  have some : (rcvMerge tp.rcvNxt (tEnd t) tp.tRcv t).1 ≠ [] := by
    intro none
    have held := (covers (piece base t).start).mpr (.inl ⟨le_rfl, full⟩)
    rw [none] at held
    exact covers_nil _ held
  have ends := List.getLast?_eq_some_getLast some
  refine ⟨next, _, ⟨by omega, nxt, merged.firstempty_eq short, ends, ?_, ?_, ?_⟩, merged, more, covers⟩
  · rw [← merged.holds_iff sequenced.le more]
    exact forall_congr' fun k => by rw [← covers]
  · constructor
    · exact fun same => absurd same (merged.ne_tEnd short ends)
    · exact fun both => absurd both.1 clear
  · exact fun same => absurd same (merged.ne_tEnd short ends)

/-- A segment that touches a later one. -/
theorem Sequenced.filled_touching {tp : Tcb} {taken ready : Nat} {t : Th}
    (sequenced : Sequenced base stream tp taken ready) (carries : Carries base stream t)
    (late : ready ≤ (piece base t).start) (touch : touches t tp.tRcv) :
    ∃ next z, Filled base tp ready t (rcvMerge tp.rcvNxt (tEnd t) tp.tRcv t).1 next z := by
  obtain ⟨low, later, after, split⟩ :=
    touches_split short tp.rcvNxt sequenced.carries carries sequenced.ordered touch
  have full := Piece.start_lt_stop carries.part
  have held : ∀ q ∈ later :: after, q ∈ tp.tRcv := fun q inside => by
    rw [split.shape]
    exact List.mem_append_right _ inside
  have laterCarries := sequenced.carries later (held later List.mem_cons_self)
  have laterStart : (piece base later).start + 1 = (piece base t).stop :=
    (tSeq_eq_tEnd short carries laterCarries).mp split.same
  have ordered := sequenced.ordered
  rw [split.shape, pieces_append] at ordered
  have tailOrdered := (List.pairwise_append.mp ordered).2.1
  have starts : ∀ q ∈ later :: after, (piece base later).start ≤ (piece base q).start := by
    intro q inside
    rcases List.mem_cons.mp inside with rfl | tail
    · exact le_rfl
    · exact le_trans (le_of_lt (Piece.start_lt_stop laterCarries.part))
        (Ordered.head tailOrdered _ (List.mem_map_of_mem tail))
  have sequencedLow := sequenced.front split.shape fun q inside => by
    have := starts q inside
    omega
  obtain ⟨next, left, filled, merged, more, covers⟩ :=
    sequencedLow.filled_clear short carries late split.clear
  dsimp only at merged covers filled
  have within := merged.inside
  have covered (k : Nat) (less : k < (piece base t).stop) :
      (piece base t).Holds k ∨ Covers (pieces base tp.tRcv) k ↔
        (piece base t).Holds k ∨ Covers (pieces base low) k := by
    rw [split.shape, pieces_append]
    constructor
    · rintro (holds | ⟨p, inside, holds⟩)
      · exact .inl holds
      rcases List.mem_append.mp inside with inLow | inTail
      · exact .inr ⟨p, inLow, holds⟩
      · obtain ⟨q, member, rfl⟩ := List.mem_map.mp inTail
        have start := starts q member
        have first := holds.1
        exact .inl ⟨by omega, less⟩
    · rintro (holds | ⟨p, inside, holds⟩)
      · exact .inl holds
      · exact .inr ⟨p, List.mem_append_left _ inside, holds⟩
  have reach : Reached base tp.tRcv ready t ↔ Reached base low ready t :=
    forall_congr' fun k => imp_congr_right fun _ => forall_congr' (covered k)
  have most : next ≤ (piece base t).stop := by
    by_contra past
    rcases (covers _).mp (merged.holds (by have := sequenced.le; omega) (not_le.mp past)) with
      ⟨-, same⟩ | ⟨p, inside, -, stop⟩
    · exact absurd same (lt_irrefl _)
    · have := (List.pairwise_append.mp ordered).2.2 p inside _ List.mem_cons_self
      omega
  have notLast : next + 1 ≠ (piece base t).stop := by
    intro same
    exact merged.lacks ((covers next).mpr (.inl ⟨by omega, by omega⟩))
  obtain ⟨left', lowEnds, sameEnd⟩ := split.ends
  have apart : tEnd left' + 1 ≠ later.tSeq := by
    rw [sameEnd, split.same]
    exact fun same => absurd (BitVec.add_right_eq_self.mp same) (by decide)
  have lasts (front : List Th) : (front ++ later :: after).getLast? = (later :: after).getLast? :=
    List.getLast?_append_of_ne_nil _ (List.cons_ne_nil _ _)
  obtain ⟨z, ends⟩ : ∃ z, (later :: after).getLast? = some z :=
    ⟨_, List.getLast?_eq_some_getLast (List.cons_ne_nil _ _)⟩
  have zInside := List.mem_of_getLast? ends
  have zCarries := sequenced.carries z (held z zInside)
  have zBound := Piece.stop_le_length zCarries.part
  have zFull := Piece.start_lt_stop zCarries.part
  have zStart := starts z zInside
  have tBound := Piece.stop_le_length carries.part
  have meets : tEnd z = point base (next : Int) → next = (piece base t).stop := by
    rw [zCarries.tEnd, point_eq_iff base (by omega) (by omega)]
    omega
  refine ⟨next, z, filled.small, ?_, ?_, ?_, reach.trans filled.reached, ?_, meets⟩
  · rw [split.merged, firstempty_append after lowEnds apart]
    exact filled.empty
  · rw [split.merged]
    have cut := @firstempty_append { tp with rcvNxt := point base (next : Int) } _ _ _ after lowEnds
      apart
    exact cut.trans filled.again
  · rw [split.merged, lasts, ends]
  · have queueEnds : tp.tRcv.getLast? = some z := by rw [split.shape, lasts, ends]
    rw [reach, filled.reached, queueEnds, carries.next]
    constructor
    · intro same
      have reached := meets same
      exact ⟨touch, le_of_eq reached.symm, z, rfl, by rw [same, reached]⟩
    · rintro ⟨-, past, q, isLast, same⟩
      rw [Option.some.inj isLast, same, le_antisymm most past]

theorem Sequenced.filled {tp : Tcb} {taken ready : Nat} {t : Th}
    (sequenced : Sequenced base stream tp taken ready) (carries : Carries base stream t)
    (late : ready ≤ (piece base t).start) :
    ∃ next z, Filled base tp ready t (rcvMerge tp.rcvNxt (tEnd t) tp.tRcv t).1 next z := by
  by_cases touch : touches t tp.tRcv
  · exact sequenced.filled_touching short carries late touch
  · obtain ⟨next, z, filled, -⟩ := sequenced.filled_clear short carries late touch
    exact ⟨next, z, filled⟩

end Merging

end NetworkUnix.Bbnnet
