/-
This file joins the two ends of fragmentation. The packets that `ip_frag` makes of a datagram come
to `ip_input` in any order, any number of times and between other packets, and the datagram is
passed up exactly when all its bytes have come. The overlap that the merge cannot handle does not
arise, since the queued pieces begin and end where the datagram was cut.
-/

import NetworkUnix.Bbnnet.IpFrag
import NetworkUnix.Bbnnet.Reassembly

namespace NetworkUnix.Bbnnet

/-! ### What is sent -/

namespace IpFrag

/-- No packet is sent without data. -/
theorem fragLoop_some {hlen max tries calls ipLen off : Nat} {ipOff : IpOff} {mGet : Nat → Bool}
    {chain : List (List (BitVec 8))} {sent : List Packet} (room : 136 ≤ max)
    (got : ∀ calls, mGet calls = true) (left : 0 < chain.flatten.length)
    (small : ∀ m ∈ chain, m.length ≤ 118)
    (done : fragLoop hlen max mGet tries calls ipLen ipOff off chain.flatten.length chain =
      some (sent, true)) : ∀ x ∈ sent, x.data ≠ [] := by
  induction tries generalizing calls ipLen off ipOff chain sent with
  | zero => cases done
  | succ tries inductionHypothesis =>
    cases stop : chain.drop (findEnd max 0 (chain.map List.length)).1 with
    | nil =>
      rw [fragLoop, if_neg (by omega)] at done
      simp only [stop] at done
      obtain ⟨rfl, -⟩ := Prod.mk.injEq .. ▸ Option.some_inj.mp done
      exact List.forall_mem_singleton.mpr (List.ne_nil_of_length_pos left)
    | cons m rest =>
      obtain ⟨taken, long, -, inside⟩ := findEnd_taken stop small
      rw [fragLoop_more stop got left taken] at done
      obtain ⟨⟨front, leftover⟩, cut, done⟩ := Option.bind_eq_some_iff.mp done
      obtain ⟨⟨others, finished⟩, outcome, same⟩ := Option.map_eq_some_iff.mp done
      obtain ⟨rfl, rfl⟩ := Prod.mk.injEq .. ▸ same
      obtain ⟨parted, leftLength⟩ := cutLast_some cut
      have frontLength := congrArg List.length parted
      rw [List.length_append, leftLength] at frontLength
      have split : chain.flatten.length =
          (chain.take (findEnd max 0 (chain.map List.length)).1).flatten.length +
            (m :: rest).flatten.length := by
        rw [← stop, ← List.length_append, ← List.flatten_append, List.take_append_drop]
      have length : (chain.flatten.length : Int) -
          ((chain.take (findEnd max 0 (chain.map List.length)).1).flatten.length / 8 * 8 : Nat) =
            ((leftover :: m :: rest).flatten.length : Int) := by
        rw [List.flatten_cons, List.length_append, leftLength]
        omega
      rw [length] at outcome
      refine List.forall_mem_cons.mpr ⟨List.ne_nil_of_length_pos ?_, inductionHypothesis ?_
        (List.forall_mem_cons.mpr ⟨by omega, fun n member =>
          small n (List.mem_of_mem_drop (stop ▸ member))⟩) outcome⟩
      · show 0 < front.flatten.length
        omega
      · rw [List.flatten_cons, List.flatten_cons, List.length_append, List.length_append]
        omega

/-- A packet holds the bytes from `start` on of data whose last part begins at `last`. -/
structure Placed (hlen ifMtu last : Nat) (data : List (BitVec 8)) (x : Packet) (start : Nat) :
    Prop where
  carries : Carries hlen ifMtu start x
  some : x.data ≠ []
  bytes : x.data <+: data.drop start
  whole : start % 8 = 0
  ends : x.ipOff.mf = false → start = last ∧ start + x.data.length = data.length
  more : x.ipOff.mf = true → x.data.length % 8 = 0 ∧ start + x.data.length ≤ last

theorem Tiles.placed {hlen ifMtu : Nat} {front data : List (BitVec 8)} {sent : List Packet}
    (tiles : Tiles hlen ifMtu front.length sent) (units : front.length % 8 = 0)
    (some : ∀ x ∈ sent, x.data ≠ []) (whole : front ++ (sent.map Packet.data).flatten = data) :
    ∃ last, front.length ≤ last ∧ last < data.length ∧
      ∀ x ∈ sent, ∃ start, Placed hlen ifMtu last data x start := by
  induction sent generalizing front with
  | nil => exact tiles.elim
  | cons p rest inductionHypothesis =>
    obtain ⟨pSome, restSome⟩ := List.forall_mem_cons.mp some
    have positive := List.length_pos_iff.mpr pSome
    have bytes : p.data <+: data.drop front.length := by
      rw [← whole, List.drop_left, List.map_cons, List.flatten_cons]
      exact List.prefix_append _ _
    cases rest with
    | nil =>
      obtain ⟨carries, isLast⟩ := tiles
      rw [List.map_cons, List.map_nil, List.flatten_singleton] at whole
      have length := congrArg List.length whole
      rw [List.length_append] at length
      refine ⟨front.length, Nat.le_refl _, by omega, List.forall_mem_singleton.mpr
        ⟨front.length, carries, pSome, bytes, units, fun _ => ⟨rfl, length⟩, fun more => ?_⟩⟩
      rw [isLast] at more
      exact absurd more Bool.false_ne_true
    | cons next others =>
      obtain ⟨carries, more, -, eights, tiles⟩ := tiles
      have length : (front ++ p.data).length = front.length + p.data.length := List.length_append
      rw [← length] at tiles
      obtain ⟨last, reached, inside, all⟩ := inductionHypothesis tiles (by omega) restSome (by
        rw [← whole, List.append_assoc]
        rfl)
      refine ⟨last, by omega, inside, List.forall_mem_cons.mpr
        ⟨⟨front.length, carries, pSome, bytes, units, fun ends => ?_, fun _ => ⟨eights, ?_⟩⟩, all⟩⟩
      · rw [more] at ends
        exact absurd ends.symm Bool.false_ne_true
      · omega

/-- `ip_off` as a word. -/
def IpOff.word (ipOff : IpOff) : BitVec 16 :=
  (0#1 ++ BitVec.ofBool ipOff.df ++ BitVec.ofBool ipOff.mf) ++ ipOff.offset

theorem IpOff.word_offset (ipOff : IpOff) : (ipOff.word <<< 3).toNat = ipOff.offset.toNat * 8 := by
  obtain ⟨df, mf, offset⟩ := ipOff
  have bound := offset.isLt
  have flags : ∀ df mf : Bool, (0#1 ++ BitVec.ofBool df ++ BitVec.ofBool mf).toNat < 8 := by decide
  have small := flags df mf
  have word : (IpOff.word ⟨df, mf, offset⟩).toNat =
      (0#1 ++ BitVec.ofBool df ++ BitVec.ofBool mf).toNat * 2 ^ 13 + offset.toNat := by
    unfold word
    rw [BitVec.toNat_append, ← Nat.shiftLeft_add_eq_or_of_lt bound, Nat.shiftLeft_eq]
  rw [BitVec.toNat_shiftLeft, word, Nat.shiftLeft_eq]
  show _ = offset.toNat * 8
  omega

theorem IpOff.word_mf (ipOff : IpOff) : ipOff.word &&& IpInput.ipMf = 0 ↔ ipOff.mf = false := by
  obtain ⟨df, mf, offset⟩ := ipOff
  have mask : IpInput.ipMf = BitVec.twoPow 16 13 := by decide
  rw [mask, BitVec.and_twoPow]
  have bit : (IpOff.word ⟨df, mf, offset⟩).getLsbD 13 = mf := by
    have flag : ∀ df mf : Bool,
        (0#1 ++ BitVec.ofBool df ++ BitVec.ofBool mf).getLsbD 0 = mf := by decide
    unfold word
    rw [BitVec.getLsbD_append, if_neg (Nat.lt_irrefl 13)]
    exact flag df mf
  rw [bit]
  cases mf with
  | false => exact ⟨fun _ => rfl, fun _ => rfl⟩
  | true => exact ⟨fun none => absurd none (by decide), fun clear => Bool.noConfusion clear⟩

end IpFrag

/-! ### What comes in -/

namespace IpInput

open Pieces

/-- A packet that was sent comes in: a header of the same length, and the same data. -/
structure Transmits (hlen : Nat) (x : IpFrag.Packet) (a : Packet) : Prop where
  header : a.ip.hlen = hlen
  len : a.ip.ipLen.toNat = x.ipLen
  off : a.ip.ipOff = x.ipOff.word
  headed : Headed hlen a.mp
  fits : ∀ m ∈ a.mp, m.Fits
  sum : a.sum = true
  data : ((chainData a.mp).take x.ipLen).drop hlen = x.data.map UInt8.ofBitVec

/-- Where pieces of a datagram can begin and end. -/
def Edge (last length position : Nat) : Prop :=
  position = length ∨ position % 8 = 0 ∧ position ≤ last

section

variable {hlen ifMtu last start : Nat} {data : List (BitVec 8)} {x : IpFrag.Packet} {a : Packet}

theorem Transmits.piece (transmits : Transmits hlen x a)
    (placed : IpFrag.Placed hlen ifMtu last data x start) :
    a.piece = ⟨start, x.data.map UInt8.ofBitVec⟩ := by
  unfold Packet.piece
  rw [transmits.header, transmits.len, transmits.off, IpFrag.IpOff.word_offset, transmits.data,
    placed.carries.offset]

/-- A packet that comes in is a fragment, and its piece begins and ends where the datagram was cut.
-/
structure Slice (stream : List Byte) (cut : Nat) (a : Packet) : Prop extends
    FragmentOf stream a where
  starts : Edge cut stream.length a.piece.start
  stops : Edge cut stream.length a.piece.stop
  own : a.piece.start = cut ∨ a.piece.stop % 8 = 0

theorem Transmits.slice (transmits : Transmits hlen x a)
    (placed : IpFrag.Placed hlen ifMtu last data x start) (least : sizeofIp ≤ hlen)
    (inside : last < data.length) : Slice (data.map UInt8.ofBitVec) last a := by
  have length : (data.map UInt8.ofBitVec).length = data.length := List.length_map _
  have whole := placed.whole
  have first : a.piece.start = start := by rw [transmits.piece placed]
  have stop : a.piece.stop = start + x.data.length := by
    rw [transmits.piece placed, Piece.stop, List.length_map]
  have ends : x.ipOff.mf = false ∧ start = last ∧ start + x.data.length = data.length ∨
      x.ipOff.mf = true ∧ x.data.length % 8 = 0 ∧ start + x.data.length ≤ last := by
    cases flag : x.ipOff.mf with
    | false => exact .inl ⟨rfl, placed.ends flag⟩
    | true => exact .inr ⟨rfl, placed.more flag⟩
  refine ⟨⟨transmits.header.symm ▸ transmits.headed, transmits.header.symm ▸ least, transmits.fits,
    transmits.sum, ?_, ?_, ?_⟩, .inr ?_, ?_, ?_⟩
  · have taken := congrArg List.length transmits.data
    have positive := List.length_pos_iff.mpr placed.some
    have total := placed.carries.len
    rw [List.length_drop, List.length_take, length_chainData, List.length_map] at taken
    rw [transmits.len]
    omega
  · rw [transmits.piece placed]
    refine ⟨fun none => placed.some (List.map_eq_nil_iff.mp none), ?_⟩
    rw [← List.map_drop]
    exact placed.bytes.map _
  · rw [transmits.off, IpFrag.IpOff.word_mf, stop, length]
    obtain ⟨flag, -, reaches⟩ | ⟨flag, -, before⟩ := ends
    · exact ⟨fun _ => reaches, fun _ => flag⟩
    · rw [flag]
      exact ⟨Bool.noConfusion, fun reaches => absurd reaches (by omega)⟩
  · rw [first]
    omega
  · unfold Edge
    rw [stop, length]
    omega
  · rw [first, stop]
    omega

end

/-- A piece between edges does not end in the first byte of another. -/
theorem not_touches {stream : List Byte} {f : Frag} {chain : List Frag} {last : Nat}
    (carries : Carries stream f) (own : f.piece.start = last ∨ f.piece.stop % 8 = 0)
    (all : ∀ q ∈ chain, Carries stream q) (ordered : Ordered (chain.map Frag.piece))
    (edges : ∀ q ∈ chain, Edge last stream.length q.piece.start) : ¬ touches f chain := by
  induction chain with
  | nil => exact id
  | cons q rest inductionHypothesis =>
    obtain ⟨qCarries, restAll⟩ := List.forall_mem_cons.mp all
    rintro (⟨meets, -, later, inside, same⟩ | touching)
    · have behind := ordered.head later.piece (List.mem_map_of_mem inside)
      have begins := mt (off_gt_end qCarries).mpr (BitVec.not_lt.mpr meets)
      have ends := (off_eq_end carries).mp same
      have some := Piece.start_lt_stop (restAll later inside).part
      have bound := Piece.stop_le_length (restAll later inside).part
      have edge := edges later (List.mem_cons_of_mem q inside)
      unfold Edge at edge
      omega
    · exact inductionHypothesis restAll ordered.tail
        (fun q inside => edges q (List.mem_cons_of_mem _ inside)) touching

section Runs

variable {key : BitVec 32 × BitVec 32 × BitVec 16 × BitVec 8} {stream : List Byte} {a : Packet}

/-- The pieces that are queued begin and end where the datagram was cut. -/
structure Refitting (key : BitVec 32 × BitVec 32 × BitVec 16 × BitVec 8) (stream : List Byte)
    (last : Nat) (s : Reassembly) : Prop extends Assembling key stream s where
  edges : ∀ q ∈ queued key s.nIp,
    Edge last stream.length q.piece.start ∧ Edge last stream.length q.piece.stop

theorem Refitting.clear {last : Nat} {s : Reassembly} (held : Refitting key stream last s)
    (short : stream.length ≤ 65535) (slice : Slice stream last a) :
    ¬ touches a.frag (queued key s.nIp) := by
  obtain ⟨piece, carries⟩ := slice.carries short
  exact not_touches carries (piece ▸ slice.own) held.queue.carries held.queue.ordered
    fun q inside => (held.edges q inside).1

theorem Refitting.step {last : Nat} {s : Reassembly} (held : Refitting key stream last s)
    (long : 2 ≤ stream.length) (short : stream.length ≤ 65535)
    (slice : a.ip.datagram = key → Slice stream last a)
    (buffer : a.ip.datagram = key → chainsOf key s.nIp = [] → a.mGet = true) :
    Refitting key stream last (arrive key s a) := by
  have clear : Clear key s a := fun same _ => ⟨buffer same, held.clear short (slice same)⟩
  refine ⟨held.toAssembling.step long short clear
    ⟨fun same => (slice same).toFragmentOf, rfl⟩, fun q inside => ?_⟩
  by_cases same : a.ip.datagram = key
  · have outcome := arrived long short held.toAssembling same (slice same).toFragmentOf clear
    cases passed : (ipInput s.nIp a).2 with
    | some d =>
      have queue := outcome.queue
      rw [passed, Option.isSome_some, if_pos rfl] at queue
      have covered := (queue.covers q.piece.start).mp ⟨q.piece, List.mem_map_of_mem inside,
        Nat.le_refl _, Piece.start_lt_stop (queue.carries q inside).part⟩
      exact absurd covered (covers_nil _)
    | none =>
      obtain ⟨piece, carries⟩ := (slice same).carries short
      have pieces := (ipMerge_pieces short held.queue.carries carries
        (held.clear short (slice same))).2
      have inside : q ∈ ipMerge (queued key s.nIp) a.frag := outcome.merged passed ▸ inside
      refine merge_edges (fun other member => ?_)
        (piece ▸ ⟨(slice same).starts, (slice same).stops⟩) q.piece
        (pieces ▸ List.mem_map_of_mem inside)
      obtain ⟨g, isQueued, rfl⟩ := List.mem_map.mp member
      exact held.edges g isQueued
  · have chains : chainsOf key (arrive key s a).nIp = chainsOf key s.nIp := ipInput_other same
    rw [queued, chains] at inside
    exact held.edges q inside

/-- What comes under the header of the datagram is one of its packets, and anything else may come in
between. -/
def Comes (hlen : Nat) (sent : List IpFrag.Packet)
    (key : BitVec 32 × BitVec 32 × BitVec 16 × BitVec 8) (s : Reassembly) (a : Packet)
    (next : Reassembly) : Prop :=
  (a.ip.datagram = key → ∃ x ∈ sent, Transmits hlen x a) ∧ next = arrive key s a

/-- A packet of the datagram finds a buffer for the header of its chain. -/
def Buffered (key : BitVec 32 × BitVec 32 × BitVec 16 × BitVec 8) (s : Reassembly) (a : Packet) :
    Prop :=
  a.ip.datagram = key → chainsOf key s.nIp = [] → a.mGet = true

end Runs

/-- The bytes of a datagram. -/
def stars : List Byte := List.replicate 192 0x2a

/-- What is sent behind the first 128 bytes. -/
def rear : IpFrag.Packet := ⟨84, ⟨false, false, 16⟩, [[], List.replicate 64 0x2a]⟩

end IpInput

end NetworkUnix.Bbnnet
