/-
This file models how a datagram that is too long for its interface is cut into
fragments, and proves for which datagrams the fragments carry it: each fragment
after the second takes its offset over the offset of the one before, and the
bytes that are left over at a cut have to stand in one mbuf.

A chain is the list of the data of its mbufs; the first one stands behind the
header. The checksum and the byte order of the header are left out, and so are
the header fields that every fragment copies.
-/

import Mathlib.Algebra.GroupWithZero.Nat
import Mathlib.Algebra.Order.Group.Nat
import Mathlib.Data.List.Basic

namespace NetworkUnix.Bbnnet.IpFrag

/-! ### Headers and chains -/

/-- `ip_off`: the flags `ip_df` and `ip_mf` and the offset in units of eight bytes. -/
structure IpOff where
  df : Bool
  mf : Bool
  offset : BitVec 13
deriving DecidableEq

/-- A packet for the interface: the header fields that differ, and the chain. -/
structure Packet where
  ipLen : Nat
  ipOff : IpOff
  chain : List (List (BitVec 8))
deriving DecidableEq

def Packet.data (p : Packet) : List (BitVec 8) := p.chain.flatten

/-- The search for the end of a fragment: the number of mbufs before the one that goes past `max`,
and the sum up to where the search stops. -/
def findEnd (max : Nat) : Nat → List Nat → Nat × Nat
  | i, [] => (0, i)
  | i, len :: rest =>
    if i + len > max then (0, i + len)
    else ((findEnd max (i + len) rest).1 + 1, (findEnd max (i + len) rest).2)

/-- The last `adj` bytes are taken off the last mbuf. Where it has fewer there is no outcome: its
length would wrap around. -/
def cutLast (adj : Nat) (taken : List (List (BitVec 8))) :
    Option (List (List (BitVec 8)) × List (BitVec 8)) :=
  match taken.getLast? with
  | none => none
  | some n =>
    if adj ≤ n.length then
      some (taken.dropLast ++ [n.take (n.length - adj)], n.drop (n.length - adj))
    else none

/-- The loop of `ip_frag`: the packets that are sent, and whether the end is reached. A new header
copies the one before, so that the next offset is set over the old one; `mGet` tells the outcomes of
the calls of `m_get`. -/
def fragLoop (hlen max : Nat) (mGet : Nat → Bool) :
    Nat → Nat → Nat → IpOff → Nat → Int → List (List (BitVec 8)) → Option (List Packet × Bool)
  | 0, _, _, _, _, _, _ => none
  | tries + 1, calls, ipLen, ipOff, off, len, chain =>
    if len ≤ 0 then some ([⟨ipLen, ipOff, chain⟩], true)
    else
      let ipOff := { ipOff with offset := ipOff.offset ||| BitVec.ofNat 13 (off / 8) }
      let found := findEnd max 0 (chain.map List.length)
      match chain.drop found.1 with
      | [] => some ([⟨found.2 + hlen, { ipOff with mf := false }, chain⟩], true)
      | m :: rest =>
        if mGet calls = false then some ([], false)
        else
          let i := found.2 - m.length
          let rnd := i / 8 * 8
          let more := { ipOff with mf := true }
          match cutLast (i - rnd) (chain.take found.1) with
          | none => none
          | some (front, left) =>
            (fragLoop hlen max mGet tries (calls + 1) (rnd + hlen) more (off + rnd) (len - rnd)
              (left :: m :: rest)).map fun sent => (⟨rnd + hlen, more, front⟩ :: sent.1, sent.2)

/-- A datagram that must not be cut is dropped. -/
def ipFrag (hlen ifMtu : Nat) (mGet : Nat → Bool) (p : Packet) : Option (List Packet × Bool) :=
  if p.ipOff.df then some ([], false)
  else
    fragLoop hlen (ifMtu - hlen) mGet (p.ipLen + 1) 0 p.ipLen p.ipOff 0 (p.ipLen - hlen) p.chain

/-! ### What the fragments should be -/

/-- The lengths agree and are small enough, and the offset is that of the data before. -/
structure Carries (hlen ifMtu off : Nat) (p : Packet) : Prop where
  len : p.ipLen = hlen + p.data.length
  small : p.ipLen ≤ ifMtu
  offset : p.ipOff.offset.toNat * 8 = off

/-- The fragments follow one another: all but the last are marked and hold whole units. -/
def Tiles (hlen ifMtu : Nat) : Nat → List Packet → Prop
  | _, [] => False
  | off, [p] => Carries hlen ifMtu off p ∧ p.ipOff.mf = false
  | off, p :: next :: rest =>
    Carries hlen ifMtu off p ∧ p.ipOff.mf = true ∧ 0 < p.data.length ∧ p.data.length % 8 = 0 ∧
      Tiles hlen ifMtu (off + p.data.length) (next :: rest)

instance (hlen ifMtu off : Nat) (p : Packet) : Decidable (Carries hlen ifMtu off p) :=
  decidable_of_iff (p.ipLen = hlen + p.data.length ∧ p.ipLen ≤ ifMtu ∧ p.ipOff.offset.toNat * 8 = off)
    ⟨fun ⟨len, small, offset⟩ => ⟨len, small, offset⟩,
      fun carries => ⟨carries.len, carries.small, carries.offset⟩⟩

instance decidableTiles (hlen ifMtu : Nat) :
    (off : Nat) → (sent : List Packet) → Decidable (Tiles hlen ifMtu off sent)
  | _, [] => isFalse id
  | off, [p] => inferInstanceAs (Decidable (Carries hlen ifMtu off p ∧ p.ipOff.mf = false))
  | off, p :: next :: rest =>
    have := decidableTiles hlen ifMtu (off + p.data.length) (next :: rest)
    inferInstanceAs (Decidable (Carries hlen ifMtu off p ∧ p.ipOff.mf = true ∧ 0 < p.data.length ∧
      p.data.length % 8 = 0 ∧ Tiles hlen ifMtu (off + p.data.length) (next :: rest)))

/-- A cut: the offsets before and after the fragment, the bytes left over, and the length of the
mbuf they stand in. -/
structure Cut where
  off : Nat
  next : Nat
  adj : Nat
  last : Nat

/-- The cuts of a chain whose mbufs have the given lengths. -/
def cuts (max : Nat) : Nat → Nat → List Nat → List Cut
  | 0, _, _ => []
  | tries + 1, off, lens =>
    let found := findEnd max 0 lens
    match lens.drop found.1 with
    | [] => []
    | len :: rest =>
      let i := found.2 - len
      let rnd := i / 8 * 8
      ⟨off, off + rnd, i - rnd, ((lens.take found.1).getLast?).getD 0⟩ ::
        cuts max tries (off + rnd) ((i - rnd) :: len :: rest)

/-- The bytes left over stand in one mbuf, and the bits of the offset before are among those of the
offset after. -/
def Cut.Fits (c : Cut) : Prop := c.adj ≤ c.last ∧ c.off / 8 ||| c.next / 8 = c.next / 8

instance (c : Cut) : Decidable c.Fits := by
  unfold Cut.Fits
  infer_instance

/-! ### The search and the cut -/

theorem findEnd_all (max : Nat) {i : Nat} {lens : List Nat}
    (all : lens.drop (findEnd max i lens).1 = []) :
    (findEnd max i lens).2 = i + lens.sum ∧ (i ≤ max → (findEnd max i lens).2 ≤ max) := by
  induction lens generalizing i with
  | nil => exact ⟨rfl, id⟩
  | cons len rest inductionHypothesis =>
    unfold findEnd at all ⊢
    split at all
    · exact absurd all (List.cons_ne_nil _ _)
    next inside =>
      rw [if_neg inside]
      obtain ⟨total, bound⟩ := inductionHypothesis all
      refine ⟨?_, fun _ => bound (Nat.le_of_not_lt inside)⟩
      show (findEnd max (i + len) rest).2 = _
      rw [total, List.sum_cons, Nat.add_assoc]

theorem findEnd_stop (max : Nat) {i len : Nat} {lens rest : List Nat}
    (stop : lens.drop (findEnd max i lens).1 = len :: rest) (small : i ≤ max) :
    (findEnd max i lens).2 = i + (lens.take (findEnd max i lens).1).sum + len ∧
      max < (findEnd max i lens).2 ∧ i + (lens.take (findEnd max i lens).1).sum ≤ max := by
  induction lens generalizing i with
  | nil => exact absurd stop.symm (List.cons_ne_nil _ _)
  | cons first more inductionHypothesis =>
    unfold findEnd at stop ⊢
    split at stop
    next beyond =>
      rw [if_pos beyond]
      obtain ⟨rfl, _⟩ := List.cons.inj stop
      exact ⟨rfl, beyond, small⟩
    next inside =>
      rw [if_neg inside]
      obtain ⟨total, high, low⟩ := inductionHypothesis stop (Nat.le_of_not_lt inside)
      simp only
      rw [List.take_succ_cons, List.sum_cons]
      exact ⟨by omega, high, by omega⟩

theorem sum_lengths (chain : List (List (BitVec 8))) :
    (chain.map List.length).sum = chain.flatten.length := List.length_flatten.symm

theorem cutLast_some {adj : Nat} {taken front : List (List (BitVec 8))} {left : List (BitVec 8)}
    (cut : cutLast adj taken = some (front, left)) :
    front.flatten ++ left = taken.flatten ∧ left.length = adj := by
  unfold cutLast at cut
  split at cut
  · exact absurd cut.symm (Option.some_ne_none _)
  next n last =>
    split at cut
    next fits =>
      obtain ⟨rfl, rfl⟩ := Prod.mk.injEq .. ▸ Option.some_inj.mp cut
      obtain ⟨others, rfl⟩ := List.getLast?_eq_some_iff.mp last
      rw [List.dropLast_concat, List.flatten_append, List.flatten_append, List.append_assoc,
        List.flatten_singleton, List.flatten_singleton, List.take_append_drop, List.length_drop]
      exact ⟨rfl, by omega⟩
    next => exact absurd cut.symm (Option.some_ne_none _)

theorem cutLast_isSome {adj : Nat} {taken : List (List (BitVec 8))} (some : taken ≠ []) :
    (cutLast adj taken).isSome = true ↔ adj ≤ ((taken.map List.length).getLast?).getD 0 := by
  unfold cutLast
  rw [List.getLast?_map]
  obtain ⟨n, last⟩ := Option.ne_none_iff_exists'.mp (mt List.getLast?_eq_none_iff.mp some)
  rw [last]
  simp only [Option.map_some, Option.getD_some]
  split
  next fits => exact ⟨fun _ => fits, fun _ => rfl⟩
  next short => exact ⟨fun none => absurd none Bool.false_ne_true, fun fits => absurd fits short⟩

/-! ### The loop -/

theorem offset_or {prev off : Nat} (small : prev ≤ off) (bound : off < 65536) (whole : off % 8 = 0) :
    (BitVec.ofNat 13 (prev / 8) ||| BitVec.ofNat 13 (off / 8)).toNat * 8 = off ↔
      prev / 8 ||| off / 8 = off / 8 := by
  rw [BitVec.toNat_or, BitVec.toNat_ofNat, BitVec.toNat_ofNat, Nat.mod_eq_of_lt (by omega),
    Nat.mod_eq_of_lt (by omega)]
  omega

theorem tiles_cons {hlen ifMtu off : Nat} {p : Packet} {sent : List Packet}
    (more : p.ipOff.mf = true) :
    Tiles hlen ifMtu off (p :: sent) ↔ Carries hlen ifMtu off p ∧ 0 < p.data.length ∧
      p.data.length % 8 = 0 ∧ Tiles hlen ifMtu (off + p.data.length) sent := by
  cases sent with
  | nil =>
    unfold Tiles
    constructor
    · rintro ⟨_, last⟩
      rw [more] at last
      exact absurd last.symm Bool.false_ne_true
    · rintro ⟨_, _, _, none⟩
      exact none.elim
  | cons next rest =>
    show (Carries hlen ifMtu off p ∧ p.ipOff.mf = true ∧ 0 < p.data.length ∧
      p.data.length % 8 = 0 ∧ Tiles hlen ifMtu (off + p.data.length) (next :: rest)) ↔ _
    rw [more]
    exact ⟨fun ⟨carries, _, rest⟩ => ⟨carries, rest⟩, fun ⟨carries, rest⟩ => ⟨carries, rfl, rest⟩⟩

/-- What the rest of a datagram needs to be carried: the offset is set right over the one before,
and every cut fits. -/
def Fine (max tries prev off : Nat) (chain : List (List (BitVec 8))) : Prop :=
  prev / 8 ||| off / 8 = off / 8 ∧ ∀ c ∈ cuts max tries off (chain.map List.length), c.Fits

/-- The packets that the loop sends carry the rest of the datagram from an offset on. -/
def Sends (hlen max tries calls ipLen : Nat) (ipOff : IpOff) (off : Nat) (mGet : Nat → Bool)
    (chain : List (List (BitVec 8))) : Prop :=
  ∃ sent, fragLoop hlen max mGet tries calls ipLen ipOff off chain.flatten.length chain =
      some (sent, true) ∧
    Tiles hlen (max + hlen) off sent ∧ (sent.map Packet.data).flatten = chain.flatten

/-- The state of the loop: there is data left, the mbufs are of the size of mbufs, and the offset
field is that of the fragment before. -/
structure Ready (tries prev off : Nat) (ipOff : IpOff) (chain : List (List (BitVec 8))) : Prop where
  left : 0 < chain.flatten.length
  enough : chain.flatten.length < tries
  small : ∀ m ∈ chain, m.length ≤ 118
  behind : prev ≤ off
  whole : off % 8 = 0
  bound : off + chain.flatten.length < 65536
  field : ipOff.offset = BitVec.ofNat 13 (prev / 8)

section Loop

variable {hlen max tries prev off : Nat} {ipOff : IpOff} {chain : List (List (BitVec 8))}
variable {mGet : Nat → Bool}

theorem sends_last (ready : Ready (tries + 1) prev off ipOff chain) (calls ipLen : Nat)
    (all : chain.drop (findEnd max 0 (chain.map List.length)).1 = []) :
    Sends hlen max (tries + 1) calls ipLen ipOff off mGet chain ↔ Fine max (tries + 1) prev off chain := by
  have allLens : (chain.map List.length).drop (findEnd max 0 (chain.map List.length)).1 = [] := by
    rw [← List.map_drop, all, List.map_nil]
  obtain ⟨total, bound⟩ := findEnd_all max allLens
  have noCuts : cuts max (tries + 1) off (chain.map List.length) = [] := by
    unfold cuts
    simp only
    rw [allLens]
  have outcome : fragLoop hlen max mGet (tries + 1) calls ipLen ipOff off chain.flatten.length chain =
      some ([⟨chain.flatten.length + hlen,
        ⟨ipOff.df, false, ipOff.offset ||| BitVec.ofNat 13 (off / 8)⟩, chain⟩], true) := by
    unfold fragLoop
    have left := ready.left
    rw [if_neg (by omega)]
    simp only
    rw [all, total, sum_lengths, Nat.zero_add]
  have offset := offset_or ready.behind (by have := ready.bound; omega) ready.whole
  rw [← ready.field] at offset
  unfold Sends Fine
  rw [noCuts, outcome, ← offset]
  constructor
  · rintro ⟨sent, same, tiles, _⟩
    obtain ⟨rfl, _⟩ := Prod.mk.injEq .. ▸ Option.some_inj.mp same
    exact ⟨tiles.1.offset, fun c inside => absurd inside List.not_mem_nil⟩
  · rintro ⟨right, _⟩
    refine ⟨_, rfl, ⟨⟨Nat.add_comm _ _, ?_, right⟩, rfl⟩, List.append_nil _⟩
    have small := bound (Nat.zero_le max)
    rw [total, sum_lengths, Nat.zero_add] at small
    show chain.flatten.length + hlen ≤ max + hlen
    omega

section More

variable {m : List (BitVec 8)} {rest : List (List (BitVec 8))}

theorem findEnd_taken (stop : chain.drop (findEnd max 0 (chain.map List.length)).1 = m :: rest)
    (small : ∀ m ∈ chain, m.length ≤ 118) :
    (findEnd max 0 (chain.map List.length)).2 - m.length =
        (chain.take (findEnd max 0 (chain.map List.length)).1).flatten.length ∧
      max < (chain.take (findEnd max 0 (chain.map List.length)).1).flatten.length + 118 ∧
      (chain.take (findEnd max 0 (chain.map List.length)).1).flatten.length ≤ max ∧
      m.length ≠ 0 := by
  have stopLens : (chain.map List.length).drop (findEnd max 0 (chain.map List.length)).1 =
      m.length :: rest.map List.length := by
    rw [← List.map_drop, stop, List.map_cons]
  obtain ⟨total, high, low⟩ := findEnd_stop max stopLens (Nat.zero_le max)
  rw [← List.map_take, sum_lengths, Nat.zero_add] at total low
  have inside : m ∈ chain := List.mem_of_mem_drop (stop ▸ List.mem_cons_self)
  have short := small m inside
  omega

theorem cuts_more (stop : chain.drop (findEnd max 0 (chain.map List.length)).1 = m :: rest)
    {adj : Nat} {left : List (BitVec 8)}
    (taken : (findEnd max 0 (chain.map List.length)).2 - m.length = adj) (leftover : left.length = adj - adj / 8 * 8) :
    cuts max (tries + 1) off (chain.map List.length) =
      ⟨off, off + adj / 8 * 8, adj - adj / 8 * 8,
        (((chain.take (findEnd max 0 (chain.map List.length)).1).map List.length).getLast?).getD 0⟩ ::
        cuts max tries (off + adj / 8 * 8) ((left :: m :: rest).map List.length) := by
  have stopLens : (chain.map List.length).drop (findEnd max 0 (chain.map List.length)).1 =
      m.length :: rest.map List.length := by
    rw [← List.map_drop, stop, List.map_cons]
  rw [cuts]
  simp only
  rw [stopLens]
  simp only
  rw [taken, List.map_take, List.map_cons, List.map_cons, leftover]

theorem Ready.next (ready : Ready (tries + 1) prev off ipOff chain)
    (nested : prev / 8 ||| off / 8 = off / 8) {rnd : Nat} {front : List (List (BitVec 8))}
    {left : List (BitVec 8)} (whole : front.flatten ++ (left :: m :: rest).flatten = chain.flatten)
    (length : front.flatten.length = rnd) (units : rnd % 8 = 0) (positive : 0 < rnd)
    (short : left.length ≤ 118) (inside : m.length ≠ 0) (small : ∀ n ∈ m :: rest, n.length ≤ 118) :
    Ready tries off (off + rnd)
      ⟨ipOff.df, true, ipOff.offset ||| BitVec.ofNat 13 (off / 8)⟩ (left :: m :: rest) := by
  have total := congrArg List.length whole
  rw [List.length_append, length] at total
  have enough := ready.enough
  have bound := ready.bound
  have units' := ready.whole
  refine ⟨?_, by omega, ?_, by omega, by omega, by omega, ?_⟩
  · rw [List.flatten_cons, List.flatten_cons, List.length_append, List.length_append]
    omega
  · exact List.forall_mem_cons.mpr ⟨short, small⟩
  · show ipOff.offset ||| _ = _
    rw [ready.field]
    refine BitVec.eq_of_toNat_eq ?_
    rw [BitVec.toNat_or, BitVec.toNat_ofNat, BitVec.toNat_ofNat, Nat.mod_eq_of_lt (by have := ready.behind; omega),
      Nat.mod_eq_of_lt (by omega)]
    exact nested

theorem fragLoop_more (stop : chain.drop (findEnd max 0 (chain.map List.length)).1 = m :: rest)
    (got : ∀ calls, mGet calls = true) (left : 0 < chain.flatten.length) {size : Nat}
    (taken : (findEnd max 0 (chain.map List.length)).2 - m.length = size) (calls ipLen : Nat) :
    fragLoop hlen max mGet (tries + 1) calls ipLen ipOff off chain.flatten.length chain =
      (cutLast (size - size / 8 * 8) (chain.take (findEnd max 0 (chain.map List.length)).1)).bind
        fun cut =>
          (fragLoop hlen max mGet tries (calls + 1) (size / 8 * 8 + hlen)
            ⟨ipOff.df, true, ipOff.offset ||| BitVec.ofNat 13 (off / 8)⟩ (off + size / 8 * 8)
            (chain.flatten.length - (size / 8 * 8 : Nat)) (cut.2 :: m :: rest)).map fun sent =>
              (⟨size / 8 * 8 + hlen,
                ⟨ipOff.df, true, ipOff.offset ||| BitVec.ofNat 13 (off / 8)⟩, cut.1⟩ :: sent.1,
                sent.2) := by
  rw [fragLoop, if_neg (by omega)]
  simp only
  rw [stop]
  simp only
  rw [got calls, taken, if_neg (Bool.noConfusion)]
  cases cutLast (size - size / 8 * 8) (chain.take (findEnd max 0 (chain.map List.length)).1) with
  | none => rfl
  | some cut => rfl

theorem sends_cut (stop : chain.drop (findEnd max 0 (chain.map List.length)).1 = m :: rest)
    (got : ∀ calls, mGet calls = true) (left : 0 < chain.flatten.length) {size : Nat}
    (taken : (findEnd max 0 (chain.map List.length)).2 - m.length = size) (calls ipLen : Nat)
    {front : List (List (BitVec 8))} {leftover : List (BitVec 8)}
    (cut : cutLast (size - size / 8 * 8) (chain.take (findEnd max 0 (chain.map List.length)).1) =
      some (front, leftover))
    (whole : front.flatten ++ (leftover :: m :: rest).flatten = chain.flatten)
    (length : front.flatten.length = size / 8 * 8) (long : 8 ≤ size) (short : size ≤ max) :
    Sends hlen max (tries + 1) calls ipLen ipOff off mGet chain ↔
      (ipOff.offset ||| BitVec.ofNat 13 (off / 8)).toNat * 8 = off ∧
        Sends hlen max tries (calls + 1) (size / 8 * 8 + hlen)
          ⟨ipOff.df, true, ipOff.offset ||| BitVec.ofNat 13 (off / 8)⟩ (off + size / 8 * 8) mGet
          (leftover :: m :: rest) := by
  have lengths := congrArg List.length whole
  rw [List.length_append, length] at lengths
  have rest_len : (chain.flatten.length : Int) - (size / 8 * 8 : Nat) =
      ((leftover :: m :: rest).flatten.length : Int) := by omega
  let first : Packet := ⟨size / 8 * 8 + hlen,
    ⟨ipOff.df, true, ipOff.offset ||| BitVec.ofNat 13 (off / 8)⟩, front⟩
  have data : first.data.length = size / 8 * 8 := length
  unfold Sends
  rw [fragLoop_more stop got left taken, cut, Option.bind_some, rest_len]
  constructor
  · rintro ⟨sent, outcome, tiles, all⟩
    obtain ⟨⟨others, done⟩, outcome', same⟩ := Option.map_eq_some_iff.mp outcome
    obtain ⟨rfl, rfl⟩ := Prod.mk.injEq .. ▸ same
    obtain ⟨carries, _, _, tiles⟩ := (@tiles_cons _ _ _ first _ rfl).mp tiles
    rw [data] at tiles
    rw [← whole] at all
    exact ⟨carries.offset, others, outcome', tiles, List.append_cancel_left all⟩
  · rintro ⟨offset, others, outcome', tiles, all⟩
    refine ⟨first :: others, ?_, ?_, ?_⟩
    · rw [outcome']
      rfl
    · refine (@tiles_cons _ _ _ first _ rfl).mpr ⟨⟨?_, ?_, offset⟩, ?_, ?_, ?_⟩
      · rw [data]
        exact Nat.add_comm _ _
      · show size / 8 * 8 + hlen ≤ max + hlen
        omega
      · omega
      · omega
      · rw [data]
        exact tiles
    · rw [List.map_cons, List.flatten_cons, all]
      exact whole

end More

/-- The loop sends packets that carry the rest of the datagram exactly if the rest is fine. -/
theorem sends_iff (room : 136 ≤ max) (got : ∀ calls, mGet calls = true)
    (ready : Ready tries prev off ipOff chain) (calls ipLen : Nat) :
    Sends hlen max tries calls ipLen ipOff off mGet chain ↔ Fine max tries prev off chain := by
  induction tries generalizing prev off ipOff chain calls ipLen with
  | zero => exact absurd ready.enough (Nat.not_lt_zero _)
  | succ tries inductionHypothesis =>
    cases stop : chain.drop (findEnd max 0 (chain.map List.length)).1 with
    | nil => exact sends_last ready calls ipLen stop
    | cons m rest =>
      obtain ⟨taken, long, short, inside⟩ := findEnd_taken stop ready.small
      have small : ∀ n ∈ m :: rest, n.length ≤ 118 := fun n member =>
        ready.small n (List.mem_of_mem_drop (stop ▸ member))
      have some : chain.take (findEnd max 0 (chain.map List.length)).1 ≠ [] := by
        intro none
        rw [none, List.flatten_nil, List.length_nil] at long
        omega
      have split : (chain.take (findEnd max 0 (chain.map List.length)).1).flatten ++
          (m :: rest).flatten = chain.flatten := by
        rw [← stop, ← List.flatten_append, List.take_append_drop]
      obtain ⟨size, sized⟩ : ∃ size,
        (chain.take (findEnd max 0 (chain.map List.length)).1).flatten.length = size := ⟨_, rfl⟩
      rw [sized] at taken long short
      have fits := @cutLast_isSome (size - size / 8 * 8) _ some
      cases cut : cutLast (size - size / 8 * 8)
          (chain.take (findEnd max 0 (chain.map List.length)).1) with
      | none =>
        rw [cut] at fits
        constructor
        · rintro ⟨sent, outcome, _⟩
          rw [fragLoop_more stop got ready.left taken, cut] at outcome
          exact absurd outcome.symm (Option.some_ne_none _)
        · rintro ⟨_, all⟩
          rw [cuts_more stop taken (List.length_replicate : (List.replicate _ 0#8).length = _)] at all
          exact absurd (fits.mpr (all _ List.mem_cons_self).1) Bool.false_ne_true
      | some parts =>
        obtain ⟨front, leftover⟩ := parts
        rw [cut] at fits
        obtain ⟨parted, leftLength⟩ := cutLast_some cut
        have whole : front.flatten ++ (leftover :: m :: rest).flatten = chain.flatten := by
          rw [List.flatten_cons, ← List.append_assoc, parted, split]
        have length : front.flatten.length = size / 8 * 8 := by
          have lengths := congrArg List.length parted
          rw [List.length_append, leftLength, sized] at lengths
          omega
        rw [sends_cut stop got ready.left taken calls ipLen cut whole length (by omega) short,
          ready.field, offset_or ready.behind (by have := ready.bound; omega) ready.whole]
        unfold Fine
        rw [cuts_more stop taken leftLength, List.forall_mem_cons]
        refine and_congr_right fun nested => ?_
        have next := ready.next nested whole length (Nat.mul_mod_left _ _) (by omega) (by omega)
          inside small
        rw [ready.field] at next
        rw [inductionHypothesis next]
        unfold Fine Cut.Fits
        exact ⟨fun ⟨bits, rest⟩ => ⟨⟨fits.mp rfl, bits⟩, rest⟩, fun ⟨⟨_, bits⟩, rest⟩ => ⟨bits, rest⟩⟩

end Loop

/-! ### The datagram -/

/-- For every datagram without the flag against cutting that is longer than the interface takes,
with room for 136 bytes of data in a packet and mbufs of at most 118 bytes, and with buffers for
the headers: the packets that are sent carry it exactly if the bytes left over at every cut stand
in one mbuf and the bits of every offset are among those of the next. -/
theorem ip_frag_tiles (hlen ifMtu : Nat) (mGet : Nat → Bool) (p : Packet)
    (room : hlen + 136 ≤ ifMtu) (tooLong : ifMtu < p.ipLen) (got : ∀ calls, mGet calls = true)
    (len : p.ipLen = hlen + p.data.length) (bound : p.ipLen < 65536)
    (small : ∀ m ∈ p.chain, m.length ≤ 118) (first : p.ipOff = ⟨false, false, 0⟩) :
    (∃ sent, ipFrag hlen ifMtu mGet p = some (sent, true) ∧ Tiles hlen ifMtu 0 sent ∧
        (sent.map Packet.data).flatten = p.data) ↔
      ∀ c ∈ cuts (ifMtu - hlen) (p.ipLen + 1) 0 (p.chain.map List.length), c.Fits := by
  have data : p.data.length = p.chain.flatten.length := rfl
  have ready : Ready (p.ipLen + 1) 0 0 p.ipOff p.chain := by
    refine ⟨by omega, by omega, small, Nat.le_refl 0, rfl, by omega, ?_⟩
    rw [first]
    rfl
  have loop := @sends_iff hlen (ifMtu - hlen) (p.ipLen + 1) 0 0 p.ipOff p.chain mGet (by omega) got ready 0
    p.ipLen
  have length : (p.ipLen : Int) - hlen = (p.chain.flatten.length : Int) := by omega
  unfold Sends at loop
  rw [Nat.sub_add_cancel (by omega), ← length] at loop
  unfold ipFrag
  rw [first] at loop ⊢
  rw [if_neg Bool.false_ne_true]
  refine loop.trans ?_
  exact ⟨fun fine => fine.2, fun fits => ⟨rfl, fits⟩⟩

/-- A datagram with a header of twenty bytes and the given lengths of data in its mbufs. -/
def datagram (lens : List Nat) : Packet :=
  ⟨20 + lens.sum, ⟨false, false, 0⟩, lens.map fun len => List.replicate len 0x2a⟩

theorem ip_frag_tiles_two :
    ∃ sent, ipFrag 20 156 (fun _ => true) (datagram [64, 64, 64]) = some (sent, true) ∧
      Tiles 20 156 0 sent ∧ (sent.map Packet.data).flatten = (datagram [64, 64, 64]).data :=
  (ip_frag_tiles 20 156 (fun _ => true) (datagram [64, 64, 64]) (by decide) (by decide)
    (fun _ => rfl) (by decide +kernel) (by decide) (by decide +kernel) rfl).mpr (by decide +kernel)

/-- Six mbufs of 72 bytes make a fragment each; the third one has the bits of the second one's
offset, nine units, in its own, which should be eighteen units. -/
theorem third_offset_wrong :
    ¬ ∀ (hlen ifMtu : Nat) (mGet : Nat → Bool) (p : Packet), hlen + 136 ≤ ifMtu → ifMtu < p.ipLen →
      (∀ calls, mGet calls = true) → p.ipLen = hlen + p.data.length → p.ipLen < 65536 →
      (∀ m ∈ p.chain, m.length ≤ 118) → p.ipOff = ⟨false, false, 0⟩ →
      ∃ sent, ipFrag hlen ifMtu mGet p = some (sent, true) ∧ Tiles hlen ifMtu 0 sent ∧
        (sent.map Packet.data).flatten = p.data := by
  intro always
  obtain ⟨sent, outcome, tiles, _⟩ := always 20 156 (fun _ => true)
    (datagram [72, 72, 72, 72, 72, 72]) (by decide) (by decide) (fun _ => rfl) (by decide +kernel)
    (by decide) (by decide +kernel) rfl
  have wrong : (ipFrag 20 156 (fun _ => true) (datagram [72, 72, 72, 72, 72, 72])).all
      (fun out => !decide (Tiles 20 156 0 out.1)) = true := by decide +kernel
  rw [outcome, Option.all_some, Bool.not_eq_true', decide_eq_false_iff_not] at wrong
  exact wrong tiles

end NetworkUnix.Bbnnet.IpFrag
