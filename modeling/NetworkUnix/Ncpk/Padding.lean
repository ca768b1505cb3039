/-
This file models what the kernel does with a message that has come in from the
network: the first byte is dropped, which belongs to the leader, the padding is
removed by what the leader announces, and the message goes to the daemon, to the
queue of a socket, or to the decoding of host-host messages.

The length of the last buffer is set to that of a full one, so that it is not known
any more how many bytes were received, and the walk to the last buffer with valid
data goes round the ring again when more are announced than there are. It is proved
that the padding is removed rightly just if the length that is computed in a signed
word is the number of bytes announced, or of those received if these are fewer.
-/

import NetworkUnix.Ncpk.HostHost

namespace NetworkUnix.Ncpk.Padding

open Function Kerbuf TailRing HostHost

/-! ### The leader -/

/-- Exchange the bytes of a word. -/
def swab (word : BitVec 16) : BitVec 16 := word.rotateLeft 8

/-- The size of the bytes that come in and their number, with its high byte first. -/
structure Imp where
  bsize : BitVec 8
  bcnt : BitVec 16

/-- Given a byte size and bytes, the number of 8 bit bytes. The size is a signed byte, and the
product a word. -/
def Imp.cnt (imp : Imp) : BitVec 16 := (imp.bsize.signExtend 16).sshiftRight 3 * swab imp.bcnt

/-- How many 8 bit bytes the leader announces. -/
def Imp.announced (imp : Imp) : Nat := imp.bsize.toNat * (swab imp.bcnt).toNat / 8

/-! ### The routines -/

/-- A socket that is read. -/
structure Rdskt where
  nToncp : Bool
  rMsgs : BitVec 16
  rMsgq : Option Nat
  rQtotal : BitVec 16

section Routines

variable (netBSize bHyster : Nat) (imp : Imp)

/-- Get to the last buffer with valid data. -/
def lastValid (k : Kernel) : (trips : Nat) → (bfrp : Nat) → (cnt : BitVec 16) →
    Except Stop (Nat × BitVec 16)
  | 0, _, _ => .error .lost
  | trips + 1, bfrp, cnt =>
    let cnt := cnt - BitVec.ofNat 16 (k.bLen bfrp)
    if cnt.toInt > 0 then lastValid k trips (k.bQlink bfrp) cnt else .ok (bfrp, cnt)

/-- Discard extra bytes of a buffer, whose length is kept in a byte. -/
def discard (bfrp : Nat) (cnt : BitVec 16) (k : Kernel) : Kernel :=
  if cnt.toInt < 0 then
    { k with
      bLen := Function.update k.bLen bfrp ((BitVec.ofNat 16 (k.bLen bfrp) + cnt).toNat % 256) }
  else k

/-- Free buffers while not pointing at the first one. -/
def freeRest (first bfrp : Nat) : (trips : Nat) → Kernel → Except Stop Kernel
  | 0, k => if k.bQlink bfrp = first then .ok k else .error .lost
  | trips + 1, k =>
    if k.bQlink bfrp = first then .ok k
    else
      match freebuf bHyster (some bfrp) k with
      | .error stop => .error stop
      | .ok (k, _) => freeRest first bfrp trips k

/-- Remove the padding of a message. Every trip of the walk lowers the count, after the first one
from at most the largest word. The result is the message and its length. -/
def rmovepad (impiMsg : Nat) (k : Kernel) : Except Stop (Kernel × Nat × BitVec 16) :=
  let impiMlen := imp.cnt
  let first := k.bQlink impiMsg
  match lastValid k (2 ^ 15 + 1) first imp.cnt with
  | .error stop => .error stop
  | .ok (bfrp, cnt) =>
    match freeRest bHyster first bfrp mostBufs (discard bfrp cnt k) with
    | .error stop => .error stop
    | .ok k => .ok (k, bfrp, impiMlen)

/-- Destroy the first data byte, it is part of the leader, and remove the padding. By definition
every buffer but the last is full. -/
def strip (impiMsg : Nat) (k : Kernel) : Except Stop (Kernel × Nat × BitVec 16) :=
  match bytesout bHyster (some impiMsg) 1
    { k with bLen := Function.update k.bLen impiMsg netBSize } with
  | .error stop => .error stop
  | .ok (_, none, _, _) => .error .lost
  | .ok (k, some impiMsg, _, _) => rmovepad bHyster imp impiMsg k

/-- Look at a message: it goes to the daemon or the queue of its socket, or is decoded without
one. -/
def hh (getblk : Getblk) (t : Contab) (host : BitVec 8) (nrcv : List (BitVec 8))
    (toncp : Nat → Bool) (hhproto : Vector (BitVec 8) 15) (sktp : Option Rdskt) (impiMsg : Nat)
    (ncp : Ncp) : Except Halt (Ncp × Option Rdskt) :=
  match strip netBSize bHyster imp impiMsg ncp.pool with
  | .error stop => .error (.stopped stop)
  | .ok (k, impiMsg, impiMlen) =>
    match sktp with
    | none =>
      (hh1 netBSize bHyster getblk t host nrcv toncp (some impiMsg) hhproto
        { ncp with pool := k }).map fun decoded => (decoded.2, none)
    | some sktp =>
      if sktp.nToncp then
        match toNcp netBSize bHyster getblk true nrcv (some impiMsg) { ncp with pool := k } with
        | .error stop => .error (.stopped stop)
        | .ok (ncp, _) => .ok (ncp, some sktp)
      else
        match catmsg netBSize bHyster sktp.rMsgq (some impiMsg) k with
        | .error stop => .error (.stopped stop)
        | .ok (k, rMsgq) =>
          .ok ({ ncp with pool := k }, some { sktp with
            rMsgs := sktp.rMsgs - 1
            rMsgq := rMsgq
            rQtotal := sktp.rQtotal + impiMlen })

end Routines

/-! ### Signed words -/

theorem Imp.toInt_cnt (imp : Imp) :
    imp.cnt.toInt = (imp.bsize.toInt / 8 * (swab imp.bcnt).toNat).bmod (2 ^ 16) := by
  have size : ((imp.bsize.signExtend 16).sshiftRight 3).toInt = imp.bsize.toInt / 8 := by
    rw [BitVec.toInt_sshiftRight, Int.shiftRight_eq_div_pow,
      BitVec.toInt_signExtend_of_le (by decide)]
    rfl
  rw [Imp.cnt, BitVec.toInt_mul, size, BitVec.toInt_eq_toNat_bmod (swab imp.bcnt)]
  exact Int.mul_bmod_bmod

variable {cnt : BitVec 16} {back front : List Nat} {last : Option Nat} {bfrp impiMsg netBSize : Nat}

theorem toInt_sub_len {len : Nat} (positive : 0 ≤ cnt.toInt) (byte : len ≤ 255) :
    (cnt - BitVec.ofNat 16 len).toInt = cnt.toInt - len := by
  have most := cnt.toInt_lt
  rw [BitVec.toInt_sub, BitVec.toInt_ofNat']
  simp only [Int.bmod]
  omega

theorem toNat_add_len {len : Nat} (negative : cnt.toInt < 0) (enough : -(len : Int) ≤ cnt.toInt)
    (byte : len ≤ 255) :
    (BitVec.ofNat 16 len + cnt).toNat % 256 = (len + cnt.toInt).toNat := by
  rw [BitVec.toInt_eq_toNat_cond] at *
  have most := cnt.isLt
  rw [BitVec.toNat_add, BitVec.toNat_ofNat]
  split at enough <;> omega

/-! ### The walk -/

variable {k : Kernel} {free nodes : List Nat} {msgs : List Msg}

theorem next_or_first {buf : Nat} (ring : Shape k.bQlink last (front ++ buf :: back)) :
    (∃ rest, back = k.bQlink buf :: rest) ∨
      back = [] ∧ ∃ rest, front ++ [buf] = k.bQlink buf :: rest := by
  rw [← List.singleton_append, ← List.append_assoc] at ring
  obtain ⟨rest, whole⟩ := ring.rotate.first
  cases back with
  | nil => exact .inr ⟨rfl, rest, whole⟩
  | cons next others => exact .inl ⟨others, by rw [(List.cons.inj whole).1]⟩

/-- The walk ends at some buffer of the ring, with a count that is used up there. Unless more is
counted than there is it does not come by the first buffer again. -/
theorem lastValid_counts (ring : Shape k.bQlink last nodes)
    (sizes : ∀ buf ∈ nodes, 0 < k.bLen buf ∧ k.bLen buf ≤ 255) (count : Nat) {trips : Nat}
    (here : nodes = front ++ bfrp :: back) (positive : 0 ≤ cnt.toInt) (enough : cnt.toInt < trips)
    (counted : count ≤ (content k nodes).length →
      (count : Int) = (content k front).length + cnt.toInt) :
    ∃ stop left ahead behind, lastValid k trips bfrp cnt = .ok (stop, left) ∧
      nodes = ahead ++ stop :: behind ∧ left.toInt ≤ 0 ∧ -(k.bLen stop : Int) ≤ left.toInt ∧
      (count ≤ (content k nodes).length →
        (count : Int) = (content k ahead).length + (k.bLen stop + left.toInt)) := by
  induction trips generalizing bfrp cnt front back with
  | zero => exact absurd enough (by omega)
  | succ trips inductionHypothesis =>
    have inside : bfrp ∈ nodes := here ▸ List.mem_append_right _ List.mem_cons_self
    obtain ⟨some, byte⟩ := sizes bfrp inside
    have lower := toInt_sub_len positive byte
    rw [lastValid]
    by_cases more : (cnt - BitVec.ofNat 16 (k.bLen bfrp)).toInt > 0
    · rw [if_pos more]
      subst here
      rcases next_or_first ring with ⟨rest, follows⟩ | ⟨rfl, rest, first⟩
      · have split : front ++ bfrp :: back = (front ++ [bfrp]) ++ k.bQlink bfrp :: rest := by
          rw [follows, List.append_assoc, List.singleton_append]
        refine inductionHypothesis split (by omega) (by omega) fun few => ?_
        have now := counted few
        rw [content_concat, List.length_append, length_bytes]
        omega
      · have split : front ++ [bfrp] = [] ++ k.bQlink bfrp :: rest := first
        refine inductionHypothesis split (by omega) (by omega) fun few => ?_
        have now := counted few
        rw [content_concat, List.length_append, length_bytes] at few
        omega
    · rw [if_neg more]
      refine ⟨bfrp, _, front, back, rfl, here, by omega, by omega, fun few => ?_⟩
      have := counted few
      omega

theorem lastValid_ends (ring : Shape k.bQlink last nodes)
    (sizes : ∀ buf ∈ nodes, 0 < k.bLen buf ∧ k.bLen buf ≤ 255) (cnt : BitVec 16)
    (inside : bfrp ∈ nodes) :
    ∃ stop left ahead behind, lastValid k (2 ^ 15 + 1) bfrp cnt = .ok (stop, left) ∧
      nodes = ahead ++ stop :: behind := by
  have goes {buf trips : Nat} {left : BitVec 16} (member : buf ∈ nodes)
      (positive : 0 ≤ left.toInt) (enough : left.toInt < trips) :
      ∃ stop final ahead behind, lastValid k trips buf left = .ok (stop, final) ∧
        nodes = ahead ++ stop :: behind := by
    obtain ⟨front, back, here⟩ := List.append_of_mem member
    obtain ⟨stop, final, ahead, behind, run, split, -⟩ :=
      lastValid_counts ring sizes ((content k nodes).length + 1) here positive enough
        fun few => absurd few (Nat.not_succ_le_self _)
    exact ⟨stop, final, ahead, behind, run, split⟩
  have most := cnt.toInt_lt
  by_cases positive : 0 ≤ cnt.toInt
  · exact goes inside positive (by omega)
  · rw [lastValid]
    have below := (cnt - BitVec.ofNat 16 (k.bLen bfrp)).toInt_lt
    by_cases more : (cnt - BitVec.ofNat 16 (k.bLen bfrp)).toInt > 0
    · rw [if_pos more]
      exact goes (ring.next_mem inside) (by omega) (by omega)
    · rw [if_neg more]
      obtain ⟨front, back, here⟩ := List.append_of_mem inside
      exact ⟨bfrp, _, front, back, rfl, here⟩

/-! ### The buffers that are freed -/

theorem freeRest_spec (bHyster : Nat) {first trips : Nat} {rest : List Nat}
    (ok : Ok k free ((some bfrp, back ++ (front ++ [bfrp])) :: msgs))
    (leads : front ++ [bfrp] = first :: rest) (enough : back.length ≤ trips) :
    ∃ next left, freeRest bHyster first bfrp trips k = .ok next ∧
      Ok next left ((some bfrp, front ++ [bfrp]) :: msgs) ∧
      Kept k next ((front ++ [bfrp]) ++ held msgs) := by
  induction back generalizing k free trips with
  | nil =>
    obtain ⟨others, follows⟩ := (ok.msgRing _ List.mem_cons_self).first
    rw [List.nil_append, leads] at follows
    have isFirst := (List.cons.inj follows).1.symm
    refine ⟨k, free, ?_, ok, Kept.refl k _⟩
    cases trips <;> rw [freeRest, if_pos isFirst]
  | cons head back inductionHypothesis =>
    cases trips with
    | zero => exact absurd enough (Nat.not_succ_le_zero _)
    | succ trips =>
      rw [List.cons_append] at ok
      have ring := ok.msgRing _ List.mem_cons_self
      obtain ⟨others, follows⟩ := ring.first
      have apart : k.bQlink bfrp ≠ first := by
        intro same
        have nodup := ring.nodup
        rw [(List.cons.inj follows).1, same, leads] at nodup
        exact (List.nodup_cons.mp nodup).1 (List.mem_append_right _ List.mem_cons_self)
      obtain ⟨mid, between, freed, okMid, keptMid, -⟩ := ok.freebuf bHyster
      have handle : (back ++ (front ++ [bfrp])).getLast? = some bfrp := by
        rw [← List.append_assoc, List.getLast?_concat]
      rw [handle] at okMid freed
      obtain ⟨next, left, run, okNext, kept⟩ :=
        inductionHypothesis okMid (Nat.le_of_succ_le_succ enough)
      refine ⟨next, left, ?_, okNext, (keptMid.mono fun buf inside => ?_).trans kept⟩
      · rw [freeRest, if_neg apart, freed]
        exact run
      · rcases List.mem_append.mp inside with inside | inside
        · exact List.mem_append_left _ (List.mem_append_right _ inside)
        · exact List.mem_append_right _ inside

/-! ### The padding is removed -/

theorem bytes_discard_self (used : cnt.toInt ≤ 0) (enough : -(k.bLen bfrp : Int) ≤ cnt.toInt)
    (byte : k.bLen bfrp ≤ 255) :
    bytes (discard bfrp cnt k) bfrp = (bytes k bfrp).take (k.bLen bfrp + cnt.toInt).toNat := by
  unfold discard
  split
  · rename_i negative
    refine List.ext_getElem? fun i => ?_
    rw [getElem?_bytes_of (update_self _ _ _) rfl, toNat_add_len negative enough byte,
      List.getElem?_take, getElem?_bytes]
    by_cases below : i < (k.bLen bfrp + cnt.toInt).toNat
    · rw [if_pos below, if_pos below, if_pos (by omega)]
    · rw [if_neg below, if_neg below]
  · rw [List.take_of_length_le]
    rw [length_bytes]
    omega

theorem bytes_discard_other {buf : Nat} (cnt : BitVec 16) (apart : buf ≠ bfrp) :
    bytes (discard bfrp cnt k) buf = bytes k buf := by
  unfold discard
  split
  · exact bytes_congr (update_of_ne apart _ _) rfl
  · rfl

theorem discard_ok (cnt : BitVec 16) (ok : Ok k free ((last, nodes) :: msgs))
    (inside : bfrp ∈ nodes) :
    Ok (discard bfrp cnt k) free ((last, nodes) :: msgs) ∧
      Kept k (discard bfrp cnt k) (held msgs) := by
  unfold discard
  split
  · refine ⟨ok.fields _ k.bEom k.bData ok.clean, fun buf other => update_of_ne ?_ _ _,
      fun _ _ => rfl, fun _ _ => rfl⟩
    rintro rfl
    exact ok.apart_head other inside
  · exact ⟨ok, Kept.refl k _⟩

theorem rmovepad_of_walk (bHyster : Nat) (imp : Imp) {stop : Nat} {left : BitVec 16}
    {ahead behind : List Nat} (ok : Ok k free ((some impiMsg, ahead ++ stop :: behind) :: msgs))
    (walk : lastValid k (2 ^ 15 + 1) (k.bQlink impiMsg) imp.cnt = .ok (stop, left)) :
    ∃ next free', rmovepad bHyster imp impiMsg k = .ok (next, stop, imp.cnt) ∧
      Ok next free' ((some stop, ahead ++ [stop]) :: msgs) ∧
      Kept (discard stop left k) next ((ahead ++ [stop]) ++ held msgs) ∧
      Kept k next (held msgs) := by
  have inside : stop ∈ ahead ++ stop :: behind := List.mem_append_right _ List.mem_cons_self
  obtain ⟨okShort, keptShort⟩ := discard_ok left ok inside
  obtain ⟨others, first⟩ := (ok.msgRing _ List.mem_cons_self).first
  have leads : ∃ rest, ahead ++ [stop] = k.bQlink impiMsg :: rest := by
    cases ahead with
    | nil => exact ⟨[], by rw [← (List.cons.inj first).1]; rfl⟩
    | cons head ahead => exact ⟨_, by rw [← (List.cons.inj first).1]; rfl⟩
  obtain ⟨rest, leads⟩ := leads
  have okTurned : Ok (discard stop left k) free
      ((some stop, behind ++ (ahead ++ [stop])) :: msgs) := by
    refine okShort.relink okShort.freeRing (fun msg member => ?_) ?_
    · rcases List.mem_cons.mp member with rfl | member
      · have ring := okShort.msgRing _ List.mem_cons_self
        rw [← List.singleton_append, ← List.append_assoc] at ring
        exact ring.rotate
      · exact okShort.msgRing msg (List.mem_cons_of_mem _ member)
    · rw [held_cons, held_cons]
      have turned : ahead ++ stop :: behind = (ahead ++ [stop]) ++ behind := by
        rw [List.append_assoc, List.singleton_append]
      rw [turned]
      exact List.Perm.append_right _ List.perm_append_comm
  have enough : behind.length ≤ mostBufs := by
    refine Nat.le_trans ?_ ok.length_msg
    rw [List.length_append, List.length_cons]
    omega
  obtain ⟨next, free', run, okNext, kept⟩ := freeRest_spec bHyster okTurned leads enough
  refine ⟨next, free', ?_, okNext, kept,
    keptShort.trans (kept.mono fun buf other => List.mem_append_right _ other)⟩
  unfold rmovepad
  dsimp only
  rw [walk]
  dsimp only
  rw [run]

theorem rmovepad_counts (bHyster : Nat) (imp : Imp) {count : Nat}
    (ok : Ok k free ((some impiMsg, nodes) :: msgs))
    (sizes : ∀ buf ∈ nodes, 0 < k.bLen buf ∧ k.bLen buf ≤ 255) (isCount : imp.cnt.toInt = count)
    (few : count ≤ (content k nodes).length) :
    ∃ next free' stop ahead behind, rmovepad bHyster imp impiMsg k = .ok (next, stop, imp.cnt) ∧
      nodes = ahead ++ stop :: behind ∧ Ok next free' ((some stop, ahead ++ [stop]) :: msgs) ∧
      content next (ahead ++ [stop]) = (content k nodes).take count ∧
      (∀ buf ∈ ahead ++ [stop], next.bLen buf ≤ k.bLen buf) ∧ Kept k next (held msgs) := by
  have ring := ok.msgRing _ List.mem_cons_self
  obtain ⟨others, first⟩ := ring.first
  have most := imp.cnt.toInt_lt
  have starts : nodes = [] ++ k.bQlink impiMsg :: others := first
  have begins : count ≤ (content k nodes).length →
      (count : Int) = (content k []).length + imp.cnt.toInt := fun _ => by
    rw [isCount]
    exact (Int.zero_add _).symm
  obtain ⟨stop, left, ahead, behind, walk, split, used, enough, counted⟩ :
      ∃ stop left ahead behind,
        lastValid k (2 ^ 15 + 1) (k.bQlink impiMsg) imp.cnt = .ok (stop, left) ∧
        nodes = ahead ++ stop :: behind ∧ left.toInt ≤ 0 ∧ -(k.bLen stop : Int) ≤ left.toInt ∧
        (count ≤ (content k nodes).length →
          (count : Int) = (content k ahead).length + (k.bLen stop + left.toInt)) :=
    lastValid_counts ring sizes count starts (by omega) (by omega) begins
  have count' := counted few
  subst split
  obtain ⟨next, free', run, okNext, keptShort, kept⟩ := rmovepad_of_walk bHyster imp ok walk
  have byte := (sizes stop (List.mem_append_right _ List.mem_cons_self)).2
  have apart (buf : Nat) (inside : buf ∈ ahead) : buf ≠ stop := by
    rintro rfl
    exact (List.nodup_append.mp ring.nodup).2.2 _ inside _ List.mem_cons_self rfl
  have stopLen := length_bytes k stop
  have follows : content k (stop :: behind) = bytes k stop ++ content k behind :=
    List.flatMap_cons
  have inAhead : (content k ahead).length ≤ count := by omega
  have isRest : (k.bLen stop + left.toInt).toNat = count - (content k ahead).length := by omega
  have inStop : count - (content k ahead).length ≤ (bytes k stop).length := by omega
  have isLen := length_bytes (discard stop left k) stop
  rw [bytes_discard_self used enough byte, List.length_take, length_bytes] at isLen
  refine ⟨next, free', stop, ahead, behind, run, rfl, okNext, ?_, fun buf inside => ?_, kept⟩
  · rw [keptShort.content fun buf inside => List.mem_append_left _ inside, content_concat,
      bytes_discard_self used enough byte,
      content_congr fun buf inside => bytes_discard_other left (apart buf inside),
      content_append, List.take_append, List.take_of_length_le inAhead, follows,
      List.take_append_of_le_length inStop, isRest]
  · rw [keptShort.bLen buf (List.mem_append_left _ inside)]
    rcases List.mem_append.mp inside with inside | only
    · have same := congrArg List.length (bytes_discard_other (k := k) left (apart buf inside))
      rw [length_bytes, length_bytes] at same
      omega
    · rw [List.mem_singleton.mp only]
      omega

theorem rmovepad_ends (bHyster : Nat) (imp : Imp) (ok : Ok k free ((some impiMsg, nodes) :: msgs))
    (sizes : ∀ buf ∈ nodes, 0 < k.bLen buf ∧ k.bLen buf ≤ 255) :
    ∃ next stop, rmovepad bHyster imp impiMsg k = .ok (next, stop, imp.cnt) := by
  have ring := ok.msgRing _ List.mem_cons_self
  obtain ⟨stop, left, ahead, behind, walk, rfl⟩ :=
    lastValid_ends ring sizes imp.cnt (ring.next_mem ring.last_mem)
  obtain ⟨next, -, run, -⟩ := rmovepad_of_walk bHyster imp ok walk
  exact ⟨next, stop, run⟩

/-! ### The first byte -/

theorem fill_last (ok : Ok k free ((some impiMsg, nodes) :: msgs))
    (fits : k.bLen impiMsg ≤ netBSize) :
    Ok { k with bLen := Function.update k.bLen impiMsg netBSize } free
        ((some impiMsg, nodes) :: msgs) ∧
      content k nodes <+: content { k with bLen := Function.update k.bLen impiMsg netBSize } nodes ∧
      Kept k { k with bLen := Function.update k.bLen impiMsg netBSize } (held msgs) := by
  have ring := ok.msgRing _ List.mem_cons_self
  obtain ⟨front, rfl⟩ := ring.exists_front
  have apart (buf : Nat) (inside : buf ∈ front) : buf ≠ impiMsg := by
    rintro rfl
    exact (List.nodup_append.mp ring.nodup).2.2 _ inside _ List.mem_cons_self rfl
  have longer : bytes k impiMsg <+:
      bytes { k with bLen := Function.update k.bLen impiMsg netBSize } impiMsg := by
    rw [List.prefix_iff_getElem?]
    intro i inside
    rw [length_bytes] at inside
    rw [getElem?_bytes_of (update_self _ _ _) rfl, if_pos (by omega),
      ← List.getElem?_eq_getElem, getElem?_bytes, if_pos inside]
  refine ⟨ok.fields _ k.bEom k.bData ok.clean, ?_, fun buf other => update_of_ne ?_ _ _,
    fun _ _ => rfl, fun _ _ => rfl⟩
  · have sameFront : content { k with bLen := Function.update k.bLen impiMsg netBSize } front =
        content k front :=
      content_congr fun buf inside => bytes_congr (update_of_ne (apart buf inside) _ _) rfl
    rw [content_concat, content_concat, sameFront]
    exact (List.prefix_append_right_inj _).mpr longer
  · rintro rfl
    exact ok.apart_head other ring.last_mem

theorem bytesout_one (bHyster : Nat) {msg first : Nat} (leads : k.bQlink msg = first)
    (more : 1 < k.bLen first) :
    ∃ vec, bytesout bHyster (some msg) 1 k = .ok (moveUp first 1 k, some msg, vec, 0) := by
  rw [bytesout, bytesoutFrom, leads]
  dsimp only
  rw [Nat.zero_add, Nat.min_eq_left (Nat.le_of_lt more), if_pos (Nat.sub_pos_of_lt more)]
  exact ⟨_, rfl⟩

theorem strip_front (two : 2 ≤ netBSize) (byte : netBSize ≤ 127) (bHyster : Nat)
    (ok : Ok k free ((some impiMsg, nodes) :: msgs))
    (full : ∀ buf ∈ nodes, buf ≠ impiMsg → k.bLen buf = netBSize)
    (fits : k.bLen impiMsg ≤ netBSize) :
    ∃ mid, (∀ imp, strip netBSize bHyster imp impiMsg k = rmovepad bHyster imp impiMsg mid) ∧
      Ok mid free ((some impiMsg, nodes) :: msgs) ∧
      (∀ buf ∈ nodes, 0 < mid.bLen buf ∧ mid.bLen buf ≤ netBSize) ∧
      (content k nodes).drop 1 <+: content mid nodes ∧ Kept k mid (held msgs) := by
  obtain ⟨okFull, longer, keptFull⟩ := fill_last ok fits
  have all (buf : Nat) (inside : buf ∈ nodes) :
      (Function.update k.bLen impiMsg netBSize) buf = netBSize := by
    by_cases here : buf = impiMsg
    · rw [here, update_self]
    · rw [update_of_ne here, full buf inside here]
  obtain ⟨rest, isFirst⟩ := (okFull.msgRing _ List.mem_cons_self).first
  generalize leads : k.bQlink impiMsg = first at isFirst
  subst isFirst
  have isFull := all first List.mem_cons_self
  obtain ⟨okUp, contentUp, -, keptUp⟩ := okFull.moveUp 1
    (fun buf inside => Nat.le_of_eq (all buf inside)) (by
      show 1 ≤ Function.update k.bLen impiMsg netBSize first
      omega)
  obtain ⟨vec, out⟩ := bytesout_one bHyster
    (k := { k with bLen := Function.update k.bLen impiMsg netBSize }) leads (by
      show 1 < Function.update k.bLen impiMsg netBSize first
      omega)
  refine ⟨_, fun imp => ?_, okUp, fun buf inside => ?_, ?_, keptFull.trans keptUp⟩
  · rw [strip, out]
  · unfold Kerbuf.moveUp
    dsimp only
    by_cases here : buf = first
    · rw [here, update_self, isFull]
      omega
    · rw [update_of_ne here, all buf inside]
      omega
  · rw [contentUp]
    exact longer.drop 1

/-! ### Messages -/

/-- What the removal of the padding is to do: the message has the data that are announced, as far
as they were received, its buffers are the first ones and all others are freed, and its length is
told. -/
def Removes (imp : Imp) (nodes : List Nat) (msgs : List Msg) (data : List (BitVec 8))
    (result : Except Stop (Kernel × Nat × BitVec 16)) : Prop :=
  ∃ next free stop kept behind impiMlen, result = .ok (next, stop, impiMlen) ∧
    nodes = kept ++ behind ∧ Ok next free ((some stop, kept) :: msgs) ∧
    content next kept = data.take imp.announced ∧ impiMlen.toInt = (content next kept).length

/-- What is to become of the queue of a socket: it is longer by these data and its total by their
number, so that the total is the length of the queue if it was. -/
def Appends (imp : Imp) (k : Kernel) (sktp : Rdskt) (data : List (BitVec 8))
    (result : Except Halt (Ncp × Option Rdskt)) : Prop :=
  ∃ next later, result = .ok (next, some later) ∧
    content next.pool (buffers next.pool later.rMsgq) =
      content k (buffers k sktp.rMsgq) ++ data.take imp.announced ∧
    later.rQtotal = sktp.rQtotal + BitVec.ofNat 16 (data.take imp.announced).length ∧
    (sktp.rQtotal = BitVec.ofNat 16 (content k (buffers k sktp.rMsgq)).length →
      later.rQtotal =
        BitVec.ofNat 16 (content next.pool (buffers next.pool later.rMsgq)).length)

/-- The product of the whole eights of the byte size and the number of bytes, in a signed word, is
the number of 8 bit bytes announced, or of those received if these are fewer. -/
def Measured (imp : Imp) (data : List (BitVec 8)) : Prop :=
  (imp.bsize.toInt / 8 * (swab imp.bcnt).toNat).bmod (2 ^ 16) =
    (Min.min imp.announced data.length : Nat)

instance (imp : Imp) (data : List (BitVec 8)) : Decidable (Measured imp data) :=
  inferInstanceAs (Decidable (_ = _))

theorem Measured.take {imp : Imp} {data : List (BitVec 8)} (measured : Measured imp data) :
    imp.cnt = BitVec.ofNat 16 (data.take imp.announced).length := by
  have most := imp.cnt.toInt_lt
  refine BitVec.eq_of_toInt_eq ?_
  rw [Measured, ← imp.toInt_cnt] at measured
  rw [BitVec.toInt_ofNat', List.length_take]
  simp only [Int.bmod]
  omega

theorem measured_of_ofNat {imp : Imp} {data : List (BitVec 8)} (few : data.length < 2 ^ 15)
    (same : imp.cnt = BitVec.ofNat 16 (data.take imp.announced).length) : Measured imp data := by
  rw [Measured, ← imp.toInt_cnt, same, BitVec.toInt_ofNat', List.length_take]
  simp only [Int.bmod]
  omega

section Message

variable {netBSize impiMsg : Nat} (two : 2 ≤ netBSize) (byte : netBSize ≤ 127) (bHyster : Nat)
  (imp : Imp) (ok : Ok k free ((some impiMsg, nodes) :: msgs))
  (full : ∀ buf ∈ nodes, buf ≠ impiMsg → k.bLen buf = netBSize) (fits : k.bLen impiMsg ≤ netBSize)

include two byte ok full fits

theorem strip_ends :
    ∃ next stop, strip netBSize bHyster imp impiMsg k = .ok (next, stop, imp.cnt) := by
  obtain ⟨mid, goes, okMid, sizes, -⟩ := strip_front two byte bHyster ok full fits
  rw [goes]
  exact rmovepad_ends bHyster imp okMid fun buf inside =>
    ⟨(sizes buf inside).1, Nat.le_trans (sizes buf inside).2 (by omega)⟩

theorem strip_measured (measured : Measured imp ((content k nodes).drop 1)) :
    ∃ next free' stop ahead behind, strip netBSize bHyster imp impiMsg k =
        .ok (next, stop, imp.cnt) ∧ nodes = ahead ++ stop :: behind ∧
      Ok next free' ((some stop, ahead ++ [stop]) :: msgs) ∧
      content next (ahead ++ [stop]) = ((content k nodes).drop 1).take imp.announced ∧
      Fits netBSize next (ahead ++ [stop]) ∧ Kept k next (held msgs) := by
  obtain ⟨mid, goes, okMid, sizes, starts, keptMid⟩ := strip_front two byte bHyster ok full fits
  have isCount : imp.cnt.toInt =
      (Min.min imp.announced ((content k nodes).drop 1).length : Nat) := by
    rw [imp.toInt_cnt, measured]
  have few : Min.min imp.announced ((content k nodes).drop 1).length ≤ (content mid nodes).length :=
    Nat.le_trans (Nat.min_le_right _ _) starts.length_le
  obtain ⟨next, free', stop, ahead, behind, run, split, okNext, whole, shorter, kept⟩ :=
    rmovepad_counts bHyster imp okMid (fun buf inside =>
      ⟨(sizes buf inside).1, Nat.le_trans (sizes buf inside).2 (by omega)⟩) isCount few
  refine ⟨next, free', stop, ahead, behind, ?_, split, okNext, ?_, fun buf inside => ?_,
    keptMid.trans kept⟩
  · rw [goes, run]
  · obtain ⟨stale, both⟩ := starts
    rw [whole, ← both, List.take_append_of_le_length (Nat.min_le_right _ _)]
    exact List.take_eq_take_min.symm
  · refine Nat.le_trans (shorter buf inside) (sizes buf ?_).2
    subst split
    rcases List.mem_append.mp inside with inside | only
    · exact List.mem_append_left _ inside
    · rw [List.mem_singleton.mp only]
      exact List.mem_append_right _ List.mem_cons_self

omit two in
theorem few_received : ((content k nodes).drop 1).length < 2 ^ 15 := by
  have fitsAll : Fits netBSize k nodes := fun buf inside => by
    by_cases here : buf = impiMsg
    · rw [here]
      exact fits
    · exact Nat.le_of_eq (full buf inside here)
  have most : (content k nodes).length ≤ 40 * 127 :=
    (length_content_le fitsAll).trans (Nat.mul_le_mul ok.length_msg byte)
  rw [List.length_drop]
  omega

theorem removes_iff :
    Removes imp nodes msgs ((content k nodes).drop 1) (strip netBSize bHyster imp impiMsg k) ↔
      Measured imp ((content k nodes).drop 1) := by
  constructor
  · rintro ⟨next, free', stop, kept, behind, impiMlen, run, -, -, whole, length⟩
    obtain ⟨mid, other, goes⟩ := strip_ends two byte bHyster imp ok full fits
    have same := (Prod.mk.inj (Prod.mk.inj (Except.ok.inj (goes.symm.trans run))).2).2
    rw [Measured, ← imp.toInt_cnt, same, length, whole, List.length_take]
  · intro measured
    obtain ⟨next, free', stop, ahead, behind, run, split, okNext, whole, -⟩ :=
      strip_measured two byte bHyster imp ok full fits measured
    refine ⟨next, free', stop, ahead ++ [stop], behind, imp.cnt, run, ?_, okNext, whole, ?_⟩
    · rw [split, List.append_assoc, List.singleton_append]
    · rw [whole, List.length_take, imp.toInt_cnt, measured]

end Message

theorem appends_iff (two : 2 ≤ netBSize) (byte : netBSize ≤ 127) (bHyster : Nat) (imp : Imp)
    {ncp : Ncp} {sktp : Rdskt} {queue : List Nat}
    (ok : Ok ncp.pool free ((some impiMsg, nodes) :: (sktp.rMsgq, queue) :: msgs))
    (full : ∀ buf ∈ nodes, buf ≠ impiMsg → ncp.pool.bLen buf = netBSize)
    (fits : ncp.pool.bLen impiMsg ≤ netBSize) (queued : Fits netBSize ncp.pool queue)
    (user : sktp.nToncp = false) (getblk : Getblk) (t : Contab) (host : BitVec 8)
    (nrcv : List (BitVec 8)) (toncp : Nat → Bool) (hhproto : Vector (BitVec 8) 15) :
    Appends imp ncp.pool sktp ((content ncp.pool nodes).drop 1)
        (hh netBSize bHyster imp getblk t host nrcv toncp hhproto (some sktp) impiMsg ncp) ↔
      Measured imp ((content ncp.pool nodes).drop 1) := by
  have notDaemon : ¬ sktp.nToncp = true := by
    rw [user]
    exact Bool.false_ne_true
  constructor
  · rintro ⟨next, later, run, -, total, -⟩
    obtain ⟨mid, stop, goes⟩ := strip_ends two byte bHyster imp ok full fits
    refine measured_of_ofNat (few_received byte ok full fits) ?_
    rw [hh, goes] at run
    dsimp only at run
    rw [if_neg notDaemon] at run
    split at run
    · cases run
    · have same := Option.some_inj.mp (Prod.mk.inj (Except.ok.inj run)).2
      rw [← same] at total
      exact (BitVec.add_right_inj _).mp total
  · intro measured
    obtain ⟨mid, between, stop, ahead, behind, goes, -, okMid, whole, fitsMid, kept⟩ :=
      strip_measured two byte bHyster imp ok full fits measured
    rw [held_cons] at kept
    have inQueue (buf : Nat) (inside : buf ∈ queue) : buf ∈ queue ++ held msgs :=
      List.mem_append_left _ inside
    obtain ⟨next, left, last, later, joined, okNext, both, -⟩ :=
      (okMid.perm (List.Perm.swap _ _ _)).catmsg bHyster (kept.fits inQueue queued) fitsMid
    have before := (ok.perm (List.Perm.swap _ _ _)).buffers
    have length : content next (buffers next last) =
        content ncp.pool (buffers ncp.pool sktp.rMsgq) ++
          ((content ncp.pool nodes).drop 1).take imp.announced := by
      rw [okNext.buffers, both, kept.content inQueue, whole, before]
    refine ⟨{ ncp with pool := next }, { sktp with
      rMsgs := sktp.rMsgs - 1
      rMsgq := last
      rQtotal := sktp.rQtotal + imp.cnt }, ?_, length, ?_, fun total => ?_⟩
    · rw [hh, goes]
      dsimp only
      rw [if_neg notDaemon, joined]
    · rw [← measured.take]
    · dsimp only
      rw [length, List.length_append, total, measured.take, BitVec.ofNat_add]

/-- For every message and every leader the removal of the padding ends; and it leaves what it is to
leave, with the queue and the total of the socket, exactly when the length is measured rightly. -/
theorem padding_removed {netBSize impiMsg : Nat} (two : 2 ≤ netBSize) (byte : netBSize ≤ 127)
    (bHyster : Nat) (imp : Imp) {ncp : Ncp}
    (ok : Ok ncp.pool free ((some impiMsg, nodes) :: msgs))
    (full : ∀ buf ∈ nodes, buf ≠ impiMsg → ncp.pool.bLen buf = netBSize)
    (fits : ncp.pool.bLen impiMsg ≤ netBSize) :
    (∃ next stop, strip netBSize bHyster imp impiMsg ncp.pool = .ok (next, stop, imp.cnt)) ∧
      (Removes imp nodes msgs ((content ncp.pool nodes).drop 1)
          (strip netBSize bHyster imp impiMsg ncp.pool) ↔
        Measured imp ((content ncp.pool nodes).drop 1)) ∧
      ∀ (sktp : Rdskt) (queue : List Nat) (others : List Msg) (getblk : Getblk) (t : Contab)
        (host : BitVec 8) (nrcv : List (BitVec 8)) (toncp : Nat → Bool)
        (hhproto : Vector (BitVec 8) 15), msgs = (sktp.rMsgq, queue) :: others →
        Fits netBSize ncp.pool queue → sktp.nToncp = false →
          (Appends imp ncp.pool sktp ((content ncp.pool nodes).drop 1)
              (hh netBSize bHyster imp getblk t host nrcv toncp hhproto (some sktp) impiMsg ncp) ↔
            Measured imp ((content ncp.pool nodes).drop 1)) := by
  refine ⟨strip_ends two byte bHyster imp ok full fits,
    removes_iff two byte bHyster imp ok full fits, ?_⟩
  rintro sktp queue others getblk t host nrcv toncp hhproto rfl queued user
  exact appends_iff two byte bHyster imp ok full fits queued user getblk t host nrcv toncp hhproto

/-- The daemon's interrupt queue and a user's are empty, and the message of three bytes is the one
that has come in. -/
def arrived : Ncp where
  pool := pair
  handles := []
  ncpirq := none
  ncprq := none
  ncptimo := false
  ncpopnstate := 1

/-- The leader announces two bytes of eight bits, and two come in behind the first one. -/
theorem padding_removed_two :
    Removes ⟨8, 0x0200⟩ [0] [(some 1, [1])] [1, 2] (strip 60 3 ⟨8, 0x0200⟩ 0 pair) ∧
      Appends ⟨8, 0x0200⟩ pair ⟨false, 3, some 1, 2⟩ [1, 2]
        (hh 60 3 ⟨8, 0x0200⟩ Getblk.above nine 5 [] (fun _ => false) (Vector.replicate 15 0)
          (some ⟨false, 3, some 1, 2⟩) 0 arrived) := by
  have all := padding_removed (show 2 ≤ 60 by decide) (by decide) 3 ⟨8, 0x0200⟩
    (show Ok arrived.pool _ _ from pair_ok)
    (fun buf inside other => absurd (List.mem_singleton.mp inside) other) (by decide)
  have measured : Measured ⟨8, 0x0200⟩ ((content pair [0]).drop 1) := by decide
  refine ⟨all.2.1.mpr measured, (all.2.2 ⟨false, 3, some 1, 2⟩ [1] [] Getblk.above nine 5 []
    (fun _ => false) (Vector.replicate 15 0) rfl (fun buf inside => ?_) rfl).mpr measured⟩
  rw [List.mem_singleton.mp inside]
  decide

/-- When a hundred bytes are announced the walk goes round the ring: 41 bytes are left, and a
hundred are told. -/
theorem padding_wraps :
    ((strip 60 3 ⟨8, 0x6400⟩ 0 pair).toOption.map fun result =>
      ((content result.1 (buffers result.1 (some result.2.1))).length, result.2.2)) =
        some (41, 100) ∧
      ¬ Removes ⟨8, 0x6400⟩ [0] [(some 1, [1])] [1, 2] (strip 60 3 ⟨8, 0x6400⟩ 0 pair) := by
  refine ⟨by decide +kernel, fun removes => ?_⟩
  have measured : Measured ⟨8, 0x6400⟩ ((content pair [0]).drop 1) :=
    (removes_iff (show 2 ≤ 60 by decide) (by decide) 3 ⟨8, 0x6400⟩ pair_ok
      (fun buf inside other => absurd (List.mem_singleton.mp inside) other) (by decide)).mp removes
  exact absurd measured (by decide)

end NetworkUnix.Ncpk.Padding
