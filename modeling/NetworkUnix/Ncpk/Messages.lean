/-
This file models what is done with the bytes of network messages: bytes are put at
the end of a message and taken from its front, two messages are made one, and a
vector is put before a message on the way to a queue. It proves that a message is
a queue of bytes, whatever its buffers hold of it, and that no buffer is lost.

The length of a buffer is at most the size of its data, so the signed byte it is
kept in shows it. A shift of bytes towards the front reads every byte before it
is overwritten.
-/

import NetworkUnix.Ncpk.KerbufPool
import Mathlib.Algebra.GroupWithZero.Nat

namespace NetworkUnix.Ncpk.Kerbuf

open Function TailRing

/-! ### The routines -/

section Routines

variable (netBSize bHyster : Nat) (getblk : Getblk)

/-- Copy bytes behind the data of a buffer. -/
def copyIn (p : Nat) (vec : List (BitVec 8)) (k : Kernel) : Kernel :=
  { k with
    bLen := Function.update k.bLen p (k.bLen p + vec.length)
    bData := Function.update k.bData p fun i =>
      if k.bLen p ≤ i then (vec[i - k.bLen p]?).getD (k.bData p i) else k.bData p i }

/-- The loop of `vectomsg`; every trip moves a byte at least. -/
def vectomsgFrom : (trips : Nat) → List (BitVec 8) → Option Nat → Kernel →
    Except Stop (Kernel × Option Nat)
  | _, [], msg, k => .ok (k, msg)
  | 0, _ :: _, _, _ => .error .lost
  | trips + 1, byte :: rest, msg, k =>
    match appendb netBSize getblk msg k with
    | .error stop => .error stop
    | .ok (k, p) =>
      let size := min (netBSize - k.bLen p) (byte :: rest).length
      vectomsgFrom trips ((byte :: rest).drop size) (some p) (copyIn p ((byte :: rest).take size) k)

/-- Copy bytes from a vector into a message. -/
def vectomsg (vec : List (BitVec 8)) (msg : Option Nat) (k : Kernel) :
    Except Stop (Kernel × Option Nat) :=
  vectomsgFrom netBSize getblk vec.length vec msg k

/-- The bytes of a buffer. -/
def bytes (k : Kernel) (buf : Nat) : List (BitVec 8) := (List.range (k.bLen buf)).map (k.bData buf)

/-- Take bytes from the front of a buffer, and move the data up. -/
def moveUp (p size : Nat) (k : Kernel) : Kernel :=
  let s := k.bLen p - size
  { k with
    bLen := Function.update k.bLen p s
    bData := Function.update k.bData p fun i =>
      if i < s then k.bData p (size + i) else k.bData p i }

/-- The loop of `bytesout`; every trip but the last frees a buffer. The result is the message that
is left, the bytes that were taken, and how many more were asked for. -/
def bytesoutFrom : (trips : Nat) → Option Nat → Nat → Kernel →
    Except Stop (Kernel × Option Nat × List (BitVec 8) × Nat)
  | _, none, count, k => .ok (k, none, [], count)
  | _, some msg, 0, k => .ok (k, some msg, [], 0)
  | 0, some _, _ + 1, _ => .error .lost
  | trips + 1, some msg, count + 1, k =>
    let p := k.bQlink msg
    let size := min (count + 1) (k.bLen p)
    let vec := (bytes k p).take size
    let left := if k.bLen p - size > 0 then .ok (moveUp p size k, some msg)
      else freebuf bHyster (some msg) k
    match left with
    | .error stop => .error stop
    | .ok (k, msg) =>
      (bytesoutFrom trips msg (count + 1 - size) k).map fun (k, msg, more, count) =>
        (k, msg, vec ++ more, count)

/-- Copy bytes from a message into a vector. -/
def bytesout (msg : Option Nat) (count : Nat) (k : Kernel) :
    Except Stop (Kernel × Option Nat × List (BitVec 8) × Nat) :=
  bytesoutFrom bHyster (mostBufs + 1) msg count k

/-- The loop of `catmsg`: while there is room in the last buffer of one for all of the first of
two, that buffer is copied and released. -/
def catmsgFrom : (trips : Nat) → Nat → Nat → Kernel → Except Stop (Kernel × Option Nat)
  | 0, _, _, _ => .error .lost
  | trips + 1, msg1, msg2, k =>
    let p := k.bQlink msg2
    if netBSize - k.bLen msg1 ≥ k.bLen p then
      match freebuf bHyster (some msg2) (copyIn msg1 (bytes k p) k) with
      | .error stop => .error stop
      | .ok (k, none) => .ok (k, some msg1)
      | .ok (k, some msg2) => catmsgFrom trips msg1 msg2 k
    else .ok ({ k with bQlink := splice k.bQlink msg1 msg2 }, some msg2)

/-- Concatenate two messages in the order given. -/
def catmsg (msg1 msg2 : Option Nat) (k : Kernel) : Except Stop (Kernel × Option Nat) :=
  match msg1, msg2 with
  | msg1, none => .ok (k, msg1)
  | none, some msg2 => .ok (k, some msg2)
  | some msg1, some msg2 => catmsgFrom netBSize bHyster (mostBufs + 1) msg1 msg2 k

/-- The first loop over the counter `l`: the data are shifted over to give room for `len` bytes. The
counter is lowered before every test. -/
def shiftOver (len : Nat) : (l : Nat) → (Nat → BitVec 8) → (Nat → BitVec 8) × Int
  | 0, data => (data, -1)
  | l + 1, data =>
    if l ≥ len then shiftOver len l (Function.update data l (data (l - len))) else (data, l)

/-- The second loop over the counter, which is lowered after every test: the vector is moved in
front. -/
def moveFront : (trips : Nat) → Nat → List (BitVec 8) → (Nat → BitVec 8) → Nat → BitVec 8
  | 0, _, _, data => data
  | trips + 1, p, vec, data =>
    moveFront trips (p + 1) vec.tail (Function.update data p (vec.headD 0))

/-- The vector goes to the front of the first buffer of a message. -/
def moveInFront (vec : List (BitVec 8)) (buf : Nat) (k : Kernel) : Kernel :=
  let l := k.bLen buf + vec.length
  let shifted := shiftOver vec.length l (k.bData buf)
  { k with
    bLen := Function.update k.bLen buf l
    bData := Function.update k.bData buf (moveFront (shifted.2 + 1).toNat 0 vec shifted.1) }

/-- Mark the last buffer of a message and put it on a queue of messages. -/
def enqueue (qmsg : Option Nat) (msgp : Nat) (k : Kernel) : Kernel × Option Nat :=
  let marked := { k with bEom := Function.update k.bEom msgp true }
  match qmsg with
  | none => (marked, some msgp)
  | some newmsg => ({ marked with bQlink := splice k.bQlink newmsg msgp }, some msgp)

/-- Put a vector before a message: in its first buffer if there is room, else in buffers of its
own. -/
def prepend (vec : List (BitVec 8)) (msgpp : Option Nat) (k : Kernel) :
    Except Stop (Kernel × Option Nat) :=
  let built := match vectomsg netBSize getblk vec none k with
    | .error stop => .error stop
    | .ok (k, newmsg) => catmsg netBSize bHyster newmsg msgpp k
  if vec = [] then .ok (k, msgpp)
  else
    match msgpp with
    | none => built
    | some msgp =>
      if k.bLen (k.bQlink msgp) + vec.length ≤ netBSize then
        .ok (moveInFront vec (k.bQlink msgp) k, some msgp)
      else built

/-- Prepend a vector to a message, then add it to a queue. Without a vector and a message there is
no last buffer to mark. -/
def msgQ (qmsg : Option Nat) (vec : List (BitVec 8)) (msgpp : Option Nat) (k : Kernel) :
    Except Stop (Kernel × Option Nat) :=
  match prepend netBSize bHyster getblk vec msgpp k with
  | .error stop => .error stop
  | .ok (_, none) => .error .lost
  | .ok (k, some msgp) => .ok (enqueue qmsg msgp k)

end Routines

/-! ### The bytes of one buffer -/

variable {k next : Kernel} {free nodes : List Nat} {msgs : List Msg} {h : Option Nat}

theorem length_bytes (k : Kernel) (buf : Nat) : (bytes k buf).length = k.bLen buf := by
  rw [bytes, List.length_map, List.length_range]

theorem getElem?_bytes (k : Kernel) (buf i : Nat) :
    (bytes k buf)[i]? = if i < k.bLen buf then some (k.bData buf i) else none := by
  rw [bytes, List.getElem?_map]
  split
  · rename_i below
    rw [List.getElem?_range below]
    rfl
  · rename_i beyond
    rw [List.getElem?_eq_none (by rw [List.length_range]; exact Nat.le_of_not_lt beyond)]
    rfl

variable {buf netBSize trips count : Nat} {keep : List Nat}

theorem getElem?_bytes_of {length : Nat} {data : Nat → BitVec 8} (isLen : k.bLen buf = length)
    (isData : k.bData buf = data) (i : Nat) :
    (bytes k buf)[i]? = if i < length then some (data i) else none := by
  subst isLen isData
  exact getElem?_bytes k buf i

theorem bytes_congr (sameLen : next.bLen buf = k.bLen buf)
    (sameData : next.bData buf = k.bData buf) : bytes next buf = bytes k buf := by
  rw [bytes, bytes, sameLen, sameData]

theorem bytes_empty (empty : k.bLen buf = 0) : bytes k buf = [] := by
  rw [bytes, empty]
  rfl

theorem bytes_copyIn_self (p : Nat) (vec : List (BitVec 8)) (k : Kernel) :
    bytes (copyIn p vec k) p = bytes k p ++ vec := by
  refine List.ext_getElem? fun i => ?_
  rw [getElem?_bytes_of (update_self _ _ _) (update_self _ _ _)]
  by_cases below : i < k.bLen p
  · rw [if_pos (by omega), if_neg (by omega),
      List.getElem?_append_left (by rwa [length_bytes]), getElem?_bytes, if_pos below]
  · rw [List.getElem?_append_right (by rw [length_bytes]; omega), length_bytes]
    by_cases within : i < k.bLen p + vec.length
    · rw [if_pos within, if_pos (by omega), List.getElem?_eq_getElem (by omega)]
      rfl
    · rw [if_neg within, List.getElem?_eq_none (by omega)]

theorem bytes_copyIn_other {p : Nat} (vec : List (BitVec 8)) (k : Kernel) (apart : buf ≠ p) :
    bytes (copyIn p vec k) buf = bytes k buf :=
  bytes_congr (update_of_ne apart _ _) (update_of_ne apart _ _)

theorem bytes_moveUp_self (p size : Nat) (k : Kernel) :
    bytes (moveUp p size k) p = (bytes k p).drop size := by
  refine List.ext_getElem? fun i => ?_
  rw [getElem?_bytes_of (update_self _ _ _) (update_self _ _ _),
    List.getElem?_drop, getElem?_bytes]
  by_cases below : i < k.bLen p - size
  · rw [if_pos below, if_pos below, if_pos (by omega)]
  · rw [if_neg below, if_neg (by omega)]

/-- A shift goes on down to the bytes of the vector. What it has not come to is as it was, so every
byte is read before it is overwritten. -/
theorem shiftOver_spec (len l : Nat) (data : Nat → BitVec 8) :
    (shiftOver len l data).2 = min l len - 1 ∧
      ∀ i, (shiftOver len l data).1 i = if len ≤ i ∧ i < l then data (i - len) else data i := by
  induction l generalizing data with
  | zero => exact ⟨by rw [shiftOver]; omega, fun i => by rw [shiftOver, if_neg (by omega)]⟩
  | succ l inductionHypothesis =>
    rw [shiftOver]
    split
    · rename_i more
      obtain ⟨ends, shifted⟩ := inductionHypothesis (Function.update data l (data (l - len)))
      refine ⟨by omega, fun i => ?_⟩
      rw [shifted]
      by_cases here : i = l
      · subst here
        rw [if_neg (by omega), if_pos (by omega), update_self]
      · rw [update_of_ne here]
        by_cases inside : len ≤ i ∧ i < l
        · rw [if_pos inside, if_pos (by omega)]
          by_cases read : i - len = l
          · omega
          · rw [update_of_ne read]
        · rw [if_neg inside, if_neg (by omega)]
    · rename_i done
      refine ⟨by show (l : Int) = _; omega, fun i => ?_⟩
      rw [if_neg (by omega)]

theorem moveFront_spec (trips p : Nat) (vec : List (BitVec 8)) (data : Nat → BitVec 8)
    (all : trips = vec.length) (i : Nat) :
    moveFront trips p vec data i =
      if p ≤ i then (vec[i - p]?).getD (data i) else data i := by
  induction trips generalizing p vec data with
  | zero =>
    rw [List.length_eq_zero_iff.mp all.symm, moveFront]
    simp only [List.getElem?_nil, Option.getD_none, ite_self]
  | succ trips inductionHypothesis =>
    cases vec with
    | nil => exact absurd all (Nat.succ_ne_zero trips)
    | cons byte rest =>
      rw [moveFront, List.tail_cons, List.headD_cons,
        inductionHypothesis _ _ _ (Nat.succ_inj.mp all)]
      by_cases here : i = p
      · subst here
        rw [if_neg (by omega), if_pos (Nat.le_refl i), update_self, Nat.sub_self]
        rfl
      · rw [update_of_ne here]
        by_cases above : p ≤ i
        · rw [if_pos (by omega), if_pos above, show i - p = i - (p + 1) + 1 by omega,
            List.getElem?_cons_succ]
        · rw [if_neg (by omega), if_neg above]

theorem bytes_moveInFront_self (vec : List (BitVec 8)) (buf : Nat) (k : Kernel) :
    bytes (moveInFront vec buf k) buf = vec ++ bytes k buf := by
  obtain ⟨ends, shifted⟩ := shiftOver_spec vec.length (k.bLen buf + vec.length) (k.bData buf)
  have trips : ((shiftOver vec.length (k.bLen buf + vec.length) (k.bData buf)).2 + 1).toNat =
      vec.length := by
    rw [ends]
    omega
  refine List.ext_getElem? fun i => ?_
  rw [getElem?_bytes_of (update_self _ _ _) (update_self _ _ _), trips,
    moveFront_spec _ _ _ _ rfl, shifted,
    if_pos (Nat.zero_le i), Nat.sub_zero]
  by_cases front : i < vec.length
  · rw [if_pos (by omega), List.getElem?_append_left front, List.getElem?_eq_getElem front]
    rfl
  · rw [List.getElem?_append_right (by omega), getElem?_bytes, List.getElem?_eq_none (by omega)]
    by_cases inside : i < k.bLen buf + vec.length
    · rw [if_pos inside, if_pos (by omega), if_pos (by omega)]
      rfl
    · rw [if_neg inside, if_neg (by omega)]

/-! ### The bytes of a message -/

/-- A message seen as its bytes. -/
def content (k : Kernel) (nodes : List Nat) : List (BitVec 8) := nodes.flatMap (bytes k)

/-- No buffer holds more than it has room for. -/
def Fits (netBSize : Nat) (k : Kernel) (nodes : List Nat) : Prop :=
  ∀ buf ∈ nodes, k.bLen buf ≤ netBSize

theorem content_congr (same : ∀ buf ∈ nodes, bytes next buf = bytes k buf) :
    content next nodes = content k nodes :=
  List.flatMap_congr same

theorem Kept.bytes (kept : Kept k next keep) (inside : buf ∈ keep) :
    Kerbuf.bytes next buf = Kerbuf.bytes k buf :=
  bytes_congr (kept.bLen buf inside) (kept.bData buf inside)

theorem Kept.content (kept : Kept k next keep) (within : ∀ buf ∈ nodes, buf ∈ keep) :
    Kerbuf.content next nodes = Kerbuf.content k nodes :=
  content_congr fun _ inside => kept.bytes (within _ inside)

theorem Kept.relink (kept : Kept k next keep) (links : Nat → Nat) :
    Kept k { next with bQlink := links } keep :=
  ⟨kept.bLen, kept.bEom, kept.bData⟩

theorem Kept.fits (kept : Kept k next keep) (within : ∀ buf ∈ nodes, buf ∈ keep)
    (fits : Fits netBSize k nodes) :
    Fits netBSize next nodes := fun buf inside => by
  rw [kept.bLen buf (within buf inside)]
  exact fits buf inside

theorem content_concat (k : Kernel) (nodes : List Nat) (buf : Nat) :
    content k (nodes ++ [buf]) = content k nodes ++ bytes k buf := by
  rw [content, List.flatMap_append, List.flatMap_singleton]
  rfl

theorem content_append (k : Kernel) (front back : List Nat) :
    content k (front ++ back) = content k front ++ content k back :=
  List.flatMap_append

theorem Ok.apart_head (ok : Ok k free ((h, nodes) :: msgs)) (inside : buf ∈ held msgs) :
    buf ∉ nodes := fun here => by
  obtain ⟨msg, member, there⟩ := mem_held.mp inside
  exact (ok.head_apart here).2 msg member there

theorem Ok.copyIn {p : Nat} (vec : List (BitVec 8)) (ok : Ok k free ((some p, nodes) :: msgs))
    (fits : Fits netBSize k nodes) (room : k.bLen p + vec.length ≤ netBSize) :
    Ok (Kerbuf.copyIn p vec k) free ((some p, nodes) :: msgs) ∧
      content (Kerbuf.copyIn p vec k) nodes = content k nodes ++ vec ∧
      Fits netBSize (Kerbuf.copyIn p vec k) nodes ∧
      Kept k (Kerbuf.copyIn p vec k) (held msgs) := by
  have ring := ok.msgRing _ List.mem_cons_self
  obtain ⟨front, rfl⟩ := ring.exists_front
  have apart (buf : Nat) (inside : buf ∈ front) : buf ≠ p := by
    rintro rfl
    exact (List.nodup_append.mp ring.nodup).2.2 _ inside _ List.mem_cons_self rfl
  refine ⟨ok.fields _ _ _ ok.clean, ?_, fun buf inside => ?_, fun buf inside => ?_, fun _ _ => rfl,
    fun buf inside => ?_⟩
  · rw [content_concat, content_concat, bytes_copyIn_self, List.append_assoc,
      content_congr fun buf inside => bytes_copyIn_other vec k (apart buf inside)]
  · by_cases here : buf = p
    · rw [here]
      exact Nat.le_trans (Nat.le_of_eq (update_self _ _ _)) room
    · exact Nat.le_trans (Nat.le_of_eq (update_of_ne here _ _)) (fits buf inside)
  all_goals
    refine update_of_ne ?_ _ _
    rintro rfl
    exact ok.apart_head inside ring.last_mem

/-- Every mark on the buffers of a message was on those of an earlier one. -/
def MarksOf (k : Kernel) (nodes : List Nat) (next : Kernel) (later : List Nat) : Prop :=
  ∀ buf ∈ later, next.bEom buf = true → buf ∈ nodes ∧ k.bEom buf = true

theorem MarksOf.refl (k : Kernel) (nodes : List Nat) : MarksOf k nodes k nodes :=
  fun _ inside marked => ⟨inside, marked⟩

theorem MarksOf.trans {last : Kernel} {later final : List Nat} (first : MarksOf k nodes next later)
    (second : MarksOf next later last final) : MarksOf k nodes last final :=
  fun buf inside marked => (second buf inside marked).elim (first buf)

theorem Kept.marksOf (kept : Kept k next keep) (within : ∀ buf ∈ nodes, buf ∈ keep) :
    MarksOf k nodes next nodes := fun buf inside marked => by
  rw [kept.bEom buf (within buf inside)] at marked
  exact ⟨inside, marked⟩

/-- How many bytes can be put at the end of a message without a wait. -/
def room (netBSize : Nat) (k : Kernel) (msg : Option Nat) : Nat :=
  (msg.map fun p => netBSize - k.bLen p).getD 0 + netBSize * spare k

theorem Ok.appendb (size : 0 < netBSize) (getblk : Getblk) (ok : Ok k free ((h, nodes) :: msgs))
    (fits : Fits netBSize k nodes) :
    (Kerbuf.appendb netBSize getblk h k = .error .asleep ∧ room netBSize k h = 0) ∨
      ∃ next left p later, Kerbuf.appendb netBSize getblk h k = .ok (next, p) ∧
        Ok next left ((some p, later) :: msgs) ∧ content next later = content k nodes ∧
        Fits netBSize next later ∧ MarksOf k nodes next later ∧ next.bLen p < netBSize ∧
        Kept k next (held msgs) ∧ room netBSize next (some p) = room netBSize k h := by
  have another (full : (h.map fun p => netBSize - k.bLen p).getD 0 = 0) :
      let another : Except Stop (Kernel × Nat) := match Kerbuf.getbuf getblk k with
        | .error stop => .error stop
        | .ok (k, bp) => .ok (Kerbuf.linkbuf bp h k, bp)
      (another = .error .asleep ∧ room netBSize k h = 0) ∨
        ∃ next left p later, another = .ok (next, p) ∧
          Ok next left ((some p, later) :: msgs) ∧ content next later = content k nodes ∧
          Fits netBSize next later ∧ MarksOf k nodes next later ∧ next.bLen p < netBSize ∧
          Kept k next (held msgs) ∧ room netBSize next (some p) = room netBSize k h := by
    dsimp only
    rcases ok.getbuf getblk with ⟨asleep, none⟩ |
      ⟨next, left, p, got, okNext, empty, unmarked, kept, fewer⟩
    · rw [asleep]
      refine .inl ⟨rfl, ?_⟩
      rw [room, full, none, Nat.mul_zero]
    · rw [got]
      rw [held_cons] at kept
      have within (buf : Nat) (inside : buf ∈ nodes) : buf ∈ nodes ++ held msgs :=
        List.mem_append_left _ inside
      refine .inr ⟨Kerbuf.linkbuf p h next, left, p, nodes ++ [p], rfl, okNext.linkbuf, ?_, ?_,
        ?_, ?_, ?_, ?_⟩
      · rw [content_concat, bytes_empty (k := Kerbuf.linkbuf p h next) empty, List.append_nil]
        exact kept.content within
      · intro buf inside
        rcases List.mem_append.mp inside with inside | only
        · exact kept.fits within fits buf inside
        · rw [List.mem_singleton.mp only]
          exact Nat.le_trans (Nat.le_of_eq empty) (Nat.zero_le _)
      · intro buf inside marked
        rcases List.mem_append.mp inside with inside | only
        · exact kept.marksOf within buf inside marked
        · rw [List.mem_singleton.mp only] at marked
          exact absurd (unmarked.symm.trans marked) Bool.false_ne_true
      · exact Nat.lt_of_le_of_lt (Nat.le_of_eq empty) size
      · exact (kept.mono fun buf inside => List.mem_append_right _ inside).relink _
      · show netBSize - next.bLen p + netBSize * spare next = _
        rw [room, full, fewer, empty, Nat.mul_succ]
        omega
  unfold Kerbuf.appendb
  cases h with
  | none => exact another rfl
  | some msgp =>
    dsimp only
    by_cases short : k.bLen msgp < netBSize
    · rw [if_pos short]
      exact .inr ⟨k, free, msgp, nodes, rfl, ok, rfl, fits, MarksOf.refl k nodes, short,
        Kept.refl k _, rfl⟩
    · rw [if_neg short]
      exact another (Nat.sub_eq_zero_of_le (Nat.le_of_not_lt short))

theorem Ok.vectomsgFrom (size : 0 < netBSize) (getblk : Getblk) {vec : List (BitVec 8)}
    (enough : vec.length ≤ trips) (ok : Ok k free ((h, nodes) :: msgs))
    (fits : Fits netBSize k nodes) :
    (Kerbuf.vectomsgFrom netBSize getblk trips vec h k = .error .asleep ∧
        room netBSize k h < vec.length) ∨
      ∃ next left last later, Kerbuf.vectomsgFrom netBSize getblk trips vec h k = .ok (next, last) ∧
        Ok next left ((last, later) :: msgs) ∧ content next later = content k nodes ++ vec ∧
        Fits netBSize next later ∧ MarksOf k nodes next later ∧ Kept k next (held msgs) ∧
        (vec ≠ [] → later ≠ []) ∧ vec.length ≤ room netBSize k h := by
  induction trips generalizing k free nodes h vec with
  | zero =>
    obtain rfl := List.length_eq_zero_iff.mp (Nat.le_zero.mp enough)
    exact .inr ⟨k, free, h, nodes, rfl, ok, (List.append_nil _).symm, fits, MarksOf.refl k nodes,
      Kept.refl k _, fun some => absurd rfl some, Nat.zero_le _⟩
  | succ trips inductionHypothesis =>
    cases vec with
    | nil =>
      exact .inr ⟨k, free, h, nodes, rfl, ok, (List.append_nil _).symm, fits, MarksOf.refl k nodes,
        Kept.refl k _, fun some => absurd rfl some, Nat.zero_le _⟩
    | cons byte rest =>
      rcases ok.appendb size getblk fits with ⟨asleep, none⟩ |
        ⟨mid, between, p, grown, got, okMid, same, fitsMid, marksMid, short, keptMid, sameRoom⟩
      · refine .inl ⟨?_, ?_⟩
        · rw [Kerbuf.vectomsgFrom, asleep]
        · rw [none]
          exact Nat.succ_pos _
      · let moved := min (netBSize - mid.bLen p) (byte :: rest).length
        have positive : 0 < moved := Nat.lt_min.mpr ⟨Nat.sub_pos_of_lt short, Nat.succ_pos _⟩
        have most : moved ≤ (byte :: rest).length := Nat.min_le_right _ _
        have inBuf : moved ≤ netBSize - mid.bLen p := Nat.min_le_left _ _
        have taken : ((byte :: rest).take moved).length = moved := by
          rw [List.length_take, Nat.min_eq_left most]
        have behind : ((byte :: rest).drop moved).length = (byte :: rest).length - moved :=
          List.length_drop
        obtain ⟨okCopy, contentCopy, fitsCopy, keptCopy⟩ :=
          okMid.copyIn ((byte :: rest).take moved) fitsMid (by omega)
        have shrunk : room netBSize (Kerbuf.copyIn p ((byte :: rest).take moved) mid) (some p) +
            moved = room netBSize k h := by
          have length : (Kerbuf.copyIn p ((byte :: rest).take moved) mid).bLen p =
              mid.bLen p + moved := by
            show Function.update mid.bLen p _ p = _
            rw [update_self, taken]
          rw [← sameRoom]
          show netBSize - (Kerbuf.copyIn p _ mid).bLen p + netBSize * spare mid + moved =
            netBSize - mid.bLen p + netBSize * spare mid
          omega
        have fewer : ((byte :: rest).drop moved).length ≤ trips := by omega
        have goes : Kerbuf.vectomsgFrom netBSize getblk (trips + 1) (byte :: rest) h k =
            Kerbuf.vectomsgFrom netBSize getblk trips ((byte :: rest).drop moved) (some p)
              (Kerbuf.copyIn p ((byte :: rest).take moved) mid) := by
          rw [Kerbuf.vectomsgFrom, got]
        rw [goes]
        rcases inductionHypothesis fewer okCopy fitsCopy with ⟨asleep, few⟩ |
          ⟨next, left, last, later, run, okNext, whole, fitsNext, marks, kept, filled, enoughRoom⟩
        · exact .inl ⟨asleep, by omega⟩
        · refine .inr ⟨next, left, last, later, run, okNext, ?_, fitsNext, marksMid.trans marks,
            (keptMid.trans keptCopy).trans kept, fun _ none => ?_, by omega⟩
          · rw [whole, contentCopy, same, List.append_assoc, List.take_append_drop]
          · rw [none, contentCopy] at whole
            have empty := (List.append_eq_nil_iff.mp whole.symm).1
            rw [List.append_eq_nil_iff.mp empty |>.2] at taken
            exact absurd taken.symm positive.ne'

theorem Ok.vectomsg (size : 0 < netBSize) (getblk : Getblk) (vec : List (BitVec 8))
    (ok : Ok k free ((h, nodes) :: msgs)) (fits : Fits netBSize k nodes) :
    (Kerbuf.vectomsg netBSize getblk vec h k = .error .asleep ∧
        room netBSize k h < vec.length) ∨
      ∃ next left last later, Kerbuf.vectomsg netBSize getblk vec h k = .ok (next, last) ∧
        Ok next left ((last, later) :: msgs) ∧ content next later = content k nodes ++ vec ∧
        Fits netBSize next later ∧ MarksOf k nodes next later ∧ Kept k next (held msgs) ∧
        (vec ≠ [] → later ≠ []) ∧ vec.length ≤ room netBSize k h :=
  ok.vectomsgFrom size getblk (Nat.le_refl _) fits

theorem Ok.moveFirst {first : Nat} {rest : List Nat} (len : Nat) (data : Nat → BitVec 8)
    (ok : Ok k free ((h, first :: rest) :: msgs)) (fits : Fits netBSize k (first :: rest))
    (room : len ≤ netBSize) :
    let next := { k with
      bLen := Function.update k.bLen first len, bData := Function.update k.bData first data }
    Ok next free ((h, first :: rest) :: msgs) ∧
      content next (first :: rest) = bytes next first ++ content k rest ∧
      Fits netBSize next (first :: rest) ∧ Kept k next (held msgs) := by
  have ring := ok.msgRing _ List.mem_cons_self
  have apart (buf : Nat) (inside : buf ∈ rest) : buf ≠ first := by
    rintro rfl
    exact (List.nodup_cons.mp ring.nodup).1 inside
  refine ⟨ok.fields _ _ _ ok.clean, ?_, fun buf inside => ?_, fun buf inside => ?_, fun _ _ => rfl,
    fun buf inside => ?_⟩
  · rw [content, List.flatMap_cons]
    refine congrArg _ (content_congr fun buf inside => ?_)
    exact bytes_congr (update_of_ne (apart buf inside) _ _) (update_of_ne (apart buf inside) _ _)
  · by_cases here : buf = first
    · rw [here]
      exact Nat.le_trans (Nat.le_of_eq (update_self _ _ _)) room
    · exact Nat.le_trans (Nat.le_of_eq (update_of_ne here _ _)) (fits buf inside)
  all_goals
    refine update_of_ne ?_ _ _
    rintro rfl
    exact ok.apart_head inside List.mem_cons_self

theorem Ok.moveUp {first : Nat} {rest : List Nat} (taken : Nat)
    (ok : Ok k free ((h, first :: rest) :: msgs)) (fits : Fits netBSize k (first :: rest))
    (some : taken ≤ k.bLen first) :
    Ok (Kerbuf.moveUp first taken k) free ((h, first :: rest) :: msgs) ∧
      content (Kerbuf.moveUp first taken k) (first :: rest) =
        (content k (first :: rest)).drop taken ∧
      Fits netBSize (Kerbuf.moveUp first taken k) (first :: rest) ∧
      Kept k (Kerbuf.moveUp first taken k) (held msgs) := by
  obtain ⟨moved, text, fitsNext, kept⟩ := ok.moveFirst (k.bLen first - taken) _ fits
    (Nat.le_trans (Nat.sub_le _ _) (fits first List.mem_cons_self))
  refine ⟨moved, text.trans ?_, fitsNext, kept⟩
  show bytes (Kerbuf.moveUp first taken k) first ++ _ = _
  rw [bytes_moveUp_self, content, content, List.flatMap_cons, List.drop_append_of_le_length (by rwa [length_bytes])]

/-- What it is to take bytes from the front of a message: as many as there are come out in order,
the others are left, and the result tells how many more were asked for. No buffer is left empty but
for one that was. -/
def TakesFront (netBSize : Nat) (k : Kernel) (nodes : List Nat) (msgs : List Msg) (count : Nat)
    (result : Except Stop (Kernel × Option Nat × List (BitVec 8) × Nat)) : Prop :=
  ∃ next left later, result = .ok (next, later.getLast?, (content k nodes).take count,
      count - (content k nodes).length) ∧
    Ok next left ((later.getLast?, later) :: msgs) ∧
    content next later = (content k nodes).drop count ∧ Fits netBSize next later ∧
    MarksOf k nodes next later ∧ Kept k next (held msgs) ∧
    ((∀ buf ∈ nodes, 0 < k.bLen buf) → ∀ buf ∈ later, 0 < next.bLen buf)

theorem Ok.takes_none (ok : Ok k free ((h, nodes) :: msgs)) (fits : Fits netBSize k nodes)
    (done : content k nodes = [] ∨ count = 0) :
    TakesFront netBSize k nodes msgs count (.ok (k, h, [], count)) := by
  have handle : h = nodes.getLast? := (ok.msgRing _ List.mem_cons_self).held
  refine ⟨k, free, nodes, ?_, handle ▸ ok, ?_, fits, MarksOf.refl k nodes, Kept.refl k _, id⟩
  · rw [← handle]
    rcases done with empty | rfl
    · rw [empty, List.take_nil]
      rfl
    · rw [List.take_zero, Nat.zero_sub]
  · rcases done with empty | rfl
    · rw [empty, List.drop_nil]
    · rfl

theorem TakesFront.after {mid : Kernel} {size : Nat} {between : List Nat} {vec : List (BitVec 8)}
    {result : Except Stop (Kernel × Option Nat × List (BitVec 8) × Nat)}
    (takes : TakesFront netBSize mid between msgs (count - size) result)
    (kept : Kept k mid (held msgs)) (marks : MarksOf k nodes mid between)
    (solid : (∀ buf ∈ nodes, 0 < k.bLen buf) → ∀ buf ∈ between, 0 < mid.bLen buf)
    (whole : content k nodes = vec ++ content mid between) (some : vec.length = size)
    (few : size ≤ count) :
    TakesFront netBSize k nodes msgs count
      (result.map fun taken => (taken.1, taken.2.1, vec ++ taken.2.2.1, taken.2.2.2)) := by
  obtain ⟨next, left, later, rfl, okNext, rest, fits, marksNext, keptNext, solidNext⟩ := takes
  refine ⟨next, left, later, ?_, okNext, ?_, fits, marks.trans marksNext, kept.trans keptNext,
    solidNext ∘ solid⟩
  · show Except.ok _ = Except.ok _
    rw [whole, List.take_append, List.take_of_length_le (l := vec) (some ▸ few),
      List.length_append, some, Nat.sub_sub]
  · have past : vec.length ≤ count := some ▸ few
    rw [rest, whole, List.drop_append, List.drop_eq_nil_of_le past, some, List.nil_append]

theorem Ok.bytesoutFrom (bHyster : Nat) (enough : nodes.length ≤ trips)
    (ok : Ok k free ((h, nodes) :: msgs)) (fits : Fits netBSize k nodes) :
    TakesFront netBSize k nodes msgs count (Kerbuf.bytesoutFrom bHyster trips h count k) := by
  induction trips generalizing k free nodes h count with
  | zero =>
    obtain rfl := List.length_eq_zero_iff.mp (Nat.le_zero.mp enough)
    obtain rfl : h = none := (ok.msgRing _ List.mem_cons_self).none_iff.mpr rfl
    rw [Kerbuf.bytesoutFrom]
    exact ok.takes_none fits (.inl rfl)
  | succ trips inductionHypothesis =>
    cases h with
    | none =>
      obtain rfl := (ok.msgRing _ List.mem_cons_self).empty
      rw [Kerbuf.bytesoutFrom]
      exact ok.takes_none fits (.inl rfl)
    | some msg =>
      cases count with
      | zero =>
        rw [Kerbuf.bytesoutFrom]
        exact ok.takes_none fits (.inr rfl)
      | succ count =>
        obtain ⟨rest, isFirst⟩ := (ok.msgRing _ List.mem_cons_self).first
        generalize leads : k.bQlink msg = first at isFirst
        subst isFirst
        rw [Kerbuf.bytesoutFrom, leads]
        dsimp only
        have whole : content k (first :: rest) = bytes k first ++ content k rest :=
          List.flatMap_cons
        by_cases part : count + 1 < k.bLen first
        · obtain ⟨okUp, contentUp, fitsUp, keptUp⟩ :=
            ok.moveUp (count + 1) fits (Nat.le_of_lt part)
          rw [Nat.min_eq_left (Nat.le_of_lt part), if_pos (Nat.sub_pos_of_lt part)]
          have stops (more : Nat) (none : more = 0) :
              Kerbuf.bytesoutFrom bHyster trips (some msg) more
                (Kerbuf.moveUp first (count + 1) k) =
                  .ok (Kerbuf.moveUp first (count + 1) k, some msg, [], more) := by
            subst none
            cases trips <;> rfl
          have enoughBytes : count + 1 ≤ (bytes k first).length := by
            rw [length_bytes]
            exact Nat.le_of_lt part
          dsimp only
          rw [stops _ (Nat.sub_self _)]
          refine (okUp.takes_none fitsUp (.inr (Nat.sub_self _))).after keptUp
            (MarksOf.refl k _) (fun solid buf inside => ?_) ?_ ?_ (Nat.le_refl _)
          · by_cases here : buf = first
            · rw [here]
              show 0 < Function.update k.bLen first _ first
              rw [update_self]
              exact Nat.sub_pos_of_lt part
            · show 0 < Function.update k.bLen first _ buf
              rw [update_of_ne here]
              exact solid buf inside
          · rw [contentUp, whole, List.drop_append_of_le_length enoughBytes, ← List.append_assoc,
              List.take_append_drop]
          · rw [List.length_take, Nat.min_eq_left enoughBytes]
        · have all : k.bLen first ≤ count + 1 := Nat.le_of_not_lt part
          obtain ⟨next, left, freed, okNext, kept, -⟩ := ok.freebuf bHyster
          have within (buf : Nat) (inside : buf ∈ rest) : buf ∈ rest ++ held msgs :=
            List.mem_append_left _ inside
          have bytesTaken : (bytes k first).take (k.bLen first) = bytes k first :=
            List.take_of_length_le (Nat.le_of_eq (length_bytes k first))
          rw [Nat.min_eq_right all, if_neg (by omega), freed]
          dsimp only
          rw [bytesTaken]
          have fitsNext : Fits netBSize next rest :=
            kept.fits within (List.forall_mem_cons.mp fits).2
          refine (inductionHypothesis (Nat.le_of_succ_le_succ enough) okNext fitsNext).after
            (kept.mono fun buf inside => List.mem_append_right _ inside) ?_
            (fun solid buf inside => ?_) ?_ (length_bytes k first) all
          · intro buf inside marked
            exact (kept.marksOf within buf inside marked).imp_left (List.mem_cons_of_mem _)
          · rw [kept.bLen buf (within buf inside)]
            exact solid buf (List.mem_cons_of_mem _ inside)
          · rw [whole, kept.content within]

theorem Ok.bytesout (bHyster count : Nat) (ok : Ok k free ((h, nodes) :: msgs))
    (fits : Fits netBSize k nodes) :
    TakesFront netBSize k nodes msgs count (Kerbuf.bytesout bHyster h count k) := by
  refine ok.bytesoutFrom bHyster (Nat.le_trans ?_ (Nat.le_succ_of_le ok.length_le)) fits
  rw [held_cons]
  simp only [List.length_append]
  omega

/-- Two messages are made one. -/
def Joins (netBSize : Nat) (k : Kernel) (front back : List Nat) (msgs : List Msg)
    (result : Except Stop (Kernel × Option Nat)) : Prop :=
  ∃ next left last later, result = .ok (next, last) ∧ Ok next left ((last, later) :: msgs) ∧
    content next later = content k front ++ content k back ∧ Fits netBSize next later ∧
    MarksOf k (front ++ back) next later ∧ Kept k next (held msgs) ∧
    (front ++ back ≠ [] → later ≠ [])

/-- The loop of `catmsg` moves buffers of the second message to the first one as long as they fit
in its last buffer. -/
theorem Ok.catmsgFrom (bHyster : Nat) {msg1 msg2 : Nat} {front back : List Nat}
    (enough : back.length ≤ trips)
    (ok : Ok k free ((some msg1, front) :: (some msg2, back) :: msgs))
    (fits : Fits netBSize k front) (fits' : Fits netBSize k back) :
    Joins netBSize k front back msgs (Kerbuf.catmsgFrom netBSize bHyster trips msg1 msg2 k) := by
  have ring := ok.msgRing _ List.mem_cons_self
  induction trips generalizing k free msg2 back with
  | zero =>
    obtain rfl := List.length_eq_zero_iff.mp (Nat.le_zero.mp enough)
    have isLast := (ok.msgRing _ (List.mem_cons_of_mem _ List.mem_cons_self)).last_mem
    exact absurd isLast List.not_mem_nil
  | succ trips inductionHypothesis =>
    obtain ⟨rest, isFirst⟩ := (ok.msgRing _ (List.mem_cons_of_mem _ List.mem_cons_self)).first
    generalize leads : k.bQlink msg2 = first at isFirst
    subst isFirst
    rw [Kerbuf.catmsgFrom, leads]
    by_cases room : netBSize - k.bLen msg1 ≥ k.bLen first
    · rw [if_pos room]
      have length := length_bytes k first
      have lastFits := fits msg1 ring.last_mem
      obtain ⟨okCopy, contentCopy, fitsCopy, keptCopy⟩ :=
        ok.copyIn (bytes k first) fits (by omega)
      have inBack (buf : Nat) (inside : buf ∈ rest) :
          buf ∈ held ((some msg2, first :: rest) :: msgs) := by
        rw [held_cons]
        exact List.mem_append_left _ (List.mem_cons_of_mem _ inside)
      obtain ⟨next, left, freed, okNext, kept, -⟩ :=
        (okCopy.perm (List.Perm.swap _ _ _)).freebuf bHyster
      rw [held_cons] at kept
      have inRest (buf : Nat) (inside : buf ∈ rest) : buf ∈ rest ++ (front ++ held msgs) :=
        List.mem_append_left _ inside
      have inFront (buf : Nat) (inside : buf ∈ front) : buf ∈ rest ++ (front ++ held msgs) :=
        List.mem_append_right _ (List.mem_append_left _ inside)
      have keptOthers : Kept k next (held msgs) := by
        refine (keptCopy.mono fun buf inside => ?_).trans (kept.mono fun buf inside => ?_)
        · rw [held_cons]
          exact List.mem_append_right _ inside
        · exact List.mem_append_right _ (List.mem_append_right _ inside)
      have contentFront : content next front = content k front ++ bytes k first :=
        (kept.content inFront).trans contentCopy
      have whole : content k (first :: rest) = bytes k first ++ content k rest := List.flatMap_cons
      have marksNext : MarksOf k (front ++ first :: rest) next (front ++ rest) := by
        intro buf inside marked
        rcases List.mem_append.mp inside with inside | inside
        · exact (kept.marksOf inFront buf inside marked).imp_left (List.mem_append_left _)
        · exact (kept.marksOf inRest buf inside marked).imp_left fun here =>
            List.mem_append_right _ (List.mem_cons_of_mem _ here)
      rw [freed]
      cases rest with
      | nil =>
        rw [List.append_nil] at marksNext
        refine ⟨next, left, some msg1, front, rfl, okNext.tail_nil, ?_, kept.fits inFront fitsCopy,
          marksNext, keptOthers, ?_⟩
        · rw [contentFront, whole, show content k [] = [] from rfl, List.append_nil]
        · exact fun _ => List.ne_nil_of_mem ring.last_mem
      | cons second others =>
        have handle : (second :: others).getLast? =
            some ((second :: others).getLast (List.cons_ne_nil _ _)) :=
          List.getLast?_eq_getLast_of_ne_nil _
        rw [handle] at okNext ⊢
        dsimp only
        have okSwap := okNext.perm (List.Perm.swap _ _ _)
        obtain ⟨last, between, final, later, run, okLast, contentLast, fitsLast, marksLast,
            keptLast, filled⟩ :=
          inductionHypothesis (Nat.le_of_succ_le_succ enough) okSwap (kept.fits inFront fitsCopy)
            (kept.fits inRest ((keptCopy.fits inBack) fun buf inside =>
              fits' buf (List.mem_cons_of_mem _ inside)))
            (okSwap.msgRing _ List.mem_cons_self)
        refine ⟨last, between, final, later, run, okLast, ?_, fitsLast, marksNext.trans marksLast,
          keptOthers.trans keptLast, ?_⟩
        · rw [contentLast, contentFront, whole, kept.content inRest, keptCopy.content inBack,
            List.append_assoc]
        · exact fun _ => filled (List.append_ne_nil_of_right_ne_nil _ (List.cons_ne_nil _ _))
    · rw [if_neg room]
      refine ⟨_, free, some msg2, front ++ first :: rest, rfl, ok.splice, ?_, ?_,
        fun buf inside marked => ⟨inside, marked⟩, ?_, id⟩
      · exact content_append k front (first :: rest)
      · intro buf inside
        rcases List.mem_append.mp inside with inside | inside
        · exact fits buf inside
        · exact fits' buf inside
      · exact (Kept.refl k _).relink _

theorem Ok.catmsg (bHyster : Nat) {h' : Option Nat} {front back : List Nat}
    (ok : Ok k free ((h, front) :: (h', back) :: msgs)) (fits : Fits netBSize k front)
    (fits' : Fits netBSize k back) :
    Joins netBSize k front back msgs (Kerbuf.catmsg netBSize bHyster h h' k) := by
  have ring := ok.msgRing _ List.mem_cons_self
  have ring' := ok.msgRing _ (List.mem_cons_of_mem _ List.mem_cons_self)
  unfold Kerbuf.catmsg
  cases h' with
  | none =>
    obtain rfl := ring'.empty
    refine ⟨k, free, h, front, rfl, (ok.perm (List.Perm.swap _ _ _)).tail_nil, ?_, fits, ?_,
      Kept.refl k _, fun some => by rwa [List.append_nil] at some⟩
    · exact (List.append_nil _).symm
    · rw [List.append_nil]
      exact MarksOf.refl k front
  | some msg2 =>
    cases h with
    | none =>
      obtain rfl := ring.empty
      exact ⟨k, free, some msg2, back, rfl, ok.tail_nil, rfl, fits', MarksOf.refl k back,
        Kept.refl k _, id⟩
    | some msg1 =>
      refine ok.catmsgFrom bHyster (Nat.le_trans ?_ (Nat.le_succ_of_le ok.length_le)) fits fits'
      rw [held_cons, held_cons]
      simp only [List.length_append]
      omega

/-! ### A vector before a message -/

theorem Ok.cons_nil (ok : Ok k free msgs) : Ok k free ((none, []) :: msgs) :=
  ok.relink ok.freeRing
    (fun msg member => by
      rcases List.mem_cons.mp member with rfl | member
      · exact shape_empty _
      · exact ok.msgRing msg member)
    (by rw [held_cons]; exact List.Perm.refl _)

theorem Ok.moveInFront {first : Nat} {rest : List Nat} (vec : List (BitVec 8))
    (ok : Ok k free ((h, first :: rest) :: msgs)) (fits : Fits netBSize k (first :: rest))
    (room : k.bLen first + vec.length ≤ netBSize) :
    Ok (Kerbuf.moveInFront vec first k) free ((h, first :: rest) :: msgs) ∧
      content (Kerbuf.moveInFront vec first k) (first :: rest) =
        vec ++ content k (first :: rest) ∧
      Fits netBSize (Kerbuf.moveInFront vec first k) (first :: rest) ∧
      Kept k (Kerbuf.moveInFront vec first k) (held msgs) := by
  obtain ⟨moved, text, fitsNext, kept⟩ := ok.moveFirst _ _ fits room
  refine ⟨moved, text.trans ?_, fitsNext, kept⟩
  show bytes (Kerbuf.moveInFront vec first k) first ++ _ = _
  rw [bytes_moveInFront_self, content, content, List.flatMap_cons, List.append_assoc]

/-- What it is to have a vector before a message. -/
def Fronted (netBSize : Nat) (k : Kernel) (vec : List (BitVec 8)) (nodes : List Nat)
    (msgs : List Msg) (result : Except Stop (Kernel × Option Nat)) : Prop :=
  ∃ next left last later, result = .ok (next, last) ∧ Ok next left ((last, later) :: msgs) ∧
    content next later = vec ++ content k nodes ∧ Fits netBSize next later ∧
    MarksOf k nodes next later ∧ Kept k next (held msgs) ∧
    (vec ≠ [] ∨ nodes ≠ [] → later ≠ [])

theorem Ok.prepend (size : 0 < netBSize) (bHyster : Nat) (getblk : Getblk) (vec : List (BitVec 8))
    (ok : Ok k free ((h, nodes) :: msgs)) (fits : Fits netBSize k nodes) :
    (Kerbuf.prepend netBSize bHyster getblk vec h k = .error .asleep ∧
        netBSize * spare k < vec.length) ∨
      Fronted netBSize k vec nodes msgs (Kerbuf.prepend netBSize bHyster getblk vec h k) := by
  have built (some : vec ≠ []) :
      let built := match Kerbuf.vectomsg netBSize getblk vec none k with
        | .error stop => .error stop
        | .ok (k, newmsg) => Kerbuf.catmsg netBSize bHyster newmsg h k
      (built = .error .asleep ∧ netBSize * spare k < vec.length) ∨
        Fronted netBSize k vec nodes msgs built := by
    dsimp only
    have same : room netBSize k none = netBSize * spare k := Nat.zero_add _
    rcases ok.cons_nil.vectomsg size getblk vec
        (fun _ inside => absurd inside List.not_mem_nil) with ⟨asleep, few⟩ |
      ⟨mid, between, new, front, run, okMid, contentMid, fitsMid, marksMid, keptMid, filled, -⟩
    · rw [asleep]
      exact .inl ⟨rfl, same ▸ few⟩
    · rw [held_cons] at keptMid
      have within (buf : Nat) (inside : buf ∈ nodes) : buf ∈ nodes ++ held msgs :=
        List.mem_append_left _ inside
      obtain ⟨next, left, last, later, join, okNext, whole, fitsNext, marks, kept, more⟩ :=
        okMid.catmsg bHyster fitsMid (keptMid.fits within fits)
      rw [run]
      refine .inr ⟨next, left, last, later, join, okNext, ?_, fitsNext, ?_,
        (keptMid.mono fun buf inside => List.mem_append_right _ inside).trans kept, fun _ => ?_⟩
      · rw [whole, contentMid, keptMid.content within]
        rfl
      · intro buf inside marked
        obtain ⟨inside, marked⟩ := marks buf inside marked
        rcases List.mem_append.mp inside with inside | inside
        · exact absurd (marksMid buf inside marked).1 List.not_mem_nil
        · exact keptMid.marksOf within buf inside marked
      · exact more (List.append_ne_nil_of_left_ne_nil (filled some) _)
  unfold Kerbuf.prepend
  by_cases empty : vec = []
  · rw [if_pos empty]
    refine .inr ⟨k, free, h, nodes, rfl, ok, ?_, fits, MarksOf.refl k nodes, Kept.refl k _,
      fun some => some.resolve_left (not_not_intro empty)⟩
    rw [empty]
    rfl
  · rw [if_neg empty]
    cases h with
    | none => exact built empty
    | some msgp =>
      dsimp only
      by_cases short : k.bLen (k.bQlink msgp) + vec.length ≤ netBSize
      · obtain ⟨rest, isFirst⟩ := (ok.msgRing _ List.mem_cons_self).first
        generalize leads : k.bQlink msgp = first at isFirst short
        subst isFirst
        obtain ⟨okMoved, contentMoved, fitsMoved, keptMoved⟩ := ok.moveInFront vec fits short
        rw [if_pos short]
        exact .inr ⟨_, free, some msgp, first :: rest, rfl, okMoved, contentMoved, fitsMoved,
          fun _ inside marked => ⟨inside, marked⟩, keptMoved, fun _ => List.cons_ne_nil _ _⟩
      · rw [if_neg short]
        exact built empty

/-- What it is to be put at the end of a queue of messages: the buffers of the queue come first and
keep what they hold, then the vector and the message, whose last buffer is marked. -/
def Queued (netBSize : Nat) (k : Kernel) (queue : List Nat) (vec : List (BitVec 8))
    (nodes : List Nat) (msgs : List Msg) (result : Except Stop (Kernel × Option Nat)) : Prop :=
  ∃ next left last later, result = .ok (next, some last) ∧
    Ok next left ((some last, queue ++ later) :: msgs) ∧
    content next later = vec ++ content k nodes ∧ Fits netBSize next later ∧
    Kept k next (queue ++ held msgs) ∧ last ∈ later ∧ next.bEom last = true ∧
    ∀ buf ∈ later, next.bEom buf = true → buf = last ∨ buf ∈ nodes ∧ k.bEom buf = true

theorem Ok.msgQ (size : 0 < netBSize) (bHyster : Nat) (getblk : Getblk) (vec : List (BitVec 8))
    {q : Option Nat} {queue : List Nat} (ok : Ok k free ((h, nodes) :: (q, queue) :: msgs))
    (fits : Fits netBSize k nodes) (some : vec ≠ [] ∨ nodes ≠ []) :
    (Kerbuf.msgQ netBSize bHyster getblk q vec h k = .error .asleep ∧
        netBSize * spare k < vec.length) ∨
      Queued netBSize k queue vec nodes msgs (Kerbuf.msgQ netBSize bHyster getblk q vec h k) := by
  rw [Kerbuf.msgQ]
  rcases ok.prepend size bHyster getblk vec fits with ⟨asleep, few⟩ |
    ⟨mid, left, last, later, run, okMid, whole, fitsMid, marks, kept, filled⟩
  · rw [asleep]
    exact .inl ⟨rfl, few⟩
  · have nonempty := filled some
    have ring := okMid.msgRing _ List.mem_cons_self
    obtain ⟨p, isLast⟩ : ∃ p, last = .some p :=
      Option.ne_none_iff_exists'.mp fun none => nonempty (ring.none_iff.mp none)
    subst isLast
    rw [held_cons] at kept
    let eoms := Function.update mid.bEom p true
    have apart (buf : Nat) (inside : buf ∈ queue ++ held msgs) : eoms buf = mid.bEom buf := by
      refine update_of_ne ?_ _ _
      rintro rfl
      exact okMid.apart_head (by rwa [held_cons]) ring.last_mem
    have keptMarked : Kept k { mid with bEom := eoms } (queue ++ held msgs) :=
      kept.trans ⟨fun _ _ => rfl, apart, fun _ _ => rfl⟩
    have clean (buf : Nat) (isFree : buf ∈ left) : eoms buf = false := by
      refine (update_of_ne ?_ _ _).trans (okMid.clean buf isFree)
      rintro rfl
      exact okMid.not_free List.mem_cons_self ring.last_mem isFree
    have okMarked := (okMid.fields mid.bLen eoms mid.bData clean).perm (List.Perm.swap _ _ _)
    have marked : eoms p = true := update_self _ _ _
    have only (buf : Nat) (inside : buf ∈ later) (isMarked : eoms buf = true) :
        buf = p ∨ buf ∈ nodes ∧ k.bEom buf = true := by
      by_cases here : buf = p
      · exact .inl here
      · exact .inr (marks buf inside ((update_of_ne here _ _).symm.trans isMarked))
    rw [run]
    right
    cases q with
    | none =>
      obtain rfl := (okMarked.msgRing _ List.mem_cons_self).empty
      exact ⟨_, left, p, later, rfl, okMarked.tail_nil, whole, fitsMid, keptMarked, ring.last_mem,
        marked, only⟩
    | some newmsg =>
      exact ⟨_, left, p, later, rfl, okMarked.splice, whole, fitsMid, keptMarked.relink _,
        ring.last_mem, marked, only⟩

/-! ### Messages as queues of bytes -/

/-- A message is the queue of the bytes of its buffers, and every buffer of the pool stays free or
in one message. -/
theorem byte_queues {netBSize : Nat} (size : 0 < netBSize) (bHyster : Nat) (getblk : Getblk)
    {h' : Option Nat} {others : List Nat}
    (ok : Ok k free ((h, nodes) :: (h', others) :: msgs)) (fits : Fits netBSize k nodes)
    (fits' : Fits netBSize k others) (vec : List (BitVec 8)) (count : Nat) :
    ((Kerbuf.vectomsg netBSize getblk vec h k = .error .asleep ∧
        room netBSize k h < vec.length) ∨
      ∃ next left last later, Kerbuf.vectomsg netBSize getblk vec h k = .ok (next, last) ∧
        Ok next left ((last, later) :: (h', others) :: msgs) ∧
        content next later = content k nodes ++ vec ∧ Fits netBSize next later ∧
        Kept k next (others ++ held msgs)) ∧
    TakesFront netBSize k nodes ((h', others) :: msgs) count
      (Kerbuf.bytesout bHyster h count k) ∧
    Joins netBSize k nodes others msgs (Kerbuf.catmsg netBSize bHyster h h' k) ∧
    (vec ≠ [] ∨ nodes ≠ [] →
      (Kerbuf.msgQ netBSize bHyster getblk h' vec h k = .error .asleep ∧
        netBSize * spare k < vec.length) ∨
      Queued netBSize k others vec nodes msgs
        (Kerbuf.msgQ netBSize bHyster getblk h' vec h k)) := by
  refine ⟨?_, ok.bytesout bHyster count fits, ok.catmsg bHyster fits fits',
    ok.msgQ size bHyster getblk vec fits⟩
  rcases ok.vectomsg size getblk vec fits with asleep |
    ⟨next, left, last, later, run, okNext, whole, fitsNext, -, kept, -⟩
  · exact .inl asleep
  · rw [held_cons] at kept
    exact .inr ⟨next, left, last, later, run, okNext, whole, fitsNext, kept⟩

/-- A system that gives the addresses above those of the pool. -/
def Getblk.above : Getblk where
  pick k := (List.range netBPerKB).map ((owned k).sum + 1 + ·)
  size k := by rw [List.length_map, List.length_range]
  nodup k := List.nodup_range.map fun i j same => Nat.add_left_cancel same
  fresh k buf inside isOwned := by
    obtain ⟨i, -, rfl⟩ := List.mem_map.mp inside
    exact absurd (List.le_sum_of_mem isOwned) (by omega)

/-- A pool of one kernel buffer with two messages of one buffer each. -/
def pair : Kernel where
  bQlink buf := if buf < 2 then buf else if buf = 7 then 2 else buf + 1
  bLen buf := if buf = 0 then 3 else if buf = 1 then 2 else 0
  bMember _ := 0
  bEom _ := false
  bData buf i := BitVec.ofNat 8 (10 * buf + i)
  kb i := if i = 0 then some ⟨[0, 1, 2, 3, 4, 5, 6, 7], 6⟩ else none
  bAlloc := 1
  bCntfree := 6
  bFreel := some 7

theorem pair_kb {i : Nat} {b : Kbuf} (there : pair.kb i = some b) :
    i = 0 ∧ b = ⟨[0, 1, 2, 3, 4, 5, 6, 7], 6⟩ := by
  by_cases here : i = 0
  · subst here
    exact ⟨rfl, (Option.some_inj.mp there).symm⟩
  · exact absurd ((if_neg here).symm.trans there) (Option.some_ne_none b).symm

theorem pair_ok : Ok pair [2, 3, 4, 5, 6, 7] [(some 0, [0]), (some 1, [1])] where
  freeRing := ⟨rfl, by decide, fun node same => by
    rw [← Option.some_inj.mp same]
    exact ⟨rfl, rfl, rfl, rfl, rfl, rfl, trivial⟩⟩
  msgRing msg member := by
    rcases List.mem_cons.mp member with rfl | member
    · exact ⟨rfl, List.nodup_singleton 0, fun node same => by
        rw [← Option.some_inj.mp same]
        exact ⟨rfl, trivial⟩⟩
    · rw [List.mem_singleton.mp member]
      exact ⟨rfl, List.nodup_singleton 1, fun node same => by
        rw [← Option.some_inj.mp same]
        exact ⟨rfl, trivial⟩⟩
  all := by decide
  nodup := by decide
  size i b there := by
    obtain ⟨rfl, rfl⟩ := pair_kb there
    exact ⟨by decide, rfl⟩
  member i b there buf inside := (pair_kb there).1.symm
  freect i b there := by
    obtain ⟨rfl, rfl⟩ := pair_kb there
    rfl
  alloc := rfl
  cntfree := rfl
  clean _ _ := rfl

/-- The three bytes of one message, of which five are asked for, are taken, and it is put behind the
other one with two bytes in front. -/
theorem byte_queues_pair :
    Joins 60 pair [0] [1] [] (Kerbuf.catmsg 60 3 (some 0) (some 1) pair) ∧
      TakesFront 60 pair [0] [(some 1, [1])] 5 (Kerbuf.bytesout 3 (some 0) 5 pair) ∧
      Queued 60 pair [1] [1, 2] [0] [] (Kerbuf.msgQ 60 3 Getblk.above (some 1) [1, 2] (some 0)
        pair) := by
  have all := byte_queues (show 0 < 60 by decide) 3 Getblk.above pair_ok
    (fun buf inside => by
      rw [List.mem_singleton.mp inside]
      decide)
    (fun buf inside => by
      rw [List.mem_singleton.mp inside]
      decide) [1, 2] 5
  refine ⟨all.2.2.1, all.2.1, (all.2.2.2 (.inr (List.cons_ne_nil 0 []))).resolve_left ?_⟩
  rintro ⟨-, few⟩
  exact absurd few (by decide)

end NetworkUnix.Ncpk.Kerbuf
