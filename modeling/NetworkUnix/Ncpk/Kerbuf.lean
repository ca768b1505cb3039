/-
This file models the kernel's pool of network buffers and the messages made of
them. A kernel buffer is chopped into eight network buffers; the free ones are on
one ring, and every message is a ring of its own. Kernel buffers are taken from
the system when no network buffer is free, and given back when too many are.

Buffers are known by their addresses. A kernel buffer is kept with the list of
the network buffers in it. A routine that has to sleep for a buffer, and one that
would follow a null pointer or go round for ever, stop with no result: there are
forty buffers at most, so no loop over the buffers of a ring takes more trips.
-/

import NetworkUnix.Lib.TailRing
import Mathlib.Data.List.Perm.Basic

namespace NetworkUnix.Ncpk.Kerbuf

open Function TailRing

/-! ### The pool -/

/-- Max number of kernel bufs we can get. -/
def kbHiwat : Nat := 5

/-- Number of netbufs to one kernel buf. -/
def netBPerKB : Nat := 8

/-- A bound for the trips of a loop over the buffers of a ring. -/
def mostBufs : Nat := kbHiwat * netBPerKB

/-- A kernel buffer: the network buffers that it is chopped into, and how many of them are free. -/
structure Kbuf where
  bufs : List Nat
  bFreect : Nat

/-- The fields of the network buffers, and the state of the buffer system. `b_resv` is kept as the
index of the kernel buffer and the mark for the end of a message. -/
structure Kernel where
  bQlink : Nat → Nat
  bLen : Nat → Nat
  bMember : Nat → Nat
  bEom : Nat → Bool
  bData : Nat → Nat → BitVec 8
  kb : Nat → Option Kbuf
  bAlloc : Nat
  bCntfree : Nat
  bFreel : Option Nat

/-- The network buffers of the kernel buffer in a place of the table. -/
def bufsAt (k : Kernel) (index : Nat) : List Nat := ((k.kb index).map Kbuf.bufs).getD []

/-- All network buffers of the pool. -/
def owned (k : Kernel) : List Nat := (List.range kbHiwat).flatMap (bufsAt k)

/-- Why a routine gives no result. -/
inductive Stop
  | asleep
  | lost

/-- A kernel buffer from the system: its network buffers are in no kernel buffer of the pool. -/
structure Getblk where
  pick : Kernel → List Nat
  size : ∀ k, (pick k).length = netBPerKB
  nodup : ∀ k, (pick k).Nodup
  fresh : ∀ k, ∀ buf ∈ pick k, buf ∉ owned k

section Routines

variable (netBSize bHyster : Nat) (getblk : Getblk)

/-! ### Rings of buffers -/

/-- Delink the buffer behind `prevbp`; what is left is the message before it. -/
def ifreebuf (prevbp : Nat) (k : Kernel) : Kernel × Option Nat :=
  ({ k with bQlink := unlink k.bQlink prevbp }, remaining k.bQlink prevbp)

/-- Link a buffer onto a message; it is the new last buffer. -/
def linkbuf (bufp : Nat) (msgp : Option Nat) (k : Kernel) : Kernel :=
  { k with bQlink := put k.bQlink bufp msgp }

/-! ### Freeing -/

/-- The count of free buffers of a kernel buffer changes. -/
def countFree (k : Kernel) (index : Nat) (change : Nat → Nat) : Nat → Option Kbuf :=
  Function.update k.kb index ((k.kb index).map fun b => { b with bFreect := change b.bFreect })

/-- Add a free buffer to the free list. -/
def freeb (bufp : Nat) (k : Kernel) : Kernel :=
  { linkbuf bufp k.bFreel k with
    bEom := Function.update k.bEom bufp false
    kb := countFree k (k.bMember bufp) (· + 1)
    bFreel := some bufp
    bCntfree := k.bCntfree + 1 }

/-- The search of the free list for the buffers of one kernel buffer, of which `found` are still to
be found. -/
def pullOut (index : Nat) : (trips found : Nat) → Nat → Option Nat → Kernel →
    Except Stop (Kernel × Option Nat)
  | _, 0, _, newfreelist, k => .ok (k, newfreelist)
  | 0, _ + 1, _, _, _ => .error .lost
  | trips + 1, found + 1, prev, newfreelist, k =>
    let bufp := k.bQlink prev
    if k.bMember bufp = index then
      let freed := ifreebuf prev { k with bLen := Function.update k.bLen bufp 0 }
      pullOut index trips found prev freed.2 freed.1
    else pullOut index trips (found + 1) bufp newfreelist k

/-- Give one kernel buffer back if all its network buffers are free. -/
def releaseKb (k : Kernel) (index : Nat) : Except Stop Kernel :=
  match k.kb index, k.bFreel with
  | none, _ => .ok k
  | some b, freel =>
    if b.bFreect = netBPerKB then
      match freel with
      | none => .error .lost
      | some prev =>
        match pullOut index mostBufs netBPerKB prev none k with
        | .error stop => .error stop
        | .ok (k, newfreelist) =>
          .ok { k with
            bFreel := newfreelist
            kb := Function.update k.kb index none
            bAlloc := k.bAlloc - 1
            bCntfree := k.bCntfree - netBPerKB }
    else .ok k

/-- Free kernel buffers if there are more free network buffers than are required. -/
def freekb (k : Kernel) : Except Stop Kernel :=
  if k.bCntfree > bHyster * netBPerKB then (List.range kbHiwat).foldlM releaseKb k else .ok k

/-- Free the buffer behind `prevbp`; what is left is the message. -/
def freebuf (prevbp : Option Nat) (k : Kernel) : Except Stop (Kernel × Option Nat) :=
  match prevbp with
  | none => .ok (k, none)
  | some prev =>
    let freedbuf := k.bQlink prev
    let left := ifreebuf prev k
    (freekb bHyster (freeb freedbuf left.1)).map fun k => (k, left.2)

def freemsgFrom : Nat → Option Nat → Kernel → Except Stop Kernel
  | _, none, k => .ok k
  | 0, some _, _ => .error .lost
  | trips + 1, some msg, k =>
    match freebuf bHyster (some msg) k with
    | .error stop => .error stop
    | .ok (k, msg) => freemsgFrom trips msg k

/-- Totally reclaim a message. -/
def freemsg (msgp : Option Nat) (k : Kernel) : Except Stop Kernel :=
  freemsgFrom bHyster mostBufs msgp k

/-! ### Getting -/

/-- Every network buffer of a kernel buffer is added to the free list. -/
def chop (index : Nat) (bufs : List Nat) (k : Kernel) : Kernel :=
  bufs.foldl (fun k dbufp =>
    freeb dbufp { k with bMember := Function.update k.bMember dbufp index }) k

/-- Get a kernel buffer and chop it up into smaller network buffers linked into the free list. -/
def getkb (k : Kernel) : Except Stop Kernel :=
  if k.bAlloc ≥ kbHiwat then .ok k
  else
    match (List.range kbHiwat).find? fun index => (k.kb index).isNone with
    | none => .error .lost
    | some index =>
      let bufs := getblk.pick k
      .ok (chop index bufs { k with
        bAlloc := k.bAlloc + 1
        kb := Function.update k.kb index (some ⟨bufs, 0⟩) })

/-- Take the first buffer of the free list. -/
def takeFree (freel : Nat) (k : Kernel) : Kernel × Nat :=
  let freedbuf := k.bQlink freel
  let left := ifreebuf freel { k with
    kb := countFree k (k.bMember freedbuf) (· - 1)
    bCntfree := k.bCntfree - 1 }
  ({ left.1 with
      bFreel := left.2
      bLen := Function.update k.bLen freedbuf 0
      bQlink := Function.update left.1.bQlink freedbuf freedbuf }, freedbuf)

/-- Get a buffer, pointed at itself. -/
def getbuf (k : Kernel) : Except Stop (Kernel × Nat) :=
  match k.bFreel with
  | some freel => .ok (takeFree freel k)
  | none =>
    match getkb getblk k with
    | .error stop => .error stop
    | .ok k =>
      match k.bFreel with
      | some freel => .ok (takeFree freel k)
      | none => .error .asleep

/-- Return some space at the end of a message to put some data in. -/
def appendb (msg : Option Nat) (k : Kernel) : Except Stop (Kernel × Nat) :=
  let another := match getbuf getblk k with
    | .error stop => .error stop
    | .ok (k, bp) => .ok (linkbuf bp msg k, bp)
  match msg with
  | some msgp => if k.bLen msgp < netBSize then .ok (k, msgp) else another
  | none => another

end Routines

/-! ### What holds of the pool -/

/-- A message: its handle, and its buffers in order. -/
abbrev Msg := Option Nat × List Nat

/-- The buffers of some messages. -/
def held (msgs : List Msg) : List Nat := (msgs.map Prod.snd).flatten

/-- The free list is a ring and so is every message. Every buffer of the pool is free or in one
message, the counts are right, and no free buffer is marked as the end of a message. -/
structure Ok (k : Kernel) (free : List Nat) (msgs : List Msg) : Prop where
  freeRing : Shape k.bQlink k.bFreel free
  msgRing : ∀ msg ∈ msgs, Shape k.bQlink msg.1 msg.2
  all : (free ++ held msgs).Perm (owned k)
  nodup : (owned k).Nodup
  size : ∀ i b, k.kb i = some b → i < kbHiwat ∧ b.bufs.length = netBPerKB
  member : ∀ i b, k.kb i = some b → ∀ buf ∈ b.bufs, k.bMember buf = i
  freect : ∀ i b, k.kb i = some b → b.bFreect = free.countP fun buf => k.bMember buf = i
  alloc : k.bAlloc = (List.range kbHiwat).countP fun i => (k.kb i).isSome
  cntfree : k.bCntfree = free.length
  clean : ∀ buf ∈ free, k.bEom buf = false

variable {k next : Kernel} {free nodes : List Nat} {msgs : List Msg} {h : Option Nat}

theorem held_cons (msg : Msg) (msgs : List Msg) : held (msg :: msgs) = msg.2 ++ held msgs := by
  rw [held, List.map_cons, List.flatten_cons]
  rfl

theorem mem_held {buf : Nat} : buf ∈ held msgs ↔ ∃ msg ∈ msgs, buf ∈ msg.2 := by
  rw [held, List.mem_flatten]
  constructor
  · rintro ⟨nodes, inside, here⟩
    obtain ⟨msg, member, rfl⟩ := List.mem_map.mp inside
    exact ⟨msg, member, here⟩
  · rintro ⟨msg, member, here⟩
    exact ⟨msg.2, List.mem_map_of_mem member, here⟩

theorem Ok.apart (ok : Ok k free msgs) : (free ++ held msgs).Nodup := ok.all.nodup_iff.mpr ok.nodup

theorem Ok.head_apart (ok : Ok k free ((h, nodes) :: msgs)) {buf : Nat} (inside : buf ∈ nodes) :
    buf ∉ free ∧ ∀ msg ∈ msgs, buf ∉ msg.2 := by
  have apart := ok.apart
  rw [held_cons] at apart
  obtain ⟨-, later, split⟩ := List.nodup_append.mp apart
  obtain ⟨-, -, others⟩ := List.nodup_append.mp later
  exact ⟨fun isFree => split buf isFree buf (List.mem_append_left _ inside) rfl,
    fun msg member here => others buf inside buf (mem_held.mpr ⟨msg, member, here⟩) rfl⟩

theorem Ok.others (ok : Ok k free ((h, nodes) :: msgs)) {links : Nat → Nat}
    (same : ∀ buf, buf ∉ nodes → links buf = k.bQlink buf) :
    Shape links k.bFreel free ∧ ∀ msg ∈ msgs, Shape links msg.1 msg.2 := by
  refine ⟨ok.freeRing.congr fun buf isFree => same buf fun inside => ?_, fun msg member => ?_⟩
  · exact (ok.head_apart inside).1 isFree
  · exact (ok.msgRing msg (List.mem_cons_of_mem _ member)).congr fun buf here =>
      same buf fun inside => (ok.head_apart inside).2 msg member here

theorem owned_congr (same : ∀ i, bufsAt next i = bufsAt k i) : owned next = owned k :=
  congrArg (List.flatMap · (List.range kbHiwat)) (funext same)

theorem Ok.relink (ok : Ok k free msgs) {links : Nat → Nat} {later : List Msg}
    (freeRing : Shape links k.bFreel free) (msgRing : ∀ msg ∈ later, Shape links msg.1 msg.2)
    (same : (held later).Perm (held msgs)) : Ok { k with bQlink := links } free later where
  freeRing := freeRing
  msgRing := msgRing
  all := (same.append_left free).trans ok.all
  nodup := ok.nodup
  size := ok.size
  member := ok.member
  freect := ok.freect
  alloc := ok.alloc
  cntfree := ok.cntfree
  clean := ok.clean

theorem Ok.ifreebuf {prev first : Nat} {rest : List Nat}
    (ok : Ok k free ((some prev, first :: rest) :: msgs)) :
    k.bQlink prev = first ∧
      Ok (Kerbuf.ifreebuf prev k).1 free
        ((some first, [first]) :: ((Kerbuf.ifreebuf prev k).2, rest) :: msgs) := by
  have ring := ok.msgRing _ List.mem_cons_self
  obtain ⟨leads, left⟩ := ring.unlink
  refine ⟨leads, ?_⟩
  have same (buf : Nat) (outside : buf ∉ first :: rest) :
      unlink k.bQlink prev buf = k.bQlink buf := by
    refine unlink_other _ ?_ ?_
    · rintro rfl
      exact outside ring.last_mem
    · rw [leads]
      rintro rfl
      exact outside List.mem_cons_self
  obtain ⟨freeRing, others⟩ := ok.others same
  refine ok.relink freeRing ?_ ?_
  · intro msg inside
    rcases List.mem_cons.mp inside with rfl | inside
    · have self : unlink k.bQlink prev first = first := leads ▸ unlink_self k.bQlink prev
      exact ⟨rfl, List.nodup_singleton first, fun node same =>
        Option.some_inj.mp same ▸ ⟨self, trivial⟩⟩
    rcases List.mem_cons.mp inside with rfl | inside
    · exact left
    · exact others msg inside
  · rw [held_cons, held_cons, held_cons]
    exact List.Perm.refl _

theorem Ok.perm (ok : Ok k free msgs) {later : List Msg} (same : later.Perm msgs) :
    Ok k free later :=
  ok.relink ok.freeRing (fun msg inside => ok.msgRing msg (same.mem_iff.mp inside))
    (same.map Prod.snd).flatten

theorem Ok.others_two {first second : Msg} (ok : Ok k free (first :: second :: msgs))
    (links : Nat → Nat)
    (same : ∀ buf, buf ∉ first.2 → buf ∉ second.2 → links buf = k.bQlink buf) :
    Shape links k.bFreel free ∧ ∀ msg ∈ msgs, Shape links msg.1 msg.2 := by
  have swapped : Ok k free (second :: first :: msgs) := ok.perm (List.Perm.swap _ _ _)
  refine ⟨ok.freeRing.congr fun buf isFree => same buf ?_ ?_, fun msg member =>
    (ok.msgRing msg (List.mem_cons_of_mem _ (List.mem_cons_of_mem _ member))).congr
      fun buf here => same buf ?_ ?_⟩
  · exact fun inside => (ok.head_apart inside).1 isFree
  · exact fun inside => (swapped.head_apart inside).1 isFree
  · exact fun inside => (ok.head_apart inside).2 msg (List.mem_cons_of_mem _ member) here
  · exact fun inside => (swapped.head_apart inside).2 msg (List.mem_cons_of_mem _ member) here

theorem Ok.linkbuf {bufp : Nat} (ok : Ok k free ((some bufp, [bufp]) :: (h, nodes) :: msgs)) :
    Ok (Kerbuf.linkbuf bufp h k) free ((some bufp, nodes ++ [bufp]) :: msgs) := by
  have ring := ok.msgRing _ (List.mem_cons_of_mem _ List.mem_cons_self)
  have new : bufp ∉ nodes :=
    (ok.head_apart List.mem_cons_self).2 (h, nodes) List.mem_cons_self
  obtain ⟨freeRing, others⟩ := ok.others_two (put k.bQlink bufp h)
    fun buf notFirst outside => by
      refine put_other _ (fun same => notFirst (List.mem_singleton.mpr same)) ?_
      rintro rfl
      exact outside ring.last_mem
  refine ok.relink freeRing ?_ ?_
  · exact List.forall_mem_cons.mpr ⟨ring.put new, others⟩
  · rw [held_cons, held_cons, held_cons, List.append_assoc]
    exact List.perm_middle

theorem Ok.splice {first second : Nat} {front back : List Nat}
    (ok : Ok k free ((some first, front) :: (some second, back) :: msgs)) :
    Ok { k with bQlink := TailRing.splice k.bQlink first second } free
      ((some second, front ++ back) :: msgs) := by
  have ring := ok.msgRing _ List.mem_cons_self
  have ring' := ok.msgRing _ (List.mem_cons_of_mem _ List.mem_cons_self)
  obtain ⟨freeRing, others⟩ := ok.others_two (TailRing.splice k.bQlink first second)
    fun buf notFirst notSecond => by
      refine splice_other _ ?_ ?_
      · rintro rfl
        exact notFirst ring.last_mem
      · rintro rfl
        exact notSecond ring'.last_mem
  refine ok.relink freeRing ?_ ?_
  · intro msg inside
    rcases List.mem_cons.mp inside with rfl | inside
    · exact ring.splice ring' fun buf here =>
        (ok.head_apart here).2 (some second, back) List.mem_cons_self
    · exact others msg inside
  · rw [held_cons, held_cons, held_cons, List.append_assoc]

theorem Ok.fields (ok : Ok k free msgs) (bLen : Nat → Nat) (bEom : Nat → Bool)
    (bData : Nat → Nat → BitVec 8) (clean : ∀ buf ∈ free, bEom buf = false) :
    Ok { k with bLen := bLen, bEom := bEom, bData := bData } free msgs :=
  ⟨ok.freeRing, ok.msgRing, ok.all, ok.nodup, ok.size, ok.member, ok.freect, ok.alloc, ok.cntfree,
    clean⟩

/-! ### One buffer is freed or taken -/

theorem countFree_other {index i : Nat} (apart : i ≠ index) (change : Nat → Nat) :
    countFree k index change i = k.kb i := update_of_ne apart _ _

theorem countFree_bufs (index : Nat) (change : Nat → Nat) (i : Nat) :
    (countFree k index change i).map Kbuf.bufs = (k.kb i).map Kbuf.bufs := by
  by_cases here : i = index
  · rw [here, countFree, update_self, Option.map_map]
    rfl
  · rw [countFree_other here]

theorem countFree_isSome (index : Nat) (change : Nat → Nat) (i : Nat) :
    (countFree k index change i).isSome = (k.kb i).isSome := by
  rw [← @Option.isSome_map _ _ Kbuf.bufs, countFree_bufs, Option.isSome_map]

theorem countFree_some {index i : Nat} {change : Nat → Nat} {b : Kbuf}
    (there : countFree k index change i = some b) : ∃ c, k.kb i = some c ∧ c.bufs = b.bufs ∧
      b.bFreect = if i = index then change c.bFreect else c.bFreect := by
  by_cases here : i = index
  · subst here
    rw [countFree, update_self] at there
    obtain ⟨c, before, rfl⟩ := Option.map_eq_some_iff.mp there
    exact ⟨c, before, rfl, (if_pos rfl).symm⟩
  · rw [countFree_other here] at there
    exact ⟨b, there, rfl, (if_neg here).symm⟩

theorem Ok.not_free (ok : Ok k free msgs) {msg : Msg} (member : msg ∈ msgs) {buf : Nat}
    (inside : buf ∈ msg.2) : buf ∉ free := fun isFree =>
  (List.nodup_append.mp ok.apart).2.2 buf isFree buf (mem_held.mpr ⟨msg, member, inside⟩) rfl

theorem Ok.recount (ok : Ok k free msgs) (links : Nat → Nat) (bFreel : Option Nat) (left : List Nat)
    (later : List Msg) (index : Nat) (change : Nat → Nat) (bCntfree : Nat)
    (freeRing : Shape links bFreel left) (msgRing : ∀ msg ∈ later, Shape links msg.1 msg.2)
    (same : (left ++ held later).Perm (free ++ held msgs)) (cntfree : bCntfree = left.length)
    (freect : ∀ i b, k.kb i = some b →
      (if i = index then change b.bFreect else b.bFreect) =
        left.countP fun buf => k.bMember buf = i)
    (clean : ∀ buf ∈ left, k.bEom buf = false) :
    Ok { k with
      bQlink := links, kb := countFree k index change, bFreel := bFreel, bCntfree := bCntfree }
      left later where
  freeRing := freeRing
  msgRing := msgRing
  all := by
    rw [owned_congr fun i => congrArg (Option.getD · []) (countFree_bufs index change i)]
    exact same.trans ok.all
  nodup := by
    rw [owned_congr fun i => congrArg (Option.getD · []) (countFree_bufs index change i)]
    exact ok.nodup
  size := by
    intro i b there
    obtain ⟨c, before, bufs, -⟩ := countFree_some there
    exact bufs ▸ ok.size i c before
  member := by
    intro i b there
    obtain ⟨c, before, bufs, -⟩ := countFree_some there
    exact bufs ▸ ok.member i c before
  freect := by
    intro i b there
    obtain ⟨c, before, -, count⟩ := countFree_some there
    exact count.trans (freect i c before)
  alloc := by
    rw [show (fun i => (countFree k index change i).isSome) = fun i => (k.kb i).isSome from
      funext fun i => countFree_isSome index change i]
    exact ok.alloc
  cntfree := cntfree
  clean := clean

theorem Ok.freeb {bufp : Nat} (ok : Ok k free ((some bufp, [bufp]) :: msgs)) :
    Ok (Kerbuf.freeb bufp k) (free ++ [bufp]) msgs := by
  have new : bufp ∉ free := (ok.head_apart List.mem_cons_self).1
  have unmarked (buf : Nat) (isFree : buf ∈ free) :
      Function.update k.bEom bufp false buf = false := by
    refine (update_of_ne ?_ _ _).trans (ok.clean buf isFree)
    rintro rfl
    exact new isFree
  refine (ok.fields k.bLen (Function.update k.bEom bufp false) k.bData unmarked).recount
    (put k.bQlink bufp k.bFreel) (some bufp) (free ++ [bufp]) msgs (k.bMember bufp) (· + 1)
    (k.bCntfree + 1) ?_ ?_ ?_ ?_ ?_ ?_
  · exact ok.freeRing.put new
  · intro msg member
    refine (ok.msgRing msg (List.mem_cons_of_mem _ member)).congr fun buf inside => ?_
    refine put_other _ ?_ fun isLast => ?_
    · rintro rfl
      exact (ok.head_apart List.mem_cons_self).2 msg member inside
    · exact ok.not_free (List.mem_cons_of_mem _ member) inside
        (List.mem_of_getLast? (ok.freeRing.held.symm.trans isLast))
  · rw [held_cons, List.append_assoc]
  · rw [List.length_append, List.length_singleton, ok.cntfree]
  · intro i b there
    rw [List.countP_append, ← ok.freect i b there, List.countP_singleton]
    by_cases here : i = k.bMember bufp
    · rw [if_pos here, if_pos (decide_eq_true here.symm)]
    · rw [if_neg here, if_neg (fun same => here (of_decide_eq_true same).symm)]
      rfl
  · intro buf inside
    rcases List.mem_append.mp inside with isFree | only
    · exact unmarked buf isFree
    · rw [List.mem_singleton.mp only]
      exact update_self _ _ _

theorem Ok.takeFree {first freel : Nat} {rest : List Nat} (ok : Ok k (first :: rest) msgs)
    (isLast : k.bFreel = some freel) :
    (Kerbuf.takeFree freel k).2 = first ∧
      Ok (Kerbuf.takeFree freel k).1 rest ((some first, [first]) :: msgs) := by
  have ring := ok.freeRing
  rw [isLast] at ring
  obtain ⟨leads, left⟩ := ring.unlink
  refine ⟨leads, ?_⟩
  have self : unlink k.bQlink freel first = first := leads ▸ unlink_self k.bQlink freel
  have links : Function.update (unlink k.bQlink freel) (k.bQlink freel) (k.bQlink freel) =
      unlink k.bQlink freel := by
    rw [leads]
    exact update_eq_self_iff.mpr self.symm
  have taken := (ok.recount (unlink k.bQlink freel) (remaining k.bQlink freel) rest
    ((some first, [first]) :: msgs) (k.bMember first) (· - 1) (k.bCntfree - 1) ?_ ?_ ?_ ?_ ?_
      (List.forall_mem_cons.mp ok.clean).2).fields
        (Function.update k.bLen first 0) k.bEom k.bData
        (List.forall_mem_cons.mp ok.clean).2
  · unfold Kerbuf.takeFree Kerbuf.ifreebuf
    dsimp only
    rw [links, leads]
    exact taken
  · exact left
  · intro msg inLater
    rcases List.mem_cons.mp inLater with rfl | member
    · exact ⟨rfl, List.nodup_singleton first, fun node same =>
        Option.some_inj.mp same ▸ ⟨self, trivial⟩⟩
    · refine (ok.msgRing msg member).congr fun buf inside => unlink_other _ ?_ ?_
      · rintro rfl
        exact ok.not_free member inside ring.last_mem
      · intro same
        rw [same, leads] at inside
        exact ok.not_free member inside List.mem_cons_self
  · rw [held_cons]
    exact List.perm_middle
  · rw [ok.cntfree, List.length_cons, Nat.add_sub_cancel]
  · intro i b there
    rw [ok.freect i b there, List.countP_cons]
    by_cases here : i = k.bMember first
    · rw [if_pos here, if_pos (decide_eq_true here.symm), Nat.add_sub_cancel]
    · rw [if_neg here, if_neg (fun same => here (of_decide_eq_true same).symm), Nat.add_zero]

end NetworkUnix.Ncpk.Kerbuf
