/-
This file models the protocol numbers of raw connections: the blocks of entries
that a connection owns and the global chains that the entries are linked on. It
proves when the two agree in every reachable state.

A block is an mbuf, known by its address, and an entry is known by its block and
its place in it. The links of the entries are kept as lists: an entry outside
all chains has a null link, because a new block clears the links of its entries
and an entry that is unlinked has its link cleared. A routine that reads a
header outside the table of headers, or entries past the end of a block, has no
outcome.
-/

import NetworkUnix.Lib.Run
import NetworkUnix.Lib.Buckets
import Mathlib.Data.List.Basic

namespace NetworkUnix.Bbnnet.Raw

open Function Buckets

/-! ### Entries, blocks and headers -/

/-- The entries of one block. -/
def NPRMB : Nat := 14

/-- The headers of the hash table. -/
def NPROTO : Int := 67

/-- An entry for a protocol number. -/
structure Proto where
  prNum : Int
  prUsed : Bool
deriving DecidableEq

/-- A block of entries: its owner, the count it keeps and the entries. -/
structure Block where
  mAct : Nat
  mLen : Nat
  entries : List Proto
deriving DecidableEq

/-- An entry, by the block it stands in and its place there. -/
structure Ref where
  block : Nat
  index : Nat
deriving DecidableEq

/-- The header of a chain: one of the built-in ones, or a place of the hash table. -/
inductive Header
  | tcp
  | ip
  | icmp
  | ggp
  | udp
  | hash (place : Int)
deriving DecidableEq

/-- What the search for a header reads of a connection: whether it takes raw packets of the
internet protocol or of its network, and the link number of the network. -/
structure RawUcb where
  uip : Bool
  uraw : Bool
  ifLink : Int

/-- The place of a number in the hash table; the remainder has the sign of the number. -/
def prHash (prnum : Int) : Int := prnum.tmod NPROTO

def profind (up : RawUcb) (prnum : Int) : Header :=
  if prnum = 6 ∧ up.uip = true then .tcp
  else if prnum = up.ifLink ∧ up.uraw = true then .ip
  else if prnum = 1 ∧ up.uip = true then .icmp
  else if prnum = 3 ∧ up.uip = true then .ggp
  else if prnum = 17 ∧ up.uip = true then .udp
  else .hash (prHash prnum)

/-- The header lies inside the tables. -/
def Header.InTable : Header → Prop
  | .hash place => 0 ≤ place
  | _ => True

instance (place : Header) : Decidable place.InTable := by
  cases place <;> unfold Header.InTable <;> infer_instance

/-- The blocks in use, the blocks of each connection in the order of their links, and the chains. -/
structure RawState where
  blocks : Nat → Option Block
  ucProto : Nat → List Nat
  chains : Header → List Ref

namespace RawState

/-- The entry that a reference stands for. -/
def entry (s : RawState) (r : Ref) : Option Proto :=
  (s.blocks r.block).bind fun m => m.entries[r.index]?

def modify (s : RawState) (m : Nat) (change : Block → Block) : RawState :=
  { s with blocks := Function.update s.blocks m ((s.blocks m).map change) }

/-- The first block of a list that does not count as full. -/
def notFull (s : RawState) (list : List Nat) : Option Nat :=
  list.find? fun m => (s.blocks m).any fun b => b.mLen != NPRMB

/-- The first entry of a block that is not in use. -/
def free (s : RawState) (m : Nat) : Option Nat :=
  (s.blocks m).bind fun b => b.entries.findIdx? fun p => !p.prUsed

/-- A connection has an entry for the number on the chain of its header. -/
def linked (s : RawState) (place : Header) (up : Nat) (prnum : Int) (r : Ref) : Bool :=
  r ∈ s.chains place && (s.entry r).any (fun p => p.prNum = prnum) &&
    (s.blocks r.block).any fun m => m.mAct = up

end RawState

/-! ### The routines -/

section Routines

variable (ucbs : Nat → RawUcb)

/-- The entry takes the number, the block counts one more, and the entry goes to the end of the
chain. The entry need not stand in the block that counts it. -/
def link (s : RawState) (up : Nat) (prnum : Int) (m : Nat) (p : Ref) : RawState :=
  let used := s.modify p.block fun b => { b with entries := b.entries.set p.index ⟨prnum, true⟩ }
  let marked := used.modify m fun b => { b with mLen := b.mLen + 1 }
  let place := profind (ucbs up) prnum
  { marked with chains := Function.update s.chains place (s.chains place ++ [p]) }

/-- A new block at the end of the connection's blocks takes the number in its first entry;
without a buffer nothing is done. -/
def newBlock (s : RawState) (up : Nat) (prnum : Int) : Option Nat → RawState
  | none => s
  | some m =>
    link ucbs
      { s with
        blocks := Function.update s.blocks m (some ⟨up, 0, List.replicate NPRMB ⟨0, false⟩⟩)
        ucProto := Function.update s.ucProto up (s.ucProto up ++ [m]) } up prnum m ⟨m, 0⟩

/-- `got` is the buffer that `m_get` returns. The entries of the first block are searched
whichever block is found not to be full. Where they are all in use the found block is made
full, and if another one is not full the search goes on past the end of the first block. -/
def rawAdd (s : RawState) (up : Nat) (prnum : Int) (got : Option Nat) : Option RawState :=
  let place := profind (ucbs up) prnum
  if ¬place.InTable then none
  else if (s.chains place).any (s.linked place up prnum) then some s
  else
    match s.ucProto up with
    | [] => some (newBlock ucbs s up prnum got)
    | first :: rest =>
      match s.notFull (first :: rest) with
      | none => some (newBlock ucbs s up prnum got)
      | some m =>
        match s.free first with
        | some i => some (link ucbs s up prnum m ⟨first, i⟩)
        | none =>
          let full := s.modify m fun b => { b with mLen := NPRMB }
          match full.notFull (first :: rest) with
          | none => some (newBlock ucbs full up prnum got)
          | some _ => none

/-- The entry leaves its chain and its block counts one less. -/
def prodel (s : RawState) (up : Nat) (p : Ref) : RawState :=
  match s.entry p with
  | none => s
  | some found =>
    let place := profind (ucbs up) found.prNum
    { s.modify p.block fun b =>
        { b with entries := b.entries.set p.index ⟨found.prNum, false⟩, mLen := b.mLen - 1 } with
      chains := Function.update s.chains place ((s.chains place).erase p) }

/-- A number that the connection does not have is refused. -/
def rawDel (s : RawState) (up : Nat) (prnum : Int) : Option RawState :=
  let place := profind (ucbs up) prnum
  if ¬place.InTable then none
  else
    match (s.chains place).find? (s.linked place up prnum) with
    | some p => some (prodel ucbs s up p)
    | none => some s

/-- The entries of a block that are in use are deleted. -/
def freeEntries (s : RawState) (up m : Nat) (indices : List Nat) : RawState :=
  indices.foldl (fun s i =>
    if (s.entry ⟨m, i⟩).any Proto.prUsed then prodel ucbs s up ⟨m, i⟩ else s) s

/-- The entry pointer is not moved to the next block: with a second block the search goes on past
the end of the first one. -/
def rawFree (s : RawState) (up : Nat) : Option RawState :=
  match s.ucProto up with
  | [] => some s
  | m :: rest =>
    let dropped := { s with ucProto := Function.update s.ucProto up [] }
    let emptied := freeEntries ucbs dropped up m (List.range NPRMB)
    if rest = [] then some { emptied with blocks := Function.update emptied.blocks m none } else none

/-- The calls, with the buffer that `m_get` returns to an addition. -/
inductive RawEvent
  | add (up : Nat) (prnum : Int) (got : Option Nat)
  | del (up : Nat) (prnum : Int)
  | free (up : Nat)

def rawStep (s : RawState) : RawEvent → Option RawState
  | .add up prnum got => rawAdd ucbs s up prnum got
  | .del up prnum => rawDel ucbs s up prnum
  | .free up => rawFree ucbs s up

/-- A buffer that `m_get` returns is not in use. -/
def Unused (s : RawState) : RawEvent → Prop
  | .add _ _ (some m) => s.blocks m = none
  | _ => True

instance (s : RawState) (event : RawEvent) : Decidable (Unused s event) := by
  unfold Unused
  split <;> infer_instance

def RawStep (s : RawState) (event : RawEvent) (next : RawState) : Prop :=
  Unused s event ∧ rawStep ucbs s event = some next

/-- No connection has an entry. -/
def rawStart : RawState := ⟨fun _ => none, fun _ => [], fun _ => []⟩

/-! ### The owner and the number of an entry in use -/

/-- The connection and the number that an entry in use stands for. -/
def key (s : RawState) (r : Ref) : Option (Nat × Int) :=
  (s.blocks r.block).bind fun m => (m.entries[r.index]?).bind fun p =>
    if p.prUsed then some (m.mAct, p.prNum) else none

/-- The header that the number of a connection belongs to. -/
def header (k : Nat × Int) : Header := profind (ucbs k.1) k.2

/-- Every block has its full set of entries and counts those in use. -/
def Counted (s : RawState) : Prop :=
  ∀ (m : Nat) (b : Block), s.blocks m = some b →
    b.entries.length = NPRMB ∧ b.mLen = b.entries.countP Proto.prUsed

/-- The blocks of a connection are those that name it as their owner, each once. -/
structure Owned (s : RawState) : Prop where
  act : ∀ (up m : Nat), m ∈ s.ucProto up ↔ ∃ b, s.blocks m = some b ∧ b.mAct = up
  nodup : ∀ up : Nat, (s.ucProto up).Nodup

/-- The chains file the entries in use right, and the blocks count and belong right. -/
structure RawOk (s : RawState) : Prop where
  filed : Filed (header ucbs) (key s) s.chains
  counted : Counted s
  owned : Owned s

variable {s : RawState}

theorem key_eq_some {r : Ref} {up : Nat} {prnum : Int} :
    key s r = some (up, prnum) ↔ ∃ b p, s.blocks r.block = some b ∧ b.entries[r.index]? = some p ∧
      p.prUsed = true ∧ b.mAct = up ∧ p.prNum = prnum := by
  unfold key
  constructor
  · intro keyed
    obtain ⟨b, there, keyed⟩ := Option.bind_eq_some_iff.mp keyed
    obtain ⟨p, inside, keyed⟩ := Option.bind_eq_some_iff.mp keyed
    split at keyed
    next used =>
      obtain ⟨act, num⟩ := Prod.mk.injEq .. ▸ Option.some_inj.mp keyed
      exact ⟨b, p, there, inside, used, act, num⟩
    next => exact absurd keyed.symm (Option.some_ne_none _)
  · rintro ⟨b, p, there, inside, used, rfl, rfl⟩
    rw [there, Option.bind_some, inside, Option.bind_some, if_pos used]

theorem modify_at (m : Nat) (change : Block → Block) :
    (s.modify m change).blocks m = (s.blocks m).map change :=
  update_self _ _ _

theorem modify_self {m : Nat} {b : Block} (there : s.blocks m = some b) (change : Block → Block) :
    (s.modify m change).blocks m = some (change b) := by
  rw [modify_at, there, Option.map_some]

theorem modify_other {m other : Nat} (apart : other ≠ m) (change : Block → Block) :
    (s.modify m change).blocks other = s.blocks other :=
  update_of_ne apart _ _

theorem key_modify_keep (m : Nat) {change : Block → Block}
    (keeps : ∀ b, (change b).entries = b.entries ∧ (change b).mAct = b.mAct) :
    key (s.modify m change) = key s := by
  funext r
  unfold key
  by_cases here : r.block = m
  · subst here
    cases there : s.blocks r.block with
    | none => rw [modify_at, there, Option.map_none]
    | some b => rw [modify_self there, Option.bind_some, Option.bind_some, (keeps b).1, (keeps b).2]
  · rw [modify_other here]

theorem key_modify_set {r : Ref} {b : Block} (there : s.blocks r.block = some b)
    (inside : r.index < b.entries.length) (p : Proto) {change : Block → Block}
    (sets : ∀ b, (change b).entries = b.entries.set r.index p ∧ (change b).mAct = b.mAct) :
    key (s.modify r.block change) =
      Function.update (key s) r (if p.prUsed then some (b.mAct, p.prNum) else none) := by
  funext other
  by_cases same : other = r
  · subst same
    rw [update_self]
    unfold key
    rw [modify_self there, Option.bind_some, (sets b).1, (sets b).2,
      List.getElem?_set_self inside, Option.bind_some]
  · rw [update_of_ne same]
    unfold key
    by_cases here : other.block = r.block
    · have place : r.index ≠ other.index := by
        intro equal
        cases other
        cases r
        exact same (congrArg₂ Ref.mk here equal.symm)
      rw [here, modify_self there, there, Option.bind_some, Option.bind_some, (sets b).1,
        (sets b).2, List.getElem?_set_ne place]
    · rw [modify_other here]

theorem Owned.of_act (owned : Owned s) {next : RawState} (same : next.ucProto = s.ucProto)
    (acts : ∀ m, (next.blocks m).map Block.mAct = (s.blocks m).map Block.mAct) : Owned next := by
  constructor
  · intro up m
    rw [same, owned.act, ← Option.map_eq_some_iff, ← Option.map_eq_some_iff, acts]
  · rw [same]
    exact owned.nodup

theorem modify_act (m : Nat) {change : Block → Block} (keeps : ∀ b, (change b).mAct = b.mAct)
    (other : Nat) :
    ((s.modify m change).blocks other).map Block.mAct = (s.blocks other).map Block.mAct := by
  by_cases here : other = m
  · subst here
    rw [modify_at, Option.map_map]
    exact congrFun (congrArg Option.map (funext keeps)) _
  · rw [modify_other here]

theorem Counted.modify (counted : Counted s) {m : Nat} {b : Block} (there : s.blocks m = some b)
    {change : Block → Block} (long : (change b).entries.length = b.entries.length)
    (count : (change b).mLen = (change b).entries.countP Proto.prUsed) :
    Counted (s.modify m change) := by
  intro other found atOther
  by_cases here : other = m
  · subst here
    rw [modify_self there, Option.some_inj] at atOther
    subst atOther
    exact ⟨long.trans (counted _ _ there).1, count⟩
  · rw [modify_other here] at atOther
    exact counted other found atOther

/-! ### Additions -/

theorem free_some {m i : Nat} (found : s.free m = some i) :
    ∃ b p, s.blocks m = some b ∧ b.entries[i]? = some p ∧ p.prUsed = false := by
  obtain ⟨b, there, found⟩ := Option.bind_eq_some_iff.mp found
  obtain ⟨inside, unused, _⟩ := List.findIdx?_eq_some_iff_getElem.mp found
  refine ⟨b, b.entries[i], there, List.getElem?_eq_getElem inside, ?_⟩
  rw [Bool.not_eq_true'] at unused
  exact unused

theorem free_of_notFull (counted : Counted s) {m : Nat} {b : Block} (there : s.blocks m = some b)
    (room : b.mLen ≠ NPRMB) : ∃ i, s.free m = some i := by
  obtain ⟨long, count⟩ := counted m b there
  unfold RawState.free
  rw [there, Option.bind_some]
  refine Option.ne_none_iff_exists'.mp fun none => ?_
  refine room (count.trans ((List.countP_eq_length.mpr fun p inside => ?_).trans long))
  have used := List.findIdx?_eq_none_iff.mp none p inside
  rwa [Bool.not_eq_false'] at used

theorem RawOk.link (ok : RawOk ucbs s) {up m i : Nat} {prnum : Int} {b : Block}
    (there : s.blocks m = some b) (act : b.mAct = up) (found : s.free m = some i)
    (unused : ∀ r, key s r ≠ some (up, prnum)) : RawOk ucbs (link ucbs s up prnum m ⟨m, i⟩) := by
  obtain ⟨b', p, there', entry, free⟩ := free_some found
  obtain rfl : b = b' := Option.some_inj.mp (there.symm.trans there')
  obtain ⟨inside, isEntry⟩ := List.getElem?_eq_some_iff.mp entry
  have unkeyed : key s ⟨m, i⟩ = none := by
    unfold key
    rw [there, Option.bind_some, entry, Option.bind_some, if_neg (Bool.eq_false_iff.mp free)]
  have marked := modify_self there fun b => { b with entries := b.entries.set i ⟨prnum, true⟩ }
  have keys : key (Raw.link ucbs s up prnum m ⟨m, i⟩) =
      Function.update (key s) ⟨m, i⟩ (some (up, prnum)) := by
    show key ((s.modify m fun b => { b with entries := b.entries.set i ⟨prnum, true⟩ }).modify m
      fun b => { b with mLen := b.mLen + 1 }) = _
    refine (key_modify_keep m ?_).trans
      ((@key_modify_set _ ⟨m, i⟩ b there inside ⟨prnum, true⟩ _ ?_).trans ?_)
    · exact fun _ => ⟨rfl, rfl⟩
    · exact fun _ => ⟨rfl, rfl⟩
    · rw [act]
      rfl
  constructor
  · rw [keys]
    exact ok.filed.insert unkeyed unused
  · intro other found atOther
    by_cases here : other = m
    · subst here
      rw [show (Raw.link ucbs s up prnum other ⟨other, i⟩).blocks other = _ from
        modify_self marked _, Option.some_inj] at atOther
      subst atOther
      obtain ⟨long, count⟩ := ok.counted other b there
      refine ⟨(List.length_set).trans long, ?_⟩
      show b.mLen + 1 = _
      rw [List.countP_set inside, isEntry, if_neg (Bool.eq_false_iff.mp free), count]
      rfl
    · rw [show (Raw.link ucbs s up prnum m ⟨m, i⟩).blocks other = s.blocks other from
        (modify_other here _).trans (modify_other here _)] at atOther
      exact ok.counted other found atOther
  · refine ok.owned.of_act rfl fun other => ?_
    refine (modify_act m ?_ other).trans (modify_act m ?_ other)
    · exact fun _ => rfl
    · exact fun _ => rfl

theorem RawOk.newBlock (ok : RawOk ucbs s) {up : Nat} {prnum : Int} {got : Option Nat}
    (absent : ∀ m, got = some m → s.blocks m = none) (unused : ∀ r, key s r ≠ some (up, prnum)) :
    RawOk ucbs (newBlock ucbs s up prnum got) := by
  cases got with
  | none => exact ok
  | some m =>
    have outside := absent m rfl
    let empty : Block := ⟨up, 0, List.replicate NPRMB ⟨0, false⟩⟩
    let grown : RawState :=
      { s with
        blocks := Function.update s.blocks m (some empty)
        ucProto := Function.update s.ucProto up (s.ucProto up ++ [m]) }
    have there : grown.blocks m = some empty := update_self _ _ _
    have others : ∀ other, other ≠ m → grown.blocks other = s.blocks other :=
      fun other apart => update_of_ne apart _ _
    have keys : key grown = key s := by
      funext r
      unfold key
      by_cases here : r.block = m
      · rw [here, there, outside, Option.bind_some, Option.bind_none, List.getElem?_replicate]
        split <;> rfl
      · rw [others _ here]
    have grownOk : RawOk ucbs grown := by
      constructor
      · rw [keys]
        exact ok.filed
      · intro other b atOther
        by_cases here : other = m
        · rw [here, there, Option.some_inj] at atOther
          subst atOther
          exact ⟨List.length_replicate, rfl⟩
        · rw [others other here] at atOther
          exact ok.counted other b atOther
      · have notOwned : ∀ other, m ∉ s.ucProto other := by
          intro other inside
          obtain ⟨b, atM, _⟩ := (ok.owned.act other m).mp inside
          exact Option.some_ne_none b (atM.symm.trans outside)
        constructor
        · intro other place
          by_cases here : place = m
          · subst here
            rw [there]
            by_cases self : other = up
            · subst self
              rw [show grown.ucProto other = _ from update_self _ _ _]
              exact ⟨fun _ => ⟨empty, rfl, rfl⟩,
                fun _ => List.mem_append_right _ List.mem_cons_self⟩
            · rw [show grown.ucProto other = _ from update_of_ne self _ _]
              refine ⟨fun inside => absurd inside (notOwned other), ?_⟩
              rintro ⟨b, same, act⟩
              have isEmpty := congrArg Block.mAct (Option.some_inj.mp same)
              exact absurd (act.symm.trans isEmpty.symm) self
          · rw [others place here, ← ok.owned.act other place]
            by_cases self : other = up
            · subst self
              rw [show grown.ucProto other = _ from update_self _ _ _, List.mem_append,
                List.mem_singleton]
              exact ⟨fun inside => inside.resolve_right here, Or.inl⟩
            · rw [show grown.ucProto other = _ from update_of_ne self _ _]
        · intro other
          by_cases self : other = up
          · subst self
            rw [show grown.ucProto other = _ from update_self _ _ _]
            refine List.nodup_append.mpr ⟨ok.owned.nodup _, List.pairwise_singleton _ _, ?_⟩
            intro place inside last isLast same
            rw [List.mem_singleton] at isLast
            exact notOwned other (isLast ▸ same ▸ inside)
          · rw [show grown.ucProto other = _ from update_of_ne self _ _]
            exact ok.owned.nodup other
    refine grownOk.link ucbs there rfl ?_ (keys ▸ unused)
    unfold RawState.free
    rw [there]
    rfl

theorem key_of_linked (filed : Filed (header ucbs) (key s) s.chains) {place : Header} {up : Nat}
    {prnum : Int} {r : Ref} (found : s.linked place up prnum r = true) :
    key s r = some (up, prnum) := by
  unfold RawState.linked at found
  rw [Bool.and_eq_true, Bool.and_eq_true, decide_eq_true_eq] at found
  obtain ⟨⟨onChain, number⟩, act⟩ := found
  obtain ⟨⟨owner, num⟩, keyed, _⟩ := (filed.mem place r).mp onChain
  obtain ⟨b, p, there, inside, _, rfl, rfl⟩ := key_eq_some.mp keyed
  rw [there, Option.any_some, decide_eq_true_eq] at act
  unfold RawState.entry at number
  rw [there, Option.bind_some, inside, Option.any_some, decide_eq_true_eq] at number
  rw [keyed, act, number]

theorem linked_of_key (filed : Filed (header ucbs) (key s) s.chains) {up : Nat} {prnum : Int}
    {r : Ref} (keyed : key s r = some (up, prnum)) :
    s.linked (profind (ucbs up) prnum) up prnum r = true := by
  obtain ⟨b, p, there, inside, _, act, number⟩ := key_eq_some.mp keyed
  unfold RawState.linked RawState.entry
  rw [Bool.and_eq_true, Bool.and_eq_true, decide_eq_true_eq, there, Option.bind_some, inside,
    Option.any_some, Option.any_some, decide_eq_true_eq, decide_eq_true_eq]
  exact ⟨⟨filed.on_chain keyed, number⟩, act⟩

theorem unused_of_not_linked (filed : Filed (header ucbs) (key s) s.chains) {up : Nat} {prnum : Int}
    (new : ¬(s.chains (profind (ucbs up) prnum)).any
      (s.linked (profind (ucbs up) prnum) up prnum) = true) (r : Ref) :
    key s r ≠ some (up, prnum) := by
  intro keyed
  exact new (List.any_eq_true.mpr ⟨r, filed.on_chain keyed, linked_of_key ucbs filed keyed⟩)

/-- The calls that keep to what the routines can do. The header lies in the table; a number that
is new to the connection finds no block that is not full behind a full one; and a connection that
is freed owns one block at most. -/
def Sound (s : RawState) : RawEvent → Prop
  | .add up prnum _ =>
    (profind (ucbs up) prnum).InTable ∧
      ((s.chains (profind (ucbs up) prnum)).any
        (s.linked (profind (ucbs up) prnum) up prnum) = true ∨
      s.notFull (s.ucProto up) = none ∨ s.notFull (s.ucProto up) = (s.ucProto up).head?)
  | .del up prnum => (profind (ucbs up) prnum).InTable
  | .free up => (s.ucProto up).length ≤ 1

instance (s : RawState) (event : RawEvent) : Decidable (Sound ucbs s event) := by
  cases event <;> unfold Sound <;> infer_instance

theorem RawOk.rawAdd (ok : RawOk ucbs s) {up : Nat} {prnum : Int} {got : Option Nat}
    (absent : ∀ m, got = some m → s.blocks m = none) (sound : Sound ucbs s (.add up prnum got)) :
    ∃ next, rawAdd ucbs s up prnum got = some next ∧ RawOk ucbs next := by
  obtain ⟨inTable, single⟩ := sound
  unfold Raw.rawAdd
  simp only
  rw [if_neg (not_not_intro inTable)]
  split
  next => exact ⟨s, rfl, ok⟩
  next new =>
    have unused := unused_of_not_linked ucbs ok.filed new
    split
    next => exact ⟨_, rfl, ok.newBlock ucbs absent unused⟩
    next first rest blocks =>
      split
      next => exact ⟨_, rfl, ok.newBlock ucbs absent unused⟩
      next m found =>
        rw [blocks, found] at single
        obtain rfl : m = first := by
          rcases single.resolve_left new with none | same
          · exact absurd none (Option.some_ne_none m)
          · exact Option.some_inj.mp same
        obtain ⟨b, there, act⟩ := (ok.owned.act up m).mp (blocks ▸ List.mem_cons_self)
        have room := List.find?_some found
        rw [there, Option.any_some, bne_iff_ne] at room
        obtain ⟨i, free⟩ := free_of_notFull ok.counted there room
        rw [free]
        exact ⟨_, rfl, ok.link ucbs there act free unused⟩

/-! ### Deletions -/

section Deletion

variable {up : Nat} {prnum : Int} {p : Ref}

theorem prodel_eq (keyed : key s p = some (up, prnum)) :
    prodel ucbs s up p =
      { s.modify p.block fun b =>
          { b with entries := b.entries.set p.index ⟨prnum, false⟩, mLen := b.mLen - 1 } with
        chains := Function.update s.chains (header ucbs (up, prnum))
          ((s.chains (header ucbs (up, prnum))).erase p) } := by
  obtain ⟨b, found, there, inside, _, _, rfl⟩ := key_eq_some.mp keyed
  have isEntry : s.entry p = some found := by
    unfold RawState.entry
    rw [there, Option.bind_some, inside]
  unfold prodel
  rw [isEntry]
  rfl

theorem key_prodel (keyed : key s p = some (up, prnum)) :
    key (prodel ucbs s up p) = Function.update (key s) p none := by
  obtain ⟨b, found, there, inside, _, _, rfl⟩ := key_eq_some.mp keyed
  rw [prodel_eq ucbs keyed]
  have bound := (List.getElem?_eq_some_iff.mp inside).1
  refine (key_modify_set there bound ⟨found.prNum, false⟩ ?_).trans ?_
  · exact fun _ => ⟨rfl, rfl⟩
  · rfl

theorem filed_prodel (filed : Filed (header ucbs) (key s) s.chains)
    (keyed : key s p = some (up, prnum)) :
    Filed (header ucbs) (key (prodel ucbs s up p)) (prodel ucbs s up p).chains := by
  rw [key_prodel ucbs keyed, prodel_eq ucbs keyed]
  exact filed.erase keyed

theorem counted_prodel (counted : Counted s) (keyed : key s p = some (up, prnum)) :
    Counted (prodel ucbs s up p) := by
  obtain ⟨b, found, there, inside, used, _, rfl⟩ := key_eq_some.mp keyed
  obtain ⟨bound, isEntry⟩ := List.getElem?_eq_some_iff.mp inside
  rw [prodel_eq ucbs keyed]
  refine counted.modify there List.length_set ?_
  show b.mLen - 1 = _
  rw [List.countP_set bound, isEntry, if_pos used, (counted _ _ there).2]
  rfl

theorem act_prodel (keyed : key s p = some (up, prnum)) (m : Nat) :
    ((prodel ucbs s up p).blocks m).map Block.mAct = (s.blocks m).map Block.mAct := by
  rw [prodel_eq ucbs keyed]
  refine modify_act p.block ?_ m
  exact fun _ => rfl

theorem ucProto_prodel (keyed : key s p = some (up, prnum)) :
    (prodel ucbs s up p).ucProto = s.ucProto := by
  rw [prodel_eq ucbs keyed]
  rfl

theorem RawOk.rawDel (ok : RawOk ucbs s) (inTable : (profind (ucbs up) prnum).InTable) :
    ∃ next, rawDel ucbs s up prnum = some next ∧ RawOk ucbs next := by
  unfold Raw.rawDel
  simp only
  rw [if_neg (not_not_intro inTable)]
  split
  next p found =>
    have keyed := key_of_linked ucbs ok.filed (List.find?_some found)
    refine ⟨_, rfl, filed_prodel ucbs ok.filed keyed, counted_prodel ucbs ok.counted keyed, ?_⟩
    exact ok.owned.of_act (ucProto_prodel ucbs keyed) (act_prodel ucbs keyed)
  next => exact ⟨s, rfl, ok⟩

end Deletion

theorem any_prUsed (r : Ref) : (s.entry r).any Proto.prUsed = (key s r).isSome := by
  unfold RawState.entry key
  cases s.blocks r.block with
  | none => rfl
  | some b =>
    rw [Option.bind_some, Option.bind_some]
    cases b.entries[r.index]? with
    | none => rfl
    | some p =>
      rw [Option.bind_some, Option.any_some]
      cases used : p.prUsed <;> rfl

theorem act_of_key {r : Ref} {up owner : Nat} {prnum : Int} (keyed : key s r = some (owner, prnum))
    (act : (s.blocks r.block).map Block.mAct = some up) : owner = up := by
  obtain ⟨b, _, there, _, _, isAct, _⟩ := key_eq_some.mp keyed
  rw [there, Option.map_some, isAct] at act
  exact Option.some_inj.mp act

/-- The deletion of the entries of a block: the chains stay right, the entries lose their keys and
the others keep theirs, and no block changes its owner. -/
theorem freeEntries_ok {s : RawState} {up m : Nat} (indices : List Nat)
    (filed : Filed (header ucbs) (key s) s.chains) (counted : Counted s)
    (act : (s.blocks m).map Block.mAct = some up) :
    Filed (header ucbs) (key (freeEntries ucbs s up m indices))
        (freeEntries ucbs s up m indices).chains ∧
      Counted (freeEntries ucbs s up m indices) ∧
      (freeEntries ucbs s up m indices).ucProto = s.ucProto ∧
      (∀ other, ((freeEntries ucbs s up m indices).blocks other).map Block.mAct =
        (s.blocks other).map Block.mAct) ∧
      ∀ r, key (freeEntries ucbs s up m indices) r =
        if r.block = m ∧ r.index ∈ indices then none else key s r := by
  induction indices generalizing s with
  | nil =>
    exact ⟨filed, counted, rfl, fun _ => rfl,
      fun r => (if_neg fun inside => List.not_mem_nil inside.2).symm⟩
  | cons i rest inductionHypothesis =>
    unfold freeEntries
    rw [List.foldl_cons, any_prUsed]
    cases keyed : key s ⟨m, i⟩ with
    | none =>
      rw [Option.isSome_none, if_neg Bool.false_ne_true]
      obtain ⟨filed', counted', owned', acts', keys'⟩ := inductionHypothesis filed counted act
      refine ⟨filed', counted', owned', acts', fun r => (keys' r).trans ?_⟩
      by_cases here : r = ⟨m, i⟩
      · subst here
        rw [keyed, ite_self, ite_self]
      · refine if_congr (and_congr_right fun inBlock => ?_) rfl rfl
        rw [List.mem_cons]
        refine ⟨Or.inr, fun inside => inside.resolve_left fun same => here ?_⟩
        cases r
        exact congrArg₂ Ref.mk inBlock same
    | some k =>
      obtain ⟨owner, prnum⟩ := k
      obtain rfl := act_of_key keyed act
      rw [Option.isSome_some, if_pos rfl]
      obtain ⟨filed', counted', owned', acts', keys'⟩ :=
        inductionHypothesis (filed_prodel ucbs filed keyed) (counted_prodel ucbs counted keyed)
          ((act_prodel ucbs keyed m).trans act)
      refine ⟨filed', counted', owned'.trans (ucProto_prodel ucbs keyed),
        fun other => (acts' other).trans (act_prodel ucbs keyed other), fun r => (keys' r).trans ?_⟩
      rw [key_prodel ucbs keyed]
      by_cases here : r = ⟨m, i⟩
      · subst here
        rw [update_self, ite_self, if_pos ⟨rfl, List.mem_cons_self⟩]
      · rw [update_of_ne here]
        refine if_congr (and_congr_right fun inBlock => ?_) rfl rfl
        rw [List.mem_cons]
        refine ⟨Or.inr, fun inside => inside.resolve_left fun same => here ?_⟩
        cases r
        exact congrArg₂ Ref.mk inBlock same

theorem index_lt {r : Ref} {k : Nat × Int} (counted : Counted s) (keyed : key s r = some k) :
    r.index < NPRMB := by
  obtain ⟨b, p, there, inside, _⟩ := key_eq_some.mp keyed
  rw [← (counted _ b there).1]
  exact (List.getElem?_eq_some_iff.mp inside).1

/-- A connection that owns one block at most can be freed; what is left is right, and no chain
holds an entry of a block that the connection had. -/
theorem RawOk.rawFree (ok : RawOk ucbs s) {up : Nat} (single : (s.ucProto up).length ≤ 1) :
    ∃ next, rawFree ucbs s up = some next ∧ RawOk ucbs next ∧
      next.ucProto up = [] ∧ ∀ place, ∀ r ∈ next.chains place, r.block ∉ s.ucProto up := by
  unfold Raw.rawFree
  split
  next blocks =>
    refine ⟨s, rfl, ok, blocks, fun _ _ _ => ?_⟩
    rw [blocks]
    exact List.not_mem_nil
  next m rest blocks =>
    obtain rfl : rest = [] := by
      rw [blocks, List.length_cons] at single
      exact List.length_eq_zero_iff.mp (by omega)
    have act : (s.blocks m).map Block.mAct = some up :=
      Option.map_eq_some_iff.mpr ((ok.owned.act up m).mp (blocks ▸ List.mem_cons_self))
    simp only [↓reduceIte]
    let dropped : RawState := { s with ucProto := Function.update s.ucProto up [] }
    obtain ⟨filed, counted, owned, acts, keys⟩ :=
      @freeEntries_ok ucbs dropped up m (List.range NPRMB) ok.filed ok.counted act
    generalize freeEntries ucbs dropped up m (List.range NPRMB) = emptied at *
    have gone : ∀ r, r.block = m → key emptied r = none := by
      intro r here
      rw [keys r]
      split
      next => rfl
      next outside =>
        refine Option.eq_none_iff_forall_ne_some.mpr fun k keyed => outside ⟨here, ?_⟩
        exact List.mem_range.mpr (index_lt ok.counted keyed)
    let freed : RawState := { emptied with blocks := Function.update emptied.blocks m none }
    have atFreed : freed.blocks m = none := update_self _ _ _
    have others : ∀ other, other ≠ m → freed.blocks other = emptied.blocks other :=
      fun other apart => update_of_ne apart _ _
    have sameKeys : key freed = key emptied := by
      funext r
      by_cases here : r.block = m
      · rw [gone r here]
        unfold key
        rw [here, atFreed, Option.bind_none]
      · unfold key
        rw [others _ here]
    have kept : ∀ other, other ≠ up → freed.ucProto other = s.ucProto other := by
      intro other apart
      rw [show freed.ucProto = _ from owned]
      exact update_of_ne apart _ _
    have emptyList : freed.ucProto up = [] := by
      rw [show freed.ucProto = _ from owned]
      exact update_self _ _ _
    refine ⟨freed, rfl, ⟨?_, ?_, ?_⟩, emptyList, ?_⟩
    · rw [sameKeys]
      exact filed
    · intro other b atOther
      by_cases here : other = m
      · rw [here, atFreed] at atOther
        exact absurd atOther.symm (Option.some_ne_none b)
      · rw [others other here] at atOther
        exact counted other b atOther
    · have mine : ∀ other, other ≠ m → other ∉ s.ucProto up := by
        intro other apart inside
        rw [blocks] at inside
        exact apart (List.mem_singleton.mp inside)
      constructor
      · intro owner place
        rw [← Option.map_eq_some_iff]
        by_cases here : place = m
        · subst here
          rw [atFreed, Option.map_none]
          refine ⟨fun inside => ?_, fun absent => absurd absent.symm (Option.some_ne_none _)⟩
          by_cases self : owner = up
          · rw [self, emptyList] at inside
            exact absurd inside List.not_mem_nil
          · rw [kept owner self, ok.owned.act, ← Option.map_eq_some_iff, act] at inside
            exact absurd (Option.some_inj.mp inside).symm self
        · rw [others place here, acts, Option.map_eq_some_iff, ← ok.owned.act]
          by_cases self : owner = up
          · rw [self, emptyList]
            exact ⟨fun inside => absurd inside List.not_mem_nil,
              fun inside => absurd inside (mine place here)⟩
          · rw [kept owner self]
      · intro owner
        by_cases self : owner = up
        · rw [self, emptyList]
          exact List.nodup_nil
        · rw [kept owner self]
          exact ok.owned.nodup owner
    · intro place r onChain inside
      rw [blocks, List.mem_singleton] at inside
      exact filed.off_chains (gone r inside) place onChain

/-! ### Runs -/

/-- The connection has the number in an entry of one of its blocks. -/
def Holds (s : RawState) (up : Nat) (r : Ref) (prnum : Int) : Prop :=
  r.block ∈ s.ucProto up ∧ ∃ b p, s.blocks r.block = some b ∧ b.entries[r.index]? = some p ∧
    p.prUsed = true ∧ p.prNum = prnum

/-- The chains hold exactly the entries in use of the connections, each once and on the chain of
its number; a connection has a number once; and the blocks count their entries in use. -/
structure ChainsRight (s : RawState) : Prop where
  exact : ∀ (place : Header) (r : Ref), r ∈ s.chains place ↔
    ∃ up prnum, Holds s up r prnum ∧ profind (ucbs up) prnum = place
  nodup : ∀ place : Header, (s.chains place).Nodup
  once : ∀ (up : Nat) (prnum : Int) (first second : Ref), Holds s up first prnum →
    Holds s up second prnum → first = second
  count : ∀ (up m : Nat), m ∈ s.ucProto up →
    ∃ b, s.blocks m = some b ∧ b.mLen = b.entries.countP Proto.prUsed

variable {ucbs}

theorem holds_iff (owned : Owned s) {up : Nat} {r : Ref} {prnum : Int} :
    Holds s up r prnum ↔ key s r = some (up, prnum) := by
  rw [key_eq_some]
  constructor
  · rintro ⟨mine, b, p, there, inside, used, number⟩
    obtain ⟨b', there', act⟩ := (owned.act up r.block).mp mine
    obtain rfl : b = b' := Option.some_inj.mp (there.symm.trans there')
    exact ⟨b, p, there, inside, used, act, number⟩
  · rintro ⟨b, p, there, inside, used, act, number⟩
    exact ⟨(owned.act up r.block).mpr ⟨b, there, act⟩, b, p, there, inside, used, number⟩

theorem RawOk.chainsRight (ok : RawOk ucbs s) : ChainsRight ucbs s where
  exact := by
    intro place r
    rw [ok.filed.mem place r, Prod.exists]
    exact exists₂_congr fun up prnum => and_congr_left fun _ => (holds_iff ok.owned).symm
  nodup := ok.filed.nodup
  once := fun up prnum first second holdsFirst holdsSecond =>
    ok.filed.once first second (up, prnum) ((holds_iff ok.owned).mp holdsFirst)
      ((holds_iff ok.owned).mp holdsSecond)
  count := by
    intro up m mine
    obtain ⟨b, there, _⟩ := (ok.owned.act up m).mp mine
    exact ⟨b, there, (ok.counted m b there).2⟩

theorem rawStart_ok : RawOk ucbs rawStart where
  filed := filed_empty
  counted := fun _ b there => absurd there.symm (Option.some_ne_none b)
  owned := by
    constructor
    · intro up m
      refine ⟨fun inside => absurd inside List.not_mem_nil, ?_⟩
      rintro ⟨b, there, _⟩
      exact absurd there.symm (Option.some_ne_none b)
    · exact fun _ => List.nodup_nil

theorem RawOk.rawStep (ok : RawOk ucbs s) {event : RawEvent} (sound : Sound ucbs s event)
    (unused : Unused s event) : ∃ next, rawStep ucbs s event = some next ∧ RawOk ucbs next := by
  cases event with
  | add up prnum got =>
    refine ok.rawAdd ucbs ?_ sound
    rintro m rfl
    exact unused
  | del up prnum => exact ok.rawDel ucbs sound
  | free up =>
    obtain ⟨next, freed, right, _⟩ := ok.rawFree ucbs sound
    exact ⟨next, freed, right⟩

theorem run_ok {history : List RawEvent}
    (run : Transition.Run (Transition.Guarded (RawStep ucbs) (Sound ucbs)) rawStart history s) :
    RawOk ucbs s := by
  refine run.always (RawOk ucbs) rawStart_ok ?_
  rintro state event next ok ⟨sound, unused, taken⟩
  obtain ⟨outcome, outcomeOf, right⟩ := ok.rawStep sound unused
  obtain rfl := Option.some_inj.mp (taken.symm.trans outcomeOf)
  exact right

/-- In every run of sound calls the chains and the blocks agree, every sound call has an outcome,
and after a connection is freed it has no blocks and no chain holds an entry of those it had. -/
theorem chains_right (ucbs : Nat → RawUcb) (history : List RawEvent) (s : RawState)
    (run : Transition.Run (Transition.Guarded (RawStep ucbs) (Sound ucbs)) rawStart history s) :
    ChainsRight ucbs s ∧
      (∀ event, Sound ucbs s event → Unused s event → (Raw.rawStep ucbs s event).isSome = true) ∧
      ∀ up next, Sound ucbs s (.free up) → Raw.rawStep ucbs s (.free up) = some next →
        next.ucProto up = [] ∧ ∀ place, ∀ r ∈ next.chains place, r.block ∉ s.ucProto up := by
  have ok := run_ok run
  refine ⟨ok.chainsRight, fun event sound unused => ?_, fun up next sound freed => ?_⟩
  · obtain ⟨next, outcome, _⟩ := ok.rawStep sound unused
    rw [outcome, Option.isSome_some]
  · obtain ⟨outcome, outcomeOf, _, gone⟩ := ok.rawFree ucbs sound
    obtain rfl := Option.some_inj.mp (freed.symm.trans outcomeOf)
    exact gone

/-! ### Two numbers, and a second block -/

/-- The state after a call, where it has an outcome. -/
def after (ucbs : Nat → RawUcb) (s : RawState) (event : RawEvent) : RawState :=
  (Raw.rawStep ucbs s event).getD s

/-- Each of the calls gets a buffer that is not in use and has an outcome. -/
def outcomes (ucbs : Nat → RawUcb) : RawState → List RawEvent → Bool
  | _, [] => true
  | s, event :: rest =>
    decide (Unused s event) && (Raw.rawStep ucbs s event).isSome &&
      outcomes ucbs (after ucbs s event) rest

theorem follows_of_outcomes {events : List RawEvent} (all : outcomes ucbs s events = true) :
    Transition.Follows (RawStep ucbs) (after ucbs) s events := by
  induction events generalizing s with
  | nil => exact trivial
  | cons event rest inductionHypothesis =>
    unfold outcomes at all
    rw [Bool.and_eq_true, Bool.and_eq_true, decide_eq_true_eq] at all
    obtain ⟨⟨unused, hasOutcome⟩, all⟩ := all
    obtain ⟨next, outcome⟩ := Option.isSome_iff_exists.mp hasOutcome
    refine ⟨⟨unused, ?_⟩, inductionHypothesis all⟩
    unfold after
    rw [outcome, Option.getD_some]

/-- Connections that take packets of the internet protocol. -/
def rawIp : Nat → RawUcb := fun _ => ⟨true, false, 0⟩

def twoNumbers : List RawEvent := [.add 0 6 (some 0), .add 0 80 none]

theorem chains_right_two_numbers : ChainsRight rawIp (twoNumbers.foldl (after rawIp) rawStart) := by
  have follows : Transition.Follows (Transition.Guarded (RawStep rawIp) (Sound rawIp)) (after rawIp)
      rawStart twoNumbers := ⟨⟨by decide, rfl, rfl⟩, ⟨by decide, trivial, rfl⟩, trivial⟩
  exact (chains_right rawIp _ _ (Transition.Run.start.follows follows)).1

/-- Sixteen numbers for one connection; the first and the fifteenth need a block. -/
def sixteenNumbers : List RawEvent :=
  (List.range 16).map fun i =>
    .add 0 (100 + i) (if i = 0 then some 0 else if i = 14 then some 1 else none)

/-- The sixteenth number finds the second block not full, searches the first one, and makes the
second block, which has one entry in use, count as full. -/
theorem second_block_count_wrong :
    ¬ ∀ history s, Transition.Run (RawStep rawIp) rawStart history s → ChainsRight rawIp s := by
  intro always
  have follows : Transition.Follows (RawStep rawIp) (after rawIp) rawStart sixteenNumbers :=
    follows_of_outcomes (by decide +kernel)
  have right := always _ _ (Transition.Run.start.follows follows)
  obtain ⟨b, there, count⟩ := right.count 0 1 (by decide +kernel)
  have wrong : ((sixteenNumbers.foldl (after rawIp) rawStart).blocks 1).all
      (fun b => b.mLen != b.entries.countP Proto.prUsed) = true := by decide +kernel
  rw [there, Option.all_some, bne_iff_ne] at wrong
  exact wrong count

end Routines

end NetworkUnix.Bbnnet.Raw
