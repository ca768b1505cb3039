/-
This file models the queues of messages from the kernel to the daemon. A message is
put in the queue of interrupts or the regular one with a mark on its last buffer;
a read takes buffers from a queue up to a mark and makes one message of them.

A buffer is tested for the mark after it was made part of the message. When its
bytes fit in the room behind those of the buffer before it, they are copied there,
and the buffer is freed and loses its mark: the read goes on with the next message
of the queue. It is proved that otherwise, or when there is no next message, every
read gives one message of its queue, in the order they were put in.
-/

import NetworkUnix.Ncpk.Pool

namespace NetworkUnix.Ncpk.Kerbuf

open TailRing

/-! ### The queues -/

/-- The pool, the messages of the owners, and the queues to the daemon. -/
structure Ncp where
  pool : Kernel
  handles : List (Option Nat)
  ncpirq : Option Nat
  ncprq : Option Nat
  ncptimo : Bool
  ncpopnstate : Int

/-- The queue of interrupts, or the regular one. -/
def Ncp.qptr (ncp : Ncp) (irq : Bool) : Option Nat := if irq then ncp.ncpirq else ncp.ncprq

def Ncp.setQueue (ncp : Ncp) (irq : Bool) (q : Option Nat) : Ncp :=
  if irq then { ncp with ncpirq := q } else { ncp with ncprq := q }

section Routines

variable (netBSize bHyster : Nat)

/-- Flush the message if the daemon has closed, else put it in a queue. -/
def toNcp (getblk : Getblk) (irq : Bool) (vec : List (BitVec 8)) (msgpp : Option Nat) (ncp : Ncp) :
    Except Stop (Ncp × Int) :=
  if ncp.ncpopnstate ≤ 0 then
    (freemsg bHyster msgpp ncp.pool).map fun k => ({ ncp with pool := k }, -1)
  else
    (msgQ netBSize bHyster getblk (ncp.qptr irq) vec msgpp ncp.pool).map fun queued =>
      ({ ncp with pool := queued.1 }.setQueue irq queued.2, 0)

/-- Copy the first logical message of a queue to a temporary message. -/
def takeMsg : (trips : Nat) → (q : Nat) → (msgptr : Option Nat) → Kernel →
    Except Stop (Kernel × Option Nat × Option Nat)
  | 0, _, _, _ => .error .lost
  | trips + 1, q, msgptr, k =>
    let bufptr := k.bQlink q
    let left := ifreebuf q k
    match catmsg netBSize bHyster msgptr (some bufptr) left.1 with
    | .error stop => .error stop
    | .ok (k, msgptr) =>
      match left.2 with
      | none => .ok (k, none, msgptr)
      | some q => if k.bEom bufptr then .ok (k, some q, msgptr) else takeMsg trips q msgptr k

/-- The queue that is read. -/
def Ncp.readFrom (ncp : Ncp) : Option Bool :=
  if ncp.ncptimo then none
  else if ncp.ncpirq.isSome then some true
  else if ncp.ncprq.isSome then some false
  else none

/-- Read from a queue that has a message: what the daemon does not ask for is reclaimed. -/
def readMsg (q : Nat) (count : Nat) (k : Kernel) :
    Except Stop (Kernel × Option Nat × List (BitVec 8)) :=
  match takeMsg netBSize bHyster mostBufs q none k with
  | .error stop => .error stop
  | .ok (k, q, msgptr) =>
    match bytesout bHyster msgptr count k with
    | .error stop => .error stop
    | .ok (k, msgptr, vec, _) => (freemsg bHyster msgptr k).map fun k => (k, q, vec)

/-- Pass a timeout, or a message with the queue it comes from, or sleep. -/
def ncpread (count : Nat) (ncp : Ncp) : Except Stop (Ncp × Option (Bool × List (BitVec 8))) :=
  match ncp.readFrom with
  | none => .ok ({ ncp with ncptimo := false }, none)
  | some irq =>
    match ncp.qptr irq with
    | none => .error .lost
    | some q => (readMsg netBSize bHyster q count ncp.pool).map fun got =>
      ({ ncp with pool := got.1 }.setQueue irq got.2.1, some (irq, got.2.2))

/-! ### Runs -/

/-- The buffers of a message, from the first to the last. -/
def buffers (k : Kernel) (msg : Option Nat) : List Nat :=
  (msg.map fun p => walk k.bQlink p mostBufs (k.bQlink p)).getD []

/-- What happens: an owner builds a message or passes it on, the daemon reads, the time is up. -/
inductive Event
  | owner (event : Call netBSize)
  | toNcp (getblk : Getblk) (irq : Bool) (vec : List (BitVec 8)) (msg : Option Nat)
  | ncpread (count : Nat)
  | timeout

/-- A message that was put in a queue, or read from it. -/
structure Item where
  isRead : Bool
  irq : Bool
  message : List (BitVec 8)

/-- One step, with what it has put or read. A process that sleeps does so again. -/
def ncpStep (ncp : Ncp) : Event netBSize → Except Stop (Ncp × List Item)
  | .owner event => (step netBSize bHyster (ncp.pool, ncp.handles) event).map fun state =>
    ({ ncp with pool := state.1, handles := state.2 }, [])
  | .toNcp getblk irq vec msg =>
    if ncp.handles.contains msg && (!vec.isEmpty || msg.isSome) then
      match toNcp netBSize bHyster getblk irq vec msg ncp with
      | .error .asleep => .ok (ncp, [])
      | .error .lost => .error .lost
      | .ok (next, result) =>
        .ok ({ next with handles := none :: ncp.handles.erase msg },
          if result = 0 then [⟨false, irq, vec ++ content ncp.pool (buffers ncp.pool msg)⟩] else [])
    else .ok (ncp, [])
  | .ncpread count => (ncpread netBSize bHyster count ncp).map fun read =>
    (read.1, (read.2.map fun got => Item.mk true got.1 got.2).toList)
  | .timeout => .ok ({ ncp with ncptimo := true }, [])

def ncpRun (ncp : Ncp) : List (Event netBSize) → Except Stop (Ncp × List Item)
  | [] => .ok (ncp, [])
  | event :: rest =>
    match ncpStep netBSize bHyster ncp event with
    | .error stop => .error stop
    | .ok (next, items) => (ncpRun next rest).map fun last => (last.1, items ++ last.2)

/-- The messages put in a queue, or read from it, in order. -/
def messages (isRead irq : Bool) (items : List Item) : List (List (BitVec 8)) :=
  (items.filter fun item => item.isRead == isRead && item.irq == irq).map Item.message

/-! ### When a mark is lost -/

/-- The bytes of a buffer fit behind those of the last buffer, if there is one. -/
def lands (ahead : Option Nat) (len : Nat) : Bool :=
  (ahead.map fun filled => decide (len ≤ netBSize - filled)).getD false

/-- How many bytes the last buffer has when a buffer is made part of a message. -/
def lastLen (ahead : Option Nat) (len : Nat) : Nat :=
  if lands netBSize ahead len then ahead.getD 0 + len else len

/-- The last of some buffers is copied behind the one before it. -/
def swallowed : (ahead : Option Nat) → (lens : List Nat) → Bool
  | _, [] => false
  | ahead, [len] => lands netBSize ahead len
  | ahead, len :: lens => swallowed (some (lastLen netBSize ahead len)) lens

/-- How many buffers there are up to the first mark. -/
def firstMsg (k : Kernel) (bufs : List Nat) : Nat :=
  (bufs.takeWhile fun buf => !k.bEom buf).length + 1

/-- A read asks for all bytes of the first message, and the last buffer of that message is not
copied behind the one before it, or there is no message behind it. -/
def Sound (ncp : Ncp) (count : Nat) : Prop :=
  ∀ irq, ncp.readFrom = some irq →
    let bufs := buffers ncp.pool (ncp.qptr irq)
    let first := bufs.take (firstMsg ncp.pool bufs)
    (content ncp.pool first).length ≤ count ∧
      (swallowed netBSize none (first.map ncp.pool.bLen) = false ∨
        bufs.drop (firstMsg ncp.pool bufs) = [])

def Meets (ncp : Ncp) : Event netBSize → Prop
  | .ncpread count => Sound netBSize ncp count
  | _ => True

/-- Every read of a run is sound. -/
def Guarded (ncp : Ncp) : List (Event netBSize) → Prop
  | [] => True
  | event :: rest => Meets netBSize ncp event ∧
    ∀ next items, ncpStep netBSize bHyster ncp event = .ok (next, items) → Guarded next rest

end Routines

/-! ### One buffer is made part of a message -/

variable {netBSize : Nat} {k : Kernel} {free nodes : List Nat} {msgs rest : List Msg}
  {h : Option Nat} {handles : List (Option Nat)}

theorem Ok.length_msg (ok : Ok k free ((h, nodes) :: msgs)) : nodes.length ≤ mostBufs := by
  refine Nat.le_trans ?_ ok.length_le
  rw [held_cons]
  simp only [List.length_append]
  omega

theorem Ok.buffers (ok : Ok k free ((h, nodes) :: msgs)) : Kerbuf.buffers k h = nodes := by
  have ring := ok.msgRing _ List.mem_cons_self
  cases h with
  | none => exact ring.empty.symm
  | some p => exact ring.walk ok.length_msg

/-- What a single buffer becomes as part of a message: its bytes are copied and its mark is lost, or
it is the last buffer and is marked as before. -/
theorem Ok.catmsg_one (bHyster : Nat) {first : Nat}
    (ok : Ok k free ((h, nodes) :: (some first, [first]) :: msgs)) (fits : Fits netBSize k nodes)
    (fits' : k.bLen first ≤ netBSize) :
    ∃ next left last later,
      Kerbuf.catmsg netBSize bHyster h (some first) k = .ok (next, some last) ∧
      Ok next left ((some last, later) :: msgs) ∧
      content next later = content k nodes ++ bytes k first ∧ Fits netBSize next later ∧
      Kept k next (held msgs) ∧ next.bLen last = lastLen netBSize (h.map k.bLen) (k.bLen first) ∧
      next.bEom first = (!lands netBSize (h.map k.bLen) (k.bLen first) && k.bEom first) := by
  have ring := ok.msgRing _ List.mem_cons_self
  cases h with
  | none =>
    obtain rfl := ring.empty
    refine ⟨k, free, first, [first], rfl, ok.tail_nil, ?_, fun buf inside => ?_, Kept.refl k _, ?_,
      ?_⟩
    · rw [content, List.flatMap_singleton]
      rfl
    · rwa [List.mem_singleton.mp inside]
    · rfl
    · rfl
  | some msg1 =>
    have leads : k.bQlink first = first := by
      obtain ⟨_, whole⟩ := (ok.msgRing _ (List.mem_cons_of_mem _ List.mem_cons_self)).first
      exact (List.cons.inj whole).1.symm
    have goes : Kerbuf.catmsg netBSize bHyster (some msg1) (some first) k =
        Kerbuf.catmsgFrom netBSize bHyster (mostBufs + 1) msg1 first k := rfl
    have landing : lands netBSize ((some msg1).map k.bLen) (k.bLen first) =
        decide (k.bLen first ≤ netBSize - k.bLen msg1) := rfl
    rw [goes, Kerbuf.catmsgFrom, leads, lastLen, landing]
    by_cases room : k.bLen first ≤ netBSize - k.bLen msg1
    · have lastFits := fits msg1 ring.last_mem
      have length := length_bytes k first
      obtain ⟨okCopy, contentCopy, fitsCopy, keptCopy⟩ :=
        ok.copyIn (bytes k first) fits (by omega)
      obtain ⟨next, left, freed, okNext, kept, unmarked⟩ :=
        (okCopy.perm (List.Perm.swap _ _ _)).freebuf bHyster
      rw [held_cons, List.nil_append] at kept
      have inFront (buf : Nat) (inside : buf ∈ nodes) : buf ∈ nodes ++ held msgs :=
        List.mem_append_left _ inside
      have copied : (Kerbuf.copyIn msg1 (bytes k first) k).bLen msg1 =
          k.bLen msg1 + k.bLen first := by
        show Function.update k.bLen msg1 _ msg1 = _
        rw [Function.update_self, length]
      rw [if_pos room, freed, decide_eq_true room, if_pos rfl]
      refine ⟨next, left, msg1, nodes, rfl, okNext.tail_nil,
        (kept.content inFront).trans contentCopy, kept.fits inFront fitsCopy, ?_, ?_, unmarked⟩
      · refine (keptCopy.mono fun buf inside => ?_).trans
          (kept.mono fun buf inside => List.mem_append_right _ inside)
        rw [held_cons]
        exact List.mem_append_right _ inside
      · exact (kept.bLen msg1 (inFront msg1 ring.last_mem)).trans copied
    · rw [if_neg room, decide_eq_false room, if_neg Bool.false_ne_true]
      refine ⟨_, free, first, nodes ++ [first], rfl, ok.splice, content_concat k nodes first, ?_,
        (Kept.refl k _).relink _, rfl, rfl⟩
      intro buf inside
      rcases List.mem_append.mp inside with inside | only
      · exact fits buf inside
      · rwa [List.mem_singleton.mp only]

/-! ### A message is taken -/

/-- A message with its mark: on its last buffer, and there only. -/
inductive Marked (k : Kernel) : List Nat → Prop
  | last {buf : Nat} (marked : k.bEom buf = true) : Marked k [buf]
  | front {buf : Nat} {rest : List Nat} (clean : k.bEom buf = false) (marked : Marked k rest) :
      Marked k (buf :: rest)

theorem Marked.ne_nil (marked : Marked k nodes) : nodes ≠ [] := by
  cases marked with
  | last _ => exact List.cons_ne_nil _ _
  | front _ _ => exact List.cons_ne_nil _ _

theorem Marked.kept {next : Kernel} {keep : List Nat} (marked : Marked k nodes)
    (kept : Kept k next keep) (within : ∀ buf ∈ nodes, buf ∈ keep) : Marked next nodes := by
  induction marked with
  | last marked => exact .last ((kept.bEom _ (within _ List.mem_cons_self)).trans marked)
  | front clean _ inductionHypothesis =>
    exact .front ((kept.bEom _ (within _ List.mem_cons_self)).trans clean)
      (inductionHypothesis (List.forall_mem_cons.mp within).2)

theorem marked_of_last {last : Nat} (once : nodes.Nodup) (isLast : nodes.getLast? = some last)
    (marked : k.bEom last = true) (only : ∀ buf ∈ nodes, k.bEom buf = true → buf = last) :
    Marked k nodes := by
  induction nodes with
  | nil => exact absurd isLast (Option.some_ne_none last).symm
  | cons buf after inductionHypothesis =>
    cases after with
    | nil =>
      obtain rfl : buf = last := Option.some_inj.mp isLast
      exact .last marked
    | cons second others =>
      rw [List.getLast?_cons_cons] at isLast
      obtain ⟨new, once⟩ := List.nodup_cons.mp once
      refine .front ?_ (inductionHypothesis once isLast fun other inside =>
        only other (List.mem_cons_of_mem _ inside))
      refine Bool.eq_false_iff.mpr fun isMarked => new ?_
      rw [only buf List.mem_cons_self isMarked]
      exact List.mem_of_getLast? isLast

/-- The loop of a read takes the buffers up to the first mark, unless it is lost. -/
theorem Ok.takeMsg (bHyster : Nat) {trips q : Nat} {first later taken : List Nat}
    (enough : first.length ≤ trips) (marked : Marked k first)
    (ok : Ok k free ((some q, first ++ later) :: (h, taken) :: msgs))
    (fitsTaken : Fits netBSize k taken) (fits : Fits netBSize k first)
    (sound : swallowed netBSize (h.map k.bLen) (first.map k.bLen) = false ∨ later = []) :
    ∃ next left last whole, Kerbuf.takeMsg netBSize bHyster trips q h k =
        .ok (next, later.getLast?, some last) ∧
      Ok next left ((some last, whole) :: (later.getLast?, later) :: msgs) ∧
      content next whole = content k taken ++ content k first ∧ Fits netBSize next whole ∧
      Kept k next (later ++ held msgs) := by
  induction trips generalizing k free q h first taken with
  | zero => exact absurd (List.length_eq_zero_iff.mp (Nat.le_zero.mp enough)) marked.ne_nil
  | succ trips inductionHypothesis =>
    obtain ⟨b, rest, rfl⟩ := List.exists_cons_of_ne_nil marked.ne_nil
    rw [List.cons_append] at ok
    obtain ⟨leads, split⟩ := ok.ifreebuf
    have handle : (Kerbuf.ifreebuf q k).2 = (rest ++ later).getLast? :=
      (split.msgRing _ (List.mem_cons_of_mem _ List.mem_cons_self)).held
    rw [handle] at split
    have turned : Ok (Kerbuf.ifreebuf q k).1 free
        ((h, taken) :: (some b, [b]) :: ((rest ++ later).getLast?, rest ++ later) :: msgs) :=
      split.perm ((List.Perm.swap _ _ _).trans ((List.Perm.swap _ _ _).cons _))
    obtain ⟨mid, between, last, grown, joined, okMid, contentMid, fitsMid, keptMid, lenMid,
        eomMid⟩ := turned.catmsg_one bHyster fitsTaken (fits b List.mem_cons_self)
    rw [held_cons, List.append_assoc] at keptMid
    replace keptMid : Kept k mid (rest ++ (later ++ held msgs)) :=
      ⟨keptMid.bLen, keptMid.bEom, keptMid.bData⟩
    have keptLater : Kept k mid (later ++ held msgs) :=
      keptMid.mono fun buf inside => List.mem_append_right _ inside
    have inRest (buf : Nat) (inside : buf ∈ rest) : buf ∈ rest ++ (later ++ held msgs) :=
      List.mem_append_left _ inside
    have contentFirst : content k (b :: rest) = bytes k b ++ content k rest := List.flatMap_cons
    rw [Kerbuf.takeMsg, leads, joined, handle]
    cases marked with
    | last isMarked =>
      rw [List.nil_append] at okMid ⊢
      have whole : content mid grown = content k taken ++ content k [b] := by
        rw [contentMid, contentFirst, show content k [] = [] from rfl, List.append_nil]
        rfl
      have result : ∃ next left last' whole,
          (Except.ok (mid, later.getLast?, some last) : Except Stop _) =
            .ok (next, later.getLast?, some last') ∧
          Ok next left ((some last', whole) :: (later.getLast?, later) :: msgs) ∧
          content next whole = content k taken ++ content k [b] ∧ Fits netBSize next whole ∧
          Kept k next (later ++ held msgs) :=
        ⟨mid, between, last, grown, rfl, okMid, whole, fitsMid, keptLater⟩
      cases after : later.getLast? with
      | none =>
        rw [after] at result
        exact result
      | some q' =>
        have notLands : lands netBSize (h.map k.bLen) (k.bLen b) = false :=
          sound.resolve_right fun none => by
            rw [none] at after
            exact Option.some_ne_none q' after.symm
        have stays : mid.bEom b = true := by
          rw [eomMid]
          show (!lands netBSize (h.map k.bLen) (k.bLen b) && k.bEom b) = true
          rw [notLands, isMarked]
          rfl
        dsimp only
        rw [if_pos stays]
        rw [after] at result
        exact result
    | front clean others =>
      have cleared : mid.bEom b = false := by
        rw [eomMid]
        show (_ && k.bEom b) = false
        rw [clean, Bool.and_false]
      obtain ⟨c, more, isRest⟩ := List.exists_cons_of_ne_nil others.ne_nil
      have some : (rest ++ later).getLast? ≠ none := fun none => by
        rw [isRest] at none
        exact absurd (List.getLast?_eq_none_iff.mp none) (List.cons_ne_nil _ _)
      obtain ⟨q', after⟩ := Option.ne_none_iff_exists'.mp some
      have lens : rest.map mid.bLen = rest.map k.bLen :=
        List.map_congr_left fun buf inside => keptMid.bLen buf (inRest buf inside)
      have soundRest : swallowed netBSize ((Option.some last).map mid.bLen) (rest.map mid.bLen) =
          false ∨ later = [] := by
        refine sound.imp_left fun none => ?_
        rw [lens, Option.map_some, lenMid]
        rw [isRest] at none ⊢
        exact none
      rw [after] at okMid ⊢
      dsimp only
      rw [cleared, if_neg Bool.false_ne_true]
      obtain ⟨next, left, last', whole, run, okNext, contentNext, fitsNext, kept⟩ :=
        inductionHypothesis (Nat.le_of_succ_le_succ enough) (others.kept keptMid inRest)
          (okMid.perm (List.Perm.swap _ _ _)) fitsMid (keptMid.fits inRest fun buf inside =>
            fits buf (List.mem_cons_of_mem _ inside)) soundRest
      refine ⟨next, left, last', whole, run, okNext, ?_, fitsNext, keptLater.trans kept⟩
      rw [contentNext, contentMid, keptMid.content inRest, contentFirst, List.append_assoc]
      rfl

theorem Ok.readMsg (bHyster : Nat) {q count : Nat} {first later : List Nat}
    (marked : Marked k first) (ok : Ok k free ((some q, first ++ later) :: msgs))
    (fits : Fits netBSize k first) (all : (content k first).length ≤ count)
    (sound : swallowed netBSize none (first.map k.bLen) = false ∨ later = []) :
    ∃ next left, Kerbuf.readMsg netBSize bHyster q count k =
        .ok (next, later.getLast?, content k first) ∧
      Ok next left ((later.getLast?, later) :: msgs) ∧ Kept k next (later ++ held msgs) := by
  have enough : first.length ≤ mostBufs := by
    refine Nat.le_trans ?_ ok.length_msg
    rw [List.length_append]
    exact Nat.le_add_right _ _
  obtain ⟨mid, between, last, whole, took, okMid, contentMid, fitsMid, keptMid⟩ :=
    (ok.cons_nil.perm (List.Perm.swap _ _ _)).takeMsg bHyster enough marked
      (plain_nil netBSize k).fits fits sound
  have same : content mid whole = content k first := contentMid
  obtain ⟨out, leftOut, rest, taken, okOut, -, -, -, keptOut, -⟩ :=
    okMid.bytesout bHyster count fitsMid
  rw [held_cons] at keptOut
  rw [same, List.take_of_length_le all] at taken
  obtain ⟨next, left, freed, okNext, keptNext⟩ := okOut.freemsg bHyster
  rw [held_cons] at keptNext
  refine ⟨next, left, ?_, okNext, (keptMid.trans keptOut).trans keptNext⟩
  rw [Kerbuf.readMsg, took]
  dsimp only
  rw [taken]
  dsimp only
  rw [freed]
  rfl

/-! ### Steps -/

/-- The two queues as messages of the pool, the given one first. -/
def queues (ncp : Ncp) (pending : Bool → List (List Nat)) (irq : Bool) : List Msg :=
  [(ncp.qptr irq, (pending irq).flatten), (ncp.qptr !irq, (pending !irq).flatten)]

/-- The pool and the messages of the owners are as they should be, and the queues consist of marked
messages. -/
structure NcpOk (netBSize : Nat) (ncp : Ncp) (pending : Bool → List (List Nat)) : Prop where
  inv : Inv netBSize (queues ncp pending true) (ncp.pool, ncp.handles)
  marked : ∀ irq, ∀ nodes ∈ pending irq, Marked ncp.pool nodes
  fits : ∀ irq, ∀ nodes ∈ pending irq, Fits netBSize ncp.pool nodes

/-- A step is that of two queues of messages: what was there and what is put is what is read and
what is there then. -/
def Moves (netBSize : Nat) (ncp : Ncp) (pending : Bool → List (List Nat))
    (result : Except Stop (Ncp × List Item)) : Prop :=
  ∃ next items later, result = .ok (next, items) ∧ NcpOk netBSize next later ∧
    ∀ irq, (pending irq).map (content ncp.pool) ++ messages false irq items =
      messages true irq items ++ (later irq).map (content next.pool)

variable {ncp next : Ncp} {pending : Bool → List (List Nat)}

theorem Inv.perm {state : State} {rest' : List Msg} (inv : Inv netBSize rest state)
    (same : rest'.Perm rest) : Inv netBSize rest' state := by
  obtain ⟨free, msgs, ok, isHandles, plain⟩ := inv
  exact ⟨free, msgs, ok.perm (same.append_left msgs), isHandles, plain⟩

theorem queues_perm (ncp : Ncp) (pending : Bool → List (List Nat)) (irq : Bool) :
    (queues ncp pending irq).Perm (queues ncp pending true) := by
  cases irq with
  | true => exact List.Perm.refl _
  | false => exact List.Perm.swap _ _ _

theorem mem_queues {irq which : Bool} {nodes : List Nat} (member : nodes ∈ pending which)
    {buf : Nat} (inside : buf ∈ nodes) : buf ∈ held (queues ncp pending irq) := by
  have here : buf ∈ (pending which).flatten := List.mem_flatten.mpr ⟨nodes, member, inside⟩
  refine mem_held.mpr ⟨(ncp.qptr which, (pending which).flatten), ?_, here⟩
  cases irq <;> cases which
  all_goals first
    | exact List.mem_cons_self
    | exact List.mem_cons_of_mem _ List.mem_cons_self

theorem NcpOk.alone (ok : NcpOk netBSize ncp pending)
    (inv : Inv netBSize (queues ncp pending true) (next.pool, next.handles))
    (same : ∀ irq, next.qptr irq = ncp.qptr irq)
    (kept : Kept ncp.pool next.pool (held (queues ncp pending true))) :
    Moves netBSize ncp pending (.ok (next, [])) := by
  have unchanged : queues next pending true = queues ncp pending true := by
    rw [queues, queues, same, same]
  refine ⟨next, [], pending, rfl, ⟨unchanged ▸ inv, fun irq nodes member => ?_,
    fun irq nodes member => ?_⟩, fun irq => ?_⟩
  · exact (ok.marked irq nodes member).kept kept fun buf inside => mem_queues member inside
  · exact kept.fits (fun buf inside => mem_queues member inside) (ok.fits irq nodes member)
  · rw [show messages false irq [] = [] from rfl, show messages true irq [] = [] from rfl,
      List.append_nil, List.nil_append]
    exact List.map_congr_left fun nodes member =>
      (kept.content fun buf inside => mem_queues member inside).symm

theorem NcpOk.idle (ok : NcpOk netBSize ncp pending) :
    Moves netBSize ncp pending (.ok (ncp, [])) :=
  ok.alone ok.inv (fun _ => rfl) (Kept.refl _ _)

theorem qptr_setQueue (ncp : Ncp) (irq which : Bool) (q : Option Nat) :
    (ncp.setQueue irq q).qptr which = if which = irq then q else ncp.qptr which := by
  cases irq <;> cases which <;> rfl

theorem messages_one (isRead irq : Bool) (item : Item) : messages isRead irq [item] =
    if item.isRead = isRead ∧ item.irq = irq then [item.message] else [] := by
  obtain ⟨itemRead, itemIrq, message⟩ := item
  cases itemRead <;> cases isRead <;> cases itemIrq <;> cases irq <;> rfl

theorem Inv.frontQueue (inv : Inv netBSize (queues ncp pending true) (ncp.pool, ncp.handles))
    (irq : Bool) (inside : h ∈ ncp.handles) :
    ∃ free nodes msgs, Ok ncp.pool free ((h, nodes) ::
        (ncp.qptr irq, (pending irq).flatten) ::
        (msgs ++ [(ncp.qptr !irq, (pending !irq).flatten)])) ∧
      (msgs.map Prod.fst).Perm (ncp.handles.erase h) ∧ Plain netBSize ncp.pool nodes ∧
      ∀ msg ∈ msgs, Plain netBSize ncp.pool msg.2 := by
  obtain ⟨free, nodes, msgs, ok, same, plain, others⟩ :=
    (inv.perm (queues_perm ncp pending irq)).front inside
  exact ⟨free, nodes, msgs, ok.perm (List.perm_middle.symm.cons _), same, plain, others⟩

theorem mem_flatten {irq : Bool} {nodes : List Nat} (member : nodes ∈ pending irq) {buf : Nat}
    (inside : buf ∈ nodes) : buf ∈ (pending irq).flatten :=
  List.mem_flatten.mpr ⟨nodes, member, inside⟩

theorem NcpOk.onQueue (ok : NcpOk netBSize ncp pending) {irq : Bool} {q : Option Nat}
    {left : List Nat} {later : List (List Nat)} {k : Kernel} {items : List Item}
    (okNext : Ok k left ((q, later.flatten) ::
      (msgs ++ [(ncp.qptr !irq, (pending !irq).flatten)])))
    (same : (msgs.map Prod.fst).Perm handles) (others : ∀ msg ∈ msgs, Plain netBSize k msg.2)
    (kept : Kept ncp.pool k (pending !irq).flatten)
    (marked : ∀ nodes ∈ later, Marked k nodes) (fits : ∀ nodes ∈ later, Fits netBSize k nodes)
    (here : (pending irq).map (content ncp.pool) ++ messages false irq items =
      messages true irq items ++ later.map (content k))
    (there : ∀ isRead, messages isRead (!irq) items = []) :
    Moves netBSize ncp pending
      (.ok ({ { ncp with pool := k }.setQueue irq q with handles := handles }, items)) := by
  have cases' {P : Bool → Prop} (own : P irq) (other : P (!irq)) (which : Bool) : P which := by
    cases irq <;> cases which <;> assumption
  have qptrs (which : Bool) : ({ { ncp with pool := k }.setQueue irq q with handles := handles } :
      Ncp).qptr which = if which = irq then q else ncp.qptr which :=
    qptr_setQueue { ncp with pool := k } irq which q
  let after (which : Bool) : List (List Nat) := if which = irq then later else pending which
  have afterHere : after irq = later := if_pos rfl
  have afterThere : after (!irq) = pending !irq := if_neg (Bool.not_ne_self irq)
  have pools : ({ { ncp with pool := k }.setQueue irq q with handles := handles } : Ncp).pool =
      k := by
    cases irq <;> rfl
  have split : queues { { ncp with pool := k }.setQueue irq q with handles := handles } after irq =
      [(q, later.flatten), (ncp.qptr !irq, (pending !irq).flatten)] := by
    rw [queues, qptrs, qptrs, afterHere, afterThere, if_pos rfl, if_neg (Bool.not_ne_self irq)]
  refine ⟨_, items, after, rfl, ⟨?_, ?_, ?_⟩, ?_⟩
  · refine Inv.perm ?_ (queues_perm _ after irq).symm
    rw [split, pools]
    exact ⟨left, msgs, okNext.perm List.perm_middle, same, others⟩
  · refine cases' ?_ ?_
    · rw [afterHere, pools]
      exact marked
    · rw [afterThere, pools]
      exact fun nodes member => (ok.marked _ nodes member).kept kept fun buf inside =>
        mem_flatten member inside
  · refine cases' ?_ ?_
    · rw [afterHere, pools]
      exact fits
    · rw [afterThere, pools]
      exact fun nodes member => kept.fits (fun buf inside => mem_flatten member inside)
        (ok.fits _ nodes member)
  · refine cases' ?_ ?_
    · rw [afterHere, pools]
      exact here
    · rw [afterThere, pools, there, there, List.append_nil, List.nil_append]
      exact List.map_congr_left fun nodes member =>
        (kept.content fun buf inside => mem_flatten member inside).symm

theorem NcpOk.put (ok : NcpOk netBSize ncp pending) (size : 0 < netBSize) (bHyster : Nat)
    (getblk : Getblk) (irq : Bool) (vec : List (BitVec 8)) (inside : h ∈ ncp.handles)
    (some : vec ≠ [] ∨ h ≠ none) :
    (toNcp netBSize bHyster getblk irq vec h ncp = .error .asleep) ∨
      ∃ next result, toNcp netBSize bHyster getblk irq vec h ncp = .ok (next, result) ∧
        Moves netBSize ncp pending (.ok ({ next with handles := none :: ncp.handles.erase h },
          if result = 0 then [⟨false, irq, vec ++ content ncp.pool (buffers ncp.pool h)⟩]
          else [])) := by
  unfold toNcp
  by_cases closed : ncp.ncpopnstate ≤ 0
  · rw [if_pos closed]
    obtain ⟨free, nodes, msgs, isOk, same, plain, others⟩ := ok.inv.front inside
    obtain ⟨next, left, freed, okNext, kept⟩ := isOk.freemsg bHyster
    rw [freed]
    refine .inr ⟨{ ncp with pool := next }, -1, rfl, ?_⟩
    rw [if_neg (by decide)]
    exact ok.alone (okNext.cons_nil.inv same (plain_nil _ _) (plain_kept kept others))
      (fun _ => rfl) kept.ofRest
  · rw [if_neg closed]
    obtain ⟨free, nodes, msgs, isOk, same, plain, others⟩ := ok.inv.frontQueue irq inside
    have given : vec ≠ [] ∨ nodes ≠ [] := some.imp_right fun held none => by
      exact held ((isOk.msgRing _ List.mem_cons_self).none_iff.mpr none)
    rcases isOk.msgQ size bHyster getblk vec plain.fits given with ⟨asleep, -⟩ |
      ⟨next, left, last, later, queued, okNext, whole, fits, kept, lastIn, isMarked, only⟩
    · rw [asleep]
      exact .inl rfl
    · rw [queued]
      refine .inr ⟨_, 0, rfl, ?_⟩
      have ring := okNext.msgRing _ List.mem_cons_self
      have once : later.Nodup := (List.nodup_append.mp ring.nodup).2.1
      have isLast : later.getLast? = .some last := by
        rw [← List.getLast?_append_of_ne_nil (pending irq).flatten (List.ne_nil_of_mem lastIn)]
        exact ring.held.symm
      have marked : Marked next later := marked_of_last once isLast isMarked fun buf here mark =>
        (only buf here mark).resolve_right fun old =>
          absurd ((plain.clean buf old.1).symm.trans old.2) Bool.false_ne_true
      have whole' : (pending irq ++ [later]).flatten = (pending irq).flatten ++ later := by
        rw [List.flatten_append, List.flatten_singleton]
      have inQueue : ∀ nodes ∈ pending irq, ∀ buf ∈ nodes, buf ∈ (pending irq).flatten ++
          held (msgs ++ [(ncp.qptr !irq, (pending !irq).flatten)]) :=
        fun _ member _ here => List.mem_append_left _ (mem_flatten member here)
      rw [if_pos rfl]
      have okQueue : Ok next left ((.some last, (pending irq ++ [later]).flatten) ::
          (((none, []) :: msgs) ++ [(ncp.qptr !irq, (pending !irq).flatten)])) := by
        rw [whole']
        exact okNext.cons_nil.perm (List.Perm.swap _ _ _)
      refine ok.onQueue okQueue (same.cons none) ?_ (kept.mono fun buf here => ?_) ?_ ?_ ?_
        fun isRead => ?_
      · intro msg member
        rcases List.mem_cons.mp member with rfl | member
        · exact plain_nil _ _
        · exact (others msg member).kept kept fun buf here => List.mem_append_right _
            (mem_held.mpr ⟨msg, List.mem_append_left _ member, here⟩)
      · exact List.mem_append_right _
          (mem_held.mpr ⟨_, List.mem_append_right _ List.mem_cons_self, here⟩)
      · intro nodes member
        rcases List.mem_append.mp member with member | only
        · exact (ok.marked irq nodes member).kept kept (inQueue nodes member)
        · rwa [List.mem_singleton.mp only]
      · intro nodes member
        rcases List.mem_append.mp member with member | only
        · exact kept.fits (inQueue nodes member) (ok.fits irq nodes member)
        · rwa [List.mem_singleton.mp only]
      · rw [messages_one, messages_one, if_pos ⟨rfl, rfl⟩, if_neg (by simp), List.nil_append,
          List.map_append, List.map_singleton, whole, isOk.buffers]
        refine congrArg (· ++ _) (List.map_congr_left fun nodes member => ?_)
        exact (kept.content (inQueue nodes member)).symm
      · rw [messages_one, if_neg fun same => Bool.not_ne_self irq same.2.symm]

theorem Marked.firstMsg (marked : Marked k nodes) (later : List Nat) :
    Kerbuf.firstMsg k (nodes ++ later) = nodes.length := by
  unfold Kerbuf.firstMsg
  induction marked with
  | last marked => rw [List.cons_append, List.takeWhile_cons_of_neg (by rw [marked]; decide)]; rfl
  | front clean _ inductionHypothesis =>
    rw [List.cons_append, List.takeWhile_cons_of_pos (by rw [clean]; decide), List.length_cons,
      inductionHypothesis]
    rfl

theorem readFrom_some {irq : Bool} (reads : ncp.readFrom = some irq) :
    ncp.ncptimo = false ∧ ∃ q, ncp.qptr irq = some q := by
  unfold Ncp.readFrom at reads
  split_ifs at reads with timo interrupts regular
  · obtain rfl := Option.some_inj.mp reads
    exact ⟨Bool.eq_false_iff.mpr timo, Option.isSome_iff_exists.mp interrupts⟩
  · obtain rfl := Option.some_inj.mp reads
    exact ⟨Bool.eq_false_iff.mpr timo, Option.isSome_iff_exists.mp regular⟩

theorem NcpOk.read (ok : NcpOk netBSize ncp pending) (bHyster count : Nat)
    (sound : Sound netBSize ncp count) :
    ∃ result, ncpread netBSize bHyster count ncp = .ok result ∧
      Moves netBSize ncp pending
        (.ok (result.1, (result.2.map fun got => Item.mk true got.1 got.2).toList)) := by
  unfold ncpread
  cases reads : ncp.readFrom with
  | none => exact ⟨_, rfl, ok.alone ok.inv (fun _ => rfl) (Kept.refl _ _)⟩
  | some irq =>
    obtain ⟨-, q, isQueue⟩ := readFrom_some reads
    obtain ⟨free, msgs, isOk, same, plain⟩ := ok.inv.perm (queues_perm ncp pending irq)
    have front : Ok ncp.pool free ((ncp.qptr irq, (pending irq).flatten) ::
        (msgs ++ [(ncp.qptr !irq, (pending !irq).flatten)])) :=
      isOk.perm List.perm_middle.symm
    have sounds := sound irq reads
    dsimp only at sounds
    rw [front.buffers] at sounds
    have nonempty : pending irq ≠ [] := fun none => by
      have ring := front.msgRing _ List.mem_cons_self
      rw [none, isQueue] at ring
      exact absurd ring.last_mem List.not_mem_nil
    obtain ⟨first, more, isPending⟩ := List.exists_cons_of_ne_nil nonempty
    have marked := ok.marked irq first (isPending ▸ List.mem_cons_self)
    have fits := ok.fits irq first (isPending ▸ List.mem_cons_self)
    rw [isPending, List.flatten_cons] at front sounds
    rw [marked.firstMsg, List.take_left, List.drop_left] at sounds
    rw [isQueue] at front
    obtain ⟨next, left, read, okNext, kept⟩ := front.readMsg bHyster marked fits sounds.1 sounds.2
    have inMore : ∀ nodes ∈ more, ∀ buf ∈ nodes, buf ∈ more.flatten ++
        held (msgs ++ [(ncp.qptr !irq, (pending !irq).flatten)]) := fun nodes member buf here =>
      List.mem_append_left _ (List.mem_flatten.mpr ⟨nodes, member, here⟩)
    have member' (nodes : List Nat) (member : nodes ∈ more) : nodes ∈ pending irq :=
      isPending ▸ List.mem_cons_of_mem _ member
    have goes : Moves netBSize ncp pending
        (.ok ({ { ncp with pool := next }.setQueue irq more.flatten.getLast? with
          handles := ncp.handles }, [⟨true, irq, content ncp.pool first⟩])) := by
      refine ok.onQueue okNext same ?_ (kept.mono fun buf here => ?_) ?_ ?_ ?_ fun isRead => ?_
      · exact fun msg member => (plain msg member).kept kept fun buf here =>
          List.mem_append_right _ (mem_held.mpr ⟨msg, List.mem_append_left _ member, here⟩)
      · exact List.mem_append_right _
          (mem_held.mpr ⟨_, List.mem_append_right _ List.mem_cons_self, here⟩)
      · exact fun nodes member => (ok.marked irq nodes (member' nodes member)).kept kept
          (inMore nodes member)
      · exact fun nodes member => kept.fits (inMore nodes member)
          (ok.fits irq nodes (member' nodes member))
      · rw [messages_one, messages_one, if_neg (by simp), if_pos ⟨rfl, rfl⟩, List.append_nil,
          isPending, List.map_cons]
        refine congrArg (content ncp.pool first :: ·) (List.map_congr_left fun nodes member => ?_)
        exact (kept.content (inMore nodes member)).symm
      · rw [messages_one, if_neg fun same => Bool.not_ne_self irq same.2.symm]
    have handles' : ({ { ncp with pool := next }.setQueue irq more.flatten.getLast? with
        handles := ncp.handles } : Ncp) =
          { ncp with pool := next }.setQueue irq more.flatten.getLast? := by
      cases irq <;> rfl
    rw [handles'] at goes
    dsimp only
    rw [isQueue]
    dsimp only
    rw [read]
    exact ⟨_, rfl, goes⟩

theorem NcpOk.step (ok : NcpOk netBSize ncp pending) (size : 0 < netBSize) (bHyster : Nat)
    (event : Event netBSize) (meets : Meets netBSize ncp event) :
    Moves netBSize ncp pending (ncpStep netBSize bHyster ncp event) := by
  cases event with
  | owner event =>
    obtain ⟨later, done, inv, kept⟩ := ok.inv.step size bHyster event
    rw [ncpStep, done]
    exact ok.alone inv (fun _ => rfl) kept
  | toNcp getblk irq vec msg =>
    rw [ncpStep]
    split_ifs with given
    · obtain ⟨owns, some⟩ := Bool.and_eq_true_iff.mp given
      have some' : vec ≠ [] ∨ msg ≠ none := by
        rcases Bool.or_eq_true_iff.mp some with some | some
        · exact .inl fun none => by
            rw [none] at some
            exact Bool.false_ne_true some
        · exact .inr (Option.isSome_iff_ne_none.mp some)
      rcases ok.put size bHyster getblk irq vec (List.contains_iff_mem.mp owns) some' with
        asleep | ⟨next, result, done, moves⟩
      · rw [asleep]
        exact ok.idle
      · rw [done]
        exact moves
    · exact ok.idle
  | ncpread count =>
    obtain ⟨result, done, moves⟩ := ok.read bHyster count meets
    rw [ncpStep, done]
    exact moves
  | timeout => exact ok.alone ok.inv (fun _ => rfl) (Kept.refl _ _)

theorem messages_append (isRead irq : Bool) (items more : List Item) :
    messages isRead irq (items ++ more) =
      messages isRead irq items ++ messages isRead irq more := by
  rw [messages, List.filter_append, List.map_append]
  rfl

theorem NcpOk.run (ok : NcpOk netBSize ncp pending) (size : 0 < netBSize) (bHyster : Nat)
    (events : List (Event netBSize)) (guarded : Guarded netBSize bHyster ncp events) :
    Moves netBSize ncp pending (ncpRun netBSize bHyster ncp events) := by
  induction events generalizing ncp pending with
  | nil => exact ok.idle
  | cons event rest inductionHypothesis =>
    obtain ⟨mid, items, between, done, okMid, moves⟩ := ok.step size bHyster event guarded.1
    obtain ⟨last, more, later, goes, okLast, movesOn⟩ :=
      inductionHypothesis okMid (guarded.2 mid items done)
    refine ⟨last, items ++ more, later, ?_, okLast, fun irq => ?_⟩
    · rw [ncpRun, done]
      dsimp only
      rw [goes]
      rfl
    · rw [messages_append, messages_append, ← List.append_assoc, moves, List.append_assoc, movesOn,
        List.append_assoc]

/-! ### Every run -/

/-- The daemon has opened the queues, and no owner has a message. -/
def boot (k : Kernel) (owners : Nat) : Ncp where
  pool := start k
  handles := List.replicate owners none
  ncpirq := none
  ncprq := none
  ncptimo := false
  ncpopnstate := 1

/-- When every read of a run is sound, the messages put in a queue are those that were read from it,
in this order, and those that are still there; and a queue is empty when all have been read. -/
theorem boundaries_kept (size : 0 < netBSize) (bHyster : Nat) (k : Kernel) (owners : Nat)
    (events : List (Event netBSize))
    (guarded : Guarded netBSize bHyster (boot k owners) events) :
    ∃ last items, ncpRun netBSize bHyster (boot k owners) events = .ok (last, items) ∧
      ∀ irq, ∃ unread, messages false irq items = messages true irq items ++ unread ∧
        (unread = [] ↔ last.qptr irq = none) := by
  have ok : NcpOk netBSize (boot k owners) fun _ => [] := by
    obtain ⟨free, msgs, isOk, same, plain⟩ := @start_inv netBSize k owners
    refine ⟨⟨free, msgs, ?_, same, plain⟩, ?_, ?_⟩
    · rw [List.append_nil] at isOk
      exact isOk.cons_nil.cons_nil.perm List.perm_append_comm
    · exact fun _ _ member => absurd member List.not_mem_nil
    · exact fun _ _ member => absurd member List.not_mem_nil
  obtain ⟨last, items, later, ran, okLast, moves⟩ := ok.run size bHyster events guarded
  refine ⟨last, items, ran, fun irq => ⟨_, moves irq, ?_⟩⟩
  obtain ⟨free, msgs, isOk, -, -⟩ := okLast.inv.perm (queues_perm last later irq)
  have ring := isOk.msgRing (last.qptr irq, (later irq).flatten)
    (List.mem_append_right _ List.mem_cons_self)
  rw [ring.none_iff, List.map_eq_nil_iff, List.flatten_eq_nil_iff]
  constructor
  · rintro none nodes member
    rw [none] at member
    exact absurd member List.not_mem_nil
  · intro empty
    refine List.eq_nil_iff_forall_not_mem.mpr fun nodes member => ?_
    exact (okLast.marked irq nodes member).ne_nil (empty nodes member)

instance (netBSize : Nat) (ncp : Ncp) (count : Nat) : Decidable (Sound netBSize ncp count) :=
  inferInstanceAs (Decidable (∀ irq : Bool, ncp.readFrom = some irq → _ ∧ (_ ∨ _)))

/-- A result of which a property is to hold. -/
def resultMeets (result : Except Stop (Ncp × List Item)) (property : Ncp × List Item → Bool) :
    Bool :=
  match result with
  | .ok done => property done
  | .error _ => false

theorem exists_of_resultMeets {result : Except Stop (Ncp × List Item)}
    {property : Ncp × List Item → Bool} (meets : resultMeets result property = true) :
    ∃ done, result = .ok done ∧ property done = true := by
  cases result with
  | ok done => exact ⟨done, rfl, meets⟩
  | error _ => exact absurd meets Bool.false_ne_true

/-- A message of two bytes is put in the regular queue and read. -/
theorem boundaries_kept_once : ∃ last items,
    ncpRun 64 3 (boot pair 1) [.toNcp Getblk.above false [1, 2] none, .ncpread 5] =
      .ok (last, items) ∧
    ∀ irq, ∃ unread, messages false irq items = messages true irq items ++ unread ∧
      (unread = [] ↔ last.qptr irq = none) := by
  refine boundaries_kept (by decide) 3 pair 1 _
    ⟨trivial, fun next items done => ⟨?_, fun _ _ _ => trivial⟩⟩
  have meets : resultMeets (ncpStep 64 3 (boot pair 1) (.toNcp Getblk.above false [1, 2] none))
      (fun done => decide (Sound 64 done.1 5)) = true := by
    decide +kernel
  obtain ⟨_, same, sound⟩ := exists_of_resultMeets meets
  obtain rfl := Except.ok.inj (done.symm.trans same)
  show Sound 64 next 5
  exact of_decide_eq_true sound

/-- A message in two buffers of one byte each. -/
def shortBuffers : List (Event 64) :=
  [.owner (.appendb Getblk.above none),
    .owner (.write (some 1) (fun _ => 64) fun _ i => BitVec.ofNat 8 i),
    .owner (.appendb Getblk.above (some 1)),
    .owner (.write (some 2) (fun buf => if buf = 1 then 64 else 1) fun _ i => BitVec.ofNat 8 i),
    .owner (.bytesout (some 2) 63)]

/-- A second message is put behind it, and one read gives both. -/
theorem boundary_lost : ∃ last items,
    ncpRun 64 3 (boot pair 1) (shortBuffers ++ [Event.toNcp Getblk.above false [] (some 2),
      .toNcp Getblk.above false [9] none, .ncpread 10]) = .ok (last, items) ∧
    messages false false items = [[63, 0], [9]] ∧ messages true false items = [[63, 0, 9]] ∧
    ¬∃ unread, messages false false items = messages true false items ++ unread := by
  have meets : resultMeets (ncpRun 64 3 (boot pair 1) (shortBuffers ++
      [Event.toNcp Getblk.above false [] (some 2), .toNcp Getblk.above false [9] none, .ncpread 10]))
      (fun done => decide (messages false false done.2 = [[63, 0], [9]] ∧
        messages true false done.2 = [[63, 0, 9]])) = true := by
    decide +kernel
  obtain ⟨⟨last, items⟩, ran, both⟩ := exists_of_resultMeets meets
  obtain ⟨put, got⟩ := of_decide_eq_true both
  refine ⟨last, items, ran, put, got, ?_⟩
  rintro ⟨unread, same⟩
  rw [put, got] at same
  exact absurd (List.cons.inj same).1 (by decide)

end NetworkUnix.Ncpk.Kerbuf
