/-
This file states doubly linked lists whose nodes are named, with a stack of
spare nodes that are linked through the same `next` field. The links are
functions from nodes, as the fields of records are; what the links mean is a
pair of Lean lists, the nodes of the list between its two ends and the spare
nodes. Each act on the links is shown to be an act on these two lists.
-/

import Mathlib.Data.List.Perm.Basic
import Mathlib.Logic.Function.Basic

namespace Linked

open Function

/-- The two link fields of the nodes. -/
structure Links (Node : Type) where
  next : Node → Option Node
  last : Node → Option Node

variable {Node : Type}

/-- The nodes from one end of a list to the other are linked in both directions. -/
def Chain (links : Links Node) : Node → List Node → Node → Prop
  | first, [], tail => links.next first = some tail ∧ links.last tail = some first
  | first, node :: rest, tail =>
    links.next first = some node ∧ links.last node = some first ∧ Chain links node rest tail

/-- The nodes of a stack, each linked to the next. -/
def Stack (next : Node → Option Node) : Option Node → List Node → Prop
  | top, [] => top = none
  | top, node :: rest => top = some node ∧ Stack next (next node) rest

/-! ### What a chain depends on -/

theorem Chain.congr {links others : Links Node} {first tail : Node} {nodes : List Node}
    (chain : Chain links first nodes tail)
    (next : ∀ node ∈ first :: nodes, others.next node = links.next node)
    (last : ∀ node ∈ nodes ++ [tail], others.last node = links.last node) :
    Chain others first nodes tail := by
  induction nodes generalizing first with
  | nil =>
    exact ⟨(next first (by simp)).trans chain.1, (last tail (by simp)).trans chain.2⟩
  | cons node rest inductionHypothesis =>
    obtain ⟨ahead, back, others⟩ := chain
    refine ⟨(next first (by simp)).trans ahead, (last node (by simp)).trans back, ?_⟩
    exact inductionHypothesis others ((List.forall_mem_cons.mp next).2)
      ((List.forall_mem_cons.mp last).2)

theorem Stack.congr {next others : Node → Option Node} {top : Option Node} {nodes : List Node}
    (stack : Stack next top nodes) (same : ∀ node ∈ nodes, others node = next node) :
    Stack others top nodes := by
  induction nodes generalizing top with
  | nil => exact stack
  | cons node rest inductionHypothesis =>
    refine ⟨stack.1, ?_⟩
    rw [same node List.mem_cons_self]
    exact inductionHypothesis stack.2 (List.forall_mem_cons.mp same).2

/-! ### Along the chain -/

variable {links : Links Node} {first tail node : Node} {nodes before after : List Node}

theorem Chain.next_first (chain : Chain links first nodes tail) :
    links.next first = some (nodes.head?.getD tail) := by
  cases nodes with
  | nil => exact chain.1
  | cons node rest => exact chain.1

theorem Chain.next_at (chain : Chain links first (before ++ node :: after) tail) :
    links.next node = some (after.head?.getD tail) := by
  induction before generalizing first with
  | nil => exact chain.2.2.next_first
  | cons head rest inductionHypothesis => exact inductionHypothesis chain.2.2

theorem Chain.last_at (chain : Chain links first (before ++ node :: after) tail) :
    links.last node = some (before.getLast?.getD first) := by
  induction before generalizing first with
  | nil => exact chain.2.1
  | cons head rest inductionHypothesis =>
    rw [inductionHypothesis chain.2.2]
    cases rest <;> simp [List.getLast?_cons]

theorem Chain.next_mem (chain : Chain links first nodes tail) (member : node ∈ first :: nodes) :
    ∃ after, links.next node = some after ∧ after ∈ tail :: nodes := by
  rcases List.mem_cons.mp member with rfl | inside
  · refine ⟨_, chain.next_first, ?_⟩
    cases nodes <;> simp
  · obtain ⟨before, others, rfl⟩ := List.append_of_mem inside
    refine ⟨_, chain.next_at, ?_⟩
    cases others <;> simp

/-- The first node, from a given one on, at which a walk stops: one that meets the test, or the
end of the list. There is none if the walk takes more steps than it may. -/
def seek (next : Node → Option Node) (stop : Node → Bool) : Nat → Node → Option Node
  | 0, _ => none
  | steps + 1, node =>
    match next node with
    | none => some node
    | some after => if stop node then some node else seek next stop steps after

theorem Chain.seek_eq {steps : Nat} {stop : Node → Bool}
    (chain : Chain links first nodes tail) (ends : links.next tail = none)
    (enough : nodes.length < steps) :
    ∃ start, links.next first = some start ∧
      seek links.next stop steps start = some ((nodes.find? stop).getD tail) := by
  induction nodes generalizing first steps with
  | nil =>
    obtain ⟨fewer, rfl⟩ : ∃ fewer, steps = fewer + 1 := ⟨steps - 1, by simp at enough; omega⟩
    exact ⟨tail, chain.1, by simp [seek, ends]⟩
  | cons node rest inductionHypothesis =>
    obtain ⟨ahead, -, further⟩ := chain
    obtain ⟨fewer, rfl⟩ : ∃ fewer, steps = fewer + 1 := ⟨steps - 1, by simp at enough; omega⟩
    obtain ⟨start, toStart, found⟩ := inductionHypothesis further
      (show rest.length < fewer by simpa using enough)
    refine ⟨node, ahead, ?_⟩
    rw [seek, toStart]
    by_cases stops : stop node = true
    · simp [stops]
    · simp [stops, found]

theorem Chain.seek_from {steps : Nat} {stop : Node → Bool}
    (chain : Chain links first nodes tail)
    (ends : links.next tail = none) (enough : nodes.length < steps) (member : node ∈ nodes) :
    ∃ found, seek links.next stop steps node = some found ∧
      (found = tail ∨ found ∈ nodes ∧ stop found = true) := by
  induction nodes generalizing first with
  | nil => cases member
  | cons head rest inductionHypothesis =>
    have whole := @Chain.seek_eq _ links first tail _ steps stop chain ends enough
    obtain ⟨ahead, back, further⟩ := chain
    by_cases same : node = head
    · subst same
      obtain ⟨start, toStart, found⟩ := whole
      obtain rfl : node = start := Option.some.inj (ahead.symm.trans toStart)
      refine ⟨_, found, ?_⟩
      cases result : (node :: rest).find? stop with
      | none => exact .inl rfl
      | some value => exact .inr ⟨List.mem_of_find?_eq_some result, List.find?_some result⟩
    · have shorter : rest.length < steps := Nat.lt_of_succ_lt enough
      obtain ⟨found, sought, stops⟩ := inductionHypothesis further shorter
        ((List.mem_cons.mp member).resolve_left same)
      exact ⟨found, sought, stops.imp id fun ⟨inside, holds⟩ =>
        ⟨List.mem_cons_of_mem _ inside, holds⟩⟩

/-- The nodes from a given one on, as far as a walk may go. -/
def walk (next : Node → Option Node) : Nat → Node → List Node
  | 0, _ => []
  | steps + 1, node =>
    match next node with
    | none => []
    | some after => node :: walk next steps after

theorem Chain.walk_eq {steps : Nat}
    (chain : Chain links first nodes tail) (ends : links.next tail = none)
    (enough : nodes.length < steps) : walk links.next steps (nodes.head?.getD tail) = nodes := by
  induction nodes generalizing first steps with
  | nil =>
    obtain ⟨fewer, rfl⟩ : ∃ fewer, steps = fewer + 1 := ⟨steps - 1, by simp at enough; omega⟩
    simp [walk, ends]
  | cons node rest inductionHypothesis =>
    obtain ⟨fewer, rfl⟩ : ∃ fewer, steps = fewer + 1 := ⟨steps - 1, by simp at enough; omega⟩
    have further := inductionHypothesis chain.2.2 (show rest.length < fewer by simpa using enough)
    rw [List.head?_cons, Option.getD_some, walk, chain.2.2.next_first]
    simp only [further]

/-! ### A list and its spare nodes -/

/-- The links of a list and the top of its stack of spare nodes. -/
structure Pool (Node : Type) where
  links : Links Node
  avail : Option Node

/-- What the links mean: the nodes of the list and the spare ones, which are the given nodes
between them. -/
structure Pool.Holds (pool : Pool Node) (head tail : Node) (nodes queue free : List Node) :
    Prop where
  chain : Chain pool.links head queue tail
  ends : pool.links.next tail = none
  stack : Stack pool.links.next pool.avail free
  parts : (queue ++ free).Perm nodes
  distinct : (head :: tail :: nodes).Nodup

namespace Pool.Holds

variable {pool : Pool Node} {head tail : Node} {nodes queue free : List Node}

section

variable (held : pool.Holds head tail nodes queue free)
include held

theorem all_distinct :
    (head :: tail :: (queue ++ free)).Nodup :=
  ((held.parts.cons tail).cons head).nodup_iff.mpr held.distinct

theorem row_distinct :
    (head :: (queue ++ [tail])).Nodup := by
  have distinct := held.all_distinct
  simp only [List.nodup_cons, List.mem_cons, List.mem_append, List.nodup_append,
    List.not_mem_nil] at distinct ⊢
  grind

theorem queue_distinct : queue.Nodup :=
  (held.parts.nodup_iff.mpr (List.nodup_cons.mp (List.nodup_cons.mp held.distinct).2).2).sublist
    (List.sublist_append_left _ _)

theorem length_le :
    queue.length + free.length = nodes.length := by
  rw [← List.length_append, held.parts.length_eq]

theorem last_mem {node : Node}
    (member : node ∈ queue) :
    ∃ before, pool.links.last node = some before ∧ before ∈ head :: queue ∧ before ≠ node := by
  obtain ⟨before, others, rfl⟩ := List.append_of_mem member
  have row := held.row_distinct
  refine ⟨_, held.chain.last_at, ?_, ?_⟩
  · cases result : before.getLast? with
    | none => simp
    | some value => simp [List.mem_of_getLast? result]
  · rintro same
    cases result : before.getLast? with
    | none => simp_all
    | some value =>
      have inside := List.mem_of_getLast? result
      simp only [result, Option.getD_some] at same
      subst same
      simp only [List.nodup_cons, List.mem_append, List.mem_cons, List.nodup_append] at row
      grind

theorem next_mem {node : Node}
    (member : node ∈ queue) :
    ∃ after, pool.links.next node = some after ∧ after ∈ tail :: queue ∧ after ≠ node := by
  obtain ⟨before, others, rfl⟩ := List.append_of_mem member
  have row := held.row_distinct
  simp only [List.nodup_cons, List.mem_append, List.mem_cons, List.nodup_append] at row
  refine ⟨_, held.chain.next_at, ?_, ?_⟩
  · cases others <;> simp
  · cases others <;> simp <;> grind

end

end Pool.Holds

/-! ### Acts on the links -/

variable [DecidableEq Node]

/-- One node is made to follow another. -/
def Links.join (links : Links Node) (before after : Node) : Links Node where
  next := Function.update links.next before (some after)
  last := Function.update links.last after (some before)

/-- A node is taken out: its neighbours are made to follow one another. -/
def Links.unlink (links : Links Node) (node : Node) : Option (Links Node) :=
  match links.next node, links.last node with
  | some after, some before => some (links.join before after)
  | _, _ => none

/-- A node is put before the end of the list. -/
def Links.append (links : Links Node) (tail node : Node) : Option (Links Node) :=
  match links.last tail with
  | some before => some ((links.join before node).join node tail)
  | none => none

/-- A node is taken out of the list and put on the stack. -/
def Pool.release (pool : Pool Node) (node : Node) : Option (Pool Node) :=
  match pool.links.unlink node with
  | some links =>
    some ⟨{ links with next := Function.update links.next node pool.avail }, some node⟩
  | none => none

/-- A node is taken from the stack and put before the end of the list. -/
def Pool.take (pool : Pool Node) (tail node : Node) : Option (Pool Node) :=
  match pool.links.append tail node with
  | some links => some ⟨links, pool.links.next node⟩
  | none => none

/-- From a given node on, the nodes that meet a test are released. There is no result if the walk
takes more steps than it may. -/
def Pool.sweep (drop : Node → Bool) : Nat → Node → Pool Node → Option (Pool Node)
  | 0, _, _ => none
  | steps + 1, node, pool =>
    match pool.links.next node with
    | none => some pool
    | some after =>
      if drop node then
        match pool.release node with
        | some released => sweep drop steps after released
        | none => none
      else sweep drop steps after pool

@[simp]
theorem Links.join_next_self (links : Links Node) (before after : Node) :
    (links.join before after).next before = some after := by
  simp [join]

@[simp]
theorem Links.join_last_self (links : Links Node) (before after : Node) :
    (links.join before after).last after = some before := by
  simp [join]

theorem Links.join_next_other (links : Links Node) {before after node : Node}
    (other : node ≠ before) : (links.join before after).next node = links.next node :=
  update_of_ne other _ _

theorem Links.join_last_other (links : Links Node) {before after node : Node}
    (other : node ≠ after) : (links.join before after).last node = links.last node :=
  update_of_ne other _ _

theorem Pool.release_eq (pool : Pool Node) {node left right : Node}
    (toLeft : pool.links.last node = some left) (toRight : pool.links.next node = some right) :
    pool.release node = some
      ⟨⟨Function.update (pool.links.join left right).next node pool.avail,
        (pool.links.join left right).last⟩, some node⟩ := by
  unfold release Links.unlink
  rw [toLeft, toRight]

theorem Pool.take_eq (pool : Pool Node) {tail node left : Node}
    (toLeft : pool.links.last tail = some left) :
    pool.take tail node = some
      ⟨(pool.links.join left node).join node tail, pool.links.next node⟩ := by
  unfold take Links.append
  rw [toLeft]

/-! ### A node is taken out -/

theorem Chain.unlinked (chain : Chain links first (before ++ node :: after) tail)
    (distinct : (first :: (before ++ node :: after ++ [tail])).Nodup) :
    ∃ left right, links.last node = some left ∧ links.next node = some right ∧
      left ∈ first :: before ∧ right ∈ after ++ [tail] ∧
      Chain (links.join left right) first (before ++ after) tail := by
  induction before generalizing first with
  | nil =>
    obtain ⟨ahead, back, rest⟩ := chain
    cases after with
    | nil => exact ⟨first, tail, back, rest.1, by simp, by simp, by simp [Chain]⟩
    | cons follower others =>
      obtain ⟨ahead', back', further⟩ := rest
      refine ⟨first, follower, back, ahead', by simp, by simp, by simp, by simp, ?_⟩
      refine further.congr (fun other member => links.join_next_other ?_)
        fun other member => links.join_last_other ?_
      · rintro rfl
        simp_all
      · rintro rfl
        simp_all
  | cons head rest inductionHypothesis =>
    obtain ⟨ahead, back, further⟩ := chain
    obtain ⟨left, right, toLeft, toRight, leftMember, rightMember, others⟩ :=
      inductionHypothesis further (List.nodup_cons.mp distinct).2
    refine ⟨left, right, toLeft, toRight, List.mem_cons_of_mem _ leftMember, rightMember, ?_⟩
    refine ⟨?_, ?_, others⟩
    · rw [links.join_next_other, ahead]
      rintro rfl
      simp at distinct leftMember
      grind
    · rw [links.join_last_other, back]
      rintro rfl
      simp at distinct rightMember
      grind

/-! ### A node is put at the end -/

theorem Chain.appended (chain : Chain links first nodes tail) (distinct : (first :: (nodes ++ [tail])).Nodup)
    (fresh : node ∉ first :: (nodes ++ [tail])) :
    ∃ left, links.last tail = some left ∧ left ∈ first :: nodes ∧
      Chain ((links.join left node).join node tail) first (nodes ++ [node]) tail := by
  have notTail : node ≠ tail := by
    rintro rfl
    exact fresh (by simp)
  induction nodes generalizing first with
  | nil =>
    have notFirst : first ≠ node := by
      rintro rfl
      exact fresh (by simp)
    refine ⟨first, chain.2, by simp, ?_, ?_, by simp, by simp⟩
    · rw [Links.join_next_other _ notFirst, Links.join_next_self]
    · rw [Links.join_last_other _ notTail, Links.join_last_self]
  | cons head rest inductionHypothesis =>
    obtain ⟨ahead, back, further⟩ := chain
    obtain ⟨left, toLeft, leftMember, others⟩ := inductionHypothesis further
      (List.nodup_cons.mp distinct).2 fun member => fresh (List.mem_cons_of_mem _ member)
    refine ⟨left, toLeft, List.mem_cons_of_mem _ leftMember, ?_, ?_, others⟩
    · have notLeft : first ≠ left := by
        rintro rfl
        simp at distinct leftMember
        grind
      have notNode : first ≠ node := by
        rintro rfl
        exact fresh (by simp)
      rw [Links.join_next_other _ notNode, Links.join_next_other _ notLeft, ahead]
    · have headTail : head ≠ tail := by
        rintro rfl
        simp at distinct
      have headNode : head ≠ node := by
        rintro rfl
        exact fresh (by simp)
      rw [Links.join_last_other _ headTail, Links.join_last_other _ headNode, back]

/-! ### Acts on a list and its spare nodes -/

namespace Pool.Holds

variable {pool : Pool Node} {head tail : Node} {nodes queue free : List Node}

theorem release (held : pool.Holds head tail nodes queue free) {node : Node}
    (member : node ∈ queue) :
    ∃ after, pool.release node = some after ∧
      after.Holds head tail nodes (queue.erase node) (node :: free) := by
  obtain ⟨before, others, rfl⟩ := List.append_of_mem member
  have all := held.all_distinct
  have row := held.row_distinct
  obtain ⟨left, right, toLeft, toRight, leftMember, rightMember, chain⟩ :=
    held.chain.unlinked row
  have notBefore : node ∉ before := by
    have := held.queue_distinct
    simp only [List.nodup_append, List.mem_cons] at this
    grind
  have erased : (before ++ node :: others).erase node = before ++ others := by
    rw [List.erase_append_right _ notBefore, List.erase_cons_head]
  refine ⟨_, pool.release_eq toLeft toRight, ?_⟩
  rw [erased]
  simp only [List.nodup_cons, List.mem_cons, List.mem_append, List.nodup_append,
    List.not_mem_nil] at all row leftMember rightMember
  refine ⟨chain.congr (fun other inside => update_of_ne ?_ _ _) fun _ _ => rfl,
    ?_, ⟨rfl, ?_⟩, ?_, held.distinct⟩
  · rintro rfl
    simp only [List.mem_cons, List.mem_append] at inside
    grind
  · show Function.update (pool.links.join left right).next node pool.avail tail = none
    rw [update_of_ne (by grind), Links.join_next_other _ (by grind), held.ends]
  · show Stack _ (Function.update (pool.links.join left right).next node pool.avail node) free
    rw [update_self]
    refine held.stack.congr fun other inside => ?_
    show Function.update (pool.links.join left right).next node pool.avail other = _
    rw [update_of_ne (by grind), Links.join_next_other _ (by grind)]
  · refine List.Perm.trans ?_ held.parts
    simp only [List.append_assoc, List.cons_append]
    exact (List.Perm.append_left before List.perm_middle)

theorem take {node : Node} {rest : List Node}
    (held : pool.Holds head tail nodes queue (node :: rest)) :
    pool.avail = some node ∧ ∃ after, pool.take tail node = some after ∧
      after.Holds head tail nodes (queue ++ [node]) rest := by
  have all := held.all_distinct
  have row := held.row_distinct
  simp only [List.nodup_cons, List.mem_cons, List.mem_append, List.nodup_append] at all
  have fresh : node ∉ head :: (queue ++ [tail]) := by
    simp only [List.mem_cons, List.mem_append, List.not_mem_nil]
    grind
  obtain ⟨left, toLeft, leftMember, chain⟩ := held.chain.appended row fresh
  simp only [List.mem_cons] at leftMember
  refine ⟨held.stack.1, _, pool.take_eq toLeft, ?_⟩
  refine ⟨chain, ?_, ?_, ?_, held.distinct⟩
  · show ((pool.links.join left node).join node tail).next tail = none
    rw [Links.join_next_other _ (by grind), Links.join_next_other _ (by grind), held.ends]
  · refine held.stack.2.congr fun other inside => ?_
    show ((pool.links.join left node).join node tail).next other = _
    rw [Links.join_next_other _ (by grind), Links.join_next_other _ (by grind)]
  · simpa using held.parts

theorem sweep_from (drop : Node → Bool) {rest kept : List Node} {steps : Nat}
    (held : pool.Holds head tail nodes (kept ++ rest) free) (enough : rest.length < steps) :
    ∃ after spare, Pool.sweep drop steps (rest.head?.getD tail) pool = some after ∧
      after.Holds head tail nodes (kept ++ rest.filter fun node => !drop node) spare := by
  induction rest generalizing pool kept free steps with
  | nil =>
    obtain ⟨fewer, rfl⟩ : ∃ fewer, steps = fewer + 1 := ⟨steps - 1, by simp at enough; omega⟩
    exact ⟨pool, free, by simp [Pool.sweep, held.ends], held⟩
  | cons node others inductionHypothesis =>
    obtain ⟨fewer, rfl⟩ : ∃ fewer, steps = fewer + 1 := ⟨steps - 1, by simp at enough; omega⟩
    have shorter : others.length < fewer := by simpa using enough
    have ahead := held.chain.next_at
    have sought : Pool.sweep drop (fewer + 1) node pool =
        if drop node then
          match pool.release node with
          | some released => Pool.sweep drop fewer (others.head?.getD tail) released
          | none => none
        else Pool.sweep drop fewer (others.head?.getD tail) pool := by
      rw [Pool.sweep, ahead]
    rw [List.head?_cons, Option.getD_some, sought]
    by_cases dropped : drop node = true
    · obtain ⟨released, isReleased, heldThen⟩ := held.release (show node ∈ kept ++ node :: others by simp)
      have notKept : node ∉ kept := by
        have := held.queue_distinct
        simp only [List.nodup_append, List.mem_cons] at this
        grind
      rw [List.erase_append_right _ notKept, List.erase_cons_head] at heldThen
      obtain ⟨after, spare, swept, heldAfter⟩ := inductionHypothesis heldThen shorter
      refine ⟨after, spare, ?_, by simpa [dropped] using heldAfter⟩
      rw [if_pos dropped, isReleased]
      exact swept
    · have heldThen : pool.Holds head tail nodes (kept ++ [node] ++ others) free := by
        simpa using held
      obtain ⟨after, spare, swept, heldAfter⟩ := inductionHypothesis heldThen shorter
      refine ⟨after, spare, ?_, by simpa [dropped] using heldAfter⟩
      rw [if_neg dropped]
      exact swept

theorem sweep (held : pool.Holds head tail nodes queue free) (drop : Node → Bool) {steps : Nat}
    (enough : queue.length < steps) :
    ∃ start after spare, pool.links.next head = some start ∧
      Pool.sweep drop steps start pool = some after ∧
      after.Holds head tail nodes (queue.filter fun node => !drop node) spare := by
  obtain ⟨after, spare, swept, heldAfter⟩ :=
    sweep_from drop (show pool.Holds head tail nodes ([] ++ queue) free from held) enough
  exact ⟨_, after, spare, held.chain.next_first, swept, heldAfter⟩

end Pool.Holds

end Linked
