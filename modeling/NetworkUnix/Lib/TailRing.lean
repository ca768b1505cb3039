/-
This file develops rings that are linked in one direction and held by their last
node, so that both ends are at hand. A ring is seen as the list of its nodes from
the first to the last. The node behind a node can be taken out, a node put at the
end, two rings made one, and any node made the last.
-/

import Mathlib.Data.List.Nodup
import Mathlib.Data.List.Basic
import Mathlib.Logic.Function.Basic

namespace TailRing

open Function

variable {Node : Type} {next next' : Node → Node}

/-- The links lead from a node through a list. -/
def Trail (next : Node → Node) : Node → List Node → Prop
  | _, [] => True
  | node, after :: rest => next node = after ∧ Trail next after rest

/-- The links lead from the last node through all nodes and back to it. The empty ring has no last
node. -/
structure Shape (next : Node → Node) (last : Option Node) (nodes : List Node) : Prop where
  held : last = nodes.getLast?
  nodup : nodes.Nodup
  trail : ∀ node, last = some node → Trail next node nodes

/-! ### Trails -/

theorem Trail.congr {node : Node} {nodes : List Node} (trail : Trail next node nodes)
    (same : ∀ other ∈ (node :: nodes).dropLast, next' other = next other) :
    Trail next' node nodes := by
  induction nodes generalizing node with
  | nil => trivial
  | cons after rest inductionHypothesis =>
    rw [List.dropLast_cons_cons] at same
    exact ⟨(same node List.mem_cons_self).trans trail.1,
      inductionHypothesis trail.2 (List.forall_mem_cons.mp same).2⟩

theorem Trail.redirect {node start : Node} {nodes : List Node} (trail : Trail next node nodes)
    (leads : next' start = next node)
    (same : ∀ other ∈ nodes.dropLast, next' other = next other) : Trail next' start nodes := by
  cases nodes with
  | nil => trivial
  | cons first rest => exact ⟨leads.trans trail.1, trail.2.congr same⟩

theorem trail_append {node : Node} {front back : List Node} :
    Trail next node (front ++ back) ↔
      Trail next node front ∧ Trail next (front.getLastD node) back := by
  induction front generalizing node with
  | nil => exact (and_iff_right trivial).symm
  | cons after rest inductionHypothesis =>
    rw [List.cons_append, Trail, inductionHypothesis, Trail, and_assoc, List.getLastD_cons]

/-! ### Rings -/

variable {last : Option Node} {nodes : List Node}

theorem shape_empty (next : Node → Node) : Shape next none [] :=
  ⟨rfl, List.nodup_nil, fun node some => absurd some.symm (Option.some_ne_none node)⟩

theorem Shape.none_iff (shape : Shape next last nodes) : last = none ↔ nodes = [] := by
  rw [shape.held, List.getLast?_eq_none_iff]

theorem Shape.empty (shape : Shape next none nodes) : nodes = [] := shape.none_iff.mp rfl

theorem Shape.last_mem {node : Node} (shape : Shape next (some node) nodes) : node ∈ nodes :=
  List.mem_of_getLast? shape.held.symm

theorem Shape.first {node : Node} (shape : Shape next (some node) nodes) :
    ∃ rest, nodes = next node :: rest := by
  have trail := shape.trail node rfl
  have inside := shape.last_mem
  cases nodes with
  | nil => exact absurd inside List.not_mem_nil
  | cons first rest =>
    rw [trail.1]
    exact ⟨rest, rfl⟩

theorem Shape.congr (shape : Shape next last nodes)
    (same : ∀ node ∈ nodes, next' node = next node) : Shape next' last nodes where
  held := shape.held
  nodup := shape.nodup
  trail := by
    intro node isLast
    refine (shape.trail node isLast).congr fun other inside => same other ?_
    have lastIn : node ∈ nodes := by
      subst isLast
      exact shape.last_mem
    rcases List.mem_cons.mp (List.dropLast_subset _ inside) with rfl | inside
    · exact lastIn
    · exact inside

theorem shape_concat {front : List Node} {node : Node} :
    Shape next (some node) (front ++ [node]) ↔
      (front ++ [node]).Nodup ∧ Trail next node (front ++ [node]) := by
  constructor
  · exact fun shape => ⟨shape.nodup, shape.trail node rfl⟩
  · rintro ⟨nodup, trail⟩
    refine ⟨List.getLast?_concat.symm, nodup, fun other same => ?_⟩
    obtain rfl := Option.some_inj.mp same
    exact trail

theorem Shape.exists_front {node : Node} (shape : Shape next (some node) nodes) :
    ∃ front, nodes = front ++ [node] := by
  obtain ⟨front, isLast⟩ := List.getLast?_eq_some_iff.mp shape.held.symm
  exact ⟨front, isLast⟩

theorem Shape.rotate {node : Node} {front back : List Node}
    (shape : Shape next last (front ++ [node] ++ back)) :
    Shape next (some node) (back ++ (front ++ [node])) := by
  rw [← List.append_assoc, shape_concat]
  refine ⟨by rw [List.append_assoc]; exact List.nodup_append_comm.mp shape.nodup, ?_⟩
  rcases List.eq_nil_or_concat back with rfl | ⟨behind, final, rfl⟩
  · have isLast : last = some node := by rw [shape.held, List.append_nil, List.getLast?_concat]
    have trail := shape.trail node isLast
    rwa [List.append_nil] at trail
  · rw [List.concat_eq_append] at *
    have isLast : last = some final := by
      rw [shape.held, ← List.append_assoc, List.getLast?_concat]
    obtain ⟨ahead, after⟩ := trail_append.mp (shape.trail final isLast)
    rw [List.getLastD_concat] at after
    rw [List.append_assoc]
    refine trail_append.mpr ⟨after, ?_⟩
    rwa [List.getLastD_concat]

theorem Shape.next_mem {node : Node} (shape : Shape next last nodes) (inside : node ∈ nodes) :
    next node ∈ nodes := by
  obtain ⟨front, back, rfl⟩ := List.append_of_mem inside
  rw [← List.singleton_append, ← List.append_assoc] at shape
  obtain ⟨rest, whole⟩ := shape.rotate.first
  have first : next node ∈ back ++ (front ++ [node]) := by
    rw [whole]
    exact List.mem_cons_self
  rw [← List.singleton_append, ← List.append_assoc]
  exact List.mem_append.mpr (List.mem_append.mp first).symm

/-! ### Going round -/

section Walk

variable [DecidableEq Node]

/-- The nodes from one node on to the last. -/
def walk (next : Node → Node) (last : Node) : (trips : Nat) → Node → List Node
  | 0, _ => []
  | trips + 1, node => node :: if node = last then [] else walk next last trips (next node)

theorem walk_trail {last first : Node} {rest : List Node} (trips : Nat)
    (trail : Trail next first rest) (isLast : (first :: rest).getLast? = some last)
    (once : (first :: rest).Nodup) (enough : rest.length < trips) :
    walk next last trips first = first :: rest := by
  induction rest generalizing first trips with
  | nil =>
    have same : first = last := Option.some_inj.mp isLast
    obtain ⟨trips, rfl⟩ := Nat.exists_eq_add_of_lt enough
    rw [walk, if_pos same]
  | cons second rest inductionHypothesis =>
    obtain ⟨trips, rfl⟩ : ∃ more, trips = more + 1 :=
      Nat.exists_eq_add_one_of_ne_zero (Nat.ne_zero_of_lt enough)
    rw [List.getLast?_cons_cons] at isLast
    obtain ⟨new, once⟩ := List.nodup_cons.mp once
    have differs : first ≠ last := by
      rintro rfl
      exact new (List.mem_of_getLast? isLast)
    rw [walk, if_neg differs, trail.1,
      inductionHypothesis trips trail.2 isLast once (Nat.lt_of_succ_lt_succ enough)]

theorem Shape.walk {node : Node} {trips : Nat} (shape : Shape next (some node) nodes)
    (enough : nodes.length ≤ trips) : TailRing.walk next node trips (next node) = nodes := by
  obtain ⟨rest, rfl⟩ := shape.first
  exact walk_trail trips (shape.trail node rfl).2 shape.held.symm shape.nodup enough

end Walk

/-! ### Taking out, putting in and joining -/

variable [DecidableEq Node]

/-- The node behind `node` is taken out and linked to itself. -/
def unlink (next : Node → Node) (node : Node) : Node → Node :=
  Function.update (Function.update next node (next (next node))) (next node) (next node)

/-- The last node of a ring after the node behind it is taken out. -/
def remaining (next : Node → Node) (node : Node) : Option Node :=
  if node = next node then none else some node

/-- A node is put at the end of a ring; without a ring it is linked to itself. -/
def put (next : Node → Node) (node : Node) (last : Option Node) : Node → Node :=
  Function.update (Function.update next node (next (last.getD node))) (last.getD node) node

/-- The links of two nodes are exchanged. -/
def splice (next : Node → Node) (first second : Node) : Node → Node :=
  Function.update (Function.update next first (next second)) second (next first)

theorem unlink_other (next : Node → Node) {node other : Node} (apart : other ≠ node)
    (outside : other ≠ next node) : unlink next node other = next other := by
  rw [unlink, update_of_ne outside, update_of_ne apart]

theorem unlink_self (next : Node → Node) (node : Node) : unlink next node (next node) = next node :=
  update_self _ _ _

theorem put_other (next : Node → Node) {node other : Node} {last : Option Node}
    (apart : other ≠ node) (outside : last ≠ some other) :
    put next node last other = next other := by
  have notLast : other ≠ last.getD node := by
    cases last with
    | none => exact apart
    | some held => exact fun same => outside (congrArg some same.symm)
  rw [put, update_of_ne notLast, update_of_ne apart]

theorem splice_other (next : Node → Node) {first second other : Node} (apart : other ≠ first)
    (outside : other ≠ second) : splice next first second other = next other := by
  rw [splice, update_of_ne outside, update_of_ne apart]

theorem Shape.unlink {node first : Node} {rest : List Node}
    (shape : Shape next (some node) (first :: rest)) :
    next node = first ∧ Shape (TailRing.unlink next node) (remaining next node) rest := by
  obtain ⟨leads, trail⟩ := shape.trail node rfl
  obtain ⟨new, nodup⟩ := List.nodup_cons.mp shape.nodup
  refine ⟨leads, ?_⟩
  cases rest with
  | nil =>
    have only : node = first := Option.some_inj.mp shape.held
    rw [remaining, if_pos (only.trans leads.symm)]
    exact shape_empty _
  | cons second rest =>
    have isLast : some node = (second :: rest).getLast? := by
      rw [shape.held, List.getLast?_cons_cons]
    have differs : node ≠ first := fun same =>
      new (same ▸ List.mem_of_getLast? isLast.symm)
    rw [remaining, leads, if_neg differs]
    refine ⟨isLast, nodup, fun other same => ?_⟩
    obtain rfl := Option.some_inj.mp same
    refine ⟨?_, trail.2.congr fun other inside => ?_⟩
    · rw [TailRing.unlink, leads, update_of_ne differs, update_self]
      exact trail.1
    · have notLast : other ≠ node := by
        rintro rfl
        obtain ⟨front, whole⟩ := List.getLast?_eq_some_iff.mp isLast.symm
        rw [whole, List.dropLast_concat] at inside
        rw [whole] at nodup
        exact (List.nodup_append.mp nodup).2.2 _ inside _ List.mem_cons_self rfl
      refine unlink_other next notLast ?_
      rw [leads]
      rintro rfl
      exact new (List.dropLast_subset _ inside)

theorem Shape.put {node : Node} (shape : Shape next last nodes) (new : node ∉ nodes) :
    Shape (TailRing.put next node last) (some node) (nodes ++ [node]) := by
  rw [shape_concat]
  refine ⟨List.nodup_append.mpr ⟨shape.nodup, List.nodup_singleton node, ?_⟩, ?_⟩
  · rintro other inside _ only rfl
    exact new (List.mem_singleton.mp only ▸ inside)
  cases last with
  | none =>
    rw [shape.empty]
    exact ⟨update_self _ _ _, trivial⟩
  | some held =>
    obtain ⟨front, rfl⟩ := shape.exists_front
    have differs : held ≠ node := by
      rintro rfl
      exact new shape.last_mem
    have trail := shape.trail held rfl
    have atHeld : TailRing.put next node (some held) held = node := update_self _ _ _
    have atNode : TailRing.put next node (some held) node = next held := by
      rw [TailRing.put, Option.getD_some, update_of_ne differs.symm, update_self]
    refine trail_append.mpr ⟨?_, ?_⟩
    · refine trail.redirect atNode fun other inside => ?_
      rw [List.dropLast_concat] at inside
      refine put_other next ?_ ?_
      · rintro rfl
        exact new (List.mem_append_left _ inside)
      · intro same
        rw [← Option.some_inj.mp same] at inside
        exact (List.nodup_append.mp shape.nodup).2.2 _ inside _ List.mem_cons_self rfl
    · rw [List.getLastD_concat]
      exact ⟨atHeld, trivial⟩

theorem Shape.splice {first second : Node} {front back : List Node}
    (shape : Shape next (some first) front) (other : Shape next (some second) back)
    (apart : ∀ node ∈ front, node ∉ back) :
    Shape (TailRing.splice next first second) (some second) (front ++ back) := by
  obtain ⟨before, rfl⟩ := shape.exists_front
  obtain ⟨after, rfl⟩ := other.exists_front
  rw [← List.append_assoc, shape_concat, List.append_assoc]
  have firstLast (node : Node) (inside : node ∈ before) : node ≠ first := fun same =>
    (List.nodup_append.mp shape.nodup).2.2 _ inside _ List.mem_cons_self same
  have secondLast (node : Node) (inside : node ∈ after) : node ≠ second := fun same =>
    (List.nodup_append.mp other.nodup).2.2 _ inside _ List.mem_cons_self same
  have notSecond (node : Node) (inside : node ∈ before ++ [first]) : node ≠ second := by
    rintro rfl
    exact apart node inside (List.mem_append_right _ List.mem_cons_self)
  have notFirst (node : Node) (inside : node ∈ after) : node ≠ first := by
    rintro rfl
    exact apart node (List.mem_append_right _ List.mem_cons_self) (List.mem_append_left _ inside)
  have differs : first ≠ second :=
    notSecond first (List.mem_append_right _ List.mem_cons_self)
  refine ⟨List.nodup_append.mpr ⟨shape.nodup, other.nodup, ?_⟩, trail_append.mpr ⟨?_, ?_⟩⟩
  · rintro node inside _ there rfl
    exact apart node inside there
  · refine (shape.trail first rfl).redirect (update_self _ _ _) fun node inside => ?_
    rw [List.dropLast_concat] at inside
    exact splice_other next (firstLast node inside)
      (notSecond node (List.mem_append_left _ inside))
  · rw [List.getLastD_concat]
    refine (other.trail second rfl).redirect ?_ fun node inside => ?_
    · rw [TailRing.splice, update_of_ne differs, update_self]
    · rw [List.dropLast_concat] at inside
      exact splice_other next (notFirst node inside) (secondLast node inside)

end TailRing
