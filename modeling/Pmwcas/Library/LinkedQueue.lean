/-
This file is about a queue that is a singly linked list with a head and a tail pointer: nodes are
linked behind the last one, the tail follows them, and the head follows the tail. Several threads
read the pointers one after the other and go on with what they have read. Both places only move on
and nodes are only appended, so what was read about them stays true in the form it has here,
however old it is.
-/

import Mathlib.Order.WellFounded
import Pmwcas.Library.LinkedList

namespace LinkedList

variable {Node : Type}

/-! ### Queues -/

/-- The linked nodes in their order, and the places of head and tail in it. -/
structure Queue (Node : Type) where
  order : List Node
  head : Nat
  tail : Nat

/-- The links and the two pointers are those of this queue. The head is not behind the tail, and at
most one node is. -/
structure Queue.Held (queue : Queue Node) (next : Node → Option Node) (head tail : Option Node) :
    Prop where
  linked : Linked next queue.order
  head : head = queue.order[queue.head]?
  tail : tail = queue.order[queue.tail]?
  head_le : queue.head ≤ queue.tail
  tail_lt : queue.tail < queue.order.length
  length_le : queue.order.length ≤ queue.tail + 2

/-- The queue has grown and its places have moved on. -/
structure Queue.Le (before after : Queue Node) : Prop where
  order : before.order <+: after.order
  head : before.head ≤ after.head
  tail : before.tail ≤ after.tail

theorem Queue.Le.refl (queue : Queue Node) : queue.Le queue :=
  ⟨List.prefix_refl _, Nat.le_refl _, Nat.le_refl _⟩

theorem Queue.Le.trans {first second third : Queue Node} (one : first.Le second)
    (two : second.Le third) : first.Le third :=
  ⟨one.order.trans two.order, one.head.trans two.head, one.tail.trans two.tail⟩

/-! ### What a thread knows -/

/-- The tail has been at this node. -/
def Queue.Passed (queue : Queue Node) (last : Node) : Prop :=
  ∃ index ≤ queue.tail, queue.order[index]? = some last

/-- The tail has been at this node, and this is the next one. -/
def Queue.Follows (queue : Queue Node) (last next : Node) : Prop :=
  ∃ index ≤ queue.tail, queue.order[index]? = some last ∧ queue.order[index + 1]? = some next

/-- The head has been at this node. -/
def Queue.Reached (queue : Queue Node) (first : Node) : Prop :=
  ∃ index ≤ queue.head, queue.order[index]? = some first

/-- The head has been at the first node and the tail, not before it, at the last one. -/
def Queue.Between (queue : Queue Node) (first last : Node) : Prop :=
  ∃ index ≤ queue.head, ∃ place ≤ queue.tail, index ≤ place ∧
    queue.order[index]? = some first ∧ queue.order[place]? = some last

/-- As `Between`, and `next` was read after that. Without a next one both were the same node. -/
def Queue.Read (queue : Queue Node) (first last : Node) (next : Option Node) : Prop :=
  ∃ index ≤ queue.head, ∃ place ≤ queue.tail, index ≤ place ∧
    queue.order[index]? = some first ∧ queue.order[place]? = some last ∧
    (∀ node, next = some node → queue.order[index + 1]? = some node) ∧
    (next = none → place = index)

/-- The head has been at this node and the tail is past it; this is the next one. -/
def Queue.Ahead (queue : Queue Node) (first : Node) (next : Option Node) : Prop :=
  ∃ index ≤ queue.head, ∃ node, index < queue.tail ∧ queue.order[index]? = some first ∧
    queue.order[index + 1]? = some node ∧ next = some node

section Mono

variable {before after : Queue Node}

theorem Queue.Passed.mono (later : before.Le after) {last : Node} (passed : before.Passed last) :
    after.Passed last := by
  obtain ⟨index, below, here⟩ := passed
  exact ⟨index, below.trans later.tail, index_of_longer later.order here⟩

theorem Queue.Follows.mono (later : before.Le after) {last next : Node}
    (follows : before.Follows last next) : after.Follows last next := by
  obtain ⟨index, below, here, there⟩ := follows
  exact ⟨index, below.trans later.tail, index_of_longer later.order here,
    index_of_longer later.order there⟩

theorem Queue.Reached.mono (later : before.Le after) {first : Node} (reached : before.Reached first) :
    after.Reached first := by
  obtain ⟨index, below, here⟩ := reached
  exact ⟨index, below.trans later.head, index_of_longer later.order here⟩

theorem Queue.Between.mono (later : before.Le after) {first last : Node}
    (between : before.Between first last) : after.Between first last := by
  obtain ⟨index, below, place, inside, ordered, here, there⟩ := between
  exact ⟨index, below.trans later.head, place, inside.trans later.tail, ordered,
    index_of_longer later.order here, index_of_longer later.order there⟩

theorem Queue.Read.mono (later : before.Le after) {first last : Node} {next : Option Node}
    (read : before.Read first last next) : after.Read first last next := by
  obtain ⟨index, below, place, inside, ordered, here, there, some_, none_⟩ := read
  exact ⟨index, below.trans later.head, place, inside.trans later.tail, ordered,
    index_of_longer later.order here, index_of_longer later.order there,
    fun node same => index_of_longer later.order (some_ node same), none_⟩

theorem Queue.Ahead.mono (later : before.Le after) {first : Node} {next : Option Node}
    (ahead : before.Ahead first next) : after.Ahead first next := by
  obtain ⟨index, below, node, inside, here, there, same⟩ := ahead
  exact ⟨index, below.trans later.head, node, Nat.lt_of_lt_of_le inside later.tail,
    index_of_longer later.order here, index_of_longer later.order there, same⟩

end Mono

section Knows

variable {queue : Queue Node} {first last : Node}

theorem Queue.Passed.mem (passed : queue.Passed last) : last ∈ queue.order := by
  obtain ⟨index, -, here⟩ := passed
  exact mem_of_index here

theorem Queue.Ahead.mem {next : Option Node} (ahead : queue.Ahead first next) :
    first ∈ queue.order := by
  obtain ⟨index, -, node, -, here, -⟩ := ahead
  exact mem_of_index here

theorem Queue.Between.reached (between : queue.Between first last) : queue.Reached first := by
  obtain ⟨index, below, place, inside, ordered, here, there⟩ := between
  exact ⟨index, below, here⟩

/-- Two different nodes: the tail is past the first one. -/
theorem Queue.Read.ahead {next : Option Node} (read : queue.Read first last next)
    (different : first ≠ last) : queue.Ahead first next := by
  obtain ⟨index, below, place, inside, ordered, here, there, some_, none_⟩ := read
  have notSame : index ≠ place := by
    rintro rfl
    rw [here] at there
    cases there
    exact different rfl
  cases next with
  | none => exact absurd (none_ rfl).symm notSame
  | some node => exact ⟨index, below, node, by omega, here, some_ node rfl, rfl⟩

/-- The same node: the next one is behind the tail. -/
theorem Queue.Read.follows {next : Node} (read : queue.Read first first (some next)) :
    queue.Follows first next := by
  obtain ⟨index, below, place, inside, ordered, here, there, some_, -⟩ := read
  exact ⟨index, ordered.trans inside, here, some_ next rfl⟩

end Knows

/-! ### The pointers -/

section Held

variable {queue : Queue Node} {next : Node → Option Node} {head tail : Option Node}

/-- The place of the node that the head points to. -/
theorem Queue.Held.head_index (held : queue.Held next head tail) {first : Node} {index : Nat}
    (points : head = some first) (here : queue.order[index]? = some first) : index = queue.head := by
  rw [held.head] at points
  exact held.linked.index_unique here points

theorem Queue.Held.tail_index (held : queue.Held next head tail) {last : Node} {index : Nat}
    (points : tail = some last) (here : queue.order[index]? = some last) : index = queue.tail := by
  rw [held.tail] at points
  exact held.linked.index_unique here points

/-- What a load of `next` finds behind a node the tail has been at. -/
theorem Linked.follows (linked : Linked next queue.order) {last other : Node}
    (passed : queue.Passed last) (behind : next last = some other) : queue.Follows last other := by
  obtain ⟨index, below, here⟩ := passed
  exact ⟨index, below, here, (linked.next index last here).symm.trans behind⟩

/-- What a load of `next` finds behind a node the head has been at. -/
theorem Linked.read (linked : Linked next queue.order) {first last : Node}
    (between : queue.Between first last) : queue.Read first last (next first) := by
  obtain ⟨index, below, place, inside, ordered, here, there⟩ := between
  have follows := linked.next index first here
  refine ⟨index, below, place, inside, ordered, here, there, fun node same => ?_, fun end_ => ?_⟩
  · exact follows.symm.trans same
  · have length := linked.last here end_
    have := index_lt there
    omega

/-- A node without a next one that the head has been at: head and tail are both there. -/
theorem Queue.Held.last (held : queue.Held next head tail) {first : Node}
    (reached : queue.Reached first) (end_ : next first = none) :
    queue.head + 1 = queue.order.length ∧ queue.tail = queue.head := by
  obtain ⟨index, below, here⟩ := reached
  have length := held.linked.last here end_
  have ordered := held.head_le
  have inside := held.tail_lt
  omega

/-- A node is linked: it becomes the last one, behind the node the tail points to. -/
theorem Queue.Held.link [DecidableEq Node] (held : queue.Held next head tail) {last node : Node}
    (passed : queue.Passed last) (end_ : next last = none) (new : node ∉ queue.order)
    (alone : next node = none) :
    Queue.Held { queue with order := queue.order ++ [node] }
      (Function.update next last (some node)) head tail := by
  obtain ⟨index, below, here⟩ := passed
  have length := held.linked.last here end_
  have inside := held.tail_lt
  refine
    { linked := held.linked.append here end_ new alone
      head := ?_
      tail := ?_
      head_le := held.head_le
      tail_lt := ?_
      length_le := ?_ }
  · rw [held.head, List.getElem?_append_left (Nat.lt_of_le_of_lt held.head_le inside)]
  · rw [held.tail, List.getElem?_append_left inside]
  · rw [List.length_append]
    exact Nat.lt_add_right _ inside
  · show (queue.order ++ [node]).length ≤ queue.tail + 2
    rw [List.length_append, List.length_singleton]
    omega

/-- The node behind which a node is linked is the one the tail points to. -/
theorem Queue.Held.passed_last (held : queue.Held next head tail) {last : Node}
    (passed : queue.Passed last) (end_ : next last = none) : tail = some last := by
  obtain ⟨index, below, here⟩ := passed
  have length := held.linked.last here end_
  have inside := held.tail_lt
  have same : queue.tail = index := by omega
  rw [held.tail, same, here]

/-- The tail moves to the next node. -/
theorem Queue.Held.moveTail (held : queue.Held next head tail) {last other : Node}
    (follows : queue.Follows last other) (points : tail = some last) :
    Queue.Held { queue with tail := queue.tail + 1 } next head (some other) := by
  obtain ⟨index, below, here, there⟩ := follows
  obtain rfl := held.tail_index points here
  exact ⟨held.linked, held.head, there.symm, Nat.le_succ_of_le held.head_le, index_lt there,
    Nat.le_succ_of_le held.length_le⟩

/-- The head moves past a node that the tail is past. -/
theorem Queue.Held.moveHead (held : queue.Held next head tail) {first : Node} {other : Option Node}
    (ahead : queue.Ahead first other) (points : head = some first) :
    Queue.Held { queue with head := queue.head + 1 } next other tail := by
  obtain ⟨index, below, node, inside, here, there, same⟩ := ahead
  obtain rfl := held.head_index points here
  exact ⟨held.linked, same.trans there.symm, held.tail, inside, held.tail_lt, held.length_le⟩

/-- The queue without the nodes that the head has passed. -/
def Queue.restart (queue : Queue Node) : Queue Node where
  order := queue.order.drop queue.head
  head := 0
  tail := queue.tail - queue.head

theorem Queue.Held.restart (held : queue.Held next head tail) : queue.restart.Held next head tail := by
  have ordered := held.head_le
  have inside := held.tail_lt
  have bound := held.length_le
  refine
    { linked := held.linked.drop queue.head
      head := ?_
      tail := ?_
      head_le := Nat.zero_le _
      tail_lt := ?_
      length_le := ?_ }
  · show head = (queue.order.drop queue.head)[0]?
    rw [List.getElem?_drop, held.head, Nat.add_zero]
  · show tail = (queue.order.drop queue.head)[queue.tail - queue.head]?
    rw [List.getElem?_drop, held.tail, Nat.add_sub_cancel' ordered]
  · show queue.tail - queue.head < (queue.order.drop queue.head).length
    rw [List.length_drop]
    omega
  · show (queue.order.drop queue.head).length ≤ queue.tail - queue.head + 2
    rw [List.length_drop]
    omega

end Held

end LinkedList
