/-
This file describes the memory of the doubly linked list over multi-word CAS. The nodes in the list
form a chain from the head to the tail that is linked in both directions; a node that was taken out
keeps its links, with the mark in `next`. A step links a node between two neighbours, takes a node out
between its neighbours, writes a word of a node that is not in the list yet, or changes nothing.
-/

import Pmwcas.Library.Adjacent
import Pmwcas.MwCASDList

namespace Pmwcas.MwCASDList

open Transition DList Adjacency

/-! ### The list in memory -/

/-- The chain `order` in memory: neighbours point to each other, without a mark, and `known` are the
nodes that are or were in it. -/
structure Shape (memory : Memory) (order known : List DListNode) : Prop where
  nodup : order.Nodup
  first : order.head? = some .head
  last : order.getLast? = some .tail
  subset : ∀ node ∈ order, node ∈ known
  links : ∀ one two, Adjacent order one two →
    memory one .next = .pointer two ∧ memory two .prev = .pointer one
  headPrev : memory .head .prev = .null
  tailNext : memory .tail .next = .null
  gone : ∀ node ∈ known, node ∉ order →
    (∃ next ∈ known, next ≠ .head ∧ memory node .next = (Link.pointer next).marked) ∧
      ∃ prev ∈ known, prev ≠ .tail ∧ memory node .prev = .pointer prev

section Shape

variable {memory : Memory} {order known : List DListNode}

theorem Shape.head_mem (shape : Shape memory order known) : .head ∈ order :=
  List.mem_of_mem_head? shape.first

theorem Shape.tail_mem (shape : Shape memory order known) : .tail ∈ order :=
  List.mem_of_getLast? shape.last

theorem Shape.right_ne_head (shape : Shape memory order known) {one two : DListNode}
    (adjacent : Adjacent order one two) : two ≠ .head := by
  have nodup := shape.nodup
  have first := shape.first
  cases order with
  | nil => cases first
  | cons start rest =>
    cases first
    exact adjacent.right_ne_head nodup

theorem Shape.exists_right (shape : Shape memory order known) {node : DListNode}
    (member : node ∈ order) (notTail : node ≠ .tail) : ∃ next, Adjacent order node next :=
  exists_adjacent_right member shape.last notTail

theorem Shape.exists_left (shape : Shape memory order known) {node : DListNode}
    (member : node ∈ order) (notHead : node ≠ .head) : ∃ prev, Adjacent order prev node := by
  have first := shape.first
  cases order with
  | nil => cases first
  | cons start rest =>
    cases first
    exact exists_adjacent_left member notHead

/-- The `next` of a node that is or was in the list. -/
theorem Shape.next_of_known (shape : Shape memory order known) {node : DListNode}
    (member : node ∈ known) (notTail : node ≠ .tail) :
    ∃ next ∈ known, next ≠ .head ∧ (Adjacent order node next ∧ memory node .next = .pointer next ∨
      node ∉ order ∧ memory node .next = (Link.pointer next).marked) := by
  by_cases inside : node ∈ order
  · obtain ⟨next, adjacent⟩ := shape.exists_right inside notTail
    exact ⟨next, shape.subset next adjacent.right_mem, shape.right_ne_head adjacent,
      .inl ⟨adjacent, (shape.links _ _ adjacent).1⟩⟩
  · obtain ⟨⟨next, nextMember, notHead, marked⟩, -⟩ := shape.gone node member inside
    exact ⟨next, nextMember, notHead, .inr ⟨inside, marked⟩⟩

/-- The `prev` of a node that is or was in the list. -/
theorem Shape.prev_of_known (shape : Shape memory order known) {node : DListNode}
    (member : node ∈ known) (notHead : node ≠ .head) :
    ∃ prev ∈ known, prev ≠ .tail ∧ memory node .prev = .pointer prev := by
  by_cases inside : node ∈ order
  · obtain ⟨prev, adjacent⟩ := shape.exists_left inside notHead
    exact ⟨prev, shape.subset prev adjacent.left_mem, adjacent.left_ne_last shape.nodup shape.last,
      (shape.links _ _ adjacent).2⟩
  · exact (shape.gone node member inside).2

/-- The mark tells the nodes that were taken out. -/
theorem Shape.deleted_iff (shape : Shape memory order known) {node : DListNode}
    (member : node ∈ known) : (memory node .next).deleted = true ↔ node ∉ order := by
  by_cases isTail : node = .tail
  · subst isTail
    rw [shape.tailNext]
    exact ⟨nofun, fun absent => absurd shape.tail_mem absent⟩
  · obtain ⟨next, -, -, ⟨adjacent, points⟩ | ⟨absent, points⟩⟩ := shape.next_of_known member isTail
    · rw [points]
      exact ⟨nofun, fun absent => absurd adjacent.left_mem absent⟩
    · rw [points]
      exact ⟨fun _ => absent, fun _ => rfl⟩

/-- A node whose `next` points to another one without a mark is its neighbour. -/
theorem Shape.adjacent_of_next (shape : Shape memory order known) {node next : DListNode}
    (member : node ∈ known) (points : memory node .next = .pointer next) : Adjacent order node next := by
  have notTail : node ≠ .tail := by
    rintro rfl
    rw [shape.tailNext] at points
    cases points
  obtain ⟨other, -, -, ⟨adjacent, points'⟩ | ⟨-, marked⟩⟩ := shape.next_of_known member notTail
  · rw [points] at points'
    rw [Link.pointer_injective points']
    exact adjacent
  · rw [points] at marked
    cases marked

end Shape

/-! ### Entries of the three functions -/

/-- What an insertion compares and writes. -/
def linkEntries (prev node next : DListNode) : List Entry :=
  [⟨prev, .next, .pointer next, .pointer node⟩, ⟨next, .prev, .pointer prev, .pointer node⟩]

/-- What a deletion compares and writes. -/
def unlinkEntries (prev node next : DListNode) : List Entry :=
  [⟨prev, .next, .pointer node, .pointer next⟩, ⟨next, .prev, .pointer node, .pointer prev⟩,
    ⟨node, .next, .pointer next, (Link.pointer next).marked⟩]

theorem matches_linkEntries {memory : Memory} {prev node next : DListNode} :
    Matches memory (linkEntries prev node next) ↔
      memory prev .next = .pointer next ∧ memory next .prev = .pointer prev := by
  simp [Matches, linkEntries]

theorem matches_unlinkEntries {memory : Memory} {prev node next : DListNode} :
    Matches memory (unlinkEntries prev node next) ↔
      memory prev .next = .pointer node ∧ memory next .prev = .pointer node ∧
        memory node .next = .pointer next := by
  simp [Matches, unlinkEntries]

/-- The memory after a node is linked. -/
theorem install_linkEntries (memory : Memory) (prev node next : DListNode) :
    install memory (linkEntries prev node next) =
      (memory.write prev .next (.pointer node)).write next .prev (.pointer node) := rfl

/-- The memory after a node is unlinked. -/
theorem install_unlinkEntries (memory : Memory) (prev node next : DListNode) :
    install memory (unlinkEntries prev node next) =
      ((memory.write prev .next (.pointer next)).write next .prev (.pointer prev)).write node .next
        (Link.pointer next).marked := rfl

/-! ### Effects -/

/-- The effect of a step of a thread on the memory and the chain in it. `own` is the node that the
thread inserts. -/
inductive Effect (memory : Memory) (order known : List DListNode) (own : Option DListNode) :
    Option Event → Memory → List DListNode → Prop
  | keep : Effect memory order known own none memory order
  | own (node : DListNode) (field : DListNode.Field) (link : Link) (mine : own = some node) :
    Effect memory order known own none (memory.write node field link) order
  | link (prev node next : DListNode) (order' : List DListNode) (mine : own = some node)
    (between : Between order order' prev node next) (nextWord : memory node .next = .pointer next)
    (prevWord : memory node .prev = .pointer prev) :
    Effect memory order known own (some (.link prev node next))
      (install memory (linkEntries prev node next)) order'
  | unlink (prev node next : DListNode) (order' : List DListNode)
    (between : Between order' order prev node next) :
    Effect memory order known own (some (.unlink node))
      (install memory (unlinkEntries prev node next)) order'

section Effect

variable {memory memory' : Memory} {order order' known : List DListNode} {own : Option DListNode}
  {event : Option Event}

theorem mem_know {node : DListNode} (member : node ∈ known) (event : Option Event) :
    node ∈ Event.know event known := by
  match event with
  | none => exact member
  | some (.link ..) => exact List.mem_cons_of_mem _ member
  | some (.unlink _) => exact member

/-- Words of nodes that are not in the list yet change only in steps of the thread that inserts
them. -/
theorem Effect.word_of_not_known (effect : Effect memory order known own event memory' order')
    (shape : Shape memory order known) {node : DListNode} (new : node ∉ known)
    (other : own ≠ some node) (field : DListNode.Field) : memory' node field = memory node field := by
  have differs : ∀ {one : DListNode}, one ∈ order → node ≠ one := by
    rintro one member rfl
    exact new (shape.subset _ member)
  cases effect with
  | keep => rfl
  | own one _ _ mine =>
    have different : node ≠ one := by
      rintro rfl
      exact other mine
    exact memory.write_other different _ _ _
  | link prev one next order' _ between =>
    rw [install_linkEntries, Memory.write_other _ (differs between.adjacent.right_mem),
      Memory.write_other _ (differs between.adjacent.left_mem)]
  | unlink prev one next order' between =>
    rw [install_unlinkEntries, Memory.write_other _ (differs between.adjacent_left.right_mem),
      Memory.write_other _ (differs between.adjacent_right.right_mem),
      Memory.write_other _ (differs between.adjacent_left.left_mem)]

/-- A node that was taken out is not put in again. -/
theorem Effect.gone_kept (effect : Effect memory order known own event memory' order')
    (new : ∀ node, own = some node → node ∉ known) {node : DListNode} (member : node ∈ known)
    (absent : node ∉ order) : node ∉ order' := by
  cases effect with
  | keep => exact absent
  | own => exact absent
  | link prev one next order' mine between =>
    rw [between.mem_iff]
    rintro (rfl | inside)
    · exact new _ mine member
    · exact absent inside
  | unlink prev one next order' between =>
    intro inside
    exact absent ((between.mem_iff node).2 (.inr inside))

/-- Words of a node that is not in the list yet are no part of it. -/
theorem Shape.writeOwn (shape : Shape memory order known) {node : DListNode} (new : node ∉ known)
    (field : DListNode.Field) (link : Link) : Shape (memory.write node field link) order known := by
  have kept : ∀ other ∈ known, ∀ otherField,
      memory.write node field link other otherField = memory other otherField := by
    intro other member otherField
    refine memory.write_other ?_ _ _ _
    rintro rfl
    exact new member
  have keptOrder : ∀ other ∈ order, ∀ otherField,
      memory.write node field link other otherField = memory other otherField :=
    fun other member => kept other (shape.subset other member)
  refine { shape with links := ?_, headPrev := ?_, tailNext := ?_, gone := ?_ }
  · intro one two adjacent
    rw [keptOrder one adjacent.left_mem, keptOrder two adjacent.right_mem]
    exact shape.links one two adjacent
  · rw [keptOrder _ shape.head_mem]
    exact shape.headPrev
  · rw [keptOrder _ shape.tail_mem]
    exact shape.tailNext
  · intro other member absent
    rw [kept other member, kept other member]
    exact shape.gone other member absent

/-- A node is linked between two neighbours. -/
theorem Shape.link (shape : Shape memory order known) {prev node next : DListNode}
    (between : Between order order' prev node next) (new : node ∉ known)
    (nextWord : memory node .next = .pointer next) (prevWord : memory node .prev = .pointer prev) :
    Shape (install memory (linkEntries prev node next)) order' (node :: known) := by
  have adjacent := between.adjacent
  have absent : node ∉ order := fun inside => new (shape.subset node inside)
  have nodup : order'.Nodup := between.nodup_iff.2 ⟨absent, shape.nodup⟩
  have notPrev : node ≠ prev := fun same => absent (same ▸ adjacent.left_mem)
  have notNext : node ≠ next := fun same => absent (same ▸ adjacent.right_mem)
  rw [install_linkEntries]
  refine ⟨nodup, between.head?.trans shape.first, between.getLast?.trans shape.last, ?_, ?_, ?_, ?_, ?_⟩
  · intro other member
    rcases (between.mem_iff other).1 member with rfl | inside
    · exact List.mem_cons_self
    · exact List.mem_cons_of_mem _ (shape.subset other inside)
  · intro one two adjacent'
    rcases between.adjacent_longer nodup adjacent' with ⟨rfl, rfl⟩ | ⟨rfl, rfl⟩ | ⟨old, left, right⟩
    · rw [Memory.write_of_ne _ (by simp), Memory.write_self, Memory.write_other _ notNext,
        Memory.write_other _ notPrev]
      exact ⟨rfl, prevWord⟩
    · rw [Memory.write_of_ne _ (by simp), Memory.write_other _ notPrev, Memory.write_self]
      exact ⟨nextWord, rfl⟩
    · rw [Memory.write_of_ne _ (by simp), Memory.write_other _ left, Memory.write_other _ right,
        Memory.write_of_ne _ (by simp)]
      exact shape.links one two old
  · rw [Memory.write_other _ (shape.right_ne_head adjacent).symm, Memory.write_of_ne _ (by simp)]
    exact shape.headPrev
  · rw [Memory.write_of_ne _ (by simp),
      Memory.write_other _ (adjacent.left_ne_last shape.nodup shape.last).symm]
    exact shape.tailNext
  · intro other member out
    have outside : other ∉ order := fun inside => out ((between.mem_iff other).2 (.inr inside))
    have old : other ∈ known := by
      rcases List.mem_cons.1 member with rfl | old
      · exact absurd ((between.mem_iff other).2 (.inl rfl)) out
      · exact old
    have left : other ≠ prev := fun same => outside (same ▸ adjacent.left_mem)
    have right : other ≠ next := fun same => outside (same ▸ adjacent.right_mem)
    rw [Memory.write_other _ right, Memory.write_other _ left, Memory.write_other _ right,
      Memory.write_other _ left]
    obtain ⟨⟨after, afterMember, notHead, afterWord⟩, before, beforeMember, notTail, beforeWord⟩ :=
      shape.gone other old outside
    exact ⟨⟨after, List.mem_cons_of_mem _ afterMember, notHead, afterWord⟩,
      before, List.mem_cons_of_mem _ beforeMember, notTail, beforeWord⟩

/-- A node is taken out between its neighbours. -/
theorem Shape.unlink (shape : Shape memory order known) {prev node next : DListNode}
    (between : Between order' order prev node next) :
    Shape (install memory (unlinkEntries prev node next)) order' known := by
  have toNode := between.adjacent_left
  have toNext := between.adjacent_right
  obtain ⟨absent, nodup⟩ := between.nodup_iff.1 shape.nodup
  have notPrev : prev ≠ node := fun same => absent (same ▸ between.adjacent.left_mem)
  have notNext : next ≠ node := fun same => absent (same ▸ between.adjacent.right_mem)
  have prevNotTail : prev ≠ .tail := toNode.left_ne_last shape.nodup shape.last
  have nextNotHead : next ≠ .head := shape.right_ne_head toNext
  rw [install_unlinkEntries]
  refine ⟨nodup, between.head?.symm.trans shape.first, between.getLast?.symm.trans shape.last,
    ?_, ?_, ?_, ?_, ?_⟩
  · intro other member
    exact shape.subset other ((between.mem_iff other).2 (.inr member))
  · intro one two adjacent'
    rcases between.adjacent_shorter shape.nodup adjacent' with ⟨rfl, rfl⟩ | ⟨old, left, right, notLeft, -⟩
    · rw [Memory.write_other _ notPrev, Memory.write_of_ne _ (by simp), Memory.write_self,
        Memory.write_of_ne _ (by simp), Memory.write_self]
      exact ⟨rfl, rfl⟩
    · rw [Memory.write_other _ notLeft, Memory.write_of_ne _ (by simp), Memory.write_other _ left,
        Memory.write_of_ne _ (by simp), Memory.write_other _ right, Memory.write_of_ne _ (by simp)]
      exact shape.links one two old
  · rw [Memory.write_of_ne _ (by simp), Memory.write_other _ nextNotHead.symm,
      Memory.write_of_ne _ (by simp)]
    exact shape.headPrev
  · rw [Memory.write_other _ (toNext.left_ne_last shape.nodup shape.last).symm,
      Memory.write_of_ne _ (by simp), Memory.write_other _ prevNotTail.symm]
    exact shape.tailNext
  · intro other member out
    by_cases isNode : other = node
    · subst isNode
      rw [Memory.write_self, Memory.write_of_ne _ (by simp), Memory.write_other _ notNext.symm,
        Memory.write_of_ne _ (by simp)]
      exact ⟨⟨next, shape.subset next toNext.right_mem, nextNotHead, rfl⟩,
        prev, shape.subset prev toNode.left_mem, prevNotTail, (shape.links _ _ toNode).2⟩
    · have outside : other ∉ order := fun inside =>
        ((between.mem_iff other).1 inside).elim isNode out
      have left : other ≠ prev := fun same => outside (same ▸ toNode.left_mem)
      have right : other ≠ next := fun same => outside (same ▸ toNext.right_mem)
      rw [Memory.write_other _ isNode, Memory.write_other _ right, Memory.write_other _ left,
        Memory.write_other _ isNode, Memory.write_other _ right, Memory.write_other _ left]
      exact shape.gone other member outside

theorem Effect.shape (effect : Effect memory order known own event memory' order')
    (shape : Shape memory order known) (new : ∀ node, own = some node → node ∉ known) :
    Shape memory' order' (Event.know event known) := by
  cases effect with
  | keep => exact shape
  | own node field link mine => exact shape.writeOwn (new node mine) field link
  | link prev node next order' mine between nextWord prevWord =>
    exact shape.link between (new node mine) nextWord prevWord
  | unlink prev node next order' between => exact shape.unlink between

end Effect

end Pmwcas.MwCASDList
