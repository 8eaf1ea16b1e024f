/-
This file is about a singly linked list in memory: the nodes of a list without repetition follow
each other through `next`, and the last one has no next one. Nodes are only ever added at the end,
so a node that has a place in the list keeps it, and so does its next one.
-/

import Mathlib.Data.List.Nodup
import Mathlib.Data.Nat.Init
import Mathlib.Logic.Relation

namespace LinkedList

variable {Node : Type}

/-- The nodes of `order` follow each other through `next` to the last one. -/
structure Linked (next : Node → Option Node) (order : List Node) : Prop where
  nodup : order.Nodup
  next : ∀ index node, order[index]? = some node → next node = order[index + 1]?

theorem index_lt {order : List Node} {index : Nat} {node : Node} (here : order[index]? = some node) :
    index < order.length := by
  by_contra outside
  rw [List.getElem?_eq_none (Nat.le_of_not_lt outside)] at here
  cases here

theorem mem_of_index {order : List Node} {index : Nat} {node : Node}
    (here : order[index]? = some node) : node ∈ order :=
  List.mem_of_getElem? here

/-- A node keeps its place when the list grows. -/
theorem index_append {order : List Node} {index : Nat} {node : Node}
    (here : order[index]? = some node) (more : List Node) : (order ++ more)[index]? = some node := by
  rw [List.getElem?_append_left (index_lt here)]
  exact here

theorem index_of_longer {order order' : List Node} (longer : order <+: order') {index : Nat}
    {node : Node} (here : order[index]? = some node) : order'[index]? = some node := by
  obtain ⟨more, rfl⟩ := longer
  exact index_append here more

theorem index_append_self (order : List Node) (node : Node) :
    (order ++ [node])[order.length]? = some node := by
  rw [List.getElem?_append_right (Nat.le_refl _), Nat.sub_self]
  rfl

/-- Places in a list after one more node. -/
theorem index_append_singleton {order : List Node} {index : Nat} {node other : Node}
    (here : (order ++ [node])[index]? = some other) :
    order[index]? = some other ∨ index = order.length ∧ other = node := by
  by_cases inside : index < order.length
  · rw [List.getElem?_append_left inside] at here
    exact .inl here
  · have length := index_lt here
    rw [List.length_append, List.length_singleton] at length
    have same : index = order.length := by omega
    rw [same, index_append_self] at here
    cases here
    exact .inr ⟨same, rfl⟩

section Linked

variable {next : Node → Option Node} {order : List Node}

/-- A node has one place. -/
theorem Linked.index_unique (linked : Linked next order) {first second : Nat} {node : Node}
    (one : order[first]? = some node) (two : order[second]? = some node) : first = second := by
  have below := index_lt one
  rw [← two] at one
  exact (List.getElem?_inj below linked.nodup).1 one

theorem Linked.congr {next' : Node → Option Node} (linked : Linked next order)
    (same : ∀ node ∈ order, next' node = next node) : Linked next' order :=
  ⟨linked.nodup, fun index node here =>
    (same node (mem_of_index here)).trans (linked.next index node here)⟩

/-- The node without a next one is the last one. -/
theorem Linked.last (linked : Linked next order) {index : Nat} {node : Node}
    (here : order[index]? = some node) (end_ : next node = none) : index + 1 = order.length := by
  have below := index_lt here
  rw [linked.next index node here, List.getElem?_eq_none_iff] at end_
  omega

theorem linked_nil (next : Node → Option Node) : Linked next [] :=
  ⟨List.nodup_nil, fun _ _ here => by cases here⟩

/-- The list without its first node. -/
theorem Linked.tail {first : Node} (linked : Linked next (first :: order)) : Linked next order :=
  ⟨(List.nodup_cons.1 linked.nodup).2, fun index node here => linked.next (index + 1) node here⟩

/-- The list from a place on. -/
theorem Linked.drop (linked : Linked next order) (count : Nat) : Linked next (order.drop count) := by
  refine ⟨linked.nodup.sublist (List.drop_sublist _ _), fun index node here => ?_⟩
  rw [List.getElem?_drop] at here ⊢
  exact linked.next (count + index) node here

theorem Linked.next_head {first : Node} (linked : Linked next (first :: order)) :
    next first = order.head? := by
  rw [linked.next 0 first rfl, List.head?_eq_getElem?]
  rfl

/-- A node is put in front of the list. -/
theorem Linked.cons {first : Node} (linked : Linked next order) (new : first ∉ order)
    (leads : next first = order.head?) : Linked next (first :: order) := by
  refine ⟨List.nodup_cons.2 ⟨new, linked.nodup⟩, fun index node here => ?_⟩
  cases index with
  | zero =>
    cases here
    rw [leads, List.head?_eq_getElem?]
    rfl
  | succ index => exact linked.next index node here

theorem Linked.next_getLast {last : Node} (linked : Linked next order)
    (ends : order.getLast? = some last) : next last = none := by
  rw [List.getLast?_eq_getElem?] at ends
  have inside := index_lt ends
  rw [linked.next _ last ends, List.getElem?_eq_none_iff]
  omega

/-- A node is linked behind the last one. -/
theorem Linked.append [DecidableEq Node] (linked : Linked next order) {index : Nat}
    {last node : Node} (here : order[index]? = some last) (end_ : next last = none)
    (new : node ∉ order) (alone : next node = none) :
    Linked (Function.update next last (some node)) (order ++ [node]) := by
  have length := linked.last here end_
  refine ⟨?_, fun place other there => ?_⟩
  · rw [List.nodup_append]
    refine ⟨linked.nodup, List.nodup_singleton node, fun one member two single same => ?_⟩
    rw [List.mem_singleton] at single
    subst single same
    exact new member
  · rcases index_append_singleton there with earlier | ⟨same, rfl⟩
    · by_cases isLast : other = last
      · subst isLast
        obtain rfl := linked.index_unique here earlier
        rw [Function.update_self, length, index_append_self]
      · have before : place + 1 < order.length := by
          have below := index_lt earlier
          by_contra beyond
          have samePlace : place = index := by omega
          rw [samePlace, here] at earlier
          cases earlier
          exact isLast rfl
        rw [Function.update_of_ne isLast, linked.next place other earlier,
          List.getElem?_append_left before]
    · have notLast : other ≠ last := by
        rintro rfl
        exact new (mem_of_index here)
      have bound : (order ++ [other]).length ≤ order.length + 1 := Nat.le_of_eq List.length_append
      rw [Function.update_of_ne notLast, alone, same, List.getElem?_eq_none bound]

/-- The list from a node on is determined by the links. -/
theorem Linked.unique {other : List Node} (linked : Linked next order) (linked' : Linked next other)
    (same : order[0]? = other[0]?) : order = other := by
  refine List.ext_getElem? fun index => ?_
  induction index with
  | zero => exact same
  | succ index inductionHypothesis =>
    cases here : order[index]? with
    | some node =>
      rw [← linked.next index node here, ← linked'.next index node (inductionHypothesis ▸ here)]
    | none =>
      have there := inductionHypothesis.symm.trans here
      rw [List.getElem?_eq_none_iff] at here there
      rw [List.getElem?_eq_none (by omega), List.getElem?_eq_none (by omega)]

/-- Following the links from a node leads to the later ones. -/
theorem Linked.reachable_iff (linked : Linked next order) {first last : Nat} {node other : Node}
    (here : order[first]? = some node) (there : order[last]? = some other) :
    Relation.ReflTransGen (fun one two => next one = some two) node other ↔ first ≤ last := by
  constructor
  · intro reaches
    have placed : ∃ place, first ≤ place ∧ order[place]? = some other := by
      clear there
      induction reaches with
      | refl => exact ⟨first, Nat.le_refl first, here⟩
      | tail _ step inductionHypothesis =>
        obtain ⟨place, after, at_⟩ := inductionHypothesis
        exact ⟨place + 1, Nat.le_succ_of_le after, (linked.next place _ at_).symm.trans step⟩
    obtain ⟨place, after, at_⟩ := placed
    rwa [linked.index_unique there at_]
  · intro below
    induction last, below using Nat.le_induction generalizing other with
    | base =>
      rw [here] at there
      cases there
      exact .refl
    | succ last below inductionHypothesis =>
      have inside := index_lt there
      have before : last < order.length := Nat.lt_of_succ_lt inside
      refine .tail (inductionHypothesis (List.getElem?_eq_getElem before)) ?_
      rw [linked.next last _ (List.getElem?_eq_getElem before), there]

end Linked

end LinkedList
