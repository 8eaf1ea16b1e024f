/-
This file is the memory of a doubly linked list (`IDList`): the nodes, their `prev` and `next` words,
and the two bits the lists keep in such a word, `kNodeDeleted` and `kDirtyFlag`.
-/

import Pmwcas.Word

namespace Pmwcas

/-- A `DListNode`: the list's own `head_` and `tail_`, or a node that is inserted. -/
inductive DListNode
  | head
  | tail
  | new (name : Nat)
deriving DecidableEq

/-- The two pointers of a node. -/
inductive DListNode.Field
  | prev
  | next
deriving DecidableEq

/-- A pointer to a node or null, with `kNodeDeleted` and `kDirtyFlag`. -/
structure Link where
  node : Option DListNode
  deleted : Bool
  dirty : Bool
deriving DecidableEq

namespace Link

/-- The pointer to a node, without flags. -/
def pointer (node : DListNode) : Link := ⟨some node, false, false⟩

def null : Link := ⟨none, false, false⟩

/-- `link & ~kNodeDeleted`. -/
def cleared (link : Link) : Link := { link with deleted := false }

/-- `link & ~kDirtyFlag`. -/
def clean (link : Link) : Link := { link with dirty := false }

/-- `link | kNodeDeleted`. -/
def marked (link : Link) : Link := { link with deleted := true }

/-- The node a pointer leads to. Only a pointer without flags can be followed. -/
def target (link : Link) : Option DListNode :=
  if link.deleted ∨ link.dirty then none else link.node

@[simp] theorem pointer_target (node : DListNode) : (pointer node).target = some node := rfl

@[simp] theorem pointer_deleted (node : DListNode) : (pointer node).deleted = false := rfl

@[simp] theorem pointer_node (node : DListNode) : (pointer node).node = some node := rfl

@[simp] theorem pointer_clean (node : DListNode) : (pointer node).clean = pointer node := rfl

@[simp] theorem marked_deleted (link : Link) : link.marked.deleted = true := rfl

@[simp] theorem marked_node (link : Link) : link.marked.node = link.node := rfl

@[simp] theorem pointer_ne_null (node : DListNode) : pointer node ≠ null := by
  intro equal
  cases equal

theorem pointer_injective {node other : DListNode} (same : pointer node = pointer other) : node = other := by
  injection same with node
  exact Option.some.inj node

end Link

namespace DList

/-- The words of all nodes. -/
def Memory := DListNode → DListNode.Field → Link

variable (memory : Memory)

def Memory.write (node : DListNode) (field : DListNode.Field) (link : Link) : Memory :=
  fun other otherField => if other = node ∧ otherField = field then link else memory other otherField

@[simp] theorem Memory.write_self (node : DListNode) (field : DListNode.Field) (link : Link) :
    memory.write node field link node field = link :=
  if_pos ⟨rfl, rfl⟩

theorem Memory.write_of_ne {node other : DListNode} {field otherField : DListNode.Field}
    (different : ¬ (other = node ∧ otherField = field)) (link : Link) :
    memory.write node field link other otherField = memory other otherField :=
  if_neg different

/-- Writes to a node leave the other nodes alone. -/
theorem Memory.write_other {node other : DListNode} (different : other ≠ node)
    (field otherField : DListNode.Field) (link : Link) :
    memory.write node field link other otherField = memory other otherField :=
  memory.write_of_ne (fun same => different same.1) link

/-- The words of a new list. -/
def Memory.start : Memory
  | .head, .next => .pointer .tail
  | .tail, .prev => .pointer .head
  | _, _ => .null

end DList

end Pmwcas
