/-
This file is the doubly linked list over multi-word CAS (`MwCASDList`) as a machine. `MwCAS()` is one
step and so is every load and store of a link. A `RAW_CHECK` that fails, and a pointer that leads to no
node and is followed, leave the thread without a next step.

A word never shows a descriptor here, so that `ResolveNodePointer` is a load of its value, and
`IsCleanPtr` can only fail by the dirty flag.
-/

import Pmwcas.DListNode
import Pmwcas.Library.Transition

namespace Pmwcas.MwCASDList

open Transition DList

/-! ### `MwCAS()` -/

/-- An entry of a descriptor: the word, its old value and its new one. -/
structure Entry where
  node : DListNode
  field : DListNode.Field
  old : Link
  new : Link
deriving DecidableEq

/-- Every word has the old value of its entry. -/
def Matches (memory : Memory) (entries : List Entry) : Prop :=
  ∀ entry ∈ entries, memory entry.node entry.field = entry.old

instance (memory : Memory) (entries : List Entry) : Decidable (Matches memory entries) :=
  inferInstanceAs (Decidable (∀ entry ∈ entries, memory entry.node entry.field = entry.old))

/-- Every word gets the new value of its entry. -/
def install (memory : Memory) (entries : List Entry) : Memory :=
  entries.foldl (fun memory entry => memory.write entry.node entry.field entry.new) memory

/-! ### `InsertBefore` -/

/-- The next step of `InsertBefore`. -/
inductive BeforePc
  | loadPrev (next : Link)
  | loadNext (next : DListNode) (prev : Link)
  | getNext (next : DListNode)
  | loadPrevNext (next : DListNode) (prev : Link)
  | storeNext (next : DListNode) (prev : Link)
  | storePrev (next : DListNode) (prev : Link)
  | addEntries (next : DListNode) (prev : Link)
  | mwcas (next : DListNode) (entries : List Entry)
deriving DecidableEq

/-- One step of `InsertBefore`; without a next one it has returned. -/
def stepBefore (memory : Memory) (node : DListNode) : BeforePc → Option (Memory × Option BeforePc)
  | .loadPrev next =>
    if next.deleted then none
    else next.target.map fun next => (memory, some (.loadNext next (memory next .prev)))
  | .loadNext next prev =>
    if prev.deleted ∨ (memory next .next).deleted then some (memory, some (.getNext next))
    else some (memory, some (.loadPrevNext next prev))
  | .getNext next => some (memory, some (.loadPrev (memory next .next).cleared))
  | .loadPrevNext next prev =>
    prev.target.map fun before =>
      if (memory before .next).deleted then (memory, some (.loadPrev (.pointer next)))
      else (memory, some (.storeNext next prev))
  | .storeNext next prev => some (memory.write node .next (.pointer next), some (.storePrev next prev))
  | .storePrev next prev => some (memory.write node .prev prev, some (.addEntries next prev))
  | .addEntries next prev =>
    if prev.dirty then none
    else (memory node .prev).target.map fun before =>
      (memory, some (.mwcas next [⟨before, .next, memory node .next, .pointer node⟩,
        ⟨next, .prev, memory node .prev, .pointer node⟩]))
  | .mwcas next entries =>
    if Matches memory entries then some (install memory entries, none)
    else some (memory, some (.loadPrev (.pointer next)))

/-! ### `InsertAfter` -/

/-- The next step of `InsertAfter`. -/
inductive AfterPc
  | loadNext (prev : Link)
  | getPrev (prev : DListNode)
  | loadNextNext (prev : DListNode) (next : Link)
  | storePrev (prev : DListNode) (next : Link)
  | storeNext (prev : DListNode) (next : Link)
  | addEntries (prev : DListNode) (next : Link)
  | mwcas (prev : DListNode) (entries : List Entry)
deriving DecidableEq

/-- One step of `InsertAfter`; without a next one it has returned. -/
def stepAfter (memory : Memory) (node : DListNode) : AfterPc → Option (Memory × Option AfterPc)
  | .loadNext prev =>
    if prev.deleted then none
    else prev.target.map fun prev =>
      if (memory prev .next).deleted then (memory, some (.getPrev prev))
      else (memory, some (.loadNextNext prev (memory prev .next)))
  | .getPrev prev => some (memory, some (.loadNext (memory prev .prev).cleared))
  | .loadNextNext prev next =>
    next.target.map fun after =>
      if (memory after .next).deleted then (memory, some (.loadNext (.pointer prev)))
      else (memory, some (.storePrev prev next))
  | .storePrev prev next =>
    if next.deleted ∨ next.dirty then none
    else some (memory.write node .prev (.pointer prev), some (.storeNext prev next))
  | .storeNext prev next => some (memory.write node .next next, some (.addEntries prev next))
  | .addEntries prev _ =>
    (memory node .next).target.map fun after =>
      (memory, some (.mwcas prev [⟨prev, .next, memory node .next, .pointer node⟩,
        ⟨after, .prev, memory node .prev, .pointer node⟩]))
  | .mwcas prev entries =>
    if Matches memory entries then some (install memory entries, none)
    else some (memory, some (.loadNext (.pointer prev)))

/-! ### `Delete` -/

/-- The next step of `Delete`. -/
inductive DeletePc
  | check
  | checkNext
  | checkPrev
  | loadPrev
  | loadNext (prev : Link)
  | comparePrev (prev next : Link)
  | compareNext (prev next : Link)
  | mwcas (entries : List Entry)
deriving DecidableEq

/-- One step of `Delete`; without a next one it has returned. The bounds of the list are checked and
left alone. -/
def stepDelete (memory : Memory) (node : DListNode) : DeletePc → Option (Memory × Option DeletePc)
  | .check =>
    if (memory node .next).deleted then some (memory, none)
    else if node = .head ∨ node = .tail then some (memory, some .checkNext)
    else some (memory, some .loadPrev)
  | .checkNext => if (memory node .next).deleted then none else some (memory, some .checkPrev)
  | .checkPrev => if (memory node .prev).deleted then none else some (memory, none)
  | .loadPrev => some (memory, some (.loadNext (memory node .prev)))
  | .loadNext prev => some (memory, some (.comparePrev prev (memory node .next)))
  | .comparePrev prev next =>
    prev.target.map fun before =>
      if memory before .next = .pointer node then (memory, some (.compareNext prev next))
      else (memory, some .check)
  | .compareNext prev next =>
    match prev.target, next.target with
    | some before, some after =>
      if memory after .prev = .pointer node then
        some (memory, some (.mwcas [⟨before, .next, .pointer node, next⟩, ⟨after, .prev, .pointer node, prev⟩,
          ⟨node, .next, next, next.marked⟩]))
      else some (memory, some .check)
    | _, _ => none
  | .mwcas entries =>
    if Matches memory entries then some (install memory entries, none)
    else some (memory, some .check)

/-! ### The system -/

/-- Where a thread is. A call of `GetNext` or `GetPrev` is one load. -/
inductive Pc
  | idle (result : Option Link)
  | insertBefore (node : DListNode) (pc : BeforePc)
  | insertAfter (node : DListNode) (pc : AfterPc)
  | delete (node : DListNode) (pc : DeletePc)
  | getNext (node : DListNode)
  | getPrev (node : DListNode)
deriving DecidableEq

structure State where
  memory : Memory
  threads : Nat → Pc
  /-- The nodes that an insertion was called for. -/
  used : List DListNode
  /-- The nodes that have been in the list. -/
  known : List DListNode

/-- What a step does to the list: a node is linked between two others, or a node is unlinked. -/
inductive Event
  | link (prev node next : DListNode)
  | unlink (node : DListNode)
deriving DecidableEq

/-- A thread calls one of the functions, or takes a step inside a call. -/
inductive Action
  | insertBefore (thread : Nat) (next node : DListNode)
  | insertAfter (thread : Nat) (prev node : DListNode)
  | delete (thread : Nat) (node : DListNode)
  | getNext (thread : Nat) (node : DListNode)
  | getPrev (thread : Nat) (node : DListNode)
  | step (thread : Nat)
deriving DecidableEq

instance : Inhabited Action := ⟨.step 0⟩

def State.goto (state : State) (thread : Nat) (pc : Pc) : State :=
  { state with threads := Function.update state.threads thread pc }

@[simp] theorem State.goto_memory (state : State) (thread : Nat) (pc : Pc) :
    (state.goto thread pc).memory = state.memory := rfl

@[simp] theorem State.goto_used (state : State) (thread : Nat) (pc : Pc) :
    (state.goto thread pc).used = state.used := rfl

@[simp] theorem State.goto_known (state : State) (thread : Nat) (pc : Pc) :
    (state.goto thread pc).known = state.known := rfl

@[simp] theorem State.goto_threads (state : State) (thread : Nat) (pc : Pc) :
    (state.goto thread pc).threads = Function.update state.threads thread pc := rfl

/-- The event of the insertion of a node: the words of its entries are those of its neighbours. -/
def linkOf (node : DListNode) : List Entry → Option Event
  | [first, second] => some (.link first.node node second.node)
  | _ => none

/-- The event of the next step of a thread: an `MwCAS()` that succeeds links the node of an insertion
and unlinks the node of a deletion. -/
def eventOf (memory : Memory) : Pc → Option Event
  | .insertBefore node (.mwcas _ entries) | .insertAfter node (.mwcas _ entries) =>
    if Matches memory entries then linkOf node entries else none
  | .delete node (.mwcas entries) => if Matches memory entries then some (.unlink node) else none
  | _ => none

/-- The nodes that have been in the list after an event. -/
def Event.know : Option Event → List DListNode → List DListNode
  | some (.link _ node _), known => node :: known
  | _, known => known

/-- Where a thread is after a step of a call. -/
def Pc.after {CallPc : Type} (inside : CallPc → Pc) : Option CallPc → Pc
  | some pc => inside pc
  | none => .idle none

/-- The memory and the place of a thread after its next step. -/
def stepThread (memory : Memory) : Pc → Option (Memory × Pc)
  | .idle _ => none
  | .insertBefore node pc =>
    (stepBefore memory node pc).map fun (memory, pc) => (memory, .after (.insertBefore node) pc)
  | .insertAfter node pc =>
    (stepAfter memory node pc).map fun (memory, pc) => (memory, .after (.insertAfter node) pc)
  | .delete node pc =>
    (stepDelete memory node pc).map fun (memory, pc) => (memory, .after (.delete node) pc)
  | .getNext node => some (memory, .idle (some (memory node .next).cleared))
  | .getPrev node => some (memory, .idle (some (memory node .prev).cleared))

/-- The thread is not in a call. -/
def Pc.Idle : Pc → Prop
  | .idle _ => True
  | _ => False

instance (pc : Pc) : Decidable pc.Idle :=
  match pc with
  | .idle _ => isTrue trivial
  | .insertBefore .. | .insertAfter .. | .delete .. | .getNext _ | .getPrev _ => isFalse id

/-- Where `InsertBefore` begins. Before the head means after it. -/
def Pc.insertBeforeOf (next node : DListNode) : Pc :=
  if next = .head then .insertAfter node (.loadNext (.pointer next))
  else .insertBefore node (.loadPrev (.pointer next))

/-- Where `InsertAfter` begins. After the tail means before it. -/
def Pc.insertAfterOf (prev node : DListNode) : Pc :=
  if prev = .tail then .insertBefore node (.loadPrev (.pointer prev))
  else .insertAfter node (.loadNext (.pointer prev))

/-- The steps of the system. Each node is inserted by one call; the other arguments are `head_`,
`tail_` and nodes that are or were in the list. -/
def State.next (state : State) : Action → Option State
  | .insertBefore thread next node =>
    if (state.threads thread).Idle ∧ next ∈ state.known ∧ node ∉ state.used then
      some ({ state with used := node :: state.used }.goto thread (.insertBeforeOf next node))
    else none
  | .insertAfter thread prev node =>
    if (state.threads thread).Idle ∧ prev ∈ state.known ∧ node ∉ state.used then
      some ({ state with used := node :: state.used }.goto thread (.insertAfterOf prev node))
    else none
  | .delete thread node =>
    if (state.threads thread).Idle ∧ node ∈ state.known then
      some (state.goto thread (.delete node .check))
    else none
  | .getNext thread node =>
    if (state.threads thread).Idle ∧ node ∈ state.known then
      some (state.goto thread (.getNext node))
    else none
  | .getPrev thread node =>
    if (state.threads thread).Idle ∧ node ∈ state.known then
      some (state.goto thread (.getPrev node))
    else none
  | .step thread =>
    (stepThread state.memory (state.threads thread)).map fun (memory, pc) =>
      { state with
        memory := memory
        known := Event.know (eventOf state.memory (state.threads thread)) state.known }.goto thread pc

/-- A new list. -/
def State.start : State where
  memory := .start
  threads _ := .idle none
  used := [.head, .tail]
  known := [.head, .tail]

/-- The list under any number of threads. -/
def system : System State Action := .ofNext (fun state => state = .start) State.next

end Pmwcas.MwCASDList
