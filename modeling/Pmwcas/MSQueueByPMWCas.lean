/-
This file is the three queues over descriptors as one machine: `MSQueueByPMWCas`, whose `enq()` and
`deq()` end in a `PMWCasOpWrapper::mwcas`, and `MSQueueByPMWCasV2` and `MSQueueByPMWCasV3`, which use
`FetchStoreStore::dcas` on a shared word and a cell of the thread and move the tail with plain
`CompareExchange64`. Each `mwcas` and each `dcas` is one step, and so is every load, store and
`CompareExchange64`.

A pointer is the number of its node, or `none` for `NULL`. A word never shows a descriptor here, so
that the reads of the three queues (`GetValueProtected()`, `getValueProtectedOfSharedVar()`,
`FetchStoreStore::read()`) are loads of its value.
-/

import Pmwcas.Library.LinkedQueue
import Pmwcas.Library.Transition

namespace Pmwcas.MSQueueByPMWCas

open Transition

/-! ### Memory -/

/-- Which of the three queues it is. -/
inductive Variant
  | pmwcas
  | v2
  | v3
deriving DecidableEq

/-- A word of the queue: `*phead_`, `*ptail_`, `next_` of a node, and the cells of a thread that
`enq()` and `deq()` get as `privateAddr`. -/
inductive Address
  | head
  | tail
  | next (node : Nat)
  | enqCell (thread : Nat)
  | deqCell (thread : Nat)
deriving DecidableEq

def Memory := Address → Option Nat

def Memory.write (memory : Memory) (address : Address) (value : Option Nat) : Memory :=
  Function.update memory address value

/-- `CompareExchange64`. -/
def Memory.compareExchange (memory : Memory) (address : Address) (new old : Option Nat) : Memory :=
  if memory address = old then memory.write address new else memory

/-- What a successful `FetchStoreStore::dcas` leaves in the shared word and the private one. -/
def Memory.dcas (memory : Memory) (shared own : Address) (newShared newOwn : Option Nat) : Memory :=
  (memory.write shared newShared).write own newOwn

/-! ### `enq()` -/

/-- The next step of `enq()`, after its first one has loaded `newNode`. -/
inductive EnqPc
  | loadTail
  | recheckTail (last : Nat)
  | mwcas (last : Nat)
  | loadNext (last : Nat)
  | checkTail (last : Nat) (next : Option Nat)
  | dcas (last : Nat)
  | exchangeTail (last : Nat)
  | exchangeBehind (last next : Nat)
deriving DecidableEq

/-- One step of `enq()`; without a next one it has returned. -/
def stepEnq (variant : Variant) (memory : Memory) (cell : Address) (newNode : Nat) :
    EnqPc → Option (Memory × Option EnqPc)
  | .loadTail =>
    (memory .tail).map fun last =>
      (memory, some (if variant = .pmwcas then .recheckTail last else .loadNext last))
  | .recheckTail last =>
    if memory .tail = some last then some (memory, some (.mwcas last))
    else some (memory, some .loadTail)
  | .mwcas last =>
    if memory (.next last) = none ∧ memory .tail = some last ∧ memory cell = some newNode then
      some (((memory.write (.next last) (some newNode)).write .tail (some newNode)).write cell none,
        none)
    else some (memory, some .loadTail)
  | .loadNext last => some (memory, some (.checkTail last (memory (.next last))))
  | .checkTail last next =>
    if memory .tail = some last then
      match next with
      | none => some (memory, some (.dcas last))
      | some next => some (memory, some (.exchangeBehind last next))
    else some (memory, some .loadTail)
  | .dcas last =>
    if memory (.next last) = none then
      some (memory.dcas (.next last) cell (some newNode) none, some (.exchangeTail last))
    else some (memory, some .loadTail)
  | .exchangeTail last => some (memory.compareExchange .tail (some newNode) (some last), none)
  | .exchangeBehind last next =>
    some (memory.compareExchange .tail (some next) (some last), some .loadTail)

/-! ### `deq()` -/

/-- The next step of `deq()`. -/
inductive DeqPc
  | loadHead
  | loadTail (first : Nat)
  | loadNext (first last : Nat)
  | checkHead (first last : Nat) (firstNext : Option Nat)
  | loadCell (first : Nat) (firstNext : Option Nat)
  | mwcas (first : Nat) (firstNext old : Option Nat)
  | dcas (first : Nat) (firstNext : Option Nat)
  | exchangeTail (last firstNext : Nat)
  | flushCell
deriving DecidableEq

/-- One step of `deq()`; without a next one it has returned. -/
def stepDeq (variant : Variant) (memory : Memory) (cell : Address) :
    DeqPc → Option (Memory × Option DeqPc)
  | .loadHead => (memory .head).map fun first => (memory, some (.loadTail first))
  | .loadTail first => (memory .tail).map fun last => (memory, some (.loadNext first last))
  | .loadNext first last => some (memory, some (.checkHead first last (memory (.next first))))
  | .checkHead first last firstNext =>
    if memory .head = some first then
      if first = last then
        match firstNext with
        | none => some (memory, if variant = .pmwcas then none else some .flushCell)
        | some next =>
          some (memory, some (if variant = .pmwcas then .loadHead else .exchangeTail last next))
      else
        some (memory, some (if variant = .pmwcas then .loadCell first firstNext
          else .dcas first firstNext))
    else some (memory, some .loadHead)
  | .loadCell first firstNext => some (memory, some (.mwcas first firstNext (memory cell)))
  | .mwcas first firstNext old =>
    if memory .head = some first ∧ memory cell = old then
      some ((memory.write .head firstNext).write cell (some first), none)
    else some (memory, some .loadHead)
  | .dcas first firstNext =>
    if memory .head = some first then
      some (memory.dcas .head cell firstNext (some first), none)
    else some (memory, some .loadHead)
  | .exchangeTail last firstNext =>
    some (memory.compareExchange .tail (some firstNext) (some last), some .loadHead)
  | .flushCell => some (memory, none)

/-! ### The system -/

/-- Where a thread is. -/
inductive Pc
  | idle
  | loadCell
  | enq (newNode : Nat) (pc : EnqPc)
  | deq (pc : DeqPc)
deriving DecidableEq

structure State where
  memory : Memory
  threads : Nat → Pc
  /-- The nodes that have been taken for the queue. -/
  used : List Nat

/-- A thread calls `enq()` with a new node in its cell, stores a value in the cell for `deq()`, calls
`deq()`, or takes a step. -/
inductive Action
  | enq (thread node : Nat)
  | setCell (thread : Nat) (value : Option Nat)
  | deq (thread : Nat)
  | step (thread : Nat)
deriving DecidableEq

instance : Inhabited Action := ⟨.step 0⟩

/-- The words that are written for a new node before `enq()`. -/
def Memory.prepare (memory : Memory) (thread node : Nat) : Memory :=
  (memory.write (.enqCell thread) (some node)).write (.next node) none

def State.goto (state : State) (thread : Nat) (pc : Pc) : State :=
  { state with threads := Function.update state.threads thread pc }

@[simp] theorem State.goto_memory (state : State) (thread : Nat) (pc : Pc) :
    (state.goto thread pc).memory = state.memory := rfl

@[simp] theorem State.goto_used (state : State) (thread : Nat) (pc : Pc) :
    (state.goto thread pc).used = state.used := rfl

@[simp] theorem State.goto_threads (state : State) (thread : Nat) (pc : Pc) :
    (state.goto thread pc).threads = Function.update state.threads thread pc := rfl

/-- Where a thread is after a step of `enq()`. -/
def Pc.afterEnq (newNode : Nat) : Option EnqPc → Pc
  | some pc => .enq newNode pc
  | none => .idle

/-- Where a thread is after a step of `deq()`. -/
def Pc.afterDeq : Option DeqPc → Pc
  | some pc => .deq pc
  | none => .idle

/-- One step of a thread inside a call. `enq()` begins with `newNode = *privateAddr` and checks that
it is not null. -/
def State.stepThread (variant : Variant) (state : State) (thread : Nat) : Option State :=
  match state.threads thread with
  | .idle => none
  | .loadCell =>
    (state.memory (.enqCell thread)).map fun newNode => state.goto thread (.enq newNode .loadTail)
  | .enq newNode pc =>
    (stepEnq variant state.memory (.enqCell thread) newNode pc).map fun (memory, pc) =>
      { state with memory := memory }.goto thread (.afterEnq newNode pc)
  | .deq pc =>
    (stepDeq variant state.memory (.deqCell thread) pc).map fun (memory, pc) =>
      { state with memory := memory }.goto thread (.afterDeq pc)

/-- The steps of the system. No node is used twice, and a thread writes its cell only between its
calls. -/
def State.next (variant : Variant) (state : State) : Action → Option State
  | .enq thread node =>
    if state.threads thread = .idle ∧ node ∉ state.used then
      some ({ state with
        memory := state.memory.prepare thread node
        used := node :: state.used }.goto thread .loadCell)
    else none
  | .setCell thread value =>
    if state.threads thread = .idle then
      some { state with memory := state.memory.write (.deqCell thread) value }
    else none
  | .deq thread =>
    if state.threads thread = .idle then some (state.goto thread (.deq .loadHead)) else none
  | .step thread => state.stepThread variant thread

/-- The memory of a new queue: head and tail point to one sentinel node. -/
def Memory.start (sentinel : Nat) : Memory
  | .head => some sentinel
  | .tail => some sentinel
  | _ => none

def State.start (sentinel : Nat) : State where
  memory := .start sentinel
  threads _ := .idle
  used := [sentinel]

/-- The queue with its sentinel under any number of threads. -/
def system (variant : Variant) (sentinel : Nat) : System State Action :=
  .ofNext (fun state => state = .start sentinel) (State.next variant)

end Pmwcas.MSQueueByPMWCas
