/-
This file is the log queue as a machine: `LogQueue::enq` and `deq`, and `enqueue()` and `dequeue()` of
its test, which take a log entry from the free list of their thread and give it back. Every load, store
and `CompareExchange64` is a step of its own.

A node and a log entry are numbers, and `none` is `NULL`. Flushes leave what the steps read as it is
and are left out, and so are the fields that no step reads.
-/

import Mathlib.Logic.Function.Basic
import Pmwcas.Library.Transition

namespace Pmwcas.LogQueue

open Transition

/-! ### Memory -/

/-- `*phead_`, `*ptail_`, `next_` and `logRemove_` of the nodes, `node_` of the log entries, and the
free lists of log entries of the threads. -/
structure Memory where
  head : Option Nat
  tail : Option Nat
  next : Nat → Option Nat
  logRemove : Nat → Option Nat
  entryNode : Nat → Option Nat
  free : Nat → List Nat

namespace Memory

def setNext (memory : Memory) (node : Nat) (value : Option Nat) : Memory :=
  { memory with next := Function.update memory.next node value }

def setLogRemove (memory : Memory) (node : Nat) (value : Option Nat) : Memory :=
  { memory with logRemove := Function.update memory.logRemove node value }

/-- `logEntry->node_ = value`. -/
def setNode (memory : Memory) (entry : Nat) (value : Option Nat) : Memory :=
  { memory with entryNode := Function.update memory.entryNode entry value }

/-- `CompareExchange64(ptail_, new, old)`. -/
def exchangeTail (memory : Memory) (new old : Option Nat) : Memory :=
  if memory.tail = old then { memory with tail := new } else memory

/-- `CompareExchange64(phead_, new, old)`. -/
def exchangeHead (memory : Memory) (new old : Option Nat) : Memory :=
  if memory.head = old then { memory with head := new } else memory

/-- `reclaimLogEntry`: the entry goes to the end of the free list of its thread. -/
def reclaimLogEntry (memory : Memory) (thread entry : Nat) : Memory :=
  { memory with free := Function.update memory.free thread (memory.free thread ++ [entry]) }

/-- `allocateLogEntry`: the first entry of the free list. -/
def allocateLogEntry (memory : Memory) (thread : Nat) : Option (Nat × Memory) :=
  match memory.free thread with
  | [] => none
  | entry :: rest => some (entry, { memory with free := Function.update memory.free thread rest })

end Memory

/-! ### `enqueue()` -/

/-- The next step of `enqueue()`, after it has taken a new node. -/
inductive EnqPc
  | allocate
  | setNode (entry : Nat)
  | setNext (entry : Nat)
  | setLogRemove (entry : Nat)
  | loadNode (entry : Nat)
  | loadTail (entry newNode : Nat)
  | loadNext (entry newNode last : Nat)
  | checkTail (entry newNode last : Nat) (next : Option Nat)
  | exchangeNext (entry newNode last : Nat)
  | exchangeTail (entry newNode last : Nat)
  | exchangeBehind (entry newNode last next : Nat)
  | reclaim (entry : Nat)
deriving DecidableEq

/-- One step of `enqueue()`; without a next one it has returned. -/
def stepEnq (memory : Memory) (thread node : Nat) : EnqPc → Option (Memory × Option EnqPc)
  | .allocate =>
    (memory.allocateLogEntry thread).map fun (entry, memory) => (memory, some (.setNode entry))
  | .setNode entry => some (memory.setNode entry (some node), some (.setNext entry))
  | .setNext entry => some (memory.setNext node none, some (.setLogRemove entry))
  | .setLogRemove entry => some (memory.setLogRemove node none, some (.loadNode entry))
  | .loadNode entry =>
    (memory.entryNode entry).map fun newNode => (memory, some (.loadTail entry newNode))
  | .loadTail entry newNode =>
    memory.tail.map fun last => (memory, some (.loadNext entry newNode last))
  | .loadNext entry newNode last =>
    some (memory, some (.checkTail entry newNode last (memory.next last)))
  | .checkTail entry newNode last next =>
    if memory.tail = some last then
      match next with
      | none => some (memory, some (.exchangeNext entry newNode last))
      | some next => some (memory, some (.exchangeBehind entry newNode last next))
    else some (memory, some (.loadTail entry newNode))
  | .exchangeNext entry newNode last =>
    if memory.next last = none then
      some (memory.setNext last (some newNode), some (.exchangeTail entry newNode last))
    else some (memory, some (.loadTail entry newNode))
  | .exchangeTail entry newNode last =>
    some (memory.exchangeTail (some newNode) (some last), some (.reclaim entry))
  | .exchangeBehind entry newNode last next =>
    some (memory.exchangeTail (some next) (some last), some (.loadTail entry newNode))
  | .reclaim entry => some (memory.reclaimLogEntry thread entry, none)

/-! ### `dequeue()` -/

/-- The next step of `dequeue()`. After `deq()` has returned, `claimed` is the node whose
`logRemove_` it has won, if it has returned true. -/
inductive DeqPc
  | allocate
  | setNode (entry : Nat)
  | loadHead (entry : Nat)
  | loadTail (entry first : Nat)
  | loadNext (entry first : Nat) (last : Option Nat)
  | checkHead (entry first : Nat) (last next : Option Nat)
  | exchangeTail (entry last next : Nat)
  | exchangeRemove (entry first : Nat) (next : Option Nat)
  | loadRemove (entry first : Nat) (next : Option Nat)
  | storeNode (entry first : Nat) (next : Option Nat) (logRemove : Nat)
  | exchangeHead (entry first : Nat) (next : Option Nat)
  | checkHelp (entry first : Nat) (next : Option Nat)
  | loadHelp (entry first : Nat) (next : Option Nat)
  | storeHelp (entry first : Nat) (next : Option Nat) (logRemove : Nat)
  | exchangeHelp (entry first : Nat) (next : Option Nat)
  | loadNode (entry : Nat) (claimed : Option Nat)
  | reclaim (entry : Nat) (claimed deqNode : Option Nat)
  | cleanDeqNode (claimed : Option Nat) (deqNode : Nat)
deriving DecidableEq

/-- One step of `dequeue()`; without a next one it has returned. -/
def stepDeq (memory : Memory) (thread : Nat) : DeqPc → Option (Memory × Option DeqPc)
  | .allocate =>
    (memory.allocateLogEntry thread).map fun (entry, memory) => (memory, some (.setNode entry))
  | .setNode entry => some (memory.setNode entry none, some (.loadHead entry))
  | .loadHead entry => memory.head.map fun first => (memory, some (.loadTail entry first))
  | .loadTail entry first => some (memory, some (.loadNext entry first memory.tail))
  | .loadNext entry first last => some (memory, some (.checkHead entry first last (memory.next first)))
  | .checkHead entry first last next =>
    if memory.head = some first then
      if some first = last then
        match next with
        | none => some (memory, some (.loadNode entry none))
        | some next => some (memory, some (.exchangeTail entry first next))
      else some (memory, some (.exchangeRemove entry first next))
    else some (memory, some (.loadHead entry))
  | .exchangeTail entry last next =>
    some (memory.exchangeTail (some next) (some last), some (.loadHead entry))
  | .exchangeRemove entry first next =>
    if memory.logRemove first = none then
      some (memory.setLogRemove first (some entry), some (.loadRemove entry first next))
    else some (memory, some (.checkHelp entry first next))
  | .loadRemove entry first next =>
    (memory.logRemove first).map fun logRemove =>
      (memory, some (.storeNode entry first next logRemove))
  | .storeNode entry first next logRemove =>
    some (memory.setNode logRemove (some first), some (.exchangeHead entry first next))
  | .exchangeHead entry first next =>
    some (memory.exchangeHead next (some first), some (.loadNode entry (some first)))
  | .checkHelp entry first next =>
    if memory.head = some first then some (memory, some (.loadHelp entry first next))
    else some (memory, some (.loadHead entry))
  | .loadHelp entry first next =>
    (memory.logRemove first).map fun logRemove =>
      (memory, some (.storeHelp entry first next logRemove))
  | .storeHelp entry first next logRemove =>
    some (memory.setNode logRemove (some first), some (.exchangeHelp entry first next))
  | .exchangeHelp entry first next =>
    some (memory.exchangeHead next (some first), some (.loadHead entry))
  | .loadNode entry claimed => some (memory, some (.reclaim entry claimed (memory.entryNode entry)))
  | .reclaim entry claimed deqNode =>
    some (memory.reclaimLogEntry thread entry, deqNode.map (.cleanDeqNode claimed))
  | .cleanDeqNode .. => some (memory, none)

/-! ### The system -/

/-- Where a thread is. -/
inductive Pc
  | idle
  | enq (node : Nat) (pc : EnqPc)
  | deq (pc : DeqPc)
deriving DecidableEq

structure State where
  memory : Memory
  threads : Nat → Pc
  /-- The nodes that have been taken for the queue. -/
  used : List Nat

/-- A thread calls `enqueue()`, which takes a new node, calls `dequeue()`, or takes a step. -/
inductive Action
  | enqueue (thread node : Nat)
  | dequeue (thread : Nat)
  | step (thread : Nat)
deriving DecidableEq

instance : Inhabited Action := ⟨.step 0⟩

def State.goto (state : State) (thread : Nat) (pc : Pc) : State :=
  { state with threads := Function.update state.threads thread pc }

@[simp] theorem State.goto_memory (state : State) (thread : Nat) (pc : Pc) :
    (state.goto thread pc).memory = state.memory := rfl

@[simp] theorem State.goto_used (state : State) (thread : Nat) (pc : Pc) :
    (state.goto thread pc).used = state.used := rfl

@[simp] theorem State.goto_threads (state : State) (thread : Nat) (pc : Pc) :
    (state.goto thread pc).threads = Function.update state.threads thread pc := rfl

/-- Where a thread is after a step of a call. -/
def Pc.after {CallPc : Type} (inside : CallPc → Pc) : Option CallPc → Pc
  | some pc => inside pc
  | none => .idle

/-- The memory and the place of a thread after its next step. -/
def stepThread (memory : Memory) (thread : Nat) : Pc → Option (Memory × Pc)
  | .idle => none
  | .enq node pc =>
    (stepEnq memory thread node pc).map fun (memory, pc) => (memory, .after (.enq node) pc)
  | .deq pc => (stepDeq memory thread pc).map fun (memory, pc) => (memory, .after .deq pc)

/-- The steps of the system. No node is used twice. -/
def State.next (state : State) : Action → Option State
  | .enqueue thread node =>
    if state.threads thread = .idle ∧ node ∉ state.used then
      some ({ state with used := node :: state.used }.goto thread (.enq node .allocate))
    else none
  | .dequeue thread =>
    if state.threads thread = .idle then some (state.goto thread (.deq .allocate)) else none
  | .step thread =>
    (stepThread state.memory thread (state.threads thread)).map fun (memory, pc) =>
      { state with memory := memory }.goto thread pc

/-- The log entries of each thread: a pool has no entry twice, and no two threads share one. -/
structure Pools where
  entries : Nat → List Nat
  nodup : ∀ thread, (entries thread).Nodup
  disjoint : ∀ thread other entry, entry ∈ entries thread → entry ∈ entries other → thread = other

/-- A new queue with its sentinel node. -/
def State.start (pools : Pools) (sentinel : Nat) : State where
  memory := {
    head := some sentinel
    tail := some sentinel
    next := fun _ => none
    logRemove := fun _ => none
    entryNode := fun _ => none
    free := pools.entries }
  threads _ := .idle
  used := [sentinel]

/-- The log queue under any number of threads. -/
def system (pools : Pools) (sentinel : Nat) : System State Action :=
  .ofNext (fun state => state = .start pools sentinel) State.next

end Pmwcas.LogQueue
