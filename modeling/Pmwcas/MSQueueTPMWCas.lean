/-
This file models the benchmark queue `MSQueueTPMWCasest` with its node pool
(`benchmarks/msqueue_benchmark.cc`): `enqueue()` takes a node from the free list of its thread,
`dequeue()` puts the node that has left the list back on it, and after a crash the free lists are
rebuilt from the busy flags. `MSQueueByPMWCas::enq` and `deq` are run alone, step by step, on the
machine of `MSQueueByPMWCas.lean`.

A thread has a cell for each of the two operations. `enq` resets its cell; `deq` leaves the node it has
taken in its own, and `dequeue()` reads from there whether there was one.
-/

import Pmwcas.Library.Result
import Pmwcas.MSQueueByPMWCas

namespace Pmwcas.MSQueueTPMWCas

open Transition MSQueueByPMWCas

/-! ### Nodes and pools -/

/-- `QueueNode` without `next_`, which is a word of the queue. -/
structure Node where
  pData : Nat
  isBusy : Nat
  poolNext : Option Nat
  deriving DecidableEq, Repr

/-- The words of the queue and the cells, the other fields of the nodes, and `nodePoolTbl_`. -/
structure State where
  memory : Memory
  nodes : Nat → Node
  freeList : Nat → Option Nat
  freeListTail : Nat → Option Nat

/-- The numbers of nodes and of threads. -/
structure Config where
  nodeSize : Nat
  threads : Nat

namespace State

def setNode (state : State) (node : Nat) (fields : Node) : State :=
  { state with nodes := Function.update state.nodes node fields }

def setPoolNext (state : State) (node : Nat) (next : Option Nat) : State :=
  state.setNode node { state.nodes node with poolNext := next }

/-- The stores of `allocateNode`, to the pool of the thread and to the first node on its free list. -/
def takeNode (state : State) (thread node : Nat) : State :=
  { state with
    freeList := Function.update state.freeList thread (state.nodes node).poolNext
    freeListTail :=
      if state.freeListTail thread = some node then Function.update state.freeListTail thread none
      else state.freeListTail }.setPoolNext node none

/-- `allocateNode`, which checks that there is a free node. -/
def allocateNode (state : State) (thread : Nat) : Option (Nat × State) :=
  (state.freeList thread).map fun node => (node, state.takeNode thread node)

/-- `reclaimNode`. -/
def reclaimNode (state : State) (node thread : Nat) : State :=
  let cleared := state.setPoolNext node none
  match state.freeListTail thread with
  | some last =>
    { cleared.setPoolNext last (some node) with
      freeListTail := Function.update state.freeListTail thread (some node) }
  | none =>
    { cleared with
      freeListTail := Function.update state.freeListTail thread (some node)
      freeList := Function.update state.freeList thread (some node) }

/-- `cleanDeqNode`. -/
def cleanDeqNode (state : State) (thread node : Nat) : State :=
  if (state.nodes node).isBusy = 0 then state
  else
    (state.setNode node { state.nodes node with isBusy := 0, pData := 0 }).reclaimNode node thread

end State

/-! ### `enq` and `deq` alone -/

/-- `MSQueueByPMWCas::enq` without other threads. -/
def enq (memory : Memory) (cell : Address) (fuel : Nat) : Option (Unit × Memory) :=
  (memory cell).bind fun newNode =>
    (runUntil
      (fun state : Memory × Option EnqPc =>
        state.2.bind fun pc => stepEnq .pmwcas state.1 cell newNode pc)
      (fun state => if state.2 = none then some () else none) fuel
      (memory, some .loadTail)).map fun done => ((), done.2.1)

/-- `MSQueueByPMWCas::deq` without other threads. -/
def deq (memory : Memory) (cell : Address) (fuel : Nat) : Option (Unit × Memory) :=
  (runUntil
    (fun state : Memory × Option DeqPc => state.2.bind fun pc => stepDeq .pmwcas state.1 cell pc)
    (fun state => if state.2 = none then some () else none) fuel
    (memory, some .loadHead)).map fun done => ((), done.2.1)

namespace State

/-! ### The operations -/

/-- `rawEnque`. -/
def rawEnque (state : State) (thread : Nat) (fuel : Nat) : Option (Unit × State) :=
  (enq state.memory (.enqCell thread) fuel).map fun done => ((), { state with memory := done.2 })

/-- What `enqueue` stores before it calls `rawEnque`. -/
def prepare (state : State) (thread node pData : Nat) : State :=
  { state with memory := state.memory.prepare thread node }.setNode node
    { state.nodes node with pData := pData, isBusy := 1 }

/-- `enqueue`. -/
def enqueue (state : State) (thread pData : Nat) (fuel : Nat) : Option (Unit × State) :=
  (state.allocateNode thread).bind fun allocated =>
    (allocated.2.prepare thread allocated.1 pData).rawEnque thread fuel

/-- `dequeue`. -/
def dequeue (state : State) (thread : Nat) (fuel : Nat) : Option (Bool × State) :=
  (deq state.memory (.deqCell thread) fuel).map fun done =>
    let after := { state with memory := done.2 }
    match done.2 (.deqCell thread) with
    | some node => (true, after.cleanDeqNode thread node)
    | none => (false, after)

/-- `recoverEnq`. -/
def recoverEnq (state : State) (thread : Nat) (fuel : Nat) : Option (Unit × State) :=
  match state.memory (.enqCell thread) with
  | none => some ((), state)
  | some node =>
    if (state.nodes node).isBusy = 1 then state.rawEnque thread fuel
    else some ((), { state with memory := state.memory.write (.enqCell thread) none })

/-- `recoverDeq`. -/
def recoverDeq (state : State) (thread : Nat) : State :=
  match state.memory (.deqCell thread) with
  | none => state
  | some node =>
    let cleaned := if (state.nodes node).isBusy = 1 then state.cleanDeqNode thread node else state
    { cleaned with memory := cleaned.memory.write (.deqCell thread) none }

/-- `recover`. -/
def recover (state : State) (thread : Nat) (fuel : Nat) : Option (Unit × State) :=
  (state.recoverEnq thread fuel).map fun done => ((), done.2.recoverDeq thread)

/-! ### Start-up -/

/-- What `initQueueNodePool` does with a node that is not busy. -/
def pushNode (state : State) (thread node : Nat) : State :=
  { state.setPoolNext node (state.freeList thread) with
    freeList := Function.update state.freeList thread (some node)
    freeListTail :=
      if state.freeListTail thread = none then Function.update state.freeListTail thread (some node)
      else state.freeListTail }

/-- One round of the loop of `initQueueNodePool` at node `i`; `none` when the partition is behind the
table or the quotient is zero. -/
def initRound (config : Config) (loop : State × Nat) (i : Nat) : Option (State × Nat) :=
  let perThread := config.nodeSize / config.threads
  let (state, thread) := loop
  if (state.nodes i).isBusy ≠ 1 ∧ config.threads ≤ thread ∨ perThread = 0 then none
  else
    some (if (state.nodes i).isBusy = 1 then state else state.pushNode thread i,
      if (i + 1) % perThread = 0 then thread + 1 else thread)

/-- `initQueueNodePool`: the pools are new, and every node that is not busy goes on a free list. -/
def initQueueNodePool (config : Config) (state : State) : Option State :=
  if config.threads = 0 then none
  else
    ((List.range config.nodeSize).foldlM (initRound config)
      ({ state with freeList := fun _ => none, freeListTail := fun _ => none }, 0)).map Prod.fst

/-- The stores of `genSentinelNode` to the node and those of `initQueueHeadTail` to head and tail. -/
def linkSentinel (state : State) (node : Nat) : State :=
  { state with
    memory := ((state.memory.write (.next node) none).write .head (some node)).write .tail
      (some node) }.setNode node { state.nodes node with isBusy := 1, pData := 0 }

/-- `genSentinelNode` and `initQueueHeadTail` of a new queue. -/
def genSentinelNode (state : State) : Option State :=
  (state.allocateNode 0).map fun allocated => allocated.2.linkSentinel allocated.1

/-- New memory is zero. -/
def zero : State where
  memory _ := none
  nodes _ := { pData := 0, isBusy := 0, poolNext := none }
  freeList _ := none
  freeListTail _ := none

/-- The first start. -/
def start (config : Config) : Option State :=
  (initQueueNodePool config zero).bind genSentinelNode

end State

/-! ### The system -/

/-- A call with what it returns, or a crash between two calls and the restart up to `recover()`. -/
inductive Action where
  | enqueue (thread pData : Nat)
  | dequeue (thread : Nat) (returned : Bool)
  | crash
  | recover (thread : Nat)
  deriving DecidableEq, Repr

instance : Inhabited Action := ⟨.crash⟩

/-- A step is a call that returns. -/
def Step (config : Config) (before : State) (action : Action) (after : State) : Prop :=
  match action with
  | .enqueue thread pData =>
    thread < config.threads ∧ Yields (before.enqueue thread pData) () after
  | .dequeue thread returned =>
    thread < config.threads ∧ Yields (before.dequeue thread) returned after
  | .crash => before.initQueueNodePool config = some after
  | .recover thread => thread < config.threads ∧ Yields (before.recover thread) () after

/-- The queue from its first start on, one call at a time. -/
def system (config : Config) : System State Action where
  initial state := State.start config = some state
  step := Step config

end Pmwcas.MSQueueTPMWCas
