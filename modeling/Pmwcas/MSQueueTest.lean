/-
This file is the benchmark queue `MSQueueTPMWCasest` (`benchmarks/msqueue_benchmark.cc`) as a machine
with crashes: any number of threads run `enqueue()` and `dequeue()`, a crash may come between any two
steps, and after it every thread runs `recover()` and waits at the barrier of `Main` for the others.

The shared segment is there twice, as the threads see it and as it is in NVM. A store changes the
first; a cache line gets into NVM when it is flushed or at any other time, with all its words as they
are then. A `QueueNode` is one cache line, and so is each cell, `*phead_` and `*ptail_`. `mwcas` is one
step, which `PersistentMwCAS` finishes with the words it changes flushed.

`enq()` and `deq()` are those of `MSQueueByPMWCas.lean`. `MSQueuePMWCasV2Test` and
`MSQueuePMWCasV3Test` are left out. Version 2 runs `dcas`, which does not flush the shared word. In
version 3 `recover()` calls `enq()` of every thread with the thread index 0, and two calls of one index
may not use the descriptors at the same time.
-/

import Pmwcas.MSQueueByPMWCas

namespace Pmwcas.MSQueueTest

open Transition MSQueueByPMWCas

/-! ### The shared segment -/

/-- `isBusy_` and `pData_` of a `QueueNode`. -/
structure Fields where
  isBusy : Nat
  pData : Nat
deriving DecidableEq

/-- The words of the queue, the cells of the threads, and the nodes. -/
structure Image where
  memory : Memory
  nodes : Nat → Fields

/-- A cache line. -/
inductive Line
  | head
  | tail
  | node (node : Nat)
  | enqCell (thread : Nat)
  | deqCell (thread : Nat)
deriving DecidableEq

/-- The line of a word. `next_` is in the line of its node. -/
def lineOf : Address → Line
  | .head => .head
  | .tail => .tail
  | .next node => .node node
  | .enqCell thread => .enqCell thread
  | .deqCell thread => .deqCell thread

namespace Image

def write (image : Image) (address : Address) (value : Option Nat) : Image :=
  { image with memory := image.memory.write address value }

def setNode (image : Image) (node : Nat) (fields : Fields) : Image :=
  { image with nodes := Function.update image.nodes node fields }

/-- These lines get into NVM. -/
def writeBack (persisted current : Image) (lines : List Line) : Image where
  memory address := if lineOf address ∈ lines then current.memory address else persisted.memory address
  nodes node := if Line.node node ∈ lines then current.nodes node else persisted.nodes node

end Image

/-! ### Where a thread is -/

/-- Who has called `enq()`. -/
inductive Caller
  | enqueue
  | recover
deriving DecidableEq

/-- Who has called `cleanDeqNode()`. -/
inductive Purpose
  | dequeue
  | recover
deriving DecidableEq

/-- The next step of `enqueue()` on its new node, after the store to the cell. -/
inductive PrepareStage
  | flushCell
  | storeNext
  | storeData
  | storeBusy
  | flushNode
deriving DecidableEq

/-- The next step of `cleanDeqNode()`. -/
inductive CleanStage
  | check
  | storeBusy
  | storeData
  | flushNode
deriving DecidableEq

/-- Where a thread is in its calls. After a crash it is `restarted`. -/
inductive Pc
  | restarted
  | doRecoverEnq (enqNode : Nat)
  | clearEnqCell
  | flushEnqCell
  | recoverDeq
  | doRecoverDeq (deqNode : Nat)
  | recovered
  | barrier
  | idle
  | prepare (stage : PrepareStage) (newNode pData : Nat)
  | loadEnqCell (caller : Caller)
  | enq (caller : Caller) (newNode : Nat) (pc : EnqPc)
  | deq (pc : DeqPc)
  | loadResult
  | clean (purpose : Purpose) (stage : CleanStage) (deqNode : Nat)
  | clearDeqCell
  | flushDeqCell
deriving DecidableEq

/-! ### The system -/

/-- The segment as the threads see it and as it is in NVM, the threads, the nodes taken from the free
lists since the restart or busy at it, and the counters of `Main`: how many threads have recovered and
how many calls of `enqueue()` and successful ones of `dequeue()` have returned since the restart. -/
structure State where
  current : Image
  persisted : Image
  threads : Nat → Pc
  used : List Nat
  recoverNum : Nat
  enqNum : Nat
  deqNum : Nat

namespace State

def goto (state : State) (thread : Nat) (pc : Pc) : State :=
  { state with threads := Function.update state.threads thread pc }

/-- A store by a thread. -/
def store (state : State) (address : Address) (value : Option Nat) : State :=
  { state with current := state.current.write address value }

/-- A store by a thread to a field of a node. -/
def storeNode (state : State) (node : Nat) (fields : Fields) : State :=
  { state with current := state.current.setNode node fields }

/-- `NVRAM::Flush`. -/
def flush (state : State) (line : Line) : State :=
  { state with persisted := state.persisted.writeBack state.current [line] }

/-- `enq()` returns to its caller. -/
def returnEnq (state : State) (thread : Nat) : Caller → State
  | .enqueue => { state with enqNum := state.enqNum + 1 }.goto thread .idle
  | .recover => state.goto thread .recoverDeq

/-- `dequeue()` returns true. -/
def returnDeq (state : State) (thread : Nat) : State :=
  { state with deqNum := state.deqNum + 1 }.goto thread .idle

/-- `cleanDeqNode()` returns to its caller. `dequeue()` leaves the cell as it is. -/
def returnClean (state : State) (thread : Nat) : Purpose → State
  | .dequeue => state.returnDeq thread
  | .recover => state.goto thread .clearDeqCell

end State

/-- The lines that a step of `enq()` has flushed. -/
def EnqPc.flushes (memory : Memory) (thread newNode : Nat) : EnqPc → List Line
  | .mwcas last =>
    if memory (.next last) = none ∧ memory .tail = some last ∧
        memory (.enqCell thread) = some newNode then
      [.node last, .tail, .enqCell thread]
    else []
  | _ => []

/-- The lines that a step of `deq()` has flushed. -/
def DeqPc.flushes (memory : Memory) (thread : Nat) : DeqPc → List Line
  | .mwcas first _ old =>
    if memory .head = some first ∧ memory (.deqCell thread) = old then [.head, .deqCell thread] else []
  | _ => []

namespace State

/-- One step of `enqueue()` on its new node. -/
def stepPrepare (state : State) (thread newNode pData : Nat) : PrepareStage → State
  | .flushCell => (state.flush (.enqCell thread)).goto thread (.prepare .storeNext newNode pData)
  | .storeNext =>
    (state.store (.next newNode) none).goto thread (.prepare .storeData newNode pData)
  | .storeData =>
    (state.storeNode newNode { state.current.nodes newNode with pData := pData }).goto thread
      (.prepare .storeBusy newNode pData)
  | .storeBusy =>
    (state.storeNode newNode { state.current.nodes newNode with isBusy := 1 }).goto thread
      (.prepare .flushNode newNode pData)
  | .flushNode => (state.flush (.node newNode)).goto thread (.loadEnqCell .enqueue)

/-- One step of `cleanDeqNode()`. `reclaimNode()` after it puts the node on the free list. -/
def stepClean (state : State) (thread : Nat) (purpose : Purpose) (deqNode : Nat) :
    CleanStage → State
  | .check =>
    if (state.current.nodes deqNode).isBusy = 0 then state.returnClean thread purpose
    else state.goto thread (.clean purpose .storeBusy deqNode)
  | .storeBusy =>
    (state.storeNode deqNode { state.current.nodes deqNode with isBusy := 0 }).goto thread
      (.clean purpose .storeData deqNode)
  | .storeData =>
    (state.storeNode deqNode { state.current.nodes deqNode with pData := 0 }).goto thread
      (.clean purpose .flushNode deqNode)
  | .flushNode => (state.flush (.node deqNode)).returnClean thread purpose

/-- One step of a thread inside a call. There is none when a `RAW_CHECK` fails or `NULL` is followed.
-/
def stepThread (threadNum : Nat) (state : State) (thread : Nat) : Option State :=
  match state.threads thread with
  | .restarted =>
    match state.current.memory (.enqCell thread) with
    | some enqNode => some (state.goto thread (.doRecoverEnq enqNode))
    | none => some (state.goto thread .recoverDeq)
  | .doRecoverEnq enqNode =>
    if (state.current.nodes enqNode).isBusy = 1 then
      some (state.goto thread (.loadEnqCell .recover))
    else some (state.goto thread .clearEnqCell)
  | .clearEnqCell => some ((state.store (.enqCell thread) none).goto thread .flushEnqCell)
  | .flushEnqCell => some ((state.flush (.enqCell thread)).goto thread .recoverDeq)
  | .recoverDeq =>
    match state.current.memory (.deqCell thread) with
    | some deqNode => some (state.goto thread (.doRecoverDeq deqNode))
    | none => some (state.goto thread .recovered)
  | .doRecoverDeq deqNode =>
    if (state.current.nodes deqNode).isBusy = 1 then
      some (state.goto thread (.clean .recover .check deqNode))
    else some (state.goto thread .clearDeqCell)
  | .recovered => some ({ state with recoverNum := state.recoverNum + 1 }.goto thread .barrier)
  | .barrier =>
    if state.recoverNum < threadNum then some state else some (state.goto thread .idle)
  | .idle => none
  | .prepare stage newNode pData => some (state.stepPrepare thread newNode pData stage)
  | .loadEnqCell caller =>
    (state.current.memory (.enqCell thread)).map fun newNode =>
      state.goto thread (.enq caller newNode .loadTail)
  | .enq caller newNode pc =>
    (stepEnq .pmwcas state.current.memory (.enqCell thread) newNode pc).map fun (memory, following) =>
      let current := { state.current with memory := memory }
      let after := { state with
        current := current
        persisted := state.persisted.writeBack current
          (EnqPc.flushes state.current.memory thread newNode pc) }
      match following with
      | some following => after.goto thread (.enq caller newNode following)
      | none => after.returnEnq thread caller
  | .deq pc =>
    (stepDeq .pmwcas state.current.memory (.deqCell thread) pc).map fun (memory, following) =>
      let current := { state.current with memory := memory }
      let after := { state with
        current := current
        persisted := state.persisted.writeBack current
          (DeqPc.flushes state.current.memory thread pc) }
      match following with
      | some following => after.goto thread (.deq following)
      | none => after.goto thread .loadResult
  | .loadResult =>
    match state.current.memory (.deqCell thread) with
    | some deqNode => some (state.goto thread (.clean .dequeue .check deqNode))
    | none => some (state.goto thread .idle)
  | .clean purpose stage deqNode => some (state.stepClean thread purpose deqNode stage)
  | .clearDeqCell => some ((state.store (.deqCell thread) none).goto thread .flushDeqCell)
  | .flushDeqCell => some ((state.flush (.deqCell thread)).goto thread .recovered)

end State

/-- A thread calls `enqueue()`, which takes a free node and stores it in its cell, or `dequeue()`, or
takes a step; a cache line gets into NVM; or there is a crash. -/
inductive Action
  | enqueue (thread node pData : Nat)
  | dequeue (thread : Nat)
  | step (thread : Nat)
  | writeBack (line : Line)
  | crash
deriving DecidableEq

instance : Inhabited Action := ⟨.crash⟩

/-- What is left after a crash. The nodes that are not busy are free again. -/
def State.crash (state : State) : State where
  current := state.persisted
  persisted := state.persisted
  threads _ := .restarted
  used := state.used.filter fun node => (state.persisted.nodes node).isBusy = 1
  recoverNum := 0
  enqNum := 0
  deqNum := 0

/-- The steps of the system. -/
def State.next (threadNum : Nat) (state : State) : Action → Option State
  | .enqueue thread node pData =>
    if thread < threadNum ∧ state.threads thread = .idle then
      some ({ state.store (.enqCell thread) (some node) with used := node :: state.used }.goto thread
        (.prepare .flushCell node pData))
    else none
  | .dequeue thread =>
    if thread < threadNum ∧ state.threads thread = .idle then some (state.goto thread (.deq .loadHead))
    else none
  | .step thread => if thread < threadNum then state.stepThread threadNum thread else none
  | .writeBack line => some (state.flush line)
  | .crash => some state.crash

/-- `getQueueSize()` from a node on, for at most `fuel` nodes. -/
def Image.queueSizeFrom (image : Image) : Nat → Option Nat → Option Nat
  | _, none => some 0
  | 0, some _ => none
  | fuel + 1, some node => (image.queueSizeFrom fuel (image.memory (.next node))).map (· + 1)

/-- `getQueueSize()`. -/
def Image.getQueueSize (image : Image) (fuel : Nat) : Option Nat :=
  image.queueSizeFrom fuel (image.memory .head)

/-- A new segment: `initQueueHeadTail()` has linked the sentinel, which is busy. -/
def Image.start (sentinel : Nat) : Image where
  memory := .start sentinel
  nodes node := { isBusy := if node = sentinel then 1 else 0, pData := 0 }

/-- A new queue before the threads fill it. -/
def State.start (threadNum sentinel : Nat) : State where
  current := .start sentinel
  persisted := .start sentinel
  threads _ := .idle
  used := [sentinel]
  recoverNum := threadNum
  enqNum := 0
  deqNum := 0

/-- The queue with its sentinel and its threads. -/
def system (threadNum sentinel : Nat) : System State Action :=
  .ofNext (fun state => state = .start threadNum sentinel) (State.next threadNum)

/-! ### The free lists -/

/-- `allocateNode()` gives a node that has not been taken since the restart and was not busy at it. The
comment on `enqueue()`: "due to the number of nodes, impossible to operated by other threads". -/
def NotReused (state : State) : Action → Prop
  | .enqueue _ node _ => node ∉ state.used
  | .dequeue _ | .step _ | .writeBack _ | .crash => True

instance (state : State) (action : Action) : Decidable (NotReused state action) :=
  match action with
  | .enqueue _ node _ => inferInstanceAs (Decidable (node ∉ state.used))
  | .dequeue _ | .step _ | .writeBack _ | .crash => inferInstanceAs (Decidable True)

end Pmwcas.MSQueueTest
