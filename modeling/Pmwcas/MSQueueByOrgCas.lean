/-
This file is the queue over plain `CompareExchange64` (`MSQueueByOrgCas`) as a machine. Every load,
store, `CompareExchange64` and flush of `enq()` and `deq()` is a step of its own. Each word has a
durable copy beside its content, which a flush or a spontaneous write-back brings up to date.

A pointer is the number of its node, or `none` for `NULL`; `del_thread_index_` is `none` for `-1`.
`enqueue()` prepares its node and announces it in the thread's cell, all of it flushed, before it
calls `enq()`; nobody else gets at these words until the node is linked, so this is one step.
-/

import Pmwcas.Library.LinkedQueue
import Pmwcas.Library.Transition

namespace Pmwcas.MSQueueByOrgCas

open Transition

/-! ### Memory -/

/-- A word of the queue: `*phead_`, `*ptail_`, the fields of an `OrgCasNode`, and the cells of a
thread that `enq()` and `deq()` get as `privateAddr`. -/
inductive Address
  | head
  | tail
  | next (node : Nat)
  | delThreadIndex (node : Nat)
  | isBusy (node : Nat)
  | enqCell (thread : Nat)
  | deqCell (thread : Nat)
deriving DecidableEq

/-- The contents of the words and their durable copies. -/
structure Store where
  memory : Address → Option Nat
  durable : Address → Option Nat

def Store.write (store : Store) (address : Address) (value : Option Nat) : Store :=
  { store with memory := Function.update store.memory address value }

/-- `NVRAM::Flush` of one word, and its spontaneous write-back. -/
def Store.flush (store : Store) (address : Address) : Store :=
  { store with durable := Function.update store.durable address (store.memory address) }

/-- `CompareExchange64`. -/
def Store.compareExchange (store : Store) (address : Address) (new old : Option Nat) : Store :=
  if store.memory address = old then store.write address new else store

/-- What a crash leaves: every word has the content of its durable copy. -/
def Store.crash (store : Store) : Store :=
  ⟨store.durable, store.durable⟩

@[simp] theorem Store.write_memory (store : Store) (address : Address) (value : Option Nat) :
    (store.write address value).memory = Function.update store.memory address value := rfl

@[simp] theorem Store.write_durable (store : Store) (address : Address) (value : Option Nat) :
    (store.write address value).durable = store.durable := rfl

@[simp] theorem Store.flush_memory (store : Store) (address : Address) :
    (store.flush address).memory = store.memory := rfl

@[simp] theorem Store.flush_durable (store : Store) (address : Address) :
    (store.flush address).durable =
      Function.update store.durable address (store.memory address) := rfl

@[simp] theorem Store.compareExchange_durable (store : Store) (address : Address)
    (new old : Option Nat) : (store.compareExchange address new old).durable = store.durable := by
  unfold Store.compareExchange
  split
  · rfl
  · rfl

theorem Store.compareExchange_of_ne (store : Store) {address other : Address}
    (different : other ≠ address) (new old : Option Nat) :
    (store.compareExchange address new old).memory other = store.memory other := by
  unfold Store.compareExchange
  split
  · exact Function.update_of_ne different _ _
  · rfl

theorem Store.compareExchange_succeeds (store : Store) {address : Address} {old : Option Nat}
    (same : store.memory address = old) (new : Option Nat) :
    (store.compareExchange address new old).memory address = new := by
  rw [Store.compareExchange, if_pos same, Store.write_memory, Function.update_self]

/-! ### `enq()` -/

/-- The next step of `enq()`, after its first one has loaded `newNode`. -/
inductive EnqPc
  | loadTail
  | loadNext (last : Nat)
  | checkTail (last : Nat) (next : Option Nat)
  | exchangeNext (last : Nat)
  | flushNext (last : Nat)
  | clearCell (last : Nat)
  | flushCell (last : Nat)
  | exchangeTail (last : Nat)
  | flushBehind (last next : Nat)
  | exchangeBehind (last next : Nat)
deriving DecidableEq

/-- One step of `enq()`; without a next one it has returned. -/
def stepEnq (store : Store) (cell : Address) (newNode : Nat) (detectType : Int) :
    EnqPc → Option (Store × Option EnqPc)
  | .loadTail => (store.memory .tail).map fun last => (store, some (.loadNext last))
  | .loadNext last => some (store, some (.checkTail last (store.memory (.next last))))
  | .checkTail last next =>
    if store.memory .tail = some last then
      match next with
      | none => some (store, some (.exchangeNext last))
      | some next => some (store, some (.flushBehind last next))
    else some (store, some .loadTail)
  | .exchangeNext last =>
    if store.memory (.next last) = none then
      some (store.write (.next last) (some newNode), some (.flushNext last))
    else some (store, some .loadTail)
  | .flushNext last => some (store.flush (.next last), some (.clearCell last))
  | .clearCell last =>
    some (store.write cell none,
      some (if detectType = 0 ∨ detectType = 1 then .flushCell last else .exchangeTail last))
  | .flushCell last => some (store.flush cell, some (.exchangeTail last))
  | .exchangeTail last => some (store.compareExchange .tail (some newNode) (some last), none)
  | .flushBehind last next => some (store.flush (.next last), some (.exchangeBehind last next))
  | .exchangeBehind last next =>
    some (store.compareExchange .tail (some next) (some last), some .loadTail)

/-! ### `deq()` -/

/-- The next step of `deq()`. The branch for a node that somebody else has marked and the one after
a lost `CompareExchange64` go on alike from `flushMarked`. -/
inductive DeqPc
  | loadHead
  | loadTail (first : Nat)
  | loadNext (first : Nat) (last : Option Nat)
  | checkHead (first : Nat) (last next : Option Nat)
  | clearCell
  | flushClear
  | flushLast (last next : Nat)
  | exchangeTail (last next : Nat)
  | loadDel (first : Nat) (next : Option Nat)
  | checkMarked (first : Nat) (next : Option Nat)
  | flushMarked (first : Nat) (next : Option Nat)
  | recheckHead (first : Nat) (next : Option Nat)
  | exchangeHead (first : Nat) (next : Option Nat)
  | storeCell (first : Nat) (next : Option Nat)
  | flushCell (first : Nat) (next : Option Nat)
  | exchangeDel (first : Nat) (next : Option Nat)
  | checkLost (first : Nat) (next : Option Nat)
  | flushDel (first : Nat) (next : Option Nat)
  | checkWon (first : Nat) (next : Option Nat)
  | exchangeWon (first : Nat) (next : Option Nat)
deriving DecidableEq

/-- One step of `deq()`, which goes on or returns a result. -/
def stepDeq (store : Store) (cell : Address) (threadIndex : Nat) (detectType : Int) :
    DeqPc → Option (Store × (DeqPc ⊕ Bool))
  | .loadHead => (store.memory .head).map fun first => (store, .inl (.loadTail first))
  | .loadTail first => some (store, .inl (.loadNext first (store.memory .tail)))
  | .loadNext first last => some (store, .inl (.checkHead first last (store.memory (.next first))))
  | .checkHead first last next =>
    if store.memory .head = some first then
      if last = some first then
        match next with
        | none => some (store, .inl .clearCell)
        | some next => some (store, .inl (.flushLast first next))
      else some (store, .inl (.loadDel first next))
    else some (store, .inl .loadHead)
  | .clearCell =>
    some (store.write cell none, if detectType = 1 then .inl .flushClear else .inr false)
  | .flushClear => some (store.flush cell, .inr false)
  | .flushLast last next => some (store.flush (.next last), .inl (.exchangeTail last next))
  | .exchangeTail last next =>
    some (store.compareExchange .tail (some next) (some last), .inl .loadHead)
  | .loadDel first next =>
    if store.memory (.delThreadIndex first) ≠ none then some (store, .inl (.checkMarked first next))
    else some (store, .inl (.storeCell first next))
  | .checkMarked first next =>
    if store.memory .head = some first then some (store, .inl (.flushMarked first next))
    else some (store, .inl (.storeCell first next))
  | .flushMarked first next =>
    some (store.flush (.delThreadIndex first), .inl (.recheckHead first next))
  | .recheckHead first next =>
    if store.memory .head = some first then some (store, .inl (.exchangeHead first next))
    else some (store, .inl .loadHead)
  | .exchangeHead first next => some (store.compareExchange .head next (some first), .inl .loadHead)
  | .storeCell first next =>
    some (store.write cell (some first),
      .inl (if detectType = 0 ∨ detectType = 1 then .flushCell first next
        else .exchangeDel first next))
  | .flushCell first next => some (store.flush cell, .inl (.exchangeDel first next))
  | .exchangeDel first next =>
    if store.memory (.delThreadIndex first) = none then
      some (store.write (.delThreadIndex first) (some threadIndex), .inl (.flushDel first next))
    else some (store, .inl (.checkLost first next))
  | .checkLost first next =>
    if store.memory .head = some first then some (store, .inl (.flushMarked first next))
    else some (store, .inl .loadHead)
  | .flushDel first next => some (store.flush (.delThreadIndex first), .inl (.checkWon first next))
  | .checkWon first next =>
    if store.memory .head = some first then some (store, .inl (.exchangeWon first next))
    else some (store, .inr true)
  | .exchangeWon first next => some (store.compareExchange .head next (some first), .inr true)

/-! ### The system -/

/-- Where a thread is. A thread that is not in a call knows the result of its last `deq()`. -/
inductive Pc
  | idle (result : Option Bool)
  | loadCell (detectType : Int)
  | enq (newNode : Nat) (detectType : Int) (pc : EnqPc)
  | deq (threadIndex : Nat) (detectType : Int) (pc : DeqPc)
deriving DecidableEq

structure State where
  store : Store
  threads : Nat → Pc
  /-- The nodes that have been taken for the queue. -/
  used : List Nat

/-- A thread calls `enq()` with a new node or `deq()` with its index, a thread takes a step, or a
word is written back. -/
inductive Action
  | enq (thread node : Nat) (detectType : Int)
  | deq (thread threadIndex : Nat) (detectType : Int)
  | step (thread : Nat)
  | writeBack (address : Address)
deriving DecidableEq

instance : Inhabited Action := ⟨.step 0⟩

/-- The words that `enqueue()` writes for its new node: the announcement and the node itself. -/
def prepare (contents : Address → Option Nat) (thread node : Nat) : Address → Option Nat :=
  Function.update (Function.update (Function.update (Function.update contents
    (.enqCell thread) (some node)) (.next node) none) (.isBusy node) (some 1))
    (.delThreadIndex node) none

section prepare

variable (contents : Address → Option Nat) (thread node : Nat)

@[simp] theorem prepare_head : prepare contents thread node .head = contents .head := by
  simp [prepare]

@[simp] theorem prepare_tail : prepare contents thread node .tail = contents .tail := by
  simp [prepare]

@[simp] theorem prepare_deqCell (other : Nat) :
    prepare contents thread node (.deqCell other) = contents (.deqCell other) := by
  simp [prepare]

@[simp] theorem prepare_enqCell_self : prepare contents thread node (.enqCell thread) = some node := by
  simp [prepare]

@[simp] theorem prepare_next_self : prepare contents thread node (.next node) = none := by
  simp [prepare]

@[simp] theorem prepare_delThreadIndex_self :
    prepare contents thread node (.delThreadIndex node) = none := by
  simp [prepare]

variable {thread node}

theorem prepare_enqCell {other : Nat} (different : other ≠ thread) :
    prepare contents thread node (.enqCell other) = contents (.enqCell other) := by
  simp [prepare, different]

theorem prepare_next {other : Nat} (different : other ≠ node) :
    prepare contents thread node (.next other) = contents (.next other) := by
  simp [prepare, different]

theorem prepare_delThreadIndex {other : Nat} (different : other ≠ node) :
    prepare contents thread node (.delThreadIndex other) = contents (.delThreadIndex other) := by
  simp [prepare, different]

end prepare

/-- All of them are flushed. -/
def Store.prepare (store : Store) (thread node : Nat) : Store :=
  ⟨MSQueueByOrgCas.prepare store.memory thread node, MSQueueByOrgCas.prepare store.durable thread node⟩

@[simp] theorem Store.prepare_memory (store : Store) (thread node : Nat) :
    (store.prepare thread node).memory = MSQueueByOrgCas.prepare store.memory thread node := rfl

@[simp] theorem Store.prepare_durable (store : Store) (thread node : Nat) :
    (store.prepare thread node).durable = MSQueueByOrgCas.prepare store.durable thread node := rfl

def State.goto (state : State) (thread : Nat) (pc : Pc) : State :=
  { state with threads := Function.update state.threads thread pc }

@[simp] theorem State.goto_store (state : State) (thread : Nat) (pc : Pc) :
    (state.goto thread pc).store = state.store := rfl

@[simp] theorem State.goto_used (state : State) (thread : Nat) (pc : Pc) :
    (state.goto thread pc).used = state.used := rfl

@[simp] theorem State.goto_threads (state : State) (thread : Nat) (pc : Pc) :
    (state.goto thread pc).threads = Function.update state.threads thread pc := rfl

/-- Where a thread is after a step of `enq()`. -/
def Pc.afterEnq (newNode : Nat) (detectType : Int) : Option EnqPc → Pc
  | some pc => .enq newNode detectType pc
  | none => .idle none

/-- Where a thread is after a step of `deq()`. -/
def Pc.afterDeq (threadIndex : Nat) (detectType : Int) : DeqPc ⊕ Bool → Pc
  | .inl pc => .deq threadIndex detectType pc
  | .inr result => .idle (some result)

/-- One step of a thread inside a call. `enq()` begins with `newNode = *privateAddr` and checks
that it is not null. -/
def State.stepThread (state : State) (thread : Nat) : Option State :=
  match state.threads thread with
  | .idle _ => none
  | .loadCell detectType =>
    (state.store.memory (.enqCell thread)).map fun newNode =>
      state.goto thread (.enq newNode detectType .loadTail)
  | .enq newNode detectType pc =>
    (stepEnq state.store (.enqCell thread) newNode detectType pc).map fun (store, pc) =>
      { state with store := store }.goto thread (.afterEnq newNode detectType pc)
  | .deq threadIndex detectType pc =>
    (stepDeq state.store (.deqCell thread) threadIndex detectType pc).map fun (store, pc) =>
      { state with store := store }.goto thread (.afterDeq threadIndex detectType pc)

/-- The thread is not in a call. -/
def Pc.Idle : Pc → Prop
  | .idle _ => True
  | _ => False

instance (pc : Pc) : Decidable pc.Idle :=
  match pc with
  | .idle _ => isTrue trivial
  | .loadCell _ | .enq .. | .deq .. => isFalse id

/-- The steps of the system. No node is used twice. -/
def State.next (state : State) : Action → Option State
  | .enq thread node detectType =>
    if (state.threads thread).Idle ∧ node ∉ state.used then
      some ({ state with
        store := state.store.prepare thread node
        used := node :: state.used }.goto thread (.loadCell detectType))
    else none
  | .deq thread threadIndex detectType =>
    if (state.threads thread).Idle then
      some (state.goto thread (.deq threadIndex detectType .loadHead))
    else none
  | .step thread => state.stepThread thread
  | .writeBack address => some { state with store := state.store.flush address }

/-- The memory of a new queue: head and tail point to one sentinel node. -/
def startMemory (sentinel : Nat) : Address → Option Nat
  | .head => some sentinel
  | .tail => some sentinel
  | .isBusy node => if node = sentinel then some 1 else some 0
  | _ => none

def State.start (sentinel : Nat) : State where
  store := ⟨startMemory sentinel, startMemory sentinel⟩
  threads _ := .idle none
  used := [sentinel]

/-- The queue from this state on under any number of threads. -/
def systemFrom (start : State) : System State Action :=
  .ofNext (fun state => state = start) State.next

/-- The queue with its sentinel under any number of threads. -/
def system (sentinel : Nat) : System State Action :=
  systemFrom (.start sentinel)

end Pmwcas.MSQueueByOrgCas
