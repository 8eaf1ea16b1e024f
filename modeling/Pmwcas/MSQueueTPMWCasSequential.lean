/-
This file compares the benchmark queue, one call at a time, with an abstract queue: the list of linked
nodes, of which the first is the sentinel, and the free list of every thread. A node is busy exactly if
it is linked, so `cleanDeqNode` puts the node that has left the list on the free list of the caller,
once.

The cell of a thread for `dequeue()` outlives the call. When the queue is empty, `deq` leaves it as it
is, and a node that is still in it from an earlier call is taken for the result of this one; `recover()`
does the same with a node that is linked again. The queue behaves as the abstract one as long as this
does not happen.
-/

import Pmwcas.MSQueueByPMWCasSound
import Pmwcas.MSQueueTPMWCas

namespace Pmwcas.MSQueueTPMWCas

open Transition LinkedList MSQueueByPMWCas

/-! ### The abstract queue -/

/-- The linked nodes, the sentinel first, and the free lists. -/
structure Queue where
  list : List Nat
  free : Nat → List Nat

/-- The free list of a thread after a restart. -/
def Queue.unlinked (queue : Queue) (config : Config) (thread : Nat) : List Nat :=
  ((List.range config.nodeSize).filter fun node =>
    node / (config.nodeSize / config.threads) = thread ∧ node ∉ queue.list).reverse

/-- What the operations do. `dequeue` returns true exactly if there is a node behind the sentinel. -/
inductive Queue.Moves (config : Config) (before : Queue) : Action → Queue → Prop
  | enqueue (thread pData node : Nat) (rest : List Nat) (free : before.free thread = node :: rest) :
    Moves config before (.enqueue thread pData)
      { list := before.list ++ [node], free := Function.update before.free thread rest }
  | dequeue (thread first : Nat) (rest : List Nat) (some_ : rest ≠ [])
      (list : before.list = first :: rest) :
    Moves config before (.dequeue thread true)
      { list := rest
        free := Function.update before.free thread (before.free thread ++ [first]) }
  | empty (thread sentinel : Nat) (list : before.list = [sentinel]) :
    Moves config before (.dequeue thread false) before
  | crash : Moves config before .crash { list := before.list, free := before.unlinked config }
  | recover (thread : Nat) : Moves config before (.recover thread) before

/-- The free list of a thread, in memory. -/
structure Pooled (state : State) (thread : Nat) (list : List Nat) : Prop where
  linked : Linked (fun node => (state.nodes node).poolNext) list
  head : state.freeList thread = list.head?
  tail : state.freeListTail thread = list.getLast?

/-- The free lists of all threads. No node is on two of them, nor twice on one. -/
structure Pools (state : State) (free : Nat → List Nat) : Prop where
  pooled : ∀ thread, Pooled state thread (free thread)
  alone : ∀ thread other node, node ∈ free thread → node ∈ free other → thread = other

/-- The state holds this queue. No node is on a free list while it is linked, and no call is under
way. -/
structure Represents (state : State) (queue : Queue) : Prop where
  linked : Linked (fun node => state.memory (.next node)) queue.list
  some_ : queue.list ≠ []
  head : state.memory .head = queue.list.head?
  tail : state.memory .tail = queue.list.getLast?
  idle : ∀ thread, state.memory (.enqCell thread) = none
  busy : ∀ node, (state.nodes node).isBusy = if node ∈ queue.list then 1 else 0
  pools : Pools state queue.free
  apart : ∀ thread, ∀ node ∈ queue.free thread, node ∉ queue.list

/-! ### `enq` and `deq` -/

section Alone

variable {memory : Memory}

/-- `enq` links its node behind the last one. -/
theorem enq_yields {cell : Address} {last newNode : Nat} (announced : memory cell = some newNode)
    (tail : memory .tail = some last) (end_ : memory (.next last) = none) :
    Yields (enq memory cell) ()
      (((memory.write (.next last) (some newNode)).write .tail (some newNode)).write cell none) := by
  have run : Yields (runUntil
      (fun state : Memory × Option EnqPc =>
        state.2.bind fun pc => stepEnq .pmwcas state.1 cell newNode pc)
      (fun state => if state.2 = none then some () else none) · (memory, some .loadTail)) ()
      (((memory.write (.next last) (some newNode)).write .tail (some newNode)).write cell none,
        none) := by
    refine .step (show Proceeds _ _ _ (memory, some (.recheckTail last)) from
      ⟨rfl, by simp [stepEnq, tail]⟩) ?_
    refine .step (show Proceeds _ _ _ (memory, some (.mwcas last)) from
      ⟨rfl, by simp [stepEnq, tail]⟩) ?_
    refine .step ⟨rfl, ?_⟩ (.here rfl)
    simp [stepEnq, tail, end_, announced]
  obtain ⟨bound, reached⟩ := run
  refine ⟨bound, fun fuel enough => ?_⟩
  rw [enq, announced, Option.bind_some]
  exact congrArg (Option.map fun done => ((), done.2.1)) (reached fuel enough)

/-- `deq` on an empty queue changes nothing. -/
theorem deq_yields_empty (cell : Address) {sentinel : Nat} (head : memory .head = some sentinel)
    (tail : memory .tail = some sentinel) (end_ : memory (.next sentinel) = none) :
    Yields (deq memory cell) () memory := by
  have run : Yields (runUntil
      (fun state : Memory × Option DeqPc =>
        state.2.bind fun pc => stepDeq .pmwcas state.1 cell pc)
      (fun state => if state.2 = none then some () else none) · (memory, some .loadHead)) ()
      (memory, none) := by
    refine .step (show Proceeds _ _ _ (memory, some (.loadTail sentinel)) from
      ⟨rfl, by simp [stepDeq, head]⟩) ?_
    refine .step (show Proceeds _ _ _ (memory, some (.loadNext sentinel sentinel)) from
      ⟨rfl, by simp [stepDeq, tail]⟩) ?_
    refine .step (show Proceeds _ _ _ (memory, some (.checkHead sentinel sentinel none)) from
      ⟨rfl, by simp [stepDeq, end_]⟩) ?_
    refine .step ⟨rfl, ?_⟩ (.here rfl)
    simp [stepDeq, head]
  obtain ⟨bound, reached⟩ := run
  refine ⟨bound, fun fuel enough => ?_⟩
  exact congrArg (Option.map fun done => ((), done.2.1)) (reached fuel enough)

/-- `deq` moves the head past the first node and leaves this node in the cell. -/
theorem deq_yields (cell : Address) {first last : Nat} (head : memory .head = some first)
    (tail : memory .tail = some last) (different : first ≠ last) :
    Yields (deq memory cell) ()
      ((memory.write .head (memory (.next first))).write cell (some first)) := by
  have run : Yields (runUntil
      (fun state : Memory × Option DeqPc =>
        state.2.bind fun pc => stepDeq .pmwcas state.1 cell pc)
      (fun state => if state.2 = none then some () else none) · (memory, some .loadHead)) ()
      ((memory.write .head (memory (.next first))).write cell (some first), none) := by
    refine .step (show Proceeds _ _ _ (memory, some (.loadTail first)) from
      ⟨rfl, by simp [stepDeq, head]⟩) ?_
    refine .step (show Proceeds _ _ _ (memory, some (.loadNext first last)) from
      ⟨rfl, by simp [stepDeq, tail]⟩) ?_
    refine .step (show Proceeds _ _ _ (memory, some (.checkHead first last (memory (.next first)))) from
      ⟨rfl, by simp [stepDeq]⟩) ?_
    refine .step (show Proceeds _ _ _ (memory, some (.loadCell first (memory (.next first)))) from
      ⟨rfl, by simp [stepDeq, head, different]⟩) ?_
    refine .step (show Proceeds _ _ _ (memory, some (.mwcas first (memory (.next first)) (memory cell))) from
      ⟨rfl, by simp [stepDeq]⟩) ?_
    refine .step ⟨rfl, ?_⟩ (.here rfl)
    simp [stepDeq, head]
  obtain ⟨bound, reached⟩ := run
  refine ⟨bound, fun fuel enough => ?_⟩
  exact congrArg (Option.map fun done => ((), done.2.1)) (reached fuel enough)

end Alone

/-! ### The free lists -/

section Pools

variable {state : State} {free : Nat → List Nat} {thread node : Nat}

/-- A free list only depends on the links of its nodes. -/
theorem Pooled.congr {after : State} {list : List Nat} (pooled : Pooled state thread list)
    (links : ∀ node ∈ list, (after.nodes node).poolNext = (state.nodes node).poolNext)
    (head : after.freeList thread = state.freeList thread)
    (tail : after.freeListTail thread = state.freeListTail thread) : Pooled after thread list :=
  ⟨pooled.linked.congr links, head.trans pooled.head, tail.trans pooled.tail⟩

theorem State.setPoolNext_of_ne (state : State) {node other : Nat} (different : other ≠ node)
    (next : Option Nat) : (state.setPoolNext node next).nodes other = state.nodes other :=
  Function.update_of_ne different _ _

theorem State.setPoolNext_self (state : State) (node : Nat) (next : Option Nat) :
    (state.setPoolNext node next).nodes node = { state.nodes node with poolNext := next } :=
  Function.update_self _ _ _

theorem Pools.freeList (pools : Pools state free) {rest : List Nat}
    (some_ : free thread = node :: rest) : state.freeList thread = some node := by
  rw [(pools.pooled thread).head, some_]
  rfl

/-- The tail of the free list after its first node has left. -/
theorem State.takeNode_freeListTail (state : State) (thread node other : Nat) :
    (state.takeNode thread node).freeListTail other =
      if other = thread ∧ state.freeListTail thread = some node then none
      else state.freeListTail other := by
  show (if state.freeListTail thread = some node then _ else _ : Nat → Option Nat) other = _
  by_cases last : state.freeListTail thread = some node
  · rw [if_pos last]
    by_cases same : other = thread
    · rw [same, Function.update_self, if_pos ⟨rfl, last⟩]
    · rw [Function.update_of_ne same, if_neg fun both => same both.1]
  · rw [if_neg last, if_neg fun both => last both.2]

theorem State.setPoolNext_links (state : State) (node : Nat) (next : Option Nat) :
    (fun other => ((state.setPoolNext node next).nodes other).poolNext) =
      Function.update (fun other => (state.nodes other).poolNext) node next := by
  funext other
  by_cases same : other = node
  · rw [same, State.setPoolNext_self, Function.update_self]
  · rw [State.setPoolNext_of_ne _ same, Function.update_of_ne same]

/-- `allocateNode` takes the first node of a free list. -/
theorem Pools.take (pools : Pools state free) {rest : List Nat}
    (some_ : free thread = node :: rest) :
    Pools (state.takeNode thread node) (Function.update free thread rest) := by
  have mine := pools.pooled thread
  rw [some_] at mine
  have new := (List.nodup_cons.1 mine.linked.nodup).1
  refine ⟨fun other => ?_, fun one other member inOne inOther => ?_⟩
  · by_cases same : other = thread
    · subst same
      rw [Function.update_self]
      refine ⟨mine.linked.tail.congr fun member inside => ?_, ?_, ?_⟩
      · have different : member ≠ node := fun same => new (same ▸ inside)
        rw [State.takeNode, State.setPoolNext_of_ne _ different]
      · exact (Function.update_self _ _ _).trans mine.linked.next_head
      · rw [State.takeNode_freeListTail, mine.tail]
        cases rest with
        | nil => exact if_pos ⟨rfl, rfl⟩
        | cons second rest =>
          rw [List.getLast?_cons_cons]
          refine if_neg fun both => ?_
          exact new (List.mem_of_getLast? both.2)
    · rw [Function.update_of_ne same]
      refine (pools.pooled other).congr (fun member inside => ?_) ?_ ?_
      · have different : member ≠ node := by
          rintro rfl
          exact same (pools.alone other thread member inside (some_ ▸ List.mem_cons_self))
        rw [State.takeNode, State.setPoolNext_of_ne _ different]
      · exact Function.update_of_ne same _ _
      · rw [State.takeNode_freeListTail]
        exact if_neg fun both => same both.1
  · have earlier : ∀ place, member ∈ Function.update free thread rest place → member ∈ free place := by
      intro place inside
      by_cases same : place = thread
      · subst same
        rw [Function.update_self] at inside
        rw [some_]
        exact List.mem_cons_of_mem _ inside
      · rwa [Function.update_of_ne same] at inside
    exact pools.alone one other member (earlier one inOne) (earlier other inOther)

/-- A node at the end of a free list. -/
theorem Pooled.append {list : List Nat} {last : Nat} (pooled : Pooled state thread list)
    (tail : state.freeListTail thread = some last) (new : node ∉ list) :
    Pooled (state.reclaimNode node thread) thread (list ++ [node]) := by
  have ends : list.getLast? = some last := pooled.tail.symm.trans tail
  have place := ends
  rw [List.getLast?_eq_getElem?] at place
  have cleared : Linked (fun other => ((state.setPoolNext node none).nodes other).poolNext) list := by
    refine pooled.linked.congr fun member inside => ?_
    have different : member ≠ node := fun same => new (same ▸ inside)
    rw [State.setPoolNext_of_ne _ different]
  have alone : ((state.setPoolNext node none).nodes node).poolNext = none := by
    rw [State.setPoolNext_self]
  have longer := cleared.append place (cleared.next_getLast ends) new alone
  simp only [State.reclaimNode, tail]
  refine ⟨?_, ?_, ?_⟩
  · rw [State.setPoolNext_links]
    exact longer
  · show state.freeList thread = _
    rw [pooled.head, List.head?_append_of_ne_nil _ (fun none_ => by rw [none_] at ends; cases ends)]
  · rw [List.getLast?_append, List.getLast?_singleton, Option.some_or]
    exact Function.update_self _ _ _

/-- A node on an empty free list. -/
theorem Pooled.first (tail : state.freeListTail thread = none) :
    Pooled (state.reclaimNode node thread) thread [node] := by
  simp only [State.reclaimNode, tail]
  refine ⟨(linked_nil _).cons List.not_mem_nil ?_, ?_, ?_⟩
  · show ((state.setPoolNext node none).nodes node).poolNext = none
    rw [State.setPoolNext_self]
  · exact Function.update_self _ _ _
  · exact Function.update_self _ _ _

/-- The free lists of the other threads. -/
theorem Pooled.other {list : List Nat} {other : Nat} (pooled : Pooled state other list)
    (different : other ≠ thread) (new : node ∉ list)
    (elsewhere : ∀ last, state.freeListTail thread = some last → last ∉ list) :
    Pooled (state.reclaimNode node thread) other list := by
  have kept : ∀ member ∈ list,
      ((state.setPoolNext node none).nodes member).poolNext = (state.nodes member).poolNext := by
    intro member inside
    have apart : member ≠ node := fun same => new (same ▸ inside)
    rw [State.setPoolNext_of_ne _ apart]
  cases tail : state.freeListTail thread with
  | none =>
    simp only [State.reclaimNode, tail]
    exact pooled.congr kept (Function.update_of_ne different _ _) (Function.update_of_ne different _ _)
  | some last =>
    simp only [State.reclaimNode, tail]
    refine pooled.congr (fun member inside => ?_) rfl (Function.update_of_ne different _ _)
    have apart : member ≠ last := fun same => elsewhere last tail (same ▸ inside)
    show (((state.setPoolNext node none).setPoolNext last (some node)).nodes member).poolNext = _
    rw [State.setPoolNext_of_ne _ apart]
    exact kept member inside

/-- `reclaimNode` puts its node at the end of the free list. -/
theorem Pools.reclaim (pools : Pools state free) (new : ∀ place, node ∉ free place) :
    Pools (state.reclaimNode node thread) (Function.update free thread (free thread ++ [node])) := by
  have mine := pools.pooled thread
  refine ⟨fun other => ?_, fun one other member inOne inOther => ?_⟩
  · by_cases same : other = thread
    · subst same
      rw [Function.update_self]
      cases tail : state.freeListTail other with
      | none =>
        have empty : free other = [] := List.getLast?_eq_none_iff.1 (mine.tail.symm.trans tail)
        rw [empty, List.nil_append]
        exact .first tail
      | some last => exact mine.append tail (new other)
    · rw [Function.update_of_ne same]
      refine (pools.pooled other).other same (new other) fun last tail inside => ?_
      have ends := mine.tail.symm.trans tail
      exact same (pools.alone other thread last inside (List.mem_of_getLast? ends))
  · have earlier : ∀ place, member ∈ Function.update free thread (free thread ++ [node]) place →
        member ∈ free place ∨ member = node ∧ place = thread := by
      intro place inside
      by_cases same : place = thread
      · subst same
        rw [Function.update_self, List.mem_append, List.mem_singleton] at inside
        exact inside.imp_right fun same => ⟨same, rfl⟩
      · rw [Function.update_of_ne same] at inside
        exact .inl inside
    rcases earlier one inOne with first | ⟨rfl, rfl⟩ <;>
      rcases earlier other inOther with second | ⟨isNode, rfl⟩
    · exact pools.alone one other member first second
    · exact absurd (isNode ▸ first) (new one)
    · exact absurd second (new other)
    · rfl

/-- The free lists only depend on the links and on the pools. -/
theorem Pools.congr {after : State} (pools : Pools state free)
    (links : ∀ node, (after.nodes node).poolNext = (state.nodes node).poolNext)
    (head : after.freeList = state.freeList) (tail : after.freeListTail = state.freeListTail) :
    Pools after free where
  pooled thread := (pools.pooled thread).congr (fun node _ => links node) (congrFun head thread)
    (congrFun tail thread)
  alone := pools.alone

theorem State.setNode_of_ne (state : State) {node other : Nat} (different : other ≠ node)
    (fields : Node) : (state.setNode node fields).nodes other = state.nodes other :=
  Function.update_of_ne different _ _

theorem State.setNode_self (state : State) (node : Nat) (fields : Node) :
    (state.setNode node fields).nodes node = fields :=
  Function.update_self _ _ _

/-- Changing a node but not its link. -/
theorem State.setNode_poolNext (state : State) {node : Nat} {fields : Node}
    (same : fields.poolNext = (state.nodes node).poolNext) (other : Nat) :
    ((state.setNode node fields).nodes other).poolNext = (state.nodes other).poolNext := by
  by_cases this : other = node
  · rw [this, State.setNode_self, same]
  · rw [State.setNode_of_ne _ this]

theorem State.setPoolNext_isBusy (state : State) (node other : Nat) (next : Option Nat) :
    ((state.setPoolNext node next).nodes other).isBusy = (state.nodes other).isBusy := by
  by_cases this : other = node
  · rw [this, State.setPoolNext_self]
  · rw [State.setPoolNext_of_ne _ this]

theorem State.reclaimNode_isBusy (state : State) (node thread other : Nat) :
    ((state.reclaimNode node thread).nodes other).isBusy = (state.nodes other).isBusy := by
  cases tail : state.freeListTail thread with
  | none =>
    simp only [State.reclaimNode, tail]
    exact state.setPoolNext_isBusy node other none
  | some last =>
    simp only [State.reclaimNode, tail]
    show (((state.setPoolNext node none).setPoolNext last (some node)).nodes other).isBusy = _
    rw [State.setPoolNext_isBusy, State.setPoolNext_isBusy]

theorem State.reclaimNode_memory (state : State) (node thread : Nat) :
    (state.reclaimNode node thread).memory = state.memory := by
  cases tail : state.freeListTail thread <;> simp only [State.reclaimNode, tail] <;> rfl

end Pools

/-! ### `enqueue` -/

section Operations

variable {state : State} {queue : Queue} {thread : Nat}

/-- The words before `enq` is called. -/
theorem Memory.prepare_of_ne (memory : Memory) (thread node : Nat) {address : Address}
    (notCell : address ≠ .enqCell thread) (notNext : address ≠ .next node) :
    memory.prepare thread node address = memory address := by
  rw [Memory.prepare, Memory.write_of_ne _ notNext, Memory.write_of_ne _ notCell]

theorem Represents.exists_last (represents : Represents state queue) :
    ∃ last, queue.list.getLast? = some last ∧ last ∈ queue.list ∧
      state.memory (.next last) = none := by
  cases ends : queue.list.getLast? with
  | none => exact absurd (List.getLast?_eq_none_iff.1 ends) represents.some_
  | some last =>
    exact ⟨last, rfl, List.mem_of_getLast? ends, represents.linked.next_getLast ends⟩

/-- The words after `enq` with a new node. -/
def linkNode (memory : Memory) (thread last node : Nat) : Memory :=
  (((memory.prepare thread node).write (.next last) (some node)).write .tail (some node)).write
    (.enqCell thread) none

theorem linkNode_links (memory : Memory) (thread last node : Nat) :
    (fun other => linkNode memory thread last node (.next other)) =
      Function.update (Function.update (fun other => memory (.next other)) node none) last
        (some node) := by
  have prepared : (fun other => memory.prepare thread node (.next other)) =
      Function.update (fun other => memory (.next other)) node none := by
    rw [← Memory.write_next]
    funext other
    by_cases same : other = node
    · rw [same, Memory.prepare, Memory.write_self, Memory.write_self]
    · rw [Memory.prepare_of_ne _ _ _ (by simp) (by simp [same]), Memory.write_of_ne _ (by simp [same])]
  rw [← prepared, ← Memory.write_next]
  funext other
  rw [linkNode, Memory.write_of_ne _ (by simp), Memory.write_of_ne _ (by simp)]

/-- `enqueue` links the first free node behind the last one. -/
theorem Represents.enqueue (represents : Represents state queue) {node : Nat} {rest : List Nat}
    (free : queue.free thread = node :: rest) (pData : Nat) :
    ∃ after, Yields (state.enqueue thread pData) () after ∧
      Represents after
        { list := queue.list ++ [node], free := Function.update queue.free thread rest } := by
  obtain ⟨last, ends, linked, end_⟩ := represents.exists_last
  have new : node ∉ queue.list := represents.apart thread node (free ▸ List.mem_cons_self)
  have different : last ≠ node := fun same => new (same ▸ linked)
  have announced : state.memory.prepare thread node (.enqCell thread) = some node := by
    rw [Memory.prepare, Memory.write_of_ne _ (by simp), Memory.write_self]
  have tail : state.memory.prepare thread node .tail = some last := by
    rw [Memory.prepare_of_ne _ _ _ (by simp) (by simp), represents.tail, ends]
  have unlinked : state.memory.prepare thread node (.next last) = none := by
    rw [Memory.prepare_of_ne _ _ _ (by simp) (by simp [different]), end_]
  obtain ⟨bound, reached⟩ := enq_yields announced tail unlinked
  let prepared := (state.takeNode thread node).prepare thread node pData
  let after : State := { prepared with memory := linkNode state.memory thread last node }
  have pools : Pools after (Function.update queue.free thread rest) := by
    refine (represents.pools.take free).congr (fun other => ?_) rfl rfl
    refine State.setNode_poolNext
      { state.takeNode thread node with memory := state.memory.prepare thread node } ?_ other
    rfl
  refine ⟨after, ⟨bound, fun fuel enough => ?_⟩, ?_⟩
  · rw [State.enqueue, State.allocateNode, represents.pools.freeList free]
    exact congrArg (Option.map fun done => ((), { prepared with memory := done.2 }))
      (reached fuel enough)
  · refine
      { linked := ?_
        some_ := by simp
        head := ?_
        tail := ?_
        idle := fun other => ?_
        busy := fun other => ?_
        pools := pools
        apart := fun place member inside listed => ?_ }
    · show Linked (fun other => linkNode state.memory thread last node (.next other)) _
      rw [linkNode_links]
      have earlier : Linked (Function.update (fun other => state.memory (.next other)) node none)
          queue.list :=
        represents.linked.congr fun member inside =>
          Function.update_of_ne (fun same : member = node => new (same ▸ inside)) _ _
      refine earlier.append (List.getLast?_eq_getElem? ▸ ends) ?_ new (Function.update_self _ _ _)
      rw [Function.update_of_ne different, end_]
    · show linkNode state.memory thread last node .head = _
      rw [linkNode, Memory.write_of_ne _ (by simp), Memory.write_of_ne _ (by simp),
        Memory.write_of_ne _ (by simp), Memory.prepare_of_ne _ _ _ (by simp) (by simp),
        represents.head, List.head?_append_of_ne_nil _ represents.some_]
    · show linkNode state.memory thread last node .tail = _
      rw [linkNode, Memory.write_of_ne _ (by simp), Memory.write_self, List.getLast?_append,
        List.getLast?_singleton, Option.some_or]
    · show linkNode state.memory thread last node (.enqCell other) = none
      by_cases same : other = thread
      · rw [same, linkNode, Memory.write_self]
      · rw [linkNode, Memory.write_of_ne _ (by simp [same]), Memory.write_of_ne _ (by simp),
          Memory.write_of_ne _ (by simp), Memory.prepare_of_ne _ _ _ (by simp [same]) (by simp),
          represents.idle]
    · by_cases same : other = node
      · have isBusy : (after.nodes other).isBusy = 1 := by
          rw [same]
          exact congrArg Node.isBusy (State.setNode_self _ node _)
        rw [isBusy, if_pos]
        simp [same]
      · have kept : (after.nodes other).isBusy = (state.nodes other).isBusy := by
          refine (congrArg Node.isBusy (State.setNode_of_ne _ same _)).trans ?_
          exact State.setPoolNext_isBusy _ node other none
        rw [kept, represents.busy]
        simp [same]
    · have earlier : member ∈ queue.free place ∧ member ≠ node := by
        have nodup := (represents.pools.pooled thread).linked.nodup
        rw [free] at nodup
        by_cases same : place = thread
        · subst same
          have inRest : member ∈ rest := by
            have inside' : member ∈ Function.update queue.free place rest place := inside
            rwa [Function.update_self] at inside'
          refine ⟨free ▸ List.mem_cons_of_mem _ inRest, ?_⟩
          rintro rfl
          exact (List.nodup_cons.1 nodup).1 inRest
        · have inside' : member ∈ Function.update queue.free thread rest place := inside
          rw [Function.update_of_ne same] at inside'
          refine ⟨inside', ?_⟩
          rintro rfl
          exact same (represents.pools.alone place thread member inside'
            (free ▸ List.mem_cons_self))
      rcases List.mem_append.1 listed with old | fresh
      · exact represents.apart place member earlier.1 old
      · exact earlier.2 (List.mem_singleton.1 fresh)

/-! ### `dequeue` -/

theorem State.cleanDeqNode_of_idle {node : Nat} (idle : (state.nodes node).isBusy = 0) :
    state.cleanDeqNode thread node = state :=
  if_pos idle

theorem State.cleanDeqNode_memory (state : State) (thread node : Nat) :
    (state.cleanDeqNode thread node).memory = state.memory := by
  by_cases idle : (state.nodes node).isBusy = 0
  · rw [State.cleanDeqNode_of_idle idle]
  · rw [State.cleanDeqNode, if_neg idle, State.reclaimNode_memory]
    rfl

/-- `cleanDeqNode` marks a busy node as idle. -/
theorem State.cleanDeqNode_isBusy {node : Nat} (busy : (state.nodes node).isBusy ≠ 0) (other : Nat) :
    ((state.cleanDeqNode thread node).nodes other).isBusy =
      if other = node then 0 else (state.nodes other).isBusy := by
  rw [State.cleanDeqNode, if_neg busy, State.reclaimNode_isBusy]
  by_cases same : other = node
  · rw [if_pos same, same, State.setNode_self]
  · rw [if_neg same, State.setNode_of_ne _ same]

/-- `cleanDeqNode` puts a busy node on the free list. -/
theorem Pools.cleanDeqNode {free : Nat → List Nat} (pools : Pools state free) {node : Nat}
    (busy : (state.nodes node).isBusy ≠ 0) (new : ∀ place, node ∉ free place) :
    Pools (state.cleanDeqNode thread node)
      (Function.update free thread (free thread ++ [node])) := by
  rw [State.cleanDeqNode, if_neg busy]
  refine Pools.reclaim (pools.congr (fun other => ?_) rfl rfl) new
  refine State.setNode_poolNext state ?_ other
  rfl

/-- `dequeue` takes the sentinel from the list and puts it on the free list of the thread. The next
node is the sentinel from then on. -/
theorem Represents.dequeue (represents : Represents state queue) (thread : Nat) {first : Nat}
    {rest : List Nat} (list : queue.list = first :: rest) (more : rest ≠ []) :
    ∃ after, Yields (state.dequeue thread) true after ∧
      Represents after
        { list := rest
          free := Function.update queue.free thread (queue.free thread ++ [first]) } := by
  obtain ⟨last, ends, -, -⟩ := represents.exists_last
  have linked := represents.linked
  rw [list] at linked
  have new := (List.nodup_cons.1 linked.nodup).1
  have restEnds : rest.getLast? = some last := by
    rw [← ends, list]
    cases rest with
    | nil => exact absurd rfl more
    | cons second rest => exact List.getLast?_cons_cons.symm
  have different : first ≠ last := fun same => new (same ▸ List.mem_of_getLast? restEnds)
  have head : state.memory .head = some first := by
    rw [represents.head, list]
    rfl
  have tail : state.memory .tail = some last := represents.tail.trans ends
  obtain ⟨bound, reached⟩ := deq_yields (.deqCell thread) head tail different
  let moved : State := { state with
    memory := (state.memory.write .head (state.memory (.next first))).write (.deqCell thread)
      (some first) }
  have busy : (moved.nodes first).isBusy ≠ 0 := by
    have one : (moved.nodes first).isBusy = 1 :=
      (represents.busy first).trans (if_pos (list ▸ List.mem_cons_self))
    rw [one]
    exact Nat.one_ne_zero
  have kept : ∀ address, address ≠ .head → address ≠ .deqCell thread →
      moved.memory address = state.memory address := fun address notHead notCell =>
    (Memory.write_of_ne _ notCell _).trans (Memory.write_of_ne _ notHead _)
  refine ⟨moved.cleanDeqNode thread first, ⟨bound, fun fuel enough => ?_⟩, ?_⟩
  · rw [State.dequeue, reached fuel enough, Option.map_some]
    simp only [Memory.write_self]
    rfl
  · have pools : Pools moved queue.free := represents.pools.congr (fun _ => rfl) rfl rfl
    have notFree : ∀ place, first ∉ queue.free place := fun place inside =>
      represents.apart place first inside (list ▸ List.mem_cons_self)
    refine
      { linked := ?_
        some_ := more
        head := ?_
        tail := ?_
        idle := fun other => ?_
        busy := fun other => ?_
        pools := pools.cleanDeqNode busy notFree
        apart := fun place member inside listed => ?_ }
    · rw [State.cleanDeqNode_memory]
      exact linked.tail.congr fun node _ => kept (.next node) (by simp) (by simp)
    · rw [State.cleanDeqNode_memory]
      have written : moved.memory .head = state.memory (.next first) := by
        rw [show moved.memory = (state.memory.write .head (state.memory (.next first))).write
          (.deqCell thread) (some first) from rfl, Memory.write_of_ne _ (by simp), Memory.write_self]
      rw [written]
      exact linked.next_head
    · rw [State.cleanDeqNode_memory, kept _ (by simp) (by simp), tail, restEnds]
    · rw [State.cleanDeqNode_memory, kept _ (by simp) (by simp), represents.idle]
    · rw [State.cleanDeqNode_isBusy busy]
      by_cases same : other = first
      · rw [if_pos same, same, if_neg new]
      · rw [if_neg same]
        refine (represents.busy other).trans ?_
        rw [list]
        simp [same]
    · by_cases same : place = thread
      · have inside' : member ∈ Function.update queue.free thread (queue.free thread ++ [first])
            place := inside
        rw [same, Function.update_self, List.mem_append, List.mem_singleton] at inside'
        rcases inside' with earlier | isFirst
        · exact represents.apart thread member earlier (list ▸ List.mem_cons_of_mem _ listed)
        · exact new (isFirst ▸ listed)
      · have inside' : member ∈ Function.update queue.free thread (queue.free thread ++ [first])
            place := inside
        rw [Function.update_of_ne same] at inside'
        exact represents.apart place member inside' (list ▸ List.mem_cons_of_mem _ listed)

/-- `deq` on an empty queue. -/
theorem Represents.deq_empty (represents : Represents state queue) (thread : Nat) {sentinel : Nat}
    (list : queue.list = [sentinel]) :
    Yields (deq state.memory (.deqCell thread)) () state.memory := by
  obtain ⟨last, ends, -, end_⟩ := represents.exists_last
  have same : sentinel = last := by
    rw [list] at ends
    exact Option.some.inj ends
  subst same
  have head : state.memory .head = some sentinel := by
    rw [represents.head, list]
    rfl
  exact deq_yields_empty _ head (represents.tail.trans ends) end_

/-- `dequeue` on an empty queue, if the cell of the thread is empty too. -/
theorem Represents.dequeue_empty (represents : Represents state queue) {sentinel : Nat}
    (list : queue.list = [sentinel]) (noNode : state.memory (.deqCell thread) = none) :
    Yields (state.dequeue thread) false state := by
  obtain ⟨bound, reached⟩ := represents.deq_empty thread list
  refine ⟨bound, fun fuel enough => ?_⟩
  rw [State.dequeue, reached fuel enough, Option.map_some]
  simp only [noNode]

theorem Represents.empty_or_more (represents : Represents state queue) :
    (∃ sentinel, queue.list = [sentinel]) ∨
      ∃ first rest, queue.list = first :: rest ∧ rest ≠ [] := by
  cases list : queue.list with
  | nil => exact absurd list represents.some_
  | cons first rest =>
    cases rest with
    | nil => exact .inl ⟨first, rfl⟩
    | cons second rest => exact .inr ⟨first, second :: rest, rfl, List.cons_ne_nil _ _⟩

/-- `dequeue` returns, whatever is in the cell. -/
theorem Represents.dequeue_returns (represents : Represents state queue) (thread : Nat) :
    ∃ returned after, Yields (state.dequeue thread) returned after := by
  rcases represents.empty_or_more with ⟨sentinel, list⟩ | ⟨first, rest, list, more⟩
  · exact ⟨_, _, (represents.deq_empty thread list).map _⟩
  · obtain ⟨after, yields, -⟩ := represents.dequeue thread list more
    exact ⟨true, after, yields⟩

/-! ### `recover` -/

/-- No enqueue is left to `recover`. -/
theorem Represents.recover_yields (represents : Represents state queue) (thread : Nat) :
    Yields (state.recover thread) () (state.recoverDeq thread) := by
  refine ⟨0, fun fuel _ => ?_⟩
  rw [State.recover, State.recoverEnq, represents.idle]
  rfl

/-- `recover` without an interrupted operation, if a node that is in the cell of the thread has been
reclaimed. -/
theorem Represents.recover (represents : Represents state queue)
    (reclaimed : ∀ node, state.memory (.deqCell thread) = some node →
      (state.nodes node).isBusy = 0) :
    Represents (state.recoverDeq thread) queue := by
  cases cell : state.memory (.deqCell thread) with
  | none =>
    simp only [State.recoverDeq, cell]
    exact represents
  | some node =>
    have free := reclaimed node cell
    have cleared : state.recoverDeq thread =
        { state with memory := state.memory.write (.deqCell thread) none } := by
      simp [State.recoverDeq, cell, free]
    rw [cleared]
    have kept : ∀ address, address ≠ .deqCell thread →
        state.memory.write (.deqCell thread) none address = state.memory address :=
      fun address different => Memory.write_of_ne _ different _
    exact
      { linked := represents.linked.congr fun node _ => kept (.next node) (by simp)
        some_ := represents.some_
        head := (kept _ (by simp)).trans represents.head
        tail := (kept _ (by simp)).trans represents.tail
        idle := fun other => (kept _ (by simp)).trans (represents.idle other)
        busy := represents.busy
        pools := represents.pools.congr (fun _ => rfl) rfl rfl
        apart := represents.apart }

end Operations

/-! ### Start-up -/

section StartUp

variable {config : Config} {state : State}

/-- The nodes of a partition below `count` that are not busy, the last one first. -/
def idleNodes (config : Config) (state : State) (count thread : Nat) : List Nat :=
  ((List.range count).filter fun node =>
    node / (config.nodeSize / config.threads) = thread ∧ (state.nodes node).isBusy ≠ 1).reverse

theorem mem_idleNodes {count thread node : Nat} :
    node ∈ idleNodes config state count thread ↔
      node < count ∧ node / (config.nodeSize / config.threads) = thread ∧
        (state.nodes node).isBusy ≠ 1 := by
  simp [idleNodes]

theorem idleNodes_succ (count thread : Nat) :
    idleNodes config state (count + 1) thread =
      if count / (config.nodeSize / config.threads) = thread ∧ (state.nodes count).isBusy ≠ 1 then
        count :: idleNodes config state count thread
      else idleNodes config state count thread := by
  rw [idleNodes, List.range_succ, List.filter_append, List.reverse_append]
  by_cases mine : count / (config.nodeSize / config.threads) = thread ∧
      (state.nodes count).isBusy ≠ 1
  · rw [if_pos mine]
    simp [idleNodes, mine]
  · rw [if_neg mine]
    simp [idleNodes, mine]

/-- The loop of `initQueueNodePool` before its round at `count`. -/
structure Filled (config : Config) (state : State) (count : Nat) (loop : State × Nat) : Prop where
  thread : loop.2 = count / (config.nodeSize / config.threads)
  memory : loop.1.memory = state.memory
  busy : ∀ node, (loop.1.nodes node).isBusy = (state.nodes node).isBusy
  pooled : ∀ thread, Pooled loop.1 thread (idleNodes config state count thread)

theorem next_thread (count perThread : Nat) :
    (if (count + 1) % perThread = 0 then count / perThread + 1 else count / perThread) =
      (count + 1) / perThread := by
  rw [Nat.succ_div]
  by_cases ends : (count + 1) % perThread = 0
  · rw [if_pos ends, if_pos (Nat.dvd_of_mod_eq_zero ends)]
  · rw [if_neg ends, if_neg fun divides => ends (Nat.mod_eq_zero_of_dvd divides), Nat.add_zero]

/-- What a round does with a node that is not busy. -/
theorem Pooled.push {thread node : Nat} {list : List Nat} (pooled : Pooled state thread list)
    (new : node ∉ list) :
    Pooled (state.pushNode thread node) thread (node :: list) := by
  refine ⟨?_, Function.update_self _ _ _, ?_⟩
  · refine (pooled.linked.congr fun member inside => ?_).cons new ?_
    · have different : member ≠ node := fun same => new (same ▸ inside)
      exact congrArg Node.poolNext (State.setPoolNext_of_ne _ different _)
    · exact (congrArg Node.poolNext (State.setPoolNext_self state node _)).trans pooled.head
  · show (if state.freeListTail thread = none then _ else _ : Nat → Option Nat) thread = _
    rw [pooled.tail]
    cases list with
    | nil => exact (congrFun (if_pos rfl) thread).trans (Function.update_self _ _ _)
    | cons first rest =>
      rw [if_neg (fun none_ => by cases List.getLast?_eq_none_iff.1 none_), pooled.tail,
        List.getLast?_cons_cons]

/-- The other free lists. -/
theorem Pooled.push_other {thread other node : Nat} {list : List Nat}
    (pooled : Pooled state other list) (different : other ≠ thread) (new : node ∉ list) :
    Pooled (state.pushNode thread node) other list := by
  refine pooled.congr (fun member inside => ?_) (Function.update_of_ne different _ _) ?_
  · have apart : member ≠ node := fun same => new (same ▸ inside)
    exact congrArg Node.poolNext (State.setPoolNext_of_ne _ apart _)
  · by_cases empty : state.freeListTail thread = none
    · exact (congrFun (if_pos empty) other).trans (Function.update_of_ne different _ _)
    · exact congrFun (if_neg empty) other

theorem Filled.round {count : Nat} {loop after : State × Nat}
    (filled : Filled config state count loop)
    (step : State.initRound config loop count = some after) :
    Filled config state (count + 1) after := by
  obtain ⟨current, thread⟩ := loop
  have here : thread = count / (config.nodeSize / config.threads) := filled.thread
  have new : ∀ other, count ∉ idleNodes config state count other := fun other inside =>
    Nat.lt_irrefl _ (mem_idleNodes.1 inside).1
  rw [State.initRound, Option.ite_none_left_eq_some, Option.some.injEq] at step
  obtain ⟨-, rfl⟩ := step
  have next : (if (count + 1) % (config.nodeSize / config.threads) = 0 then thread + 1 else thread) =
      (count + 1) / (config.nodeSize / config.threads) := by
    rw [here]
    exact next_thread count _
  by_cases busy : (current.nodes count).isBusy = 1
  · have busy' : (state.nodes count).isBusy = 1 := (filled.busy count).symm.trans busy
    rw [if_pos busy]
    refine ⟨next, filled.memory, filled.busy, fun other => ?_⟩
    show Pooled current other _
    rw [idleNodes_succ, if_neg fun both => both.2 busy']
    exact filled.pooled other
  · have idle : (state.nodes count).isBusy ≠ 1 := fun one => busy ((filled.busy count).trans one)
    rw [if_neg busy]
    refine ⟨next, filled.memory, fun node => ?_, fun other => ?_⟩
    · exact (State.setPoolNext_isBusy current count node _).trans (filled.busy node)
    · show Pooled (current.pushNode thread count) other _
      rw [idleNodes_succ]
      by_cases mine : count / (config.nodeSize / config.threads) = other
      · subst mine
        rw [if_pos ⟨rfl, idle⟩, ← here]
        exact (filled.pooled thread).push (new thread)
      · rw [if_neg fun both => mine both.1]
        exact (filled.pooled other).push_other (fun same => mine (here.symm.trans same.symm))
          (new other)

/-- The loop of `initQueueNodePool` up to the node `count`. -/
def rounds (config : Config) (state : State) (count : Nat) : Option (State × Nat) :=
  (List.range count).foldlM (State.initRound config)
    ({ state with freeList := fun _ => none, freeListTail := fun _ => none }, 0)

theorem rounds_succ (count : Nat) :
    rounds config state (count + 1) =
      (rounds config state count).bind fun loop => State.initRound config loop count := by
  rw [rounds, List.range_succ, List.foldlM_append]
  refine congrArg _ (funext fun loop => ?_)
  exact bind_pure _

theorem filled_of_rounds {count : Nat} {loop : State × Nat}
    (looped : rounds config state count = some loop) : Filled config state count loop := by
  induction count generalizing loop with
  | zero =>
    cases looped
    exact ⟨(Nat.zero_div _).symm, rfl, fun _ => rfl, fun thread => ⟨linked_nil _, rfl, rfl⟩⟩
  | succ count inductionHypothesis =>
    rw [rounds_succ] at looped
    obtain ⟨before, earlier, round⟩ := Option.bind_eq_some_iff.1 looped
    exact (inductionHypothesis earlier).round round

theorem initQueueNodePool_eq_some {after : State}
    (restarted : state.initQueueNodePool config = some after) :
    config.threads ≠ 0 ∧ ∃ thread, rounds config state config.nodeSize = some (after, thread) := by
  rw [State.initQueueNodePool, Option.ite_none_left_eq_some] at restarted
  obtain ⟨some_, looped⟩ := restarted
  obtain ⟨⟨last, thread⟩, reached, rfl⟩ := Option.map_eq_some_iff.1 looped
  exact ⟨some_, thread, reached⟩

/-- `initQueueNodePool` puts the nodes that are not busy on the free lists. -/
theorem pools_of_initQueueNodePool {after : State}
    (restarted : state.initQueueNodePool config = some after) :
    after.memory = state.memory ∧ (∀ node, (after.nodes node).isBusy = (state.nodes node).isBusy) ∧
      Pools after (idleNodes config state config.nodeSize) := by
  obtain ⟨-, _, looped⟩ := initQueueNodePool_eq_some restarted
  have filled := filled_of_rounds looped
  refine ⟨filled.memory, filled.busy, filled.pooled, fun thread other node one two => ?_⟩
  exact (mem_idleNodes.1 one).2.1.symm.trans (mem_idleNodes.1 two).2.1

/-- The partitions cover the nodes exactly. -/
structure Divides (config : Config) : Prop where
  threads : config.threads ≠ 0
  exact_ : config.threads ∣ config.nodeSize

/-- A loop over new nodes only gets to the end if there is no node behind the last partition. -/
theorem Divides.of_start (started : State.start config = some state) : Divides config := by
  obtain ⟨first, restarted, -⟩ := Option.bind_eq_some_iff.1 started
  obtain ⟨some_, _, looped⟩ := initQueueNodePool_eq_some restarted
  refine ⟨some_, ?_⟩
  by_contra remains
  have earlier : ∀ count ≤ config.nodeSize, ∃ loop, rounds config .zero count = some loop := by
    intro count below
    induction below using Nat.decreasingInduction with
    | self => exact ⟨_, looped⟩
    | of_succ count _ inductionHypothesis =>
      obtain ⟨_, later⟩ := inductionHypothesis
      rw [rounds_succ] at later
      obtain ⟨loop, here, -⟩ := Option.bind_eq_some_iff.1 later
      exact ⟨loop, here⟩
  have behind : config.nodeSize / config.threads * config.threads < config.nodeSize := by
    refine Nat.lt_of_le_of_ne (Nat.div_mul_le_self _ _) fun same => ?_
    exact remains ⟨config.nodeSize / config.threads, by rw [Nat.mul_comm]; exact same.symm⟩
  obtain ⟨after, later⟩ := earlier _ behind
  rw [rounds_succ] at later
  obtain ⟨loop, here, round⟩ := Option.bind_eq_some_iff.1 later
  have filled := filled_of_rounds here
  obtain ⟨current, thread⟩ := loop
  rw [State.initRound, Option.ite_none_left_eq_some] at round
  refine round.1 ?_
  by_cases perThread : config.nodeSize / config.threads = 0
  · exact .inr perThread
  · refine .inl ⟨?_, ?_⟩
    · rw [filled.busy]
      exact Nat.zero_ne_one
    · have place : thread = _ := filled.thread
      rw [place, Nat.mul_div_cancel_left _ (Nat.pos_of_ne_zero perThread)]

/-- A restart gets to the end of the loop. -/
theorem Divides.restarts (divides : Divides config) (state : State) :
    ∃ after, state.initQueueNodePool config = some after := by
  have covered : config.nodeSize / config.threads * config.threads = config.nodeSize :=
    Nat.div_mul_cancel divides.exact_
  have reached : ∀ count ≤ config.nodeSize, ∃ loop, rounds config state count = some loop := by
    intro count below
    induction count with
    | zero => exact ⟨_, rfl⟩
    | succ count inductionHypothesis =>
      obtain ⟨⟨current, thread⟩, here⟩ := inductionHypothesis (Nat.le_of_lt below)
      have place : thread = _ := (filled_of_rounds here).thread
      have perThread : config.nodeSize / config.threads ≠ 0 := by
        intro zero
        rw [zero, Nat.zero_mul] at covered
        omega
      have inside : thread < config.threads := by
        rw [place, Nat.div_lt_iff_lt_mul (Nat.pos_of_ne_zero perThread), Nat.mul_comm, covered]
        exact below
      rw [rounds_succ, here, Option.bind_some, State.initRound, if_neg]
      · exact ⟨_, rfl⟩
      · rintro (⟨-, behind⟩ | zero)
        · exact Nat.not_le_of_lt inside behind
        · exact perThread zero
  obtain ⟨loop, looped⟩ := reached config.nodeSize (Nat.le_refl _)
  refine ⟨loop.1, ?_⟩
  rw [State.initQueueNodePool, if_neg divides.threads]
  exact congrArg (Option.map Prod.fst) looped

/-- A restart keeps the list and collects the other nodes. -/
theorem Represents.crash {queue : Queue} {after : State} (represents : Represents state queue)
    (restarted : state.initQueueNodePool config = some after) :
    Represents after { list := queue.list, free := queue.unlinked config } := by
  obtain ⟨memory, busy, pools⟩ := pools_of_initQueueNodePool restarted
  have notBusy : ∀ node, (state.nodes node).isBusy ≠ 1 ↔ node ∉ queue.list := by
    intro node
    rw [represents.busy]
    by_cases inside : node ∈ queue.list <;> simp [inside]
  have same : idleNodes config state config.nodeSize = queue.unlinked config := by
    funext thread
    simp only [idleNodes, Queue.unlinked, notBusy]
  rw [same] at pools
  exact
    { linked := memory ▸ represents.linked
      some_ := represents.some_
      head := memory ▸ represents.head
      tail := memory ▸ represents.tail
      idle := memory ▸ represents.idle
      busy := fun node => (busy node).trans (represents.busy node)
      pools := pools
      apart := fun thread node inside => by
        rw [← same] at inside
        exact (notBusy node).1 (mem_idleNodes.1 inside).2.2 }

theorem State.linkSentinel_memory (state : State) (node : Nat) :
    (state.linkSentinel node).memory =
      ((state.memory.write (.next node) none).write .head (some node)).write .tail (some node) :=
  rfl

theorem State.linkSentinel_of_ne (state : State) (node : Nat) {address : Address}
    (notNext : address ≠ .next node) (notHead : address ≠ .head) (notTail : address ≠ .tail) :
    (state.linkSentinel node).memory address = state.memory address := by
  rw [State.linkSentinel_memory, Memory.write_of_ne _ notTail, Memory.write_of_ne _ notHead,
    Memory.write_of_ne _ notNext]

theorem State.linkSentinel_next (state : State) (node : Nat) :
    (state.linkSentinel node).memory (.next node) = none := by
  rw [State.linkSentinel_memory, Memory.write_of_ne _ (by simp), Memory.write_of_ne _ (by simp),
    Memory.write_self]

theorem State.linkSentinel_head (state : State) (node : Nat) :
    (state.linkSentinel node).memory .head = some node := by
  rw [State.linkSentinel_memory, Memory.write_of_ne _ (by simp), Memory.write_self]

theorem State.linkSentinel_tail (state : State) (node : Nat) :
    (state.linkSentinel node).memory .tail = some node := by
  rw [State.linkSentinel_memory, Memory.write_self]

theorem State.linkSentinel_isBusy (state : State) (node other : Nat) :
    ((state.linkSentinel node).nodes other).isBusy =
      if other = node then 1 else (state.nodes other).isBusy := by
  by_cases same : other = node
  · rw [if_pos same, same, State.linkSentinel, State.setNode_self]
  · rw [if_neg same, State.linkSentinel, State.setNode_of_ne _ same]

theorem Pools.linkSentinel {free : Nat → List Nat} (pools : Pools state free) (node : Nat) :
    Pools (state.linkSentinel node) free := by
  refine pools.congr (fun other => ?_) rfl rfl
  by_cases same : other = node
  · rw [same, State.linkSentinel, State.setNode_self]
  · rw [State.linkSentinel, State.setNode_of_ne _ same]

/-- The first start makes an empty queue. -/
theorem represents_of_start (started : State.start config = some state) :
    ∃ queue, (∃ sentinel, queue.list = [sentinel]) ∧ Represents state queue := by
  obtain ⟨first, restarted, second⟩ := Option.bind_eq_some_iff.1 started
  obtain ⟨memory, busy, pools⟩ := pools_of_initQueueNodePool restarted
  obtain ⟨⟨sentinel, taken⟩, allocated, rfl⟩ := Option.map_eq_some_iff.1 second
  obtain ⟨_, first_, same⟩ := Option.map_eq_some_iff.1 allocated
  cases same
  obtain ⟨rest, free⟩ : ∃ rest, idleNodes config .zero config.nodeSize 0 = sentinel :: rest :=
    List.head?_eq_some_iff.1 ((pools.pooled 0).head.symm.trans first_)
  have sentinelOnce : sentinel ∉ rest := by
    have nodup := (pools.pooled 0).linked.nodup
    rw [free] at nodup
    exact (List.nodup_cons.1 nodup).1
  refine ⟨{ list := [sentinel]
            free := Function.update (idleNodes config .zero config.nodeSize) 0 rest },
    ⟨sentinel, rfl⟩, ?_⟩
  refine
    { linked := (linked_nil _).cons List.not_mem_nil (State.linkSentinel_next _ sentinel)
      some_ := List.cons_ne_nil _ _
      head := State.linkSentinel_head _ sentinel
      tail := State.linkSentinel_tail _ sentinel
      idle := fun thread => ?_
      busy := fun node => ?_
      pools := (pools.take free).linkSentinel sentinel
      apart := fun thread node inside listed => ?_ }
  · rw [State.linkSentinel_of_ne _ _ (by simp) (by simp) (by simp)]
    exact congrFun memory (.enqCell thread)
  · have new : (((first.takeNode 0 sentinel)).nodes node).isBusy = 0 :=
      (State.setPoolNext_isBusy first sentinel node none).trans (busy node)
    rw [State.linkSentinel_isBusy, new]
    simp
  · obtain rfl := List.mem_singleton.1 listed
    by_cases same : thread = 0
    · have inside' : node ∈ Function.update (idleNodes config .zero config.nodeSize) 0 rest thread :=
        inside
      rw [same, Function.update_self] at inside'
      exact sentinelOnce inside'
    · have inside' : node ∈ Function.update (idleNodes config .zero config.nodeSize) 0 rest thread :=
        inside
      rw [Function.update_of_ne same] at inside'
      exact same (pools.alone thread 0 node inside' (free ▸ List.mem_cons_self))

end StartUp

/-! ### Runs -/

/-- The calls for which the cell of the thread does not mislead: `dequeue` on an empty queue finds it
empty, and `recover` does not find a node in it that is busy again. -/
def Allowed (state : State) : Action → Prop
  | .dequeue thread _ =>
    state.memory .head = state.memory .tail → state.memory (.deqCell thread) = none
  | .recover thread =>
    match state.memory (.deqCell thread) with
    | some node => (state.nodes node).isBusy = 0
    | none => True
  | _ => True

/-- Every call returns, and a restart gets to its end. -/
structure Returns (config : Config) (state : State) (queue : Queue) : Prop where
  enqueue : ∀ thread pData, queue.free thread ≠ [] →
    ∃ after, Yields (state.enqueue thread pData) () after
  dequeue : ∀ thread, ∃ returned after, Yields (state.dequeue thread) returned after
  crash : ∃ after, state.initQueueNodePool config = some after
  recover : ∀ thread, ∃ after, Yields (state.recover thread) () after

/-- The run follows an abstract queue that is empty at first, and a `dequeue` that returns false changes
nothing at all. -/
structure Follows {config : Config} (run : Run (system config)) (queues : Nat → Queue) : Prop where
  starts : ∃ sentinel, (queues 0).list = [sentinel]
  represents : ∀ index ≤ run.length, Represents (run.state index) (queues index)
  returns : ∀ index ≤ run.length, Returns config (run.state index) (queues index)
  moves : ∀ index < run.length, (queues index).Moves config (run.action index) (queues (index + 1))
  unchanged : ∀ index < run.length, ∀ thread, run.action index = .dequeue thread false →
    run.state (index + 1) = run.state index

/-- The queue behaves as the abstract one. -/
def Behaves {config : Config} (run : Run (system config)) : Prop :=
  ∃ queues, Follows run queues

section Runs

variable {config : Config} {before after : State} {queue : Queue}

theorem Represents.returns (represents : Represents before queue) (divides : Divides config) :
    Returns config before queue where
  enqueue thread pData some_ := by
    obtain ⟨node, rest, free⟩ := List.exists_cons_of_ne_nil some_
    obtain ⟨after, yields, -⟩ := represents.enqueue free pData
    exact ⟨after, yields⟩
  dequeue := represents.dequeue_returns
  crash := divides.restarts before
  recover thread := ⟨_, represents.recover_yields thread⟩

/-- `enqueue` only returns if there is a free node. -/
theorem Represents.free_of_enqueue (represents : Represents before queue) {thread pData : Nat}
    (yields : Yields (before.enqueue thread pData) () after) :
    ∃ node rest, queue.free thread = node :: rest := by
  obtain ⟨bound, reached⟩ := yields
  obtain ⟨_, allocated, -⟩ := Option.bind_eq_some_iff.1 (reached bound (Nat.le_refl _))
  obtain ⟨node, first, -⟩ := Option.map_eq_some_iff.1 allocated
  obtain ⟨rest, free⟩ :=
    List.head?_eq_some_iff.1 ((represents.pools.pooled thread).head.symm.trans first)
  exact ⟨node, rest, free⟩

/-- An allowed step does what it does to the abstract queue. -/
theorem Represents.step (represents : Represents before queue) {action : Action}
    (allowed : Allowed before action) (step : Step config before action after) :
    ∃ queue', Represents after queue' ∧ queue.Moves config action queue' ∧
      ∀ thread, action = .dequeue thread false → after = before := by
  cases action with
  | enqueue thread pData =>
    obtain ⟨node, rest, free⟩ := represents.free_of_enqueue step.2
    obtain ⟨after', yields, represents'⟩ := represents.enqueue free pData
    obtain ⟨-, rfl⟩ := step.2.unique yields
    exact ⟨_, represents', .enqueue thread pData node rest free, nofun⟩
  | dequeue thread returned =>
    rcases represents.empty_or_more with ⟨sentinel, list⟩ | ⟨first, rest, list, more⟩
    · have empty : before.memory .head = before.memory .tail := by
        rw [represents.head, represents.tail, list]
        rfl
      obtain ⟨rfl, rfl⟩ := step.2.unique (represents.dequeue_empty list (allowed empty))
      exact ⟨queue, represents, .empty thread sentinel list, fun _ _ => rfl⟩
    · obtain ⟨after', yields, represents'⟩ := represents.dequeue thread list more
      obtain ⟨rfl, rfl⟩ := step.2.unique yields
      exact ⟨_, represents', .dequeue thread first rest more list, nofun⟩
  | crash => exact ⟨_, represents.crash step, .crash, nofun⟩
  | recover thread =>
    obtain ⟨-, rfl⟩ := step.2.unique (represents.recover_yields thread)
    refine ⟨queue, represents.recover fun node cell => ?_, .recover thread, nofun⟩
    simp only [Allowed, cell] at allowed
    exact allowed

/-- In every run of allowed steps, the queue behaves as the abstract one. -/
theorem behaves_of_run (run : Run (system config)) (meets : run.Meets Allowed) : Behaves run := by
  obtain ⟨start, empty, initially⟩ := represents_of_start run.starts
  obtain ⟨queues, starts, represents, moves⟩ := run.exists_simulation meets Represents
    (fun before action after queue queue' => queue.Moves config action queue' ∧
      ∀ thread, action = .dequeue thread false → after = before) initially
    fun before action after queue represents allowed step => represents.step allowed step
  have divides : Divides config := .of_start run.starts
  exact ⟨queues,
    { starts := starts ▸ empty
      represents := represents
      returns := fun index inside => (represents index inside).returns divides
      moves := fun index inside => (moves index inside).1
      unchanged := fun index inside => (moves index inside).2 }⟩

end Runs

/-! ### Concrete runs -/

section Settled

variable {state after : State} {thread fuel : Nat}

/-- What `enq` returns with some fuel it returns with any larger amount. -/
theorem enq_settled {memory last : Memory} {cell : Address}
    (reached : enq memory cell fuel = some ((), last)) : Yields (enq memory cell) () last := by
  obtain ⟨newNode, announced, rest⟩ := Option.bind_eq_some_iff.1 reached
  obtain ⟨⟨_, _⟩, ran, same⟩ := Option.map_eq_some_iff.1 rest
  cases same
  have yields := (Yields.of_runUntil ran).map
    fun done : Unit × Memory × Option EnqPc => ((), done.2.1)
  obtain ⟨bound, reached⟩ := yields
  refine ⟨bound, fun fuel enough => ?_⟩
  rw [enq, announced]
  exact reached fuel enough

theorem deq_settled {memory last : Memory} {cell : Address}
    (reached : deq memory cell fuel = some ((), last)) : Yields (deq memory cell) () last := by
  obtain ⟨⟨_, _⟩, ran, same⟩ := Option.map_eq_some_iff.1 reached
  cases same
  exact (Yields.of_runUntil ran).map fun done : Unit × Memory × Option DeqPc => ((), done.2.1)

theorem State.rawEnque_settled (reached : state.rawEnque thread fuel = some ((), after)) :
    Yields (state.rawEnque thread) () after := by
  obtain ⟨⟨_, memory⟩, ran, same⟩ := Option.map_eq_some_iff.1 reached
  cases same
  exact (enq_settled ran).map fun done : Unit × Memory => ((), { state with memory := done.2 })

theorem State.enqueue_settled {pData : Nat}
    (reached : state.enqueue thread pData fuel = some ((), after)) :
    Yields (state.enqueue thread pData) () after := by
  obtain ⟨allocated, first, rest⟩ := Option.bind_eq_some_iff.1 reached
  obtain ⟨bound, reached⟩ := State.rawEnque_settled rest
  refine ⟨bound, fun fuel enough => ?_⟩
  rw [State.enqueue, first]
  exact reached fuel enough

theorem State.dequeue_settled {returned : Bool}
    (reached : state.dequeue thread fuel = some (returned, after)) :
    Yields (state.dequeue thread) returned after := by
  obtain ⟨⟨_, memory⟩, ran, same⟩ := Option.map_eq_some_iff.1 reached
  obtain ⟨bound, reached⟩ := deq_settled ran
  refine ⟨bound, fun fuel enough => ?_⟩
  rw [State.dequeue, reached fuel enough, Option.map_some]
  exact congrArg some same

theorem State.recoverEnq_settled (reached : state.recoverEnq thread fuel = some ((), after)) :
    Yields (state.recoverEnq thread) () after := by
  cases cell : state.memory (.enqCell thread) with
  | none =>
    simp only [State.recoverEnq, cell] at reached
    refine ⟨0, fun fuel _ => ?_⟩
    simp only [State.recoverEnq, cell]
    exact reached
  | some node =>
    by_cases busy : (state.nodes node).isBusy = 1
    · simp only [State.recoverEnq, cell, if_pos busy] at reached
      obtain ⟨bound, reached⟩ := State.rawEnque_settled reached
      refine ⟨bound, fun fuel enough => ?_⟩
      simp only [State.recoverEnq, cell, if_pos busy]
      exact reached fuel enough
    · simp only [State.recoverEnq, cell, if_neg busy] at reached
      refine ⟨0, fun fuel _ => ?_⟩
      simp only [State.recoverEnq, cell, if_neg busy]
      exact reached

theorem State.recover_settled (reached : state.recover thread fuel = some ((), after)) :
    Yields (state.recover thread) () after := by
  obtain ⟨⟨_, middle⟩, ran, same⟩ := Option.map_eq_some_iff.1 reached
  cases same
  exact (State.recoverEnq_settled ran).map
    fun done : Unit × State => ((), done.2.recoverDeq thread)

end Settled

/-- A step with a fixed amount of fuel for each call. -/
def next (config : Config) (state : State) (action : Action) : Option State :=
  match action with
  | .enqueue thread pData =>
    if thread < config.threads then (state.enqueue thread pData 10).map Prod.snd else none
  | .dequeue thread returned =>
    if thread < config.threads then
      (state.dequeue thread 10).bind fun done => if done.1 = returned then some done.2 else none
    else none
  | .crash => state.initQueueNodePool config
  | .recover thread =>
    if thread < config.threads then (state.recover thread 10).map Prod.snd else none

theorem step_of_next {config : Config} {before after : State} {action : Action}
    (step : next config before action = some after) : Step config before action after := by
  cases action with
  | enqueue thread pData =>
    obtain ⟨inside, reached⟩ := Option.ite_none_right_eq_some.1 step
    obtain ⟨_, ran, rfl⟩ := Option.map_eq_some_iff.1 reached
    exact ⟨inside, State.enqueue_settled ran⟩
  | dequeue thread returned =>
    obtain ⟨inside, reached⟩ := Option.ite_none_right_eq_some.1 step
    obtain ⟨_, ran, same⟩ := Option.bind_eq_some_iff.1 reached
    obtain ⟨rfl, returns⟩ := Option.ite_none_right_eq_some.1 same
    rw [Option.some.injEq] at returns
    subst returns
    exact ⟨inside, State.dequeue_settled ran⟩
  | crash => exact step
  | recover thread =>
    obtain ⟨inside, reached⟩ := Option.ite_none_right_eq_some.1 step
    obtain ⟨_, ran, rfl⟩ := Option.map_eq_some_iff.1 reached
    exact ⟨inside, State.recover_settled ran⟩

instance (state : State) (action : Action) : Decidable (Allowed state action) :=
  match action with
  | .dequeue thread _ =>
    inferInstanceAs (Decidable
      (state.memory .head = state.memory .tail → state.memory (.deqCell thread) = none))
  | .recover thread =>
    match cell : state.memory (.deqCell thread) with
    | some node => decidable_of_iff ((state.nodes node).isBusy = 0) (by simp only [Allowed, cell])
    | none => .isTrue (by simp only [Allowed, cell])
  | .enqueue _ _ => .isTrue trivial
  | .crash => .isTrue trivial

/-- One thread with two nodes. -/
def Config.pair : Config where
  nodeSize := 2
  threads := 1

/-- The queue of `Config.pair` after its first start. -/
def State.pair : State := (State.start .pair).get (by decide)

theorem State.start_pair : State.start .pair = some .pair :=
  (Option.some_get _).symm

/-- A node goes through the queue, and `recover` empties the cell before the next `dequeue`. -/
def recovered : List Action :=
  [.enqueue 0 5, .dequeue 0 true, .crash, .recover 0, .dequeue 0 false, .enqueue 0 6]

theorem behaves_of_run_recovered : ∃ run : Run (system .pair),
    run.length = 6 ∧ run.Meets Allowed ∧ Behaves run := by
  obtain ⟨finish, replayed⟩ := Option.isSome_iff_exists.1
    (show (replay (next .pair) recovered .pair).isSome by decide +kernel)
  have starts : (system .pair).initial .pair := State.start_pair
  obtain ⟨run, length, -, -, states, actions⟩ :=
    exists_run_of_replay (next .pair) (fun _ _ _ => step_of_next) starts replayed
  have meets : run.Meets Allowed := by
    intro index inside
    rw [actions]
    exact of_decide_eq_true (test_of_replayTests (fun state action => Allowed state action)
      (by decide +kernel) (length ▸ inside) (states index))
  exact ⟨run, length, meets, behaves_of_run run meets⟩

/-- A node goes through the queue, and the next `dequeue` returns true too. -/
def dequeuedTwice : List Action :=
  [.enqueue 0 5, .dequeue 0 true, .dequeue 0 true]

/-- The second `dequeue` finds the queue empty and returns true, because the node of the first one is
still in the cell. -/
theorem exists_not_behaves : ∃ run : Run (system .pair), ¬ Behaves run := by
  obtain ⟨finish, replayed⟩ := Option.isSome_iff_exists.1
    (show (replay (next .pair) dequeuedTwice .pair).isSome by decide +kernel)
  have starts : (system .pair).initial .pair := State.start_pair
  obtain ⟨run, length, -, -, -, actions⟩ :=
    exists_run_of_replay (next .pair) (fun _ _ _ => step_of_next) starts replayed
  refine ⟨run, ?_⟩
  rintro ⟨queues, follows⟩
  have inside : 2 < run.length := by
    rw [length]
    decide
  obtain ⟨sentinel, start⟩ := follows.starts
  have first := follows.moves 0 (by omega)
  have second := follows.moves 1 (by omega)
  have third := follows.moves 2 inside
  have labels : run.action 0 = .enqueue 0 5 ∧ run.action 1 = .dequeue 0 true ∧
      run.action 2 = .dequeue 0 true := by
    rw [actions, actions, actions]
    exact ⟨rfl, rfl, rfl⟩
  rw [labels.1] at first
  rw [labels.2.1] at second
  rw [labels.2.2] at third
  have one : (queues 1).list.length = 2 := by
    generalize queues 1 = queue at first
    cases first
    simp [start]
  have two : (queues 2).list.length = 1 := by
    generalize queues 2 = queue at second
    cases second with
    | dequeue _ _ rest more list =>
      rw [list, List.length_cons] at one
      exact Nat.succ.inj one
  generalize queues 3 = queue at third
  cases third with
  | dequeue _ _ rest more list =>
    rw [list, List.length_cons] at two
    exact more (List.eq_nil_of_length_eq_zero (Nat.succ.inj two))

end Pmwcas.MSQueueTPMWCas
