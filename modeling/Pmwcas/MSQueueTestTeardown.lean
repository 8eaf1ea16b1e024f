/-
This file proves when the check of `Teardown()` succeeds: between two points without a crash at which
no thread is inside a call, the queue grows by the calls of `enqueue()` and shrinks by the calls of
`dequeue()` that have returned true, as long as no `dequeue()` finds the queue empty. A node that is
linked or taken is counted when the call returns; until then its thread stands for it.

`dequeue()` does not empty the cell, so that one which finds the queue empty may return true with the
node of the call before.
-/

import Mathlib.Algebra.BigOperators.Group.Finset.Basic
import Pmwcas.MSQueueTestRecovery

namespace Pmwcas.MSQueueTest

open Transition MSQueueByPMWCas LinkedList

/-! ### An empty queue -/

/-- The next step of the thread ends a `dequeue()` that has found the queue empty. -/
def State.findsEmpty (state : State) (thread : Nat) : Bool :=
  match state.threads thread with
  | .deq (.checkHead first last none) => state.current.memory .head = some first ∧ first = last
  | _ => false

/-- No `dequeue()` finds the queue empty in this step. -/
def FindsNode (state : State) : Action → Prop
  | .step thread => state.findsEmpty thread = false
  | .enqueue _ _ _ | .dequeue _ | .writeBack _ | .crash => True

instance (state : State) (action : Action) : Decidable (FindsNode state action) :=
  match action with
  | .step thread => inferInstanceAs (Decidable (state.findsEmpty thread = false))
  | .enqueue _ _ _ | .dequeue _ | .writeBack _ | .crash => inferInstanceAs (Decidable True)

/-- `deq()` returns when it has taken a node or found the queue empty. -/
theorem deqEvent_of_return {memory memory' : Memory} {cell : Address} {pc : DeqPc}
    (own : DeqPc.Of pc) (step : stepDeq .pmwcas memory cell pc = some (memory', none)) :
    deqEvent memory cell pc ≠ none ∨
      ∃ first, pc = .checkHead first first none ∧ memory .head = some first := by
  cases pc with
  | loadHead | loadTail =>
    simp only [stepDeq, Option.map_eq_some_iff, Prod.mk.injEq] at step
    obtain ⟨value, -, -, other⟩ := step
    cases other
  | loadNext | loadCell => cases step
  | checkHead first last firstNext =>
    simp only [stepDeq] at step
    split at step
    · next points =>
      split at step
      · next same =>
        subst same
        cases firstNext with
        | none => exact .inr ⟨first, rfl, points⟩
        | some next => cases step
      · cases step
    · cases step
  | mwcas first firstNext old =>
    simp only [stepDeq] at step
    split at step
    · next expected =>
      refine .inl ?_
      simp only [deqEvent, if_pos expected]
      exact Option.some_ne_none _
    · cases step
  | dcas | exchangeTail | flushCell => exact own.elim

/-! ### Nodes that are not counted yet -/

/-- The thread has linked its node and `enqueue()` has not returned. -/
def Pc.linked : Pc → Nat
  | .enq .enqueue _ (.exchangeTail _) => 1
  | _ => 0

/-- The thread has taken a node and `dequeue()` has not returned. -/
def Pc.taken (cell : Option Nat) : Pc → Nat
  | .loadResult => if cell = none then 0 else 1
  | .clean .dequeue _ _ => 1
  | _ => 0

/-- The nodes that threads have linked and not counted. -/
def State.linkedNodes (threadNum : Nat) (state : State) : Nat :=
  (Finset.range threadNum).sum fun thread => (state.threads thread).linked

/-- The nodes that threads have taken and not counted. -/
def State.takenNodes (threadNum : Nat) (state : State) : Nat :=
  (Finset.range threadNum).sum fun thread =>
    (state.threads thread).taken (state.current.memory (.deqCell thread))

theorem Pc.linked_of_pending {newNode : Nat} {pc : EnqPc} (pending : pc.Pending) :
    (Pc.enq .enqueue newNode pc).linked = 0 := by
  cases pc with
  | exchangeTail => exact pending.elim
  | loadTail | recheckTail | mwcas | loadNext | checkTail | dcas | exchangeBehind => rfl

theorem Pc.linked_of_not_pending {newNode : Nat} {pc : EnqPc} (linked : ¬ pc.Pending) :
    (Pc.enq .enqueue newNode pc).linked = 1 := by
  cases pc with
  | exchangeTail => rfl
  | loadTail | recheckTail | mwcas | loadNext | checkTail | dcas | exchangeBehind =>
    exact absurd trivial linked

/-- A sum after the value of one thread has changed. -/
theorem sum_of_one {threadNum thread : Nat} (inside : thread < threadNum) (before after : Nat → Nat)
    (others : ∀ other, other ≠ thread → after other = before other) :
    (Finset.range threadNum).sum after + before thread =
      (Finset.range threadNum).sum before + after thread := by
  have member : thread ∈ Finset.range threadNum := Finset.mem_range.2 inside
  have one : after thread + ((Finset.range threadNum).erase thread).sum after =
      (Finset.range threadNum).sum after := Finset.add_sum_erase _ after member
  have two : before thread + ((Finset.range threadNum).erase thread).sum before =
      (Finset.range threadNum).sum before := Finset.add_sum_erase _ before member
  have same : ((Finset.range threadNum).erase thread).sum after =
      ((Finset.range threadNum).erase thread).sum before :=
    Finset.sum_congr rfl fun other inside => others other (Finset.ne_of_mem_erase inside)
  omega

/-! ### What a step counts -/

variable {threadNum : Nat} {state after : State} {queue : Queue Nat} {thread : Nat}

/-- What a step of a thread does to the counters and to what the thread stands for. -/
structure Counts (state after : State) (thread : Nat) (pc : Pc) (linked taken : Nat) : Prop where
  threads : after.threads = Function.update state.threads thread pc
  working : pc.phase = .working
  cells : ∀ other, other ≠ thread →
    after.current.memory (.deqCell other) = state.current.memory (.deqCell other)
  enq : after.enqNum + pc.linked = state.enqNum + (state.threads thread).linked + linked
  deq : after.deqNum + pc.taken (after.current.memory (.deqCell thread)) =
    state.deqNum + (state.threads thread).taken (state.current.memory (.deqCell thread)) + taken

/-- A step that leaves the memory of the threads as it is but for their other words. -/
theorem Counts.still {pc before : Pc} (here : state.threads thread = before)
    (threads : after.threads = Function.update state.threads thread pc) (working : pc.phase = .working)
    (cells : ∀ other, after.current.memory (.deqCell other) = state.current.memory (.deqCell other))
    (enqNum : after.enqNum = state.enqNum) (deqNum : after.deqNum = state.deqNum)
    (linked : pc.linked = before.linked)
    (taken : ∀ cell, pc.taken cell = before.taken cell) : Counts state after thread pc 0 0 where
  threads := threads
  working := working
  cells other _ := cells other
  enq := by rw [enqNum, linked, here, Nat.add_zero]
  deq := by rw [deqNum, taken, cells, here, Nat.add_zero]

theorem Sound.countsPrepare {stage : PrepareStage} {newNode pData : Nat}
    (here : state.threads thread = .prepare stage newNode pData)
    (step : state.stepThread threadNum thread = some after) :
    ∃ pc, Counts state after thread pc 0 0 := by
  simp only [State.stepThread, here] at step
  cases step
  cases stage with
  | flushCell | storeData | storeBusy | flushNode =>
    exact ⟨_, .still here rfl rfl (fun _ => rfl) rfl rfl rfl fun _ => rfl⟩
  | storeNext =>
    refine ⟨_, .still here rfl rfl (fun other => ?_) rfl rfl rfl fun _ => rfl⟩
    have apart : Address.deqCell other ≠ .next newNode := by simp
    exact state.current.memory.write_of_ne apart none

theorem Sound.countsEnq (sound : Sound threadNum state queue) {newNode : Nat} {pc : EnqPc}
    (here : state.threads thread = .enq .enqueue newNode pc)
    (step : state.stepThread threadNum thread = some after) :
    ∃ pc, Counts state after thread pc (state.links thread) 0 := by
  have fits := sound.fits thread
  rw [here] at fits
  obtain ⟨-, -, knows, -, -⟩ := fits
  simp only [State.stepThread, here, Option.map_eq_some_iff] at step
  obtain ⟨⟨memory, following⟩, step, rfl⟩ := step
  obtain ⟨queue', moves⟩ := stepEnq_moves sound.shape knows step
  have links : state.links thread =
      if enqEvent state.current.memory (.enqCell thread) newNode pc = none then 0 else 1 := by
    simp only [State.links, here]
  have cells : ∀ other, memory (.deqCell other) = state.current.memory (.deqCell other) := by
    intro other
    have hands := moves.effect.handsOver
    have follows := moves.follows
    cases event : enqEvent state.current.memory (.enqCell thread) newNode pc with
    | none =>
      rw [event] at hands
      exact (hands other).2
    | some event' =>
      cases event' with
      | link node =>
        rw [event] at hands
        exact hands.2.2 other
      | take node =>
        rw [event] at follows
        cases following with
        | none =>
          rcases follows with ⟨-, absurdly⟩ | ⟨-, absurdly⟩
          · cases absurdly
          · cases absurdly
        | some next =>
          by_cases pending : next.Pending
          · cases (follows.1 pending).2
          · cases (follows.2 pending).2
  have taken : ∀ cell, (Pc.enq .enqueue newNode pc).taken cell = 0 := fun _ => rfl
  have follows := moves.follows
  cases following with
  | some next =>
    refine ⟨.enq .enqueue newNode next, rfl, rfl, fun other _ => cells other, ?_, ?_⟩
    · show state.enqNum + _ = _
      rw [here, links]
      by_cases pending : next.Pending
      · obtain ⟨before, silent⟩ := follows.1 pending
        rw [Pc.linked_of_pending pending, Pc.linked_of_pending before, if_pos silent]
      · obtain ⟨before, event⟩ := follows.2 pending
        rw [Pc.linked_of_not_pending pending, Pc.linked_of_pending before, event, if_neg (Option.some_ne_none _)]
    · rw [here]
      rfl
  | none =>
    refine ⟨.idle, rfl, rfl, fun other _ => cells other, ?_, ?_⟩
    · show state.enqNum + 1 + 0 = _
      rw [here, links]
      rcases follows with ⟨pending, event⟩ | ⟨pending, silent⟩
      · rw [Pc.linked_of_pending pending, event, if_neg (Option.some_ne_none _)]
      · rw [Pc.linked_of_not_pending pending, if_pos silent]
    · rw [here]
      rfl

theorem Sound.countsDeq (sound : Sound threadNum state queue) {pc : DeqPc}
    (here : state.threads thread = .deq pc) (finds : state.findsEmpty thread = false)
    (step : state.stepThread threadNum thread = some after) :
    ∃ pc, Counts state after thread pc 0 (state.takes thread) := by
  have fits := sound.fits thread
  rw [here] at fits
  obtain ⟨-, -, own, knows⟩ := fits
  simp only [State.stepThread, here, Option.map_eq_some_iff] at step
  obtain ⟨⟨memory, following⟩, step, rfl⟩ := step
  obtain ⟨queue', moves⟩ := stepDeq_moves sound.shape knows step
  have takes : state.takes thread =
      if deqEvent state.current.memory (.deqCell thread) pc = none then 0 else 1 := by
    simp only [State.takes, here]
  have hands := moves.effect.handsOver
  have follows := moves.follows
  have cells : ∀ other, other ≠ thread →
      memory (.deqCell other) = state.current.memory (.deqCell other) := by
    intro other different
    cases event : deqEvent state.current.memory (.deqCell thread) pc with
    | none =>
      rw [event] at hands
      exact (hands other).2
    | some event' =>
      cases event' with
      | link node =>
        rw [event] at hands
        exact hands.2.2 other
      | take node =>
        rw [event] at hands
        exact hands.2.1 other different
  cases following with
  | some next =>
    refine ⟨.deq next, rfl, rfl, cells, ?_, ?_⟩
    · rw [here]
      rfl
    · rw [here, takes, if_pos follows.1]
      rfl
  | none =>
    refine ⟨.loadResult, rfl, rfl, cells, ?_, ?_⟩
    · rw [here]
      rfl
    · show state.deqNum + (if memory (.deqCell thread) = none then 0 else 1) = state.deqNum + _ + _
      rw [here, takes]
      rcases follows with ⟨node, event⟩ | ⟨silent, -⟩
      · rw [event] at hands ⊢
        rw [hands.1, if_neg (Option.some_ne_none _), if_neg (Option.some_ne_none _)]
        rfl
      · rcases deqEvent_of_return own step with taken | ⟨first, rfl, points⟩
        · exact absurd silent taken
        · simp only [State.findsEmpty, here, points] at finds
          simp at finds

theorem Sound.countsClean {stage : CleanStage} {deqNode : Nat}
    (here : state.threads thread = .clean .dequeue stage deqNode)
    (step : state.stepThread threadNum thread = some after) :
    ∃ pc, Counts state after thread pc 0 0 := by
  simp only [State.stepThread, here] at step
  cases step
  cases stage with
  | check =>
    simp only [State.stepClean]
    split
    · exact ⟨.idle, rfl, rfl, fun _ _ => rfl, by rw [here]; rfl, by rw [here]; rfl⟩
    · exact ⟨_, .still here rfl rfl (fun _ => rfl) rfl rfl rfl fun _ => rfl⟩
  | storeBusy | storeData =>
    exact ⟨_, .still here rfl rfl (fun _ => rfl) rfl rfl rfl fun _ => rfl⟩
  | flushNode =>
    exact ⟨.idle, rfl, rfl, fun _ _ => rfl, by rw [here]; rfl, by rw [here]; rfl⟩

/-- A step of a thread that does not recover. -/
theorem Sound.counts (sound : Sound threadNum state queue)
    (working : (state.threads thread).phase = .working) (finds : state.findsEmpty thread = false)
    (step : state.stepThread threadNum thread = some after) :
    ∃ pc, Counts state after thread pc (state.links thread) (state.takes thread) := by
  have still : (∀ caller newNode pc, state.threads thread ≠ .enq caller newNode pc) →
      (∀ pc, state.threads thread ≠ .deq pc) → (∃ pc, Counts state after thread pc 0 0) →
      ∃ pc, Counts state after thread pc (state.links thread) (state.takes thread) := by
    intro notEnq notDeq counts
    rw [State.links_of_not_enq notEnq, State.takes_of_not_deq notDeq]
    exact counts
  cases here : state.threads thread with
  | restarted | doRecoverEnq | clearEnqCell | flushEnqCell | recoverDeq | doRecoverDeq | clearDeqCell
  | flushDeqCell | recovered | barrier =>
    rw [here] at working
    cases working
  | idle =>
    simp only [State.stepThread, here] at step
    cases step
  | prepare => exact still (by simp [here]) (by simp [here]) (Sound.countsPrepare here step)
  | loadEnqCell caller =>
    refine still (by simp [here]) (by simp [here]) ?_
    cases caller with
    | recover =>
      rw [here] at working
      cases working
    | enqueue =>
      simp only [State.stepThread, here, Option.map_eq_some_iff] at step
      obtain ⟨newNode, -, rfl⟩ := step
      exact ⟨_, .still here rfl rfl (fun _ => rfl) rfl rfl rfl fun _ => rfl⟩
  | enq caller newNode pc =>
    cases caller with
    | recover =>
      rw [here] at working
      cases working
    | enqueue =>
      rw [State.takes_of_not_deq (by simp [here])]
      exact sound.countsEnq here step
  | deq pc =>
    rw [State.links_of_not_enq (by simp [here])]
    exact sound.countsDeq here finds step
  | loadResult =>
    refine still (by simp [here]) (by simp [here]) ?_
    simp only [State.stepThread, here] at step
    split at step
    · next deqNode cell =>
      cases step
      refine ⟨_, rfl, rfl, fun _ _ => rfl, by rw [here]; rfl, ?_⟩
      rw [here]
      show state.deqNum + 1 = state.deqNum + (if _ = none then 0 else 1) + 0
      rw [cell, if_neg (Option.some_ne_none _)]
    · next cell =>
      cases step
      refine ⟨_, rfl, rfl, fun _ _ => rfl, by rw [here]; rfl, ?_⟩
      rw [here]
      show state.deqNum + 0 = state.deqNum + (if _ = none then 0 else 1) + 0
      rw [cell, if_pos rfl]
  | clean purpose stage deqNode =>
    cases purpose with
    | recover =>
      rw [here] at working
      cases working
    | dequeue => exact still (by simp [here]) (by simp [here]) (Sound.countsClean here step)

/-! ### Between two points -/

/-- How far the queue, the counters and what the threads stand for have come since `base`, where the
queue had `length` linked nodes and the place `head`. -/
structure Balanced (threadNum : Nat) (base state : State) (length head : Nat) (queue : Queue Nat) :
    Prop where
  sound : Sound threadNum state queue
  enq : queue.order.length + base.enqNum = length + state.enqNum + state.linkedNodes threadNum
  deq : queue.head + base.deqNum = head + state.deqNum + state.takenNodes threadNum
  working : ∀ thread < threadNum, (state.threads thread).phase = .working

variable {base : State} {length head : Nat}

/-- A step of a thread keeps the balance. -/
theorem Balanced.step (balanced : Balanced threadNum base state length head queue)
    (inside : thread < threadNum) {linked taken : Nat}
    (goes : Goes threadNum state after queue linked taken) {pc : Pc}
    (counts : Counts state after thread pc linked taken) :
    ∃ queue', Balanced threadNum base after length head queue' := by
  obtain ⟨queue', sound, -, order, place⟩ := goes
  have linkedNodes : after.linkedNodes threadNum + (state.threads thread).linked =
      state.linkedNodes threadNum + pc.linked := by
    have sum := sum_of_one inside (fun other => (state.threads other).linked)
      (fun other => (after.threads other).linked) fun other different => by
        rw [counts.threads, Function.update_of_ne different]
    rw [counts.threads, Function.update_self] at sum
    rw [State.linkedNodes, State.linkedNodes, counts.threads]
    exact sum
  have takenNodes : after.takenNodes threadNum +
      (state.threads thread).taken (state.current.memory (.deqCell thread)) =
      state.takenNodes threadNum + pc.taken (after.current.memory (.deqCell thread)) := by
    have sum := sum_of_one inside
      (fun other => (state.threads other).taken (state.current.memory (.deqCell other)))
      (fun other => (after.threads other).taken (after.current.memory (.deqCell other)))
      fun other different => by
        rw [counts.threads, Function.update_of_ne different, counts.cells other different]
    rw [counts.threads, Function.update_self] at sum
    rw [State.takenNodes, State.takenNodes, counts.threads]
    exact sum
  have enq := balanced.enq
  have deq := balanced.deq
  have enqCounts := counts.enq
  have deqCounts := counts.deq
  refine ⟨queue', sound, by omega, by omega, fun other below => ?_⟩
  rw [counts.threads]
  by_cases same : other = thread
  · rw [same, Function.update_self]
    exact counts.working
  · rw [Function.update_of_ne same]
    exact balanced.working other below

/-- The steps between two crashes keep the balance. -/
theorem Balanced.next (balanced : Balanced threadNum base state length head queue) {action : Action}
    (notCrash : action ≠ .crash) (fresh : NotReused state action) (finds : FindsNode state action)
    (step : state.next threadNum action = some after) :
    ∃ queue', Balanced threadNum base after length head queue' := by
  cases action with
  | crash => exact absurd rfl notCrash
  | step thread =>
    simp only [State.next] at step
    split at step
    · next inside =>
      obtain ⟨pc, counts⟩ := balanced.sound.counts (balanced.working thread inside) finds step
      exact balanced.step inside (balanced.sound.stepThread inside step) counts
    · cases step
  | writeBack line =>
    cases step
    obtain ⟨queue', sound, -, order, place⟩ := balanced.sound.writeBack line
    exact ⟨queue', sound, order ▸ balanced.enq, place ▸ balanced.deq, balanced.working⟩
  | enqueue thread node pData =>
    have goes := balanced.sound.enqueue fresh step
    simp only [State.next] at step
    split at step
    · next allowed =>
      cases step
      refine balanced.step allowed.1 goes ⟨rfl, rfl, fun other _ => ?_, ?_, ?_⟩
      · have apart : Address.deqCell other ≠ .enqCell thread := by simp
        exact state.current.memory.write_of_ne apart (some node)
      · rw [allowed.2]
        rfl
      · rw [allowed.2]
        rfl
    · cases step
  | dequeue thread =>
    have goes := balanced.sound.dequeue step
    simp only [State.next] at step
    split at step
    · next allowed =>
      cases step
      refine balanced.step allowed.1 goes ⟨rfl, rfl, fun _ _ => rfl, ?_, ?_⟩
      · rw [allowed.2]
        rfl
      · rw [allowed.2]
        rfl
    · cases step

theorem linkedNodes_of_idle (idle : ∀ thread < threadNum, state.threads thread = .idle) :
    state.linkedNodes threadNum = 0 := by
  refine Finset.sum_eq_zero fun thread inside => ?_
  rw [idle thread (Finset.mem_range.1 inside)]
  rfl

theorem takenNodes_of_idle (idle : ∀ thread < threadNum, state.threads thread = .idle) :
    state.takenNodes threadNum = 0 := by
  refine Finset.sum_eq_zero fun thread inside => ?_
  rw [idle thread (Finset.mem_range.1 inside)]
  rfl

/-- `getQueueSize()` counts the nodes of the list from a node on. -/
theorem queueSizeFrom_of_linked {image : Image} {nodes : List Nat}
    (linked : Linked (fun node => image.memory (.next node)) nodes) {fuel : Nat}
    (enough : nodes.length ≤ fuel) : image.queueSizeFrom fuel nodes.head? = some nodes.length := by
  induction nodes generalizing fuel with
  | nil =>
    cases fuel with
    | zero | succ => rfl
  | cons node nodes inductionHypothesis =>
    cases fuel with
    | zero => cases enough
    | succ fuel =>
      have following : image.memory (.next node) = nodes.head? := linked.next_head
      have rest := inductionHypothesis linked.tail (Nat.le_of_succ_le_succ enough)
      show (image.queueSizeFrom fuel (image.memory (.next node))).map (· + 1) = _
      rw [following, rest]
      rfl

theorem Sound.getQueueSize (sound : Sound threadNum state queue) {fuel : Nat}
    (enough : queue.order.length ≤ fuel) :
    state.current.getQueueSize fuel = some (queue.order.length - queue.head) := by
  obtain ⟨points, linked⟩ := sound.contents
  have shorter : (queue.order.drop queue.head).length ≤ fuel := by
    rw [List.length_drop]
    omega
  rw [Image.getQueueSize, points, ← List.length_drop]
  exact queueSizeFrom_of_linked linked shorter

/-- The check of `Teardown()` in a run in which no node is reused and no `dequeue()` finds the queue
empty. -/
theorem getQueueSize_of_run (threadNum sentinel : Nat) (run : Run (system threadNum sentinel))
    (fresh : run.Meets NotReused) (first last : Nat) (later : first ≤ last)
    (inside : last ≤ run.length)
    (noCrash : ∀ index, first ≤ index → index < last → run.action index ≠ .crash)
    (finds : ∀ index, first ≤ index → index < last →
      FindsNode (run.state index) (run.action index))
    (idleFirst : ∀ thread < threadNum, (run.state first).threads thread = .idle)
    (idleLast : ∀ thread < threadNum, (run.state last).threads thread = .idle) :
    ∃ orgQueueSize newQueueSize bound,
      (∀ fuel, bound ≤ fuel →
        (run.state first).current.getQueueSize fuel = some orgQueueSize ∧
        (run.state last).current.getQueueSize fuel = some newQueueSize) ∧
      newQueueSize + (run.state first).enqNum + (run.state last).deqNum =
        orgQueueSize + (run.state last).enqNum + (run.state first).deqNum := by
  obtain ⟨queue, sound⟩ :=
    exists_sound_of_run threadNum sentinel run fresh first (Nat.le_trans later inside)
  have start : Balanced threadNum (run.state first) (run.state first) queue.order.length queue.head
      queue :=
    { sound := sound
      enq := by rw [linkedNodes_of_idle idleFirst]; rfl
      deq := by rw [takenNodes_of_idle idleFirst]; rfl
      working := fun thread below => by rw [idleFirst thread below]; rfl }
  obtain ⟨queue', balanced⟩ := run.invariant_between
    (fun state action => action ≠ .crash ∧ NotReused state action ∧ FindsNode state action)
    (fun state => ∃ queue', Balanced threadNum (run.state first) state queue.order.length queue.head
      queue') later inside
    (fun index after before => ⟨noCrash index after before,
      fresh index (Nat.lt_of_lt_of_le before inside), finds index after before⟩)
    ⟨queue, start⟩
    fun before action after holds allowed step => by
      obtain ⟨queue', balanced⟩ := holds
      exact balanced.next allowed.1 allowed.2.1 allowed.2.2 step
  have enq := balanced.enq
  have deq := balanced.deq
  rw [linkedNodes_of_idle idleLast] at enq
  rw [takenNodes_of_idle idleLast] at deq
  have below := Nat.lt_of_le_of_lt sound.shape.head_le sound.shape.tail_lt
  have below' := Nat.lt_of_le_of_lt balanced.sound.shape.head_le balanced.sound.shape.tail_lt
  refine ⟨queue.order.length - queue.head, queue'.order.length - queue'.head,
    max queue.order.length queue'.order.length, fun fuel enough => ?_, by omega⟩
  exact ⟨sound.getQueueSize (Nat.le_trans (Nat.le_max_left _ _) enough),
    balanced.sound.getQueueSize (Nat.le_trans (Nat.le_max_right _ _) enough)⟩

/-- After the crash `enqueue()` has not been called again, and `dequeue()` once. -/
theorem getQueueSize_of_run_crashBeforeLink : ∃ run : Run (system 2 0),
    ∃ orgQueueSize newQueueSize, newQueueSize + 1 = orgQueueSize ∧
      ∃ bound, ∀ fuel, bound ≤ fuel →
        (run.state 21).current.getQueueSize fuel = some orgQueueSize ∧
        (run.state 33).current.getQueueSize fuel = some newQueueSize := by
  obtain ⟨run, length, fresh, states, actions⟩ :=
    exists_run_of_actions 2 0 crashBeforeLink (by decide +kernel) (by decide +kernel)
  have idleFirst := satisfies_of_replay (fun state =>
    (state.threads 0 = .idle ∧ state.threads 1 = .idle) ∧ state.enqNum = 0 ∧ state.deqNum = 0)
    (states 21) (by decide +kernel)
  have idleLast := satisfies_of_replay (fun state =>
    (state.threads 0 = .idle ∧ state.threads 1 = .idle) ∧ state.enqNum = 0 ∧ state.deqNum = 1)
    (states 33) (by decide +kernel)
  have noCrash : ∀ index < 33, 21 ≤ index → crashBeforeLink.getD index default ≠ .crash := by
    decide +kernel
  have finds : ∀ index < 33, (replay (State.next 2) (crashBeforeLink.take index) (.start 2 0)).any
      (fun state => FindsNode state (crashBeforeLink.getD index default)) = true := by
    decide +kernel
  obtain ⟨orgQueueSize, newQueueSize, bound, sizes, balance⟩ :=
    getQueueSize_of_run 2 0 run fresh 21 33 (by decide) (Nat.le_of_eq length.symm)
      (fun index after before => actions index ▸ noCrash index before after)
      (fun index _ before => actions index ▸ satisfies_of_replay
        (fun state => FindsNode state (crashBeforeLink.getD index default)) (states index)
        (finds index before))
      (idle_two idleFirst.1) (idle_two idleLast.1)
  rw [idleFirst.2.1, idleFirst.2.2, idleLast.2.1, idleLast.2.2] at balance
  exact ⟨run, orgQueueSize, newQueueSize, balance, bound, sizes⟩

end Pmwcas.MSQueueTest
