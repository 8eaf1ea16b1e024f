/-
This file shows that the benchmark queue keeps its invariant in every step, in a crash and in what
follows it. A step of a thread changes the images by one of a few moves; each move keeps what the
images have in common and what the other threads know.
-/

import Pmwcas.MSQueueTestSound

namespace Pmwcas.MSQueueTest

open Transition MSQueueByPMWCas LinkedList

/-! ### The invariant -/

/-- A thread recovers, has done so, or has passed the barrier. -/
inductive Phase
  | recovering
  | recovered
  | working
deriving DecidableEq

def Caller.phase : Caller → Phase
  | .enqueue => .working
  | .recover => .recovering

def Purpose.phase : Purpose → Phase
  | .dequeue => .working
  | .recover => .recovering

def Pc.phase : Pc → Phase
  | .restarted | .doRecoverEnq _ | .clearEnqCell | .flushEnqCell | .recoverDeq | .doRecoverDeq _
  | .clearDeqCell | .flushDeqCell | .recovered => .recovering
  | .barrier => .recovered
  | .idle | .prepare _ _ _ | .deq _ | .loadResult => .working
  | .loadEnqCell caller | .enq caller _ _ => caller.phase
  | .clean purpose _ _ => purpose.phase

/-- The threads that have recovered since the restart. -/
def State.recoveredThreads (threadNum : Nat) (state : State) : Finset Nat :=
  (Finset.range threadNum).filter fun thread => (state.threads thread).phase ≠ .recovering

/-- The state of the machine and the queue it holds. -/
structure Sound (threadNum : Nat) (state : State) (queue : Queue Nat) : Prop where
  consistent : Consistent state.current state.persisted queue
  shape : Shape state.current.memory queue
  tail : state.persisted.memory .tail = state.current.memory .tail
  used : ∀ node, node ∈ queue.order ∨ state.current.Busy node ∨ state.persisted.Busy node →
    node ∈ state.used
  known : ∀ cell node, In state.current state.persisted cell node →
    node ∈ state.used ∨ (state.threads cell.thread).phase = .recovering
  owner : ∀ cell node, In state.current state.persisted cell node → cell.thread < threadNum
  fits : ∀ thread, (state.threads thread).Fits state.current state.persisted queue thread
  working : ∀ thread < threadNum, (state.threads thread).phase = .working →
    threadNum ≤ state.recoverNum
  counted : (state.recoveredThreads threadNum).card = state.recoverNum

theorem mem_recoveredThreads {threadNum : Nat} {state : State} {thread : Nat} :
    thread ∈ state.recoveredThreads threadNum ↔
      thread < threadNum ∧ (state.threads thread).phase ≠ .recovering := by
  unfold State.recoveredThreads
  rw [Finset.mem_filter, Finset.mem_range]

theorem State.goto_threads (state : State) (thread : Nat) (pc : Pc) :
    (state.goto thread pc).threads = Function.update state.threads thread pc := rfl

/-- What a step of a thread does to the two images and the queue in them. -/
structure Moves (state : State) (queue : Queue Nat) (thread : Nat)
    (current persisted : Image) (queue' : Queue Nat) : Prop where
  consistent : Consistent current persisted queue'
  shape : Shape current.memory queue'
  tail : persisted.memory .tail = current.memory .tail
  later : queue.Le queue'
  used : ∀ node, node ∈ queue'.order ∨ current.Busy node ∨ persisted.Busy node → node ∈ state.used
  placed : ∀ cell node, In current persisted cell node → In state.current state.persisted cell node ∨
    cell = .deq thread ∧ node ∈ state.used
  kept : ∀ cell : Cell, cell.thread ≠ thread →
    KeptAt state.current state.persisted current persisted cell
  evolves : Evolves (state.persisted.queue queue) (persisted.queue queue')

section Steps

variable {threadNum : Nat} {state after : State} {queue queue' : Queue Nat} {thread : Nat}

/-- When one thread has passed the barrier, all have recovered. -/
theorem Sound.all_recovered (sound : Sound threadNum state queue)
    (enough : threadNum ≤ state.recoverNum) {other : Nat} (inside : other < threadNum) :
    (state.threads other).phase ≠ .recovering := by
  have all : state.recoveredThreads threadNum = Finset.range threadNum := by
    refine Finset.eq_of_subset_of_card_le (Finset.filter_subset _ _) ?_
    rw [sound.counted, Finset.card_range]
    exact enough
  have member : other ∈ state.recoveredThreads threadNum := by
    rw [all, Finset.mem_range]
    exact inside
  exact (mem_recoveredThreads.1 member).2

/-- A thread that stays in its phase leaves the number of recovered threads as it is. -/
theorem recoveredThreads_update {pc : Pc} (threads : after.threads = Function.update state.threads thread pc)
    (phase : pc.phase ≠ .recovering ↔ (state.threads thread).phase ≠ .recovering) :
    after.recoveredThreads threadNum = state.recoveredThreads threadNum := by
  unfold State.recoveredThreads
  refine Finset.filter_congr fun other _ => ?_
  rw [threads]
  by_cases same : other = thread
  · rw [same, Function.update_self]
    exact phase
  · rw [Function.update_of_ne same]

/-- A step of a thread. -/
theorem Sound.act (sound : Sound threadNum state queue) (inside : thread < threadNum)
    (moves : Moves state queue thread after.current after.persisted queue') {pc : Pc}
    (threads : after.threads = Function.update state.threads thread pc)
    (used : after.used = state.used) (recoverNum : after.recoverNum = state.recoverNum)
    (fits : pc.Fits after.current after.persisted queue' thread)
    (recovering : (state.threads thread).phase = .recovering ↔ pc.phase = .recovering)
    (working : pc.phase = .working → threadNum ≤ state.recoverNum) :
    Sound threadNum after queue' := by
  have phase : ∀ other, (state.threads other).phase = .recovering →
      (after.threads other).phase = .recovering := by
    intro other before
    rw [threads]
    by_cases same : other = thread
    · rw [same, Function.update_self]
      exact recovering.1 (same ▸ before)
    · rw [Function.update_of_ne same]
      exact before
  exact
    { consistent := moves.consistent
      shape := moves.shape
      tail := moves.tail
      used := fun node place => used ▸ moves.used node place
      known := fun cell node here => by
        rw [used]
        rcases moves.placed cell node here with before | ⟨-, known⟩
        · exact (sound.known cell node before).imp id (phase cell.thread)
        · exact .inl known
      owner := fun cell node here => by
        rcases moves.placed cell node here with before | ⟨rfl, -⟩
        · exact sound.owner cell node before
        · exact inside
      fits := fun other => by
        rw [threads]
        by_cases same : other = thread
        · rw [same, Function.update_self]
          exact fits
        · rw [Function.update_of_ne same]
          exact (sound.fits other).kept (moves.kept (.enq other) same) (moves.kept (.deq other) same)
            moves.later
      working := fun other below here => by
        rw [recoverNum]
        rw [threads] at here
        by_cases same : other = thread
        · rw [same, Function.update_self] at here
          exact working here
        · rw [Function.update_of_ne same] at here
          exact sound.working other below here
      counted := by
        rw [recoverNum, ← sound.counted, recoveredThreads_update threads (not_congr recovering.symm)] }

/-! ### The moves -/

theorem Moves.keep (sound : Sound threadNum state queue) (thread : Nat) :
    Moves state queue thread state.current state.persisted queue where
  consistent := sound.consistent
  shape := sound.shape
  tail := sound.tail
  later := .refl queue
  used := sound.used
  placed _ _ here := .inl here
  kept cell _ := KeptAt.of_same (fun _ => rfl) rfl (fun _ => rfl) cell
  evolves := .inl rfl

/-- A cache line gets into NVM. -/
theorem Moves.flush (sound : Sound threadNum state queue) (thread : Nat) (line : Line) :
    Moves state queue thread state.current
      (state.persisted.writeBack state.current [line]) queue where
  consistent := sound.consistent.writeBack [line]
  shape := sound.shape
  tail := by
    rcases state.persisted.writeBack_word state.current [line] .tail with same | same
    · exact same
    · exact same.trans sound.tail
  later := .refl queue
  used node place := sound.used node (by
    rcases place with member | busy | busy
    · exact .inl member
    · exact .inr (.inl busy)
    · exact .inr (Image.writeBack_busy busy))
  placed _ _ here := .inl here.of_writeBack
  kept cell _ := KeptAt.writeBack _ _ _ cell
  evolves := sound.consistent.evolves_writeBack line

/-- A thread resets a cell of its own in which no node is busy. -/
theorem Moves.clearCell (sound : Sound threadNum state queue) {cell : Cell}
    (quiet : Quiet state.current state.persisted cell) :
    Moves state queue cell.thread (state.current.write cell.address none) state.persisted queue where
  consistent := sound.consistent.storeCell quiet nofun
  shape := sound.shape.congr (fun node _ => state.current.write_cell_nextOf cell none node)
    (state.current.write_cell_head cell none) (state.current.write_cell_tail cell none)
  tail := sound.tail.trans (state.current.write_cell_tail cell none).symm
  later := .refl queue
  used := sound.used
  placed _ _ here := by
    rcases here.of_write with ⟨-, nothing⟩ | before
    · cases nothing
    · exact .inl before
  kept other different := KeptAt.storeCell (fun same => different (congrArg Cell.thread same)) none
  evolves := .inl rfl

/-- `enqueue()` resets `next_` of its new node. -/
theorem Moves.storeNext (sound : Sound threadNum state queue) {node : Nat}
    (here : state.current.cell (.enq thread) = some node) :
    Moves state queue thread (state.current.write (.next node) none) state.persisted queue := by
  have new := sound.consistent.notLinked thread node (.inl here)
  have cells : ∀ cell : Cell, (state.current.write (.next node) none).cell cell = state.current.cell cell :=
    fun cell => Memory.write_of_ne _ (cell.address_ne_next node).symm _
  have head : (state.current.write (.next node) none).memory .head = state.current.memory .head :=
    state.current.memory.write_of_ne (show Address.head ≠ .next node from nofun) none
  have tail : (state.current.write (.next node) none).memory .tail = state.current.memory .tail :=
    state.current.memory.write_of_ne (show Address.tail ≠ .next node from nofun) none
  exact
    { consistent := sound.consistent.storeNext new
      shape := sound.shape.congr (fun other member => state.current.memory.write_of_ne
        (by rintro same; cases same; exact new member) none) head tail
      tail := sound.tail.trans tail.symm
      later := .refl queue
      used := sound.used
      placed := fun cell other inside => .inl (inside.imp (cells cell).symm.trans id)
      kept := fun cell different => KeptAt.storeNext sound.consistent here
        (fun same => different (congrArg Cell.thread same))
      evolves := .inl rfl }

/-- A thread stores to a field of the node in a cell of its own. -/
theorem Moves.setNode (sound : Sound threadNum state queue) (cell : Cell) (node : Nat)
    (fields : Fields)
    (stores : Stores state.current state.persisted cell node (fields.isBusy = 1))
    (known : fields.isBusy = 1 → node ∈ state.used) :
    Moves state queue cell.thread (state.current.setNode node fields) state.persisted queue where
  consistent := sound.consistent.setNode stores
  shape := sound.shape
  tail := sound.tail
  later := .refl queue
  used other place := by
    rcases place with member | busy | busy
    · exact sound.used other (.inl member)
    · by_cases same : other = node
      · subst same
        exact known ((state.current.setNode_busy_self other fields).1 busy)
      · exact sound.used other (.inr (.inl ((state.current.setNode_busy_of_ne same fields).1 busy)))
    · exact sound.used other (.inr (.inr busy))
  placed _ _ here := .inl here
  kept other different := KeptAt.setNode sound.consistent stores.here fields
    (fun same => different (congrArg Cell.thread same))
  evolves := .inl rfl

/-- The new node of a thread is linked. -/
theorem Moves.link (sound : Sound threadNum state queue) {last newNode : Nat}
    (passed : queue.Passed last) (end_ : state.current.memory (.next last) = none)
    (ready : Ready state.current state.persisted (.enq thread) newNode) {current persisted : Image}
    (links : Links state.current current thread last newNode)
    (linksPersisted : Links state.persisted persisted thread last newNode)
    (busyLast : current.Busy last ∧ persisted.Busy last)
    (shape : Shape current.memory queue')
    (tail : persisted.memory .tail = current.memory .tail)
    (order : queue'.order = queue.order ++ [newNode]) (head : queue'.head = queue.head)
    (later : queue.tail ≤ queue'.tail) :
    Moves state queue thread current persisted queue' := by
  obtain ⟨index, below, place⟩ := passed
  have length := sound.shape.linked.last place end_
  have ordered := sound.shape.head_le
  have bound := sound.shape.tail_lt
  have after : queue.head ≤ index := by omega
  have live : Live queue last := ⟨index, after, place⟩
  have consistent := sound.consistent.link place after end_ ready.1 ready.2.1 ready.2.2 links
    linksPersisted busyLast
  have sameLive : ∀ node, Live queue' node ↔
      Live { queue with order := queue.order ++ [newNode] } node := by
    intro node
    unfold Live
    rw [order, head]
  have evolves := sound.consistent.evolves_link live ready linksPersisted
  have sameQueue : persisted.queue queue' =
      persisted.queue { queue with order := queue.order ++ [newNode] } := by
    unfold Image.queue
    rw [order, head]
  refine
    { consistent :=
        { linked := order ▸ consistent.linked
          linkedPersisted := order ▸ consistent.linkedPersisted
          head := by rw [order, head]; exact consistent.head
          headPersisted := by rw [order, head]; exact consistent.headPersisted
          busy := fun node here => consistent.busy node ((sameLive node).1 here)
          held := fun node busy => (consistent.held node busy).imp (sameLive node).2 id
          alone := consistent.alone
          cells := consistent.cells
          notLive := fun cell node here inside =>
            consistent.notLive cell node here ((sameLive node).1 inside)
          notLinked := order ▸ consistent.notLinked
          announced := consistent.announced
          taken := consistent.taken }
      shape := shape
      tail := tail
      later := ⟨order ▸ List.prefix_append _ _, Nat.le_of_eq head.symm, later⟩
      used := fun node inside => ?_
      placed := fun cell node inside => .inl ?_
      kept := fun cell different => KeptAt.link sound.consistent live links linksPersisted
        (fun same => different (congrArg Cell.thread same))
      evolves := sameQueue ▸ evolves }
  · have lastUsed := sound.used last (.inl live.mem)
    have newUsed := sound.used newNode (.inr (.inl ready.2.1))
    rcases inside with member | busy | busy
    · rw [order, List.mem_append, List.mem_singleton] at member
      rcases member with before | rfl
      · exact sound.used node (.inl before)
      · exact newUsed
    · by_cases same : node = last
      · exact same ▸ lastUsed
      · exact sound.used node (.inr (.inl ((links.busy node same).1 busy)))
    · by_cases same : node = last
      · exact same ▸ lastUsed
      · exact sound.used node (.inr (.inr ((linksPersisted.busy node same).1 busy)))
  · exact inside.imp (fun here => (links.cell_of_some here).2) fun here =>
      (linksPersisted.cell_of_some here).2

/-- A thread takes the first node. -/
theorem Moves.take (sound : Sound threadNum state queue) {first : Nat} {following : Option Nat}
    (ahead : queue.Ahead first following) (points : state.current.memory .head = some first)
    (quiet : Quiet state.current state.persisted (.deq thread)) {current persisted : Image}
    (takes : Takes state.current current thread first following)
    (takesPersisted : Takes state.persisted persisted thread first following)
    (shape : Shape current.memory { queue with head := queue.head + 1 })
    (tail : persisted.memory .tail = current.memory .tail) :
    Moves state queue thread current persisted { queue with head := queue.head + 1 } := by
  obtain ⟨index, below, next, inside, here, there, same⟩ := ahead
  obtain rfl := Queue.Held.head_index sound.shape points here
  have live : Live queue first := ⟨queue.head, Nat.le_refl _, here⟩
  have consistent := sound.consistent
  refine
    { consistent := consistent.take here (there.trans same.symm) quiet takes takesPersisted
      shape := shape
      tail := tail
      later := ⟨List.prefix_refl _, Nat.le_succ _, Nat.le_refl _⟩
      used := fun node place => ?_
      placed := fun cell node place => ?_
      kept := fun cell different => KeptAt.take takes takesPersisted
        (fun own => different (congrArg Cell.thread own))
      evolves := ?_ }
  · rw [takes.busy, takesPersisted.busy] at place
    exact sound.used node place
  · unfold In at place ⊢
    rw [takes.cell, takesPersisted.cell] at place
    by_cases own : cell = .deq thread
    · rw [if_pos own, if_pos own, or_self, Option.some.injEq] at place
      exact .inr ⟨own, place ▸ sound.used first (.inl live.mem)⟩
    · rw [if_neg own, if_neg own] at place
      exact .inl place
  · subst same
    exact Consistent.evolves_take here there quiet (consistent.busy first live).2 takesPersisted

/-! ### Where a step leads -/

/-- The invariant holds again, the queue in NVM stays as it is or takes a step, and this many nodes
are linked and taken. -/
def Goes (threadNum : Nat) (state after : State) (queue : Queue Nat)
    (linked taken : Nat) : Prop :=
  ∃ queue', Sound threadNum after queue' ∧
    Evolves (state.persisted.queue queue) (after.persisted.queue queue') ∧
    queue'.order.length = queue.order.length + linked ∧ queue'.head = queue.head + taken

/-- A step within a phase. -/
theorem Sound.goes {linked taken : Nat} (sound : Sound threadNum state queue)
    (inside : thread < threadNum)
    (moves : Moves state queue thread after.current after.persisted queue') {pc : Pc}
    (threads : after.threads = Function.update state.threads thread pc)
    (used : after.used = state.used) (recoverNum : after.recoverNum = state.recoverNum)
    (phase : pc.phase = (state.threads thread).phase)
    (fits : pc.Fits after.current after.persisted queue' thread)
    (length : queue'.order.length = queue.order.length + linked)
    (head : queue'.head = queue.head + taken) :
    Goes threadNum state after queue linked taken := by
  refine ⟨queue', sound.act inside moves threads used recoverNum fits ?_ ?_, moves.evolves, length, head⟩
  · rw [phase]
  · rw [phase]
    exact sound.working thread inside

/-- A step that leaves the queue as it is. -/
theorem Sound.stays (sound : Sound threadNum state queue) (inside : thread < threadNum)
    (moves : Moves state queue thread after.current after.persisted queue) {pc : Pc}
    (threads : after.threads = Function.update state.threads thread pc)
    (used : after.used = state.used) (recoverNum : after.recoverNum = state.recoverNum)
    (phase : pc.phase = (state.threads thread).phase)
    (fits : pc.Fits after.current after.persisted queue thread) :
    Goes threadNum state after queue 0 0 :=
  sound.goes inside moves threads used recoverNum phase fits rfl rfl

/-- A step that only goes on. -/
theorem Sound.goto (sound : Sound threadNum state queue) (inside : thread < threadNum) {pc : Pc}
    (phase : pc.phase = (state.threads thread).phase)
    (fits : pc.Fits state.current state.persisted queue thread) :
    Goes threadNum state (state.goto thread pc) queue 0 0 :=
  sound.stays inside (.keep sound thread) rfl rfl rfl phase fits

/-- A cell is empty in both images after its line is flushed. -/
theorem Empty.flush (cell : Cell) (none_ : state.current.cell cell = none) :
    Empty state.current (state.persisted.writeBack state.current [lineOf cell.address]) cell :=
  ⟨none_, (Image.writeBack_of_mem (List.mem_singleton.2 rfl)).trans none_⟩

/-- What is left of a cell after a store of `NULL`. -/
theorem Quiet.clear {current persisted : Image} {cell : Cell} (quiet : Quiet current persisted cell) :
    Quiet (current.write cell.address none) persisted cell := by
  intro node here
  rcases here.of_write with ⟨-, nothing⟩ | before
  · cases nothing
  · exact quiet node before

/-- A store to a field of a node leaves it not busy. -/
theorem Quiet.setNode {current persisted : Image} {cell : Cell} (quiet : Quiet current persisted cell)
    (node : Nat) {fields : Fields} (notBusy : fields.isBusy ≠ 1) :
    Quiet (current.setNode node fields) persisted cell := by
  intro other here
  obtain ⟨before, notPersisted⟩ := quiet other here
  refine ⟨fun busy => ?_, notPersisted⟩
  by_cases same : other = node
  · subst same
    exact notBusy ((current.setNode_busy_self other fields).1 busy)
  · exact before ((current.setNode_busy_of_ne same fields).1 busy)

/-! ### `recover()` -/

theorem Sound.stepRestarted (sound : Sound threadNum state queue) (inside : thread < threadNum)
    (here : state.threads thread = .restarted)
    (step : state.stepThread threadNum thread = some after) :
    Goes threadNum state after queue 0 0 := by
  have fits := sound.fits thread
  rw [here] at fits
  simp only [State.stepThread, here] at step
  split at step
  · next enqNode cell =>
    cases step
    exact sound.goto inside (by rw [here]; rfl) ⟨fits.1, fits.2, cell⟩
  · next cell =>
    cases step
    exact sound.goto inside (by rw [here]; rfl) ⟨fits.1.empty cell, fits.2⟩

theorem Sound.stepDoRecoverEnq (sound : Sound threadNum state queue) (inside : thread < threadNum)
    {enqNode : Nat} (here : state.threads thread = .doRecoverEnq enqNode)
    (step : state.stepThread threadNum thread = some after) :
    Goes threadNum state after queue 0 0 := by
  have fits := sound.fits thread
  rw [here] at fits
  obtain ⟨agrees, agreesDeq, cell⟩ := fits
  simp only [State.stepThread, here] at step
  split at step
  · next busy =>
    cases step
    exact sound.goto inside (by rw [here]; rfl)
      ⟨agreesDeq, enqNode, cell, busy, (agrees.2 enqNode cell).1 busy⟩
  · next notBusy =>
    cases step
    exact sound.goto inside (by rw [here]; rfl) ⟨agrees.quiet cell notBusy, agreesDeq⟩

theorem Sound.stepClearEnqCell (sound : Sound threadNum state queue) (inside : thread < threadNum)
    (here : state.threads thread = .clearEnqCell)
    (step : state.stepThread threadNum thread = some after) :
    Goes threadNum state after queue 0 0 := by
  have fits := sound.fits thread
  rw [here] at fits
  simp only [State.stepThread, here] at step
  cases step
  have apart : Cell.deq thread ≠ .enq thread := nofun
  exact sound.stays inside (Moves.clearCell sound fits.1) rfl rfl rfl (by rw [here]; rfl)
    ⟨fits.1.clear, fits.2.kept (KeptAt.storeCell apart none),
      state.current.write_cell_self (.enq thread) none⟩

theorem Sound.stepFlushEnqCell (sound : Sound threadNum state queue) (inside : thread < threadNum)
    (here : state.threads thread = .flushEnqCell)
    (step : state.stepThread threadNum thread = some after) :
    Goes threadNum state after queue 0 0 := by
  have fits := sound.fits thread
  rw [here] at fits
  obtain ⟨-, agreesDeq, cell⟩ := fits
  simp only [State.stepThread, here] at step
  cases step
  have empty := Empty.flush (.enq thread) cell
  exact sound.stays inside (Moves.flush sound thread (.enqCell thread)) rfl rfl rfl (by rw [here]; rfl)
    ⟨empty, agreesDeq.kept (KeptAt.writeBack _ _ _ _)⟩

theorem Sound.stepRecoverDeq (sound : Sound threadNum state queue) (inside : thread < threadNum)
    (here : state.threads thread = .recoverDeq)
    (step : state.stepThread threadNum thread = some after) :
    Goes threadNum state after queue 0 0 := by
  have fits := sound.fits thread
  rw [here] at fits
  simp only [State.stepThread, here] at step
  split at step
  · next deqNode cell =>
    cases step
    exact sound.goto inside (by rw [here]; rfl) ⟨fits.1, fits.2, cell⟩
  · next cell =>
    cases step
    exact sound.goto inside (by rw [here]; rfl) ⟨fits.1, fits.2.empty cell⟩

theorem Sound.stepDoRecoverDeq (sound : Sound threadNum state queue) (inside : thread < threadNum)
    {deqNode : Nat} (here : state.threads thread = .doRecoverDeq deqNode)
    (step : state.stepThread threadNum thread = some after) :
    Goes threadNum state after queue 0 0 := by
  have fits := sound.fits thread
  rw [here] at fits
  obtain ⟨empty, agrees, cell⟩ := fits
  simp only [State.stepThread, here] at step
  split at step
  · cases step
    exact sound.goto inside (by rw [here]; rfl) ⟨empty, cell, agrees⟩
  · next notBusy =>
    cases step
    exact sound.goto inside (by rw [here]; rfl) ⟨empty, agrees.quiet cell notBusy⟩

/-- One more thread has recovered: nothing is in its cells. -/
theorem Sound.stepRecovered (sound : Sound threadNum state queue) (inside : thread < threadNum)
    (here : state.threads thread = .recovered)
    (step : state.stepThread threadNum thread = some after) :
    Goes threadNum state after queue 0 0 := by
  have fits := sound.fits thread
  rw [here] at fits
  obtain ⟨emptyEnq, emptyDeq⟩ := fits
  simp only [State.stepThread, here] at step
  cases step
  have notOwn : ∀ cell node, In state.current state.persisted cell node → cell.thread ≠ thread := by
    rintro cell node place rfl
    cases cell with
    | enq other =>
      rcases place with there | there
      · cases emptyEnq.1.symm.trans there
      · cases emptyEnq.2.symm.trans there
    | deq other =>
      rcases place with there | there
      · cases emptyDeq.1.symm.trans there
      · cases emptyDeq.2.symm.trans there
  refine ⟨queue, ?_, .inl rfl, rfl, rfl⟩
  exact
    { consistent := sound.consistent
      shape := sound.shape
      tail := sound.tail
      used := sound.used
      known := fun cell node place => by
        rw [State.goto_threads, Function.update_of_ne (notOwn cell node place)]
        exact sound.known cell node place
      owner := sound.owner
      fits := fun other => by
        rw [State.goto_threads]
        by_cases same : other = thread
        · rw [same, Function.update_self]
          exact ⟨emptyEnq, .of_empty emptyDeq⟩
        · rw [Function.update_of_ne same]
          exact sound.fits other
      working := fun other below working => by
        rw [State.goto_threads] at working
        by_cases same : other = thread
        · rw [same, Function.update_self] at working
          cases working
        · rw [Function.update_of_ne same] at working
          exact Nat.le_succ_of_le (sound.working other below working)
      counted := by
        have more : State.recoveredThreads threadNum
            ({ state with recoverNum := state.recoverNum + 1 }.goto thread .barrier) =
            insert thread (state.recoveredThreads threadNum) := by
          ext other
          rw [Finset.mem_insert, mem_recoveredThreads, mem_recoveredThreads, State.goto_threads]
          by_cases same : other = thread
          · subst same
            rw [Function.update_self]
            exact ⟨fun _ => .inl rfl, fun _ => ⟨inside, nofun⟩⟩
          · rw [Function.update_of_ne same]
            exact ⟨.inr, fun member => member.resolve_left same⟩
        have new : thread ∉ state.recoveredThreads threadNum := by
          intro member
          have phase := (mem_recoveredThreads.1 member).2
          rw [here] at phase
          exact phase rfl
        rw [more, Finset.card_insert_of_notMem new, sound.counted]
        rfl }

theorem Sound.stepBarrier (sound : Sound threadNum state queue) (inside : thread < threadNum)
    (here : state.threads thread = .barrier)
    (step : state.stepThread threadNum thread = some after) :
    Goes threadNum state after queue 0 0 := by
  have fits := sound.fits thread
  rw [here] at fits
  simp only [State.stepThread, here] at step
  split at step
  · cases step
    exact ⟨queue, sound, .inl rfl, rfl, rfl⟩
  · next enough =>
    cases step
    refine ⟨queue, ?_, .inl rfl, rfl, rfl⟩
    refine sound.act inside (.keep sound thread) rfl rfl rfl fits ?_ fun _ => Nat.le_of_not_lt enough
    rw [here]
    exact ⟨nofun, nofun⟩

/-! ### `enqueue()` before `enq()` -/

/-- The node in the cell of a thread that has recovered has been taken from a free list. -/
theorem Sound.known_of_working (sound : Sound threadNum state queue) {cell : Cell} {node : Nat}
    (place : In state.current state.persisted cell node)
    (phase : (state.threads cell.thread).phase ≠ .recovering) : node ∈ state.used :=
  (sound.known cell node place).resolve_right phase

theorem Sound.stepPrepare (sound : Sound threadNum state queue) (inside : thread < threadNum)
    {stage : PrepareStage} {newNode pData : Nat}
    (here : state.threads thread = .prepare stage newNode pData)
    (step : state.stepThread threadNum thread = some after) :
    Goes threadNum state after queue 0 0 := by
  have fits := sound.fits thread
  rw [here] at fits
  obtain ⟨done, cell, stageFits⟩ := fits
  have known : newNode ∈ state.used := by
    refine sound.known_of_working (.inl cell) ?_
    show (state.threads thread).phase ≠ .recovering
    rw [here]
    exact nofun
  have apart : Cell.deq thread ≠ .enq thread := nofun
  simp only [State.stepThread, here] at step
  cases step
  cases stage with
  | flushCell =>
    have line : lineOf (Cell.enq thread).address ∈ [Line.enqCell thread] := List.mem_singleton.2 rfl
    exact sound.stays inside (Moves.flush sound thread (.enqCell thread)) rfl rfl rfl (by rw [here]; rfl)
      ⟨done.kept (KeptAt.writeBack _ _ _ _), cell, Quiet.kept (KeptAt.writeBack _ _ _ _) stageFits,
        (Image.writeBack_of_mem line).trans cell⟩
  | storeNext =>
    obtain ⟨quiet, persisted⟩ := stageFits
    have kept : ∀ other : Cell, (state.current.write (.next newNode) none).cell other =
        state.current.cell other := fun other => Memory.write_of_ne _ (other.address_ne_next newNode).symm _
    exact sound.stays inside (Moves.storeNext sound cell) rfl rfl rfl (by rw [here]; rfl)
      ⟨done.kept (KeptAt.storeNext sound.consistent cell apart), (kept (.enq thread)).trans cell,
        fun node place => quiet node (place.imp (kept (.enq thread)).symm.trans id), persisted,
        state.current.memory.write_self (.next newNode) none⟩
  | storeData =>
    obtain ⟨quiet, persisted, next⟩ := stageFits
    obtain ⟨notBusy, notPersisted⟩ := quiet newNode (.inl cell)
    let fields := { state.current.nodes newNode with pData := pData }
    have stores : Stores state.current state.persisted (.enq thread) newNode (fields.isBusy = 1) :=
      ⟨cell, fun busy => absurd busy notBusy, fun _ => next,
        fun _ _ busy => absurd busy notPersisted, nofun⟩
    have moves := Moves.setNode sound (.enq thread) newNode fields stores fun _ => known
    exact sound.stays inside moves rfl rfl rfl (by rw [here]; rfl)
      ⟨done.kept (KeptAt.setNode sound.consistent cell _ apart), cell, quiet.setNode newNode notBusy,
        persisted, next⟩
  | storeBusy =>
    obtain ⟨quiet, persisted, next⟩ := stageFits
    let fields := { state.current.nodes newNode with isBusy := 1 }
    have stores : Stores state.current state.persisted (.enq thread) newNode (fields.isBusy = 1) :=
      ⟨cell, fun _ => persisted, fun _ => next, fun _ _ _ => rfl, nofun⟩
    have moves := Moves.setNode sound (.enq thread) newNode fields stores fun _ => known
    exact sound.stays inside moves rfl rfl rfl (by rw [here]; rfl)
      ⟨done.kept (KeptAt.setNode sound.consistent cell _ apart), cell,
        (state.current.setNode_busy_self newNode _).2 rfl, persisted⟩
  | flushNode =>
    obtain ⟨busy, persisted⟩ := stageFits
    exact sound.stays inside (Moves.flush sound thread (.node newNode)) rfl rfl rfl (by rw [here]; rfl)
      ⟨done.kept (KeptAt.writeBack _ _ _ _), newNode, cell, busy,
        (Image.writeBack_busy_of_mem (List.mem_singleton.2 rfl)).2 busy⟩

theorem Sound.stepLoadEnqCell (sound : Sound threadNum state queue) (inside : thread < threadNum)
    {caller : Caller} (here : state.threads thread = .loadEnqCell caller)
    (step : state.stepThread threadNum thread = some after) :
    Goes threadNum state after queue 0 0 := by
  have fits := sound.fits thread
  rw [here] at fits
  obtain ⟨callerFits, newNode, ready⟩ := fits
  simp only [State.stepThread, here, Option.map_eq_some_iff] at step
  obtain ⟨loaded, cell, rfl⟩ := step
  obtain rfl := Option.some.inj (cell.symm.trans ready.1)
  exact sound.goto inside (by rw [here]; rfl)
    ⟨callerFits, trivial, trivial, fun _ => ready, fun linked => absurd trivial linked⟩

/-! ### `dequeue()` after `deq()` -/

theorem Sound.stepLoadResult (sound : Sound threadNum state queue) (inside : thread < threadNum)
    (here : state.threads thread = .loadResult)
    (step : state.stepThread threadNum thread = some after) :
    Goes threadNum state after queue 0 0 := by
  have fits := sound.fits thread
  rw [here] at fits
  simp only [State.stepThread, here] at step
  split at step
  · next deqNode cell =>
    cases step
    exact sound.goto inside (by rw [here]; rfl) ⟨fits.1, cell, fits.2⟩
  · next cell =>
    cases step
    exact sound.goto inside (by rw [here]; rfl) ⟨fits.1, .of_empty (fits.2.empty cell)⟩

/-- `cleanDeqNode()` returns. -/
theorem Sound.returnClean (sound : Sound threadNum state queue) (inside : thread < threadNum)
    (middle : State) (moves : Moves state queue thread middle.current middle.persisted queue)
    (threads : middle.threads = state.threads) (used : middle.used = state.used)
    (recoverNum : middle.recoverNum = state.recoverNum) {purpose : Purpose}
    (phase : (state.threads thread).phase = purpose.phase)
    (empty : Empty middle.current middle.persisted (.enq thread))
    (agrees : Agrees middle.current middle.persisted (.deq thread))
    (quiet : Quiet middle.current middle.persisted (.deq thread)) :
    Goes threadNum state (middle.returnClean thread purpose) queue 0 0 := by
  cases purpose with
  | dequeue =>
    have idle : (middle.returnDeq thread).threads = Function.update state.threads thread .idle := by
      rw [← threads]
      rfl
    exact sound.stays inside moves idle used recoverNum phase.symm ⟨empty, agrees, quiet⟩
  | recover =>
    have clears : (middle.goto thread .clearDeqCell).threads =
        Function.update state.threads thread .clearDeqCell := by
      rw [State.goto_threads, threads]
    exact sound.stays inside moves clears used recoverNum phase.symm ⟨empty, quiet⟩

theorem Sound.stepClean (sound : Sound threadNum state queue) (inside : thread < threadNum)
    {purpose : Purpose} {stage : CleanStage} {deqNode : Nat}
    (here : state.threads thread = .clean purpose stage deqNode)
    (step : state.stepThread threadNum thread = some after) :
    Goes threadNum state after queue 0 0 := by
  have fits := sound.fits thread
  rw [here] at fits
  obtain ⟨empty, cell, stageFits⟩ := fits
  have apart : Cell.enq thread ≠ .deq thread := nofun
  have phase : (state.threads thread).phase = purpose.phase := by
    rw [here]
    rfl
  simp only [State.stepThread, here] at step
  cases step
  cases stage with
  | check =>
    simp only [State.stepClean]
    split
    · next free =>
      have notBusy : ¬ state.current.Busy deqNode := by
        intro busy
        rw [Image.Busy, free] at busy
        cases busy
      exact sound.returnClean inside state (.keep sound thread) rfl rfl rfl phase empty stageFits
        (Agrees.quiet stageFits cell notBusy)
    · exact sound.goto inside phase.symm ⟨empty, cell, stageFits⟩
  | storeBusy =>
    let fields := { state.current.nodes deqNode with isBusy := 0 }
    have notSet : fields.isBusy ≠ 1 := Nat.zero_ne_one
    have stores : Stores state.current state.persisted (.deq thread) deqNode (fields.isBusy = 1) :=
      ⟨cell, fun set => absurd set notSet, fun set => absurd set notSet, nofun,
        fun _ _ set => absurd set notSet⟩
    have moves := Moves.setNode sound (.deq thread) deqNode fields stores fun set => absurd set notSet
    refine sound.stays inside moves rfl rfl rfl phase.symm
      ⟨empty.kept (KeptAt.setNode sound.consistent cell _ apart), cell, stageFits.1.symm.trans cell,
        fun busy => ?_⟩
    exact notSet ((state.current.setNode_busy_self deqNode fields).1 busy)
  | storeData =>
    obtain ⟨persisted, notBusy⟩ := stageFits
    let fields := { state.current.nodes deqNode with pData := 0 }
    have stores : Stores state.current state.persisted (.deq thread) deqNode (fields.isBusy = 1) :=
      ⟨cell, fun busy => absurd busy notBusy, fun busy => absurd busy notBusy, nofun,
        fun _ _ busy => absurd busy notBusy⟩
    have moves := Moves.setNode sound (.deq thread) deqNode fields stores fun set => absurd set notBusy
    exact sound.stays inside moves rfl rfl rfl phase.symm
      ⟨empty.kept (KeptAt.setNode sound.consistent cell _ apart), cell, persisted,
        fun busy => notBusy ((state.current.setNode_busy_self deqNode fields).1 busy)⟩
  | flushNode =>
    obtain ⟨persisted, notBusy⟩ := stageFits
    have kept := KeptAt.writeBack state.current state.persisted [.node deqNode] (.deq thread)
    have sameCell := kept.persisted_some cell persisted
    have flushed : Quiet state.current (state.flush (.node deqNode)).persisted (.deq thread) := by
      intro node place
      have same : node = deqNode := by
        rcases In.of_writeBack place with there | there
        · exact Option.some.inj (there.symm.trans cell)
        · exact Option.some.inj (there.symm.trans persisted)
      rw [same]
      exact ⟨notBusy, fun busy =>
        notBusy ((Image.writeBack_busy_of_mem (List.mem_singleton.2 rfl)).1 busy)⟩
    refine sound.returnClean inside (state.flush (.node deqNode))
      (Moves.flush sound thread (.node deqNode)) rfl rfl rfl phase
      (empty.kept (KeptAt.writeBack _ _ _ _)) ⟨cell.trans sameCell.symm, fun node place => ?_⟩ flushed
    obtain ⟨free, freePersisted⟩ := flushed node (.inl place)
    exact ⟨fun busy => absurd busy free, fun busy => absurd busy freePersisted⟩

theorem Sound.stepClearDeqCell (sound : Sound threadNum state queue) (inside : thread < threadNum)
    (here : state.threads thread = .clearDeqCell)
    (step : state.stepThread threadNum thread = some after) :
    Goes threadNum state after queue 0 0 := by
  have fits := sound.fits thread
  rw [here] at fits
  simp only [State.stepThread, here] at step
  cases step
  have apart : Cell.enq thread ≠ .deq thread := nofun
  exact sound.stays inside (Moves.clearCell sound fits.2) rfl rfl rfl (by rw [here]; rfl)
    ⟨fits.1.kept (KeptAt.storeCell apart none), fits.2.clear,
      state.current.write_cell_self (.deq thread) none⟩

theorem Sound.stepFlushDeqCell (sound : Sound threadNum state queue) (inside : thread < threadNum)
    (here : state.threads thread = .flushDeqCell)
    (step : state.stepThread threadNum thread = some after) :
    Goes threadNum state after queue 0 0 := by
  have fits := sound.fits thread
  rw [here] at fits
  obtain ⟨empty, -, cell⟩ := fits
  have emptyDeq := Empty.flush (.deq thread) cell
  have emptyEnq : Empty state.current (state.flush (.deqCell thread)).persisted (.enq thread) :=
    empty.kept (KeptAt.writeBack _ _ _ _)
  simp only [State.stepThread, here] at step
  cases step
  exact sound.stays inside (Moves.flush sound thread (.deqCell thread)) rfl rfl rfl (by rw [here]; rfl)
    ⟨emptyEnq, emptyDeq⟩

end Steps

end Pmwcas.MSQueueTest
