/-
This file proves what the benchmark queue is for: in every run, with crashes at any point, the queue
in NVM is one in which a thread announces a node, links it, takes one and releases it, one step at a
time. A crash changes nothing of it, and `recover()` goes on where the threads were. In these runs no
node is taken from a free list twice between two restarts.
-/

import Mathlib.Algebra.BigOperators.Group.Finset.Basic
import Pmwcas.MSQueueTestQueue

namespace Pmwcas.MSQueueTest

open Transition MSQueueByPMWCas LinkedList

/-! ### The start and a crash -/

variable {threadNum sentinel : Nat} {state after : State} {queue : Queue Nat}

theorem start_cell (sentinel : Nat) (cell : Cell) : (Image.start sentinel).cell cell = none := by
  cases cell with
  | enq | deq => rfl

theorem start_busy {sentinel node : Nat} : (Image.start sentinel).Busy node ↔ node = sentinel := by
  unfold Image.Busy Image.start
  by_cases same : node = sentinel
  · simp [same]
  · simp [same]

theorem start_live {sentinel node : Nat} : Live ⟨[sentinel], 0, 0⟩ node ↔ node = sentinel := by
  constructor
  · intro live
    exact List.mem_singleton.1 live.mem
  · rintro rfl
    exact ⟨0, Nat.le_refl _, rfl⟩

theorem start_not_in (sentinel : Nat) (cell : Cell) (node : Nat) :
    ¬ In (Image.start sentinel) (Image.start sentinel) cell node := by
  rintro (here | here)
  · rw [start_cell] at here
    cases here
  · rw [start_cell] at here
    cases here

theorem Sound.start (threadNum sentinel : Nat) :
    Sound threadNum (.start threadNum sentinel) ⟨[sentinel], 0, 0⟩ := by
  have shape := (MSQueueByPMWCas.Sound.start sentinel).shape
  have notIn := start_not_in sentinel
  have empty : ∀ cell, Empty (Image.start sentinel) (Image.start sentinel) cell :=
    fun cell => ⟨start_cell sentinel cell, start_cell sentinel cell⟩
  exact
    { consistent :=
        { linked := shape.linked
          linkedPersisted := shape.linked
          head := rfl
          headPersisted := rfl
          busy := fun node live => by
            rw [start_live] at live
            exact ⟨start_busy.2 live, start_busy.2 live⟩
          held := fun node busy => .inl (start_live.2 (start_busy.1 (busy.elim id id)))
          alone := fun thread node here => absurd here (notIn _ _)
          cells := fun one two node here => absurd here (notIn _ _)
          notLive := fun cell node here => absurd here (notIn _ _)
          notLinked := fun thread node here => absurd here (notIn _ _)
          announced := fun thread node here => absurd here (notIn _ _)
          taken := fun thread node here => absurd here (notIn _ _) }
      shape := shape
      tail := rfl
      used := fun node place => by
        show node ∈ [sentinel]
        rcases place with member | busy | busy
        · exact member
        · exact List.mem_singleton.2 (start_busy.1 busy)
        · exact List.mem_singleton.2 (start_busy.1 busy)
      known := fun cell node here => absurd here (notIn _ _)
      owner := fun cell node here => absurd here (notIn _ _)
      fits := fun thread => ⟨empty _, .of_empty (empty _)⟩
      working := fun _ _ _ => Nat.le_refl threadNum
      counted := by
        have all : (State.start threadNum sentinel).recoveredThreads threadNum =
            Finset.range threadNum := by
          ext thread
          rw [mem_recoveredThreads, Finset.mem_range]
          exact ⟨fun member => member.1, fun inside => ⟨inside, nofun⟩⟩
        rw [all, Finset.card_range]
        rfl }

theorem live_restart {node : Nat} : Live queue.restart node ↔ Live queue node := by
  unfold Live Queue.restart
  constructor
  · rintro ⟨index, -, here⟩
    rw [List.getElem?_drop] at here
    exact ⟨queue.head + index, Nat.le_add_right _ _, here⟩
  · rintro ⟨index, later, here⟩
    refine ⟨index - queue.head, Nat.zero_le _, ?_⟩
    rw [List.getElem?_drop, Nat.add_sub_cancel' later]
    exact here

/-- A crash leaves the queue in NVM as it is, and the threads start again. -/
theorem Sound.crash (sound : Sound threadNum state queue) :
    Sound threadNum state.crash queue.restart ∧
      state.crash.persisted.queue queue.restart = state.persisted.queue queue := by
  have consistent := sound.consistent
  have held : queue.Held state.persisted.nextOf (state.persisted.memory .head)
      (state.persisted.memory .tail) :=
    { sound.shape with
      linked := consistent.linkedPersisted
      head := consistent.headPersisted
      tail := sound.tail.trans sound.shape.tail }
  have restart := held.restart
  have inside : ∀ {cell node}, In state.persisted state.persisted cell node →
      In state.current state.persisted cell node := fun here => .inr (here.elim id id)
  have kept : ∀ node, state.persisted.Busy node → node ∈ state.crash.used := by
    intro node busy
    refine List.mem_filter.2 ⟨sound.used node (.inr (.inr busy)), ?_⟩
    exact decide_eq_true busy
  refine ⟨?_, ?_⟩
  · exact
      { consistent :=
          { linked := restart.linked
            linkedPersisted := restart.linked
            head := restart.head
            headPersisted := restart.head
            busy := fun node live => by
              have busy := (consistent.busy node (live_restart.1 live)).2
              exact ⟨busy, busy⟩
            held := fun node busy => by
              rcases consistent.held node (.inr (busy.elim id id)) with live | ⟨cell, -, here⟩
              · exact .inl (live_restart.2 live)
              · exact .inr ⟨cell, here, here⟩
            alone := fun thread node here => by
              have alone := (consistent.alone thread node (inside here)).2
              exact ⟨alone, alone⟩
            cells := fun one two node first second =>
              consistent.cells one two node (inside first) (inside second)
            notLive := fun cell node here live =>
              consistent.notLive cell node (inside here) (live_restart.1 live)
            notLinked := fun thread node here member =>
              consistent.notLinked thread node (inside here) (List.mem_of_mem_drop member)
            announced := fun _ _ _ busy => busy
            taken := fun _ _ _ busy => busy }
        shape := restart
        tail := rfl
        used := fun node place => by
          rcases place with member | busy | busy
          · obtain ⟨index, here⟩ := List.mem_iff_getElem?.1 member
            have live : Live queue.restart node := ⟨index, Nat.zero_le _, here⟩
            exact kept node (consistent.busy node (live_restart.1 live)).2
          · exact kept node busy
          · exact kept node busy
        known := fun _ _ _ => .inr rfl
        owner := fun cell node here => sound.owner cell node (inside here)
        fits := fun thread => ⟨⟨rfl, fun _ _ => Iff.rfl⟩, rfl, fun _ _ => Iff.rfl⟩
        working := nofun
        counted := by
          refine Finset.card_eq_zero.2 (Finset.eq_empty_iff_forall_notMem.2 fun thread member => ?_)
          exact (mem_recoveredThreads.1 member).2 rfl }
  · rfl

/-! ### Runs -/

/-- What `NotReused` excludes: the cell of thread 0 still has the sentinel when thread 1 links it again,
and there is a crash. `recover()` of thread 0 then frees it although it is linked. -/
example : (replay (State.next 2)
    ([.enqueue 0 1 7] ++ List.replicate 9 (.step 0) ++ [.dequeue 0] ++ List.replicate 11 (.step 0) ++
      [.enqueue 1 0 8] ++ List.replicate 9 (.step 1) ++ [.crash] ++ List.replicate 7 (.step 0))
    (.start 2 0)).any (fun state => state.persisted.memory (.next 1) = some 0 ∧
      (state.persisted.nodes 0).isBusy = 0) = true := by
  decide +kernel

/-- Every step keeps the invariant, and a crash leaves the queue in NVM as it is. -/
theorem Sound.next (sound : Sound threadNum state queue) {action : Action}
    (fresh : NotReused state action)
    (step : state.next threadNum action = some after) :
    ∃ queue', Sound threadNum after queue' ∧
      Evolves (state.persisted.queue queue) (after.persisted.queue queue') ∧
      (action = .crash → after.persisted.queue queue' = state.persisted.queue queue) := by
  have other : action ≠ .crash → ∀ {linked taken}, Goes threadNum state after queue linked taken →
      ∃ queue', Sound threadNum after queue' ∧
        Evolves (state.persisted.queue queue) (after.persisted.queue queue') ∧
        (action = .crash → after.persisted.queue queue' = state.persisted.queue queue) := by
    rintro notCrash linked taken ⟨queue', holds, evolves, -, -⟩
    exact ⟨queue', holds, evolves, fun crash => absurd crash notCrash⟩
  cases action with
  | enqueue thread node pData => exact other (by simp) (sound.enqueue fresh step)
  | dequeue thread => exact other (by simp) (sound.dequeue step)
  | step thread =>
    simp only [State.next] at step
    split at step
    · next inside => exact other (by simp) (sound.stepThread inside step)
    · cases step
  | writeBack line =>
    cases step
    exact other (by simp) (sound.writeBack line)
  | crash =>
    cases step
    obtain ⟨holds, same⟩ := sound.crash
    exact ⟨queue.restart, holds, .inl same, fun _ => same⟩

/-- The image holds this queue: the list from `*phead_` on, the busy nodes in the cells, and no other
busy node. -/
structure Represents (image : Image) (abstract : AnnouncedQueue Nat Nat) : Prop where
  head : image.memory .head = abstract.contents.head?
  linked : Linked (fun node => image.memory (.next node)) abstract.contents
  announced : ∀ thread node, abstract.announced thread = some node ↔
    image.memory (.enqCell thread) = some node ∧ (image.nodes node).isBusy = 1
  taken : ∀ thread node, abstract.taken thread = some node ↔
    image.memory (.deqCell thread) = some node ∧ (image.nodes node).isBusy = 1
  busy : ∀ node, (image.nodes node).isBusy = 1 ↔ abstract.Busy node

theorem Sound.represents (sound : Sound threadNum state queue) :
    Represents state.persisted (state.persisted.queue queue) where
  head := by
    rw [sound.consistent.headPersisted, ← List.head?_drop]
    rfl
  linked := sound.consistent.linkedPersisted.drop queue.head
  announced thread node := Image.hand_eq_some
  taken thread node := Image.hand_eq_some
  busy node := by
    constructor
    · intro busy
      rcases sound.consistent.held node (.inr busy) with live | ⟨cell, -, here⟩
      · exact .inl (mem_contents.2 live)
      · cases cell with
        | enq thread => exact .inr ⟨thread, .inl (Image.hand_eq_some.2 ⟨here, busy⟩)⟩
        | deq thread => exact .inr ⟨thread, .inr (Image.hand_eq_some.2 ⟨here, busy⟩)⟩
    · rintro (member | ⟨thread, held | held⟩)
      · exact (sound.consistent.busy node (mem_contents.1 member)).2
      · exact (Image.hand_eq_some.1 held).2
      · exact (Image.hand_eq_some.1 held).2

/-- The threads see the same list as there is in NVM. -/
theorem Sound.contents (sound : Sound threadNum state queue) :
    state.current.memory .head = (state.persisted.queue queue).contents.head? ∧
      Linked (fun node => state.current.memory (.next node)) (state.persisted.queue queue).contents := by
  refine ⟨?_, sound.consistent.linked.drop queue.head⟩
  rw [sound.consistent.head, ← List.head?_drop]
  rfl

/-- A thread between its calls has nothing in its hands. -/
theorem Sound.idle (sound : Sound threadNum state queue) {thread : Nat}
    (idle : state.threads thread = .idle) :
    (state.persisted.queue queue).announced thread = none ∧
      (state.persisted.queue queue).taken thread = none := by
  have fits := sound.fits thread
  rw [idle] at fits
  obtain ⟨empty, done⟩ := fits
  refine ⟨?_, ?_⟩
  · show Option.filter _ (state.persisted.cell (.enq thread)) = none
    rw [empty.2]
    rfl
  · rw [Option.eq_none_iff_forall_ne_some]
    intro node held
    obtain ⟨here, busy⟩ := Image.hand_eq_some.1 held
    exact (done.quiet node (.inr here)).2 busy

/-- The queue in NVM that a state of a run holds, and what the threads see of it. -/
structure Holds (threadNum : Nat) (state : State) (abstract : AnnouncedQueue Nat Nat) : Prop where
  represents : Represents state.persisted abstract
  head : state.current.memory .head = abstract.contents.head?
  linked : Linked (fun node => state.current.memory (.next node)) abstract.contents
  apart : abstract.Apart
  idle : ∀ thread, state.threads thread = .idle →
    abstract.announced thread = none ∧ abstract.taken thread = none

/-- In every run of the queue, with crashes at any point, the queue in NVM moves by announcing,
linking, taking and releasing a node, and a crash leaves it as it is. -/
theorem exists_announcedQueue_of_run (threadNum sentinel : Nat)
    (run : Run (system threadNum sentinel)) (fresh : run.Meets NotReused) :
    ∃ abstract : Nat → AnnouncedQueue Nat Nat,
      abstract 0 = ⟨[sentinel], fun _ => none, fun _ => none⟩ ∧
      (∀ index ≤ run.length, Holds threadNum (run.state index) (abstract index)) ∧
      ∀ index < run.length,
        (abstract (index + 1) = abstract index ∨
          ∃ thread, (abstract index).Step thread (abstract (index + 1))) ∧
        (run.action index = .crash → abstract (index + 1) = abstract index) := by
  have starts : run.state 0 = .start threadNum sentinel := run.starts
  obtain ⟨abstract, first, related, moves⟩ := run.exists_simulation fresh
    (fun state abstract => ∃ queue, Sound threadNum state queue ∧
      abstract = state.persisted.queue queue)
    (fun _ action _ before after => Evolves before after ∧ (action = .crash → after = before))
    ⟨_, starts ▸ Sound.start threadNum sentinel, rfl⟩
    (fun before action after abstract related allowed step => by
      obtain ⟨queue, sound, rfl⟩ := related
      obtain ⟨queue', holds, evolves, crash⟩ := sound.next allowed step
      exact ⟨_, ⟨queue', holds, rfl⟩, evolves, crash⟩)
  have startQueue : abstract 0 = ⟨[sentinel], fun _ => none, fun _ => none⟩ := by
    rw [first, starts]
    have nothing : ∀ cell, (State.start threadNum sentinel).persisted.hand cell = none := by
      intro cell
      unfold Image.hand
      rw [show (State.start threadNum sentinel).persisted.cell cell = none from start_cell sentinel cell]
      rfl
    simp only [Image.queue, nothing]
    rfl
  have apart : ∀ index ≤ run.length, (abstract index).Apart := by
    intro index inside
    induction index with
    | zero =>
      rw [startQueue]
      exact AnnouncedQueue.Apart.start sentinel
    | succ index inductionHypothesis =>
      have before := inductionHypothesis (Nat.le_of_lt inside)
      rcases (moves index inside).1 with same | ⟨thread, step⟩
      · rw [same]
        exact before
      · exact before.step step
  refine ⟨abstract, startQueue, fun index inside => ?_, moves⟩
  obtain ⟨queue, sound, same⟩ := related index inside
  have apart := apart index inside
  rw [same] at apart ⊢
  exact ⟨sound.represents, sound.contents.1, sound.contents.2, apart, fun thread idle => sound.idle idle⟩

/-- A list of steps that can all be taken without taking a node twice is a run. -/
theorem exists_run_of_actions (threadNum sentinel : Nat) (actions : List Action)
    (performed : (replay (State.next threadNum) actions (.start threadNum sentinel)).isSome)
    (fresh : replayTests (State.next threadNum) (fun state action => NotReused state action)
      actions (.start threadNum sentinel) = true) :
    ∃ run : Run (system threadNum sentinel), run.length = actions.length ∧
      run.Meets NotReused ∧
      (∀ index, replay (State.next threadNum) (actions.take index) (.start threadNum sentinel) =
        some (run.state index)) ∧
      ∀ index, run.action index = actions.getD index default := by
  obtain ⟨run, length, states, labels⟩ := exists_run_of_next
    (fun state => state = .start threadNum sentinel) (State.next threadNum) rfl actions performed
  refine ⟨run, length, fun index inside => ?_, states, labels⟩
  rw [labels]
  exact of_decide_eq_true (test_of_replayTests _ fresh (length ▸ inside) (states index))

/-- The crash comes when thread 0 is about to link its node. Both threads recover, where thread 0 links
the node, and then thread 1 takes the sentinel. -/
def crashBeforeLink : List Action :=
  [.enqueue 0 1 7] ++ List.replicate 5 (.step 0) ++ [.crash] ++ List.replicate 9 (.step 0) ++
    List.replicate 4 (.step 1) ++ [.step 0, .dequeue 1] ++ List.replicate 11 (.step 1)

theorem exists_announcedQueue_of_run_crashBeforeLink : ∃ run : Run (system 2 0),
    ∃ abstract : Nat → AnnouncedQueue Nat Nat, run.action 6 = .crash ∧ abstract 7 = abstract 6 ∧
      (abstract 7).contents.head? = some 0 ∧ (abstract 33).contents.head? = some 1 ∧
      Holds 2 (run.state 33) (abstract 33) := by
  obtain ⟨run, length, fresh, states, actions⟩ :=
    exists_run_of_actions 2 0 crashBeforeLink (by decide +kernel) (by decide +kernel)
  obtain ⟨abstract, -, holds, moves⟩ := exists_announcedQueue_of_run 2 0 run fresh
  have inside : ∀ index ≤ 33, index ≤ run.length := fun index below => length ▸ below
  have before := satisfies_of_replay (fun state => state.current.memory .head = some 0) (states 7)
    (by decide +kernel)
  have after := satisfies_of_replay (fun state => state.current.memory .head = some 1) (states 33)
    (by decide +kernel)
  have crash : run.action 6 = .crash := actions 6
  exact ⟨run, abstract, crash, (moves 6 (inside 7 (by decide))).2 crash,
    (holds 7 (inside 7 (by decide))).head.symm.trans before,
    (holds 33 (inside 33 (by decide))).head.symm.trans after, holds 33 (inside 33 (by decide))⟩

theorem idle_two {state : State} (idle : state.threads 0 = .idle ∧ state.threads 1 = .idle) :
    ∀ thread < 2, state.threads thread = .idle := by
  intro thread below
  have either : thread = 0 ∨ thread = 1 := by omega
  rcases either with rfl | rfl
  · exact idle.1
  · exact idle.2

/-- The invariant holds in every state of a run. -/
theorem exists_sound_of_run (threadNum sentinel : Nat)
    (run : Run (system threadNum sentinel)) (fresh : run.Meets NotReused) (index : Nat)
    (inside : index ≤ run.length) : ∃ queue, Sound threadNum (run.state index) queue := by
  induction index with
  | zero =>
    have starts : run.state 0 = .start threadNum sentinel := run.starts
    rw [starts]
    exact ⟨_, .start threadNum sentinel⟩
  | succ index inductionHypothesis =>
    obtain ⟨queue, sound⟩ := inductionHypothesis (Nat.le_of_lt inside)
    obtain ⟨queue', sound', -⟩ := sound.next (fresh index inside) (run.steps index inside)
    exact ⟨queue', sound'⟩

/-! ### No check fails -/

theorem Sound.tail_points (sound : Sound threadNum state queue) :
    ∃ last, state.current.memory .tail = some last := by
  rw [sound.shape.tail]
  exact ⟨_, List.getElem?_eq_getElem sound.shape.tail_lt⟩

theorem Sound.head_points (sound : Sound threadNum state queue) :
    ∃ first, state.current.memory .head = some first := by
  rw [sound.shape.head]
  exact ⟨_, List.getElem?_eq_getElem (Nat.lt_of_le_of_lt sound.shape.head_le sound.shape.tail_lt)⟩

theorem stepEnq_isSome {variant : Variant} {memory : Memory} (points : ∃ last, memory .tail = some last)
    (cell : Address) (newNode : Nat) (pc : EnqPc) : (stepEnq variant memory cell newNode pc).isSome := by
  obtain ⟨last, points⟩ := points
  cases pc with
  | loadTail =>
    rw [stepEnq, points]
    rfl
  | recheckTail | mwcas | dcas =>
    simp only [stepEnq]
    split
    · rfl
    · rfl
  | loadNext | exchangeTail | exchangeBehind => rfl
  | checkTail last next =>
    simp only [stepEnq]
    split
    · cases next with
      | none | some => rfl
    · rfl

theorem stepDeq_isSome {variant : Variant} {memory : Memory} (head : ∃ first, memory .head = some first)
    (tail : ∃ last, memory .tail = some last) (cell : Address) (pc : DeqPc) :
    (stepDeq variant memory cell pc).isSome := by
  obtain ⟨first, head⟩ := head
  obtain ⟨last, tail⟩ := tail
  cases pc with
  | loadHead =>
    rw [stepDeq, head]
    rfl
  | loadTail =>
    rw [stepDeq, tail]
    rfl
  | loadNext | loadCell | exchangeTail | flushCell => rfl
  | checkHead first last firstNext =>
    simp only [stepDeq]
    split
    · split
      · cases firstNext with
        | none | some => rfl
      · rfl
    · rfl
  | mwcas | dcas =>
    simp only [stepDeq]
    split
    · rfl
    · rfl

theorem Sound.progress (sound : Sound threadNum state queue) {thread : Nat}
    (called : state.threads thread ≠ .idle) : (state.stepThread threadNum thread).isSome := by
  have fits := sound.fits thread
  cases here : state.threads thread with
  | idle => exact absurd here called
  | restarted =>
    simp only [State.stepThread, here]
    split
    · rfl
    · rfl
  | doRecoverEnq | doRecoverDeq | barrier =>
    simp only [State.stepThread, here]
    split
    · rfl
    · rfl
  | recoverDeq | loadResult =>
    simp only [State.stepThread, here]
    split
    · rfl
    · rfl
  | clearEnqCell | flushEnqCell | recovered | prepare | clean | clearDeqCell | flushDeqCell =>
    simp only [State.stepThread, here]
    rfl
  | loadEnqCell caller =>
    -- this is the check of `enq()`
    rw [here] at fits
    obtain ⟨-, newNode, cell, -⟩ := fits
    have loads : state.current.memory (.enqCell thread) = some newNode := cell
    simp only [State.stepThread, here, loads]
    rfl
  | enq caller newNode pc =>
    simp only [State.stepThread, here, Option.isSome_map]
    exact stepEnq_isSome sound.tail_points _ _ _
  | deq pc =>
    simp only [State.stepThread, here, Option.isSome_map]
    exact stepDeq_isSome sound.head_points sound.tail_points _ _

/-- No `RAW_CHECK` of `enq()` and `recover()` fails and no thread follows `NULL`: in every state of a
run each thread inside a call can go on. -/
theorem exists_step_of_run (threadNum sentinel : Nat)
    (run : Run (system threadNum sentinel)) (fresh : run.Meets NotReused) (index : Nat)
    (inside : index ≤ run.length) (thread : Nat) (below : thread < threadNum)
    (called : (run.state index).threads thread ≠ .idle) :
    ∃ after, (system threadNum sentinel).step (run.state index) (.step thread) after := by
  obtain ⟨queue, sound⟩ := exists_sound_of_run threadNum sentinel run fresh index inside
  obtain ⟨after, step⟩ := Option.isSome_iff_exists.1 (sound.progress called)
  refine ⟨after, ?_⟩
  show State.next threadNum (run.state index) (.step thread) = some after
  simp only [State.next, if_pos below]
  exact step

theorem exists_step_of_run_crashBeforeLink : ∃ run : Run (system 2 0),
    (run.state 8).threads 0 = .doRecoverEnq 1 ∧
      ∃ after, (system 2 0).step (run.state 8) (.step 0) after := by
  obtain ⟨run, length, fresh, states, -⟩ :=
    exists_run_of_actions 2 0 crashBeforeLink (by decide +kernel) (by decide +kernel)
  have called := satisfies_of_replay (fun state => state.threads 0 = .doRecoverEnq 1) (states 8)
    (by decide +kernel)
  refine ⟨run, called, exists_step_of_run 2 0 run fresh 8 ?_ 0 (by decide) ?_⟩
  · rw [length]
    decide
  · rw [called]
    exact nofun

/-! ### Between the calls -/

/-- When no thread is inside a call, the busy nodes are those in the queue. -/
theorem Sound.busy_iff (sound : Sound threadNum state queue)
    (idle : ∀ thread < threadNum, state.threads thread = .idle) (node : Nat) :
    (state.current.Busy node ↔ Live queue node) ∧ (state.persisted.Busy node ↔ Live queue node) := by
  have live : state.current.Busy node ∨ state.persisted.Busy node → Live queue node := by
    intro busy
    rcases sound.consistent.held node busy with live | ⟨cell, here, there⟩
    · exact live
    · have fits := sound.fits cell.thread
      rw [idle _ (sound.owner cell node (.inl here))] at fits
      obtain ⟨empty, done⟩ := fits
      cases cell with
      | enq thread => cases empty.1.symm.trans here
      | deq thread =>
        obtain ⟨notBusy, notPersisted⟩ := done.quiet node (.inl here)
        exact (busy.elim notBusy notPersisted).elim
  have busy := sound.consistent.busy node
  exact ⟨⟨fun here => live (.inl here), fun here => (busy here).1⟩,
    ⟨fun here => live (.inr here), fun here => (busy here).2⟩⟩

/-- The list from `*phead_` on, and the nodes that are busy. -/
structure Settled (image : Image) (contents : List Nat) : Prop where
  head : image.memory .head = contents.head?
  linked : Linked (fun node => image.memory (.next node)) contents
  busy : ∀ node, (image.nodes node).isBusy = 1 ↔ node ∈ contents

/-- No node leaks: whenever no thread is inside a call, however many crashes there were before, the
busy nodes are exactly those in the queue, in both images, and no thread has a node in its cell for
`enq()`. -/
theorem exists_settled_of_run (threadNum sentinel : Nat)
    (run : Run (system threadNum sentinel)) (fresh : run.Meets NotReused) (index : Nat)
    (inside : index ≤ run.length)
    (idle : ∀ thread < threadNum, (run.state index).threads thread = .idle) :
    ∃ contents, Settled (run.state index).current contents ∧
      Settled (run.state index).persisted contents ∧
      ∀ thread, (run.state index).current.memory (.enqCell thread) = none := by
  obtain ⟨queue, sound⟩ := exists_sound_of_run threadNum sentinel run fresh index inside
  have contents := sound.contents
  have represents := sound.represents
  refine ⟨queue.order.drop queue.head, ⟨contents.1, contents.2, fun node => ?_⟩,
    ⟨represents.head, represents.linked, fun node => ?_⟩, fun thread => ?_⟩
  · exact (sound.busy_iff idle node).1.trans mem_drop_head.symm
  · exact (sound.busy_iff idle node).2.trans mem_drop_head.symm
  · rw [Option.eq_none_iff_forall_ne_some]
    intro node here
    have fits := sound.fits thread
    rw [idle thread (sound.owner (.enq thread) node (.inl here))] at fits
    cases fits.1.1.symm.trans here

theorem exists_settled_of_run_crashBeforeLink : ∃ run : Run (system 2 0), ∃ contents,
    contents.head? = some 1 ∧ Settled (run.state 33).current contents ∧
      Settled (run.state 33).persisted contents := by
  obtain ⟨run, length, fresh, states, -⟩ :=
    exists_run_of_actions 2 0 crashBeforeLink (by decide +kernel) (by decide +kernel)
  have idle := satisfies_of_replay (fun state => state.threads 0 = .idle ∧ state.threads 1 = .idle)
    (states 33) (by decide +kernel)
  have head := satisfies_of_replay (fun state => state.current.memory .head = some 1) (states 33)
    (by decide +kernel)
  obtain ⟨contents, current, persisted, -⟩ :=
    exists_settled_of_run 2 0 run fresh 33 (by rw [length]; decide) (idle_two idle)
  exact ⟨run, contents, current.head.symm.trans head, current, persisted⟩

end Pmwcas.MSQueueTest
