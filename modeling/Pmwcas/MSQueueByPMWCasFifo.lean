/-
This file proves that the queues over descriptors are linearizable FIFO queues with exact hand-off. A
run of the machine is simulated by the abstract queue: one step of each `enq()` appends its node and
takes it out of the thread's cell, and one step of a `deq()` moves the head past the first node and
puts that node into the thread's cell. No other step changes the queue or a cell.
-/

import Pmwcas.MSQueueByPMWCasSound

namespace Pmwcas.MSQueueByPMWCas

open Transition LinkedList

variable {variant : Variant} {sentinel : Nat}

/-! ### Events of a run -/

/-- In this step a thread links a node. -/
def Links (run : Run (system variant sentinel)) (thread node index : Nat) : Prop :=
  index < run.length ∧ run.action index = .step thread ∧
    (run.state index).event (.step thread) = some (.link node)

/-- In this step a thread takes a node from the head. -/
def Takes (run : Run (system variant sentinel)) (thread node index : Nat) : Prop :=
  index < run.length ∧ run.action index = .step thread ∧
    (run.state index).event (.step thread) = some (.take node)

/-- In this step a thread calls `enq()`. -/
def EnqBegins (run : Run (system variant sentinel)) (thread index : Nat) : Prop :=
  index < run.length ∧ ∃ node, run.action index = .enq thread node

/-- In this step a thread calls `deq()`. -/
def DeqBegins (run : Run (system variant sentinel)) (thread index : Nat) : Prop :=
  index < run.length ∧ run.action index = .deq thread

/-- In this step `enq()` of a thread returns. -/
def EnqReturns (run : Run (system variant sentinel)) (thread index : Nat) : Prop :=
  index < run.length ∧ run.action index = .step thread ∧
    (∃ newNode pc, (run.state index).threads thread = .enq newNode pc) ∧
    (run.state (index + 1)).threads thread = .idle

/-- In this step `deq()` of a thread returns. -/
def DeqReturns (run : Run (system variant sentinel)) (thread index : Nat) : Prop :=
  index < run.length ∧ run.action index = .step thread ∧
    (∃ pc, (run.state index).threads thread = .deq pc) ∧
    (run.state (index + 1)).threads thread = .idle

/-- The run is one of a FIFO queue: `queue` is the queue at each point. -/
structure Fifo (run : Run (system variant sentinel)) (queue : Nat → Queue Nat) : Prop where
  starts : queue 0 = ⟨[sentinel], 0, 0⟩
  grows : ∀ index ≤ run.length, [sentinel] <+: (queue index).order
  shape : ∀ index ≤ run.length, Shape (run.state index).memory (queue index)
  /-- A step links a node behind the last one, or moves the head past the first one, or does
  neither. -/
  applies : ∀ index < run.length,
    Applies (queue index) (queue (index + 1)) ((run.state index).event (run.action index))
  /-- A node leaves the cell in the step that links it, and is put into a cell in the step that takes
  it; no other step of a call changes a cell. -/
  hands : ∀ index < run.length, ∀ thread, run.action index = .step thread →
    HandsOver (run.state index).memory (run.state (index + 1)).memory thread
      ((run.state index).event (.step thread))
  announced : ∀ thread node index, Links run thread node index →
    (run.state index).memory (.enqCell thread) = some node
  linkedOnce : ∀ index ≤ run.length, ∀ node ∈ (queue index).order, node ≠ sentinel →
    ∃ step < index, (∃ thread, Links run thread node step) ∧
      ∀ other thread, Links run thread node other → other = step
  takenOnce : ∀ index ≤ run.length, ∀ place < (queue index).head, ∀ node,
    (queue index).order[place]? = some node →
    ∃ step < index, (∃ thread, Takes run thread node step) ∧
      ∀ other thread, Takes run thread node other → other = step
  enq : ∀ thread index, EnqReturns run thread index →
    ∃ begin step, Call (EnqBegins run thread) begin (index + 1) ∧
      Once (fun step => ∃ node, Links run thread node step) begin (index + 1) step
  /-- A `deq()` takes one node, which is then in its cell, or takes nothing, and at some instant while
  it was running the head was at the last node. -/
  deq : ∀ thread index, DeqReturns run thread index →
    ∃ begin, Call (DeqBegins run thread) begin (index + 1) ∧
      ((∃ step node, Once (fun step => ∃ node, Takes run thread node step) begin (index + 1) step ∧
        Takes run thread node step ∧
        (run.state (index + 1)).memory (.deqCell thread) = some node) ∨
      Never (fun step => ∃ node, Takes run thread node step) begin (index + 1) ∧
        ∃ instant, begin < instant ∧ instant ≤ index ∧
          (queue instant).head + 1 = (queue instant).order.length)

/-! ### The history of a call -/

/-- What the run has done for a thread inside `enq()`. -/
def EnqHistory (run : Run (system variant sentinel)) (thread index : Nat) : Pc → Prop
  | .idle | .deq _ => True
  | .loadCell => ∃ begin, Call (EnqBegins run thread) begin index ∧
      Never (fun step => ∃ node, Links run thread node step) begin index
  | .enq _ pc => ∃ begin, Call (EnqBegins run thread) begin index ∧
      (pc.Pending → Never (fun step => ∃ node, Links run thread node step) begin index) ∧
      (¬ pc.Pending → ∃ step, Once (fun step => ∃ node, Links run thread node step) begin index step)

/-- What the run has done for a thread inside `deq()`. -/
structure DeqHistory (run : Run (system variant sentinel)) (queue : Nat → Queue Nat)
    (thread begin index : Nat) (pc : DeqPc) : Prop where
  call : Call (DeqBegins run thread) begin index
  never : Never (fun step => ∃ node, Takes run thread node step) begin index
  empty : pc.Empty → ∃ instant, begin < instant ∧ instant ≤ index ∧
    (queue instant).head + 1 = (queue instant).order.length

/-- The thread that takes a step. -/
def Action.thread : Action → Nat
  | .enq thread _ | .setCell thread _ | .deq thread | .step thread => thread

theorem next_threads {state after : State} {action : Action}
    (step : state.next variant action = some after) {thread : Nat} (other : action.thread ≠ thread) :
    after.threads thread = state.threads thread := by
  have goto : ∀ {acting : Nat} (start : State) (pc : Pc), acting ≠ thread →
      start.threads = state.threads → (start.goto acting pc).threads thread = state.threads thread := by
    intro acting start pc different same
    rw [State.goto_threads, Function.update_of_ne different.symm, same]
  cases action with
  | enq | deq =>
    simp only [State.next] at step
    split at step
    · cases step
      exact goto _ _ other rfl
    · cases step
  | setCell =>
    simp only [State.next] at step
    split at step
    · cases step
      rfl
    · cases step
  | step acting =>
    obtain ⟨memory, pc, -, rfl⟩ := stepThread_cases step
    exact goto _ _ other rfl

section History

variable {run : Run (system variant sentinel)} {thread index : Nat}

theorem run_step (run : Run (system variant sentinel)) {index : Nat} (inside : index < run.length) :
    (run.state index).next variant (run.action index) = some (run.state (index + 1)) :=
  run.steps index inside

/-- The action of a step is none of the thread's own. -/
theorem others_kept (other : (run.action index).thread ≠ thread) :
    ¬ EnqBegins run thread index ∧ ¬ DeqBegins run thread index ∧
      (¬ ∃ node, Links run thread node index) ∧ ¬ ∃ node, Takes run thread node index := by
  refine ⟨?_, ?_, ?_, ?_⟩
  · rintro ⟨-, node, same⟩
    exact other (by rw [same]; rfl)
  · rintro ⟨-, same⟩
    exact other (by rw [same]; rfl)
  · rintro ⟨node, -, same, -⟩
    exact other (by rw [same]; rfl)
  · rintro ⟨node, -, same, -⟩
    exact other (by rw [same]; rfl)

theorem not_begins_of_step (same : run.action index = .step thread) :
    ¬ EnqBegins run thread index ∧ ¬ DeqBegins run thread index := by
  refine ⟨?_, ?_⟩
  · rintro ⟨-, node, begins⟩
    rw [same] at begins
    cases begins
  · rintro ⟨-, begins⟩
    rw [same] at begins
    cases begins

theorem not_links_of_event (event : (run.state index).event (.step thread) = none) :
    ¬ ∃ node, Links run thread node index := by
  rintro ⟨node, -, -, links⟩
  rw [event] at links
  cases links

theorem not_takes_of_event (event : (run.state index).event (.step thread) = none) :
    ¬ ∃ node, Takes run thread node index := by
  rintro ⟨node, -, -, takes⟩
  rw [event] at takes
  cases takes

/-- What a step of `enq()` does, in a run. -/
theorem Sound.enqMoves {queue : Queue Nat} (sound : Sound (run.state index) queue) {newNode : Nat}
    {pc : EnqPc} {memory : Memory} {following : Option EnqPc}
    (here : (run.state index).threads thread = .enq newNode pc)
    (step : stepEnq variant (run.state index).memory (.enqCell thread) newNode pc =
      some (memory, following)) :
    pc.Follows ((run.state index).event (.step thread)) newNode following := by
  have fits := sound.fits thread
  rw [here] at fits
  obtain ⟨queue', moves⟩ := stepEnq_moves sound.shape fits step
  have event : (run.state index).event (.step thread) =
      enqEvent (run.state index).memory (.enqCell thread) newNode pc := by
    simp only [State.event, here]
  rw [event]
  exact moves.follows

theorem Sound.deqMoves {queue : Queue Nat} (sound : Sound (run.state index) queue) {pc : DeqPc}
    {memory : Memory} {following : Option DeqPc}
    (here : (run.state index).threads thread = .deq pc)
    (step : stepDeq variant (run.state index).memory (.deqCell thread) pc =
      some (memory, following)) :
    pc.Follows (run.state index).memory ((run.state index).event (.step thread)) following := by
  have fits := sound.fits thread
  rw [here] at fits
  obtain ⟨queue', moves⟩ := stepDeq_moves sound.shape fits step
  have event : (run.state index).event (.step thread) =
      deqEvent (run.state index).memory (.deqCell thread) pc := by
    simp only [State.event, here]
  rw [event]
  exact moves.follows

theorem enqHistory_succ (inside : index < run.length) {queue : Queue Nat}
    (sound : Sound (run.state index) queue)
    (history : EnqHistory run thread index ((run.state index).threads thread)) :
    EnqHistory run thread (index + 1) ((run.state (index + 1)).threads thread) := by
  have step := run_step run inside
  by_cases other : (run.action index).thread = thread
  · cases action : run.action index with
    | enq acting node =>
      rw [action] at other step
      obtain rfl : acting = thread := other
      simp only [State.next] at step
      split at step
      · rw [← Option.some.inj step, State.goto_threads, Function.update_self]
        exact ⟨index, .start ⟨inside, node, action⟩, never_start⟩
      · cases step
    | setCell acting value =>
      rw [action] at other step
      obtain rfl : acting = thread := other
      simp only [State.next] at step
      split at step
      · next idle =>
        rw [← Option.some.inj step]
        show EnqHistory run acting (index + 1) ((run.state index).threads acting)
        rw [idle]
        trivial
      · cases step
    | deq acting =>
      rw [action] at other step
      obtain rfl : acting = thread := other
      simp only [State.next] at step
      split at step
      · rw [← Option.some.inj step, State.goto_threads, Function.update_self]
        trivial
      · cases step
    | step acting =>
      rw [action] at other step
      obtain rfl : acting = thread := other
      have notBegins := (not_begins_of_step action).1
      obtain ⟨memory, pc, steps, after⟩ := stepThread_cases step
      rw [after, State.goto_threads, Function.update_self]
      cases steps with
      | load newNode here cell =>
        rw [here] at history
        obtain ⟨begin, call, never⟩ := history
        have event : (run.state index).event (.step acting) = none := by
          simp only [State.event, here]
        exact ⟨begin, call.succ notBegins, fun _ => never.succ (not_links_of_event event),
          fun not => absurd trivial not⟩
      | enq newNode enqPc memory following here step =>
        rw [here] at history
        obtain ⟨begin, call, pending, linked⟩ := history
        have follows := sound.enqMoves here step
        cases following with
        | none => trivial
        | some following =>
          obtain ⟨stays, links⟩ := follows
          refine ⟨begin, call.succ notBegins, fun still => ?_, fun done => ?_⟩
          · obtain ⟨before, none_⟩ := stays still
            exact (pending before).succ (not_links_of_event none_)
          · obtain ⟨before, links⟩ := links done
            exact ⟨index, (pending before).once call.before ⟨newNode, inside, action, links⟩⟩
      | deq deqPc memory following here step =>
        cases following with
        | none | some => trivial
  · rw [next_threads step other]
    obtain ⟨notBegins, -, notLinks, -⟩ := others_kept other
    cases pc : (run.state index).threads thread with
    | idle | deq => trivial
    | loadCell =>
      rw [pc] at history
      obtain ⟨begin, call, never⟩ := history
      exact ⟨begin, call.succ notBegins, never.succ notLinks⟩
    | enq newNode enqPc =>
      rw [pc] at history
      obtain ⟨begin, call, pending, linked⟩ := history
      refine ⟨begin, call.succ notBegins, fun still => (pending still).succ notLinks,
        fun done => ?_⟩
      obtain ⟨step, once⟩ := linked done
      exact ⟨step, once.succ notLinks⟩

theorem deqHistory_succ {queue : Nat → Queue Nat} (inside : index < run.length)
    (sound : Sound (run.state index) (queue index))
    (history : ∀ pc, (run.state index).threads thread = .deq pc →
      ∃ begin, DeqHistory run queue thread begin index pc)
    {pc : DeqPc} (here : (run.state (index + 1)).threads thread = .deq pc) :
    ∃ begin, DeqHistory run queue thread begin (index + 1) pc := by
  have step := run_step run inside
  by_cases other : (run.action index).thread = thread
  · cases action : run.action index with
    | enq acting node =>
      rw [action] at other step
      obtain rfl : acting = thread := other
      simp only [State.next] at step
      split at step
      · rw [← Option.some.inj step, State.goto_threads, Function.update_self] at here
        cases here
      · cases step
    | setCell acting value =>
      rw [action] at other step
      obtain rfl : acting = thread := other
      simp only [State.next] at step
      split at step
      · next idle =>
        rw [← Option.some.inj step] at here
        cases idle.symm.trans here
      · cases step
    | deq acting =>
      rw [action] at other step
      obtain rfl : acting = thread := other
      simp only [State.next] at step
      split at step
      · rw [← Option.some.inj step, State.goto_threads, Function.update_self] at here
        cases here
        exact ⟨index, .start ⟨inside, action⟩, never_start, False.elim⟩
      · cases step
    | step acting =>
      rw [action] at other step
      obtain rfl : acting = thread := other
      obtain ⟨memory, after, steps, same⟩ := stepThread_cases step
      rw [same, State.goto_threads, Function.update_self] at here
      cases steps with
      | load => cases here
      | enq newNode enqPc memory next =>
        cases next with
        | none | some => cases here
      | deq deqPc memory next before step =>
        cases next with
        | none => cases here
        | some next =>
          cases here
          obtain ⟨begin, known⟩ := history deqPc before
          obtain ⟨none_, empty⟩ := sound.deqMoves before step
          refine ⟨begin, known.call.succ (not_begins_of_step action).2,
            known.never.succ (not_takes_of_event none_), fun nothing => ?_⟩
          rcases empty nothing with already | ⟨first, last, rfl, end_⟩
          · obtain ⟨instant, later, inside, one⟩ := known.empty already
            exact ⟨instant, later, Nat.le_succ_of_le inside, one⟩
          · have fits := sound.fits acting
            rw [before] at fits
            exact ⟨index, known.call.before, Nat.le_succ index,
              (Queue.Held.last sound.shape (Queue.Between.reached fits) end_).1⟩
  · rw [next_threads step other] at here
    obtain ⟨begin, known⟩ := history pc here
    obtain ⟨-, notBegins, -, notTakes⟩ := others_kept other
    refine ⟨begin, known.call.succ notBegins, known.never.succ notTakes, fun nothing => ?_⟩
    obtain ⟨instant, later, inside, one⟩ := known.empty nothing
    exact ⟨instant, later, Nat.le_succ_of_le inside, one⟩

end History

/-! ### The simulation of a run -/

/-- The queue of a run at each point. -/
structure Simulates (run : Run (system variant sentinel)) (queue : Nat → Queue Nat) : Prop where
  start : queue 0 = ⟨[sentinel], 0, 0⟩
  sound : ∀ index ≤ run.length, Sound (run.state index) (queue index)
  moves : ∀ index < run.length, Moves (run.state index) (run.state (index + 1)) (run.action index)
    (queue index) (queue (index + 1))

theorem exists_simulates (run : Run (system variant sentinel)) : ∃ queue, Simulates run queue := by
  have starts : run.state 0 = .start sentinel := run.starts
  have initially : Sound (run.state 0) ⟨[sentinel], 0, 0⟩ := by
    rw [starts]
    exact .start sentinel
  obtain ⟨queue, start, sound, moves⟩ := run.exists_simulation run.meets_true Sound
    (fun before action after queue queue' => Moves before after action queue queue') initially
    fun before action after queue sound _ step => by
      obtain ⟨queue', moves⟩ := Sound.next sound step
      exact ⟨queue', moves.sound, moves⟩
  exact ⟨queue, start, sound, moves⟩

section Simulates

variable {run : Run (system variant sentinel)} {queue : Nat → Queue Nat}

theorem Simulates.mono (simulates : Simulates run queue) {earlier last : Nat}
    (later : earlier ≤ last) (inside : last ≤ run.length) : (queue earlier).Le (queue last) := by
  induction last, later using Nat.le_induction with
  | base => exact .refl _
  | succ last _ inductionHypothesis =>
    exact (inductionHypothesis (Nat.le_of_lt inside)).trans (simulates.moves last inside).le

theorem Simulates.links (simulates : Simulates run queue) {thread node index : Nat}
    (links : Links run thread node index) :
    (queue (index + 1)).order = (queue index).order ++ [node] := by
  obtain ⟨inside, action, event⟩ := links
  have applies := (simulates.moves index inside).applies
  rw [action, event] at applies
  exact applies.1

theorem Simulates.takes (simulates : Simulates run queue) {thread node index : Nat}
    (takes : Takes run thread node index) :
    (queue (index + 1)).head = (queue index).head + 1 ∧
      (queue index).order[(queue index).head]? = some node := by
  obtain ⟨inside, action, event⟩ := takes
  have applies := (simulates.moves index inside).applies
  rw [action, event] at applies
  exact applies.2

/-- A step with an event is one of a thread. -/
theorem step_of_event {state : State} {action : Action} {event : Event}
    (happens : state.event action = some event) : ∃ thread, action = .step thread := by
  cases action with
  | step thread => exact ⟨thread, rfl⟩
  | enq | setCell | deq => cases happens

theorem Simulates.linked_before (simulates : Simulates run queue) {index : Nat}
    (inside : index ≤ run.length) {node : Nat} (member : node ∈ (queue index).order)
    (other : node ≠ sentinel) : ∃ step < index, ∃ thread, Links run thread node step := by
  induction index with
  | zero =>
    rw [simulates.start] at member
    exact absurd (List.mem_singleton.1 member) other
  | succ index inductionHypothesis =>
    by_cases before : node ∈ (queue index).order
    · obtain ⟨step, earlier, links⟩ := inductionHypothesis (Nat.le_of_lt inside) before
      exact ⟨step, Nat.lt_succ_of_lt earlier, links⟩
    · have applies := (simulates.moves index inside).applies
      cases event : (run.state index).event (run.action index) with
      | none =>
        rw [event] at applies
        exact absurd (applies.1 ▸ member) before
      | some event' =>
        obtain ⟨thread, action⟩ := step_of_event event
        rw [event] at applies
        cases event' with
        | take => exact absurd (applies.1 ▸ member) before
        | link added =>
          rw [applies.1, List.mem_append, List.mem_singleton] at member
          rcases member with earlier | rfl
          · exact absurd earlier before
          · rw [action] at event
            exact ⟨index, Nat.lt_succ_self index, thread, inside, action, event⟩

theorem Simulates.links_unique (simulates : Simulates run queue) {node one two step other : Nat}
    (here : Links run one node step) (there : Links run two node other) : step ≤ other := by
  by_contra later
  have after : other + 1 ≤ step := Nat.lt_of_not_le later
  have member : node ∈ (queue (other + 1)).order := by
    rw [simulates.links there]
    exact List.mem_append_right _ (List.mem_singleton_self node)
  have stays := (simulates.mono after (Nat.le_of_lt here.1)).order.subset member
  have nodup := (simulates.sound (step + 1) here.1).shape.linked.nodup
  rw [simulates.links here, List.nodup_append] at nodup
  exact nodup.2.2 node stays node (List.mem_singleton_self node) rfl

theorem Simulates.taken_before (simulates : Simulates run queue) {index : Nat}
    (inside : index ≤ run.length) {place : Nat} (below : place < (queue index).head) {node : Nat}
    (here : (queue index).order[place]? = some node) :
    ∃ step < index, ∃ thread, Takes run thread node step := by
  induction index with
  | zero =>
    rw [simulates.start] at below
    exact absurd below (Nat.not_lt_zero place)
  | succ index inductionHypothesis =>
    have shape := (simulates.sound index (Nat.le_of_lt inside)).shape
    by_cases before : place < (queue index).head
    · have place_lt : place < (queue index).order.length :=
        Nat.lt_of_lt_of_le before (shape.head_le.trans (Nat.le_of_lt shape.tail_lt))
      have there := index_of_longer (simulates.moves index inside).le.order
        (List.getElem?_eq_getElem place_lt)
      have same := (List.getElem?_eq_getElem place_lt).trans (there.symm.trans here)
      obtain ⟨step, earlier, takes⟩ := inductionHypothesis (Nat.le_of_lt inside) before same
      exact ⟨step, Nat.lt_succ_of_lt earlier, takes⟩
    · have applies := (simulates.moves index inside).applies
      cases event : (run.state index).event (run.action index) with
      | none =>
        rw [event] at applies
        exact absurd (applies.2 ▸ below) before
      | some event' =>
        obtain ⟨thread, action⟩ := step_of_event event
        rw [event] at applies
        cases event' with
        | link => exact absurd (applies.2 ▸ below) before
        | take taken =>
          obtain ⟨order, count, first⟩ := applies
          have same : place = (queue index).head := by omega
          rw [order, same, first] at here
          cases here
          rw [action] at event
          exact ⟨index, Nat.lt_succ_self index, thread, inside, action, event⟩

theorem Simulates.takes_unique (simulates : Simulates run queue) {node one two step other : Nat}
    (here : Takes run one node step) (there : Takes run two node other) : step ≤ other := by
  by_contra later
  have after : other + 1 ≤ step := Nat.lt_of_not_le later
  obtain ⟨-, atStep⟩ := simulates.takes here
  obtain ⟨count, atOther⟩ := simulates.takes there
  have order := (simulates.mono (Nat.le_of_succ_le after) (Nat.le_of_lt here.1)).order
  have same := (simulates.sound step (Nat.le_of_lt here.1)).shape.linked.index_unique atStep
    (index_of_longer order atOther)
  have head := (simulates.mono after (Nat.le_of_lt here.1)).head
  omega

theorem Simulates.enqHistory (simulates : Simulates run queue) (thread : Nat) {index : Nat}
    (inside : index ≤ run.length) :
    EnqHistory run thread index ((run.state index).threads thread) := by
  induction index with
  | zero =>
    have starts : run.state 0 = .start sentinel := run.starts
    rw [starts]
    trivial
  | succ index inductionHypothesis =>
    exact enqHistory_succ inside (simulates.sound index (Nat.le_of_lt inside))
      (inductionHypothesis (Nat.le_of_lt inside))

theorem Simulates.deqHistory (simulates : Simulates run queue) (thread : Nat) {index : Nat}
    (inside : index ≤ run.length) {pc : DeqPc}
    (here : (run.state index).threads thread = .deq pc) :
    ∃ begin, DeqHistory run queue thread begin index pc := by
  induction index generalizing pc with
  | zero =>
    have starts : run.state 0 = .start sentinel := run.starts
    rw [starts] at here
    cases here
  | succ index inductionHypothesis =>
    exact deqHistory_succ inside (simulates.sound index (Nat.le_of_lt inside))
      (fun _ before => inductionHypothesis (Nat.le_of_lt inside) before) here

theorem Simulates.enq_once (simulates : Simulates run queue) {thread index : Nat}
    (returns : EnqReturns run thread index) :
    ∃ begin step, Call (EnqBegins run thread) begin (index + 1) ∧
      Once (fun step => ∃ node, Links run thread node step) begin (index + 1) step := by
  obtain ⟨inside, action, ⟨newNode, pc, here⟩, returned⟩ := returns
  have history := simulates.enqHistory thread (Nat.le_of_lt inside)
  rw [here] at history
  obtain ⟨begin, call, pending, linked⟩ := history
  have step := run_step run inside
  rw [action] at step
  simp only [State.next, State.stepThread, here, Option.map_eq_some_iff] at step
  obtain ⟨⟨memory, following⟩, step, after⟩ := step
  rw [← after, State.goto_threads, Function.update_self] at returned
  have ends := call.succ (not_begins_of_step action).1
  cases following with
  | some => cases returned
  | none =>
    rcases (simulates.sound index (Nat.le_of_lt inside)).enqMoves here step with
      ⟨before, links⟩ | ⟨before, none_⟩
    · exact ⟨begin, index, ends,
        (pending before).once call.before ⟨newNode, inside, action, links⟩⟩
    · obtain ⟨step, once⟩ := linked before
      exact ⟨begin, step, ends, once.succ (not_links_of_event none_)⟩

theorem Simulates.deq_once (simulates : Simulates run queue) {thread index : Nat}
    (returns : DeqReturns run thread index) :
    ∃ begin, Call (DeqBegins run thread) begin (index + 1) ∧
      ((∃ step node, Once (fun step => ∃ node, Takes run thread node step) begin (index + 1) step ∧
        Takes run thread node step ∧
        (run.state (index + 1)).memory (.deqCell thread) = some node) ∨
      Never (fun step => ∃ node, Takes run thread node step) begin (index + 1) ∧
        ∃ instant, begin < instant ∧ instant ≤ index ∧
          (queue instant).head + 1 = (queue instant).order.length) := by
  obtain ⟨inside, action, ⟨pc, here⟩, returned⟩ := returns
  obtain ⟨begin, history⟩ := simulates.deqHistory thread (Nat.le_of_lt inside) here
  have step := run_step run inside
  have hands := (simulates.moves index inside).hands thread action
  rw [action] at step hands
  simp only [State.next, State.stepThread, here, Option.map_eq_some_iff] at step
  obtain ⟨⟨memory, following⟩, step, after⟩ := step
  rw [← after, State.goto_threads, Function.update_self] at returned
  refine ⟨begin, history.call.succ (not_begins_of_step action).2, ?_⟩
  cases following with
  | some => cases returned
  | none =>
    rcases (simulates.sound index (Nat.le_of_lt inside)).deqMoves here step with
      ⟨node, takes⟩ | ⟨none_, empty⟩
    · rw [takes] at hands
      have now : Takes run thread node index := ⟨inside, action, takes⟩
      exact .inl ⟨index, node, history.never.once history.call.before ⟨node, now⟩, now, hands.1⟩
    · exact .inr ⟨history.never.succ (not_takes_of_event none_), history.empty empty⟩

end Simulates

/-- Each of the three queues over descriptors is a FIFO queue in every run. -/
theorem exists_handOff_of_run (variant : Variant) (sentinel : Nat)
    (run : Run (system variant sentinel)) : ∃ queue, Fifo run queue := by
  obtain ⟨queue, simulates⟩ := exists_simulates run
  refine ⟨queue,
    { starts := simulates.start
      grows := fun index inside => ?_
      shape := fun index inside => (simulates.sound index inside).shape
      applies := fun index inside => (simulates.moves index inside).applies
      hands := fun index inside thread action => ?_
      announced := fun thread node index links => ?_
      linkedOnce := fun index inside node member other => ?_
      takenOnce := fun index inside place below node here => ?_
      enq := fun thread index returns => simulates.enq_once returns
      deq := fun thread index returns => simulates.deq_once returns }⟩
  · have later := (simulates.mono (Nat.zero_le index) inside).order
    rw [simulates.start] at later
    exact later
  · have hands := (simulates.moves index inside).hands thread action
    rw [action] at hands
    exact hands
  · obtain ⟨inside, action, event⟩ := links
    refine (simulates.moves index inside).own thread node action ?_
    rw [action]
    exact event
  · obtain ⟨step, earlier, thread, links⟩ := simulates.linked_before inside member other
    exact ⟨step, earlier, ⟨thread, links⟩, fun second two again =>
      Nat.le_antisymm (simulates.links_unique again links) (simulates.links_unique links again)⟩
  · obtain ⟨step, earlier, thread, takes⟩ := simulates.taken_before inside below here
    exact ⟨step, earlier, ⟨thread, takes⟩, fun second two again =>
      Nat.le_antisymm (simulates.takes_unique again takes) (simulates.takes_unique takes again)⟩

/-- Thread 0 links node 1 and has not moved the tail when thread 1 takes the sentinel: its `deq()` moves
the tail first. -/
def tailBehind : List Action :=
  [.enq 0 1] ++ List.replicate 5 (.step 0) ++ [.deq 1] ++ List.replicate 10 (.step 1)

theorem exists_handOff_of_run_tailBehind : ∃ run : Run (system .v2 0), ∃ queue, Fifo run queue ∧
    Links run 0 1 5 ∧ Takes run 1 0 16 ∧ (run.state 17).memory (.deqCell 1) = some 0 := by
  obtain ⟨run, length, states, actions⟩ := exists_run_of_next
    (fun state => state = .start 0) (State.next .v2) rfl tailBehind (by decide +kernel)
  obtain ⟨queue, fifo⟩ := exists_handOff_of_run .v2 0 run
  have inside : ∀ index < 17, index < run.length := fun index below => length ▸ below
  have links := satisfies_of_replay (fun state : State => state.event (.step 0) = some (.link 1))
    (states 5) (by decide +kernel)
  have takes := satisfies_of_replay (fun state : State => state.event (.step 1) = some (.take 0))
    (states 16) (by decide +kernel)
  have hands := fifo.hands 16 (inside 16 (by decide)) 1 (actions 16)
  rw [takes] at hands
  exact ⟨run, queue, fifo, ⟨inside 5 (by decide), actions 5, links⟩,
    ⟨inside 16 (by decide), actions 16, takes⟩, hands.1⟩

end Pmwcas.MSQueueByPMWCas
