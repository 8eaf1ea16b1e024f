/-
This file proves that the queue over plain `CompareExchange64` is a linearizable FIFO queue. A run
of the machine is simulated by the abstract queue: one step of each `enq()` appends its node, one
step of each `deq()` that returns true marks the first node that is not marked, and no other step
changes the queue.
-/

import Pmwcas.MSQueueByOrgCasSound

namespace Pmwcas.MSQueueByOrgCas

open Transition LinkedList

/-! ### Runs -/

section Runs

variable {start : State}

/-- In this step a thread links a node. -/
def Links (run : Run (systemFrom start)) (thread node index : Nat) : Prop :=
  index < run.length ∧ run.action index = .step thread ∧
    (run.state index).event (.step thread) = some (.link node)

/-- In this step a thread marks a node. -/
def Marks (run : Run (systemFrom start)) (thread node index : Nat) : Prop :=
  index < run.length ∧ run.action index = .step thread ∧
    (run.state index).event (.step thread) = some (.mark node)

/-- In this step a thread calls `enq()`. -/
def EnqBegins (run : Run (systemFrom start)) (thread index : Nat) : Prop :=
  index < run.length ∧ ∃ node detectType, run.action index = .enq thread node detectType

/-- In this step a thread calls `deq()`. -/
def DeqBegins (run : Run (systemFrom start)) (thread index : Nat) : Prop :=
  index < run.length ∧ ∃ threadIndex detectType, run.action index = .deq thread threadIndex detectType

/-- In this step `enq()` of a thread returns. -/
def EnqReturns (run : Run (systemFrom start)) (thread index : Nat) : Prop :=
  index < run.length ∧ run.action index = .step thread ∧
    (∃ newNode detectType pc, (run.state index).threads thread = .enq newNode detectType pc) ∧
    (run.state (index + 1)).threads thread = .idle none

/-- In this step `deq()` of a thread returns. -/
def DeqReturns (run : Run (systemFrom start)) (thread : Nat) (result : Bool) (index : Nat) : Prop :=
  index < run.length ∧ run.action index = .step thread ∧
    (run.state (index + 1)).threads thread = .idle (some result)

/-- The run is one of a FIFO queue: `view` is the queue at each point, from `first` on. -/
structure Fifo (run : Run (systemFrom start)) (first : View) (view : Nat → View) : Prop where
  starts : view 0 = first
  grows : ∀ index ≤ run.length, first.order <+: (view index).order
  shape : ∀ index ≤ run.length, Shape (run.state index).store.memory (view index)
  /-- A step links a node behind the last one, or marks the first unmarked one, or does neither. -/
  applies : ∀ index < run.length,
    (view index).Applies (view (index + 1)) ((run.state index).event (run.action index))
  linkedOnce : ∀ index ≤ run.length, ∀ node ∈ (view index).order, node ∉ first.order →
    ∃ step < index, (∃ thread, Links run thread node step) ∧
      ∀ other thread, Links run thread node other → other = step
  markedOnce : ∀ index ≤ run.length, ∀ place < (view index).marked, ∀ node,
    first.marked ≤ place → (view index).order[place]? = some node →
    ∃ step < index, (∃ thread, Marks run thread node step) ∧
      ∀ other thread, Marks run thread node other → other = step
  enq : ∀ thread index, EnqReturns run thread index →
    ∃ begin step, Call (EnqBegins run thread) begin (index + 1) ∧
      Once (fun step => ∃ node, Links run thread node step) begin (index + 1) step
  /-- A `deq()` that returns true has marked the node in its cell, and no other one. -/
  deqTrue : ∀ thread index, DeqReturns run thread true index →
    ∃ begin step node, Call (DeqBegins run thread) begin (index + 1) ∧
      Once (fun step => ∃ node, Marks run thread node step) begin (index + 1) step ∧
      Marks run thread node step ∧
      (run.state (index + 1)).store.memory (.deqCell thread) = some node
  /-- A `deq()` that returns false has marked nothing, and while it was running there was only one
  unmarked node. -/
  deqFalse : ∀ thread index, DeqReturns run thread false index →
    ∃ begin, Call (DeqBegins run thread) begin (index + 1) ∧
      Never (fun step => ∃ node, Marks run thread node step) begin (index + 1) ∧
      ∃ instant, begin < instant ∧ instant ≤ index ∧
        (view instant).marked + 1 = (view instant).order.length

/-- What the run has done for a thread inside `enq()`. -/
def EnqHistory (run : Run (systemFrom start)) (thread index : Nat) : Pc → Prop
  | .idle _ | .deq .. => True
  | .loadCell _ => ∃ begin, Call (EnqBegins run thread) begin index ∧
      Never (fun step => ∃ node, Links run thread node step) begin index
  | .enq _ _ pc => ∃ begin, Call (EnqBegins run thread) begin index ∧
      (pc.Pending → Never (fun step => ∃ node, Links run thread node step) begin index) ∧
      (¬ pc.Pending → ∃ step, Once (fun step => ∃ node, Links run thread node step) begin index step)

/-- `deq()` has marked this node. -/
def DeqPc.Won (node : Nat) : DeqPc → Prop
  | .flushDel first _ | .checkWon first _ | .exchangeWon first _ => first = node
  | _ => False

/-- `deq()` has found the queue empty. -/
def DeqPc.Empty : DeqPc → Prop
  | .checkHead _ _ next => next = none
  | .clearCell | .flushClear => True
  | _ => False

/-- What the run has done for a thread inside `deq()`. -/
structure DeqHistory (run : Run (systemFrom start)) (view : Nat → View) (thread begin index : Nat)
    (pc : DeqPc) : Prop where
  call : Call (DeqBegins run thread) begin index
  never : (∀ node, ¬ pc.Won node) →
    Never (fun step => ∃ node, Marks run thread node step) begin index
  once : ∀ node, pc.Won node → ∃ step,
    Once (fun step => ∃ node, Marks run thread node step) begin index step ∧
      Marks run thread node step
  empty : pc.Empty → ∃ instant, begin < instant ∧ instant ≤ index ∧
    (view instant).marked + 1 = (view instant).order.length

/-- What a step of `deq()` adds to its history. -/
def DeqPc.Follows (memory memory' : Address → Option Nat) (cell : Address) (pc : DeqPc) :
    DeqPc ⊕ Bool → Prop
  | .inl following =>
    (∀ node, following.Won node → pc.Won node ∧ deqEvent memory pc = none ∨
      (∀ node, ¬ pc.Won node) ∧ deqEvent memory pc = some (.mark node)) ∧
    ((∀ node, ¬ following.Won node) → (∀ node, ¬ pc.Won node) ∧ deqEvent memory pc = none) ∧
    (following.Empty → pc.Empty ∨
      ∃ first last, pc = .loadNext first last ∧ memory (.next first) = none)
  | .inr true => (∃ node, pc.Won node ∧ pc.Holds node) ∧ deqEvent memory pc = none ∧
    memory' cell = memory cell
  | .inr false => pc.Empty ∧ (∀ node, ¬ pc.Won node) ∧ deqEvent memory pc = none

/-- A step before the mark that leads to another one before it. -/
theorem DeqPc.Follows.unmarked {memory memory' : Address → Option Nat} {cell : Address}
    {pc following : DeqPc} (before : ∀ node, ¬ pc.Won node) (after : ∀ node, ¬ following.Won node)
    (event : deqEvent memory pc = none) (empty : following.Empty → pc.Empty) :
    DeqPc.Follows memory memory' cell pc (.inl following) :=
  ⟨fun node won => absurd won (after node), fun _ => ⟨before, event⟩, fun here => .inl (empty here)⟩

theorem stepDeq_follows {store after : Store} {cell : Address} {threadIndex : Nat}
    {detectType : Int} {pc : DeqPc} {pc' : DeqPc ⊕ Bool} (isCell : cell.IsCell)
    (step : stepDeq store cell threadIndex detectType pc = some (after, pc')) :
    pc.Follows store.memory after.memory cell pc' := by
  cases pc with
  | loadHead =>
    simp only [stepDeq, Option.map_eq_some_iff, Prod.mk.injEq] at step
    obtain ⟨node, points, rfl, rfl⟩ := step
    exact .unmarked (fun _ => id) (fun _ => id) rfl False.elim
  | loadNext first last =>
    cases step
    exact ⟨fun node won => won.elim, fun _ => ⟨fun _ => id, rfl⟩,
      fun empty => .inr ⟨first, last, rfl, empty⟩⟩
  | loadTail | flushLast | exchangeTail | flushMarked | exchangeHead | flushCell =>
    cases step
    exact .unmarked (fun _ => id) (fun _ => id) rfl False.elim
  | checkHead first last next =>
    simp only [stepDeq] at step
    split at step
    · split at step
      · cases next with
        | none =>
          cases step
          exact .unmarked (fun _ => id) (fun _ => id) rfl fun _ => rfl
        | some =>
          cases step
          exact .unmarked (fun _ => id) (fun _ => id) rfl False.elim
      · cases step
        exact .unmarked (fun _ => id) (fun _ => id) rfl False.elim
    · cases step
      exact .unmarked (fun _ => id) (fun _ => id) rfl False.elim
  | clearCell =>
    simp only [stepDeq] at step
    split at step
    · cases step
      exact .unmarked (fun _ => id) (fun _ => id) rfl id
    · cases step
      exact ⟨trivial, fun _ => id, rfl⟩
  | flushClear =>
    cases step
    exact ⟨trivial, fun _ => id, rfl⟩
  | loadDel | checkMarked | recheckHead | checkLost =>
    simp only [stepDeq] at step
    split at step
    · cases step
      exact .unmarked (fun _ => id) (fun _ => id) rfl False.elim
    · cases step
      exact .unmarked (fun _ => id) (fun _ => id) rfl False.elim
  | storeCell first next =>
    simp only [stepDeq] at step
    split at step
    · cases step
      exact .unmarked (fun _ => id) (fun _ => id) rfl False.elim
    · cases step
      exact .unmarked (fun _ => id) (fun _ => id) rfl False.elim
  | exchangeDel first next =>
    simp only [stepDeq] at step
    split at step
    · next unmarked =>
      cases step
      refine ⟨fun node won => .inr ⟨fun _ => id, ?_⟩, fun none_ => absurd rfl (none_ first),
        False.elim⟩
      cases won
      simp only [deqEvent, if_pos unmarked]
    · next marked =>
      cases step
      refine .unmarked (fun _ => id) (fun _ => id) ?_ False.elim
      simp only [deqEvent, if_neg marked]
  | flushDel first next =>
    cases step
    exact ⟨fun node won => .inl ⟨won, rfl⟩, fun none_ => absurd rfl (none_ first), False.elim⟩
  | checkWon first next =>
    simp only [stepDeq] at step
    split at step
    · cases step
      exact ⟨fun node won => .inl ⟨won, rfl⟩, fun none_ => absurd rfl (none_ first), False.elim⟩
    · cases step
      exact ⟨⟨first, rfl, rfl⟩, rfl, rfl⟩
  | exchangeWon first next =>
    cases step
    refine ⟨⟨first, rfl, rfl⟩, rfl, ?_⟩
    unfold Store.compareExchange
    split
    · refine Function.update_of_ne ?_ _ _
      rintro rfl
      exact isCell
    · rfl

/-- The thread that takes a step. -/
def Action.thread : Action → Option Nat
  | .enq thread _ _ | .deq thread _ _ | .step thread => some thread
  | .writeBack _ => none

theorem next_threads {state after : State} {action : Action} (step : state.next action = some after)
    {thread : Nat} (other : action.thread ≠ some thread) :
    after.threads thread = state.threads thread := by
  have goto : ∀ {acting : Nat} (start : State) (pc : Pc), some acting ≠ some thread →
      start.threads = state.threads → (start.goto acting pc).threads thread = state.threads thread := by
    intro acting start pc different same
    rw [State.goto_threads, Function.update_of_ne fun equal => different (congrArg some equal.symm),
      same]
  cases action with
  | enq | deq =>
    simp only [State.next] at step
    split at step
    · cases step
      exact goto _ _ other rfl
    · cases step
  | step acting =>
    simp only [State.next, State.stepThread] at step
    split at step
    · cases step
    all_goals
      simp only [Option.map_eq_some_iff] at step
      obtain ⟨-, -, rfl⟩ := step
      exact goto _ _ other rfl
  | writeBack =>
    cases step
    rfl

section History

variable {run : Run (systemFrom start)} {thread index : Nat}

/-- The action of a step is none of the thread's own. -/
theorem others_kept (other : (run.action index).thread ≠ some thread) :
    ¬ EnqBegins run thread index ∧ ¬ DeqBegins run thread index ∧
      (¬ ∃ node, Links run thread node index) ∧ ¬ ∃ node, Marks run thread node index := by
  refine ⟨?_, ?_, ?_, ?_⟩
  · rintro ⟨-, node, detectType, same⟩
    exact other (by rw [same]; rfl)
  · rintro ⟨-, threadIndex, detectType, same⟩
    exact other (by rw [same]; rfl)
  · rintro ⟨node, -, same, -⟩
    exact other (by rw [same]; rfl)
  · rintro ⟨node, -, same, -⟩
    exact other (by rw [same]; rfl)

theorem not_begins_of_step (same : run.action index = .step thread) :
    ¬ EnqBegins run thread index ∧ ¬ DeqBegins run thread index := by
  refine ⟨?_, ?_⟩
  · rintro ⟨-, node, detectType, begins⟩
    rw [same] at begins
    cases begins
  · rintro ⟨-, threadIndex, detectType, begins⟩
    rw [same] at begins
    cases begins

theorem not_links_of_event (event : (run.state index).event (.step thread) = none) :
    ¬ ∃ node, Links run thread node index := by
  rintro ⟨node, -, -, links⟩
  rw [event] at links
  cases links

theorem not_marks_of_event (event : (run.state index).event (.step thread) = none) :
    ¬ ∃ node, Marks run thread node index := by
  rintro ⟨node, -, -, marks⟩
  rw [event] at marks
  cases marks

theorem enqHistory_succ (inside : index < run.length)
    (history : EnqHistory run thread index ((run.state index).threads thread)) :
    EnqHistory run thread (index + 1) ((run.state (index + 1)).threads thread) := by
  have step : (run.state index).next (run.action index) = some (run.state (index + 1)) :=
    run.steps index inside
  by_cases other : (run.action index).thread = some thread
  · cases action : run.action index with
    | enq acting node detectType =>
      rw [action] at other step
      cases other
      simp only [State.next] at step
      split at step
      · have after := Option.some.inj step
        rw [← after, State.goto_threads, Function.update_self]
        exact ⟨index, .start ⟨inside, node, detectType, action⟩, never_start⟩
      · cases step
    | deq acting threadIndex detectType =>
      rw [action] at other step
      cases other
      simp only [State.next] at step
      split at step
      · have after := Option.some.inj step
        rw [← after, State.goto_threads, Function.update_self]
        trivial
      · cases step
    | step acting =>
      rw [action] at other step
      cases other
      have notBegins := (not_begins_of_step action).1
      simp only [State.next, State.stepThread] at step
      split at step
      · cases step
      · next detectType pc =>
        rw [pc] at history
        obtain ⟨begin, call, never⟩ := history
        simp only [Option.map_eq_some_iff] at step
        obtain ⟨newNode, -, after⟩ := step
        have event : (run.state index).event (.step thread) = none := by
          simp only [State.event, pc]
        rw [← after, State.goto_threads, Function.update_self]
        exact ⟨begin, call.succ notBegins, fun _ => never.succ (not_links_of_event event),
          fun not => absurd trivial not⟩
      · next newNode detectType enqPc pc =>
        rw [pc] at history
        obtain ⟨begin, call, pending, linked⟩ := history
        simp only [Option.map_eq_some_iff] at step
        obtain ⟨⟨store, following⟩, step, after⟩ := step
        have event : (run.state index).event (.step thread) =
            enqEvent (run.state index).store.memory newNode enqPc := by
          simp only [State.event, pc]
        rw [← after, State.goto_threads, Function.update_self]
        cases following with
        | none => trivial
        | some following =>
          obtain ⟨stays, links⟩ := stepEnq_follows step
          refine ⟨begin, call.succ notBegins, fun still => ?_, fun done => ?_⟩
          · obtain ⟨before, none_⟩ := stays still
            exact (pending before).succ (not_links_of_event (event.trans none_))
          · rcases links done with ⟨before, links⟩ | ⟨before, none_⟩
            · exact ⟨index, (pending before).once call.before
                ⟨newNode, inside, action, event.trans links⟩⟩
            · obtain ⟨step, once⟩ := linked before
              exact ⟨step, once.succ (not_links_of_event (event.trans none_))⟩
      · next threadIndex detectType deqPc pc =>
        simp only [Option.map_eq_some_iff] at step
        obtain ⟨⟨store, following⟩, step, after⟩ := step
        rw [← after, State.goto_threads, Function.update_self]
        cases following with
        | inl | inr => trivial
    | writeBack address =>
      rw [action] at other
      cases other
  · rw [next_threads step other]
    obtain ⟨notBegins, -, notLinks, -⟩ := others_kept other
    cases pc : (run.state index).threads thread with
    | idle | deq => trivial
    | loadCell detectType =>
      rw [pc] at history
      obtain ⟨begin, call, never⟩ := history
      exact ⟨begin, call.succ notBegins, never.succ notLinks⟩
    | enq newNode detectType enqPc =>
      rw [pc] at history
      obtain ⟨begin, call, pending, linked⟩ := history
      refine ⟨begin, call.succ notBegins, fun still => (pending still).succ notLinks,
        fun done => ?_⟩
      obtain ⟨step, once⟩ := linked done
      exact ⟨step, once.succ notLinks⟩

theorem DeqHistory.succ {view : Nat → View} {begin : Nat} {pc : DeqPc}
    (history : DeqHistory run view thread begin index pc) (notBegins : ¬ DeqBegins run thread index)
    (notMarks : ¬ ∃ node, Marks run thread node index) :
    DeqHistory run view thread begin (index + 1) pc where
  call := history.call.succ notBegins
  never none_ := (history.never none_).succ notMarks
  once node won := by
    obtain ⟨step, once, marks⟩ := history.once node won
    exact ⟨step, once.succ notMarks, marks⟩
  empty here := by
    obtain ⟨instant, after, before, one⟩ := history.empty here
    exact ⟨instant, after, Nat.le_succ_of_le before, one⟩

/-- A step of `deq()` that does not return. -/
theorem DeqHistory.step {view : Nat → View} {begin : Nat} {pc following : DeqPc}
    {memory' : Address → Option Nat} {cell : Address}
    (history : DeqHistory run view thread begin index pc) (inside : index < run.length)
    (action : run.action index = .step thread)
    (event : (run.state index).event (.step thread) = deqEvent (run.state index).store.memory pc)
    (shape : Shape (run.state index).store.memory (view index)) (fits : pc.Fits (view index))
    (follows : pc.Follows (run.state index).store.memory memory' cell (.inl following)) :
    DeqHistory run view thread begin (index + 1) following := by
  obtain ⟨wins, stays, empty⟩ := follows
  refine
    { call := history.call.succ (not_begins_of_step action).2
      never := fun none_ => ?_
      once := fun node won => ?_
      empty := fun here => ?_ }
  · obtain ⟨before, noEvent⟩ := stays none_
    exact (history.never before).succ (not_marks_of_event (event.trans noEvent))
  · rcases wins node won with ⟨before, noEvent⟩ | ⟨before, marks⟩
    · obtain ⟨step, once, marks⟩ := history.once node before
      exact ⟨step, once.succ (not_marks_of_event (event.trans noEvent)), marks⟩
    · have now : Marks run thread node index := ⟨inside, action, event.trans marks⟩
      exact ⟨index, (history.never before).once history.call.before ⟨node, now⟩, now⟩
  · rcases empty here with before | ⟨first, last, rfl, end_⟩
    · obtain ⟨instant, after, inside, one⟩ := history.empty before
      exact ⟨instant, after, Nat.le_succ_of_le inside, one⟩
    · obtain ⟨node, -, between⟩ := fits
      exact ⟨index, history.call.before, Nat.le_succ index,
        shape.one_unmarked between.reached end_⟩

theorem deqHistory_succ {view : Nat → View} (inside : index < run.length)
    (sound : Sound (run.state index) (view index))
    (history : ∀ threadIndex detectType pc,
      (run.state index).threads thread = .deq threadIndex detectType pc →
      ∃ begin, DeqHistory run view thread begin index pc)
    {threadIndex : Nat} {detectType : Int} {pc : DeqPc}
    (here : (run.state (index + 1)).threads thread = .deq threadIndex detectType pc) :
    ∃ begin, DeqHistory run view thread begin (index + 1) pc := by
  have step : (run.state index).next (run.action index) = some (run.state (index + 1)) :=
    run.steps index inside
  by_cases other : (run.action index).thread = some thread
  · cases action : run.action index with
    | enq acting node detect =>
      rw [action] at other step
      cases other
      simp only [State.next] at step
      split at step
      · rw [← Option.some.inj step, State.goto_threads, Function.update_self] at here
        cases here
      · cases step
    | deq acting acted detect =>
      rw [action] at other step
      cases other
      simp only [State.next] at step
      split at step
      · rw [← Option.some.inj step, State.goto_threads, Function.update_self] at here
        cases here
        exact ⟨index, .start ⟨inside, _, _, action⟩, fun _ => never_start, fun _ won => won.elim,
          False.elim⟩
      · cases step
    | step acting =>
      rw [action] at other step
      cases other
      simp only [State.next, State.stepThread] at step
      split at step
      · cases step
      · simp only [Option.map_eq_some_iff] at step
        obtain ⟨newNode, -, after⟩ := step
        rw [← after, State.goto_threads, Function.update_self] at here
        cases here
      · simp only [Option.map_eq_some_iff] at step
        obtain ⟨⟨store, following⟩, -, after⟩ := step
        rw [← after, State.goto_threads, Function.update_self] at here
        cases following with
        | none | some => cases here
      · next acted detect deqPc before =>
        simp only [Option.map_eq_some_iff] at step
        obtain ⟨⟨store, following⟩, step, after⟩ := step
        rw [← after, State.goto_threads, Function.update_self] at here
        obtain ⟨begin, known⟩ := history acted detect deqPc before
        have fits := sound.fits thread
        rw [before] at fits
        have event : (run.state index).event (.step thread) =
            deqEvent (run.state index).store.memory deqPc := by
          simp only [State.event, before]
        cases following with
        | inl following =>
          cases here
          have isCell : Address.IsCell (.deqCell thread) := trivial
          exact ⟨begin, known.step inside action event sound.shape fits (stepDeq_follows isCell step)⟩
        | inr => cases here
    | writeBack address =>
      rw [action] at other
      cases other
  · rw [next_threads step other] at here
    obtain ⟨begin, known⟩ := history threadIndex detectType pc here
    obtain ⟨-, notBegins, -, notMarks⟩ := others_kept other
    exact ⟨begin, known.succ notBegins notMarks⟩

end History

/-- The queue of a run at each point. -/
structure Simulates (run : Run (systemFrom start)) (first : View) (view : Nat → View) : Prop where
  sound : ∀ index ≤ run.length, Sound (run.state index) (view index)
  le : ∀ index < run.length, (view index).Le (view (index + 1))
  applies : ∀ index < run.length,
    (view index).Applies (view (index + 1)) ((run.state index).event (run.action index))
  start : view 0 = first

theorem Sound.exists_simulates {first : View} (sound : Sound start first)
    (run : Run (systemFrom start)) : ∃ view, Simulates run first view := by
  have starts : run.state 0 = start := run.starts
  have initially : Sound (run.state 0) first := by
    rw [starts]
    exact sound
  obtain ⟨view, start, sound, moves⟩ := run.exists_simulation run.meets_true Sound
    (fun before action _ view view' => view.Le view' ∧ view.Applies view' (before.event action))
    initially fun before action after view sound _ step => by
      obtain ⟨view', after, rest⟩ := Sound.next sound step
      exact ⟨view', after, rest⟩
  exact ⟨view, sound, fun index inside => (moves index inside).1,
    fun index inside => (moves index inside).2, start⟩

section Simulates

variable {run : Run (systemFrom start)} {first : View} {view : Nat → View}

theorem Simulates.mono (simulates : Simulates run first view) {earlier last : Nat}
    (later : earlier ≤ last) (inside : last ≤ run.length) : (view earlier).Le (view last) := by
  induction last, later using Nat.le_induction with
  | base => exact .refl _
  | succ last _ inductionHypothesis =>
    exact (inductionHypothesis (Nat.le_of_lt inside)).trans (simulates.le last inside)

theorem Simulates.links (simulates : Simulates run first view) {thread node index : Nat}
    (links : Links run thread node index) :
    (view (index + 1)).order = (view index).order ++ [node] := by
  obtain ⟨inside, action, event⟩ := links
  have applies := simulates.applies index inside
  rw [action, event] at applies
  exact applies.1

theorem Simulates.marks (simulates : Simulates run first view) {thread node index : Nat}
    (marks : Marks run thread node index) :
    (view (index + 1)).marked = (view index).marked + 1 ∧
      (view index).order[(view index).marked]? = some node := by
  obtain ⟨inside, action, event⟩ := marks
  have applies := simulates.applies index inside
  rw [action, event] at applies
  exact applies.2

/-- A step with an event is one of a thread. -/
theorem step_of_event {state : State} {action : Action} {event : Event}
    (happens : state.event action = some event) : ∃ thread, action = .step thread := by
  cases action with
  | step thread => exact ⟨thread, rfl⟩
  | enq | deq | writeBack => cases happens

theorem Simulates.linked_before (simulates : Simulates run first view) {index : Nat}
    (inside : index ≤ run.length) {node : Nat} (member : node ∈ (view index).order)
    (other : node ∉ first.order) : ∃ step < index, ∃ thread, Links run thread node step := by
  induction index with
  | zero =>
    rw [simulates.start] at member
    exact absurd member other
  | succ index inductionHypothesis =>
    by_cases before : node ∈ (view index).order
    · obtain ⟨step, earlier, links⟩ := inductionHypothesis (Nat.le_of_lt inside) before
      exact ⟨step, Nat.lt_succ_of_lt earlier, links⟩
    · have applies := simulates.applies index inside
      cases event : (run.state index).event (run.action index) with
      | none =>
        rw [event] at applies
        exact absurd (applies.1 ▸ member) before
      | some event' =>
        obtain ⟨thread, action⟩ := step_of_event event
        rw [event] at applies
        cases event' with
        | mark => exact absurd (applies.1 ▸ member) before
        | link added =>
          rw [applies.1, List.mem_append, List.mem_singleton] at member
          rcases member with earlier | rfl
          · exact absurd earlier before
          · rw [action] at event
            exact ⟨index, Nat.lt_succ_self index, thread, inside, action, event⟩

theorem Simulates.links_unique (simulates : Simulates run first view)
    {node one two step other : Nat} (here : Links run one node step)
    (there : Links run two node other) : step ≤ other := by
  by_contra later
  have after : other + 1 ≤ step := Nat.lt_of_not_le later
  have member : node ∈ (view (other + 1)).order := by
    rw [simulates.links there]
    exact List.mem_append_right _ (List.mem_singleton_self node)
  have stays := (simulates.mono after (Nat.le_of_lt here.1)).order.subset member
  have nodup := (simulates.sound (step + 1) here.1).shape.linked.nodup
  rw [simulates.links here, List.nodup_append] at nodup
  exact nodup.2.2 node stays node (List.mem_singleton_self node) rfl

theorem Simulates.marked_before (simulates : Simulates run first view) {index : Nat}
    (inside : index ≤ run.length) {place : Nat} (below : place < (view index).marked) {node : Nat}
    (later : first.marked ≤ place) (here : (view index).order[place]? = some node) :
    ∃ step < index, ∃ thread, Marks run thread node step := by
  induction index with
  | zero =>
    rw [simulates.start] at below
    exact absurd below (Nat.not_lt.2 later)
  | succ index inductionHypothesis =>
    have sound := simulates.sound index (Nat.le_of_lt inside)
    by_cases before : place < (view index).marked
    · have place_lt : place < (view index).order.length := by
        have := sound.shape.marked_le
        have := sound.shape.tail_lt
        omega
      have there := index_of_longer (simulates.le index inside).order
        (List.getElem?_eq_getElem place_lt)
      have same := (List.getElem?_eq_getElem place_lt).trans (there.symm.trans here)
      obtain ⟨step, earlier, marks⟩ := inductionHypothesis (Nat.le_of_lt inside) before same
      exact ⟨step, Nat.lt_succ_of_lt earlier, marks⟩
    · have applies := simulates.applies index inside
      cases event : (run.state index).event (run.action index) with
      | none =>
        rw [event] at applies
        exact absurd (applies.2 ▸ below) before
      | some event' =>
        obtain ⟨thread, action⟩ := step_of_event event
        rw [event] at applies
        cases event' with
        | link => exact absurd (applies.2 ▸ below) before
        | mark marked =>
          obtain ⟨order, count, first⟩ := applies
          have same : place = (view index).marked := by omega
          rw [order, same, first] at here
          cases here
          rw [action] at event
          exact ⟨index, Nat.lt_succ_self index, thread, inside, action, event⟩

theorem Simulates.marks_unique (simulates : Simulates run first view)
    {node one two step other : Nat} (here : Marks run one node step)
    (there : Marks run two node other) : step ≤ other := by
  by_contra later
  have after : other + 1 ≤ step := Nat.lt_of_not_le later
  obtain ⟨-, atStep⟩ := simulates.marks here
  obtain ⟨count, atOther⟩ := simulates.marks there
  have order := (simulates.mono (Nat.le_of_succ_le after) (Nat.le_of_lt here.1)).order
  have same := (simulates.sound step (Nat.le_of_lt here.1)).shape.linked.index_unique atStep
    (index_of_longer order atOther)
  have marked := (simulates.mono after (Nat.le_of_lt here.1)).marked
  omega

theorem enqHistory_of_run (idle : ∀ thread, (start.threads thread).Idle)
    (run : Run (systemFrom start)) (thread index : Nat) (inside : index ≤ run.length) :
    EnqHistory run thread index ((run.state index).threads thread) := by
  induction index with
  | zero =>
    have starts : run.state 0 = start := run.starts
    have here := idle thread
    rw [starts]
    cases pc : start.threads thread with
    | idle | deq => trivial
    | loadCell | enq =>
      rw [pc] at here
      exact here.elim
  | succ index inductionHypothesis =>
    exact enqHistory_succ inside (inductionHypothesis (Nat.le_of_lt inside))

theorem Simulates.deqHistory (simulates : Simulates run first view)
    (idle : ∀ thread, (start.threads thread).Idle) (thread : Nat) {index : Nat}
    (inside : index ≤ run.length) {threadIndex : Nat} {detectType : Int} {pc : DeqPc}
    (here : (run.state index).threads thread = .deq threadIndex detectType pc) :
    ∃ begin, DeqHistory run view thread begin index pc := by
  induction index generalizing threadIndex detectType pc with
  | zero =>
    have starts : run.state 0 = start := run.starts
    have notIn := idle thread
    rw [starts] at here
    rw [here] at notIn
    exact notIn.elim
  | succ index inductionHypothesis =>
    exact deqHistory_succ inside (simulates.sound index (Nat.le_of_lt inside))
      (fun _ _ _ before => inductionHypothesis (Nat.le_of_lt inside) before) here

theorem enq_once (idle : ∀ thread, (start.threads thread).Idle) {run : Run (systemFrom start)}
    {thread index : Nat} (returns : EnqReturns run thread index) :
    ∃ begin step, Call (EnqBegins run thread) begin (index + 1) ∧
      Once (fun step => ∃ node, Links run thread node step) begin (index + 1) step := by
  obtain ⟨inside, action, ⟨newNode, detectType, pc, here⟩, returned⟩ := returns
  have history := enqHistory_of_run idle run thread index (Nat.le_of_lt inside)
  rw [here] at history
  obtain ⟨begin, call, -, linked⟩ := history
  have step : (run.state index).next (run.action index) = some (run.state (index + 1)) :=
    run.steps index inside
  rw [action] at step
  simp only [State.next, State.stepThread, here, Option.map_eq_some_iff] at step
  obtain ⟨⟨store, following⟩, step, after⟩ := step
  rw [← after, State.goto_threads, Function.update_self] at returned
  have event : (run.state index).event (.step thread) =
      enqEvent (run.state index).store.memory newNode pc := by
    simp only [State.event, here]
  cases following with
  | some => cases returned
  | none =>
    obtain ⟨done, none_⟩ := stepEnq_follows step
    obtain ⟨step, once⟩ := linked done
    exact ⟨begin, step, call.succ (not_begins_of_step action).1,
      once.succ (not_links_of_event (event.trans none_))⟩

/-- Where `deq()` is when it returns. -/
theorem Simulates.deq_returns (simulates : Simulates run first view)
    (idle : ∀ thread, (start.threads thread).Idle) {thread index : Nat} {result : Bool}
    (returns : DeqReturns run thread result index) :
    ∃ begin pc, DeqHistory run view thread begin index pc ∧
      pc.Follows (run.state index).store.memory (run.state (index + 1)).store.memory
        (.deqCell thread) (.inr result) ∧
      (run.state index).event (.step thread) = deqEvent (run.state index).store.memory pc ∧
      ∀ node, pc.Holds node → (run.state index).store.memory (.deqCell thread) = some node := by
  obtain ⟨inside, action, returned⟩ := returns
  have step : (run.state index).next (run.action index) = some (run.state (index + 1)) :=
    run.steps index inside
  rw [action] at step
  simp only [State.next, State.stepThread] at step
  split at step
  · cases step
  · simp only [Option.map_eq_some_iff] at step
    obtain ⟨newNode, -, after⟩ := step
    rw [← after, State.goto_threads, Function.update_self] at returned
    cases returned
  · simp only [Option.map_eq_some_iff] at step
    obtain ⟨⟨store, following⟩, -, after⟩ := step
    rw [← after, State.goto_threads, Function.update_self] at returned
    cases following with
    | none | some => cases returned
  · next threadIndex detectType pc here =>
    simp only [Option.map_eq_some_iff] at step
    obtain ⟨⟨store, following⟩, step, after⟩ := step
    rw [← after, State.goto_threads, Function.update_self] at returned
    obtain ⟨begin, history⟩ := simulates.deqHistory idle thread (Nat.le_of_lt inside) here
    cases following with
    | inl => cases returned
    | inr value =>
      cases returned
      refine ⟨begin, pc, history, ?_, ?_, fun node held => ?_⟩
      · rw [← after]
        exact stepDeq_follows trivial step
      · simp only [State.event, here]
      · refine (simulates.sound index (Nat.le_of_lt inside)).holds thread node ?_
        rw [here]
        exact held

end Simulates

/-- Every run from a sound state in which no thread is in a call is one of a FIFO queue. -/
theorem Sound.exists_fifo {first : View} (sound : Sound start first)
    (idle : ∀ thread, (start.threads thread).Idle) (run : Run (systemFrom start)) :
    ∃ view, Fifo run first view := by
  obtain ⟨view, simulates⟩ := sound.exists_simulates run
  refine ⟨view,
    { starts := simulates.start
      grows := fun index inside => ?_
      shape := fun index inside => (simulates.sound index inside).shape
      applies := simulates.applies
      linkedOnce := fun index inside node member other => ?_
      markedOnce := fun index inside place below node later here => ?_
      enq := fun thread index returns => enq_once idle returns
      deqTrue := fun thread index returns => ?_
      deqFalse := fun thread index returns => ?_ }⟩
  · rw [← simulates.start]
    exact (simulates.mono (Nat.zero_le index) inside).order
  · obtain ⟨step, earlier, thread, links⟩ := simulates.linked_before inside member other
    exact ⟨step, earlier, ⟨thread, links⟩, fun second two again =>
      Nat.le_antisymm (simulates.links_unique again links) (simulates.links_unique links again)⟩
  · obtain ⟨step, earlier, thread, marks⟩ := simulates.marked_before inside below later here
    exact ⟨step, earlier, ⟨thread, marks⟩, fun second two again =>
      Nat.le_antisymm (simulates.marks_unique again marks) (simulates.marks_unique marks again)⟩
  · obtain ⟨begin, pc, history, ⟨⟨node, won, held⟩, none_, kept⟩, event, holds⟩ :=
      simulates.deq_returns idle returns
    obtain ⟨step, once, marks⟩ := history.once node won
    exact ⟨begin, step, node, history.call.succ (not_begins_of_step returns.2.1).2,
      once.succ (not_marks_of_event (event.trans none_)), marks, kept.trans (holds node held)⟩
  · obtain ⟨begin, pc, history, ⟨empty, unmarked, none_⟩, event, -⟩ :=
      simulates.deq_returns idle returns
    exact ⟨begin, history.call.succ (not_begins_of_step returns.2.1).2,
      (history.never unmarked).succ (not_marks_of_event (event.trans none_)), history.empty empty⟩

/-- The queue over plain `CompareExchange64` is a FIFO queue in every run. -/
theorem exists_fifo_of_run (sentinel : Nat) (run : Run (system sentinel)) :
    ∃ view, Fifo run ⟨⟨[sentinel], 0, 0⟩, 0⟩ view :=
  (Sound.start sentinel).exists_fifo (fun _ => trivial) run

end Runs

end Pmwcas.MSQueueByOrgCas
