/-
This file is about the recoverable lock over FASAS (`RecoverMutexNew`), which has the same `lock()`
and `unlock()` as the lock over `MwCAS` and other operations underneath: `FetchStoreStore::process`
and `FetchStoreStore::dcas`, each an atomic step with the effect of `FASASDescriptor::process()`.

`dcas` is called with the old values of both words but compares only the first one. In `unlock()`
this makes no difference. In `lock()` the second word is `linked`, which is to keep a restarted
process from linking itself again: it may have read its `prev` before it got the lock, and then
writes itself into `next` of a process that has come back and waits behind it. The lock excludes as
long as no linked process links itself to a node without a next one.
-/

import Pmwcas.RecoverMutex

namespace Pmwcas.RecoverMutexNew

open Transition RecoverMutex

/-! ### The system -/

/-- What a successful `FetchStoreStore::dcas` leaves. It succeeds if the first word has its old
value, whatever the second one has. -/
def dcas (memory : Memory) (targetAddr1 targetAddr2 : Address) (newVal1 newVal2 : Value) : Memory :=
  Function.update (Function.update memory targetAddr1 newVal1) targetAddr2 newVal2

/-- One step of a process inside a call. Loads, stores and `FetchStoreStore::process` are those of
the lock over `MwCAS`. -/
def stepProcess (state : State) (p : Nat) : Option State :=
  match state.pcs p with
  | .link (.node q) =>
    if state.memory (.next q) = .null then
      some ({ state with
        memory := dcas state.memory (.next q) (.linked p) (.node p) (.word 1) }.goto p .spinPrev)
    else some (state.goto p .spinPrev)
  | .dequeue =>
    if state.memory .tail = .node p then
      some ({ state with memory := dcas state.memory .tail (.prev p) .null (.node p) }.goto p .outside)
    else some (state.goto p .spinNext)
  | _ => state.stepProcess p

/-- The steps of the system. -/
def next (state : State) : Action → Option State
  | .lock p => if state.pcs p = .outside then some (state.goto p .loadPrev) else none
  | .unlock p => if state.pcs p = .critical then some (state.goto p .dequeue) else none
  | .step p => stepProcess state p
  | .crash p => some (state.goto p .outside)

/-- The lock under any number of processes. -/
def system : System State Action :=
  .ofNext (fun state => state = .start) next

/-! ### Mutual exclusion -/

/-- In this step `lock()` of process `p` returns. -/
def LockReturns (run : Run system) (p index : Nat) : Prop :=
  index < run.length ∧ run.action index = .step p ∧ (run.state (index + 1)).pcs p = .critical

/-- In this step `unlock()` of process `p` returns. -/
def UnlockReturns (run : Run system) (p index : Nat) : Prop :=
  index < run.length ∧ run.action index = .step p ∧ (run.state (index + 1)).pcs p = .outside

/-- What the lock promises over a run. -/
structure MutualExclusion (run : Run system) : Prop where
  queue : ∀ index ≤ run.length, ∃ queue, Queue (run.state index).memory queue ∧
    (∀ p, p ∈ queue ↔ (run.state index).memory (.prev p) ≠ .node p) ∧
    ((run.state index).memory .tail = .null ↔ queue = [])
  exclusive : ∀ index ≤ run.length, ∀ p q, (run.state index).memory (.prev p) = .null →
    (run.state index).memory (.prev q) = .null → p = q
  /-- In the critical section is only the process with `prev == NULL`. -/
  critical : ∀ index ≤ run.length, ∀ p, (run.state index).pcs p = .critical →
    (run.state index).memory (.prev p) = .null
  locked : ∀ p index, LockReturns run p index →
    (run.state (index + 1)).memory (.prev p) = .null
  unlocked : ∀ p index, UnlockReturns run p index →
    (run.state (index + 1)).memory (.prev p) = .node p ∧
      (Empties (run.state (index + 1)).memory ∨
        ∃ q, HandsOver (run.state index).memory (run.state (index + 1)).memory p q)

/-- The condition: a process that is linked does not link itself to a node without a next one. -/
def LinksOnce (state : State) (action : Action) : Prop :=
  ∀ p q, action = .step p → state.pcs p = .link (.node q) → state.memory (.next q) = .null →
    state.memory (.linked p) = .word 0

/-! ### The simulation -/

theorem expects_iff {memory : Memory} {first second : Address} {old new : Value}
    (there : memory first = old → memory second = new) :
    memory.Expects first second old new ↔ memory first = old :=
  ⟨fun both => both.1, fun here => ⟨here, there here⟩⟩

/-- Under the condition a step is one of the lock over `MwCAS`. -/
theorem stepProcess_eq {state : State} {p : Nat} (invariant : Invariant state)
    (once : LinksOnce state (.step p)) : stepProcess state p = state.stepProcess p := by
  unfold stepProcess
  split
  · next q pc =>
    have same := expects_iff (once p q rfl pc)
    unfold State.stepProcess
    simp only [pc, same]
    rfl
  · next pc =>
    have same : state.memory.Expects .tail (.prev p) (.node p) .null ↔
        state.memory .tail = .node p := by
      refine expects_iff fun _ => ?_
      obtain ⟨queue, -, fits⟩ := invariant
      have own := fits p
      rw [pc] at own
      exact own
    unfold State.stepProcess
    simp only [pc, same]
    rfl
  · rfl

theorem next_eq {state : State} {action : Action} (invariant : Invariant state)
    (once : LinksOnce state action) : next state action = state.next action := by
  cases action with
  | step p => exact stepProcess_eq invariant once
  | lock | unlock | crash => rfl

theorem invariant_of_run (run : Run system) (meets : run.Meets LinksOnce) (index : Nat)
    (inside : index ≤ run.length) : Invariant (run.state index) := by
  refine run.invariant meets (fun _ started => started ▸ invariant_start)
    (fun before action after holds allowed step => ?_) index inside
  have performed : next before action = some after := step
  rw [next_eq holds allowed] at performed
  exact holds.next performed

/-- In every run whose linking steps meet the condition, the lock excludes. -/
theorem excludes_of_run (run : Run system) (meets : run.Meets LinksOnce) : MutualExclusion run where
  queue index inside := by
    obtain ⟨queue, holds, -⟩ := invariant_of_run run meets index inside
    exact ⟨queue, holds, fun p => holds.mem_iff, holds.tail_eq_null_iff⟩
  exclusive index inside p q first second := by
    obtain ⟨queue, holds, -⟩ := invariant_of_run run meets index inside
    exact holds.eq_of_null first second
  critical index inside p within :=
    (invariant_of_run run meets index inside).prev_of_critical within
  locked p index returns :=
    (invariant_of_run run meets (index + 1) returns.1).prev_of_critical returns.2.2
  unlocked p index returns := by
    obtain ⟨inside, acts, outside⟩ := returns
    have invariant := invariant_of_run run meets index (Nat.le_of_lt inside)
    have allowed := meets index inside
    have performed : next (run.state index) (run.action index) = some (run.state (index + 1)) :=
      run.steps index inside
    rw [acts] at performed allowed
    rw [next_eq invariant allowed] at performed
    exact invariant.unlocked performed outside

/-! ### Concrete runs -/

/-- A test of the condition. -/
def linksOnce (state : State) : Action → Bool
  | .step p =>
    match state.pcs p with
    | .link (.node q) => state.memory (.next q) != .null || state.memory (.linked p) == .word 0
    | _ => true
  | _ => true

theorem linksOnce_of_test {state : State} {action : Action} (passes : linksOnce state action = true) :
    LinksOnce state action := by
  intro p q acts pc free
  subst acts
  simpa [linksOnce, pc, free] using passes

/-- There the restarted process 1 finds itself in `next` of process 0. -/
theorem excludes_of_run_bothCrash : ∃ run : Run system, run.Meets LinksOnce ∧
    UnlockReturns run 0 24 ∧ LockReturns run 1 25 ∧ UnlockReturns run 1 27 ∧
      MutualExclusion run := by
  obtain ⟨run, length, states, actions⟩ := exists_run_of_next (fun state => state = .start)
    next rfl bothCrash (by decide +kernel)
  have meets : run.Meets LinksOnce := by
    intro index inside
    rw [actions]
    exact linksOnce_of_test (test_of_replayTests linksOnce (by decide +kernel) (length ▸ inside)
      (states index))
  have returned : ∀ p index, index < 28 → bothCrash.getD index default = .step p → ∀ pc,
      (replay next (bothCrash.take (index + 1)) State.start).any
        (fun state => state.pcs p = pc) = true →
      index < run.length ∧ run.action index = .step p ∧ (run.state (index + 1)).pcs p = pc := by
    intro p index inside acts pc passes
    exact ⟨length ▸ inside, (actions index).trans acts,
      satisfies_of_replay (fun state => state.pcs p = pc) (states (index + 1)) passes⟩
  exact ⟨run, meets, returned 0 24 (by decide) rfl .outside (by decide +kernel),
    returned 1 25 (by decide) rfl .critical (by decide +kernel),
    returned 1 27 (by decide) rfl .outside (by decide +kernel), excludes_of_run run meets⟩

/-- Process 1 waits behind process 0, crashes, restarts and reads its `prev`. Process 0 hands the
lock over and comes back behind process 1, which then links itself to it once more. Process 2 finds
`next` of process 0 taken, and process 0 hands the lock over to process 1, which does not wait. -/
def linkedAgain : List Action :=
  Action.lock 0 :: List.replicate 5 (Action.step 0) ++ Action.lock 1 :: List.replicate 6 (Action.step 1) ++
    [Action.crash 1, Action.lock 1, Action.step 1] ++ Action.unlock 0 :: List.replicate 6 (Action.step 0) ++
    Action.lock 0 :: List.replicate 4 (Action.step 0) ++ List.replicate 2 (Action.step 1) ++
    List.replicate 2 (Action.step 0) ++ Action.unlock 1 :: List.replicate 6 (Action.step 1) ++
    Action.lock 2 :: List.replicate 6 (Action.step 2) ++ Action.step 0 :: Action.unlock 0 ::
    List.replicate 6 (Action.step 0)

/-- The last `unlock()` of process 0 leaves its own `prev` at process 1. -/
theorem exists_not_mutualExclusion : ∃ run : Run system, UnlockReturns run 0 53 ∧
    (run.state 54).memory (.prev 0) = .node 1 ∧ ¬ MutualExclusion run := by
  obtain ⟨run, length, states, actions⟩ := exists_run_of_next (fun state => state = .start)
    next rfl linkedAgain (by decide +kernel)
  have found := satisfies_of_replay (fun state => state.memory (.prev 0) = .node 1 ∧
    state.pcs 0 = .outside) (states 54) (by decide +kernel)
  have returns : UnlockReturns run 0 53 :=
    ⟨by rw [length]; decide, (actions 53).trans (by decide), found.2⟩
  refine ⟨run, returns, found.1, fun exclusion => ?_⟩
  have absurdly := (exclusion.unlocked 0 53 returns).1
  rw [found.1] at absurdly
  cases absurdly

end Pmwcas.RecoverMutexNew
