/-
This file puts the frames of `Machine.lean` together to a system: any number of threads, each
running `MwCAS()` or a read, interleaved step by step, with descriptors recycled and reused and
words written back to NVM at any time.

A call of `MwCAS()` begins with the descriptor filled by `AddEntry` and its status set to
Undecided: until the first exchange installs a pointer the descriptor is known to its owner alone.
A descriptor on the garbage list is recycled by `FreeDescriptor` in some later step. A thread is
inside a call on a descriptor when one of its frames runs on it or holds a pointer to it that it
read from a target word. The epochs keep the descriptor for the threads that were inside a call
when it was pushed, not for a thread that came later and read a pointer that a delayed helper had
put back. That nobody is inside a call on a recycled descriptor is therefore no guard of the step
but a condition on runs, `RecyclesUnused`.
-/

import Pmwcas.Library.Transition
import Pmwcas.Machine

namespace Pmwcas

/-! ### States and actions -/

/-- A state of the system: shared memory and the call stack of every thread. -/
structure State where
  shared : Shared
  threads : Nat → List Frame

/-- What can happen next. -/
inductive Action where
  /-- Thread `t` performs the next step of its call. -/
  | step (t : Nat)
  /-- Thread `t` calls `MwCAS()` on descriptor `d`, filled with the requested entries. -/
  | mwCAS (t d : Nat) (requests : List Request)
  /-- Thread `t` reads a target word with `GetValueProtected`. -/
  | getValue (t address : Nat)
  /-- A target word is written back to NVM. -/
  | writeBack (address : Nat)
  /-- A field of a descriptor is written back to NVM. -/
  | writeBackField (d : Nat) (field : Field)
  /-- Descriptor `d` is recycled by `FreeDescriptor`. -/
  | recycle (d : Nat)
  deriving DecidableEq, Repr

instance : Inhabited Action := ⟨.step 0⟩

/-! ### Which descriptors a frame is working with -/

/-- A local variable holds a pointer to descriptor `d` or to one of its word descriptors. -/
def Pc.Holds (pool : Pool) (d : Nat) : Pc → Prop
  | .loadDesired _ pointer => pool.descriptorAt pointer.rest = d
  | .recheckWord _ pointer _ => pool.descriptorAt pointer.rest = d
  | .loadResolve _ pointer _ => pool.descriptorAt pointer.rest = d
  | .casResolve _ pointer _ _ => pool.descriptorAt pointer.rest = d
  | .flushConflict _ rval => pool.descriptorAt rval.rest = d
  | .clearConflict _ rval => pool.descriptorAt rval.rest = d
  | .help _ rval => pool.descriptorAt rval.rest = d
  | _ => False

/-- A reader's local variable holds a pointer to descriptor `d` or to one of its word
descriptors. -/
def ReadPc.Holds (pool : Pool) (d : Nat) : ReadPc → Prop
  | .loadStatus val => pool.descriptorAt val.rest = d
  | .casCond val _ => pool.descriptorAt val.rest = d
  | .flush val => val.mwcas = true ∧ pool.descriptorAt val.rest = d
  | .clear val => val.mwcas = true ∧ pool.descriptorAt val.rest = d
  | .help val => pool.descriptorAt val.rest = d
  | _ => False

/-- The frame is inside a call on descriptor `d`: it runs on it or holds a pointer to it. -/
def Frame.Uses (pool : Pool) (d : Nat) : Frame → Prop
  | .mwCAS own _ pc => own = d ∨ pc.Holds pool d
  | .getValue _ pc => pc.Holds pool d

/-! ### The steps of the system -/

namespace State

/-- Thread `t` performs one step of its top frame. -/
def stepThread (build : Build) (pool : Pool) (state : State) (t : Nat) : Option State :=
  match state.threads t with
  | [] => none
  | frame :: rest =>
    let result := frame.step build pool state.shared
    some {
      shared := result.1
      threads := Function.update state.threads t (result.2.stack rest) }

/-- The state in which thread `t` has just called `MwCAS()` on the filled descriptor `d`. -/
def beginMwCAS (build : Build) (state : State) (t d : Nat) (filled : Descriptor) : State where
  shared := { state.shared with
    desc := Function.update state.shared.desc d { filled with status := .of .undecided } }
  threads := Function.update state.threads t [.mwCAS d 0 (.entry build 0)]

/-- The state in which thread `t` has just called `GetValueProtected`. -/
def beginGetValue (state : State) (t address : Nat) : State :=
  { state with threads := Function.update state.threads t [.getValue address .load] }

/-- A target word reaches NVM. -/
def writeBack (state : State) (address : Nat) : State :=
  { state with shared := state.shared.persistAddress address }

/-- A field of a descriptor reaches NVM. -/
def writeBackField (state : State) (d : Nat) (field : Field) : State :=
  { state with shared := { state.shared with
      nvDesc := Function.update state.shared.nvDesc d
        ((state.shared.desc d).copyField (state.shared.nvDesc d) field) } }

/-- `FreeDescriptor`. -/
def recycle (state : State) (d : Nat) : State :=
  { state with shared := { state.shared with
      desc := Function.update state.shared.desc d .initialized
      garbage := state.shared.garbage.erase d } }

/-- No thread is inside a call on descriptor `d`. -/
def Unused (pool : Pool) (state : State) (d : Nat) : Prop :=
  ∀ t, ∀ frame ∈ state.threads t, ¬ frame.Uses pool d

end State

/-- The steps of the system. -/
inductive Step (build : Build) (pool : Pool) : State → Action → State → Prop where
  | step {state after : State} {t : Nat} (performed : state.stepThread build pool t = some after) :
      Step build pool state (.step t) after
  | mwCAS {state : State} {t d : Nat} {requests : List Request} {filled : Descriptor}
      (idle : state.threads t = []) (inside : d < pool.size)
      (free : (state.shared.desc d).status = .of .finished)
      (valid : ∀ request ∈ requests, request.Valid)
      (added : (state.shared.desc d).addEntries (pool.descriptorAddress d) requests = .ok filled) :
      Step build pool state (.mwCAS t d requests) (state.beginMwCAS build t d filled)
  | getValue {state : State} {t address : Nat} (idle : state.threads t = []) :
      Step build pool state (.getValue t address) (state.beginGetValue t address)
  | writeBack {state : State} (address : Nat) :
      Step build pool state (.writeBack address) (state.writeBack address)
  | writeBackField {state : State} (d : Nat) (field : Field) :
      Step build pool state (.writeBackField d field) (state.writeBackField d field)
  | recycle {state : State} {d : Nat} (pushed : d ∈ state.shared.garbage) :
      Step build pool state (.recycle d) (state.recycle d)

/-- A start: a constructed pool, no thread inside a call, and target words without pointers. -/
structure Initial (build : Build) (state : State) : Prop where
  idle : ∀ t, state.threads t = []
  fresh : ∀ d, state.shared.desc d = .initialized
  values : ∀ address, (state.shared.mem address).IsValue
  clean : build = .volatile → ∀ address, (state.shared.mem address).dirty = false
  garbage : state.shared.garbage = []

/-- The system of one build and one pool. -/
def system (build : Build) (pool : Pool) : Transition.System State Action where
  initial := Initial build
  step := Step build pool

/-- No descriptor is recycled while a thread is inside a call on it. -/
def RecyclesUnused (pool : Pool) (state : State) (action : Action) : Prop :=
  ∀ d, action = .recycle d → state.Unused pool d

/-- The action recycles a descriptor. -/
def Action.recycles : Action → Bool
  | .recycle _ => true
  | _ => false

/-- A run that recycles nothing recycles nothing that is in use. -/
theorem recyclesUnused_of_actions {build : Build} {pool : Pool}
    {run : Transition.Run (system build pool)} {actions : List Action}
    (acts : ∀ index, run.action index = actions.getD index default)
    (none_ : actions.all (fun action => !action.recycles) = true) :
    run.Meets (RecyclesUnused pool) := by
  intro index _ d recycles
  rw [acts index] at recycles
  have keeps : (actions.getD index default).recycles = false := by
    by_cases inside : index < actions.length
    · have tested := List.all_eq_true.mp none_ _ (List.getElem_mem inside)
      rw [List.getD_eq_getElem?_getD, List.getElem?_eq_getElem inside]
      simpa using tested
    · rw [List.getD_eq_getElem?_getD, List.getElem?_eq_none (Nat.le_of_not_lt inside)]
      rfl
  rw [recycles] at keeps
  cases keeps

/-- The start on given durable target words. -/
def State.start (mem : Nat → Word) : State where
  shared := {
    mem := mem
    nvm := mem
    desc := fun _ => .initialized
    nvDesc := fun _ => .initialized
    garbage := [] }
  threads := fun _ => []

theorem State.start_initial (build : Build) {mem : Nat → Word}
    (clean : ∀ address, (mem address).isCleanPtr = true) : Initial build (State.start mem) where
  idle _ := rfl
  fresh _ := rfl
  values address := .of_isCleanPtr (clean address)
  clean _ address := ((Word.isCleanPtr_iff _).mp (clean address)).2.2
  garbage := rfl

/-- A pool of four descriptors. -/
def Pool.small : Pool := { base := 4096, size := 4, base_pos := by decide }

/-- The request to change the word at `address` from `old` to `new`. -/
def Request.change (address old new : Nat) : Request :=
  { address := address, oldValue := .plain old, newValue := .plain new, recyclePolicy := .never }

/-! ### An executable step function -/

/-- The steps as a function. -/
def State.next (build : Build) (pool : Pool) (state : State) : Action → Option State
  | .step t => state.stepThread build pool t
  | .mwCAS t d requests =>
    if state.threads t = [] ∧ d < pool.size ∧ (state.shared.desc d).status = .of .finished ∧
        ∀ request ∈ requests, request.Valid then
      match (state.shared.desc d).addEntries (pool.descriptorAddress d) requests with
      | .ok filled => some (state.beginMwCAS build t d filled)
      | .error _ => none
    else none
  | .getValue t address =>
    if state.threads t = [] then some (state.beginGetValue t address) else none
  | .writeBack address => some (state.writeBack address)
  | .writeBackField d field => some (state.writeBackField d field)
  | .recycle d => if d ∈ state.shared.garbage then some (state.recycle d) else none

theorem State.step_of_next {build : Build} {pool : Pool} {before after : State} {action : Action}
    (performed : before.next build pool action = some after) :
    (system build pool).step before action after := by
  cases action with
  | step t => exact .step performed
  | mwCAS t d requests =>
    rw [State.next] at performed
    split at performed
    · rename_i guard
      obtain ⟨idle, inside, free, valid⟩ := guard
      split at performed
      · rename_i filled added
        cases performed
        exact .mwCAS idle inside free valid added
      · cases performed
    · cases performed
  | getValue t address =>
    rw [State.next] at performed
    split at performed
    · rename_i idle
      cases performed
      exact .getValue idle
    · cases performed
  | writeBack address =>
    cases performed
    exact .writeBack address
  | writeBackField d field =>
    cases performed
    exact .writeBackField d field
  | recycle d =>
    rw [State.next] at performed
    split at performed
    · rename_i pushed
      cases performed
      exact .recycle pushed
    · cases performed

/-- The steps listed from a start on clean words are a run. -/
theorem State.exists_run (build : Build) (pool : Pool) (mem : Nat → Word)
    (clean : ∀ address, (mem address).isCleanPtr = true) (actions : List Action)
    (performed : (Transition.replay (State.next build pool) actions (.start mem)).isSome = true) :
    ∃ run : Transition.Run (system build pool), run.length = actions.length ∧
      (∀ index, Transition.replay (State.next build pool) (actions.take index) (.start mem) =
        some (run.state index)) ∧
      ∀ index, run.action index = actions.getD index default := by
  obtain ⟨finish, replayed⟩ := Option.isSome_iff_exists.mp performed
  obtain ⟨run, length, -, -, states, acts⟩ := Transition.exists_run_of_replay
    (State.next build pool) (fun _ _ _ => State.step_of_next)
    (State.start_initial build clean) replayed
  exact ⟨run, length, states, acts⟩

/-- The thread that acts. -/
def Action.thread : Action → Option Nat
  | .step t => some t
  | .mwCAS t _ _ => some t
  | .getValue t _ => some t
  | .writeBack _ => none
  | .writeBackField _ _ => none
  | .recycle _ => none

/-- A thread that has not acted yet is not inside a call. -/
theorem threads_eq_nil_of_never {build : Build} {pool : Pool}
    {run : Transition.Run (system build pool)} {t index : Nat} (inside : index ≤ run.length)
    (never : ∀ earlier, earlier < index → (run.action earlier).thread ≠ some t) :
    (run.state index).threads t = [] := by
  refine run.invariant_between (fun _ action => action.thread ≠ some t)
    (fun state => state.threads t = []) (Nat.zero_le index) inside
    (fun earlier _ before => never earlier before) (Initial.idle run.starts t) ?_
  intro before action after idle others step
  cases step with
  | @step _ u performed =>
    have different : t ≠ u := by
      rintro rfl
      exact others rfl
    unfold State.stepThread at performed
    split at performed
    · cases performed
    · cases performed
      exact (Function.update_of_ne different _ _).trans idle
  | @mwCAS u d requests filled free inside status valid added =>
    have different : t ≠ u := by
      rintro rfl
      exact others rfl
    exact (Function.update_of_ne different _ _).trans idle
  | @getValue u address free =>
    have different : t ≠ u := by
      rintro rfl
      exact others rfl
    exact (Function.update_of_ne different _ _).trans idle
  | writeBack | writeBackField | recycle => exact idle

/-- When the first `threads` threads alone have acted, the others are not inside a call. -/
theorem threads_eq_nil_of_bound {build : Build} {pool : Pool}
    {run : Transition.Run (system build pool)} {actions : List Action} {t index threads : Nat}
    (inside : index ≤ run.length) (acts : ∀ index, run.action index = actions.getD index default)
    (few : ∀ step < index, ∀ u ∈ (actions.getD step default).thread, u < threads)
    (outside : ¬ t < threads) : (run.state index).threads t = [] := by
  refine threads_eq_nil_of_never inside ?_
  intro earlier before here
  rw [acts earlier] at here
  exact outside (few earlier before t here)

/-- A run that recycles only when nobody is inside a call recycles no descriptor in use. -/
theorem recyclesUnused_of_idle {build : Build} {pool : Pool}
    {run : Transition.Run (system build pool)} {mem : Nat → Word} {actions : List Action}
    (length : run.length = actions.length)
    (states : ∀ index, Transition.replay (State.next build pool) (actions.take index) (.start mem) =
      some (run.state index))
    (acts : ∀ index, run.action index = actions.getD index default) (threads : Nat)
    (few : ∀ step < actions.length, ∀ t ∈ (actions.getD step default).thread, t < threads)
    (idle : ∀ step < actions.length, (actions.getD step default).recycles = true →
      (Transition.replay (State.next build pool) (actions.take step) (.start mem)).any
        (fun state => ∀ t < threads, state.threads t = []) = true) :
    run.Meets (RecyclesUnused pool) := by
  intro index inside d recycles t frame member
  rw [acts index] at recycles
  rw [length] at inside
  have nobody := Transition.satisfies_of_replay (fun state => ∀ t < threads, state.threads t = [])
    (states index) (idle index inside (by rw [recycles]; rfl))
  have empty : (run.state index).threads t = [] := by
    by_cases acting : t < threads
    · exact nobody t acting
    · refine threads_eq_nil_of_bound (by rw [length]; exact Nat.le_of_lt inside) acts ?_ acting
      exact fun step before => few step (Nat.lt_trans before inside)
  rw [empty] at member
  cases member

/-- Thread 0 calls `MwCAS()` on descriptor 0 and performs a number of steps. -/
def soloActions (requests : List Request) (steps : Nat) : List Action :=
  .mwCAS 0 0 requests :: List.replicate steps (.step 0)

theorem soloActions_getD {requests : List Request} {steps index : Nat} (inside : index < steps + 1) :
    (soloActions requests steps).getD index default = .step 0 ∨
      (index = 0 ∧ (soloActions requests steps).getD index default = .mwCAS 0 0 requests) := by
  cases index with
  | zero => exact Or.inr ⟨rfl, rfl⟩
  | succ index =>
    refine Or.inl ?_
    have room : index < steps := Nat.lt_of_succ_lt_succ inside
    simp [soloActions, room]

/-- A run of one thread, with a test that every frame passes before its step. -/
theorem State.exists_solo_run (build : Build) (pool : Pool) (mem : Nat → Word)
    (clean : ∀ address, (mem address).isCleanPtr = true) (requests : List Request) (steps : Nat)
    (test : Shared → Frame → Bool)
    (performed : (Transition.replay (State.next build pool) (soloActions requests steps)
      (.start mem)).isSome = true)
    (passes : ∀ index < steps + 1, (Transition.replay (State.next build pool)
      ((soloActions requests steps).take index) (.start mem)).any (fun state =>
        (state.threads 0).all (test state.shared)) = true) :
    ∃ run : Transition.Run (system build pool), run.length = steps + 1 ∧
      (∀ index, Transition.replay (State.next build pool)
        ((soloActions requests steps).take index) (.start mem) = some (run.state index)) ∧
      (∀ index, run.action index = (soloActions requests steps).getD index default) ∧
      ∀ index, index < run.length → ∀ t, run.action index = .step t → ∀ frame rest,
        (run.state index).threads t = frame :: rest →
        test (run.state index).shared frame = true := by
  obtain ⟨run, length, states, actions⟩ :=
    State.exists_run build pool mem clean (soloActions requests steps) performed
  have steps : run.length = steps + 1 := by
    rw [length]
    simp [soloActions]
  refine ⟨run, steps, states, actions, ?_⟩
  intro index inside t acts frame rest stack
  rw [steps] at inside
  have first : t = 0 := by
    rw [actions index] at acts
    rcases soloActions_getD inside with here | ⟨-, here⟩
    · rw [here] at acts
      cases acts
      rfl
    · rw [here] at acts
      cases acts
  have tested := Transition.holds_of_replay _ (states index) (passes index inside)
  rw [← first, stack] at tested
  exact List.all_eq_true.mp tested frame List.mem_cons_self

end Pmwcas
