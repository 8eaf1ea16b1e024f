/-
This file is about the registry in which `pmwcas::Thread` keeps the thread-local variables that are to
be reset (`common/environment_internal.cc`). The registry is keyed by thread id. `join()` first joins
the `std::thread`, whose id is the default id from then on, and looks the registry up under that id
afterwards, where there is never an entry. So it resets nothing, and it would be too late: the
variables are gone when their thread has ended.

The registry is in order as long as no thread ends with an entry in it, which is what a call of
`ClearRegistry` after its last `RegisterTls` achieves.
-/

import Mathlib.Data.List.Nodup
import Pmwcas.Library.Transition

namespace Pmwcas.ThreadRegistry

open Transition

/-! ### The registry -/

/-- A `std::thread::id`, with `none` for the default id. -/
abbrev ThreadId := Option Nat

/-- A thread-local variable of a thread. -/
structure Variable where
  thread : Nat
  number : Nat
  deriving DecidableEq, Repr

/-- An element of a `TlsList`: a variable and its default value. -/
structure Entry where
  variable_ : Variable
  value : UInt64
  deriving DecidableEq, Repr

/-- `registry_`. -/
abbrev Registry := List (ThreadId × List Entry)

/-- `RegisterTls` on the thread with this id. -/
def Registry.registerTls (registry : Registry) (id : ThreadId) (entry : Entry) : Registry :=
  match registry.lookup id with
  | none => (id, [entry]) :: registry
  | some _ => registry.map fun slot => if slot.1 = id then (slot.1, slot.2 ++ [entry]) else slot

/-- What `ClearTls` writes for the thread with this id, and the registry it leaves. -/
def Registry.clearTls (registry : Registry) (id : ThreadId) (destroy : Bool) : List Entry × Registry :=
  match registry.lookup id with
  | none => ([], registry)
  | some list => (list,
      if destroy then registry.filter fun slot => slot.1 ≠ id
      else registry.map fun slot => if slot.1 = id then (slot.1, []) else slot)

/-- What `ClearRegistry` writes, and the registry it leaves. -/
def Registry.clear (registry : Registry) (destroy : Bool) : List Entry × Registry :=
  (registry.flatMap Prod.snd,
    if destroy then [] else registry.map fun slot => (slot.1, []))

/-! ### The system -/

/-- Where a thread is. It has ended from `finished` on; `clearing` is `join()` between
`std::thread::join()` and `ClearTls()`. -/
inductive Stage where
  | notStarted
  | running (id : Nat)
  | finished (id : Nat)
  | clearing
  | joined
  | destroyed
  deriving DecidableEq, Repr

/-- `get_id()` of the `Thread`. -/
def Stage.getId : Stage → ThreadId
  | running id => some id
  | finished id => some id
  | _ => none

def Stage.Ended : Stage → Prop
  | notStarted => False
  | running _ => False
  | _ => True

instance (stage : Stage) : Decidable stage.Ended :=
  match stage with
  | .notStarted => inferInstanceAs (Decidable False)
  | .running _ => inferInstanceAs (Decidable False)
  | .finished _ => inferInstanceAs (Decidable True)
  | .clearing => inferInstanceAs (Decidable True)
  | .joined => inferInstanceAs (Decidable True)
  | .destroyed => inferInstanceAs (Decidable True)

/-- `idsInUse` are the ids of the threads that have started and have not been joined. -/
structure State where
  threads : Nat → Stage
  idsInUse : List Nat
  registry : Registry
  terminated : Bool

inductive Action where
  /-- The thread starts, with an id that the library chooses. -/
  | start (thread id : Nat)
  /-- The thread calls `RegisterTls`. -/
  | registerTls (thread number : Nat) (value : UInt64)
  | finish (thread : Nat)
  /-- `join()`: `std::thread::join()` returns. -/
  | join (thread : Nat)
  /-- `join()`: `ClearTls()`, and the call returns. -/
  | joinReturns (thread : Nat)
  | destroy (thread : Nat)
  | clearRegistry (destroy : Bool)
  deriving DecidableEq, Repr

instance : Inhabited Action := ⟨.clearRegistry false⟩

def State.goto (state : State) (thread : Nat) (stage : Stage) : State :=
  { state with threads := Function.update state.threads thread stage }

/-- The steps of the system. The destructor of a `std::thread` that was not joined ends the process. -/
def State.next (state : State) (action : Action) : Option State :=
  if state.terminated then none
  else
    match action with
    | .start thread id =>
      if state.threads thread = .notStarted ∧ id ∉ state.idsInUse then
        some ({ state with idsInUse := id :: state.idsInUse }.goto thread (.running id))
      else none
    | .registerTls thread number value =>
      match state.threads thread with
      | .running id =>
        some { state with registry := state.registry.registerTls (some id) ⟨⟨thread, number⟩, value⟩ }
      | _ => none
    | .finish thread =>
      match state.threads thread with
      | .running id => some (state.goto thread (.finished id))
      | _ => none
    | .join thread =>
      match state.threads thread with
      | .finished id =>
        some ({ state with idsInUse := state.idsInUse.erase id }.goto thread .clearing)
      | _ => none
    | .joinReturns thread =>
      if state.threads thread = .clearing then
        some ({ state with
          registry := (state.registry.clearTls (state.threads thread).getId false).2 }.goto thread .joined)
      else none
    | .destroy thread =>
      let registry := (state.registry.clearTls (state.threads thread).getId true).2
      match state.threads thread with
      | .running _ => some { state with registry := registry, terminated := true }
      | .finished _ => some { state with registry := registry, terminated := true }
      | .joined => some ({ state with registry := registry }.goto thread .destroyed)
      | _ => none
    | .clearRegistry destroy => some { state with registry := (state.registry.clear destroy).2 }

/-- The writes that `ClearTls` or `ClearRegistry` makes in a step. -/
def State.writes (state : State) : Action → List Entry
  | .joinReturns thread => (state.registry.clearTls (state.threads thread).getId false).1
  | .destroy thread => (state.registry.clearTls (state.threads thread).getId true).1
  | .clearRegistry destroy => (state.registry.clear destroy).1
  | _ => []

def State.start : State where
  threads _ := .notStarted
  idsInUse := []
  registry := []
  terminated := false

def system : System State Action := .ofNext (fun state => state = .start) State.next

/-! ### What is required -/

/-- The entries of the registry, under any id. -/
def Registry.entries (registry : Registry) : List Entry := registry.flatMap Prod.snd

/-- The registry holds no entry of this thread. -/
def Registry.Free (registry : Registry) (thread : Nat) : Prop :=
  ∀ entry ∈ registry.entries, entry.variable_.thread ≠ thread

instance (registry : Registry) (thread : Nat) : Decidable (registry.Free thread) :=
  inferInstanceAs (Decidable (∀ entry ∈ registry.entries, entry.variable_.thread ≠ thread))

/-- When a `join()` returns, the registry holds no entry of its thread. Every write goes to a variable of
a thread that has not ended, and its value is one that the thread has registered for the variable. -/
structure Hygienic (run : Run system) : Prop where
  joined : ∀ index < run.length, ∀ thread, run.action index = .joinReturns thread →
    (run.state (index + 1)).registry.Free thread
  alive : ∀ index < run.length, ∀ write ∈ (run.state index).writes (run.action index),
    ¬ ((run.state index).threads write.variable_.thread).Ended
  registered : ∀ index < run.length, ∀ write ∈ (run.state index).writes (run.action index),
    ∃ earlier < index, run.action earlier =
      .registerTls write.variable_.thread write.variable_.number write.value

/-- A thread that ends has no entry in the registry. -/
def EndsFree (state : State) : Action → Prop
  | .finish thread => state.registry.Free thread
  | _ => True

instance (state : State) (action : Action) : Decidable (EndsFree state action) :=
  match action with
  | .finish thread => inferInstanceAs (Decidable (state.registry.Free thread))
  | .start .. | .registerTls .. | .join _ | .joinReturns _ | .destroy _ | .clearRegistry _ =>
    inferInstanceAs (Decidable True)

/-- Every thread that ends in this run is joined in it. -/
def AllJoined (run : Run system) : Prop :=
  ∀ index < run.length, ∀ thread, run.action index = .finish thread →
    ∃ later, index < later ∧ later < run.length ∧ run.action later = .joinReturns thread

/-! ### What the functions do to the registry -/

/-- The registry has this entry under this id. -/
def Registry.Holds (registry : Registry) (id : ThreadId) (entry : Entry) : Prop :=
  ∃ list, (id, list) ∈ registry ∧ entry ∈ list

/-- The registry has one list for an id. -/
def Registry.Keyed (registry : Registry) : Prop := (registry.map Prod.fst).Nodup

section Registry

variable {registry : Registry} {id key : ThreadId} {entry other : Entry} {destroy : Bool}

theorem Registry.mem_entries : entry ∈ registry.entries ↔ ∃ id, registry.Holds id entry := by
  simp only [entries, List.mem_flatMap, Holds, Prod.exists]

theorem Registry.mem_of_lookup {list : List Entry} (found : registry.lookup id = some list) :
    (id, list) ∈ registry := by
  obtain ⟨before, after, same, -⟩ := List.lookup_eq_some_iff.1 found
  rw [same]
  exact List.mem_append_right _ List.mem_cons_self

theorem Registry.not_mem_of_lookup (absent : registry.lookup id = none) :
    id ∉ registry.map Prod.fst := by
  intro member
  obtain ⟨slot, listed, rfl⟩ := List.mem_map.1 member
  have different := List.lookup_eq_none_iff.1 absent slot listed
  simp at different

/-- Changing lists leaves the ids. -/
theorem Registry.Keyed.map (keyed : registry.Keyed) (change : ThreadId × List Entry → List Entry) :
    Registry.Keyed (registry.map fun slot => (slot.1, change slot)) := by
  rw [Keyed, List.map_map]
  exact keyed

/-- One list for an id. -/
theorem Registry.Keyed.unique (keyed : registry.Keyed) {first second : List Entry}
    (one : (id, first) ∈ registry) (two : (id, second) ∈ registry) : first = second := by
  have same := List.inj_on_of_nodup_map keyed one two rfl
  exact (Prod.mk.inj same).2

theorem Registry.registerTls_map (registry : Registry) (id : ThreadId) (entry : Entry) :
    (registry.map fun slot => if slot.1 = id then (slot.1, slot.2 ++ [entry]) else slot) =
      registry.map fun slot => (slot.1, if slot.1 = id then slot.2 ++ [entry] else slot.2) := by
  refine List.map_congr_left fun slot _ => ?_
  split <;> rfl

theorem Registry.clearTls_map (registry : Registry) (id : ThreadId) :
    (registry.map fun slot => if slot.1 = id then (slot.1, ([] : List Entry)) else slot) =
      registry.map fun slot => (slot.1, if slot.1 = id then [] else slot.2) := by
  refine List.map_congr_left fun slot _ => ?_
  split <;> rfl

theorem Registry.Keyed.registerTls (keyed : registry.Keyed) :
    (registry.registerTls id entry).Keyed := by
  rw [Registry.registerTls]
  split
  · rename_i absent
    exact List.nodup_cons.2 ⟨not_mem_of_lookup absent, keyed⟩
  · rw [registerTls_map]
    exact keyed.map _

theorem Registry.Keyed.clearTls (keyed : registry.Keyed) :
    (registry.clearTls id destroy).2.Keyed := by
  rw [Registry.clearTls]
  split
  · exact keyed
  · cases destroy with
    | true => exact List.Nodup.sublist (List.filter_sublist.map Prod.fst) keyed
    | false =>
      simp only [Bool.false_eq_true, if_false, clearTls_map]
      exact keyed.map _

theorem Registry.Keyed.clear (keyed : registry.Keyed) : (registry.clear destroy).2.Keyed := by
  cases destroy with
  | true => exact List.nodup_nil
  | false => exact keyed.map _

theorem Registry.holds_map (change : ThreadId × List Entry → List Entry) :
    Registry.Holds (registry.map fun slot => (slot.1, change slot)) key other ↔
      ∃ list, (key, list) ∈ registry ∧ other ∈ change (key, list) := by
  constructor
  · rintro ⟨_, listed, member⟩
    obtain ⟨⟨_, list⟩, here, same⟩ := List.mem_map.1 listed
    cases same
    exact ⟨list, here, member⟩
  · rintro ⟨list, here, member⟩
    exact ⟨_, List.mem_map.2 ⟨(key, list), here, rfl⟩, member⟩

/-- `RegisterTls` adds its entry under its id. -/
theorem Registry.holds_registerTls :
    (registry.registerTls id entry).Holds key other ↔
      registry.Holds key other ∨ key = id ∧ other = entry := by
  rw [registerTls]
  split
  · constructor
    · rintro ⟨list, listed, member⟩
      rcases List.mem_cons.1 listed with same | earlier
      · cases same
        exact .inr ⟨rfl, List.mem_singleton.1 member⟩
      · exact .inl ⟨list, earlier, member⟩
    · rintro (⟨list, listed, member⟩ | ⟨rfl, rfl⟩)
      · exact ⟨list, List.mem_cons_of_mem _ listed, member⟩
      · exact ⟨[other], List.mem_cons_self, List.mem_singleton_self other⟩
  · rename_i found
    rw [registerTls_map, holds_map]
    constructor
    · rintro ⟨list, listed, member⟩
      dsimp only at member
      split at member
      · rename_i same
        rcases List.mem_append.1 member with earlier | last
        · exact .inl ⟨list, listed, earlier⟩
        · exact .inr ⟨same, List.mem_singleton.1 last⟩
      · exact .inl ⟨list, listed, member⟩
    · rintro (⟨list, listed, member⟩ | ⟨rfl, rfl⟩)
      · refine ⟨list, listed, ?_⟩
        dsimp only
        split
        · exact List.mem_append_left _ member
        · exact member
      · refine ⟨_, mem_of_lookup found, ?_⟩
        rw [if_pos rfl]
        exact List.mem_append_right _ (List.mem_singleton_self other)

theorem Registry.mem_clearTls_writes (written : other ∈ (registry.clearTls id destroy).1) :
    registry.Holds id other := by
  rw [clearTls] at written
  split at written
  · exact absurd written List.not_mem_nil
  · rename_i list found
    exact ⟨list, mem_of_lookup found, written⟩

theorem Registry.holds_of_clearTls (holds : (registry.clearTls id destroy).2.Holds key other) :
    registry.Holds key other := by
  rw [clearTls] at holds
  split at holds
  · exact holds
  · cases destroy with
    | true =>
      obtain ⟨list, listed, member⟩ := holds
      exact ⟨list, (List.mem_filter.1 listed).1, member⟩
    | false =>
      simp only [Bool.false_eq_true, if_false, clearTls_map] at holds
      obtain ⟨list, listed, member⟩ := (holds_map _).1 holds
      split at member
      · exact absurd member List.not_mem_nil
      · exact ⟨list, listed, member⟩

/-- What `ClearTls` does not write it leaves. -/
theorem Registry.holds_clearTls (keyed : registry.Keyed) (holds : registry.Holds key other)
    (kept : other ∉ (registry.clearTls id destroy).1) :
    (registry.clearTls id destroy).2.Holds key other := by
  obtain ⟨list, listed, member⟩ := holds
  cases found : registry.lookup id with
  | none =>
    simp only [clearTls, found]
    exact ⟨list, listed, member⟩
  | some mine =>
    simp only [clearTls, found] at kept ⊢
    have different : key ≠ id := by
      rintro rfl
      exact kept (keyed.unique (mem_of_lookup found) listed ▸ member)
    cases destroy with
    | true =>
      exact ⟨list, List.mem_filter.2 ⟨listed, decide_eq_true different⟩, member⟩
    | false =>
      simp only [Bool.false_eq_true, if_false, clearTls_map]
      refine (holds_map _).2 ⟨list, listed, ?_⟩
      rw [if_neg different]
      exact member

theorem Registry.not_holds_clear : ¬ (registry.clear destroy).2.Holds key other := by
  cases destroy with
  | true =>
    rintro ⟨list, listed, -⟩
    exact absurd listed List.not_mem_nil
  | false =>
    intro holds
    obtain ⟨list, -, member⟩ := (holds_map fun _ => []).1 holds
    exact absurd member List.not_mem_nil

end Registry

/-! ### What a step does -/

section Step

variable {state after : State} {action : Action}

/-- Where threads may move in a step. -/
theorem threads_cases (step : state.next action = some after) :
    after.threads = state.threads ∨ ∃ thread stage,
      after.threads = Function.update state.threads thread stage ∧
      (state.threads thread = .notStarted ∨
        (∃ id, state.threads thread = .running id ∧ action = .finish thread ∧ stage.Ended) ∨
        (state.threads thread).Ended ∧ stage.Ended) := by
  unfold State.next at step
  split at step
  · cases step
  · cases action with
    | start thread id =>
      dsimp only at step
      split at step
      · rename_i guard
        cases step
        exact .inr ⟨thread, _, rfl, .inl guard.1⟩
      · cases step
    | registerTls thread number value =>
      dsimp only at step
      split at step
      · cases step
        exact .inl rfl
      · cases step
    | finish thread =>
      dsimp only at step
      split at step
      · rename_i id here
        cases step
        exact .inr ⟨thread, _, rfl, .inr (.inl ⟨id, here, rfl, trivial⟩)⟩
      · cases step
    | join thread =>
      dsimp only at step
      split at step
      · rename_i id here
        cases step
        exact .inr ⟨thread, _, rfl, .inr (.inr ⟨by rw [here]; trivial, trivial⟩)⟩
      · cases step
    | joinReturns thread =>
      dsimp only at step
      split at step
      · rename_i here
        cases step
        exact .inr ⟨thread, _, rfl, .inr (.inr ⟨by rw [here]; trivial, trivial⟩)⟩
      · cases step
    | destroy thread =>
      dsimp only at step
      split at step
      · cases step
        exact .inl rfl
      · cases step
        exact .inl rfl
      · rename_i here
        cases step
        exact .inr ⟨thread, _, rfl, .inr (.inr ⟨by rw [here]; trivial, trivial⟩)⟩
      · cases step
    | clearRegistry destroy =>
      cases step
      exact .inl rfl

/-- What a step does to the registry: an entry is registered, a function writes and clears, or nothing
happens. -/
theorem registry_cases (step : state.next action = some after) :
    (∃ thread id number value, action = .registerTls thread number value ∧
      state.threads thread = .running id ∧ after.threads = state.threads ∧
      after.registry = state.registry.registerTls (some id) ⟨⟨thread, number⟩, value⟩) ∨
    (∃ id destroy, state.writes action = (state.registry.clearTls id destroy).1 ∧
      after.registry = (state.registry.clearTls id destroy).2) ∨
    (∃ destroy, state.writes action = (state.registry.clear destroy).1 ∧
      after.registry = (state.registry.clear destroy).2) ∨
    state.writes action = [] ∧ after.registry = state.registry := by
  unfold State.next at step
  split at step
  · cases step
  · cases action with
    | start thread id =>
      dsimp only at step
      split at step
      · cases step
        exact .inr (.inr (.inr ⟨rfl, rfl⟩))
      · cases step
    | registerTls thread number value =>
      dsimp only at step
      split at step
      · rename_i id here
        cases step
        exact .inl ⟨thread, id, number, value, rfl, here, rfl, rfl⟩
      · cases step
    | finish thread =>
      dsimp only at step
      split at step
      · cases step
        exact .inr (.inr (.inr ⟨rfl, rfl⟩))
      · cases step
    | join thread =>
      dsimp only at step
      split at step
      · cases step
        exact .inr (.inr (.inr ⟨rfl, rfl⟩))
      · cases step
    | joinReturns thread =>
      dsimp only at step
      split at step
      · cases step
        exact .inr (.inl ⟨_, false, rfl, rfl⟩)
      · cases step
    | destroy thread =>
      dsimp only at step
      split at step <;> cases step <;> exact .inr (.inl ⟨_, true, rfl, rfl⟩)
    | clearRegistry destroy =>
      cases step
      exact .inr (.inr (.inl ⟨destroy, rfl, rfl⟩))

/-- A thread that has ended has ended for good. -/
theorem ended_of_next (step : state.next action = some after) {thread : Nat}
    (ended : (state.threads thread).Ended) : (after.threads thread).Ended := by
  rcases threads_cases step with same | ⟨other, stage, same, change⟩
  · rw [same]
    exact ended
  · rw [same]
    by_cases mine : thread = other
    · subst mine
      rw [Function.update_self]
      rcases change with notStarted | ⟨id, running, -, -⟩ | ⟨-, stays⟩
      · rw [notStarted] at ended
        exact absurd ended not_false
      · rw [running] at ended
        exact absurd ended not_false
      · exact stays
    · rw [Function.update_of_ne mine]
      exact ended

/-- A running thread runs on, or ends in this step. -/
theorem running_of_next (step : state.next action = some after) {thread id : Nat}
    (running : state.threads thread = .running id) :
    after.threads thread = .running id ∨ action = .finish thread := by
  rcases threads_cases step with same | ⟨other, stage, same, change⟩
  · exact .inl (by rw [same, running])
  · by_cases mine : thread = other
    · subst mine
      rcases change with notStarted | ⟨_, -, finishes, -⟩ | ⟨ended, -⟩
      · rw [notStarted] at running
        cases running
      · exact .inr finishes
      · rw [running] at ended
        exact absurd ended not_false
    · exact .inl (by rw [same, Function.update_of_ne mine, running])

theorem keyed_of_next (keyed : state.registry.Keyed) (step : state.next action = some after) :
    after.registry.Keyed := by
  rcases registry_cases step with ⟨thread, id, number, value, -, -, -, same⟩ |
    ⟨id, destroy, -, same⟩ | ⟨destroy, -, same⟩ | ⟨-, same⟩
  · rw [same]
    exact keyed.registerTls
  · rw [same]
    exact keyed.clearTls
  · rw [same]
    exact keyed.clear
  · rw [same]
    exact keyed

/-- Only what the registry holds is written. -/
theorem holds_of_written {entry : Entry} (step : state.next action = some after)
    (written : entry ∈ state.writes action) : ∃ key, state.registry.Holds key entry := by
  rcases registry_cases step with ⟨thread, id, number, value, rfl, -⟩ | ⟨id, destroy, same, -⟩ |
    ⟨destroy, same, -⟩ | ⟨none_, -⟩
  · exact absurd written List.not_mem_nil
  · rw [same] at written
    exact ⟨id, Registry.mem_clearTls_writes written⟩
  · rw [same] at written
    exact Registry.mem_entries.1 written
  · rw [none_] at written
    exact absurd written List.not_mem_nil

/-- Where an entry of the registry comes from. -/
theorem holds_of_next {key : ThreadId} {entry : Entry} (step : state.next action = some after)
    (holds : after.registry.Holds key entry) :
    state.registry.Holds key entry ∨
      action = .registerTls entry.variable_.thread entry.variable_.number entry.value ∧
        ∃ id, key = some id ∧ after.threads entry.variable_.thread = .running id := by
  rcases registry_cases step with ⟨thread, id, number, value, rfl, running, threads, same⟩ |
    ⟨id, destroy, -, same⟩ | ⟨destroy, -, same⟩ | ⟨-, same⟩
  · rw [same, Registry.holds_registerTls] at holds
    rcases holds with earlier | ⟨rfl, rfl⟩
    · exact .inl earlier
    · exact .inr ⟨rfl, id, rfl, by rw [threads, running]⟩
  · rw [same] at holds
    exact .inl (Registry.holds_of_clearTls holds)
  · rw [same] at holds
    exact absurd holds Registry.not_holds_clear
  · rw [same] at holds
    exact .inl holds

/-- An entry that is not written stays. -/
theorem holds_of_not_written {key : ThreadId} {entry : Entry} (keyed : state.registry.Keyed)
    (step : state.next action = some after) (holds : state.registry.Holds key entry)
    (kept : entry ∉ state.writes action) : after.registry.Holds key entry := by
  rcases registry_cases step with ⟨thread, id, number, value, -, -, -, same⟩ |
    ⟨id, destroy, writes, same⟩ | ⟨destroy, writes, -⟩ | ⟨-, same⟩
  · rw [same, Registry.holds_registerTls]
    exact .inl holds
  · rw [writes] at kept
    rw [same]
    exact Registry.holds_clearTls keyed holds kept
  · rw [writes] at kept
    exact absurd (Registry.mem_entries.2 ⟨key, holds⟩) kept
  · rw [same]
    exact holds

/-- `join()` returns after its thread has ended. -/
theorem ended_of_joinReturns {thread : Nat} (step : state.next (.joinReturns thread) = some after) :
    (state.threads thread).Ended := by
  unfold State.next at step
  split at step
  · cases step
  · dsimp only at step
    split at step
    · rename_i clearing
      rw [clearing]
      exact trivial
    · cases step

theorem ended_of_finish {thread : Nat} (step : state.next (.finish thread) = some after) :
    (after.threads thread).Ended := by
  unfold State.next at step
  split at step
  · cases step
  · dsimp only at step
    split at step
    · cases step
      simp only [State.goto, Function.update_self]
      exact trivial
    · cases step

end Step

/-! ### Runs -/

section Runs

variable (run : Run system)

theorem keyed_of_run (index : Nat) (inside : index ≤ run.length) :
    (run.state index).registry.Keyed := by
  refine run.invariant_between (fun _ _ => True) (fun state => state.registry.Keyed)
    (Nat.zero_le index) inside (fun _ _ _ => trivial) ?_
    fun before action after keyed _ step => keyed_of_next keyed step
  rw [run.starts]
  exact List.nodup_nil

/-- Every entry has been registered by the thread of its variable. -/
theorem registered_of_run (index : Nat) (inside : index ≤ run.length) {key : ThreadId} {entry : Entry}
    (holds : (run.state index).registry.Holds key entry) :
    ∃ earlier < index, run.action earlier =
      .registerTls entry.variable_.thread entry.variable_.number entry.value := by
  induction index with
  | zero =>
    rw [run.starts] at holds
    obtain ⟨list, listed, -⟩ := holds
    exact absurd listed List.not_mem_nil
  | succ index inductionHypothesis =>
    rcases holds_of_next (run.steps index inside) holds with before | ⟨here, -⟩
    · obtain ⟨earlier, below, registers⟩ := inductionHypothesis (Nat.le_of_lt inside) before
      exact ⟨earlier, Nat.lt_succ_of_lt below, registers⟩
    · exact ⟨index, Nat.lt_succ_self index, here⟩

/-- The entries are those of running threads, each under the id of its thread. -/
def Live (state : State) : Prop :=
  ∀ key entry, state.registry.Holds key entry →
    ∃ id, key = some id ∧ state.threads entry.variable_.thread = .running id

theorem Live.next {state after : State} {action : Action} (live : Live state)
    (endsFree : EndsFree state action) (step : state.next action = some after) : Live after := by
  intro key entry holds
  rcases holds_of_next step holds with before | ⟨-, mine⟩
  · obtain ⟨id, same, running⟩ := live key entry before
    rcases running_of_next step running with still | rfl
    · exact ⟨id, same, still⟩
    · exact absurd rfl (endsFree entry (Registry.mem_entries.2 ⟨key, before⟩))
  · exact mine

theorem live_of_run (meets : run.Meets EndsFree) (index : Nat) (inside : index ≤ run.length) :
    Live (run.state index) := by
  refine run.invariant meets (fun state starts key entry holds => ?_)
    (fun before action after live endsFree step => live.next endsFree step) index inside
  rw [starts] at holds
  obtain ⟨list, listed, -⟩ := holds
  exact absurd listed List.not_mem_nil

/-- When every thread ends without an entry, the registry is in order. -/
theorem hygienic_of_meets (meets : run.Meets EndsFree) : Hygienic run where
  joined index inside thread returns entry member same := by
    obtain ⟨key, holds⟩ := Registry.mem_entries.1 member
    obtain ⟨id, -, running⟩ := live_of_run run meets (index + 1) inside key entry holds
    have step : (run.state index).next (run.action index) = some (run.state (index + 1)) :=
      run.steps index inside
    have returned : (run.state index).next (.joinReturns thread) = some (run.state (index + 1)) := by
      rw [← returns]
      exact step
    have ended : ((run.state (index + 1)).threads thread).Ended :=
      ended_of_next step (ended_of_joinReturns returned)
    rw [← same, running] at ended
    exact ended
  alive index inside write written ended := by
    obtain ⟨key, holds⟩ := holds_of_written (run.steps index inside) written
    obtain ⟨id, -, running⟩ := live_of_run run meets index (Nat.le_of_lt inside) key write holds
    rw [running] at ended
    exact ended
  registered index inside write written := by
    obtain ⟨key, holds⟩ := holds_of_written (run.steps index inside) written
    exact registered_of_run run index (Nat.le_of_lt inside) holds

/-- An entry of a thread that has ended stays in the registry as long as nothing is written for a thread
that has ended. -/
theorem holds_of_ended {first last : Nat} (later : first ≤ last) (inside : last ≤ run.length)
    (alive : ∀ index < run.length, ∀ write ∈ (run.state index).writes (run.action index),
      ¬ ((run.state index).threads write.variable_.thread).Ended)
    {key : ThreadId} {entry : Entry} (holds : (run.state first).registry.Holds key entry)
    (ended : ((run.state first).threads entry.variable_.thread).Ended) :
    (run.state last).registry.Holds key entry ∧
      ((run.state last).threads entry.variable_.thread).Ended := by
  induction last, later using Nat.le_induction with
  | base => exact ⟨holds, ended⟩
  | succ last later inductionHypothesis =>
    obtain ⟨here, still⟩ := inductionHypothesis (Nat.le_of_lt inside)
    have step := run.steps last inside
    have keyed := keyed_of_run run last (Nat.le_of_lt inside)
    exact ⟨holds_of_not_written keyed step here fun written => alive last inside entry written still,
      ended_of_next step still⟩

/-- A thread that ends with an entry and is joined spoils the registry. -/
theorem meets_of_hygienic (allJoined : AllJoined run) (hygienic : Hygienic run) :
    run.Meets EndsFree := by
  intro index inside
  cases finishes : run.action index with
  | finish thread =>
    intro entry member same
    obtain ⟨key, holds⟩ := Registry.mem_entries.1 member
    have step : (run.state index).next (run.action index) = some (run.state (index + 1)) :=
      run.steps index inside
    rw [finishes] at step
    have ended := ended_of_finish step
    have next_ : (run.state (index + 1)).registry.Holds key entry :=
      holds_of_not_written (keyed_of_run run index (Nat.le_of_lt inside)) step holds
        List.not_mem_nil
    obtain ⟨later, after, bound, returns⟩ := allJoined index inside thread finishes
    obtain ⟨still, -⟩ := holds_of_ended run (Nat.le_succ_of_le after) bound hygienic.alive next_
      (same ▸ ended)
    exact hygienic.joined later bound thread returns entry (Registry.mem_entries.2 ⟨key, still⟩) same
  | _ => trivial

/-- The registry is in order in every run in which each thread that ends has no entry at that moment; in a
run in which each thread that ends is joined, only then. -/
theorem hygienic_of_run :
    (run.Meets EndsFree → Hygienic run) ∧
      (AllJoined run → (Hygienic run ↔ run.Meets EndsFree)) :=
  ⟨hygienic_of_meets run, fun allJoined =>
    ⟨meets_of_hygienic run allJoined, hygienic_of_meets run⟩⟩

end Runs

/-- A thread whose registry is cleared before it ends. -/
def clearedInTime : List Action :=
  [.start 0 7, .registerTls 0 0 0, .registerTls 0 1 5, .clearRegistry true, .finish 0, .join 0,
    .joinReturns 0, .destroy 0]

theorem hygienic_of_run_clearedInTime :
    ∃ run : Run system, run.length = 8 ∧ run.Meets EndsFree ∧ Hygienic run := by
  obtain ⟨run, length, states, actions⟩ :=
    exists_run_of_next (fun state => state = .start) State.next rfl clearedInTime (by decide +kernel)
  have meets : run.Meets EndsFree := by
    intro index inside
    rw [actions]
    exact of_decide_eq_true (test_of_replayTests (fun state action => EndsFree state action)
      (by decide +kernel) (length ▸ inside) (states index))
  exact ⟨run, length, meets, (hygienic_of_run run).1 meets⟩

/-- A thread registers a variable, ends and is joined; then the registry is cleared. -/
def clearedLate : List Action :=
  [.start 0 7, .registerTls 0 0 0, .finish 0, .join 0, .joinReturns 0, .clearRegistry true]

/-- The entry is there after `join()`, and the variable is written when its thread is gone. -/
theorem exists_not_hygienic : ∃ run : Run system, ¬ Hygienic run ∧ run.action 4 = .joinReturns 0 ∧
    ¬ (run.state 5).registry.Free 0 ∧
    ⟨⟨0, 0⟩, 0⟩ ∈ (run.state 5).writes (run.action 5) ∧ ((run.state 5).threads 0).Ended := by
  obtain ⟨run, length, states, actions⟩ :=
    exists_run_of_next (fun state => state = .start) State.next rfl clearedLate (by decide +kernel)
  have found := satisfies_of_replay (fun state => ¬ state.registry.Free 0 ∧
    ⟨⟨0, 0⟩, 0⟩ ∈ state.writes (.clearRegistry true) ∧ (state.threads 0).Ended) (states 5)
    (by decide +kernel)
  refine ⟨run, fun hygienic => ?_, actions 4, found.1, ?_, found.2.2⟩
  · exact found.1 (hygienic.joined 4 (by rw [length]; decide) 0 (actions 4))
  rw [actions 5]
  exact found.2.1

end Pmwcas.ThreadRegistry
