/-
This file is about `ReserveEntry`, with which a thread takes an entry of the table of an epoch
manager (`MinEpochTable` in `common/epoch.cc`, `NodeEpochTable` in `benchmarks/NodeEpoch.cpp`). A
call probes the entries one after the other from its start index on; the index wraps modulo 2^64 and
is then masked. Every load of a `thread_id` and every compare and exchange is a step of its own, so
an entry that was seen free can be taken by another thread before the exchange.

An entry is never given back, so what a call has passed stays taken. The table may already have
owners before the first call.
-/

import Mathlib
import Pmwcas.Library.Transition

namespace Pmwcas.EpochTable

open Transition

/-! ### The table and the calls -/

/-- The two implementations. `MinEpochTable` calls `ReclaimOldEntries` after every pass. -/
inductive Kind where
  | minEpochTable
  | nodeEpochTable
  deriving DecidableEq, Repr

/-- A table, and the arguments of the call that each thread makes. -/
structure Config (Thread : Type) where
  kind : Kind
  size : UInt64
  powerOfTwo : ∃ exponent, size.toNat = 2 ^ exponent
  startIndex : Thread → UInt64
  threadId : Thread → UInt64
  threadId_ne : ∀ thread, threadId thread ≠ 0
  threadId_injective : Function.Injective threadId

/-- `indexToTest` of round `i`. -/
def indexToTest (size startIndex i : UInt64) : UInt64 := (startIndex + i) &&& (size - 1)

/-- The next step of a call of `ReserveEntry`. -/
inductive Pc where
  | notCalled
  /-- Test the `thread_id` of the entry of round `i`. -/
  | test (i : UInt64)
  /-- Compare and exchange the `thread_id` of the entry of round `i`. -/
  | exchange (i : UInt64)
  | reclaimOldEntries
  /-- The call has returned this entry. -/
  | returned (index : Nat)
  deriving DecidableEq, Repr

/-- The `thread_id` of every entry, and where every thread is. -/
structure State (Thread : Type) where
  table : Nat → UInt64
  pc : Thread → Pc

inductive Action (Thread : Type) where
  | reserveEntry (thread : Thread)
  | step (thread : Thread)
  deriving DecidableEq, Repr

section Steps

variable {Thread : Type} [DecidableEq Thread]

def State.goto (state : State Thread) (thread : Thread) (pc : Pc) : State Thread :=
  { state with pc := Function.update state.pc thread pc }

/-- What follows round `i`. -/
def Config.afterRound (config : Config Thread) (i : UInt64) : Pc :=
  if i + 1 < config.size then .test (i + 1)
  else
    match config.kind with
    | .minEpochTable => .reclaimOldEntries
    | .nodeEpochTable => .test 0

/-- One step of a call. `ReclaimOldEntries` is empty. -/
def State.stepThread (config : Config Thread) (state : State Thread) (thread : Thread) :
    Option (State Thread) :=
  match state.pc thread with
  | .notCalled => none
  | .test i =>
    let index := (indexToTest config.size (config.startIndex thread) i).toNat
    if state.table index = 0 then some (state.goto thread (.exchange i))
    else some (state.goto thread (config.afterRound i))
  | .exchange i =>
    let index := (indexToTest config.size (config.startIndex thread) i).toNat
    if state.table index = 0 then
      some ({ state with table := Function.update state.table index (config.threadId thread) }.goto
        thread (.returned index))
    else some (state.goto thread (config.afterRound i))
  | .reclaimOldEntries => some (state.goto thread (.test 0))
  | .returned _ => none

def State.next (config : Config Thread) (state : State Thread) :
    Action Thread → Option (State Thread)
  | .reserveEntry thread =>
    if state.pc thread = .notCalled then some (state.goto thread (.test 0)) else none
  | .step thread => state.stepThread config thread

/-- The table under one call of every thread. -/
def system (config : Config Thread) : System (State Thread) (Action Thread) :=
  .ofNext (fun state => ∀ thread, state.pc thread = .notCalled) (State.next config)

end Steps

/-! ### The index -/

/-- The entry `distance` places after the start index, in cyclic order. -/
def entryAt (size startIndex : UInt64) (distance : Nat) : Nat :=
  (startIndex.toNat + distance) % size.toNat

section Index

variable {Thread : Type} (config : Config Thread)

theorem Config.size_pos : 0 < config.size.toNat := by
  obtain ⟨exponent, same⟩ := config.powerOfTwo
  rw [same]
  exact Nat.two_pow_pos exponent

theorem Config.size_sub_one : (config.size - 1).toNat = config.size.toNat - 1 := by
  have positive : 1 ≤ config.size := UInt64.le_iff_toNat_le.2 config.size_pos
  rw [UInt64.toNat_sub_of_le _ _ positive]
  rfl

theorem entryAt_lt (startIndex : UInt64) (distance : Nat) :
    entryAt config.size startIndex distance < config.size.toNat :=
  Nat.mod_lt _ config.size_pos

/-- Wrapping modulo 2^64 first makes no difference: the size divides it. -/
theorem indexToTest_toNat (startIndex i : UInt64) :
    (indexToTest config.size startIndex i).toNat = entryAt config.size startIndex i.toNat := by
  obtain ⟨exponent, same⟩ := config.powerOfTwo
  have below : 2 ^ exponent < 2 ^ 64 := same ▸ config.size.toNat_lt
  have divides : 2 ^ exponent ∣ 2 ^ 64 :=
    Nat.pow_dvd_pow 2 (Nat.le_of_lt ((Nat.pow_lt_pow_iff_right (by decide)).1 below))
  rw [indexToTest, entryAt, UInt64.toNat_and, UInt64.toNat_add, config.size_sub_one, same,
    Nat.and_two_pow_sub_one_eq_mod, Nat.mod_mod_of_dvd _ divides]

/-- Every entry is in reach of a pass that begins at the start index. -/
theorem exists_entryAt_eq (startIndex : UInt64) {index : Nat} (inside : index < config.size.toNat) :
    ∃ distance < config.size.toNat, entryAt config.size startIndex distance = index := by
  have positive := config.size_pos
  have first := Nat.mod_lt startIndex.toNat positive
  refine ⟨(index + (config.size.toNat - startIndex.toNat % config.size.toNat)) % config.size.toNat,
    Nat.mod_lt _ positive, ?_⟩
  calc entryAt config.size startIndex _
    _ = (startIndex.toNat % config.size.toNat +
          (index + (config.size.toNat - startIndex.toNat % config.size.toNat))) %
          config.size.toNat := by
      rw [entryAt, Nat.add_mod_mod, Nat.mod_add_mod]
    _ = (index + config.size.toNat) % config.size.toNat := by
      congr 1
      omega
    _ = index := by
      rw [Nat.add_mod_right, Nat.mod_eq_of_lt inside]

end Index

/-! ### What a step does -/

section Sound

variable {Thread : Type} [DecidableEq Thread] {config : Config Thread}
  {state after : State Thread}

/-- The call of this thread is not over. -/
def State.Open (state : State Thread) (thread : Thread) : Prop :=
  ∀ index, state.pc thread ≠ .returned index

omit [DecidableEq Thread] in
theorem Config.afterRound_ne (config : Config Thread) (i : UInt64) (index : Nat) :
    config.afterRound i ≠ .returned index := by
  rw [afterRound]
  split
  · exact Pc.noConfusion
  · cases config.kind <;> exact Pc.noConfusion

/-- A step moves a thread on, or gives it an entry that is free. -/
theorem next_cases {action : Action Thread} (step : state.next config action = some after) :
    ∃ thread, state.Open thread ∧
      ((∃ pc, (∀ index, pc ≠ .returned index) ∧ after = state.goto thread pc) ∨
        ∃ index < config.size.toNat, state.table index = 0 ∧
          after = { state with
            table := Function.update state.table index (config.threadId thread) }.goto thread
              (.returned index)) := by
  cases action with
  | reserveEntry thread =>
    rw [State.next] at step
    split at step
    · rename_i notCalled
      cases step
      refine ⟨thread, fun index => ?_, .inl ⟨.test 0, fun _ => Pc.noConfusion, rfl⟩⟩
      rw [notCalled]
      exact Pc.noConfusion
    · cases step
  | step thread =>
    rw [State.next, State.stepThread] at step
    refine ⟨thread, fun index => ?_, ?_⟩
    · intro returned
      rw [returned] at step
      cases step
    cases here : state.pc thread with
    | notCalled =>
      rw [here] at step
      cases step
    | returned index =>
      rw [here] at step
      cases step
    | reclaimOldEntries =>
      rw [here] at step
      cases step
      exact .inl ⟨.test 0, fun _ => Pc.noConfusion, rfl⟩
    | test i =>
      simp only [here] at step
      split at step <;> cases step
      · exact .inl ⟨.exchange i, fun _ => Pc.noConfusion, rfl⟩
      · exact .inl ⟨_, config.afterRound_ne i, rfl⟩
    | exchange i =>
      simp only [here] at step
      split at step <;> cases step
      · rename_i free
        have inside := entryAt_lt config (config.startIndex thread) i.toNat
        rw [← indexToTest_toNat config] at inside
        exact .inr ⟨_, inside, free, rfl⟩
      · exact .inl ⟨_, config.afterRound_ne i, rfl⟩

/-- Every entry that a call has returned is in the table under the id of the thread. -/
def State.Owned (config : Config Thread) (state : State Thread) : Prop :=
  ∀ thread index, state.pc thread = .returned index →
    index < config.size.toNat ∧ state.table index = config.threadId thread

omit [DecidableEq Thread] in
/-- Calls that have returned have returned different entries. -/
theorem State.Owned.distinct (owned : state.Owned config) {thread other : Thread} {index : Nat}
    (one : state.pc thread = .returned index) (two : state.pc other = .returned index) :
    thread = other :=
  config.threadId_injective ((owned thread index one).2.symm.trans (owned other index two).2)

/-- Nobody gets an entry that is taken, and a call that has returned stays so. -/
structure State.Grows (before after : State Thread) : Prop where
  table : ∀ index, before.table index ≠ 0 → after.table index = before.table index
  returned : ∀ thread index, before.pc thread = .returned index → after.pc thread = .returned index

theorem grows_of_next {action : Action Thread} (step : state.next config action = some after) :
    state.Grows after := by
  obtain ⟨thread, open_, ⟨pc, -, rfl⟩ | ⟨index, -, free, rfl⟩⟩ := next_cases step
  · refine ⟨fun _ _ => rfl, fun other index returned => ?_⟩
    have different : other ≠ thread := by
      rintro rfl
      exact open_ index returned
    exact (Function.update_of_ne different _ _).trans returned
  · refine ⟨fun other taken => ?_, fun other index returned => ?_⟩
    · have different : other ≠ index := by
        rintro rfl
        exact taken free
      exact Function.update_of_ne different _ _
    · have different : other ≠ thread := by
        rintro rfl
        exact open_ index returned
      exact (Function.update_of_ne different _ _).trans returned

theorem State.Owned.next (owned : state.Owned config) {action : Action Thread}
    (step : state.next config action = some after) : after.Owned config := by
  have grows := grows_of_next step
  have kept : ∀ other index, state.pc other = .returned index →
      index < config.size.toNat ∧ after.table index = config.threadId other := by
    intro other index returned
    obtain ⟨inside, taken⟩ := owned other index returned
    have notFree : state.table index ≠ 0 := by
      rw [taken]
      exact config.threadId_ne other
    exact ⟨inside, (grows.table index notFree).trans taken⟩
  obtain ⟨thread, -, ⟨pc, unfinished, rfl⟩ | ⟨place, inside, -, rfl⟩⟩ := next_cases step
  · intro other index returned
    by_cases same : other = thread
    · subst same
      exact absurd ((Function.update_self _ _ _).symm.trans returned) (unfinished index)
    · exact kept other index ((Function.update_of_ne same _ _).symm.trans returned)
  · intro other index returned
    by_cases same : other = thread
    · subst same
      cases (Function.update_self _ _ _).symm.trans returned
      exact ⟨inside, Function.update_self _ _ _⟩
    · exact kept other index ((Function.update_of_ne same _ _).symm.trans returned)

theorem owned_of_run (run : Run (system config)) (index : Nat) (inside : index ≤ run.length) :
    (run.state index).Owned config := by
  refine run.invariant run.meets_true (fun state starts thread place returned => ?_)
    (fun before action after owned _ step => owned.next step) index inside
  rw [starts thread] at returned
  cases returned

/-- What a call has returned stays its entry to the end of the run. -/
theorem returned_of_run (run : Run (system config)) {first last : Nat} (later : first ≤ last)
    (inside : last ≤ run.length) {thread : Thread} {index : Nat}
    (returned : (run.state first).pc thread = .returned index) :
    (run.state last).pc thread = .returned index :=
  run.invariant_between (fun _ _ => True) (fun state => state.pc thread = .returned index) later
    inside (fun _ _ _ => trivial) returned
    fun _ _ _ here _ step => (grows_of_next step).returned thread index here

end Sound

/-! ### A call that runs alone -/

section Alone

variable {Thread : Type} [DecidableEq Thread] {config : Config Thread}

/-- The first free entry in cyclic order from the start index is `distance` places away. -/
structure State.FirstFree (config : Config Thread) (state : State Thread) (startIndex : UInt64)
    (distance : Nat) : Prop where
  inside : distance < config.size.toNat
  free : state.table (entryAt config.size startIndex distance) = 0
  first : ∀ nearer < distance, state.table (entryAt config.size startIndex nearer) ≠ 0

omit [DecidableEq Thread] in
theorem State.exists_firstFree (state : State Thread) (startIndex : UInt64)
    (some_ : ∃ index < config.size.toNat, state.table index = 0) :
    ∃ distance, state.FirstFree config startIndex distance := by
  obtain ⟨index, inside, free⟩ := some_
  obtain ⟨far, below, rfl⟩ := exists_entryAt_eq config startIndex inside
  have exists_ : ∃ distance, state.table (entryAt config.size startIndex distance) = 0 := ⟨far, free⟩
  exact ⟨Nat.find exists_, Nat.lt_of_le_of_lt (Nat.find_min' exists_ free) below,
    Nat.find_spec exists_, fun nearer less => Nat.find_min exists_ less⟩

/-- The thread takes this entry. -/
def State.take (config : Config Thread) (state : State Thread) (thread : Thread) (index : Nat) :
    State Thread where
  table := Function.update state.table index (config.threadId thread)
  pc := Function.update state.pc thread (.returned index)

/-- The rounds up to a free entry, one step each, and the exchange. -/
theorem replay_rounds (state : State Thread) {thread : Thread} (rest : Nat) {i : UInt64}
    (here : state.pc thread = .test i) (inside : i.toNat + rest < config.size.toNat)
    (free : state.table (entryAt config.size (config.startIndex thread) (i.toNat + rest)) = 0)
    (taken : ∀ nearer < rest,
      state.table (entryAt config.size (config.startIndex thread) (i.toNat + nearer)) ≠ 0) :
    replay (State.next config) (List.replicate (rest + 2) (.step thread)) state =
      some (state.take config thread
        (entryAt config.size (config.startIndex thread) (i.toNat + rest))) := by
  induction rest generalizing state i with
  | zero =>
    have step : state.next config (.step thread) = some (state.goto thread (.exchange i)) := by
      rw [State.next, State.stepThread]
      simp only [here, indexToTest_toNat config]
      exact if_pos free
    have exchange : (state.goto thread (.exchange i)).next config (.step thread) =
        some (state.take config thread
          (entryAt config.size (config.startIndex thread) i.toNat)) := by
      have there : (state.goto thread (.exchange i)).pc thread = .exchange i :=
        Function.update_self _ _ _
      rw [State.next, State.stepThread]
      simp only [there, indexToTest_toNat config]
      refine (if_pos free).trans ?_
      simp only [State.goto, State.take, Function.update_idem]
    simp only [List.replicate, replay, step, exchange, Option.bind_some, Nat.add_zero]
  | succ rest inductionHypothesis =>
    have below := config.size.toNat_lt
    have next_ : (i + 1).toNat = i.toNat + 1 := by
      rw [UInt64.toNat_add]
      exact Nat.mod_eq_of_lt (by simp only [UInt64.toNat_one]; omega)
    have more : i + 1 < config.size := by
      rw [UInt64.lt_iff_toNat_lt, next_]
      omega
    have step : state.next config (.step thread) = some (state.goto thread (.test (i + 1))) := by
      rw [State.next, State.stepThread]
      simp only [here, indexToTest_toNat config]
      refine (if_neg (taken 0 (Nat.succ_pos rest))).trans ?_
      rw [Config.afterRound, if_pos more]
    have shift : ∀ count, (i + 1).toNat + count = i.toNat + (count + 1) := by
      intro count
      rw [next_]
      omega
    have rounds := inductionHypothesis (state.goto thread (.test (i + 1)))
      (Function.update_self _ _ _) (by rw [shift]; exact inside) (by rw [shift]; exact free)
      fun nearer less => by
        rw [shift]
        exact taken (nearer + 1) (Nat.succ_lt_succ less)
    rw [List.replicate_succ, replay, step, Option.bind_some, rounds, shift]
    simp only [State.goto, State.take, Function.update_idem]

/-- A call that runs alone while an entry is free returns the first free one, in the round for that
entry. -/
theorem replay_reserveEntry {state : State Thread} {thread : Thread} {distance : Nat}
    (notCalled : state.pc thread = .notCalled)
    (firstFree : state.FirstFree config (config.startIndex thread) distance) :
    replay (State.next config) (.reserveEntry thread :: List.replicate (distance + 2) (.step thread))
      state = some (state.take config thread
        (entryAt config.size (config.startIndex thread) distance)) := by
  have call : state.next config (.reserveEntry thread) = some (state.goto thread (.test 0)) := by
    rw [State.next, if_pos notCalled]
  have rounds := replay_rounds (state.goto thread (.test 0)) distance (i := 0)
    (Function.update_self _ _ _) (by rw [UInt64.toNat_zero, Nat.zero_add]; exact firstFree.inside)
    (by rw [UInt64.toNat_zero, Nat.zero_add]; exact firstFree.free)
    fun nearer less => by
      rw [UInt64.toNat_zero, Nat.zero_add]
      exact firstFree.first nearer less
  rw [replay, call, Option.bind_some, rounds, UInt64.toNat_zero, Nat.zero_add]
  simp only [State.goto, State.take, Function.update_idem]

/-- In every run the calls that have returned have different entries, each of them carries the id of
its owner from then on, and a call that runs alone while an entry is free gets the first free one in
cyclic order from its start index, within one pass over the table. -/
theorem reservations_of_run (config : Config Thread) (run : Run (system config)) :
    (∀ index ≤ run.length, ∀ thread other entry, (run.state index).pc thread = .returned entry →
      (run.state index).pc other = .returned entry → thread = other) ∧
    (∀ first last, first ≤ last → last ≤ run.length → ∀ thread entry,
      (run.state first).pc thread = .returned entry →
      entry < config.size.toNat ∧ (run.state last).pc thread = .returned entry ∧
        (run.state last).table entry = config.threadId thread) ∧
    ∀ index ≤ run.length, ∀ thread, (run.state index).pc thread = .notCalled →
      (∃ entry < config.size.toNat, (run.state index).table entry = 0) →
      ∃ distance, (run.state index).FirstFree config (config.startIndex thread) distance ∧
        replay (State.next config)
            (.reserveEntry thread :: List.replicate (distance + 2) (.step thread))
            (run.state index) =
          some ((run.state index).take config thread
            (entryAt config.size (config.startIndex thread) distance)) := by
  refine ⟨fun index inside thread other entry one two => ?_,
    fun first last later inside thread entry returned => ?_,
    fun index inside thread notCalled free => ?_⟩
  · exact (owned_of_run run index inside).distinct one two
  · have kept := returned_of_run run later inside returned
    obtain ⟨bound, owned⟩ := owned_of_run run last inside thread entry kept
    exact ⟨bound, kept, owned⟩
  · obtain ⟨distance, firstFree⟩ : ∃ distance,
        (run.state index).FirstFree config (config.startIndex thread) distance :=
      (run.state index).exists_firstFree (config.startIndex thread) free
    exact ⟨distance, firstFree, replay_reserveEntry notCalled firstFree⟩

end Alone

/-- Two threads with the same start index, the last one before the wrap, on a table of four entries. -/
def Config.pair : Config (Fin 2) where
  kind := .minEpochTable
  size := 4
  powerOfTwo := ⟨2, rfl⟩
  startIndex _ := 0xFFFFFFFFFFFFFFFF
  threadId thread := if thread = 0 then 17 else 18
  threadId_ne := by decide
  threadId_injective := by decide

/-- An empty table that nobody has called. -/
def State.start : State (Fin 2) where
  table _ := 0
  pc _ := .notCalled

instance : Inhabited (Action (Fin 2)) := ⟨.step 0⟩

/-- Both threads see entry 3 free. Thread 0 gets it, and thread 1 goes on with entry 0. -/
def contended : List (Action (Fin 2)) :=
  [.reserveEntry 0, .reserveEntry 1, .step 0, .step 1, .step 0, .step 1, .step 1, .step 1]

theorem reservations_of_run_contended : ∃ run : Run (system .pair),
    (run.state 8).pc 0 = .returned 3 ∧ (run.state 8).table 3 = 17 ∧
      (run.state 8).pc 1 = .returned 0 := by
  have starts : ∀ thread, State.start.pc thread = .notCalled := fun _ => rfl
  obtain ⟨run, length, states, -⟩ := exists_run_of_next
    (fun state : State (Fin 2) => ∀ thread, state.pc thread = .notCalled) (State.next .pair) starts
    contended (by decide +kernel)
  have first := satisfies_of_replay (fun state : State (Fin 2) => state.pc 0 = .returned 3)
    (states 5) (by decide +kernel)
  have second := satisfies_of_replay (fun state : State (Fin 2) => state.pc 1 = .returned 0)
    (states 8) (by decide +kernel)
  obtain ⟨-, kept, owned⟩ := (reservations_of_run .pair run).2.1 5 8 (by decide)
    (Nat.le_of_eq length.symm) 0 3 first
  exact ⟨run, kept, owned, second⟩

end Pmwcas.EpochTable
