/-
This file models the epoch managers (`common/epoch.cc`, `benchmarks/NodeEpoch.cpp`) and proves the
guarantee every structure of the library rests on: an item removed while a thread is protected is
not reclaimed before that thread leaves the protected region.

Every load and every store of `Protect()`, `Unprotect()`, `GetCurrentEpoch()` and
`BumpCurrentEpoch()` is a step of its own, and so is every test and every exchange with which a
thread reserves its table entry. A bump visits the table entry by entry while threads enter and
leave, and several bumps may be under way and store their results in any order, so
`safe_to_reclaim_epoch_` goes up and down. What is stable is what a bump in progress may still
store: either it has not come to the entry of the protected thread yet, or it has already seen an
epoch that is old enough.
-/

import Mathlib.Data.Nat.Bitwise
import Pmwcas.Library.Transition

namespace Pmwcas.EpochManager

open Transition

/-! ### The managers -/

/-- The two implementations. They differ in what else they store in an entry. -/
inductive Kind where
  | epochManager
  | nodeEpochManager
  deriving DecidableEq, Repr

/-- A manager with its table. `EpochManager` and `NodeEpochManager()` start in epoch 1 and
`NodeEpochManager(val)` in `val`; the last epoch that is safe to reclaim is the one before, so
the first epoch is positive. -/
structure Config where
  kind : Kind
  size : Nat
  powerOfTwo : ∃ exponent, size = 2 ^ exponent
  first : Nat
  first_pos : 0 < first
  /-- `Murmur3_64` or `NodeMurmur3` of a thread id. -/
  startIndex : Nat → Nat

theorem Config.size_pos (config : Config) : 0 < config.size := by
  obtain ⟨exponent, same⟩ := config.powerOfTwo
  rw [same]
  exact Nat.two_pow_pos exponent

/-- The entry `ReserveEntry` looks at in its round `i`. -/
def Config.indexToTest (config : Config) (threadId i : Nat) : Nat :=
  (config.startIndex threadId + i) &&& (config.size - 1)

theorem Config.indexToTest_lt (config : Config) (threadId i : Nat) :
    config.indexToTest threadId i < config.size := by
  have bound : config.indexToTest threadId i ≤ config.size - 1 := Nat.and_le_right
  have positive := config.size_pos
  omega

/-- `MinEpochTable::Entry` and `NodeEntry`; the latter has no `last_unprotected_epoch`. -/
structure Entry where
  protectedEpoch : Nat
  lastUnprotectedEpoch : Nat
  threadId : Nat
  deriving DecidableEq, Repr

/-- An entry in an unlocked and ready to use state. -/
def Entry.unlocked : Entry where
  protectedEpoch := 0
  lastUnprotectedEpoch := 0
  threadId := 0

/-! ### Where a thread stands -/

/-- The call for which a thread looks up its entry, with the epoch it has loaded. -/
inductive Call where
  | protect (epoch : Nat)
  | unprotect (epoch : Nat)
  deriving DecidableEq, Repr

/-- The next step of a thread, with the local variables it has set. -/
inductive Pc where
  /-- The thread is in none of the calls. -/
  | outside
  /-- `ReserveEntry`: test the `thread_id` of the entry of round `i`. -/
  | reserveTest (call : Call) (i : Nat)
  /-- `ReserveEntry`: compare and exchange the `thread_id` of the entry of round `i`. -/
  | reserveExchange (call : Call) (i : Nat)
  /-- `Protect`: clear `last_unprotected_epoch`. -/
  | clearLastUnprotected (entry epoch : Nat)
  /-- `Protect`: store `protected_epoch`. -/
  | storeProtected (entry epoch : Nat)
  /-- `Unprotect`: store `last_unprotected_epoch`. -/
  | storeLastUnprotected (entry epoch : Nat)
  /-- `Unprotect`: clear `protected_epoch`. -/
  | clearProtected (entry : Nat)
  /-- `ComputeNewSafeToReclaimEpoch`: the entry to load next, and `oldest_call` so far. Past the
  last entry the result is stored. -/
  | scan (i oldestCall : Nat)
  deriving DecidableEq, Repr

/-- What a thread does once it has its entry. -/
def Call.enter (kind : Kind) (entry : Nat) : Call → Pc
  | .protect epoch => match kind with
    | .epochManager => .clearLastUnprotected entry epoch
    | .nodeEpochManager => .storeProtected entry epoch
  | .unprotect epoch => match kind with
    | .epochManager => .storeLastUnprotected entry epoch
    | .nodeEpochManager => .clearProtected entry

/-- A thread: where it stands, its entry in thread local storage, and whether it has returned
from a `Protect` and not yet called the matching `Unprotect`. -/
structure Thread where
  pc : Pc
  tls : Option Nat
  inside : Bool
  deriving DecidableEq, Repr

def Thread.start : Thread where
  pc := .outside
  tls := none
  inside := false

/-- `GetEntryForThread`. -/
def Thread.getEntry (kind : Kind) (thread : Thread) (call : Call) : Pc :=
  match thread.tls with
  | some entry => call.enter kind entry
  | none => .reserveTest call 0

/-! ### The system -/

/-- A state of the manager and of the threads that use it. -/
structure State where
  currentEpoch : Nat
  safeToReclaimEpoch : Nat
  table : Nat → Entry
  threads : Nat → Thread

/-- What can happen next. A thread is known by its id. -/
inductive Action where
  /-- The thread calls `Protect()`, which loads the current epoch. -/
  | protect (t : Nat)
  /-- The thread calls `Unprotect()`. -/
  | unprotect (t : Nat)
  /-- The thread reads the current epoch with `GetCurrentEpoch()`. -/
  | getCurrentEpoch (t : Nat)
  /-- The thread calls `BumpCurrentEpoch()`, which increments the current epoch. -/
  | bumpCurrentEpoch (t : Nat)
  /-- The thread performs the next step of its call. -/
  | step (t : Nat)
  deriving DecidableEq, Repr

instance : Inhabited Action := ⟨.step 0⟩

namespace State

/-- The state of a manager that has just been initialized. -/
def start (config : Config) : State where
  currentEpoch := config.first
  safeToReclaimEpoch := config.first - 1
  table := fun _ => .unlocked
  threads := fun _ => .start

/-- `IsSafeToReclaim`. -/
def isSafeToReclaim (state : State) (epoch : Nat) : Bool :=
  decide (epoch ≤ state.safeToReclaimEpoch)

def setThread (state : State) (t : Nat) (thread : Thread) : State :=
  { state with threads := Function.update state.threads t thread }

def setPc (state : State) (t : Nat) (pc : Pc) : State :=
  state.setThread t { state.threads t with pc := pc }

def setEntry (state : State) (index : Nat) (entry : Entry) : State :=
  { state with table := Function.update state.table index entry }

/-- The round after round `i` of `ReserveEntry`; after the last one it starts again. -/
def nextRound (config : Config) (state : State) (t : Nat) (call : Call) (i : Nat) : State :=
  state.setPc t (.reserveTest call (if i + 1 < config.size then i + 1 else 0))

/-- One step of a thread inside a call. -/
def stepThread (config : Config) (state : State) (t : Nat) : Option State :=
  match (state.threads t).pc with
  | .outside => none
  | .reserveTest call i =>
    if (state.table (config.indexToTest t i)).threadId = 0 then
      some (state.setPc t (.reserveExchange call i))
    else some (state.nextRound config t call i)
  | .reserveExchange call i =>
    let index := config.indexToTest t i
    if (state.table index).threadId = 0 then
      some ((state.setEntry index { state.table index with threadId := t }).setThread t
        { state.threads t with pc := call.enter config.kind index, tls := some index })
    else some (state.nextRound config t call i)
  | .clearLastUnprotected entry epoch =>
    some ((state.setEntry entry { state.table entry with lastUnprotectedEpoch := 0 }).setPc t
      (.storeProtected entry epoch))
  | .storeProtected entry epoch =>
    some ((state.setEntry entry { state.table entry with protectedEpoch := epoch }).setThread t
      { state.threads t with pc := .outside, inside := true })
  | .storeLastUnprotected entry epoch =>
    some ((state.setEntry entry { state.table entry with lastUnprotectedEpoch := epoch }).setPc t
      (.clearProtected entry))
  | .clearProtected entry =>
    some ((state.setEntry entry { state.table entry with protectedEpoch := 0 }).setPc t .outside)
  | .scan i oldestCall =>
    if i < config.size then
      let entryEpoch := (state.table i).protectedEpoch
      some (state.setPc t (.scan (i + 1)
        (if entryEpoch ≠ 0 ∧ entryEpoch < oldestCall then entryEpoch else oldestCall)))
    else some ({ state with safeToReclaimEpoch := oldestCall - 1 }.setPc t .outside)

/-- The thread is in none of the calls, and may make one. No thread has id 0. -/
def Ready (state : State) (t : Nat) : Prop :=
  t ≠ 0 ∧ (state.threads t).pc = .outside

instance (state : State) (t : Nat) : Decidable (state.Ready t) :=
  inferInstanceAs (Decidable (_ ∧ _))

/-- The steps of the system. `Protect` is called by threads outside the protected region only and
`Unprotect` by threads inside it: anything else is documented as undefined. -/
def next (config : Config) (state : State) : Action → Option State
  | .protect t =>
    if state.Ready t ∧ (state.threads t).inside = false then
      some (state.setPc t ((state.threads t).getEntry config.kind (.protect state.currentEpoch)))
    else none
  | .unprotect t =>
    if state.Ready t ∧ (state.threads t).inside = true then
      some (state.setThread t { state.threads t with
        pc := (state.threads t).getEntry config.kind (.unprotect state.currentEpoch)
        inside := false })
    else none
  | .getCurrentEpoch t => if state.Ready t then some state else none
  | .bumpCurrentEpoch t =>
    if state.Ready t then
      some ({ state with currentEpoch := state.currentEpoch + 1 }.setPc t
        (.scan 0 state.currentEpoch))
    else none
  | .step t => state.stepThread config t

end State

/-- The epoch manager under any number of threads. -/
def system (config : Config) : System State Action :=
  .ofNext (fun state => state = .start config) (State.next config)

/-! ### What holds of every thread -/

/-- The epoch a call has loaded is one of those that have been current. -/
def Call.Bounded (currentEpoch : Nat) : Call → Prop
  | .protect epoch => 0 < epoch ∧ epoch ≤ currentEpoch
  | .unprotect _ => True

/-- What the local variables of a thread say. -/
def Thread.Bounded (currentEpoch : Nat) (thread : Thread) : Prop :=
  match thread.pc with
  | .outside => True
  | .reserveTest call _ => thread.inside = false ∧ call.Bounded currentEpoch
  | .reserveExchange call _ => thread.inside = false ∧ call.Bounded currentEpoch
  | .clearLastUnprotected entry epoch =>
    thread.inside = false ∧ thread.tls = some entry ∧ 0 < epoch ∧ epoch ≤ currentEpoch
  | .storeProtected entry epoch =>
    thread.inside = false ∧ thread.tls = some entry ∧ 0 < epoch ∧ epoch ≤ currentEpoch
  | .storeLastUnprotected entry _ => thread.inside = false ∧ thread.tls = some entry
  | .clearProtected entry => thread.inside = false ∧ thread.tls = some entry
  | .scan _ oldestCall => 0 < oldestCall ∧ oldestCall < currentEpoch

/-- What holds of thread `t`: it owns the entry in its thread local storage, its local variables
make sense, and inside the protected region its entry says so. -/
structure Thread.Fits (config : Config) (state : State) (t : Nat) (thread : Thread) : Prop where
  nonzero : thread.pc ≠ .outside → t ≠ 0
  owned : ∀ entry, thread.tls = some entry →
    t ≠ 0 ∧ entry < config.size ∧ (state.table entry).threadId = t
  bounded : thread.Bounded state.currentEpoch
  entered : thread.inside = true → ∃ entry, thread.tls = some entry ∧
    0 < (state.table entry).protectedEpoch ∧
    (state.table entry).protectedEpoch ≤ state.currentEpoch

/-- The invariant of the manager. -/
structure Invariant (config : Config) (state : State) : Prop where
  safe_lt : state.safeToReclaimEpoch < state.currentEpoch
  threads : ∀ t, (state.threads t).Fits config state t

theorem invariant_start (config : Config) : Invariant config (.start config) where
  safe_lt := Nat.sub_lt config.first_pos Nat.one_pos
  threads _ := {
    nonzero := fun inside => absurd rfl inside
    owned := fun _ absurdly => nomatch absurdly
    bounded := trivial
    entered := fun absurdly => nomatch absurdly }

theorem Call.Bounded.mono {call : Call} {early late : Nat} (bounded : call.Bounded early)
    (later : early ≤ late) : call.Bounded late := by
  cases call with
  | protect epoch => exact ⟨bounded.1, Nat.le_trans bounded.2 later⟩
  | unprotect epoch => trivial

theorem Thread.Bounded.mono {thread : Thread} {early late : Nat} (bounded : thread.Bounded early)
    (later : early ≤ late) : thread.Bounded late := by
  unfold Thread.Bounded at bounded ⊢
  split at bounded
  case h_1 => trivial
  case h_2 => exact ⟨bounded.1, bounded.2.mono later⟩
  case h_3 => exact ⟨bounded.1, bounded.2.mono later⟩
  case h_4 =>
    exact ⟨bounded.1, bounded.2.1, bounded.2.2.1, Nat.le_trans bounded.2.2.2 later⟩
  case h_5 =>
    exact ⟨bounded.1, bounded.2.1, bounded.2.2.1, Nat.le_trans bounded.2.2.2 later⟩
  case h_6 => exact bounded
  case h_7 => exact bounded
  case h_8 => exact ⟨bounded.1, Nat.lt_of_lt_of_le bounded.2 later⟩

theorem Call.bounded_enter {call : Call} {currentEpoch : Nat} (bounded : call.Bounded currentEpoch)
    (kind : Kind) {entry : Nat} {thread : Thread} (outside : thread.inside = false)
    (stored : thread.tls = some entry) (here : thread.pc = call.enter kind entry) :
    thread.Bounded currentEpoch := by
  unfold Thread.Bounded
  rw [here]
  cases call with
  | protect epoch =>
    cases kind with
    | epochManager => exact ⟨outside, stored, bounded.1, bounded.2⟩
    | nodeEpochManager => exact ⟨outside, stored, bounded.1, bounded.2⟩
  | unprotect epoch =>
    cases kind with
    | epochManager => exact ⟨outside, stored⟩
    | nodeEpochManager => exact ⟨outside, stored⟩

theorem Call.bounded_getEntry {call : Call} {currentEpoch : Nat}
    (bounded : call.Bounded currentEpoch) (kind : Kind) {before thread : Thread}
    (outside : thread.inside = false) (stored : thread.tls = before.tls)
    (here : thread.pc = before.getEntry kind call) : thread.Bounded currentEpoch := by
  unfold Thread.getEntry at here
  split at here
  case h_1 entry found => exact Call.bounded_enter bounded kind outside (stored.trans found) here
  case h_2 =>
    unfold Thread.Bounded
    rw [here]
    exact ⟨outside, bounded⟩

/-! ### What a step of one thread does to the others -/

/-- A step of thread `t`: the other threads stay where they are, no entry changes hands, and no
entry of another thread is written. -/
structure Local (before after : State) (t : Nat) : Prop where
  threads : ∀ u, u ≠ t → after.threads u = before.threads u
  later : before.currentEpoch ≤ after.currentEpoch
  ids : ∀ entry, (before.table entry).threadId ≠ 0 →
    (after.table entry).threadId = (before.table entry).threadId
  epochs : ∀ entry, (before.table entry).threadId ≠ t →
    (after.table entry).protectedEpoch = (before.table entry).protectedEpoch

theorem Thread.Fits.of_local {config : Config} {before after : State} {t u : Nat}
    (effect : Local before after t) (other : u ≠ t)
    (fits : (before.threads u).Fits config before u) :
    (after.threads u).Fits config after u := by
  rw [effect.threads u other]
  refine ⟨fits.nonzero, ?_, fits.bounded.mono effect.later, ?_⟩
  · intro entry stored
    obtain ⟨nonzero, inside, locked⟩ := fits.owned entry stored
    exact ⟨nonzero, inside, (effect.ids entry (locked ▸ nonzero)).trans locked⟩
  · intro within
    obtain ⟨entry, stored, positive, bound⟩ := fits.entered within
    have locked := (fits.owned entry stored).2.2
    refine ⟨entry, stored, ?_⟩
    rw [effect.epochs entry (locked ▸ other)]
    exact ⟨positive, Nat.le_trans bound effect.later⟩

theorem Invariant.of_local {config : Config} {before after : State} {t : Nat}
    (invariant : Invariant config before) (effect : Local before after t)
    (safe_lt : after.safeToReclaimEpoch < after.currentEpoch)
    (own : (after.threads t).Fits config after t) : Invariant config after := by
  refine ⟨safe_lt, fun u => ?_⟩
  by_cases same : u = t
  · rw [same]
    exact own
  · exact (invariant.threads u).of_local effect same

theorem State.table_setEntry_self (state : State) (index : Nat) (entry : Entry) :
    (state.setEntry index entry).table index = entry := by
  simp only [State.setEntry, Function.update_self]

theorem State.table_setEntry_of_ne (state : State) {index other : Nat} (different : other ≠ index)
    (entry : Entry) : (state.setEntry index entry).table other = state.table other := by
  simp only [State.setEntry, Function.update_of_ne different]

theorem State.threads_setThread_self (state : State) (t : Nat) (thread : Thread) :
    (state.setThread t thread).threads t = thread := by
  simp only [State.setThread, Function.update_self]

theorem State.threads_setThread_of_ne (state : State) {t u : Nat} (other : u ≠ t)
    (thread : Thread) : (state.setThread t thread).threads u = state.threads u := by
  simp only [State.setThread, Function.update_of_ne other]

theorem State.local_setThread (state : State) (t : Nat) (thread : Thread) :
    Local state (state.setThread t thread) t where
  threads _ other := state.threads_setThread_of_ne other thread
  later := Nat.le_refl _
  ids _ _ := rfl
  epochs _ _ := rfl

/-- A step that writes one entry, which is free or owned by the thread. -/
theorem State.local_write (state : State) (t index : Nat) (entry : Entry) (thread : Thread)
    (ids : (state.table index).threadId ≠ 0 → entry.threadId = (state.table index).threadId)
    (epochs : (state.table index).threadId ≠ t →
      entry.protectedEpoch = (state.table index).protectedEpoch) :
    Local state ((state.setEntry index entry).setThread t thread) t where
  threads _ other := (state.setEntry index entry).threads_setThread_of_ne other thread
  later := Nat.le_refl _
  ids other locked := by
    show ((state.setEntry index entry).table other).threadId = _
    by_cases same : other = index
    · subst same
      rw [State.table_setEntry_self]
      exact ids locked
    · rw [State.table_setEntry_of_ne state same]
  epochs other foreign := by
    show ((state.setEntry index entry).table other).protectedEpoch = _
    by_cases same : other = index
    · subst same
      rw [State.table_setEntry_self]
      exact epochs foreign
    · rw [State.table_setEntry_of_ne state same]

/-! ### The invariant is kept -/

/-- A thread that moves on with the entry it has. -/
theorem Thread.Fits.move {config : Config} {before after : State} {t : Nat}
    {thread moved : Thread} (fits : thread.Fits config before t) (effect : Local before after t)
    (nonzero : t ≠ 0) (stored : moved.tls = thread.tls)
    (bounded : moved.Bounded after.currentEpoch)
    (entered : moved.inside = true → ∃ entry, moved.tls = some entry ∧
      0 < (after.table entry).protectedEpoch ∧
      (after.table entry).protectedEpoch ≤ after.currentEpoch) :
    moved.Fits config after t := by
  refine ⟨fun _ => nonzero, ?_, bounded, entered⟩
  intro entry here
  obtain ⟨-, inside, locked⟩ := fits.owned entry (stored ▸ here)
  exact ⟨nonzero, inside, (effect.ids entry (locked ▸ nonzero)).trans locked⟩

/-- A thread that moves on outside the protected region. -/
theorem Thread.Fits.move_outside {config : Config} {before after : State} {t : Nat}
    {thread moved : Thread} (fits : thread.Fits config before t) (effect : Local before after t)
    (nonzero : t ≠ 0) (stored : moved.tls = thread.tls) (outside : moved.inside = false)
    (bounded : moved.Bounded after.currentEpoch) : moved.Fits config after t :=
  fits.move effect nonzero stored bounded fun within => by rw [outside] at within; cases within

/-- A thread that moves on and leaves the table as it is. -/
theorem Thread.Fits.move_still {config : Config} {before after : State} {t : Nat}
    {thread moved : Thread} (fits : thread.Fits config before t) (effect : Local before after t)
    (nonzero : t ≠ 0) (stored : moved.tls = thread.tls) (same : moved.inside = thread.inside)
    (table : after.table = before.table)
    (bounded : moved.Bounded after.currentEpoch) : moved.Fits config after t := by
  refine fits.move effect nonzero stored bounded fun within => ?_
  obtain ⟨entry, here, positive, bound⟩ := fits.entered (same ▸ within)
  rw [table]
  exact ⟨entry, stored.trans here, positive, Nat.le_trans bound effect.later⟩

/-- What one step of a thread inside a call keeps, and that it concerns this thread alone. -/
theorem Invariant.stepThread {config : Config} {before after : State} {t : Nat}
    (invariant : Invariant config before) (performed : before.stepThread config t = some after) :
    Invariant config after ∧ Local before after t := by
  have fits := invariant.threads t
  have bounded := fits.bounded
  have nonzero : t ≠ 0 := by
    refine fits.nonzero fun outside => ?_
    rw [State.stepThread, outside] at performed
    cases performed
  unfold State.stepThread at performed
  unfold Thread.Bounded at bounded
  split at performed
  case h_1 => cases performed
  case h_2 call i here =>
    rw [here] at bounded
    split at performed
    · cases performed
      have effect := before.local_setThread t { before.threads t with pc := .reserveExchange call i }
      refine ⟨invariant.of_local effect invariant.safe_lt ?_, effect⟩
      rw [State.setPc, State.threads_setThread_self]
      exact fits.move_outside effect nonzero rfl bounded.1 bounded
    · cases performed
      have effect := before.local_setThread t
        { before.threads t with
          pc := .reserveTest call (if i + 1 < config.size then i + 1 else 0) }
      refine ⟨invariant.of_local effect invariant.safe_lt ?_, effect⟩
      rw [State.nextRound, State.setPc, State.threads_setThread_self]
      exact fits.move_outside effect nonzero rfl bounded.1 bounded
  case h_3 call i here =>
    rw [here] at bounded
    dsimp only at performed
    split at performed
    next free =>
      cases performed
      have effect := before.local_write t (config.indexToTest t i)
        { before.table (config.indexToTest t i) with threadId := t }
        { before.threads t with
          pc := call.enter config.kind (config.indexToTest t i)
          tls := some (config.indexToTest t i) }
        (fun locked => absurd free locked) (fun _ => rfl)
      refine ⟨invariant.of_local effect invariant.safe_lt ?_, effect⟩
      rw [State.threads_setThread_self]
      refine ⟨fun _ => nonzero, ?_, ?_, ?_⟩
      · intro entry stored
        cases stored
        refine ⟨nonzero, config.indexToTest_lt t i, ?_⟩
        show ((before.setEntry _ _).table _).threadId = t
        rw [State.table_setEntry_self]
      · exact Call.bounded_enter bounded.2 config.kind bounded.1 rfl rfl
      · intro within
        rw [show (before.threads t).inside = false from bounded.1] at within
        cases within
    next =>
      cases performed
      have effect := before.local_setThread t
        { before.threads t with
          pc := .reserveTest call (if i + 1 < config.size then i + 1 else 0) }
      refine ⟨invariant.of_local effect invariant.safe_lt ?_, effect⟩
      rw [State.nextRound, State.setPc, State.threads_setThread_self]
      exact fits.move_outside effect nonzero rfl bounded.1 bounded
  case h_4 entry epoch here =>
    rw [here] at bounded
    cases performed
    have effect := before.local_write t entry { before.table entry with lastUnprotectedEpoch := 0 }
      { before.threads t with pc := .storeProtected entry epoch } (fun _ => rfl) (fun _ => rfl)
    refine ⟨invariant.of_local effect invariant.safe_lt ?_, effect⟩
    rw [State.setPc, State.threads_setThread_self]
    exact fits.move_outside effect nonzero rfl bounded.1 bounded
  case h_5 entry epoch here =>
    rw [here] at bounded
    obtain ⟨-, stored, positive, bound⟩ := bounded
    have locked := (fits.owned entry stored).2.2
    cases performed
    have effect := before.local_write t entry { before.table entry with protectedEpoch := epoch }
      { before.threads t with pc := .outside, inside := true } (fun _ => rfl)
      (fun foreign => absurd locked foreign)
    refine ⟨invariant.of_local effect invariant.safe_lt ?_, effect⟩
    rw [State.threads_setThread_self]
    refine fits.move effect nonzero rfl trivial fun _ => ⟨entry, stored, ?_⟩
    show 0 < ((before.setEntry _ _).table entry).protectedEpoch ∧
      ((before.setEntry _ _).table entry).protectedEpoch ≤ _
    rw [State.table_setEntry_self]
    exact ⟨positive, bound⟩
  case h_6 entry epoch here =>
    rw [here] at bounded
    cases performed
    have effect := before.local_write t entry
      { before.table entry with lastUnprotectedEpoch := epoch }
      { before.threads t with pc := .clearProtected entry } (fun _ => rfl) (fun _ => rfl)
    refine ⟨invariant.of_local effect invariant.safe_lt ?_, effect⟩
    rw [State.setPc, State.threads_setThread_self]
    exact fits.move_outside effect nonzero rfl bounded.1 bounded
  case h_7 entry here =>
    rw [here] at bounded
    have locked := (fits.owned entry bounded.2).2.2
    cases performed
    have effect := before.local_write t entry { before.table entry with protectedEpoch := 0 }
      { before.threads t with pc := .outside } (fun _ => rfl)
      (fun foreign => absurd locked foreign)
    refine ⟨invariant.of_local effect invariant.safe_lt ?_, effect⟩
    rw [State.setPc, State.threads_setThread_self]
    exact fits.move_outside effect nonzero rfl bounded.1 trivial
  case h_8 i oldestCall here =>
    rw [here] at bounded
    split at performed
    · cases performed
      have effect := before.local_setThread t { before.threads t with
        pc := .scan (i + 1) (if (before.table i).protectedEpoch ≠ 0 ∧
          (before.table i).protectedEpoch < oldestCall then (before.table i).protectedEpoch
          else oldestCall) }
      refine ⟨invariant.of_local effect invariant.safe_lt ?_, effect⟩
      rw [State.setPc, State.threads_setThread_self]
      refine fits.move_still effect nonzero rfl rfl rfl ?_
      show 0 < ite _ _ _ ∧ ite _ _ _ < before.currentEpoch
      split
      next older => exact ⟨Nat.pos_of_ne_zero older.1, Nat.lt_trans older.2 bounded.2⟩
      next => exact bounded
    · cases performed
      have effect : Local before
          ({ before with safeToReclaimEpoch := oldestCall - 1 }.setPc t .outside) t :=
        ⟨fun _ other => Function.update_of_ne other _ _, Nat.le_refl _, fun _ _ => rfl,
          fun _ _ => rfl⟩
      have below : oldestCall - 1 < before.currentEpoch :=
        Nat.lt_of_le_of_lt (Nat.sub_le _ _) bounded.2
      refine ⟨invariant.of_local effect below ?_, effect⟩
      rw [State.setPc, State.threads_setThread_self]
      exact fits.move_still effect nonzero rfl rfl rfl trivial

/-- The thread an action is about. -/
def Action.thread : Action → Nat
  | .protect t => t
  | .unprotect t => t
  | .getCurrentEpoch t => t
  | .bumpCurrentEpoch t => t
  | .step t => t

/-- What an action keeps, and that it concerns its thread alone. -/
theorem Invariant.next {config : Config} {before after : State} {action : Action}
    (invariant : Invariant config before) (performed : before.next config action = some after) :
    Invariant config after ∧ Local before after action.thread := by
  cases action with
  | protect t =>
    have fits := invariant.threads t
    simp only [State.next, Option.ite_none_right_eq_some, Option.some.injEq] at performed
    obtain ⟨⟨ready, outside⟩, rfl⟩ := performed
    have effect := before.local_setThread t { before.threads t with
      pc := (before.threads t).getEntry config.kind (.protect before.currentEpoch) }
    refine ⟨invariant.of_local effect invariant.safe_lt ?_, effect⟩
    rw [State.setPc, State.threads_setThread_self]
    have positive : 0 < before.currentEpoch := Nat.lt_of_le_of_lt (Nat.zero_le _) invariant.safe_lt
    have bounded : (Call.protect before.currentEpoch).Bounded before.currentEpoch :=
      ⟨positive, Nat.le_refl _⟩
    exact fits.move_outside effect ready.1 rfl outside
      (Call.bounded_getEntry bounded config.kind outside rfl rfl)
  | unprotect t =>
    have fits := invariant.threads t
    simp only [State.next, Option.ite_none_right_eq_some, Option.some.injEq] at performed
    obtain ⟨⟨ready, within⟩, rfl⟩ := performed
    have effect := before.local_setThread t { before.threads t with
      pc := (before.threads t).getEntry config.kind (.unprotect before.currentEpoch)
      inside := false }
    refine ⟨invariant.of_local effect invariant.safe_lt ?_, effect⟩
    rw [State.threads_setThread_self]
    have bounded : (Call.unprotect before.currentEpoch).Bounded before.currentEpoch := trivial
    exact fits.move_outside effect ready.1 rfl rfl
      (Call.bounded_getEntry bounded config.kind rfl rfl rfl)
  | getCurrentEpoch t =>
    simp only [State.next, Option.ite_none_right_eq_some, Option.some.injEq] at performed
    obtain ⟨-, rfl⟩ := performed
    exact ⟨invariant, fun _ _ => rfl, Nat.le_refl _, fun _ _ => rfl, fun _ _ => rfl⟩
  | bumpCurrentEpoch t =>
    have fits := invariant.threads t
    simp only [State.next, Option.ite_none_right_eq_some, Option.some.injEq] at performed
    obtain ⟨ready, rfl⟩ := performed
    have effect : Local before ({ before with currentEpoch := before.currentEpoch + 1 }.setPc t
        (.scan 0 before.currentEpoch)) t :=
      ⟨fun _ other => Function.update_of_ne other _ _, Nat.le_succ _, fun _ _ => rfl,
        fun _ _ => rfl⟩
    refine ⟨invariant.of_local effect (Nat.lt_succ_of_lt invariant.safe_lt) ?_, effect⟩
    rw [State.setPc, State.threads_setThread_self]
    have positive : 0 < before.currentEpoch := Nat.lt_of_le_of_lt (Nat.zero_le _) invariant.safe_lt
    exact fits.move_still effect ready.1 rfl rfl rfl ⟨positive, Nat.lt_succ_self _⟩
  | step t => exact invariant.stepThread performed

variable {config : Config}

/-- The invariant holds in every state of every run. -/
theorem Invariant.of_run (run : Run (system config)) (index : Nat) (inside : index ≤ run.length) :
    Invariant config (run.state index) := by
  refine run.invariant run.meets_true ?_ ?_ index inside
  · intro state initial
    rw [show state = .start config from initial]
    exact invariant_start config
  · intro before action after invariant _ performed
    exact (invariant.next performed).1

/-! ### An item removed while a thread is protected -/

/-- Thread `t`, protected through its entry, keeps epoch `r` from being safe to reclaim: the bumps
in progress will see its entry or have seen an epoch that is old enough. -/
structure Shields (state : State) (t entry r : Nat) : Prop where
  within : (state.threads t).inside = true
  stored : (state.threads t).tls = some entry
  old : (state.table entry).protectedEpoch ≤ r
  unsafe_ : state.safeToReclaimEpoch < r
  scans : ∀ u i oldestCall, (state.threads u).pc = .scan i oldestCall →
    oldestCall ≤ r ∨ i ≤ entry

/-- A step of a call that is no bump leaves `safe_to_reclaim_epoch_` and begins no scan. -/
theorem State.stepThread_of_not_scan {before after : State} {t : Nat}
    (performed : before.stepThread config t = some after)
    (other : ∀ i oldestCall, (before.threads t).pc ≠ .scan i oldestCall) :
    after.safeToReclaimEpoch = before.safeToReclaimEpoch ∧
      ∀ i oldestCall, (after.threads t).pc ≠ .scan i oldestCall := by
  unfold State.stepThread at performed
  split at performed
  case h_1 => cases performed
  case h_2 =>
    split at performed
    all_goals
      cases performed
      simp [State.nextRound, State.setPc, State.setThread]
  case h_3 call i here =>
    dsimp only at performed
    split at performed
    · cases performed
      cases call <;> cases config.kind <;>
        simp [State.setEntry, State.setThread, Call.enter]
    · cases performed
      simp [State.nextRound, State.setPc, State.setThread]
  case h_8 i oldestCall here => exact absurd here (other i oldestCall)
  all_goals
    cases performed
    simp [State.setPc, State.setEntry, State.setThread]

theorem State.stepThread_scan {before after : State} {t i oldestCall : Nat}
    (here : (before.threads t).pc = .scan i oldestCall)
    (performed : before.stepThread config t = some after) :
    (i < config.size ∧ ∃ oldest, oldest ≤ oldestCall ∧
        ((before.table i).protectedEpoch ≠ 0 → oldest ≤ (before.table i).protectedEpoch) ∧
        after = before.setPc t (.scan (i + 1) oldest)) ∨
      (config.size ≤ i ∧
        after = { before with safeToReclaimEpoch := oldestCall - 1 }.setPc t .outside) := by
  rw [State.stepThread, here] at performed
  dsimp only at performed
  split at performed
  next inside =>
    cases performed
    refine .inl ⟨inside, _, ?_, ?_, rfl⟩
    · split
      next older => exact Nat.le_of_lt older.2
      next => exact Nat.le_refl _
    · intro occupied
      split
      next => exact Nat.le_refl _
      next newer => exact Nat.le_of_not_lt fun older => newer ⟨occupied, older⟩
  next outside =>
    cases performed
    exact .inr ⟨Nat.le_of_not_lt outside, rfl⟩

/-- Inside the protected region a thread is between calls or bumps the epoch. -/
theorem Thread.Bounded.pc_of_inside {thread : Thread} {currentEpoch : Nat}
    (bounded : thread.Bounded currentEpoch) (within : thread.inside = true) :
    thread.pc = .outside ∨ ∃ i oldestCall, thread.pc = .scan i oldestCall := by
  unfold Thread.Bounded at bounded
  split at bounded
  case h_1 here => exact .inl here
  case h_8 i oldestCall here => exact .inr ⟨i, oldestCall, here⟩
  all_goals
    rw [within] at bounded
    cases bounded.1

/-- A protected thread and its entry stay as they are until it calls `Unprotect`. -/
theorem Invariant.kept_inside {before after : State} {action : Action} {t entry : Nat}
    (invariant : Invariant config before) (performed : before.next config action = some after)
    (staying : action ≠ .unprotect t) (within : (before.threads t).inside = true)
    (stored : (before.threads t).tls = some entry) :
    (after.threads t).inside = true ∧ (after.threads t).tls = some entry ∧
      (after.table entry).protectedEpoch = (before.table entry).protectedEpoch := by
  have effect := (invariant.next performed).2
  by_cases other : t = action.thread
  case neg =>
    have locked := ((invariant.threads t).owned entry stored).2.2
    rw [effect.threads t other]
    exact ⟨within, stored, effect.epochs entry (locked ▸ other)⟩
  case pos =>
    cases action with
    | protect u =>
      have same : t = u := other
      subst same
      simp only [State.next, Option.ite_none_right_eq_some] at performed
      rw [performed.1.2] at within
      cases within
    | unprotect u =>
      have same : t = u := other
      subst same
      exact absurd rfl staying
    | getCurrentEpoch u =>
      simp only [State.next, Option.ite_none_right_eq_some, Option.some.injEq] at performed
      rw [← performed.2]
      exact ⟨within, stored, rfl⟩
    | bumpCurrentEpoch u =>
      have same : t = u := other
      subst same
      simp only [State.next, Option.ite_none_right_eq_some, Option.some.injEq] at performed
      rw [← performed.2, State.setPc, State.threads_setThread_self]
      exact ⟨within, stored, rfl⟩
    | step u =>
      have same : t = u := other
      subst same
      rcases (invariant.threads t).bounded.pc_of_inside within with here | ⟨i, oldestCall, here⟩
      · rw [State.next, State.stepThread, here] at performed
        cases performed
      · rcases State.stepThread_scan here performed with ⟨-, oldest, -, -, rfl⟩ | ⟨-, rfl⟩
        · rw [State.setPc, State.threads_setThread_self]
          exact ⟨within, stored, rfl⟩
        · rw [State.setPc, State.threads_setThread_self]
          exact ⟨within, stored, rfl⟩

/-- What becomes of `safe_to_reclaim_epoch_` and of the scans under way. -/
theorem Shields.scans_next {before after : State} {action : Action} {t entry r : Nat}
    (shields : Shields before t entry r) (invariant : Invariant config before)
    (performed : before.next config action = some after) :
    after.safeToReclaimEpoch < r ∧
      ∀ i oldestCall, (after.threads action.thread).pc = .scan i oldestCall →
        oldestCall ≤ r ∨ i ≤ entry := by
  have positive : 0 < r := Nat.lt_of_le_of_lt (Nat.zero_le _) shields.unsafe_
  cases action with
  | protect u =>
    simp only [State.next, Option.ite_none_right_eq_some, Option.some.injEq] at performed
    obtain ⟨-, rfl⟩ := performed
    refine ⟨shields.unsafe_, fun i oldestCall here => ?_⟩
    rw [Action.thread, State.setPc, State.threads_setThread_self] at here
    unfold Thread.getEntry Call.enter at here
    repeat' split at here
    all_goals cases here
  | unprotect u =>
    simp only [State.next, Option.ite_none_right_eq_some, Option.some.injEq] at performed
    obtain ⟨-, rfl⟩ := performed
    refine ⟨shields.unsafe_, fun i oldestCall here => ?_⟩
    rw [Action.thread, State.threads_setThread_self] at here
    unfold Thread.getEntry Call.enter at here
    repeat' split at here
    all_goals cases here
  | getCurrentEpoch u =>
    simp only [State.next, Option.ite_none_right_eq_some, Option.some.injEq] at performed
    obtain ⟨-, rfl⟩ := performed
    exact ⟨shields.unsafe_, shields.scans u⟩
  | bumpCurrentEpoch u =>
    simp only [State.next, Option.ite_none_right_eq_some, Option.some.injEq] at performed
    obtain ⟨-, rfl⟩ := performed
    refine ⟨shields.unsafe_, fun i oldestCall here => ?_⟩
    rw [Action.thread, State.setPc, State.threads_setThread_self] at here
    cases here
    exact .inr (Nat.zero_le entry)
  | step u =>
    by_cases scanning : ∃ i oldestCall, (before.threads u).pc = .scan i oldestCall
    case neg =>
      have quiet := State.stepThread_of_not_scan performed fun i oldestCall here =>
        scanning ⟨i, oldestCall, here⟩
      rw [quiet.1]
      exact ⟨shields.unsafe_, fun i oldestCall here => absurd here (quiet.2 i oldestCall)⟩
    case pos =>
      obtain ⟨i, oldestCall, here⟩ := scanning
      have inTable := ((invariant.threads t).owned entry shields.stored).2.1
      rcases State.stepThread_scan here performed with
        ⟨-, oldest, smaller, seen, rfl⟩ | ⟨past, rfl⟩
      · refine ⟨shields.unsafe_, fun j oldest' there => ?_⟩
        rw [Action.thread, State.setPc, State.threads_setThread_self] at there
        cases there
        rcases shields.scans u i oldestCall here with old | ahead
        · exact .inl (Nat.le_trans smaller old)
        · rcases Nat.lt_or_eq_of_le ahead with ahead | now
          · exact .inr ahead
          · -- the scan has just loaded the entry of the protected thread
            obtain ⟨owned, stored, occupied, -⟩ := (invariant.threads t).entered shields.within
            have same : owned = i := by
              rw [shields.stored, Option.some.injEq] at stored
              rw [← stored, now]
            rw [same] at occupied
            have old := shields.old
            rw [← now] at old
            exact .inl (Nat.le_trans (seen (Nat.pos_iff_ne_zero.1 occupied)) old)
      · have old : oldestCall ≤ r := by
          rcases shields.scans u i oldestCall here with old | ahead
          · exact old
          · omega
        refine ⟨?_, fun j oldest' there => ?_⟩
        · show oldestCall - 1 < r
          omega
        · rw [Action.thread, State.setPc, State.threads_setThread_self] at there
          cases there

/-- A protected thread keeps shielding what it shields until it calls `Unprotect`. -/
theorem Shields.next {before after : State} {action : Action} {t entry r : Nat}
    (shields : Shields before t entry r) (invariant : Invariant config before)
    (performed : before.next config action = some after) (staying : action ≠ .unprotect t) :
    Shields after t entry r := by
  obtain ⟨within, stored, same⟩ :=
    invariant.kept_inside performed staying shields.within shields.stored
  obtain ⟨unsafe_, scans⟩ := shields.scans_next invariant performed
  refine ⟨within, stored, same ▸ shields.old, unsafe_, fun u i oldestCall here => ?_⟩
  by_cases other : u = action.thread
  · subst other
    exact scans i oldestCall here
  · rw [(invariant.next performed).2.threads u other] at here
    exact shields.scans u i oldestCall here

/-- A protected thread shields the epoch that is current now. -/
theorem Invariant.shields {state : State} {t : Nat} (invariant : Invariant config state)
    (within : (state.threads t).inside = true) :
    ∃ entry, Shields state t entry state.currentEpoch := by
  obtain ⟨entry, stored, -, bound⟩ := (invariant.threads t).entered within
  refine ⟨entry, within, stored, bound, invariant.safe_lt, fun u i oldestCall here => .inl ?_⟩
  have bounded := (invariant.threads u).bounded
  rw [Thread.Bounded, here] at bounded
  exact Nat.le_of_lt bounded.2

/-! ### Epoch safety -/

/-- The step at `index` is the one with which the `Protect` of thread `t` returns. -/
def ReturnsFromProtect (run : Run (system config)) (t index : Nat) : Prop :=
  run.action index = .step t ∧
    ∃ entry epoch, ((run.state index).threads t).pc = .storeProtected entry epoch

/-- The guarantee of the manager over a run. -/
structure EpochSafety (run : Run (system config)) : Prop where
  /-- The last epoch that is safe to reclaim is older than the current one. -/
  below : ∀ index, index ≤ run.length →
    (run.state index).safeToReclaimEpoch < (run.state index).currentEpoch
  /-- An epoch that was read after a thread's `Protect` returned is not safe to reclaim until the
  thread calls `Unprotect`. -/
  shielded : ∀ t u protect read index, protect < read → read < index → index ≤ run.length →
    ReturnsFromProtect run t protect → run.action read = .getCurrentEpoch u →
    (∀ between, protect < between → between < index → run.action between ≠ .unprotect t) →
    (run.state index).isSafeToReclaim (run.state read).currentEpoch = false

theorem Invariant.inside_between (run : Run (system config)) {t first last : Nat}
    (order : first ≤ last) (bound : last ≤ run.length)
    (within : ((run.state first).threads t).inside = true)
    (staying : ∀ between, first ≤ between → between < last → run.action between ≠ .unprotect t) :
    ((run.state last).threads t).inside = true := by
  have both := run.invariant_between (fun _ action => action ≠ .unprotect t)
    (fun state => Invariant config state ∧ (state.threads t).inside = true) order bound staying
    ⟨.of_run run first (Nat.le_trans order bound), within⟩ ?_
  · exact both.2
  · rintro before action after ⟨invariant, within⟩ staying performed
    obtain ⟨entry, stored, -⟩ := (invariant.threads t).entered within
    exact ⟨(invariant.next performed).1,
      (invariant.kept_inside performed staying within stored).1⟩

theorem Shields.between (run : Run (system config)) {t entry r first last : Nat}
    (order : first ≤ last) (bound : last ≤ run.length)
    (shields : Shields (run.state first) t entry r)
    (staying : ∀ between, first ≤ between → between < last → run.action between ≠ .unprotect t) :
    Shields (run.state last) t entry r := by
  have both := run.invariant_between (fun _ action => action ≠ .unprotect t)
    (fun state => Invariant config state ∧ Shields state t entry r) order bound staying
    ⟨.of_run run first (Nat.le_trans order bound), shields⟩ ?_
  · exact both.2
  · rintro before action after ⟨invariant, shields⟩ staying performed
    exact ⟨(invariant.next performed).1, shields.next invariant performed staying⟩

theorem inside_of_returnsFromProtect (run : Run (system config)) {t index : Nat}
    (inside : index < run.length) (returns : ReturnsFromProtect run t index) :
    ((run.state (index + 1)).threads t).inside = true := by
  obtain ⟨action, entry, epoch, here⟩ := returns
  have performed : (run.state index).next config (run.action index) = some _ :=
    run.steps index inside
  rw [action, State.next, State.stepThread, here] at performed
  rw [← Option.some.inj performed, State.threads_setThread_self]

/-- Every run of every manager is safe. -/
theorem epochSafety_of_run (run : Run (system config)) : EpochSafety run where
  below index inside := (Invariant.of_run run index inside).safe_lt
  shielded t u protect read index before after inside returns reads staying := by
    have within := inside_of_returnsFromProtect run (by omega) returns
    have later : protect + 1 ≤ read := before
    have stillWithin := Invariant.inside_between run later (by omega) within
      fun between above below => staying between (by omega) (by omega)
    obtain ⟨entry, shields⟩ := (Invariant.of_run run read (by omega)).shields stillWithin
    have finally_ := shields.between run (Nat.le_of_lt after) inside
      fun between above below => staying between (by omega) below
    exact decide_eq_false (Nat.not_le_of_lt finally_.unsafe_)

/-- A manager with two entries. -/
def Config.small (kind : Kind) : Config where
  kind := kind
  size := 2
  powerOfTwo := ⟨1, rfl⟩
  first := 1
  first_pos := Nat.one_pos
  startIndex := id

/-- Thread 1 is protected while thread 2 reads the epoch and bumps it, and leaves before thread 2
bumps it again. -/
def protectedWhileBumping : List Action :=
  [.protect 1, .step 1, .step 1, .step 1, .step 1, .getCurrentEpoch 2, .bumpCurrentEpoch 2,
    .step 2, .step 2, .step 2, .unprotect 1, .step 1, .step 1, .bumpCurrentEpoch 2, .step 2,
    .step 2, .step 2]

/-- The epoch read while thread 1 was protected becomes safe to reclaim after it has left, and
not before. -/
theorem epochSafety_of_run_bumping : ∃ run : Run (system (.small .epochManager)),
    EpochSafety run ∧ run.length = 17 ∧ ReturnsFromProtect run 1 4 ∧
      run.action 5 = .getCurrentEpoch 2 ∧ run.action 10 = .unprotect 1 ∧
      (run.state 10).isSafeToReclaim (run.state 5).currentEpoch = false ∧
      (run.state 17).isSafeToReclaim (run.state 5).currentEpoch = true := by
  obtain ⟨run, length, states, actions⟩ := exists_run_of_next
    (fun state => state = .start (.small .epochManager)) (State.next (.small .epochManager)) rfl
    protectedWhileBumping (by decide)
  have returns : ReturnsFromProtect run 1 4 := by
    refine ⟨by rw [actions]; rfl, 1, 1, ?_⟩
    exact satisfies_of_replay (fun state => (state.threads 1).pc = .storeProtected 1 1)
      (states 4) (by decide)
  have epoch : (run.state 5).currentEpoch = 1 :=
    satisfies_of_replay (fun state => state.currentEpoch = 1) (states 5) (by decide)
  have safety := epochSafety_of_run run
  refine ⟨run, safety, length, returns, by rw [actions]; rfl, by rw [actions]; rfl, ?_, ?_⟩
  · refine safety.shielded 1 2 4 5 10 (by decide) (by decide) (by rw [length]; decide) returns
      (by rw [actions]; rfl) fun between after before => ?_
    have others : ∀ between < 10, protectedWhileBumping.getD between default ≠ .unprotect 1 := by
      decide
    rw [actions]
    exact others between before
  · rw [epoch]
    exact satisfies_of_replay (fun state => state.isSafeToReclaim 1 = true) (states 17)
      (by decide)

end Pmwcas.EpochManager
