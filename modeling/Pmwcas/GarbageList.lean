/-
This file models the two garbage lists (`common/garbage_list.h`, `common/garbage_list_unsafe.h`):
a ring of slots in which removed items wait until the epoch manager says that they are safe to
reclaim, and are then passed to the callback they were pushed with.

The concurrent list locks a slot with a compare and exchange on its `removal_epoch`, writes the
payload with separate stores and unlocks it with a plain store of the epoch. Every load, every
store and every exchange is a step of its own, the steps of `BumpCurrentEpoch()` inside a `Push`
included, and the epoch manager is the one of `EpochManager.lean`, used by any other threads at the
same time. The unsafe list has one thread and stores where the concurrent one exchanges.

`returned` and `passed` are history: the pushes that have returned, and the calls of callbacks.
-/

import Mathlib.Data.Finset.Card
import Pmwcas.EpochManager

namespace Pmwcas.GarbageList

open Transition

/-! ### The list -/

/-- `invalid_epoch`, which marks a slot as locked. -/
def invalidEpoch : Nat := 2 ^ 64 - 1

/-- The two implementations. The unsafe one is used by a single thread. -/
inductive Kind where
  | garbageList
  | garbageListUnsafe (owner : Nat)
  deriving DecidableEq, Repr

/-- A list with its epoch manager. -/
structure Config where
  kind : Kind
  epochs : EpochManager.Config
  itemCount : Nat
  powerOfTwo : ∃ exponent, itemCount = 2 ^ exponent
  first_lt : epochs.first < invalidEpoch

theorem Config.itemCount_pos (config : Config) : 0 < config.itemCount := by
  obtain ⟨exponent, same⟩ := config.powerOfTwo
  rw [same]
  exact Nat.two_pow_pos exponent

/-- `Item`. The addresses of objects, callbacks and contexts are numbers, null is 0. -/
structure Item where
  removalEpoch : Nat
  destroyCallback : Nat
  destroyCallbackContext : Nat
  removedItem : Nat
  deriving DecidableEq, Repr

def Item.empty : Item where
  removalEpoch := 0
  destroyCallback := 0
  destroyCallbackContext := 0
  removedItem := 0

/-- A pushed object with its callback, its context and the epoch it was removed in. -/
structure Removed where
  item : Nat
  callback : Nat
  context : Nat
  epoch : Nat
  deriving DecidableEq, Repr

/-- The slot `Push` tries, from the value of `tail_` it has fetched: the unsafe list counts from
slot 0, the concurrent one subtracts one first. -/
def Config.slot (config : Config) (tail : BitVec 64) : BitVec 64 :=
  match config.kind with
  | .garbageList => (tail - 1) &&& BitVec.ofNat 64 (config.itemCount - 1)
  | .garbageListUnsafe _ => tail &&& BitVec.ofNat 64 (config.itemCount - 1)

theorem Config.slot_lt (config : Config) (tail : BitVec 64) :
    (config.slot tail).toNat < config.itemCount := by
  have positive := config.itemCount_pos
  have small : ∀ word : BitVec 64,
      (word &&& BitVec.ofNat 64 (config.itemCount - 1)).toNat ≤ config.itemCount - 1 := by
    intro word
    rw [BitVec.toNat_and, BitVec.toNat_ofNat]
    exact Nat.le_trans Nat.and_le_right (Nat.mod_le _ _)
  unfold Config.slot
  split
  · have := small (tail - 1)
    omega
  · have := small tail
    omega

/-- Every time a `Push` works through a quarter of the list it bumps the epoch. -/
def Config.bumps (config : Config) (slot : BitVec 64) : Bool :=
  (slot <<< 2) &&& BitVec.ofNat 64 (config.itemCount - 1) == 0

/-! ### Where a call stands -/

/-- The call: `Push` with its arguments and the epoch it has stamped the item with, or
`Scavenge`. -/
inductive Call where
  | push (removed : Removed)
  | scavenge
  deriving DecidableEq, Repr

/-- The next step of a call, with the local variables it has set. -/
inductive Pc where
  /-- `Push`: fetch and increment `tail_`. -/
  | fetchTail
  /-- `Push`: call `BumpCurrentEpoch`. -/
  | bump (slot : Nat)
  /-- `Push`: inside `BumpCurrentEpoch`. -/
  | bumping (slot : Nat)
  /-- Load the `removal_epoch` of the slot. -/
  | loadEpoch (slot : Nat)
  /-- Lock the slot. -/
  | exchange (slot priorItemEpoch : Nat)
  /-- Ask `IsSafeToReclaim`. -/
  | checkSafe (slot priorItemEpoch : Nat)
  /-- Put the epoch back. -/
  | restore (slot priorItemEpoch : Nat)
  /-- Load the callback, its context and the item, and call it. -/
  | loadCallback (slot priorItemEpoch : Nat)
  | loadContext (slot priorItemEpoch callback : Nat)
  | loadItem (slot priorItemEpoch callback context : Nat)
  | destroy (slot priorItemEpoch callback context item : Nat)
  /-- Overwrite the slot field by field. -/
  | storeCallback (slot : Nat)
  | storeContext (slot : Nat)
  | storeItem (slot : Nat)
  | storeEpoch (slot : Nat)
  /-- `RAW_CHECK(priorItemEpoch != invalid_epoch)` has failed. -/
  | aborted
  deriving DecidableEq, Repr

namespace Call

/-- What the call leaves in the slot it has emptied. -/
def replacement : Call → Item
  | .push removed => ⟨removed.epoch, removed.callback, removed.context, removed.item⟩
  | .scavenge => .empty

/-- Where `Scavenge` goes to next: it is done after the last slot. -/
def scavengeFrom (itemCount slot : Nat) : Option (Call × Pc) :=
  if slot < itemCount then some (.scavenge, .loadEpoch slot) else none

/-- `continue`: `Push` tries another slot, `Scavenge` the next one. -/
def retry (itemCount slot : Nat) (call : Call) : Option (Call × Pc) :=
  match call with
  | .push removed => some (.push removed, .fetchTail)
  | .scavenge => scavengeFrom itemCount (slot + 1)

/-- The slot is not one to lock: another call is at it, or `Scavenge` finds nothing there. -/
def passesBy (call : Call) (priorItemEpoch : Nat) : Bool :=
  match call with
  | .push _ => priorItemEpoch == invalidEpoch
  | .scavenge => priorItemEpoch == 0 || priorItemEpoch == invalidEpoch

end Call

/-! ### The system -/

/-- A state of the list, its epoch manager and the threads that use them. -/
structure State where
  epochs : EpochManager.State
  tail : BitVec 64
  items : Nat → Item
  calls : Nat → Option (Call × Pc)
  returned : List Removed
  passed : List Removed

/-- What can happen next. -/
inductive Action where
  /-- The thread calls `Push`, which stamps the item with the current epoch. -/
  | push (t item callback context : Nat)
  /-- The thread calls `Scavenge`. -/
  | scavenge (t : Nat)
  /-- The thread performs the next step of its call. -/
  | step (t : Nat)
  /-- A thread that is in none of the calls uses the epoch manager. -/
  | epoch (action : EpochManager.Action)
  deriving DecidableEq, Repr

instance : Inhabited Action := ⟨.step 0⟩

namespace State

/-- The state of a list that has just been initialized. -/
def start (config : Config) : State where
  epochs := .start config.epochs
  tail := 0
  items := fun _ => .empty
  calls := fun _ => none
  returned := []
  passed := []

def setCall (state : State) (t : Nat) (call : Option (Call × Pc)) : State :=
  { state with calls := Function.update state.calls t call }

def setItem (state : State) (slot : Nat) (item : Item) : State :=
  { state with items := Function.update state.items slot item }

/-- A callback is called. -/
def pass (state : State) (removed : Removed) : State :=
  { state with passed := state.passed ++ [removed] }

/-- A push returns. -/
def complete (state : State) (removed : Removed) : State :=
  { state with returned := state.returned ++ [removed] }

/-- What a call does after it has locked a slot whose epoch was `priorItemEpoch`. -/
def locked (slot priorItemEpoch : Nat) : Pc :=
  if priorItemEpoch ≠ 0 then .checkSafe slot priorItemEpoch else .storeCallback slot

/-- One step of the epoch manager; the epochs stay below the largest 64-bit number. -/
def stepEpochs (config : Config) (state : State) (action : EpochManager.Action) : Option State :=
  match state.epochs.next config.epochs action with
  | some epochs => if epochs.currentEpoch < invalidEpoch then some { state with epochs } else none
  | none => none

/-- One step of a call. -/
def stepCall (config : Config) (state : State) (t : Nat) (call : Call) : Pc → Option State
  | .fetchTail =>
    let slot := config.slot state.tail
    some ({ state with tail := state.tail + 1 }.setCall t
      (some (call, if config.bumps slot then .bump slot.toNat else .loadEpoch slot.toNat)))
  | .bump slot =>
    (state.stepEpochs config (.bumpCurrentEpoch t)).map
      (·.setCall t (some (call, .bumping slot)))
  | .bumping slot =>
    (state.stepEpochs config (.step t)).map fun after => after.setCall t
      (some (call, if (after.epochs.threads t).pc = .outside then .loadEpoch slot
        else .bumping slot))
  | .loadEpoch slot =>
    let priorItemEpoch := (state.items slot).removalEpoch
    if call.passesBy priorItemEpoch then
      match config.kind, call with
      | .garbageListUnsafe _, .push _ => some (state.setCall t (some (call, .aborted)))
      | _, _ => some (state.setCall t (call.retry config.itemCount slot))
    else some (state.setCall t (some (call, .exchange slot priorItemEpoch)))
  | .exchange slot priorItemEpoch =>
    if config.kind = .garbageList ∧ (state.items slot).removalEpoch ≠ priorItemEpoch then
      some (state.setCall t (call.retry config.itemCount slot))
    else
      some ((state.setItem slot { state.items slot with removalEpoch := invalidEpoch }).setCall t
        (some (call, locked slot priorItemEpoch)))
  | .checkSafe slot priorItemEpoch =>
    some (state.setCall t (some (call,
      if state.epochs.isSafeToReclaim priorItemEpoch then .loadCallback slot priorItemEpoch
      else .restore slot priorItemEpoch)))
  | .restore slot priorItemEpoch =>
    some ((state.setItem slot { state.items slot with removalEpoch := priorItemEpoch }).setCall t
      (call.retry config.itemCount slot))
  | .loadCallback slot priorItemEpoch =>
    some (state.setCall t (some (call,
      .loadContext slot priorItemEpoch (state.items slot).destroyCallback)))
  | .loadContext slot priorItemEpoch callback =>
    some (state.setCall t (some (call,
      .loadItem slot priorItemEpoch callback (state.items slot).destroyCallbackContext)))
  | .loadItem slot priorItemEpoch callback context =>
    some (state.setCall t (some (call,
      .destroy slot priorItemEpoch callback context (state.items slot).removedItem)))
  | .destroy slot priorItemEpoch callback context item =>
    some ((state.pass ⟨item, callback, context, priorItemEpoch⟩).setCall t
      (some (call, .storeCallback slot)))
  | .storeCallback slot =>
    some ((state.setItem slot
      { state.items slot with destroyCallback := call.replacement.destroyCallback }).setCall t
        (some (call, .storeContext slot)))
  | .storeContext slot =>
    some ((state.setItem slot
      { state.items slot with
        destroyCallbackContext := call.replacement.destroyCallbackContext }).setCall t
        (some (call, .storeItem slot)))
  | .storeItem slot =>
    some ((state.setItem slot
      { state.items slot with removedItem := call.replacement.removedItem }).setCall t
        (some (call, .storeEpoch slot)))
  | .storeEpoch slot =>
    let stored := state.setItem slot
      { state.items slot with removalEpoch := call.replacement.removalEpoch }
    match call with
    | .push removed => some ((stored.complete removed).setCall t none)
    | .scavenge => some (stored.setCall t (Call.scavengeFrom config.itemCount (slot + 1)))
  | .aborted => none

/-- The thread is in none of the calls, and may make one of this list. -/
def Ready (config : Config) (state : State) (t : Nat) : Prop :=
  state.epochs.Ready t ∧ state.calls t = none ∧
    (config.kind = .garbageList ∨ config.kind = .garbageListUnsafe t)

instance (config : Config) (state : State) (t : Nat) : Decidable (state.Ready config t) :=
  inferInstanceAs (Decidable (_ ∧ _ ∧ (_ ∨ _)))

/-- The steps of the system. -/
def next (config : Config) (state : State) : Action → Option State
  | .push t item callback context =>
    if state.Ready config t then
      some (state.setCall t (some
        (.push ⟨item, callback, context, state.epochs.currentEpoch⟩, .fetchTail)))
    else none
  | .scavenge t =>
    if state.Ready config t then
      some (state.setCall t (Call.scavengeFrom config.itemCount 0))
    else none
  | .step t =>
    match state.calls t with
    | none => none
    | some (call, pc) => state.stepCall config t call pc
  | .epoch action =>
    if state.calls action.thread = none then state.stepEpochs config action else none

/-- `Uninitialize` at one slot: an item that is still there is passed to its callback. -/
def uninitializeSlot (state : State) (slot : Nat) : State :=
  let item := state.items slot
  if item.removedItem ≠ 0 then
    (state.pass ⟨item.removedItem, item.destroyCallback, item.destroyCallbackContext,
      item.removalEpoch⟩).setItem slot { item with removedItem := 0, removalEpoch := 0 }
  else state

/-- `Uninitialize`: the slots in order. It is called when no thread uses the list any more. -/
def uninitialize (config : Config) (state : State) : State :=
  (List.range config.itemCount).foldl uninitializeSlot state

end State

/-- A garbage list under any number of threads. -/
def system (config : Config) : System State Action :=
  .ofNext (fun state => state = .start config) (State.next config)

end Pmwcas.GarbageList
