/-
This file models one partition of a descriptor pool and the thread that uses it: the intrusive free
list the constructor threads through the descriptors, `AllocateDescriptor` with its loop of bumps
and scavenges, `AddEntry`, `MwCAS`, `Abort`, and the garbage list through whose callback,
`FreeDescriptor`, the descriptors come back.

The garbage list and the epoch manager are those of `GarbageList.lean` and `EpochManager.lean`, and
`MwCAS` runs the frames of `Machine.lean` up to the push in `Cleanup`, which is the `Push` of the
garbage list. Other threads use the epoch manager at any time.
-/

import Mathlib
import Pmwcas.GarbageSafety
import Pmwcas.Machine

namespace Pmwcas.DescriptorPartition

open Transition

/-! ### The distribution of the descriptors -/

/-- A pool with its partitions, as `initVariable` leaves their numbers. The check
`pool_size_ > partition_count_` has passed. -/
structure Layout where
  pool : Pool
  partitionCount : Nat
  poolSize_powerOfTwo : ∃ exponent, pool.size = 2 ^ exponent
  partitionCount_powerOfTwo : ∃ exponent, partitionCount = 2 ^ exponent
  enough : partitionCount < pool.size

/-- `desc_per_partition`. -/
def Layout.descPerPartition (layout : Layout) : Nat := layout.pool.size / layout.partitionCount

/-- The variables of the loop that distributes the descriptors: the links between them, the heads
of the free lists, and the partition it is at. -/
structure Distribution where
  nextPtr : Nat → Option Nat
  freeList : Nat → Option Nat
  partition : Nat

/-- One round of the loop. -/
def Distribution.add (descPerPartition : Nat) (state : Distribution) (i : Nat) : Distribution where
  nextPtr := Function.update state.nextPtr i (state.freeList state.partition)
  freeList := Function.update state.freeList state.partition (some i)
  partition := if (i + 1) % descPerPartition = 0 then state.partition + 1 else state.partition

/-- The loop of the constructor. -/
def Layout.distribute (layout : Layout) : Distribution :=
  (List.range layout.pool.size).foldl (Distribution.add layout.descPerPartition)
    { nextPtr := fun _ => none, freeList := fun _ => none, partition := 0 }

/-! ### The partition and its thread -/

/-- The partition `index`, used by thread `owner`. -/
structure Config where
  build : Build
  layout : Layout
  index : Nat
  index_lt : index < layout.partitionCount
  owner : Nat
  list : GarbageList.Config
  kind : list.kind = .garbageListUnsafe owner

/-- The descriptors of the partition. -/
def Config.Member (config : Config) (d : Nat) : Prop :=
  d < config.layout.pool.size ∧ d / config.layout.descPerPartition = config.index

instance (config : Config) (d : Nat) : Decidable (config.Member d) :=
  inferInstanceAs (Decidable (_ ∧ _))

/-- What the thread is doing. -/
inductive Control where
  | idle
  /-- `AllocateBaseDescriptor`: look at the free list. -/
  | allocating
  /-- `AllocateBaseDescriptor`: inside `BumpCurrentEpoch`. -/
  | bumping
  /-- `AllocateBaseDescriptor`: call `Scavenge`. -/
  | scavenge
  /-- `AllocateBaseDescriptor`: inside `Scavenge`. -/
  | scavenging
  /-- Inside `MwCAS`, up to the push in `Cleanup`. -/
  | running (frames : List Frame)
  /-- Inside the `Push` of descriptor `d`. -/
  | pushing (d : Nat)
  /-- A check has failed. -/
  | rawCheckFailed (check : RawCheck)
  deriving DecidableEq, Repr

/-- A state of the partition. `held` are the descriptors the thread has been given and has not
handed back. -/
structure State where
  list : GarbageList.State
  shared : Shared
  freeList : Option Nat
  nextPtr : Nat → Option Nat
  held : List Nat
  control : Control

/-- What can happen next. -/
inductive Action where
  | allocateDescriptor
  | addEntry (d : Nat) (request : Request)
  | mwCAS (d : Nat)
  | abort (d : Nat)
  /-- The thread performs the next step of its call. -/
  | step
  /-- A thread uses the epoch manager: another one, or this one between its calls. -/
  | epoch (action : EpochManager.Action)
  deriving DecidableEq, Repr

instance : Inhabited Action := ⟨.step⟩

/-- The address of `FreeDescriptor`. -/
def freeDescriptorCallback : Nat := 1

namespace State

/-- The partition after the construction of the pool, over target words with any contents. -/
def start (config : Config) (mem : Nat → Word) : State where
  list := .start config.list
  shared := {
    mem := mem
    nvm := mem
    desc := fun _ => .initialized
    nvDesc := fun _ => .initialized
    garbage := [] }
  freeList := config.layout.distribute.freeList config.index
  nextPtr := config.layout.distribute.nextPtr
  held := []
  control := .idle

/-- `FreeDescriptor`. What `DeallocateMemory` frees is outside the pool. -/
def freeDescriptor (state : State) (d : Nat) : State :=
  { state with
    shared := { state.shared with desc := Function.update state.shared.desc d .initialized }
    nextPtr := Function.update state.nextPtr d state.freeList
    freeList := some d }

/-- The descriptor the garbage list is about to pass to `FreeDescriptor`. -/
def destroyed (config : Config) (state : State) : Option Nat :=
  match state.list.calls config.owner with
  | some (_, .destroy _ _ _ _ item) => some (config.layout.pool.descriptorAt item)
  | _ => none

/-- A step of the garbage list by the thread, with the callback it calls. -/
def stepList (config : Config) (state : State) : Option State :=
  (state.list.next config.list (.step config.owner)).map fun list =>
    match state.destroyed config with
    | some d => { state with list := list }.freeDescriptor d
    | none => { state with list := list }

/-- `garbage_list->Push(this, FreeDescriptor, nullptr)` on descriptor `d`. -/
def push (config : Config) (state : State) (d : Nat) : Option State :=
  (state.list.next config.list (.push config.owner (config.layout.pool.descriptorAddress d)
    freeDescriptorCallback 0)).map fun list => { state with list := list, control := .pushing d }

/-- The status of descriptor `d` is stored if it is Finished; otherwise the check fails. -/
def leaveFinished (state : State) (d : Nat) (code : StatusCode) : Option State :=
  if (state.shared.desc d).status = .of .finished then
    some { state with shared := state.shared.storeStatus d (.of code) }
  else none

/-- One step of the thread inside a call. -/
def stepControl (config : Config) (state : State) : Option State :=
  match state.control with
  | .idle => none
  | .allocating =>
    match state.freeList with
    | some d => some { state with
        freeList := state.nextPtr d
        held := d :: state.held
        control := .idle }
    | none => (state.list.stepEpochs config.list (.bumpCurrentEpoch config.owner)).map fun list =>
        { state with list := list, control := .bumping }
  | .bumping =>
    (state.list.stepEpochs config.list (.step config.owner)).map fun list =>
      { state with
        list := list
        control := if (list.epochs.threads config.owner).pc = .outside then .scavenge
          else .bumping }
  | .scavenge =>
    (state.list.next config.list (.scavenge config.owner)).map fun list =>
      { state with list := list, control := .scavenging }
  | .scavenging =>
    (state.stepList config).map fun after =>
      { after with
        control := if after.list.calls config.owner = none then .allocating else .scavenging }
  | .running [] => some { state with control := .idle }
  | .running (.mwCAS d 0 .cleanupPush :: _) => state.push config d
  | .running (frame :: rest) =>
    let result := frame.step config.build config.layout.pool state.shared
    some { state with shared := result.1, control := .running (result.2.stack rest) }
  | .pushing d =>
    (state.stepList config).map fun after =>
      if after.list.calls config.owner = none then
        { after with held := after.held.erase d, control := .idle }
      else after
  | .rawCheckFailed _ => none

/-- The steps of the system. -/
def next (config : Config) (state : State) : Action → Option State
  | .allocateDescriptor =>
    if state.control = .idle then some { state with control := .allocating } else none
  | .addEntry d request =>
    if state.control = .idle ∧ d ∈ state.held then
      match (state.shared.desc d).addEntry (config.layout.pool.descriptorAddress d) request with
      | .ok filled => some { state with shared := { state.shared with
          desc := Function.update state.shared.desc d filled } }
      | .error check => some { state with control := .rawCheckFailed check }
    else none
  | .mwCAS d =>
    if state.control = .idle ∧ d ∈ state.held then
      match state.leaveFinished d .undecided with
      | some begun => some { begun with
          control := .running [.mwCAS d 0 (.entry config.build 0)] }
      | none => some { state with control := .rawCheckFailed .statusNotFinished }
    else none
  | .abort d =>
    if state.control = .idle ∧ d ∈ state.held then
      match state.leaveFinished d .failed with
      | some begun => begun.push config d
      | none => some { state with control := .rawCheckFailed .cannotAbort }
    else none
  | .step => state.stepControl config
  | .epoch action =>
    if action.thread ≠ config.owner ∨ state.control = .idle then
      (state.list.next config.list (.epoch action)).map fun list => { state with list := list }
    else none

end State

/-- A partition, its thread and the users of the epoch manager. -/
def system (config : Config) : System State Action :=
  .ofNext (fun state => ∃ mem, state = .start config mem) (State.next config)

end Pmwcas.DescriptorPartition
