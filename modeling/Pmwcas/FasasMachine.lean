/-
This file models any number of threads that run `FASASDescriptor::process()`, `helpProcess()` and
`getValueProtectedOfSharedVar()` as a transition system. Every load, store, exchange and flush of a
shared word, of a private word or of `privateAddress_` is a step of its own. The other fields of a
descriptor are not written while an operation with it goes on, so they are read together with the
next access.

Beside the memory that the threads see there is a durable copy of every word and of every field of
a descriptor. It takes the current content when the word is flushed, and at any other time.

A descriptor is allocated, filled field by field, processed, put into the garbage list, and, when no
word and no thread refers to it any more, initialized again with one store after the other.
-/

import Pmwcas.Fasas
import Pmwcas.Library.Transition

namespace Pmwcas

/-- The descriptor that a pointer of the pool belongs to. -/
def Pool.fasasAt (pool : Pool) (word : Word) : Nat := (word.rest - pool.base) / sizeofFASASDescriptor

@[simp] theorem Pool.fasasAt_fasasPtr (pool : Pool) (d : Nat) : pool.fasasAt (pool.fasasPtr d) = d := by
  simp only [fasasAt, fasasPtr, fasasAddress, sizeofFASASDescriptor]
  omega

theorem Pool.fasasPtr_injective (pool : Pool) {d e : Nat} (same : pool.fasasPtr d = pool.fasasPtr e) :
    d = e := by
  rw [← pool.fasasAt_fasasPtr d, same, fasasAt_fasasPtr]

@[simp] theorem Pool.fasasPtr_mwcas (pool : Pool) (d : Nat) : (pool.fasasPtr d).mwcas = true := rfl

/-- The pointer's null check passes. -/
theorem Pool.fasasPtr_rest_ne_zero (pool : Pool) (d : Nat) : (pool.fasasPtr d).rest ≠ 0 := by
  have positive := pool.base_pos
  show pool.base + sizeofFASASDescriptor * d ≠ 0
  omega

namespace Fasas

open Transition

/-! ### Program points -/

/-- The pool, the number of threads and the shared words. The other words are private. -/
structure Config where
  pool : Pool
  threads : Nat
  shared : List Nat

/-- The next access of `helpProcess()`, or of the same functions called by `process()`. -/
inductive Pc where
  /-- `helpProcess`: the first look at `isPrivateValueSet()`. -/
  | checkFirst
  /-- Flush the shared word. -/
  | flushWord
  /-- `persistSuccStatus`: `cleanPrivateAddr = getPrivateAddress()`. -/
  | loadPrivate
  /-- `persistSuccStatus`: compare `privateAddress_` with the clean address. -/
  | compareStatus (cleanPrivateAddr : Nat)
  /-- `persistSuccStatus`: exchange `privateAddress_`. -/
  | exchangeStatus (cleanPrivateAddr : Nat)
  /-- `persistSuccStatus`: the look at `isPrivateValueSet()`. -/
  | checkSet
  /-- `persistSuccStatus`: flush `privateAddress_`. -/
  | flushStatus
  /-- `helpProcess`: the last look at `isPrivateValueSet()`. -/
  | checkLast
  /-- `changeShareValueWithoutFlush`: compare the shared word with the pointer. -/
  | loadValue
  /-- `changeShareValueWithoutFlush`: exchange the shared word. -/
  | exchangeValue
  deriving DecidableEq, Repr

/-- Where a thread goes on after `helpProcess()`. -/
inductive Caller where
  /-- To the next attempt of `addDescriptorToShareVar`. -/
  | install (d : Nat)
  /-- To the next load of `getValueProtectedOfSharedVar`. -/
  | load (address : Nat)
  | idle
  deriving DecidableEq, Repr

/-- What a thread is doing. -/
inductive Thread where
  | idle
  /-- `process()` has returned. -/
  | returned (result : Bool)
  /-- `getValueProtectedOfSharedVar()` has returned. -/
  | value (val : Word)
  /-- `process()`: flush the descriptor. -/
  | flushDescriptor (d : Nat)
  /-- `addDescriptorToShareVar`: exchange the shared word. -/
  | install (d : Nat)
  /-- `process()` after its exchange has succeeded. -/
  | conclude (d : Nat) (pc : Pc)
  /-- `changePrivateValueSucc`: write the private word. -/
  | storePrivate (d : Nat)
  /-- `changePrivateValueSucc`: flush the private word. -/
  | flushPrivate (d : Nat)
  /-- `changePrivateValueSucc`: write `privateAddress_` with its flags. -/
  | storeFlags (d : Nat)
  /-- `changePrivateValueSucc`: flush `privateAddress_`. -/
  | flushFlags (d : Nat)
  /-- `Cleanup`: push the descriptor to the garbage list. -/
  | cleanup (d : Nat) (result : Bool)
  /-- `getValueProtectedOfSharedVar`: load the word. -/
  | load (address : Nat)
  /-- `getValueWithDirtyFlg`: flush the word. -/
  | flushDirty (address : Nat) (val : Word)
  /-- `getValueWithDirtyFlg`: clear the dirty flag. -/
  | clearDirty (address : Nat) (val : Word)
  /-- Inside `helpProcess()` of descriptor `e`. -/
  | help (e : Nat) (pc : Pc) (caller : Caller)
  deriving DecidableEq, Repr

/-- Where a descriptor is in its life. -/
inductive Life where
  | free
  /-- Allocated by a thread, which fills it. -/
  | filling (p : Nat)
  | processing (p : Nat)
  /-- In the garbage list. -/
  | retired
  /-- `Initialize` has cleared `privateAddress_`. -/
  | cleared
  /-- `Initialize` has stored `opType_`. -/
  | typed
  deriving DecidableEq, Repr

/-- A field of a descriptor. -/
inductive Field where
  | address
  | oldValue
  | newValue
  | opType
  | privateAddress
  deriving DecidableEq, Repr

/-- A store of `addSharedWord`, `setOpType` or `setPrivateAddress`. -/
inductive Write where
  | address (address : Nat)
  | oldValue (value : Word)
  | newValue (value : Word)
  | opType (opType : OpType)
  | privateAddress (address : Nat)
  deriving DecidableEq, Repr

/-- What can happen next. -/
inductive Action where
  | allocate (p d : Nat)
  | store (p d : Nat) (write : Write)
  | process (p d : Nat)
  | getValueProtectedOfSharedVar (p address : Nat)
  /-- A call of `helpProcess()` for the pointer in a shared word. -/
  | helpProcess (p address : Nat)
  /-- The thread performs the next access of its call. -/
  | step (p : Nat)
  /-- The next store of `FreeDescriptor`. -/
  | freeDescriptor (d : Nat)
  /-- A word becomes durable by itself. -/
  | writeBack (address : Nat)
  /-- A field of a descriptor becomes durable by itself. -/
  | writeBackField (d : Nat) (field : Field)
  deriving DecidableEq, Repr

instance : Inhabited Action := ⟨.step 0⟩

/-! ### The system -/

structure State where
  mem : Nat → Word
  desc : Nat → FASASDescriptor
  durableMem : Nat → Word
  durableDesc : Nat → FASASDescriptor
  life : Nat → Life
  threads : Nat → Thread

/-- Outside of a call. -/
def Thread.free : Thread → Bool
  | .idle | .returned _ | .value _ => true
  | _ => false

/-- The descriptor that a thread is inside `process()` with. -/
def Thread.own : Thread → Option Nat
  | .flushDescriptor d | .install d | .conclude d _ | .storePrivate d | .flushPrivate d
  | .storeFlags d | .flushFlags d | .cleanup d _ | .help _ _ (.install d) => some d
  | _ => none

/-- The descriptor that a thread helps. -/
def Thread.helped : Thread → Option Nat
  | .help e _ _ => some e
  | _ => none

/-- The thread refers to the descriptor. -/
def Thread.refers (thread : Thread) (d : Nat) : Bool :=
  thread.own == some d || thread.helped == some d

def Caller.thread : Caller → Thread
  | .install d => .install d
  | .load address => .load address
  | .idle => .idle

/-- The field of a descriptor, copied to another. -/
def Field.copy : Field → FASASDescriptor → FASASDescriptor → FASASDescriptor
  | .address, source, target => { target with address := source.address }
  | .oldValue, source, target => { target with oldValue := source.oldValue }
  | .newValue, source, target => { target with newValue := source.newValue }
  | .opType, source, target => { target with opType := source.opType }
  | .privateAddress, source, target => { target with privateAddress := source.privateAddress }

def Write.apply : Write → FASASDescriptor → FASASDescriptor
  | .address word, descriptor => { descriptor with address := word }
  | .oldValue value, descriptor => { descriptor with oldValue := value }
  | .newValue value, descriptor => { descriptor with newValue := value }
  | .opType value, descriptor => { descriptor with opType := value }
  | .privateAddress word, descriptor => { descriptor with privateAddress := .of word }

/-- What callers owe to the setters: clean values, and a private word that is no shared word. -/
def Write.allowed (config : Config) : Write → Bool
  | .address word => config.shared.contains word
  | .oldValue value => value.isCleanPtr
  | .newValue value => value.isCleanPtr
  | .opType _ => true
  | .privateAddress word => word != 0 && !config.shared.contains word

namespace State

def goto (state : State) (p : Nat) (thread : Thread) : State :=
  { state with threads := Function.update state.threads p thread }

def storeWord (state : State) (address : Nat) (value : Word) : State :=
  { state with mem := Function.update state.mem address value }

def setDesc (state : State) (d : Nat) (descriptor : FASASDescriptor) : State :=
  { state with desc := Function.update state.desc d descriptor }

def setLife (state : State) (d : Nat) (life : Life) : State :=
  { state with life := Function.update state.life d life }

/-- The durable copy of a word takes its content. -/
def flushWord (state : State) (address : Nat) : State :=
  { state with durableMem := Function.update state.durableMem address (state.mem address) }

/-- The durable copy of a field of a descriptor takes its content. -/
def flushField (state : State) (d : Nat) (field : Field) : State :=
  { state with
    durableDesc :=
      Function.update state.durableDesc d (Field.copy field (state.desc d) (state.durableDesc d)) }

/-- `NVRAM::Flush(sizeof(FASASDescriptor), this)`. -/
def flushDescriptor (state : State) (d : Nat) : State :=
  { state with durableDesc := Function.update state.durableDesc d (state.desc d) }

/-- An access of `helpProcess()` of descriptor `e`, or of the part of `process()` that is the same,
and what comes next if the function has not returned. -/
def stepPc (config : Config) (state : State) (own : Bool) (e : Nat) : Pc → State × Option Pc
  | .checkFirst =>
    (state, if (state.desc e).privateAddress.isPrivateValueSet = 1 then none else some .flushWord)
  | .flushWord => (state.flushWord (state.desc e).address, some .loadPrivate)
  | .loadPrivate => (state, some (.compareStatus (state.desc e).privateAddress.getPrivateAddress))
  | .compareStatus cleanPrivateAddr =>
    (state, some (if (state.desc e).privateAddress = .of cleanPrivateAddr then
      .exchangeStatus cleanPrivateAddr else .checkSet))
  | .exchangeStatus cleanPrivateAddr =>
    (if (state.desc e).privateAddress = .of cleanPrivateAddr then
      state.setDesc e { state.desc e with
        privateAddress := { PrivateAddress.of cleanPrivateAddr with statusFlg := true } }
      else state, some .checkSet)
  | .checkSet =>
    (state, some (if (state.desc e).privateAddress.isPrivateValueSet = 1 then
      (if own then .loadValue else .checkLast) else .flushStatus))
  | .flushStatus =>
    (state.flushField e .privateAddress, some (if own then .loadValue else .checkLast))
  | .checkLast =>
    (state, if (state.desc e).privateAddress.isPrivateValueSet = 1 then none else some .loadValue)
  | .loadValue =>
    (state, if state.mem (state.desc e).address = config.pool.fasasPtr e then some .exchangeValue
      else none)
  | .exchangeValue =>
    (if state.mem (state.desc e).address = config.pool.fasasPtr e then
      state.storeWord (state.desc e).address (state.desc e).newValue else state, none)

/-- `addDescriptorToShareVar`, after its exchange has returned `ret`. -/
def afterInstall (config : Config) (state : State) (d : Nat) (ret : Word) : Thread :=
  if ret.isMwCASDescriptorPtr then .help (config.pool.fasasAt ret) .checkFirst (.install d)
  else if ret ≠ (state.desc d).oldValue then .cleanup d false
  else .conclude d .flushWord

/-- `getValueProtectedOfSharedVar`, after its load of `val`, if no check fails. -/
def afterLoad (config : Config) (address : Nat) (val : Word) : Option Thread :=
  if val.mwcas then
    if val.cleanPtr.rest ≠ 0 then some (.help (config.pool.fasasAt val) .checkFirst (.load address))
    else none
  else if val.dirty then some (.flushDirty address val)
  else if val.isCleanPtr then some (.value val)
  else none

/-- The next access of a thread. -/
def stepThread (config : Config) (state : State) (p : Nat) : Thread → Option State
  | .idle | .returned _ | .value _ => none
  | .flushDescriptor d => some ((state.flushDescriptor d).goto p (.install d))
  | .install d =>
    some ((if state.mem (state.desc d).address = (state.desc d).oldValue then
        state.storeWord (state.desc d).address (config.pool.fasasPtr d) else state).goto p
      (afterInstall config state d (state.mem (state.desc d).address)))
  | .conclude d pc =>
    some ((state.stepPc config true d pc).1.goto p
      (match (state.stepPc config true d pc).2 with
        | some next => .conclude d next
        | none => .storePrivate d))
  | .storePrivate d =>
    some ((state.storeWord (state.desc d).privateAddress.getPrivateAddress
      (state.desc d).privateValue).goto p (.flushPrivate d))
  | .flushPrivate d =>
    some ((state.flushWord (state.desc d).privateAddress.getPrivateAddress).goto p (.storeFlags d))
  | .storeFlags d =>
    some ((state.setDesc d { state.desc d with
      privateAddress := { (PrivateAddress.of (state.desc d).privateAddress.getPrivateAddress) with
        statusFlg := true, isPrivateValueSetFlg := true } }).goto p (.flushFlags d))
  | .flushFlags d => some ((state.flushField d .privateAddress).goto p (.cleanup d true))
  | .cleanup d result => some ((state.setLife d .retired).goto p (.returned result))
  | .load address => (afterLoad config address (state.mem address)).map (state.goto p)
  | .flushDirty address val => some ((state.flushWord address).goto p (.clearDirty address val))
  | .clearDirty address val =>
    if val.clearDirty.isCleanPtr then
      some ((if state.mem address = val then state.storeWord address val.clearDirty
        else state).goto p (.value val.clearDirty))
    else none
  | .help e pc caller =>
    some ((state.stepPc config false e pc).1.goto p
      (match (state.stepPc config false e pc).2 with
        | some next => .help e next caller
        | none => caller.thread))

/-- No shared word and no thread refers to the descriptor. -/
def unreferenced (config : Config) (state : State) (d : Nat) : Bool :=
  config.shared.all (fun address => state.mem address != config.pool.fasasPtr d) &&
    (List.range config.threads).all fun p => !(state.threads p).refers d

/-- The steps of the system. -/
def next (config : Config) (state : State) : Action → Option State
  | .allocate p d =>
    if p < config.threads ∧ (state.threads p).free ∧ state.life d = .free then
      some (state.setLife d (.filling p))
    else none
  | .store p d write =>
    if (state.threads p).free ∧ state.life d = .filling p ∧ write.allowed config then
      some (state.setDesc d (write.apply (state.desc d)))
    else none
  | .process p d =>
    if (state.threads p).free ∧ state.life d = .filling p ∧
        config.shared.contains (state.desc d).address ∧
        (state.desc d).privateAddress.address ≠ 0 then
      some ((state.setLife d (.processing p)).goto p (.flushDescriptor d))
    else none
  | .getValueProtectedOfSharedVar p address =>
    if p < config.threads ∧ (state.threads p).free ∧ config.shared.contains address then
      some (state.goto p (.load address))
    else none
  | .helpProcess p address =>
    if p < config.threads ∧ (state.threads p).free ∧ config.shared.contains address ∧
        (state.mem address).mwcas then
      some (state.goto p (.help (config.pool.fasasAt (state.mem address)) .checkFirst .idle))
    else none
  | .step p => if p < config.threads then state.stepThread config p (state.threads p) else none
  | .freeDescriptor d =>
    match state.life d with
    | .retired =>
      if state.unreferenced config d then
        some ((state.setDesc d { state.desc d with privateAddress := .null }).setLife d .cleared)
      else none
    | .cleared => some ((state.setDesc d { state.desc d with opType := .fasas }).setLife d .typed)
    | .typed =>
      some ((state.setDesc d { state.desc d with
        address := 0, oldValue := .plain 0, newValue := .plain 0 }).setLife d .free)
    | _ => none
  | .writeBack address => some (state.flushWord address)
  | .writeBackField d field => some (state.flushField d field)

/-- A new pool, with clean values in the shared words. -/
structure Initial (config : Config) (state : State) : Prop where
  mem : ∀ address ∈ config.shared, (state.mem address).isCleanPtr = true
  durableMem : ∀ address ∈ config.shared, (state.durableMem address).isCleanPtr = true
  desc : ∀ d, state.desc d = .initialized
  life : ∀ d, state.life d = .free
  threads : ∀ p, state.threads p = .idle

/-- The logical value of a shared word: the new value of the descriptor it points to, or else its
content. -/
def logical (config : Config) (state : State) (address : Nat) : Word :=
  if (state.mem address).mwcas then (state.desc (config.pool.fasasAt (state.mem address))).newValue
  else state.mem address

end State

/-- Any number of threads on the descriptors of a pool. -/
def system (config : Config) : System State Action :=
  .ofNext (State.Initial config) (State.next config)

/-! ### What the updates change -/

namespace State

section Updates

variable (state : State) (p d address : Nat) (thread : Thread) (value : Word)
  (descriptor : FASASDescriptor) (life : Life) (field : Field)

@[simp] theorem goto_mem : (state.goto p thread).mem = state.mem := rfl

@[simp] theorem goto_desc : (state.goto p thread).desc = state.desc := rfl

@[simp] theorem goto_life : (state.goto p thread).life = state.life := rfl

@[simp] theorem goto_durableMem : (state.goto p thread).durableMem = state.durableMem := rfl

@[simp] theorem goto_durableDesc : (state.goto p thread).durableDesc = state.durableDesc := rfl

@[simp] theorem goto_threads_self : (state.goto p thread).threads p = thread :=
  Function.update_self ..

@[simp] theorem storeWord_desc : (state.storeWord address value).desc = state.desc := rfl

@[simp] theorem storeWord_life : (state.storeWord address value).life = state.life := rfl

@[simp] theorem storeWord_threads : (state.storeWord address value).threads = state.threads := rfl

@[simp] theorem storeWord_durableMem :
    (state.storeWord address value).durableMem = state.durableMem := rfl

@[simp] theorem storeWord_durableDesc :
    (state.storeWord address value).durableDesc = state.durableDesc := rfl

@[simp] theorem storeWord_mem_self : (state.storeWord address value).mem address = value :=
  Function.update_self ..

@[simp] theorem setDesc_mem : (state.setDesc d descriptor).mem = state.mem := rfl

@[simp] theorem setDesc_life : (state.setDesc d descriptor).life = state.life := rfl

@[simp] theorem setDesc_threads : (state.setDesc d descriptor).threads = state.threads := rfl

@[simp] theorem setDesc_durableMem : (state.setDesc d descriptor).durableMem = state.durableMem := rfl

@[simp] theorem setDesc_durableDesc :
    (state.setDesc d descriptor).durableDesc = state.durableDesc := rfl

@[simp] theorem setDesc_desc_self : (state.setDesc d descriptor).desc d = descriptor :=
  Function.update_self ..

@[simp] theorem setLife_mem : (state.setLife d life).mem = state.mem := rfl

@[simp] theorem setLife_desc : (state.setLife d life).desc = state.desc := rfl

@[simp] theorem setLife_threads : (state.setLife d life).threads = state.threads := rfl

@[simp] theorem setLife_durableMem : (state.setLife d life).durableMem = state.durableMem := rfl

@[simp] theorem setLife_durableDesc : (state.setLife d life).durableDesc = state.durableDesc := rfl

@[simp] theorem setLife_life_self : (state.setLife d life).life d = life := Function.update_self ..

@[simp] theorem flushWord_mem : (state.flushWord address).mem = state.mem := rfl

@[simp] theorem flushWord_desc : (state.flushWord address).desc = state.desc := rfl

@[simp] theorem flushWord_life : (state.flushWord address).life = state.life := rfl

@[simp] theorem flushWord_threads : (state.flushWord address).threads = state.threads := rfl

@[simp] theorem flushWord_durableDesc :
    (state.flushWord address).durableDesc = state.durableDesc := rfl

@[simp] theorem flushWord_durableMem_self :
    (state.flushWord address).durableMem address = state.mem address := Function.update_self ..

@[simp] theorem flushField_mem : (state.flushField d field).mem = state.mem := rfl

@[simp] theorem flushField_desc : (state.flushField d field).desc = state.desc := rfl

@[simp] theorem flushField_life : (state.flushField d field).life = state.life := rfl

@[simp] theorem flushField_threads : (state.flushField d field).threads = state.threads := rfl

@[simp] theorem flushField_durableMem :
    (state.flushField d field).durableMem = state.durableMem := rfl

@[simp] theorem flushDescriptor_mem : (state.flushDescriptor d).mem = state.mem := rfl

@[simp] theorem flushDescriptor_desc : (state.flushDescriptor d).desc = state.desc := rfl

@[simp] theorem flushDescriptor_life : (state.flushDescriptor d).life = state.life := rfl

@[simp] theorem flushDescriptor_threads : (state.flushDescriptor d).threads = state.threads := rfl

@[simp] theorem flushDescriptor_durableMem :
    (state.flushDescriptor d).durableMem = state.durableMem := rfl

end Updates

theorem goto_threads_of_ne (state : State) {p u : Nat} (other : u ≠ p) (thread : Thread) :
    (state.goto p thread).threads u = state.threads u := Function.update_of_ne other ..

theorem storeWord_mem_of_ne (state : State) {address other : Nat} (different : other ≠ address)
    (value : Word) : (state.storeWord address value).mem other = state.mem other :=
  Function.update_of_ne different ..

theorem setDesc_desc_of_ne (state : State) {d e : Nat} (different : e ≠ d)
    (descriptor : FASASDescriptor) : (state.setDesc d descriptor).desc e = state.desc e :=
  Function.update_of_ne different ..

theorem setLife_life_of_ne (state : State) {d e : Nat} (different : e ≠ d) (life : Life) :
    (state.setLife d life).life e = state.life e := Function.update_of_ne different ..

end State

/-! ### What holds in every state -/

/-- An operation goes on with the descriptor, or threads may still refer to it. -/
def Life.used : Life → Bool
  | .processing _ | .retired => true
  | _ => false

/-- The word that a thread loads next, now or after it has helped. -/
def Thread.reading : Thread → Option Nat
  | .load address | .help _ _ (.load address) => some address
  | _ => none

/-- The thread has found a dirty value. -/
def Thread.foundDirty : Thread → Bool
  | .flushDirty _ _ | .clearDirty _ _ => true
  | _ => false

/-- What holds in every state of the system. A pointer in a shared word belongs to an operation
whose owner has not changed the word to its new value. -/
structure Sound (config : Config) (state : State) : Prop where
  words : ∀ address ∈ config.shared, (state.mem address).isCleanPtr = true ∨
    ∃ d p pc, state.mem address = config.pool.fasasPtr d ∧ state.threads p = .conclude d pc ∧
      (state.desc d).address = address
  owner : ∀ p d, (state.threads p).own = some d → state.life d = .processing p
  helped : ∀ p e, (state.threads p).helped = some e → (state.life e).used = true
  reading : ∀ p address, (state.threads p).reading = some address → address ∈ config.shared
  notDirty : ∀ p, (state.threads p).foundDirty = false
  bounded : ∀ p, (state.threads p).free = false → p < config.threads
  filling : ∀ d p, state.life d = .filling p → p < config.threads
  values : ∀ d, (state.desc d).oldValue.isCleanPtr = true ∧ (state.desc d).newValue.isCleanPtr = true
  private_ : ∀ d, (state.desc d).privateAddress.address ≠ 0 →
    (state.desc d).privateAddress.address ∉ config.shared
  fields : ∀ d, (state.life d).used = true →
    (state.desc d).address ∈ config.shared ∧ (state.desc d).privateAddress.address ≠ 0

section Sound

variable {config : Config} {state state' : State}

/-- The durable copies do not matter. -/
theorem Sound.of_same (sound : Sound config state) (mem : state'.mem = state.mem)
    (desc : state'.desc = state.desc) (life : state'.life = state.life)
    (threads : state'.threads = state.threads) : Sound config state' := by
  obtain ⟨mem', desc', durableMem', durableDesc', life', threads'⟩ := state'
  cases mem
  cases desc
  cases life
  cases threads
  exact ⟨sound.words, sound.owner, sound.helped, sound.reading, sound.notDirty, sound.bounded,
    sound.filling, sound.values, sound.private_, sound.fields⟩

/-- A pointer's descriptor is in use. -/
theorem Sound.used_of_ptr (sound : Sound config state) {address d : Nat}
    (shared : address ∈ config.shared) (here : state.mem address = config.pool.fasasPtr d) :
    ∃ p pc, state.threads p = .conclude d pc ∧ state.life d = .processing p ∧
      (state.desc d).address = address := by
  rcases sound.words address shared with clean | ⟨e, p, pc, there, inside, placed⟩
  · rw [here] at clean
    cases clean
  · rw [here] at there
    obtain rfl := config.pool.fasasPtr_injective there
    exact ⟨p, pc, inside, sound.owner p d (by rw [inside]; rfl), placed⟩

theorem Sound.goto (sound : Sound config state) {p : Nat} {thread : Thread}
    (own : ∀ d, thread.own = some d → state.life d = .processing p)
    (helps : ∀ e, thread.helped = some e → (state.life e).used = true)
    (reads : ∀ address, thread.reading = some address → address ∈ config.shared)
    (clean : thread.foundDirty = false) (bounded : thread.free = false → p < config.threads)
    (leaves : ∀ d pc, state.threads p = .conclude d pc → (∃ pc', thread = .conclude d pc') ∨
      ∀ address ∈ config.shared, state.mem address ≠ config.pool.fasasPtr d) :
    Sound config (state.goto p thread) := by
  have each : ∀ Holds : Nat → Thread → Prop, (∀ u, Holds u (state.threads u)) → Holds p thread →
      ∀ u, Holds u ((state.goto p thread).threads u) := fun Holds before here =>
    (Function.forall_update_iff _ Holds).mpr ⟨here, fun u _ => before u⟩
  refine ⟨fun address shared => ?_,
    each (fun u thread => ∀ d, thread.own = some d → state.life d = .processing u) sound.owner own,
    each (fun _ thread => ∀ e, thread.helped = some e → (state.life e).used = true) sound.helped
      helps,
    each (fun _ thread => ∀ address, thread.reading = some address → address ∈ config.shared)
      sound.reading reads,
    each (fun _ thread => thread.foundDirty = false) sound.notDirty clean,
    each (fun u thread => thread.free = false → u < config.threads) sound.bounded bounded,
    sound.filling, sound.values, sound.private_, sound.fields⟩
  rcases sound.words address shared with plain | ⟨d, u, pc, here, inside, placed⟩
  · exact .inl plain
  · refine .inr ?_
    by_cases same : u = p
    · subst same
      rcases leaves d pc inside with ⟨pc', rfl⟩ | gone
      · exact ⟨d, u, pc', here, State.goto_threads_self .., placed⟩
      · exact absurd here (gone address shared)
    · exact ⟨d, u, pc, here, (State.goto_threads_of_ne _ same _).trans inside, placed⟩

theorem Sound.storeWord (sound : Sound config state) {address : Nat} {value : Word}
    (harmless : address ∉ config.shared ∨ value.isCleanPtr = true) :
    Sound config (state.storeWord address value) := by
  refine ⟨fun other shared => ?_, sound.owner, sound.helped, sound.reading, sound.notDirty,
    sound.bounded, sound.filling, sound.values, sound.private_, sound.fields⟩
  by_cases same : other = address
  · subst same
    rw [State.storeWord_mem_self]
    exact .inl (harmless.resolve_left (not_not_intro shared))
  · rw [State.storeWord_mem_of_ne _ same]
    exact sound.words other shared

theorem Sound.setDesc (sound : Sound config state) {d : Nat} {descriptor : FASASDescriptor}
    (values : descriptor.oldValue.isCleanPtr = true ∧ descriptor.newValue.isCleanPtr = true)
    (private_ : descriptor.privateAddress.address ≠ 0 →
      descriptor.privateAddress.address ∉ config.shared)
    (kept : (state.life d).used = true → descriptor.address = (state.desc d).address ∧
      descriptor.privateAddress.address = (state.desc d).privateAddress.address) :
    Sound config (state.setDesc d descriptor) := by
  have each : ∀ Holds : Nat → FASASDescriptor → Prop, (∀ e, Holds e (state.desc e)) →
      Holds d descriptor → ∀ e, Holds e ((state.setDesc d descriptor).desc e) :=
    fun Holds before here => (Function.forall_update_iff _ Holds).mpr ⟨here, fun e _ => before e⟩
  refine ⟨fun address shared => ?_, sound.owner, sound.helped, sound.reading, sound.notDirty,
    sound.bounded, sound.filling,
    each (fun _ descriptor => descriptor.oldValue.isCleanPtr = true ∧
      descriptor.newValue.isCleanPtr = true) sound.values values,
    each (fun _ descriptor => descriptor.privateAddress.address ≠ 0 →
      descriptor.privateAddress.address ∉ config.shared) sound.private_ private_,
    each (fun e descriptor => (state.life e).used = true → descriptor.address ∈ config.shared ∧
      descriptor.privateAddress.address ≠ 0) sound.fields fun used => ?_⟩
  · rcases sound.words address shared with plain | ⟨e, p, pc, here, inside, placed⟩
    · exact .inl plain
    · refine .inr ⟨e, p, pc, here, inside, ?_⟩
      by_cases same : e = d
      · subst same
        have used : (state.life e).used = true := by
          rw [sound.owner p e (by rw [inside]; rfl)]
          rfl
        rw [State.setDesc_desc_self, (kept used).1, placed]
      · rw [State.setDesc_desc_of_ne _ same, placed]
  · rw [(kept used).1, (kept used).2]
    exact sound.fields d used

theorem Sound.setLife (sound : Sound config state) {d : Nat} {life : Life}
    (owner : ∀ p, (state.threads p).own = some d → life = .processing p)
    (helped : ∀ p, (state.threads p).helped = some d → life.used = true)
    (filling : ∀ p, life = .filling p → p < config.threads)
    (fields : life.used = true →
      (state.desc d).address ∈ config.shared ∧ (state.desc d).privateAddress.address ≠ 0) :
    Sound config (state.setLife d life) := by
  have each : ∀ Holds : Nat → Life → Prop, (∀ e, Holds e (state.life e)) → Holds d life →
      ∀ e, Holds e ((state.setLife d life).life e) := fun Holds before here =>
    (Function.forall_update_iff _ Holds).mpr ⟨here, fun e _ => before e⟩
  refine ⟨sound.words, fun p => ?_, fun p => ?_, sound.reading, sound.notDirty, sound.bounded,
    each (fun _ life => ∀ p, life = .filling p → p < config.threads) sound.filling filling,
    sound.values, sound.private_,
    each (fun e life => life.used = true → (state.desc e).address ∈ config.shared ∧
      (state.desc e).privateAddress.address ≠ 0) sound.fields fields⟩
  · exact each (fun e life => (state.threads p).own = some e → life = .processing p)
      (fun e => sound.owner p e) (owner p)
  · exact each (fun e life => (state.threads p).helped = some e → life.used = true)
      (fun e => sound.helped p e) (helped p)

end Sound

/-! ### The steps keep it -/

/-- What an access of `helpProcess()` of descriptor `e` does. -/
inductive PcEffect (config : Config) (state : State) (e : Nat) : State → Prop
  | same : PcEffect config state e state
  | flushWord : PcEffect config state e (state.flushWord (state.desc e).address)
  | flushStatus : PcEffect config state e (state.flushField e .privateAddress)
  | status (cleanPrivateAddr : Nat)
      (unset : (state.desc e).privateAddress = .of cleanPrivateAddr) :
      PcEffect config state e (state.setDesc e { state.desc e with
        privateAddress := { PrivateAddress.of cleanPrivateAddr with statusFlg := true } })
  | value (installed : state.mem (state.desc e).address = config.pool.fasasPtr e) :
      PcEffect config state e (state.storeWord (state.desc e).address (state.desc e).newValue)

section Steps

variable {config : Config} {state state' : State}

theorem State.stepPc_effect (own : Bool) (e : Nat) (pc : Pc) :
    PcEffect config state e (state.stepPc config own e pc).1 := by
  cases pc with
  | checkFirst | loadPrivate | compareStatus | checkSet | checkLast | loadValue => exact .same
  | flushWord => exact .flushWord
  | flushStatus => exact .flushStatus
  | exchangeStatus cleanPrivateAddr =>
    by_cases unset : (state.desc e).privateAddress = .of cleanPrivateAddr
    · rw [stepPc, if_pos unset]
      exact .status cleanPrivateAddr unset
    · rw [stepPc, if_neg unset]
      exact .same
  | exchangeValue =>
    by_cases installed : state.mem (state.desc e).address = config.pool.fasasPtr e
    · rw [stepPc, if_pos installed]
      exact .value installed
    · rw [stepPc, if_neg installed]
      exact .same

/-- Only the flags of a descriptor may change. -/
structure Kept (before after : FASASDescriptor) : Prop where
  address : after.address = before.address
  oldValue : after.oldValue = before.oldValue
  newValue : after.newValue = before.newValue
  opType : after.opType = before.opType
  privateAddress : after.privateAddress.address = before.privateAddress.address

theorem Kept.refl (descriptor : FASASDescriptor) : Kept descriptor descriptor :=
  ⟨rfl, rfl, rfl, rfl, rfl⟩

theorem PcEffect.kept {e : Nat} (effect : PcEffect config state e state') (d : Nat) :
    Kept (state.desc d) (state'.desc d) := by
  cases effect with
  | same | flushWord | flushStatus | value => exact .refl _
  | status cleanPrivateAddr unset =>
    by_cases same : d = e
    · subst same
      rw [State.setDesc_desc_self]
      exact ⟨rfl, rfl, rfl, rfl, by rw [unset]⟩
    · rw [State.setDesc_desc_of_ne _ same]
      exact .refl _

theorem PcEffect.life {e : Nat} (effect : PcEffect config state e state') :
    state'.life = state.life := by
  cases effect <;> rfl

theorem PcEffect.threads {e : Nat} (effect : PcEffect config state e state') :
    state'.threads = state.threads := by
  cases effect <;> rfl

/-- When the functions return, the pointer is gone. -/
theorem Sound.stepPc_none (sound : Sound config state) {own : Bool} {e : Nat} {pc : Pc}
    (returns : (state.stepPc config own e pc).2 = none) :
    (state.stepPc config own e pc).1.mem (state.desc e).address ≠ config.pool.fasasPtr e := by
  cases pc with
  | checkFirst | checkLast =>
    rw [State.stepPc, if_neg (PrivateAddress.isPrivateValueSet_ne_one _)] at returns
    cases returns
  | flushWord | loadPrivate | compareStatus | exchangeStatus | checkSet | flushStatus =>
    cases returns
  | loadValue =>
    simp only [State.stepPc] at returns ⊢
    split at returns
    · cases returns
    · assumption
  | exchangeValue =>
    by_cases installed : state.mem (state.desc e).address = config.pool.fasasPtr e
    · rw [State.stepPc, if_pos installed, State.storeWord_mem_self]
      intro same
      have clean := (sound.values e).2
      rw [same] at clean
      cases clean
    · rw [State.stepPc, if_neg installed]
      exact installed

theorem Sound.pcEffect (sound : Sound config state) {e : Nat}
    (effect : PcEffect config state e state') :
    Sound config state' := by
  cases effect with
  | same => exact sound
  | flushWord => exact sound.of_same rfl rfl rfl rfl
  | flushStatus => exact sound.of_same rfl rfl rfl rfl
  | status cleanPrivateAddr unset =>
    have address : (state.desc e).privateAddress.address = cleanPrivateAddr := by
      rw [unset]
      rfl
    refine sound.setDesc (sound.values e) (fun set => ?_) fun _ => ⟨rfl, address.symm⟩
    rw [← address] at set ⊢
    exact sound.private_ e set
  | value installed => exact sound.storeWord (.inr (sound.values e).2)

/-- The pointer of a descriptor is only in its own word. -/
theorem Sound.ptr_gone (sound : Sound config state) {d : Nat}
    (gone : state.mem (state.desc d).address ≠ config.pool.fasasPtr d) :
    ∀ address ∈ config.shared, state.mem address ≠ config.pool.fasasPtr d := by
  intro address shared here
  obtain ⟨-, -, -, -, placed⟩ := sound.used_of_ptr shared here
  rw [placed] at gone
  exact gone here

/-- A thread goes on in a call without a pointer of its own in a word. -/
theorem Sound.moves (sound : Sound config state) {p : Nat} {thread thread' : Thread}
    (inside : state.threads p = thread) (busy : thread.free = false)
    (own : ∀ d, thread'.own = some d → thread.own = some d)
    (helps : ∀ e, thread'.helped = some e → (state.life e).used = true)
    (reads : ∀ address, thread'.reading = some address → thread.reading = some address)
    (clean : thread'.foundDirty = false)
    (leaves : ∀ d pc, thread = .conclude d pc → (∃ pc', thread' = .conclude d pc') ∨
      ∀ address ∈ config.shared, state.mem address ≠ config.pool.fasasPtr d) :
    Sound config (state.goto p thread') := by
  subst inside
  exact sound.goto (fun d mine => sound.owner p d (own d mine)) helps
    (fun address loads => sound.reading p address (reads address loads)) clean
    (fun _ => sound.bounded p busy) leaves

theorem Sound.install (sound : Sound config state) {p d : Nat}
    (inside : state.threads p = .install d) :
    Sound config ((state.storeWord (state.desc d).address (config.pool.fasasPtr d)).goto p
      (.conclude d .flushWord)) := by
  have moved : Sound config (state.goto p (.conclude d .flushWord)) :=
    sound.moves inside rfl (fun e mine => mine) nofun nofun rfl nofun
  refine ⟨fun address shared => ?_, moved.owner, moved.helped, moved.reading, moved.notDirty,
    moved.bounded, sound.filling, sound.values, sound.private_, sound.fields⟩
  by_cases here : address = (state.desc d).address
  · subst here
    exact .inr ⟨d, p, .flushWord, State.storeWord_mem_self .., State.goto_threads_self .., rfl⟩
  · rw [State.goto_mem, State.storeWord_mem_of_ne _ here]
    exact moved.words address shared

theorem Sound.not_dirty (sound : Sound config state) {address : Nat} {thread : Thread}
    (shared : address ∈ config.shared)
    (loaded : State.afterLoad config address (state.mem address) = some thread) :
    (∃ val, thread = .value val) ∨ ∃ d p, state.mem address = config.pool.fasasPtr d ∧
      state.life d = .processing p ∧ thread = .help d .checkFirst (.load address) := by
  unfold State.afterLoad at loaded
  rcases sound.words address shared with clean | ⟨d, p, pc, here, inside, -⟩
  · obtain ⟨notPtr, -, notDirty⟩ := (Word.isCleanPtr_iff _).mp clean
    rw [notPtr, notDirty, if_pos clean] at loaded
    exact .inl ⟨_, (Option.some.inj loaded).symm⟩
  · rw [here, config.pool.fasasAt_fasasPtr] at loaded
    have notNull : (config.pool.fasasPtr d).cleanPtr.rest ≠ 0 := config.pool.fasasPtr_rest_ne_zero d
    rw [Pool.fasasPtr_mwcas, if_pos rfl, if_pos notNull, Option.some.injEq] at loaded
    exact .inr ⟨d, p, here, sound.owner p d (by rw [inside]; rfl), loaded.symm⟩

/-- What the exchange of `addDescriptorToShareVar` leads to. -/
theorem Sound.afterInstall_cases (sound : Sound config state) {d : Nat}
    (used : (state.life d).used = true) :
    (state.mem (state.desc d).address = (state.desc d).oldValue ∧
      State.afterInstall config state d (state.mem (state.desc d).address) =
        .conclude d .flushWord) ∨
    (state.mem (state.desc d).address ≠ (state.desc d).oldValue ∧
      (State.afterInstall config state d (state.mem (state.desc d).address) = .cleanup d false ∨
        ∃ e p, state.life e = .processing p ∧
          State.afterInstall config state d (state.mem (state.desc d).address) =
            .help e .checkFirst (.install d))) := by
  unfold State.afterInstall Word.isMwCASDescriptorPtr
  rcases sound.words _ (sound.fields d used).1 with clean | ⟨e, p, pc, here, inside, -⟩
  · rw [((Word.isCleanPtr_iff _).mp clean).1]
    by_cases same : state.mem (state.desc d).address = (state.desc d).oldValue
    · exact .inl ⟨same, by simp [same]⟩
    · exact .inr ⟨same, .inl (by simp [same])⟩
  · refine .inr ⟨fun same => ?_, .inr ⟨e, p, sound.owner p e (by rw [inside]; rfl), ?_⟩⟩
    · have clean := (sound.values d).1
      rw [← same, here] at clean
      cases clean
    · rw [here, Pool.fasasPtr_mwcas, if_pos rfl, Pool.fasasAt_fasasPtr]

theorem Sound.used_of_own (sound : Sound config state) {p d : Nat}
    (mine : (state.threads p).own = some d) : (state.life d).used = true := by
  rw [sound.owner p d mine]
  rfl

theorem Sound.stepThread (sound : Sound config state) {p : Nat} {thread : Thread}
    (inside : state.threads p = thread)
    (performed : state.stepThread config p thread = some state') : Sound config state' := by
  cases thread with
  | idle | returned | value => cases performed
  | flushDescriptor d =>
    cases performed
    have after : Sound config (state.flushDescriptor d) := sound.of_same rfl rfl rfl rfl
    exact after.moves inside rfl (fun e mine => mine) nofun nofun rfl nofun
  | install d =>
    cases performed
    have used := sound.used_of_own (by rw [inside]; rfl : (state.threads p).own = some d)
    rcases sound.afterInstall_cases used with ⟨same, next⟩ | ⟨different, next | ⟨e, u, life, next⟩⟩
    · rw [if_pos same, next]
      exact sound.install inside
    · rw [if_neg different, next]
      exact sound.moves inside rfl (fun e mine => mine) nofun nofun rfl nofun
    · rw [if_neg different, next]
      refine sound.moves inside rfl (fun e mine => mine) (fun e' helped => ?_) nofun rfl nofun
      cases helped
      rw [life]
      rfl
  | conclude d pc =>
    cases performed
    have effect : PcEffect config state d (state.stepPc config true d pc).1 :=
      State.stepPc_effect true d pc
    have after := sound.pcEffect effect
    have there : (state.stepPc config true d pc).1.threads p = .conclude d pc := by
      rw [effect.threads]
      exact inside
    cases next : (state.stepPc config true d pc).2 with
    | some pc' =>
      refine after.moves there rfl (fun e mine => mine) nofun nofun rfl fun e pc'' same => ?_
      cases same
      exact .inl ⟨pc', rfl⟩
    | none =>
      refine after.moves there rfl (fun e mine => mine) nofun nofun rfl fun e pc'' same => ?_
      cases same
      refine .inr (after.ptr_gone ?_)
      rw [(effect.kept d).address]
      exact sound.stepPc_none next
  | storePrivate d =>
    cases performed
    have used := sound.used_of_own (by rw [inside]; rfl : (state.threads p).own = some d)
    exact (sound.storeWord (.inl (sound.private_ d (sound.fields d used).2))).moves inside rfl
      (fun e mine => mine) nofun nofun rfl nofun
  | flushPrivate d =>
    cases performed
    have after : Sound config (state.flushWord (state.desc d).privateAddress.getPrivateAddress) :=
      sound.of_same rfl rfl rfl rfl
    exact after.moves inside rfl (fun e mine => mine) nofun nofun rfl nofun
  | storeFlags d =>
    cases performed
    have after : Sound config (state.setDesc d { state.desc d with
        privateAddress := { (PrivateAddress.of (state.desc d).privateAddress.getPrivateAddress) with
          statusFlg := true, isPrivateValueSetFlg := true } }) :=
      sound.setDesc (sound.values d) (sound.private_ d) fun _ => ⟨rfl, rfl⟩
    exact after.moves inside rfl (fun e mine => mine) nofun nofun rfl nofun
  | flushFlags d =>
    cases performed
    have after : Sound config (state.flushField d .privateAddress) := sound.of_same rfl rfl rfl rfl
    exact after.moves inside rfl (fun e mine => mine) nofun nofun rfl nofun
  | cleanup d result =>
    cases performed
    have after : Sound config (state.goto p (.returned result)) :=
      sound.goto nofun nofun nofun rfl nofun fun e pc same => by rw [inside] at same; cases same
    refine after.setLife (fun u mine => ?_) (fun _ _ => rfl) nofun fun _ =>
      sound.fields d (sound.used_of_own (by rw [inside]; rfl))
    by_cases same : u = p
    · rw [same, State.goto_threads_self] at mine
      cases mine
    · rw [State.goto_threads_of_ne _ same] at mine
      have first := sound.owner u d mine
      rw [sound.owner p d (by rw [inside]; rfl)] at first
      cases first
      exact absurd rfl same
  | load address =>
    rw [State.stepThread, Option.map_eq_some_iff] at performed
    obtain ⟨thread', loaded, rfl⟩ := performed
    have shared := sound.reading p address (by rw [inside]; rfl)
    rcases sound.not_dirty shared loaded with ⟨val, rfl⟩ | ⟨d, u, -, life, rfl⟩
    · exact sound.goto nofun nofun nofun rfl nofun fun e pc same => by rw [inside] at same; cases same
    · refine sound.moves inside rfl nofun (fun e helped => ?_) (fun _ reads => reads) rfl nofun
      cases helped
      rw [life]
      rfl
  | flushDirty address val =>
    have clean := sound.notDirty p
    rw [inside] at clean
    cases clean
  | clearDirty address val =>
    have clean := sound.notDirty p
    rw [inside] at clean
    cases clean
  | help e pc caller =>
    cases performed
    have effect : PcEffect config state e (state.stepPc config false e pc).1 :=
      State.stepPc_effect false e pc
    have after := sound.pcEffect effect
    have there : (state.stepPc config false e pc).1.threads p = .help e pc caller := by
      rw [effect.threads]
      exact inside
    have used := sound.helped p e (by rw [inside]; rfl)
    rw [← effect.life] at used
    cases next : (state.stepPc config false e pc).2 with
    | some pc' =>
      refine after.moves there rfl ?_ (fun e' helped => ?_) ?_ rfl nofun
      · cases caller <;> exact fun d mine => mine
      · cases helped
        exact used
      · cases caller <;> exact fun address reads => reads
    | none =>
      cases caller with
      | install d => exact after.moves there rfl (fun d mine => mine) nofun nofun rfl nofun
      | load address => exact after.moves there rfl nofun nofun (fun _ reads => reads) rfl nofun
      | idle => exact after.goto nofun nofun nofun rfl nofun fun d pc' same => by rw [there] at same; cases same

theorem Sound.unreferenced (sound : Sound config state) {d : Nat}
    (alone : state.unreferenced config d = true) (p : Nat) :
    (state.threads p).own ≠ some d ∧ (state.threads p).helped ≠ some d := by
  simp only [State.unreferenced, Bool.and_eq_true, List.all_eq_true, List.mem_range,
    Thread.refers, Bool.not_eq_true', Bool.or_eq_false_iff, beq_eq_false_iff_ne] at alone
  by_cases inside : p < config.threads
  · exact alone.2 p inside
  · have rests : (state.threads p).free = true := by
      by_contra busy
      exact inside (sound.bounded p (Bool.not_eq_true _ ▸ busy))
    cases here : state.threads p with
    | idle | returned | value => exact ⟨nofun, nofun⟩
    | _ =>
      rw [here] at rests
      cases rests

theorem Write.values {write : Write} {descriptor : FASASDescriptor}
    (allowed : write.allowed config = true)
    (values : descriptor.oldValue.isCleanPtr = true ∧ descriptor.newValue.isCleanPtr = true) :
    (write.apply descriptor).oldValue.isCleanPtr = true ∧
      (write.apply descriptor).newValue.isCleanPtr = true := by
  cases write with
  | address | opType | privateAddress => exact values
  | oldValue value => exact ⟨allowed, values.2⟩
  | newValue value => exact ⟨values.1, allowed⟩

theorem Write.private_ {write : Write} {descriptor : FASASDescriptor}
    (allowed : write.allowed config = true)
    (private_ : descriptor.privateAddress.address ≠ 0 →
      descriptor.privateAddress.address ∉ config.shared) :
    (write.apply descriptor).privateAddress.address ≠ 0 →
      (write.apply descriptor).privateAddress.address ∉ config.shared := by
  cases write with
  | address | opType | oldValue | newValue => exact private_
  | privateAddress word =>
    simp only [Write.allowed, Bool.and_eq_true, Bool.not_eq_true', List.contains_eq_mem,
      decide_eq_false_iff_not] at allowed
    exact fun _ => allowed.2

theorem Sound.freeDescriptor (sound : Sound config state) {d : Nat}
    (performed : state.next config (.freeDescriptor d) = some state') : Sound config state' := by
  have noOwner : (∀ p, state.life d ≠ .processing p) → ∀ p, (state.threads p).own ≠ some d :=
    fun other p mine => other p (sound.owner p d mine)
  rw [State.next] at performed
  cases life : state.life d with
  | free | filling | processing =>
    rw [life] at performed
    cases performed
  | retired =>
    simp only [life, Option.ite_none_right_eq_some, Option.some.injEq] at performed
    obtain ⟨alone, rfl⟩ := performed
    have apart := sound.unreferenced alone
    -- The pool takes the descriptor back before the store, in which nobody sees it any more.
    have after : Sound config (state.setLife d .cleared) :=
      sound.setLife (fun p mine => absurd mine (apart p).1) (fun p helped => absurd helped (apart p).2)
        nofun nofun
    refine after.setDesc (sound.values d) (fun set => absurd rfl set) fun used => ?_
    rw [State.setLife_life_self] at used
    cases used
  | cleared =>
    simp only [life, Option.some.injEq] at performed
    subst performed
    have after : Sound config (state.setDesc d { state.desc d with opType := .fasas }) :=
      sound.setDesc (sound.values d) (sound.private_ d) fun _ => ⟨rfl, rfl⟩
    refine after.setLife (fun p mine => ?_) (fun p helped => ?_) nofun nofun
    · exact absurd mine (noOwner (by simp [life]) p)
    · have used := sound.helped p d helped
      rw [life] at used
      cases used
  | typed =>
    simp only [life, Option.some.injEq] at performed
    subst performed
    have after : Sound config (state.setDesc d { state.desc d with
        address := 0, oldValue := .plain 0, newValue := .plain 0 }) := by
      refine sound.setDesc ⟨rfl, rfl⟩ (sound.private_ d) fun used => ?_
      rw [life] at used
      cases used
    refine after.setLife (fun p mine => ?_) (fun p helped => ?_) nofun nofun
    · exact absurd mine (noOwner (by simp [life]) p)
    · have used := sound.helped p d helped
      rw [life] at used
      cases used

theorem Sound.next (sound : Sound config state) {action : Action}
    (performed : state.next config action = some state') : Sound config state' := by
  cases action with
  | allocate p d =>
    simp only [State.next, Option.ite_none_right_eq_some, Option.some.injEq] at performed
    obtain ⟨⟨inside, rests, life⟩, rfl⟩ := performed
    refine sound.setLife (fun u mine => ?_) (fun u helped => ?_) (fun u same => ?_) nofun
    · have processing := sound.owner u d mine
      rw [life] at processing
      cases processing
    · have used := sound.helped u d helped
      rw [life] at used
      cases used
    · cases same
      exact inside
  | store p d write =>
    simp only [State.next, Option.ite_none_right_eq_some, Option.some.injEq] at performed
    obtain ⟨⟨rests, life, allowed⟩, rfl⟩ := performed
    refine sound.setDesc (Write.values allowed (sound.values d))
      (Write.private_ allowed (sound.private_ d)) fun used => ?_
    rw [life] at used
    cases used
  | process p d =>
    simp only [State.next, Option.ite_none_right_eq_some, Option.some.injEq,
      List.contains_iff_mem] at performed
    obtain ⟨⟨rests, life, shared, set⟩, rfl⟩ := performed
    have after : Sound config (state.setLife d (.processing p)) := by
      refine sound.setLife (fun u mine => ?_) (fun u helped => rfl) nofun fun _ => ⟨shared, set⟩
      have processing := sound.owner u d mine
      rw [life] at processing
      cases processing
    refine after.goto (fun e mine => ?_) nofun nofun rfl (fun _ => sound.filling d p life)
      fun e pc inside => ?_
    · cases mine
      exact State.setLife_life_self ..
    · rw [State.setLife_threads] at inside
      rw [inside] at rests
      cases rests
  | getValueProtectedOfSharedVar p address =>
    simp only [State.next, Option.ite_none_right_eq_some, Option.some.injEq,
      List.contains_iff_mem] at performed
    obtain ⟨⟨inside, rests, shared⟩, rfl⟩ := performed
    refine sound.goto nofun nofun (fun other reads => ?_) rfl (fun _ => inside) fun e pc here => ?_
    · cases reads
      exact shared
    · rw [here] at rests
      cases rests
  | helpProcess p address =>
    simp only [State.next, Option.ite_none_right_eq_some, Option.some.injEq,
      List.contains_iff_mem] at performed
    obtain ⟨⟨inside, rests, shared, installed⟩, rfl⟩ := performed
    refine sound.goto nofun (fun e helped => ?_) nofun rfl (fun _ => inside) fun e pc here => ?_
    · cases helped
      rcases sound.words address shared with clean | ⟨d, u, pc, here, there, -⟩
      · rw [((Word.isCleanPtr_iff _).mp clean).1] at installed
        cases installed
      · rw [here, Pool.fasasAt_fasasPtr]
        exact sound.used_of_own (by rw [there]; rfl : (state.threads u).own = some d)
    · rw [here] at rests
      cases rests
  | step p =>
    simp only [State.next, Option.ite_none_right_eq_some] at performed
    exact sound.stepThread rfl performed.2
  | freeDescriptor d => exact sound.freeDescriptor performed
  | writeBack address =>
    cases performed
    exact sound.of_same rfl rfl rfl rfl
  | writeBackField d field =>
    cases performed
    exact sound.of_same rfl rfl rfl rfl

theorem Sound.of_initial (initial : state.Initial config) : Sound config state := by
  obtain ⟨mem, -, desc, life, threads⟩ := initial
  refine ⟨fun address shared => .inl (mem address shared), fun p d mine => ?_, fun p e helped => ?_,
    fun p address reads => ?_, fun p => ?_, fun p busy => ?_, fun d p filling => ?_, fun d => ?_,
    fun d set => ?_, fun d used => ?_⟩
  · rw [threads] at mine
    cases mine
  · rw [threads] at helped
    cases helped
  · rw [threads] at reads
    cases reads
  · rw [threads]
    rfl
  · rw [threads] at busy
    cases busy
  · rw [life] at filling
    cases filling
  · rw [desc]
    exact ⟨rfl, rfl⟩
  · rw [desc] at set
    exact absurd rfl set
  · rw [life] at used
    cases used

end Steps

/-- What a step of thread `p` does to the other threads and to the lives of descriptors. -/
structure Frames (p : Nat) (state state' : State) : Prop where
  threads : ∀ u, u ≠ p → state'.threads u = state.threads u
  life : ∀ d, state'.life d = state.life d ∨ state'.life d = .retired ∧
    ∃ result, state.threads p = .cleanup d result

theorem Frames.of_goto {p : Nat} {state state' : State} (thread : Thread)
    (threads : state'.threads = state.threads) (life : state'.life = state.life) :
    Frames p state (state'.goto p thread) := by
  refine ⟨fun u other => ?_, fun d => .inl (by rw [State.goto_life, life])⟩
  rw [State.goto_threads_of_ne _ other, threads]

theorem State.stepThread_frames {config : Config} {state state' : State} {p : Nat}
    (performed : state.stepThread config p (state.threads p) = some state') :
    Frames p state state' := by
  cases inside : state.threads p with
  | idle | returned | value =>
    rw [inside] at performed
    cases performed
  | flushDescriptor | flushPrivate | storeFlags | flushFlags | storePrivate | flushDirty =>
    rw [inside] at performed
    cases performed
    exact .of_goto _ rfl rfl
  | install e =>
    rw [inside] at performed
    cases performed
    split <;> exact .of_goto _ rfl rfl
  | conclude e pc =>
    rw [inside] at performed
    cases performed
    have effect : PcEffect config state e (state.stepPc config true e pc).1 :=
      State.stepPc_effect true e pc
    exact .of_goto _ effect.threads effect.life
  | cleanup e result =>
    rw [inside] at performed
    cases performed
    refine ⟨fun u other => State.goto_threads_of_ne _ other _, fun d => ?_⟩
    by_cases same : d = e
    · subst same
      exact .inr ⟨State.setLife_life_self .., result, inside⟩
    · exact .inl (State.setLife_life_of_ne _ same _)
  | load address =>
    rw [inside, State.stepThread, Option.map_eq_some_iff] at performed
    obtain ⟨thread', -, rfl⟩ := performed
    exact .of_goto _ rfl rfl
  | clearDirty address val =>
    rw [inside, State.stepThread, Option.ite_none_right_eq_some] at performed
    obtain ⟨-, performed⟩ := performed
    cases performed
    split <;> exact .of_goto _ rfl rfl
  | help e pc caller =>
    rw [inside] at performed
    cases performed
    have effect : PcEffect config state e (state.stepPc config false e pc).1 :=
      State.stepPc_effect false e pc
    exact .of_goto _ effect.threads effect.life

theorem Sound.of_run {config : Config} (run : Run (system config)) (index : Nat)
    (inside : index ≤ run.length) : Sound config (run.state index) :=
  run.invariant run.meets_true (fun _ => Sound.of_initial)
    (fun _ _ _ sound _ performed => sound.next performed) index inside

end Fasas

end Pmwcas
