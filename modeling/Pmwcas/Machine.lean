/-
This file is the program itself: `PersistentMwCAS` and `VolatileMwCAS` with the conditional CAS
they install pointers with, `Cleanup`, and the readers `GetValueProtected` of both builds, as a
deterministic step function on one call frame.

A step is one atomic access to shared memory: one `CompareExchange`, one load of a target word or
of a status, one store, or one flush. Reading the fields `address_`, `old_value_`, `new_value_`,
`ownDesc_` and `count_` is not a step of its own: nobody writes them between `MwCAS()` and
`FreeDescriptor`. `status_ &= ~kStatusDirtyFlag` is a load and a store.

A thread is a stack of frames. A frame that meets the descriptor of another operation calls
`PersistentMwCAS` (`VolatileMwCAS`) on it with `calldepth + 1` and goes on at its own `retry_entry`
when that call returns. Shared memory has two copies of every word and every descriptor: the one
the processors see and the durable one.
-/

import Pmwcas.Descriptor

namespace Pmwcas

/-- The dirty flag `CondCAS` is called with: `kDirtyFlag` in the persistent build, zero in the
volatile one. -/
def Build.dirtyFlag : Build → Bool
  | .persistent => true
  | .volatile => false

/-! ### Shared memory -/

/-- What the threads share: the target words and the descriptors, each with its durable copy, and
the descriptors that were pushed to a garbage list and are not recycled yet. -/
structure Shared where
  mem : Nat → Word
  nvm : Nat → Word
  desc : Nat → Descriptor
  nvDesc : Nat → Descriptor
  garbage : List Nat

namespace Shared

/-- A store to a target word. -/
def storeWord (shared : Shared) (address : Nat) (word : Word) : Shared :=
  { shared with mem := Function.update shared.mem address word }

/-- `CompareExchange64(address, newValue, comparand)`. The value it returns is the content
`shared.mem address` before the exchange. -/
def compareExchange64 (shared : Shared) (address : Nat) (newValue comparand : Word) : Shared :=
  if shared.mem address = comparand then shared.storeWord address newValue else shared

/-- A store to the status of descriptor `d`. -/
def storeStatus (shared : Shared) (d : Nat) (status : Status) : Shared :=
  { shared with desc := Function.update shared.desc d { shared.desc d with status := status } }

/-- `CompareExchange32(&status_, newStatus, comparand)`. -/
def compareExchange32 (shared : Shared) (d : Nat) (newStatus comparand : Status) : Shared :=
  if (shared.desc d).status = comparand then shared.storeStatus d newStatus else shared

/-- `PersistAddress`, `PersistValue`: flush one target word. -/
def persistAddress (shared : Shared) (address : Nat) : Shared :=
  { shared with nvm := Function.update shared.nvm address (shared.mem address) }

/-- `PersistStatus`: flush the status of descriptor `d`. -/
def persistStatus (shared : Shared) (d : Nat) : Shared :=
  { shared with nvDesc :=
      Function.update shared.nvDesc d { shared.nvDesc d with status := (shared.desc d).status } }

/-- `NVRAM::Flush(sizeof(Descriptor), this)`. -/
def flushDescriptor (shared : Shared) (d : Nat) : Shared :=
  { shared with nvDesc := Function.update shared.nvDesc d (shared.desc d) }

/-- `garbage_list->Push(this, ..)`. -/
def pushGarbage (shared : Shared) (d : Nat) : Shared :=
  { shared with garbage := d :: shared.garbage }

/-- The word descriptor a CondCAS pointer leads to. -/
def wordDescriptor (shared : Shared) (pool : Pool) (pointer : Word) : WordDescriptor :=
  (shared.desc (pool.descriptorAt pointer.rest)).words (pool.wordAt pointer.rest)

/-- `ownDesc_->status_` of a word descriptor. -/
def ownStatus (shared : Shared) (pool : Pool) (word : WordDescriptor) : Status :=
  (shared.desc (pool.descriptorAt word.ownDesc)).status

end Shared

/-- `SetFlags(wd->GetDescriptor(), kMwCASFlag | dirty_flag)`. -/
def WordDescriptor.descriptorPtr (word : WordDescriptor) (dirty : Bool) : Word :=
  { mwcas := true, condcas := false, dirty := dirty, rest := word.ownDesc }

/-! ### Program points -/

/-- The program points of `MwCAS` on one descriptor, with the local variables that are live
there. The index is the entry the loop is at; `rval`, `ret`, `desired`, `status` are the
variables of these names. -/
inductive Pc where
  /-- `RAW_CHECK(status_ == kStatusUndecided, ..)`, at call depth zero. -/
  | checkUndecided
  /-- `NVRAM::Flush(sizeof(Descriptor), this)`, at call depth zero. -/
  | flushDescriptor
  /-- `auto status = status_`; in the volatile build `status_ != kStatusUndecided`. -/
  | loadStatus
  | persistOldStatus (status : Status)
  | clearOldStatus (status : Status)
  /-- The early return of the volatile build, `return status_ == kStatusSucceeded`. -/
  | bailedHelp
  /-- The first exchange of `CondCAS`. -/
  | installCondCAS (index : Nat)
  /-- `desired = wd->ownDesc_->status_ == kStatusUndecided ? dptr : wd->old_value_`. -/
  | loadDesired (index : Nat) (ret : Word)
  /-- `*(volatile uint64_t*)wd->address_ != ret`. -/
  | recheckWord (index : Nat) (ret desired : Word)
  /-- The second load of `wd->ownDesc_->status_`. -/
  | loadResolve (index : Nat) (ret desired : Word)
  | casResolve (index : Nat) (ret desired : Word) (undecided : Bool)
  /-- `status_ == kStatusUndecided` before the second exchange of `CondCAS`. -/
  | loadOwn (index : Nat)
  | casOwn (index : Nat) (undecided : Bool)
  | flushConflict (index : Nat) (rval : Word)
  | clearConflict (index : Nat) (rval : Word)
  | help (index : Nat) (rval : Word)
  /-- `uint64_t val = *wd->address_` of the loop that persists the target fields. -/
  | loadTarget (index : Nat)
  | flushTarget (index : Nat)
  | clearTarget (index : Nat)
  /-- `CompareExchange32(&status_, my_status | .., kStatusUndecided)`. -/
  | decide (myStatus : StatusCode)
  | checkDecided
  | persistStatus
  /-- The load and the store of `status_ &= ~kStatusDirtyFlag`. -/
  | loadForClear
  | storeClear (status : Status)
  /-- `succeeded = (status_ == kStatusSucceeded)`. -/
  | loadVerdict
  | finalCAS (index : Nat) (succeeded : Bool)
  | finalRetry (index : Nat) (succeeded : Bool)
  | finalFlush (index : Nat) (succeeded : Bool)
  | finalClear (index : Nat) (succeeded : Bool)
  /-- The checks of `Cleanup`, its push and the load of the value it returns. -/
  | cleanupDirty
  | cleanupFailed
  | cleanupSucceeded
  | cleanupPush
  | cleanupReturn
  | ret (result : Bool)
  | rawCheckFailed (check : RawCheck)
  deriving DecidableEq, Repr

/-- The program points of `GetValueProtected` on one target word. -/
inductive ReadPc where
  | load
  | loadStatus (val : Word)
  | casCond (val : Word) (undecided : Bool)
  | flush (val : Word)
  | clear (val : Word)
  | help (val : Word)
  | ret (val : Word)
  | rawCheckFailed (check : RawCheck)
  deriving DecidableEq, Repr

/-- A call frame: `MwCAS` on descriptor `d` at a call depth, or a read of a target word. -/
inductive Frame where
  | mwCAS (d calldepth : Nat) (pc : Pc)
  | getValue (address : Nat) (pc : ReadPc)
  deriving DecidableEq, Repr

/-- Where control goes after a step: on in the same frame, into a call, or back to the caller. -/
inductive Move where
  | goto (frame : Frame)
  | call (caller callee : Frame)
  | done
  deriving DecidableEq, Repr

/-- The stack after a step of its top frame. -/
def Move.stack : Move → List Frame → List Frame
  | .goto frame, rest => frame :: rest
  | .call caller callee, rest => callee :: caller :: rest
  | .done, rest => rest

/-! ### Control flow between the accesses -/

/-- The first program point of a call. -/
def Pc.entry (build : Build) (calldepth : Nat) : Pc :=
  match build with
  | .persistent => if calldepth = 0 then .checkUndecided else .loadStatus
  | .volatile => .loadStatus

/-- The head of the loop that persists the target fields, then the decision. -/
def Pc.enterTarget (descriptor : Descriptor) (index : Nat) : Pc :=
  if index < descriptor.count then .loadTarget index else .decide .succeeded

/-- The head of the install loop. -/
def Pc.enterInstall (build : Build) (descriptor : Descriptor) (index : Nat) : Pc :=
  if index < descriptor.count then .installCondCAS index
  else
    match build with
    | .persistent => .enterTarget descriptor 0
    | .volatile => .decide .succeeded

/-- The head of the final loop, then `Cleanup` for the owner and the return for a helper. -/
def Pc.enterFinal (descriptor : Descriptor) (calldepth index : Nat) (succeeded : Bool) : Pc :=
  if index < descriptor.count then .finalCAS index succeeded
  else if calldepth = 0 then .cleanupDirty
  else .ret succeeded

/-- Whether the install loop takes the word it got for its own installed pointer:
`CleanPtr(rval) == (uint64_t)this` in the persistent build, `rval == descptr` in the volatile
one. -/
def Pool.isOwnPtr (pool : Pool) (build : Build) (d : Nat) (rval : Word) : Bool :=
  match build with
  | .persistent => rval.cleanPtr == Word.plain (pool.descriptorAddress d)
  | .volatile => rval == pool.mwCASPtr d false

/-- What the install loop does with the value `CondCAS` returned. -/
def Pc.afterCondCAS (build : Build) (pool : Pool) (d : Nat) (descriptor : Descriptor)
    (index : Nat) (rval : Word) : Pc :=
  if rval = (descriptor.words index).oldValue ∨ pool.isOwnPtr build d rval = true then
    .enterInstall build descriptor (index + 1)
  else if rval.isMwCASDescriptorPtr then
    if build = .persistent ∧ rval.isDirtyPtr = true then .flushConflict index rval
    else .help index rval
  else .decide .failed

/-- The value the final phase puts in place of the pointer, without the dirty bit. -/
def WordDescriptor.finalValue (word : WordDescriptor) (succeeded : Bool) : Word :=
  if succeeded then word.newValue else word.oldValue

/-- What a reader does with a value that is no CondCAS pointer and not dirty any more. -/
def ReadPc.afterClean (val : Word) : ReadPc :=
  if val.dirty = true then .rawCheckFailed .dirtyReturnValue
  else if val.isMwCASDescriptorPtr then
    if val.rest = 0 then .rawCheckFailed .invalidDescriptorPointer else .help val
  else if val.isCleanPtr then .ret val
  else .rawCheckFailed .dirtyReturnValue

/-- What a reader does with the value it loaded. -/
def ReadPc.afterLoad (build : Build) (val : Word) : ReadPc :=
  if val.isCondCASDescriptorPtr then
    if build = .persistent ∧ val.isDirtyPtr = true then .rawCheckFailed .dirtyCondCASDescriptor
    else .loadStatus val
  else
    match build with
    | .persistent => if val.isDirtyPtr then .flush val else .afterClean val
    | .volatile =>
      if val.isMwCASDescriptorPtr then
        if val.rest = 0 then .rawCheckFailed .invalidDescriptorPointer else .help val
      else .ret val

/-! ### One step of a frame -/

/-- One step of `PersistentMwCAS` (`VolatileMwCAS`) on descriptor `d`. -/
def stepMwCAS (build : Build) (pool : Pool) (shared : Shared) (d calldepth : Nat) :
    Pc → Shared × Move :=
  let descriptor := shared.desc d
  let status := descriptor.status
  let goto (pc : Pc) : Move := .goto (.mwCAS d calldepth pc)
  let install (index : Nat) : Move := goto (.enterInstall build descriptor index)
  let final (index : Nat) (succeeded : Bool) : Move :=
    goto (.enterFinal descriptor calldepth index succeeded)
  fun
  | .checkUndecided =>
    (shared, if status = .of .undecided then goto .flushDescriptor
      else goto (.rawCheckFailed .invalidStatus))
  | .flushDescriptor => (shared.flushDescriptor d, goto .loadStatus)
  | .loadStatus =>
    (shared,
      match build with
      | .persistent => if status.dirty then goto (.persistOldStatus status) else install 0
      | .volatile =>
        if status = .of .undecided then install 0
        else if calldepth = 0 then goto .cleanupDirty
        else goto .bailedHelp)
  | .persistOldStatus old => (shared.persistStatus d, goto (.clearOldStatus old))
  | .clearOldStatus old => (shared.compareExchange32 d old.clearDirty old, install 0)
  | .bailedHelp => (shared, goto (.ret (status == .of .succeeded)))
  | .installCondCAS index =>
    let word := descriptor.words index
    let ret := shared.mem word.address
    (shared.compareExchange64 word.address (pool.condCASPtr d index) word.oldValue,
      if ret.isCondCASDescriptorPtr then goto (.loadDesired index ret)
      else if ret = word.oldValue then goto (.loadOwn index)
      else goto (.afterCondCAS build pool d descriptor index ret))
  | .loadDesired index ret =>
    let other := shared.wordDescriptor pool ret
    (shared,
      if other.address = (descriptor.words index).address then
        goto (.recheckWord index ret
          (if shared.ownStatus pool other = .of .undecided then
            other.descriptorPtr build.dirtyFlag else other.oldValue))
      else goto (.rawCheckFailed .wrongAddress))
  | .recheckWord index ret desired =>
    (shared,
      if shared.mem (shared.wordDescriptor pool ret).address = ret then
        goto (.loadResolve index ret desired)
      else goto (.installCondCAS index))
  | .loadResolve index ret desired =>
    (shared, goto (.casResolve index ret desired
      (shared.ownStatus pool (shared.wordDescriptor pool ret) == .of .undecided)))
  | .casResolve index ret desired undecided =>
    let other := shared.wordDescriptor pool ret
    let dptr := other.descriptorPtr build.dirtyFlag
    (shared.compareExchange64 other.address (if undecided then dptr else other.oldValue) ret,
      if shared.mem other.address = ret ∧ desired = dptr then
        goto (.afterCondCAS build pool d descriptor index dptr)
      else goto (.installCondCAS index))
  | .loadOwn index => (shared, goto (.casOwn index (status == .of .undecided)))
  | .casOwn index undecided =>
    let word := descriptor.words index
    (shared.compareExchange64 word.address
        (if undecided then pool.mwCASPtr d build.dirtyFlag else word.oldValue)
        (pool.condCASPtr d index),
      goto (.afterCondCAS build pool d descriptor index word.oldValue))
  | .flushConflict index rval =>
    (shared.persistAddress (descriptor.words index).address, goto (.clearConflict index rval))
  | .clearConflict index rval =>
    (shared.compareExchange64 (descriptor.words index).address rval.clearDirty rval,
      goto (.help index rval))
  | .help index rval =>
    (shared, .call (.mwCAS d calldepth (.installCondCAS index))
      (.mwCAS (pool.descriptorAt rval.rest) (calldepth + 1) (.entry build (calldepth + 1))))
  | .loadTarget index =>
    (shared,
      if shared.mem (descriptor.words index).address = pool.mwCASPtr d true then
        goto (.flushTarget index)
      else goto (.enterTarget descriptor (index + 1)))
  | .flushTarget index =>
    (shared.persistAddress (descriptor.words index).address, goto (.clearTarget index))
  | .clearTarget index =>
    (shared.compareExchange64 (descriptor.words index).address (pool.mwCASPtr d false)
        (pool.mwCASPtr d true),
      goto (.enterTarget descriptor (index + 1)))
  | .decide myStatus =>
    (shared.compareExchange32 d { code := myStatus, dirty := build.dirtyFlag } (.of .undecided),
      match build with
      | .persistent => goto .checkDecided
      | .volatile => goto .loadVerdict)
  | .checkDecided =>
    (shared, if status.code = .undecided then goto (.rawCheckFailed .invalidStatus)
      else goto .persistStatus)
  | .persistStatus => (shared.persistStatus d, goto .loadForClear)
  | .loadForClear => (shared, goto (.storeClear status))
  | .storeClear loaded => (shared.storeStatus d loaded.clearDirty, goto .loadVerdict)
  | .loadVerdict => (shared, final 0 (status == .of .succeeded))
  | .finalCAS index succeeded =>
    let word := descriptor.words index
    let val := word.finalValue succeeded
    match build with
    | .persistent =>
      (shared.compareExchange64 word.address val.setDirty (pool.mwCASPtr d true),
        if shared.mem word.address = pool.mwCASPtr d false then goto (.finalRetry index succeeded)
        else goto (.finalFlush index succeeded))
    | .volatile =>
      (shared.compareExchange64 word.address val (pool.mwCASPtr d false), final (index + 1) succeeded)
  | .finalRetry index succeeded =>
    let word := descriptor.words index
    (shared.compareExchange64 word.address (word.finalValue succeeded).setDirty
        (pool.mwCASPtr d false),
      goto (.finalFlush index succeeded))
  | .finalFlush index succeeded =>
    (shared.persistAddress (descriptor.words index).address, goto (.finalClear index succeeded))
  | .finalClear index succeeded =>
    let word := descriptor.words index
    let val := (word.finalValue succeeded).setDirty
    (shared.compareExchange64 word.address val.clearDirty val, final (index + 1) succeeded)
  | .cleanupDirty =>
    (shared, if status.dirty then goto (.rawCheckFailed .invalidStatus) else goto .cleanupFailed)
  | .cleanupFailed =>
    (shared, if status = .of .failed then goto .cleanupPush else goto .cleanupSucceeded)
  | .cleanupSucceeded =>
    (shared, if status = .of .succeeded then goto .cleanupPush
      else goto (.rawCheckFailed .invalidStatus))
  | .cleanupPush => (shared.pushGarbage d, goto .cleanupReturn)
  | .cleanupReturn => (shared, goto (.ret (status == .of .succeeded)))
  | .ret _ => (shared, .done)
  | .rawCheckFailed check => (shared, goto (.rawCheckFailed check))

/-- One step of `GetValueProtectedPersistent` (`GetValueProtectedVolatile`) on the word at
`address`; `GetValuePersistent` and `GetValueVolatile` differ from them by an epoch guard only. -/
def stepGetValue (build : Build) (pool : Pool) (shared : Shared) (address : Nat) :
    ReadPc → Shared × Move :=
  let goto (pc : ReadPc) : Move := .goto (.getValue address pc)
  fun
  | .load => (shared, goto (.afterLoad build (shared.mem address)))
  | .loadStatus val =>
    let word := shared.wordDescriptor pool val
    (shared,
      if build = .volatile ∧ word.address ≠ address then goto (.rawCheckFailed .wrongAddresses)
      else goto (.casCond val (shared.ownStatus pool word == .of .undecided)))
  | .casCond val undecided =>
    let word := shared.wordDescriptor pool val
    (shared.compareExchange64 word.address
        (if undecided then word.descriptorPtr build.dirtyFlag else word.oldValue) val,
      goto .load)
  | .flush val => (shared.persistAddress address, goto (.clear val))
  | .clear val =>
    (shared.compareExchange64 address val.clearDirty val, goto (.afterClean val.clearDirty))
  | .help val =>
    (shared, .call (.getValue address .load)
      (.mwCAS (pool.descriptorAt val.rest) 1 (.entry build 1)))
  | .ret _ => (shared, .done)
  | .rawCheckFailed check => (shared, goto (.rawCheckFailed check))

/-- One step of a frame: shared memory after it, and where control goes. -/
def Frame.step (build : Build) (pool : Pool) (shared : Shared) : Frame → Shared × Move
  | .mwCAS d calldepth pc => stepMwCAS build pool shared d calldepth pc
  | .getValue address pc => stepGetValue build pool shared address pc

end Pmwcas
