/-
This file models any number of processes that run `OptmizedFASASDescriptor::process()` on shared
words, with `helpProcess()` inside of it, as a transition system. Every load, store and exchange of
a shared word, of a private word or of a descriptor is a step of its own; fields of a process's own
descriptor that nobody else writes are read together with the next access. Flushes are left out,
since nothing here depends on them: a crash keeps every executed store.

A descriptor of the pool belongs to a process and a location, and its number in the pool is
`maximumThreadNum_ * locationId + processId`. Between two calls the process may set the addresses
and the operation type of its descriptors.
-/

import Pmwcas.OptmizedFasas
import Pmwcas.Library.Transition

namespace Pmwcas.OptmizedFasas

open Transition

/-! ### The pool -/

/-- The parameters of a pool and of its users: which words are shared, and the location of each.
The other words are private. -/
structure Config where
  maximumThreadNum : Nat
  poolSize : Nat
  /-- The ids of the processes are below 4095. -/
  small : maximumThreadNum ≤ 4095
  location : Nat → Option Nat

namespace Config

variable (config : Config)

/-- Where the descriptor of a process for a location is in the pool. -/
def offset (processId locationId : Nat) : Nat := config.maximumThreadNum * locationId + processId

/-- The process a descriptor belongs to. -/
def processOf (d : Nat) : Nat := d % config.maximumThreadNum

/-- The location a descriptor belongs to. -/
def locationOf (d : Nat) : Nat := d / config.maximumThreadNum

/-- `getDescriptor`, if it neither fails a check nor returns the null pointer. -/
def getDescriptor (desc : Nat → OptmizedFASASDescriptor) (processId locationId : Nat) :
    Option Nat :=
  if processId < config.maximumThreadNum ∧ config.offset processId locationId < config.poolSize ∧
      (desc (config.offset processId locationId)).processId = processId + 1 then
    some (config.offset processId locationId)
  else none

end Config

theorem Config.processOf_offset (config : Config) {p : Nat} (l : Nat)
    (inside : p < config.maximumThreadNum) : config.processOf (config.offset p l) = p := by
  rw [processOf, offset, Nat.mul_add_mod, Nat.mod_eq_of_lt inside]

theorem Config.locationOf_offset (config : Config) {p : Nat} (l : Nat)
    (inside : p < config.maximumThreadNum) : config.locationOf (config.offset p l) = l := by
  rw [locationOf, offset, Nat.mul_add_div (Nat.zero_lt_of_lt inside), Nat.div_eq_of_lt inside,
    Nat.add_zero]

/-! ### Program points -/

/-- The arguments of a call of `process()`. -/
structure Call where
  locationId : Nat
  oldval : Nat
  newval : Nat
  deriving DecidableEq, Repr

/-- The next access of a call, with the local variables it has set. -/
inductive Pc where
  /-- `val = *sharedAddress_`. -/
  | loadVal
  /-- `actualValue = (*sharedAddress_) & ActualValueFlg`. -/
  | loadActual (val : Nat)
  /-- `helpProcess`: the first look at `isShareVarSet_`. -/
  | helpCheckSet (val actualValue : Nat)
  /-- `helpProcess`: compare the sequence numbers. -/
  | helpCheckSeq (val actualValue : Nat)
  /-- `helpProcess`: the second look at `isShareVarSet_`. -/
  | helpCheckAgain (val actualValue : Nat)
  /-- `helpProcess`: read `statusInfo_`. -/
  | helpLoadStatus (val actualValue : Nat)
  /-- `helpProcess`: exchange `statusInfo_`. -/
  | helpCas (val actualValue : Nat)
  /-- `helpProcess`: the last look at `isShareVarSet_`. -/
  | helpCheckLast (val actualValue : Nat)
  /-- `oldShareVarValue_ = oldval`. -/
  | storeOld (val : Nat)
  /-- `newShareVarValue_ = newval`. -/
  | storeNew (val : Nat)
  /-- `seqId = getSeqId()`. -/
  | loadSeq (val : Nat)
  /-- `statusInfo_ = (newSeqId << 60) | FailedStatus`. -/
  | storeStatus (val : Nat) (seqId : Fin 16)
  /-- `isPrivateAddrSet_ = false`. -/
  | clearPrivateAddrSet (val : Nat)
  /-- `isShareVarSet_ = false`. -/
  | clearShareVarSet (val : Nat)
  /-- `addDescriptorToShareVar`: make the new word. -/
  | loadNewVal (val : Nat)
  /-- `addDescriptorToShareVar`: exchange the shared word. -/
  | cas (val newVal : Nat)
  /-- `tmpStatus = statusInfo_`. -/
  | loadStatus
  /-- `statusInfo_ = tmpStatus | SuccStatus`. -/
  | storeSucc (tmpStatus : StatusInfo)
  /-- `isShareVarSet_ = true`. -/
  | setShareVarSet
  /-- `changePrivateValueSucc`: write the private word. -/
  | storePrivate
  /-- `changePrivateValueSucc`: `isPrivateAddrSet_ = true`. -/
  | setPrivateAddrSet
  deriving DecidableEq, Repr

/-- What a process is doing. -/
inductive Process where
  | idle
  /-- `process()` has returned. -/
  | returned (result : Bool)
  | inside (call : Call) (pc : Pc)
  deriving DecidableEq, Repr

/-! ### The system -/

structure State where
  mem : Nat → Nat
  desc : Nat → OptmizedFASASDescriptor
  procs : Nat → Process

/-- What can happen next. -/
inductive Action where
  | setSharedAddress (p locationId address : Nat)
  | setPrivateAddress (p locationId address : Nat)
  /-- Callers set one of the three kinds of operation. -/
  | setOpType (p locationId : Nat) (opType : OpType)
  | process (p : Nat) (call : Call)
  /-- The process performs the next access of its call. -/
  | step (p : Nat)
  deriving DecidableEq, Repr

instance : Inhabited Action := ⟨.step 0⟩

/-- Outside of a call. -/
def Process.Free : Process → Prop
  | .inside _ _ => False
  | _ => True

instance (process : Process) : Decidable process.Free :=
  match process with
  | .idle => .isTrue trivial
  | .returned _ => .isTrue trivial
  | .inside _ _ => .isFalse id

namespace State

def goto (state : State) (p : Nat) (process : Process) : State :=
  { state with procs := Function.update state.procs p process }

def storeWord (state : State) (address value : Nat) : State :=
  { state with mem := Function.update state.mem address value }

def setDesc (state : State) (d : Nat) (descriptor : OptmizedFASASDescriptor) : State :=
  { state with desc := Function.update state.desc d descriptor }

/-- What `process()` does after it has helped: compare with `oldval`. -/
def afterHelp (call : Call) (val actualValue : Nat) : Process :=
  if actualValue ≠ call.oldval then .returned false else .inside call (.storeOld val)

/-- The next access of a call of process `p` on its descriptor `d`. -/
def stepCall (config : Config) (state : State) (p d : Nat) (call : Call) : Pc → Option State
  | .loadVal =>
    some (state.goto p (.inside call (.loadActual (state.mem (state.desc d).sharedAddress))))
  | .loadActual val =>
    if processIdOf val ≠ 0 ∧ processIdOf val ≠ (state.desc d).processId then
      (config.getDescriptor state.desc (processIdOf val - 1) call.locationId).bind fun _ =>
        some (state.goto p (.inside call
          (.helpCheckSet val (actualValueOf (state.mem (state.desc d).sharedAddress)))))
    else
      some (state.goto p
        (afterHelp call val (actualValueOf (state.mem (state.desc d).sharedAddress))))
  | .helpCheckSet val actualValue =>
    if (state.desc (config.offset (processIdOf val - 1) call.locationId)).isShareVarSet then
      some (state.goto p (afterHelp call val actualValue))
    else some (state.goto p (.inside call (.helpCheckSeq val actualValue)))
  | .helpCheckSeq val actualValue =>
    if seqIdOf val ≠
        (state.desc (config.offset (processIdOf val - 1) call.locationId)).statusInfo.seqId then
      some (state.goto p (afterHelp call val actualValue))
    else some (state.goto p (.inside call (.helpCheckAgain val actualValue)))
  | .helpCheckAgain val actualValue =>
    if (state.desc (config.offset (processIdOf val - 1) call.locationId)).isShareVarSet then
      some (state.goto p (afterHelp call val actualValue))
    else if call.oldval ≠ actualValue then
      some (state.goto p (afterHelp call val actualValue))
    else some (state.goto p (.inside call (.helpLoadStatus val actualValue)))
  | .helpLoadStatus val actualValue =>
    if (state.desc (config.offset (processIdOf val - 1) call.locationId)).statusInfo =
        ⟨seqIdOf val, false⟩ then
      some (state.goto p (.inside call (.helpCas val actualValue)))
    else some (state.goto p (.inside call (.helpCheckLast val actualValue)))
  | .helpCas val actualValue =>
    if (state.desc (config.offset (processIdOf val - 1) call.locationId)).statusInfo =
        ⟨seqIdOf val, false⟩ then
      some ((state.setDesc (config.offset (processIdOf val - 1) call.locationId)
        { state.desc (config.offset (processIdOf val - 1) call.locationId) with
          statusInfo := ⟨seqIdOf val, true⟩ }).goto p (.inside call (.helpCheckLast val actualValue)))
    else some (state.goto p (.inside call (.helpCheckLast val actualValue)))
  | .helpCheckLast val actualValue => some (state.goto p (afterHelp call val actualValue))
  | .storeOld val =>
    some ((state.setDesc d { state.desc d with oldShareVarValue := call.oldval }).goto p
      (.inside call (.storeNew val)))
  | .storeNew val =>
    some ((state.setDesc d { state.desc d with newShareVarValue := call.newval }).goto p
      (.inside call (.loadSeq val)))
  | .loadSeq val =>
    some (state.goto p (.inside call (.storeStatus val (state.desc d).statusInfo.seqId)))
  | .storeStatus val seqId =>
    some ((state.setDesc d { state.desc d with statusInfo := ⟨seqId + 1, false⟩ }).goto p
      (.inside call (.clearPrivateAddrSet val)))
  | .clearPrivateAddrSet val =>
    some ((state.setDesc d { state.desc d with isPrivateAddrSet := false }).goto p
      (.inside call (.clearShareVarSet val)))
  | .clearShareVarSet val =>
    some ((state.setDesc d { state.desc d with isShareVarSet := false }).goto p
      (.inside call (.loadNewVal val)))
  | .loadNewVal val =>
    some (state.goto p (.inside call (.cas val (taggedValue (state.desc d).processId
      (state.desc d).newShareVarValue (state.desc d).statusInfo.seqId))))
  | .cas val newVal =>
    if state.mem (state.desc d).sharedAddress = val then
      some ((state.storeWord (state.desc d).sharedAddress newVal).goto p (.inside call .loadStatus))
    else some (state.goto p (.returned false))
  | .loadStatus => some (state.goto p (.inside call (.storeSucc (state.desc d).statusInfo)))
  | .storeSucc tmpStatus =>
    some ((state.setDesc d { state.desc d with statusInfo := ⟨tmpStatus.seqId, true⟩ }).goto p
      (.inside call .setShareVarSet))
  | .setShareVarSet =>
    some ((state.setDesc d { state.desc d with isShareVarSet := true }).goto p
      (.inside call .storePrivate))
  | .storePrivate =>
    some ((state.storeWord (state.desc d).privateAddress (state.desc d).privateValue).goto p
      (.inside call .setPrivateAddrSet))
  | .setPrivateAddrSet =>
    some ((state.setDesc d { state.desc d with isPrivateAddrSet := true }).goto p (.returned true))

/-- What callers owe to `process()`: a descriptor of the pool with both addresses set, and values
of 48 bits. -/
structure Ready (config : Config) (state : State) (p : Nat) (call : Call) : Prop where
  process : p < config.maximumThreadNum
  pool : config.offset p call.locationId < config.poolSize
  shared : (state.desc (config.offset p call.locationId)).sharedAddress ≠ 0
  private_ : (state.desc (config.offset p call.locationId)).privateAddress ≠ 0
  oldval : call.oldval < 2 ^ 48
  newval : call.newval < 2 ^ 48

instance (config : Config) (state : State) (p : Nat) (call : Call) :
    Decidable (state.Ready config p call) :=
  decidable_of_iff (p < config.maximumThreadNum ∧
      config.offset p call.locationId < config.poolSize ∧
      (state.desc (config.offset p call.locationId)).sharedAddress ≠ 0 ∧
      (state.desc (config.offset p call.locationId)).privateAddress ≠ 0 ∧
      call.oldval < 2 ^ 48 ∧ call.newval < 2 ^ 48)
    ⟨fun ⟨process, pool, shared, private_, oldval, newval⟩ =>
      ⟨process, pool, shared, private_, oldval, newval⟩,
      fun ready => ⟨ready.process, ready.pool, ready.shared, ready.private_, ready.oldval,
        ready.newval⟩⟩

/-- The setters, which a process may use on its own descriptors between its calls. -/
def set (config : Config) (state : State) (p locationId : Nat) (allowed : Bool)
    (change : OptmizedFASASDescriptor → OptmizedFASASDescriptor) : Option State :=
  if (state.procs p).Free ∧ p < config.maximumThreadNum ∧ allowed = true then
    some (state.setDesc (config.offset p locationId)
      (change (state.desc (config.offset p locationId))))
  else none

/-- The steps of the system. -/
def next (config : Config) (state : State) : Action → Option State
  | .setSharedAddress p locationId address =>
    state.set config p locationId (address != 0 && config.location address == some locationId)
      fun descriptor => { descriptor with sharedAddress := address }
  | .setPrivateAddress p locationId address =>
    state.set config p locationId (address != 0 && config.location address == none)
      fun descriptor => { descriptor with privateAddress := address }
  | .setOpType p locationId opType =>
    state.set config p locationId (opType.recoverCASOp || opType.doubleCASOp || opType.fasasOp)
      fun descriptor => { descriptor with opType := opType }
  | .process p call =>
    if (state.procs p).Free ∧ state.Ready config p call then
      some (state.goto p (.inside call .loadVal))
    else none
  | .step p =>
    match state.procs p with
    | .inside call pc => state.stepCall config p (config.offset p call.locationId) call pc
    | _ => none

/-- A new pool, before the first operation: no shared word has a tag. -/
structure Initial (config : Config) (state : State) : Prop where
  untagged : ∀ address, config.location address ≠ none → state.mem address < 2 ^ 48
  desc : ∀ d, state.desc d = .constructed (config.processOf d + 1)
  procs : ∀ p, state.procs p = .idle

end State

/-- Any number of processes on the descriptors of a pool. -/
def system (config : Config) : System State Action :=
  .ofNext (State.Initial config) (State.next config)

/-! ### What steps leave alone -/

/-- Another process's help at most sets the success bit of a descriptor. -/
def Helped (before after : OptmizedFASASDescriptor) : Prop :=
  after = before ∨ before.statusInfo.succ = false ∧
    after = { before with statusInfo := ⟨before.statusInfo.seqId, true⟩ }

theorem Helped.refl (descriptor : OptmizedFASASDescriptor) : Helped descriptor descriptor :=
  .inl rfl

/-- Everything but the success bit. -/
structure Helped.Same (before after : OptmizedFASASDescriptor) : Prop where
  sharedAddress : after.sharedAddress = before.sharedAddress
  oldShareVarValue : after.oldShareVarValue = before.oldShareVarValue
  newShareVarValue : after.newShareVarValue = before.newShareVarValue
  opType : after.opType = before.opType
  privateAddress : after.privateAddress = before.privateAddress
  processId : after.processId = before.processId
  isPrivateAddrSet : after.isPrivateAddrSet = before.isPrivateAddrSet
  isShareVarSet : after.isShareVarSet = before.isShareVarSet
  seqId : after.statusInfo.seqId = before.statusInfo.seqId
  succ : before.statusInfo.succ = true → after.statusInfo.succ = true

theorem Helped.same {before after : OptmizedFASASDescriptor} (helped : Helped before after) :
    Helped.Same before after := by
  rcases helped with rfl | ⟨-, rfl⟩
  · exact ⟨rfl, rfl, rfl, rfl, rfl, rfl, rfl, rfl, rfl, id⟩
  · exact ⟨rfl, rfl, rfl, rfl, rfl, rfl, rfl, rfl, rfl, fun _ => rfl⟩

namespace State

@[simp] theorem goto_mem (state : State) (p : Nat) (process : Process) :
    (state.goto p process).mem = state.mem := rfl

@[simp] theorem goto_desc (state : State) (p : Nat) (process : Process) :
    (state.goto p process).desc = state.desc := rfl

@[simp] theorem goto_procs_self (state : State) (p : Nat) (process : Process) :
    (state.goto p process).procs p = process := Function.update_self ..

theorem goto_procs_of_ne (state : State) {p u : Nat} (other : u ≠ p) (process : Process) :
    (state.goto p process).procs u = state.procs u := Function.update_of_ne other ..

@[simp] theorem storeWord_desc (state : State) (address value : Nat) :
    (state.storeWord address value).desc = state.desc := rfl

@[simp] theorem storeWord_procs (state : State) (address value : Nat) :
    (state.storeWord address value).procs = state.procs := rfl

@[simp] theorem storeWord_mem_self (state : State) (address value : Nat) :
    (state.storeWord address value).mem address = value := Function.update_self ..

theorem storeWord_mem_of_ne (state : State) {address other : Nat} (different : other ≠ address)
    (value : Nat) : (state.storeWord address value).mem other = state.mem other :=
  Function.update_of_ne different ..

@[simp] theorem setDesc_mem (state : State) (d : Nat) (descriptor : OptmizedFASASDescriptor) :
    (state.setDesc d descriptor).mem = state.mem := rfl

@[simp] theorem setDesc_procs (state : State) (d : Nat) (descriptor : OptmizedFASASDescriptor) :
    (state.setDesc d descriptor).procs = state.procs := rfl

@[simp] theorem setDesc_desc_self (state : State) (d : Nat) (descriptor : OptmizedFASASDescriptor) :
    (state.setDesc d descriptor).desc d = descriptor := Function.update_self ..

theorem setDesc_desc_of_ne (state : State) {d e : Nat} (different : e ≠ d)
    (descriptor : OptmizedFASASDescriptor) : (state.setDesc d descriptor).desc e = state.desc e :=
  Function.update_of_ne different ..

end State

/-- The call is inside `getValueProtectedOfSharedVar`, before the comparison with `oldval`. -/
def Pc.helping : Pc → Bool
  | .loadVal | .loadActual _ | .helpCheckSet _ _ | .helpCheckSeq _ _ | .helpCheckAgain _ _
  | .helpLoadStatus _ _ | .helpCas _ _ | .helpCheckLast _ _ => true
  | _ => false

/-- A step inside `getValueProtectedOfSharedVar` ends it, goes on with it, or sets the success bit of
the operation it helps. -/
theorem State.stepCall_help {config : Config} {state state' : State} {p d : Nat} {call : Call}
    {pc : Pc} (performed : state.stepCall config p d call pc = some state')
    (helping : pc.helping = true) :
    (∃ val actualValue, state' = state.goto p (afterHelp call val actualValue)) ∨
      (∃ pc', pc'.helping = true ∧ state' = state.goto p (.inside call pc')) ∨
      ∃ val actualValue, pc = .helpCas val actualValue ∧
        (state.desc (config.offset (processIdOf val - 1) call.locationId)).statusInfo =
          ⟨seqIdOf val, false⟩ ∧
        state' = (state.setDesc (config.offset (processIdOf val - 1) call.locationId)
          { state.desc (config.offset (processIdOf val - 1) call.locationId) with
            statusInfo := ⟨seqIdOf val, true⟩ }).goto p
              (.inside call (.helpCheckLast val actualValue)) := by
  cases pc with
  | loadVal =>
    cases performed
    exact .inr (.inl ⟨_, rfl, rfl⟩)
  | loadActual val =>
    rw [stepCall] at performed
    split at performed
    · simp only [Option.bind_eq_some_iff, Option.some.injEq] at performed
      obtain ⟨-, -, rfl⟩ := performed
      exact .inr (.inl ⟨_, rfl, rfl⟩)
    · cases performed
      exact .inl ⟨_, _, rfl⟩
  | helpCheckSet val actualValue | helpCheckSeq val actualValue =>
    rw [stepCall] at performed
    split at performed <;> cases performed
    · exact .inl ⟨_, _, rfl⟩
    · exact .inr (.inl ⟨_, rfl, rfl⟩)
  | helpCheckAgain val actualValue =>
    rw [stepCall] at performed
    split at performed
    · cases performed
      exact .inl ⟨_, _, rfl⟩
    · split at performed <;> cases performed
      · exact .inl ⟨_, _, rfl⟩
      · exact .inr (.inl ⟨_, rfl, rfl⟩)
  | helpLoadStatus val actualValue =>
    rw [stepCall] at performed
    split at performed <;> cases performed <;> exact .inr (.inl ⟨_, rfl, rfl⟩)
  | helpCas val actualValue =>
    rw [stepCall] at performed
    split at performed <;> cases performed
    · next failed => exact .inr (.inr ⟨val, actualValue, rfl, failed, rfl⟩)
    · exact .inr (.inl ⟨_, rfl, rfl⟩)
  | helpCheckLast val actualValue =>
    cases performed
    exact .inl ⟨_, _, rfl⟩
  | storeOld | storeNew | loadSeq | storeStatus | clearPrivateAddrSet | clearShareVarSet
  | loadNewVal | cas | loadStatus | storeSucc | setShareVarSet | storePrivate | setPrivateAddrSet =>
    cases helping

/-- What a step of process `p` on its descriptor `d` leaves alone. -/
structure Frames (p d : Nat) (before after : State) : Prop where
  procs : ∀ u, u ≠ p → after.procs u = before.procs u
  desc : ∀ e, e ≠ d → Helped (before.desc e) (after.desc e)

theorem frames_goto {state : State} {p d : Nat} (process : Process) :
    Frames p d state (state.goto p process) :=
  ⟨fun _ other => state.goto_procs_of_ne other process, fun e _ => .refl (state.desc e)⟩

theorem Frames.goto {before after : State} {p d : Nat} (frames : Frames p d before after)
    (process : Process) : Frames p d before (after.goto p process) :=
  ⟨fun u other => (after.goto_procs_of_ne other process).trans (frames.procs u other), frames.desc⟩

theorem frames_storeWord {state : State} {p d : Nat} (address value : Nat) :
    Frames p d state (state.storeWord address value) :=
  ⟨fun _ _ => rfl, fun e _ => .refl (state.desc e)⟩

theorem frames_setDesc {state : State} {p d : Nat} (descriptor : OptmizedFASASDescriptor) :
    Frames p d state (state.setDesc d descriptor) :=
  ⟨fun _ _ => rfl, fun _ different => .inl (state.setDesc_desc_of_ne different descriptor)⟩

theorem frames_help {state : State} {p d h : Nat} {seqId : Fin 16}
    (failed : (state.desc h).statusInfo = ⟨seqId, false⟩) :
    Frames p d state
      (state.setDesc h { state.desc h with statusInfo := ⟨seqId, true⟩ }) := by
  refine ⟨fun _ _ => rfl, fun e _ => ?_⟩
  by_cases same : e = h
  · subst same
    refine .inr ⟨by rw [failed], ?_⟩
    rw [State.setDesc_desc_self, failed]
  · exact .inl (state.setDesc_desc_of_ne same _)

theorem State.stepCall_frames {config : Config} {state state' : State} {p d : Nat} {call : Call}
    {pc : Pc} (performed : state.stepCall config p d call pc = some state') :
    Frames p d state state' := by
  cases pc with
  | loadVal | loadActual | helpCheckSet | helpCheckSeq | helpCheckAgain | helpLoadStatus | helpCas
  | helpCheckLast =>
    rcases stepCall_help performed rfl with ⟨val, actualValue, rfl⟩ | ⟨pc', -, rfl⟩ |
      ⟨val, actualValue, -, failed, rfl⟩
    · exact frames_goto _
    · exact frames_goto _
    · exact (frames_help failed).goto _
  | cas val newVal =>
    rw [stepCall] at performed
    split at performed <;> cases performed
    · exact (frames_storeWord _ _).goto _
    · exact frames_goto _
  | storePrivate =>
    cases performed
    exact (frames_storeWord _ _).goto _
  | loadSeq | loadNewVal | loadStatus =>
    cases performed
    exact frames_goto _
  | storeOld | storeNew | storeStatus | clearPrivateAddrSet | clearShareVarSet | storeSucc
  | setShareVarSet | setPrivateAddrSet =>
    cases performed
    exact (frames_setDesc _).goto _

/-! ### What program points know -/

/-- What a program point knows about the descriptor of its process. -/
def Pc.Fits (config : Config) (descriptor : OptmizedFASASDescriptor) (call : Call) : Pc → Prop
  | .loadVal | .loadActual _ | .storeOld _ => True
  | .helpCheckSet val _ | .helpCheckSeq val _ | .helpCheckAgain val _ | .helpLoadStatus val _
  | .helpCas val _ | .helpCheckLast val _ =>
    processIdOf val ≠ 0 ∧ processIdOf val - 1 < config.maximumThreadNum ∧
      processIdOf val ≠ descriptor.processId
  | .storeNew _ => descriptor.oldShareVarValue = call.oldval
  | .storeStatus _ seqId => descriptor.oldShareVarValue = call.oldval ∧
    descriptor.newShareVarValue = call.newval ∧ descriptor.statusInfo.seqId = seqId
  | .cas _ newVal => descriptor.oldShareVarValue = call.oldval ∧
    descriptor.newShareVarValue = call.newval ∧
    newVal = taggedValue descriptor.processId call.newval descriptor.statusInfo.seqId
  | .storeSucc tmpStatus => descriptor.oldShareVarValue = call.oldval ∧
    descriptor.newShareVarValue = call.newval ∧ descriptor.statusInfo.seqId = tmpStatus.seqId
  | .loadSeq _ | .clearPrivateAddrSet _ | .clearShareVarSet _ | .loadNewVal _ | .loadStatus
  | .setShareVarSet | .storePrivate | .setPrivateAddrSet =>
    descriptor.oldShareVarValue = call.oldval ∧ descriptor.newShareVarValue = call.newval

theorem Pc.Fits.of_same {config : Config} {before after : OptmizedFASASDescriptor} {call : Call}
    {pc : Pc} (fits : pc.Fits config before call) (same : Helped.Same before after) :
    pc.Fits config after call := by
  cases pc <;> simp only [Fits, same.oldShareVarValue, same.newShareVarValue, same.processId,
    same.seqId] at fits ⊢ <;> exact fits

/-- What holds in every state of the system. -/
structure Sound (config : Config) (state : State) : Prop where
  processId : ∀ d, (state.desc d).processId = config.processOf d + 1
  shared : ∀ d, (state.desc d).sharedAddress ≠ 0 →
    config.location (state.desc d).sharedAddress = some (config.locationOf d)
  private_ : ∀ d, (state.desc d).privateAddress ≠ 0 →
    config.location (state.desc d).privateAddress = none
  ready : ∀ p call pc, state.procs p = .inside call pc → state.Ready config p call
  fits : ∀ p call pc, state.procs p = .inside call pc →
    pc.Fits config (state.desc (config.offset p call.locationId)) call

/-- What no step changes in a descriptor: only the setters write these fields. -/
structure Kept (before after : OptmizedFASASDescriptor) : Prop where
  sharedAddress : after.sharedAddress = before.sharedAddress
  privateAddress : after.privateAddress = before.privateAddress
  opType : after.opType = before.opType
  processId : after.processId = before.processId

theorem Helped.Same.kept {before after : OptmizedFASASDescriptor} (same : Helped.Same before after) :
    Kept before after :=
  ⟨same.sharedAddress, same.privateAddress, same.opType, same.processId⟩

theorem Kept.refl (descriptor : OptmizedFASASDescriptor) : Kept descriptor descriptor :=
  ⟨rfl, rfl, rfl, rfl⟩

theorem State.Ready.of_kept {config : Config} {before after : State} {p : Nat} {call : Call}
    (ready : before.Ready config p call)
    (kept : Kept (before.desc (config.offset p call.locationId))
      (after.desc (config.offset p call.locationId))) : after.Ready config p call :=
  ⟨ready.process, ready.pool, kept.sharedAddress ▸ ready.shared,
    kept.privateAddress ▸ ready.private_, ready.oldval, ready.newval⟩

theorem Config.offset_ne (config : Config) {p u : Nat} (l m : Nat) (inside : p < config.maximumThreadNum)
    (inside' : u < config.maximumThreadNum) (other : u ≠ p) :
    config.offset u m ≠ config.offset p l := by
  intro same
  have processes := congrArg config.processOf same
  rw [config.processOf_offset m inside', config.processOf_offset l inside] at processes
  exact other processes

/-- A step of a call keeps the invariant if the next program point fits. -/
theorem Sound.of_frames {config : Config} {before after : State} {p : Nat} {call : Call} {pc : Pc}
    (sound : Sound config before) (inside : before.procs p = .inside call pc)
    (frames : Frames p (config.offset p call.locationId) before after)
    (kept : Kept (before.desc (config.offset p call.locationId))
      (after.desc (config.offset p call.locationId)))
    (own : ∀ call' pc', after.procs p = .inside call' pc' → call' = call ∧
      pc'.Fits config (after.desc (config.offset p call.locationId)) call) :
    Sound config after := by
  have keptAll : ∀ d, Kept (before.desc d) (after.desc d) := by
    intro d
    by_cases same : d = config.offset p call.locationId
    · subst same
      exact kept
    · exact (frames.desc d same).same.kept
  have ready := sound.ready p call pc inside
  refine ⟨?_, ?_, ?_, ?_, ?_⟩
  · intro d
    rw [(keptAll d).processId]
    exact sound.processId d
  · intro d set
    rw [(keptAll d).sharedAddress] at set ⊢
    exact sound.shared d set
  · intro d set
    rw [(keptAll d).privateAddress] at set ⊢
    exact sound.private_ d set
  · intro u call' pc' here
    by_cases same : u = p
    · subst same
      obtain ⟨rfl, -⟩ := own call' pc' here
      exact ready.of_kept kept
    · rw [frames.procs u same] at here
      exact (sound.ready u call' pc' here).of_kept (keptAll _)
  · intro u call' pc' here
    by_cases same : u = p
    · subst same
      obtain ⟨rfl, fits⟩ := own call' pc' here
      exact fits
    · rw [frames.procs u same] at here
      have ready' := sound.ready u call' pc' here
      have different := config.offset_ne call.locationId call'.locationId ready.process
        ready'.process same
      exact (sound.fits u call' pc' here).of_same (frames.desc _ different).same

theorem State.afterHelp_inside {call call' : Call} {val actualValue : Nat} {pc : Pc}
    (inside : afterHelp call val actualValue = .inside call' pc) :
    call' = call ∧ pc = .storeOld val ∧ actualValue = call.oldval := by
  unfold afterHelp at inside
  split at inside
  · cases inside
  · next same =>
    cases inside
    exact ⟨rfl, rfl, not_not.1 same⟩

/-- A helper's own descriptor is not the one it helps. -/
theorem Sound.helped_ne {config : Config} {state : State} {p : Nat} {call : Call} {pc : Pc}
    {val : Nat} (sound : Sound config state) (inside : state.procs p = .inside call pc)
    (fits : processIdOf val ≠ 0 ∧ processIdOf val - 1 < config.maximumThreadNum ∧
      processIdOf val ≠ (state.desc (config.offset p call.locationId)).processId) :
    config.offset p call.locationId ≠ config.offset (processIdOf val - 1) call.locationId := by
  have ready := sound.ready p call pc inside
  refine config.offset_ne call.locationId call.locationId fits.2.1 ready.process ?_
  intro same
  have own := sound.processId (config.offset p call.locationId)
  rw [config.processOf_offset _ ready.process] at own
  have tagged := fits.1
  exact fits.2.2 (by omega)

theorem State.stepCall_call {config : Config} {state state' : State} {p d : Nat} {call call' : Call}
    {pc pc' : Pc} (performed : state.stepCall config p d call pc = some state')
    (inside : state'.procs p = .inside call' pc') : call' = call := by
  cases pc with
  | loadVal | loadActual | helpCheckSet | helpCheckSeq | helpCheckAgain | helpLoadStatus | helpCas
  | helpCheckLast =>
    rcases stepCall_help performed rfl with ⟨val, actualValue, rfl⟩ | ⟨pc', -, rfl⟩ |
      ⟨val, actualValue, -, -, rfl⟩
    · rw [goto_procs_self] at inside
      exact (afterHelp_inside inside).1
    · rw [goto_procs_self] at inside
      cases inside
      rfl
    · rw [goto_procs_self] at inside
      cases inside
      rfl
  | cas =>
    rw [stepCall] at performed
    split at performed <;> cases performed <;> rw [goto_procs_self] at inside <;> cases inside
    rfl
  | storeOld | storeNew | loadSeq | storeStatus | clearPrivateAddrSet | clearShareVarSet
  | loadNewVal | loadStatus | storeSucc | setShareVarSet | storePrivate | setPrivateAddrSet =>
    cases performed
    rw [goto_procs_self] at inside
    cases inside <;> rfl

section Moves

variable {config : Config} {state : State} {p : Nat} {call : Call} {pc : Pc}

/-- A step to a program point that fits. -/
theorem Sound.of_goto {pc' : Pc} (sound : Sound config state)
    (inside : state.procs p = .inside call pc)
    (fits : pc'.Fits config (state.desc (config.offset p call.locationId)) call) :
    Sound config (state.goto p (.inside call pc')) := by
  refine sound.of_frames inside (frames_goto _) (.refl _) fun call' next here => ?_
  rw [State.goto_procs_self] at here
  cases here
  exact ⟨rfl, fits⟩

theorem Sound.of_returned {result : Bool} (sound : Sound config state)
    (inside : state.procs p = .inside call pc) :
    Sound config (state.goto p (.returned result)) := by
  refine sound.of_frames inside (frames_goto _) (.refl _) fun call' next here => ?_
  rw [State.goto_procs_self] at here
  cases here

/-- The comparison with `oldval`. -/
theorem Sound.of_afterHelp {val actualValue : Nat} (sound : Sound config state)
    (inside : state.procs p = .inside call pc) :
    Sound config (state.goto p (State.afterHelp call val actualValue)) := by
  unfold State.afterHelp
  split
  · exact sound.of_returned inside
  · exact sound.of_goto inside trivial

/-- A store into the descriptor of the call. -/
theorem Sound.of_setDesc {pc' : Pc} {descriptor : OptmizedFASASDescriptor}
    (sound : Sound config state) (inside : state.procs p = .inside call pc)
    (kept : Kept (state.desc (config.offset p call.locationId)) descriptor)
    (fits : pc'.Fits config descriptor call) :
    Sound config ((state.setDesc (config.offset p call.locationId) descriptor).goto p
      (.inside call pc')) := by
  refine sound.of_frames inside ((frames_setDesc _).goto _) ?_ fun call' next here => ?_
  · rw [State.goto_desc, State.setDesc_desc_self]
    exact kept
  · rw [State.goto_procs_self] at here
    cases here
    rw [State.goto_desc, State.setDesc_desc_self]
    exact ⟨rfl, fits⟩

/-- A store into a word. -/
theorem Sound.of_storeWord {pc' : Pc} {address value : Nat} (sound : Sound config state)
    (inside : state.procs p = .inside call pc)
    (fits : pc'.Fits config (state.desc (config.offset p call.locationId)) call) :
    Sound config ((state.storeWord address value).goto p (.inside call pc')) := by
  refine sound.of_frames inside ((frames_storeWord _ _).goto _) (.refl _) fun call' next here => ?_
  rw [State.goto_procs_self] at here
  cases here
  exact ⟨rfl, fits⟩

/-- The step of a helper that sets the success bit. -/
theorem Sound.of_helpCas {val actualValue : Nat} (sound : Sound config state)
    (inside : state.procs p = .inside call (.helpCas val actualValue))
    (failed : (state.desc (config.offset (processIdOf val - 1) call.locationId)).statusInfo =
      ⟨seqIdOf val, false⟩) :
    Sound config ((state.setDesc (config.offset (processIdOf val - 1) call.locationId)
      { state.desc (config.offset (processIdOf val - 1) call.locationId) with
        statusInfo := ⟨seqIdOf val, true⟩ }).goto p
          (.inside call (.helpCheckLast val actualValue))) := by
  have fits := sound.fits p call _ inside
  have same := state.setDesc_desc_of_ne (sound.helped_ne inside fits)
    { state.desc (config.offset (processIdOf val - 1) call.locationId) with
      statusInfo := ⟨seqIdOf val, true⟩ }
  refine sound.of_frames inside ((frames_help failed).goto _) ?_ fun call' next here => ?_
  · rw [State.goto_desc, same]
    exact .refl _
  · rw [State.goto_procs_self] at here
    cases here
    rw [State.goto_desc, same]
    exact ⟨rfl, fits⟩

end Moves

/-- The program point after a step of a call. -/
theorem Sound.stepCall {config : Config} {state state' : State} {p : Nat} {call : Call} {pc : Pc}
    (sound : Sound config state) (inside : state.procs p = .inside call pc)
    (performed : state.stepCall config p (config.offset p call.locationId) call pc = some state') :
    Sound config state' := by
  have fits := sound.fits p call pc inside
  cases pc with
  | loadVal =>
    cases performed
    exact sound.of_goto inside trivial
  | loadActual val =>
    rw [State.stepCall] at performed
    split at performed
    · next tagged =>
      simp only [Option.bind_eq_some_iff, Option.some.injEq] at performed
      obtain ⟨h, found, rfl⟩ := performed
      simp only [Config.getDescriptor, Option.ite_none_right_eq_some] at found
      exact sound.of_goto inside ⟨tagged.1, found.1.1, tagged.2⟩
    · cases performed
      exact sound.of_afterHelp inside
  | helpCheckSet val actualValue | helpCheckSeq val actualValue =>
    rw [State.stepCall] at performed
    split at performed <;> cases performed
    · exact sound.of_afterHelp inside
    · exact sound.of_goto inside fits
  | helpCheckAgain val actualValue =>
    rw [State.stepCall] at performed
    split at performed
    · cases performed
      exact sound.of_afterHelp inside
    · split at performed <;> cases performed
      · exact sound.of_afterHelp inside
      · exact sound.of_goto inside fits
  | helpLoadStatus val actualValue =>
    rw [State.stepCall] at performed
    split at performed <;> cases performed <;> exact sound.of_goto inside fits
  | helpCas val actualValue =>
    rw [State.stepCall] at performed
    split at performed <;> cases performed
    · next failed => exact sound.of_helpCas inside failed
    · exact sound.of_goto inside fits
  | helpCheckLast val actualValue =>
    cases performed
    exact sound.of_afterHelp inside
  | loadSeq val =>
    cases performed
    exact sound.of_goto inside ⟨fits.1, fits.2, rfl⟩
  | loadNewVal val =>
    cases performed
    exact sound.of_goto inside ⟨fits.1, fits.2, by rw [fits.2]⟩
  | cas val newVal =>
    rw [State.stepCall] at performed
    split at performed <;> cases performed
    · exact sound.of_storeWord inside ⟨fits.1, fits.2.1⟩
    · exact sound.of_returned inside
  | loadStatus =>
    cases performed
    exact sound.of_goto inside ⟨fits.1, fits.2, rfl⟩
  | storePrivate =>
    cases performed
    exact sound.of_storeWord inside fits
  | setPrivateAddrSet =>
    have frames := State.stepCall_frames performed
    cases performed
    refine sound.of_frames inside frames ?_ fun call' pc' here => ?_
    · rw [State.goto_desc, State.setDesc_desc_self]
      exact ⟨rfl, rfl, rfl, rfl⟩
    · rw [State.goto_procs_self] at here
      cases here
  | storeOld val =>
    cases performed
    exact sound.of_setDesc inside ⟨rfl, rfl, rfl, rfl⟩ rfl
  | storeNew val =>
    cases performed
    exact sound.of_setDesc inside ⟨rfl, rfl, rfl, rfl⟩ ⟨fits, rfl⟩
  | storeStatus val seqId | storeSucc tmpStatus =>
    cases performed
    exact sound.of_setDesc inside ⟨rfl, rfl, rfl, rfl⟩ ⟨fits.1, fits.2.1⟩
  | clearPrivateAddrSet | clearShareVarSet | setShareVarSet =>
    cases performed
    exact sound.of_setDesc inside ⟨rfl, rfl, rfl, rfl⟩ fits

theorem Sound.set {config : Config} {state state' : State} {p l : Nat} {allowed : Bool}
    {change : OptmizedFASASDescriptor → OptmizedFASASDescriptor} (sound : Sound config state)
    (performed : state.set config p l allowed change = some state')
    (same : ∀ descriptor, (change descriptor).processId = descriptor.processId)
    (shared : allowed = true → ∀ descriptor, (change descriptor).sharedAddress =
      descriptor.sharedAddress ∨ config.location (change descriptor).sharedAddress = some l)
    (private_ : allowed = true → ∀ descriptor, (change descriptor).privateAddress =
      descriptor.privateAddress ∨ config.location (change descriptor).privateAddress = none) :
    Sound config state' := by
  simp only [State.set, Option.ite_none_right_eq_some, Option.some.injEq] at performed
  obtain ⟨⟨free, process, accepted⟩, rfl⟩ := performed
  have others : ∀ u call pc, state.procs u = .inside call pc →
      config.offset u call.locationId ≠ config.offset p l := by
    intro u call pc inside
    refine config.offset_ne l call.locationId process (sound.ready u call pc inside).process ?_
    rintro rfl
    rw [inside] at free
    exact free
  refine ⟨fun d => ?_, fun d set => ?_, fun d set => ?_, fun u call pc inside => ?_,
    fun u call pc inside => ?_⟩
  · by_cases here : d = config.offset p l
    · subst here
      rw [State.setDesc_desc_self, same]
      exact sound.processId _
    · rw [State.setDesc_desc_of_ne _ here]
      exact sound.processId d
  · by_cases here : d = config.offset p l
    · subst here
      rw [State.setDesc_desc_self] at set ⊢
      rcases shared accepted (state.desc (config.offset p l)) with kept | placed
      · rw [kept] at set ⊢
        exact sound.shared _ set
      · rw [placed, config.locationOf_offset l process]
    · rw [State.setDesc_desc_of_ne _ here] at set ⊢
      exact sound.shared d set
  · by_cases here : d = config.offset p l
    · subst here
      rw [State.setDesc_desc_self] at set ⊢
      rcases private_ accepted (state.desc (config.offset p l)) with kept | placed
      · rw [kept] at set ⊢
        exact sound.private_ _ set
      · exact placed
    · rw [State.setDesc_desc_of_ne _ here] at set ⊢
      exact sound.private_ d set
  · refine (sound.ready u call pc inside).of_kept ?_
    rw [State.setDesc_desc_of_ne _ (others u call pc inside)]
    exact .refl _
  · rw [State.setDesc_desc_of_ne _ (others u call pc inside)]
    exact sound.fits u call pc inside

theorem Sound.next {config : Config} {state state' : State} {action : Action}
    (sound : Sound config state) (performed : state.next config action = some state') :
    Sound config state' := by
  cases action with
  | setSharedAddress p l address =>
    rw [State.next] at performed
    refine sound.set performed (fun _ => rfl) (fun accepted _ => .inr ?_) fun _ _ => .inl rfl
    simp only [Bool.and_eq_true, beq_iff_eq] at accepted
    exact accepted.2
  | setPrivateAddress p l address =>
    rw [State.next] at performed
    refine sound.set performed (fun _ => rfl) (fun _ _ => .inl rfl) fun accepted _ => .inr ?_
    simp only [Bool.and_eq_true, beq_iff_eq] at accepted
    exact accepted.2
  | setOpType p l opType =>
    rw [State.next] at performed
    exact sound.set performed (fun _ => rfl) (fun _ _ => .inl rfl) fun _ _ => .inl rfl
  | process p call =>
    simp only [State.next, Option.ite_none_right_eq_some, Option.some.injEq] at performed
    obtain ⟨⟨-, ready⟩, rfl⟩ := performed
    refine ⟨sound.processId, sound.shared, sound.private_, fun u call' pc inside => ?_,
      fun u call' pc inside => ?_⟩
    · by_cases same : u = p
      · subst same
        rw [State.goto_procs_self] at inside
        cases inside
        exact ready.of_kept (.refl _)
      · rw [State.goto_procs_of_ne _ same] at inside
        exact (sound.ready u call' pc inside).of_kept (.refl _)
    · by_cases same : u = p
      · subst same
        rw [State.goto_procs_self] at inside
        cases inside
        trivial
      · rw [State.goto_procs_of_ne _ same] at inside
        exact sound.fits u call' pc inside
  | step p =>
    rw [State.next] at performed
    split at performed
    · next call pc inside => exact sound.stepCall inside performed
    · cases performed

theorem Sound.of_initial {config : Config} {state : State} (initial : state.Initial config) :
    Sound config state where
  processId d := by
    rw [initial.desc]
    rfl
  shared d set := by
    rw [initial.desc] at set
    exact absurd rfl set
  private_ d set := by
    rw [initial.desc] at set
    exact absurd rfl set
  ready p call pc inside := by
    rw [initial.procs] at inside
    cases inside
  fits p call pc inside := by
    rw [initial.procs] at inside
    cases inside

theorem Sound.of_run {config : Config} (run : Run (system config)) (index : Nat)
    (inside : index ≤ run.length) : Sound config (run.state index) :=
  run.invariant run.meets_true (fun _ initial => .of_initial initial)
    (fun _ _ _ sound _ step => sound.next step) index inside

end Pmwcas.OptmizedFasas
