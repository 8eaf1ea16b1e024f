/-
This file says once what a step can do to shared memory.

`FrameOk` is what a frame may rely on: its descriptor is in use, the pointers in its local
variables lead to word descriptors and descriptors that list the word they were read from, and
what it has learned about a decision is true. None of this is disturbed by the steps of other
threads, because a descriptor in use keeps its entries and a decision is never taken back
(`Shared.Later`).

`Effect` lists the changes of shared memory. A target word goes round a fixed cycle: a plain old
value is replaced by a CondCAS pointer (`install`), that one by an MwCAS pointer (`promote`) or by
the old value again (`revert`), the MwCAS pointer by a final value (`finalise`), and dirty bits are
cleared. A status is decided once and its dirty bit cleared. `Frame.step_effect` proves that a
step has one of these effects and `Frame.step_ok` that the frames it leaves are again in order, so
that every later invariant is a case analysis over a dozen effects and not over the program.
-/

import Pmwcas.System

namespace Pmwcas

namespace Shared

@[simp] theorem storeWord_desc (shared : Shared) (address : Nat) (word : Word) :
    (shared.storeWord address word).desc = shared.desc := rfl

@[simp] theorem storeWord_nvm (shared : Shared) (address : Nat) (word : Word) :
    (shared.storeWord address word).nvm = shared.nvm := rfl

@[simp] theorem storeWord_nvDesc (shared : Shared) (address : Nat) (word : Word) :
    (shared.storeWord address word).nvDesc = shared.nvDesc := rfl

@[simp] theorem storeWord_garbage (shared : Shared) (address : Nat) (word : Word) :
    (shared.storeWord address word).garbage = shared.garbage := rfl

@[simp] theorem storeWord_mem_self (shared : Shared) (address : Nat) (word : Word) :
    (shared.storeWord address word).mem address = word := Function.update_self _ _ _

theorem storeWord_mem_of_ne (shared : Shared) {address other : Nat} (word : Word)
    (different : other ≠ address) :
    (shared.storeWord address word).mem other = shared.mem other :=
  Function.update_of_ne different _ _

@[simp] theorem storeStatus_mem (shared : Shared) (d : Nat) (status : Status) :
    (shared.storeStatus d status).mem = shared.mem := rfl

@[simp] theorem storeStatus_nvm (shared : Shared) (d : Nat) (status : Status) :
    (shared.storeStatus d status).nvm = shared.nvm := rfl

@[simp] theorem storeStatus_nvDesc (shared : Shared) (d : Nat) (status : Status) :
    (shared.storeStatus d status).nvDesc = shared.nvDesc := rfl

@[simp] theorem storeStatus_garbage (shared : Shared) (d : Nat) (status : Status) :
    (shared.storeStatus d status).garbage = shared.garbage := rfl

@[simp] theorem storeStatus_status_self (shared : Shared) (d : Nat) (status : Status) :
    ((shared.storeStatus d status).desc d).status = status := by
  simp [storeStatus]

theorem storeStatus_desc_of_ne (shared : Shared) {d e : Nat} (status : Status)
    (different : e ≠ d) : (shared.storeStatus d status).desc e = shared.desc e :=
  Function.update_of_ne different _ _

@[simp] theorem storeStatus_count (shared : Shared) (d e : Nat) (status : Status) :
    ((shared.storeStatus d status).desc e).count = (shared.desc e).count := by
  by_cases same : e = d
  · subst same
    simp [storeStatus]
  · rw [storeStatus_desc_of_ne shared status same]

@[simp] theorem storeStatus_words (shared : Shared) (d e : Nat) (status : Status) :
    ((shared.storeStatus d status).desc e).words = (shared.desc e).words := by
  by_cases same : e = d
  · subst same
    simp [storeStatus]
  · rw [storeStatus_desc_of_ne shared status same]

/-- An exchange either finds its comparand and stores, or changes nothing. -/
theorem compareExchange64_cases (shared : Shared) (address : Nat) (newValue comparand : Word) :
    (shared.mem address = comparand ∧ shared.compareExchange64 address newValue comparand =
        shared.storeWord address newValue) ∨
      (shared.mem address ≠ comparand ∧
        shared.compareExchange64 address newValue comparand = shared) := by
  unfold compareExchange64
  split
  · rename_i same
    exact Or.inl ⟨same, rfl⟩
  · rename_i different
    exact Or.inr ⟨different, rfl⟩

theorem compareExchange32_cases (shared : Shared) (d : Nat) (newStatus comparand : Status) :
    ((shared.desc d).status = comparand ∧
        shared.compareExchange32 d newStatus comparand = shared.storeStatus d newStatus) ∨
      ((shared.desc d).status ≠ comparand ∧
        shared.compareExchange32 d newStatus comparand = shared) := by
  unfold compareExchange32
  split
  · rename_i same
    exact Or.inl ⟨same, rfl⟩
  · rename_i different
    exact Or.inr ⟨different, rfl⟩

/-! ### Descriptors in use -/

/-- The status code of descriptor `d`. -/
def code (shared : Shared) (d : Nat) : StatusCode := (shared.desc d).status.code

/-- Descriptor `d` belongs to an operation that has begun and is not recycled. -/
def InUse (shared : Shared) (d : Nat) : Prop := (shared.code d).InUse

/-- The operation of descriptor `d` is decided. -/
def Decided (shared : Shared) (d : Nat) : Prop := (shared.code d).Decided

/-- Entry `i` of descriptor `d`, which is in use, is for the word at `address`. -/
structure Lists (shared : Shared) (d i address : Nat) : Prop where
  inUse : shared.InUse d
  inside : i < (shared.desc d).count
  address_eq : ((shared.desc d).words i).address = address

/-- `later` is `earlier` at descriptor `d` as far as its users can tell: it is still in use with the
same entries, and a decision stands. -/
structure LaterAt (earlier later : Shared) (d : Nat) : Prop where
  inUse : earlier.InUse d → later.InUse d
  count : earlier.InUse d → (later.desc d).count = (earlier.desc d).count
  words : earlier.InUse d → (later.desc d).words = (earlier.desc d).words
  code : earlier.Decided d → later.code d = earlier.code d
  clean : earlier.Decided d → (earlier.desc d).status.dirty = false →
    (later.desc d).status.dirty = false

/-- Nothing a user of any descriptor relies on was taken back. -/
def Later (earlier later : Shared) : Prop := ∀ d, LaterAt earlier later d

theorem LaterAt.of_desc_eq {earlier later : Shared} {d : Nat}
    (same : later.desc d = earlier.desc d) : LaterAt earlier later d where
  inUse used := by unfold InUse Shared.code; rw [same]; exact used
  count _ := by rw [same]
  words _ := by rw [same]
  code _ := by unfold Shared.code; rw [same]
  clean _ notDirty := by rw [same]; exact notDirty

theorem Decided.inUse {shared : Shared} {d : Nat} (decided : shared.Decided d) : shared.InUse d :=
  StatusCode.Decided.inUse decided

theorem LaterAt.decided {earlier later : Shared} {d : Nat} (step : LaterAt earlier later d)
    (decided : earlier.Decided d) : later.Decided d := by
  unfold Decided
  rw [step.code decided]
  exact decided

/-- The operation of descriptor `d` is decided and the dirty bit of its status is cleared. -/
structure Settled (shared : Shared) (d : Nat) : Prop where
  decided : shared.Decided d
  clean : (shared.desc d).status.dirty = false

/-- The operation of descriptor `d` is settled, with success or not. -/
structure Verdict (shared : Shared) (d : Nat) (succeeded : Bool) : Prop where
  settled : shared.Settled d
  iff_succeeded : succeeded = true ↔ shared.code d = .succeeded

theorem Settled.later {earlier later : Shared} {d : Nat} (settled : earlier.Settled d)
    (step : LaterAt earlier later d) : later.Settled d :=
  ⟨step.decided settled.decided, step.clean settled.decided settled.clean⟩

theorem Verdict.later {earlier later : Shared} {d : Nat} {succeeded : Bool}
    (verdict : earlier.Verdict d succeeded) (step : LaterAt earlier later d) :
    later.Verdict d succeeded :=
  ⟨verdict.settled.later step, by
    rw [step.code verdict.settled.decided]
    exact verdict.iff_succeeded⟩

theorem Lists.later {earlier later : Shared} {d i address : Nat}
    (lists : earlier.Lists d i address) (step : LaterAt earlier later d) :
    later.Lists d i address where
  inUse := step.inUse lists.inUse
  inside := by rw [step.count lists.inUse]; exact lists.inside
  address_eq := by rw [step.words lists.inUse]; exact lists.address_eq

theorem Lists.of_desc_eq {earlier later : Shared} {d i address : Nat}
    (lists : later.Lists d i address) (same : later.desc d = earlier.desc d) :
    earlier.Lists d i address :=
  lists.later (.of_desc_eq same.symm)

end Shared

/-- The entries of a descriptor in use, as `AddEntry` left them. -/
structure EntriesOk (pool : Pool) (shared : Shared) (d : Nat) : Prop where
  inside : d < pool.size
  count_le : (shared.desc d).count ≤ kMaxCount
  sorted : (shared.desc d).Sorted
  address_ne : ∀ i, i < (shared.desc d).count → ((shared.desc d).words i).address ≠ 0
  ownDesc : ∀ i, i < (shared.desc d).count →
    ((shared.desc d).words i).ownDesc = pool.descriptorAddress d
  oldValue : ∀ i, i < (shared.desc d).count →
    ((shared.desc d).words i).oldValue.isCleanPtr = true
  newValue : ∀ i, i < (shared.desc d).count →
    ((shared.desc d).words i).newValue.isCleanPtr = true

/-- Every descriptor in use is well filled, and a status is dirty only after its decision. -/
structure DescriptorsOk (build : Build) (pool : Pool) (shared : Shared) : Prop where
  entries : ∀ d, shared.InUse d → EntriesOk pool shared d
  dirty : ∀ d, (shared.desc d).status.dirty = true → build = .persistent ∧ shared.Decided d
  fresh : ∀ d, ¬ shared.InUse d → (shared.desc d).count = 0 ∧ shared.code d = .finished

/-- `pointer` is a CondCAS pointer to a word descriptor that lists `address`. -/
def CondRef (pool : Pool) (shared : Shared) (address : Nat) (pointer : Word) : Prop :=
  pointer = pool.condCASPtr (pool.descriptorAt pointer.rest) (pool.wordAt pointer.rest) ∧
    shared.Lists (pool.descriptorAt pointer.rest) (pool.wordAt pointer.rest) address

/-- `pointer` is an MwCAS pointer, dirty or not, to a descriptor that lists `address`. -/
def MwRef (pool : Pool) (shared : Shared) (address : Nat) (pointer : Word) : Prop :=
  pointer = pool.mwCASPtr (pool.descriptorAt pointer.rest) pointer.dirty ∧
    ∃ i, shared.Lists (pool.descriptorAt pointer.rest) i address

/-- What a target word may hold: a value, a CondCAS pointer or an MwCAS pointer. Nothing is dirty
in the volatile build. -/
structure WordOk (build : Build) (pool : Pool) (shared : Shared) (address : Nat)
    (word : Word) : Prop where
  form : word.IsValue ∨ CondRef pool shared address word ∨ MwRef pool shared address word
  clean : build = .volatile → word.dirty = false

theorem CondRef.later {pool : Pool} {earlier later : Shared} {address : Nat} {pointer : Word}
    (reference : CondRef pool earlier address pointer)
    (step : Shared.LaterAt earlier later (pool.descriptorAt pointer.rest)) :
    CondRef pool later address pointer :=
  ⟨reference.1, reference.2.later step⟩

theorem MwRef.later {pool : Pool} {earlier later : Shared} {address : Nat} {pointer : Word}
    (reference : MwRef pool earlier address pointer)
    (step : Shared.LaterAt earlier later (pool.descriptorAt pointer.rest)) :
    MwRef pool later address pointer := by
  obtain ⟨form, i, lists⟩ := reference
  exact ⟨form, i, lists.later step⟩

theorem CondRef.condcas {pool : Pool} {shared : Shared} {address : Nat} {pointer : Word}
    (reference : CondRef pool shared address pointer) : pointer.condcas = true := by
  rw [reference.1]
  rfl

theorem MwRef.flags {pool : Pool} {shared : Shared} {address : Nat} {pointer : Word}
    (reference : MwRef pool shared address pointer) :
    pointer.mwcas = true ∧ pointer.condcas = false := by
  rw [reference.1]
  exact ⟨rfl, rfl⟩

/-! ### What a frame relies on -/

/-- What the program point of a call on descriptor `d` relies on. -/
def PcOk (build : Build) (pool : Pool) (shared : Shared) (d : Nat) : Pc → Prop
  | .checkUndecided => build = .persistent
  | .flushDescriptor => build = .persistent
  | .loadStatus => True
  | .persistOldStatus _ => build = .persistent
  | .clearOldStatus _ => build = .persistent
  | .bailedHelp => shared.Settled d
  | .installCondCAS i => i < (shared.desc d).count
  | .loadDesired i ret => i < (shared.desc d).count ∧
      CondRef pool shared ((shared.desc d).words i).address ret
  | .recheckWord i ret _ => i < (shared.desc d).count ∧
      CondRef pool shared ((shared.desc d).words i).address ret
  | .loadResolve i ret _ => i < (shared.desc d).count ∧
      CondRef pool shared ((shared.desc d).words i).address ret
  | .casResolve i ret _ undecided => i < (shared.desc d).count ∧
      CondRef pool shared ((shared.desc d).words i).address ret ∧
      (undecided = false → shared.Decided (pool.descriptorAt ret.rest))
  | .loadOwn i => i < (shared.desc d).count
  | .casOwn i undecided => i < (shared.desc d).count ∧ (undecided = false → shared.Decided d)
  | .flushConflict i rval => i < (shared.desc d).count ∧ build = .persistent ∧
      rval.dirty = true ∧ MwRef pool shared ((shared.desc d).words i).address rval
  | .clearConflict i rval => i < (shared.desc d).count ∧ build = .persistent ∧
      rval.dirty = true ∧ MwRef pool shared ((shared.desc d).words i).address rval
  | .help i rval => i < (shared.desc d).count ∧
      MwRef pool shared ((shared.desc d).words i).address rval
  | .loadTarget i => i < (shared.desc d).count ∧ build = .persistent
  | .flushTarget i => i < (shared.desc d).count ∧ build = .persistent
  | .clearTarget i => i < (shared.desc d).count ∧ build = .persistent
  | .decide myStatus => myStatus.Decided
  | .checkDecided => build = .persistent ∧ shared.Decided d
  | .persistStatus => build = .persistent ∧ shared.Decided d
  | .loadForClear => build = .persistent ∧ shared.Decided d
  | .storeClear status => build = .persistent ∧ shared.Decided d ∧ status.code = shared.code d
  | .loadVerdict => shared.Settled d
  | .finalCAS i succeeded => i < (shared.desc d).count ∧ shared.Verdict d succeeded
  | .finalRetry i succeeded => i < (shared.desc d).count ∧ build = .persistent ∧
      shared.Verdict d succeeded
  | .finalFlush i succeeded => i < (shared.desc d).count ∧ build = .persistent ∧
      shared.Verdict d succeeded
  | .finalClear i succeeded => i < (shared.desc d).count ∧ build = .persistent ∧
      shared.Verdict d succeeded
  | .cleanupDirty => shared.Settled d
  | .cleanupFailed => shared.Settled d
  | .cleanupSucceeded => shared.Verdict d true
  | .cleanupPush => shared.Settled d
  | .cleanupReturn => shared.Settled d
  | .ret result => shared.Verdict d result
  | .rawCheckFailed _ => False

/-- What the program point of a read of the word at `address` relies on. -/
def ReadPcOk (build : Build) (pool : Pool) (shared : Shared) (address : Nat) : ReadPc → Prop
  | .load => True
  | .loadStatus val => CondRef pool shared address val
  | .casCond val undecided => CondRef pool shared address val ∧
      (undecided = false → shared.Decided (pool.descriptorAt val.rest))
  | .flush val => build = .persistent ∧ val.dirty = true ∧
      (val.IsValue ∨ MwRef pool shared address val)
  | .clear val => build = .persistent ∧ val.dirty = true ∧
      (val.IsValue ∨ MwRef pool shared address val)
  | .help val => MwRef pool shared address val
  | .ret val => val.isCleanPtr = true
  | .rawCheckFailed _ => False

/-- What a frame relies on. -/
def FrameOk (build : Build) (pool : Pool) (shared : Shared) : Frame → Prop
  | .mwCAS d _ pc => shared.InUse d ∧ PcOk build pool shared d pc
  | .getValue address pc => ReadPcOk build pool shared address pc

/-- What a frame relies on survives every change that keeps the descriptors it uses. -/
theorem FrameOk.later {build : Build} {pool : Pool} {earlier later : Shared} {frame : Frame}
    (ok : FrameOk build pool earlier frame)
    (step : ∀ d, frame.Uses pool d → Shared.LaterAt earlier later d) :
    FrameOk build pool later frame := by
  cases frame with
  | mwCAS d calldepth pc =>
    obtain ⟨used, facts⟩ := ok
    have own : Shared.LaterAt earlier later d := step d (Or.inl rfl)
    have held : ∀ e, pc.Holds pool e → Shared.LaterAt earlier later e :=
      fun e holds => step e (Or.inr holds)
    refine ⟨own.inUse used, ?_⟩
    have count := own.count used
    have words := own.words used
    cases pc with
    | checkUndecided | flushDescriptor | loadStatus | persistOldStatus | clearOldStatus
    | decide | rawCheckFailed => exact facts
    | installCondCAS | loadOwn | loadTarget | flushTarget | clearTarget =>
      simp only [PcOk, count] at facts ⊢
      exact facts
    | loadDesired i pointer | recheckWord i pointer | loadResolve i pointer =>
      simp only [PcOk, count, words] at facts ⊢
      exact ⟨facts.1, facts.2.later (held _ rfl)⟩
    | casResolve i pointer desired undecided =>
      simp only [PcOk, count, words] at facts ⊢
      exact ⟨facts.1, facts.2.1.later (held _ rfl),
        fun read => (held _ rfl).decided (facts.2.2 read)⟩
    | casOwn i undecided =>
      simp only [PcOk, count] at facts ⊢
      exact ⟨facts.1, fun read => own.decided (facts.2 read)⟩
    | flushConflict i rval | clearConflict i rval =>
      simp only [PcOk, count, words] at facts ⊢
      exact ⟨facts.1, facts.2.1, facts.2.2.1, facts.2.2.2.later (held _ rfl)⟩
    | help i rval =>
      simp only [PcOk, count, words] at facts ⊢
      exact ⟨facts.1, facts.2.later (held _ rfl)⟩
    | checkDecided | persistStatus | loadForClear => exact ⟨facts.1, own.decided facts.2⟩
    | storeClear status =>
      exact ⟨facts.1, own.decided facts.2.1, facts.2.2.trans (own.code facts.2.1).symm⟩
    | bailedHelp | loadVerdict | cleanupDirty | cleanupFailed | cleanupPush | cleanupReturn =>
      exact Shared.Settled.later facts own
    | finalCAS i succeeded =>
      simp only [PcOk, count] at facts ⊢
      exact ⟨facts.1, facts.2.later own⟩
    | finalRetry i succeeded | finalFlush i succeeded | finalClear i succeeded =>
      simp only [PcOk, count] at facts ⊢
      exact ⟨facts.1, facts.2.1, facts.2.2.later own⟩
    | cleanupSucceeded | ret => exact Shared.Verdict.later facts own
  | getValue address pc =>
    have held : ∀ e, pc.Holds pool e → Shared.LaterAt earlier later e := step
    cases pc with
    | load | ret | rawCheckFailed => exact ok
    | loadStatus val => exact CondRef.later ok (held _ rfl)
    | casCond val undecided =>
      exact ⟨ok.1.later (held _ rfl), fun read => (held _ rfl).decided (ok.2 read)⟩
    | flush val | clear val =>
      refine ⟨ok.1, ok.2.1, ?_⟩
      rcases ok.2.2 with value | reference
      · exact Or.inl value
      · exact Or.inr (reference.later (held _ ⟨reference.flags.1, rfl⟩))
    | help val => exact MwRef.later ok (held _ rfl)

/-- Every frame a step leaves in place of its own has the property. -/
def Move.All (holds : Frame → Prop) : Move → Prop
  | .goto frame => holds frame
  | .call caller callee => holds caller ∧ holds callee
  | .done => True

/-- Some frame a step leaves in place of its own has the property. -/
def Move.Any (holds : Frame → Prop) : Move → Prop
  | .goto frame => holds frame
  | .call caller callee => holds caller ∨ holds callee
  | .done => False

theorem Move.stack_eq_append (move : Move) (rest : List Frame) :
    move.stack rest = move.stack [] ++ rest := by
  cases move <;> rfl

theorem Move.All.of_mem {holds : Frame → Prop} {move : Move} {frame : Frame}
    (all : move.All holds) (member : frame ∈ move.stack []) : holds frame := by
  cases move with
  | goto next =>
    rw [List.mem_singleton.mp member]
    exact all
  | call caller callee =>
    rcases List.mem_cons.mp member with rfl | member
    · exact all.2
    · rw [List.mem_singleton.mp member]
      exact all.1
  | done => cases member

theorem Move.Any.exists_mem {holds : Frame → Prop} {move : Move} (some : move.Any holds) :
    ∃ frame ∈ move.stack [], holds frame := by
  cases move with
  | goto next => exact ⟨next, List.mem_singleton_self _, some⟩
  | call caller callee =>
    rcases some with holds | holds
    · exact ⟨caller, by simp [Move.stack], holds⟩
    · exact ⟨callee, by simp [Move.stack], holds⟩
  | done => cases some

/-! ### The effects of a step -/

/-- The frame is about to swap the MwCAS pointer of `d` in for the CondCAS pointer of its entry
`i`, having read that `d` is Undecided. -/
def Frame.Promotes (pool : Pool) (d i : Nat) : Frame → Prop
  | .mwCAS own _ (.casOwn index true) => own = d ∧ index = i
  | .mwCAS _ _ (.casResolve _ pointer _ true) => pointer = pool.condCASPtr d i
  | .getValue _ (.casCond pointer true) => pointer = pool.condCASPtr d i
  | _ => False

/-- The frame is about to clear the dirty bit of `word` at `address`, which it has flushed. -/
def Frame.Clears (pool : Pool) (shared : Shared) (address : Nat) (word : Word) : Frame → Prop
  | .mwCAS d _ (.clearConflict i rval) => address = ((shared.desc d).words i).address ∧ word = rval
  | .mwCAS d _ (.clearTarget i) =>
    address = ((shared.desc d).words i).address ∧ word = pool.mwCASPtr d true
  | .mwCAS d _ (.finalClear i succeeded) => address = ((shared.desc d).words i).address ∧
      word = (((shared.desc d).words i).finalValue succeeded).setDirty
  | .getValue own (.clear val) => address = own ∧ word = val
  | _ => False

/-- The frame is about to put the final value in place of the MwCAS pointer of `d` in its entry
`i`. -/
def Frame.Finalises (d i : Nat) (succeeded : Bool) : Frame → Prop
  | .mwCAS own _ (.finalCAS index verdict) => own = d ∧ index = i ∧ verdict = succeeded
  | .mwCAS own _ (.finalRetry index verdict) => own = d ∧ index = i ∧ verdict = succeeded
  | _ => False

/-- The program point clears the dirty bit of the status. -/
def Pc.ClearsStatus : Pc → Prop
  | .clearOldStatus _ => True
  | .storeClear _ => True
  | _ => False

/-- What a step of a frame can do to shared memory. -/
inductive Effect (build : Build) (pool : Pool) (shared : Shared) : Frame → Shared → Prop where
  | skip (frame : Frame) : Effect build pool shared frame shared
  | flushWord (frame : Frame) (address : Nat) :
      Effect build pool shared frame (shared.persistAddress address)
  | flushStatus (d calldepth : Nat) (pc : Pc) :
      Effect build pool shared (.mwCAS d calldepth pc) (shared.persistStatus d)
  | flushDescriptor (d calldepth : Nat) :
      Effect build pool shared (.mwCAS d calldepth .flushDescriptor) (shared.flushDescriptor d)
  | install {d calldepth i address : Nat} (lists : shared.Lists d i address)
      (holds : shared.mem address = ((shared.desc d).words i).oldValue) :
      Effect build pool shared (.mwCAS d calldepth (.installCondCAS i))
        (shared.storeWord address (pool.condCASPtr d i))
  | promote {frame : Frame} {d i address : Nat} (lists : shared.Lists d i address)
      (holds : shared.mem address = pool.condCASPtr d i) (promotes : frame.Promotes pool d i) :
      Effect build pool shared frame
        (shared.storeWord address (pool.mwCASPtr d build.dirtyFlag))
  | revert {frame : Frame} {d i address : Nat} (lists : shared.Lists d i address)
      (holds : shared.mem address = pool.condCASPtr d i) (decided : shared.Decided d) :
      Effect build pool shared frame
        (shared.storeWord address ((shared.desc d).words i).oldValue)
  | clearDirty {frame : Frame} {address : Nat} (dirty : (shared.mem address).dirty = true)
      (clears : frame.Clears pool shared address (shared.mem address)) :
      Effect build pool shared frame (shared.storeWord address (shared.mem address).clearDirty)
  | finalise {frame : Frame} {d i address : Nat} {dirty succeeded : Bool}
      (lists : shared.Lists d i address) (holds : shared.mem address = pool.mwCASPtr d dirty)
      (verdict : shared.Verdict d succeeded) (finalises : frame.Finalises d i succeeded) :
      Effect build pool shared frame (shared.storeWord address
        ((((shared.desc d).words i).finalValue succeeded).withDirty build.dirtyFlag))
  | decide {d calldepth : Nat} {myStatus : StatusCode} (undecided : shared.code d = .undecided)
      (decision : myStatus.Decided) :
      Effect build pool shared (.mwCAS d calldepth (.decide myStatus))
        (shared.storeStatus d { code := myStatus, dirty := build.dirtyFlag })
  | clearStatus {d calldepth : Nat} {pc : Pc} (clears : pc.ClearsStatus) :
      Effect build pool shared (.mwCAS d calldepth pc)
        (shared.storeStatus d (shared.desc d).status.clearDirty)
  | push (d calldepth : Nat) :
      Effect build pool shared (.mwCAS d calldepth .cleanupPush) (shared.pushGarbage d)

theorem Shared.storeStatus_later {shared : Shared} {d : Nat} {status : Status}
    (used : shared.InUse d → status.code.InUse)
    (code : shared.Decided d → status.code = shared.code d)
    (clean : shared.Decided d → (shared.desc d).status.dirty = false → status.dirty = false) :
    Shared.Later shared (shared.storeStatus d status) := by
  intro e
  by_cases same : e = d
  · subst same
    refine ⟨?_, fun _ => by simp, fun _ => by simp, ?_, ?_⟩
    · intro before
      unfold Shared.InUse Shared.code
      rw [Shared.storeStatus_status_self]
      exact used before
    · intro before
      unfold Shared.code
      rw [Shared.storeStatus_status_self]
      exact code before
    · intro before notDirty
      rw [Shared.storeStatus_status_self]
      exact clean before notDirty
  · exact .of_desc_eq (Shared.storeStatus_desc_of_ne shared status same)

/-- No step of a frame takes back what the users of a descriptor rely on. -/
theorem Effect.later {build : Build} {pool : Pool} {shared after : Shared} {frame : Frame}
    (effect : Effect build pool shared frame after) : Shared.Later shared after := by
  cases effect with
  | skip | flushWord | flushStatus | flushDescriptor | install | promote | revert | clearDirty
  | finalise | push => exact fun _ => .of_desc_eq rfl
  | decide undecided decision =>
    refine Shared.storeStatus_later (fun _ => decision.inUse) ?_ ?_
    · intro decided
      exact absurd undecided decided.ne_undecided
    · intro decided
      exact absurd undecided decided.ne_undecided
  | clearStatus => exact Shared.storeStatus_later (fun used => used) (fun _ => rfl) fun _ _ => rfl

/-! ### What an effect leaves alone -/

theorem Effect.count_eq {build : Build} {pool : Pool} {shared after : Shared} {frame : Frame}
    (effect : Effect build pool shared frame after) (d : Nat) :
    (after.desc d).count = (shared.desc d).count := by
  cases effect <;> simp [Shared.persistAddress, Shared.persistStatus, Shared.flushDescriptor,
    Shared.pushGarbage]

theorem Effect.words_eq {build : Build} {pool : Pool} {shared after : Shared} {frame : Frame}
    (effect : Effect build pool shared frame after) (d : Nat) :
    (after.desc d).words = (shared.desc d).words := by
  cases effect <;> simp [Shared.persistAddress, Shared.persistStatus, Shared.flushDescriptor,
    Shared.pushGarbage]

/-- The code of a status changes only in the step that decides. -/
theorem Effect.code_cases {build : Build} {pool : Pool} {shared after : Shared} {frame : Frame}
    (effect : Effect build pool shared frame after) (d : Nat) :
    after.code d = shared.code d ∨
      (shared.code d = .undecided ∧ (after.code d).Decided ∧
        ∃ calldepth, frame = .mwCAS d calldepth (.decide (after.code d))) := by
  cases effect with
  | skip | flushWord | flushStatus | flushDescriptor | install | promote | revert | clearDirty
  | finalise | push => exact Or.inl rfl
  | @decide e calldepth myStatus undecided decision =>
    by_cases same : d = e
    · subst same
      have code : (shared.storeStatus d { code := myStatus, dirty := build.dirtyFlag }).code d =
          myStatus := by
        rw [Shared.code, Shared.storeStatus_status_self]
      rw [code]
      exact Or.inr ⟨undecided, decision, calldepth, rfl⟩
    · refine Or.inl ?_
      rw [Shared.code, Shared.storeStatus_desc_of_ne _ _ same]
      rfl
  | @clearStatus e calldepth pc clears =>
    refine Or.inl ?_
    by_cases same : d = e
    · subst same
      rw [Shared.code, Shared.storeStatus_status_self]
      rfl
    · rw [Shared.code, Shared.storeStatus_desc_of_ne _ _ same]
      rfl

theorem Effect.undecided_before {build : Build} {pool : Pool} {shared after : Shared} {frame : Frame}
    (effect : Effect build pool shared frame after) {d : Nat} (used : shared.InUse d)
    (undecided : after.code d = .undecided) : shared.code d = .undecided := by
  rcases used with before | decided
  · exact before
  · rw [(effect.later d).code decided] at undecided
    exact absurd undecided decided.ne_undecided

theorem Effect.inUse_iff {build : Build} {pool : Pool} {shared after : Shared} {frame : Frame}
    (effect : Effect build pool shared frame after) (d : Nat) :
    after.InUse d ↔ shared.InUse d := by
  unfold Shared.InUse
  rcases effect.code_cases d with same | ⟨undecided, decided, -⟩
  · rw [same]
  · rw [undecided]
    exact ⟨fun _ => Or.inl rfl, fun _ => decided.inUse⟩

theorem Effect.lists_iff {build : Build} {pool : Pool} {shared after : Shared} {frame : Frame}
    (effect : Effect build pool shared frame after) (d i address : Nat) :
    after.Lists d i address ↔ shared.Lists d i address := by
  constructor
  · intro lists
    refine ⟨(effect.inUse_iff d).mp lists.inUse, ?_, ?_⟩
    · rw [← effect.count_eq d]
      exact lists.inside
    · rw [← effect.words_eq d]
      exact lists.address_eq
  · intro lists
    exact lists.later (effect.later d)

/-- A step leaves the descriptors alone that its frame does not work with. -/
theorem Effect.desc_eq_of_not_uses {build : Build} {pool : Pool} {shared after : Shared}
    {frame : Frame} (effect : Effect build pool shared frame after) {d : Nat}
    (unused : ¬ frame.Uses pool d) : after.desc d = shared.desc d := by
  cases effect with
  | skip | flushWord | flushStatus | flushDescriptor | install | promote | revert | clearDirty
  | finalise | push => rfl
  | decide | clearStatus =>
    exact Shared.storeStatus_desc_of_ne _ _ fun same => unused (Or.inl same.symm)

theorem Effect.garbage_eq {build : Build} {pool : Pool} {shared after : Shared} {frame : Frame}
    (effect : Effect build pool shared frame after)
    (notPush : ∀ d calldepth, frame ≠ .mwCAS d calldepth .cleanupPush) :
    after.garbage = shared.garbage := by
  cases effect with
  | push d calldepth => exact absurd rfl (notPush d calldepth)
  | _ => rfl

/-! ### Where the content of a word comes from -/

/-- What a step can make of one target word. -/
inductive WordChange (build : Build) (pool : Pool) (shared : Shared) (frame : Frame)
    (address : Nat) : Word → Prop where
  | same : WordChange build pool shared frame address (shared.mem address)
  | install {d calldepth i : Nat} (lists : shared.Lists d i address)
      (holds : shared.mem address = ((shared.desc d).words i).oldValue)
      (here : frame = .mwCAS d calldepth (.installCondCAS i)) :
      WordChange build pool shared frame address (pool.condCASPtr d i)
  | promote {d i : Nat} (lists : shared.Lists d i address)
      (holds : shared.mem address = pool.condCASPtr d i) (promotes : frame.Promotes pool d i) :
      WordChange build pool shared frame address (pool.mwCASPtr d build.dirtyFlag)
  | revert {d i : Nat} (lists : shared.Lists d i address)
      (holds : shared.mem address = pool.condCASPtr d i) (decided : shared.Decided d) :
      WordChange build pool shared frame address ((shared.desc d).words i).oldValue
  | clearDirty (dirty : (shared.mem address).dirty = true)
      (clears : frame.Clears pool shared address (shared.mem address)) :
      WordChange build pool shared frame address (shared.mem address).clearDirty
  | finalise {d i : Nat} {dirty succeeded : Bool} (lists : shared.Lists d i address)
      (holds : shared.mem address = pool.mwCASPtr d dirty) (verdict : shared.Verdict d succeeded)
      (finalises : frame.Finalises d i succeeded) :
      WordChange build pool shared frame address
        ((((shared.desc d).words i).finalValue succeeded).withDirty build.dirtyFlag)

theorem Effect.wordChange {build : Build} {pool : Pool} {shared after : Shared} {frame : Frame}
    (effect : Effect build pool shared frame after) (address : Nat) :
    WordChange build pool shared frame address (after.mem address) := by
  have stored : ∀ {target : Nat} {word : Word},
      (address = target → WordChange build pool shared frame address word) →
      WordChange build pool shared frame address ((shared.storeWord target word).mem address) := by
    intro target word change
    by_cases here : address = target
    · have stores : (shared.storeWord target word).mem address = word := by
        rw [here, Shared.storeWord_mem_self]
      rw [stores]
      exact change here
    · rw [Shared.storeWord_mem_of_ne _ _ here]
      exact .same
  cases effect with
  | skip | flushWord | flushStatus | flushDescriptor | decide | clearStatus | push => exact .same
  | install lists holds =>
    refine stored ?_
    rintro rfl
    exact .install lists holds rfl
  | promote lists holds promotes =>
    refine stored ?_
    rintro rfl
    exact .promote lists holds promotes
  | revert lists holds decided =>
    refine stored ?_
    rintro rfl
    exact .revert lists holds decided
  | clearDirty dirty clears =>
    refine stored ?_
    rintro rfl
    exact .clearDirty dirty clears
  | finalise lists holds verdict finalises =>
    refine stored ?_
    rintro rfl
    exact .finalise lists holds verdict finalises

end Pmwcas
