/-
This file is the system of one thread that fills descriptors with `AddEntry`, runs them with
`MwCAS()` and recycles them, with every single store, exchange and flush a step of its own: the
frames are those of `Machine.lean`, the stores of `AddEntry` and `FreeDescriptor` those of
`Filling.lean`.

The pool lies in NVM line by line. A step `writeBack` brings the current content of one line of a
descriptor to NVM; a run without such steps is one in which exactly the flushed stores are
durable.
-/

import Pmwcas.Filling
import Pmwcas.Recovery

namespace Pmwcas

/-! ### Cache lines of a descriptor -/

/-- The offset of a field in its descriptor. -/
def Field.offset : Field → Nat
  | .status => 24
  | .count => 28
  | .address i => wordsOffset + sizeofWordDescriptor * i
  | .oldValue i => wordsOffset + sizeofWordDescriptor * i + 8
  | .newValue i => wordsOffset + sizeofWordDescriptor * i + 16
  | .ownDesc i => wordsOffset + sizeofWordDescriptor * i + 24
  | .recyclePolicy i => wordsOffset + sizeofWordDescriptor * i + 32

/-- `kCacheLineSize`. -/
def kCacheLineSize : Nat := 64

/-- The fields in one cache line of a descriptor. -/
def Field.inLine (line : Nat) : List Field :=
  Field.all.filter fun field => field.offset / kCacheLineSize == line

/-! ### States and steps -/

/-- What the thread is doing: nothing, storing the pending contents of a descriptor one after the
other (inside `AddEntry` or `FreeDescriptor`), or running an operation. -/
inductive Control where
  | idle
  | writing (d : Nat) (pending : List Descriptor)
  | running (callStack : List Frame)

/-- The state of the thread and of what it works on. -/
structure Solo where
  shared : Shared
  control : Control

/-- What can happen next. -/
inductive SoloAction where
  /-- The thread calls `AddEntry` on descriptor `d`. -/
  | addEntry (d : Nat) (request : Request)
  /-- The thread calls `MwCAS()` on descriptor `d`, which sets its status to Undecided. -/
  | mwCAS (d : Nat)
  /-- The thread takes descriptor `d` from the garbage list and calls `FreeDescriptor` on it. -/
  | recycle (d : Nat)
  /-- The thread performs the next store, exchange, load or flush. -/
  | step
  /-- A line of descriptor `d` is written back to NVM. -/
  | writeBack (d line : Nat)
  deriving DecidableEq, Repr

instance : Inhabited SoloAction := ⟨.step⟩

/-- The thread has these contents still to store. -/
def Control.store (d : Nat) : List Descriptor → Control
  | [] => .idle
  | next :: rest => .writing d (next :: rest)

/-- The thread has these calls still to finish. -/
def Control.run : List Frame → Control
  | [] => .idle
  | frame :: rest => .running (frame :: rest)

/-- The content of descriptor `d` is replaced. -/
def Shared.setDesc (shared : Shared) (d : Nat) (descriptor : Descriptor) : Shared :=
  { shared with desc := Function.update shared.desc d descriptor }

namespace Solo

/-- The next step of the thread. -/
def advance (pool : Pool) (solo : Solo) : Option Solo :=
  match solo.control with
  | .idle => none
  | .writing _ [] => none
  | .writing d (next :: rest) =>
    some { shared := solo.shared.setDesc d next, control := .store d rest }
  | .running [] => none
  | .running (frame :: rest) =>
    let result := frame.step .persistent pool solo.shared
    some { shared := result.1, control := .run (result.2.stack rest) }

/-- A call of the thread when it is idle. -/
def call (pool : Pool) (solo : Solo) : SoloAction → Option Solo
  | .addEntry d request =>
    let outcome := addEntryStores (pool.descriptorAddress d) request (solo.shared.desc d)
    if d < pool.size ∧ (solo.shared.desc d).status = .of .finished ∧ outcome.error = none then
      some { solo with control := .store d outcome.images }
    else none
  | .mwCAS d =>
    if d < pool.size ∧ (solo.shared.desc d).status = .of .finished then
      some {
        shared := solo.shared.storeStatus d (.of .undecided)
        control := .running [.mwCAS d 0 (.entry .persistent 0)] }
    else none
  | .recycle d =>
    if d ∈ solo.shared.garbage then
      some {
        shared := { solo.shared with garbage := solo.shared.garbage.erase d }
        control := .store d (freeDescriptorStores (solo.shared.desc d)).images }
    else none
  | _ => none

/-- The steps of the system. -/
def next (pool : Pool) (solo : Solo) : SoloAction → Option Solo
  | .step => solo.advance pool
  | .writeBack d line => some { solo with shared := { solo.shared with
      nvDesc := Function.update solo.shared.nvDesc d
        ((solo.shared.desc d).copyFields (Field.inLine line) (solo.shared.nvDesc d)) } }
  | action =>
    match solo.control with
    | .idle => solo.call pool action
    | _ => none

end Solo

/-- A start: a constructed pool, durable, and durable target words. -/
structure SoloInitial (solo : Solo) : Prop where
  idle : solo.control = .idle
  fresh : ∀ d, solo.shared.desc d = .initialized
  durable : solo.shared.nvDesc = solo.shared.desc ∧ solo.shared.nvm = solo.shared.mem
  garbage : solo.shared.garbage = []

/-- The system of one thread. -/
def soloSystem (pool : Pool) : Transition.System Solo SoloAction where
  initial := SoloInitial
  step before action after := before.next pool action = some after

/-! ### What a crash leaves -/

/-- What a crash leaves in which every store survives. -/
def Solo.storedImage (pool : Pool) (solo : Solo) : Image where
  metadata := pool.metadata
  mem := solo.shared.mem
  desc := solo.shared.desc

/-- What a crash leaves in which exactly the flushed stores survive. -/
def Solo.flushedImage (pool : Pool) (solo : Solo) : Image where
  metadata := pool.metadata
  mem := solo.shared.nvm
  desc := solo.shared.nvDesc

/-! ### What a step can be -/

/-- The steps of the system, one constructor for each. -/
inductive SoloStep (pool : Pool) (before : Solo) : SoloAction → Solo → Prop where
  | addEntry {d : Nat} {request : Request} (idle : before.control = .idle) (inside : d < pool.size)
      (free : (before.shared.desc d).status = .of .finished)
      (passes : (addEntryStores (pool.descriptorAddress d) request
        (before.shared.desc d)).error = none) :
      SoloStep pool before (.addEntry d request) { before with
        control := .store d (addEntryStores (pool.descriptorAddress d) request
          (before.shared.desc d)).images }
  | mwCAS {d : Nat} (idle : before.control = .idle) (inside : d < pool.size)
      (free : (before.shared.desc d).status = .of .finished) :
      SoloStep pool before (.mwCAS d) {
        shared := before.shared.storeStatus d (.of .undecided)
        control := .running [.mwCAS d 0 (.entry .persistent 0)] }
  | recycle {d : Nat} (idle : before.control = .idle) (pushed : d ∈ before.shared.garbage) :
      SoloStep pool before (.recycle d) {
        shared := { before.shared with garbage := before.shared.garbage.erase d }
        control := .store d (freeDescriptorStores (before.shared.desc d)).images }
  | write {d : Nat} {content : Descriptor} {rest : List Descriptor}
      (writing : before.control = .writing d (content :: rest)) :
      SoloStep pool before .step {
        shared := before.shared.setDesc d content
        control := .store d rest }
  | frame {frame : Frame} {rest : List Frame} (running : before.control = .running (frame :: rest)) :
      SoloStep pool before .step {
        shared := (frame.step .persistent pool before.shared).1
        control := .run ((frame.step .persistent pool before.shared).2.stack rest) }
  | writeBack (d line : Nat) :
      SoloStep pool before (.writeBack d line) { before with shared := { before.shared with
        nvDesc := Function.update before.shared.nvDesc d
          ((before.shared.desc d).copyFields (Field.inLine line) (before.shared.nvDesc d)) } }

theorem Solo.step_of_next {pool : Pool} {before after : Solo} {action : SoloAction}
    (performed : before.next pool action = some after) : SoloStep pool before action after := by
  obtain ⟨shared, control⟩ := before
  cases action with
  | step =>
    cases control with
    | idle => cases performed
    | writing d pending =>
      cases pending with
      | nil => cases performed
      | cons content rest =>
        cases performed
        exact .write rfl
    | running frames =>
      cases frames with
      | nil => cases performed
      | cons frame rest =>
        cases performed
        exact .frame rfl
  | writeBack d line =>
    cases performed
    exact .writeBack d line
  | addEntry d request =>
    cases control with
    | idle =>
      simp only [Solo.next, Solo.call] at performed
      split at performed
      · rename_i guard
        cases performed
        exact .addEntry rfl guard.1 guard.2.1 guard.2.2
      · cases performed
    | _ => cases performed
  | mwCAS d =>
    cases control with
    | idle =>
      simp only [Solo.next, Solo.call] at performed
      split at performed
      · rename_i guard
        cases performed
        exact .mwCAS rfl guard.1 guard.2
      · cases performed
    | _ => cases performed
  | recycle d =>
    cases control with
    | idle =>
      simp only [Solo.next, Solo.call] at performed
      split at performed
      · rename_i pushed
        cases performed
        exact .recycle rfl pushed
      · cases performed
    | _ => cases performed

/-! ### Runs from a list of actions -/

/-- The start on a memory. -/
def Solo.start (mem : Nat → Word) : Solo where
  shared := {
    mem := mem
    nvm := mem
    desc := fun _ => .initialized
    nvDesc := fun _ => .initialized
    garbage := [] }
  control := .idle

theorem Solo.exists_run (pool : Pool) (mem : Nat → Word) (actions : List SoloAction)
    (performed : (Transition.replay (Solo.next pool) actions (.start mem)).isSome = true) :
    ∃ run : Transition.Run (soloSystem pool), run.length = actions.length ∧
      (∀ index, Transition.replay (Solo.next pool) (actions.take index) (.start mem) =
        some (run.state index)) ∧
      ∀ index, run.action index = actions.getD index default := by
  obtain ⟨finish, replayed⟩ := Option.isSome_iff_exists.mp performed
  have initial : (soloSystem pool).initial (.start mem) := ⟨rfl, fun _ => rfl, ⟨rfl, rfl⟩, rfl⟩
  obtain ⟨run, length, -, -, states, acts⟩ := Transition.exists_run_of_replay
    (Solo.next pool) (fun _ _ _ step => step) initial replayed
  exact ⟨run, length, states, acts⟩

/-! ### What a step of a call leaves alone -/

/-- Of the descriptors only the status of `d` and its durable copy have changed. -/
structure Shared.Kept (shared after : Shared) (d : Nat) : Prop where
  count : (after.desc d).count = (shared.desc d).count
  words : (after.desc d).words = (shared.desc d).words
  desc : ∀ e, e ≠ d → after.desc e = shared.desc e
  nvDesc : ∀ e, e ≠ d → after.nvDesc e = shared.nvDesc e

namespace Shared

variable (shared : Shared) (d : Nat)

theorem Kept.refl : shared.Kept shared d := ⟨rfl, rfl, fun _ _ => rfl, fun _ _ => rfl⟩

theorem kept_of_desc_eq {after : Shared} (desc : after.desc = shared.desc)
    (nvDesc : after.nvDesc = shared.nvDesc) : shared.Kept after d := by
  refine ⟨?_, ?_, ?_, ?_⟩ <;> simp [desc, nvDesc]

theorem kept_compareExchange64 (address : Nat) (newValue comparand : Word) :
    shared.Kept (shared.compareExchange64 address newValue comparand) d := by
  unfold compareExchange64
  split
  · exact kept_of_desc_eq shared d rfl rfl
  · exact Kept.refl shared d

theorem kept_storeStatus (status : Status) : shared.Kept (shared.storeStatus d status) d := by
  refine ⟨?_, ?_, ?_, fun _ _ => rfl⟩
  · simp [storeStatus]
  · simp [storeStatus]
  · intro e different
    exact Function.update_of_ne different _ _

theorem kept_compareExchange32 (newStatus comparand : Status) :
    shared.Kept (shared.compareExchange32 d newStatus comparand) d := by
  unfold compareExchange32
  split
  · exact kept_storeStatus shared d newStatus
  · exact Kept.refl shared d

theorem kept_of_nvDesc (descriptor : Descriptor) :
    shared.Kept { shared with nvDesc := Function.update shared.nvDesc d descriptor } d :=
  ⟨rfl, rfl, fun _ _ => rfl, fun _ different => Function.update_of_ne different _ _⟩

end Shared

theorem stepMwCAS_kept (pool : Pool) (shared : Shared) (d calldepth : Nat) (pc : Pc) :
    shared.Kept (stepMwCAS .persistent pool shared d calldepth pc).1 d := by
  cases pc with
  | flushDescriptor | persistOldStatus | persistStatus => exact shared.kept_of_nvDesc d _
  | clearOldStatus | decide => exact shared.kept_compareExchange32 d _ _
  | storeClear => exact shared.kept_storeStatus d _
  | installCondCAS | casResolve | casOwn | clearConflict | clearTarget | finalCAS | finalRetry
  | finalClear => exact shared.kept_compareExchange64 d _ _ _
  | flushConflict | flushTarget | finalFlush | cleanupPush =>
    exact shared.kept_of_desc_eq d rfl rfl
  | _ => exact .refl shared d

end Pmwcas
