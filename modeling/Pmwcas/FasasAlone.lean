/-
This file is about calls of `FASASDescriptor::process()` and of `getValueProtectedOfSharedVar` that
run alone. The shared word may hold the pointer of an operation that another thread has begun; the
reader then helps it first.
-/

import Pmwcas.FasasMachine
import Pmwcas.Library.Result

namespace Pmwcas.Fasas

open Transition

/-! ### One call after the other -/

/-- What `process()` of thread `p` returns. -/
def State.processResult (p : Nat) (state : State) : Option Bool :=
  match state.threads p with
  | .returned result => some result
  | _ => none

/-- What `getValueProtectedOfSharedVar()` of thread `p` returns. -/
def State.valueResult (p : Nat) (state : State) : Option Word :=
  match state.threads p with
  | .value val => some val
  | _ => none

/-- Thread `p` performs the listed actions and runs alone until it has a result. -/
def State.runAlone {Result : Type} (config : Config) (p : Nat) (calls : List Action)
    (result : State → Option Result) (state : State) (fuel : Nat) : Option (Result × State) :=
  (replay (State.next config) calls state).bind
    (runUntil (fun state => state.next config (.step p)) result fuel)

/-- An operation on a shared and a private word. -/
structure Operation where
  opType : OpType
  sharedAddr : Nat
  oldValue : Word
  newValue : Word
  privateAddr : Nat

/-- What callers owe to the setters. -/
structure Operation.Valid (config : Config) (operation : Operation) : Prop where
  shared : operation.sharedAddr ∈ config.shared
  private_ : operation.privateAddr ∉ config.shared
  privateAddr_ne : operation.privateAddr ≠ 0
  oldValue : operation.oldValue.isCleanPtr = true
  newValue : operation.newValue.isCleanPtr = true

/-- `AllocateDescriptor`, which hands out descriptor `d`, `setOpType`, `addSharedWord` and
`setPrivateAddress`, and the call of `process()`. -/
def Operation.calls (operation : Operation) (p d : Nat) : List Action :=
  [.allocate p d, .store p d (.opType operation.opType), .store p d (.address operation.sharedAddr),
    .store p d (.oldValue operation.oldValue), .store p d (.newValue operation.newValue),
    .store p d (.privateAddress operation.privateAddr), .process p d]

/-- `process()` on descriptor `d`, filled for the operation. -/
def State.processAlone (config : Config) (p d : Nat) (operation : Operation) (state : State)
    (fuel : Nat) : Option (Bool × State) :=
  state.runAlone config p (operation.calls p d) (State.processResult p) fuel

/-- `getValueProtectedOfSharedVar` on the word at `address`. -/
def State.getValueAlone (config : Config) (p address : Nat) (state : State) (fuel : Nat) :
    Option (Word × State) :=
  state.runAlone config p [.getValueProtectedOfSharedVar p address] (State.valueResult p) fuel

/-! ### Steps of a thread that is alone -/

variable {config : Config} {p d : Nat} {mem mem' mem'' : Nat → Word}
  {desc desc' desc'' : Nat → FASASDescriptor} {thread next last : Thread}

/-- A step inside of a call. -/
def Advances (config : Config) (p : Nat) (before after : State) : Prop :=
  (before.threads p).free = false ∧ before.next config (.step p) = some after

/-- The thread gets from one program point to another and changes words and descriptors on its way
as given. No descriptor is retired. -/
def Leads (config : Config) (p : Nat) (mem : Nat → Word) (desc : Nat → FASASDescriptor)
    (thread : Thread) (mem' : Nat → Word) (desc' : Nat → FASASDescriptor) (last : Thread) : Prop :=
  ∀ state : State, state.mem = mem → state.desc = desc → state.threads p = thread → ∃ after : State,
    Relation.ReflTransGen (Advances config p) state after ∧ after.mem = mem' ∧ after.desc = desc' ∧
      after.threads p = last ∧ after.life = state.life

namespace Leads

theorem one (alive : p < config.threads) (busy : thread.free = false)
    (performed : ∀ state : State, state.mem = mem → state.desc = desc → ∃ after : State,
      state.stepThread config p thread = some (after.goto p last) ∧ after.mem = mem' ∧
      after.desc = desc' ∧ after.life = state.life) :
    Leads config p mem desc thread mem' desc' last := by
  intro state sameMem sameDesc inside
  obtain ⟨after, goes, newMem, newDesc, sameLife⟩ := performed state sameMem sameDesc
  have step : Advances config p state (after.goto p last) := by
    refine ⟨?_, ?_⟩
    · rw [inside]
      exact busy
    · rw [State.next, if_pos alive, inside]
      exact goes
  exact ⟨_, .single step, newMem, newDesc, State.goto_threads_self .., sameLife⟩

theorem trans (first : Leads config p mem desc thread mem' desc' next)
    (second : Leads config p mem' desc' next mem'' desc'' last) :
    Leads config p mem desc thread mem'' desc'' last := by
  intro state sameMem sameDesc inside
  obtain ⟨middle, start, middleMem, middleDesc, there, life⟩ := first state sameMem sameDesc inside
  obtain ⟨after, rest, newMem, newDesc, reached, sameLife⟩ := second middle middleMem middleDesc there
  exact ⟨after, start.trans rest, newMem, newDesc, reached, sameLife.trans life⟩

end Leads

/-! ### `helpProcess()` and the same part of `process()` -/

/-- The thread inside of `helpProcess()`, or of the part of `process()` that is the same, and what
it does when it is through. -/
def Thread.concluding (own : Bool) (e : Nat) (caller : Caller) : Option Pc → Thread
  | some pc => if own then .conclude e pc else .help e pc caller
  | none => if own then .storePrivate e else caller.thread

/-- `privateAddress_` after `persistSuccStatus`. -/
def persistedStatus (private_ : PrivateAddress) : PrivateAddress :=
  if private_ = .of private_.getPrivateAddress then
    { PrivateAddress.of private_.getPrivateAddress with statusFlg := true }
  else private_

section Concluding

variable {own : Bool} {e : Nat} {caller : Caller}

theorem Leads.pc (alive : p < config.threads) {pc : Pc} {following : Option Pc}
    (performed : ∀ state : State, state.mem = mem → state.desc = desc →
      (state.stepPc config own e pc).2 = following ∧ (state.stepPc config own e pc).1.mem = mem' ∧
      (state.stepPc config own e pc).1.desc = desc') :
    Leads config p mem desc (.concluding own e caller (some pc)) mem' desc'
      (.concluding own e caller following) := by
  have busy : (Thread.concluding own e caller (some pc)).free = false := by
    cases own <;> rfl
  refine .one alive busy ?_
  intro state sameMem sameDesc
  obtain ⟨goes, newMem, newDesc⟩ := performed state sameMem sameDesc
  refine ⟨_, ?_, newMem, newDesc, (State.stepPc_effect own e pc).life⟩
  cases own with
  | true =>
    cases following <;> simp only [Thread.concluding, if_true, State.stepThread, goes]
  | false =>
    cases following <;>
      simp only [Thread.concluding, Bool.false_eq_true, if_false, State.stepThread, goes]

/-- From the flush of the shared word, which points to the descriptor, to its exchange. -/
theorem concluding_leads (own : Bool) (caller : Caller) (alive : p < config.threads)
    (points : mem (desc e).address = config.pool.fasasPtr e) :
    Leads config p mem desc (.concluding own e caller (some .flushWord))
      (Function.update mem (desc e).address (desc e).newValue)
      (Function.update desc e { desc e with privateAddress := persistedStatus (desc e).privateAddress })
      (.concluding own e caller none) := by
  have flushes : Leads config p mem desc (.concluding own e caller (some .flushWord)) mem desc
      (.concluding own e caller (some .loadPrivate)) := by
    refine .pc alive ?_
    rintro state rfl rfl
    exact ⟨rfl, rfl, rfl⟩
  have loads : Leads config p mem desc (.concluding own e caller (some .loadPrivate)) mem desc
      (.concluding own e caller
        (some (.compareStatus (desc e).privateAddress.getPrivateAddress))) := by
    refine .pc alive ?_
    rintro state rfl rfl
    exact ⟨rfl, rfl, rfl⟩
  have persists : Leads config p mem desc (.concluding own e caller
        (some (.compareStatus (desc e).privateAddress.getPrivateAddress))) mem
      (Function.update desc e { desc e with privateAddress := persistedStatus (desc e).privateAddress })
      (.concluding own e caller (some .checkSet)) := by
    by_cases unset : (desc e).privateAddress = .of (desc e).privateAddress.getPrivateAddress
    · have compares : Leads config p mem desc (.concluding own e caller
            (some (.compareStatus (desc e).privateAddress.getPrivateAddress))) mem desc
          (.concluding own e caller
            (some (.exchangeStatus (desc e).privateAddress.getPrivateAddress))) := by
        refine .pc alive ?_
        rintro state rfl rfl
        refine ⟨?_, rfl, rfl⟩
        simp only [State.stepPc, if_pos unset]
      refine compares.trans (.pc alive ?_)
      rintro state rfl rfl
      simp only [State.stepPc, if_pos unset, persistedStatus]
      exact ⟨trivial, rfl, rfl⟩
    · refine .pc alive ?_
      rintro state rfl rfl
      simp only [State.stepPc, if_neg unset, persistedStatus, Function.update_eq_self, and_self]
  generalize now : Function.update desc e
    { desc e with privateAddress := persistedStatus (desc e).privateAddress } = desc' at persists ⊢
  have address : (desc' e).address = (desc e).address := by
    rw [← now, Function.update_self]
  have newValue : (desc' e).newValue = (desc e).newValue := by
    rw [← now, Function.update_self]
  have checks : Leads config p mem desc' (.concluding own e caller (some .checkSet)) mem desc'
      (.concluding own e caller (some .flushStatus)) := by
    refine .pc alive ?_
    rintro state rfl rfl
    refine ⟨?_, rfl, rfl⟩
    simp only [State.stepPc, PrivateAddress.isPrivateValueSet_ne_one, if_false]
  have reaches : Leads config p mem desc' (.concluding own e caller (some .flushStatus)) mem desc'
      (.concluding own e caller (some .loadValue)) := by
    cases own with
    | true =>
      refine .pc alive ?_
      rintro state rfl rfl
      exact ⟨rfl, rfl, rfl⟩
    | false =>
      have flushesStatus : Leads config p mem desc' (.concluding false e caller (some .flushStatus))
          mem desc' (.concluding false e caller (some .checkLast)) := by
        refine .pc alive ?_
        rintro state rfl rfl
        exact ⟨rfl, rfl, rfl⟩
      refine flushesStatus.trans (.pc alive ?_)
      rintro state rfl rfl
      refine ⟨?_, rfl, rfl⟩
      simp only [State.stepPc, PrivateAddress.isPrivateValueSet_ne_one, if_false]
  have compares : Leads config p mem desc' (.concluding own e caller (some .loadValue)) mem desc'
      (.concluding own e caller (some .exchangeValue)) := by
    refine .pc alive ?_
    rintro state rfl rfl
    refine ⟨?_, rfl, rfl⟩
    simp only [State.stepPc, address, points, if_true]
  refine flushes.trans (loads.trans (persists.trans (checks.trans (reaches.trans
    (compares.trans (.pc alive ?_))))))
  rintro state rfl rfl
  simp only [State.stepPc, address, newValue, points, if_true]
  exact ⟨trivial, rfl, rfl⟩

end Concluding

/-! ### `process()` -/

section Process

variable (alive : p < config.threads) {descriptor : FASASDescriptor} (content : desc d = descriptor)

include alive content

/-- `process()` on a word with the old value. -/
theorem process_succeeds (clean : descriptor.oldValue.isCleanPtr = true)
    (expected : mem descriptor.address = descriptor.oldValue) :
    ∃ desc', (∀ e, e ≠ d → desc' e = desc e) ∧
      Leads config p mem desc (.flushDescriptor d)
        (Function.update (Function.update mem descriptor.address descriptor.newValue)
          descriptor.privateAddress.getPrivateAddress descriptor.privateValue)
        desc' (.cleanup d true) := by
  subst content
  have value : (desc d).oldValue.mwcas = false := ((Word.isCleanPtr_iff _).mp clean).1
  have flushes : Leads config p mem desc (.flushDescriptor d) mem desc (.install d) := by
    refine .one alive rfl ?_
    rintro state rfl rfl
    exact ⟨_, rfl, rfl, rfl, rfl⟩
  have installs : Leads config p mem desc (.install d)
      (Function.update mem (desc d).address (config.pool.fasasPtr d)) desc
      (.concluding true d .idle (some .flushWord)) := by
    refine .one alive rfl ?_
    rintro state rfl rfl
    refine ⟨state.storeWord (state.desc d).address (config.pool.fasasPtr d), ?_, rfl, rfl, rfl⟩
    simp only [State.stepThread, State.afterInstall, Word.isMwCASDescriptorPtr, expected, value,
      Bool.false_eq_true, if_false, if_true, ne_eq, not_true_eq_false, Thread.concluding]
  have concludes := concluding_leads true .idle alive
    (Function.update_self (desc d).address (config.pool.fasasPtr d) mem)
  rw [Function.update_idem] at concludes
  generalize now : Function.update desc d
    { desc d with privateAddress := persistedStatus (desc d).privateAddress } = desc' at concludes
  have privateAddress : (desc' d).privateAddress.getPrivateAddress =
      (desc d).privateAddress.getPrivateAddress := by
    rw [← now, Function.update_self]
    simp only [persistedStatus]
    split
    · rfl
    · rfl
  have privateValue : (desc' d).privateValue = (desc d).privateValue := by
    rw [← now, Function.update_self]
    rfl
  have stores : ∀ mem, Leads config p mem desc' (.storePrivate d)
      (Function.update mem (desc d).privateAddress.getPrivateAddress (desc d).privateValue) desc'
      (.flushPrivate d) := by
    intro mem
    refine .one alive rfl ?_
    rintro state rfl rfl
    refine ⟨_, rfl, ?_, rfl, rfl⟩
    rw [← privateAddress, ← privateValue]
    rfl
  have flushesPrivate : ∀ mem, Leads config p mem desc' (.flushPrivate d) mem desc' (.storeFlags d) := by
    intro mem
    refine .one alive rfl ?_
    rintro state rfl rfl
    exact ⟨_, rfl, rfl, rfl, rfl⟩
  have storesFlags : ∀ mem, Leads config p mem desc' (.storeFlags d) mem
      (Function.update desc' d { desc' d with
        privateAddress := { (PrivateAddress.of (desc' d).privateAddress.getPrivateAddress) with
          statusFlg := true, isPrivateValueSetFlg := true } }) (.flushFlags d) := by
    intro mem
    refine .one alive rfl ?_
    rintro state rfl rfl
    exact ⟨_, rfl, rfl, rfl, rfl⟩
  have flushesFlags : ∀ mem desc, Leads config p mem desc (.flushFlags d) mem desc
      (.cleanup d true) := by
    intro mem desc
    refine .one alive rfl ?_
    rintro state rfl rfl
    exact ⟨_, rfl, rfl, rfl, rfl⟩
  refine ⟨_, ?_, flushes.trans (installs.trans (concludes.trans ((stores _).trans
    ((flushesPrivate _).trans ((storesFlags _).trans (flushesFlags _ _))))))⟩
  intro e different
  rw [Function.update_of_ne different, ← now, Function.update_of_ne different]

/-- `process()` on a word with another value. -/
theorem process_fails (value : (mem descriptor.address).mwcas = false)
    (different : mem descriptor.address ≠ descriptor.oldValue) :
    Leads config p mem desc (.flushDescriptor d) mem desc (.cleanup d false) := by
  subst content
  have flushes : Leads config p mem desc (.flushDescriptor d) mem desc (.install d) := by
    refine .one alive rfl ?_
    rintro state rfl rfl
    exact ⟨_, rfl, rfl, rfl, rfl⟩
  refine flushes.trans (.one alive rfl ?_)
  rintro state rfl rfl
  refine ⟨state, ?_, rfl, rfl, rfl⟩
  simp [State.stepThread, State.afterInstall, Word.isMwCASDescriptorPtr, different, value]

end Process

/-! ### `getValueProtectedOfSharedVar` -/

/-- The word holds a value, or the pointer of an operation on it. -/
def Readable (config : Config) (mem : Nat → Word) (desc : Nat → FASASDescriptor) (address : Nat) :
    Prop :=
  (mem address).IsValue ∨ ∃ e, mem address = config.pool.fasasPtr e ∧ (desc e).address = address ∧
    (desc e).newValue.isCleanPtr = true

/-- What a reader of the word gets: the new value of an operation, or the content without its dirty
bit. -/
def readValue (config : Config) (mem : Nat → Word) (desc : Nat → FASASDescriptor) (address : Nat) :
    Word :=
  if (mem address).mwcas then (desc (config.pool.fasasAt (mem address))).newValue
  else (mem address).clearDirty

theorem readValue_clean {address : Nat} (readable : Readable config mem desc address) :
    (readValue config mem desc address).isCleanPtr = true := by
  unfold readValue
  rcases readable with value | ⟨e, points, -, clean⟩
  · rw [value.1, if_neg Bool.false_ne_true, Word.isCleanPtr_iff]
    exact ⟨value.1, value.2, rfl⟩
  · rw [points, Pool.fasasPtr_mwcas, if_pos rfl, Pool.fasasAt_fasasPtr]
    exact clean

theorem load_value (alive : p < config.threads) {address : Nat} (value : (mem address).IsValue) :
    Leads config p mem desc (.load address)
      (Function.update mem address (mem address).clearDirty) desc
      (.value (mem address).clearDirty) := by
  have clean : (mem address).clearDirty.isCleanPtr = true :=
    (Word.isCleanPtr_iff _).mpr ⟨value.1, value.2, rfl⟩
  by_cases dirty : (mem address).dirty = true
  · have loads : Leads config p mem desc (.load address) mem desc
        (.flushDirty address (mem address)) := by
      refine .one alive rfl ?_
      rintro state rfl rfl
      refine ⟨state, ?_, rfl, rfl, rfl⟩
      simp [State.stepThread, State.afterLoad, value.1, dirty]
    have flushes : Leads config p mem desc (.flushDirty address (mem address)) mem desc
        (.clearDirty address (mem address)) := by
      refine .one alive rfl ?_
      rintro state rfl rfl
      exact ⟨_, rfl, rfl, rfl, rfl⟩
    refine loads.trans (flushes.trans (.one alive rfl ?_))
    rintro state rfl rfl
    refine ⟨state.storeWord address (state.mem address).clearDirty, ?_, rfl, rfl, rfl⟩
    simp only [State.stepThread, clean, if_true]
  · have notDirty : (mem address).dirty = false := Bool.eq_false_iff.mpr dirty
    have same : (mem address).clearDirty = mem address := Word.ext rfl rfl notDirty.symm rfl
    rw [same] at clean ⊢
    rw [Function.update_eq_self]
    refine .one alive rfl ?_
    rintro state rfl rfl
    refine ⟨state, ?_, rfl, rfl, rfl⟩
    simp [State.stepThread, State.afterLoad, value.1, notDirty, clean]

/-- A reader that runs alone gets the value of the word and leaves it there. -/
theorem load_leads (alive : p < config.threads) {address : Nat}
    (readable : Readable config mem desc address) :
    ∃ desc', Leads config p mem desc (.load address)
      (Function.update mem address (readValue config mem desc address)) desc'
      (.value (readValue config mem desc address)) := by
  have clean := readValue_clean readable
  unfold readValue at clean ⊢
  rcases readable with value | ⟨e, points, listed, -⟩
  · rw [value.1, if_neg Bool.false_ne_true]
    exact ⟨desc, load_value alive value⟩
  · rw [points, Pool.fasasPtr_mwcas, if_pos rfl, Pool.fasasAt_fasasPtr] at clean ⊢
    have loads : Leads config p mem desc (.load address) mem desc
        (.concluding false e (.load address) (some .checkFirst)) := by
      refine .one alive rfl ?_
      rintro state rfl rfl
      refine ⟨state, ?_, rfl, rfl, rfl⟩
      have present : (config.pool.fasasPtr e).cleanPtr.rest ≠ 0 := config.pool.fasasPtr_rest_ne_zero e
      simp only [State.stepThread, State.afterLoad, points, Pool.fasasPtr_mwcas, if_true, present, ne_eq,
        not_false_eq_true, Pool.fasasAt_fasasPtr, Option.map_some, Thread.concluding,
        Bool.false_eq_true, if_false]
    have checks : Leads config p mem desc (.concluding false e (.load address) (some .checkFirst)) mem
        desc (.concluding false e (.load address) (some .flushWord)) := by
      refine .pc alive ?_
      rintro state rfl rfl
      refine ⟨?_, rfl, rfl⟩
      simp only [State.stepPc, PrivateAddress.isPrivateValueSet_ne_one, if_false]
    have pointsThere : mem (desc e).address = config.pool.fasasPtr e := by
      rw [listed]
      exact points
    have concludes := concluding_leads false (.load address) alive pointsThere
    rw [listed] at concludes
    have value : (Function.update mem address (desc e).newValue address).IsValue := by
      rw [Function.update_self]
      exact .of_isCleanPtr clean
    have reads : Leads config p _ (Function.update desc e { desc e with
        privateAddress := persistedStatus (desc e).privateAddress }) (.load address) _ _ _ :=
      load_value alive value
    rw [Function.update_self, Function.update_idem, Word.clearDirty_of_isCleanPtr clean] at reads
    exact ⟨_, loads.trans (checks.trans (concludes.trans reads))⟩

/-! ### Calls that run alone -/

/-- A thread inside of a call has no result yet. -/
def Pending (p : Nat) {Result : Type} (result : State → Option Result) : Prop :=
  ∀ state, (state.threads p).free = false → result state = none

theorem processResult_pending (p : Nat) : Pending p (State.processResult p) := by
  intro state busy
  unfold State.processResult
  split
  · rename_i returned
    rw [returned] at busy
    cases busy
  · rfl

theorem valueResult_pending (p : Nat) : Pending p (State.valueResult p) := by
  intro state busy
  unfold State.valueResult
  split
  · rename_i returned
    rw [returned] at busy
    cases busy
  · rfl

theorem State.runAlone_yields {Result : Type} {result : State → Option Result}
    (pending : Pending p result) {state begun after : State} {calls : List Action} {value : Result}
    (begins : replay (State.next config) calls state = some begun)
    (reaches : Relation.ReflTransGen (Advances config p) begun after)
    (returns : result after = some value) :
    Yields (state.runAlone config p calls result) value after := by
  have steps : Relation.ReflTransGen (Proceeds (fun state => state.next config (.step p)) result)
      begun after :=
    reaches.lift id fun before _ advances => ⟨pending before advances.1, advances.2⟩
  obtain ⟨bound, enough⟩ := Yields.of_proceeds steps returns
  refine ⟨bound, fun fuel above => ?_⟩
  rw [State.runAlone, begins, Option.bind_some]
  exact enough fuel above

/-- The descriptor of an operation before `process()`. -/
def Operation.descriptor (operation : Operation) : FASASDescriptor where
  address := operation.sharedAddr
  oldValue := operation.oldValue
  newValue := operation.newValue
  opType := operation.opType
  privateAddress := .of operation.privateAddr

/-- What `process()` returns and leaves when it runs alone. -/
structure ProcessOutcome (p : Nat) (operation : Operation) (before : State) (succeeded : Bool)
    (after : State) : Prop where
  result : succeeded = true ↔ before.mem operation.sharedAddr = operation.oldValue
  mem : after.mem = if succeeded then
      Function.update (Function.update before.mem operation.sharedAddr operation.newValue)
        operation.privateAddr operation.descriptor.privateValue
    else before.mem
  free : (after.threads p).free = true

/-- `process()` alone, on a shared word that holds a value. -/
theorem State.processAlone_yields {state : State} {operation : Operation}
    (alive : p < config.threads) (idle : (state.threads p).free = true) (available : state.life d = .free)
    (valid : operation.Valid config) (value : (state.mem operation.sharedAddr).mwcas = false) :
    ∃ succeeded after, Yields (state.processAlone config p d operation) succeeded after ∧
      ProcessOutcome p operation state succeeded after := by
  have begins : ∃ begun, replay (State.next config) (operation.calls p d) state = some begun ∧
      begun.mem = state.mem ∧ begun.desc d = operation.descriptor ∧
      begun.threads p = .flushDescriptor d := by
    have listed : operation.sharedAddr ∈ config.shared := valid.shared
    have unlisted : operation.privateAddr ∉ config.shared := valid.private_
    simp [Operation.calls, replay, State.next, alive, idle, available, Write.allowed, listed, unlisted,
      valid.oldValue, valid.newValue, valid.privateAddr_ne, Write.apply, Operation.descriptor,
      PrivateAddress.of]
  obtain ⟨begun, begins, sameMem, content, inside⟩ := begins
  have returns : ∀ {reached : State} {succeeded : Bool}, reached.threads p = .cleanup d succeeded →
      Advances config p reached ((reached.setLife d .retired).goto p (.returned succeeded)) := by
    intro reached succeeded there
    refine ⟨by rw [there]; rfl, ?_⟩
    rw [State.next, if_pos alive, there]
    rfl
  have addresses : (Operation.descriptor operation).privateAddress.getPrivateAddress =
      operation.privateAddr := rfl
  by_cases expected : state.mem operation.sharedAddr = operation.oldValue
  · obtain ⟨desc', -, leads⟩ := process_succeeds alive content valid.oldValue expected
    obtain ⟨reached, reaches, newMem, -, there, -⟩ := leads begun sameMem rfl inside
    refine ⟨true, _, runAlone_yields (processResult_pending p) begins
      (reaches.tail (returns there)) ?_, ⟨fun _ => expected, fun _ => rfl⟩, newMem, ?_⟩
    · simp only [State.processResult, State.goto_threads_self]
    · rw [State.goto_threads_self]
      rfl
  · obtain ⟨reached, reaches, newMem, -, there, -⟩ :=
      process_fails alive content value expected begun sameMem rfl inside
    refine ⟨false, _, runAlone_yields (processResult_pending p) begins
      (reaches.tail (returns there)) ?_, ⟨fun impossible => absurd impossible Bool.false_ne_true,
        fun same => absurd same expected⟩, newMem, ?_⟩
    · simp only [State.processResult, State.goto_threads_self]
    · rw [State.goto_threads_self]
      rfl

/-- `getValueProtectedOfSharedVar` alone. -/
theorem State.getValueAlone_yields {state : State} {address : Nat} (alive : p < config.threads)
    (idle : (state.threads p).free = true) (shared : address ∈ config.shared)
    (readable : Readable config state.mem state.desc address) :
    ∃ after, Yields (state.getValueAlone config p address)
        (readValue config state.mem state.desc address) after ∧
      after.mem = Function.update state.mem address (readValue config state.mem state.desc address) ∧
      after.life = state.life ∧ (after.threads p).free = true := by
  obtain ⟨desc', leads⟩ := load_leads alive readable
  obtain ⟨after, reaches, newMem, -, there, life⟩ :=
    leads (state.goto p (.load address)) rfl rfl (State.goto_threads_self ..)
  have begins : replay (State.next config) [.getValueProtectedOfSharedVar p address] state =
      some (state.goto p (.load address)) := by
    have guard : p < config.threads ∧ (state.threads p).free = true ∧
        config.shared.contains address = true := ⟨alive, idle, List.contains_iff_mem.mpr shared⟩
    simp only [replay, State.next, if_pos guard, Option.bind_some]
  refine ⟨after, runAlone_yields (valueResult_pending p) begins reaches ?_, newMem, life, ?_⟩
  · simp only [State.valueResult, there]
  · rw [there]
    rfl

end Pmwcas.Fasas
