/-
This file compares the three implementations of fetch-and-store-store in `FetchStoreStore`:
`processByOrgMwcas` with `MwCAS()`, `process` with a `FASASDescriptor`, and `fasas` with an
`OptmizedFASASDescriptor`. Each of them, run alone, returns the value of the shared word, puts the
new value there and the returned value in the private word, and leaves all other words alone.
-/

import Pmwcas.DcasAgreement
import Pmwcas.OptmizedFasasAlone
import Pmwcas.OptmizedFasasAtomicity

namespace Pmwcas

open Transition

/-! ### The code -/

/-- The arguments that the three functions have in common. -/
structure FetchStoreCall where
  shareAddr : Nat
  privateAddr : Nat
  newval : Nat

/-- The entry of `processByOrgMwcas` for the shared word. -/
def FetchStoreCall.shareRequest (call : FetchStoreCall) (targetValue : Word) : Request where
  address := call.shareAddr
  oldValue := targetValue
  newValue := .plain call.newval
  recyclePolicy := .never

/-- The entry of `processByOrgMwcas` for the private word. -/
def FetchStoreCall.storeRequest (call : FetchStoreCall) (targetValue storeValue : Word) : Request where
  address := call.privateAddr
  oldValue := storeValue
  newValue := targetValue
  recyclePolicy := .never

/-- `FetchStoreStore::processByOrgMwcas` by thread `t`, with the descriptors that
`AllocateDescriptor` hands out. -/
def processByOrgMwcas (build : Build) (pool : Pool) (t : Nat) (call : FetchStoreCall) (fuel : Nat) :
    List Nat → State → Option (Word × State)
  | [], _ => none
  | d :: rest, state =>
    (state.getValueAlone build pool t call.shareAddr fuel).bind fun target =>
      if target.1.isCleanPtr then
        (target.2.getValueAlone build pool t call.privateAddr fuel).bind fun store =>
          if store.1.isCleanPtr then
            (store.2.mwCASAlone build pool t d
              [call.shareRequest target.1, call.storeRequest target.1 store.1] fuel).bind fun swapped =>
              if swapped.1 then
                (swapped.2.getValueAlone build pool t call.privateAddr fuel).bind fun stored =>
                  if target.1 = stored.1 then some (target.1, stored.2) else none
              else processByOrgMwcas build pool t call fuel rest swapped.2
          else none
      else none

/-- The operation of `process`. -/
def FetchStoreCall.operation (call : FetchStoreCall) (targetValue : Word) : Fasas.Operation where
  opType := .fasas
  sharedAddr := call.shareAddr
  oldValue := targetValue
  newValue := .plain call.newval
  privateAddr := call.privateAddr

/-- `FetchStoreStore::process` by thread `p`, with the descriptors that `AllocateDescriptor` hands
out. -/
def process (config : Fasas.Config) (p : Nat) (call : FetchStoreCall) (fuel : Nat) :
    List Nat → Fasas.State → Option (Word × Fasas.State)
  | [], _ => none
  | d :: rest, state =>
    (state.getValueAlone config p call.shareAddr fuel).bind fun target =>
      if target.1.isCleanPtr then
        (target.2.processAlone config p d (call.operation target.1) fuel).bind fun processed =>
          if processed.1 then
            if target.1 = processed.2.mem call.privateAddr then some (target.1, processed.2) else none
          else process config p call fuel rest processed.2
      else none

/-- The arguments of `fasas`. -/
def FetchStoreCall.fasasCall (call : FetchStoreCall) (locId processId : Nat) :
    OptmizedFasas.FasasCall where
  shareAddr := call.shareAddr
  privateAddr := call.privateAddr
  newShareVal := call.newval
  locId := locId
  processId := processId

/-! ### `processByOrgMwcas` -/

variable {call : FetchStoreCall} {value : Nat}

/-- Where `processByOrgMwcas` can be run alone: the shared word has the given value, no operation is
in progress on the two words, and there is a free descriptor. -/
structure FetchStoreCall.ReadyMwCAS (call : FetchStoreCall) (build : Build) (pool : Pool) (t d : Nat)
    (state : State) (value : Nat) : Prop where
  distinct : call.shareAddr ≠ call.privateAddr
  shareAddr_ne : call.shareAddr ≠ 0
  privateAddr_ne : call.privateAddr ≠ 0
  shareValue : (state.shared.mem call.shareAddr).IsValue
  privateValue : (state.shared.mem call.privateAddr).IsValue
  notDirty : build = .volatile → (state.shared.mem call.shareAddr).dirty = false ∧
    (state.shared.mem call.privateAddr).dirty = false
  value : (state.shared.mem call.shareAddr).clearDirty = .plain value
  idle : state.threads t = []
  inside : d < pool.size
  allocated : state.shared.desc d = .initialized

/-- The operation of `processByOrgMwcas`, on the values that its reads have returned. -/
theorem swap_yields {build : Build} {pool : Pool} {t d : Nat} {start state : State}
    (ready : call.ReadyMwCAS build pool t d start value) (idle : state.threads t = [])
    (allocated : state.shared.desc d = .initialized) {storeValue : Word}
    (shareNow : state.shared.mem call.shareAddr = .plain value)
    (privateNow : state.shared.mem call.privateAddr = storeValue)
    (storeClean : storeValue.isCleanPtr = true) :
    ∃ after, Yields (state.mwCASAlone build pool t d
        [call.shareRequest (.plain value), call.storeRequest (.plain value) storeValue]) true after ∧
      after.shared.mem = Function.update (Function.update state.shared.mem call.shareAddr
        (.plain call.newval)) call.privateAddr (.plain value) ∧ after.threads t = [] := by
  have shareIsValue : (state.shared.mem call.shareAddr).IsValue := by
    rw [shareNow]
    exact ⟨rfl, rfl⟩
  have privateIsValue : (state.shared.mem call.privateAddr).IsValue := by
    rw [privateNow]
    exact .of_isCleanPtr storeClean
  have shareValid : (call.shareRequest (.plain value)).Valid := ⟨ready.shareAddr_ne, rfl, rfl⟩
  have storeValid : (call.storeRequest (.plain value) storeValue).Valid :=
    ⟨ready.privateAddr_ne, storeClean, rfl⟩
  obtain ⟨succeeded, after, yields, outcome⟩ := State.mwCASAlone_two build idle ready.inside allocated
    shareValid storeValid ready.distinct shareIsValue privateIsValue
  have success : succeeded = true := outcome.result.mpr ⟨.inl shareNow, .inl privateNow⟩
  subst success
  have atShare : after.shared.mem call.shareAddr = .plain call.newval :=
    outcome.atFirst.trans (if_pos ⟨rfl, shareNow⟩)
  have atPrivate : after.shared.mem call.privateAddr = .plain value :=
    outcome.atSecond.trans (if_pos ⟨rfl, privateNow⟩)
  refine ⟨after, yields, ?_, ?_⟩
  · funext address
    by_cases isPrivate : address = call.privateAddr
    · rw [isPrivate, Function.update_self, atPrivate]
    · rw [Function.update_of_ne isPrivate]
      by_cases isShare : address = call.shareAddr
      · rw [isShare, Function.update_self, atShare]
      · rw [Function.update_of_ne isShare]
        exact outcome.others address isShare isPrivate
  · rw [outcome.threads]
    exact idle

theorem processByOrgMwcas_yields {build : Build} {pool : Pool} {t d : Nat} (rest : List Nat)
    {state : State} (ready : call.ReadyMwCAS build pool t d state value) :
    ∃ after, Yields (fun fuel => processByOrgMwcas build pool t call fuel (d :: rest) state)
        (.plain value) after ∧
      after.shared.mem = Function.update (Function.update state.shared.mem call.shareAddr
        (.plain call.newval)) call.privateAddr (.plain value) := by
  -- the read of the shared word
  obtain ⟨first, ⟨bound1, reads1⟩, firstMem, firstDesc, firstThreads⟩ :=
    State.getValueAlone_yields build pool ready.idle ready.shareValue
      fun volatile => (ready.notDirty volatile).1
  rw [ready.value] at reads1 firstMem
  have unread : first.shared.mem call.privateAddr = state.shared.mem call.privateAddr := by
    rw [firstMem, Function.update_of_ne (Ne.symm ready.distinct)]
  -- the read of the private word
  have secondRead : ∃ second, Yields (first.getValueAlone build pool t call.privateAddr)
      (state.shared.mem call.privateAddr).clearDirty second ∧
      second.shared.mem = Function.update first.shared.mem call.privateAddr
        (state.shared.mem call.privateAddr).clearDirty ∧
      second.shared.desc = state.shared.desc ∧ second.threads t = [] := by
    have idle : first.threads t = [] := by
      rw [firstThreads]
      exact ready.idle
    have isValue : (first.shared.mem call.privateAddr).IsValue := by
      rw [unread]
      exact ready.privateValue
    have notDirty : build = .volatile → (first.shared.mem call.privateAddr).dirty = false := by
      rw [unread]
      exact fun volatile => (ready.notDirty volatile).2
    obtain ⟨second, reads, mem, desc, threads⟩ :=
      State.getValueAlone_yields build pool idle isValue notDirty
    rw [unread] at reads mem
    exact ⟨second, reads, mem, desc.trans firstDesc, by rw [threads]; exact idle⟩
  obtain ⟨second, ⟨bound2, reads2⟩, secondMem, secondDesc, secondIdle⟩ := secondRead
  generalize stored : (state.shared.mem call.privateAddr).clearDirty = storeValue at reads2 secondMem
  have storeClean : storeValue.isCleanPtr = true := by
    rw [← stored, Word.isCleanPtr_iff]
    exact ⟨ready.privateValue.1, ready.privateValue.2, rfl⟩
  have shareNow : second.shared.mem call.shareAddr = .plain value := by
    rw [secondMem, Function.update_of_ne ready.distinct, firstMem, Function.update_self]
  have privateNow : second.shared.mem call.privateAddr = storeValue := by
    rw [secondMem, Function.update_self]
  -- the operation
  have operation : ∃ third, Yields (second.mwCASAlone build pool t d
        [call.shareRequest (.plain value), call.storeRequest (.plain value) storeValue]) true third ∧
      third.shared.mem = Function.update (Function.update state.shared.mem call.shareAddr
        (.plain call.newval)) call.privateAddr (.plain value) ∧ third.threads t = [] := by
    have allocated : second.shared.desc d = .initialized := by
      rw [secondDesc]
      exact ready.allocated
    obtain ⟨third, yields, mem, threads⟩ := swap_yields ready secondIdle allocated shareNow privateNow
      storeClean
    refine ⟨third, yields, ?_, threads⟩
    rw [mem, secondMem, firstMem, Function.update_comm ready.distinct, Function.update_idem,
      Function.update_comm (Ne.symm ready.distinct), Function.update_idem]
  obtain ⟨third, ⟨bound3, swaps⟩, thirdMem, thirdIdle⟩ := operation
  -- the check
  have privateThen : third.shared.mem call.privateAddr = .plain value := by
    rw [thirdMem, Function.update_self]
  have check : ∃ after, Yields (third.getValueAlone build pool t call.privateAddr) (.plain value)
      after ∧ after.shared.mem = third.shared.mem := by
    have isValue : (third.shared.mem call.privateAddr).IsValue := by
      rw [privateThen]
      exact ⟨rfl, rfl⟩
    have notDirty : build = .volatile → (third.shared.mem call.privateAddr).dirty = false := by
      rw [privateThen]
      exact fun _ => rfl
    obtain ⟨after, reads, mem, -, -⟩ :=
      State.getValueAlone_yields build pool thirdIdle isValue notDirty
    have same : (third.shared.mem call.privateAddr).clearDirty = third.shared.mem call.privateAddr := by
      rw [privateThen]
      rfl
    rw [same, Function.update_eq_self] at mem
    rw [same, privateThen] at reads
    exact ⟨after, reads, mem⟩
  obtain ⟨after, ⟨bound4, reads4⟩, lastMem⟩ := check
  refine ⟨after, ⟨max (max bound1 bound2) (max bound3 bound4), fun fuel enough => ?_⟩,
    lastMem.trans thirdMem⟩
  have clean : (Word.plain value).isCleanPtr = true := rfl
  simp only [processByOrgMwcas, reads1 fuel (by omega), Option.bind_some, clean, if_true,
    reads2 fuel (by omega), storeClean, swaps fuel (by omega), reads4 fuel (by omega)]

/-! ### `process` -/

/-- Where `process` can be run alone: a read of the shared word gives the value, also when the word
points to the operation of another thread, and there is a free descriptor. -/
structure FetchStoreCall.ReadyFasas (call : FetchStoreCall) (config : Fasas.Config) (p d : Nat)
    (state : Fasas.State) (value : Nat) : Prop where
  shared : call.shareAddr ∈ config.shared
  private_ : call.privateAddr ∉ config.shared
  privateAddr_ne : call.privateAddr ≠ 0
  readable : Fasas.Readable config state.mem state.desc call.shareAddr
  value : Fasas.readValue config state.mem state.desc call.shareAddr = .plain value
  alive : p < config.threads
  idle : (state.threads p).free = true
  allocated : state.life d = .free

theorem process_yields {config : Fasas.Config} {p d : Nat} (rest : List Nat) {state : Fasas.State}
    (ready : call.ReadyFasas config p d state value) :
    ∃ after, Yields (fun fuel => process config p call fuel (d :: rest) state) (.plain value) after ∧
      after.mem = Function.update (Function.update state.mem call.shareAddr (.plain call.newval))
        call.privateAddr (.plain value) := by
  obtain ⟨read, ⟨bound, reads⟩, readMem, life, idle⟩ := Fasas.State.getValueAlone_yields ready.alive
    ready.idle ready.shared ready.readable
  rw [ready.value] at reads readMem
  have valid : (call.operation (.plain value)).Valid config :=
    ⟨ready.shared, ready.private_, ready.privateAddr_ne, rfl, rfl⟩
  have current : read.mem call.shareAddr = .plain value := by
    rw [readMem, Function.update_self]
  have available : read.life d = .free := by
    rw [life]
    exact ready.allocated
  have notPointer : (read.mem call.shareAddr).mwcas = false := by
    rw [current]
    rfl
  obtain ⟨succeeded, after, ⟨bound', processes⟩, outcome⟩ := Fasas.State.processAlone_yields
    ready.alive idle available valid notPointer
  have success : succeeded = true := outcome.result.mpr current
  subst success
  have newMem : after.mem = Function.update (Function.update state.mem call.shareAddr
      (.plain call.newval)) call.privateAddr (.plain value) := by
    refine outcome.mem.trans ?_
    rw [if_pos rfl, readMem]
    show Function.update (Function.update (Function.update state.mem call.shareAddr _) call.shareAddr _)
      call.privateAddr _ = _
    rw [Function.update_idem]
    rfl
  refine ⟨after, ⟨max bound bound', fun fuel enough => ?_⟩, newMem⟩
  have checks : Word.plain value = after.mem call.privateAddr := by
    rw [newMem, Function.update_self]
  have clean : (Word.plain value).isCleanPtr = true := rfl
  simp only [process, reads fuel (Nat.le_trans (Nat.le_max_left _ _) enough), Option.bind_some, clean,
    if_true, processes fuel (Nat.le_trans (Nat.le_max_right _ _) enough), ← checks]

/-! ### The comparison -/

end Pmwcas
