/-
This file compares the two implementations of a double-word compare-and-swap in `FetchStoreStore`,
`dcas` and `dcasByOrgMwcas`, each run alone from the same memory.

They do not agree. `dcas` passes the second word as the private word of a `FASASDescriptor`, which
is written without a comparison, so that its argument `oldVal2` is never used.
-/

import Pmwcas.FasasAlone
import Pmwcas.FasasAtomicity
import Pmwcas.MwCASAlone

namespace Pmwcas

open Transition

/-! ### The two implementations -/

/-- `FASASDescriptor::setOpTypeFlg(value, FASASDescriptor::DoubleCASOp)`. -/
def OpType.setDoubleCASOp (value : Word) : OpType where
  recoverCASOp := value.mwcas
  doubleCASOp := true
  fasasOp := value.dirty
  value := value.rest

/-- The arguments of a double-word compare-and-swap. -/
structure DcasCall where
  targetAddr1 : Nat
  targetAddr2 : Nat
  oldVal1 : Word
  oldVal2 : Word
  newVal1 : Word
  newVal2 : Word

/-- The operation that `FetchStoreStore::dcas` makes of its arguments. -/
def DcasCall.operation (call : DcasCall) : Fasas.Operation where
  opType := .setDoubleCASOp call.newVal2
  sharedAddr := call.targetAddr1
  oldValue := call.oldVal1
  newValue := call.newVal1
  privateAddr := call.targetAddr2

/-- The first entry that `FetchStoreStore::dcasByOrgMwcas` adds. -/
def DcasCall.request1 (call : DcasCall) : Request where
  address := call.targetAddr1
  oldValue := call.oldVal1
  newValue := call.newVal1
  recyclePolicy := .never

/-- The second entry that `FetchStoreStore::dcasByOrgMwcas` adds. -/
def DcasCall.request2 (call : DcasCall) : Request where
  address := call.targetAddr2
  oldValue := call.oldVal2
  newValue := call.newVal2
  recyclePolicy := .never

/-- `FetchStoreStore::dcas` by thread `p`, which is handed descriptor `e`. -/
def dcas (config : Fasas.Config) (p e : Nat) (call : DcasCall) (state : Fasas.State) (fuel : Nat) :
    Option (Bool × Fasas.State) :=
  state.processAlone config p e call.operation fuel

/-- `FetchStoreStore::dcasByOrgMwcas` by thread `t`, which is handed descriptor `d`. -/
def dcasByOrgMwcas (build : Build) (pool : Pool) (t d : Nat) (call : DcasCall) (state : State)
    (fuel : Nat) : Option (Bool × State) :=
  state.mwCASAlone build pool t d [call.request1, call.request2] fuel

/-! ### The comparison -/

/-- Where each implementation can be run alone: distinct words, clean values, one memory without
descriptor pointers, threads outside of a call, and descriptors that were just allocated. -/
structure DcasCall.Ready (call : DcasCall) (config : Fasas.Config) (p e : Nat) (fasas : Fasas.State)
    (pool : Pool) (t d : Nat) (mwcas : State) : Prop where
  distinct : call.targetAddr1 ≠ call.targetAddr2
  present1 : call.targetAddr1 ≠ 0
  present2 : call.targetAddr2 ≠ 0
  oldVal1 : call.oldVal1.isCleanPtr = true
  oldVal2 : call.oldVal2.isCleanPtr = true
  newVal1 : call.newVal1.isCleanPtr = true
  newVal2 : call.newVal2.isCleanPtr = true
  sameMem : fasas.mem = mwcas.shared.mem
  value : ∀ address, (mwcas.shared.mem address).IsValue
  shared : call.targetAddr1 ∈ config.shared
  private_ : call.targetAddr2 ∉ config.shared
  alive : p < config.threads
  fasasIdle : (fasas.threads p).free = true
  fasasAllocated : fasas.life e = .free
  mwcasIdle : mwcas.threads t = []
  inside : d < pool.size
  mwcasAllocated : mwcas.shared.desc d = .initialized

/-- The same boolean, and the same contents of all words up to the dirty bit. -/
def SameOutcome (result : Bool) (after : Fasas.State) (result' : Bool) (after' : State) : Prop :=
  result = result' ∧
    ∀ address, (after.mem address).clearDirty = (after'.shared.mem address).clearDirty

/-- When the implementations agree: the second word has its old value if the first one has. (A word
with the address of the descriptor itself counts as expected for `MwCAS()`, but is not changed.) -/
def DcasCall.Agreeable (build : Build) (pool : Pool) (d : Nat) (mem : Nat → Word) (call : DcasCall) :
    Prop :=
  if mem call.targetAddr1 = call.oldVal1 then
    mem call.targetAddr2 = call.oldVal2 ∨ pool.isOwnPtr build d (mem call.targetAddr2) = true ∧
      (mem call.targetAddr2).clearDirty = call.newVal2
  else pool.isOwnPtr build d (mem call.targetAddr1) = true →
    mem call.targetAddr2 ≠ call.oldVal2 ∧ ¬ pool.isOwnPtr build d (mem call.targetAddr2) = true

section

variable {build : Build} {pool : Pool} {config : Fasas.Config} {p e t d : Nat} {call : DcasCall}
  {fasas : Fasas.State} {mwcas : State} (ready : call.Ready config p e fasas pool t d mwcas)

include ready

theorem dcas_yields : ∃ result after, Yields (dcas config p e call fasas) result after ∧
    (result = true ↔ mwcas.shared.mem call.targetAddr1 = call.oldVal1) ∧
    after.mem = if result then
        Function.update (Function.update mwcas.shared.mem call.targetAddr1 call.newVal1)
          call.targetAddr2 call.newVal2
      else mwcas.shared.mem := by
  have valid : call.operation.Valid config :=
    ⟨ready.shared, ready.private_, ready.present2, ready.oldVal1, ready.newVal1⟩
  have value : (fasas.mem call.targetAddr1).mwcas = false := by
    rw [ready.sameMem]
    exact (ready.value _).1
  obtain ⟨result, after, yields, outcome⟩ := Fasas.State.processAlone_yields ready.alive
    ready.fasasIdle ready.fasasAllocated valid value
  have stored : call.operation.descriptor.privateValue = call.newVal2 := by
    obtain ⟨notMwCAS, notCond, -⟩ := (Word.isCleanPtr_iff _).mp ready.newVal2
    show (if call.newVal2.mwcas = true then Word.plain 1 else _) = _
    rw [notMwCAS, if_neg Bool.false_ne_true]
    exact Word.ext rfl notCond.symm rfl rfl
  refine ⟨result, after, yields, ?_, ?_⟩
  · rw [← ready.sameMem]
    exact outcome.result
  · rw [outcome.mem, stored, ready.sameMem]
    rfl

theorem dcasByOrgMwcas_yields (build : Build) : ∃ result after,
    Yields (dcasByOrgMwcas build pool t d call mwcas) result after ∧
      TwoWordsOutcome build pool d call.request1 call.request2 mwcas result after :=
  State.mwCASAlone_two build ready.mwcasIdle ready.inside ready.mwcasAllocated
    ⟨ready.present1, ready.oldVal1, ready.newVal1⟩ ⟨ready.present2, ready.oldVal2, ready.newVal2⟩
    ready.distinct (ready.value _) (ready.value _)

/-- The contents that `dcasByOrgMwcas` leaves, up to the dirty bit. -/
theorem dcasByOrgMwcas_clearDirty {result : Bool} {after : State}
    (outcome : TwoWordsOutcome build pool d call.request1 call.request2 mwcas result after) :
    (after.shared.mem call.targetAddr1).clearDirty =
        (if result = true ∧ mwcas.shared.mem call.targetAddr1 = call.oldVal1 then call.newVal1
          else (mwcas.shared.mem call.targetAddr1).clearDirty) ∧
      (after.shared.mem call.targetAddr2).clearDirty =
        (if result = true ∧ mwcas.shared.mem call.targetAddr2 = call.oldVal2 then call.newVal2
          else (mwcas.shared.mem call.targetAddr2).clearDirty) := by
  refine ⟨?_, ?_⟩
  · exact (congrArg Word.clearDirty outcome.atFirst).trans
      (outcomeWord_clearDirty (ready.value _) ready.newVal1)
  · exact (congrArg Word.clearDirty outcome.atSecond).trans
      (outcomeWord_clearDirty (ready.value _) ready.newVal2)

/-- The comparison when the first word is as expected. -/
theorem sameOutcome_of_expected (expected : mwcas.shared.mem call.targetAddr1 = call.oldVal1)
    {after : Fasas.State} (newMem : after.mem =
      Function.update (Function.update mwcas.shared.mem call.targetAddr1 call.newVal1)
        call.targetAddr2 call.newVal2) {result : Bool} {after' : State}
    (outcome : TwoWordsOutcome build pool d call.request1 call.request2 mwcas result after') :
    SameOutcome true after result after' ↔
      mwcas.shared.mem call.targetAddr2 = call.oldVal2 ∨
        pool.isOwnPtr build d (mwcas.shared.mem call.targetAddr2) = true ∧
          (mwcas.shared.mem call.targetAddr2).clearDirty = call.newVal2 := by
  obtain ⟨contents1, contents2⟩ := dcasByOrgMwcas_clearDirty ready outcome
  have passes : result = true ↔ mwcas.shared.mem call.targetAddr2 = call.oldVal2 ∨
      pool.isOwnPtr build d (mwcas.shared.mem call.targetAddr2) = true :=
    outcome.result.trans (and_iff_right (.inl expected))
  have atTarget2 : (after.mem call.targetAddr2).clearDirty = call.newVal2 := by
    rw [newMem, Function.update_self, Word.clearDirty_of_isCleanPtr ready.newVal2]
  have others : result = true → ∀ address, address ≠ call.targetAddr2 →
      (after.mem address).clearDirty = (after'.shared.mem address).clearDirty := by
    intro succeeded address not2
    rw [newMem, Function.update_of_ne not2]
    by_cases at1 : address = call.targetAddr1
    · rw [at1, Function.update_self, contents1, if_pos ⟨succeeded, expected⟩]
      exact Word.clearDirty_of_isCleanPtr ready.newVal1
    · rw [Function.update_of_ne at1, outcome.others address at1 not2]
  constructor
  · rintro ⟨same, contents⟩
    rcases passes.mp same.symm with matches_ | own
    · exact .inl matches_
    · by_cases matches_ : mwcas.shared.mem call.targetAddr2 = call.oldVal2
      · exact .inl matches_
      · refine .inr ⟨own, ?_⟩
        rw [← atTarget2, contents call.targetAddr2, contents2, if_neg fun both => matches_ both.2]
  · intro condition
    have succeeded : result = true := passes.mpr (condition.imp id And.left)
    refine ⟨succeeded.symm, fun address => ?_⟩
    by_cases at2 : address = call.targetAddr2
    · rw [at2, atTarget2, contents2]
      rcases condition with matches_ | ⟨-, already⟩
      · rw [if_pos ⟨succeeded, matches_⟩]
      · rw [already, ite_self]
    · exact others succeeded address at2

/-- The comparison when the first word is not as expected. -/
theorem sameOutcome_of_unexpected (unexpected : mwcas.shared.mem call.targetAddr1 ≠ call.oldVal1)
    {after : Fasas.State} (sameMem : after.mem = mwcas.shared.mem) {result : Bool} {after' : State}
    (outcome : TwoWordsOutcome build pool d call.request1 call.request2 mwcas result after') :
    SameOutcome false after result after' ↔
      (pool.isOwnPtr build d (mwcas.shared.mem call.targetAddr1) = true →
        mwcas.shared.mem call.targetAddr2 ≠ call.oldVal2 ∧
          ¬ pool.isOwnPtr build d (mwcas.shared.mem call.targetAddr2) = true) := by
  obtain ⟨contents1, contents2⟩ := dcasByOrgMwcas_clearDirty ready outcome
  have passes : result = true ↔ pool.isOwnPtr build d (mwcas.shared.mem call.targetAddr1) = true ∧
      (mwcas.shared.mem call.targetAddr2 = call.oldVal2 ∨
        pool.isOwnPtr build d (mwcas.shared.mem call.targetAddr2) = true) :=
    outcome.result.trans (and_congr_left' (or_iff_right unexpected))
  have fails : result = false ↔ (pool.isOwnPtr build d (mwcas.shared.mem call.targetAddr1) = true →
      mwcas.shared.mem call.targetAddr2 ≠ call.oldVal2 ∧
        ¬ pool.isOwnPtr build d (mwcas.shared.mem call.targetAddr2) = true) := by
    rw [← Bool.not_eq_true, passes, not_and, not_or]
  rw [← fails]
  constructor
  · rintro ⟨same, -⟩
    exact same.symm
  · intro failed
    refine ⟨failed.symm, fun address => ?_⟩
    rw [sameMem]
    have notSucceeded : result ≠ true := by
      rw [failed]
      exact Bool.false_ne_true
    by_cases at1 : address = call.targetAddr1
    · rw [at1, contents1, if_neg fun both => notSucceeded both.1]
    · by_cases at2 : address = call.targetAddr2
      · rw [at2, contents2, if_neg fun both => notSucceeded both.1]
      · rw [outcome.others address at1 at2]

/-- Both implementations return, and they agree if and only if the second word has its old value
whenever the first one has. -/
theorem dcas_sameOutcome_iff : ∃ result after result' after',
    Yields (dcas config p e call fasas) result after ∧
      Yields (dcasByOrgMwcas build pool t d call mwcas) result' after' ∧
      (SameOutcome result after result' after' ↔ call.Agreeable build pool d mwcas.shared.mem) := by
  obtain ⟨result, after, yields, returned, newMem⟩ := dcas_yields ready
  obtain ⟨result', after', yields', outcome⟩ := dcasByOrgMwcas_yields ready build
  refine ⟨result, after, result', after', yields, yields', ?_⟩
  unfold DcasCall.Agreeable
  by_cases expected : mwcas.shared.mem call.targetAddr1 = call.oldVal1
  · have succeeded := returned.mpr expected
    rw [succeeded, if_pos rfl] at newMem
    rw [succeeded, if_pos expected]
    exact sameOutcome_of_expected ready expected newMem outcome
  · have failed : result = false := Bool.eq_false_iff.mpr fun succeeded =>
      expected (returned.mp succeeded)
    rw [failed, if_neg Bool.false_ne_true] at newMem
    rw [failed, if_neg expected]
    exact sameOutcome_of_unexpected ready expected newMem outcome

end

/-! ### Words that hold zero -/

/-- Replace 0 and `oldVal2` by 1 and 2. -/
def DcasCall.fromZero (oldVal2 : Nat) : DcasCall where
  targetAddr1 := 8
  targetAddr2 := 16
  oldVal1 := .plain 0
  oldVal2 := .plain oldVal2
  newVal1 := .plain 1
  newVal2 := .plain 2

theorem DcasCall.fromZero_ready (oldVal2 : Nat) :
    (DcasCall.fromZero oldVal2).Ready .two 0 0 .start .small 0 0 (.start fun _ => .plain 0) where
  distinct := Nat.ne_of_beq_eq_false rfl
  present1 := Nat.ne_of_beq_eq_false rfl
  present2 := Nat.ne_of_beq_eq_false rfl
  oldVal1 := rfl
  oldVal2 := rfl
  newVal1 := rfl
  newVal2 := rfl
  sameMem := rfl
  value _ := ⟨rfl, rfl⟩
  shared := List.mem_singleton.mpr rfl
  private_ := by
    show 16 ∉ [8]
    decide
  alive := by decide
  fasasIdle := rfl
  fasasAllocated := rfl
  mwcasIdle := rfl
  inside := by decide
  mwcasAllocated := rfl

theorem dcas_sameOutcome_iff_fromZero : ∃ result after result' after',
    Yields (dcas .two 0 0 (.fromZero 0) .start) result after ∧
      Yields (dcasByOrgMwcas .persistent .small 0 0 (.fromZero 0) (.start fun _ => .plain 0)) result'
        after' ∧
      SameOutcome result after result' after' := by
  obtain ⟨result, after, result', after', yields, yields', agree⟩ :=
    dcas_sameOutcome_iff (DcasCall.fromZero_ready 0)
  refine ⟨result, after, result', after', yields, yields', agree.mpr ?_⟩
  have expected : (State.start fun _ => .plain 0).shared.mem (DcasCall.fromZero 0).targetAddr1 =
      (DcasCall.fromZero 0).oldVal1 := rfl
  rw [DcasCall.Agreeable, if_pos expected]
  exact .inl rfl

/-- With another value in the second word, `dcas` succeeds and `dcasByOrgMwcas` fails. -/
theorem exists_not_sameOutcome : ∃ config p e fasas pool t d mwcas, ∃ call : DcasCall,
    call.Ready config p e fasas pool t d mwcas ∧ ∃ result after result' after',
      Yields (dcas config p e call fasas) result after ∧
      Yields (dcasByOrgMwcas .persistent pool t d call mwcas) result' after' ∧
      ¬ SameOutcome result after result' after' := by
  refine ⟨_, _, _, _, _, _, _, _, .fromZero 5, DcasCall.fromZero_ready 5, ?_⟩
  obtain ⟨result, after, yields, returned, newMem⟩ := dcas_yields (DcasCall.fromZero_ready 5)
  obtain ⟨result', after', yields', outcome⟩ :=
    dcasByOrgMwcas_yields (DcasCall.fromZero_ready 5) .persistent
  have succeeded : result = true := returned.mpr rfl
  subst succeeded
  refine ⟨_, after, result', after', yields, yields', ?_⟩
  intro same
  have agree := (sameOutcome_of_expected (DcasCall.fromZero_ready 5) rfl newMem outcome).mp same
  rcases agree with matches_ | ⟨-, already⟩
  · exact absurd matches_ (by decide)
  · exact absurd already (by decide)

end Pmwcas
