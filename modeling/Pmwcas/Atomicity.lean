/-
This file is about the atomicity of `MwCAS`: on logical values an operation acts in one step, the
one that changes its status from Undecided to Succeeded.

The comment above `CondCAS` explains what its second exchange is for: a thread must put the MwCAS
pointer in only if the operation is still undecided. The exchange is guarded by a status that was
read before it, and all helpers of a word share one CondCAS pointer, so a delayed thread can find
the pointer of its operation again after the operation has succeeded and the word has gone back to
its old value. `exists_late_promotion` is that run. Whenever it is avoided, and no plain value is
taken for a pointer, every step is atomic.
-/

import Pmwcas.Installed
import Pmwcas.Logical

namespace Pmwcas

open Transition

variable {build : Build} {pool : Pool}

/-! ### Atomic steps -/

/-- A step on logical values: nothing changes, or an operation succeeds and changes exactly its
words, each from its old to its new value. -/
structure AtomicStep (pool : Pool) (before after : Shared) : Prop where
  unchanged : (∀ d, ¬ (before.code d = .undecided ∧ after.code d = .succeeded)) →
    ∀ address, after.logical pool address = before.logical pool address
  succeeds : ∀ d, before.code d = .undecided → after.code d = .succeeded →
    (∀ i, i < (before.desc d).count →
      before.logical pool ((before.desc d).words i).address = ((before.desc d).words i).oldValue ∧
      after.logical pool ((before.desc d).words i).address = ((before.desc d).words i).newValue) ∧
    ∀ address, (∀ i, i < (before.desc d).count → ((before.desc d).words i).address ≠ address) →
      after.logical pool address = before.logical pool address

/-- The frame does not swap in the MwCAS pointer of an operation that has already succeeded. -/
def Frame.NoLatePromotion (pool : Pool) (shared : Shared) (frame : Frame) : Prop :=
  ∀ d i, i < (shared.desc d).count → frame.Promotes pool d i →
    shared.mem ((shared.desc d).words i).address = pool.condCASPtr d i →
    shared.code d = .succeeded →
    ((shared.desc d).words i).newValue = ((shared.desc d).words i).oldValue

/-- The condition under which a step is atomic: it neither takes a plain value for its own pointer
nor swaps in a pointer late. -/
def AtomicityCondition (build : Build) (pool : Pool) (state : State) (action : Action) : Prop :=
  ∀ t, action = .step t → ∀ frame rest, state.threads t = frame :: rest →
    frame.NoBareAddress build pool state.shared ∧ frame.NoLatePromotion pool state.shared

section Effects

variable {shared after : Shared} {frame : Frame}

theorem AtomicStep.of_logical_eq
    (code : ∀ d, shared.code d = .undecided → after.code d = shared.code d)
    (same : ∀ address, after.logical pool address = shared.logical pool address) :
    AtomicStep pool shared after := by
  refine ⟨fun _ => same, ?_⟩
  intro d undecided succeeded
  rw [code d undecided, undecided] at succeeded
  cases succeeded

/-- A change of a single word that keeps its logical value. -/
theorem AtomicStep.storeWord {address : Nat} {word : Word}
    (descriptors : DescriptorsOk build pool shared)
    (words : ∀ address, WordOk build pool shared address (shared.mem address))
    (same : (shared.storeWord address word).logical pool address =
      shared.logical pool address) :
    AtomicStep pool shared (shared.storeWord address word) := by
  refine .of_logical_eq (fun _ _ => rfl) ?_
  intro other
  by_cases here : other = address
  · subst here
    exact same
  · exact Shared.logical_congr descriptors (words other) (Shared.storeWord_mem_of_ne _ _ here)
      (fun _ _ => ⟨rfl, rfl⟩) fun _ _ => rfl

theorem Shared.logical_storeWord_of_isValue {address : Nat} {word : Word} (value : word.IsValue) :
    (shared.storeWord address word).logical pool address = word.clearDirty := by
  have stored := Shared.storeWord_mem_self shared address word
  rw [Shared.logical_of_isValue (by rw [stored]; exact value), stored]

theorem Shared.logical_storeWord_mwCASPtr {d i address : Nat} (dirty : Bool)
    (entries : EntriesOk pool shared d) (lists : shared.Lists d i address) :
    (shared.storeWord address (pool.mwCASPtr d dirty)).logical pool address =
      ((shared.desc d).words i).finalValue (shared.code d == .succeeded) := by
  have entriesAfter : EntriesOk pool (shared.storeWord address (pool.mwCASPtr d dirty)) d :=
    entries.later rfl rfl
  have listsAfter : (shared.storeWord address (pool.mwCASPtr d dirty)).Lists d i address :=
    lists.later (.of_desc_eq rfl)
  exact Shared.logical_of_mwCASPtr entriesAfter listsAfter (Shared.storeWord_mem_self _ _ _)

/-- The decision of an operation whose pointers are all in place. -/
theorem atomicStep_decide {d : Nat} {status : Status}
    (descriptors : DescriptorsOk build pool shared)
    (words : ∀ address, WordOk build pool shared address (shared.mem address))
    (undecided : shared.code d = .undecided) (decision : status.code.Decided)
    (installed : status.code = .succeeded →
      ∀ i, i < (shared.desc d).count → shared.Installed pool d i) :
    AtomicStep pool shared (shared.storeStatus d status) := by
  have entries := descriptors.entries d (Or.inl undecided)
  have entriesAfter : EntriesOk pool (shared.storeStatus d status) d :=
    entries.later (Shared.storeStatus_count _ _ _ _) (Shared.storeStatus_words _ _ _ _)
  have codeSelf : (shared.storeStatus d status).code d = status.code := by
    rw [Shared.code, Shared.storeStatus_status_self]
  have codeOther : ∀ {e : Nat}, e ≠ d → (shared.storeStatus d status).code e = shared.code e := by
    intro e different
    rw [Shared.code, Shared.storeStatus_desc_of_ne _ _ different]
    rfl
  have elsewhere : ∀ address, (∀ dirty, shared.mem address ≠ pool.mwCASPtr d dirty) →
      (shared.storeStatus d status).logical pool address = shared.logical pool address := by
    intro address notHere
    refine Shared.logical_congr descriptors (words address) rfl
      (fun _ _ => ⟨Shared.storeStatus_count _ _ _ _, Shared.storeStatus_words _ _ _ _⟩) ?_
    rintro e ⟨dirty, pointer⟩
    refine codeOther ?_
    rintro rfl
    exact notHere dirty pointer
  have logicalBefore : ∀ {i address : Nat} {dirty : Bool}, shared.Lists d i address →
      shared.mem address = pool.mwCASPtr d dirty →
      shared.logical pool address = ((shared.desc d).words i).oldValue := by
    intro i address dirty lists pointer
    rw [Shared.logical_of_mwCASPtr entries lists pointer, undecided]
    rfl
  have logicalAfter : ∀ {i address : Nat} {dirty : Bool}, shared.Lists d i address →
      shared.mem address = pool.mwCASPtr d dirty →
      (shared.storeStatus d status).logical pool address =
        ((shared.desc d).words i).finalValue (status.code == .succeeded) := by
    intro i address dirty lists pointer
    have listsAfter : (shared.storeStatus d status).Lists d i address := by
      refine ⟨?_, by rw [Shared.storeStatus_count]; exact lists.inside,
        by rw [Shared.storeStatus_words]; exact lists.address_eq⟩
      unfold Shared.InUse
      rw [codeSelf]
      exact decision.inUse
    rw [Shared.logical_of_mwCASPtr entriesAfter listsAfter pointer, codeSelf,
      Shared.storeStatus_words]
  have pointed : ∀ {address : Nat} {dirty : Bool}, shared.mem address = pool.mwCASPtr d dirty →
      ∃ i, shared.Lists d i address := by
    intro address dirty pointer
    rcases (words address).form with value | reference | ⟨-, i, lists⟩
    · rw [pointer] at value
      exact absurd value (pool.mwCASPtr_not_isValue d dirty)
    · have flag := reference.condcas
      rw [pointer] at flag
      cases flag
    · rw [pointer, Pool.mwCASPtr_rest, Pool.descriptorAt_descriptorAddress] at lists
      exact ⟨i, lists⟩
  refine ⟨?_, ?_⟩
  · intro noSuccess address
    by_cases here : ∃ dirty, shared.mem address = pool.mwCASPtr d dirty
    · obtain ⟨dirty, pointer⟩ := here
      obtain ⟨i, lists⟩ := pointed pointer
      have failed : status.code ≠ .succeeded :=
        fun succeeded => noSuccess d ⟨undecided, codeSelf.trans succeeded⟩
      rw [logicalBefore lists pointer, logicalAfter lists pointer,
        beq_eq_false_iff_ne.mpr failed]
      rfl
    · exact elsewhere address fun dirty pointer => here ⟨dirty, pointer⟩
  · intro e undecidedE succeededE
    have same : e = d := by
      by_contra different
      rw [codeOther different, undecidedE] at succeededE
      cases succeededE
    subst same
    have succeeded : status.code = .succeeded := codeSelf.symm.trans succeededE
    refine ⟨?_, ?_⟩
    · intro i inside
      obtain ⟨dirty, pointer⟩ := installed succeeded i inside
      have lists := Shared.lists_self (Or.inl undecided) inside
      rw [logicalBefore lists pointer, logicalAfter lists pointer, succeeded]
      exact ⟨rfl, rfl⟩
    · intro address foreign
      refine elsewhere address ?_
      intro dirty pointer
      obtain ⟨i, lists⟩ := pointed pointer
      exact foreign i lists.inside lists.address_eq

/-- Every effect that meets the condition is atomic. -/
theorem Effect.atomicStep (effect : Effect build pool shared frame after)
    (descriptors : DescriptorsOk build pool shared)
    (words : ∀ address, WordOk build pool shared address (shared.mem address))
    (installed : FrameInstalled pool shared frame)
    (noLate : frame.NoLatePromotion pool shared) : AtomicStep pool shared after := by
  have room : ∀ {e j address : Nat}, shared.Lists e j address → j < kMaxCount :=
    fun lists => Nat.lt_of_lt_of_le lists.inside (descriptors.entries _ lists.inUse).count_le
  cases effect with
  | skip | flushWord | flushStatus | flushDescriptor | push =>
    exact .of_logical_eq (fun _ _ => rfl) fun _ => rfl
  | @install d calldepth i address lists holds =>
    refine .storeWord descriptors words ?_
    have clean := (descriptors.entries d lists.inUse).oldValue i lists.inside
    rw [Shared.logical_of_condCASPtr (room lists) (Shared.storeWord_mem_self _ _ _),
      Shared.logical_of_isValue (by rw [holds]; exact .of_isCleanPtr clean), holds,
      Word.clearDirty_of_isCleanPtr clean]
    rfl
  | @promote _ d i address lists holds promotes =>
    refine .storeWord descriptors words ?_
    rw [Shared.logical_of_condCASPtr (room lists) holds,
      Shared.logical_storeWord_mwCASPtr _ (descriptors.entries d lists.inUse) lists]
    by_cases succeeded : shared.code d = .succeeded
    · rw [beq_iff_eq.mpr succeeded]
      rw [← lists.address_eq] at holds
      exact noLate d i lists.inside promotes holds succeeded
    · rw [beq_eq_false_iff_ne.mpr succeeded]
      rfl
  | @revert _ d i address lists holds decided =>
    refine .storeWord descriptors words ?_
    have clean := (descriptors.entries d lists.inUse).oldValue i lists.inside
    rw [Shared.logical_storeWord_of_isValue (.of_isCleanPtr clean),
      Shared.logical_of_condCASPtr (room lists) holds, Word.clearDirty_of_isCleanPtr clean]
  | @clearDirty _ address dirty clears =>
    refine .storeWord descriptors words ?_
    rcases (words address).form with value | reference | ⟨pointer, i, lists⟩
    · rw [Shared.logical_storeWord_of_isValue value.clearDirty, Shared.logical_of_isValue value,
        Word.clearDirty_clearDirty]
    · rw [reference.1] at dirty
      cases dirty
    · have entries := descriptors.entries _ lists.inUse
      have cleared : (shared.mem address).clearDirty =
          pool.mwCASPtr (pool.descriptorAt (shared.mem address).rest) false :=
        congrArg Word.clearDirty pointer
      rw [cleared, Shared.logical_storeWord_mwCASPtr false entries lists,
        Shared.logical_of_mwCASPtr entries lists pointer]
  | @finalise _ d i address dirty succeeded lists holds verdict finalises =>
    refine .storeWord descriptors words ?_
    have entries := descriptors.entries d lists.inUse
    have clean := entries.finalValue_clean lists.inside succeeded
    have value : (((shared.desc d).words i).finalValue succeeded).IsValue := .of_isCleanPtr clean
    rw [Shared.logical_storeWord_of_isValue (value.withDirty _), Word.clearDirty_withDirty,
      Shared.logical_of_mwCASPtr entries lists holds, verdict.beq_succeeded]
    exact Word.clearDirty_of_isCleanPtr clean
  | @decide d calldepth myStatus undecided decision =>
    refine atomicStep_decide descriptors words undecided decision ?_
    rintro rfl
    exact installed.below undecided
  | @clearStatus d calldepth pc clears =>
    have code : ∀ e, (shared.storeStatus d (shared.desc d).status.clearDirty).code e =
        shared.code e := by
      intro e
      by_cases same : e = d
      · subst same
        rw [Shared.code, Shared.storeStatus_status_self]
        rfl
      · rw [Shared.code, Shared.storeStatus_desc_of_ne _ _ same]
        rfl
    refine .of_logical_eq (fun e _ => code e) fun address => ?_
    exact Shared.logical_congr descriptors (words address) rfl
      (fun _ _ => ⟨Shared.storeStatus_count _ _ _ _, Shared.storeStatus_words _ _ _ _⟩)
      fun e _ => code e

end Effects

/-! ### Runs -/

/-- Every step that meets the condition is atomic. -/
theorem Invariant.atomicStep {before after : State} {action : Action}
    (invariant : Invariant build pool before) (installed : before.Installed pool)
    (recycles : RecyclesUnused pool before action)
    (condition : AtomicityCondition build pool before action)
    (step : Step build pool before action after) :
    AtomicStep pool before.shared after.shared := by
  cases step with
  | step performed =>
    obtain ⟨frame, rest, move, step⟩ := invariant.threadStep performed
    exact step.effect.atomicStep invariant.descriptors invariant.words
      (installed _ frame step.mem_top) (condition _ rfl frame rest step.stack).2
  | @mwCAS t d requests filled idle inside free valid added =>
    have unused := Shared.not_inUse_of_finished free
    have kept : ∀ {e : Nat}, e ≠ d →
        (before.beginMwCAS build t d filled).shared.desc e = before.shared.desc e :=
      State.beginMwCAS_desc_of_ne
    have pointed : ∀ {address e : Nat}, (before.shared.mem address).PointsTo pool e → e ≠ d := by
      rintro address e points rfl
      obtain ⟨u, frame, member, uses⟩ := invariant.exists_uses points
      exact unused ((invariant.frames u frame member).inUse_of_uses uses)
    refine .of_logical_eq ?_ ?_
    · intro e undecided
      have different : e ≠ d := by
        rintro rfl
        exact unused (Or.inl undecided)
      rw [Shared.code, kept different]
      rfl
    · intro address
      refine Shared.logical_congr invariant.descriptors (invariant.words address) rfl ?_ ?_
      · intro e points
        rw [kept (pointed points)]
        exact ⟨rfl, rfl⟩
      · intro e points
        rw [Shared.code, kept (pointed (Or.inl points))]
        rfl
  | getValue | writeBack | writeBackField => exact .of_logical_eq (fun _ _ => rfl) fun _ => rfl
  | @recycle d pushed =>
    have kept : ∀ {e : Nat}, e ≠ d → (before.recycle d).shared.desc e = before.shared.desc e :=
      State.recycle_desc_of_ne
    have pointed : ∀ {address e : Nat}, (before.shared.mem address).PointsTo pool e → e ≠ d := by
      rintro address e points rfl
      exact invariant.not_pointsTo_of_unused (recycles _ rfl) address points
    refine ⟨?_, ?_⟩
    · intro _ address
      refine Shared.logical_congr invariant.descriptors (invariant.words address) rfl ?_ ?_
      · intro e points
        rw [kept (pointed points)]
        exact ⟨rfl, rfl⟩
      · intro e points
        rw [Shared.code, kept (pointed (Or.inl points))]
        rfl
    · intro e undecided succeeded
      by_cases same : e = d
      · subst same
        rw [Shared.code, State.recycle_desc_self] at succeeded
        cases succeeded
      · rw [Shared.code, kept same] at succeeded
        rw [Shared.code, succeeded] at undecided
        cases undecided

/-- In every run whose steps meet the condition and that recycles no descriptor in use every step is
atomic. -/
theorem atomic_of_run (run : Run (system build pool)) (recycles : run.Meets (RecyclesUnused pool))
    (meets : run.Meets (AtomicityCondition build pool)) (index : Nat)
    (inside : index < run.length) :
    AtomicStep pool (run.state index).shared (run.state (index + 1)).shared := by
  have noBare : run.Meets (NoBareAddress build pool) :=
    fun earlier before t here frame rest stack => (meets earlier before t here frame rest stack).1
  exact (invariant_of_run run recycles index (Nat.le_of_lt inside)).atomicStep
    (installed_of_run run recycles noBare index (Nat.le_of_lt inside)) (recycles index inside)
    (meets index inside) (run.steps index inside)

/-- A test of the second half of the condition, for frames that resolve no pointer of another
call. -/
def Frame.avoidsLatePromotion (shared : Shared) : Frame → Bool
  | .mwCAS d _ (.casOwn _ true) => shared.code d != .succeeded
  | .mwCAS _ _ (.casResolve _ _ _ true) => false
  | .getValue _ (.casCond _ true) => false
  | _ => true

theorem Frame.noLatePromotion_of_test {shared : Shared} {frame : Frame}
    (passes : frame.avoidsLatePromotion shared = true) : frame.NoLatePromotion pool shared := by
  intro d i _ promotes _ succeeded
  cases frame with
  | mwCAS own calldepth pc =>
    cases pc with
    | casOwn k flag =>
      cases flag with
      | true =>
        obtain ⟨rfl, rfl⟩ := promotes
        simp [Frame.avoidsLatePromotion, succeeded] at passes
      | false => exact promotes.elim
    | casResolve k pointer desired flag =>
      cases flag with
      | true => cases passes
      | false => exact promotes.elim
    | _ => exact promotes.elim
  | getValue address pc =>
    cases pc with
    | casCond pointer flag =>
      cases flag with
      | true => cases passes
      | false => exact promotes.elim
    | _ => exact promotes.elim

/-- The step of an operation on one word that makes it succeed. -/
theorem atomic_of_run_single : ∃ run : Run (system .persistent .small),
    run.Meets (RecyclesUnused .small) ∧ run.Meets (AtomicityCondition .persistent .small) ∧
      10 < run.length ∧
      (run.state 10).shared.logical .small 8 = .plain 1 ∧
      (run.state 11).shared.logical .small 8 = .plain 2 ∧
      AtomicStep .small (run.state 10).shared (run.state 11).shared := by
  obtain ⟨run, length, states, acts, passes⟩ := State.exists_solo_run .persistent .small
    (fun _ => .plain 1) (fun _ => rfl) [.change 8 1 2] 25
    (fun shared frame => frame.avoidsBareAddress .small shared && frame.avoidsLatePromotion shared)
    (by decide +kernel) (by decide +kernel)
  have recycles : run.Meets (RecyclesUnused .small) := recyclesUnused_of_actions acts (by decide)
  have meets : run.Meets (AtomicityCondition .persistent .small) := by
    intro index inside t acts frame rest stack
    obtain ⟨noBare, noLate⟩ := Bool.and_eq_true_iff.mp (passes index inside t acts frame rest stack)
    exact ⟨Frame.noBareAddress_of_test noBare, Frame.noLatePromotion_of_test noLate⟩
  have before := holds_of_replay (fun state => state.shared.logical .small 8 = .plain 1)
    (states 10) (by decide +kernel)
  have after := holds_of_replay (fun state => state.shared.logical .small 8 = .plain 2)
    (states 11) (by decide +kernel)
  exact ⟨run, recycles, meets, by rw [length]; decide, of_decide_eq_true before,
    of_decide_eq_true after, atomic_of_run run recycles meets 10 (by rw [length]; decide)⟩

/-! ### A late promotion -/

/-- The second exchange of `CondCAS` decides nothing: if it changes a logical value, the step is
not atomic. -/
theorem not_atomicStep_of_casOwn {before after : State} {t d calldepth i : Nat}
    {undecided : Bool} {rest : List Frame} (address : Nat) (step : Step build pool before (.step t) after)
    (stack : before.threads t = .mwCAS d calldepth (.casOwn i undecided) :: rest)
    (changed : after.shared.logical pool address ≠ before.shared.logical pool address) :
    ¬ AtomicStep pool before.shared after.shared := by
  intro atomic
  refine changed (atomic.unchanged ?_ address)
  rintro e ⟨wasUndecided, succeeded⟩
  have desc : after.shared.desc = before.shared.desc := by
    cases step with
    | step performed =>
      simp only [State.stepThread, stack, Option.some.injEq] at performed
      rw [← performed]
      simp only [Frame.step, stepMwCAS, Shared.compareExchange64]
      split <;> rfl
  rw [Shared.code, desc] at succeeded
  rw [Shared.code, succeeded] at wasUndecided
  cases wasUndecided

/-- Thread 0 installs its CondCAS pointer and reads that its operation is undecided. Readers 1 and
2 help; the help of reader 1 finishes the operation. Thread 3 changes the word back. The help of
reader 2, delayed before its exchange, installs the CondCAS pointer again, and thread 0 swaps in
the MwCAS pointer of its finished operation. -/
def latePromotion (installed helping helped changed : Nat) : List Action :=
  Action.mwCAS 0 0 [.change 8 1 2] :: List.replicate installed (Action.step 0) ++
    Action.getValue 2 8 :: List.replicate helping (Action.step 2) ++
    Action.getValue 1 8 :: List.replicate helped (Action.step 1) ++
    Action.mwCAS 3 1 [.change 8 2 1] :: List.replicate changed (Action.step 3) ++
    [Action.step 2, Action.step 0]

/-- The last step of the listed ones, a second exchange of `CondCAS`, is not atomic. -/
theorem exists_not_atomicStep (build : Build) (actions : List Action) (index : Nat)
    (performed : (replay (State.next build .small) actions (.start fun _ => .plain 1)).isSome = true)
    (keeps : actions.all (fun action => !action.recycles) = true)
    (inside : index < actions.length) (acts : actions.getD index default = .step 0)
    (before : (replay (State.next build .small) (actions.take index) (.start fun _ => .plain 1)).any
      (fun state => state.shared.logical .small 8 = .plain 1 ∧
        state.threads 0 = [.mwCAS 0 0 (.casOwn 0 true)]) = true)
    (after : (replay (State.next build .small) (actions.take (index + 1))
      (.start fun _ => .plain 1)).any
      (fun state => state.shared.logical .small 8 = .plain 2) = true) :
    ∃ run : Run (system build .small), run.Meets (RecyclesUnused .small) ∧
      ∃ index, index < run.length ∧
        ¬ AtomicStep .small (run.state index).shared (run.state (index + 1)).shared := by
  obtain ⟨run, length, states, actionsEq⟩ :=
    State.exists_run build .small (fun _ => .plain 1) (fun _ => rfl) actions performed
  rw [← length] at inside
  refine ⟨run, recyclesUnused_of_actions actionsEq keeps, index, inside, ?_⟩
  have step : Step build .small (run.state index) (run.action index) (run.state (index + 1)) :=
    run.steps index inside
  rw [actionsEq index, acts] at step
  have atIndex := holds_of_replay _ (states index) before
  have next := holds_of_replay _ (states (index + 1)) after
  obtain ⟨old, stack⟩ := of_decide_eq_true atIndex
  have new := of_decide_eq_true next
  refine not_atomicStep_of_casOwn 8 step stack ?_
  rw [new, old]
  decide

theorem exists_late_promotion :
    (∃ run : Run (system .persistent .small), run.Meets (RecyclesUnused .small) ∧
      ∃ index, index < run.length ∧
        ¬ AtomicStep .small (run.state index).shared (run.state (index + 1)).shared) ∧
    ∃ run : Run (system .volatile .small), run.Meets (RecyclesUnused .small) ∧
      ∃ index, index < run.length ∧
        ¬ AtomicStep .small (run.state index).shared (run.state (index + 1)).shared :=
  ⟨exists_not_atomicStep .persistent (latePromotion 5 8 17 25) 60 (by decide +kernel) (by decide)
      (by decide) (by decide) (by decide +kernel) (by decide +kernel),
    exists_not_atomicStep .volatile (latePromotion 3 6 8 7) 29 (by decide +kernel) (by decide)
      (by decide) (by decide) (by decide +kernel) (by decide +kernel)⟩

end Pmwcas
