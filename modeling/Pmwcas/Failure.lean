/-
This file asks what a returned `false` proves. Some thread that ran the operation has met, in the
install phase, a word that was neither the old value nor a pointer. If the word was not the old
value with the dirty bit set, then its logical value was not the old value.

The final phase of another operation leaves exactly such a word for a moment: the new value with
the dirty bit, before the flush. Readers flush the word and clear the bit, and so does the install
phase when it meets a dirty MwCAS pointer, but for a dirty value it decides Failed.
`exists_spurious_failure` is that run.
-/

import Pmwcas.Agreement
import Pmwcas.Logical

namespace Pmwcas

open Transition

variable {build : Build} {pool : Pool}

/-! ### Calls -/

/-- Thread `t` calls `MwCAS()` on descriptor `d` in step `first`, is busy with this call until state
`last`, and returns `result` in step `last`. -/
structure Call (run : Run (system build pool)) (t d first last : Nat) (result : Bool) : Prop where
  begins : ∃ requests, run.action first = .mwCAS t d requests
  before : first < last
  inside : last < run.length
  busy : ∀ index, first < index → index ≤ last → (run.state index).threads t ≠ []
  returns : run.action last = .step t ∧ (run.state last).threads t = [.mwCAS d 0 (.ret result)]

/-- While a thread is busy with its call, the frame of the call is at the bottom of its stack. -/
theorem Invariant.owner_stays {before after : State} {action : Action} {t d : Nat} {pc : Pc}
    (invariant : Invariant build pool before) (step : Step build pool before action after)
    (member : .mwCAS d 0 pc ∈ before.threads t) (busy : after.threads t ≠ []) :
    ∃ next, .mwCAS d 0 next ∈ after.threads t := by
  have running : before.threads t ≠ [] := List.ne_nil_of_mem member
  cases step with
  | @step _ u performed =>
    obtain ⟨frame, rest, move, step⟩ := invariant.threadStep performed
    rcases step.mem_before member with ⟨rfl, rfl⟩ | kept
    · have moves := step.moves
      cases moves with
      | mwCAS moves =>
        cases moves with
        | goto edge => exact ⟨_, step.mem_moved (List.mem_singleton_self _)⟩
        | help i rval =>
          exact ⟨_, step.mem_moved (List.mem_cons_of_mem _ (List.mem_singleton_self _))⟩
        | ret result =>
          -- the frame is the whole stack, so the thread is idle now
          have alone : rest = [] := by
            have ok := invariant.callStacks t
            rw [step.stack] at ok
            cases rest with
            | nil => rfl
            | cons caller rest => cases ok.1
          rw [step.threads_self, alone] at busy
          exact absurd rfl busy
    · exact ⟨pc, kept⟩
  | @mwCAS u e requests filled idle inside free valid added =>
    exact ⟨pc, (mem_update_of_idle idle).mpr (Or.inr member)⟩
  | getValue idle => exact ⟨pc, (mem_update_of_idle idle).mpr (Or.inr member)⟩
  | writeBack | writeBackField | recycle => exact ⟨pc, member⟩

namespace Call

variable {run : Run (system build pool)} {t d first last : Nat} {result : Bool}
  (call : Call run t d first last result) (recycles : run.Meets (RecyclesUnused pool))

include call recycles

theorem owner {index : Nat} (after : first < index) (before : index ≤ last) :
    ∃ pc, .mwCAS d 0 pc ∈ (run.state index).threads t := by
  induction index, after using Nat.le_induction with
  | base =>
    obtain ⟨requests, begins⟩ := call.begins
    have step : Step build pool (run.state first) (run.action first) (run.state (first + 1)) :=
      run.steps first (Nat.lt_trans call.before call.inside)
    rw [begins] at step
    show ∃ pc, .mwCAS d 0 pc ∈ (run.state (first + 1)).threads t
    generalize run.state (first + 1) = next at step ⊢
    cases step with
    | mwCAS idle inside free valid added =>
      exact ⟨_, (mem_update_of_idle idle).mpr (Or.inl ⟨rfl, rfl⟩)⟩
  | succ index after inductionHypothesis =>
    obtain ⟨pc, member⟩ := inductionHypothesis (Nat.le_of_lt before)
    have inside : index < run.length := Nat.lt_of_lt_of_le before (Nat.le_of_lt call.inside)
    exact (invariant_of_run run recycles index (Nat.le_of_lt inside)).owner_stays
      (run.steps index inside) member (call.busy (index + 1) (Nat.lt_succ_of_lt after) before)

theorem life : Life run t d first last where
  begins := call.begins
  before := call.before
  inside := Nat.le_of_lt call.inside
  kept index after before recycled := by
    obtain ⟨pc, member⟩ := call.owner recycles after (Nat.le_of_lt before)
    have unused := recycles index (Nat.lt_trans before call.inside) d recycled
    have step : Step build pool (run.state index) (run.action index) (run.state (index + 1)) :=
      run.steps index (Nat.lt_trans before call.inside)
    rw [recycled] at step
    generalize run.state (index + 1) = next at step
    cases step with
    | recycle pushed => exact unused t _ member (Or.inl rfl)

end Call

/-! ### What a failed operation has met -/

/-- The step does not meet the old value of an undecided operation with the dirty bit set. -/
def NoDirtyOldValue (state : State) (action : Action) : Prop :=
  ∀ t, action = .step t → ∀ d calldepth i rest,
    state.threads t = .mwCAS d calldepth (.installCondCAS i) :: rest →
    state.shared.code d = .undecided →
    state.shared.mem ((state.shared.desc d).words i).address ≠
      ((state.shared.desc d).words i).oldValue.setDirty

/-- Some target word of descriptor `d` has a logical value other than its old value. -/
def Shared.Differs (pool : Pool) (shared : Shared) (d : Nat) : Prop :=
  ∃ i, i < (shared.desc d).count ∧
    shared.logical pool ((shared.desc d).words i).address ≠ ((shared.desc d).words i).oldValue

/-- The install phase goes for Failed only if it has met a value that is not the old one. -/
theorem Pc.Next.met_of_decide_failed {shared : Shared} {d calldepth : Nat} {pc : Pc}
    (edge : Pc.Next build pool shared d calldepth pc (.decide .failed)) :
    ∃ i, pc = .installCondCAS i ∧
      (shared.mem ((shared.desc d).words i).address).IsValue ∧
      shared.mem ((shared.desc d).words i).address ≠ ((shared.desc d).words i).oldValue := by
  have notInstall : ∀ i, Pc.enterInstall build (shared.desc d) i ≠ .decide .failed := by
    intro i
    unfold Pc.enterInstall Pc.enterTarget
    split
    · exact nofun
    · cases build with
      | persistent =>
        simp only
        split <;> exact nofun
      | volatile => exact nofun
  have notTarget : ∀ i, Pc.enterTarget (shared.desc d) i ≠ .decide .failed := by
    intro i
    unfold Pc.enterTarget
    split <;> exact nofun
  have notFinal : ∀ i succeeded, Pc.enterFinal (shared.desc d) calldepth i succeeded ≠
      .decide .failed := by
    intro i succeeded
    rcases Pc.enterFinal_cases (shared.desc d) calldepth i succeeded with
      ⟨-, here⟩ | ⟨-, here⟩ | ⟨-, here⟩ <;>
    · rw [here]
      exact nofun
  generalize found : Pc.decide .failed = next at edge
  cases edge with
  | start | clearOldStatus | casOwn => exact absurd found.symm (notInstall _)
  | targetClean | clearTarget => exact absurd found.symm (notTarget _)
  | loadVerdict | finalVolatile | finalClear => exact absurd found.symm (notFinal _ _)
  | @meetOther i rval met notConditional different =>
    rcases Pc.afterCondCAS_cases d (shared.desc d) i rval with ⟨-, next⟩ |
      ⟨-, -, -, next | next⟩ | ⟨-, notPointer, -⟩
    · exact absurd (next.symm.trans found.symm) (notInstall _)
    · cases found.trans next
    · cases found.trans next
    · subst met
      exact ⟨i, rfl, ⟨notPointer, notConditional⟩, different⟩
  | @resolveOther i ret desired flag met expected =>
    rcases Pc.afterCondCAS_cases d (shared.desc d) i
      (pool.mwCASPtr (pool.descriptorAt ret.rest) build.dirtyFlag) with ⟨-, next⟩ |
      ⟨-, -, -, next | next⟩ | ⟨-, notPointer, -⟩
    · exact absurd (next.symm.trans found.symm) (notInstall _)
    · cases found.trans next
    · cases found.trans next
    · cases notPointer
  | _ => cases found

/-- A value that is neither the old one nor the dirty old one is a different logical value. -/
theorem Shared.logical_ne_of_met {shared : Shared} {d i : Nat}
    (value : (shared.mem ((shared.desc d).words i).address).IsValue)
    (different : shared.mem ((shared.desc d).words i).address ≠ ((shared.desc d).words i).oldValue)
    (notDirty : shared.mem ((shared.desc d).words i).address ≠
      ((shared.desc d).words i).oldValue.setDirty) :
    shared.logical pool ((shared.desc d).words i).address ≠
      ((shared.desc d).words i).oldValue := by
  rw [Shared.logical_of_isValue value]
  intro same
  cases dirty : (shared.mem ((shared.desc d).words i).address).dirty with
  | true =>
    refine notDirty ?_
    rw [← same]
    exact Word.ext rfl rfl dirty rfl
  | false =>
    refine different ?_
    rw [← same]
    exact Word.ext rfl rfl dirty rfl

namespace Life

variable {run : Run (system .persistent pool)} {t d first last : Nat}
  (life : Life run t d first last) (recycles : run.Meets (RecyclesUnused pool))
  (meets : run.Meets NoDirtyOldValue)

include life recycles meets

/-- A thread that goes for Failed on an undecided operation has seen a different logical value. -/
theorem differs_of_decide_failed {index u calldepth : Nat} (after : first < index)
    (before : index ≤ last)
    (member : .mwCAS d calldepth (.decide .failed) ∈ (run.state index).threads u)
    (undecided : (run.state index).shared.code d = .undecided) :
    ∃ earlier, first < earlier ∧ earlier ≤ index ∧ (run.state earlier).shared.Differs pool d := by
  induction index, after using Nat.le_induction generalizing u calldepth with
  | base =>
    obtain ⟨filled, begun, idle, free⟩ := life.begun
    have unused := Shared.not_inUse_of_finished free
    have invariant := life.invariant_at recycles (Nat.le_of_lt life.before)
    have found : .mwCAS d calldepth (.decide .failed) ∈ (run.state (first + 1)).threads u := member
    rw [begun] at found
    rcases (mem_update_of_idle idle).mp found with ⟨-, same⟩ | old
    · cases same
    · exact absurd (invariant.frames u _ old).1 unused
  | succ index after inductionHypothesis =>
    have inside : index < run.length := Nat.lt_of_lt_of_le before life.inside
    have invariant := life.invariant_at recycles (Nat.le_of_lt before)
    have kept := life.kept index after before
    have used := life.inUse recycles after (Nat.le_of_lt before)
    have step : Step .persistent pool (run.state index) (run.action index) (run.state (index + 1)) :=
      run.steps index inside
    have undecidedBefore : (run.state index).shared.code d = .undecided := by
      rcases invariant.code_cases step used kept with same | ⟨wasUndecided, -⟩
      · exact same.symm.trans undecided
      · exact wasUndecided
    have earlier : ∀ {u calldepth : Nat},
        .mwCAS d calldepth (.decide .failed) ∈ (run.state index).threads u →
        ∃ earlier, first < earlier ∧ earlier ≤ index + 1 ∧
          (run.state earlier).shared.Differs pool d := by
      intro u calldepth old
      obtain ⟨earlier, afterFirst, beforeIndex, differs⟩ :=
        inductionHypothesis (Nat.le_of_lt before) old undecidedBefore
      exact ⟨earlier, afterFirst, Nat.le_succ_of_le beforeIndex, differs⟩
    have condition := meets index inside
    generalize run.action index = action at step condition
    generalize run.state (index + 1) = next at step member
    cases step with
    | @step _ v performed =>
      obtain ⟨frame, rest, move, step⟩ := invariant.threadStep performed
      rcases step.mem_after member with ⟨rfl, new⟩ | ⟨old, -⟩
      · have moves := step.moves
        cases moves with
        | @mwCAS own depth pc _ moves =>
          cases moves with
          | goto edge =>
            cases List.mem_singleton.mp new
            obtain ⟨i, rfl, value, different⟩ := edge.met_of_decide_failed
            have ok := invariant.frames u _ step.mem_top
            have notDirty := condition u rfl d calldepth i rest step.stack undecidedBefore
            exact ⟨index, after, Nat.le_succ index, i, ok.2,
              Shared.logical_ne_of_met value different notDirty⟩
          | help i rval =>
            rcases List.mem_cons.mp new with same | same
            · cases same
            · cases List.mem_singleton.mp same
          | ret => cases new
        | getValue moves =>
          cases moves with
          | help val =>
            rcases List.mem_cons.mp new with same | same
            · cases same
            · cases List.mem_singleton.mp same
          | ret => cases new
          | _ => cases List.mem_singleton.mp new
      · exact earlier old
    | mwCAS idle insidePool free valid added =>
      rcases (mem_update_of_idle idle).mp member with ⟨-, same⟩ | old
      · cases same
      · exact earlier old
    | getValue idle =>
      rcases (mem_update_of_idle idle).mp member with ⟨-, same⟩ | old
      · cases same
      · exact earlier old
    | writeBack | writeBackField | recycle => exact earlier member

/-- An operation that failed has met a different logical value in its life. -/
theorem differs_of_failed (failed : (run.state last).shared.code d = .failed) :
    ∃ earlier, first < earlier ∧ earlier ≤ last ∧ (run.state earlier).shared.Differs pool d := by
  have undecided : ¬ (run.state (first + 1)).shared.Decided d := by
    obtain ⟨filled, begun, -⟩ := life.begun
    rw [begun]
    unfold Shared.Decided
    rw [State.beginMwCAS_code_self]
    decide
  have decided : (run.state last).shared.Decided d := Or.inr failed
  obtain ⟨index, after, before, wasUndecided, isDecided⟩ :=
    exists_step_of_change (fun index => (run.state index).shared.Decided d)
      (Nat.succ_le_of_lt life.before) undecided decided
  have here := (life.inUse recycles after (Nat.le_of_lt before)).resolve_right wasUndecided
  have code : (run.state (index + 1)).shared.code d = .failed := by
    rw [← life.code_eq_of_decided recycles (Nat.lt_succ_of_lt after) before (Nat.le_refl last) isDecided]
    exact failed
  have invariant := life.invariant_at recycles (Nat.le_of_lt before)
  have kept := life.kept index after before
  have step : Step .persistent pool (run.state index) (run.action index) (run.state (index + 1)) :=
    run.steps index (Nat.lt_of_lt_of_le before life.inside)
  have member : ∃ u calldepth,
      .mwCAS d calldepth (.decide .failed) ∈ (run.state index).threads u := by
    generalize run.action index = action at step kept
    generalize run.state (index + 1) = next at step code
    cases step with
    | @step _ u performed =>
      obtain ⟨frame, rest, move, step⟩ := invariant.threadStep performed
      rcases step.effect.code_cases d with same | ⟨-, -, calldepth, rfl⟩
      · rw [same, here] at code
        cases code
      · have top := step.mem_top
        rw [code] at top
        exact ⟨u, calldepth, top⟩
    | @mwCAS u e requests filled idle inside free valid added =>
      have different : d ≠ e := by
        rintro rfl
        exact Shared.not_inUse_of_finished free (Or.inl here)
      rw [Shared.code, State.beginMwCAS_desc_of_ne different] at code
      rw [Shared.code, code] at here
      cases here
    | getValue | writeBack | writeBackField =>
      rw [Shared.code] at here
      cases here.symm.trans code
    | @recycle e pushed =>
      have different : d ≠ e := by
        rintro rfl
        exact kept rfl
      rw [Shared.code, State.recycle_desc_of_ne different] at code
      rw [Shared.code, code] at here
      cases here
  obtain ⟨u, calldepth, member⟩ := member
  obtain ⟨earlier, afterFirst, beforeIndex, differs⟩ :=
    life.differs_of_decide_failed recycles meets after (Nat.le_of_lt before) member here
  exact ⟨earlier, afterFirst, Nat.le_trans beforeIndex (Nat.le_of_lt before), differs⟩

end Life

/-- In every run in which no descriptor in use is recycled and no undecided operation meets its old
value with the dirty bit set, a call that returns `false` has a target word whose logical value
differed from its old value at some point of the call. -/
theorem differs_of_call_false {run : Run (system .persistent pool)}
    (recycles : run.Meets (RecyclesUnused pool)) (meets : run.Meets NoDirtyOldValue) {t d first last : Nat}
    (call : Call run t d first last false) :
    ∃ index, first < index ∧ index ≤ last ∧ ∃ i, i < ((run.state index).shared.desc d).count ∧
      (run.state index).shared.logical pool (((run.state index).shared.desc d).words i).address ≠
        (((run.state index).shared.desc d).words i).oldValue := by
  have member : .mwCAS d 0 (.ret false) ∈ (run.state last).threads t := by
    rw [call.returns.2]
    exact List.mem_singleton_self _
  have verdict : (run.state last).shared.Verdict d false :=
    ((invariant_of_run run recycles last (Nat.le_of_lt call.inside)).frames t _ member).2
  have failed : (run.state last).shared.code d = .failed := by
    rcases verdict.settled.decided with succeeded | failed
    · cases verdict.iff_succeeded.mpr succeeded
    · exact failed
  exact (call.life recycles).differs_of_failed recycles meets failed

/-- A test of the condition on the frame that performs the step. -/
def Frame.avoidsDirtyOldValue (shared : Shared) : Frame → Bool
  | .mwCAS d _ (.installCondCAS i) =>
    shared.mem ((shared.desc d).words i).address != ((shared.desc d).words i).oldValue.setDirty
  | _ => true

/-- A call in a replayed run. -/
theorem Call.of_replay {run : Run (system build pool)} {mem : Nat → Word} {actions : List Action}
    (length : run.length = actions.length)
    (states : ∀ index, replay (State.next build pool) (actions.take index) (.start mem) =
      some (run.state index))
    (acts : ∀ index, run.action index = actions.getD index default)
    {t d first last : Nat} {requests : List Request} {result : Bool}
    (begins : actions.getD first default = .mwCAS t d requests) (before : first < last)
    (inside : last < actions.length)
    (busy : ∀ index < last + 1, first < index →
      (replay (State.next build pool) (actions.take index) (.start mem)).any
        (fun state => state.threads t ≠ []) = true)
    (steps : actions.getD last default = .step t)
    (returns : (replay (State.next build pool) (actions.take last) (.start mem)).any
      (fun state => state.threads t = [.mwCAS d 0 (.ret result)]) = true) :
    Call run t d first last result where
  begins := ⟨requests, (acts first).trans begins⟩
  before := before
  inside := by rw [length]; exact inside
  busy index after before := by
    have passes := busy index (Nat.lt_succ_of_le before) after
    exact satisfies_of_replay (fun state => state.threads t ≠ []) (states index) passes
  returns := ⟨(acts last).trans steps,
    satisfies_of_replay (fun state => state.threads t = [.mwCAS d 0 (.ret result)]) (states last)
      returns⟩

/-- A call that expects 5 in a word that holds 1. -/
theorem differs_of_call_false_single : ∃ run : Run (system .persistent .small),
    run.Meets (RecyclesUnused .small) ∧ Call run 0 0 0 18 false ∧
    ∃ index, 0 < index ∧ index ≤ 18 ∧ ∃ i, i < ((run.state index).shared.desc 0).count ∧
      (run.state index).shared.logical .small (((run.state index).shared.desc 0).words i).address ≠
        (((run.state index).shared.desc 0).words i).oldValue := by
  obtain ⟨run, length, states, acts, passes⟩ := State.exists_solo_run .persistent .small
    (fun _ => .plain 1) (fun _ => rfl) [.change 8 5 2] 18
    (fun shared frame => frame.avoidsDirtyOldValue shared) (by decide +kernel) (by decide +kernel)
  have meets : run.Meets NoDirtyOldValue := by
    intro index inside t acts d calldepth i rest stack _ same
    have tested := passes index inside t acts _ rest stack
    simp [Frame.avoidsDirtyOldValue, same] at tested
  have call : Call run 0 0 0 18 false := .of_replay length states acts rfl (by decide) (by decide)
    (by decide +kernel) rfl (by decide +kernel)
  have recycles : run.Meets (RecyclesUnused .small) := recyclesUnused_of_actions acts (by decide)
  exact ⟨run, recycles, call, differs_of_call_false recycles meets call⟩

/-- Thread 0 changes a word from 1 to 2 and stops with the new value in place, still dirty. Thread
1 wants to change it from 2 to 3. -/
def spuriousFailure : List Action :=
  soloActions [.change 8 1 2] 17 ++ Action.mwCAS 1 1 [.change 8 2 3] :: List.replicate 18 (Action.step 1)

/-- The call of thread 1 fails, although the logical value of its word is the old one all the
time. -/
theorem exists_spurious_failure : ∃ run : Run (system .persistent .small),
    run.Meets (RecyclesUnused .small) ∧ Call run 1 1 18 36 false ∧
    ∀ index, 18 < index → index ≤ 36 → ∀ i, i < ((run.state index).shared.desc 1).count →
      (run.state index).shared.logical .small (((run.state index).shared.desc 1).words i).address =
        (((run.state index).shared.desc 1).words i).oldValue := by
  obtain ⟨run, length, states, acts⟩ := State.exists_run .persistent .small (fun _ => .plain 1)
    (fun _ => rfl) spuriousFailure (by decide +kernel)
  refine ⟨run, recyclesUnused_of_actions acts (by decide), .of_replay length states acts rfl
    (by decide) (by decide) (by decide +kernel) rfl (by decide +kernel), ?_⟩
  intro index after before
  have passes : ∀ index < 37, 18 < index → (replay (State.next .persistent .small)
      (spuriousFailure.take index) (.start fun _ => .plain 1)).any
      (fun state => ∀ i < (state.shared.desc 1).count,
        state.shared.logical .small ((state.shared.desc 1).words i).address =
          ((state.shared.desc 1).words i).oldValue) = true := by
    decide +kernel
  exact satisfies_of_replay _ (states index) (passes index (Nat.lt_succ_of_le before) after)

end Pmwcas
