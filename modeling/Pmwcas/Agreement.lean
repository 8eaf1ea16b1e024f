/-
This file follows one operation from `MwCAS()` to `FreeDescriptor`: all the calls on its
descriptor, by the owner and by helpers, agree on the verdict, and the owner alone pushes the
descriptor to the garbage list, once.
-/

import Pmwcas.Invariant

namespace Pmwcas

open Transition

variable {build : Build} {pool : Pool}

/-! ### The life of an operation -/

/-- Thread `t` calls `MwCAS()` on descriptor `d` in step `first` of the run, and the descriptor is
not recycled before state `last`. -/
structure Life (run : Run (system build pool)) (t d first last : Nat) : Prop where
  begins : ∃ requests, run.action first = .mwCAS t d requests
  before : first < last
  inside : last ≤ run.length
  kept : ∀ index, first < index → index < last → run.action index ≠ .recycle d

/-- Thread `u` pushes descriptor `d` to the garbage list in step `index` of the run. -/
def PushesAt (run : Run (system build pool)) (u d index : Nat) : Prop :=
  run.action index = .step u ∧
    ∃ calldepth rest, (run.state index).threads u = .mwCAS d calldepth .cleanupPush :: rest

/-- A call on descriptor `d` returns `result` in step `index` of the run. -/
def ReturnsAt (run : Run (system build pool)) (d index : Nat) (result : Bool) : Prop :=
  ∃ u, run.action index = .step u ∧
    ∃ calldepth rest, (run.state index).threads u = .mwCAS d calldepth (.ret result) :: rest

/-- Nothing but a `RAW_CHECK` stops a thread: no frame has failed one. -/
def State.NoCheckFailed (state : State) : Prop :=
  ∀ t, ∀ frame ∈ state.threads t, (∀ d calldepth check,
    frame ≠ .mwCAS d calldepth (.rawCheckFailed check)) ∧
    ∀ address check, frame ≠ .getValue address (.rawCheckFailed check)

theorem Invariant.noCheckFailed {state : State} (invariant : Invariant build pool state) :
    state.NoCheckFailed := by
  intro t frame member
  have ok := invariant.frames t frame member
  refine ⟨?_, ?_⟩
  · rintro d calldepth check rfl
    exact ok.2
  · rintro address check rfl
    exact ok

namespace Life

variable {run : Run (system build pool)} {t d first last : Nat} (life : Life run t d first last)

include life

/-- The state after the call of `MwCAS()`. -/
theorem begun : ∃ filled, run.state (first + 1) =
    (run.state first).beginMwCAS build t d filled ∧ (run.state first).threads t = [] ∧
      ((run.state first).shared.desc d).status = .of .finished := by
  obtain ⟨requests, begins⟩ := life.begins
  have step : Step build pool (run.state first) (run.action first) (run.state (first + 1)) :=
    run.steps first (Nat.lt_of_lt_of_le life.before life.inside)
  rw [begins] at step
  generalize run.state (first + 1) = after at step ⊢
  cases step with
  | mwCAS idle inside free valid added => exact ⟨_, rfl, idle, free⟩

variable (recycles : run.Meets (RecyclesUnused pool))

include recycles

/-- What the steps that do not recycle the descriptor keep holds to the end of its life. -/
theorem holds_later (Holds : State → Prop) {index later : Nat} (after : first < index)
    (order : index ≤ later) (before : later ≤ last) (holds : Holds (run.state index))
    (preserved : ∀ before action after, Invariant build pool before → Holds before →
      action ≠ .recycle d → Step build pool before action after → Holds after) :
    Holds (run.state later) := by
  have both := run.invariant_between
    (fun state action => RecyclesUnused pool state action ∧ action ≠ .recycle d)
    (fun state => Invariant build pool state ∧ Holds state) order
    (Nat.le_trans before life.inside)
    (fun between above below => ⟨recycles between (Nat.lt_of_lt_of_le below
        (Nat.le_trans before life.inside)),
      life.kept between (Nat.lt_of_lt_of_le after above) (Nat.lt_of_lt_of_le below before)⟩)
    ⟨invariant_of_run run recycles index
      (Nat.le_trans order (Nat.le_trans before life.inside)), holds⟩
    (fun _ _ _ both allowed step =>
      ⟨both.1.step allowed.1 step, preserved _ _ _ both.1 both.2 allowed.2 step⟩)
  exact both.2

theorem invariant_at {index : Nat} (before : index ≤ last) : Invariant build pool (run.state index) :=
  invariant_of_run run recycles index (Nat.le_trans before life.inside)

theorem inUse {index : Nat} (after : first < index) (before : index ≤ last) :
    (run.state index).shared.InUse d := by
  refine life.holds_later recycles (fun state => state.shared.InUse d) (Nat.lt_succ_self first) after before
    ?_ ?_
  · obtain ⟨filled, begun, -⟩ := life.begun
    rw [begun]
    unfold Shared.InUse
    rw [State.beginMwCAS_code_self]
    exact Or.inl rfl
  · intro _ _ _ invariant used kept step
    exact (invariant.laterAt step kept).inUse used

theorem code_eq_of_decided {index later : Nat} (after : first < index) (order : index ≤ later)
    (before : later ≤ last) (decided : (run.state index).shared.Decided d) :
    (run.state later).shared.code d = (run.state index).shared.code d := by
  refine life.holds_later recycles (fun state => state.shared.code d =
    (run.state index).shared.code d) after order before rfl ?_
  intro earlier _ _ invariant same kept step
  have stillDecided : earlier.shared.Decided d := by
    unfold Shared.Decided
    rw [same]
    exact decided
  exact ((invariant.laterAt step kept).code stillDecided).trans same

theorem settled {index later : Nat} (after : first < index) (order : index ≤ later)
    (before : later ≤ last) (settled : (run.state index).shared.Settled d) :
    (run.state later).shared.Settled d := by
  refine life.holds_later recycles (fun state => state.shared.Settled d) after order before settled ?_
  intro _ _ _ invariant holds kept step
  exact holds.later (invariant.laterAt step kept)

/-- The owner is the thread that called `MwCAS()`. -/
theorem owner {index u : Nat} {pc : Pc} (after : first < index) (before : index ≤ last)
    (member : .mwCAS d 0 pc ∈ (run.state index).threads u) : u = t := by
  refine life.holds_later recycles (fun state => state.shared.InUse d ∧
    ∀ u pc, .mwCAS d 0 pc ∈ state.threads u → u = t) (Nat.lt_succ_self first) after before
    ⟨life.inUse recycles (Nat.lt_succ_self first) life.before, ?_⟩ ?_ |>.2 u pc member
  · obtain ⟨filled, begun, idle, free⟩ := life.begun
    intro u pc member
    rw [begun] at member
    rcases (mem_update_of_idle idle).mp member with ⟨here, -⟩ | old
    · exact here
    · have used := ((life.invariant_at recycles (Nat.le_of_lt life.before)).frames u _ old).1
      exact absurd used (Shared.not_inUse_of_finished free)
  · intro _ _ _ invariant ⟨used, onlyOwner⟩ kept step
    refine ⟨(invariant.laterAt step kept).inUse used, ?_⟩
    intro u pc member
    cases step with
    | step performed =>
      obtain ⟨frame, rest, move, step⟩ := invariant.threadStep performed
      obtain ⟨source, old⟩ := step.owner_before member
      exact onlyOwner u source old
    | mwCAS idle inside free valid added =>
      rcases (mem_update_of_idle idle).mp member with ⟨-, same⟩ | old
      · cases same
        exact absurd used (Shared.not_inUse_of_finished free)
      · exact onlyOwner u pc old
    | getValue idle =>
      rcases (mem_update_of_idle idle).mp member with ⟨-, same⟩ | old
      · cases same
      · exact onlyOwner u pc old
    | writeBack | writeBackField | recycle => exact onlyOwner u pc member

/-- Once pushed the descriptor stays on the garbage list. -/
theorem mem_garbage {index later : Nat} (after : first < index) (order : index ≤ later)
    (before : later ≤ last) (member : d ∈ (run.state index).shared.garbage) :
    d ∈ (run.state later).shared.garbage := by
  refine life.holds_later recycles (fun state => d ∈ state.shared.garbage) after order before member ?_
  intro _ _ _ invariant member kept step
  cases step with
  | step performed =>
    obtain ⟨frame, rest, move, step⟩ := invariant.threadStep performed
    exact step.mem_garbage invariant member
  | mwCAS | getValue | writeBack | writeBackField => exact member
  | @recycle e pushed =>
    refine (List.mem_erase_of_ne ?_).mpr member
    rintro rfl
    exact kept rfl

end Life

/-! ### Agreement -/

/-- All calls on descriptor `d` in its life agree, and its owner, thread `t`, alone pushes it. -/
structure Agreement (run : Run (system build pool)) (t d first last : Nat) : Prop where
  /-- The status is Undecided and then, once and for all, Succeeded or Failed. -/
  verdict : ∃ verdict : StatusCode, verdict.Decided ∧ ∀ index, first < index → index ≤ last →
    ((run.state index).shared.code d = .undecided ∨ (run.state index).shared.code d = verdict) ∧
      ((run.state index).shared.code d = verdict → ∀ later, index ≤ later → later ≤ last →
        (run.state later).shared.code d = verdict)
  /-- The dirty bit is set by the decision only: once cleared it stays clear. -/
  clean : ∀ index later, first < index → index ≤ later → later ≤ last →
    (run.state index).shared.Decided d → ((run.state index).shared.desc d).status.dirty = false →
    ((run.state later).shared.desc d).status.dirty = false
  /-- Every call that returns, of the owner or of a helper, reports the verdict. -/
  returns : ∀ index result, first < index → index < last → ReturnsAt run d index result →
    (run.state last).shared.Decided d ∧
      (result = true ↔ (run.state last).shared.code d = .succeeded)
  /-- No check fails. -/
  checks : ∀ index, first < index → index ≤ last → (run.state index).NoCheckFailed
  /-- Only the owner pushes, and it pushes once. -/
  pusher : ∀ index u, first < index → index < last → PushesAt run u d index → u = t
  once : ∀ index later, first < index → index < last → first < later → later < last →
    PushesAt run t d index → PushesAt run t d later → index = later
  /-- When the call of the owner has returned, the descriptor has been pushed. -/
  pushes : (∀ pc, .mwCAS d 0 pc ∉ (run.state last).threads t) →
    ∃ index, first < index ∧ index < last ∧ PushesAt run t d index

namespace Life

variable {run : Run (system build pool)} {t d first last : Nat} (life : Life run t d first last)
  (recycles : run.Meets (RecyclesUnused pool))

include life recycles

theorem exists_verdict : ∃ verdict : StatusCode, verdict.Decided ∧
    ∀ index, first < index → index ≤ last →
      ((run.state index).shared.code d = .undecided ∨ (run.state index).shared.code d = verdict) ∧
        ((run.state index).shared.code d = verdict → ∀ later, index ≤ later → later ≤ last →
          (run.state later).shared.code d = verdict) := by
  rcases life.inUse recycles life.before (Nat.le_refl last) with undecided | decided
  · -- nothing was decided on the way, or it would still stand
    refine ⟨.succeeded, Or.inl rfl, ?_⟩
    intro index after before
    have notDecided : ¬ (run.state index).shared.Decided d := by
      intro decided
      have same := life.code_eq_of_decided recycles after before (Nat.le_refl last) decided
      exact decided.ne_undecided (same.symm.trans undecided)
    have here := (life.inUse recycles after before).resolve_right notDecided
    refine ⟨Or.inl here, ?_⟩
    intro succeeded
    rw [here] at succeeded
    cases succeeded
  · refine ⟨(run.state last).shared.code d, decided, ?_⟩
    intro index after before
    refine ⟨?_, ?_⟩
    · rcases life.inUse recycles after before with undecided | decidedHere
      · exact Or.inl undecided
      · exact Or.inr (life.code_eq_of_decided recycles after before (Nat.le_refl last) decidedHere).symm
    · intro same later order inside
      have decidedHere : (run.state index).shared.Decided d := by
        unfold Shared.Decided
        rw [same]
        exact decided
      exact (life.code_eq_of_decided recycles after order inside decidedHere).trans same

theorem not_mem_garbage_of_pushesAt {u index : Nat} (before : index < last)
    (pushes : PushesAt run u d index) : d ∉ (run.state index).shared.garbage := by
  obtain ⟨-, calldepth, rest, stack⟩ := pushes
  have invariant := life.invariant_at recycles (Nat.le_of_lt before)
  have member : .mwCAS d calldepth .cleanupPush ∈ (run.state index).threads u := by
    rw [stack]
    exact List.mem_cons_self
  have owner : calldepth = 0 := (invariant.depths u _ member).1 trivial
  subst owner
  intro garbage
  exact (invariant.pushed u d _ member).mp garbage

/-- The step in which a descriptor gets to the garbage list is a push of it. -/
theorem mem_garbage_succ_iff {index : Nat} (after : first < index) (before : index < last)
    (absent : d ∉ (run.state index).shared.garbage) :
    d ∈ (run.state (index + 1)).shared.garbage ↔ PushesAt run t d index := by
  have invariant := life.invariant_at recycles (Nat.le_of_lt before)
  have kept := life.kept index after before
  have step : Step build pool (run.state index) (run.action index) (run.state (index + 1)) :=
    run.steps index (Nat.lt_of_lt_of_le before life.inside)
  unfold PushesAt
  generalize run.action index = action at step kept ⊢
  generalize reached : run.state (index + 1) = next at step ⊢
  cases step with
  | @step _ u performed =>
    obtain ⟨frame, rest, move, step⟩ := invariant.threadStep performed
    rcases step.garbage_cases invariant with ⟨same, notPush⟩ | ⟨e, rfl, -, grown⟩
    · rw [same]
      refine ⟨fun member => absurd member absent, ?_⟩
      rintro ⟨sameThread, calldepth, below, stack⟩
      cases sameThread
      rw [step.stack] at stack
      cases stack
      exact absurd rfl (notPush d calldepth)
    · rw [grown, List.mem_cons]
      constructor
      · rintro (rfl | member)
        · have same := life.owner recycles after (Nat.le_of_lt before) step.mem_top
          exact ⟨by rw [same], 0, rest, by rw [← same]; exact step.stack⟩
        · exact absurd member absent
      · rintro ⟨sameThread, calldepth, below, stack⟩
        cases sameThread
        rw [step.stack] at stack
        cases stack
        exact Or.inl rfl
  | mwCAS | getValue | writeBack | writeBackField =>
    exact ⟨fun member => absurd member absent, fun pushes => by cases pushes.1⟩
  | @recycle e pushed =>
    exact ⟨fun member => absurd (List.mem_of_mem_erase member) absent,
      fun pushes => by cases pushes.1⟩

theorem push_once {index later : Nat} (after : first < index) (before : later < last)
    (order : index < later) (pushes : PushesAt run t d index) : ¬ PushesAt run t d later := by
  intro again
  have absent := life.not_mem_garbage_of_pushesAt recycles (Nat.lt_trans order before) pushes
  have member := (life.mem_garbage_succ_iff recycles after (Nat.lt_trans order before) absent).mpr pushes
  exact life.not_mem_garbage_of_pushesAt recycles before again
    (life.mem_garbage recycles (Nat.lt_succ_of_lt after) order (Nat.le_of_lt before) member)

theorem exists_push (returned : ∀ pc, .mwCAS d 0 pc ∉ (run.state last).threads t) :
    ∃ index, first < index ∧ index < last ∧ PushesAt run t d index := by
  have absent : d ∉ (run.state (first + 1)).shared.garbage := by
    obtain ⟨filled, begun, idle, free⟩ := life.begun
    rw [begun]
    intro member
    exact Shared.not_inUse_of_finished free
      ((life.invariant_at recycles (Nat.le_of_lt life.before)).garbage_inUse d member)
  have present : d ∈ (run.state last).shared.garbage := by
    by_contra notPushed
    obtain ⟨u, pc, member⟩ := (life.invariant_at recycles (Nat.le_refl last)).owned d
      (life.inUse recycles life.before (Nat.le_refl last)) notPushed
    have same := life.owner recycles life.before (Nat.le_refl last) member
    subst same
    exact returned pc member
  obtain ⟨index, after, before, absentHere, presentNext⟩ :=
    exists_step_of_change (fun index => d ∈ (run.state index).shared.garbage)
      (Nat.succ_le_of_lt life.before) absent present
  exact ⟨index, after, before, (life.mem_garbage_succ_iff recycles after before absentHere).mp presentNext⟩

end Life

/-- In every run that recycles no descriptor in use, from `MwCAS()` to `FreeDescriptor` all calls on
a descriptor agree on the verdict, no check fails, and the owner pushes the descriptor once. -/
theorem agreement_of_life {run : Run (system .persistent pool)}
    (recycles : run.Meets (RecyclesUnused pool)) {t d first last : Nat}
    (life : Life run t d first last) : Agreement run t d first last where
  verdict := life.exists_verdict recycles
  clean index later after order before decided clean :=
    (life.settled recycles after order before ⟨decided, clean⟩).clean
  returns index result after before returned := by
    obtain ⟨u, -, calldepth, rest, stack⟩ := returned
    have member : .mwCAS d calldepth (.ret result) ∈ (run.state index).threads u := by
      rw [stack]
      exact List.mem_cons_self
    have verdict : (run.state index).shared.Verdict d result :=
      ((life.invariant_at recycles (Nat.le_of_lt before)).frames u _ member).2
    have same := life.code_eq_of_decided recycles after (Nat.le_of_lt before) (Nat.le_refl last)
      verdict.settled.decided
    refine ⟨(life.settled recycles after (Nat.le_of_lt before) (Nat.le_refl last) verdict.settled).decided,
      ?_⟩
    rw [same]
    exact verdict.iff_succeeded
  checks index _ before := (life.invariant_at recycles before).noCheckFailed
  pusher index u after before pushes := by
    obtain ⟨-, calldepth, rest, stack⟩ := pushes
    have invariant := life.invariant_at recycles (Nat.le_of_lt before)
    have member : .mwCAS d calldepth .cleanupPush ∈ (run.state index).threads u := by
      rw [stack]
      exact List.mem_cons_self
    have owner : calldepth = 0 := (invariant.depths u _ member).1 trivial
    subst owner
    exact life.owner recycles after (Nat.le_of_lt before) member
  once index later after before afterLater beforeLater pushes again := by
    rcases Nat.lt_trichotomy index later with order | same | order
    · exact absurd again (life.push_once recycles after beforeLater order pushes)
    · exact same
    · exact absurd pushes (life.push_once recycles afterLater before order again)
  pushes := life.exists_push recycles

/-- An operation on one word, from its call to the recycling of its descriptor. -/
theorem agreement_of_life_single : ∃ run : Run (system .persistent .small),
    run.Meets (RecyclesUnused .small) ∧ Life run 0 0 0 26 ∧ run.action 26 = .recycle 0 ∧
      (∀ pc, .mwCAS 0 0 pc ∉ (run.state 26).threads 0) ∧ Agreement run 0 0 0 26 := by
  obtain ⟨run, length, states, actions⟩ := State.exists_run .persistent .small
    (fun _ => .plain 1) (fun _ => rfl) (soloActions [.change 8 1 2] 25 ++ [Action.recycle 0])
    (by decide +kernel)
  have recycles : run.Meets (RecyclesUnused .small) :=
    recyclesUnused_of_idle length states actions 1 (by decide) (by decide +kernel)
  have life : Life run 0 0 0 26 := by
    refine ⟨⟨[.change 8 1 2], ?_⟩, by decide, ?_, ?_⟩
    · rw [actions]
      rfl
    · rw [length]
      decide
    · intro index _ before
      have others : ∀ index < 26, (soloActions [.change 8 1 2] 25 ++ [Action.recycle 0]).getD index
          default ≠ .recycle 0 := by decide
      rw [actions]
      exact others index before
  have returned := satisfies_of_replay (fun state => state.threads 0 = []) (states 26)
    (by decide +kernel)
  refine ⟨run, recycles, life, (actions 26).trans rfl, ?_, agreement_of_life recycles life⟩
  intro pc member
  rw [returned] at member
  cases member

/-! ### A late reader -/

/-- The frame is a call of `MwCAS()` or of a helper on descriptor `d`. -/
def Frame.runsOn (d : Nat) : Frame → Bool
  | .mwCAS own _ _ => own == d
  | .getValue _ _ => false

/-- The recycling of descriptor `d` in step `index` is one that the garbage list allows: the owner
has pushed the descriptor, every thread that was inside a call when it did so has left the call
since, and no thread runs on the descriptor. -/
structure EpochsAllow (run : Run (system build pool)) (d index : Nat) : Prop where
  left : ∃ push u, push < index ∧ PushesAt run u d push ∧
    ∀ t, (run.state push).threads t ≠ [] →
      ∃ idle, push < idle ∧ idle ≤ index ∧ (run.state idle).threads t = []
  nobody : ∀ t, ∀ frame ∈ (run.state index).threads t, frame.runsOn d = false

/-- Every recycling of the run is one that the garbage list allows. -/
def RespectsEpochs (run : Run (system build pool)) : Prop :=
  ∀ index d, index < run.length → run.action index = .recycle d → EpochsAllow run d index

/-- A run with one recycling, in step `index`. The first `early` threads alone act before the push of
the descriptor and are idle at the recycling, and the first `threads` threads alone act before the
recycling. -/
theorem respectsEpochs_of_replay {run : Run (system build pool)} {mem : Nat → Word}
    {actions : List Action} (length : run.length = actions.length)
    (states : ∀ index, replay (State.next build pool) (actions.take index) (.start mem) =
      some (run.state index))
    (acts : ∀ index, run.action index = actions.getD index default)
    (d u push index early threads : Nat) (before : push < index) (inside : index < actions.length)
    (pushing : actions.getD push default = .step u)
    (pushed : (replay (State.next build pool) (actions.take push) (.start mem)).any
      (fun state => state.threads u = [.mwCAS d 0 .cleanupPush]) = true)
    (recycles : ∀ step < actions.length, (actions.getD step default).recycles = true →
      step = index)
    (recycled : actions.getD index default = .recycle d)
    (few : ∀ step < push, ∀ t ∈ (actions.getD step default).thread, t < early)
    (some_ : ∀ step < index, ∀ t ∈ (actions.getD step default).thread, t < threads)
    (idle : (replay (State.next build pool) (actions.take index) (.start mem)).any
      (fun state => ∀ t < early, state.threads t = []) = true)
    (nobody : (replay (State.next build pool) (actions.take index) (.start mem)).any
      (fun state => ∀ t < threads, ∀ frame ∈ state.threads t, frame.runsOn d = false) = true) :
    RespectsEpochs run := by
  intro step e insideStep recyclesHere
  rw [acts step] at recyclesHere
  have same : step = index := by
    rw [length] at insideStep
    refine recycles step insideStep ?_
    rw [recyclesHere]
    rfl
  subst same
  rw [recycled] at recyclesHere
  cases recyclesHere
  have insideRun := Nat.le_of_lt insideStep
  have idle := satisfies_of_replay (fun state => ∀ t < early, state.threads t = []) (states step) idle
  have nobody := satisfies_of_replay (fun state => ∀ t < threads, ∀ frame ∈ state.threads t,
    frame.runsOn d = false) (states step) nobody
  refine ⟨⟨push, u, before, ⟨(acts push).trans pushing, 0, [], ?_⟩, ?_⟩, ?_⟩
  · exact satisfies_of_replay (fun state => state.threads u = [.mwCAS d 0 .cleanupPush])
      (states push) pushed
  · intro t busy
    refine ⟨step, before, Nat.le_refl step, idle t ?_⟩
    by_contra late
    exact busy (threads_eq_nil_of_bound (Nat.le_trans (Nat.le_of_lt before) insideRun) acts few late)
  · intro t frame member
    by_cases acting : t < threads
    · exact nobody t acting frame member
    · rw [threads_eq_nil_of_bound insideRun acts some_ acting] at member
      cases member

/-- Thread 0 operates on words 8, 16 and 24, finds another value in word 24 and pushes its
descriptor. Helpers 1 and 2, delayed inside `CondCAS` for word 16, put its pointer there once more,
reader 3 loads it, and the helpers take it out and leave. The descriptor is recycled, reader 3
helps on and stops before its store of `status_ &= ~kStatusDirtyFlag`, and thread 0 has used the
descriptor for word 32 and found its new operation Succeeded when the store is performed. -/
def lateReader : List Action :=
  Action.mwCAS 0 0 [.change 8 1 2, .change 16 1 2, .change 24 5 6] ::
      List.replicate 6 (Action.step 0) ++
    Action.getValue 1 8 :: List.replicate 8 (Action.step 1) ++
    Action.getValue 2 8 :: List.replicate 4 (Action.step 2) ++
    List.replicate 27 (Action.step 0) ++ [Action.step 2, Action.step 1] ++
    Action.getValue 3 16 :: List.replicate 3 (Action.step 3) ++
    List.replicate 20 (Action.step 1) ++ List.replicate 21 (Action.step 2) ++
    Action.recycle 0 :: List.replicate 6 (Action.step 3) ++
    Action.mwCAS 0 0 [.change 32 1 2] :: List.replicate 15 (Action.step 0) ++
    Action.step 3 :: List.replicate 7 (Action.step 0)

/-- The store of the late reader turns Succeeded into Finished, and a check of `Cleanup` fails. -/
theorem exists_late_reader : ∃ run : Run (system .persistent .small), RespectsEpochs run ∧
    Life run 0 0 102 126 ∧ ¬ Agreement run 0 0 102 126 := by
  obtain ⟨run, length, states, acts⟩ := State.exists_run .persistent .small (fun _ => .plain 1)
    (fun _ => rfl) lateReader (by decide +kernel)
  refine ⟨run, ?_, ?_, ?_⟩
  · exact respectsEpochs_of_replay length states acts 0 0 45 95 3 4 (by decide)
      (by decide +kernel) rfl (by decide +kernel) (by decide +kernel) rfl (by decide +kernel)
      (by decide +kernel) (by decide +kernel) (by decide +kernel)
  · refine ⟨⟨[.change 32 1 2], (acts 102).trans rfl⟩, by decide,
      by rw [length]; decide +kernel, ?_⟩
    intro index after before recycles
    have others : ∀ index < 126, 102 < index → lateReader.getD index default ≠ .recycle 0 := by
      decide +kernel
    rw [acts index] at recycles
    exact others index before after recycles
  · intro agreement
    have failed := satisfies_of_replay (fun state => state.threads 0 =
      [.mwCAS 0 0 (.rawCheckFailed .invalidStatus)]) (states 126) (by decide +kernel)
    have checks := agreement.checks 126 (by decide) (Nat.le_refl 126) 0
      (.mwCAS 0 0 (.rawCheckFailed .invalidStatus))
    rw [failed] at checks
    exact (checks (List.mem_singleton_self _)).1 0 0 .invalidStatus rfl

end Pmwcas
