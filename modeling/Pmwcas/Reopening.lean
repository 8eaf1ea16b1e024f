/-
This file asks whether a pool can be opened again after a crash in which every store survives. The
image of a state is well formed as long as no target word of a Succeeded descriptor holds the
CondCAS pointer of its entry, and a well-formed image is one that recovery accepts.

Such a pointer comes from one place: the exchange with which a delayed helper installs a CondCAS
pointer for an operation that has succeeded in the meantime, when the word has its old value
again. `exists_unopenable_pool` is that run.
-/

import Pmwcas.Atomicity
import Pmwcas.RecoveryCorrectness

namespace Pmwcas

open Transition

variable {build : Build} {pool : Pool}

/-! ### Values that are no addresses of the pool -/

/-- No value in a target word or in an entry is the address of a descriptor or of a word
descriptor. -/
structure State.Foreign (pool : Pool) (state : State) : Prop where
  words : ∀ address, (state.shared.mem address).IsValue → pool.Foreign (state.shared.mem address)
  entries : ∀ d, state.shared.InUse d → ∀ i, i < (state.shared.desc d).count →
    pool.Foreign ((state.shared.desc d).words i).oldValue ∧
    pool.Foreign ((state.shared.desc d).words i).newValue

/-- The values an operation is called with are no addresses of the pool. -/
def ForeignRequests (pool : Pool) (action : Action) : Prop :=
  ∀ t d requests, action = .mwCAS t d requests → ∀ request ∈ requests,
    pool.Foreign request.oldValue ∧ pool.Foreign request.newValue

theorem Pool.Foreign.of_rest_eq {first second : Word} (foreign : pool.Foreign first)
    (same : second.rest = first.rest) : pool.Foreign second := by
  unfold Pool.Foreign
  rw [same]
  exact foreign

theorem WordChange.foreign {state : State} {frame : Frame} {address : Nat} {word : Word}
    (change : WordChange build pool state.shared frame address word) (foreign : state.Foreign pool)
    (value : word.IsValue) : pool.Foreign word := by
  cases change with
  | same => exact foreign.words address value
  | install => exact absurd value (pool.condCASPtr_not_isValue _ _)
  | promote => exact absurd value (pool.mwCASPtr_not_isValue _ _)
  | revert lists holds decided => exact (foreign.entries _ lists.inUse _ lists.inside).1
  | clearDirty dirty clears => exact (foreign.words address value).of_rest_eq rfl
  | @finalise d i dirty succeeded lists holds verdict finalises =>
    have entries := foreign.entries _ lists.inUse _ lists.inside
    cases succeeded with
    | true => exact entries.2.of_rest_eq rfl
    | false => exact entries.1.of_rest_eq rfl

theorem State.Foreign.step {before after : State} {action : Action}
    (foreign : before.Foreign pool) (invariant : Invariant build pool before)
    (requested : ForeignRequests pool action) (step : Step build pool before action after) :
    after.Foreign pool := by
  cases step with
  | step performed =>
    obtain ⟨frame, rest, move, step⟩ := invariant.threadStep performed
    have effect := step.effect
    refine ⟨?_, ?_⟩
    · intro address value
      exact (effect.wordChange address).foreign foreign value
    · intro d used i inside
      rw [effect.count_eq d] at inside
      rw [effect.words_eq d]
      exact foreign.entries d ((effect.inUse_iff d).mp used) i inside
  | @mwCAS t d requests filled idle inside free valid added =>
    refine ⟨foreign.words, ?_⟩
    intro e used i entry
    by_cases same : e = d
    · subst same
      have unused := Shared.not_inUse_of_finished free
      have holds := Descriptor.addEntries_filledWith
        (Descriptor.filledWith_nil (pool.descriptorAddress e)
          (invariant.descriptors.fresh e unused).1) added
      rw [State.beginMwCAS_desc_self] at entry ⊢
      obtain ⟨request, member, here⟩ := holds.entries i entry
      show pool.Foreign (filled.words i).oldValue ∧ pool.Foreign (filled.words i).newValue
      rw [here]
      exact requested t e requests rfl request member
    · rw [State.beginMwCAS_desc_of_ne same] at entry ⊢
      refine foreign.entries e ?_ i entry
      unfold Shared.InUse Shared.code at used
      rw [State.beginMwCAS_desc_of_ne same] at used
      exact used
  | getValue | writeBack | writeBackField => exact ⟨foreign.words, foreign.entries⟩
  | @recycle d pushed =>
    refine ⟨foreign.words, ?_⟩
    intro e used i entry
    have same : e ≠ d := by
      rintro rfl
      exact State.recycle_not_inUse used
    rw [State.recycle_desc_of_ne same] at entry ⊢
    refine foreign.entries e ?_ i entry
    unfold Shared.InUse Shared.code at used
    rw [State.recycle_desc_of_ne same] at used
    exact used

theorem State.Foreign.noBareAddress {state : State} {action : Action}
    (foreign : state.Foreign pool) (invariant : Invariant build pool state) :
    NoBareAddress build pool state action := by
  intro t acts frame rest stack
  cases frame with
  | mwCAS d calldepth pc =>
    cases pc with
    | installCondCAS i =>
      intro _ undecided value _
      have inside := (invariant.descriptors.entries d (Or.inl undecided)).inside
      exact (foreign.words _ value d inside).1
    | _ => trivial
  | getValue address pc => trivial

/-! ### Pointers of operations that have succeeded -/

/-- No target word of a Succeeded descriptor holds the CondCAS pointer of its entry. -/
def Shared.NoLatePointer (pool : Pool) (shared : Shared) : Prop :=
  ∀ d, shared.code d = .succeeded → ∀ i, i < (shared.desc d).count →
    shared.mem ((shared.desc d).words i).address ≠ pool.condCASPtr d i

/-- The step does not install the CondCAS pointer of an operation that has succeeded. -/
def NoLateInstall (state : State) (action : Action) : Prop :=
  ∀ t, action = .step t → ∀ d calldepth i rest,
    state.threads t = .mwCAS d calldepth (.installCondCAS i) :: rest →
    state.shared.code d = .succeeded →
    state.shared.mem ((state.shared.desc d).words i).address ≠
      ((state.shared.desc d).words i).oldValue

theorem ThreadStep.noLatePointer {before after : State} {t : Nat} {frame : Frame}
    {rest : List Frame} {move : Move} (step : ThreadStep build pool before t frame rest move after)
    (invariant : Invariant build pool before) (installed : before.Installed pool)
    (late : before.shared.NoLatePointer pool) (allowed : NoLateInstall before (.step t)) :
    after.shared.NoLatePointer pool := by
  intro d succeeded i inside pointer
  have effect := step.effect
  rw [effect.count_eq d] at inside
  rw [effect.words_eq d] at pointer
  have change := effect.wordChange ((before.shared.desc d).words i).address
  have used : before.shared.InUse d :=
    (effect.inUse_iff d).mp (Shared.Decided.inUse (Or.inl succeeded))
  have room := Nat.lt_of_lt_of_le inside (invariant.descriptors.entries d used).count_le
  rw [pointer] at change
  have origin := change.condCASPtr_origin room invariant.descriptors invariant.words
  rcases effect.code_cases d with same | ⟨undecided, -, calldepth, decides⟩
  · rw [succeeded] at same
    rcases origin with there | ⟨calldepth, here, -, holds⟩
    · exact late d same.symm i inside there
    · subst here
      exact allowed t rfl d calldepth i rest step.stack same.symm holds
  · -- the decision finds the MwCAS pointer in every word
    rw [succeeded] at decides
    subst decides
    rcases origin with there | ⟨_, impossible, -⟩
    · have facts : PcInstalled pool before.shared d (.decide .succeeded) :=
        installed t _ step.mem_top
      obtain ⟨dirty, installed⟩ := facts.below undecided i inside
      exact pool.mwCASPtr_ne_condCASPtr d d i dirty (installed.symm.trans there)
    · cases impossible

theorem Shared.NoLatePointer.step {before after : State} {action : Action}
    (late : before.shared.NoLatePointer pool) (invariant : Invariant build pool before)
    (installed : before.Installed pool) (allowed : NoLateInstall before action)
    (step : Step build pool before action after) : after.shared.NoLatePointer pool := by
  cases step with
  | step performed =>
    obtain ⟨frame, rest, move, step⟩ := invariant.threadStep performed
    exact step.noLatePointer invariant installed late allowed
  | @mwCAS t d requests filled idle inside free valid added =>
    intro e succeeded i entry
    by_cases same : e = d
    · subst same
      rw [State.beginMwCAS_code_self] at succeeded
      cases succeeded
    · rw [Shared.code, State.beginMwCAS_desc_of_ne same] at succeeded
      rw [State.beginMwCAS_desc_of_ne same] at entry ⊢
      exact late e succeeded i entry
  | getValue | writeBack | writeBackField => exact late
  | @recycle d pushed =>
    intro e succeeded i entry
    by_cases same : e = d
    · subst same
      rw [Shared.code, State.recycle_desc_self] at succeeded
      cases succeeded
    · rw [Shared.code, State.recycle_desc_of_ne same] at succeeded
      rw [State.recycle_desc_of_ne same] at entry ⊢
      exact late e succeeded i entry

/-! ### The image of a state -/

/-- What a crash leaves in which every store survives. -/
def State.image (pool : Pool) (state : State) : Image where
  metadata := pool.metadata
  mem := state.shared.mem
  desc := state.shared.desc

theorem Invariant.image_lists {state : State} (invariant : Invariant build pool state)
    {d i address : Nat} (lists : state.shared.Lists d i address) :
    (state.image pool).Lists pool d i address :=
  ⟨(invariant.descriptors.entries d lists.inUse).inside, lists.inUse, lists.inside,
    lists.address_eq⟩

theorem Invariant.image_wellFormed {state : State} (invariant : Invariant build pool state)
    (foreign : state.Foreign pool) (late : state.shared.NoLatePointer pool) :
    (state.image pool).WellFormed pool where
  valid d _ invalid := by
    have unused : ¬ state.shared.InUse d := by
      intro used
      rw [Shared.InUse, show state.shared.code d = .invalid from invalid] at used
      exact absurd used (by decide)
    have finished := (invariant.descriptors.fresh d unused).2
    cases finished.symm.trans invalid
  count_le d _ used := (invariant.descriptors.entries d used).count_le
  distinct d i j address first second :=
    (invariant.descriptors.entries d first.unfinished).eq_of_address_eq first.entry second.entry
      (first.address_eq.trans second.address_eq.symm)
  entries d i address lists :=
    have entries := invariant.descriptors.entries d lists.unfinished
    have foreign := foreign.entries d lists.unfinished i lists.entry
    ⟨entries.address_ne i lists.entry, ⟨entries.oldValue i lists.entry, foreign.1⟩,
      ⟨entries.newValue i lists.entry, foreign.2⟩⟩
  words address := by
    show (state.image pool).WordForm pool address (state.shared.mem address)
    rcases (invariant.words address).form with value | reference | ⟨pointer, i, lists⟩
    · exact .value value (foreign.words address value)
    · have lists := reference.2
      have pointer := reference.1
      rw [pointer]
      refine .condCAS (pool.condCASPtr_not_isValue _ _) rfl (invariant.image_lists lists) ?_
      intro succeeded
      refine late _ succeeded _ lists.inside ?_
      rw [lists.address_eq]
      exact pointer
    · rw [pointer]
      exact .mwCAS (pool.mwCASPtr_not_isValue _ _) rfl (invariant.image_lists lists)

/-- Recovery makes the logical value of every word its value. -/
theorem Invariant.recovered_eq_logical {state : State} (invariant : Invariant build pool state)
    (ok : (state.image pool).WellFormed pool) (address : Nat) :
    ((state.image pool).recovered pool address).clearDirty = state.shared.logical pool address := by
  show ((state.image pool).recoveredWord pool address (state.shared.mem address)).clearDirty = _
  rcases (invariant.words address).form with value | reference | ⟨pointer, i, lists⟩
  · rw [Shared.logical_of_isValue value, Image.recoveredWord_value value]
    split <;> rfl
  · obtain ⟨pointer, lists⟩ := reference
    generalize pool.descriptorAt (state.shared.mem address).rest = d at pointer lists
    generalize pool.wordAt (state.shared.mem address).rest = i at pointer lists
    have entries := invariant.descriptors.entries d lists.inUse
    have room := Nat.lt_of_lt_of_le lists.inside entries.count_le
    rw [Shared.logical_of_condCASPtr room pointer, pointer,
      Image.recoveredWord_condCAS _ room (pool.condCASPtr_not_isValue _ _) rfl]
    exact Word.clearDirty_of_isCleanPtr (entries.oldValue i lists.inside)
  · generalize pool.descriptorAt (state.shared.mem address).rest = d at pointer lists
    have entries := invariant.descriptors.entries d lists.inUse
    rw [Shared.logical_of_mwCASPtr entries lists pointer, pointer,
      ok.recoveredWord_mwCAS (pool.mwCASPtr_not_isValue _ _) rfl (invariant.image_lists lists)]
    exact Word.clearDirty_of_isCleanPtr (entries.finalValue_clean lists.inside _)

/-! ### Runs -/

/-- What the steps of a run must meet for its states to be reopened. -/
def ReopeningCondition (pool : Pool) (state : State) (action : Action) : Prop :=
  ForeignRequests pool action ∧ NoLateInstall state action

/-- What holds in every state of such a run. -/
structure Reopenable (pool : Pool) (state : State) : Prop where
  invariant : Invariant .persistent pool state
  installed : state.Installed pool
  foreign : state.Foreign pool
  late : state.shared.NoLatePointer pool

theorem Reopenable.step {before after : State} {action : Action}
    (reopenable : Reopenable pool before) (recycles : RecyclesUnused pool before action)
    (allowed : ReopeningCondition pool before action)
    (step : Step .persistent pool before action after) : Reopenable pool after where
  invariant := reopenable.invariant.step recycles step
  installed := reopenable.installed.step reopenable.invariant recycles
    (reopenable.foreign.noBareAddress reopenable.invariant) step
  foreign := reopenable.foreign.step reopenable.invariant allowed.1 step
  late := reopenable.late.step reopenable.invariant reopenable.installed allowed.2 step

theorem Initial.reopenable {state : State} (initial : Initial .persistent state)
    (foreign : ∀ address, pool.Foreign (state.shared.mem address)) : Reopenable pool state where
  invariant := initial.invariant
  installed t frame member := by
    rw [initial.idle t] at member
    cases member
  foreign := by
    refine ⟨fun address _ => foreign address, ?_⟩
    intro d used
    refine absurd used (Shared.not_inUse_of_finished ?_)
    rw [initial.fresh d]
    rfl
  late d succeeded := by
    rw [Shared.code, initial.fresh d] at succeeded
    cases succeeded

/-- In every run on values that are no addresses of the pool in which no descriptor in use is
recycled and no step installs the CondCAS pointer of an operation that has succeeded, no state has a
Succeeded descriptor with its CondCAS pointer in a target word, and the constructor opens the image
of every state and leaves the logical values. -/
theorem reopens_of_run (run : Run (system .persistent pool))
    (recycles : run.Meets (RecyclesUnused pool))
    (foreign : ∀ address, pool.Foreign ((run.state 0).shared.mem address))
    (meets : run.Meets (ReopeningCondition pool)) (partitionCount : Nat)
    (partitions : partitionCount < pool.size) (index : Nat) (inside : index ≤ run.length) :
    (∀ d, (run.state index).shared.code d = .succeeded →
      ∀ i, i < ((run.state index).shared.desc d).count →
        (run.state index).shared.mem (((run.state index).shared.desc d).words i).address ≠
          pool.condCASPtr d i) ∧
    ∃ final, (descriptorPool pool partitionCount).run ((run.state index).image pool) =
        .ok final ∧
      ∀ address, (final.mem address).clearDirty = (run.state index).shared.logical pool address := by
  have reopenable : Reopenable pool (run.state index) :=
    run.invariant_between
      (fun state action => RecyclesUnused pool state action ∧ ReopeningCondition pool state action)
      (Reopenable pool) (Nat.zero_le index) inside
      (fun earlier _ below => recycles.and meets earlier (Nat.lt_of_lt_of_le below inside))
      (Initial.reopenable run.starts foreign)
      fun _ _ _ holds allowed step => holds.step allowed.1 allowed.2 step
  have ok := reopenable.invariant.image_wellFormed reopenable.foreign reopenable.late
  obtain ⟨final, ends, mem, -⟩ := descriptorPool_ok ok rfl partitions
  refine ⟨reopenable.late, final, ends, ?_⟩
  intro address
  rw [mem]
  exact reopenable.invariant.recovered_eq_logical ok address

/-- A test of the condition on the frame that performs the step. -/
def Frame.avoidsLateInstall (shared : Shared) : Frame → Bool
  | .mwCAS d _ (.installCondCAS _) => shared.code d != .succeeded
  | _ => true

/-- The pool is opened right after the operation has succeeded, with its pointer still in place. -/
theorem reopens_of_run_succeeded : ∃ run : Run (system .persistent .small),
    run.Meets (RecyclesUnused .small) ∧ (run.state 11).shared.code 0 = .succeeded ∧
      (run.state 11).shared.mem 8 = Pool.small.mwCASPtr 0 false ∧
    ∃ final, (descriptorPool .small 1).run ((run.state 11).image .small) = .ok final ∧
      ∀ address, (final.mem address).clearDirty = (run.state 11).shared.logical .small address := by
  obtain ⟨run, length, states, acts, passes⟩ := State.exists_solo_run .persistent .small
    (fun _ => .plain 1) (fun _ => rfl) [.change 8 1 2] 25
    (fun shared frame => frame.avoidsLateInstall shared) (by decide +kernel) (by decide +kernel)
  have requested : ∀ request ∈ [Request.change 8 1 2], Pool.small.Foreign request.oldValue ∧
      Pool.small.Foreign request.newValue := by
    decide
  have meets : run.Meets (ReopeningCondition .small) := by
    intro index inside
    refine ⟨?_, ?_⟩
    · intro t d requests called
      rw [length] at inside
      rw [acts index] at called
      rcases soloActions_getD inside with here | ⟨-, here⟩
      · rw [here] at called
        cases called
      · rw [here] at called
        cases called
        exact requested
    · intro t steps d calldepth i rest stack succeeded
      have tested := passes index inside t steps _ rest stack
      simp [Frame.avoidsLateInstall, succeeded] at tested
  have foreign : ∀ address, Pool.small.Foreign ((run.state 0).shared.mem address) := by
    intro address
    have first : some (State.start fun _ => .plain 1) = some (run.state 0) := states 0
    rw [← Option.some.inj first]
    show Pool.small.Foreign (.plain 1)
    decide
  have reached := satisfies_of_replay (fun state : State => state.shared.code 0 = .succeeded ∧
    state.shared.mem 8 = Pool.small.mwCASPtr 0 false) (states 11) (by decide +kernel)
  have recycles : run.Meets (RecyclesUnused .small) := recyclesUnused_of_actions acts (by decide)
  exact ⟨run, recycles, reached.1, reached.2, (reopens_of_run run recycles foreign meets 1
    (by decide) 11 (by rw [length]; decide)).2⟩

/-- The delayed helper of the run `latePromotion` has just installed the CondCAS pointer of the
operation that has succeeded. The constructor stops at it with a failed check. -/
theorem exists_unopenable_pool : ∃ run : Run (system .persistent .small),
    run.Meets (RecyclesUnused .small) ∧ ∃ index, index ≤ run.length ∧
      (run.state index).shared.code 0 = .succeeded ∧
      0 < ((run.state index).shared.desc 0).count ∧
      (run.state index).shared.mem (((run.state index).shared.desc 0).words 0).address =
        Pool.small.condCASPtr 0 0 ∧
      (descriptorPool .small 1 ((run.state index).image .small)).error =
        some (.rawCheck .invalidFieldValue) := by
  obtain ⟨run, length, states, acts⟩ := State.exists_run .persistent .small (fun _ => .plain 1)
    (fun _ => rfl) (latePromotion 5 8 17 25) (by decide +kernel)
  refine ⟨run, recyclesUnused_of_actions acts (by decide), 60, by rw [length]; decide, ?_⟩
  exact satisfies_of_replay (fun state : State => state.shared.code 0 = .succeeded ∧
    0 < (state.shared.desc 0).count ∧
    state.shared.mem ((state.shared.desc 0).words 0).address = Pool.small.condCASPtr 0 0 ∧
    (descriptorPool .small 1 (state.image .small)).error =
      some (.rawCheck .invalidFieldValue)) (states 60) (by decide +kernel)

end Pmwcas
