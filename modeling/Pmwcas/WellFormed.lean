/-
This file states what every target word holds in every state of every run of the persistent build:
a value, a dirty value, a CondCAS pointer to a word descriptor for this word, or an MwCAS pointer to
a descriptor with an entry for it, and never a pointer to a descriptor that has been recycled. The
checks that guard against anything else never fail.
-/

import Pmwcas.Agreement

namespace Pmwcas

open Transition

variable {build : Build} {pool : Pool}

/-- The four things a target word can hold. -/
inductive WordForm where
  | value
  | dirtyValue
  | condCASPointer
  | mwCASPointer
  deriving DecidableEq, Repr

/-- The word at `address` holds `word` in this form. -/
def WordForm.Describes (pool : Pool) (shared : Shared) (address : Nat) (word : Word) :
    WordForm → Prop
  | .value => word.isCleanPtr = true
  | .dirtyValue => ∃ value : Word, value.isCleanPtr = true ∧ word = value.setDirty
  | .condCASPointer => ∃ d i, d < pool.size ∧ i < (shared.desc d).count ∧
      word = pool.condCASPtr d i ∧ ((shared.desc d).words i).address = address
  | .mwCASPointer => ∃ d dirty i, d < pool.size ∧ i < (shared.desc d).count ∧
      word = pool.mwCASPtr d dirty ∧ ((shared.desc d).words i).address = address

theorem WordForm.describes_unique {shared : Shared} {address : Nat} {word : Word}
    {first second : WordForm} (describesFirst : first.Describes pool shared address word)
    (describesSecond : second.Describes pool shared address word) : first = second := by
  have flags : ∀ {form : WordForm}, form.Describes pool shared address word →
      form = if word.mwcas then .mwCASPointer else if word.condcas then .condCASPointer
        else if word.dirty then .dirtyValue else .value := by
    intro form describes
    cases form with
    | value =>
      obtain ⟨notMwCAS, notCondCAS, notDirty⟩ := (Word.isCleanPtr_iff word).mp describes
      simp [notMwCAS, notCondCAS, notDirty]
    | dirtyValue =>
      obtain ⟨value, clean, rfl⟩ := describes
      obtain ⟨notMwCAS, notCondCAS, -⟩ := (Word.isCleanPtr_iff value).mp clean
      simp [notMwCAS, notCondCAS]
    | condCASPointer =>
      obtain ⟨d, i, -, -, rfl, -⟩ := describes
      rfl
    | mwCASPointer =>
      obtain ⟨d, dirty, i, -, -, rfl, -⟩ := describes
      rfl
  rw [flags describesFirst, flags describesSecond]

theorem WordOk.exists_form {shared : Shared} {address : Nat} {word : Word}
    (descriptors : DescriptorsOk build pool shared) (ok : WordOk build pool shared address word) :
    ∃ form : WordForm, form.Describes pool shared address word := by
  rcases ok.form with value | reference | ⟨pointer, i, lists⟩
  · cases dirty : word.dirty with
    | true =>
      refine ⟨.dirtyValue, word.clearDirty, ?_, Word.ext rfl rfl dirty rfl⟩
      exact (Word.isCleanPtr_iff _).mpr ⟨value.1, value.2, rfl⟩
    | false => exact ⟨.value, (Word.isCleanPtr_iff word).mpr ⟨value.1, value.2, dirty⟩⟩
  · exact ⟨.condCASPointer, _, _, (descriptors.entries _ reference.2.inUse).inside,
      reference.2.inside, reference.1, reference.2.address_eq⟩
  · exact ⟨.mwCASPointer, _, _, i, (descriptors.entries _ lists.inUse).inside, lists.inside,
      pointer, lists.address_eq⟩

theorem WordOk.inUse_of_pointsTo {shared : Shared} {address d : Nat} {word : Word}
    (ok : WordOk build pool shared address word) (points : word.PointsTo pool d) :
    shared.InUse d := by
  rcases points with ⟨dirty, rfl⟩ | ⟨i, inside, rfl⟩
  · rcases ok.form with value | reference | ⟨-, i, lists⟩
    · exact absurd value (pool.mwCASPtr_not_isValue d dirty)
    · cases reference.condcas
    · rw [Pool.mwCASPtr_rest, Pool.descriptorAt_descriptorAddress] at lists
      exact lists.inUse
  · have lists := (ok.condRef rfl).2
    rw [Pool.condCASPtr_rest, Pool.descriptorAt_wordAddress _ _ _ inside] at lists
    exact lists.inUse

/-- All target words are well formed, none points to a recycled descriptor, and no check has
failed. -/
structure State.WellFormed (pool : Pool) (state : State) : Prop where
  form : ∀ address, ∃! form : WordForm,
    form.Describes pool state.shared address (state.shared.mem address)
  pointers : ∀ address d, (state.shared.mem address).PointsTo pool d → state.shared.InUse d
  checks : state.NoCheckFailed

theorem Invariant.wellFormed {state : State} (invariant : Invariant build pool state) :
    state.WellFormed pool where
  form address := by
    obtain ⟨form, describes⟩ := (invariant.words address).exists_form invariant.descriptors
    exact ⟨form, describes, fun other describesOther =>
      WordForm.describes_unique describesOther describes⟩
  pointers address _ points := (invariant.words address).inUse_of_pointsTo points
  checks := invariant.noCheckFailed

/-- Every state of every run that recycles no descriptor in use is well formed, and when a descriptor
is recycled no word points to it. -/
theorem wellFormed_of_run (run : Run (system .persistent pool))
    (recycles : run.Meets (RecyclesUnused pool)) (index : Nat) (inside : index ≤ run.length) :
    (run.state index).WellFormed pool ∧ (index < run.length → ∀ d,
      run.action index = .recycle d → ∀ address,
        ¬ ((run.state index).shared.mem address).PointsTo pool d ∧
        ¬ ((run.state (index + 1)).shared.mem address).PointsTo pool d) := by
  have invariant := invariant_of_run run recycles index inside
  refine ⟨invariant.wellFormed, ?_⟩
  intro before d recycled address
  have unused := recycles index before d recycled
  have step : Step .persistent pool (run.state index) (run.action index) (run.state (index + 1)) :=
    run.steps index before
  rw [recycled] at step
  generalize run.state (index + 1) = after at step ⊢
  cases step with
  | recycle pushed =>
    have absent := invariant.not_pointsTo_of_unused unused address
    exact ⟨absent, absent⟩

/-- An operation puts its pointer in a word, and no word points to its descriptor when that is
recycled. -/
theorem wellFormed_of_run_installed : ∃ run : Run (system .persistent .small),
    run.Meets (RecyclesUnused .small) ∧ run.action 26 = .recycle 0 ∧
    (run.state 6).shared.mem 8 = Pool.small.condCASPtr 0 0 ∧ (run.state 6).WellFormed .small ∧
    ∀ address, ¬ ((run.state 26).shared.mem address).PointsTo .small 0 := by
  obtain ⟨run, length, states, actions⟩ := State.exists_run .persistent .small
    (fun _ => .plain 1) (fun _ => rfl) (soloActions [.change 8 1 2] 25 ++ [Action.recycle 0])
    (by decide +kernel)
  have recycles : run.Meets (RecyclesUnused .small) :=
    recyclesUnused_of_idle length states actions 1 (by decide) (by decide +kernel)
  have installed := satisfies_of_replay
    (fun state => state.shared.mem 8 = Pool.small.condCASPtr 0 0) (states 6) (by decide +kernel)
  have recycled : run.action 26 = .recycle 0 := (actions 26).trans rfl
  refine ⟨run, recycles, recycled, installed,
    (wellFormed_of_run run recycles 6 (by rw [length]; decide)).1, fun address => ?_⟩
  exact ((wellFormed_of_run run recycles 26 (by rw [length]; decide)).2 (by rw [length]; decide) 0
    recycled address).1

/-- Thread 0 operates on words 8 and 16, finds another value in word 16 and pushes its descriptor.
Helper 1, delayed before its exchange for word 8, puts the CondCAS pointer there once more, the
operation of thread 2 on word 8 gets this pointer, and the helper takes it out and leaves. The
descriptor is recycled and thread 2 goes on. -/
def lateOperation : List Action :=
  Action.mwCAS 0 0 [.change 8 1 2, .change 16 5 6] :: List.replicate 6 (Action.step 0) ++
    Action.getValue 1 8 :: List.replicate 5 (Action.step 1) ++
    List.replicate 19 (Action.step 0) ++ [Action.step 1] ++
    Action.mwCAS 2 1 [.change 8 1 2] :: List.replicate 4 (Action.step 2) ++
    List.replicate 18 (Action.step 1) ++ [Action.recycle 0, Action.step 2]

/-- The address in the recycled word descriptor is not the one of thread 2, and the check of
`CondCAS` fails. -/
theorem exists_late_operation : ∃ run : Run (system .persistent .small), RespectsEpochs run ∧
    ∃ index, index ≤ run.length ∧ ¬ (run.state index).WellFormed .small := by
  obtain ⟨run, length, states, acts⟩ := State.exists_run .persistent .small (fun _ => .plain 1)
    (fun _ => rfl) lateOperation (by decide +kernel)
  refine ⟨run, ?_, 58, by rw [length]; decide, ?_⟩
  · exact respectsEpochs_of_replay length states acts 0 0 29 56 2 3 (by decide) (by decide) rfl
      (by decide +kernel) (by decide) rfl (by decide) (by decide) (by decide +kernel)
      (by decide +kernel)
  · intro wellFormed
    have failed := satisfies_of_replay (fun state => state.threads 2 =
      [.mwCAS 1 0 (.rawCheckFailed .wrongAddress)]) (states 58) (by decide +kernel)
    have checks := wellFormed.checks 2 (.mwCAS 1 0 (.rawCheckFailed .wrongAddress))
    rw [failed] at checks
    exact (checks (List.mem_singleton_self _)).1 1 0 .wrongAddress rfl

end Pmwcas
