/-
This file is about the durable copies of shared words and descriptors, from which
`FASASDescriptorPool::recover` starts after a crash. A pointer in the durable copy of a shared word
has to lead to a descriptor that is still as the operation that installed it has left it.

`process()` flushes the pointer, but nobody flushes the value that replaces it. So the descriptor
can be recycled while the pointer is still durable, and from then on the pointer leads to a cleared
descriptor or to one of another operation. As long as a descriptor is freed only when no durable
copy points to it, durable pointers stay meaningful.
-/

import Pmwcas.FasasAtomicity

namespace Pmwcas.Fasas

open Transition

variable {config : Config}

/-! ### What a durable pointer means -/

/-- In this step the pointer to descriptor `d` is installed in the word at `address`. -/
def InstallsAt (run : Run (system config)) (d address index : Nat) : Prop :=
  index < run.length ∧ ∃ p, run.action index = .step p ∧
    (run.state index).threads p = .install d ∧ ((run.state index).desc d).address = address ∧
    (run.state index).mem address = ((run.state index).desc d).oldValue

/-- The durable descriptor `d` still belongs to the operation that installed the durable pointer in
the word at `address`: the last one that installed a pointer to `d`, before which the durable word
did not have it. -/
def Resolves (run : Run (system config)) (d address index : Nat) : Prop :=
  ∃ install, install < index ∧ InstallsAt run d address install ∧
    (run.state install).durableMem address ≠ config.pool.fasasPtr d ∧
    (∀ between, install < between → between < index → ∀ other, ¬ InstallsAt run d other between) ∧
    ((run.state index).durableDesc d).privateAddress ≠ .null ∧
    ((run.state index).durableDesc d).address = address ∧
    ((run.state index).durableDesc d).oldValue = ((run.state install).desc d).oldValue ∧
    ((run.state index).durableDesc d).newValue = ((run.state install).desc d).newValue

/-- Every durable pointer in a shared word leads to the descriptor of its operation. -/
def Meaningful (run : Run (system config)) : Prop :=
  ∀ index ≤ run.length, ∀ address ∈ config.shared, ∀ d,
    (run.state index).durableMem address = config.pool.fasasPtr d → Resolves run d address index

/-- The condition: a descriptor is taken from the garbage list only when no durable word points to
it. -/
def Detached (config : Config) (state : State) (action : Action) : Prop :=
  ∀ d, action = .freeDescriptor d → state.life d = .retired → ∀ address ∈ config.shared,
    state.durableMem address ≠ config.pool.fasasPtr d

/-! ### What a step does to the durable copies -/

/-- What a step does to the durable copies. -/
structure DurableEffect (state state' : State) : Prop where
  mem : ∀ address, state'.durableMem address = state.durableMem address ∨
    state'.durableMem address = state.mem address
  desc : ∀ d, state'.durableDesc d = state.durableDesc d ∨
    (∃ field : Field, state'.durableDesc d = field.copy (state.desc d) (state.durableDesc d)) ∨
    state'.durableDesc d = state.desc d

section Effects

variable {state state' : State}

theorem DurableEffect.of_same (mem : state'.durableMem = state.durableMem)
    (desc : state'.durableDesc = state.durableDesc) : DurableEffect state state' :=
  ⟨fun _ => .inl (by rw [mem]), fun _ => .inl (by rw [desc])⟩

theorem DurableEffect.of_flushWord {after : State} (address : Nat)
    (mem : after.durableMem = (state.flushWord address).durableMem)
    (desc : after.durableDesc = state.durableDesc) : DurableEffect state after := by
  refine ⟨fun other => ?_, fun _ => .inl (by rw [desc])⟩
  rw [mem]
  by_cases same : other = address
  · subst same
    exact .inr (State.flushWord_durableMem_self ..)
  · exact .inl (Function.update_of_ne same ..)

theorem DurableEffect.of_flushField {after : State} (d : Nat) (field : Field)
    (mem : after.durableMem = state.durableMem)
    (desc : after.durableDesc = (state.flushField d field).durableDesc) :
    DurableEffect state after := by
  refine ⟨fun _ => .inl (by rw [mem]), fun e => ?_⟩
  rw [desc]
  by_cases same : e = d
  · subst same
    exact .inr (.inl ⟨field, Function.update_self ..⟩)
  · exact .inl (Function.update_of_ne same ..)

theorem PcEffect.durable {e : Nat} (effect : PcEffect config state e state') :
    DurableEffect state state' := by
  cases effect with
  | same | status | value => exact .of_same rfl rfl
  | flushWord => exact .of_flushWord _ rfl rfl
  | flushStatus => exact .of_flushField e .privateAddress rfl rfl

theorem State.next_durable {action : Action} (performed : state.next config action = some state') :
    DurableEffect state state' := by
  cases action with
  | allocate | store | process | getValueProtectedOfSharedVar | helpProcess =>
    simp only [State.next, Option.ite_none_right_eq_some, Option.some.injEq] at performed
    obtain ⟨-, rfl⟩ := performed
    exact .of_same rfl rfl
  | step p =>
    simp only [State.next, Option.ite_none_right_eq_some] at performed
    obtain ⟨-, performed⟩ := performed
    cases inside : state.threads p with
    | idle | returned | value =>
      rw [inside] at performed
      cases performed
    | storeFlags | cleanup | storePrivate =>
      rw [inside] at performed
      cases performed
      exact .of_same rfl rfl
    | flushDescriptor d =>
      rw [inside] at performed
      cases performed
      refine ⟨fun _ => .inl rfl, fun e => ?_⟩
      by_cases same : e = d
      · subst same
        exact .inr (.inr (Function.update_self ..))
      · exact .inl (Function.update_of_ne same ..)
    | flushPrivate d =>
      rw [inside] at performed
      cases performed
      exact .of_flushWord _ rfl rfl
    | flushFlags d =>
      rw [inside] at performed
      cases performed
      exact .of_flushField d .privateAddress rfl rfl
    | install e =>
      rw [inside] at performed
      cases performed
      split <;> exact .of_same rfl rfl
    | conclude e pc =>
      rw [inside] at performed
      cases performed
      have effect : PcEffect config state e (state.stepPc config true e pc).1 :=
        State.stepPc_effect true e pc
      exact ⟨effect.durable.mem, effect.durable.desc⟩
    | load address =>
      rw [inside, State.stepThread, Option.map_eq_some_iff] at performed
      obtain ⟨thread', -, rfl⟩ := performed
      exact .of_same rfl rfl
    | flushDirty address val =>
      rw [inside] at performed
      cases performed
      exact .of_flushWord _ rfl rfl
    | clearDirty address val =>
      rw [inside, State.stepThread, Option.ite_none_right_eq_some] at performed
      obtain ⟨-, performed⟩ := performed
      cases performed
      split <;> exact .of_same rfl rfl
    | help e pc caller =>
      rw [inside] at performed
      cases performed
      have effect : PcEffect config state e (state.stepPc config false e pc).1 :=
        State.stepPc_effect false e pc
      exact ⟨effect.durable.mem, effect.durable.desc⟩
  | freeDescriptor d =>
    obtain ⟨descriptor, life, rfl, -⟩ := State.freeDescriptor_cases performed
    exact .of_same rfl rfl
  | writeBack address =>
    cases performed
    exact .of_flushWord address rfl rfl
  | writeBackField d field =>
    cases performed
    exact .of_flushField d field rfl rfl

theorem Kept.symm {before after : FASASDescriptor} (kept : Kept before after) : Kept after before :=
  ⟨kept.address.symm, kept.oldValue.symm, kept.newValue.symm, kept.opType.symm,
    kept.privateAddress.symm⟩

theorem Kept.copy {descriptor durable : FASASDescriptor} (kept : Kept descriptor durable)
    (field : Field) : Kept descriptor (field.copy descriptor durable) := by
  obtain ⟨address, oldValue, newValue, opType, privateAddress⟩ := kept
  cases field with
  | address => exact ⟨rfl, oldValue, newValue, opType, privateAddress⟩
  | oldValue => exact ⟨address, rfl, newValue, opType, privateAddress⟩
  | newValue => exact ⟨address, oldValue, rfl, opType, privateAddress⟩
  | opType => exact ⟨address, oldValue, newValue, rfl, privateAddress⟩
  | privateAddress => exact ⟨address, oldValue, newValue, opType, rfl⟩

/-- A durable descriptor that has the fields of the descriptor keeps them. -/
theorem DurableEffect.kept {d : Nat} (effect : DurableEffect state state')
    (kept : Kept (state.desc d) (state.durableDesc d)) :
    Kept (state.desc d) (state'.durableDesc d) := by
  rcases effect.desc d with same | ⟨field, same⟩ | same
  · rw [same]
    exact kept
  · rw [same]
    exact kept.copy field
  · rw [same]
    exact .refl _

/-! ### Descriptors in use are durable -/

/-- A descriptor in use is durable from the flush at the beginning of `process()` on. -/
def Flushed (state : State) : Prop :=
  ∀ d, (state.life d).used = true → (∃ p, state.threads p = .flushDescriptor d) ∨
    Kept (state.desc d) (state.durableDesc d)

/-- A descriptor comes into use with `process()`. -/
theorem Sound.used_of_next (sound : Sound config state) {action : Action} {d : Nat}
    (performed : state.next config action = some state') (used : (state'.life d).used = true) :
    (state.life d).used = true ∧ action ≠ .freeDescriptor d ∨
      ∃ p, action = .process p d ∧ state'.threads p = .flushDescriptor d := by
  cases action with
  | allocate u e =>
    simp only [State.next, Option.ite_none_right_eq_some, Option.some.injEq] at performed
    obtain ⟨-, rfl⟩ := performed
    by_cases same : d = e
    · rw [same, State.setLife_life_self] at used
      cases used
    · rw [State.setLife_life_of_ne _ same] at used
      exact .inl ⟨used, (by rintro ⟨⟩)⟩
  | process u e =>
    simp only [State.next, Option.ite_none_right_eq_some, Option.some.injEq] at performed
    obtain ⟨-, rfl⟩ := performed
    rw [State.goto_life] at used
    by_cases same : d = e
    · subst same
      exact .inr ⟨u, rfl, State.goto_threads_self ..⟩
    · rw [State.setLife_life_of_ne _ same] at used
      exact .inl ⟨used, (by rintro ⟨⟩)⟩
  | store | getValueProtectedOfSharedVar | helpProcess =>
    simp only [State.next, Option.ite_none_right_eq_some, Option.some.injEq] at performed
    obtain ⟨-, rfl⟩ := performed
    exact .inl ⟨used, (by rintro ⟨⟩)⟩
  | step u =>
    simp only [State.next, Option.ite_none_right_eq_some] at performed
    refine .inl ⟨?_, (by rintro ⟨⟩)⟩
    rcases (State.stepThread_frames performed.2).life d with same | ⟨-, result, inside⟩
    · rw [same] at used
      exact used
    · exact sound.used_of_own (by rw [inside]; rfl : (state.threads u).own = some d)
  | freeDescriptor e =>
    obtain ⟨descriptor, life', rfl, -, unused⟩ := State.freeDescriptor_cases performed
    by_cases same : d = e
    · rw [same, State.setLife_life_self, unused] at used
      cases used
    · rw [State.setLife_life_of_ne _ same] at used
      refine .inl ⟨used, fun here => ?_⟩
      cases here
      exact same rfl
  | writeBack | writeBackField =>
    cases performed
    exact .inl ⟨used, (by rintro ⟨⟩)⟩

theorem Flushed.next {action : Action} (flushed : Flushed state) (sound : Sound config state)
    (performed : state.next config action = some state') : Flushed state' := by
  intro d used
  rcases sound.used_of_next performed used with ⟨before, notFreed⟩ | ⟨p, -, inside⟩
  · have effect := State.next_durable performed
    have same := sound.next_kept_of_used performed before notFreed
    rcases flushed d before with ⟨p, inside⟩ | kept
    · by_cases acts : action = .step p
      · subst acts
        simp only [State.next, Option.ite_none_right_eq_some, inside] at performed
        cases performed.2
        refine .inr ?_
        show Kept (state.desc d) (Function.update state.durableDesc d (state.desc d) d)
        rw [Function.update_self]
        exact .refl _
      · refine .inl ⟨p, ?_⟩
        rw [State.threads_of_next performed (by rw [inside]; rfl : (state.threads p).own = some d) acts]
        exact inside
    · exact .inr (same.symm.trans (effect.kept kept))
  · exact .inl ⟨p, inside⟩

end Effects

theorem Flushed.of_run (run : Run (system config)) (index : Nat) (inside : index ≤ run.length) :
    Flushed (run.state index) := by
  induction index with
  | zero =>
    intro d used
    have initial : (run.state 0).Initial config := run.starts
    rw [initial.life] at used
    cases used
  | succ index inductionHypothesis =>
    exact (inductionHypothesis (Nat.le_of_lt inside)).next
      (Sound.of_run run index (Nat.le_of_lt inside)) (run.steps index inside)

/-! ### Where a pointer comes from -/

/-- The operation with the descriptor has installed it. -/
def HasInstalled (state : State) (d : Nat) : Prop :=
  state.life d = .retired ∨ ∃ p, state.life d = .processing p ∧
    (state.threads p).own = some d ∧ (state.threads p).installed = true

/-- The operation that installed the pointer to `d` in the word at `address` still has it. -/
structure Traced (run : Run (system config)) (d address index : Nat) : Prop where
  installed : HasInstalled (run.state index) d
  placed : ((run.state index).desc d).address = address
  source : ∃ install, install < index ∧ InstallsAt run d address install ∧
    (run.state install).durableMem address ≠ config.pool.fasasPtr d ∧
    (∀ between, install < between → between < index → ∀ other, ¬ InstallsAt run d other between) ∧
    Kept ((run.state install).desc d) ((run.state index).desc d)

theorem HasInstalled.used {state : State} {d : Nat} (installed : HasInstalled state d) :
    (state.life d).used = true := by
  rcases installed with life | ⟨p, life, -⟩
  · rw [life]
    rfl
  · rw [life]
    rfl

/-- The life of a descriptor in use ends in the garbage list. -/
theorem State.life_of_next {state state' : State} {action : Action} {d : Nat}
    (performed : state.next config action = some state') (used : (state.life d).used = true)
    (notFreed : action ≠ .freeDescriptor d) :
    state'.life d = state.life d ∨ state'.life d = .retired := by
  have elsewhere : ∀ {e : Nat} {life life' : Life}, state.life e = life → life.used = false →
      (state.setLife e life').life d = state.life d := by
    intro e life life' here unused
    refine State.setLife_life_of_ne _ ?_ _
    rintro rfl
    rw [here, unused] at used
    cases used
  cases action with
  | allocate u e =>
    simp only [State.next, Option.ite_none_right_eq_some, Option.some.injEq] at performed
    obtain ⟨⟨-, -, life⟩, rfl⟩ := performed
    exact .inl (elsewhere life rfl)
  | process u e =>
    simp only [State.next, Option.ite_none_right_eq_some, Option.some.injEq] at performed
    obtain ⟨⟨-, life, -⟩, rfl⟩ := performed
    exact .inl (elsewhere life rfl)
  | store | getValueProtectedOfSharedVar | helpProcess =>
    simp only [State.next, Option.ite_none_right_eq_some, Option.some.injEq] at performed
    obtain ⟨-, rfl⟩ := performed
    exact .inl rfl
  | step u =>
    simp only [State.next, Option.ite_none_right_eq_some] at performed
    rcases (State.stepThread_frames performed.2).life d with same | ⟨retired, -⟩
    · exact .inl same
    · exact .inr retired
  | freeDescriptor e =>
    obtain ⟨descriptor, life', rfl, -⟩ := State.freeDescriptor_cases performed
    refine .inl (State.setLife_life_of_ne _ ?_ _)
    rintro rfl
    exact notFreed rfl
  | writeBack | writeBackField =>
    cases performed
    exact .inl rfl

theorem HasInstalled.next {state state' : State} {action : Action} {d : Nat}
    (installed : HasInstalled state d) (sound : Sound config state)
    (performed : state.next config action = some state') (notFreed : action ≠ .freeDescriptor d) :
    HasInstalled state' d := by
  have lives := State.life_of_next performed installed.used notFreed
  rcases installed with retired | ⟨p, life, own, already⟩
  · refine .inl ?_
    rcases lives with same | now
    · exact same.trans retired
    · exact now
  · rcases lives with same | now
    · by_cases acts : action = .step p
      · subst acts
        simp only [State.next, Option.ite_none_right_eq_some] at performed
        have step := sound.stepThread_own own performed.2
        rcases step.own with still | ⟨result, inside⟩
        · refine .inr ⟨p, same.trans life, still, ?_⟩
          rcases step.installed with ⟨-, -, now, -⟩ | ⟨kept, -⟩
          · exact now
          · exact kept.trans already
        · obtain ⟨-, performed⟩ := performed
          rw [inside] at performed
          cases performed
          exact .inl (State.setLife_life_self ..)
      · have still := State.threads_of_next performed own acts
        exact .inr ⟨p, same.trans life, by rw [still]; exact own, by rw [still]; exact already⟩
    · exact .inl now

section Traces

variable {run : Run (system config)} {d address index : Nat}

theorem not_installsAt {other : Nat} (sound : Sound config (run.state index))
    (installed : HasInstalled (run.state index) d) : ¬ InstallsAt run d other index := by
  rintro ⟨-, p, -, inside, -⟩
  have life := sound.owner p d (by rw [inside]; rfl)
  rcases installed with retired | ⟨u, processing, -, already⟩
  · rw [life] at retired
    cases retired
  · rw [life] at processing
    cases processing
    rw [inside] at already
    cases already

theorem Traced.succ (traced : Traced run d address index) (before : index < run.length)
    (notFreed : run.action index ≠ .freeDescriptor d) : Traced run d address (index + 1) := by
  have sound := Sound.of_run run index (Nat.le_of_lt before)
  have performed : (run.state index).next config (run.action index) =
      some (run.state (index + 1)) := run.steps index before
  have kept := sound.next_kept_of_used performed traced.installed.used notFreed
  obtain ⟨install, earlier, installs, fresh, none_, same⟩ := traced.source
  refine ⟨traced.installed.next sound performed notFreed, kept.address.trans traced.placed, install,
    Nat.lt_succ_of_lt earlier, installs, fresh, fun between above below other => ?_, same.trans kept⟩
  rcases Nat.lt_or_eq_of_le (Nat.le_of_lt_succ below) with smaller | here
  · exact none_ between above smaller other
  · rw [here]
    exact not_installsAt sound traced.installed

/-- A new pointer is one that has just been installed. -/
theorem installsAt_of_new (inside : index < run.length) (shared : address ∈ config.shared)
    (before : (run.state index).mem address ≠ config.pool.fasasPtr d ∧
      (run.state index).durableMem address ≠ config.pool.fasasPtr d)
    (pointer : (run.state (index + 1)).mem address = config.pool.fasasPtr d ∨
      (run.state (index + 1)).durableMem address = config.pool.fasasPtr d) :
    InstallsAt run d address index ∧
      (run.state (index + 1)).mem address = config.pool.fasasPtr d := by
  have sound := Sound.of_run run index (Nat.le_of_lt inside)
  have performed : (run.state index).next config (run.action index) =
      some (run.state (index + 1)) := run.steps index inside
  have now : (run.state (index + 1)).mem address = config.pool.fasasPtr d := by
    rcases pointer with here | here
    · exact here
    · rcases (State.next_durable performed).mem address with same | same
      · exact absurd (same.symm.trans here) before.2
      · exact absurd (same.symm.trans here) before.1
  refine ⟨⟨inside, ?_⟩, now⟩
  cases sound.next_mem performed with
  | same mem =>
    rw [mem] at now
    exact absurd now before.1
  | install p e acts installing found mem =>
    by_cases here : address = ((run.state index).desc e).address
    · rw [mem, here, Function.update_self] at now
      obtain rfl := config.pool.fasasPtr_injective now
      exact ⟨p, acts, installing, here.symm, by rw [here]; exact found⟩
    · rw [mem, Function.update_of_ne here] at now
      exact absurd now before.1
  | value e placed installed mem =>
    by_cases here : address = ((run.state index).desc e).address
    · rw [mem, here, Function.update_self] at now
      have clean := (sound.values e).2
      rw [now] at clean
      cases clean
    · rw [mem, Function.update_of_ne here] at now
      exact absurd now before.1
  | private_ p e acts storing mem =>
    have used := sound.used_of_own (by rw [storing]; rfl : ((run.state index).threads p).own = some e)
    have different : address ≠ ((run.state index).desc e).privateAddress.address := by
      rintro rfl
      exact sound.private_ e (sound.fields e used).2 shared
    rw [mem, Function.update_of_ne different] at now
    exact absurd now before.1

end Traces

/-- Every pointer in a shared word or in its durable copy is traced to its operation. -/
theorem traced_of_run (run : Run (system config)) (meets : run.Meets (Detached config)) (index : Nat)
    (inside : index ≤ run.length) : ∀ address ∈ config.shared, ∀ d,
    ((run.state index).mem address = config.pool.fasasPtr d ∨
      (run.state index).durableMem address = config.pool.fasasPtr d) →
    Traced run d address index := by
  induction index with
  | zero =>
    intro address shared d pointer
    have initial : (run.state 0).Initial config := run.starts
    rcases pointer with here | here
    · have clean := initial.mem address shared
      rw [here] at clean
      cases clean
    · have clean := initial.durableMem address shared
      rw [here] at clean
      cases clean
  | succ index inductionHypothesis =>
    intro address shared d pointer
    have sound := Sound.of_run run index (Nat.le_of_lt inside)
    have performed : (run.state index).next config (run.action index) =
        some (run.state (index + 1)) := run.steps index inside
    have traced := inductionHypothesis (Nat.le_of_lt inside) address shared d
    by_cases before : (run.state index).mem address = config.pool.fasasPtr d ∨
        (run.state index).durableMem address = config.pool.fasasPtr d
    · refine (traced before).succ inside fun freed => ?_
      rcases before with here | here
      · obtain ⟨p, -, -, life, -⟩ := sound.used_of_ptr shared here
        exact State.not_freed performed life freed
      · rcases (traced (.inr here)).installed with retired | ⟨p, life, -⟩
        · exact meets index inside d freed retired address shared here
        · exact State.not_freed performed life freed
    · rw [not_or] at before
      obtain ⟨installs, now⟩ := installsAt_of_new inside shared before pointer
      obtain ⟨p, pc, concludes, life, placed⟩ :=
        (Sound.of_run run (index + 1) inside).used_of_ptr shared now
      obtain ⟨u, -, installing, -⟩ := installs.2
      refine ⟨.inr ⟨p, life, by rw [concludes]; rfl, by rw [concludes]; rfl⟩, placed, index,
        Nat.lt_succ_self index, installs, before.2, fun between above below => ?_,
        sound.next_kept performed (sound.owner u d (by rw [installing]; rfl))⟩
      omega

/-- In every run in which descriptors are freed without durable pointers to them, durable pointers
are meaningful in every state. -/
theorem meaningful_of_run (run : Run (system config)) (meets : run.Meets (Detached config)) :
    Meaningful run := by
  intro index inside address shared d durable
  have traced := traced_of_run run meets index inside address shared d (.inr durable)
  have sound := Sound.of_run run index inside
  obtain ⟨install, earlier, installs, fresh, none_, same⟩ := traced.source
  have used := traced.installed.used
  have kept : Kept ((run.state index).desc d) ((run.state index).durableDesc d) := by
    rcases Flushed.of_run run index inside d used with ⟨p, flushing⟩ | kept
    · exfalso
      have life := sound.owner p d (by rw [flushing]; rfl)
      rcases traced.installed with retired | ⟨u, processing, -, already⟩
      · rw [life] at retired
        cases retired
      · rw [life] at processing
        cases processing
        rw [flushing] at already
        cases already
    · exact kept
  refine ⟨install, earlier, installs, fresh, none_, fun null => ?_, kept.address.trans traced.placed,
    kept.oldValue.trans same.oldValue, kept.newValue.trans same.newValue⟩
  have set := (sound.fields d used).2
  rw [← kept.privateAddress, null] at set
  exact set rfl

/-! ### Concrete runs -/

/-- A test of the condition for one word. -/
def State.detached (state : State) : Action → Bool
  | .freeDescriptor d =>
    state.life d != .retired || state.durableMem 8 != Config.two.pool.fasasPtr d
  | _ => true

theorem detached_of_test {state : State} {action : Action} (passes : state.detached action = true) :
    Detached .two state action := by
  intro d acts retired address shared
  subst acts
  rw [show address = 8 from List.mem_singleton.mp shared]
  simpa [State.detached, retired] using passes

/-- Thread 1 replaces 0 by 5 with descriptor 0, which then is in the garbage list. -/
def wholeProcess : List Action :=
  fill 1 0 8 0 5 24 ++ Action.process 1 0 :: List.replicate 15 (Action.step 1)

/-- The new value becomes durable before the descriptor is freed. -/
def freedLate : List Action :=
  wholeProcess ++
    [Action.writeBack 8, Action.freeDescriptor 0, Action.freeDescriptor 0, Action.freeDescriptor 0]

theorem meaningful_of_run_freedLate : ∃ run : Run (system .two), run.Meets (Detached .two) ∧
    (run.state 21).durableMem 8 = Config.two.pool.fasasPtr 0 ∧ (run.state 25).life 0 = .free ∧
    Meaningful run := by
  obtain ⟨run, length, states, actions⟩ := exists_run .two freedLate (by decide +kernel)
  have meets : run.Meets (Detached .two) := by
    intro index inside
    rw [actions]
    exact detached_of_test (test_of_replayTests State.detached (by decide +kernel) (length ▸ inside)
      (states index))
  exact ⟨run, meets,
    satisfies_of_replay (fun state => state.durableMem 8 = Config.two.pool.fasasPtr 0) (states 21)
      (by decide +kernel),
    satisfies_of_replay (fun state => state.life 0 = .free) (states 25) (by decide +kernel),
    meaningful_of_run run meets⟩

/-- The descriptor is freed while the pointer is durable, and its cleared `privateAddress_` becomes
durable. -/
def freedEarly : List Action :=
  wholeProcess ++ [Action.freeDescriptor 0, Action.writeBackField 0 .privateAddress]

/-- The durable word points to a descriptor without a private address. -/
theorem exists_not_meaningful : ∃ run : Run (system .two), ¬ Meaningful run := by
  obtain ⟨run, length, states, actions⟩ := exists_run .two freedEarly (by decide +kernel)
  refine ⟨run, fun meaningful => ?_⟩
  have found := satisfies_of_replay (fun state => state.durableMem 8 = Config.two.pool.fasasPtr 0 ∧
    (state.durableDesc 0).privateAddress = .null) (states 23) (by decide +kernel)
  obtain ⟨-, -, -, -, -, notNull, -⟩ := meaningful 23 (by rw [length]; decide) 8 (by decide) 0 found.1
  exact notNull found.2

end Pmwcas.Fasas
