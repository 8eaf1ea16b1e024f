/-
This file proves that `FASASDescriptor::process()` is atomic. A call that returns true has changed
the logical value of its word in one step, the exchange that installs the pointer to its
descriptor, and has stored the result in its private word; a call that returns false has changed
neither. No other step changes a logical value, whoever takes it: a helper that comes late finds
the pointer gone, and a pointer that is gone comes back only with the next operation.
-/

import Pmwcas.FasasMachine

namespace Pmwcas.Fasas

open Transition

variable {config : Config}

/-! ### Calls -/

/-- Thread `p` calls `process()` of descriptor `d` in step `first`, and the call returns in step
`last`. -/
structure ProcessReturns (run : Run (system config)) (p d first last : Nat) (result : Bool) :
    Prop where
  later : first < last
  inside : last < run.length
  begins : run.action first = .process p d
  running : ∀ index, first < index → index ≤ last → ((run.state index).threads p).own = some d
  returns : run.action last = .step p
  result : (run.state (last + 1)).threads p = .returned result

/-- The step changes no logical value. -/
def Leaves (run : Run (system config)) (index : Nat) : Prop :=
  ∀ address ∈ config.shared, (run.state (index + 1)).logical config address =
    (run.state index).logical config address

/-- In this step thread `p` installs its descriptor `d`. The logical value of the word changes from
the old to the new value, and no other does. -/
structure Installs (run : Run (system config)) (p d : Nat) (descriptor : FASASDescriptor)
    (index : Nat) : Prop where
  exchange : (run.state index).threads p = .install d
  acts : run.action index = .step p
  before : (run.state index).logical config descriptor.address = descriptor.oldValue
  after : (run.state (index + 1)).logical config descriptor.address = descriptor.newValue
  others : ∀ address ∈ config.shared, address ≠ descriptor.address →
    (run.state (index + 1)).logical config address = (run.state index).logical config address

/-- Every call that returns has been one atomic exchange, or none, and has written its private word
accordingly. Other steps change no logical value. -/
structure AtomicProcesses (run : Run (system config)) : Prop where
  succeeded : ∀ p d first last, ProcessReturns run p d first last true →
    (∃ index, first < index ∧ index ≤ last ∧
      Installs run p d ((run.state first).desc d) index ∧
      ∀ other, first < other → other ≤ last → other ≠ index → run.action other = .step p →
        Leaves run other) ∧
    (run.state (last + 1)).mem ((run.state first).desc d).privateAddress.getPrivateAddress =
      ((run.state first).desc d).privateValue
  failed : ∀ p d first last, ProcessReturns run p d first last false →
    (∀ other, first < other → other ≤ last → run.action other = .step p → Leaves run other) ∧
    (run.state (last + 1)).mem ((run.state first).desc d).privateAddress.getPrivateAddress =
      (run.state first).mem ((run.state first).desc d).privateAddress.getPrivateAddress
  helpers : ∀ index, index < run.length → Leaves run index ∨
    ∃ p d, Installs run p d ((run.state index).desc d) index

/-- What callers owe to `process()`: no other operation under way uses the private word. -/
def PrivateApart (state : State) (action : Action) : Prop :=
  ∀ p d, action = .process p d → ∀ e u, e ≠ d → state.life e = .processing u →
    (state.desc e).privateAddress.address ≠ (state.desc d).privateAddress.address

/-! ### What a step changes -/

/-- What a step does to memory. -/
inductive MemEffect (config : Config) (state : State) (action : Action) (state' : State) : Prop
  | same (mem : state'.mem = state.mem)
  | install (p d : Nat) (acts : action = .step p) (inside : state.threads p = .install d)
      (found : state.mem (state.desc d).address = (state.desc d).oldValue)
      (mem : state'.mem = Function.update state.mem (state.desc d).address (config.pool.fasasPtr d))
  | value (e : Nat) (shared : (state.desc e).address ∈ config.shared)
      (installed : state.mem (state.desc e).address = config.pool.fasasPtr e)
      (mem : state'.mem = Function.update state.mem (state.desc e).address (state.desc e).newValue)
  | private_ (p d : Nat) (acts : action = .step p) (inside : state.threads p = .storePrivate d)
      (mem : state'.mem = Function.update state.mem (state.desc d).privateAddress.address
        (state.desc d).privateValue)

section Effects

variable {state state' : State}

theorem PcEffect.mem {e : Nat} {action : Action} (effect : PcEffect config state e state')
    (shared : (state.desc e).address ∈ config.shared) : MemEffect config state action state' := by
  cases effect with
  | same | flushWord | flushStatus | status => exact .same rfl
  | value installed => exact .value e shared installed rfl

theorem MemEffect.of_mem {action : Action} {after : State}
    (effect : MemEffect config state action state') (same : after.mem = state'.mem) :
    MemEffect config state action after := by
  cases effect with
  | same mem => exact .same (same.trans mem)
  | install p d acts inside found mem => exact .install p d acts inside found (same.trans mem)
  | value e shared installed mem => exact .value e shared installed (same.trans mem)
  | private_ p d acts inside mem => exact .private_ p d acts inside (same.trans mem)

theorem Sound.stepThread_mem (sound : Sound config state) {p : Nat}
    (performed : state.stepThread config p (state.threads p) = some state') :
    MemEffect config state (.step p) state' := by
  cases inside : state.threads p with
  | idle | returned | value =>
    rw [inside] at performed
    cases performed
  | flushDescriptor | flushPrivate | storeFlags | flushFlags | cleanup =>
    rw [inside] at performed
    cases performed
    exact .same rfl
  | install d =>
    rw [inside] at performed
    cases performed
    by_cases found : state.mem (state.desc d).address = (state.desc d).oldValue
    · rw [if_pos found]
      exact .install p d rfl inside found rfl
    · rw [if_neg found]
      exact .same rfl
  | conclude d pc =>
    rw [inside] at performed
    cases performed
    have effect : PcEffect config state d (state.stepPc config true d pc).1 :=
      State.stepPc_effect true d pc
    have used := sound.used_of_own (by rw [inside]; rfl : (state.threads p).own = some d)
    exact (effect.mem (sound.fields d used).1).of_mem rfl
  | storePrivate d =>
    rw [inside] at performed
    cases performed
    exact .private_ p d rfl inside rfl
  | load address =>
    rw [inside, State.stepThread, Option.map_eq_some_iff] at performed
    obtain ⟨thread', -, rfl⟩ := performed
    exact .same rfl
  | flushDirty | clearDirty =>
    have clean := sound.notDirty p
    rw [inside] at clean
    cases clean
  | help e pc caller =>
    rw [inside] at performed
    cases performed
    have effect : PcEffect config state e (state.stepPc config false e pc).1 :=
      State.stepPc_effect false e pc
    have used := sound.helped p e (by rw [inside]; rfl)
    exact (effect.mem (sound.fields e used).1).of_mem rfl

theorem State.freeDescriptor_cases {d : Nat}
    (performed : state.next config (.freeDescriptor d) = some state') :
    ∃ descriptor life, state' = (state.setDesc d descriptor).setLife d life ∧
      (∀ p, state.life d ≠ .processing p) ∧ life.used = false := by
  rw [State.next] at performed
  cases life : state.life d with
  | free | filling | processing =>
    rw [life] at performed
    cases performed
  | retired =>
    simp only [life, Option.ite_none_right_eq_some, Option.some.injEq] at performed
    exact ⟨_, _, performed.2.symm, (by simp), rfl⟩
  | cleared | typed =>
    simp only [life, Option.some.injEq] at performed
    exact ⟨_, _, performed.symm, (by simp), rfl⟩

theorem Sound.next_mem (sound : Sound config state) {action : Action}
    (performed : state.next config action = some state') :
    MemEffect config state action state' := by
  cases action with
  | allocate | store | process | getValueProtectedOfSharedVar | helpProcess =>
    simp only [State.next, Option.ite_none_right_eq_some, Option.some.injEq] at performed
    obtain ⟨-, rfl⟩ := performed
    exact .same rfl
  | step p =>
    simp only [State.next, Option.ite_none_right_eq_some] at performed
    exact sound.stepThread_mem performed.2
  | freeDescriptor d =>
    obtain ⟨descriptor, life, rfl, -⟩ := State.freeDescriptor_cases performed
    exact .same rfl
  | writeBack | writeBackField =>
    cases performed
    exact .same rfl

/-- A step leaves the fields of a descriptor alone until it is freed. -/
theorem Sound.next_kept_of_used (sound : Sound config state) {action : Action} {d : Nat}
    (performed : state.next config action = some state') (used : (state.life d).used = true)
    (notFreed : action ≠ .freeDescriptor d) : Kept (state.desc d) (state'.desc d) := by
  cases action with
  | allocate | process | getValueProtectedOfSharedVar | helpProcess =>
    simp only [State.next, Option.ite_none_right_eq_some, Option.some.injEq] at performed
    obtain ⟨-, rfl⟩ := performed
    exact .refl _
  | store u e write =>
    simp only [State.next, Option.ite_none_right_eq_some, Option.some.injEq] at performed
    obtain ⟨⟨-, filling, -⟩, rfl⟩ := performed
    have different : d ≠ e := by
      rintro rfl
      rw [filling] at used
      cases used
    rw [State.setDesc_desc_of_ne _ different]
    exact .refl _
  | step u =>
    simp only [State.next, Option.ite_none_right_eq_some] at performed
    obtain ⟨-, performed⟩ := performed
    cases inside : state.threads u with
    | idle | returned | value =>
      rw [inside] at performed
      cases performed
    | flushDescriptor | flushPrivate | flushFlags | cleanup | storePrivate =>
      rw [inside] at performed
      cases performed
      exact .refl _
    | install e =>
      rw [inside] at performed
      cases performed
      split <;> exact .refl _
    | conclude e pc =>
      rw [inside] at performed
      cases performed
      have effect : PcEffect config state e (state.stepPc config true e pc).1 :=
        State.stepPc_effect true e pc
      exact effect.kept d
    | storeFlags e =>
      rw [inside] at performed
      cases performed
      by_cases same : d = e
      · subst same
        rw [State.goto_desc, State.setDesc_desc_self]
        exact ⟨rfl, rfl, rfl, rfl, rfl⟩
      · rw [State.goto_desc, State.setDesc_desc_of_ne _ same]
        exact .refl _
    | load address =>
      rw [inside, State.stepThread, Option.map_eq_some_iff] at performed
      obtain ⟨thread', -, rfl⟩ := performed
      exact .refl _
    | flushDirty | clearDirty =>
      have clean := sound.notDirty u
      rw [inside] at clean
      cases clean
    | help e pc caller =>
      rw [inside] at performed
      cases performed
      have effect : PcEffect config state e (state.stepPc config false e pc).1 :=
        State.stepPc_effect false e pc
      exact effect.kept d
  | freeDescriptor e =>
    obtain ⟨descriptor, life', rfl, -⟩ := State.freeDescriptor_cases performed
    have different : d ≠ e := by
      rintro rfl
      exact notFreed rfl
    rw [State.setLife_desc, State.setDesc_desc_of_ne _ different]
    exact .refl _
  | writeBack | writeBackField =>
    cases performed
    exact .refl _

theorem State.not_freed {action : Action} {p d : Nat}
    (performed : state.next config action = some state') (life : state.life d = .processing p) :
    action ≠ .freeDescriptor d := by
  rintro rfl
  obtain ⟨-, -, -, other, -⟩ := State.freeDescriptor_cases performed
  exact other p life

theorem Sound.next_kept (sound : Sound config state) {action : Action} {p d : Nat}
    (performed : state.next config action = some state') (life : state.life d = .processing p) :
    Kept (state.desc d) (state'.desc d) :=
  sound.next_kept_of_used performed (by rw [life]; rfl) (State.not_freed performed life)

/-- The logical value of a word whose content is left alone. -/
theorem Sound.logical_of_mem (sound : Sound config state) {action : Action} {address : Nat}
    (performed : state.next config action = some state') (shared : address ∈ config.shared)
    (same : state'.mem address = state.mem address) :
    state'.logical config address = state.logical config address := by
  unfold State.logical
  rw [same]
  rcases sound.words address shared with clean | ⟨d, p, pc, here, inside, -⟩
  · rw [((Word.isCleanPtr_iff _).mp clean).1]
    rfl
  · have kept := sound.next_kept performed (sound.owner p d (by rw [inside]; rfl))
    rw [here, Pool.fasasAt_fasasPtr, kept.newValue]

theorem State.logical_of_clean {address : Nat} (clean : (state.mem address).isCleanPtr = true) :
    state.logical config address = state.mem address := by
  unfold State.logical
  rw [((Word.isCleanPtr_iff _).mp clean).1]
  rfl

theorem State.logical_of_ptr {address d : Nat} (here : state.mem address = config.pool.fasasPtr d) :
    state.logical config address = (state.desc d).newValue := by
  unfold State.logical
  rw [here, Pool.fasasAt_fasasPtr]
  rfl

/-- A step that does not install a descriptor changes no logical value. -/
theorem Sound.logical_of_not_install (sound : Sound config state) {action : Action}
    (performed : state.next config action = some state')
    (other : ∀ p d, action = .step p → state.threads p = .install d →
      state.mem (state.desc d).address ≠ (state.desc d).oldValue) :
    ∀ address ∈ config.shared, state'.logical config address = state.logical config address := by
  intro address shared
  cases sound.next_mem performed with
  | same mem => exact sound.logical_of_mem performed shared (by rw [mem])
  | install p d acts inside found mem => exact absurd found (other p d acts inside)
  | value e placed installed mem =>
    by_cases here : address = (state.desc e).address
    · subst here
      have after : state'.mem (state.desc e).address = (state.desc e).newValue := by
        rw [mem, Function.update_self]
      rw [State.logical_of_clean (by rw [after]; exact (sound.values e).2), after,
        State.logical_of_ptr installed]
    · exact sound.logical_of_mem performed shared (by rw [mem, Function.update_of_ne here])
  | private_ p d acts inside mem =>
    have used := sound.used_of_own (by rw [inside]; rfl : (state.threads p).own = some d)
    have different : address ≠ (state.desc d).privateAddress.address := by
      rintro rfl
      exact sound.private_ d (sound.fields d used).2 shared
    exact sound.logical_of_mem performed shared (by rw [mem, Function.update_of_ne different])

end Effects

/-! ### One call -/

/-- The call has installed its descriptor. -/
def Thread.installed : Thread → Bool
  | .conclude _ _ | .storePrivate _ | .flushPrivate _ | .storeFlags _ | .flushFlags _ => true
  | .cleanup _ result | .returned result => result
  | _ => false

/-- The call has written its private word. -/
def Thread.written : Thread → Bool
  | .flushPrivate _ | .storeFlags _ | .flushFlags _ => true
  | .cleanup _ result | .returned result => result
  | _ => false

/-- A step of a thread inside `process()` of descriptor `d`. -/
structure OwnStep (state : State) (d : Nat) (thread thread' : Thread) : Prop where
  installed : (thread = .install d ∧ state.mem (state.desc d).address = (state.desc d).oldValue ∧
      thread'.installed = true ∧ thread.installed = false) ∨
    (thread'.installed = thread.installed ∧ ∀ e, thread = .install e →
      state.mem (state.desc e).address ≠ (state.desc e).oldValue)
  written : (thread = .storePrivate d ∧ thread'.written = true) ∨
    (thread'.written = thread.written ∧ ∀ e, thread ≠ .storePrivate e)
  own : thread'.own = some d ∨ ∃ result, thread = .cleanup d result

section Calls

variable {state state' : State} {p d : Nat}

theorem Sound.stepThread_own (sound : Sound config state)
    (own : (state.threads p).own = some d)
    (performed : state.stepThread config p (state.threads p) = some state') :
    OwnStep state d (state.threads p) (state'.threads p) := by
  have used := sound.used_of_own own
  cases inside : state.threads p with
  | idle | returned | value | load | flushDirty | clearDirty =>
    rw [inside] at own
    cases own
  | flushDescriptor | flushPrivate | storeFlags | flushFlags =>
    rw [inside] at own performed
    cases performed
    rw [State.goto_threads_self]
    exact ⟨.inr ⟨rfl, nofun⟩, .inr ⟨rfl, nofun⟩, .inl own⟩
  | cleanup e result =>
    rw [inside] at own performed
    cases own
    cases performed
    rw [State.goto_threads_self]
    exact ⟨.inr ⟨rfl, nofun⟩, .inr ⟨rfl, nofun⟩, .inr ⟨result, rfl⟩⟩
  | install e =>
    rw [inside] at own performed
    cases own
    cases performed
    rw [State.goto_threads_self]
    rcases sound.afterInstall_cases used with ⟨same, next⟩ | ⟨different, next | ⟨e, u, -, next⟩⟩
    · rw [next]
      exact ⟨.inl ⟨rfl, same, rfl, rfl⟩, .inr ⟨rfl, nofun⟩, .inl rfl⟩
    · rw [next]
      refine ⟨.inr ⟨rfl, fun e here => ?_⟩, .inr ⟨rfl, nofun⟩, .inl rfl⟩
      cases here
      exact different
    · rw [next]
      refine ⟨.inr ⟨rfl, fun e here => ?_⟩, .inr ⟨rfl, nofun⟩, .inl rfl⟩
      cases here
      exact different
  | conclude e pc =>
    rw [inside] at own performed
    cases performed
    rw [State.goto_threads_self]
    cases (state.stepPc config true e pc).2 with
    | none => exact ⟨.inr ⟨rfl, nofun⟩, .inr ⟨rfl, nofun⟩, .inl own⟩
    | some pc' => exact ⟨.inr ⟨rfl, nofun⟩, .inr ⟨rfl, nofun⟩, .inl own⟩
  | storePrivate e =>
    rw [inside] at own performed
    cases own
    cases performed
    rw [State.goto_threads_self]
    exact ⟨.inr ⟨rfl, nofun⟩, .inl ⟨rfl, rfl⟩, .inl rfl⟩
  | help e pc caller =>
    rw [inside] at own performed
    cases performed
    rw [State.goto_threads_self]
    cases (state.stepPc config false e pc).2 with
    | none =>
      cases caller with
      | install d' => exact ⟨.inr ⟨rfl, nofun⟩, .inr ⟨rfl, nofun⟩, .inl own⟩
      | load | idle => cases own
    | some pc' =>
      cases caller with
      | install d' => exact ⟨.inr ⟨rfl, nofun⟩, .inr ⟨rfl, nofun⟩, .inl own⟩
      | load | idle => cases own

/-- Steps of others leave a thread where it is. -/
theorem State.threads_of_next {action : Action} (performed : state.next config action = some state')
    (own : (state.threads p).own = some d) (other : action ≠ .step p) :
    state'.threads p = state.threads p := by
  have busy : (state.threads p).free = false := by
    cases inside : state.threads p <;> first | rfl | (rw [inside] at own; cases own)
  have apart : ∀ {u : Nat}, (state.threads u).free = true → p ≠ u := by
    rintro u rests rfl
    rw [busy] at rests
    cases rests
  cases action with
  | allocate | store =>
    simp only [State.next, Option.ite_none_right_eq_some, Option.some.injEq] at performed
    obtain ⟨-, rfl⟩ := performed
    rfl
  | process u e =>
    simp only [State.next, Option.ite_none_right_eq_some, Option.some.injEq] at performed
    obtain ⟨⟨rests, -⟩, rfl⟩ := performed
    exact State.goto_threads_of_ne _ (apart rests) _
  | getValueProtectedOfSharedVar u address | helpProcess u address =>
    simp only [State.next, Option.ite_none_right_eq_some, Option.some.injEq] at performed
    obtain ⟨⟨-, rests, -⟩, rfl⟩ := performed
    exact State.goto_threads_of_ne _ (apart rests) _
  | step u =>
    simp only [State.next, Option.ite_none_right_eq_some] at performed
    have different : p ≠ u := by
      rintro rfl
      exact other rfl
    exact (State.stepThread_frames performed.2).threads p different
  | freeDescriptor e =>
    obtain ⟨descriptor, life', rfl, -⟩ := State.freeDescriptor_cases performed
    rfl
  | writeBack | writeBackField =>
    cases performed
    rfl

/-- No two operations under way use the same private word. -/
def Apart (state : State) : Prop :=
  ∀ d e p u, e ≠ d → state.life d = .processing p → state.life e = .processing u →
    (state.desc e).privateAddress.address ≠ (state.desc d).privateAddress.address

/-- A descriptor is processed from the call of `process()` to its return. -/
theorem State.processing_of_next {action : Action}
    (performed : state.next config action = some state') (life : state'.life d = .processing p) :
    state.life d = .processing p ∨ action = .process p d := by
  cases action with
  | allocate u e =>
    simp only [State.next, Option.ite_none_right_eq_some, Option.some.injEq] at performed
    obtain ⟨-, rfl⟩ := performed
    by_cases same : d = e
    · rw [same, State.setLife_life_self] at life
      cases life
    · rw [State.setLife_life_of_ne _ same] at life
      exact .inl life
  | process u e =>
    simp only [State.next, Option.ite_none_right_eq_some, Option.some.injEq] at performed
    obtain ⟨-, rfl⟩ := performed
    rw [State.goto_life] at life
    by_cases same : d = e
    · rw [same, State.setLife_life_self] at life
      cases life
      exact .inr (by rw [same])
    · rw [State.setLife_life_of_ne _ same] at life
      exact .inl life
  | store | getValueProtectedOfSharedVar | helpProcess =>
    simp only [State.next, Option.ite_none_right_eq_some, Option.some.injEq] at performed
    obtain ⟨-, rfl⟩ := performed
    exact .inl life
  | step u =>
    simp only [State.next, Option.ite_none_right_eq_some] at performed
    rcases (State.stepThread_frames performed.2).life d with same | ⟨retired, -⟩
    · rw [same] at life
      exact .inl life
    · rw [retired] at life
      cases life
  | freeDescriptor e =>
    obtain ⟨descriptor, life', rfl, -, unused⟩ := State.freeDescriptor_cases performed
    by_cases same : d = e
    · rw [same, State.setLife_life_self] at life
      rw [life] at unused
      cases unused
    · rw [State.setLife_life_of_ne _ same] at life
      exact .inl life
  | writeBack | writeBackField =>
    cases performed
    exact .inl life

theorem Apart.next (apart : Apart state) (sound : Sound config state) {action : Action}
    (allowed : PrivateApart state action) (performed : state.next config action = some state') :
    Apart state' := by
  intro d e p u different first second
  have started : ∀ {v c : Nat}, action = .process v c → state'.desc = state.desc := by
    rintro v c rfl
    simp only [State.next, Option.ite_none_right_eq_some, Option.some.injEq] at performed
    rw [← performed.2]
    rfl
  rcases State.processing_of_next performed first with before | rfl
  · rcases State.processing_of_next performed second with before' | rfl
    · rw [(sound.next_kept performed before).privateAddress,
        (sound.next_kept performed before').privateAddress]
      exact apart d e p u different before before'
    · rw [started rfl]
      exact (allowed u e rfl d p different.symm before).symm
  · rcases State.processing_of_next performed second with before' | same
    · rw [started rfl]
      exact allowed p d rfl e u different before'
    · cases same
      exact absurd rfl different

theorem Apart.of_run (run : Run (system config)) (meets : run.Meets PrivateApart) (index : Nat)
    (inside : index ≤ run.length) : Apart (run.state index) := by
  induction index with
  | zero =>
    intro d e p u _ first
    have initial : (run.state 0).Initial config := run.starts
    rw [initial.life] at first
    cases first
  | succ index inductionHypothesis =>
    exact (inductionHypothesis (Nat.le_of_lt inside)).next
      (Sound.of_run run index (Nat.le_of_lt inside)) (meets index inside) (run.steps index inside)

end Calls

/-! ### Whole calls -/

/-- What thread `p` has done to logical values since its call of `process()` began. -/
def History (run : Run (system config)) (p d first index : Nat) : Bool → Prop
  | true => ∃ install, first < install ∧ install < index ∧
    Installs run p d ((run.state first).desc d) install ∧
    ∀ other, first < other → other < index → other ≠ install → run.action other = .step p →
      Leaves run other
  | false => ∀ other, first < other → other < index → run.action other = .step p → Leaves run other

/-- What the private word holds. -/
def Cell (run : Run (system config)) (d first index : Nat) (written : Bool) : Prop :=
  (run.state index).mem ((run.state first).desc d).privateAddress.address =
    if written then ((run.state first).desc d).privateValue
    else (run.state first).mem ((run.state first).desc d).privateAddress.address

theorem Kept.trans {first second third : FASASDescriptor} (one : Kept first second)
    (two : Kept second third) : Kept first third :=
  ⟨two.address.trans one.address, two.oldValue.trans one.oldValue, two.newValue.trans one.newValue,
    two.opType.trans one.opType, two.privateAddress.trans one.privateAddress⟩

theorem Kept.privateValue {before after : FASASDescriptor} (kept : Kept before after) :
    after.privateValue = before.privateValue := by
  unfold FASASDescriptor.privateValue
  rw [kept.opType, kept.oldValue]

section Histories

variable {run : Run (system config)} {p d first index : Nat}

theorem History.succ {installed : Bool} (history : History run p d first index installed)
    (leaves : run.action index = .step p → Leaves run index) :
    History run p d first (index + 1) installed := by
  have extended : ∀ Allowed : Nat → Prop, (∀ other, first < other → other < index →
      Allowed other → run.action other = .step p → Leaves run other) →
      ∀ other, first < other → other < index + 1 → Allowed other → run.action other = .step p →
        Leaves run other := by
    intro Allowed earlier other after before accepted acts
    rcases Nat.lt_or_eq_of_le (Nat.le_of_lt_succ before) with smaller | same
    · exact earlier other after smaller accepted acts
    · subst same
      exact leaves acts
  cases installed with
  | true =>
    obtain ⟨install, after, before, installs, others⟩ := history
    exact ⟨install, after, Nat.lt_succ_of_lt before, installs, extended (· ≠ install) others⟩
  | false =>
    intro other after before acts
    exact extended (fun _ => True) (fun other after before _ => history other after before) other
      after before trivial acts

/-- A step that installs a descriptor. -/
theorem installs_of_exchange {descriptor : FASASDescriptor} (before : index < run.length)
    (acts : run.action index = .step p) (inside : (run.state index).threads p = .install d)
    (found : (run.state index).mem ((run.state index).desc d).address =
      ((run.state index).desc d).oldValue)
    (kept : Kept descriptor ((run.state index).desc d)) : Installs run p d descriptor index := by
  have sound := Sound.of_run run index (Nat.le_of_lt before)
  have life := sound.owner p d (by rw [inside]; rfl)
  have performed : (run.state index).next config (run.action index) =
      some (run.state (index + 1)) := run.steps index before
  have after : (run.state (index + 1)).mem = Function.update (run.state index).mem
      ((run.state index).desc d).address (config.pool.fasasPtr d) := by
    have stepped := performed
    rw [acts] at stepped
    simp only [State.next, Option.ite_none_right_eq_some, inside] at stepped
    obtain ⟨-, stepped⟩ := stepped
    rw [State.stepThread, if_pos found, Option.some.injEq] at stepped
    rw [← stepped]
    rfl
  rw [kept.address] at found after
  have same := sound.next_kept performed life
  refine ⟨inside, acts, ?_, ?_, fun address shared different => ?_⟩
  · rw [State.logical_of_clean (by rw [found]; exact (sound.values d).1), found, kept.oldValue]
  · rw [State.logical_of_ptr (by rw [after, Function.update_self]), same.newValue, kept.newValue]
  · exact sound.logical_of_mem performed shared (by rw [after, Function.update_of_ne different])

theorem leaves_of_not_install (before : index < run.length)
    (other : ∀ p d, run.action index = .step p → (run.state index).threads p = .install d →
      (run.state index).mem ((run.state index).desc d).address ≠
        ((run.state index).desc d).oldValue) : Leaves run index :=
  (Sound.of_run run index (Nat.le_of_lt before)).logical_of_not_install (run.steps index before) other

/-- What holds during a call, at a state in which the thread is at `thread`. -/
structure Progress (run : Run (system config)) (p d first index : Nat) (thread : Thread) : Prop where
  history : History run p d first index thread.installed
  cell : Cell run d first index thread.written
  kept : Kept ((run.state first).desc d) ((run.state index).desc d)

/-- The private word of an operation is written in its own step only. -/
theorem Sound.cell_of_next {state state' : State} {action : Action} (sound : Sound config state)
    (apart : Apart state) (life : state.life d = .processing p)
    (performed : state.next config action = some state')
    (other : ∀ e, action = .step p → state.threads p ≠ .storePrivate e) :
    state'.mem (state.desc d).privateAddress.address =
      state.mem (state.desc d).privateAddress.address := by
  have used : (state.life d).used = true := by
    rw [life]
    rfl
  have private_ := sound.private_ d (sound.fields d used).2
  cases sound.next_mem performed with
  | same mem => rw [mem]
  | install u e acts inside found mem =>
    have shared := (sound.fields e (sound.used_of_own (by rw [inside]; rfl))).1
    rw [mem, Function.update_of_ne]
    intro same
    rw [same] at private_
    exact private_ shared
  | value e shared installed mem =>
    rw [mem, Function.update_of_ne]
    intro same
    rw [same] at private_
    exact private_ shared
  | private_ u e acts inside mem =>
    have there := sound.owner u e (by rw [inside]; rfl)
    have different : e ≠ d := by
      rintro rfl
      rw [life] at there
      cases there
      exact other e acts inside
    rw [mem, Function.update_of_ne (apart d e p u different life there).symm]

theorem Progress.next {thread : Thread} (apart : Apart (run.state index))
    (before : index < run.length) (later : first < index)
    (own : ((run.state index).threads p).own = some d)
    (inside : (run.state index).threads p = thread)
    (progress : Progress run p d first index thread) :
    Progress run p d first (index + 1) ((run.state (index + 1)).threads p) := by
  have sound := Sound.of_run run index (Nat.le_of_lt before)
  have performed : (run.state index).next config (run.action index) =
      some (run.state (index + 1)) := run.steps index before
  have life := sound.owner p d own
  have kept := progress.kept.trans (sound.next_kept performed life)
  have cell := progress.cell
  unfold Cell at cell
  rw [← progress.kept.privateAddress] at cell
  by_cases acts : run.action index = .step p
  · have stepped := performed
    rw [acts] at stepped
    simp only [State.next, Option.ite_none_right_eq_some] at stepped
    have step := sound.stepThread_own own stepped.2
    rw [inside] at step
    refine ⟨?_, ?_, kept⟩
    · rcases step.installed with ⟨rfl, found, now, notYet⟩ | ⟨same, noInstall⟩
      · rw [now]
        have history := progress.history
        rw [notYet] at history
        refine ⟨index, later, Nat.lt_succ_self index,
          installs_of_exchange before acts inside found progress.kept,
          fun other above below different => ?_⟩
        exact history other above (by omega)
      · rw [same]
        refine progress.history.succ fun _ => leaves_of_not_install before fun u e acts' inside' => ?_
        rw [acts] at acts'
        cases acts'
        rw [inside] at inside'
        exact noInstall e inside'
    · unfold Cell
      rw [← progress.kept.privateAddress]
      rcases step.written with ⟨rfl, now⟩ | ⟨same, noStore⟩
      · rw [now, if_pos rfl, ← progress.kept.privateValue]
        rw [inside] at stepped
        obtain ⟨-, stepped⟩ := stepped
        rw [State.stepThread, Option.some.injEq] at stepped
        rw [← stepped]
        exact State.storeWord_mem_self ..
      · rw [same, sound.cell_of_next apart life performed fun e _ => by rw [inside]; exact noStore e,
          cell]
  · rw [State.threads_of_next performed own acts, inside]
    refine ⟨progress.history.succ fun absurdly => absurd absurdly acts, ?_, kept⟩
    unfold Cell
    rw [← progress.kept.privateAddress,
      sound.cell_of_next apart life performed fun e here => absurd here acts, cell]

end Histories

theorem ProcessReturns.progress {run : Run (system config)} {p d first last : Nat} {result : Bool}
    (returns : ProcessReturns run p d first last result) (meets : run.Meets PrivateApart)
    {index : Nat} (after : first < index) (before : index ≤ last) :
    Progress run p d first index ((run.state index).threads p) := by
  induction index, after using Nat.le_induction with
  | base =>
    have started : (run.state first).next config (run.action first) =
        some (run.state (first + 1)) :=
      run.steps first (Nat.lt_trans returns.later returns.inside)
    rw [returns.begins] at started
    simp only [State.next, Option.ite_none_right_eq_some, Option.some.injEq] at started
    rw [← started.2, State.goto_threads_self]
    refine ⟨fun other above below => ?_, ?_, ?_⟩
    · omega
    · rw [Cell, ← started.2]
      rfl
    · rw [← started.2]
      exact .refl _
  | succ index after inductionHypothesis =>
    have earlier : index < run.length := Nat.lt_trans before returns.inside
    exact Progress.next (Apart.of_run run meets index (Nat.le_of_lt earlier)) earlier after
      (returns.running index after (Nat.le_of_succ_le before)) rfl
      (inductionHypothesis (Nat.le_of_succ_le before))

/-- A call up to and including the step in which it returns. -/
theorem ProcessReturns.progress_last {run : Run (system config)} {p d first last : Nat}
    {result : Bool} (returns : ProcessReturns run p d first last result)
    (meets : run.Meets PrivateApart) :
    Progress run p d first (last + 1) (.returned result) := by
  have progress := Progress.next (Apart.of_run run meets last (Nat.le_of_lt returns.inside))
    returns.inside returns.later (returns.running last returns.later (Nat.le_refl last)) rfl
    (returns.progress meets returns.later (Nat.le_refl last))
  rw [returns.result] at progress
  exact progress

/-- In every run in which operations under way have private words of their own, every call of
`process()` is atomic. -/
theorem atomicProcesses_of_run (run : Run (system config)) (meets : run.Meets PrivateApart) :
    AtomicProcesses run where
  succeeded p d first last returns := by
    have progress := returns.progress_last meets
    obtain ⟨install, after, before, installs, others⟩ := progress.history
    exact ⟨⟨install, after, Nat.le_of_lt_succ before, installs,
      fun other above below => others other above (Nat.lt_succ_of_le below)⟩, progress.cell⟩
  failed p d first last returns := by
    have progress := returns.progress_last meets
    exact ⟨fun other above below => progress.history other above (Nat.lt_succ_of_le below),
      progress.cell⟩
  helpers index before := by
    by_cases installs : ∃ p d, run.action index = .step p ∧
        (run.state index).threads p = .install d ∧
        (run.state index).mem ((run.state index).desc d).address =
          ((run.state index).desc d).oldValue
    · obtain ⟨p, d, acts, inside, found⟩ := installs
      exact .inr ⟨p, d, installs_of_exchange before acts inside found (.refl _)⟩
    · exact .inl (leaves_of_not_install before fun p d acts inside found =>
        installs ⟨p, d, acts, inside, found⟩)

/-! ### A concrete run -/

/-- Two threads and one shared word, at address 8. -/
def Config.two : Config where
  pool := ⟨1024, 2, by decide⟩
  threads := 2
  shared := [8]

/-- The new pool, with every word zero. -/
def State.start : State where
  mem := fun _ => .plain 0
  desc := fun _ => .initialized
  durableMem := fun _ => .plain 0
  durableDesc := fun _ => .initialized
  life := fun _ => .free
  threads := fun _ => .idle

theorem State.initial_start (config : Config) : State.start.Initial config :=
  ⟨fun _ _ => rfl, fun _ _ => rfl, fun _ => rfl, fun _ => rfl, fun _ => rfl⟩

theorem exists_run (config : Config) (actions : List Action)
    (performed : (replay (State.next config) actions .start).isSome) :
    ∃ run : Run (system config), run.length = actions.length ∧
      (∀ index, replay (State.next config) (actions.take index) .start = some (run.state index)) ∧
      ∀ index, run.action index = actions.getD index default :=
  exists_run_of_next (State.Initial config) (State.next config) (State.initial_start config) actions
    performed

/-- A descriptor that is processed has been passed to `process()`. -/
theorem exists_process {run : Run (system config)} {d p index : Nat} (inside : index ≤ run.length)
    (life : (run.state index).life d = .processing p) :
    ∃ earlier, earlier < index ∧ run.action earlier = .process p d := by
  induction index with
  | zero =>
    have initial : (run.state 0).Initial config := run.starts
    rw [initial.life] at life
    cases life
  | succ index inductionHypothesis =>
    rcases State.processing_of_next (run.steps index inside) life with already | here
    · obtain ⟨earlier, below, acts⟩ := inductionHypothesis (Nat.le_of_lt inside) already
      exact ⟨earlier, Nat.lt_succ_of_lt below, acts⟩
    · exact ⟨index, Nat.lt_succ_self index, here⟩

/-- Allocate a descriptor and fill it. -/
def fill (p d address oldval newval private_ : Nat) : List Action :=
  [.allocate p d, .store p d (.address address), .store p d (.oldValue (.plain oldval)),
    .store p d (.newValue (.plain newval)), .store p d (.privateAddress private_)]

/-- Thread 1 installs its descriptor, which replaces 0 by 5. Thread 0 meets the pointer, helps, and
replaces 5 by 6. Thread 1 goes on. -/
def helpedProcess : List Action :=
  fill 1 0 8 0 5 24 ++ Action.process 1 0 :: List.replicate 2 (Action.step 1) ++
    fill 0 1 8 5 6 16 ++ Action.process 0 1 :: List.replicate 26 (Action.step 0) ++
    List.replicate 11 (Action.step 1)

/-- A test of the condition for two descriptors. -/
def State.privateApart (state : State) : Action → Bool
  | .process _ d => (List.range 2).all fun e => e == d ||
    (state.desc e).privateAddress.address != (state.desc d).privateAddress.address
  | _ => true

theorem ProcessReturns.of_replay {run : Run (system config)} {actions : List Action}
    (length : run.length = actions.length)
    (states : ∀ index, replay (State.next config) (actions.take index) .start =
      some (run.state index))
    (labels : ∀ index, run.action index = actions.getD index default) (p d first last : Nat)
    (result : Bool) (later : first < last) (inside : last < actions.length)
    (begins : actions.getD first default = .process p d)
    (running : (List.range (last - first)).all (fun count =>
      (replay (State.next config) (actions.take (first + 1 + count)) .start).any fun state =>
        (state.threads p).own == some d) = true)
    (returns : actions.getD last default = .step p)
    (returned : (replay (State.next config) (actions.take (last + 1)) .start).any
      (fun state => state.threads p = .returned result) = true) :
    ProcessReturns run p d first last result := by
  refine ⟨later, length ▸ inside, (labels first).trans begins, fun index after before => ?_,
    (labels last).trans returns,
    satisfies_of_replay (fun state => state.threads p = .returned result) (states (last + 1)) returned⟩
  have tested := List.all_eq_true.mp running (index - (first + 1)) (List.mem_range.mpr (by omega))
  rw [show first + 1 + (index - (first + 1)) = index by omega, states index, Option.any_some] at tested
  exact eq_of_beq tested

/-- Both calls are atomic there. -/
theorem atomicProcesses_of_run_helpedProcess : ∃ run : Run (system .two),
    run.Meets PrivateApart ∧ ProcessReturns run 0 1 13 39 true ∧ ProcessReturns run 1 0 5 50 true ∧
      AtomicProcesses run := by
  obtain ⟨run, length, states, actions⟩ := exists_run .two helpedProcess (by decide +kernel)
  have meets : run.Meets PrivateApart := by
    intro index inside p d acts e u different life
    have tested := test_of_replayTests State.privateApart (by decide +kernel) (length ▸ inside)
      (states index)
    obtain ⟨earlier, below, started⟩ := exists_process (Nat.le_of_lt inside) life
    have small : e < 2 := by
      have members : ∀ index < helpedProcess.length, ∀ u e,
          helpedProcess.getD index default = .process u e → e < 2 := by
        intro index inside u e here
        have known : (List.range helpedProcess.length).all (fun index =>
            match helpedProcess.getD index default with
            | .process _ e => e < 2
            | _ => true) = true := by decide
        have passes := List.all_eq_true.mp known index (List.mem_range.mpr inside)
        rw [here] at passes
        exact of_decide_eq_true passes
      exact members earlier (length ▸ Nat.lt_trans below inside) u e
        ((actions earlier).symm.trans started)
    rw [← actions, acts] at tested
    have apart := List.all_eq_true.mp tested e (List.mem_range.mpr small)
    simpa [different] using apart
  exact ⟨run, meets,
    .of_replay length states actions 0 1 13 39 true (by decide) (by decide) rfl (by decide +kernel)
      rfl (by decide +kernel),
    .of_replay length states actions 1 0 5 50 true (by decide) (by decide) rfl (by decide +kernel)
      rfl (by decide +kernel), atomicProcesses_of_run run meets⟩

end Pmwcas.Fasas
