/-
This file proves that the recoverable CAS is detectable: a crash image tells of each successful `Cas`
that it succeeded, and of no other one. The evidence is the tag in the target, and it moves to the
store entry of the process before the target is overwritten: whoever overwrites the target has noted
the success in the store and flushed the note.
-/

import Pmwcas.RecoverCAS

namespace Pmwcas.RCAS

open Transition

/-! ### What is promised -/

/-- The word carries this tag. -/
def Tagged (word process seq : Nat) : Prop :=
  processIdOf word = process ∧ seqIdOf word = seq

/-- The process and sequence number of the `Cas` whose exchange of the target succeeds in this
step. -/
def State.succeeds (state : State) : Action → Option (Nat × Nat)
  | .step process =>
    match state.pcs process with
    | .exchangeTarget call exist => if state.target = exist then some (process, call.seq) else none
    | _ => none
  | _ => none

section Runs

variable {config : Config}

/-- In this step the `Cas` of a process with this sequence number exchanges the target. -/
def Succeeds (run : Run (system config)) (process seq index : Nat) : Prop :=
  index < run.length ∧ (run.state index).succeeds (run.action index) = some (process, seq)

/-- In this step the `Cas` of a process with this sequence number returns true. -/
def ReturnsTrue (run : Run (system config)) (process seq index : Nat) : Prop :=
  index < run.length ∧ run.action index = .step process ∧
    ∃ call, (run.state index).pcs process = .flushSuccess call ∧ call.seq = seq

/-- In this step some `Cas` exchanges the target that carries this tag. -/
def Overwrites (run : Run (system config)) (process seq index : Nat) : Prop :=
  (∃ other again, Succeeds run other again index) ∧ Tagged (run.state index).target process seq

/-- In this step a process writes its entry of the store. -/
def WritesStore (run : Run (system config)) (process index : Nat) : Prop :=
  index < run.length ∧ run.action index = .step process ∧
    ∃ call exist, (run.state index).pcs process = .storeOwn call exist

/-- The crash image of this state shows the success. -/
def Shows (state : State) (process seq : Nat) : Prop :=
  Tagged state.durableTarget process seq ∨ state.durableStore process = info seq 1

/-- What `RCAS` promises over a run. -/
structure Detectable (run : Run (system config)) : Prop where
  noFalsePositive : ∀ crash ≤ run.length, ∀ process seq, 1 ≤ seq →
    Shows (run.state crash) process seq → ∃ index < crash, Succeeds run process seq index
  noLoss : ∀ process seq index, Succeeds run process seq index → ∀ settled, index < settled →
    settled < run.length → ReturnsTrue run process seq settled ∨ Overwrites run process seq settled →
    ∀ crash, settled < crash → crash ≤ run.length →
    (∀ step, index < step → step < crash → ¬ WritesStore run process step) →
    Shows (run.state crash) process seq

end Runs

/-! ### What the processes know -/

/-- The word a process has found in the target. -/
def Pc.exist : Pc → Option Nat
  | .flushTarget _ exist | .exchangeStore _ exist | .flushStore _ exist | .storeOwn _ exist
  | .flushOwn _ exist | .exchangeTarget _ exist => some exist
  | _ => none

/-- The call before its exchange of the target. -/
def Pc.pending : Pc → Option Arguments
  | .loadTarget call | .flushTarget call _ | .exchangeStore call _ | .flushStore call _
  | .storeOwn call _ | .flushOwn call _ | .exchangeTarget call _ => some call
  | _ => none

/-- The call that has written the process's own entry of the store. -/
def Pc.written : Pc → Option Arguments
  | .flushOwn call _ | .exchangeTarget call _ | .flushSuccess call => some call
  | _ => none

/-- The word whose tag a process has noted in the store. -/
def Pc.noted : Pc → Option Nat
  | .flushStore _ exist | .storeOwn _ exist | .flushOwn _ exist | .exchangeTarget _ exist =>
    some exist
  | _ => none

/-- The word whose note a process has flushed. -/
def Pc.persisted : Pc → Option Nat
  | .storeOwn _ exist | .flushOwn _ exist | .exchangeTarget _ exist => some exist
  | _ => none

/-- The tag of the word is that of a success. -/
def Honest (Won : Nat → Nat → Prop) (word : Nat) : Prop :=
  1 ≤ seqIdOf word → Won (processIdOf word) (seqIdOf word)

/-- Tags and notes tell the truth: `Won` are the processes and sequence numbers that have succeeded. -/
structure Truthful (config : Config) (Won : Nat → Nat → Prop) (state : State) : Prop where
  target : Honest Won state.target
  durableTarget : Honest Won state.durableTarget
  store : ∀ process seq, 1 ≤ seq → state.store process = info seq 1 → Won process seq
  durableStore : ∀ process seq, 1 ≤ seq → state.durableStore process = info seq 1 →
    Won process seq
  exist : ∀ process exist, (state.pcs process).exist = some exist → Honest Won exist
  used : ∀ process seq, Won process seq → seq ∈ state.used process
  pending : ∀ process call, (state.pcs process).pending = some call →
    ¬ Won process call.seq ∧ call.seq ∈ state.used process ∧ process < config.maxThread ∧
      1 ≤ call.seq ∧ call.seq ≤ 255 ∧ call.newValue < 2 ^ 48
  written : ∀ process call, (state.pcs process).written = some call →
    state.store process = info call.seq 0 ∨ state.store process = info call.seq 1

/-- The evidence of a success from the exchange on until the process writes its entry of the store
again. -/
structure Covered (process seq : Nat) (state : State) : Prop where
  store : state.store process = info seq 0 ∨ state.store process = info seq 1
  noted : ∀ other exist, (state.pcs other).noted = some exist → Tagged exist process seq →
    state.store process = info seq 1
  persisted : ∀ other exist, (state.pcs other).persisted = some exist → Tagged exist process seq →
    state.durableStore process = info seq 1
  here : Tagged state.target process seq ∨
    state.store process = info seq 1 ∧ state.durableStore process = info seq 1

/-- The evidence is durable. -/
def Safe (process seq : Nat) (state : State) : Prop :=
  Tagged state.target process seq ∧ Tagged state.durableTarget process seq ∨
    state.store process = info seq 1 ∧ state.durableStore process = info seq 1

/-! ### The steps -/

/-- The steps of a process inside a call: what the memory is after it, and where the process is. -/
inductive Steps (state : State) (process : Nat) : State → Pc → Prop
  | mismatch (call : Arguments) (pc : state.pcs process = .loadTarget call) :
    Steps state process state .flushOther
  | load (call : Arguments) (pc : state.pcs process = .loadTarget call) :
    Steps state process state (.flushTarget call state.target)
  | flushOther (pc : state.pcs process = .flushOther) :
    Steps state process state.flushTarget (.idle (some false))
  | flushTarget (call : Arguments) (exist : Nat) (pc : state.pcs process = .flushTarget call exist) :
    Steps state process state.flushTarget (.exchangeStore call exist)
  | note (call : Arguments) (exist : Nat) (pc : state.pcs process = .exchangeStore call exist)
    (open_ : state.store (processIdOf exist) = info (seqIdOf exist) 0) :
    Steps state process (state.setStore (processIdOf exist) (info (seqIdOf exist) 1))
      (.flushStore call exist)
  | noteKept (call : Arguments) (exist : Nat) (pc : state.pcs process = .exchangeStore call exist)
    (other : state.store (processIdOf exist) ≠ info (seqIdOf exist) 0) :
    Steps state process state (.flushStore call exist)
  | flushStore (call : Arguments) (exist : Nat) (pc : state.pcs process = .flushStore call exist) :
    Steps state process (state.flushStore (processIdOf exist)) (.storeOwn call exist)
  | storeOwn (call : Arguments) (exist : Nat) (pc : state.pcs process = .storeOwn call exist) :
    Steps state process (state.setStore process (info call.seq 0)) (.flushOwn call exist)
  | flushOwn (call : Arguments) (exist : Nat) (pc : state.pcs process = .flushOwn call exist) :
    Steps state process (state.flushStore process) (.exchangeTarget call exist)
  | overwrite (call : Arguments) (exist : Nat) (pc : state.pcs process = .exchangeTarget call exist)
    (same : state.target = exist) :
    Steps state process { state with target := targetValue call.seq process call.newValue }
      (.flushSuccess call)
  | lost (call : Arguments) (exist : Nat) (pc : state.pcs process = .exchangeTarget call exist)
    (other : state.target ≠ exist) : Steps state process state (.idle (some false))
  | flushSuccess (call : Arguments) (pc : state.pcs process = .flushSuccess call) :
    Steps state process state.flushTarget (.idle (some true))
  | readTarget (pc : state.pcs process = .readTarget) :
    Steps state process state (.readFlush state.target)
  | readFlush (exist : Nat) (pc : state.pcs process = .readFlush exist) :
    Steps state process state.flushTarget (.idle none)

theorem stepProcess_cases {config : Config} {state after : State} {process : Nat}
    (step : state.stepProcess config process = some after) :
    ∃ memory pc, Steps state process memory pc ∧ after = memory.goto process pc := by
  unfold State.stepProcess at step
  split at step
  · cases step
  · next call pc =>
    split at step
    · cases step
    · split at step
      · cases step
        exact ⟨_, _, .mismatch call pc, rfl⟩
      · cases step
        exact ⟨_, _, .load call pc, rfl⟩
  · next pc =>
    cases step
    exact ⟨_, _, .flushOther pc, rfl⟩
  · next call exist pc =>
    cases step
    exact ⟨_, _, .flushTarget call exist pc, rfl⟩
  · next call exist pc =>
    split at step
    · next open_ =>
      cases step
      exact ⟨_, _, .note call exist pc open_, rfl⟩
    · next other =>
      cases step
      exact ⟨_, _, .noteKept call exist pc other, rfl⟩
  · next call exist pc =>
    cases step
    exact ⟨_, _, .flushStore call exist pc, rfl⟩
  · next call exist pc =>
    cases step
    exact ⟨_, _, .storeOwn call exist pc, rfl⟩
  · next call exist pc =>
    cases step
    exact ⟨_, _, .flushOwn call exist pc, rfl⟩
  · next call exist pc =>
    split at step
    · next same =>
      cases step
      exact ⟨_, _, .overwrite call exist pc same, rfl⟩
    · next other =>
      cases step
      exact ⟨_, _, .lost call exist pc other, rfl⟩
  · next call pc =>
    cases step
    exact ⟨_, _, .flushSuccess call pc, rfl⟩
  · next pc =>
    cases step
    exact ⟨_, _, .readTarget pc, rfl⟩
  · next exist pc =>
    cases step
    exact ⟨_, _, .readFlush exist pc, rfl⟩

/-- A fact about the processes after one of them goes on. -/
theorem fact_goto {state : State} {process : Nat} {pc : Pc} (Fact : Nat → Pc → Prop)
    (own : Fact process pc) (others : ∀ other, Fact other (state.pcs other)) (other : Nat) :
    Fact other ((state.goto process pc).pcs other) := by
  rw [State.goto_pcs]
  by_cases same : other = process
  · subst same
    rw [Function.update_self]
    exact own
  · rw [Function.update_of_ne same]
    exact others other

/-! ### No false positive -/

section Truthful

variable {config : Config} {Won : Nat → Nat → Prop} {state : State}

theorem Truthful.goto (truthful : Truthful config Won state) {process : Nat} {pc : Pc}
    (exist : ∀ exist, pc.exist = some exist → Honest Won exist)
    (pending : ∀ call, pc.pending = some call → ¬ Won process call.seq ∧
      call.seq ∈ state.used process ∧ process < config.maxThread ∧ 1 ≤ call.seq ∧ call.seq ≤ 255 ∧
        call.newValue < 2 ^ 48)
    (written : ∀ call, pc.written = some call →
      state.store process = info call.seq 0 ∨ state.store process = info call.seq 1) :
    Truthful config Won (state.goto process pc) :=
  { truthful with
    exist := fact_goto (fun _ pc => ∀ exist, pc.exist = some exist → Honest Won exist) exist
      truthful.exist
    pending := fact_goto (fun process pc => ∀ call, pc.pending = some call →
      ¬ Won process call.seq ∧ call.seq ∈ state.used process ∧ process < config.maxThread ∧
        1 ≤ call.seq ∧ call.seq ≤ 255 ∧ call.newValue < 2 ^ 48) pending truthful.pending
    written := fact_goto (fun process pc => ∀ call, pc.written = some call →
      state.store process = info call.seq 0 ∨ state.store process = info call.seq 1) written
      truthful.written }

theorem Truthful.flushTarget (truthful : Truthful config Won state) :
    Truthful config Won state.flushTarget :=
  { truthful with durableTarget := truthful.target }

theorem Truthful.flushStore (truthful : Truthful config Won state) (flushed : Nat) :
    Truthful config Won (state.flushStore flushed) :=
  { truthful with
    durableStore := fun process seq positive here => by
      by_cases same : process = flushed
      · subst same
        rw [State.flushStore_durableStore, Function.update_self] at here
        exact truthful.store process seq positive here
      · rw [State.flushStore_durableStore, Function.update_of_ne same] at here
        exact truthful.durableStore process seq positive here }

/-- The note of a success. -/
theorem Truthful.note (truthful : Truthful config Won state) {noted seq : Nat}
    (open_ : state.store noted = info seq 0) (won : 1 ≤ seq → Won noted seq) :
    Truthful config Won (state.setStore noted (info seq 1)) :=
  { truthful with
    store := fun process seq positive here => by
      by_cases same : process = noted
      · subst same
        rw [State.setStore_store, Function.update_self] at here
        cases info_one_inj here
        exact won positive
      · rw [State.setStore_store, Function.update_of_ne same] at here
        exact truthful.store process seq positive here
    written := fun process call here => by
      have before := truthful.written process call here
      by_cases same : process = noted
      · subst same
        rw [State.setStore_store, Function.update_self]
        rw [open_] at before
        rcases before with zero | one
        · rw [info_zero_inj zero]
          exact .inr rfl
        · exact absurd one (info_zero_ne_one _ _)
      · rw [State.setStore_store, Function.update_of_ne same]
        exact before }

/-- A process writes its entry of the store. -/
theorem Truthful.storeOwn (truthful : Truthful config Won state) {process : Nat}
    (none_ : (state.pcs process).written = none) (seq : Nat) :
    Truthful config Won (state.setStore process (info seq 0)) :=
  { truthful with
    store := fun other again positive here => by
      by_cases same : other = process
      · subst same
        rw [State.setStore_store, Function.update_self] at here
        exact absurd here (info_zero_ne_one _ _)
      · rw [State.setStore_store, Function.update_of_ne same] at here
        exact truthful.store other again positive here
    written := fun other call here => by
      by_cases same : other = process
      · subst same
        have here' : (state.pcs other).written = some call := here
        rw [none_] at here'
        cases here'
      · rw [State.setStore_store, Function.update_of_ne same]
        exact truthful.written other call here }

/-- The successes with the one of this step. -/
def Now (Won : Nat → Nat → Prop) (event : Option (Nat × Nat)) (process seq : Nat) : Prop :=
  Won process seq ∨ event = some (process, seq)

theorem Honest.now {word : Nat} (honest : Honest Won word) (event : Option (Nat × Nat)) :
    Honest (Now Won event) word :=
  fun positive => .inl (honest positive)

theorem now_none : Now Won none = Won := by
  funext process seq
  simp [Now]

/-- The exchange of the target. -/
theorem Truthful.overwrite (truthful : Truthful config Won state) {process : Nat}
    {call : Arguments} {exist : Nat} (pc : state.pcs process = .exchangeTarget call exist) :
    Truthful config (Now Won (some (process, call.seq)))
      ({ state with target := targetValue call.seq process call.newValue }.goto process
        (.flushSuccess call)) := by
  obtain ⟨-, used, inside, positive, range, value⟩ :=
    truthful.pending process call (by rw [pc]; rfl)
  have small : process < 2 ^ 8 := Nat.lt_of_lt_of_le inside config.maxThread_le
  have processId : processIdOf (targetValue call.seq process call.newValue) = process :=
    processIdOf_targetValue small value
  have seqId := seqIdOf_targetValue (Nat.lt_succ_of_le range) small value
  exact
    { target := fun _ => by
        show Now Won _ (processIdOf (targetValue _ _ _)) (seqIdOf (targetValue _ _ _))
        rw [processId, seqId]
        exact .inr rfl
      durableTarget := truthful.durableTarget.now _
      store := fun other seq positive here => .inl (truthful.store other seq positive here)
      durableStore := fun other seq positive here =>
        .inl (truthful.durableStore other seq positive here)
      exist := fact_goto (fun _ pc => ∀ exist, pc.exist = some exist →
          Honest (Now Won (some (process, call.seq))) exist) nofun
        fun other exist here => (truthful.exist other exist here).now _
      used := fun other seq won => by
        rcases won with before | now
        · exact truthful.used other seq before
        · cases now
          exact used
      pending := fun other call' here => by
        by_cases same : other = process
        · subst same
          rw [State.goto_pcs, Function.update_self] at here
          cases here
        · rw [State.goto_pcs, Function.update_of_ne same] at here
          obtain ⟨notWon, rest⟩ := truthful.pending other call' here
          refine ⟨?_, rest⟩
          rintro (before | now)
          · exact notWon before
          · exact same (congrArg Prod.fst (Option.some.inj now)).symm
      written := fact_goto (fun process pc => ∀ call, pc.written = some call →
          state.store process = info call.seq 0 ∨ state.store process = info call.seq 1)
        (fun call' here => by
          cases here
          exact truthful.written process call (by rw [pc]; rfl))
        truthful.written }

theorem Truthful.step (truthful : Truthful config Won state) {process : Nat} {memory : State}
    {pc : Pc} (steps : Steps state process memory pc) :
    Truthful config (Now Won (state.succeeds (.step process))) (memory.goto process pc) := by
  have quiet : ∀ {pc : Pc}, state.pcs process = pc → (∀ call exist, pc ≠ .exchangeTarget call exist) →
      Now Won (state.succeeds (.step process)) = Won := by
    intro pc here other
    have none_ : state.succeeds (.step process) = none := by
      simp only [State.succeeds, here]
    rw [none_, now_none]
  cases steps with
  | mismatch call here =>
    rw [quiet here (by simp)]
    exact truthful.goto nofun nofun nofun
  | load call here =>
    rw [quiet here (by simp)]
    refine truthful.goto (fun exist same => ?_) (fun call' same => ?_) nofun
    · cases same
      exact truthful.target
    · cases same
      exact truthful.pending process call (by rw [here]; rfl)
  | flushOther here =>
    rw [quiet here (by simp)]
    exact truthful.flushTarget.goto nofun nofun nofun
  | flushTarget call exist here =>
    rw [quiet here (by simp)]
    refine truthful.flushTarget.goto (fun exist' same => ?_) (fun call' same => ?_) nofun
    · cases same
      exact truthful.exist process exist (by rw [here]; rfl)
    · cases same
      exact truthful.pending process call (by rw [here]; rfl)
  | note call exist here open_ =>
    rw [quiet here (by simp)]
    have honest := truthful.exist process exist (by rw [here]; rfl)
    refine (truthful.note open_ honest).goto (fun exist' same => ?_) (fun call' same => ?_) nofun
    · cases same
      exact honest
    · cases same
      exact truthful.pending process call (by rw [here]; rfl)
  | noteKept call exist here other =>
    rw [quiet here (by simp)]
    refine truthful.goto (fun exist' same => ?_) (fun call' same => ?_) nofun
    · cases same
      exact truthful.exist process exist (by rw [here]; rfl)
    · cases same
      exact truthful.pending process call (by rw [here]; rfl)
  | flushStore call exist here =>
    rw [quiet here (by simp)]
    refine (truthful.flushStore _).goto (fun exist' same => ?_) (fun call' same => ?_) nofun
    · cases same
      exact truthful.exist process exist (by rw [here]; rfl)
    · cases same
      exact truthful.pending process call (by rw [here]; rfl)
  | storeOwn call exist here =>
    rw [quiet here (by simp)]
    have none_ : (state.pcs process).written = none := by rw [here]; rfl
    refine (truthful.storeOwn none_ call.seq).goto (fun exist' same => ?_) (fun call' same => ?_)
      fun call' same => ?_
    · cases same
      exact truthful.exist process exist (by rw [here]; rfl)
    · cases same
      exact truthful.pending process call (by rw [here]; rfl)
    · cases same
      exact .inl (Function.update_self _ _ _)
  | flushOwn call exist here =>
    rw [quiet here (by simp)]
    refine (truthful.flushStore _).goto (fun exist' same => ?_) (fun call' same => ?_)
      fun call' same => ?_
    · cases same
      exact truthful.exist process exist (by rw [here]; rfl)
    · cases same
      exact truthful.pending process call (by rw [here]; rfl)
    · cases same
      exact truthful.written process call (by rw [here]; rfl)
  | overwrite call exist here same =>
    have event : state.succeeds (.step process) = some (process, call.seq) := by
      simp only [State.succeeds, here, if_pos same]
    rw [event]
    exact truthful.overwrite here
  | lost call exist here other =>
    have event : state.succeeds (.step process) = none := by
      simp only [State.succeeds, here, if_neg other]
    rw [event, now_none]
    exact truthful.goto nofun nofun nofun
  | flushSuccess call here =>
    rw [quiet here (by simp)]
    exact truthful.flushTarget.goto nofun nofun nofun
  | readTarget here =>
    rw [quiet here (by simp)]
    exact truthful.goto nofun nofun nofun
  | readFlush exist here =>
    rw [quiet here (by simp)]
    exact truthful.flushTarget.goto nofun nofun nofun

theorem Truthful.next (truthful : Truthful config Won state) {action : Action} {after : State}
    (step : state.next config action = some after) :
    Truthful config (Now Won (state.succeeds action)) after := by
  cases action with
  | cas process call =>
    simp only [State.next] at step
    split at step
    · next allows =>
      obtain ⟨inside, idle, positive, range, new, -, value⟩ := allows
      cases step
      rw [show state.succeeds (.cas process call) = none from rfl, now_none]
      have notWon : ¬ Won process call.seq := fun won => new (truthful.used process call.seq won)
      refine Truthful.goto ?_ nofun (fun call' same => ?_) nofun
      · exact
          { truthful with
            used := fun other seq won => state.mem_use_of_mem process _ (truthful.used other seq won)
            pending := fun other call' here => by
              obtain ⟨before, used, rest⟩ := truthful.pending other call' here
              exact ⟨before, state.mem_use_of_mem process _ used, rest⟩ }
      · cases same
        exact ⟨notWon, state.mem_use process _, inside, positive, range, value⟩
    · cases step
  | readValue process =>
    simp only [State.next] at step
    split at step
    · cases step
      rw [show state.succeeds (.readValue process) = none from rfl, now_none]
      exact truthful.goto nofun nofun nofun
    · cases step
  | step process =>
    obtain ⟨memory, pc, steps, rfl⟩ := stepProcess_cases step
    exact truthful.step steps
  | writeBackTarget =>
    cases step
    rw [show state.succeeds .writeBackTarget = none from rfl, now_none]
    exact truthful.flushTarget
  | writeBackStore process =>
    cases step
    rw [show state.succeeds (.writeBackStore process) = none from rfl, now_none]
    exact truthful.flushStore process

end Truthful

/-! ### No loss -/

section Covered

variable {config : Config} {process seq : Nat} {state : State}

theorem Covered.goto (covered : Covered process seq state) {acting : Nat} {pc : Pc}
    (noted : ∀ exist, pc.noted = some exist → Tagged exist process seq →
      state.store process = info seq 1)
    (persisted : ∀ exist, pc.persisted = some exist → Tagged exist process seq →
      state.durableStore process = info seq 1) : Covered process seq (state.goto acting pc) :=
  { covered with
    noted := fact_goto (fun _ pc => ∀ exist, pc.noted = some exist → Tagged exist process seq →
      state.store process = info seq 1) noted covered.noted
    persisted := fact_goto (fun _ pc => ∀ exist, pc.persisted = some exist →
      Tagged exist process seq → state.durableStore process = info seq 1) persisted
      covered.persisted }

theorem Covered.flushTarget (covered : Covered process seq state) :
    Covered process seq state.flushTarget :=
  { covered with }

theorem Covered.flushStore (covered : Covered process seq state) (flushed : Nat)
    (written : ∀ other exist, (state.pcs other).persisted = some exist → Tagged exist process seq →
      state.store process = info seq 1) : Covered process seq (state.flushStore flushed) := by
  have durable : state.durableStore process = info seq 1 → state.store process = info seq 1 →
      (state.flushStore flushed).durableStore process = info seq 1 := by
    intro before store
    rw [State.flushStore_durableStore]
    by_cases same : process = flushed
    · subst same
      rw [Function.update_self]
      exact store
    · rw [Function.update_of_ne same]
      exact before
  exact
    { covered with
      persisted := fun other exist here tagged =>
        durable (covered.persisted other exist here tagged) (written other exist here tagged)
      here := covered.here.imp id fun both => ⟨both.1, durable both.2 both.1⟩ }

/-- Whoever has flushed a note has made it. -/
theorem Covered.persisted_noted (covered : Covered process seq state) (other exist : Nat)
    (here : (state.pcs other).persisted = some exist) (tagged : Tagged exist process seq) :
    state.store process = info seq 1 := by
  refine covered.noted other exist ?_ tagged
  cases pc : state.pcs other with
  | storeOwn | flushOwn | exchangeTarget =>
    rw [pc] at here
    exact here
  | _ =>
    rw [pc] at here
    cases here

/-- A store of another entry, or the note of this success. -/
theorem Covered.setStore (covered : Covered process seq state) {entry value : Nat}
    (same : entry = process → state.store process = info seq 0 ∧ value = info seq 1) :
    Covered process seq (state.setStore entry value) := by
  have store : (state.setStore entry value).store process = state.store process ∨
      state.store process = info seq 0 ∧ (state.setStore entry value).store process = info seq 1 := by
    rw [State.setStore_store]
    by_cases equal : process = entry
    · obtain ⟨before, rfl⟩ := same equal.symm
      subst equal
      rw [Function.update_self]
      exact .inr ⟨before, rfl⟩
    · rw [Function.update_of_ne equal]
      exact .inl rfl
  have kept : state.store process = info seq 1 →
      (state.setStore entry value).store process = info seq 1 := by
    intro one
    rcases store with kept | ⟨zero, -⟩
    · rw [kept, one]
    · rw [one] at zero
      exact absurd zero.symm (info_zero_ne_one _ _)
  exact
    { covered with
      store := by
        rcases store with kept | ⟨-, one⟩
        · rw [kept]
          exact covered.store
        · exact .inr one
      noted := fun other exist here tagged => kept (covered.noted other exist here tagged)
      here := covered.here.imp id fun both => ⟨kept both.1, both.2⟩ }

/-- Whoever overwrites the target with this tag has a durable note of it. -/
theorem Covered.overwritten (covered : Covered process seq state) {acting exist : Nat}
    {call : Arguments} (pc : state.pcs acting = .exchangeTarget call exist)
    (same : state.target = exist) :
    state.store process = info seq 1 ∧ state.durableStore process = info seq 1 := by
  rcases covered.here with tagged | both
  · rw [same] at tagged
    have persisted : (state.pcs acting).persisted = some exist := by
      rw [pc]
      rfl
    exact ⟨covered.persisted_noted acting exist persisted tagged,
      covered.persisted acting exist persisted tagged⟩
  · exact both

theorem Covered.step (covered : Covered process seq state) {acting : Nat} {memory : State} {pc : Pc}
    (steps : Steps state acting memory pc)
    (notOwn : ∀ call exist, state.pcs process = .storeOwn call exist → acting ≠ process) :
    Covered process seq (memory.goto acting pc) := by
  cases steps with
  | mismatch | load | lost | readTarget => exact covered.goto nofun nofun
  | flushOther | flushTarget | flushSuccess | readFlush =>
    exact covered.flushTarget.goto nofun nofun
  | note call exist here open_ =>
    have stored : processIdOf exist = process →
        state.store process = info seq 0 ∧ info (seqIdOf exist) 1 = info seq 1 := by
      intro same
      rw [same] at open_
      rcases covered.store with zero | one
      · rw [open_] at zero
        exact ⟨open_.trans zero, by rw [info_zero_inj zero]⟩
      · rw [open_] at one
        exact absurd one (info_zero_ne_one _ _)
    refine (covered.setStore stored).goto (fun exist' same tagged => ?_) nofun
    cases same
    rw [State.setStore_store, tagged.1, tagged.2, Function.update_self]
  | noteKept call exist here other =>
    refine covered.goto (fun exist' same tagged => ?_) nofun
    cases same
    rw [tagged.1, tagged.2] at other
    exact covered.store.resolve_left other
  | flushStore call exist here =>
    have noted : (state.pcs acting).noted = some exist := by
      rw [here]
      rfl
    refine (covered.flushStore _ covered.persisted_noted).goto (fun exist' same tagged => ?_)
      fun exist' same tagged => ?_
    · cases same
      exact covered.noted acting exist noted tagged
    · cases same
      rw [State.flushStore_durableStore, tagged.1, Function.update_self]
      exact covered.noted acting exist noted tagged
  | storeOwn call exist here =>
    have other : acting = process →
        state.store process = info seq 0 ∧ info call.seq 0 = info seq 1 := by
      rintro rfl
      exact absurd rfl (notOwn call exist here)
    have persisted : (state.pcs acting).persisted = some exist := by
      rw [here]
      rfl
    have after := covered.setStore other
    refine after.goto (fun exist' same tagged => ?_) fun exist' same tagged => ?_
    · cases same
      exact after.persisted_noted acting exist persisted tagged
    · cases same
      exact after.persisted acting exist persisted tagged
  | flushOwn call exist here =>
    have persisted : (state.pcs acting).persisted = some exist := by
      rw [here]
      rfl
    have after := covered.flushStore acting covered.persisted_noted
    refine after.goto (fun exist' same tagged => ?_) fun exist' same tagged => ?_
    · cases same
      exact after.persisted_noted acting exist persisted tagged
    · cases same
      exact after.persisted acting exist persisted tagged
  | overwrite call exist here same =>
    have both := covered.overwritten here same
    refine Covered.goto ?_ nofun nofun
    exact { covered with here := .inr both }

theorem Safe.step (safe : Safe process seq state) (covered : Covered process seq state) {acting : Nat}
    {memory : State} {pc : Pc} (steps : Steps state acting memory pc)
    (notOwn : ∀ call exist, state.pcs process = .storeOwn call exist → acting ≠ process) :
    Safe process seq (memory.goto acting pc) := by
  rcases safe with ⟨target, durable⟩ | both
  · cases steps with
    | overwrite call exist here same => exact .inr (covered.overwritten here same)
    | flushOther | flushTarget | flushSuccess | readFlush => exact .inl ⟨target, target⟩
    | _ => exact .inl ⟨target, durable⟩
  · have flushed : ∀ entry, (state.flushStore entry).durableStore process = info seq 1 := by
      intro entry
      rw [State.flushStore_durableStore]
      by_cases same : process = entry
      · subst same
        rw [Function.update_self]
        exact both.1
      · rw [Function.update_of_ne same]
        exact both.2
    refine .inr ?_
    cases steps with
    | note call exist here open_ =>
      have other : process ≠ processIdOf exist := by
        rintro rfl
        rw [both.1] at open_
        exact info_zero_ne_one _ _ open_.symm
      exact ⟨(Function.update_of_ne other _ _).trans both.1, both.2⟩
    | storeOwn call exist here =>
      have other : process ≠ acting := by
        rintro rfl
        exact notOwn call exist here rfl
      exact ⟨(Function.update_of_ne other _ _).trans both.1, both.2⟩
    | flushStore call exist => exact ⟨both.1, flushed (processIdOf exist)⟩
    | flushOwn => exact ⟨both.1, flushed acting⟩
    | _ => exact both

/-- The step is not the one in which the process writes its entry of the store. -/
def NotOwn (process : Nat) (state : State) (action : Action) : Prop :=
  ∀ call exist, state.pcs process = .storeOwn call exist → action ≠ .step process

theorem Covered.next (covered : Covered process seq state) {action : Action} {after : State}
    (notOwn : NotOwn process state action) (step : state.next config action = some after) :
    Covered process seq after := by
  cases action with
  | cas acting call =>
    simp only [State.next] at step
    split at step
    · cases step
      refine Covered.goto ?_ nofun nofun
      exact { covered with }
    · cases step
  | readValue acting =>
    simp only [State.next] at step
    split at step
    · cases step
      exact covered.goto nofun nofun
    · cases step
  | step acting =>
    obtain ⟨memory, pc, steps, rfl⟩ := stepProcess_cases step
    refine covered.step steps fun call exist here same => notOwn call exist here ?_
    rw [same]
  | writeBackTarget =>
    cases step
    exact covered.flushTarget
  | writeBackStore entry =>
    cases step
    exact covered.flushStore entry covered.persisted_noted

theorem Safe.next (safe : Safe process seq state) (covered : Covered process seq state)
    {action : Action} {after : State} (notOwn : NotOwn process state action)
    (step : state.next config action = some after) : Safe process seq after := by
  cases action with
  | cas acting call =>
    simp only [State.next] at step
    split at step
    · cases step
      exact safe
    · cases step
  | readValue acting =>
    simp only [State.next] at step
    split at step
    · cases step
      exact safe
    · cases step
  | step acting =>
    obtain ⟨memory, pc, steps, rfl⟩ := stepProcess_cases step
    refine safe.step covered steps fun call exist here same => notOwn call exist here ?_
    rw [same]
  | writeBackTarget =>
    cases step
    rcases safe with ⟨target, -⟩ | both
    · exact .inl ⟨target, target⟩
    · exact .inr both
  | writeBackStore entry =>
    cases step
    rcases safe with tagged | both
    · exact .inl tagged
    · refine .inr ⟨both.1, ?_⟩
      rw [State.flushStore_durableStore]
      by_cases same : process = entry
      · subst same
        rw [Function.update_self]
        exact both.1
      · rw [Function.update_of_ne same]
        exact both.2

end Covered

/-! ### Runs -/

section Detectable

variable {config : Config} {run : Run (system config)}

/-- The step of a success. -/
theorem overwrite_of_succeeds {state : State} {action : Action} {process seq : Nat}
    (succeeds : state.succeeds action = some (process, seq)) :
    action = .step process ∧ ∃ call exist, state.pcs process = .exchangeTarget call exist ∧
      state.target = exist ∧ call.seq = seq := by
  cases action with
  | step acting =>
    simp only [State.succeeds] at succeeds
    split at succeeds
    · next call exist pc =>
      split at succeeds
      · next same =>
        cases succeeds
        exact ⟨rfl, call, exist, pc, same, rfl⟩
      · cases succeeds
    · cases succeeds
  | cas | readValue | writeBackTarget | writeBackStore => cases succeeds

theorem run_step (run : Run (system config)) {index : Nat} (inside : index < run.length) :
    (run.state index).next config (run.action index) = some (run.state (index + 1)) :=
  run.steps index inside

/-- The processes and sequence numbers that have succeeded before a point of the run. -/
def WonBefore (run : Run (system config)) (index process seq : Nat) : Prop :=
  ∃ earlier < index, Succeeds run process seq earlier

theorem wonBefore_succ {index : Nat} (inside : index < run.length) :
    WonBefore run (index + 1) =
      Now (WonBefore run index) ((run.state index).succeeds (run.action index)) := by
  funext process seq
  refine propext ⟨?_, ?_⟩
  · rintro ⟨earlier, below, succeeds⟩
    rcases Nat.lt_or_eq_of_le (Nat.le_of_lt_succ below) with before | rfl
    · exact .inl ⟨earlier, before, succeeds⟩
    · exact .inr succeeds.2
  · rintro (⟨earlier, below, succeeds⟩ | now)
    · exact ⟨earlier, Nat.lt_succ_of_lt below, succeeds⟩
    · exact ⟨index, Nat.lt_succ_self index, inside, now⟩

theorem truthful_start (config : Config) : Truthful config (fun _ _ => False) (.start config) := by
  have honest : Honest (fun _ _ => False) config.value := by
    intro positive
    rw [seqIdOf_eq] at positive
    have small := config.value_lt
    omega
  have unset : ∀ seq, 1 ≤ seq → 0 ≠ info seq 1 := by
    intro seq _
    rw [info_eq (by decide)]
    omega
  exact
    { target := honest
      durableTarget := honest
      store := fun _ seq positive here => absurd here (unset seq positive)
      durableStore := fun _ seq positive here => absurd here (unset seq positive)
      exist := nofun
      used := nofun
      pending := nofun
      written := nofun }

theorem truthful_of_run (run : Run (system config)) (index : Nat) (inside : index ≤ run.length) :
    Truthful config (WonBefore run index) (run.state index) := by
  induction index with
  | zero =>
    have starts : run.state 0 = .start config := run.starts
    have nobody : WonBefore run 0 = fun _ _ => False := by
      funext process seq
      refine propext ⟨?_, False.elim⟩
      rintro ⟨earlier, below, -⟩
      exact Nat.not_lt_zero earlier below
    rw [starts, nobody]
    exact truthful_start config
  | succ index inductionHypothesis =>
    rw [wonBefore_succ inside]
    exact (inductionHypothesis (Nat.le_of_lt inside)).next (run_step run inside)

/-- Right after the exchange the target carries the tag, and nobody has seen it yet. -/
theorem covered_of_succeeds {process seq index : Nat} (succeeds : Succeeds run process seq index) :
    Covered process seq (run.state (index + 1)) := by
  obtain ⟨inside, event⟩ := succeeds
  obtain ⟨action, call, exist, pc, same, rfl⟩ := overwrite_of_succeeds event
  have truthful := truthful_of_run run index (Nat.le_of_lt inside)
  obtain ⟨notWon, -, bound, positive, range, value⟩ :=
    truthful.pending process call (by rw [pc]; rfl)
  have small : process < 2 ^ 8 := Nat.lt_of_lt_of_le bound config.maxThread_le
  have unseen : ∀ other exist', ((run.state index).pcs other).exist = some exist' →
      ¬ Tagged exist' process call.seq := by
    rintro other exist' here ⟨processId, seqId⟩
    have honest := truthful.exist other exist' here
    rw [Honest, processId, seqId] at honest
    exact notWon (honest positive)
  have step := run_step run inside
  rw [action] at step
  simp only [State.next, State.stepProcess, pc, if_pos same] at step
  rw [← Option.some.inj step]
  have written := truthful.written process call (by rw [pc]; rfl)
  refine
    { store := written
      noted := fact_goto (fun _ pc => ∀ exist, pc.noted = some exist →
        Tagged exist process call.seq → _) nofun fun other exist' here tagged => ?_
      persisted := fact_goto (fun _ pc => ∀ exist, pc.persisted = some exist →
        Tagged exist process call.seq → _) nofun fun other exist' here tagged => ?_
      here := .inl ⟨processIdOf_targetValue small value,
        seqIdOf_targetValue (Nat.lt_succ_of_le range) small value⟩ }
  · refine absurd tagged (unseen other exist' ?_)
    cases otherPc : (run.state index).pcs other with
    | flushStore | storeOwn | flushOwn | exchangeTarget =>
      have here' : ((run.state index).pcs other).noted = some exist' := here
      rw [otherPc] at here'
      exact here'
    | _ =>
      have here' : ((run.state index).pcs other).noted = some exist' := here
      rw [otherPc] at here'
      cases here'
  · refine absurd tagged (unseen other exist' ?_)
    cases otherPc : (run.state index).pcs other with
    | storeOwn | flushOwn | exchangeTarget =>
      have here' : ((run.state index).pcs other).persisted = some exist' := here
      rw [otherPc] at here'
      exact here'
    | _ =>
      have here' : ((run.state index).pcs other).persisted = some exist' := here
      rw [otherPc] at here'
      cases here'

theorem notOwn_of_not_writesStore {process step : Nat} (inside : step < run.length)
    (notWrites : ¬ WritesStore run process step) :
    NotOwn process (run.state step) (run.action step) :=
  fun call exist here action => notWrites ⟨inside, action, call, exist, here⟩

/-- The evidence lasts until the process writes its entry again. -/
theorem covered_until {process seq index : Nat} (succeeds : Succeeds run process seq index)
    {crash : Nat} (later : index + 1 ≤ crash) (inside : crash ≤ run.length)
    (quiet : ∀ step, index < step → step < crash → ¬ WritesStore run process step) :
    Covered process seq (run.state crash) := by
  induction crash, later using Nat.le_induction with
  | base => exact covered_of_succeeds succeeds
  | succ crash later inductionHypothesis =>
    have before := inductionHypothesis (Nat.le_of_lt inside)
      fun step after below => quiet step after (Nat.lt_succ_of_lt below)
    exact before.next
      (notOwn_of_not_writesStore inside (quiet crash later (Nat.lt_succ_self crash)))
      (run_step run inside)

/-- The evidence is durable as soon as the call has returned or the target was overwritten. -/
theorem safe_of_settled {process seq settled : Nat}
    (covered : Covered process seq (run.state settled)) (inside : settled < run.length)
    (happens : ReturnsTrue run process seq settled ∨ Overwrites run process seq settled) :
    Safe process seq (run.state (settled + 1)) := by
  have step := run_step run inside
  rcases happens with ⟨-, action, call, pc, -⟩ | ⟨⟨other, again, -, event⟩, -⟩
  · rw [action] at step
    simp only [State.next, State.stepProcess, pc] at step
    rw [← Option.some.inj step]
    rcases covered.here with tagged | both
    · exact .inl ⟨tagged, tagged⟩
    · exact .inr both
  · obtain ⟨action, call, exist, pc, same, -⟩ := overwrite_of_succeeds event
    rw [action] at step
    simp only [State.next, State.stepProcess, pc, if_pos same] at step
    rw [← Option.some.inj step]
    exact .inr (covered.overwritten pc same)

end Detectable

/-- The recoverable CAS is detectable in every run. -/
theorem detectable_of_run (config : Config) (run : Run (system config)) : Detectable run where
  noFalsePositive crash inside process seq positive shows := by
    have truthful := truthful_of_run run crash inside
    rcases shows with ⟨rfl, rfl⟩ | noted
    · exact truthful.durableTarget positive
    · exact truthful.durableStore process seq positive noted
  noLoss process seq index succeeds settled later inside happens crash after below quiet := by
    have covered : ∀ point, index < point → point ≤ crash → Covered process seq (run.state point) :=
      fun point beyond before => covered_until succeeds beyond (before.trans below)
        fun step one two => quiet step one (Nat.lt_of_lt_of_le two before)
    have safe : Safe process seq (run.state crash) := by
      have start : settled + 1 ≤ crash := after
      clear after
      induction crash, start using Nat.le_induction with
      | base =>
        exact safe_of_settled (covered settled later (Nat.le_succ settled)) inside happens
      | succ crash start inductionHypothesis =>
        have before := inductionHypothesis (Nat.le_of_lt below)
          (fun step one two => quiet step one (Nat.lt_succ_of_lt two))
          fun point beyond before => covered point beyond (Nat.le_succ_of_le before)
        have beyond : index < crash := Nat.lt_of_lt_of_le later (Nat.le_of_succ_le start)
        exact before.next (covered crash beyond (Nat.le_succ crash))
          (notOwn_of_not_writesStore below (quiet crash beyond (Nat.lt_succ_self crash)))
          (run_step run below)
    rcases safe with ⟨-, tagged⟩ | ⟨-, noted⟩
    · exact .inl tagged
    · exact .inr noted

/-- Two processes; the target holds 5. -/
def Config.pair : Config where
  maxThread := 2
  maxThread_le := by decide
  value := 5
  value_lt := by decide

/-- Process 1 changes 5 to 6. Before its last flush process 0 changes 6 to 7. -/
def overtaken : List Action :=
  [.cas 1 ⟨5, 6, 1⟩] ++ List.replicate 7 (.step 1) ++ [.cas 0 ⟨6, 7, 1⟩] ++ List.replicate 8 (.step 0)

/-- The durable target has lost the tag of process 1, and the durable store shows its success. -/
theorem detectable_of_run_overtaken : ∃ run : Run (system .pair), Succeeds run 1 1 7 ∧
    processIdOf (run.state 17).durableTarget = 0 ∧ Shows (run.state 17) 1 1 := by
  obtain ⟨run, length, states, actions⟩ := exists_run_of_next
    (fun state => state = .start .pair) (State.next .pair) rfl overtaken (by decide +kernel)
  have inside : ∀ index < 17, index < run.length := fun index below => length ▸ below
  have first := satisfies_of_replay (fun state : State => state.succeeds (.step 1) = some (1, 1))
    (states 7) (by decide +kernel)
  have second := satisfies_of_replay (fun state : State => state.succeeds (.step 0) = some (0, 1) ∧
    processIdOf state.target = 1 ∧ seqIdOf state.target = 1) (states 15) (by decide +kernel)
  have last := satisfies_of_replay (fun state : State => processIdOf state.durableTarget = 0)
    (states 17) (by decide +kernel)
  have succeeds : Succeeds run 1 1 7 := ⟨inside 7 (by decide), by rw [actions 7]; exact first⟩
  have overwrites : Overwrites run 1 1 15 :=
    ⟨⟨0, 1, inside 15 (by decide), by rw [actions 15]; exact second.1⟩, second.2⟩
  have others : ∀ step < 17, 7 < step → overtaken.getD step default ≠ .step 1 := by decide +kernel
  exact ⟨run, succeeds, last, (detectable_of_run .pair run).noLoss 1 1 7 succeeds 15 (by decide)
    (inside 15 (by decide)) (.inr overwrites) 17 (by decide) (Nat.le_of_eq length.symm)
    fun step after before writes => others step before after ((actions step).symm.trans writes.2.1)⟩

end Pmwcas.RCAS
