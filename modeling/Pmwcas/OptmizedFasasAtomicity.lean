/-
This file proves when `OptmizedFASASDescriptor::process()` is atomic, and gives the run in which it
is not.

`process()` compares `oldval` with one load of the shared word and exchanges the word against
another. A tag has sixteen sequence numbers, so between the two loads and the exchange the word can
change and come back: then the exchange succeeds although the word never held `oldval` when it was
compared. As long as a comparison that succeeds has seen the value of the first load, every call
that returns true has swapped `oldval` for its new value in one step.
-/

import Pmwcas.OptmizedFasasMachine

namespace Pmwcas.OptmizedFasas

open Transition

variable {config : Config}

/-! ### Calls -/

/-- Process `p` calls `process()` in step `first`, and the call returns in step `last`. -/
structure CallReturns (run : Run (system config)) (p : Nat) (call : Call) (first last : Nat)
    (result : Bool) : Prop where
  later : first < last
  inside : last < run.length
  begins : run.action first = .process p call
  running : ∀ index, first < index → index ≤ last →
    ∃ pc, (run.state index).procs p = .inside call pc
  returns : run.action last = .step p
  result : (run.state (last + 1)).procs p = .returned result

/-- The step changes no shared word. -/
def Leaves (run : Run (system config)) (index : Nat) : Prop :=
  ∀ address, config.location address ≠ none →
    (run.state (index + 1)).mem address = (run.state index).mem address

/-- In this step the exchange of the call replaces `oldval` by `newval`, and changes no other
word. -/
structure Swaps (run : Run (system config)) (p : Nat) (call : Call) (index : Nat) : Prop where
  exchange : ∃ val newVal, (run.state index).procs p = .inside call (.cas val newVal)
  acts : run.action index = .step p
  before : actualValueOf ((run.state index).mem
    ((run.state index).desc (config.offset p call.locationId)).sharedAddress) = call.oldval
  after : actualValueOf ((run.state (index + 1)).mem
    ((run.state index).desc (config.offset p call.locationId)).sharedAddress) = call.newval
  others : ∀ address,
    address ≠ ((run.state index).desc (config.offset p call.locationId)).sharedAddress →
    (run.state (index + 1)).mem address = (run.state index).mem address

/-- Every call that returns has been one atomic exchange, or none. -/
structure AtomicCalls (run : Run (system config)) : Prop where
  succeeded : ∀ p call first last, CallReturns run p call first last true →
    ∃ index, first < index ∧ index ≤ last ∧ Swaps run p call index ∧
      ∀ other, first < other → other ≤ last → other ≠ index → run.action other = .step p →
        Leaves run other
  failed : ∀ p call first last, CallReturns run p call first last false →
    ∀ other, first < other → other ≤ last → run.action other = .step p → Leaves run other

/-- The condition: a comparison with `oldval` that succeeds has seen the value of the first load. -/
def LoadsAgree (config : Config) (state : State) (action : Action) : Prop :=
  ∀ p call val, action = .step p → state.procs p = .inside call (.loadActual val) →
    actualValueOf (state.mem (state.desc (config.offset p call.locationId)).sharedAddress) =
        call.oldval →
      actualValueOf val = call.oldval

/-! ### The value of the first load -/

/-- What a program point knows about the value of the first load. -/
def Pc.Agrees (call : Call) : Pc → Prop
  | .helpCheckSet val actualValue | .helpCheckSeq val actualValue | .helpCheckAgain val actualValue
  | .helpLoadStatus val actualValue | .helpCas val actualValue | .helpCheckLast val actualValue =>
    actualValue = call.oldval → actualValueOf val = call.oldval
  | .storeOld val | .storeNew val | .loadSeq val | .storeStatus val _ | .clearPrivateAddrSet val
  | .clearShareVarSet val | .loadNewVal val | .cas val _ => actualValueOf val = call.oldval
  | _ => True

def Agrees (state : State) : Prop :=
  ∀ p call pc, state.procs p = .inside call pc → pc.Agrees call

theorem State.stepCall_agrees {state state' : State} {p d : Nat} {call call' : Call} {pc pc' : Pc}
    (agrees : pc.Agrees call)
    (loads : ∀ val, pc = .loadActual val →
      actualValueOf (state.mem (state.desc d).sharedAddress) = call.oldval →
        actualValueOf val = call.oldval)
    (performed : state.stepCall config p d call pc = some state')
    (inside : state'.procs p = .inside call' pc') : call' = call ∧ pc'.Agrees call := by
  have helped : ∀ {val actualValue : Nat},
      (actualValue = call.oldval → actualValueOf val = call.oldval) →
      afterHelp call val actualValue = .inside call' pc' → call' = call ∧ pc'.Agrees call := by
    intro val actualValue known here
    obtain ⟨rfl, rfl, same⟩ := afterHelp_inside here
    exact ⟨rfl, known same⟩
  cases pc with
  | loadActual val =>
    rw [stepCall] at performed
    split at performed
    · simp only [Option.bind_eq_some_iff, Option.some.injEq] at performed
      obtain ⟨-, -, rfl⟩ := performed
      rw [goto_procs_self] at inside
      cases inside
      exact ⟨rfl, loads val rfl⟩
    · cases performed
      rw [goto_procs_self] at inside
      exact helped (loads val rfl) inside
  | helpCheckSet val actualValue | helpCheckSeq val actualValue =>
    rw [stepCall] at performed
    split at performed <;> cases performed <;> rw [goto_procs_self] at inside
    · exact helped agrees inside
    · cases inside
      exact ⟨rfl, agrees⟩
  | helpCheckAgain val actualValue =>
    rw [stepCall] at performed
    split at performed
    · cases performed
      rw [goto_procs_self] at inside
      exact helped agrees inside
    · split at performed <;> cases performed <;> rw [goto_procs_self] at inside
      · exact helped agrees inside
      · cases inside
        exact ⟨rfl, agrees⟩
  | helpLoadStatus val actualValue | helpCas val actualValue =>
    rw [stepCall] at performed
    split at performed <;> cases performed <;> rw [goto_procs_self] at inside <;> cases inside <;>
      exact ⟨rfl, agrees⟩
  | helpCheckLast val actualValue =>
    cases performed
    rw [goto_procs_self] at inside
    exact helped agrees inside
  | cas val newVal =>
    rw [stepCall] at performed
    split at performed <;> cases performed <;> rw [goto_procs_self] at inside <;> cases inside
    exact ⟨rfl, trivial⟩
  | loadVal | loadStatus | storeSucc | setShareVarSet | storePrivate | setPrivateAddrSet =>
    cases performed
    rw [goto_procs_self] at inside
    cases inside <;> exact ⟨rfl, trivial⟩
  | storeOld | storeNew | loadSeq | storeStatus | clearPrivateAddrSet | clearShareVarSet
  | loadNewVal =>
    cases performed
    rw [goto_procs_self] at inside
    cases inside
    exact ⟨rfl, agrees⟩

theorem Agrees.next {state state' : State} {action : Action} (agrees : Agrees state)
    (allowed : LoadsAgree config state action)
    (performed : state.next config action = some state') : Agrees state' := by
  intro u call pc inside
  cases action with
  | setSharedAddress | setPrivateAddress | setOpType =>
    simp only [State.next, State.set, Option.ite_none_right_eq_some, Option.some.injEq] at performed
    obtain ⟨-, rfl⟩ := performed
    exact agrees u call pc inside
  | process p call' =>
    simp only [State.next, Option.ite_none_right_eq_some, Option.some.injEq] at performed
    obtain ⟨-, rfl⟩ := performed
    by_cases same : u = p
    · subst same
      rw [State.goto_procs_self] at inside
      cases inside
      trivial
    · rw [State.goto_procs_of_ne _ same] at inside
      exact agrees u call pc inside
  | step p =>
    rw [State.next] at performed
    split at performed
    · next call' pc' here =>
      by_cases same : u = p
      · subst same
        obtain ⟨rfl, known⟩ := State.stepCall_agrees (agrees u call' pc' here)
          (fun val there => allowed u call' val rfl (here.trans (by rw [there]))) performed inside
        exact known
      · rw [(State.stepCall_frames performed).procs u same] at inside
        exact agrees u call pc inside
    · cases performed

theorem Agrees.of_run (run : Run (system config)) (meets : run.Meets (LoadsAgree config))
    (index : Nat) (inside : index ≤ run.length) : Agrees (run.state index) :=
  run.invariant meets
    (fun state initial p call pc here => by rw [initial.procs] at here; cases here)
    (fun _ _ _ agrees allowed step => agrees.next allowed step) index inside

/-! ### The exchange of a call -/

/-- The call has exchanged the shared word. -/
def Pc.swapped : Pc → Bool
  | .loadStatus | .storeSucc _ | .setShareVarSet | .storePrivate | .setPrivateAddrSet => true
  | _ => false

/-- A step of a call that is not its successful exchange. -/
structure Passes (config : Config) (state state' : State) (p : Nat) (call : Call) (pc : Pc) :
    Prop where
  leaves : ∀ address, config.location address ≠ none → state'.mem address = state.mem address
  inside : ∀ pc', state'.procs p = .inside call pc' → pc'.swapped = pc.swapped
  returned : ∀ result, state'.procs p = .returned result → result = pc.swapped

theorem Passes.of_goto {state after : State} {p : Nat} {call : Call} {pc pc' : Pc}
    (same : pc'.swapped = pc.swapped) (mem : after.mem = state.mem := by rfl) :
    Passes config state (after.goto p (.inside call pc')) p call pc where
  leaves address _ := congrFun mem address
  inside next here := by
    rw [State.goto_procs_self] at here
    cases here
    exact same
  returned result here := by
    rw [State.goto_procs_self] at here
    cases here

theorem Passes.of_returned {state after : State} {p : Nat} {call : Call} {pc : Pc} {result : Bool}
    (same : result = pc.swapped) (mem : after.mem = state.mem := by rfl) :
    Passes config state (after.goto p (.returned result)) p call pc where
  leaves address _ := congrFun mem address
  inside next here := by
    rw [State.goto_procs_self] at here
    cases here
  returned result' here := by
    rw [State.goto_procs_self] at here
    cases here
    exact same

theorem Pc.swapped_of_helping {pc : Pc} (helping : pc.helping = true) : pc.swapped = false := by
  cases pc <;> first | rfl | cases helping

/-- A step inside `getValueProtectedOfSharedVar`. -/
theorem Passes.of_help {state state' : State} {p d : Nat} {call : Call} {pc : Pc}
    (performed : state.stepCall config p d call pc = some state') (helping : pc.helping = true) :
    Passes config state state' p call pc := by
  have notYet := Pc.swapped_of_helping helping
  rcases State.stepCall_help performed helping with ⟨val, actualValue, rfl⟩ | ⟨pc', goes, rfl⟩ |
    ⟨val, actualValue, rfl, -, rfl⟩
  · unfold State.afterHelp
    split
    · exact .of_returned notYet.symm
    · exact .of_goto notYet.symm
  · exact .of_goto ((Pc.swapped_of_helping goes).trans notYet.symm)
  · exact .of_goto rfl

/-- A step of a call either is its successful exchange or changes no shared word. -/
theorem Sound.stepCall_cases {state state' : State} {p : Nat} {call : Call} {pc : Pc}
    (sound : Sound config state) (inside : state.procs p = .inside call pc)
    (performed : state.stepCall config p (config.offset p call.locationId) call pc = some state') :
    (∃ val newVal, pc = .cas val newVal ∧
      state.mem (state.desc (config.offset p call.locationId)).sharedAddress = val ∧
      state' = (state.storeWord (state.desc (config.offset p call.locationId)).sharedAddress
        newVal).goto p (.inside call .loadStatus)) ∨
    Passes config state state' p call pc := by
  cases pc with
  | loadVal | loadActual | helpCheckSet | helpCheckSeq | helpCheckAgain | helpLoadStatus | helpCas
  | helpCheckLast =>
    exact .inr (.of_help performed rfl)
  | cas val newVal =>
    rw [State.stepCall] at performed
    split at performed <;> cases performed
    · next same => exact .inl ⟨val, newVal, rfl, same, rfl⟩
    · exact .inr (.of_returned rfl)
  | storePrivate =>
    cases performed
    refine .inr ⟨fun address shared => ?_, fun next here => ?_, fun result here => ?_⟩
    · have notPrivate : address ≠
          (state.desc (config.offset p call.locationId)).privateAddress := by
        rintro rfl
        exact shared (sound.private_ _ (sound.ready p call _ inside).private_)
      exact State.storeWord_mem_of_ne state notPrivate _
    · rw [State.goto_procs_self] at here
      cases here
      rfl
    · rw [State.goto_procs_self] at here
      cases here
  | setPrivateAddrSet =>
    cases performed
    exact .inr (.of_returned rfl)
  | loadSeq | loadNewVal | loadStatus =>
    cases performed
    exact .inr (.of_goto rfl)
  | storeOld | storeNew | storeStatus | clearPrivateAddrSet | clearShareVarSet | storeSucc
  | setShareVarSet =>
    cases performed
    exact .inr (.of_goto rfl)

/-- Nobody else moves a call. -/
theorem State.procs_of_next {state state' : State} {action : Action} {p : Nat} {call : Call}
    {pc : Pc} (performed : state.next config action = some state')
    (inside : state.procs p = .inside call pc) (other : action ≠ .step p) :
    state'.procs p = .inside call pc := by
  cases action with
  | setSharedAddress | setPrivateAddress | setOpType =>
    simp only [State.next, State.set, Option.ite_none_right_eq_some, Option.some.injEq] at performed
    obtain ⟨-, rfl⟩ := performed
    exact inside
  | process u call' =>
    simp only [State.next, Option.ite_none_right_eq_some, Option.some.injEq] at performed
    obtain ⟨⟨free, -⟩, rfl⟩ := performed
    have different : p ≠ u := by
      rintro rfl
      rw [inside] at free
      exact free
    rw [State.goto_procs_of_ne _ different]
    exact inside
  | step u =>
    rw [State.next] at performed
    split at performed
    · have different : p ≠ u := fun same => other (by rw [same])
      rw [(State.stepCall_frames performed).procs p different]
      exact inside
    · cases performed

/-- What process `p` has done since its call began. -/
def History (run : Run (system config)) (p : Nat) (call : Call) (first index : Nat) :
    Bool → Prop
  | true => ∃ swap, first < swap ∧ swap < index ∧ Swaps run p call swap ∧
    ∀ other, first < other → other < index → other ≠ swap → run.action other = .step p →
      Leaves run other
  | false => ∀ other, first < other → other < index → run.action other = .step p → Leaves run other

section Histories

variable {run : Run (system config)} {p : Nat} {call : Call} {first index : Nat}

theorem History.succ {swapped : Bool} (history : History run p call first index swapped)
    (leaves : run.action index = .step p → Leaves run index) :
    History run p call first (index + 1) swapped := by
  have extended : ∀ Allowed : Nat → Prop, (∀ other, first < other → other < index →
      Allowed other → run.action other = .step p → Leaves run other) →
      ∀ other, first < other → other < index + 1 → Allowed other → run.action other = .step p →
        Leaves run other := by
    intro Allowed earlier other after before accepted acts
    rcases Nat.lt_or_eq_of_le (Nat.le_of_lt_succ before) with smaller | same
    · exact earlier other after smaller accepted acts
    · subst same
      exact leaves acts
  cases swapped with
  | true =>
    obtain ⟨swap, after, before, swaps, others⟩ := history
    exact ⟨swap, after, Nat.lt_succ_of_lt before, swaps, extended (· ≠ swap) others⟩
  | false =>
    intro other after before acts
    exact extended (fun _ => True) (fun other after before _ => history other after before) other
      after before trivial acts

/-- The successful exchange of a call. -/
theorem swaps_of_exchange {val newVal : Nat} (agrees : Agrees (run.state index))
    (sound : Sound config (run.state index)) (acts : run.action index = .step p)
    (inside : (run.state index).procs p = .inside call (.cas val newVal))
    (same : (run.state index).mem
      ((run.state index).desc (config.offset p call.locationId)).sharedAddress = val)
    (after : run.state (index + 1) = ((run.state index).storeWord
      ((run.state index).desc (config.offset p call.locationId)).sharedAddress newVal).goto p
        (.inside call .loadStatus)) : Swaps run p call index where
  exchange := ⟨val, newVal, inside⟩
  acts := acts
  before := by
    rw [same]
    exact agrees p call _ inside
  after := by
    have ready := sound.ready p call _ inside
    obtain ⟨-, -, made⟩ := sound.fits p call _ inside
    have id : ((run.state index).desc (config.offset p call.locationId)).processId < 2 ^ 12 := by
      rw [sound.processId, config.processOf_offset _ ready.process]
      have bound := config.small
      have inRange := ready.process
      omega
    rw [after, State.goto_mem, State.storeWord_mem_self, made]
    exact actualValueOf_taggedValue id ready.newval _
  others address different := by
    rw [after]
    exact State.storeWord_mem_of_ne _ different _

/-- One more step of a run, by the process of the call or by anybody else. -/
theorem History.step {pc pc' : Pc} (agrees : Agrees (run.state index))
    (before : index < run.length) (later : first < index)
    (inside : (run.state index).procs p = .inside call pc)
    (history : History run p call first index pc.swapped)
    (inside' : (run.state (index + 1)).procs p = .inside call pc') :
    History run p call first (index + 1) pc'.swapped := by
  have sound := Sound.of_run run index (Nat.le_of_lt before)
  have performed : (run.state index).next config (run.action index) =
      some (run.state (index + 1)) := run.steps index before
  by_cases acts : run.action index = .step p
  · rw [acts, State.next, inside] at performed
    rcases sound.stepCall_cases inside performed with ⟨val, newVal, rfl, same, after⟩ | passes
    · have swaps := swaps_of_exchange agrees sound acts inside same after
      rw [after, State.goto_procs_self] at inside'
      cases inside'
      refine ⟨index, later, Nat.lt_succ_self index, swaps, fun other above below different => ?_⟩
      exact history other above (by omega)
    · rw [passes.inside pc' inside']
      exact history.succ fun _ => passes.leaves
  · rw [State.procs_of_next performed inside acts] at inside'
    cases inside'
    exact history.succ fun absurdly => absurd absurdly acts

end Histories

theorem CallReturns.history {run : Run (system config)} {p : Nat} {call : Call}
    {first last : Nat} {result : Bool} (returns : CallReturns run p call first last result)
    (meets : run.Meets (LoadsAgree config)) {index : Nat} (after : first < index)
    (before : index ≤ last) {pc : Pc} (inside : (run.state index).procs p = .inside call pc) :
    History run p call first index pc.swapped := by
  induction index, after using Nat.le_induction generalizing pc with
  | base =>
    have started : (run.state first).next config (run.action first) =
        some (run.state (first + 1)) :=
      run.steps first (Nat.lt_trans returns.later returns.inside)
    rw [returns.begins, State.next, Option.ite_none_right_eq_some, Option.some.injEq] at started
    have here := inside
    rw [← started.2, State.goto_procs_self] at here
    cases here
    intro other above below
    omega
  | succ index after inductionHypothesis =>
    obtain ⟨pc, here⟩ := returns.running index after (Nat.le_of_succ_le before)
    have earlier : index < run.length := Nat.lt_trans before returns.inside
    exact History.step (Agrees.of_run run meets index (Nat.le_of_lt earlier)) earlier after here
      (inductionHypothesis (Nat.le_of_succ_le before) here) inside

/-- The history of a call up to and including the step in which it returns. -/
theorem CallReturns.history_last {run : Run (system config)} {p : Nat} {call : Call}
    {first last : Nat} {result : Bool} (returns : CallReturns run p call first last result)
    (meets : run.Meets (LoadsAgree config)) : History run p call first (last + 1) result := by
  obtain ⟨pc, inside⟩ := returns.running last returns.later (Nat.le_refl last)
  have history := returns.history meets returns.later (Nat.le_refl last) inside
  have performed : (run.state last).next config (run.action last) =
      some (run.state (last + 1)) := run.steps last returns.inside
  rw [returns.returns, State.next, inside] at performed
  have sound := Sound.of_run run last (Nat.le_of_lt returns.inside)
  rcases sound.stepCall_cases inside performed with ⟨val, newVal, rfl, -, after⟩ | passes
  · have absurdly := returns.result
    rw [after, State.goto_procs_self] at absurdly
    cases absurdly
  · rw [passes.returned result returns.result]
    exact history.succ fun _ => passes.leaves

/-- In every run whose steps meet the condition every call is atomic. -/
theorem atomicCalls_of_run (run : Run (system config)) (meets : run.Meets (LoadsAgree config)) :
    AtomicCalls run where
  succeeded p call first last returns := by
    obtain ⟨swap, after, before, swaps, others⟩ := returns.history_last meets
    exact ⟨swap, after, Nat.le_of_lt_succ before, swaps,
      fun other above below => others other above (Nat.lt_succ_of_le below)⟩
  failed p call first last returns other above below :=
    returns.history_last meets other above (Nat.lt_succ_of_le below)

/-! ### Concrete runs -/

/-- Two processes with one shared word, at address 8. -/
def Config.two : Config where
  maximumThreadNum := 2
  poolSize := 2
  small := by decide
  location := fun address => if address = 8 then some 0 else none

/-- The new pool, with every word zero. -/
def State.start (config : Config) : State where
  mem := fun _ => 0
  desc := fun d => .constructed (config.processOf d + 1)
  procs := fun _ => .idle

theorem State.initial_start (config : Config) : (State.start config).Initial config :=
  ⟨fun _ _ => Nat.two_pow_pos 48, fun _ => rfl, fun _ => rfl⟩

theorem exists_run (config : Config) (actions : List Action)
    (performed : (replay (State.next config) actions (.start config)).isSome) :
    ∃ run : Run (system config), run.length = actions.length ∧
      (∀ index, replay (State.next config) (actions.take index) (.start config) =
        some (run.state index)) ∧ ∀ index, run.action index = actions.getD index default :=
  exists_run_of_next (State.Initial config) (State.next config) (State.initial_start config) actions
    performed

/-- A process outside of its calls stays there until it calls again. -/
theorem State.free_of_next {state state' : State} {action : Action} {p : Nat}
    (performed : state.next config action = some state') (free : (state.procs p).Free)
    (other : ∀ call, action ≠ .process p call) : (state'.procs p).Free := by
  cases action with
  | setSharedAddress | setPrivateAddress | setOpType =>
    simp only [State.next, State.set, Option.ite_none_right_eq_some, Option.some.injEq] at performed
    obtain ⟨-, rfl⟩ := performed
    exact free
  | process u call =>
    simp only [State.next, Option.ite_none_right_eq_some, Option.some.injEq] at performed
    obtain ⟨-, rfl⟩ := performed
    have different : p ≠ u := by
      rintro rfl
      exact other call rfl
    rw [State.goto_procs_of_ne _ different]
    exact free
  | step u =>
    rw [State.next] at performed
    split at performed
    · next call pc inside =>
      have different : p ≠ u := by
        rintro rfl
        rw [inside] at free
        exact free
      rw [(State.stepCall_frames performed).procs p different]
      exact free
    · cases performed

/-- A call that is still under way in its last step has been under way since it began. -/
theorem CallReturns.of_last {run : Run (system config)} {p : Nat} {call : Call} {first last : Nat}
    {result : Bool} (later : first < last) (inside : last < run.length)
    (begins : run.action first = .process p call)
    (once : ∀ index, first < index → index < last → ∀ other, run.action index ≠ .process p other)
    (here : ∃ pc, (run.state last).procs p = .inside call pc)
    (returns : run.action last = .step p)
    (returned : (run.state (last + 1)).procs p = .returned result) :
    CallReturns run p call first last result := by
  refine ⟨later, inside, begins, fun index after before => ?_, returns, returned⟩
  have step : ∀ earlier, earlier < last → (run.state earlier).next config (run.action earlier) =
      some (run.state (earlier + 1)) :=
    fun earlier below => run.steps earlier (Nat.lt_trans below inside)
  -- Either the call is under way or it has returned, and then it would not be under way at last.
  have either : (∃ pc, (run.state index).procs p = .inside call pc) ∨
      ((run.state index).procs p).Free := by
    induction index, after using Nat.le_induction with
    | base =>
      have started := step first later
      rw [begins, State.next, Option.ite_none_right_eq_some, Option.some.injEq] at started
      rw [← started.2, State.goto_procs_self]
      exact .inl ⟨_, rfl⟩
    | succ index after inductionHypothesis =>
      have performed := step index before
      rcases inductionHypothesis (Nat.le_of_lt before) with ⟨pc, under⟩ | free
      · by_cases acts : run.action index = .step p
        · rw [acts, State.next, under] at performed
          cases now : (run.state (index + 1)).procs p with
          | idle => exact .inr trivial
          | returned result => exact .inr trivial
          | inside call' pc' =>
            obtain rfl := State.stepCall_call performed now
            exact .inl ⟨pc', rfl⟩
        · exact .inl ⟨pc, State.procs_of_next performed under acts⟩
      · exact .inr (State.free_of_next performed free (once index after before))
  rcases either with under | free
  · exact under
  · exfalso
    have stays : ((run.state last).procs p).Free :=
      run.invariant_between (fun _ action => ∀ other, action ≠ .process p other)
        (fun state => (state.procs p).Free) before (Nat.le_of_lt inside)
        (fun between above below => once between (Nat.lt_of_lt_of_le after above) below) free
        fun _ _ _ free other performed => State.free_of_next performed free other
    obtain ⟨pc, under⟩ := here
    rw [under] at stays
    exact stays

/-- A test of the condition. -/
def State.loadsAgree (config : Config) (state : State) : Action → Bool
  | .step p =>
    match state.procs p with
    | .inside call (.loadActual val) =>
      decide (actualValueOf (state.mem (state.desc (config.offset p call.locationId)).sharedAddress) =
        call.oldval → actualValueOf val = call.oldval)
    | _ => true
  | _ => true

theorem loadsAgree_of_test {state : State} {action : Action}
    (passes : state.loadsAgree config action = true) : LoadsAgree config state action := by
  intro p call val acts inside
  subst acts
  simp only [State.loadsAgree, inside] at passes
  exact of_decide_eq_true passes

/-- The action is a call of process `p`. -/
def Action.calls (p : Nat) : Action → Bool
  | .process u _ => u == p
  | _ => false

/-- The process is inside of the call. -/
def Process.isInside (call : Call) : Process → Bool
  | .inside current _ => current == call
  | _ => false

theorem CallReturns.of_replay {run : Run (system config)} {actions : List Action}
    (length : run.length = actions.length)
    (states : ∀ index, replay (State.next config) (actions.take index) (.start config) =
      some (run.state index))
    (labels : ∀ index, run.action index = actions.getD index default) (p : Nat) (call : Call)
    {first last : Nat} (result : Bool) (later : first < last) (inside : last < actions.length)
    (begins : actions.getD first default = .process p call)
    (once : ((actions.take last).drop (first + 1)).all (fun action => !action.calls p) = true)
    (here : (replay (State.next config) (actions.take last) (.start config)).any
      (fun state => (state.procs p).isInside call) = true)
    (returns : actions.getD last default = .step p)
    (returned : (replay (State.next config) (actions.take (last + 1)) (.start config)).any
      (fun state => state.procs p = .returned result) = true) :
    CallReturns run p call first last result := by
  refine .of_last later (length ▸ inside) ((labels first).trans begins) ?_ ?_
    ((labels last).trans returns)
    (satisfies_of_replay (fun state => state.procs p = .returned result) (states (last + 1)) returned)
  · intro index after before other acts
    have room : index < actions.length := Nat.lt_trans before inside
    rw [labels, List.getD_eq_getElem?_getD, List.getElem?_eq_getElem room,
      Option.getD_some] at acts
    have member : actions[index] ∈ (actions.take last).drop (first + 1) := by
      rw [List.mem_iff_getElem]
      refine ⟨index - (first + 1), ?_, ?_⟩
      · rw [List.length_drop, List.length_take]
        omega
      · rw [List.getElem_drop, List.getElem_take]
        congr 1
        omega
    have tested := List.all_eq_true.mp once _ member
    rw [acts] at tested
    simp [Action.calls] at tested
  · have under := holds_of_replay (fun state => (state.procs p).isInside call) (states last) here
    cases now : (run.state last).procs p with
    | idle => rw [now] at under; cases under
    | returned other => rw [now] at under; cases under
    | inside current pc =>
      rw [now] at under
      exact ⟨pc, by rw [eq_of_beq under]⟩

/-- The addresses of the two descriptors are set. -/
def setAddresses : List Action :=
  [.setSharedAddress 0 0 8, .setPrivateAddress 0 0 16, .setSharedAddress 1 0 8,
    .setPrivateAddress 1 0 24]

/-- Process 1 replaces 0 by 5. Before it has stored its success, process 0 helps it and replaces 5
by 6. -/
def helpedSwap : List Action :=
  setAddresses ++ Action.process 1 ⟨0, 0, 5⟩ :: List.replicate 10 (Action.step 1) ++
    Action.process 0 ⟨0, 5, 6⟩ :: List.replicate 21 (Action.step 0) ++ List.replicate 5 (Action.step 1)

/-- Both calls are atomic there. -/
theorem atomicCalls_of_run_helpedSwap : ∃ run : Run (system .two),
    run.Meets (LoadsAgree .two) ∧ CallReturns run 0 ⟨0, 5, 6⟩ 15 36 true ∧
      CallReturns run 1 ⟨0, 0, 5⟩ 4 41 true ∧ AtomicCalls run := by
  obtain ⟨run, length, states, actions⟩ := exists_run .two helpedSwap (by decide +kernel)
  have meets : run.Meets (LoadsAgree .two) := by
    intro index inside
    rw [length] at inside
    rw [actions]
    exact loadsAgree_of_test (test_of_replayTests (State.loadsAgree .two) (by decide +kernel) inside
      (states index))
  exact ⟨run, meets,
    .of_replay length states actions 0 ⟨0, 5, 6⟩ true (by decide) (by decide) rfl (by decide)
      (by decide +kernel) rfl (by decide +kernel),
    .of_replay length states actions 1 ⟨0, 0, 5⟩ true (by decide) (by decide) rfl (by decide)
      (by decide +kernel) rfl (by decide +kernel), atomicCalls_of_run run meets⟩

/-- A whole call of process 1. -/
def wholeCall (oldval newval : Nat) : List Action :=
  .process 1 ⟨0, oldval, newval⟩ :: List.replicate 15 (.step 1)

/-- Process 0 loads the word for its exchange. Process 1 changes its value to 6, which process 0
loads for its comparison, and then makes fifteen more attempts, after which the word is the old one
again. -/
def wrappedTag : List Action :=
  setAddresses ++ wholeCall 0 5 ++ Action.process 0 ⟨0, 6, 9⟩ :: Action.step 0 :: wholeCall 5 6 ++
    Action.step 0 :: (List.replicate 14 (wholeCall 6 6)).flatten ++ wholeCall 6 5 ++ List.replicate 14 (Action.step 0)

/-- The call of process 0 returns true although the word held 5 and not 6 before its exchange. -/
theorem exists_not_atomicCalls : ∃ run : Run (system .two), ¬ AtomicCalls run := by
  obtain ⟨run, length, states, actions⟩ := exists_run .two wrappedTag (by decide +kernel)
  refine ⟨run, fun atomic => ?_⟩
  have returns : CallReturns run 0 ⟨0, 6, 9⟩ 20 292 true :=
    .of_replay length states actions 0 ⟨0, 6, 9⟩ true (by decide) (by decide +kernel)
      (by decide +kernel) (by decide +kernel) (by decide +kernel) (by decide +kernel)
      (by decide +kernel)
  obtain ⟨index, after, before, swaps, others⟩ := atomic.succeeded 0 ⟨0, 6, 9⟩ 20 292 returns
  have exchanged := satisfies_of_replay
    (fun state => actualValueOf (state.mem 8) = 5 ∧ (state.desc 0).sharedAddress = 8) (states 287)
    (by decide +kernel)
  have done := satisfies_of_replay (fun state => actualValueOf (state.mem 8) = 9) (states 288)
    (by decide +kernel)
  -- The exchange changes the word, so it is the one step the call may have.
  have here : index = 287 := by
    by_contra other
    have same := others 287 (by decide) (by decide) (Ne.symm other)
      ((actions 287).trans (by decide +kernel)) 8 (by decide)
    rw [same, exchanged.1] at done
    cases done
  subst here
  have found := swaps.before
  rw [show Config.two.offset 0 0 = 0 from rfl, exchanged.2, exchanged.1] at found
  cases found

end Pmwcas.OptmizedFasas
