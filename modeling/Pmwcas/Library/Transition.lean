/-
This file is the small theory of runs that the development rests on. A system is an initial
condition and a labelled step relation; a run is a finite sequence of its steps. Three rules are
all that is needed of runs: an invariant that every allowed step keeps holds in every state
reached from a point where it held, what becomes true becomes true in some step, and a
deterministic process whose rank drops at every step until it is done gets done.

Nothing here is about a particular program. The concrete runs that refute a statement are built
from an executable step function by `exists_run_of_replay`.
-/

import Mathlib.Order.WellFounded
import Mathlib.Logic.Function.Iterate

namespace Transition

/-! ### Systems and runs -/

/-- A transition system: where it may start, and which labelled steps it may take. -/
structure System (State Action : Type) where
  initial : State → Prop
  step : State → Action → State → Prop

/-- A finite run: `length` steps from an initial state. The values of `state` past `length` and
of `action` from `length` on carry no meaning. -/
structure Run {State Action : Type} (system : System State Action) where
  length : Nat
  state : Nat → State
  action : Nat → Action
  starts : system.initial (state 0)
  steps : ∀ index, index < length →
    system.step (state index) (action index) (state (index + 1))

variable {State Action : Type} {system : System State Action}

/-- Every step of the run is one that `allowed` accepts in the state before it. -/
def Run.Meets (run : Run system) (allowed : State → Action → Prop) : Prop :=
  ∀ index, index < run.length → allowed (run.state index) (run.action index)

theorem Run.meets_true (run : Run system) : run.Meets fun _ _ => True :=
  fun _ _ => trivial

theorem Run.Meets.and {run : Run system} {first second : State → Action → Prop}
    (meetsFirst : run.Meets first) (meetsSecond : run.Meets second) :
    run.Meets fun state action => first state action ∧ second state action :=
  fun index inside => ⟨meetsFirst index inside, meetsSecond index inside⟩

/-- What the steps of an interval keep, once it holds, holds to the end of the interval. -/
theorem Run.invariant_between (run : Run system) (allowed : State → Action → Prop)
    (Invariant : State → Prop) {first last : Nat} (later : first ≤ last)
    (inside : last ≤ run.length)
    (meets : ∀ index, first ≤ index → index < last →
      allowed (run.state index) (run.action index))
    (holds : Invariant (run.state first))
    (preserved : ∀ before action after, Invariant before → allowed before action →
      system.step before action after → Invariant after) :
    Invariant (run.state last) := by
  induction last, later using Nat.le_induction with
  | base => exact holds
  | succ last later inductionHypothesis =>
    have before : last < run.length := inside
    have here := inductionHypothesis (Nat.le_of_lt before)
      fun index after below => meets index after (Nat.lt_succ_of_lt below)
    exact preserved _ _ _ here (meets last later (Nat.lt_succ_self last)) (run.steps last before)

/-- What holds initially and allowed steps keep holds in every state of the run. -/
theorem Run.invariant (run : Run system) {allowed : State → Action → Prop}
    (meets : run.Meets allowed) {Invariant : State → Prop}
    (initially : ∀ state, system.initial state → Invariant state)
    (preserved : ∀ before action after, Invariant before → allowed before action →
      system.step before action after → Invariant after)
    (index : Nat) (inside : index ≤ run.length) : Invariant (run.state index) :=
  run.invariant_between allowed Invariant (Nat.zero_le _) inside
    (fun earlier _ below => meets earlier (Nat.lt_of_lt_of_le below inside))
    (initially _ run.starts) preserved

/-- A run of allowed steps is simulated step by step: it has a sequence of abstract states, each
related to the state of the run, that moves along with the steps of the run. -/
theorem Run.exists_simulation (run : Run system) {allowed : State → Action → Prop}
    (meets : run.Meets allowed) {Abstract : Type}
    (Related : State → Abstract → Prop)
    (Moves : State → Action → State → Abstract → Abstract → Prop) {start : Abstract}
    (initially : Related (run.state 0) start)
    (simulated : ∀ before action after abstract, Related before abstract →
      allowed before action → system.step before action after →
      ∃ abstract', Related after abstract' ∧ Moves before action after abstract abstract') :
    ∃ abstract : Nat → Abstract, abstract 0 = start ∧
      (∀ index ≤ run.length, Related (run.state index) (abstract index)) ∧
      ∀ index < run.length, Moves (run.state index) (run.action index) (run.state (index + 1))
        (abstract index) (abstract (index + 1)) := by
  have upTo : ∀ bound ≤ run.length, ∃ abstract : Nat → Abstract, abstract 0 = start ∧
      (∀ index ≤ bound, Related (run.state index) (abstract index)) ∧
      ∀ index < bound, Moves (run.state index) (run.action index) (run.state (index + 1))
        (abstract index) (abstract (index + 1)) := by
    intro bound inside
    induction bound with
    | zero =>
      refine ⟨fun _ => start, rfl, fun index below => ?_, fun index below => ?_⟩
      · rw [Nat.le_zero.1 below]
        exact initially
      · exact absurd below (Nat.not_lt_zero index)
    | succ bound inductionHypothesis =>
      obtain ⟨abstract, starts, related, moves⟩ := inductionHypothesis (Nat.le_of_lt inside)
      obtain ⟨following, here, step⟩ := simulated _ _ _ _ (related bound (Nat.le_refl bound))
        (meets bound inside) (run.steps bound inside)
      have kept : ∀ index ≤ bound,
          Function.update abstract (bound + 1) following index = abstract index := by
        intro index below
        exact Function.update_of_ne (by omega) _ _
      refine ⟨Function.update abstract (bound + 1) following, ?_, fun index below => ?_,
        fun index below => ?_⟩
      · rw [kept 0 (Nat.zero_le bound), starts]
      · rcases Nat.lt_or_eq_of_le below with smaller | rfl
        · rw [kept index (Nat.le_of_lt_succ smaller)]
          exact related index (Nat.le_of_lt_succ smaller)
        · rw [Function.update_self]
          exact here
      · rw [kept index (Nat.le_of_lt_succ below)]
        rcases Nat.lt_or_eq_of_le (Nat.le_of_lt_succ below) with smaller | rfl
        · rw [kept (index + 1) smaller]
          exact moves index smaller
        · rw [Function.update_self]
          exact step
  exact upTo run.length (Nat.le_refl _)

/-- Something that is false at one point of a run and true at a later one becomes true in some
step in between. -/
theorem exists_step_of_change (Holds : Nat → Prop) {first last : Nat} (later : first ≤ last)
    (falseFirst : ¬ Holds first) (trueLast : Holds last) :
    ∃ index, first ≤ index ∧ index < last ∧ ¬ Holds index ∧ Holds (index + 1) := by
  induction last, later using Nat.le_induction with
  | base => exact absurd trueLast falseFirst
  | succ last later inductionHypothesis =>
    by_cases already : Holds last
    · obtain ⟨index, after, before, change⟩ := inductionHypothesis already
      exact ⟨index, after, Nat.lt_succ_of_lt before, change⟩
    · exact ⟨last, later, Nat.lt_succ_self last, already, trueLast⟩

/-- Something that happens before a point of a run happens there a last time. -/
theorem exists_last (Happens : Nat → Prop) {index bound : Nat} (before : index < bound)
    (happens : Happens index) :
    ∃ last, last < bound ∧ Happens last ∧
      ∀ between, last < between → between < bound → ¬ Happens between := by
  induction bound with
  | zero => exact absurd before (Nat.not_lt_zero index)
  | succ bound inductionHypothesis =>
    by_cases here : Happens bound
    · exact ⟨bound, Nat.lt_succ_self bound, here,
        fun between after below => absurd (Nat.le_of_lt_succ below) (Nat.not_le_of_lt after)⟩
    · have earlier : index < bound :=
        Nat.lt_of_le_of_ne (Nat.le_of_lt_succ before) fun same => here (same ▸ happens)
      obtain ⟨last, inside, there, none_⟩ := inductionHypothesis earlier
      refine ⟨last, Nat.lt_succ_of_lt inside, there, fun between after below => ?_⟩
      rcases Nat.lt_or_eq_of_le (Nat.le_of_lt_succ below) with smaller | same
      · exact none_ between after smaller
      · rw [same]
        exact here

/-- `Mark` has happened since `Begin` happened the last time before `index`. -/
def Since (Begin Mark : Nat → Prop) (index : Nat) : Prop :=
  ∃ first last, first < last ∧ last < index ∧ Begin first ∧ Mark last ∧
    ∀ between, first < between → between < index → ¬ Begin between

theorem not_since_zero (Begin Mark : Nat → Prop) : ¬ Since Begin Mark 0 := by
  rintro ⟨first, last, -, before, -⟩
  exact Nat.not_lt_zero last before

theorem Since.succ {Begin Mark : Nat → Prop} {index : Nat} (since : Since Begin Mark index)
    (none_ : ¬ Begin index) : Since Begin Mark (index + 1) := by
  obtain ⟨first, last, later, before, begins, marks, noOther⟩ := since
  refine ⟨first, last, later, Nat.lt_succ_of_lt before, begins, marks, fun between after below => ?_⟩
  rcases Nat.lt_or_eq_of_le (Nat.le_of_lt_succ below) with smaller | same
  · exact noOther between after smaller
  · rw [same]
    exact none_

theorem since_of_mark {Begin Mark : Nat → Prop} {index : Nat}
    (begun : ∃ first, first < index ∧ Begin first) (marks : Mark index) (none_ : ¬ Begin index) :
    Since Begin Mark (index + 1) := by
  obtain ⟨some_, before, begins⟩ := begun
  obtain ⟨first, inside, here, noOther⟩ := exists_last Begin before begins
  refine ⟨first, index, inside, Nat.lt_succ_self index, here, marks, fun between after below => ?_⟩
  rcases Nat.lt_or_eq_of_le (Nat.le_of_lt_succ below) with smaller | same
  · exact noOther between after smaller
  · rw [same]
    exact none_

theorem Since.of_succ {Begin Mark : Nat → Prop} {index : Nat}
    (since : Since Begin Mark (index + 1)) :
    ¬ Begin index ∧ (Since Begin Mark index ∨ Mark index) := by
  obtain ⟨first, last, later, before, begins, marks, noOther⟩ := since
  refine ⟨noOther index (Nat.lt_of_lt_of_le later (Nat.le_of_lt_succ before))
    (Nat.lt_succ_self index), ?_⟩
  rcases Nat.lt_or_eq_of_le (Nat.le_of_lt_succ before) with smaller | same
  · exact .inl ⟨first, last, later, smaller, begins, marks,
      fun between after below => noOther between after (Nat.lt_succ_of_lt below)⟩
  · rw [same] at marks
    exact .inr marks

/-! ### Calls -/

/-- The call that begins at `begin` is the last one that begins before `index`. -/
structure Call (Begins : Nat → Prop) (begin index : Nat) : Prop where
  begins : Begins begin
  before : begin < index
  only : ∀ between, begin < between → between < index → ¬ Begins between

/-- It does not happen between the two points. -/
def Never (Happens : Nat → Prop) (begin index : Nat) : Prop :=
  ∀ step, begin < step → step < index → ¬ Happens step

/-- It happens exactly once between the two points, at `step`. -/
structure Once (Happens : Nat → Prop) (begin index step : Nat) : Prop where
  after : begin < step
  before : step < index
  happens : Happens step
  only : ∀ other, begin < other → other < index → Happens other → other = step

section Calls

variable {Begins Happens : Nat → Prop} {begin index : Nat}

theorem Call.start (begins : Begins index) : Call Begins index (index + 1) :=
  ⟨begins, Nat.lt_succ_self index, fun _ after before => absurd before (Nat.not_lt.2 after)⟩

theorem Never.succ (never : Never Happens begin index) (notNow : ¬ Happens index) :
    Never Happens begin (index + 1) := by
  intro step after before
  rcases Nat.lt_or_eq_of_le (Nat.le_of_lt_succ before) with smaller | rfl
  · exact never step after smaller
  · exact notNow

theorem Call.succ (call : Call Begins begin index) (notNow : ¬ Begins index) :
    Call Begins begin (index + 1) :=
  ⟨call.begins, Nat.lt_succ_of_lt call.before, Never.succ call.only notNow⟩

theorem never_start : Never Happens index (index + 1) :=
  fun _ after before => absurd before (Nat.not_lt.2 after)

theorem Never.once (never : Never Happens begin index) (later : begin < index)
    (now : Happens index) : Once Happens begin (index + 1) index := by
  refine ⟨later, Nat.lt_succ_self index, now, fun other after before happens => ?_⟩
  rcases Nat.lt_or_eq_of_le (Nat.le_of_lt_succ before) with smaller | same
  · exact absurd happens (never other after smaller)
  · exact same

theorem Once.succ {step : Nat} (once : Once Happens begin index step) (notNow : ¬ Happens index) :
    Once Happens begin (index + 1) step := by
  refine ⟨once.after, Nat.lt_succ_of_lt once.before, once.happens,
    fun other after before happens => ?_⟩
  rcases Nat.lt_or_eq_of_le (Nat.le_of_lt_succ before) with smaller | rfl
  · exact once.only other after smaller happens
  · exact absurd happens notNow

end Calls

/-! ### Runs from an executable step function -/

/-- Perform the listed actions one after the other. -/
def replay (next : State → Action → Option State) : List Action → State → Option State
  | [], state => some state
  | action :: rest, state => (next state action).bind (replay next rest)

theorem replay_append (next : State → Action → Option State) (first second : List Action)
    (state : State) :
    replay next (first ++ second) state = (replay next first state).bind (replay next second) := by
  induction first generalizing state with
  | nil => rfl
  | cons action rest inductionHypothesis =>
    simp only [List.cons_append, replay]
    cases next state action with
    | none => rfl
    | some after => exact inductionHypothesis after

theorem replay_take_isSome (next : State → Action → Option State) {start finish : State}
    {actions : List Action} (replayed : replay next actions start = some finish) (index : Nat) :
    ∃ state, replay next (actions.take index) start = some state := by
  have whole : replay next (actions.take index ++ actions.drop index) start = some finish := by
    rw [List.take_append_drop]
    exact replayed
  rw [replay_append] at whole
  cases reached : replay next (actions.take index) start with
  | none => rw [reached] at whole; cases whole
  | some state => exact ⟨state, rfl⟩

/-- A replayed list of actions is a run, and its states are the replays of the prefixes. -/
theorem exists_run_of_replay [Inhabited Action] (next : State → Action → Option State)
    (sound : ∀ before action after, next before action = some after →
      system.step before action after)
    {start finish : State} (initial : system.initial start) {actions : List Action}
    (replayed : replay next actions start = some finish) :
    ∃ run : Run system, run.length = actions.length ∧ run.state 0 = start ∧
      run.state actions.length = finish ∧
      (∀ index, replay next (actions.take index) start = some (run.state index)) ∧
      ∀ index, run.action index = actions.getD index default := by
  have reaches : ∀ index, replay next (actions.take index) start =
      some ((replay next (actions.take index) start).getD start) := by
    intro index
    obtain ⟨state, reached⟩ := replay_take_isSome next replayed index
    rw [reached, Option.getD_some]
  refine ⟨{
    length := actions.length
    state := fun index => (replay next (actions.take index) start).getD start
    action := fun index => actions.getD index default
    starts := initial
    steps := ?_ }, rfl, rfl, ?_, reaches, fun _ => rfl⟩
  · intro index inside
    refine sound _ _ _ ?_
    have taken : actions.take (index + 1) =
        actions.take index ++ [actions.getD index default] := by
      rw [List.take_add_one, List.getElem?_eq_getElem inside, List.getD_eq_getElem?_getD,
        List.getElem?_eq_getElem inside]
      rfl
    have step := reaches (index + 1)
    rw [taken, replay_append, reaches index, Option.bind_some] at step
    simp only [replay, Option.bind_fun_some] at step
    show next _ _ = some ((replay next (actions.take (index + 1)) start).getD start)
    rw [taken, replay_append, reaches index, Option.bind_some]
    simp only [replay, Option.bind_fun_some]
    exact step
  · show (replay next (actions.take actions.length) start).getD start = finish
    rw [List.take_length, replayed, Option.getD_some]

/-- A test that the replay passes holds of the state it reaches. -/
theorem holds_of_replay {next : State → Action → Option State} {start state : State}
    {actions : List Action} (test : State → Bool)
    (reached : replay next actions start = some state)
    (passes : (replay next actions start).any test = true) : test state = true := by
  rw [reached] at passes
  exact passes

theorem satisfies_of_replay {next : State → Action → Option State} {start state : State}
    {actions : List Action} (Holds : State → Prop) [DecidablePred Holds]
    (reached : replay next actions start = some state)
    (passes : (replay next actions start).any (fun state => Holds state) = true) : Holds state :=
  of_decide_eq_true (holds_of_replay (fun state => Holds state) reached passes)

/-- A test of the listed steps, each with the state before it. -/
def replayTests (next : State → Action → Option State) (test : State → Action → Bool) :
    List Action → State → Bool
  | [], _ => true
  | action :: rest, state => test state action && (next state action).any (replayTests next test rest)

theorem test_of_replayTests [Inhabited Action] {next : State → Action → Option State}
    (test : State → Action → Bool) {actions : List Action} {start state : State}
    (passes : replayTests next test actions start = true) {index : Nat}
    (inside : index < actions.length)
    (reached : replay next (actions.take index) start = some state) :
    test state (actions.getD index default) = true := by
  induction actions generalizing start index with
  | nil => exact absurd inside (Nat.not_lt_zero index)
  | cons action rest inductionHypothesis =>
    rw [replayTests, Bool.and_eq_true] at passes
    cases index with
    | zero =>
      cases reached
      exact passes.1
    | succ index =>
      rw [List.take_succ_cons, replay] at reached
      cases after : next start action with
      | none =>
        rw [after] at reached
        cases reached
      | some following =>
        rw [after] at passes reached
        exact inductionHypothesis passes.2 (Nat.lt_of_succ_lt_succ inside) reached

/-- The system of an executable step function. -/
def System.ofNext (initial : State → Prop) (next : State → Action → Option State) :
    System State Action where
  initial := initial
  step before action after := next before action = some after

/-- A list of actions that can all be performed is a run of the system. -/
theorem exists_run_of_next [Inhabited Action] (initial : State → Prop)
    (next : State → Action → Option State) {start : State} (starts : initial start)
    (actions : List Action) (performed : (replay next actions start).isSome) :
    ∃ run : Run (System.ofNext initial next), run.length = actions.length ∧
      (∀ index, replay next (actions.take index) start = some (run.state index)) ∧
      ∀ index, run.action index = actions.getD index default := by
  obtain ⟨finish, replayed⟩ := Option.isSome_iff_exists.1 performed
  have first : (System.ofNext initial next).initial start := starts
  obtain ⟨run, length, -, -, states, labels⟩ :=
    exists_run_of_replay next (fun _ _ _ step => step) first replayed
  exact ⟨run, length, states, labels⟩

end Transition
