/-
This file is about deterministic code that runs until it has a result. `runUntil` performs at most
a given number of steps; `Yields` says that the result is there whenever the number is large
enough, so it is both that the code terminates and what it returns.
-/

import Mathlib.Logic.Relation

namespace Transition

variable {State Result : Type}

/-- Perform steps until there is a result, at most `fuel` of them. -/
def runUntil (next : State → Option State) (result : State → Option Result) :
    Nat → State → Option (Result × State)
  | 0, state => (result state).map fun value => (value, state)
  | fuel + 1, state =>
    match result state with
    | some value => some (value, state)
    | none => (next state).bind (runUntil next result fuel)

/-- With enough fuel the code returns `value` in the state `after`. -/
def Yields (run : Nat → Option (Result × State)) (value : Result) (after : State) : Prop :=
  ∃ bound, ∀ fuel, bound ≤ fuel → run fuel = some (value, after)

variable {next : State → Option State} {result : State → Option Result} {before after : State}
  {value : Result}

/-- A step before there is a result. -/
def Proceeds (next : State → Option State) (result : State → Option Result) (before after : State) :
    Prop :=
  result before = none ∧ next before = some after

namespace Yields

theorem unique {run : Nat → Option (Result × State)} {other : Result} {after' : State}
    (one : Yields run value after) (two : Yields run other after') : value = other ∧ after = after' := by
  obtain ⟨bound, reached⟩ := one
  obtain ⟨bound', reached'⟩ := two
  have same := (reached (max bound bound') (Nat.le_max_left _ _)).symm.trans
    (reached' _ (Nat.le_max_right _ _))
  rw [Option.some.injEq, Prod.mk.injEq] at same
  exact same

theorem here (returned : result after = some value) :
    Yields (runUntil next result · after) value after := by
  refine ⟨0, fun fuel _ => ?_⟩
  cases fuel with
  | zero => simp only [runUntil, returned, Option.map_some]
  | succ fuel => simp only [runUntil, returned]

theorem step {middle : State} (proceeds : Proceeds next result before middle)
    (yields : Yields (runUntil next result · middle) value after) :
    Yields (runUntil next result · before) value after := by
  obtain ⟨bound, reached⟩ := yields
  refine ⟨bound + 1, fun fuel enough => ?_⟩
  obtain ⟨rest, rfl⟩ : ∃ rest, fuel = rest + 1 := ⟨fuel - 1, by omega⟩
  simp only [runUntil, proceeds.1, proceeds.2, Option.bind_some]
  exact reached rest (Nat.le_of_succ_le_succ enough)

/-- What code returns with some fuel it returns with any larger amount. -/
theorem of_runUntil {fuel : Nat} (reached : runUntil next result fuel before = some (value, after)) :
    Yields (runUntil next result · before) value after := by
  induction fuel generalizing before with
  | zero =>
    rw [runUntil, Option.map_eq_some_iff] at reached
    obtain ⟨_, returned, same⟩ := reached
    cases same
    exact here returned
  | succ fuel inductionHypothesis =>
    rw [runUntil] at reached
    cases returned : result before with
    | some _ =>
      rw [returned] at reached
      cases reached
      exact here returned
    | none =>
      rw [returned] at reached
      obtain ⟨middle, goes, rest⟩ := Option.bind_eq_some_iff.1 reached
      exact step ⟨returned, goes⟩ (inductionHypothesis rest)

/-- What is computed from the result and the last state. -/
theorem map {Other Final : Type} {run : Nat → Option (Result × State)} (yields : Yields run value after)
    (compute : Result × State → Other × Final) :
    Yields (fun fuel => (run fuel).map compute) (compute (value, after)).1
      (compute (value, after)).2 := by
  obtain ⟨bound, reached⟩ := yields
  refine ⟨bound, fun fuel enough => ?_⟩
  simp only [reached fuel enough, Option.map_some]

/-- The steps up to the result, one after the other. -/
theorem of_proceeds (reaches : Relation.ReflTransGen (Proceeds next result) before after)
    (returned : result after = some value) : Yields (runUntil next result · before) value after := by
  induction reaches using Relation.ReflTransGen.head_induction_on with
  | refl => exact here returned
  | head first _ inductionHypothesis => exact step first inductionHypothesis

end Yields

end Transition
