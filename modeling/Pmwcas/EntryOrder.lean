/-
This file is about the entries that `AddEntry`, `AllocateAndAddEntry` and `ReserveAndAddEntry` leave
in a descriptor, whatever the addresses and their order: they are in strictly increasing order of
address, they are the entries asked for, each with its own fields, and the index a call returns is
where its entry is.

A call fails exactly for one of three reasons: the address is there already, the descriptor is full,
or `allocate_callback_` has returned null.
-/

import Pmwcas.RecyclePolicies

namespace Pmwcas

/-! ### The calls -/

/-- What ends the process in one of the three functions. -/
inductive EntryError where
  | check (failed : RawCheck)
  | allocationFailed
  deriving DecidableEq, Repr

/-- A call of one of the functions. `allocated` is what `allocate_callback_(size)` returns. -/
inductive EntryCall where
  | addEntry (address : Nat) (oldValue newValue : Word) (recyclePolicy : RecyclePolicy)
  | allocateAndAddEntry (address : Nat) (oldValue : Word) (size : Nat) (recyclePolicy : RecyclePolicy)
      (allocated : Word)
  | reserveAndAddEntry (address : Nat) (oldValue : Word) (recyclePolicy : RecyclePolicy)
  deriving DecidableEq, Repr

/-- `GetInsertPosition` with the check before its loop and the one behind it. -/
def Descriptor.getInsertPosition (descriptor : Descriptor) (address : Nat) :
    Except EntryError ((Nat → WordDescriptor) × Nat) :=
  if kMaxCount ≤ descriptor.count then .error (.check .tooManyWords)
  else
    match Pmwcas.getInsertPosition address descriptor.count descriptor.words with
    | none => .error (.check .invalidInsertPosition)
    | some found => .ok found

/-- The stores to the fields of the entry at `position`, over the shifted array. -/
def Descriptor.insert (descriptor : Descriptor) (words : Nat → WordDescriptor) (position : Nat)
    (entry : WordDescriptor) : Descriptor :=
  { descriptor with
    count := descriptor.count + 1
    words := Function.update words position entry }

/-- `AddEntry` with the index it returns. -/
def Descriptor.addEntryAt (own : Nat) (descriptor : Descriptor) (request : Request) :
    Except EntryError (Nat × Descriptor) := do
  let (words, position) ← descriptor.getInsertPosition request.address
  return (position, descriptor.insert words position (request.entry own))

/-- `AllocateAndAddEntry`, which checks the block it gets. -/
def Descriptor.allocateAndAddEntry (own : Nat) (descriptor : Descriptor) (request : Request) :
    Except EntryError (Nat × Descriptor) := do
  let (words, position) ← descriptor.getInsertPosition request.address
  if request.newValue = .plain 0 then .error .allocationFailed
  else return (position, descriptor.insert words position (request.entry own))

/-- The entry that a call asks for. -/
def EntryCall.request : EntryCall → Request
  | addEntry address oldValue newValue recyclePolicy => ⟨address, oldValue, newValue, recyclePolicy⟩
  | allocateAndAddEntry address oldValue _ recyclePolicy allocated =>
    ⟨address, oldValue, allocated, recyclePolicy⟩
  | reserveAndAddEntry address oldValue recyclePolicy =>
    ⟨address, oldValue, kNewValueReserved, recyclePolicy⟩

/-- Perform a call on the descriptor at address `own`. -/
def EntryCall.perform (own : Nat) (descriptor : Descriptor) (call : EntryCall) :
    Except EntryError (Nat × Descriptor) :=
  match call with
  | addEntry .. => descriptor.addEntryAt own call.request
  | allocateAndAddEntry .. => descriptor.allocateAndAddEntry own call.request
  | reserveAndAddEntry .. => descriptor.addEntryAt own call.request

/-- One call after the other. -/
def performAll (own : Nat) (descriptor : Descriptor) (calls : List EntryCall) :
    Except EntryError Descriptor :=
  calls.foldlM (fun current call => (call.perform own current).map Prod.snd) descriptor

/-- `allocate_callback_` has returned null in this call. -/
def EntryCall.AllocationFails : EntryCall → Prop
  | allocateAndAddEntry _ _ _ _ allocated => allocated = .plain 0
  | _ => False

instance (call : EntryCall) : Decidable call.AllocationFails :=
  match call with
  | .addEntry .. => inferInstanceAs (Decidable False)
  | .allocateAndAddEntry _ _ _ _ allocated => inferInstanceAs (Decidable (allocated = .plain 0))
  | .reserveAndAddEntry .. => inferInstanceAs (Decidable False)

/-! ### The search -/

/-- Without an entry for the address the search finds a position, in an ordered array. -/
theorem getInsertPosition_eq_none_iff (address remaining : Nat) (words : Nat → WordDescriptor)
    (sorted : ∀ i j, i < j → j < remaining → (words i).address < (words j).address) :
    getInsertPosition address remaining words = none ↔
      ∃ i < remaining, (words i).address = address := by
  induction remaining generalizing words with
  | zero => simp [getInsertPosition]
  | succ last inductionHypothesis =>
    have kept : ∀ i, i ≤ last → Function.update words (last + 1) (words last) i = words i :=
      fun i inside => Function.update_of_ne (by omega) _ _
    rw [getInsertPosition]
    split
    · rename_i same
      exact iff_of_true rfl ⟨last, Nat.lt_succ_self last, same⟩
    · rename_i different
      split
      · rename_i smaller
        refine iff_of_false (Option.some_ne_none _) ?_
        rintro ⟨i, inside, same⟩
        rcases Nat.lt_succ_iff_lt_or_eq.1 inside with before | rfl
        · have := sorted i last before (Nat.lt_succ_self last)
          omega
        · exact different same
      · rw [inductionHypothesis _ fun i j before inside => by
          rw [kept i (by omega), kept j (by omega)]
          exact sorted i j before (by omega)]
        constructor
        · rintro ⟨i, inside, same⟩
          rw [kept i (Nat.le_of_lt inside)] at same
          exact ⟨i, Nat.lt_succ_of_lt inside, same⟩
        · rintro ⟨i, inside, same⟩
          rcases Nat.lt_succ_iff_lt_or_eq.1 inside with before | rfl
          · exact ⟨i, before, (congrArg _ (kept i (Nat.le_of_lt before))).trans same⟩
          · exact absurd same different

/-- The descriptor has an entry for this address. -/
def Descriptor.Has (descriptor : Descriptor) (address : Nat) : Prop :=
  ∃ i < descriptor.count, (descriptor.words i).address = address

instance (descriptor : Descriptor) (address : Nat) : Decidable (descriptor.Has address) :=
  inferInstanceAs (Decidable (∃ i < descriptor.count, (descriptor.words i).address = address))

section Calls

variable {own : Nat} {descriptor after : Descriptor} {call : EntryCall} {index : Nat}

/-- The three functions differ in the entry they write and in the check of the block. -/
theorem EntryCall.perform_eq (own : Nat) (descriptor : Descriptor) (call : EntryCall) :
    call.perform own descriptor =
      (descriptor.getInsertPosition call.request.address).bind fun found =>
        if call.AllocationFails then .error .allocationFailed
        else .ok (found.2, descriptor.insert found.1 found.2 (call.request.entry own)) := by
  cases call with
  | addEntry => rfl
  | allocateAndAddEntry address oldValue size recyclePolicy allocated =>
    simp only [perform, Descriptor.allocateAndAddEntry, request]
    cases descriptor.getInsertPosition address with
    | error failed => rfl
    | ok found =>
      by_cases null : allocated = .plain 0
      · exact (if_pos null).trans (if_pos null).symm
      · exact (if_neg null).trans (if_neg null).symm
  | reserveAndAddEntry => rfl

theorem Descriptor.getInsertPosition_eq_ok {address : Nat} {found : (Nat → WordDescriptor) × Nat}
    (searched : descriptor.getInsertPosition address = .ok found) :
    descriptor.count < kMaxCount ∧
      Pmwcas.getInsertPosition address descriptor.count descriptor.words = some found := by
  rw [getInsertPosition] at searched
  split at searched
  · cases searched
  · rename_i room
    split at searched
    · cases searched
    · rename_i result here
      cases searched
      exact ⟨Nat.lt_of_not_le room, here⟩

/-- The search before a call ends the process exactly for one of its two checks. -/
theorem Descriptor.getInsertPosition_fails_iff (sorted : descriptor.Sorted)
    (bound : descriptor.count ≤ kMaxCount) (address : Nat) :
    (∃ error, descriptor.getInsertPosition address = .error error) ↔
      descriptor.Has address ∨ descriptor.count = kMaxCount := by
  rw [getInsertPosition]
  by_cases full : kMaxCount ≤ descriptor.count
  · rw [if_pos full]
    exact iff_of_true ⟨_, rfl⟩ (.inr (Nat.le_antisymm bound full))
  · rw [if_neg full]
    have present := getInsertPosition_eq_none_iff address descriptor.count descriptor.words sorted
    cases search : Pmwcas.getInsertPosition address descriptor.count descriptor.words with
    | none => exact iff_of_true ⟨_, rfl⟩ (.inl (present.1 search))
    | some found =>
      refine iff_of_false ?_ ?_
      · rintro ⟨error, failed⟩
        cases failed
      · rintro (has | same)
        · rw [present.2 has] at search
          cases search
        · exact full (Nat.le_of_eq same.symm)

/-- What a call that returns has found and done. -/
theorem EntryCall.perform_eq_ok (performed : call.perform own descriptor = .ok (index, after)) :
    ∃ words, Pmwcas.getInsertPosition call.request.address descriptor.count descriptor.words =
        some (words, index) ∧
      descriptor.count < kMaxCount ∧
      after = descriptor.insert words index (call.request.entry own) := by
  rw [perform_eq] at performed
  cases searched : descriptor.getInsertPosition call.request.address with
  | error failed =>
    rw [searched] at performed
    cases performed
  | ok found =>
    obtain ⟨room, here⟩ := Descriptor.getInsertPosition_eq_ok searched
    rw [searched, Except.bind] at performed
    split at performed
    · cases performed
    · cases performed
      exact ⟨found.1, here, room, rfl⟩

/-- A call fails exactly for one of the three reasons. -/
theorem EntryCall.perform_fails_iff (sorted : descriptor.Sorted)
    (bound : descriptor.count ≤ kMaxCount) :
    (∃ error, call.perform own descriptor = .error error) ↔
      descriptor.Has call.request.address ∨ descriptor.count = kMaxCount ∨ call.AllocationFails := by
  have search := Descriptor.getInsertPosition_fails_iff sorted bound call.request.address
  rw [perform_eq, ← or_assoc, ← search]
  cases descriptor.getInsertPosition call.request.address with
  | error failed => exact iff_of_true ⟨failed, rfl⟩ (.inl ⟨failed, rfl⟩)
  | ok found =>
    rw [Except.bind]
    split
    · rename_i allocation
      exact iff_of_true ⟨_, rfl⟩ (.inr allocation)
    · rename_i allocation
      refine iff_of_false ?_ ?_
      · rintro ⟨error, failed⟩
        cases failed
      · rintro (⟨error, failed⟩ | fails)
        · cases failed
        · exact allocation fails

/-! ### All calls -/

/-- A descriptor with the entries that these calls have asked for, in order of address. -/
structure Descriptor.Holds (own : Nat) (calls : List EntryCall) (descriptor : Descriptor) : Prop where
  sorted : descriptor.Sorted
  count_le : descriptor.count ≤ kMaxCount
  entries : descriptor.entries.Perm (calls.map fun call => call.request.entry own)

theorem Descriptor.Holds.perform {calls : List EntryCall} (holds : descriptor.Holds own calls)
    (performed : call.perform own descriptor = .ok (index, after)) :
    after.Holds own (calls ++ [call]) ∧ index < after.count ∧
      after.words index = call.request.entry own := by
  obtain ⟨words, found, room, rfl⟩ := EntryCall.perform_eq_ok performed
  have added : descriptor.addEntry own call.request =
      .ok (descriptor.insert words index (call.request.entry own)) := by
    rw [addEntry, if_neg (Nat.not_le_of_lt room), found]
    rfl
  obtain ⟨sorted, -, bound, -⟩ := addEntry_entries holds.sorted added
  obtain ⟨below, -⟩ := getInsertPosition_spec _ _ _ holds.sorted found
  refine ⟨⟨sorted, bound, ?_⟩, Nat.lt_succ_of_le below, Function.update_self _ _ _⟩
  have more : (call.request.entry own :: calls.map fun call => call.request.entry own).Perm
      ((calls ++ [call]).map fun call => call.request.entry own) := by
    rw [List.map_append, List.map_singleton]
    exact (List.perm_append_singleton _ _).symm
  exact (addEntry_perm added).trans ((holds.entries.cons _).trans more)

theorem Descriptor.Holds.performAll {earlier calls : List EntryCall}
    (holds : descriptor.Holds own earlier) (performed : performAll own descriptor calls = .ok after) :
    after.Holds own (earlier ++ calls) := by
  induction calls generalizing descriptor earlier with
  | nil =>
    cases performed
    rw [List.append_nil]
    exact holds
  | cons call rest inductionHypothesis =>
    rw [Pmwcas.performAll, List.foldlM_cons] at performed
    cases first : call.perform own descriptor with
    | error failed =>
      rw [first] at performed
      cases performed
    | ok result =>
      rw [first] at performed
      have step := inductionHypothesis (holds.perform first).1 performed
      rwa [List.append_assoc, List.singleton_append] at step

theorem Descriptor.holds_nil (own : Nat) (empty : descriptor.count = 0) : descriptor.Holds own [] where
  sorted i j before inside := by omega
  count_le := by
    rw [empty]
    exact Nat.zero_le _
  entries := by
    rw [Descriptor.entries, empty]
    exact .nil

/-- After any sequence of calls on an empty descriptor, none of which has failed, the entries are in
strictly increasing order of address and are the entries asked for. A further call puts its entry at
the index it returns, and fails exactly if its address is present, the descriptor is full, or its
allocation fails. -/
theorem entries_of_calls (own : Nat) {start result : Descriptor} (empty : start.count = 0)
    {calls : List EntryCall} (performed : performAll own start calls = .ok result) :
    (∀ i j, i < j → j < result.count → (result.words i).address < (result.words j).address) ∧
      result.entries.Perm (calls.map fun call => call.request.entry own) ∧
      (∀ (call : EntryCall) index after, call.perform own result = .ok (index, after) →
        index < after.count ∧ after.words index = call.request.entry own) ∧
      ∀ call : EntryCall, (∃ error, call.perform own result = .error error) ↔
        result.Has call.request.address ∨ result.count = kMaxCount ∨ call.AllocationFails := by
  have holds := (Descriptor.holds_nil own empty).performAll performed
  rw [List.nil_append] at holds
  exact ⟨holds.sorted, holds.entries, fun call index after added => (holds.perform added).2,
    fun call => EntryCall.perform_fails_iff holds.sorted holds.count_le⟩

/-- Two calls in the other order of address, with a block between. -/
theorem entries_of_calls_reversed :
    ∃ result, performAll 64 .initialized
        [.addEntry 16 (.plain 1) (.plain 2) .never, .allocateAndAddEntry 8 (.plain 3) 24 .always
          (.plain 512)] = .ok result ∧
      ∀ i j, i < j → j < result.count → (result.words i).address < (result.words j).address := by
  obtain ⟨result, performed⟩ : ∃ result, performAll 64 .initialized
      [.addEntry 16 (.plain 1) (.plain 2) .never, .allocateAndAddEntry 8 (.plain 3) 24 .always
        (.plain 512)] = .ok result := ⟨_, rfl⟩
  exact ⟨result, performed, (entries_of_calls 64 rfl performed).1⟩

/-- A call can fail on an empty descriptor. -/
theorem exists_allocation_fails :
    ∃ start : Descriptor, ∃ call : EntryCall, start.count = 0 ∧
      (∃ error, call.perform 64 start = .error error) ∧
      ¬ (start.Has call.request.address ∨ start.count = kMaxCount) :=
  ⟨.initialized, .allocateAndAddEntry 8 (.plain 0) 24 .always (.plain 0), rfl,
    ⟨.allocationFailed, rfl⟩, by decide⟩

end Calls

end Pmwcas
