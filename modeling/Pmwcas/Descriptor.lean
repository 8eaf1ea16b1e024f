/-
This file models a descriptor: its status word, its word descriptors, and the functions that fill
and reset it (`AddEntry` with `GetInsertPosition`, `Initialize`).

`GetInsertPosition` looks for the place of an address among the entries from the last one down and
shifts the larger entries up while it looks. Its specification `getInsertPosition_spec` says which
entry ends up where, and from it follows that a descriptor filled by any sequence of `AddEntry`
calls has its entries in strictly increasing order of address, each of them one of the entries
asked for.
-/

import Pmwcas.Word

namespace Pmwcas

/-! ### Failed checks -/

/-- The `RAW_CHECK`s of the modelled functions, named after their texts. A failed check ends the
process. -/
inductive RawCheck where
  | invalidStatus
  /-- "status of descriptor is not kStatusFinished" -/
  | statusNotFinished
  /-- "cannot abort under current status" -/
  | cannotAbort
  | tooManyWords
  | invalidInsertPosition
  | wrongAddress
  | wrongAddresses
  /-- "dirty flag set on CondCAS descriptor" -/
  | dirtyCondCASDescriptor
  /-- "dirty flag set on return value" -/
  | dirtyReturnValue
  | invalidDescriptorPointer
  | invalidInitialAddress
  /-- "wrong descriptor pool size" -/
  | wrongPoolSize
  /-- "corrupted descriptor pool/data area" -/
  | corruptedPool
  | invalidFieldValue
  | invalidWordValue
  /-- "provided pool size is less than partition count" -/
  | tooManyPartitions
  | valueNotMatch
  deriving DecidableEq, Repr

/-! ### The status word -/

/-- The values of `status_` without its dirty bit: `kStatusInvalid` to `kStatusUndecided`. -/
inductive StatusCode where
  | invalid
  | finished
  | succeeded
  | failed
  | undecided
  deriving DecidableEq, Repr

/-- `status_`: a status code and `kStatusDirtyFlag`. -/
@[ext]
structure Status where
  code : StatusCode
  dirty : Bool
  deriving DecidableEq, Repr

namespace Status

/-- A status without the dirty bit. -/
def of (code : StatusCode) : Status := { code := code, dirty := false }

/-- `status & ~kStatusDirtyFlag`. -/
def clearDirty (status : Status) : Status := { status with dirty := false }

@[simp] theorem clearDirty_code (status : Status) : status.clearDirty.code = status.code := rfl

@[simp] theorem clearDirty_dirty (status : Status) : status.clearDirty.dirty = false := rfl

@[simp] theorem of_code (code : StatusCode) : (of code).code = code := rfl

@[simp] theorem of_dirty (code : StatusCode) : (of code).dirty = false := rfl

theorem eq_of_iff (status : Status) (code : StatusCode) :
    status = of code ↔ status.code = code ∧ status.dirty = false := by
  constructor
  · rintro rfl
    exact ⟨rfl, rfl⟩
  · rintro ⟨sameCode, notDirty⟩
    exact Status.ext sameCode notDirty

end Status

/-- The operation is over: `status_` is Succeeded or Failed, dirty or not. -/
def StatusCode.Decided (code : StatusCode) : Prop := code = .succeeded ∨ code = .failed

instance (code : StatusCode) : Decidable code.Decided :=
  inferInstanceAs (Decidable (_ ∨ _))

/-- The descriptor belongs to an operation: its status is Undecided, Succeeded or Failed. -/
def StatusCode.InUse (code : StatusCode) : Prop := code = .undecided ∨ code.Decided

instance (code : StatusCode) : Decidable code.InUse :=
  inferInstanceAs (Decidable (_ ∨ _))

theorem StatusCode.Decided.inUse {code : StatusCode} (decided : code.Decided) : code.InUse :=
  Or.inr decided

theorem StatusCode.Decided.ne_undecided {code : StatusCode} (decided : code.Decided) :
    code ≠ .undecided := by
  rcases decided with rfl | rfl <;> decide

theorem StatusCode.InUse.decided_of_ne {code : StatusCode} (used : code.InUse)
    (notUndecided : code ≠ .undecided) : code.Decided :=
  used.resolve_left notUndecided

theorem StatusCode.not_inUse_finished : ¬ StatusCode.finished.InUse := by decide

/-! ### Word descriptors and descriptors -/

/-- The garbage list recycle policies; `unset` is the zeroed field of a fresh word descriptor. -/
inductive RecyclePolicy where
  | unset
  | onRecovery
  | never
  | always
  | oldOnSuccess
  | newOnFailure
  deriving DecidableEq, Repr

/-- `Descriptor::WordDescriptor`. Addresses are numbers, with zero for the null pointer. -/
structure WordDescriptor where
  address : Nat
  oldValue : Word
  newValue : Word
  ownDesc : Nat
  recyclePolicy : RecyclePolicy
  deriving DecidableEq, Repr

/-- A word descriptor after `memset(.., 0, ..)`. -/
def WordDescriptor.zero : WordDescriptor :=
  { address := 0, oldValue := .plain 0, newValue := .plain 0, ownDesc := 0,
    recyclePolicy := .unset }

/-- `Descriptor`: the status, the number of entries, and the array `words_`, of which the first
`kMaxCount` elements exist. -/
structure Descriptor where
  status : Status
  count : Nat
  words : Nat → WordDescriptor

/-- The entry of a descriptor for the word at `address`. -/
def Descriptor.entryFor (descriptor : Descriptor) (address : Nat) : WordDescriptor :=
  match (List.range descriptor.count).find? fun i => (descriptor.words i).address == address with
  | some i => descriptor.words i
  | none => .zero

theorem Descriptor.entryFor_eq {descriptor : Descriptor} {i address : Nat}
    (distinct : ∀ j, j < descriptor.count → (descriptor.words j).address = address → j = i)
    (inside : i < descriptor.count) (here : (descriptor.words i).address = address) :
    descriptor.entryFor address = descriptor.words i := by
  unfold entryFor
  split
  · rename_i j found
    have listed := List.mem_range.mp (List.mem_of_find?_eq_some found)
    have test := List.find?_some found
    rw [distinct j listed (eq_of_beq test)]
  · rename_i absent
    have missing := List.find?_eq_none.mp absent i (List.mem_range.mpr inside)
    exact absurd (beq_iff_eq.mpr here) missing

/-- `Descriptor::Initialize`, and the state the constructor leaves. -/
def Descriptor.initialized : Descriptor :=
  { status := .of .finished, count := 0, words := fun _ => .zero }

/-- What a caller asks `AddEntry` to add. -/
structure Request where
  address : Nat
  oldValue : Word
  newValue : Word
  recyclePolicy : RecyclePolicy
  deriving DecidableEq, Repr

/-- The entry `AddEntry` writes for a request on the descriptor at address `own`. -/
def Request.entry (request : Request) (own : Nat) : WordDescriptor :=
  { address := request.address, oldValue := request.oldValue, newValue := request.newValue,
    ownDesc := own, recyclePolicy := request.recyclePolicy }

/-- What callers owe to `AddEntry`: a target that exists, and values without management flags (the
two `DCHECK`s). -/
structure Request.Valid (request : Request) : Prop where
  address_ne : request.address ≠ 0
  oldValue_clean : request.oldValue.isCleanPtr = true
  newValue_clean : request.newValue.isCleanPtr = true

instance (request : Request) : Decidable request.Valid :=
  decidable_of_iff (request.address ≠ 0 ∧ request.oldValue.isCleanPtr = true ∧
      request.newValue.isCleanPtr = true)
    ⟨fun both => ⟨both.1, both.2.1, both.2.2⟩,
      fun valid => ⟨valid.address_ne, valid.oldValue_clean, valid.newValue_clean⟩⟩

/-! ### Adding entries -/

/-- The loop of `GetInsertPosition` with `remaining` entries still to look at: the shifted array
and the position found, or nothing (-2) when the address is already there. -/
def getInsertPosition (address : Nat) :
    Nat → (Nat → WordDescriptor) → Option ((Nat → WordDescriptor) × Nat)
  | 0, words => some (words, 0)
  | i + 1, words =>
    if (words i).address = address then none
    else if (words i).address < address then some (words, i + 1)
    else getInsertPosition address i (Function.update words (i + 1) (words i))

/-- `Descriptor::AddEntry` on the descriptor at address `own`. -/
def Descriptor.addEntry (own : Nat) (descriptor : Descriptor) (request : Request) :
    Except RawCheck Descriptor :=
  if kMaxCount ≤ descriptor.count then .error .tooManyWords
  else
    match getInsertPosition request.address descriptor.count descriptor.words with
    | none => .error .invalidInsertPosition
    | some (words, position) => .ok
        { descriptor with
          count := descriptor.count + 1
          words := Function.update words position (request.entry own) }

/-- One `AddEntry` call after the other. -/
def Descriptor.addEntries (own : Nat) (descriptor : Descriptor) (requests : List Request) :
    Except RawCheck Descriptor :=
  requests.foldlM (fun current request => current.addEntry own request) descriptor

/-- Where every entry is after a successful search: those below the position stay, those above
have moved up by one, and the address fits in between. -/
theorem getInsertPosition_spec (address : Nat) (words : Nat → WordDescriptor)
    (remaining : Nat) (sorted : ∀ i j, i < j → j < remaining →
      (words i).address < (words j).address)
    {shifted : Nat → WordDescriptor} {position : Nat}
    (found : getInsertPosition address remaining words = some (shifted, position)) :
    position ≤ remaining ∧ (∀ i, i < position → shifted i = words i ∧ (words i).address < address) ∧
      (∀ i, position ≤ i → i < remaining →
        shifted (i + 1) = words i ∧ address < (words i).address) ∧
      ∀ i, remaining < i → shifted i = words i := by
  induction remaining generalizing words with
  | zero =>
    simp only [getInsertPosition, Option.some.injEq, Prod.mk.injEq] at found
    obtain ⟨rfl, rfl⟩ := found
    refine ⟨Nat.le_refl _, ?_, ?_, fun _ _ => rfl⟩
    · intro i impossible
      exact absurd impossible (Nat.not_lt_zero i)
    · intro i _ impossible
      exact absurd impossible (Nat.not_lt_zero i)
  | succ last inductionHypothesis =>
    rw [getInsertPosition] at found
    split at found
    · cases found
    · rename_i different
      split at found
      · rename_i smaller
        simp only [Option.some.injEq, Prod.mk.injEq] at found
        obtain ⟨rfl, rfl⟩ := found
        refine ⟨Nat.le_refl _, ?_, ?_, fun _ _ => rfl⟩
        · intro i below
          refine ⟨rfl, ?_⟩
          rcases Nat.lt_succ_iff_lt_or_eq.mp below with before | rfl
          · exact Nat.lt_trans (sorted i last before (Nat.lt_succ_self _)) smaller
          · exact smaller
        · intro i above inside
          omega
      · rename_i notSmaller
        have kept : ∀ i, i ≤ last → Function.update words (last + 1) (words last) i = words i :=
          fun i inside => Function.update_of_ne (by omega) _ _
        have step := inductionHypothesis (Function.update words (last + 1) (words last))
          (fun i j before inside => by
            rw [kept i (by omega), kept j (by omega)]
            exact sorted i j before (by omega)) found
        obtain ⟨bound, below, above, beyond⟩ := step
        refine ⟨Nat.le_succ_of_le bound, ?_, ?_, ?_⟩
        · intro i inside
          have facts := below i inside
          rwa [kept i (by omega)] at facts
        · intro i after inside
          rcases Nat.lt_succ_iff_lt_or_eq.mp inside with before | rfl
          · have facts := above i after before
            rwa [kept i (by omega)] at facts
          · refine ⟨?_, by omega⟩
            rw [beyond (i + 1) (Nat.lt_succ_self _), Function.update_self]
        · intro i after
          rw [beyond i (by omega), Function.update_of_ne (by omega)]

/-- The entries are in strictly increasing order of address. -/
def Descriptor.Sorted (descriptor : Descriptor) : Prop :=
  ∀ i j, i < j → j < descriptor.count →
    (descriptor.words i).address < (descriptor.words j).address

theorem Descriptor.addEntry_eq_ok {own : Nat} {descriptor result : Descriptor}
    {request : Request} (added : descriptor.addEntry own request = .ok result) :
    descriptor.count < kMaxCount ∧ ∃ words position,
      getInsertPosition request.address descriptor.count descriptor.words =
        some (words, position) ∧
      result = { descriptor with
        count := descriptor.count + 1
        words := Function.update words position (request.entry own) } := by
  rw [addEntry] at added
  split at added
  · cases added
  · rename_i room
    refine ⟨Nat.lt_of_not_le room, ?_⟩
    split at added
    · cases added
    · rename_i words position found
      exact ⟨words, position, found, (Except.ok.inj added).symm⟩

/-- What one successful `AddEntry` does to the entries. -/
theorem Descriptor.addEntry_entries {own : Nat} {descriptor result : Descriptor}
    {request : Request} (sorted : descriptor.Sorted)
    (added : descriptor.addEntry own request = .ok result) :
    result.Sorted ∧ result.count = descriptor.count + 1 ∧ result.count ≤ kMaxCount ∧
      result.status = descriptor.status ∧
      ∀ i, i < result.count → result.words i = request.entry own ∨
        ∃ j, j < descriptor.count ∧ result.words i = descriptor.words j := by
  obtain ⟨room, words, position, found, rfl⟩ := addEntry_eq_ok added
  obtain ⟨bound, below, above, -⟩ :=
    getInsertPosition_spec request.address descriptor.words descriptor.count sorted found
  have place : ∀ i, i < descriptor.count + 1 →
      (i = position ∧ Function.update words position (request.entry own) i = request.entry own) ∨
      (i < position ∧ Function.update words position (request.entry own) i = descriptor.words i ∧
        (descriptor.words i).address < request.address) ∨
      (position < i ∧
        Function.update words position (request.entry own) i = descriptor.words (i - 1) ∧
        request.address < (descriptor.words (i - 1)).address) := by
    intro i inside
    rcases Nat.lt_trichotomy i position with before | rfl | after
    · refine Or.inr (Or.inl ⟨before, ?_, (below i before).2⟩)
      rw [Function.update_of_ne (Nat.ne_of_lt before), (below i before).1]
    · exact Or.inl ⟨rfl, Function.update_self _ _ _⟩
    · have moved := above (i - 1) (by omega) (by omega)
      rw [Nat.sub_add_cancel (by omega)] at moved
      refine Or.inr (Or.inr ⟨after, ?_, moved.2⟩)
      rw [Function.update_of_ne (Nat.ne_of_gt after), moved.1]
  refine ⟨?_, rfl, room, rfl, ?_⟩
  · intro i j before inside
    show (Function.update words position (request.entry own) i).address <
      (Function.update words position (request.entry own) j).address
    rcases place i (Nat.lt_trans before inside) with ⟨atI, first⟩ | ⟨atI, first, smaller⟩ |
      ⟨atI, first, -⟩ <;>
    rcases place j inside with ⟨atJ, second⟩ | ⟨atJ, second, -⟩ | ⟨atJ, second, larger⟩ <;>
    rw [first, second]
    · omega
    · omega
    · exact larger
    · exact smaller
    · exact sorted i j before (by omega)
    · exact Nat.lt_trans smaller larger
    · omega
    · omega
    · exact sorted (i - 1) (j - 1) (by omega) (Nat.sub_lt_right_of_lt_add (by omega) inside)
  · intro i inside
    rcases place i inside with ⟨-, here⟩ | ⟨before, here, -⟩ | ⟨after, here, -⟩
    · exact Or.inl here
    · exact Or.inr ⟨i, by omega, here⟩
    · exact Or.inr ⟨i - 1, Nat.sub_lt_right_of_lt_add (by omega) inside, here⟩

/-- A descriptor filled from empty: sorted, no more than `kMaxCount` entries, all of them asked
for. -/
structure Descriptor.FilledWith (own : Nat) (requests : List Request)
    (descriptor : Descriptor) : Prop where
  sorted : descriptor.Sorted
  count_eq : descriptor.count = requests.length
  count_le : descriptor.count ≤ kMaxCount
  entries : ∀ i, i < descriptor.count →
    ∃ request ∈ requests, descriptor.words i = request.entry own

theorem Descriptor.FilledWith.addEntry {own : Nat} {requests : List Request}
    {descriptor result : Descriptor} {request : Request}
    (filled : descriptor.FilledWith own requests)
    (added : descriptor.addEntry own request = .ok result) :
    result.FilledWith own (requests ++ [request]) := by
  obtain ⟨sorted, count, bound, -, entries⟩ := addEntry_entries filled.sorted added
  refine ⟨sorted, ?_, bound, ?_⟩
  · rw [count, filled.count_eq, List.length_append, List.length_singleton]
  · intro i inside
    rcases entries i inside with here | ⟨j, insideJ, here⟩
    · exact ⟨request, by simp, here⟩
    · obtain ⟨earlier, member, same⟩ := filled.entries j insideJ
      exact ⟨earlier, List.mem_append_left _ member, here.trans same⟩

theorem Descriptor.addEntries_filledWith {own : Nat} {descriptor result : Descriptor}
    {earlier requests : List Request} (filled : descriptor.FilledWith own earlier)
    (added : descriptor.addEntries own requests = .ok result) :
    result.FilledWith own (earlier ++ requests) := by
  induction requests generalizing descriptor earlier with
  | nil =>
    have same : descriptor = result := Except.ok.inj added
    rw [← same, List.append_nil]
    exact filled
  | cons request rest inductionHypothesis =>
    rw [addEntries, List.foldlM_cons] at added
    cases first : descriptor.addEntry own request with
    | error check => rw [first] at added; cases added
    | ok next =>
      rw [first] at added
      have step := inductionHypothesis (filled.addEntry first) added
      rwa [List.append_assoc, List.singleton_append] at step

theorem Descriptor.filledWith_nil {descriptor : Descriptor} (own : Nat)
    (empty : descriptor.count = 0) : descriptor.FilledWith own [] := by
  have nothing : ∀ i, ¬ i < descriptor.count := by
    intro i
    rw [empty]
    exact Nat.not_lt_zero i
  exact ⟨fun _ j _ inside => absurd inside (nothing j), empty, by rw [empty]; exact Nat.zero_le _,
    fun i inside => absurd inside (nothing i)⟩

/-! ### Fields -/

/-- The separately written parts of a descriptor. -/
inductive Field where
  | status
  | count
  | address (index : Nat)
  | oldValue (index : Nat)
  | newValue (index : Nat)
  | ownDesc (index : Nat)
  | recyclePolicy (index : Nat)
  deriving DecidableEq, Repr

/-- Replace one entry of a descriptor. -/
def Descriptor.setWord (descriptor : Descriptor) (index : Nat) (word : WordDescriptor) :
    Descriptor :=
  { descriptor with words := Function.update descriptor.words index word }

/-- `target` with one field taken from `source`. -/
def Descriptor.copyField (source target : Descriptor) : Field → Descriptor
  | .status => { target with status := source.status }
  | .count => { target with count := source.count }
  | .address i => target.setWord i { target.words i with address := (source.words i).address }
  | .oldValue i => target.setWord i { target.words i with oldValue := (source.words i).oldValue }
  | .newValue i => target.setWord i { target.words i with newValue := (source.words i).newValue }
  | .ownDesc i => target.setWord i { target.words i with ownDesc := (source.words i).ownDesc }
  | .recyclePolicy i =>
    target.setWord i { target.words i with recyclePolicy := (source.words i).recyclePolicy }

/-- The fields of a word descriptor, in the order of their addresses. -/
def Field.ofWord (index : Nat) : List Field :=
  [.address index, .oldValue index, .newValue index, .ownDesc index, .recyclePolicy index]

/-- The fields of the array `words_`. -/
def Field.words : List Field := (List.range kMaxCount).flatMap Field.ofWord

/-- The fields of a descriptor, in the order of their addresses. -/
def Field.all : List Field := .status :: .count :: Field.words

/-- `target` with the listed fields taken from `source`. -/
def Descriptor.copyFields (source : Descriptor) (fields : List Field) (target : Descriptor) :
    Descriptor :=
  fields.foldl source.copyField target

/-- A descriptor as the constructor leaves it. -/
structure Descriptor.Fresh (descriptor : Descriptor) : Prop where
  status : descriptor.status = .of .finished
  count : descriptor.count = 0
  words : ∀ i, i < kMaxCount → descriptor.words i = .zero

theorem Descriptor.copyFields_all_fresh (target : Descriptor) :
    (Descriptor.initialized.copyFields Field.all target).Fresh where
  status := rfl
  count := rfl
  words i inside := by
    match i, inside with
    | 0, _ | 1, _ | 2, _ | 3, _ => rfl

/-- Stores to the other fields leave the status alone. -/
theorem Descriptor.copyFields_status (source target : Descriptor) (fields : List Field)
    (others : .status ∉ fields) : (source.copyFields fields target).status = target.status := by
  induction fields generalizing target with
  | nil => rfl
  | cons field rest inductionHypothesis =>
    have step := inductionHypothesis (source.copyField target field)
      fun member => others (List.mem_cons_of_mem _ member)
    have kept : (source.copyField target field).status = target.status := by
      cases field with
      | status => exact absurd List.mem_cons_self others
      | _ => rfl
    exact step.trans kept

theorem Field.status_not_mem_words : Field.status ∉ Field.words := by decide

/-- The status is the first field to be written. -/
theorem Descriptor.copyFields_prefix_status {written : List Field} (source target : Descriptor)
    (first : written <+: Field.all) (some : written ≠ []) :
    (source.copyFields written target).status = source.status := by
  obtain ⟨rest, split⟩ := first
  cases written with
  | nil => exact absurd rfl some
  | cons field written =>
    simp only [Field.all, List.cons_append, List.cons.injEq] at split
    obtain ⟨rfl, split⟩ := split
    show (source.copyFields written (source.copyField target .status)).status = source.status
    rw [Descriptor.copyFields_status]
    · rfl
    · intro member
      have inAll : Field.status ∈ Field.count :: Field.words := by
        rw [← split]
        exact List.mem_append_left _ member
      rcases List.mem_cons.mp inAll with impossible | impossible
      · cases impossible
      · exact Field.status_not_mem_words impossible

end Pmwcas
