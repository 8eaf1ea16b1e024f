/-
This file is about the memory that the entries of a descriptor name. An operation is one atomic step
here: what matters is who owns a block. `AllocateAndAddEntry` puts a fresh block into an entry, a
successful `MwCAS` moves it into the target word and leaves the word's old block to the entry, and
`DeallocateMemory` passes the block that is left to `free_callback_` when the descriptor is recycled,
as the recycle policy of the entry says.

Every block is at one place at every time. With `kRecycleAlways` the places are a target word, an entry
that is not yet executed, an entry that waits to be recycled, and one call of `free_callback_`.
-/

import Mathlib.Data.List.Nodup
import Mathlib.Data.List.Perm.Basic
import Pmwcas.Descriptor
import Pmwcas.Library.Transition

namespace Pmwcas

/-! ### Entries -/

/-- The entries of a descriptor, in order. -/
def Descriptor.entries (descriptor : Descriptor) : List WordDescriptor :=
  (List.range descriptor.count).map descriptor.words

/-- `kNewValueReserved`: all bits set. -/
def kNewValueReserved : Word :=
  { mwcas := true, condcas := true, dirty := true, rest := 2305843009213693951 }

/-- What ends the process in `DeallocateMemory`. -/
inductive DeallocationError where
  /-- "incorrect status found on used/discarded descriptor" -/
  | incorrectStatus
  | invalidRecyclePolicy
  deriving DecidableEq, Repr

/-- `free_callback_` on a value that is not reserved. -/
def freeValue (value : Word) : List Word := if value ≠ kNewValueReserved then [value] else []

/-- The calls of `free_callback_` for one entry of a descriptor with this status. -/
def WordDescriptor.deallocate (status : Status) (word : WordDescriptor) :
    Except DeallocationError (List Word) :=
  match word.recyclePolicy with
  | .never => .ok []
  | .onRecovery => .ok []
  | .always =>
    if status = .of .succeeded then .ok (freeValue word.oldValue)
    else if status = .of .failed ∨ status = .of .finished then .ok (freeValue word.newValue)
    else .error .incorrectStatus
  | .oldOnSuccess => .ok (if status = .of .succeeded then freeValue word.oldValue else [])
  | .newOnFailure => .ok (if status ≠ .of .succeeded then freeValue word.newValue else [])
  | .unset => .error .invalidRecyclePolicy

/-- The loop of `DeallocateMemory`. -/
def deallocateEntries (status : Status) : List WordDescriptor → Except DeallocationError (List Word)
  | [] => .ok []
  | word :: rest =>
    match word.deallocate status with
    | .error error => .error error
    | .ok calls =>
      match deallocateEntries status rest with
      | .error error => .error error
      | .ok later => .ok (calls ++ later)

/-- `Descriptor::DeallocateMemory`: the calls of `free_callback_`. -/
def Descriptor.deallocateMemory (descriptor : Descriptor) : Except DeallocationError (List Word) :=
  deallocateEntries descriptor.status descriptor.entries

/-! ### Adding an entry -/

theorem getInsertPosition_perm (address : Nat) (entry : WordDescriptor) (remaining : Nat)
    (words shifted : Nat → WordDescriptor) (position : Nat)
    (found : getInsertPosition address remaining words = some (shifted, position)) :
    position ≤ remaining ∧ (∀ i, remaining < i → shifted i = words i) ∧
      ((List.range (remaining + 1)).map (Function.update shifted position entry)).Perm
        (entry :: (List.range remaining).map words) := by
  have ends : ∀ (count : Nat) (words : Nat → WordDescriptor),
      ((List.range (count + 1)).map (Function.update words count entry)).Perm
        (entry :: (List.range count).map words) := by
    intro count words
    rw [List.range_succ, List.map_append, List.map_singleton, Function.update_self]
    refine List.perm_append_comm.trans ?_
    rw [List.singleton_append]
    refine List.Perm.of_eq (congrArg _ (List.map_congr_left fun i member => ?_))
    exact Function.update_of_ne (Nat.ne_of_lt (List.mem_range.mp member)) _ _
  induction remaining generalizing words with
  | zero =>
    simp only [getInsertPosition, Option.some.injEq, Prod.mk.injEq] at found
    obtain ⟨rfl, rfl⟩ := found
    exact ⟨Nat.le_refl _, fun _ _ => rfl, ends 0 words⟩
  | succ last inductionHypothesis =>
    rw [getInsertPosition] at found
    split at found
    · cases found
    · split at found
      · simp only [Option.some.injEq, Prod.mk.injEq] at found
        obtain ⟨rfl, rfl⟩ := found
        exact ⟨Nat.le_refl _, fun _ _ => rfl, ends (last + 1) words⟩
      · obtain ⟨bound, beyond, permuted⟩ := inductionHypothesis _ found
        have moved : shifted (last + 1) = words last := by
          rw [beyond (last + 1) (Nat.lt_succ_self _), Function.update_self]
        have kept : (List.range last).map (Function.update words (last + 1) (words last)) =
            (List.range last).map words := by
          refine List.map_congr_left fun i member => Function.update_of_ne ?_ _ _
          have below := List.mem_range.mp member
          omega
        refine ⟨Nat.le_succ_of_le bound, fun i after => ?_, ?_⟩
        · rw [beyond i (by omega), Function.update_of_ne (by omega)]
        · rw [kept] at permuted
          have longer : (List.range (last + 2)).map (Function.update shifted position entry) =
              (List.range (last + 1)).map (Function.update shifted position entry) ++ [words last] := by
            rw [List.range_succ (n := last + 1), List.map_append, List.map_singleton,
              Function.update_of_ne (by omega), moved]
          have shorter : (List.range (last + 1)).map words =
              (List.range last).map words ++ [words last] := by
            rw [List.range_succ, List.map_append, List.map_singleton]
          rw [longer, shorter, ← List.cons_append]
          exact permuted.append_right _

/-- The entries after a successful `AddEntry`. -/
theorem Descriptor.addEntry_perm {own : Nat} {descriptor result : Descriptor} {request : Request}
    (added : descriptor.addEntry own request = .ok result) :
    result.entries.Perm (request.entry own :: descriptor.entries) := by
  obtain ⟨room, words, position, found, rfl⟩ := addEntry_eq_ok added
  exact (getInsertPosition_perm request.address (request.entry own) _ _ _ _ found).2.2

theorem Descriptor.Sorted.addresses_nodup {descriptor : Descriptor} (sorted : descriptor.Sorted) :
    (descriptor.entries.map (·.address)).Nodup := by
  unfold entries
  rw [List.map_map]
  refine List.nodup_range.map_on ?_
  intro i insideI j insideJ same
  rw [List.mem_range] at insideI insideJ
  rcases Nat.lt_trichotomy i j with before | equal | after
  · exact absurd same (Nat.ne_of_lt (sorted i j before insideJ))
  · exact equal
  · exact absurd same.symm (Nat.ne_of_lt (sorted j i after insideI))

namespace Recycling

open Transition

/-! ### The system -/

/-- The target words and the number of descriptors. -/
structure Config where
  targets : List Nat
  nodup : targets.Nodup
  size : Nat

/-- Where a descriptor is: on a free list, with the thread that fills it, or on a garbage list. -/
inductive Stage where
  | free
  | filling (thread : Nat)
  | garbage
  deriving DecidableEq

/-- The words, the descriptors, the blocks ever allocated and the calls of `free_callback_`. -/
structure State where
  words : Nat → Word
  desc : Nat → Descriptor
  stage : Nat → Stage
  allocated : List Word
  freed : List Word

inductive Action where
  | allocateDescriptor (thread d : Nat)
  | allocateAndAddEntry (thread d : Nat) (request : Request)
  | mwCAS (thread d : Nat)
  | abort (thread d : Nat)
  | freeDescriptor (d : Nat)
  deriving DecidableEq

/-- All target words hold the expected old values. -/
def Matches (words : Nat → Word) (entries : List WordDescriptor) : Prop :=
  ∀ entry ∈ entries, words entry.address = entry.oldValue

instance (words : Nat → Word) (entries : List WordDescriptor) : Decidable (Matches words entries) :=
  inferInstanceAs (Decidable (∀ entry ∈ entries, words entry.address = entry.oldValue))

/-- The words with the new values. -/
def install (words : Nat → Word) (entries : List WordDescriptor) : Nat → Word :=
  entries.foldl (fun words entry => Function.update words entry.address entry.newValue) words

variable (config : Config)

/-- What the allocator and the caller owe to `AllocateAndAddEntry`: a fresh block, clean and not null,
and a target word and a recycle policy. -/
structure Fresh (state : State) (request : Request) : Prop where
  target : request.address ∈ config.targets
  unused : request.newValue ∉ state.allocated
  clean : request.newValue.isCleanPtr = true
  notNull : request.newValue ≠ .plain 0
  policy : request.recyclePolicy ≠ .unset

instance (state : State) (request : Request) : Decidable (Fresh config state request) :=
  decidable_of_iff (request.address ∈ config.targets ∧ request.newValue ∉ state.allocated ∧
      request.newValue.isCleanPtr = true ∧ request.newValue ≠ .plain 0 ∧
      request.recyclePolicy ≠ .unset)
    ⟨fun all => ⟨all.1, all.2.1, all.2.2.1, all.2.2.2.1, all.2.2.2.2⟩,
      fun fresh => ⟨fresh.target, fresh.unused, fresh.clean, fresh.notNull, fresh.policy⟩⟩

variable {config} in
/-- Descriptor `d` with another content and at another place. -/
def State.move (state : State) (d : Nat) (descriptor : Descriptor) (stage : Stage) : State :=
  { state with
    desc := Function.update state.desc d descriptor
    stage := Function.update state.stage d stage }

/-- One step; a failed check has no next state. -/
def next (state : State) : Action → Option State
  | .allocateDescriptor thread d =>
    if d < config.size ∧ state.stage d = .free then
      some (state.move d (state.desc d) (.filling thread))
    else none
  | .allocateAndAddEntry thread d request =>
    if state.stage d = .filling thread ∧ Fresh config state request then
      match (state.desc d).addEntry d request with
      | .error _ => none
      | .ok descriptor => some { state.move d descriptor (.filling thread) with
          allocated := request.newValue :: state.allocated }
    else none
  | .mwCAS thread d =>
    if state.stage d = .filling thread ∧ (state.desc d).status = .of .finished then
      if Matches state.words (state.desc d).entries then
        some { state.move d { state.desc d with status := .of .succeeded } .garbage with
          words := install state.words (state.desc d).entries }
      else some (state.move d { state.desc d with status := .of .failed } .garbage)
    else none
  | .abort thread d =>
    if state.stage d = .filling thread ∧ (state.desc d).status = .of .finished then
      some (state.move d { state.desc d with status := .of .failed } .garbage)
    else none
  | .freeDescriptor d =>
    if state.stage d = .garbage then
      match (state.desc d).deallocateMemory with
      | .error _ => none
      | .ok calls => some { state.move d .initialized .free with freed := state.freed ++ calls }
    else none

/-- The words hold distinct blocks, and nothing else is allocated. -/
structure Initial (state : State) : Prop where
  distinct : (config.targets.map state.words).Nodup
  clean : ∀ address ∈ config.targets, (state.words address).isCleanPtr = true
  allocated : state.allocated = config.targets.map state.words
  desc : ∀ d, state.desc d = .initialized
  stage : ∀ d, state.stage d = .free
  freed : state.freed = []

/-- Any number of threads, and recycling of any descriptor on the garbage list at any time. -/
def system : System State Action := .ofNext (Initial config) (next config)

/-! ### Where the blocks are -/

/-- The block an entry is left with: the old one after success, else the new one. -/
def leftover (status : Status) (entry : WordDescriptor) : Word :=
  if status = .of .succeeded then entry.oldValue else entry.newValue

/-- The blocks in entries that are not yet executed. -/
def State.unexecuted (state : State) : List Word :=
  (List.range config.size).flatMap fun d =>
    match state.stage d with
    | .filling _ => (state.desc d).entries.map (·.newValue)
    | _ => []

/-- The blocks in entries of finished descriptors that are not yet recycled. -/
def State.waiting (state : State) : List Word :=
  (List.range config.size).flatMap fun d =>
    match state.stage d with
    | .garbage => (state.desc d).entries.map (leftover (state.desc d).status)
    | _ => []

/-- An entry that was recycled with its descriptor. -/
structure Dropped where
  block : Word
  policy : RecyclePolicy
  succeeded : Bool

/-- What the recycle policies promise: `free_callback_` gets the old value after success, the new one
after failure, or either. -/
def Dropped.called (dropped : Dropped) : Bool :=
  match dropped.policy with
  | .always => true
  | .oldOnSuccess => dropped.succeeded
  | .newOnFailure => !dropped.succeeded
  | _ => false

/-- An entry of a descriptor with this status. -/
def Dropped.of (status : Status) (entry : WordDescriptor) : Dropped :=
  { block := leftover status entry, policy := entry.recyclePolicy,
    succeeded := status = .of .succeeded }

/-- The entries an action recycles. -/
def State.drops (state : State) : Action → List Dropped
  | .freeDescriptor d => (state.desc d).entries.map (Dropped.of (state.desc d).status)
  | _ => []

variable {config}

/-- The entries recycled before a point of a run. -/
def droppedBefore (run : Run (system config)) : Nat → List Dropped
  | 0 => []
  | index + 1 => droppedBefore run index ++ (run.state index).drops (run.action index)

/-! ### Counting the blocks -/

/-- The blocks in the entries of a descriptor. -/
def held (descriptor : Descriptor) : List Word :=
  descriptor.entries.map (leftover descriptor.status)

/-- The blocks in the entries of all descriptors. -/
def inPool (config : Config) (desc : Nat → Descriptor) : List Word :=
  (List.range config.size).flatMap fun d => held (desc d)

theorem count_flatMap_update {Item : Type} [DecidableEq Item] (f : Nat → List Item) {size d : Nat}
    (inside : d < size) (list : List Item) (item : Item) :
    ((List.range size).flatMap (Function.update f d list)).count item + (f d).count item =
      ((List.range size).flatMap f).count item + list.count item := by
  have member : d ∈ List.range size := List.mem_range.mpr inside
  have apart : ∀ g : Nat → List Item, ((List.range size).flatMap g).count item =
      (g d).count item + (((List.range size).erase d).flatMap g).count item := by
    intro g
    rw [← List.count_append]
    exact ((List.perm_cons_erase member).flatMap_right g).count_eq item
  have others : ((List.range size).erase d).flatMap (Function.update f d list) =
      ((List.range size).erase d).flatMap f := by
    refine List.flatMap_congr fun e there => Function.update_of_ne ?_ _ _
    rintro rfl
    exact List.nodup_range.not_mem_erase there
  rw [apart f, apart (Function.update f d list), others, Function.update_self]
  omega

theorem count_inPool_update (desc : Nat → Descriptor) {d : Nat} (inside : d < config.size)
    (descriptor : Descriptor) (block : Word) :
    (inPool config (Function.update desc d descriptor)).count block + (held (desc d)).count block =
      (inPool config desc).count block + (held descriptor).count block := by
  have pushed : (fun e => held (Function.update desc d descriptor e)) =
      Function.update (fun e => held (desc e)) d (held descriptor) := by
    funext e
    by_cases same : e = d
    · subst same
      simp only [Function.update_self]
    · simp only [Function.update_of_ne same]
  unfold inPool
  rw [pushed]
  exact count_flatMap_update (fun e => held (desc e)) inside (held descriptor) block

/-- A store to a target word takes one block out and puts another one in. -/
theorem count_map_update {targets : List Nat} (nodup : targets.Nodup) {address : Nat}
    (member : address ∈ targets) (words : Nat → Word) (value block : Word) :
    (targets.map (Function.update words address value)).count block + [words address].count block =
      (targets.map words).count block + [value].count block := by
  have apart : ∀ g : Nat → Word, (targets.map g).count block =
      [g address].count block + ((targets.erase address).map g).count block := by
    intro g
    rw [← List.count_append]
    exact ((List.perm_cons_erase member).map g).count_eq block
  have others : (targets.erase address).map (Function.update words address value) =
      (targets.erase address).map words := by
    refine List.map_congr_left fun other there => Function.update_of_ne ?_ _ _
    rintro rfl
    exact nodup.not_mem_erase there
  rw [apart words, apart (Function.update words address value), others, Function.update_self]
  omega

/-- A successful operation moves the new blocks into the words and the old ones into the entries. -/
theorem count_install {targets : List Nat} (nodup : targets.Nodup) (entries : List WordDescriptor)
    (distinct : (entries.map (·.address)).Nodup) (inside : ∀ entry ∈ entries, entry.address ∈ targets)
    (words : Nat → Word) (found : Matches words entries) (block : Word) :
    (targets.map (install words entries)).count block + (entries.map (·.oldValue)).count block =
      (targets.map words).count block + (entries.map (·.newValue)).count block := by
  induction entries generalizing words with
  | nil => rfl
  | cons entry rest inductionHypothesis =>
    rw [List.map_cons, List.nodup_cons] at distinct
    have other : ∀ later ∈ rest, later.address ≠ entry.address := by
      intro later member same
      exact distinct.1 (same ▸ List.mem_map_of_mem member)
    have later : Matches (Function.update words entry.address entry.newValue) rest := by
      intro later member
      rw [Function.update_of_ne (other later member)]
      exact found later (List.mem_cons_of_mem _ member)
    have first := count_map_update nodup (inside entry List.mem_cons_self) words entry.newValue block
    have others := inductionHypothesis distinct.2
      (fun later member => inside later (List.mem_cons_of_mem _ member)) _ later
    rw [found entry List.mem_cons_self] at first
    have unfolded : install words (entry :: rest) =
        install (Function.update words entry.address entry.newValue) rest := rfl
    rw [unfolded, List.map_cons, List.map_cons, ← List.singleton_append, List.count_append,
      ← List.singleton_append (l := rest.map (·.newValue)), List.count_append]
    omega

/-! ### Deallocation -/

theorem freeValue_of_clean {value : Word} (clean : value.isCleanPtr = true) :
    freeValue value = [value] := by
  refine if_pos ?_
  rintro rfl
  cases clean

/-- The calls for one entry of a finished descriptor. -/
theorem deallocate_eq {status : Status}
    (finished : status = .of .succeeded ∨ status = .of .failed) {entry : WordDescriptor}
    (policy : entry.recyclePolicy ≠ .unset) (clean : (leftover status entry).isCleanPtr = true) :
    entry.deallocate status =
      .ok (([Dropped.of status entry].filter Dropped.called).map (·.block)) := by
  have frees := freeValue_of_clean clean
  unfold WordDescriptor.deallocate
  rcases finished with rfl | rfl
  · have old : leftover (.of .succeeded) entry = entry.oldValue := if_pos rfl
    rw [old] at frees
    cases chosen : entry.recyclePolicy with
    | unset => exact absurd chosen policy
    | onRecovery => simp [Dropped.of, Dropped.called, chosen]
    | never => simp [Dropped.of, Dropped.called, chosen]
    | always => simp [Dropped.of, Dropped.called, List.filter_cons, chosen, frees, old]
    | oldOnSuccess => simp [Dropped.of, Dropped.called, List.filter_cons, chosen, frees, old]
    | newOnFailure => simp [Dropped.of, Dropped.called, chosen]
  · have different : Status.of .failed ≠ .of .succeeded := by decide
    have new : leftover (.of .failed) entry = entry.newValue := if_neg different
    rw [new] at frees
    cases chosen : entry.recyclePolicy with
    | unset => exact absurd chosen policy
    | onRecovery => simp [Dropped.of, Dropped.called, chosen]
    | never => simp [Dropped.of, Dropped.called, chosen]
    | always => simp [Dropped.of, Dropped.called, List.filter_cons, chosen, frees, new, different]
    | oldOnSuccess => simp [Dropped.of, Dropped.called, chosen, different]
    | newOnFailure => simp [Dropped.of, Dropped.called, chosen, frees, new, different]

theorem deallocateEntries_eq {status : Status}
    (finished : status = .of .succeeded ∨ status = .of .failed) (entries : List WordDescriptor)
    (ok : ∀ entry ∈ entries, entry.recyclePolicy ≠ .unset ∧
      (leftover status entry).isCleanPtr = true) :
    deallocateEntries status entries =
      .ok (((entries.map (Dropped.of status)).filter Dropped.called).map (·.block)) := by
  induction entries with
  | nil => rfl
  | cons entry rest inductionHypothesis =>
    obtain ⟨policy, clean⟩ := ok entry List.mem_cons_self
    have later := inductionHypothesis fun entry member => ok entry (List.mem_cons_of_mem _ member)
    rw [deallocateEntries, deallocate_eq finished policy clean, later, List.map_cons,
      ← List.singleton_append (l := rest.map _), List.filter_append, List.map_append]

/-! ### The invariant -/

/-- What the status says at each stage. -/
def Stage.Fits (descriptor : Descriptor) : Stage → Prop
  | .free => descriptor = .initialized
  | .filling _ => descriptor.status = .of .finished
  | .garbage => descriptor.status = .of .succeeded ∨ descriptor.status = .of .failed

/-- What is known of every entry. -/
structure EntryOk (config : Config) (entry : WordDescriptor) : Prop where
  target : entry.address ∈ config.targets
  policy : entry.recyclePolicy ≠ .unset

/-- Every block is at one place; `dropped` are the entries recycled so far. -/
structure Accounted (config : Config) (state : State) (dropped : List Dropped) : Prop where
  places : ∀ block, (config.targets.map state.words).count block +
    (inPool config state.desc).count block + (dropped.map (·.block)).count block =
      state.allocated.count block
  nodup : state.allocated.Nodup
  clean : ∀ block ∈ state.allocated, block.isCleanPtr = true
  sorted : ∀ d, (state.desc d).Sorted
  entries : ∀ d, ∀ entry ∈ (state.desc d).entries, EntryOk config entry
  inside : ∀ d, state.stage d ≠ .free → d < config.size
  stages : ∀ d, (state.stage d).Fits (state.desc d)
  freed : state.freed = (dropped.filter Dropped.called).map (·.block)

theorem entries_initialized : Descriptor.initialized.entries = [] := rfl

theorem sorted_initialized : Descriptor.initialized.Sorted :=
  fun _ j _ inside => absurd inside (Nat.not_lt_zero j)

theorem Initial.accounted {state : State} (initial : Initial config state) :
    Accounted config state [] where
  places block := by
    have empty : inPool config state.desc = [] := by
      refine List.flatMap_eq_nil_iff.2 fun d _ => ?_
      rw [held, initial.desc d, entries_initialized]
      rfl
    rw [empty, initial.allocated]
    rfl
  nodup := by
    rw [initial.allocated]
    exact initial.distinct
  clean block member := by
    rw [initial.allocated, List.mem_map] at member
    obtain ⟨address, target, rfl⟩ := member
    exact initial.clean address target
  sorted d := by
    rw [initial.desc d]
    exact sorted_initialized
  entries d entry member := by
    rw [initial.desc d, entries_initialized] at member
    cases member
  inside d used := absurd (initial.stage d) used
  stages d := by
    rw [initial.stage d]
    exact initial.desc d
  freed := initial.freed

theorem State.move_desc_self (state : State) (d : Nat) (descriptor : Descriptor) (stage : Stage) :
    (state.move d descriptor stage).desc d = descriptor := Function.update_self _ _ _

theorem State.move_desc_of_ne (state : State) {d e : Nat} (descriptor : Descriptor) (stage : Stage)
    (different : e ≠ d) : (state.move d descriptor stage).desc e = state.desc e :=
  Function.update_of_ne different _ _

theorem State.move_stage_self (state : State) (d : Nat) (descriptor : Descriptor) (stage : Stage) :
    (state.move d descriptor stage).stage d = stage := Function.update_self _ _ _

theorem State.move_stage_of_ne (state : State) {d e : Nat} (descriptor : Descriptor) (stage : Stage)
    (different : e ≠ d) : (state.move d descriptor stage).stage e = state.stage e :=
  Function.update_of_ne different _ _

theorem State.move_withStatus (state : State) (d : Nat) (status : Status) (stage : Stage) :
    ((state.move d { state.desc d with status := status } stage).desc d).entries =
        (state.desc d).entries ∧
      ((state.move d { state.desc d with status := status } stage).desc d).status = status := by
  rw [State.move_desc_self]
  exact ⟨rfl, rfl⟩

/-- A step that changes one descriptor: what has to be shown is about that descriptor. -/
theorem Accounted.moves {state after : State} {dropped : List Dropped}
    (accounted : Accounted config state dropped) {d : Nat} (inside : d < config.size)
    {descriptor : Descriptor} {stage : Stage} {more : List Dropped}
    (desc : after.desc = (state.move d descriptor stage).desc)
    (stages : after.stage = (state.move d descriptor stage).stage)
    (places : ∀ block, (config.targets.map after.words).count block + (held descriptor).count block +
      (more.map (·.block)).count block + state.allocated.count block =
        (config.targets.map state.words).count block + (held (state.desc d)).count block +
          after.allocated.count block)
    (nodup : after.allocated.Nodup) (clean : ∀ block ∈ after.allocated, block.isCleanPtr = true)
    (sorted : descriptor.Sorted) (entries : ∀ entry ∈ descriptor.entries, EntryOk config entry)
    (fits : stage.Fits descriptor)
    (freed : after.freed = state.freed ++ (more.filter Dropped.called).map (·.block)) :
    Accounted config after (dropped ++ more) where
  places block := by
    have before := accounted.places block
    have here := places block
    have pool := count_inPool_update state.desc inside descriptor block
    have updated : after.desc = Function.update state.desc d descriptor := desc
    rw [updated, List.map_append, List.count_append]
    omega
  nodup := nodup
  clean := clean
  sorted e := by
    rw [desc]
    by_cases same : e = d
    · subst same
      rw [State.move_desc_self]
      exact sorted
    · rw [State.move_desc_of_ne _ _ _ same]
      exact accounted.sorted e
  entries e := by
    rw [desc]
    by_cases same : e = d
    · subst same
      rw [State.move_desc_self]
      exact entries
    · rw [State.move_desc_of_ne _ _ _ same]
      exact accounted.entries e
  inside e used := by
    rw [stages] at used
    by_cases same : e = d
    · subst same
      exact inside
    · rw [State.move_stage_of_ne _ _ _ same] at used
      exact accounted.inside e used
  stages e := by
    rw [desc, stages]
    by_cases same : e = d
    · subst same
      rw [State.move_desc_self, State.move_stage_self]
      exact fits
    · rw [State.move_desc_of_ne _ _ _ same, State.move_stage_of_ne _ _ _ same]
      exact accounted.stages e
  freed := by
    rw [freed, accounted.freed, List.filter_append, List.map_append]

/-! ### The steps -/

section

variable {state after : State} {dropped : List Dropped} (accounted : Accounted config state dropped)
  {thread d : Nat}

include accounted

theorem Accounted.filling (filling : state.stage d = .filling thread) :
    d < config.size ∧ (state.desc d).status = .of .finished := by
  have fits := accounted.stages d
  rw [filling] at fits
  refine ⟨accounted.inside d ?_, fits⟩
  rw [filling]
  intro impossible
  cases impossible

theorem Accounted.allocateDescriptor
    (step : next config state (.allocateDescriptor thread d) = some after) :
    Accounted config after (dropped ++ []) := by
  simp only [next, Option.ite_none_right_eq_some, Option.some.injEq] at step
  obtain ⟨⟨inside, free⟩, rfl⟩ := step
  have fits := accounted.stages d
  rw [free] at fits
  refine accounted.moves inside rfl rfl (fun block => rfl) accounted.nodup accounted.clean
    (accounted.sorted d) (accounted.entries d) ?_ (List.append_nil _).symm
  rw [show state.desc d = .initialized from fits]
  rfl

theorem Accounted.allocateAndAddEntry {request : Request}
    (step : next config state (.allocateAndAddEntry thread d request) = some after) :
    Accounted config after (dropped ++ []) := by
  simp only [next, Option.ite_none_right_eq_some] at step
  obtain ⟨⟨filling, fresh⟩, step⟩ := step
  obtain ⟨inside, finished⟩ := accounted.filling filling
  cases added : (state.desc d).addEntry d request with
  | error check =>
    rw [added] at step
    cases step
  | ok descriptor =>
    rw [added] at step
    cases step
    have permuted := Descriptor.addEntry_perm added
    obtain ⟨sorted, -, -, status, -⟩ := Descriptor.addEntry_entries (accounted.sorted d) added
    have finishedAfter : descriptor.status = .of .finished := status.trans finished
    refine accounted.moves inside rfl rfl (fun block => ?_) ?_ ?_ sorted ?_ finishedAfter
      (List.append_nil _).symm
    · have grown : (held descriptor).count block =
          (request.newValue :: held (state.desc d)).count block := by
        refine List.Perm.count_eq ?_ block
        unfold held
        rw [status]
        refine (permuted.map _).trans (List.Perm.of_eq ?_)
        rw [List.map_cons]
        refine congrArg (· :: _) ?_
        rw [leftover, if_neg]
        · rfl
        · rw [finished]
          decide
      rw [List.count_cons] at grown
      have allocated : (request.newValue :: state.allocated).count block =
          state.allocated.count block + if request.newValue == block then 1 else 0 :=
        List.count_cons
      show (config.targets.map state.words).count block + (held descriptor).count block + 0 + _ =
        _ + _ + (request.newValue :: state.allocated).count block
      omega
    · exact List.nodup_cons.2 ⟨fresh.unused, accounted.nodup⟩
    · intro block member
      rcases List.mem_cons.1 member with rfl | old
      · exact fresh.clean
      · exact accounted.clean block old
    · intro entry member
      rcases List.mem_cons.1 (permuted.mem_iff.1 member) with rfl | old
      · exact ⟨fresh.target, fresh.policy⟩
      · exact accounted.entries d entry old

/-- An operation that fails or is aborted leaves the new blocks to the entries. -/
theorem Accounted.fails (filling : state.stage d = .filling thread) :
    Accounted config (state.move d { state.desc d with status := .of .failed } .garbage)
      (dropped ++ []) := by
  obtain ⟨inside, finished⟩ := accounted.filling filling
  refine accounted.moves inside rfl rfl (fun block => ?_) accounted.nodup accounted.clean
    (accounted.sorted d) (accounted.entries d) (Or.inr rfl) (List.append_nil _).symm
  have same : held { state.desc d with status := .of .failed } = held (state.desc d) := by
    refine List.map_congr_left fun entry _ => ?_
    show leftover (.of .failed) entry = leftover (state.desc d).status entry
    rw [finished, leftover, leftover, if_neg (by decide), if_neg (by decide)]
  rw [same]
  rfl

theorem Accounted.succeeds (filling : state.stage d = .filling thread)
    (found : Matches state.words (state.desc d).entries) :
    Accounted config { state.move d { state.desc d with status := .of .succeeded } .garbage with
      words := install state.words (state.desc d).entries } (dropped ++ []) := by
  obtain ⟨inside, finished⟩ := accounted.filling filling
  refine accounted.moves inside rfl rfl (fun block => ?_) accounted.nodup accounted.clean
    (accounted.sorted d) (accounted.entries d) (Or.inl rfl) (List.append_nil _).symm
  have moved := count_install config.nodup (state.desc d).entries
    (accounted.sorted d).addresses_nodup (fun entry member => (accounted.entries d entry member).target)
    state.words found block
  have old : held { state.desc d with status := .of .succeeded } =
      (state.desc d).entries.map (·.oldValue) := by
    refine List.map_congr_left fun entry _ => ?_
    rw [leftover, if_pos rfl]
  have new : held (state.desc d) = (state.desc d).entries.map (·.newValue) := by
    refine List.map_congr_left fun entry _ => ?_
    rw [finished, leftover, if_neg (by decide)]
  rw [old, new]
  exact congrArg (· + state.allocated.count block) moved

theorem Accounted.mwCAS (step : next config state (.mwCAS thread d) = some after) :
    Accounted config after (dropped ++ []) := by
  simp only [next, Option.ite_none_right_eq_some] at step
  obtain ⟨⟨filling, -⟩, step⟩ := step
  split at step
  · rename_i found
    cases step
    exact accounted.succeeds filling found
  · cases step
    exact accounted.fails filling

theorem Accounted.abort (step : next config state (.abort thread d) = some after) :
    Accounted config after (dropped ++ []) := by
  simp only [next, Option.ite_none_right_eq_some] at step
  obtain ⟨⟨filling, -⟩, step⟩ := step
  cases step
  exact accounted.fails filling

omit accounted in
/-- The entries a descriptor drops when it is recycled. -/
theorem drops_eq (state : State) (d : Nat) : state.drops (.freeDescriptor d) =
    (state.desc d).entries.map (Dropped.of (state.desc d).status) := rfl

theorem Accounted.held_allocated (inside : d < config.size) {block : Word}
    (member : block ∈ held (state.desc d)) : block ∈ state.allocated := by
  have there : block ∈ inPool config state.desc :=
    List.mem_flatMap.2 ⟨d, List.mem_range.mpr inside, member⟩
  have places := accounted.places block
  have some := List.count_pos_iff.2 there
  exact List.count_pos_iff.1 (by omega)

/-- `DeallocateMemory` of a finished descriptor passes no check that fails, and its calls are those
the policies promise. -/
theorem Accounted.deallocates (garbage : state.stage d = .garbage) :
    (state.desc d).deallocateMemory =
      .ok (((state.drops (.freeDescriptor d)).filter Dropped.called).map (·.block)) := by
  have inside : d < config.size := accounted.inside d (by rw [garbage]; exact Stage.noConfusion)
  have finished := accounted.stages d
  rw [garbage] at finished
  rw [drops_eq]
  refine deallocateEntries_eq finished (state.desc d).entries fun entry member => ?_
  refine ⟨(accounted.entries d entry member).policy, accounted.clean _ ?_⟩
  exact accounted.held_allocated inside (List.mem_map_of_mem member)

theorem Accounted.freeDescriptor (step : next config state (.freeDescriptor d) = some after) :
    Accounted config after (dropped ++ state.drops (.freeDescriptor d)) := by
  simp only [next, Option.ite_none_right_eq_some] at step
  obtain ⟨garbage, step⟩ := step
  have inside : d < config.size := accounted.inside d (by rw [garbage]; exact Stage.noConfusion)
  rw [accounted.deallocates garbage] at step
  cases step
  refine accounted.moves inside rfl rfl (fun block => ?_) accounted.nodup accounted.clean
    sorted_initialized ?_ rfl rfl
  · have same : (state.drops (.freeDescriptor d)).map (·.block) = held (state.desc d) := by
      rw [drops_eq, List.map_map]
      rfl
    rw [same]
    show _ + 0 + _ + _ = _
    rfl
  · intro entry member
    rw [entries_initialized] at member
    cases member

theorem Accounted.step {action : Action} (step : next config state action = some after) :
    Accounted config after (dropped ++ state.drops action) := by
  cases action with
  | allocateDescriptor thread d => exact accounted.allocateDescriptor step
  | allocateAndAddEntry thread d request => exact accounted.allocateAndAddEntry step
  | mwCAS thread d => exact accounted.mwCAS step
  | abort thread d => exact accounted.abort step
  | freeDescriptor d => exact accounted.freeDescriptor step

end

theorem accounted_of_run (run : Run (system config)) (index : Nat) (inside : index ≤ run.length) :
    Accounted config (run.state index) (droppedBefore run index) := by
  induction index with
  | zero => exact run.starts.accounted
  | succ index inductionHypothesis =>
    exact (inductionHypothesis (Nat.le_of_lt inside)).step (run.steps index inside)

/-! ### What the stages say of the blocks -/

theorem Accounted.count_inPool {state : State} {dropped : List Dropped}
    (accounted : Accounted config state dropped) (block : Word) :
    (inPool config state.desc).count block =
      (state.unexecuted config).count block + (state.waiting config).count block := by
  rw [← List.count_append]
  refine List.Perm.count_eq ?_ block
  refine List.Perm.trans (List.Perm.of_eq ?_) (List.flatMap_append_perm _ _ _).symm
  refine List.flatMap_congr fun d _ => ?_
  have fits := accounted.stages d
  cases stage : state.stage d with
  | free =>
    rw [stage] at fits
    rw [show state.desc d = .initialized from fits]
    rfl
  | filling thread =>
    rw [stage] at fits
    have new : held (state.desc d) = (state.desc d).entries.map (·.newValue) := by
      refine List.map_congr_left fun entry _ => ?_
      rw [show (state.desc d).status = .of .finished from fits, leftover, if_neg (by decide)]
    rw [new, List.append_nil]
  | garbage => rfl

/-! ### How a descriptor got onto the garbage list -/

/-- The operation on descriptor `d` ended in this step, and nothing has touched `d` since. -/
structure Ended (run : Run (system config)) (d ended index : Nat) : Prop where
  before : ended < index
  kept : ∀ later, ended < later → later ≤ index → (run.state later).desc d = (run.state index).desc d
  entries : ((run.state index).desc d).entries = ((run.state ended).desc d).entries
  outcome : (∃ thread, run.action ended = .mwCAS thread d ∧
      (((run.state index).desc d).status = .of .succeeded ↔
        Matches (run.state ended).words ((run.state ended).desc d).entries)) ∨
    ∃ thread, run.action ended = .abort thread d ∧ ((run.state index).desc d).status = .of .failed

/-- A step leaves a descriptor on the garbage list alone, puts it there, or takes it away. -/
theorem next_garbage {state after : State} {action : Action} {d : Nat}
    (step : next config state action = some after) (garbage : after.stage d = .garbage) :
    (state.stage d = .garbage ∧ after.desc d = state.desc d) ∨
      (after.desc d).entries = (state.desc d).entries ∧
        ((∃ thread, action = .mwCAS thread d ∧ ((after.desc d).status = .of .succeeded ↔
            Matches state.words (state.desc d).entries)) ∨
          ∃ thread, action = .abort thread d ∧ (after.desc d).status = .of .failed) := by
  have other : ∀ {e : Nat} {descriptor : Descriptor} {stage : Stage}, d ≠ e →
      after.desc = (state.move e descriptor stage).desc →
      after.stage = (state.move e descriptor stage).stage →
        state.stage d = .garbage ∧ after.desc d = state.desc d := by
    intro e descriptor stage different desc stages
    rw [stages, State.move_stage_of_ne _ _ _ different] at garbage
    exact ⟨garbage, by rw [desc, State.move_desc_of_ne _ _ _ different]⟩
  cases action with
  | allocateDescriptor thread e =>
    simp only [next, Option.ite_none_right_eq_some, Option.some.injEq] at step
    obtain ⟨-, rfl⟩ := step
    by_cases same : d = e
    · subst same
      rw [State.move_stage_self] at garbage
      cases garbage
    · exact Or.inl (other same rfl rfl)
  | allocateAndAddEntry thread e request =>
    simp only [next, Option.ite_none_right_eq_some] at step
    obtain ⟨-, step⟩ := step
    cases added : (state.desc e).addEntry e request with
    | error check =>
      rw [added] at step
      cases step
    | ok descriptor =>
      rw [added] at step
      cases step
      by_cases same : d = e
      · subst same
        have stage := State.move_stage_self state d descriptor (.filling thread)
        rw [show (state.move d descriptor (.filling thread)).stage d = .garbage from garbage] at stage
        cases stage
      · exact Or.inl (other same rfl rfl)
  | mwCAS thread e =>
    simp only [next, Option.ite_none_right_eq_some] at step
    obtain ⟨-, step⟩ := step
    by_cases same : d = e
    · subst same
      split at step
      · rename_i found
        cases step
        obtain ⟨entries, status⟩ := state.move_withStatus d (.of .succeeded) .garbage
        exact Or.inr ⟨entries, Or.inl ⟨thread, rfl, iff_of_true status found⟩⟩
      · rename_i missed
        cases step
        obtain ⟨entries, status⟩ := state.move_withStatus d (.of .failed) .garbage
        refine Or.inr ⟨entries, Or.inl ⟨thread, rfl, iff_of_false ?_ missed⟩⟩
        rw [status]
        decide
    · split at step
      · cases step
        exact Or.inl (other same rfl rfl)
      · cases step
        exact Or.inl (other same rfl rfl)
  | abort thread e =>
    simp only [next, Option.ite_none_right_eq_some] at step
    obtain ⟨-, step⟩ := step
    cases step
    by_cases same : d = e
    · subst same
      obtain ⟨entries, status⟩ := state.move_withStatus d (.of .failed) .garbage
      exact Or.inr ⟨entries, Or.inr ⟨thread, rfl, status⟩⟩
    · exact Or.inl (other same rfl rfl)
  | freeDescriptor e =>
    simp only [next, Option.ite_none_right_eq_some] at step
    obtain ⟨-, step⟩ := step
    cases deallocated : (state.desc e).deallocateMemory with
    | error error =>
      rw [deallocated] at step
      cases step
    | ok calls =>
      rw [deallocated] at step
      cases step
      by_cases same : d = e
      · subst same
        have stage := State.move_stage_self state d .initialized .free
        rw [show (state.move d .initialized .free).stage d = .garbage from garbage] at stage
        cases stage
      · exact Or.inl (other same rfl rfl)

theorem ended_of_garbage (run : Run (system config)) {d : Nat} (index : Nat)
    (inside : index ≤ run.length) (garbage : (run.state index).stage d = .garbage) :
    ∃ ended, Ended run d ended index := by
  induction index with
  | zero =>
    rw [run.starts.stage d] at garbage
    cases garbage
  | succ index inductionHypothesis =>
    rcases next_garbage (run.steps index inside) garbage with ⟨already, same⟩ | ⟨entries, outcome⟩
    · obtain ⟨ended, before, kept, entries, outcome⟩ := inductionHypothesis (Nat.le_of_lt inside) already
      refine ⟨ended, Nat.lt_succ_of_lt before, fun later after below => ?_, ?_, ?_⟩
      · rcases Nat.lt_or_eq_of_le below with earlier | rfl
        · rw [same]
          exact kept later after (Nat.le_of_lt_succ earlier)
        · rfl
      · rw [same]
        exact entries
      · rw [same]
        exact outcome
    · refine ⟨index, Nat.lt_succ_self index, fun later after below => ?_, entries, outcome⟩
      rw [show later = index + 1 by omega]

/-! ### The law -/

/-- The state of all blocks at a point of a run. -/
structure Conserved (run : Run (system config)) (index : Nat) : Prop where
  /-- Every block is the content of one word, the new value of one entry that is not yet executed,
  left to one entry that is not yet recycled, or was left to one entry that is. -/
  once : ∀ block ∈ (run.state index).allocated,
    (config.targets.map (run.state index).words).count block +
      ((run.state index).unexecuted config).count block +
      ((run.state index).waiting config).count block +
      ((droppedBefore run index).map (·.block)).count block = 1
  /-- `free_callback_` was called for the recycled entries as their policies say. -/
  freed : (run.state index).freed = ((droppedBefore run index).filter Dropped.called).map (·.block)
  /-- The entries on the garbage list are those of operations that ended, with their outcome. -/
  ended : ∀ d, (run.state index).stage d = .garbage → ∃ ended, Ended run d ended index
  /-- No check of `MwCAS`, `Abort` and `DeallocateMemory` fails. -/
  goesOn : ∀ d, match (run.state index).stage d with
    | .free => True
    | .filling thread => (next config (run.state index) (.mwCAS thread d)).isSome ∧
        (next config (run.state index) (.abort thread d)).isSome
    | .garbage => (next config (run.state index) (.freeDescriptor d)).isSome

/-- All entries added before a point of the run have the policy `kRecycleAlways`. -/
def AlwaysBefore (run : Run (system config)) (index : Nat) : Prop :=
  ∀ earlier < index, ∀ thread d request,
    run.action earlier = .allocateAndAddEntry thread d request → request.recyclePolicy = .always

/-- The entries of the descriptors after a step: those there were before, and the one added. -/
theorem mem_entries_of_next {state after : State} {action : Action} {d : Nat} {entry : WordDescriptor}
    (step : next config state action = some after) (member : entry ∈ (after.desc d).entries) :
    entry ∈ (state.desc d).entries ∨
      ∃ thread request, action = .allocateAndAddEntry thread d request ∧ entry = request.entry d := by
  have other : ∀ {e : Nat} {descriptor : Descriptor}, d ≠ e →
      after.desc = Function.update state.desc e descriptor → entry ∈ (state.desc d).entries := by
    intro e descriptor different desc
    rwa [desc, Function.update_of_ne different] at member
  cases action with
  | allocateDescriptor thread e =>
    simp only [next, Option.ite_none_right_eq_some, Option.some.injEq] at step
    obtain ⟨-, rfl⟩ := step
    by_cases same : d = e
    · subst same
      rw [State.move_desc_self] at member
      exact Or.inl member
    · exact Or.inl (other same rfl)
  | allocateAndAddEntry thread e request =>
    simp only [next, Option.ite_none_right_eq_some] at step
    obtain ⟨-, step⟩ := step
    cases added : (state.desc e).addEntry e request with
    | error check =>
      rw [added] at step
      cases step
    | ok descriptor =>
      rw [added] at step
      cases step
      by_cases same : d = e
      · subst same
        rw [show (state.move d descriptor (.filling thread)).desc d = descriptor from
          State.move_desc_self _ _ _ _] at member
        rcases List.mem_cons.1 ((Descriptor.addEntry_perm added).mem_iff.1 member) with new | old
        · exact Or.inr ⟨thread, request, rfl, new⟩
        · exact Or.inl old
      · exact Or.inl (other same rfl)
  | mwCAS thread e =>
    simp only [next, Option.ite_none_right_eq_some] at step
    obtain ⟨-, step⟩ := step
    by_cases same : d = e
    · subst same
      split at step
      · cases step
        rw [show ((state.move d _ .garbage).desc d).entries = _ from
          (state.move_withStatus d (.of .succeeded) .garbage).1] at member
        exact Or.inl member
      · cases step
        rw [(state.move_withStatus d (.of .failed) .garbage).1] at member
        exact Or.inl member
    · split at step
      · cases step
        exact Or.inl (other same rfl)
      · cases step
        exact Or.inl (other same rfl)
  | abort thread e =>
    simp only [next, Option.ite_none_right_eq_some] at step
    obtain ⟨-, step⟩ := step
    cases step
    by_cases same : d = e
    · subst same
      rw [(state.move_withStatus d (.of .failed) .garbage).1] at member
      exact Or.inl member
    · exact Or.inl (other same rfl)
  | freeDescriptor e =>
    simp only [next, Option.ite_none_right_eq_some] at step
    obtain ⟨-, step⟩ := step
    cases deallocated : (state.desc e).deallocateMemory with
    | error error =>
      rw [deallocated] at step
      cases step
    | ok calls =>
      rw [deallocated] at step
      cases step
      by_cases same : d = e
      · subst same
        rw [show (state.move d .initialized .free).desc d = .initialized from
          State.move_desc_self _ _ _ _, entries_initialized] at member
        cases member
      · exact Or.inl (other same rfl)

theorem always_of_run (run : Run (system config)) (index : Nat) (inside : index ≤ run.length)
    (always : AlwaysBefore run index) :
    (∀ d, ∀ entry ∈ ((run.state index).desc d).entries, entry.recyclePolicy = .always) ∧
      ∀ dropped ∈ droppedBefore run index, dropped.policy = .always := by
  induction index with
  | zero =>
    refine ⟨fun d entry member => ?_, fun dropped member => by cases member⟩
    rw [run.starts.desc d, entries_initialized] at member
    cases member
  | succ index inductionHypothesis =>
    obtain ⟨entries, earlier⟩ := inductionHypothesis (Nat.le_of_lt inside)
      fun before below => always before (Nat.lt_succ_of_lt below)
    refine ⟨fun d entry member => ?_, fun dropped member => ?_⟩
    · rcases mem_entries_of_next (run.steps index inside) member with old | ⟨thread, request, acts, rfl⟩
      · exact entries d entry old
      · exact always index (Nat.lt_succ_self index) thread d request acts
    · rcases List.mem_append.1 member with old | new
      · exact earlier dropped old
      · cases acts : run.action index with
        | freeDescriptor d =>
          rw [acts, drops_eq, List.mem_map] at new
          obtain ⟨entry, there, rfl⟩ := new
          exact entries d entry there
        | allocateDescriptor thread d | allocateAndAddEntry thread d request | mwCAS thread d
        | abort thread d =>
          rw [acts] at new
          cases new

theorem Accounted.goesOn {state : State} {dropped : List Dropped}
    (accounted : Accounted config state dropped) (d : Nat) :
    match state.stage d with
    | .free => True
    | .filling thread => (next config state (.mwCAS thread d)).isSome ∧
        (next config state (.abort thread d)).isSome
    | .garbage => (next config state (.freeDescriptor d)).isSome := by
  cases stage : state.stage d with
  | free => trivial
  | filling thread =>
    have finished := (accounted.filling stage).2
    refine ⟨?_, ?_⟩
    · simp only [next, if_pos (And.intro stage finished)]
      split
      · rfl
      · rfl
    · simp only [next, if_pos (And.intro stage finished)]
      rfl
  | garbage =>
    simp only [next, if_pos stage, accounted.deallocates stage]
    rfl

/-- No block is leaked and none is freed twice, in every state of every run. With `kRecycleAlways`
the recycled entries are the calls of `free_callback_`. -/
theorem conserved_of_run (run : Run (system config)) (index : Nat) (inside : index ≤ run.length) :
    Conserved run index ∧
      (AlwaysBefore run index → ∀ block ∈ (run.state index).allocated,
        (config.targets.map (run.state index).words).count block +
          ((run.state index).unexecuted config).count block +
          ((run.state index).waiting config).count block +
          (run.state index).freed.count block = 1) := by
  have accounted := accounted_of_run run index inside
  have once : ∀ block ∈ (run.state index).allocated,
      (config.targets.map (run.state index).words).count block +
        ((run.state index).unexecuted config).count block +
        ((run.state index).waiting config).count block +
        ((droppedBefore run index).map (·.block)).count block = 1 := by
    intro block member
    have places := accounted.places block
    rw [accounted.count_inPool block, List.count_eq_one_of_mem accounted.nodup member] at places
    omega
  refine ⟨⟨once, accounted.freed, fun d garbage => ended_of_garbage run index inside garbage,
    accounted.goesOn⟩, fun always block member => ?_⟩
  have all := (always_of_run run index inside always).2
  have called : (droppedBefore run index).filter Dropped.called = droppedBefore run index := by
    refine List.filter_eq_self.2 fun dropped there => ?_
    rw [Dropped.called, all dropped there]
  rw [accounted.freed, called]
  exact once block member

/-! ### A run -/

theorem small_nodup : [8, 16].Nodup := by decide

/-- Two target words and two descriptors. -/
def Config.small : Config := { targets := [8, 16], nodup := small_nodup, size := 2 }

/-- The words hold the blocks 100 and 200. -/
def State.small : State where
  words address := if address = 8 then .plain 100 else .plain 200
  desc _ := .initialized
  stage _ := .free
  allocated := [.plain 100, .plain 200]
  freed := []

/-- Two threads change the same word: the first succeeds, the second fails. -/
def twoThreads : List Action :=
  [.allocateDescriptor 0 0,
    .allocateAndAddEntry 0 0 ⟨8, .plain 100, .plain 300, .always⟩,
    .allocateDescriptor 1 1,
    .allocateAndAddEntry 1 1 ⟨8, .plain 100, .plain 400, .always⟩,
    .mwCAS 0 0, .mwCAS 1 1, .freeDescriptor 1, .freeDescriptor 0]

instance : Inhabited Action := ⟨.freeDescriptor 0⟩

theorem initial_small : Initial .small State.small where
  distinct := by decide
  clean := by decide
  allocated := rfl
  desc _ := rfl
  stage _ := rfl
  freed := rfl

theorem conserved_of_run_twoThreads : ∃ run : Run (system .small),
    run.length = 8 ∧ (run.state 8).freed = [.plain 400, .plain 100] ∧ Conserved run 8 := by
  obtain ⟨run, length, states, -⟩ :=
    exists_run_of_next (Initial .small) (next .small) initial_small twoThreads (by decide)
  refine ⟨run, length, ?_, (conserved_of_run run 8 (Nat.le_of_eq length.symm)).1⟩
  exact satisfies_of_replay (fun state => state.freed = [.plain 400, .plain 100]) (states 8) (by decide)

end Recycling

end Pmwcas
