/-
This file refines `AddEntry` and `FreeDescriptor` to the single stores they perform on a descriptor,
for the developments in which a crash may come between any two of them. `addEntryStores` does what
`Descriptor.addEntry` says, and no store of it touches the status. `FreeDescriptor` resets the count
before the status.
-/

import Pmwcas.Library.Stores
import Pmwcas.Descriptor

namespace Pmwcas

open Stores

/-! ### The stores -/

/-- Stores to the listed fields of a descriptor. -/
def writeFields (source : Descriptor) (fields : List Field) : Program Descriptor RawCheck :=
  .forEach (fun field => .store fun descriptor => source.copyField descriptor field) fields

/-- `words_[target] = word`, field by field. -/
def writeWord (word : WordDescriptor) (target : Nat) : Program Descriptor RawCheck :=
  writeFields { status := .of .invalid, count := 0, words := fun _ => word } (Field.ofWord target)

/-- The loop of `GetInsertPosition` with `remaining` entries still to look at, and what `AddEntry`
does with the position. -/
def insertStores (address : Nat) (insert : Nat → Program Descriptor RawCheck) :
    Nat → Program Descriptor RawCheck
  | 0 => insert 0
  | i + 1 =>
    .branch (fun descriptor => (descriptor.words i).address == address)
      (.check .invalidInsertPosition fun _ => false)
      (.branch (fun descriptor => (descriptor.words i).address < address) (insert (i + 1))
        ((Program.read (fun descriptor => descriptor.words i) fun word =>
          writeWord word (i + 1)).andThen (insertStores address insert i)))

/-- `Descriptor::AddEntry`, store by store. -/
def addEntryStores (own : Nat) (request : Request) : Program Descriptor RawCheck :=
  (Program.check .tooManyWords fun descriptor => descriptor.count < kMaxCount).andThen <|
    .read (fun descriptor => descriptor.count) fun count =>
      insertStores request.address (fun position =>
        (writeWord (request.entry own) position).andThen
          (.store fun descriptor => { descriptor with count := descriptor.count + 1 })) count

/-- `Descriptor::Initialize`, store by store. -/
def initializeStores : Program Descriptor RawCheck := writeFields .initialized Field.all

/-- `BaseDescriptor::FreeDescriptor`, store by store: `DeallocateMemory` ends with `count_ = 0`, and
`Initialize` follows. -/
def freeDescriptorStores : Program Descriptor RawCheck :=
  (Program.store fun descriptor => { descriptor with count := 0 }).andThen initializeStores

/-! ### What they do -/

theorem writeFields_run (source target : Descriptor) (fields : List Field) :
    (writeFields source fields).run target = .ok (source.copyFields fields target) := by
  induction fields generalizing target with
  | nil => rfl
  | cons field rest inductionHypothesis =>
    show (Program.andThen _ (writeFields source rest)).run target = _
    rw [Program.run_andThen]
    exact inductionHypothesis (source.copyField target field)

theorem writeWord_run (word : WordDescriptor) (target : Nat) (descriptor : Descriptor) :
    (writeWord word target).run descriptor = .ok (descriptor.setWord target word) := by
  rw [writeWord, writeFields_run]
  simp [Descriptor.copyFields, Field.ofWord, Descriptor.copyField, Descriptor.setWord]

theorem insertStores_run (address : Nat) (insert : Nat → Program Descriptor RawCheck)
    (remaining : Nat) (descriptor : Descriptor) :
    (insertStores address insert remaining).run descriptor =
      match getInsertPosition address remaining descriptor.words with
      | none => .error .invalidInsertPosition
      | some (words, position) => (insert position).run { descriptor with words := words } := by
  induction remaining generalizing descriptor with
  | zero => rfl
  | succ i inductionHypothesis =>
    simp only [insertStores, getInsertPosition]
    by_cases same : (descriptor.words i).address = address
    · simp [Program.run, Program.branch, Program.check, same]
    · rw [if_neg same]
      by_cases smaller : (descriptor.words i).address < address
      · rw [if_pos smaller]
        simp [Program.run, Program.final, Program.branch, same, smaller]
      · rw [if_neg smaller]
        have shifted : (Program.read (fun descriptor : Descriptor => descriptor.words i)
            fun word => writeWord word (i + 1)).run descriptor =
            .ok (descriptor.setWord (i + 1) (descriptor.words i)) :=
          writeWord_run _ _ _
        have next := Program.run_andThen (Program.read (fun descriptor : Descriptor =>
          descriptor.words i) fun word => writeWord word (i + 1))
          (insertStores address insert i) descriptor
        rw [shifted] at next
        simp only [Program.run, Program.final, Program.branch, beq_iff_eq, if_neg same,
          decide_eq_true_eq, if_neg smaller]
        exact next.trans (inductionHypothesis _)

/-- The stores of `AddEntry` do what `AddEntry` does. -/
theorem addEntryStores_run (own : Nat) (request : Request) (descriptor : Descriptor) :
    (addEntryStores own request).run descriptor = descriptor.addEntry own request := by
  unfold addEntryStores Descriptor.addEntry
  rw [Program.run_andThen]
  by_cases room : descriptor.count < kMaxCount
  · have passes : (Program.check .tooManyWords fun descriptor : Descriptor =>
        descriptor.count < kMaxCount : Program Descriptor RawCheck).run descriptor =
        .ok descriptor := by
      simp [Program.run, Program.final, Program.check, room]
    rw [passes, if_neg (Nat.not_le_of_lt room)]
    show (insertStores request.address _ descriptor.count).run descriptor = _
    rw [insertStores_run]
    cases getInsertPosition request.address descriptor.count descriptor.words with
    | none => rfl
    | some found =>
      obtain ⟨words, position⟩ := found
      simp only
      rw [Program.run_andThen, writeWord_run]
      rfl
  · have fails : (Program.check .tooManyWords fun descriptor : Descriptor =>
        descriptor.count < kMaxCount : Program Descriptor RawCheck).run descriptor =
        .error .tooManyWords := by
      simp [Program.run, Program.check, room]
    rw [fails, if_pos (Nat.le_of_not_lt room)]
    rfl

theorem initializeStores_run (descriptor : Descriptor) :
    initializeStores.run descriptor =
      .ok (Descriptor.initialized.copyFields Field.all descriptor) :=
  writeFields_run _ _ _

theorem freeDescriptorStores_images (descriptor : Descriptor) :
    (freeDescriptorStores descriptor).images =
      { descriptor with count := 0 } ::
        (initializeStores { descriptor with count := 0 }).images := rfl

theorem freeDescriptorStores_count (descriptor : Descriptor) :
    (freeDescriptorStores.final descriptor).count = 0 := by
  have ends := initializeStores_run { descriptor with count := 0 }
  rw [Program.run_of_none rfl] at ends
  rw [freeDescriptorStores, Program.final_andThen rfl]
  show (initializeStores.final { descriptor with count := 0 }).count = 0
  rw [Except.ok.inj ends]
  rfl

/-! ### The status -/

theorem writeFields_keeps_status (source : Descriptor) (status : Status) {fields : List Field}
    (others : .status ∉ fields) :
    Keeps (writeFields source fields) fun descriptor => descriptor.status = status := by
  refine .forEach fields fun field member => .store ?_
  intro descriptor same
  cases field with
  | status => exact absurd member others
  | _ => exact same

theorem writeWord_keeps_status (word : WordDescriptor) (target : Nat) (status : Status) :
    Keeps (writeWord word target) fun descriptor => descriptor.status = status :=
  writeFields_keeps_status _ status (by simp [Field.ofWord])

theorem insertStores_keeps_status (address : Nat) {insert : Nat → Program Descriptor RawCheck}
    {status : Status}
    (keeps : ∀ position, Keeps (insert position) fun descriptor => descriptor.status = status)
    (remaining : Nat) :
    Keeps (insertStores address insert remaining) fun descriptor => descriptor.status = status := by
  induction remaining with
  | zero => exact keeps 0
  | succ i inductionHypothesis =>
    exact .branch (.check _ _) (.branch (keeps (i + 1))
      (.andThen (.read fun _ => writeWord_keeps_status _ _ _) inductionHypothesis))

/-- `AddEntry` leaves the status alone. -/
theorem addEntryStores_keeps_status (own : Nat) (request : Request) (status : Status) :
    Keeps (addEntryStores own request) fun descriptor => descriptor.status = status := by
  refine .andThen (.check _ _) (.read fun count => insertStores_keeps_status _ ?_ count)
  intro position
  exact .andThen (writeWord_keeps_status _ _ _) (.store fun _ same => same)

/-- `Initialize` sets the status to Finished with its first store and leaves it so. -/
theorem initializeStores_status {descriptor image : Descriptor}
    (member : image ∈ (initializeStores descriptor).images) : image.status = .of .finished := by
  have rest : Keeps (writeFields .initialized (.count :: Field.words))
      fun descriptor => descriptor.status = .of .finished :=
    writeFields_keeps_status _ _ (by decide)
  have split : (initializeStores descriptor).images =
      Descriptor.initialized.copyField descriptor .status ::
        (writeFields .initialized (.count :: Field.words)
          (Descriptor.initialized.copyField descriptor .status)).images := rfl
  rw [split] at member
  rcases List.mem_cons.mp member with rfl | later
  · rfl
  · exact rest _ rfl image later

/-- The contents that `AddEntry` and `FreeDescriptor` have still to store: all have the status Finished,
but for a first one that only resets the count. -/
def Descriptor.Rewrites (descriptor : Descriptor) (pending : List Descriptor) : Prop :=
  (∀ content ∈ pending, content.status = .of .finished) ∨
    ∃ rest, pending = { descriptor with count := 0 } :: rest ∧
      ∀ content ∈ rest, content.status = .of .finished

theorem addEntryStores_rewrites (own : Nat) (request : Request) {descriptor : Descriptor}
    (free : descriptor.status = .of .finished) :
    descriptor.Rewrites (addEntryStores own request descriptor).images :=
  .inl fun content member => addEntryStores_keeps_status own request _ _ free content member

theorem freeDescriptorStores_rewrites (descriptor : Descriptor) :
    descriptor.Rewrites (freeDescriptorStores descriptor).images :=
  .inr ⟨_, freeDescriptorStores_images descriptor, fun _ member => initializeStores_status member⟩

/-- What is stored first, and what is still to be stored after it. -/
theorem Descriptor.Rewrites.store {descriptor content : Descriptor} {rest : List Descriptor}
    (rewrites : descriptor.Rewrites (content :: rest)) :
    (content.status = .of .finished ∨ content = { descriptor with count := 0 }) ∧
      content.Rewrites rest := by
  rcases rewrites with finished | ⟨other, same, finished⟩
  · exact ⟨.inl (finished content List.mem_cons_self),
      .inl fun next member => finished next (List.mem_cons_of_mem _ member)⟩
  · cases same
    exact ⟨.inr rfl, .inl finished⟩

end Pmwcas
