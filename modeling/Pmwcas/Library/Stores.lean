/-
This file is a small logic of code that may be stopped between any two of its stores. A program
over a memory is known by what it does from each memory: the memory after each of its stores, and
whether it ends with an error.

The triple `Triple pre program post crash` says that from a memory with `pre` the program ends
without an error in a memory with `post`, and that wherever it is stopped on the way the memory
has `crash`. There is one rule for each way to build a program, and one for loops over a list.
`Keeps` is the part of a triple that says nothing about errors: an invariant of every store.
-/

import Mathlib.Data.List.Basic

namespace Stores

variable {Memory Error Item : Type}

/-- The memories after the stores of a program, in order, and the error it ends with, if any. -/
structure Outcome (Memory Error : Type) where
  images : List Memory
  error : Option Error

/-- Code that reads and writes a memory and may give up with an error. -/
def Program (Memory Error : Type) : Type := Memory → Outcome Memory Error

namespace Program

/-- The memory when the program is over. -/
def final (program : Program Memory Error) (memory : Memory) : Memory :=
  (program memory).images.getLastD memory

/-- The final memory, or the error. -/
def run (program : Program Memory Error) (memory : Memory) : Except Error Memory :=
  match (program memory).error with
  | none => .ok (program.final memory)
  | some error => .error error

/-- The memory a program leaves that is stopped after a number of stores; all of them, if it does
not perform so many. -/
def stopAfter (program : Program Memory Error) (count : Nat) (memory : Memory) : Memory :=
  ((program memory).images.take count).getLastD memory

/-- Do nothing. -/
def pass : Program Memory Error := fun _ => ⟨[], none⟩

/-- One store. -/
def store (write : Memory → Memory) : Program Memory Error := fun memory => ⟨[write memory], none⟩

/-- Give up unless the test holds. -/
def check (error : Error) (test : Memory → Bool) : Program Memory Error :=
  fun memory => ⟨[], if test memory then none else some error⟩

/-- Branch on what is in memory. -/
def branch (test : Memory → Bool) (yes no : Program Memory Error) : Program Memory Error :=
  fun memory => if test memory then yes memory else no memory

/-- Go on with something read from memory. -/
def read (get : Memory → Item) (next : Item → Program Memory Error) : Program Memory Error :=
  fun memory => next (get memory) memory

/-- One program after the other. -/
def andThen (first second : Program Memory Error) : Program Memory Error :=
  fun memory =>
    match (first memory).error with
    | none =>
      ⟨(first memory).images ++ (second (first.final memory)).images,
        (second (first.final memory)).error⟩
    | some error => ⟨(first memory).images, some error⟩

/-- A loop over a list. -/
def forEach (body : Item → Program Memory Error) : List Item → Program Memory Error
  | [] => pass
  | item :: rest => (body item).andThen (forEach body rest)

variable {first second : Program Memory Error} {memory : Memory}

theorem run_of_none (ends : (first memory).error = none) :
    first.run memory = .ok (first.final memory) := by
  simp only [run, ends]

theorem run_of_some {error : Error} (ends : (first memory).error = some error) :
    first.run memory = .error error := by
  simp only [run, ends]

theorem andThen_of_none (ends : (first memory).error = none) :
    (first.andThen second) memory =
      ⟨(first memory).images ++ (second (first.final memory)).images,
        (second (first.final memory)).error⟩ := by
  simp only [andThen, ends]

theorem andThen_of_some {error : Error} (ends : (first memory).error = some error) :
    (first.andThen second) memory = ⟨(first memory).images, some error⟩ := by
  simp only [andThen, ends]

theorem final_andThen (ends : (first memory).error = none) :
    (first.andThen second).final memory = second.final (first.final memory) := by
  rw [final, andThen_of_none ends]
  simp only [final, List.getLastD_eq_getLast?, List.getLast?_append]
  cases (second ((first memory).images.getLast?.getD memory)).images.getLast? <;> rfl

theorem run_andThen (first second : Program Memory Error) (memory : Memory) :
    (first.andThen second).run memory = (first.run memory).bind second.run := by
  cases ends : (first memory).error with
  | some error =>
    rw [run_of_some ends, run_of_some]
    · rfl
    · rw [andThen_of_some ends]
  | none =>
    rw [run_of_none ends]
    simp only [run, Except.bind, final_andThen ends]
    rw [andThen_of_none ends]

end Program

/-! ### Triples -/

/-- From a memory with `pre` the program ends without an error in one with `post`, and every
memory after one of its stores has `crash`. -/
def Triple (pre : Memory → Prop) (program : Program Memory Error) (post crash : Memory → Prop) :
    Prop :=
  ∀ memory, pre memory → (∀ image ∈ (program memory).images, crash image) ∧
    (program memory).error = none ∧ post (program.final memory)

namespace Triple

variable {pre middle post crash : Memory → Prop} {first second : Program Memory Error}

theorem weaken {strongPre weakPost weakCrash : Memory → Prop} (triple : Triple pre first post crash)
    (before : ∀ memory, strongPre memory → pre memory)
    (after : ∀ memory, post memory → weakPost memory)
    (stopped : ∀ memory, crash memory → weakCrash memory) :
    Triple strongPre first weakPost weakCrash := by
  intro memory holds
  obtain ⟨images, ends, reached⟩ := triple memory (before memory holds)
  exact ⟨fun image member => stopped image (images image member), ends, after _ reached⟩

theorem pass (implies : ∀ memory, pre memory → post memory) :
    Triple pre (Program.pass : Program Memory Error) post crash :=
  fun memory holds => ⟨nofun, rfl, implies memory holds⟩

theorem store {write : Memory → Memory}
    (implies : ∀ memory, pre memory → post (write memory) ∧ crash (write memory)) :
    Triple pre (Program.store write : Program Memory Error) post crash := by
  intro memory holds
  refine ⟨?_, rfl, (implies memory holds).1⟩
  intro image member
  cases List.mem_singleton.mp member
  exact (implies memory holds).2

theorem check {error : Error} {test : Memory → Bool}
    (passes : ∀ memory, pre memory → test memory = true) :
    Triple pre (Program.check error test) pre crash := by
  intro memory holds
  refine ⟨nofun, ?_, holds⟩
  simp only [Program.check, passes memory holds, if_true]

theorem branch {test : Memory → Bool}
    (yes : Triple (fun memory => pre memory ∧ test memory = true) first post crash)
    (no : Triple (fun memory => pre memory ∧ test memory = false) second post crash) :
    Triple pre (Program.branch test first second) post crash := by
  intro memory holds
  unfold Program.final Program.branch
  cases tested : test memory with
  | true => exact yes memory ⟨holds, tested⟩
  | false => exact no memory ⟨holds, tested⟩

theorem read {get : Memory → Item} {next : Item → Program Memory Error}
    (each : ∀ item, Triple (fun memory => pre memory ∧ get memory = item) (next item) post crash) :
    Triple pre (Program.read get next) post crash :=
  fun memory holds => each (get memory) memory ⟨holds, rfl⟩

theorem andThen (one : Triple pre first middle crash) (two : Triple middle second post crash) :
    Triple pre (first.andThen second) post crash := by
  intro memory holds
  obtain ⟨images, ends, reached⟩ := one memory holds
  obtain ⟨later, finishes, done⟩ := two _ reached
  rw [Program.final_andThen ends, Program.andThen_of_none ends]
  refine ⟨?_, finishes, done⟩
  intro image member
  rcases List.mem_append.mp member with early | late
  · exact images image early
  · exact later image late

/-- A loop, with an invariant that knows which items are done. -/
theorem forEach {body : Item → Program Memory Error} (invariant : List Item → Memory → Prop)
    (items : List Item) (step : ∀ done item rest, items = done ++ item :: rest →
      Triple (invariant done) (body item) (invariant (done ++ [item])) crash) :
    Triple (invariant []) (Program.forEach body items) (invariant items) crash := by
  have remaining : ∀ rest done, items = done ++ rest →
      Triple (invariant done) (Program.forEach body rest) (invariant items) crash := by
    intro rest
    induction rest with
    | nil =>
      intro done split
      rw [List.append_nil] at split
      rw [split]
      exact Triple.pass fun _ holds => holds
    | cons item rest inductionHypothesis =>
      intro done split
      refine Triple.andThen (step done item rest split) (inductionHypothesis (done ++ [item]) ?_)
      rw [split, List.append_assoc]
      rfl
  exact remaining items [] rfl

/-- What a triple says of the run. -/
theorem run_eq {memory : Memory} (triple : Triple pre first post crash) (holds : pre memory) :
    ∃ final, first.run memory = .ok final ∧ post final := by
  obtain ⟨-, ends, reached⟩ := triple memory holds
  exact ⟨_, Program.run_of_none ends, reached⟩

end Triple

/-! ### Invariants of every store -/

/-- Every store of the program keeps the invariant. -/
def Keeps (program : Program Memory Error) (invariant : Memory → Prop) : Prop :=
  ∀ memory, invariant memory → ∀ image ∈ (program memory).images, invariant image

namespace Keeps

variable {invariant : Memory → Prop} {first second : Program Memory Error}

theorem final {memory : Memory} (keeps : Keeps first invariant) (holds : invariant memory) :
    invariant (first.final memory) := by
  unfold Program.final
  cases last : (first memory).images.getLast? with
  | none =>
    rw [List.getLastD_eq_getLast?, last]
    exact holds
  | some image =>
    rw [List.getLastD_eq_getLast?, last]
    exact keeps memory holds image (List.mem_of_getLast? last)

theorem store {write : Memory → Memory} (kept : ∀ memory, invariant memory → invariant (write memory)) :
    Keeps (Program.store write : Program Memory Error) invariant := by
  intro memory holds image member
  cases List.mem_singleton.mp member
  exact kept memory holds

theorem check (error : Error) (test : Memory → Bool) :
    Keeps (Program.check error test) invariant :=
  fun _ _ _ impossible => absurd impossible List.not_mem_nil

theorem branch {test : Memory → Bool} (yes : Keeps first invariant) (no : Keeps second invariant) :
    Keeps (Program.branch test first second) invariant := by
  intro memory holds
  unfold Program.branch
  split
  · exact yes memory holds
  · exact no memory holds

theorem read {get : Memory → Item} {next : Item → Program Memory Error}
    (each : ∀ item, Keeps (next item) invariant) : Keeps (Program.read get next) invariant :=
  fun memory => each (get memory) memory

theorem andThen (one : Keeps first invariant) (two : Keeps second invariant) :
    Keeps (first.andThen second) invariant := by
  intro memory holds image member
  cases ends : (first memory).error with
  | some error =>
    rw [Program.andThen_of_some ends] at member
    exact one memory holds image member
  | none =>
    rw [Program.andThen_of_none ends] at member
    rcases List.mem_append.mp member with early | late
    · exact one memory holds image early
    · exact two _ (one.final holds) image late

theorem forEach {body : Item → Program Memory Error} (items : List Item)
    (step : ∀ item ∈ items, Keeps (body item) invariant) :
    Keeps (Program.forEach body items) invariant := by
  induction items with
  | nil => exact fun _ _ _ impossible => absurd impossible List.not_mem_nil
  | cons item rest inductionHypothesis =>
    exact (step item List.mem_cons_self).andThen
      (inductionHypothesis fun other member => step other (List.mem_cons_of_mem _ member))

end Keeps

end Stores
