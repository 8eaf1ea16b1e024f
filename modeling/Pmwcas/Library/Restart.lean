/-
This file is about programs that are stopped between two stores and run again from the start.

A program resumes from a memory if a run that is stopped anywhere and started again ends as the
undisturbed run does. For a loop over items the reason is always the same: an item that has been
dealt with is settled, no later store unsettles it, and on a settled item the body does nothing. So
the second run does nothing up to the item at which the first one was stopped, finishes that item
as the first one would have, and goes on in the same way.

The last part describes loops that write the same fields of one record of a table after the other:
after a number of stores it is known which fields of which record have been written.
-/

import Pmwcas.Library.Stores

namespace Stores

variable {Memory Error Item : Type}

/-! ### Where a stopped program is -/

namespace Program

variable {first second : Program Memory Error} {memory : Memory}

theorem stopAfter_mem (program : Program Memory Error) (count : Nat) (memory : Memory) :
    program.stopAfter count memory = memory ∨
      program.stopAfter count memory ∈ (program memory).images := by
  unfold stopAfter
  cases last : ((program memory).images.take count).getLast? with
  | none =>
    rw [List.getLastD_eq_getLast?, last]
    exact Or.inl rfl
  | some image =>
    rw [List.getLastD_eq_getLast?, last]
    exact Or.inr (List.mem_of_mem_take (List.mem_of_getLast? last))

theorem stopAfter_of_length_le {program : Program Memory Error} {count : Nat}
    (enough : (program memory).images.length ≤ count) :
    program.stopAfter count memory = program.final memory := by
  rw [stopAfter, List.take_of_length_le enough, final]

/-- A stopped sequence was stopped in its first part, or in its second part after that. -/
theorem stopAfter_andThen (ends : (first memory).error = none) (count : Nat) :
    (first.andThen second).stopAfter count memory =
      if count ≤ (first memory).images.length then first.stopAfter count memory
      else second.stopAfter (count - (first memory).images.length) (first.final memory) := by
  rw [stopAfter, andThen_of_none ends, List.take_append]
  split
  · rename_i early
    rw [Nat.sub_eq_zero_of_le early, List.take_zero, List.append_nil]
    rfl
  · rename_i late
    rw [List.take_of_length_le (by omega)]
    simp only [stopAfter, final, List.getLastD_eq_getLast?, List.getLast?_append]
    cases (List.take _ (second ((first memory).images.getLast?.getD memory)).images).getLast? <;> rfl

theorem images_andThen (ends : (first memory).error = none) :
    ((first.andThen second) memory).images =
      (first memory).images ++ (second (first.final memory)).images := by
  rw [andThen_of_none ends]

theorem error_andThen (ends : (first memory).error = none) :
    ((first.andThen second) memory).error = (second (first.final memory)).error := by
  rw [andThen_of_none ends]

theorem error_first_of_andThen (ends : ((first.andThen second) memory).error = none) :
    (first memory).error = none := by
  cases here : (first memory).error with
  | none => rfl
  | some error =>
    rw [andThen_of_some here] at ends
    cases ends

theorem test_of_check {error : Error} {test : Memory → Bool}
    (ends : (check error test memory).error = none) : test memory = true := by
  cases tested : test memory with
  | true => rfl
  | false => simp [check, tested] at ends

theorem branch_of_true {test : Memory → Bool} (tested : test memory = true) :
    branch test first second memory = first memory := by
  simp only [branch, tested, if_true]

theorem branch_of_false {test : Memory → Bool} (tested : test memory = false) :
    branch test first second memory = second memory := by
  simp only [branch, tested, Bool.false_eq_true, if_false]

theorem mem_images_of_check {error : Error} {test : Memory → Bool} {image : Memory}
    (member : image ∈ (((check error test).andThen second) memory).images) :
    image ∈ (second memory).images := by
  unfold andThen check at member
  split at member
  · exact member
  · cases member

theorem length_images_of_check {error : Error} {test : Memory → Bool} :
    (((check error test).andThen second) memory).images.length ≤ (second memory).images.length := by
  unfold andThen check
  split
  · exact Nat.le_refl _
  · exact Nat.zero_le _

theorem eq_final_of_mem {program : Program Memory Error} {image : Memory}
    (single : (program memory).images.length ≤ 1) (member : image ∈ (program memory).images) :
    image = program.final memory := by
  unfold final
  match shape : (program memory).images with
  | [] => rw [shape] at member; cases member
  | [only] =>
    rw [shape] at member
    exact List.mem_singleton.mp member
  | first :: second :: rest =>
    rw [shape] at single
    simp at single

theorem error_of_run {final : Memory} (ends : first.run memory = .ok final) :
    (first memory).error = none ∧ final = first.final memory := by
  cases here : (first memory).error with
  | none =>
    rw [run_of_none here] at ends
    exact ⟨rfl, (Except.ok.inj ends).symm⟩
  | some error =>
    rw [run_of_some here] at ends
    cases ends

end Program

/-! ### What holds after a run that passes -/

/-- If the program passes from a memory with `pre`, it ends in one with `post`. -/
def Ensures (pre : Memory → Prop) (program : Program Memory Error) (post : Memory → Prop) : Prop :=
  ∀ memory, pre memory → (program memory).error = none → post (program.final memory)

namespace Ensures

variable {pre middle post : Memory → Prop} {first second : Program Memory Error}

theorem pass (implies : ∀ memory, pre memory → post memory) :
    Ensures pre (Program.pass : Program Memory Error) post :=
  fun memory holds _ => implies memory holds

theorem store {write : Memory → Memory} (implies : ∀ memory, pre memory → post (write memory)) :
    Ensures pre (Program.store write : Program Memory Error) post :=
  fun memory holds _ => implies memory holds

theorem check {error : Error} {test : Memory → Bool} :
    Ensures pre (Program.check error test) fun memory => pre memory ∧ test memory = true :=
  fun _ holds ends => ⟨holds, Program.test_of_check ends⟩

theorem branch {test : Memory → Bool}
    (yes : Ensures (fun memory => pre memory ∧ test memory = true) first post)
    (no : Ensures (fun memory => pre memory ∧ test memory = false) second post) :
    Ensures pre (Program.branch test first second) post := by
  intro memory holds
  unfold Program.final Program.branch
  cases tested : test memory with
  | true => exact yes memory ⟨holds, tested⟩
  | false => exact no memory ⟨holds, tested⟩

theorem read {get : Memory → Item} {next : Item → Program Memory Error}
    (each : ∀ item, Ensures (fun memory => pre memory ∧ get memory = item) (next item) post) :
    Ensures pre (Program.read get next) post :=
  fun memory holds => each (get memory) memory ⟨holds, rfl⟩

/-- What does not depend on the memory. -/
theorem const {fact : Prop} (implies : ∀ memory, pre memory → fact) :
    Ensures pre first fun _ => fact :=
  fun memory holds _ => implies memory holds

theorem andThen (one : Ensures pre first middle) (two : Ensures middle second post) :
    Ensures pre (first.andThen second) post := by
  intro memory holds ends
  have passes := Program.error_first_of_andThen ends
  rw [Program.error_andThen passes] at ends
  rw [Program.final_andThen passes]
  exact two _ (one memory holds passes) ends

end Ensures

/-! ### Resuming -/

/-- The program neither stores anything nor gives up. -/
def Quiet (program : Program Memory Error) (memory : Memory) : Prop :=
  program memory = ⟨[], none⟩

theorem Quiet.run {program : Program Memory Error} {memory : Memory} (quiet : Quiet program memory) :
    program.run memory = .ok memory := by
  unfold Program.run Program.final
  rw [quiet]
  rfl

theorem Quiet.final {program : Program Memory Error} {memory : Memory}
    (quiet : Quiet program memory) : program.final memory = memory := by
  unfold Program.final
  rw [quiet]
  rfl

/-- A sequence whose first part has nothing to do is its second part. -/
theorem Quiet.andThen_eq {first second : Program Memory Error} {memory : Memory}
    (quiet : Quiet first memory) : (first.andThen second) memory = second memory := by
  rw [Program.andThen_of_none (by rw [quiet]), quiet.final, quiet]
  rfl

theorem Quiet.andThen {first second : Program Memory Error} {memory : Memory}
    (one : Quiet first memory) (two : Quiet second memory) : Quiet (first.andThen second) memory := by
  unfold Quiet
  rw [one.andThen_eq, two]

theorem Quiet.check {error : Error} {test : Memory → Bool} {memory : Memory}
    (passes : test memory = true) : Quiet (Program.check error test) memory := by
  simp only [Quiet, Program.check, passes, if_true]

theorem Quiet.branch {test : Memory → Bool} {yes no : Program Memory Error} {memory : Memory}
    (left : test memory = true → Quiet yes memory) (right : test memory = false → Quiet no memory) :
    Quiet (Program.branch test yes no) memory := by
  unfold Quiet Program.branch
  cases tested : test memory with
  | true => exact left tested
  | false => exact right tested

theorem Quiet.forEach {body : Item → Program Memory Error} {items : List Item} {memory : Memory}
    (each : ∀ item ∈ items, Quiet (body item) memory) :
    Quiet (Program.forEach body items) memory := by
  induction items with
  | nil => rfl
  | cons item rest inductionHypothesis =>
    exact (each item List.mem_cons_self).andThen
      (inductionHypothesis fun other member => each other (List.mem_cons_of_mem _ member))

/-- A run from `memory` that passes can be stopped after any store and run again. -/
def Resumes (program : Program Memory Error) (memory : Memory) : Prop :=
  (program memory).error = none → ∀ image ∈ (program memory).images,
    program.run image = program.run memory

namespace Resumes

variable {first second : Program Memory Error} {memory : Memory}

theorem of_no_stores (nothing : (first memory).images = []) : Resumes first memory := by
  intro _ image member
  rw [nothing] at member
  cases member

/-- A program with one store, after which it has nothing to do. -/
theorem of_quiet_final (only : ∀ image ∈ (first memory).images, image = first.final memory)
    (quiet : (first memory).error = none → (first memory).images ≠ [] →
      Quiet first (first.final memory)) :
    Resumes first memory := by
  intro ends image member
  rw [only image member, (quiet ends (List.ne_nil_of_mem member)).run, Program.run_of_none ends]

theorem branch {test : Memory → Bool}
    (yes : test memory = true → Resumes first memory ∧
      ∀ image ∈ (first memory).images, test image = true)
    (no : test memory = false → Resumes second memory ∧
      ∀ image ∈ (second memory).images, test image = false) :
    Resumes (Program.branch test first second) memory := by
  have chosen : ∀ other, (Program.branch test first second).run other =
      if test other then first.run other else second.run other := by
    intro other
    unfold Program.run Program.final Program.branch
    cases test other <;> rfl
  unfold Resumes
  simp only [chosen, Program.branch]
  cases tested : test memory with
  | true =>
    intro ends image member
    obtain ⟨resumes, same⟩ := yes tested
    rw [same image member]
    exact resumes ends image member
  | false =>
    intro ends image member
    obtain ⟨resumes, same⟩ := no tested
    rw [same image member]
    exact resumes ends image member

theorem read {Value : Type} {get : Memory → Value} {next : Value → Program Memory Error}
    (resumes : Resumes (next (get memory)) memory)
    (same : ∀ image ∈ (next (get memory) memory).images, get image = get memory) :
    Resumes (Program.read get next) memory := by
  intro ends image member
  have chosen : (Program.read get next).run image = (next (get image)).run image := rfl
  rw [chosen, same image member]
  exact resumes ends image member

/-- A sequence resumes if its parts do and nothing in the second part makes work for the first. -/
theorem andThen (one : Resumes first memory)
    (two : (first memory).error = none → Resumes second (first.final memory))
    (quiet : (first memory).error = none → ∀ image ∈ (second (first.final memory)).images,
      Quiet first image) : Resumes (first.andThen second) memory := by
  intro ends image member
  have passes := Program.error_first_of_andThen ends
  rw [Program.error_andThen passes] at ends
  rw [Program.images_andThen passes] at member
  rw [Program.run_andThen, Program.run_andThen]
  rcases List.mem_append.mp member with early | late
  · rw [one passes image early]
  · rw [(quiet passes image late).run, Program.run_of_none passes]
    exact two passes ends image late

end Resumes

/-- The program can be stopped after `count` stores and run again: the second run passes and leaves
the same view of memory as the undisturbed run. -/
def Restarts {View : Type} (program : Program Memory Error) (view : Memory → View) (count : Nat)
    (memory : Memory) : Prop :=
  ∃ final again, program.run memory = .ok final ∧
    program.run (program.stopAfter count memory) = .ok again ∧ view again = view final

namespace Restarts

variable {View : Type} {view : Memory → View} {checks recovers rebuilds : Program Memory Error}
  {memory : Memory} {count : Nat}

/-- Checks that pass, recovery and what comes after it: a run that is stopped in the recovery can be
run again if the recovery resumes. -/
theorem of_stopped_recovery (accepted : Quiet checks memory)
    (passes : (recovers memory).error = none)
    (finishes : (rebuilds (recovers.final memory)).error = none)
    (resumes : Resumes recovers memory)
    (stays : ∀ image ∈ (recovers memory).images, Quiet checks image)
    (early : count ≤ (recovers memory).images.length) :
    Restarts (checks.andThen (recovers.andThen rebuilds)) view count memory := by
  have chain : ∀ {start : Memory}, Quiet checks start →
      (checks.andThen (recovers.andThen rebuilds)).run start =
        (recovers.run start).bind rebuilds.run := by
    intro start quiet
    rw [Program.run_andThen, quiet.run]
    exact Program.run_andThen _ _ _
  have run : (checks.andThen (recovers.andThen rebuilds)).run memory =
      .ok (rebuilds.final (recovers.final memory)) := by
    rw [chain accepted, Program.run_of_none passes]
    exact Program.run_of_none finishes
  have stop : (checks.andThen (recovers.andThen rebuilds)).stopAfter count memory =
      recovers.stopAfter count memory := by
    unfold Program.stopAfter
    rw [accepted.andThen_eq]
    exact (Program.stopAfter_andThen passes count).trans (if_pos early)
  refine ⟨_, _, run, ?_, rfl⟩
  rw [stop]
  rcases recovers.stopAfter_mem count memory with nothing | stored
  · rw [nothing]
    exact run
  · rw [chain (stays _ stored), resumes passes _ stored, ← chain accepted]
    exact run

/-- A run that is stopped after the recovery can be run again if the second run has nothing to
recover. -/
theorem of_quiet {stopped : Memory} (accepted : Quiet checks memory)
    (passes : (recovers memory).error = none)
    (rebuild : ∀ start, (rebuilds start).error = none ∧ view (rebuilds.final start) = view start)
    (halted : (checks.andThen (recovers.andThen rebuilds)).stopAfter count memory = stopped)
    (acceptedAgain : Quiet checks stopped) (nothing : Quiet recovers stopped)
    (same : view stopped = view (recovers.final memory)) :
    Restarts (checks.andThen (recovers.andThen rebuilds)) view count memory := by
  refine ⟨rebuilds.final (recovers.final memory), rebuilds.final stopped, ?_, ?_, ?_⟩
  · rw [Program.run_andThen, accepted.run]
    show (recovers.andThen rebuilds).run memory = _
    rw [Program.run_andThen, Program.run_of_none passes]
    exact Program.run_of_none (rebuild _).1
  · rw [halted, Program.run_andThen, acceptedAgain.run]
    show (recovers.andThen rebuilds).run stopped = _
    rw [Program.run_andThen, nothing.run]
    exact Program.run_of_none (rebuild _).1
  · rw [(rebuild _).2, (rebuild _).2, same]

end Restarts

/-! ### Loops that settle one item after the other -/

/-- What makes a loop resume. -/
structure Settling (invariant : Memory → Prop) (settled : Item → Memory → Prop)
    (body : Item → Program Memory Error) (items : List Item) : Prop where
  keeps : ∀ item ∈ items, Keeps (body item) invariant
  stays : ∀ item ∈ items, ∀ other ∈ items,
    Keeps (body item) fun memory => invariant memory ∧ settled other memory
  settles : ∀ item ∈ items, ∀ memory, invariant memory → (body item memory).error = none →
    settled item ((body item).final memory)
  quiet : ∀ item ∈ items, ∀ memory, invariant memory → settled item memory →
    Quiet (body item) memory
  resumes : ∀ item ∈ items, ∀ memory, invariant memory → Resumes (body item) memory

namespace Settling

variable {invariant : Memory → Prop} {settled : Item → Memory → Prop}
  {body : Item → Program Memory Error} {items : List Item}

theorem tail {item : Item} (settling : Settling invariant settled body (item :: items)) :
    Settling invariant settled body items where
  keeps other member := settling.keeps other (List.mem_cons_of_mem _ member)
  stays other member third inside :=
    settling.stays other (List.mem_cons_of_mem _ member) third (List.mem_cons_of_mem _ inside)
  settles other member := settling.settles other (List.mem_cons_of_mem _ member)
  quiet other member := settling.quiet other (List.mem_cons_of_mem _ member)
  resumes other member := settling.resumes other (List.mem_cons_of_mem _ member)

theorem keeps_forEach (settling : Settling invariant settled body items) :
    Keeps (Program.forEach body items) invariant :=
  .forEach items settling.keeps

theorem stays_forEach {item : Item} (settling : Settling invariant settled body (item :: items)) :
    Keeps (Program.forEach body items) fun memory => invariant memory ∧ settled item memory :=
  .forEach items fun other member =>
    settling.stays other (List.mem_cons_of_mem _ member) item List.mem_cons_self

/-- A loop that has passed has settled all its items. -/
theorem settled_forEach (settling : Settling invariant settled body items) {memory : Memory}
    (holds : invariant memory) (ends : (Program.forEach body items memory).error = none) :
    ∀ item ∈ items, settled item ((Program.forEach body items).final memory) := by
  induction items generalizing memory with
  | nil => exact fun item member => absurd member List.not_mem_nil
  | cons item rest inductionHypothesis =>
    have passes := Program.error_first_of_andThen ends
    have after := (settling.keeps item List.mem_cons_self).final holds
    have here := settling.settles item List.mem_cons_self memory holds passes
    have later : (Program.forEach body rest ((body item).final memory)).error = none := by
      rw [← Program.error_andThen passes]
      exact ends
    intro other member
    show settled other (((body item).andThen (Program.forEach body rest)).final memory)
    rw [Program.final_andThen passes]
    rcases List.mem_cons.mp member with rfl | inside
    · exact (settling.stays_forEach.final ⟨after, here⟩).2
    · exact inductionHypothesis settling.tail after later other inside

theorem resumes_forEach (settling : Settling invariant settled body items) {memory : Memory}
    (holds : invariant memory) : Resumes (Program.forEach body items) memory := by
  induction items generalizing memory with
  | nil => exact .of_no_stores rfl
  | cons item rest inductionHypothesis =>
    have first := List.mem_cons_self (a := item) (l := rest)
    have after := (settling.keeps item first).final holds
    refine .andThen (settling.resumes item first memory holds)
      (fun _ => inductionHypothesis settling.tail after) ?_
    intro passes image member
    have here := settling.settles item first memory holds passes
    obtain ⟨holdsThere, settledThere⟩ := settling.stays_forEach _ ⟨after, here⟩ image member
    exact settling.quiet item first image holdsThere settledThere

end Settling

/-! ### Loops over the records of a table -/

namespace Program

variable {Field : Type}

/-- A sequence of stores, one for each item. -/
def stores (write : Item → Memory → Memory) (items : List Item) : Program Memory Error :=
  .forEach (fun item => .store (write item)) items

/-- The stores to the listed fields of each of the first `size` records. -/
def fill (write : Nat → Field → Memory → Memory) (fields : List Field) (size : Nat) :
    Program Memory Error :=
  .forEach (fun d => stores (write d) fields) (List.range size)

theorem stores_error (write : Item → Memory → Memory) (items : List Item) (memory : Memory) :
    (stores write items memory : Outcome Memory Error).error = none := by
  induction items generalizing memory with
  | nil => rfl
  | cons item rest inductionHypothesis => exact inductionHypothesis (write item memory)

theorem stores_length (write : Item → Memory → Memory) (items : List Item) (memory : Memory) :
    (stores write items memory : Outcome Memory Error).images.length = items.length := by
  induction items generalizing memory with
  | nil => rfl
  | cons item rest inductionHypothesis =>
    show (write item memory :: (stores write rest (write item memory) : Outcome Memory Error).images
      ).length = _
    rw [List.length_cons, inductionHypothesis, List.length_cons]

theorem stores_stopAfter (write : Item → Memory → Memory) (items : List Item) (count : Nat)
    (memory : Memory) :
    (stores write items : Program Memory Error).stopAfter count memory =
      (items.take count).foldl (fun memory item => write item memory) memory := by
  induction items generalizing memory count with
  | nil =>
    rw [List.take_nil]
    exact stopAfter_of_length_le (Nat.zero_le _)
  | cons item rest inductionHypothesis =>
    cases count with
    | zero => rfl
    | succ count =>
      show (andThen (store (write item)) (stores write rest) : Program Memory Error).stopAfter
        (count + 1) memory = _
      rw [stopAfter_andThen rfl]
      cases count with
      | zero => rfl
      | succ count =>
        rw [if_neg (by simp [store])]
        exact inductionHypothesis (count + 1) (write item memory)

theorem forEach_append (body : Item → Program Memory Error) (before after : List Item) :
    forEach body (before ++ after) = (forEach body before).andThen (forEach body after) := by
  induction before with
  | nil => rfl
  | cons item rest inductionHypothesis =>
    show (body item).andThen (forEach body (rest ++ after)) =
      ((body item).andThen (forEach body rest)).andThen (forEach body after)
    rw [inductionHypothesis]
    funext memory
    cases passes : (body item memory).error with
    | some error =>
      rw [andThen_of_some passes, andThen_of_some]
      · rw [andThen_of_some passes]
      · rw [andThen_of_some passes]
    | none =>
      have first := @andThen_of_none _ _ (body item) (forEach body rest) memory passes
      cases later : (forEach body rest ((body item).final memory)).error with
      | some error =>
        rw [andThen_of_none passes, andThen_of_some later, andThen_of_some]
        · rw [first]
        · rw [first]
          exact later
      | none =>
        rw [andThen_of_none passes, andThen_of_none later, andThen_of_none, final_andThen passes, first]
        · rw [List.append_assoc]
        · rw [first]
          exact later

section

variable (write : Nat → Field → Memory → Memory) (fields : List Field)

theorem fill_succ (size : Nat) :
    (fill write fields (size + 1) : Program Memory Error) =
      (fill write fields size).andThen (stores (write size) fields) := by
  unfold fill
  rw [List.range_succ, forEach_append]
  congr 1
  funext memory
  show (andThen (stores (write size) fields) pass : Program Memory Error) memory = _
  rw [andThen_of_none (stores_error _ _ _)]
  simp only [pass, List.append_nil]
  rw [← stores_error (write size) fields memory]

theorem fill_error (size : Nat) (memory : Memory) :
    (fill write fields size memory : Outcome Memory Error).error = none := by
  induction size with
  | zero => rfl
  | succ size inductionHypothesis =>
    rw [fill_succ, error_andThen inductionHypothesis]
    exact stores_error _ _ _

theorem fill_length (size : Nat) (memory : Memory) :
    (fill write fields size memory : Outcome Memory Error).images.length = fields.length * size := by
  induction size with
  | zero => rfl
  | succ size inductionHypothesis =>
    rw [fill_succ, images_andThen (fill_error _ _ _ _), List.length_append, inductionHypothesis,
      stores_length, Nat.mul_succ]

theorem fill_stopAfter_succ (size count : Nat) (memory : Memory) :
    (fill write fields (size + 1) : Program Memory Error).stopAfter count memory =
      (fields.take (count - fields.length * size)).foldl (fun memory field => write size field memory)
        ((fill write fields size : Program Memory Error).stopAfter count memory) := by
  rw [fill_succ, stopAfter_andThen (fill_error _ _ _ _), fill_length]
  split
  · rename_i early
    rw [Nat.sub_eq_zero_of_le early]
    rfl
  · rename_i late
    rw [stores_stopAfter]
    congr 1
    symm
    refine stopAfter_of_length_le ?_
    rw [fill_length]
    omega

/-- What no write changes, a stopped loop has not changed. -/
theorem view_fill {View : Type} (view : Memory → View)
    (kept : ∀ d field memory, view (write d field memory) = view memory) (size count : Nat)
    (memory : Memory) :
    view ((fill write fields size : Program Memory Error).stopAfter count memory) = view memory := by
  have folds : ∀ (written : List Field) (d : Nat) (memory : Memory),
      view (written.foldl (fun memory field => write d field memory) memory) = view memory := by
    intro written d
    induction written with
    | nil => exact fun _ => rfl
    | cons field rest inductionHypothesis =>
      intro memory
      rw [List.foldl_cons, inductionHypothesis, kept]
  induction size with
  | zero => rw [stopAfter_of_length_le (Nat.zero_le _)]; rfl
  | succ size inductionHypothesis => rw [fill_stopAfter_succ, folds, inductionHypothesis]

variable {Record : Type} (get : Memory → Nat → Record) (apply : Nat → Field → Record → Record)
  (law : ∀ d field memory e, get (write d field memory) e =
    if e = d then apply d field (get memory d) else get memory e)

include law

theorem get_foldl (written : List Field) (d e : Nat) (memory : Memory) :
    get (written.foldl (fun memory field => write d field memory) memory) e =
      if e = d then written.foldl (fun record field => apply d field record) (get memory d)
      else get memory e := by
  induction written generalizing memory with
  | nil =>
    split
    · rename_i same
      rw [same]
      rfl
    · rfl
  | cons field rest inductionHypothesis =>
    rw [List.foldl_cons, inductionHypothesis, law, law, if_pos rfl]
    split
    · rfl
    · rfl

/-- After a number of stores, this many fields of record `e` have been written. -/
theorem get_fill (size count e : Nat) (memory : Memory) :
    get ((fill write fields size : Program Memory Error).stopAfter count memory) e =
      if e < size then
        (fields.take (count - fields.length * e)).foldl (fun record field => apply e field record)
          (get memory e)
      else get memory e := by
  induction size with
  | zero =>
    rw [stopAfter_of_length_le (Nat.zero_le _), if_neg (Nat.not_lt_zero e)]
    rfl
  | succ size inductionHypothesis =>
    rw [fill_stopAfter_succ, get_foldl write get apply law]
    by_cases same : e = size
    · subst same
      rw [if_pos rfl, if_pos (Nat.lt_succ_self e), inductionHypothesis, if_neg (Nat.lt_irrefl e)]
    · rw [if_neg same, inductionHypothesis]
      by_cases before : e < size
      · rw [if_pos before, if_pos (Nat.lt_succ_of_lt before)]
      · rw [if_neg before, if_neg (by omega)]

end

end Program

end Stores
