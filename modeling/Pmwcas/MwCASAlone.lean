/-
This file is about calls of `MwCAS()` and `GetValueProtected` that run alone: from any memory in
which the words they use hold values, what they return and what they leave in memory.

A call of `MwCAS()` goes through the entries of its descriptor several times, and each time it
leaves one word after the other in a new state: with the pointer to the descriptor installed, with
the dirty bit of the pointer cleared, and with the final value.
-/

import Mathlib.Data.Nat.Find
import Pmwcas.Library.Result
import Pmwcas.System

namespace Pmwcas

open Transition

/-! ### One call after the other -/

/-- What `MwCAS()` of thread `t` returns. -/
def State.mwCASResult (t : Nat) (state : State) : Option Bool :=
  match state.threads t with
  | [.mwCAS _ 0 (.ret result)] => some result
  | _ => none

/-- What `GetValueProtected` of thread `t` returns. -/
def State.getValueResult (t : Nat) (state : State) : Option Word :=
  match state.threads t with
  | [.getValue _ (.ret val)] => some val
  | _ => none

/-- Thread `t` begins a call, runs alone until it has a result, and returns. -/
def State.runAlone {Result : Type} (build : Build) (pool : Pool) (t : Nat) (call : Action)
    (result : State → Option Result) (state : State) (fuel : Nat) : Option (Result × State) :=
  (state.next build pool call).bind fun begun =>
    (runUntil (fun state => state.next build pool (.step t)) result fuel begun).bind fun returned =>
      (returned.2.next build pool (.step t)).map fun idle => (returned.1, idle)

/-- `MwCAS()` on descriptor `d`, filled with the requested entries. -/
def State.mwCASAlone (build : Build) (pool : Pool) (t d : Nat) (requests : List Request)
    (state : State) (fuel : Nat) : Option (Bool × State) :=
  state.runAlone build pool t (.mwCAS t d requests) (State.mwCASResult t) fuel

/-- `GetValueProtected` on the word at `address`. -/
def State.getValueAlone (build : Build) (pool : Pool) (t address : Nat) (state : State) (fuel : Nat) :
    Option (Word × State) :=
  state.runAlone build pool t (.getValue t address) (State.getValueResult t) fuel

/-! ### Words written one after the other -/

/-- The memory with `value j` at `address j`, for the first ones. -/
def overlay (address : Nat → Nat) (value : Nat → Word) : Nat → (Nat → Word) → Nat → Word
  | 0, mem => mem
  | i + 1, mem => Function.update (overlay address value i mem) (address i) (value i)

section Overlay

variable {address : Nat → Nat} {value other : Nat → Word} {mem : Nat → Word} {n k : Nat}

theorem overlay_of_ne {place : Nat} (different : ∀ j, j < n → address j ≠ place) :
    overlay address value n mem place = mem place := by
  induction n with
  | zero => rfl
  | succ i inductionHypothesis =>
    rw [overlay, Function.update_of_ne (Ne.symm (different i (Nat.lt_succ_self i)))]
    exact inductionHypothesis fun j below => different j (Nat.lt_succ_of_lt below)

variable (distinct : ∀ i j, i < j → j < n → address i ≠ address j)

include distinct

theorem overlay_self {j : Nat} (inside : j < k) (bound : k ≤ n) :
    overlay address value k mem (address j) = value j := by
  induction k with
  | zero => exact absurd inside (Nat.not_lt_zero j)
  | succ i inductionHypothesis =>
    rw [overlay]
    rcases Nat.lt_or_eq_of_le (Nat.le_of_lt_succ inside) with before | rfl
    · rw [Function.update_of_ne (distinct j i before bound)]
      exact inductionHypothesis before (Nat.le_of_lt bound)
    · rw [Function.update_self]

theorem overlay_next {j : Nat} (inside : j < n) :
    overlay address value j mem (address j) = mem (address j) :=
  overlay_of_ne fun i before => distinct i j before inside

end Overlay

/-! ### Steps of a frame that is alone -/

variable {build : Build} {pool : Pool} {d : Nat} {pc next last : Pc} {mem mem' mem'' : Nat → Word}
  {desc desc' desc'' : Nat → Descriptor}

/-- A step within the frame. -/
def Advances (build : Build) (pool : Pool) (before after : Shared × Frame) : Prop :=
  before.2.step build pool before.1 = (after.1, .goto after.2)

/-- The frame gets from one program point to another and changes target words and descriptors on
its way as given. -/
def Leads (build : Build) (pool : Pool) (d : Nat) (mem : Nat → Word) (desc : Nat → Descriptor)
    (pc : Pc) (mem' : Nat → Word) (desc' : Nat → Descriptor) (last : Pc) : Prop :=
  ∀ shared : Shared, shared.mem = mem → shared.desc = desc → ∃ after : Shared,
    Relation.ReflTransGen (Advances build pool) (shared, .mwCAS d 0 pc) (after, .mwCAS d 0 last) ∧
      after.mem = mem' ∧ after.desc = desc'

namespace Leads

theorem refl : Leads build pool d mem desc pc mem desc pc :=
  fun shared sameMem sameDesc => ⟨shared, .refl, sameMem, sameDesc⟩

theorem one (performed : ∀ shared : Shared, shared.mem = mem → shared.desc = desc →
      (stepMwCAS build pool shared d 0 pc).2 = .goto (.mwCAS d 0 last) ∧
      (stepMwCAS build pool shared d 0 pc).1.mem = mem' ∧
      (stepMwCAS build pool shared d 0 pc).1.desc = desc') :
    Leads build pool d mem desc pc mem' desc' last := by
  intro shared sameMem sameDesc
  obtain ⟨goes, same⟩ := performed shared sameMem sameDesc
  have step : Advances build pool (shared, .mwCAS d 0 pc)
      ((stepMwCAS build pool shared d 0 pc).1, .mwCAS d 0 last) := Prod.ext rfl goes
  exact ⟨_, .single step, same⟩

theorem trans (first : Leads build pool d mem desc pc mem' desc' next)
    (second : Leads build pool d mem' desc' next mem'' desc'' last) :
    Leads build pool d mem desc pc mem'' desc'' last := by
  intro shared sameMem sameDesc
  obtain ⟨middle, start, middleMem, middleDesc⟩ := first shared sameMem sameDesc
  obtain ⟨after, rest, same⟩ := second middle middleMem middleDesc
  exact ⟨after, start.trans rest, same⟩

end Leads

theorem Shared.compareExchange64_eq (shared : Shared) (address : Nat) (newValue comparand : Word) :
    (shared.compareExchange64 address newValue comparand).mem =
        (if shared.mem address = comparand then Function.update shared.mem address newValue
          else shared.mem) ∧
      (shared.compareExchange64 address newValue comparand).desc = shared.desc := by
  unfold Shared.compareExchange64
  split
  · exact ⟨rfl, rfl⟩
  · exact ⟨rfl, rfl⟩

/-! ### One entry -/

/-- What the install loop takes for a success: the word has its old value, or what looks like a
pointer to the descriptor itself. -/
def Passes (build : Build) (pool : Pool) (d : Nat) (entry : WordDescriptor) (word : Word) : Prop :=
  word = entry.oldValue ∨ pool.isOwnPtr build d word = true

/-- What the install loop leaves in a word that passes. -/
def heldWord (build : Build) (pool : Pool) (d : Nat) (entry : WordDescriptor) (word : Word) : Word :=
  if word = entry.oldValue then pool.mwCASPtr d build.dirtyFlag else word

/-- What the final loop leaves in a word. -/
def finishedWord (build : Build) (word val : Word) : Word :=
  if word.mwcas then val
  else
    match build with
    | .persistent => if word = val.setDirty then val else word
    | .volatile => word

/-- The word after the loop that persists the target fields. -/
def targetWord (pool : Pool) (d : Nat) (word : Word) : Word :=
  if word = pool.mwCASPtr d true then pool.mwCASPtr d false else word

/-- What a word may hold when the final loop gets there: the pointer to the descriptor or a value. -/
def Held (build : Build) (pool : Pool) (d : Nat) (word : Word) : Prop :=
  (∃ dirty, word = pool.mwCASPtr d dirty ∧ (build = .volatile → dirty = false)) ∨ word.IsValue

section Entry

variable {descriptor : Descriptor} (content : desc d = descriptor) {index : Nat}

include content

theorem install_passes (undecided : descriptor.status = .of .undecided)
    (clean : (descriptor.words index).oldValue.isCleanPtr = true)
    (value : (mem (descriptor.words index).address).IsValue)
    (passes : Passes build pool d (descriptor.words index) (mem (descriptor.words index).address)) :
    Leads build pool d mem desc (.installCondCAS index)
      (Function.update mem (descriptor.words index).address
        (heldWord build pool d (descriptor.words index) (mem (descriptor.words index).address)))
      desc (.enterInstall build descriptor (index + 1)) := by
  subst content
  by_cases equal : mem ((desc d).words index).address = ((desc d).words index).oldValue
  · have notCond : ((desc d).words index).oldValue.isCondCASDescriptorPtr = false :=
      (Word.IsValue.of_isCleanPtr clean).2
    have installs : Leads build pool d mem desc (.installCondCAS index)
        (Function.update mem ((desc d).words index).address (pool.condCASPtr d index)) desc
        (.loadOwn index) := by
      refine .one ?_
      rintro shared rfl rfl
      refine ⟨?_, ?_⟩
      · simp [stepMwCAS, equal, notCond]
      · simp [stepMwCAS, Shared.compareExchange64_eq, equal]
    have loads : ∀ mem, Leads build pool d mem desc (.loadOwn index) mem desc (.casOwn index true) := by
      intro mem
      refine .one ?_
      rintro shared rfl rfl
      simp [stepMwCAS, undecided]
    refine installs.trans ((loads _).trans (.one ?_))
    rintro shared sameMem rfl
    refine ⟨?_, ?_⟩
    · simp [stepMwCAS, Pc.afterCondCAS]
    · simp [stepMwCAS, Shared.compareExchange64_eq, sameMem, heldWord, equal]
  · have own : pool.isOwnPtr build d (mem ((desc d).words index).address) = true :=
      passes.resolve_left equal
    have notCond : (mem ((desc d).words index).address).isCondCASDescriptorPtr = false := value.2
    refine .one ?_
    rintro shared rfl rfl
    refine ⟨?_, ?_⟩
    · simp [stepMwCAS, equal, notCond, Pc.afterCondCAS, own]
    · simp [stepMwCAS, Shared.compareExchange64_eq, equal, heldWord]

theorem install_fails (value : (mem (descriptor.words index).address).IsValue)
    (fails : ¬ Passes build pool d (descriptor.words index) (mem (descriptor.words index).address)) :
    Leads build pool d mem desc (.installCondCAS index) mem desc (.decide .failed) := by
  subst content
  obtain ⟨different, notOwn⟩ := not_or.mp fails
  have notCond : (mem ((desc d).words index).address).isCondCASDescriptorPtr = false := value.2
  have notMwCAS : (mem ((desc d).words index).address).isMwCASDescriptorPtr = false := value.1
  refine .one ?_
  rintro shared rfl rfl
  refine ⟨?_, ?_⟩
  · simp [stepMwCAS, different, notCond, Pc.afterCondCAS, notOwn, notMwCAS]
  · simp [stepMwCAS, Shared.compareExchange64_eq, different]

theorem persist_target :
    Leads build pool d mem desc (.loadTarget index)
      (Function.update mem (descriptor.words index).address
        (targetWord pool d (mem (descriptor.words index).address)))
      desc (.enterTarget descriptor (index + 1)) := by
  subst content
  by_cases pointer : mem ((desc d).words index).address = pool.mwCASPtr d true
  · have loads : Leads build pool d mem desc (.loadTarget index) mem desc (.flushTarget index) := by
      refine .one ?_
      rintro shared rfl rfl
      simp [stepMwCAS, pointer]
    have flushes : Leads build pool d mem desc (.flushTarget index) mem desc (.clearTarget index) := by
      refine .one ?_
      rintro shared rfl rfl
      simp [stepMwCAS, Shared.persistAddress]
    refine loads.trans (flushes.trans (.one ?_))
    rintro shared rfl rfl
    simp [stepMwCAS, Shared.compareExchange64_eq, pointer, targetWord]
  · refine .one ?_
    rintro shared rfl rfl
    simp [stepMwCAS, pointer, targetWord]

/-- Clearing the dirty bit of a final value. -/
theorem final_clear {succeeded : Bool}
    (clean : ((descriptor.words index).finalValue succeeded).isCleanPtr = true) :
    Leads .persistent pool d mem desc (.finalFlush index succeeded)
      (Function.update mem (descriptor.words index).address
        (if mem (descriptor.words index).address =
            ((descriptor.words index).finalValue succeeded).setDirty then
          (descriptor.words index).finalValue succeeded
        else mem (descriptor.words index).address))
      desc (.enterFinal descriptor 0 (index + 1) succeeded) := by
  subst content
  have flushes : Leads .persistent pool d mem desc (.finalFlush index succeeded) mem desc
      (.finalClear index succeeded) := by
    refine .one ?_
    rintro shared rfl rfl
    simp [stepMwCAS, Shared.persistAddress]
  refine flushes.trans (.one ?_)
  rintro shared rfl rfl
  refine ⟨rfl, ?_, (Shared.compareExchange64_eq ..).2⟩
  rw [stepMwCAS, (Shared.compareExchange64_eq ..).1]
  by_cases dirty : shared.mem ((shared.desc d).words index).address =
      (((shared.desc d).words index).finalValue succeeded).setDirty
  · rw [if_pos dirty, if_pos dirty, Word.clearDirty_setDirty, Word.clearDirty_of_isCleanPtr clean]
  · rw [if_neg dirty, if_neg dirty, Function.update_eq_self]

theorem finish_entry {succeeded : Bool}
    (clean : ((descriptor.words index).finalValue succeeded).isCleanPtr = true)
    (held : Held build pool d (mem (descriptor.words index).address)) :
    Leads build pool d mem desc (.finalCAS index succeeded)
      (Function.update mem (descriptor.words index).address
        (finishedWord build (mem (descriptor.words index).address)
          ((descriptor.words index).finalValue succeeded)))
      desc (.enterFinal descriptor 0 (index + 1) succeeded) := by
  cases build with
  | volatile =>
    subst content
    refine .one ?_
    rintro shared rfl rfl
    refine ⟨rfl, ?_, (Shared.compareExchange64_eq ..).2⟩
    rw [stepMwCAS, (Shared.compareExchange64_eq ..).1]
    rcases held with ⟨dirty, pointer, notDirty⟩ | value
    · rw [notDirty rfl] at pointer
      simp [pointer, finishedWord]
    · have different : shared.mem ((shared.desc d).words index).address ≠ pool.mwCASPtr d false := by
        intro same
        rw [same] at value
        exact pool.mwCASPtr_not_isValue d false value
      simp [different, finishedWord, value.1]
  | persistent =>
    rcases held with ⟨dirty, pointer, -⟩ | value
    · have swapped : Leads .persistent pool d mem desc (.finalCAS index succeeded)
          (Function.update mem (descriptor.words index).address
            ((descriptor.words index).finalValue succeeded).setDirty) desc
          (.finalFlush index succeeded) := by
        subst content
        cases dirty with
        | true =>
          refine .one ?_
          rintro shared rfl rfl
          simp [stepMwCAS, Shared.compareExchange64_eq, pointer, Pool.mwCASPtr]
        | false =>
          have first : Leads .persistent pool d mem desc (.finalCAS index succeeded) mem desc
              (.finalRetry index succeeded) := by
            refine .one ?_
            rintro shared rfl rfl
            simp [stepMwCAS, Shared.compareExchange64_eq, pointer, Pool.mwCASPtr]
          refine first.trans (.one ?_)
          rintro shared rfl rfl
          simp [stepMwCAS, Shared.compareExchange64_eq, pointer]
      have cleared := swapped.trans (final_clear content clean)
      simpa [finishedWord, pointer] using cleared
    · have different : ∀ dirty, mem (descriptor.words index).address ≠ pool.mwCASPtr d dirty := by
        intro dirty same
        rw [same] at value
        exact pool.mwCASPtr_not_isValue d dirty value
      have passed : Leads .persistent pool d mem desc (.finalCAS index succeeded) mem desc
          (.finalFlush index succeeded) := by
        subst content
        refine .one ?_
        rintro shared rfl rfl
        simp [stepMwCAS, Shared.compareExchange64_eq, different]
      have cleared := passed.trans (final_clear content clean)
      simpa [finishedWord, value.1] using cleared

end Entry

/-! ### All entries -/

/-- A loop over the entries that changes the word of one entry after the other. -/
theorem Leads.loop (enter inside : Nat → Pc) (change : Nat → Word → Word) {address : Nat → Nat}
    {n : Nat} (distinct : ∀ i j, i < j → j < n → address i ≠ address j)
    (heads : ∀ i, i < n → enter i = inside i)
    (body : ∀ i, i < n → ∀ current : Nat → Word, current (address i) = mem (address i) →
      Leads build pool d current desc (inside i)
        (Function.update current (address i) (change i (mem (address i)))) desc (enter (i + 1)))
    {k : Nat} (bound : k ≤ n) :
    Leads build pool d mem desc (enter 0)
      (overlay address (fun j => change j (mem (address j))) k mem) desc (enter k) := by
  induction k with
  | zero => exact .refl
  | succ i inductionHypothesis =>
    have before := inductionHypothesis (Nat.le_of_succ_le bound)
    rw [heads i bound] at before
    exact before.trans (body i bound _ (overlay_next distinct bound))

/-- A descriptor that `MwCAS()` is called on, and the words it lists. -/
structure Prepared (mem : Nat → Word) (descriptor : Descriptor) : Prop where
  undecided : descriptor.status = .of .undecided
  distinct : ∀ i j, i < j → j < descriptor.count →
    (descriptor.words i).address ≠ (descriptor.words j).address
  oldValue : ∀ i, i < descriptor.count → (descriptor.words i).oldValue.isCleanPtr = true
  newValue : ∀ i, i < descriptor.count → (descriptor.words i).newValue.isCleanPtr = true
  value : ∀ i, i < descriptor.count → (mem (descriptor.words i).address).IsValue

/-- The words of a descriptor, each changed. -/
def Descriptor.changed (descriptor : Descriptor) (change : WordDescriptor → Word → Word) (k : Nat)
    (mem : Nat → Word) : Nat → Word :=
  overlay (fun j => (descriptor.words j).address)
    (fun j => change (descriptor.words j) (mem (descriptor.words j).address)) k mem

/-- The word of an entry after `MwCAS()` has run alone. -/
def outcomeWord (build : Build) (succeeded : Bool) (entry : WordDescriptor) (word : Word) : Word :=
  if succeeded = true ∧ word = entry.oldValue then entry.newValue
  else finishedWord build word (entry.finalValue succeeded)

theorem outcomeWord_clearDirty {succeeded : Bool} {entry : WordDescriptor} {word : Word}
    (value : word.IsValue) (newValue : entry.newValue.isCleanPtr = true) :
    (outcomeWord build succeeded entry word).clearDirty =
      if succeeded = true ∧ word = entry.oldValue then entry.newValue else word.clearDirty := by
  unfold outcomeWord
  split
  · exact Word.clearDirty_of_isCleanPtr newValue
  · simp only [finishedWord, value.1, Bool.false_eq_true, if_false]
    cases build with
    | volatile => rfl
    | persistent =>
      simp only
      split
      · rename_i same
        rw [same, Word.clearDirty_setDirty]
      · rfl

section Prepared

variable {descriptor : Descriptor} (content : desc d = descriptor) (prepared : Prepared mem descriptor)

include content prepared

/-- The install loop, up to an entry. -/
theorem install_until {k : Nat} (bound : k ≤ descriptor.count)
    (passes : ∀ i, i < k → Passes build pool d (descriptor.words i)
      (mem (descriptor.words i).address)) :
    Leads build pool d mem desc (.enterInstall build descriptor 0)
      (descriptor.changed (heldWord build pool d) k mem) desc (.enterInstall build descriptor k) := by
  refine Leads.loop (fun i => .enterInstall build descriptor i) (fun i => .installCondCAS i)
    (fun i => heldWord build pool d (descriptor.words i)) ?_ ?_ ?_ (Nat.le_refl k)
  · exact fun i j before inside => prepared.distinct i j before (Nat.lt_of_lt_of_le inside bound)
  · intro i inside
    simp only [Pc.enterInstall, Nat.lt_of_lt_of_le inside bound, if_true]
  · intro i inside current same
    have listed := Nat.lt_of_lt_of_le inside bound
    have value := prepared.value i listed
    rw [← same]
    refine install_passes content prepared.undecided (prepared.oldValue i listed) ?_ ?_
    · rw [same]
      exact value
    · rw [same]
      exact passes i inside

/-- The loop that persists the target fields. -/
theorem persist_targets (current : Nat → Word) :
    Leads build pool d current desc (.enterTarget descriptor 0)
      (descriptor.changed (fun _ => targetWord pool d) descriptor.count current) desc
      (.decide .succeeded) := by
  have loop : Leads build pool d current desc (.enterTarget descriptor 0)
      (descriptor.changed (fun _ => targetWord pool d) descriptor.count current) desc
      (.enterTarget descriptor descriptor.count) := by
    refine Leads.loop (fun i => .enterTarget descriptor i) (fun i => .loadTarget i)
      (fun _ => targetWord pool d) prepared.distinct ?_ ?_ (Nat.le_refl _)
    · intro i inside
      simp only [Pc.enterTarget, inside, if_true]
    · intro i _ mem' same
      rw [← same]
      exact persist_target content
  simpa only [Pc.enterTarget, Nat.lt_irrefl, if_false] using loop

end Prepared

/-- The final loop. -/
theorem finish_entries {descriptor : Descriptor} (content : desc d = descriptor) {succeeded : Bool}
    (distinct : ∀ i j, i < j → j < descriptor.count →
      (descriptor.words i).address ≠ (descriptor.words j).address)
    (clean : ∀ i, i < descriptor.count →
      ((descriptor.words i).finalValue succeeded).isCleanPtr = true)
    (held : ∀ i, i < descriptor.count → Held build pool d (mem (descriptor.words i).address)) :
    Leads build pool d mem desc (.enterFinal descriptor 0 0 succeeded)
      (descriptor.changed (fun entry word => finishedWord build word (entry.finalValue succeeded))
        descriptor.count mem) desc .cleanupDirty := by
  have loop : Leads build pool d mem desc (.enterFinal descriptor 0 0 succeeded)
      (descriptor.changed (fun entry word => finishedWord build word (entry.finalValue succeeded))
        descriptor.count mem) desc (.enterFinal descriptor 0 descriptor.count succeeded) := by
    refine Leads.loop (fun i => .enterFinal descriptor 0 i succeeded) (fun i => .finalCAS i succeeded)
      (fun i word => finishedWord build word ((descriptor.words i).finalValue succeeded))
      distinct ?_ ?_ (Nat.le_refl _)
    · intro i inside
      simp only [Pc.enterFinal, inside, if_true]
    · intro i inside mem' same
      have holds := held i inside
      rw [← same] at holds ⊢
      exact finish_entry content (clean i inside) holds
  simpa only [Pc.enterFinal, Nat.lt_irrefl, if_false, if_true] using loop

/-! ### The other phases -/

section Phases

variable {descriptor : Descriptor} (content : desc d = descriptor)

include content

theorem entry_leads (undecided : descriptor.status = .of .undecided) :
    Leads build pool d mem desc (.entry build 0) mem desc (.enterInstall build descriptor 0) := by
  subst content
  cases build with
  | volatile =>
    refine .one ?_
    rintro shared rfl rfl
    simp [stepMwCAS, Pc.entry, undecided]
  | persistent =>
    have checks : Leads .persistent pool d mem desc .checkUndecided mem desc .flushDescriptor := by
      refine .one ?_
      rintro shared rfl rfl
      simp [stepMwCAS, undecided]
    have flushes : Leads .persistent pool d mem desc .flushDescriptor mem desc .loadStatus := by
      refine .one ?_
      rintro shared rfl rfl
      simp [stepMwCAS, Shared.flushDescriptor]
    have loads : Leads .persistent pool d mem desc .loadStatus mem desc
        (.enterInstall .persistent (desc d) 0) := by
      refine .one ?_
      rintro shared rfl rfl
      simp [stepMwCAS, undecided]
    exact checks.trans (flushes.trans loads)

/-- The decision, up to the final loop. -/
theorem decide_leads (undecided : descriptor.status = .of .undecided) {code : StatusCode}
    (decided : code.Decided) :
    Leads build pool d mem desc (.decide code) mem
      (Function.update desc d { descriptor with status := .of code })
      (.enterFinal { descriptor with status := .of code } 0 0 (code == .succeeded)) := by
  subst content
  have verdict : ∀ desc' : Nat → Descriptor, desc' d = { desc d with status := .of code } →
      Leads build pool d mem desc' .loadVerdict mem desc'
        (.enterFinal { desc d with status := .of code } 0 0 (code == .succeeded)) := by
    intro desc' now
    refine .one ?_
    rintro shared rfl rfl
    have same : (Status.of code == Status.of StatusCode.succeeded) = (code == .succeeded) := by
      rcases decided with rfl | rfl <;> rfl
    simp [stepMwCAS, now, same]
  refine .trans ?_ (verdict _ (Function.update_self ..))
  cases build with
  | volatile =>
    refine .one ?_
    rintro shared rfl rfl
    simp [stepMwCAS, Shared.compareExchange32, undecided, Shared.storeStatus, Build.dirtyFlag,
      Status.of]
  | persistent =>
    have exchanges : Leads .persistent pool d mem desc (.decide code) mem
        (Function.update desc d { desc d with status := { code := code, dirty := true } })
        .checkDecided := by
      refine .one ?_
      rintro shared rfl rfl
      simp [stepMwCAS, Shared.compareExchange32, undecided, Shared.storeStatus, Build.dirtyFlag]
    have checks : Leads .persistent pool d mem
        (Function.update desc d { desc d with status := { code := code, dirty := true } })
        .checkDecided mem
        (Function.update desc d { desc d with status := { code := code, dirty := true } })
        .persistStatus := by
      refine .one ?_
      rintro shared rfl now
      simp [stepMwCAS, now, decided.ne_undecided]
    have persists : Leads .persistent pool d mem
        (Function.update desc d { desc d with status := { code := code, dirty := true } })
        .persistStatus mem
        (Function.update desc d { desc d with status := { code := code, dirty := true } })
        .loadForClear := by
      refine .one ?_
      rintro shared rfl now
      simp [stepMwCAS, now, Shared.persistStatus]
    have loads : Leads .persistent pool d mem
        (Function.update desc d { desc d with status := { code := code, dirty := true } })
        .loadForClear mem
        (Function.update desc d { desc d with status := { code := code, dirty := true } })
        (.storeClear { code := code, dirty := true }) := by
      refine .one ?_
      rintro shared rfl now
      simp [stepMwCAS, now]
    refine exchanges.trans (checks.trans (persists.trans (loads.trans (.one ?_))))
    rintro shared rfl now
    simp [stepMwCAS, now, Shared.storeStatus, Status.clearDirty, Status.of]

/-- `Cleanup`. -/
theorem cleanup_leads {code : StatusCode} (status : descriptor.status = .of code)
    (decided : code.Decided) :
    Leads build pool d mem desc .cleanupDirty mem desc (.ret (code == .succeeded)) := by
  subst content
  have push : Leads build pool d mem desc .cleanupPush mem desc .cleanupReturn := by
    refine .one ?_
    rintro shared rfl rfl
    simp [stepMwCAS, Shared.pushGarbage]
  have returns : Leads build pool d mem desc .cleanupReturn mem desc
      (.ret (Status.of code == .of .succeeded)) := by
    refine .one ?_
    rintro shared rfl rfl
    simp [stepMwCAS, status]
  have dirty : Leads build pool d mem desc .cleanupDirty mem desc .cleanupFailed := by
    refine .one ?_
    rintro shared rfl rfl
    simp [stepMwCAS, status]
  rcases decided with rfl | rfl
  · have failed : Leads build pool d mem desc .cleanupFailed mem desc .cleanupSucceeded := by
      refine .one ?_
      rintro shared rfl rfl
      simp [stepMwCAS, status, Status.of]
    have succeeded : Leads build pool d mem desc .cleanupSucceeded mem desc .cleanupPush := by
      refine .one ?_
      rintro shared rfl rfl
      simp [stepMwCAS, status]
    exact dirty.trans (failed.trans (succeeded.trans (push.trans returns)))
  · have failed : Leads build pool d mem desc .cleanupFailed mem desc .cleanupPush := by
      refine .one ?_
      rintro shared rfl rfl
      simp [stepMwCAS, status]
    exact dirty.trans (failed.trans (push.trans returns))

end Phases

/-! ### A whole call -/

section Call

variable {descriptor : Descriptor}

theorem Descriptor.changed_self {change : WordDescriptor → Word → Word} {k : Nat}
    (distinct : ∀ i j, i < j → j < descriptor.count →
      (descriptor.words i).address ≠ (descriptor.words j).address) (bound : k ≤ descriptor.count)
    {i : Nat} (inside : i < k) :
    descriptor.changed change k mem (descriptor.words i).address =
      change (descriptor.words i) (mem (descriptor.words i).address) :=
  overlay_self distinct inside bound

theorem Descriptor.changed_of_ne {change : WordDescriptor → Word → Word} {k address : Nat}
    (different : ∀ i, i < k → (descriptor.words i).address ≠ address) :
    descriptor.changed change k mem address = mem address := overlay_of_ne different

/-- Changes one after the other are one change. -/
theorem Descriptor.changed_changed {first second both : WordDescriptor → Word → Word} {k : Nat}
    (distinct : ∀ i j, i < j → j < descriptor.count →
      (descriptor.words i).address ≠ (descriptor.words j).address) (bound : k ≤ descriptor.count)
    (same : ∀ i, i < descriptor.count →
      second (descriptor.words i) (descriptor.changed first k mem (descriptor.words i).address) =
        both (descriptor.words i) (mem (descriptor.words i).address)) :
    descriptor.changed second descriptor.count (descriptor.changed first k mem) =
      descriptor.changed both descriptor.count mem := by
  funext address
  by_cases listed : ∃ i, i < descriptor.count ∧ (descriptor.words i).address = address
  · obtain ⟨i, inside, rfl⟩ := listed
    rw [changed_self distinct (Nat.le_refl _) inside, changed_self distinct (Nat.le_refl _) inside]
    exact same i inside
  · have different : ∀ i, i < descriptor.count → (descriptor.words i).address ≠ address :=
      fun i inside here => listed ⟨i, inside, here⟩
    rw [changed_of_ne different, changed_of_ne different]
    exact changed_of_ne fun i inside => different i (Nat.lt_of_lt_of_le inside bound)

theorem finishedWord_of_value {word val : Word} (value : word.IsValue) :
    finishedWord build word val =
      match build with
      | .persistent => if word = val.setDirty then val else word
      | .volatile => word := by
  simp only [finishedWord, value.1, Bool.false_eq_true, if_false]

theorem finishedWord_oldValue {word : Word} (clean : word.isCleanPtr = true) :
    finishedWord build word word = word := by
  have notDirty : word ≠ word.setDirty := by
    intro same
    have dirty := congrArg Word.dirty same
    rw [((Word.isCleanPtr_iff word).mp clean).2.2] at dirty
    cases dirty
  rw [finishedWord_of_value (.of_isCleanPtr clean)]
  cases build with
  | volatile => rfl
  | persistent => exact if_neg notDirty

section

variable (content : desc d = descriptor) (prepared : Prepared mem descriptor)

include content prepared

/-- The final loop and `Cleanup` of a decided operation. -/
theorem conclude_leads {code : StatusCode} (decided : code.Decided) {current : Nat → Word}
    (held : ∀ i, i < descriptor.count → Held build pool d (current (descriptor.words i).address)) :
    Leads build pool d current desc (.decide code)
      (descriptor.changed (fun entry word => finishedWord build word
        (entry.finalValue (code == .succeeded))) descriptor.count current)
      (Function.update desc d { descriptor with status := .of code })
      (.ret (code == .succeeded)) := by
  have final : Leads build pool d current
      (Function.update desc d { descriptor with status := .of code })
      (.enterFinal { descriptor with status := .of code } 0 0 (code == .succeeded))
      (descriptor.changed (fun entry word => finishedWord build word
        (entry.finalValue (code == .succeeded))) descriptor.count current)
      (Function.update desc d { descriptor with status := .of code }) .cleanupDirty := by
    refine finish_entries (Function.update_self ..) prepared.distinct ?_ held
    intro i inside
    unfold WordDescriptor.finalValue
    split
    · exact prepared.newValue i inside
    · exact prepared.oldValue i inside
  exact (decide_leads content prepared.undecided decided).trans
    (final.trans (cleanup_leads (Function.update_self ..) rfl decided))

/-- A call that finds all words as expected. -/
theorem succeeds_leads (passes : ∀ i, i < descriptor.count →
      Passes build pool d (descriptor.words i) (mem (descriptor.words i).address)) :
    Leads build pool d mem desc (.entry build 0)
      (descriptor.changed (outcomeWord build true) descriptor.count mem)
      (Function.update desc d { descriptor with status := .of .succeeded }) (.ret true) := by
  have installs := (entry_leads content prepared.undecided).trans
    (install_until content prepared (Nat.le_refl _) passes)
  have persisted : ∃ between : WordDescriptor → Word → Word,
      (∀ i, i < descriptor.count → between (descriptor.words i) (mem (descriptor.words i).address) =
        if mem (descriptor.words i).address = (descriptor.words i).oldValue then
          pool.mwCASPtr d false else mem (descriptor.words i).address) ∧
      Leads build pool d mem desc (.entry build 0)
        (descriptor.changed between descriptor.count mem) desc (.decide .succeeded) := by
    cases build with
    | volatile =>
      refine ⟨heldWord .volatile pool d, fun i _ => rfl, ?_⟩
      simpa only [Pc.enterInstall, Nat.lt_irrefl, if_false] using installs
    | persistent =>
      refine ⟨fun entry word => targetWord pool d (heldWord .persistent pool d entry word), ?_, ?_⟩
      · intro i inside
        have value := prepared.value i inside
        show targetWord pool d (heldWord .persistent pool d _ _) = _
        unfold heldWord targetWord
        split
        · exact if_pos rfl
        · refine if_neg ?_
          intro same
          rw [same] at value
          exact pool.mwCASPtr_not_isValue d true value
      · have enters : Pc.enterInstall .persistent descriptor descriptor.count =
            .enterTarget descriptor 0 := by
          simp only [Pc.enterInstall, Nat.lt_irrefl, if_false]
        rw [enters] at installs
        have whole := installs.trans (persist_targets content prepared _)
        rw [Descriptor.changed_changed prepared.distinct (Nat.le_refl _)] at whole
        · exact whole
        · intro i inside
          rw [Descriptor.changed_self prepared.distinct (Nat.le_refl _) inside]
  obtain ⟨between, contents, leads⟩ := persisted
  have held : ∀ i, i < descriptor.count → Held build pool d
      (descriptor.changed between descriptor.count mem (descriptor.words i).address) := by
    intro i inside
    rw [Descriptor.changed_self prepared.distinct (Nat.le_refl _) inside, contents i inside]
    split
    · exact .inl ⟨false, rfl, fun _ => rfl⟩
    · exact .inr (prepared.value i inside)
  have whole := leads.trans (conclude_leads content prepared (.inl rfl) held)
  rw [Descriptor.changed_changed prepared.distinct (Nat.le_refl _)] at whole
  · exact whole
  · intro i inside
    rw [Descriptor.changed_self prepared.distinct (Nat.le_refl _) inside, contents i inside]
    unfold outcomeWord
    split
    · rename_i same
      rw [if_pos ⟨rfl, same⟩]
      rfl
    · rename_i different
      rw [if_neg fun both => different both.2]
      rfl

/-- A call that finds a word it does not expect. -/
theorem fails_leads {k : Nat} (inside : k < descriptor.count)
    (passes : ∀ i, i < k →
      Passes build pool d (descriptor.words i) (mem (descriptor.words i).address))
    (fails : ¬ Passes build pool d (descriptor.words k) (mem (descriptor.words k).address)) :
    Leads build pool d mem desc (.entry build 0)
      (descriptor.changed (outcomeWord build false) descriptor.count mem)
      (Function.update desc d { descriptor with status := .of .failed }) (.ret false) := by
  have installs := (entry_leads content prepared.undecided).trans
    (install_until content prepared (Nat.le_of_lt inside) passes)
  have enters : Pc.enterInstall build descriptor k = .installCondCAS k := by
    simp only [Pc.enterInstall, inside, if_true]
  rw [enters] at installs
  have same : descriptor.changed (heldWord build pool d) k mem (descriptor.words k).address =
      mem (descriptor.words k).address :=
    Descriptor.changed_of_ne fun i before => prepared.distinct i k before inside
  have stops : Leads build pool d (descriptor.changed (heldWord build pool d) k mem) desc
      (.installCondCAS k) (descriptor.changed (heldWord build pool d) k mem) desc
      (.decide .failed) := by
    refine install_fails content ?_ ?_
    · rw [same]
      exact prepared.value k inside
    · rw [same]
      exact fails
  have untouched : ∀ i, i < descriptor.count → ¬ i < k →
      descriptor.changed (heldWord build pool d) k mem (descriptor.words i).address =
        mem (descriptor.words i).address := by
    intro i listed after
    refine Descriptor.changed_of_ne fun j before => ?_
    exact prepared.distinct j i (by omega) listed
  have held : ∀ i, i < descriptor.count → Held build pool d
      (descriptor.changed (heldWord build pool d) k mem (descriptor.words i).address) := by
    intro i listed
    by_cases before : i < k
    · rw [Descriptor.changed_self prepared.distinct (Nat.le_of_lt inside) before]
      unfold heldWord
      split
      · refine .inl ⟨_, rfl, ?_⟩
        rintro rfl
        rfl
      · exact .inr (prepared.value i listed)
    · rw [untouched i listed before]
      exact .inr (prepared.value i listed)
  have whole := installs.trans (stops.trans (conclude_leads content prepared (.inr rfl) held))
  rw [Descriptor.changed_changed prepared.distinct (Nat.le_of_lt inside)] at whole
  · exact whole
  · intro i listed
    have outcome : outcomeWord build false (descriptor.words i) (mem (descriptor.words i).address) =
        finishedWord build (mem (descriptor.words i).address) (descriptor.words i).oldValue := by
      refine if_neg ?_
      exact fun both => absurd both.1 Bool.false_ne_true
    rw [outcome]
    by_cases before : i < k
    · rw [Descriptor.changed_self prepared.distinct (Nat.le_of_lt inside) before]
      unfold heldWord
      split
      · rename_i here
        rw [here, finishedWord_oldValue (prepared.oldValue i listed)]
        rfl
      · rfl
    · rw [untouched i listed before]
      rfl

end

/-- A whole call, whatever it finds. -/
theorem mwCAS_leads (build : Build) (pool : Pool) (content : desc d = descriptor)
    (prepared : Prepared mem descriptor) :
    ∃ succeeded status, (succeeded = true ↔ ∀ i, i < descriptor.count →
        Passes build pool d (descriptor.words i) (mem (descriptor.words i).address)) ∧
      Leads build pool d mem desc (.entry build 0)
        (descriptor.changed (outcomeWord build succeeded) descriptor.count mem)
        (Function.update desc d { descriptor with status := status }) (.ret succeeded) := by
  by_cases all : ∀ i, i < descriptor.count →
      Passes build pool d (descriptor.words i) (mem (descriptor.words i).address)
  · exact ⟨true, .of .succeeded, ⟨fun _ => all, fun _ => rfl⟩, succeeds_leads content prepared all⟩
  · have some_ : ∃ k, k < descriptor.count ∧ ¬ Passes build pool d (descriptor.words k)
        (mem (descriptor.words k).address) := by
      simpa only [not_forall, exists_prop] using all
    classical
    refine ⟨false, .of .failed, ⟨fun impossible => absurd impossible Bool.false_ne_true,
      fun passes => absurd passes all⟩,
      fails_leads content prepared (Nat.find_spec some_).1 ?_ (Nat.find_spec some_).2⟩
    intro i before
    have passes := Nat.find_min some_ before
    rw [not_and, not_not] at passes
    exact passes (Nat.lt_trans before (Nat.find_spec some_).1)

end Call

/-! ### Calls that run alone -/

/-- A thread has a result when its only frame is about to return. -/
def Returning (build : Build) (pool : Pool) (t : Nat) {Result : Type} (result : State → Option Result) :
    Prop :=
  ∀ state value, result state = some value → ∃ frame, state.threads t = [frame] ∧
    ∀ shared, frame.step build pool shared = (shared, .done)

theorem mwCASResult_returning (t : Nat) : Returning build pool t (State.mwCASResult t) := by
  intro state value returned
  unfold State.mwCASResult at returned
  split at returned
  · rename_i result stack
    exact ⟨_, stack, fun _ => rfl⟩
  · cases returned

theorem getValueResult_returning (t : Nat) : Returning build pool t (State.getValueResult t) := by
  intro state value returned
  unfold State.getValueResult at returned
  split at returned
  · rename_i result stack
    exact ⟨_, stack, fun _ => rfl⟩
  · cases returned

/-- A call that runs alone does what its frame does. -/
theorem State.runAlone_yields {Result : Type} {t : Nat} {result : State → Option Result}
    (returning : Returning build pool t result) {state : State} {call : Action} {shared after : Shared}
    {threads : Nat → List Frame} {frame returned : Frame} {value : Result}
    (begins : state.next build pool call =
      some { shared := shared, threads := Function.update threads t [frame] })
    (reaches : Relation.ReflTransGen (Advances build pool) (shared, frame) (after, returned))
    (returns : result { shared := after, threads := Function.update threads t [returned] } =
      some value) :
    Yields (state.runAlone build pool t call result) value
      { shared := after, threads := Function.update threads t [] } := by
  have steps : Relation.ReflTransGen (Proceeds (fun state => state.next build pool (.step t)) result)
      { shared := shared, threads := Function.update threads t [frame] }
      { shared := after, threads := Function.update threads t [returned] } := by
    refine reaches.lift (fun config : Shared × Frame =>
      ({ shared := config.1, threads := Function.update threads t [config.2] } : State)) ?_
    rintro ⟨before, top⟩ ⟨later, next⟩ advances
    have advances : top.step build pool before = (later, .goto next) := advances
    refine ⟨?_, ?_⟩
    · by_contra has
      obtain ⟨early, isResult⟩ := Option.ne_none_iff_exists'.mp has
      obtain ⟨other, stack, done⟩ := returning _ _ isResult
      simp only [Function.update_self, List.cons.injEq, and_true] at stack
      rw [← stack] at done
      have impossible := (done before).symm.trans advances
      cases impossible
    · show State.stepThread build pool _ t = _
      simp only [State.stepThread, Function.update_self, advances, Move.stack, Function.update_idem]
  obtain ⟨bound, enough⟩ := Yields.of_proceeds steps returns
  refine ⟨bound, fun fuel above => ?_⟩
  have reached := enough fuel above
  obtain ⟨other, stack, done⟩ := returning _ _ returns
  simp only [Function.update_self, List.cons.injEq, and_true] at stack
  have leaves : State.next build pool
      { shared := after, threads := Function.update threads t [returned] } (.step t) =
      some { shared := after, threads := Function.update threads t [] } := by
    rw [← stack] at done
    show State.stepThread build pool _ t = _
    simp only [State.stepThread, Function.update_self, done after, Move.stack, Function.update_idem]
  simp only [State.runAlone, begins, Option.bind_some, reached, leaves, Option.map_some]

/-- What a call of `MwCAS()` returns and leaves when it runs alone. -/
structure MwCASOutcome (build : Build) (pool : Pool) (d : Nat) (filled : Descriptor)
    (before : State) (succeeded : Bool) (after : State) : Prop where
  result : succeeded = true ↔ ∀ i, i < filled.count →
    Passes build pool d (filled.words i) (before.shared.mem (filled.words i).address)
  mem : after.shared.mem = filled.changed (outcomeWord build succeeded) filled.count before.shared.mem
  desc : ∀ e, e ≠ d → after.shared.desc e = before.shared.desc e
  threads : after.threads = before.threads

theorem State.mwCASAlone_yields {t d : Nat} {requests : List Request} {filled : Descriptor}
    {state : State} (idle : state.threads t = []) (inside : d < pool.size)
    (free : (state.shared.desc d).status = .of .finished)
    (valid : ∀ request ∈ requests, request.Valid)
    (added : (state.shared.desc d).addEntries (pool.descriptorAddress d) requests = .ok filled)
    (prepared : Prepared state.shared.mem { filled with status := .of .undecided }) :
    ∃ succeeded after, Yields (state.mwCASAlone build pool t d requests) succeeded after ∧
      MwCASOutcome build pool d filled state succeeded after := by
  have begins : state.next build pool (.mwCAS t d requests) =
      some (state.beginMwCAS build t d filled) := by
    have guard : state.threads t = [] ∧ d < pool.size ∧
        (state.shared.desc d).status = .of .finished ∧ ∀ request ∈ requests, request.Valid :=
      ⟨idle, inside, free, valid⟩
    simp only [State.next, if_pos guard, added]
  have content : (state.beginMwCAS build t d filled).shared.desc d =
      { filled with status := .of .undecided } := Function.update_self ..
  obtain ⟨succeeded, status, result, leads⟩ := mwCAS_leads build pool content prepared
  obtain ⟨after, reaches, sameMem, sameDesc⟩ :=
    leads (state.beginMwCAS build t d filled).shared rfl rfl
  refine ⟨succeeded, _, runAlone_yields (mwCASResult_returning t) begins reaches ?_, result, sameMem,
    ?_, ?_⟩
  · simp only [State.mwCASResult, Function.update_self]
  · intro e different
    rw [sameDesc, Function.update_of_ne different]
    exact Function.update_of_ne different ..
  · rw [← idle, Function.update_eq_self]

theorem State.getValueAlone_yields (build : Build) (pool : Pool) {t address : Nat} {state : State}
    (idle : state.threads t = [])
    (value : (state.shared.mem address).IsValue)
    (clean : build = .volatile → (state.shared.mem address).dirty = false) :
    ∃ after, Yields (state.getValueAlone build pool t address) (state.shared.mem address).clearDirty
        after ∧
      after.shared.mem = Function.update state.shared.mem address
        (state.shared.mem address).clearDirty ∧
      after.shared.desc = state.shared.desc ∧ after.threads = state.threads := by
  have begins : state.next build pool (.getValue t address) = some (state.beginGetValue t address) := by
    simp only [State.next, if_pos idle]
  have run : ∃ after : Shared, Relation.ReflTransGen (Advances build pool)
      (state.shared, .getValue address .load)
      (after, .getValue address (.ret (state.shared.mem address).clearDirty)) ∧
      after.mem = Function.update state.shared.mem address (state.shared.mem address).clearDirty ∧
      after.desc = state.shared.desc := by
    by_cases dirty : (state.shared.mem address).dirty = true
    · cases build with
      | volatile => exact absurd dirty (by rw [clean rfl]; decide)
      | persistent =>
        let flushed := state.shared.persistAddress address
        let cleared := flushed.compareExchange64 address (state.shared.mem address).clearDirty
          (state.shared.mem address)
        have loads : Advances .persistent pool (state.shared, .getValue address .load)
            (state.shared, .getValue address (.flush (state.shared.mem address))) := by
          simp [Advances, Frame.step, stepGetValue, ReadPc.afterLoad, Word.isCondCASDescriptorPtr,
            Word.isDirtyPtr, value.2, dirty]
        have flushes : Advances .persistent pool
            (state.shared, .getValue address (.flush (state.shared.mem address)))
            (flushed, .getValue address (.clear (state.shared.mem address))) := rfl
        have clears : Advances .persistent pool
            (flushed, .getValue address (.clear (state.shared.mem address)))
            (cleared, .getValue address (.ret (state.shared.mem address).clearDirty)) := by
          simp [Advances, Frame.step, stepGetValue, ReadPc.afterClean, Word.isMwCASDescriptorPtr,
            Word.isCleanPtr, value.1, value.2, cleared]
        refine ⟨cleared, .head loads (.head flushes (.single clears)), ?_, ?_⟩
        · exact ((Shared.compareExchange64_eq ..).1).trans (if_pos rfl)
        · exact (Shared.compareExchange64_eq ..).2
    · have notDirty : (state.shared.mem address).dirty = false := Bool.eq_false_iff.mpr dirty
      have same : (state.shared.mem address).clearDirty = state.shared.mem address :=
        Word.ext rfl rfl notDirty.symm rfl
      rw [same, Function.update_eq_self]
      refine ⟨state.shared, .single ?_, rfl, rfl⟩
      cases build with
      | volatile =>
        simp [Advances, Frame.step, stepGetValue, ReadPc.afterLoad, Word.isCondCASDescriptorPtr,
          Word.isMwCASDescriptorPtr, value.1, value.2]
      | persistent =>
        simp [Advances, Frame.step, stepGetValue, ReadPc.afterLoad, ReadPc.afterClean,
          Word.isCondCASDescriptorPtr, Word.isMwCASDescriptorPtr, Word.isDirtyPtr, Word.isCleanPtr,
          value.1, value.2, notDirty]
  obtain ⟨after, reaches, sameMem, sameDesc⟩ := run
  refine ⟨_, runAlone_yields (getValueResult_returning t) begins reaches ?_, sameMem, sameDesc, ?_⟩
  · simp only [State.getValueResult, Function.update_self]
  · rw [← idle, Function.update_eq_self]

/-! ### Two words -/

/-- Two entries, in the order of their addresses. -/
theorem addEntries_two (own : Nat) {first second : Request} (distinct : first.address ≠ second.address) :
    ∃ (filled : Descriptor) (low high : Request),
      Descriptor.initialized.addEntries own [first, second] = .ok filled ∧
      filled.count = 2 ∧ filled.words 0 = low.entry own ∧ filled.words 1 = high.entry own ∧
      (low = first ∧ high = second ∨ low = second ∧ high = first) := by
  rcases Nat.lt_or_gt_of_ne distinct with smaller | larger
  · refine ⟨{ Descriptor.initialized with
      count := 2
      words := Function.update (Function.update (fun _ => .zero) 0 (first.entry own)) 1
        (second.entry own) }, first, second, ?_, rfl, ?_, ?_, .inl ⟨rfl, rfl⟩⟩
    · simp [Descriptor.addEntries, Descriptor.addEntry, Descriptor.initialized, kMaxCount,
        getInsertPosition, Request.entry, distinct, smaller, Bind.bind, Except.bind, pure, Except.pure]
    · simp
    · simp
  · refine ⟨{ Descriptor.initialized with
      count := 2
      words := Function.update (Function.update (Function.update (fun _ => .zero) 0 (first.entry own))
        1 (first.entry own)) 0 (second.entry own) }, second, first, ?_, rfl, ?_, ?_, .inr ⟨rfl, rfl⟩⟩
    · simp [Descriptor.addEntries, Descriptor.addEntry, Descriptor.initialized, kMaxCount,
        getInsertPosition, Request.entry, distinct, Nat.not_lt_of_gt larger, Bind.bind, Except.bind,
        pure, Except.pure]
    · simp
    · simp

/-- What a call of `MwCAS()` on two words returns and leaves when it runs alone. -/
structure TwoWordsOutcome (build : Build) (pool : Pool) (d : Nat) (first second : Request)
    (before : State) (succeeded : Bool) (after : State) : Prop where
  result : succeeded = true ↔
    Passes build pool d (first.entry (pool.descriptorAddress d)) (before.shared.mem first.address) ∧
    Passes build pool d (second.entry (pool.descriptorAddress d)) (before.shared.mem second.address)
  atFirst : after.shared.mem first.address = outcomeWord build succeeded
    (first.entry (pool.descriptorAddress d)) (before.shared.mem first.address)
  atSecond : after.shared.mem second.address = outcomeWord build succeeded
    (second.entry (pool.descriptorAddress d)) (before.shared.mem second.address)
  others : ∀ address, address ≠ first.address → address ≠ second.address →
    after.shared.mem address = before.shared.mem address
  threads : after.threads = before.threads

theorem TwoWordsOutcome.swap {first second : Request} {before after : State} {succeeded : Bool}
    (outcome : TwoWordsOutcome build pool d first second before succeeded after) :
    TwoWordsOutcome build pool d second first before succeeded after :=
  ⟨outcome.result.trans and_comm, outcome.atSecond, outcome.atFirst,
    fun address notSecond notFirst => outcome.others address notFirst notSecond, outcome.threads⟩

/-- A descriptor with two entries. -/
structure Descriptor.HasTwo (filled : Descriptor) (own : Nat) (low high : Request) : Prop where
  count : filled.count = 2
  low : filled.words 0 = low.entry own
  high : filled.words 1 = high.entry own

namespace Descriptor.HasTwo

variable {filled : Descriptor} {own : Nat} {low high : Request} (two : filled.HasTwo own low high)

include two

theorem forall_iff (property : WordDescriptor → Prop) :
    (∀ i, i < filled.count → property (filled.words i)) ↔
      property (low.entry own) ∧ property (high.entry own) := by
  rw [← two.low, ← two.high, two.count]
  constructor
  · intro each
    exact ⟨each 0 (by decide), each 1 (by decide)⟩
  · rintro ⟨atLow, atHigh⟩ i inside
    rcases Nat.lt_or_eq_of_le (Nat.le_of_lt_succ inside) with zero | rfl
    · cases Nat.lt_one_iff.mp zero
      exact atLow
    · exact atHigh

theorem distinct (different : low.address ≠ high.address) (i j : Nat) (before : i < j)
    (inside : j < filled.count) : (filled.words i).address ≠ (filled.words j).address := by
  rw [two.count] at inside
  have zero : i = 0 := by omega
  have one : j = 1 := by omega
  rw [zero, one, two.low, two.high]
  exact different

theorem outcome {before after : State} {succeeded : Bool} (different : low.address ≠ high.address)
    (same : own = pool.descriptorAddress d)
    (outcome : MwCASOutcome build pool d filled before succeeded after) :
    TwoWordsOutcome build pool d low high before succeeded after := by
  subst same
  have place : ∀ i, i < filled.count → after.shared.mem (filled.words i).address =
      outcomeWord build succeeded (filled.words i) (before.shared.mem (filled.words i).address) := by
    intro i inside
    rw [outcome.mem, Descriptor.changed_self (two.distinct different) (Nat.le_refl _) inside]
  obtain ⟨atLow, atHigh⟩ := (two.forall_iff fun entry => after.shared.mem entry.address =
    outcomeWord build succeeded entry (before.shared.mem entry.address)).mp place
  have passes := two.forall_iff fun entry =>
    Passes build pool d entry (before.shared.mem entry.address)
  refine ⟨outcome.result.trans passes, atLow, atHigh, ?_, outcome.threads⟩
  intro address notLow notHigh
  rw [outcome.mem]
  refine Descriptor.changed_of_ne ((two.forall_iff fun entry => entry.address ≠ address).mpr ⟨?_, ?_⟩)
  · exact Ne.symm notLow
  · exact Ne.symm notHigh

end Descriptor.HasTwo

theorem State.mwCASAlone_two (build : Build) {t d : Nat} {first second : Request} {state : State}
    (idle : state.threads t = []) (inside : d < pool.size)
    (allocated : state.shared.desc d = .initialized) (firstValid : first.Valid)
    (secondValid : second.Valid) (distinct : first.address ≠ second.address)
    (firstValue : (state.shared.mem first.address).IsValue)
    (secondValue : (state.shared.mem second.address).IsValue) :
    ∃ succeeded after, Yields (state.mwCASAlone build pool t d [first, second]) succeeded after ∧
      TwoWordsOutcome build pool d first second state succeeded after := by
  have valid : ∀ request ∈ [first, second], request.Valid := by
    simp only [List.forall_mem_cons, firstValid, secondValid, true_and]
    exact fun _ impossible => absurd impossible List.not_mem_nil
  have free : (state.shared.desc d).status = .of .finished := by
    rw [allocated]
    rfl
  -- the order of the entries does not matter
  have run : ∀ {filled : Descriptor} {low high : Request},
      Descriptor.initialized.addEntries (pool.descriptorAddress d) [first, second] = .ok filled →
      filled.HasTwo (pool.descriptorAddress d) low high → low.address ≠ high.address →
      low.Valid → high.Valid → (state.shared.mem low.address).IsValue →
      (state.shared.mem high.address).IsValue → ∃ succeeded after,
        Yields (state.mwCASAlone build pool t d [first, second]) succeeded after ∧
        TwoWordsOutcome build pool d low high state succeeded after := by
    intro filled low high added two different lowValid highValid lowValue highValue
    have prepared : Prepared state.shared.mem { filled with status := .of .undecided } := by
      refine ⟨rfl, two.distinct different, ?_, ?_, ?_⟩
      · exact (two.forall_iff fun entry => entry.oldValue.isCleanPtr = true).mpr
          ⟨lowValid.oldValue_clean, highValid.oldValue_clean⟩
      · exact (two.forall_iff fun entry => entry.newValue.isCleanPtr = true).mpr
          ⟨lowValid.newValue_clean, highValid.newValue_clean⟩
      · exact (two.forall_iff fun entry => (state.shared.mem entry.address).IsValue).mpr
          ⟨lowValue, highValue⟩
    rw [← allocated] at added
    obtain ⟨succeeded, after, yields, outcome⟩ :=
      State.mwCASAlone_yields idle inside free valid added prepared
    exact ⟨succeeded, after, yields, two.outcome different rfl outcome⟩
  obtain ⟨filled, low, high, added, count, lowEntry, highEntry, order⟩ :=
    addEntries_two (pool.descriptorAddress d) distinct
  have two : filled.HasTwo (pool.descriptorAddress d) low high := ⟨count, lowEntry, highEntry⟩
  rcases order with ⟨rfl, rfl⟩ | ⟨rfl, rfl⟩
  · exact run added two distinct firstValid secondValid firstValue secondValue
  · obtain ⟨succeeded, after, yields, outcome⟩ :=
      run added two (Ne.symm distinct) secondValid firstValid secondValue firstValue
    exact ⟨succeeded, after, yields, outcome.swap⟩

end Pmwcas
