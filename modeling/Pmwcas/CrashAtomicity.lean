/-
This file proves that the operations of one thread are atomic across a crash. Wherever the thread is
stopped, and whether every store survives or exactly the flushed ones, the constructor opens the
pool, and the words it leaves are those after the operations that have returned, with the
interrupted operation done as a whole or not at all.

While an operation runs, every entry of it is in one of a few stages. A stage says what the word of
the entry holds in memory and what its durable copy holds; the program point and the status say
which stages are possible. The image of memory and the durable image are both well formed at every
point, and the status in them decides which of the two memories recovery makes of them.
-/

import Pmwcas.Effects
import Pmwcas.RecoveryCorrectness
import Pmwcas.Solo

namespace Pmwcas

open Stores Transition

variable {pool : Pool}

/-! ### Images that lead to a memory -/

/-- The word is the given value, with or without the dirty bit, and no address of the pool. -/
structure Word.Shows (pool : Pool) (word value : Word) : Prop where
  plain : word.IsValue
  foreign : pool.Foreign word
  same : word.clearDirty = value

/-- The entries of a descriptor are such as `AddEntry` leaves them. -/
structure Descriptor.Good (pool : Pool) (own : Nat) (descriptor : Descriptor) : Prop where
  count_le : descriptor.count ≤ kMaxCount
  sorted : descriptor.Sorted
  entries : ∀ i, i < descriptor.count → Image.EntryOk pool (descriptor.words i)
  ownDesc : ∀ i, i < descriptor.count → (descriptor.words i).ownDesc = own

/-- Recovery can deal with the descriptor. -/
structure Descriptor.Safe (pool : Pool) (own : Nat) (descriptor : Descriptor) : Prop where
  valid : descriptor.status.code ≠ .invalid
  good : descriptor.status.code.InUse → descriptor.Good pool own

theorem Descriptor.Good.eq_of_address_eq {own i j : Nat} {descriptor : Descriptor}
    (good : descriptor.Good pool own) (insideI : i < descriptor.count)
    (insideJ : j < descriptor.count)
    (same : (descriptor.words i).address = (descriptor.words j).address) : i = j := by
  rcases Nat.lt_trichotomy i j with before | equal | after
  · exact absurd same (Nat.ne_of_lt (good.sorted i j before insideJ))
  · exact equal
  · exact absurd same (Nat.ne_of_gt (good.sorted j i after insideI))

/-- What recovery makes of the word at `address` is, but for the dirty bit, its value in the memory
`target`. -/
inductive Image.Leads (pool : Pool) (image : Image) (target : Nat → Word) (address : Nat) :
    Word → Prop where
  | value {word : Word} (shown : word.Shows pool (target address)) :
      Leads pool image target address word
  | condCAS {d i : Nat} (lists : image.Lists pool d i address)
      (notSucceeded : (image.desc d).status.code ≠ .succeeded)
      (old : ((image.desc d).words i).oldValue = target address) :
      Leads pool image target address (pool.condCASPtr d i)
  | mwCAS {d i : Nat} (dirty : Bool) (lists : image.Lists pool d i address)
      (final : ((image.desc d).words i).finalValue ((image.desc d).status.code == .succeeded) =
        target address) :
      Leads pool image target address (pool.mwCASPtr d dirty)

/-- The constructor opens the image and leaves the memory `target`. -/
def Image.OpensTo (pool : Pool) (partitionCount : Nat) (image : Image) (target : Nat → Word) :
    Prop :=
  ∃ final, (descriptorPool pool partitionCount).run image = .ok final ∧
    ∀ address, (final.mem address).IsValue ∧ (final.mem address).clearDirty = target address

theorem Image.opensTo_of_leads {partitionCount : Nat} {image : Image} {target : Nat → Word}
    (safe : ∀ d, d < pool.size → (image.desc d).Safe pool (pool.descriptorAddress d))
    (leads : ∀ address, image.Leads pool target address (image.mem address))
    (accepted : image.metadata = pool.metadata) (partitions : partitionCount < pool.size) :
    image.OpensTo pool partitionCount target := by
  have good : ∀ {d i address}, image.Lists pool d i address →
      (image.desc d).Good pool (pool.descriptorAddress d) :=
    fun lists => (safe _ lists.inside).good lists.unfinished
  have ok : image.WellFormed pool := by
    refine ⟨fun d inside => (safe d inside).valid, fun d inside used =>
      ((safe d inside).good used).count_le, ?_, ?_, ?_⟩
    · intro d i j address first second
      exact (good first).eq_of_address_eq first.entry second.entry
        (first.address_eq.trans second.address_eq.symm)
    · intro d i address lists
      exact (good lists).entries i lists.entry
    · intro address
      have here := leads address
      generalize image.mem address = word at here
      cases here with
      | value shown => exact .value shown.plain shown.foreign
      | condCAS lists notSucceeded old =>
        exact .condCAS (pool.condCASPtr_not_isValue _ _) rfl lists notSucceeded
      | mwCAS dirty lists final => exact .mwCAS (pool.mwCASPtr_not_isValue _ dirty) rfl lists
  obtain ⟨final, ends, mem, -⟩ := descriptorPool_ok ok accepted partitions
  refine ⟨final, ends, ?_⟩
  intro address
  rw [mem]
  have here := leads address
  unfold Image.recovered
  generalize image.mem address = word at here
  cases here with
  | value shown =>
    rw [Image.recoveredWord_value shown.plain]
    split
    · exact ⟨shown.plain, shown.same⟩
    · exact ⟨shown.plain, shown.same⟩
  | condCAS lists notSucceeded old =>
    have clean := (ok.finalValue lists false).1
    rw [Image.recoveredWord_condCAS address (ok.entry_lt lists)
      (pool.condCASPtr_not_isValue _ _) rfl, old]
    rw [show ((image.desc _).words _).finalValue false = target address from old] at clean
    exact ⟨.of_isCleanPtr clean, Word.clearDirty_of_isCleanPtr clean⟩
  | @mwCAS d i dirty lists final =>
    have clean := (ok.finalValue lists ((image.desc d).status.code == .succeeded)).1
    rw [ok.recoveredWord_mwCAS (pool.mwCASPtr_not_isValue d dirty) rfl lists, final]
    rw [final] at clean
    exact ⟨.of_isCleanPtr clean, Word.clearDirty_of_isCleanPtr clean⟩

/-! ### The stages of an entry -/

/-- How far an operation is with one of its entries. -/
inductive Stage where
  /-- Nothing has been written. -/
  | untouched
  /-- The CondCAS pointer is in the word. -/
  | conditional
  /-- The MwCAS pointer is in the word, dirty. -/
  | installed
  /-- The MwCAS pointer is durable, the dirty bit still set. -/
  | flushed
  /-- The MwCAS pointer is durable, the dirty bit cleared. -/
  | pinned
  /-- The final value is in the word. -/
  | finalised (succeeded : Bool)
  /-- The final value is durable. -/
  | done (succeeded : Bool)

/-- The value the word of an entry ends with, where `old` is its value before the operation. -/
def WordDescriptor.goal (word : WordDescriptor) (old : Word) (succeeded : Bool) : Word :=
  if succeeded then word.newValue else old

/-- What the word of an entry and its durable copy hold in each stage; `old` is the value of the
word before the operation. -/
def Stage.Holds (pool : Pool) (d i : Nat) (entry : WordDescriptor) (old mem nvm : Word) :
    Stage → Prop
  | .untouched => mem.Shows pool old ∧ nvm.Shows pool old
  | .conditional => mem = pool.condCASPtr d i ∧ entry.oldValue = old ∧ nvm.Shows pool old
  | .installed => mem = pool.mwCASPtr d true ∧ entry.oldValue = old ∧ nvm.Shows pool old
  | .flushed => mem = pool.mwCASPtr d true ∧ entry.oldValue = old ∧ nvm = pool.mwCASPtr d true
  | .pinned => mem = pool.mwCASPtr d false ∧ entry.oldValue = old ∧ nvm = pool.mwCASPtr d true
  | .finalised succeeded => mem.Shows pool (entry.goal old succeeded) ∧
      if succeeded then nvm = pool.mwCASPtr d true else nvm.Shows pool old
  | .done succeeded => mem.Shows pool (entry.goal old succeeded) ∧
      nvm.Shows pool (entry.goal old succeeded)

/-- The stages an entry can be in when the status, in memory or durable, is Succeeded or is not. -/
def Stage.Fits (succeeded : Bool) : Stage → Prop
  | .pinned => True
  | .finalised verdict => verdict = succeeded
  | .done verdict => verdict = succeeded
  | _ => succeeded = false

/-- The entries of descriptor `d` are in these stages and all other words are untouched. -/
structure Stages (pool : Pool) (old : Nat → Word) (shared : Shared) (d : Nat) (stage : Nat → Stage) :
    Prop where
  entry : ∀ i, i < (shared.desc d).count → (stage i).Holds pool d i ((shared.desc d).words i)
    (old ((shared.desc d).words i).address) (shared.mem ((shared.desc d).words i).address)
    (shared.nvm ((shared.desc d).words i).address)
  rest : ∀ address, (∀ i, i < (shared.desc d).count →
    ((shared.desc d).words i).address ≠ address) →
    (shared.mem address).Shows pool (old address) ∧ (shared.nvm address).Shows pool (old address)

/-- The memory after an operation that has succeeded. -/
def Descriptor.perform (descriptor : Descriptor) (memory : Nat → Word) (address : Nat) : Word :=
  if ∃ i < descriptor.count, (descriptor.words i).address = address then
    (descriptor.entryFor address).newValue
  else memory address

/-- The memory after an operation with this verdict. -/
def Descriptor.outcome (descriptor : Descriptor) (memory : Nat → Word) (succeeded : Bool) :
    Nat → Word :=
  if succeeded then descriptor.perform memory else memory

theorem Descriptor.Good.outcome_entry {own : Nat} {descriptor : Descriptor}
    (good : descriptor.Good pool own) {i : Nat} (inside : i < descriptor.count)
    (memory : Nat → Word) (succeeded : Bool) :
    descriptor.outcome memory succeeded (descriptor.words i).address =
      (descriptor.words i).goal (memory (descriptor.words i).address) succeeded := by
  cases succeeded with
  | false => rfl
  | true =>
    have entry : descriptor.entryFor (descriptor.words i).address = descriptor.words i :=
      Descriptor.entryFor_eq (fun j insideJ same => good.eq_of_address_eq insideJ inside same)
        inside rfl
    show descriptor.perform memory _ = (descriptor.words i).newValue
    rw [Descriptor.perform, if_pos ⟨i, inside, rfl⟩, entry]

theorem Descriptor.outcome_rest {descriptor : Descriptor} {address : Nat}
    (absent : ∀ i, i < descriptor.count → (descriptor.words i).address ≠ address)
    (memory : Nat → Word) (succeeded : Bool) :
    descriptor.outcome memory succeeded address = memory address := by
  cases succeeded with
  | false => rfl
  | true =>
    show descriptor.perform memory address = memory address
    rw [Descriptor.perform, if_neg]
    rintro ⟨i, inside, here⟩
    exact absent i inside here

/-- An image with the entries of descriptor `d`, in which words that fit the stages lead to the
memory after the operation. -/
theorem Stages.leads {old : Nat → Word} {shared : Shared} {d : Nat} {stage : Nat → Stage}
    (stages : Stages pool old shared d stage)
    (good : (shared.desc d).Good pool (pool.descriptorAddress d)) (inside : d < pool.size)
    {image : Image} {succeeded : Bool} (count : (image.desc d).count = (shared.desc d).count)
    (words : (image.desc d).words = (shared.desc d).words)
    (used : (image.desc d).status.code.InUse)
    (verdict : ((image.desc d).status.code == .succeeded) = succeeded)
    (fits : ∀ i, i < (shared.desc d).count → (stage i).Fits succeeded) (address : Nat) :
    image.Leads pool ((shared.desc d).outcome old succeeded) address (shared.mem address) ∧
      image.Leads pool ((shared.desc d).outcome old succeeded) address (shared.nvm address) := by
  by_cases listed : ∃ i, i < (shared.desc d).count ∧ ((shared.desc d).words i).address = address
  · obtain ⟨i, entry, rfl⟩ := listed
    have lists : image.Lists pool d i ((shared.desc d).words i).address := by
      refine ⟨inside, used, ?_, ?_⟩
      · rw [count]
        exact entry
      · rw [words]
    have goal := good.outcome_entry entry old succeeded
    have value : ∀ {word : Word}, word.Shows pool (((shared.desc d).words i).goal
        (old ((shared.desc d).words i).address) succeeded) →
        image.Leads pool ((shared.desc d).outcome old succeeded)
          ((shared.desc d).words i).address word := by
      intro word shown
      rw [← goal] at shown
      exact .value shown
    have pointer : ∀ dirty, ((shared.desc d).words i).oldValue =
        old ((shared.desc d).words i).address →
        image.Leads pool ((shared.desc d).outcome old succeeded)
          ((shared.desc d).words i).address (pool.mwCASPtr d dirty) := by
      intro dirty same
      refine .mwCAS dirty lists ?_
      rw [words, verdict, goal, WordDescriptor.goal, ← same]
      rfl
    have holds := stages.entry i entry
    have fit := fits i entry
    generalize stage i = stage at holds fit
    cases stage with
    | untouched =>
      cases fit
      exact ⟨value holds.1, value holds.2⟩
    | conditional =>
      cases fit
      obtain ⟨mem, same, nvm⟩ := holds
      rw [mem]
      refine ⟨.condCAS lists ?_ ?_, value nvm⟩
      · intro isSucceeded
        rw [isSucceeded] at verdict
        cases verdict
      · rw [words, same, goal]
        rfl
    | installed =>
      cases fit
      obtain ⟨mem, same, nvm⟩ := holds
      rw [mem]
      exact ⟨pointer true same, value nvm⟩
    | flushed =>
      cases fit
      obtain ⟨mem, same, nvm⟩ := holds
      rw [mem, nvm]
      exact ⟨pointer true same, pointer true same⟩
    | pinned =>
      obtain ⟨mem, same, nvm⟩ := holds
      rw [mem, nvm]
      exact ⟨pointer false same, pointer true same⟩
    | finalised flag =>
      cases fit
      refine ⟨value holds.1, ?_⟩
      have durable := holds.2
      cases succeeded with
      | false => exact value durable
      | true =>
        rw [show shared.nvm ((shared.desc d).words i).address = pool.mwCASPtr d true from durable]
        refine .mwCAS true lists ?_
        rw [words, verdict, goal]
        rfl
    | done flag =>
      cases fit
      exact ⟨value holds.1, value holds.2⟩
  · have absent : ∀ i, i < (shared.desc d).count → ((shared.desc d).words i).address ≠ address :=
      fun i entry here => listed ⟨i, entry, here⟩
    have values := stages.rest address absent
    rw [← Descriptor.outcome_rest absent old succeeded] at values
    exact ⟨.value values.1, .value values.2⟩

/-! ### What a store or a flush does to the stages -/

section

variable {old : Nat → Word} {shared : Shared} {d : Nat} {stage : Nat → Stage}

theorem Stages.weaken (stages : Stages pool old shared d stage) {other : Nat → Stage}
    (same : ∀ i, i < (shared.desc d).count → other i = stage i) :
    Stages pool old shared d other := by
  refine ⟨?_, stages.rest⟩
  intro i inside
  rw [same i inside]
  exact stages.entry i inside

/-- The stages depend on the words, their durable copies and the entries. -/
theorem Stages.of_eq (stages : Stages pool old shared d stage) {after : Shared}
    (mem : after.mem = shared.mem) (nvm : after.nvm = shared.nvm)
    (count : (after.desc d).count = (shared.desc d).count)
    (words : (after.desc d).words = (shared.desc d).words) : Stages pool old after d stage := by
  refine ⟨?_, ?_⟩
  · rw [mem, nvm, count, words]
    exact stages.entry
  · rw [mem, nvm, count, words]
    exact stages.rest

variable (good : (shared.desc d).Good pool (pool.descriptorAddress d)) {i : Nat}
  (inside : i < (shared.desc d).count)

include good inside

/-- A store to the word of entry `i`. -/
theorem Stages.storeWord (stages : Stages pool old shared d stage) {word : Word} (next : Stage)
    (holds : next.Holds pool d i ((shared.desc d).words i)
      (old ((shared.desc d).words i).address) word
      (shared.nvm ((shared.desc d).words i).address)) :
    Stages pool old (shared.storeWord ((shared.desc d).words i).address word) d
      (Function.update stage i next) := by
  refine ⟨?_, ?_⟩
  · intro j entry
    by_cases same : j = i
    · subst same
      rw [Function.update_self]
      simp only [Shared.storeWord_desc, Shared.storeWord_nvm, Shared.storeWord_mem_self]
      exact holds
    · have different : ((shared.desc d).words j).address ≠ ((shared.desc d).words i).address :=
        fun equal => same (good.eq_of_address_eq entry inside equal)
      rw [Function.update_of_ne same, Shared.storeWord_desc,
        Shared.storeWord_mem_of_ne _ _ different]
      exact stages.entry j entry
  · intro address absent
    have different : address ≠ ((shared.desc d).words i).address := (absent i inside).symm
    rw [Shared.storeWord_mem_of_ne _ _ different]
    exact stages.rest address absent

/-- A flush of the word of entry `i`. -/
theorem Stages.persistAddress (stages : Stages pool old shared d stage) (next : Stage)
    (holds : next.Holds pool d i ((shared.desc d).words i)
      (old ((shared.desc d).words i).address) (shared.mem ((shared.desc d).words i).address)
      (shared.mem ((shared.desc d).words i).address)) :
    Stages pool old (shared.persistAddress ((shared.desc d).words i).address) d
      (Function.update stage i next) := by
  refine ⟨?_, ?_⟩
  · intro j entry
    simp only [Shared.persistAddress]
    by_cases same : j = i
    · subst same
      rw [Function.update_self, Function.update_self]
      exact holds
    · have different : ((shared.desc d).words j).address ≠ ((shared.desc d).words i).address :=
        fun equal => same (good.eq_of_address_eq entry inside equal)
      rw [Function.update_of_ne same, Function.update_of_ne different]
      exact stages.entry j entry
  · intro address absent
    have different : address ≠ ((shared.desc d).words i).address := (absent i inside).symm
    simp only [Shared.persistAddress]
    rw [Function.update_of_ne different]
    exact stages.rest address absent

end

/-! ### What is known at each program point -/

/-- The durable copy of descriptor `d` is the descriptor with this status. -/
def Shared.Flushed (shared : Shared) (d : Nat) (status : Status) : Prop :=
  shared.nvDesc d = { shared.desc d with status := status }

/-- The operation is undecided, and so is its durable copy. -/
structure Shared.Open (shared : Shared) (d : Nat) : Prop where
  status : (shared.desc d).status = .of .undecided
  flushed : shared.Flushed d (.of .undecided)

/-- The operation is settled with this verdict, and so is its durable copy. -/
structure Shared.Closed (shared : Shared) (d : Nat) (succeeded : Bool) : Prop where
  verdict : (shared.desc d).status = .of (if succeeded then .succeeded else .failed)
  flushed : ∃ status, status.code = (if succeeded then .succeeded else .failed) ∧
    shared.Flushed d status

/-- The stages when the install phase has ended with this verdict; a failed one has installed the
first entries. -/
def stagesBefore (succeeded : Bool) (installed i : Nat) : Stage :=
  if succeeded then .pinned else if i < installed then .installed else .untouched

/-- The stages in the final phase: the entries before `i` are done, and entry `i` is in a stage of
its own. -/
def stagesFinal (succeeded : Bool) (installed i : Nat) (own : Stage) (j : Nat) : Stage :=
  if j < i then .done succeeded else if j = i then own else stagesBefore succeeded installed j

/-- What is known at a program point of an operation that runs alone. -/
def PcFacts (pool : Pool) (old : Nat → Word) (shared : Shared) (d : Nat) : Pc → Prop
  | .checkUndecided | .flushDescriptor => (shared.desc d).status = .of .undecided ∧
      (shared.nvDesc d).Safe pool (pool.descriptorAddress d) ∧
      Stages pool old shared d fun _ => .untouched
  | .loadStatus => shared.Open d ∧ Stages pool old shared d fun _ => .untouched
  | .installCondCAS i => shared.Open d ∧ i < (shared.desc d).count ∧
      Stages pool old shared d fun j => if j < i then .installed else .untouched
  | .loadOwn i => shared.Open d ∧ i < (shared.desc d).count ∧ Stages pool old shared d fun j =>
      if j < i then .installed else if j = i then .conditional else .untouched
  | .casOwn i undecided => undecided = true ∧ shared.Open d ∧ i < (shared.desc d).count ∧
      Stages pool old shared d fun j =>
        if j < i then .installed else if j = i then .conditional else .untouched
  | .loadTarget i | .flushTarget i => shared.Open d ∧ i < (shared.desc d).count ∧
      Stages pool old shared d fun j => if j < i then .pinned else .installed
  | .clearTarget i => shared.Open d ∧ i < (shared.desc d).count ∧ Stages pool old shared d fun j =>
      if j < i then .pinned else if j = i then .flushed else .installed
  | .decide myStatus => shared.Open d ∧ ∃ succeeded installed,
      myStatus = (if succeeded then .succeeded else .failed) ∧
      Stages pool old shared d (stagesBefore succeeded installed)
  | .checkDecided | .persistStatus => ∃ succeeded installed,
      (shared.desc d).status = ⟨if succeeded then .succeeded else .failed, true⟩ ∧
      shared.Flushed d (.of .undecided) ∧
      Stages pool old shared d (stagesBefore succeeded installed)
  | .loadForClear => ∃ succeeded installed,
      (shared.desc d).status = ⟨if succeeded then .succeeded else .failed, true⟩ ∧
      shared.Flushed d ⟨if succeeded then .succeeded else .failed, true⟩ ∧
      Stages pool old shared d (stagesBefore succeeded installed)
  | .storeClear loaded => ∃ succeeded installed,
      loaded = ⟨if succeeded then .succeeded else .failed, true⟩ ∧
      (shared.desc d).status = loaded ∧ shared.Flushed d loaded ∧
      Stages pool old shared d (stagesBefore succeeded installed)
  | .loadVerdict => ∃ succeeded installed, shared.Closed d succeeded ∧
      Stages pool old shared d (stagesBefore succeeded installed)
  | .finalCAS i succeeded => shared.Closed d succeeded ∧ i < (shared.desc d).count ∧
      ∃ installed, Stages pool old shared d
        (stagesFinal succeeded installed i (stagesBefore succeeded installed i))
  | .finalRetry i succeeded => shared.Closed d succeeded ∧ i < (shared.desc d).count ∧
      ∃ installed, Stages pool old shared d (stagesFinal succeeded installed i .pinned) ∧
        succeeded = true
  | .finalFlush i succeeded => shared.Closed d succeeded ∧ i < (shared.desc d).count ∧
      ∃ installed, Stages pool old shared d
        (stagesFinal succeeded installed i (.finalised succeeded))
  | .finalClear i succeeded => shared.Closed d succeeded ∧ i < (shared.desc d).count ∧
      ∃ installed, Stages pool old shared d
        (stagesFinal succeeded installed i (.done succeeded))
  | .cleanupDirty | .cleanupFailed | .cleanupPush | .cleanupReturn => ∃ succeeded,
      shared.Closed d succeeded ∧ Stages pool old shared d fun _ => .done succeeded
  | .cleanupSucceeded => shared.Closed d true ∧ Stages pool old shared d fun _ => .done true
  | .ret result => shared.Closed d result ∧ Stages pool old shared d fun _ => .done result
  | _ => False

/-- Entry `i` gets a stage of its own. -/
theorem update_stage (before own after : Stage) (i j : Nat) :
    (if j < i then before else if j = i then own else after) =
      Function.update (fun j => if j < i then before else after) i own j := by
  by_cases here : j = i
  · subst here
    rw [Function.update_self, if_neg (Nat.lt_irrefl j), if_pos rfl]
  · rw [Function.update_of_ne here, if_neg here]

/-- Entry `i` joins the ones before it. -/
theorem update_stage_succ (before own : Stage) (after : Nat → Stage) (i j : Nat) :
    (if j < i + 1 then before else after j) =
      Function.update (fun j => if j < i then before else if j = i then own else after j) i
        before j := by
  by_cases here : j = i
  · subst here
    rw [Function.update_self, if_pos (Nat.lt_succ_self j)]
  · rw [Function.update_of_ne here, if_neg here]
    by_cases earlier : j < i
    · rw [if_pos earlier, if_pos (by omega)]
    · rw [if_neg earlier, if_neg (by omega)]

theorem stagesFinal_update (succeeded : Bool) (installed i : Nat) (own next : Stage) (j : Nat) :
    stagesFinal succeeded installed i next j =
      Function.update (stagesFinal succeeded installed i own) i next j := by
  unfold stagesFinal
  by_cases here : j = i
  · subst here
    rw [Function.update_self, if_neg (Nat.lt_irrefl j), if_pos rfl]
  · rw [Function.update_of_ne here, if_neg here, if_neg here]

theorem stagesFinal_succ (succeeded : Bool) (installed i : Nat) (j : Nat) :
    (if j < i + 1 then .done succeeded else stagesBefore succeeded installed j) =
      stagesFinal succeeded installed i (.done succeeded) j := by
  unfold stagesFinal
  by_cases earlier : j < i
  · rw [if_pos earlier, if_pos (by omega)]
  · rw [if_neg earlier]
    by_cases here : j = i
    · rw [if_pos here, if_pos (by omega)]
    · rw [if_neg here, if_neg (by omega)]

theorem Word.Shows.clearDirty {word value : Word} (shown : word.Shows pool value) :
    word.clearDirty.Shows pool value :=
  ⟨shown.plain, shown.foreign, shown.same⟩

/-! ### One step -/

/-- The step goes on in the same call, and what is known at the next program point holds. -/
def Continues (pool : Pool) (old : Nat → Word) (d : Nat) (result : Shared × Move) : Prop :=
  ∃ next, result.2 = .goto (.mwCAS d 0 next) ∧ PcFacts pool old result.1 d next

section

variable {old : Nat → Word} {shared : Shared} {d : Nat}

theorem Shared.Open.of_eq (holds : shared.Open d) {after : Shared} (desc : after.desc = shared.desc)
    (nvDesc : after.nvDesc = shared.nvDesc) : after.Open d := by
  refine ⟨?_, ?_⟩
  · rw [desc]
    exact holds.status
  · unfold Shared.Flushed
    rw [desc, nvDesc]
    exact holds.flushed

theorem Shared.Closed.of_eq {succeeded : Bool} (holds : shared.Closed d succeeded) {after : Shared}
    (desc : after.desc = shared.desc) (nvDesc : after.nvDesc = shared.nvDesc) :
    after.Closed d succeeded := by
  refine ⟨?_, ?_⟩
  · rw [desc]
    exact holds.verdict
  · unfold Shared.Flushed
    rw [desc, nvDesc]
    exact holds.flushed

theorem pcFacts_enterTarget (isOpen : shared.Open d) (i : Nat)
    (stages : Stages pool old shared d fun j => if j < i then .pinned else .installed) :
    PcFacts pool old shared d (.enterTarget (shared.desc d) i) := by
  unfold Pc.enterTarget
  split
  · rename_i inside
    exact ⟨isOpen, inside, stages⟩
  · rename_i beyond
    refine ⟨isOpen, true, 0, rfl, stages.weaken ?_⟩
    intro j inside
    rw [stagesBefore, if_pos rfl, if_pos (by omega)]

theorem pcFacts_enterInstall (isOpen : shared.Open d) (i : Nat)
    (stages : Stages pool old shared d fun j => if j < i then .installed else .untouched) :
    PcFacts pool old shared d (.enterInstall .persistent (shared.desc d) i) := by
  unfold Pc.enterInstall
  split
  · rename_i inside
    exact ⟨isOpen, inside, stages⟩
  · rename_i beyond
    refine pcFacts_enterTarget isOpen 0 (stages.weaken ?_)
    intro j inside
    rw [if_neg (Nat.not_lt_zero j), if_pos (by omega)]

theorem pcFacts_enterFinal {succeeded : Bool} (closed : shared.Closed d succeeded) (i installed : Nat)
    (stages : Stages pool old shared d fun j =>
      if j < i then .done succeeded else stagesBefore succeeded installed j) :
    PcFacts pool old shared d (.enterFinal (shared.desc d) 0 i succeeded) := by
  unfold Pc.enterFinal
  split
  · rename_i inside
    refine ⟨closed, inside, installed, stages.weaken ?_⟩
    intro j _
    unfold stagesFinal
    by_cases before : j < i
    · rw [if_pos before, if_pos before]
    · rw [if_neg before, if_neg before]
      split
      · rename_i same
        rw [same]
      · rfl
  · rename_i beyond
    refine ⟨succeeded, closed, stages.weaken ?_⟩
    intro j inside
    rw [if_pos (by omega)]

/-! #### The install phase -/

theorem continues_start {pc : Pc} (facts : PcFacts pool old shared d pc)
    (here : pc = .checkUndecided ∨ pc = .flushDescriptor ∨ pc = .loadStatus) :
    Continues pool old d (stepMwCAS .persistent pool shared d 0 pc) := by
  rcases here with rfl | rfl | rfl
  · obtain ⟨status, safe, stages⟩ := facts
    refine ⟨.flushDescriptor, ?_, status, safe, stages⟩
    simp only [stepMwCAS, status, if_true]
  · obtain ⟨status, -, stages⟩ := facts
    refine ⟨.loadStatus, rfl, ⟨status, ?_⟩, stages.of_eq rfl rfl rfl rfl⟩
    simp [Shared.Flushed, stepMwCAS, Shared.flushDescriptor, ← status]
  · obtain ⟨isOpen, stages⟩ := facts
    refine ⟨.enterInstall .persistent (shared.desc d) 0, ?_, ?_⟩
    · simp [stepMwCAS, isOpen.status]
    · refine pcFacts_enterInstall isOpen 0 (stages.weaken ?_)
      intro j _
      rw [if_neg (Nat.not_lt_zero j)]

theorem continues_loadOwn {i : Nat} (facts : PcFacts pool old shared d (.loadOwn i)) :
    Continues pool old d (stepMwCAS .persistent pool shared d 0 (.loadOwn i)) := by
  obtain ⟨isOpen, entry, stages⟩ := facts
  refine ⟨.casOwn i true, ?_, rfl, isOpen, entry, stages⟩
  simp [stepMwCAS, isOpen.status]

theorem continues_loadTarget {i : Nat} (facts : PcFacts pool old shared d (.loadTarget i)) :
    Continues pool old d (stepMwCAS .persistent pool shared d 0 (.loadTarget i)) := by
  obtain ⟨isOpen, entry, stages⟩ := facts
  have holds := stages.entry i entry
  rw [if_neg (Nat.lt_irrefl i)] at holds
  refine ⟨.flushTarget i, ?_, isOpen, entry, stages⟩
  simp only [stepMwCAS, holds.1, if_true]

section

variable (good : (shared.desc d).Good pool (pool.descriptorAddress d)) {i : Nat}

include good

theorem continues_installCondCAS (inside : d < pool.size)
    (facts : PcFacts pool old shared d (.installCondCAS i)) :
    Continues pool old d (stepMwCAS .persistent pool shared d 0 (.installCondCAS i)) := by
  obtain ⟨isOpen, entry, stages⟩ := facts
  have holds := stages.entry i entry
  rw [if_neg (Nat.lt_irrefl i)] at holds
  have value := holds.1.plain
  have notConditional : (shared.mem ((shared.desc d).words i).address).isCondCASDescriptorPtr =
      false := value.2
  rcases shared.compareExchange64_cases ((shared.desc d).words i).address (pool.condCASPtr d i)
    ((shared.desc d).words i).oldValue with ⟨same, stored⟩ | ⟨different, kept⟩
  · -- the old value is there
    refine ⟨.loadOwn i, ?_, ?_⟩
    · rw [same] at notConditional
      simp only [stepMwCAS, notConditional, same, if_true, Bool.false_eq_true, if_false]
    · simp only [stepMwCAS]
      rw [stored]
      have clean := (good.entries i entry).oldValue.1
      have old' : ((shared.desc d).words i).oldValue = old ((shared.desc d).words i).address := by
        rw [← holds.1.same, same]
        exact (Word.clearDirty_of_isCleanPtr clean).symm
      refine ⟨isOpen.of_eq rfl rfl, entry, (stages.storeWord good entry .conditional
        ⟨rfl, old', holds.2⟩).weaken ?_⟩
      exact fun j _ => update_stage _ _ _ i j
  · -- some other value
    have foreign := (holds.1.foreign d inside).1
    have notOwn : pool.isOwnPtr .persistent d (shared.mem ((shared.desc d).words i).address) =
        false := by
      simp only [Pool.isOwnPtr, Word.cleanPtr_beq, foreign, decide_false]
    refine ⟨.decide .failed, ?_, ?_⟩
    · simp only [stepMwCAS, notConditional, different, if_false, Bool.false_eq_true,
        Pc.afterCondCAS, notOwn, or_self, Word.isMwCASDescriptorPtr, value.1]
    · simp only [stepMwCAS]
      rw [kept]
      refine ⟨isOpen, false, i, rfl, stages.weaken ?_⟩
      intro j _
      rfl

theorem continues_casOwn {undecided : Bool}
    (facts : PcFacts pool old shared d (.casOwn i undecided)) :
    Continues pool old d (stepMwCAS .persistent pool shared d 0 (.casOwn i undecided)) := by
  obtain ⟨rfl, isOpen, entry, stages⟩ := facts
  have holds := stages.entry i entry
  rw [if_neg (Nat.lt_irrefl i), if_pos rfl] at holds
  obtain ⟨pointer, same, durable⟩ := holds
  refine ⟨.enterInstall .persistent (shared.desc d) (i + 1), ?_, ?_⟩
  · simp [stepMwCAS, Pc.afterCondCAS]
  · have stored : shared.compareExchange64 ((shared.desc d).words i).address
        (pool.mwCASPtr d true) (pool.condCASPtr d i) =
        shared.storeWord ((shared.desc d).words i).address (pool.mwCASPtr d true) := by
      rw [Shared.compareExchange64, if_pos pointer]
    have next : Stages pool old (shared.storeWord ((shared.desc d).words i).address
        (pool.mwCASPtr d true)) d fun j => if j < i + 1 then .installed else .untouched := by
      refine (stages.storeWord good entry .installed ⟨rfl, same, durable⟩).weaken ?_
      exact fun j _ => update_stage_succ _ _ (fun _ => .untouched) i j
    have stillOpen : (shared.storeWord ((shared.desc d).words i).address
        (pool.mwCASPtr d true)).Open d := isOpen.of_eq rfl rfl
    show PcFacts pool old (shared.compareExchange64 ((shared.desc d).words i).address
      (pool.mwCASPtr d true) (pool.condCASPtr d i)) d _
    rw [stored]
    exact pcFacts_enterInstall stillOpen (i + 1) next

/-! #### Making the pointers durable -/

theorem continues_flushTarget (facts : PcFacts pool old shared d (.flushTarget i)) :
    Continues pool old d (stepMwCAS .persistent pool shared d 0 (.flushTarget i)) := by
  obtain ⟨isOpen, entry, stages⟩ := facts
  have holds := stages.entry i entry
  rw [if_neg (Nat.lt_irrefl i)] at holds
  refine ⟨.clearTarget i, rfl, isOpen.of_eq rfl rfl, entry, (stages.persistAddress good entry
    .flushed ⟨holds.1, holds.2.1, holds.1⟩).weaken ?_⟩
  exact fun j _ => update_stage _ _ _ i j

theorem continues_clearTarget (facts : PcFacts pool old shared d (.clearTarget i)) :
    Continues pool old d (stepMwCAS .persistent pool shared d 0 (.clearTarget i)) := by
  obtain ⟨isOpen, entry, stages⟩ := facts
  have holds := stages.entry i entry
  rw [if_neg (Nat.lt_irrefl i), if_pos rfl] at holds
  have stored : shared.compareExchange64 ((shared.desc d).words i).address (pool.mwCASPtr d false)
      (pool.mwCASPtr d true) =
      shared.storeWord ((shared.desc d).words i).address (pool.mwCASPtr d false) := by
    rw [Shared.compareExchange64, if_pos holds.1]
  have next : Stages pool old (shared.storeWord ((shared.desc d).words i).address
      (pool.mwCASPtr d false)) d fun j => if j < i + 1 then .pinned else .installed := by
    refine (stages.storeWord good entry .pinned ⟨rfl, holds.2.1, holds.2.2⟩).weaken ?_
    exact fun j _ => update_stage_succ _ _ (fun _ => .installed) i j
  have stillOpen : (shared.storeWord ((shared.desc d).words i).address
      (pool.mwCASPtr d false)).Open d := isOpen.of_eq rfl rfl
  refine ⟨.enterTarget (shared.desc d) (i + 1), rfl, ?_⟩
  show PcFacts pool old (shared.compareExchange64 ((shared.desc d).words i).address
    (pool.mwCASPtr d false) (pool.mwCASPtr d true)) d _
  rw [stored]
  exact pcFacts_enterTarget stillOpen (i + 1) next

end

/-! #### The decision -/

theorem continues_decide {myStatus : StatusCode}
    (facts : PcFacts pool old shared d (.decide myStatus)) :
    Continues pool old d (stepMwCAS .persistent pool shared d 0 (.decide myStatus)) := by
  obtain ⟨isOpen, succeeded, installed, rfl, stages⟩ := facts
  refine ⟨.checkDecided, rfl, ?_⟩
  simp only [stepMwCAS, Shared.compareExchange32, isOpen.status, if_true]
  refine ⟨succeeded, installed, Shared.storeStatus_status_self _ _ _, ?_, stages.of_eq rfl rfl
    (Shared.storeStatus_count _ _ _ _) (Shared.storeStatus_words _ _ _ _)⟩
  have flushed : shared.nvDesc d = _ := isOpen.flushed
  simp only [Shared.Flushed, Shared.storeStatus, Function.update_self]
  exact flushed

theorem continues_decided {pc : Pc} (facts : PcFacts pool old shared d pc)
    (here : pc = .checkDecided ∨ pc = .persistStatus ∨ pc = .loadForClear) :
    Continues pool old d (stepMwCAS .persistent pool shared d 0 pc) := by
  rcases here with rfl | rfl | rfl
  · obtain ⟨succeeded, installed, status, flushed, stages⟩ := facts
    refine ⟨.persistStatus, ?_, succeeded, installed, status, flushed, stages⟩
    cases succeeded <;> simp [stepMwCAS, status]
  · obtain ⟨succeeded, installed, status, flushed, stages⟩ := facts
    refine ⟨.loadForClear, rfl, succeeded, installed, status, ?_, stages.of_eq rfl rfl rfl rfl⟩
    have entries : shared.nvDesc d = _ := flushed
    simp [Shared.Flushed, stepMwCAS, Shared.persistStatus, entries, status]
  · obtain ⟨succeeded, installed, status, flushed, stages⟩ := facts
    refine ⟨.storeClear (shared.desc d).status, rfl, succeeded, installed, status, rfl, ?_, stages⟩
    rw [status]
    exact flushed

theorem continues_storeClear {loaded : Status}
    (facts : PcFacts pool old shared d (.storeClear loaded)) :
    Continues pool old d (stepMwCAS .persistent pool shared d 0 (.storeClear loaded)) := by
  obtain ⟨succeeded, installed, rfl, status, flushed, stages⟩ := facts
  refine ⟨.loadVerdict, rfl, succeeded, installed,
    ⟨?_, ⟨if succeeded then .succeeded else .failed, true⟩, rfl, ?_⟩, stages.of_eq rfl rfl
    (Shared.storeStatus_count _ _ _ _) (Shared.storeStatus_words _ _ _ _)⟩
  · exact Shared.storeStatus_status_self _ _ _
  · have entries : shared.nvDesc d = _ := flushed
    simp only [Shared.Flushed, stepMwCAS, Shared.storeStatus, Function.update_self]
    exact entries

theorem Shared.Closed.beq_succeeded {succeeded : Bool} (closed : shared.Closed d succeeded) :
    ((shared.desc d).status == .of .succeeded) = succeeded := by
  rw [closed.verdict]
  cases succeeded <;> decide

theorem continues_loadVerdict (facts : PcFacts pool old shared d .loadVerdict) :
    Continues pool old d (stepMwCAS .persistent pool shared d 0 .loadVerdict) := by
  obtain ⟨succeeded, installed, closed, stages⟩ := facts
  refine ⟨.enterFinal (shared.desc d) 0 0 succeeded, ?_, ?_⟩
  · simp only [stepMwCAS, closed.beq_succeeded]
  · refine pcFacts_enterFinal closed 0 installed (stages.weaken ?_)
    intro j _
    rw [if_neg (Nat.not_lt_zero j)]

/-! #### The final phase -/

section

variable (good : (shared.desc d).Good pool (pool.descriptorAddress d)) {i : Nat} {succeeded : Bool}

include good

/-- The final value, dirty or not, is the value the entry ends with, where its pointer was
installed. -/
theorem Descriptor.Good.shows_finalValue (entry : i < (shared.desc d).count) (succeeded : Bool)
    {value : Word} (same : succeeded = false → ((shared.desc d).words i).oldValue = value)
    (dirty : Bool) :
    ((((shared.desc d).words i).finalValue succeeded).withDirty dirty).Shows pool
      (((shared.desc d).words i).goal value succeeded) := by
  have ok := good.entries i entry
  cases succeeded with
  | true =>
    obtain ⟨clean, foreign⟩ := ok.newValue
    exact ⟨(Word.IsValue.of_isCleanPtr clean).withDirty dirty, foreign,
      Word.clearDirty_of_isCleanPtr clean⟩
  | false =>
    obtain ⟨clean, foreign⟩ := ok.oldValue
    exact ⟨(Word.IsValue.of_isCleanPtr clean).withDirty dirty, foreign,
      (Word.clearDirty_of_isCleanPtr clean).trans (same rfl)⟩

/-- The first exchange of the final phase: a dirty pointer is replaced, and so a clean one is left
to the second exchange. -/
theorem continues_finalCAS (facts : PcFacts pool old shared d (.finalCAS i succeeded)) :
    Continues pool old d (stepMwCAS .persistent pool shared d 0 (.finalCAS i succeeded)) := by
  obtain ⟨closed, entry, installed, stages⟩ := facts
  have holds := stages.entry i entry
  simp only [stagesFinal, if_neg (Nat.lt_irrefl i), if_true, stagesBefore] at holds
  have finalised : ∀ {word : Word}, (Stage.finalised succeeded).Holds pool d i
      ((shared.desc d).words i) (old ((shared.desc d).words i).address) word
      (shared.nvm ((shared.desc d).words i).address) →
      Stages pool old (shared.storeWord ((shared.desc d).words i).address word) d
        (stagesFinal succeeded installed i (.finalised succeeded)) := by
    intro word next
    refine (stages.storeWord good entry _ next).weaken ?_
    exact fun j _ => stagesFinal_update succeeded installed i _ _ j
  cases succeeded with
  | true =>
    -- the pointer was made durable, so its dirty bit is cleared
    have pointer : shared.mem ((shared.desc d).words i).address = pool.mwCASPtr d false := holds.1
    have clean : pool.mwCASPtr d false ≠ pool.mwCASPtr d true := by
      intro same
      cases (pool.mwCASPtr_inj same).2
    refine ⟨.finalRetry i true, ?_, ?_⟩
    · simp only [stepMwCAS, pointer, if_true]
    · simp only [stepMwCAS, Shared.compareExchange64, pointer, if_neg clean]
      exact ⟨closed, entry, installed, stages, rfl⟩
  | false =>
    rw [if_neg Bool.false_ne_true] at holds
    by_cases before : i < installed
    · rw [if_pos before] at holds
      have pointer : shared.mem ((shared.desc d).words i).address = pool.mwCASPtr d true := holds.1
      have dirty : pool.mwCASPtr d true ≠ pool.mwCASPtr d false := by
        intro same
        cases (pool.mwCASPtr_inj same).2
      refine ⟨.finalFlush i false, ?_, ?_⟩
      · simp only [stepMwCAS, pointer, if_neg dirty]
      · simp only [stepMwCAS, Shared.compareExchange64, pointer, if_true]
        have shown := good.shows_finalValue entry false (fun _ => holds.2.1) true
        exact ⟨closed.of_eq rfl rfl, entry, installed, finalised ⟨shown, holds.2.2⟩⟩
    · rw [if_neg before] at holds
      have value := holds.1.plain
      have notPointer : ∀ dirty, shared.mem ((shared.desc d).words i).address ≠
          pool.mwCASPtr d dirty := by
        intro dirty same
        rw [same] at value
        exact pool.mwCASPtr_not_isValue d dirty value
      refine ⟨.finalFlush i false, ?_, ?_⟩
      · simp only [stepMwCAS, if_neg (notPointer false)]
      · simp only [stepMwCAS, Shared.compareExchange64, if_neg (notPointer true)]
        refine ⟨closed, entry, installed, ?_⟩
        refine (finalised holds).of_eq ?_ rfl rfl rfl
        exact (Function.update_eq_self _ _).symm

theorem continues_finalRetry (facts : PcFacts pool old shared d (.finalRetry i succeeded)) :
    Continues pool old d (stepMwCAS .persistent pool shared d 0 (.finalRetry i succeeded)) := by
  obtain ⟨closed, entry, installed, stages, rfl⟩ := facts
  have holds := stages.entry i entry
  simp only [stagesFinal, if_neg (Nat.lt_irrefl i), if_true] at holds
  have pointer : shared.mem ((shared.desc d).words i).address = pool.mwCASPtr d false := holds.1
  refine ⟨.finalFlush i true, rfl, ?_⟩
  simp only [stepMwCAS, Shared.compareExchange64, pointer, if_true]
  have shown := good.shows_finalValue entry true
    (nofun : true = false → _ = old ((shared.desc d).words i).address) true
  refine ⟨closed.of_eq rfl rfl, entry, installed, (stages.storeWord good entry (.finalised true)
    ⟨shown, holds.2.2⟩).weaken ?_⟩
  exact fun j _ => stagesFinal_update true installed i _ _ j

theorem continues_finalFlush (facts : PcFacts pool old shared d (.finalFlush i succeeded)) :
    Continues pool old d (stepMwCAS .persistent pool shared d 0 (.finalFlush i succeeded)) := by
  obtain ⟨closed, entry, installed, stages⟩ := facts
  have holds := stages.entry i entry
  simp only [stagesFinal, if_neg (Nat.lt_irrefl i), if_true] at holds
  refine ⟨.finalClear i succeeded, rfl, closed.of_eq rfl rfl, entry, installed,
    (stages.persistAddress good entry (.done succeeded) ⟨holds.1, holds.1⟩).weaken ?_⟩
  exact fun j _ => stagesFinal_update succeeded installed i _ _ j

theorem continues_finalClear (facts : PcFacts pool old shared d (.finalClear i succeeded)) :
    Continues pool old d (stepMwCAS .persistent pool shared d 0 (.finalClear i succeeded)) := by
  obtain ⟨closed, entry, installed, stages⟩ := facts
  have holds := stages.entry i entry
  simp only [stagesFinal, if_neg (Nat.lt_irrefl i), if_true] at holds
  refine ⟨.enterFinal (shared.desc d) 0 (i + 1) succeeded, rfl, ?_⟩
  have finished : Stages pool old shared d fun j =>
      if j < i + 1 then .done succeeded else stagesBefore succeeded installed j :=
    stages.weaken fun j _ => stagesFinal_succ succeeded installed i j
  show PcFacts pool old (shared.compareExchange64 ((shared.desc d).words i).address
    (((shared.desc d).words i).finalValue succeeded).setDirty.clearDirty
    (((shared.desc d).words i).finalValue succeeded).setDirty) d _
  rcases shared.compareExchange64_cases ((shared.desc d).words i).address
    (((shared.desc d).words i).finalValue succeeded).setDirty.clearDirty
    (((shared.desc d).words i).finalValue succeeded).setDirty with ⟨here, stored⟩ | ⟨-, kept⟩
  · rw [stored, ← here]
    have cleared : Stages pool old (shared.storeWord ((shared.desc d).words i).address
        (shared.mem ((shared.desc d).words i).address).clearDirty) d fun j =>
        if j < i + 1 then .done succeeded else stagesBefore succeeded installed j := by
      refine (stages.storeWord good entry (.done succeeded) ⟨holds.1.clearDirty, holds.2⟩).weaken ?_
      intro j _
      rw [stagesFinal_succ]
      exact stagesFinal_update succeeded installed i _ _ j
    have stillClosed : (shared.storeWord ((shared.desc d).words i).address
        (shared.mem ((shared.desc d).words i).address).clearDirty).Closed d succeeded :=
      closed.of_eq rfl rfl
    exact pcFacts_enterFinal stillClosed (i + 1) installed cleared
  · rw [kept]
    exact pcFacts_enterFinal closed (i + 1) installed finished

end

theorem continues_cleanup {pc : Pc} (facts : PcFacts pool old shared d pc)
    (here : pc = .cleanupDirty ∨ pc = .cleanupFailed ∨ pc = .cleanupSucceeded ∨
      pc = .cleanupPush ∨ pc = .cleanupReturn) :
    Continues pool old d (stepMwCAS .persistent pool shared d 0 pc) := by
  rcases here with rfl | rfl | rfl | rfl | rfl
  · obtain ⟨succeeded, closed, stages⟩ := facts
    refine ⟨.cleanupFailed, ?_, succeeded, closed, stages⟩
    simp [stepMwCAS, closed.verdict]
  · obtain ⟨succeeded, closed, stages⟩ := facts
    cases succeeded with
    | true =>
      refine ⟨.cleanupSucceeded, ?_, closed, stages⟩
      simp [stepMwCAS, closed.verdict, Status.of]
    | false =>
      refine ⟨.cleanupPush, ?_, false, closed, stages⟩
      simp [stepMwCAS, closed.verdict]
  · obtain ⟨closed, stages⟩ := facts
    refine ⟨.cleanupPush, ?_, true, closed, stages⟩
    simp [stepMwCAS, closed.verdict]
  · obtain ⟨succeeded, closed, stages⟩ := facts
    exact ⟨.cleanupReturn, rfl, succeeded, closed.of_eq rfl rfl, stages.of_eq rfl rfl rfl rfl⟩
  · obtain ⟨succeeded, closed, stages⟩ := facts
    refine ⟨.ret succeeded, ?_, closed, stages⟩
    simp only [stepMwCAS, closed.beq_succeeded]

/-- One step of an operation that runs alone: it goes on, or it returns. -/
theorem stepMwCAS_facts (good : (shared.desc d).Good pool (pool.descriptorAddress d))
    (inside : d < pool.size) {pc : Pc} (facts : PcFacts pool old shared d pc) :
    Continues pool old d (stepMwCAS .persistent pool shared d 0 pc) ∨ ∃ result, pc = .ret result := by
  cases pc with
  | checkUndecided => exact Or.inl (continues_start facts (Or.inl rfl))
  | flushDescriptor => exact Or.inl (continues_start facts (Or.inr (Or.inl rfl)))
  | loadStatus => exact Or.inl (continues_start facts (Or.inr (Or.inr rfl)))
  | installCondCAS i => exact Or.inl (continues_installCondCAS good inside facts)
  | loadOwn i => exact Or.inl (continues_loadOwn facts)
  | casOwn i undecided => exact Or.inl (continues_casOwn good facts)
  | loadTarget i => exact Or.inl (continues_loadTarget facts)
  | flushTarget i => exact Or.inl (continues_flushTarget good facts)
  | clearTarget i => exact Or.inl (continues_clearTarget good facts)
  | decide myStatus => exact Or.inl (continues_decide facts)
  | checkDecided => exact Or.inl (continues_decided facts (Or.inl rfl))
  | persistStatus => exact Or.inl (continues_decided facts (Or.inr (Or.inl rfl)))
  | loadForClear => exact Or.inl (continues_decided facts (Or.inr (Or.inr rfl)))
  | storeClear loaded => exact Or.inl (continues_storeClear facts)
  | loadVerdict => exact Or.inl (continues_loadVerdict facts)
  | finalCAS i succeeded => exact Or.inl (continues_finalCAS good facts)
  | finalRetry i succeeded => exact Or.inl (continues_finalRetry good facts)
  | finalFlush i succeeded => exact Or.inl (continues_finalFlush good facts)
  | finalClear i succeeded => exact Or.inl (continues_finalClear good facts)
  | cleanupDirty | cleanupFailed | cleanupSucceeded | cleanupPush | cleanupReturn =>
    exact Or.inl (continues_cleanup facts (by simp))
  | ret result => exact Or.inr ⟨result, rfl⟩
  | _ => exact facts.elim

end

/-! ### The images of a running operation -/

theorem stagesBefore_fits (succeeded : Bool) (installed i : Nat) :
    (stagesBefore succeeded installed i).Fits succeeded ∧
      (stagesBefore succeeded installed i).Fits false := by
  cases succeeded with
  | true => exact ⟨trivial, trivial⟩
  | false =>
    unfold stagesBefore
    rw [if_neg Bool.false_ne_true]
    split <;> exact ⟨rfl, rfl⟩

theorem stagesFinal_fits {succeeded : Bool} {own : Stage} (fits : own.Fits succeeded)
    (installed i j : Nat) : (stagesFinal succeeded installed i own j).Fits succeeded := by
  unfold stagesFinal
  split
  · rfl
  · split
    · exact fits
    · exact (stagesBefore_fits succeeded installed j).1

/-- At every program point the status, in memory and in the durable copy, fits the stages. -/
structure Fitting (pool : Pool) (old : Nat → Word) (shared : Shared) (d : Nat) : Prop where
  used : (shared.desc d).status.code.InUse
  stages : ∃ stage, Stages pool old shared d stage ∧
    (∀ i, (stage i).Fits ((shared.desc d).status.code == .succeeded)) ∧
    (((shared.nvDesc d).Safe pool (pool.descriptorAddress d) ∧ ∀ i, stage i = .untouched) ∨
      ∃ status, shared.Flushed d status ∧ status.code.InUse ∧
        ∀ i, (stage i).Fits (status.code == .succeeded))

section

variable {old : Nat → Word} {shared : Shared} {d : Nat} {stage : Nat → Stage}

theorem Fitting.of_open (isOpen : shared.Open d) (stages : Stages pool old shared d stage)
    (fits : ∀ i, (stage i).Fits false) : Fitting pool old shared d := by
  refine ⟨?_, stage, stages, ?_, Or.inr ⟨_, isOpen.flushed, Or.inl rfl, fits⟩⟩
  · rw [isOpen.status]
    exact Or.inl rfl
  · rw [isOpen.status]
    exact fits

theorem decided_verdict (succeeded : Bool) :
    StatusCode.InUse (if succeeded then .succeeded else .failed) ∧
      ((if succeeded then StatusCode.succeeded else .failed) == .succeeded) = succeeded := by
  cases succeeded <;> decide

theorem Fitting.of_decided {succeeded dirty : Bool} {status : Status}
    (verdict : (shared.desc d).status = ⟨if succeeded then .succeeded else .failed, dirty⟩)
    (flushed : shared.Flushed d status) (used : status.code.InUse)
    (stages : Stages pool old shared d stage) (fits : ∀ i, (stage i).Fits succeeded)
    (durable : ∀ i, (stage i).Fits (status.code == .succeeded)) : Fitting pool old shared d := by
  obtain ⟨isUsed, isVerdict⟩ := decided_verdict succeeded
  refine ⟨?_, stage, stages, ?_, Or.inr ⟨status, flushed, used, durable⟩⟩
  · rw [verdict]
    exact isUsed
  · rw [verdict, isVerdict]
    exact fits

theorem Fitting.of_closed {succeeded : Bool} (closed : shared.Closed d succeeded)
    (stages : Stages pool old shared d stage) (fits : ∀ i, (stage i).Fits succeeded) :
    Fitting pool old shared d := by
  obtain ⟨isUsed, isVerdict⟩ := decided_verdict succeeded
  obtain ⟨status, code, flushed⟩ := closed.flushed
  refine .of_decided closed.verdict flushed ?_ stages fits ?_
  · rw [code]
    exact isUsed
  · rw [code, isVerdict]
    exact fits

theorem ite_fits {condition : Prop} [Decidable condition] {first second : Stage} {succeeded : Bool}
    (one : first.Fits succeeded) (two : second.Fits succeeded) :
    (if condition then first else second).Fits succeeded := by
  split
  · exact one
  · exact two

theorem PcFacts.fitting {pc : Pc} (facts : PcFacts pool old shared d pc) :
    Fitting pool old shared d := by
  cases pc with
  | checkUndecided | flushDescriptor =>
    obtain ⟨status, safe, stages⟩ := facts
    refine ⟨?_, _, stages, ?_, Or.inl ⟨safe, fun _ => rfl⟩⟩
    · rw [status]
      exact Or.inl rfl
    · rw [status]
      exact fun _ => rfl
  | loadStatus => exact .of_open facts.1 facts.2 fun _ => rfl
  | installCondCAS i => exact .of_open facts.1 facts.2.2 fun _ => ite_fits rfl rfl
  | loadOwn i => exact .of_open facts.1 facts.2.2 fun _ => ite_fits rfl (ite_fits rfl rfl)
  | casOwn i undecided =>
    exact .of_open facts.2.1 facts.2.2.2 fun _ => ite_fits rfl (ite_fits rfl rfl)
  | loadTarget i | flushTarget i =>
    exact .of_open facts.1 facts.2.2 fun _ => ite_fits trivial rfl
  | clearTarget i =>
    exact .of_open facts.1 facts.2.2 fun _ => ite_fits trivial (ite_fits rfl rfl)
  | decide myStatus =>
    obtain ⟨isOpen, succeeded, installed, -, stages⟩ := facts
    exact .of_open isOpen stages fun i => (stagesBefore_fits succeeded installed i).2
  | checkDecided | persistStatus =>
    obtain ⟨succeeded, installed, status, flushed, stages⟩ := facts
    exact .of_decided status flushed (Or.inl rfl) stages
      (fun i => (stagesBefore_fits succeeded installed i).1)
      fun i => (stagesBefore_fits succeeded installed i).2
  | loadForClear =>
    obtain ⟨succeeded, installed, status, flushed, stages⟩ := facts
    obtain ⟨isUsed, isVerdict⟩ := decided_verdict succeeded
    refine .of_decided status flushed isUsed stages
      (fun i => (stagesBefore_fits succeeded installed i).1) ?_
    rw [isVerdict]
    exact fun i => (stagesBefore_fits succeeded installed i).1
  | storeClear loaded =>
    obtain ⟨succeeded, installed, rfl, status, flushed, stages⟩ := facts
    obtain ⟨isUsed, isVerdict⟩ := decided_verdict succeeded
    refine .of_decided status flushed isUsed stages
      (fun i => (stagesBefore_fits succeeded installed i).1) ?_
    rw [isVerdict]
    exact fun i => (stagesBefore_fits succeeded installed i).1
  | loadVerdict =>
    obtain ⟨succeeded, installed, closed, stages⟩ := facts
    exact .of_closed closed stages fun i => (stagesBefore_fits succeeded installed i).1
  | finalCAS i succeeded =>
    obtain ⟨closed, -, installed, stages⟩ := facts
    exact .of_closed closed stages (stagesFinal_fits (stagesBefore_fits _ _ _).1 installed i)
  | finalRetry i succeeded =>
    obtain ⟨closed, -, installed, stages, -⟩ := facts
    refine .of_closed closed stages fun j => stagesFinal_fits ?_ installed i j
    trivial
  | finalFlush i succeeded =>
    obtain ⟨closed, -, installed, stages⟩ := facts
    refine .of_closed closed stages fun j => stagesFinal_fits ?_ installed i j
    rfl
  | finalClear i succeeded =>
    obtain ⟨closed, -, installed, stages⟩ := facts
    refine .of_closed closed stages fun j => stagesFinal_fits ?_ installed i j
    rfl
  | cleanupDirty | cleanupFailed | cleanupPush | cleanupReturn =>
    obtain ⟨succeeded, closed, stages⟩ := facts
    exact .of_closed closed stages fun _ => rfl
  | cleanupSucceeded => exact .of_closed facts.1 facts.2 fun _ => rfl
  | ret result => exact .of_closed facts.1 facts.2 fun _ => rfl
  | _ => exact facts.elim

theorem Fitting.nvSafe (fitting : Fitting pool old shared d)
    (good : (shared.desc d).Good pool (pool.descriptorAddress d)) :
    (shared.nvDesc d).Safe pool (pool.descriptorAddress d) := by
  obtain ⟨stage, -, -, ⟨safe, -⟩ | ⟨status, flushed, used, -⟩⟩ := fitting.stages
  · exact safe
  · have durable : shared.nvDesc d = { shared.desc d with status := status } := flushed
    rw [durable]
    refine ⟨?_, fun _ => ⟨good.count_le, good.sorted, good.entries, good.ownDesc⟩⟩
    intro invalid
    have code : status.code = .invalid := invalid
    rw [code] at used
    exact absurd used (by decide)

end

/-! ### The invariant of the system -/

/-- All target words hold the memory `old`, and so do their durable copies. -/
def Resting (pool : Pool) (old : Nat → Word) (shared : Shared) : Prop :=
  ∀ address, (shared.mem address).Shows pool (old address) ∧
    (shared.nvm address).Shows pool (old address)

/-- The descriptor is free or its operation is over. -/
def Descriptor.Quiet (descriptor : Descriptor) : Prop :=
  descriptor.status.code ≠ .invalid ∧ descriptor.status.code ≠ .undecided

/-- All descriptors but `d` are in order. -/
def OthersOk (pool : Pool) (shared : Shared) (d : Nat) : Prop :=
  ∀ e, e ≠ d → (shared.desc e).Good pool (pool.descriptorAddress e) ∧ (shared.desc e).Quiet

/-- What the thread relies on. -/
def ControlOk (pool : Pool) (old : Nat → Word) (shared : Shared) : Control → Prop
  | .idle => Resting pool old shared ∧ ∀ e,
      (shared.desc e).Good pool (pool.descriptorAddress e) ∧ (shared.desc e).Quiet
  | .writing d pending => Resting pool old shared ∧ OthersOk pool shared d ∧
      (shared.desc d).Quiet ∧ (shared.desc d).Safe pool (pool.descriptorAddress d) ∧
      (shared.desc d).Rewrites pending ∧
      (pending.getLastD (shared.desc d)).Good pool (pool.descriptorAddress d)
  | .running callStack => ∃ d pc, callStack = [.mwCAS d 0 pc] ∧ d < pool.size ∧
      (shared.desc d).Good pool (pool.descriptorAddress d) ∧ OthersOk pool shared d ∧
      PcFacts pool old shared d pc

/-- The state is in order, where `old` is the memory after the operations that have returned. -/
structure Solo.Ok (pool : Pool) (old : Nat → Word) (solo : Solo) : Prop where
  control : ControlOk pool old solo.shared solo.control
  nvSafe : ∀ e, (solo.shared.nvDesc e).Safe pool (pool.descriptorAddress e)

/-- The memory after the step, as far as operations have returned. -/
def Solo.committed (solo : Solo) (action : SoloAction) (old : Nat → Word) : Nat → Word :=
  match solo.control, action with
  | .running [.mwCAS d _ (.ret result)], .step => (solo.shared.desc d).outcome old result
  | _, _ => old

theorem Solo.committed_of_not_ret (solo : Solo) {old : Nat → Word} {d calldepth : Nat} {pc : Pc}
    (running : solo.control = .running [.mwCAS d calldepth pc]) (goesOn : ∀ result, pc ≠ .ret result) :
    solo.committed .step old = old := by
  unfold Solo.committed
  rw [running]
  cases pc with
  | ret result => exact absurd rfl (goesOn result)
  | _ => rfl

/-- The values an operation is called with are clean and no addresses of the pool, and no line is
written back but by a flush. -/
def SoloAction.FlushedOnly (pool : Pool) : SoloAction → Prop
  | .addEntry _ request => request.Valid ∧ pool.Foreign request.oldValue ∧
      pool.Foreign request.newValue
  | .writeBack _ _ => False
  | _ => True

instance (pool : Pool) (action : SoloAction) : Decidable (action.FlushedOnly pool) :=
  match action with
  | .addEntry _ request => inferInstanceAs (Decidable (request.Valid ∧
      pool.Foreign request.oldValue ∧ pool.Foreign request.newValue))
  | .writeBack _ _ => inferInstanceAs (Decidable False)
  | .mwCAS _ | .recycle _ | .step => inferInstanceAs (Decidable True)

section

variable {old : Nat → Word} {shared : Shared} {d : Nat}

theorem controlOk_store {pending : List Descriptor} (resting : Resting pool old shared)
    (others : OthersOk pool shared d) (quiet : (shared.desc d).Quiet)
    (safe : (shared.desc d).Safe pool (pool.descriptorAddress d))
    (rewrites : (shared.desc d).Rewrites pending)
    (good : (pending.getLastD (shared.desc d)).Good pool (pool.descriptorAddress d)) :
    ControlOk pool old shared (.store d pending) := by
  cases pending with
  | nil =>
    refine ⟨resting, ?_⟩
    intro e
    by_cases same : e = d
    · subst same
      exact ⟨good, quiet⟩
    · exact others e same
  | cons next rest => exact ⟨resting, others, quiet, safe, rewrites, good⟩

theorem Descriptor.quiet_of_finished {descriptor : Descriptor}
    (finished : descriptor.status = .of .finished) : descriptor.Quiet := by
  unfold Descriptor.Quiet
  rw [finished]
  decide

theorem Descriptor.safe_of_finished {descriptor : Descriptor} (own : Nat)
    (finished : descriptor.status = .of .finished) : descriptor.Safe pool own := by
  refine ⟨(Descriptor.quiet_of_finished finished).1, ?_⟩
  rw [finished]
  intro used
  exact absurd used (by decide)

theorem Descriptor.Good.of_entries_eq {own : Nat} {first second : Descriptor}
    (good : first.Good pool own) (count : second.count = first.count)
    (words : second.words = first.words) : second.Good pool own := by
  refine ⟨?_, ?_, ?_, ?_⟩
  · rw [count]
    exact good.count_le
  · unfold Descriptor.Sorted
    rw [count, words]
    exact good.sorted
  · rw [count, words]
    exact good.entries
  · rw [count, words]
    exact good.ownDesc

theorem Descriptor.Good.of_empty {own : Nat} {descriptor : Descriptor} (empty : descriptor.count = 0) :
    descriptor.Good pool own := by
  have nothing : ∀ i, ¬ i < descriptor.count := by
    intro i
    rw [empty]
    exact Nat.not_lt_zero i
  exact ⟨by rw [empty]; exact Nat.zero_le _, fun _ j _ inside => absurd inside (nothing j),
    fun i inside => absurd inside (nothing i), fun i inside => absurd inside (nothing i)⟩

theorem Descriptor.Good.addEntry {own : Nat} {descriptor filled : Descriptor} {request : Request}
    (good : descriptor.Good pool own) (valid : request.Valid)
    (foreign : pool.Foreign request.oldValue ∧ pool.Foreign request.newValue)
    (added : descriptor.addEntry own request = .ok filled) : filled.Good pool own := by
  obtain ⟨sorted, -, bound, -, entries⟩ := Descriptor.addEntry_entries good.sorted added
  refine ⟨bound, sorted, ?_, ?_⟩
  · intro i inside
    rcases entries i inside with here | ⟨j, insideJ, here⟩
    · rw [here]
      exact ⟨valid.address_ne, ⟨valid.oldValue_clean, foreign.1⟩, ⟨valid.newValue_clean, foreign.2⟩⟩
    · rw [here]
      exact good.entries j insideJ
  · intro i inside
    rcases entries i inside with here | ⟨j, insideJ, here⟩
    · rw [here]
      rfl
    · rw [here]
      exact good.ownDesc j insideJ

/-- When an operation returns, its verdict has become the memory. -/
theorem Stages.resting {result : Bool} (stages : Stages pool old shared d fun _ => .done result)
    (good : (shared.desc d).Good pool (pool.descriptorAddress d)) :
    Resting pool ((shared.desc d).outcome old result) shared := by
  intro address
  by_cases listed : ∃ i, i < (shared.desc d).count ∧ ((shared.desc d).words i).address = address
  · obtain ⟨i, entry, rfl⟩ := listed
    rw [good.outcome_entry entry old result]
    exact stages.entry i entry
  · have absent : ∀ i, i < (shared.desc d).count → ((shared.desc d).words i).address ≠ address :=
      fun i entry here => listed ⟨i, entry, here⟩
    rw [Descriptor.outcome_rest absent old result]
    exact stages.rest address absent

theorem OthersOk.of_kept {after : Shared} (others : OthersOk pool shared d)
    (kept : shared.Kept after d) : OthersOk pool after d := by
  intro e different
  rw [kept.desc e different]
  exact others e different

/-- A step on one descriptor leaves all durable descriptors safe. -/
theorem Shared.Kept.nvSafe {after : Shared} {pc : Pc} (kept : shared.Kept after d)
    (good : (shared.desc d).Good pool (pool.descriptorAddress d))
    (facts : PcFacts pool old after d pc)
    (safe : ∀ e, (shared.nvDesc e).Safe pool (pool.descriptorAddress e)) (e : Nat) :
    (after.nvDesc e).Safe pool (pool.descriptorAddress e) := by
  by_cases here : e = d
  · subst here
    exact facts.fitting.nvSafe (good.of_entries_eq kept.count kept.words)
  · rw [kept.nvDesc e here]
    exact safe e

/-- The first of the pending stores to the descriptor. -/
theorem controlOk_write {content : Descriptor} {rest : List Descriptor}
    (writing : ControlOk pool old shared (.writing d (content :: rest))) :
    ControlOk pool old (shared.setDesc d content) (.store d rest) := by
  obtain ⟨resting, others, quiet, -, rewrites, good⟩ := writing
  have here : (shared.setDesc d content).desc d = content := Function.update_self _ _ _
  obtain ⟨stored, following⟩ := rewrites.store
  have inactive : content.Quiet ∧ content.Safe pool (pool.descriptorAddress d) := by
    rcases stored with status | rfl
    · exact ⟨Descriptor.quiet_of_finished status, Descriptor.safe_of_finished _ status⟩
    · exact ⟨quiet, quiet.1, fun _ => .of_empty rfl⟩
  refine controlOk_store resting ?_ ?_ ?_ ?_ ?_
  · intro e different
    have kept : (shared.setDesc d content).desc e = shared.desc e :=
      Function.update_of_ne different _ _
    rw [kept]
    exact others e different
  · rw [here]
    exact inactive.1
  · rw [here]
    exact inactive.2
  · rw [here]
    exact following
  · rw [here]
    cases rest with
    | nil => exact good
    | cons next rest => exact good

theorem controlOk_return {result : Bool}
    (good : (shared.desc d).Good pool (pool.descriptorAddress d)) (others : OthersOk pool shared d)
    (facts : PcFacts pool old shared d (.ret result)) :
    ControlOk pool ((shared.desc d).outcome old result) shared .idle := by
  obtain ⟨closed, stages⟩ := facts
  refine ⟨stages.resting good, ?_⟩
  intro e
  by_cases here : e = d
  · subst here
    refine ⟨good, ?_⟩
    unfold Descriptor.Quiet
    rw [closed.verdict]
    cases result <;> decide
  · exact others e here

end

theorem Solo.Ok.step {old : Nat → Word} {before after : Solo} {action : SoloAction}
    (ok : before.Ok pool old) (allowed : action.FlushedOnly pool)
    (step : SoloStep pool before action after) : after.Ok pool (before.committed action old) := by
  cases step with
  | @addEntry d request idle inside free passes =>
    have control := ok.control
    rw [idle] at control
    obtain ⟨resting, descriptors⟩ := control
    obtain ⟨valid, foreign⟩ := allowed
    have same : before.committed (.addEntry d request) old = old := by
      simp [Solo.committed, idle]
    rw [same]
    refine ⟨controlOk_store resting (fun e _ => descriptors e) (descriptors d).2
      (Descriptor.safe_of_finished _ free) ?_ ?_, ok.nvSafe⟩
    · exact addEntryStores_rewrites _ request free
    · refine (descriptors d).1.addEntry valid foreign ?_
      rw [← addEntryStores_run, Program.run_of_none passes]
      rfl
  | @mwCAS d idle inside free =>
    have control := ok.control
    rw [idle] at control
    obtain ⟨resting, descriptors⟩ := control
    have same : before.committed (.mwCAS d) old = old := by
      simp [Solo.committed, idle]
    rw [same]
    have kept := before.shared.kept_storeStatus d (.of .undecided)
    refine ⟨⟨d, .checkUndecided, rfl, inside, (descriptors d).1.of_entries_eq kept.count kept.words,
      ?_, Shared.storeStatus_status_self _ _ _, ok.nvSafe d, ?_, ?_⟩, ok.nvSafe⟩
    · intro e different
      rw [kept.desc e different]
      exact descriptors e
    · intro i _
      exact resting _
    · intro address _
      exact resting address
  | @recycle d idle pushed =>
    have control := ok.control
    rw [idle] at control
    obtain ⟨resting, descriptors⟩ := control
    have same : before.committed (.recycle d) old = old := by
      simp [Solo.committed, idle]
    rw [same]
    refine ⟨?_, ok.nvSafe⟩
    show ControlOk pool old { before.shared with garbage := before.shared.garbage.erase d }
      (.store d (freeDescriptorStores (before.shared.desc d)).images)
    refine controlOk_store resting (fun e _ => descriptors e) (descriptors d).2
      ⟨(descriptors d).2.1, fun _ => (descriptors d).1⟩ ?_ ?_
    · exact freeDescriptorStores_rewrites _
    · exact .of_empty (freeDescriptorStores_count _)
  | @write d content rest writing =>
    have control := ok.control
    rw [writing] at control
    have same : before.committed .step old = old := by
      simp [Solo.committed, writing]
    rw [same]
    exact ⟨controlOk_write control, ok.nvSafe⟩
  | @frame frame rest running =>
    have control := ok.control
    rw [running] at control
    obtain ⟨d, pc, callStack, inside, good, others, facts⟩ := control
    cases callStack
    rcases stepMwCAS_facts good inside facts with ⟨next, goes, factsAfter⟩ | ⟨result, rfl⟩
    · have same : before.committed .step old = old := by
        refine before.committed_of_not_ret running ?_
        rintro result rfl
        cases goes
      rw [same]
      have kept := stepMwCAS_kept pool before.shared d 0 pc
      have control : Control.run (((Frame.mwCAS d 0 pc).step .persistent pool before.shared).2.stack
          []) = .running [.mwCAS d 0 next] := by
        show Control.run ((stepMwCAS .persistent pool before.shared d 0 pc).2.stack []) = _
        rw [goes]
        rfl
      refine ⟨?_, kept.nvSafe good factsAfter ok.nvSafe⟩
      show ControlOk pool old (stepMwCAS .persistent pool before.shared d 0 pc).1 _
      rw [control]
      exact ⟨d, next, rfl, inside, good.of_entries_eq kept.count kept.words,
        others.of_kept kept, factsAfter⟩
    · have same : before.committed .step old = (before.shared.desc d).outcome old result := by
        simp [Solo.committed, running]
      rw [same]
      exact ⟨controlOk_return good others facts, ok.nvSafe⟩
  | writeBack d line => exact allowed.elim

/-! ### The images of a state -/

/-- The images a crash may leave. -/
def Solo.Survives (pool : Pool) (solo : Solo) (image : Image) : Prop :=
  image = solo.storedImage pool ∨ image = solo.flushedImage pool

/-- The memories the constructor may leave: that of the operations which have returned, or that
with the interrupted operation done as well. -/
def Solo.Admits (solo : Solo) (old target : Nat → Word) : Prop :=
  target = old ∨ ∃ d pc, solo.control = .running [.mwCAS d 0 pc] ∧
    target = (solo.shared.desc d).perform old

section

variable {old : Nat → Word} {solo : Solo} {image : Image}

theorem ControlOk.stored_safe (ok : ControlOk pool old solo.shared solo.control) (e : Nat) :
    (solo.shared.desc e).Safe pool (pool.descriptorAddress e) := by
  have others : ∀ {d}, OthersOk pool solo.shared d → e ≠ d →
      (solo.shared.desc e).Safe pool (pool.descriptorAddress e) :=
    fun others different => ⟨(others e different).2.1, fun _ => (others e different).1⟩
  cases control : solo.control with
  | idle =>
    rw [control] at ok
    exact ⟨(ok.2 e).2.1, fun _ => (ok.2 e).1⟩
  | writing d pending =>
    rw [control] at ok
    obtain ⟨-, rest, -, safe, -⟩ := ok
    by_cases same : e = d
    · rw [same]
      exact safe
    · exact others rest same
  | running callStack =>
    rw [control] at ok
    obtain ⟨d, pc, -, -, good, rest, facts⟩ := ok
    by_cases same : e = d
    · subst same
      refine ⟨?_, fun _ => good⟩
      intro invalid
      have used := facts.fitting.used
      rw [invalid] at used
      exact absurd used (by decide)
    · exact others rest same

theorem Solo.Ok.safe (ok : solo.Ok pool old) (survives : solo.Survives pool image) (e : Nat) :
    (image.desc e).Safe pool (pool.descriptorAddress e) := by
  rcases survives with rfl | rfl
  · exact ok.control.stored_safe e
  · exact ok.nvSafe e

theorem Resting.leads (resting : Resting pool old solo.shared) (survives : solo.Survives pool image)
    (address : Nat) : image.Leads pool old address (image.mem address) := by
  rcases survives with rfl | rfl
  · exact .value (resting address).1
  · exact .value (resting address).2

/-- The image of a running operation leads to the memory before it or to the memory after it. -/
theorem Fitting.leads {d : Nat} (fitting : Fitting pool old solo.shared d)
    (good : (solo.shared.desc d).Good pool (pool.descriptorAddress d)) (inside : d < pool.size)
    (survives : solo.Survives pool image) :
    ∃ succeeded, ∀ address,
      image.Leads pool ((solo.shared.desc d).outcome old succeeded) address (image.mem address) := by
  obtain ⟨stage, stages, fits, durable⟩ := fitting.stages
  rcases survives with rfl | rfl
  · refine ⟨(solo.shared.desc d).status.code == .succeeded, ?_⟩
    intro address
    show (solo.storedImage pool).Leads pool _ address (solo.shared.mem address)
    exact (stages.leads good inside rfl rfl fitting.used rfl (fun i _ => fits i) address).1
  · rcases durable with ⟨-, untouched⟩ | ⟨status, flushed, used, fitsDurable⟩
    · refine ⟨false, ?_⟩
      intro address
      refine .value ?_
      by_cases listed : ∃ i, i < (solo.shared.desc d).count ∧
          ((solo.shared.desc d).words i).address = address
      · obtain ⟨i, entry, rfl⟩ := listed
        have holds := stages.entry i entry
        rw [untouched i] at holds
        exact holds.2
      · exact (stages.rest address fun i entry here => listed ⟨i, entry, here⟩).2
    · refine ⟨status.code == .succeeded, ?_⟩
      intro address
      have content : (solo.flushedImage pool).desc d = { solo.shared.desc d with status := status } :=
        flushed
      show (solo.flushedImage pool).Leads pool _ address (solo.shared.nvm address)
      refine (stages.leads good inside ?_ ?_ ?_ ?_ (fun i _ => fitsDurable i) address).2
      · rw [content]
      · rw [content]
      · rw [content]
        exact used
      · rw [content]

theorem Solo.Ok.opens (ok : solo.Ok pool old) (survives : solo.Survives pool image)
    {partitionCount : Nat} (partitions : partitionCount < pool.size) :
    ∃ target, solo.Admits old target ∧ image.OpensTo pool partitionCount target := by
  have accepted : image.metadata = pool.metadata := by
    rcases survives with rfl | rfl
    · rfl
    · rfl
  have opens : ∀ {target}, (∀ address, image.Leads pool target address (image.mem address)) →
      image.OpensTo pool partitionCount target :=
    fun leads => Image.opensTo_of_leads (fun d _ => ok.safe survives d) leads accepted partitions
  have control := ok.control
  cases doing : solo.control with
  | idle =>
    rw [doing] at control
    exact ⟨old, Or.inl rfl, opens (control.1.leads survives)⟩
  | writing d pending =>
    rw [doing] at control
    exact ⟨old, Or.inl rfl, opens (control.1.leads survives)⟩
  | running callStack =>
    rw [doing] at control
    obtain ⟨d, pc, rfl, inside, good, -, facts⟩ := control
    obtain ⟨succeeded, leads⟩ := facts.fitting.leads good inside survives
    refine ⟨(solo.shared.desc d).outcome old succeeded, ?_, opens leads⟩
    cases succeeded with
    | false => exact Or.inl rfl
    | true => exact Or.inr ⟨d, pc, doing, rfl⟩

end

/-! ### Runs -/

/-- The memory after the operations that have returned in the first `index` steps of the run. -/
def committedMemory (run : Run (soloSystem pool)) : Nat → Nat → Word
  | 0 => fun address => ((run.state 0).shared.mem address).clearDirty
  | index + 1 => (run.state index).committed (run.action index) (committedMemory run index)

theorem SoloInitial.ok {solo : Solo} (initial : SoloInitial solo)
    (values : ∀ address, (solo.shared.mem address).IsValue ∧ pool.Foreign (solo.shared.mem address)) :
    solo.Ok pool fun address => (solo.shared.mem address).clearDirty := by
  have shown : ∀ address, (solo.shared.mem address).Shows pool
      (solo.shared.mem address).clearDirty :=
    fun address => ⟨(values address).1, (values address).2, rfl⟩
  have status : ∀ d, (solo.shared.desc d).status = .of .finished := by
    intro d
    rw [initial.fresh d]
    rfl
  refine ⟨?_, ?_⟩
  · rw [initial.idle]
    refine ⟨?_, ?_⟩
    · intro address
      rw [initial.durable.2]
      exact ⟨shown address, shown address⟩
    · intro d
      refine ⟨.of_empty ?_, Descriptor.quiet_of_finished (status d)⟩
      rw [initial.fresh d]
      rfl
  · intro d
    rw [initial.durable.1]
    exact Descriptor.safe_of_finished _ (status d)

theorem Solo.Ok.of_run (run : Run (soloSystem pool))
    (values : ∀ address, ((run.state 0).shared.mem address).IsValue ∧
      pool.Foreign ((run.state 0).shared.mem address))
    (meets : run.Meets fun _ action => action.FlushedOnly pool) (index : Nat) (inside : index ≤ run.length) :
    (run.state index).Ok pool (committedMemory run index) := by
  induction index with
  | zero => exact run.starts.ok values
  | succ index inductionHypothesis =>
    have here : index < run.length := inside
    exact (inductionHypothesis (Nat.le_of_lt here)).step (meets index here)
      (Solo.step_of_next (run.steps index here))

/-- Whenever the thread is stopped, the constructor opens what the crash leaves, with every store or
with exactly the flushed ones, and the words it leaves are those after the operations that have
returned, or those with the interrupted operation done as a whole. -/
theorem crashAtomic_of_run (run : Run (soloSystem pool))
    (values : ∀ address, ((run.state 0).shared.mem address).IsValue ∧
      pool.Foreign ((run.state 0).shared.mem address))
    (meets : run.Meets fun _ action => action.FlushedOnly pool) {partitionCount : Nat}
    (partitions : partitionCount < pool.size) (index : Nat) (inside : index ≤ run.length)
    (image : Image) (survives : (run.state index).Survives pool image) :
    ∃ target, (run.state index).Admits (committedMemory run index) target ∧
      image.OpensTo pool partitionCount target := by
  exact (Solo.Ok.of_run run values meets index inside).opens survives partitions

/-- One operation on one word, and the steps of it. -/
def singleOperation (steps : Nat) : List SoloAction :=
  SoloAction.addEntry 0 (.change 8 1 2) :: List.replicate 6 SoloAction.step ++
    SoloAction.mwCAS 0 :: List.replicate steps SoloAction.step

/-- A crash after the decision is durable: the word holds the MwCAS pointer in NVM, and the
operation is rolled forward. -/
theorem crashAtomic_of_run_succeeded : ∃ run : Run (soloSystem .small), ∃ index,
    index ≤ run.length ∧ ((run.state index).shared.nvDesc 0).status.code = .succeeded ∧
      (run.state index).shared.nvm 8 = Pool.small.mwCASPtr 0 true ∧
    ∀ image, (run.state index).Survives .small image → ∃ target,
      (run.state index).Admits (committedMemory run index) target ∧
        image.OpensTo .small 1 target := by
  obtain ⟨run, length, states, acts⟩ := Solo.exists_run .small (fun _ => .plain 1)
    (singleOperation 20) (by decide +kernel)
  have allowed : ∀ action ∈ singleOperation 20, action.FlushedOnly .small := by decide
  have meets : run.Meets fun _ action => action.FlushedOnly .small := by
    intro index inside
    rw [length] at inside
    refine allowed _ ?_
    rw [acts index, List.getD_eq_getElem?_getD, List.getElem?_eq_getElem inside, Option.getD_some]
    exact List.getElem_mem inside
  have values : ∀ address, ((run.state 0).shared.mem address).IsValue ∧
      Pool.small.Foreign ((run.state 0).shared.mem address) := by
    intro address
    have first : some (Solo.start fun _ => .plain 1) = some (run.state 0) := states 0
    rw [← Option.some.inj first]
    show (Word.plain 1).IsValue ∧ Pool.small.Foreign (.plain 1)
    decide
  have reached := satisfies_of_replay (fun solo : Solo =>
    (solo.shared.nvDesc 0).status.code = .succeeded ∧
      solo.shared.nvm 8 = Pool.small.mwCASPtr 0 true) (states 20) (by decide +kernel)
  have inside : 20 ≤ run.length := by
    rw [length]
    decide
  exact ⟨run, 20, inside, reached.1, reached.2, crashAtomic_of_run run values meets (by decide) 20 inside⟩

end Pmwcas
