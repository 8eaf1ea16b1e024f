/-
This file proves the write-ahead order of `PersistentMwCAS`: when an operation succeeds its pointers
and its descriptor are durable, and its new values go to the words only after its verdict is
durable.

The thread that decides may have installed, flushed and cleaned none of the pointers itself. What it
relies on is that a pointer of an undecided operation loses its dirty bit only after it has reached
NVM, whoever flushed it, and stays there (`Shared.Pinned`). The descriptor is flushed by its owner
before anybody else can see it.
-/

import Mathlib
import Pmwcas.Installed

namespace Pmwcas

open Transition

variable {pool : Pool}

/-! ### Durable pointers, entries and verdicts -/

/-- The word at `address` holds the MwCAS pointer of `d`, and so does its durable copy. -/
structure Shared.Pinned (pool : Pool) (shared : Shared) (d address : Nat) : Prop where
  mem : ∃ dirty, shared.mem address = pool.mwCASPtr d dirty
  nvm : ∃ dirty, shared.nvm address = pool.mwCASPtr d dirty

/-- The durable copy of descriptor `d` has the entries of `d`. -/
structure Shared.DurableEntries (shared : Shared) (d : Nat) : Prop where
  count : (shared.nvDesc d).count = (shared.desc d).count
  words : (shared.nvDesc d).words = (shared.desc d).words

/-- The durable copy of the status of `d` has its code. -/
def Shared.DurableStatus (shared : Shared) (d : Nat) : Prop :=
  (shared.nvDesc d).status.code = shared.code d

section Effects

variable {build : Build} {shared after : Shared} {frame : Frame} {d address : Nat}

theorem Effect.nvm_cases (effect : Effect build pool shared frame after) (address : Nat) :
    after.nvm address = shared.nvm address ∨ after.nvm address = shared.mem address := by
  cases effect with
  | flushWord frame target =>
    by_cases here : address = target
    · subst here
      exact Or.inr (Function.update_self _ _ _)
    · exact Or.inl (Function.update_of_ne here _ _)
  | _ => exact Or.inl rfl

/-- The durable copy of a descriptor is flushed as a whole by its owner, or its status is flushed, or
it stays as it is. -/
theorem Effect.nvDesc_cases (effect : Effect build pool shared frame after) (d : Nat) :
    after.nvDesc d = shared.nvDesc d ∨
      after.nvDesc d = { shared.nvDesc d with status := (shared.desc d).status } ∨
      after.nvDesc d = shared.desc d := by
  cases effect with
  | flushStatus e calldepth pc =>
    by_cases here : d = e
    · subst here
      exact Or.inr (Or.inl (Function.update_self _ _ _))
    · exact Or.inl (Function.update_of_ne here _ _)
  | flushDescriptor e calldepth =>
    by_cases here : d = e
    · subst here
      exact Or.inr (Or.inr (Function.update_self _ _ _))
    · exact Or.inl (Function.update_of_ne here _ _)
  | _ => exact Or.inl rfl

theorem Shared.Pinned.after_effect (pinned : shared.Pinned pool d address)
    (effect : Effect build pool shared frame after)
    (descriptors : DescriptorsOk build pool shared)
    (undecided : shared.code d = .undecided) : after.Pinned pool d address := by
  obtain ⟨dirty, pointer⟩ := pinned.mem
  refine ⟨(effect.wordChange address).mwCASPtr_stays descriptors undecided pointer, ?_⟩
  rcases effect.nvm_cases address with same | written
  · rw [same]
    exact pinned.nvm
  · exact ⟨dirty, written.trans pointer⟩

theorem Shared.DurableEntries.after_effect (durable : shared.DurableEntries d)
    (effect : Effect build pool shared frame after) : after.DurableEntries d := by
  refine ⟨?_, ?_⟩
  · rw [effect.count_eq d]
    rcases effect.nvDesc_cases d with same | status | whole
    · rw [same]
      exact durable.count
    · rw [status]
      exact durable.count
    · rw [whole]
  · rw [effect.words_eq d]
    rcases effect.nvDesc_cases d with same | status | whole
    · rw [same]
      exact durable.words
    · rw [status]
      exact durable.words
    · rw [whole]

theorem Shared.DurableStatus.after_effect (durable : shared.DurableStatus d)
    (effect : Effect build pool shared frame after) (decided : shared.Decided d) :
    after.DurableStatus d := by
  unfold Shared.DurableStatus
  rw [(effect.later d).code decided]
  rcases effect.nvDesc_cases d with same | status | whole
  · rw [same]
    exact durable
  · rw [status]
    rfl
  · rw [whole]
    rfl

end Effects

/-! ### What a frame has made durable -/

/-- How many of the first entries the program point relies on to be durable. -/
def Pc.pinnedBelow (count : Nat) : Pc → Nat
  | .loadTarget i => i
  | .flushTarget i => i
  | .clearTarget i => i + 1
  | .decide myStatus => if myStatus = .succeeded then count else 0
  | _ => 0

/-- The program point comes after the flush of the verdict. -/
def Pc.VerdictFlushed : Pc → Prop
  | .loadForClear | .storeClear _ | .loadVerdict => True
  | .finalCAS _ _ | .finalRetry _ _ | .finalFlush _ _ | .finalClear _ _ => True
  | _ => False

/-- What a call on descriptor `d` relies on: the entries it has persisted, the conflicting pointer it
is about to flush or has flushed, and the flushed verdict. -/
structure PcDurable (pool : Pool) (shared : Shared) (d : Nat) (pc : Pc) : Prop where
  below : shared.code d = .undecided → ∀ j, j < pc.pinnedBelow (shared.desc d).count →
    shared.Pinned pool d ((shared.desc d).words j).address
  conflict : ∀ i rval, pc = .flushConflict i rval →
    shared.code (pool.descriptorAt rval.rest) = .undecided →
    ∃ dirty, shared.mem ((shared.desc d).words i).address =
      pool.mwCASPtr (pool.descriptorAt rval.rest) dirty
  flushed : ∀ i rval, pc = .clearConflict i rval →
    shared.code (pool.descriptorAt rval.rest) = .undecided →
    shared.Pinned pool (pool.descriptorAt rval.rest) ((shared.desc d).words i).address
  verdict : pc.VerdictFlushed → shared.DurableStatus d

/-- What a read of the word at `address` relies on. -/
structure ReadPcDurable (pool : Pool) (shared : Shared) (address : Nat) (pc : ReadPc) : Prop where
  conflict : ∀ val, pc = .flush val → val.mwcas = true →
    shared.code (pool.descriptorAt val.rest) = .undecided →
    ∃ dirty, shared.mem address = pool.mwCASPtr (pool.descriptorAt val.rest) dirty
  flushed : ∀ val, pc = .clear val → val.mwcas = true →
    shared.code (pool.descriptorAt val.rest) = .undecided →
    shared.Pinned pool (pool.descriptorAt val.rest) address

def FrameDurable (pool : Pool) (shared : Shared) : Frame → Prop
  | .mwCAS d _ pc => PcDurable pool shared d pc
  | .getValue address pc => ReadPcDurable pool shared address pc

/-- The write-ahead invariant of the persistent build. -/
structure State.Durable (pool : Pool) (state : State) : Prop where
  /-- The descriptor of an operation others can see is durable. -/
  entries : ∀ d, state.shared.InUse d → state.shared.DurableEntries d ∨
    ∃ t pc, .mwCAS d 0 pc ∈ state.threads t ∧ (pc = .checkUndecided ∨ pc = .flushDescriptor)
  /-- A pointer of an undecided operation without the dirty bit is durable. -/
  clean : ∀ d address, state.shared.code d = .undecided →
    state.shared.mem address = pool.mwCASPtr d false → state.shared.Pinned pool d address
  frames : ∀ t, ∀ frame ∈ state.threads t, FrameDurable pool state.shared frame

theorem PcOk.decided_of_verdictFlushed {shared : Shared} {d : Nat} {pc : Pc}
    (ok : PcOk .persistent pool shared d pc) (flushed : pc.VerdictFlushed) : shared.Decided d := by
  cases pc with
  | loadForClear => exact ok.2
  | storeClear => exact ok.2.1
  | loadVerdict => exact ok.decided
  | finalCAS => exact ok.2.settled.decided
  | finalRetry | finalFlush | finalClear => exact ok.2.2.settled.decided
  | _ => exact flushed.elim

/-- What the other frames rely on is not disturbed. -/
theorem FrameDurable.after_effect {shared after : Shared} {frame other : Frame}
    (facts : FrameDurable pool shared other) (effect : Effect .persistent pool shared frame after)
    (descriptors : DescriptorsOk .persistent pool shared)
    (ok : FrameOk .persistent pool shared other) : FrameDurable pool after other := by
  cases other with
  | mwCAS d calldepth pc =>
    obtain ⟨used, pcOk⟩ := ok
    refine ⟨?_, ?_, ?_, ?_⟩
    · intro undecided j below
      rw [effect.count_eq d] at below
      rw [effect.words_eq d]
      have before := effect.undecided_before used undecided
      exact (facts.below before j below).after_effect effect descriptors before
    · rintro i rval rfl undecided
      obtain ⟨-, -, -, -, k, lists⟩ := pcOk
      have before := effect.undecided_before lists.inUse undecided
      obtain ⟨dirty, pointer⟩ := facts.conflict i rval rfl before
      rw [effect.words_eq d]
      exact (effect.wordChange _).mwCASPtr_stays descriptors before pointer
    · rintro i rval rfl undecided
      obtain ⟨-, -, -, -, k, lists⟩ := pcOk
      have before := effect.undecided_before lists.inUse undecided
      rw [effect.words_eq d]
      exact (facts.flushed i rval rfl before).after_effect effect descriptors before
    · intro flushed
      exact (facts.verdict flushed).after_effect effect (pcOk.decided_of_verdictFlushed flushed)
  | getValue address pc =>
    refine ⟨?_, ?_⟩
    · rintro val rfl isPointer undecided
      have used := ok.inUse_of_uses (d := pool.descriptorAt val.rest) ⟨isPointer, rfl⟩
      have before := effect.undecided_before used undecided
      obtain ⟨dirty, pointer⟩ := facts.conflict val rfl isPointer before
      exact (effect.wordChange _).mwCASPtr_stays descriptors before pointer
    · rintro val rfl isPointer undecided
      have used := ok.inUse_of_uses (d := pool.descriptorAt val.rest) ⟨isPointer, rfl⟩
      have before := effect.undecided_before used undecided
      exact (facts.flushed val rfl isPointer before).after_effect effect descriptors before

theorem Pc.pinnedBelow_enterTarget (descriptor : Descriptor) (i : Nat) :
    (Pc.enterTarget descriptor i).pinnedBelow descriptor.count ≤ i := by
  unfold Pc.enterTarget
  split
  · exact Nat.le_refl i
  · rename_i beyond
    exact Nat.le_of_not_lt beyond

/-- The program points that rely on nothing durable. -/
def Pc.NothingDurable (count : Nat) (pc : Pc) : Prop :=
  pc.pinnedBelow count = 0 ∧ (∀ i rval, pc ≠ .flushConflict i rval ∧ pc ≠ .clearConflict i rval) ∧
    ¬ pc.VerdictFlushed

theorem pcDurable_of_nothing {shared : Shared} {d : Nat} {pc : Pc}
    (nothing : pc.NothingDurable (shared.desc d).count) : PcDurable pool shared d pc := by
  obtain ⟨below, conflicts, notFlushed⟩ := nothing
  refine ⟨?_, fun i rval here => absurd here (conflicts i rval).1,
    fun i rval here => absurd here (conflicts i rval).2, fun flushed => absurd flushed notFlushed⟩
  intro _ j impossible
  rw [below] at impossible
  exact absurd impossible (Nat.not_lt_zero j)

theorem Pc.nothingDurable_enterInstall (descriptor : Descriptor) (i : Nat) :
    (Pc.enterInstall .persistent descriptor i).NothingDurable descriptor.count := by
  unfold Pc.enterInstall Pc.enterTarget
  split
  · exact ⟨rfl, fun _ _ => ⟨by simp, by simp⟩, id⟩
  · simp only
    split
    · exact ⟨rfl, fun _ _ => ⟨by simp, by simp⟩, id⟩
    · rename_i empty
      refine ⟨?_, fun _ _ => ⟨by simp, by simp⟩, id⟩
      exact Nat.le_zero.mp (Nat.le_of_not_lt empty)

/-- A frame about to flush a conflicting pointer. -/
theorem pcDurable_flushConflict {shared : Shared} {d i : Nat} {rval : Word}
    (conflict : shared.code (pool.descriptorAt rval.rest) = .undecided →
      ∃ dirty, shared.mem ((shared.desc d).words i).address =
        pool.mwCASPtr (pool.descriptorAt rval.rest) dirty) :
    PcDurable pool shared d (.flushConflict i rval) := by
  refine ⟨fun _ j impossible => absurd impossible (Nat.not_lt_zero j), ?_, ?_, False.elim⟩
  · rintro k other same
    cases same
    exact conflict
  · rintro k other same
    cases same

section AfterStep

variable {shared after : Shared} {d calldepth : Nat} {pc next : Pc}

/-- A step to a point that relies on nothing. -/
theorem Effect.pcDurable_of_nothing
    (effect : Effect .persistent pool shared (.mwCAS d calldepth pc) after)
    (nothing : next.NothingDurable (shared.desc d).count) : PcDurable pool after d next := by
  refine Pmwcas.pcDurable_of_nothing ?_
  rw [effect.count_eq d]
  exact nothing

/-- A step to a point where only the number of persisted entries matters. -/
theorem Effect.pcDurable_of_pinned
    (effect : Effect .persistent pool shared (.mwCAS d calldepth pc) after) (used : shared.InUse d)
    (conflicts : ∀ i rval, next ≠ .flushConflict i rval ∧ next ≠ .clearConflict i rval)
    (notFlushed : ¬ next.VerdictFlushed)
    (pinned : shared.code d = .undecided → ∀ j, j < next.pinnedBelow (shared.desc d).count →
      after.Pinned pool d ((shared.desc d).words j).address) : PcDurable pool after d next := by
  refine ⟨?_, fun i rval here => absurd here (conflicts i rval).1,
    fun i rval here => absurd here (conflicts i rval).2,
    fun flushed => absurd flushed notFlushed⟩
  intro undecided j below
  rw [effect.count_eq d] at below
  rw [effect.words_eq d]
  exact pinned (effect.undecided_before used undecided) j below

/-- The persisted entries stay persisted. -/
theorem PcDurable.pinned_after (facts : PcDurable pool shared d pc)
    (effect : Effect .persistent pool shared (.mwCAS d calldepth pc) after)
    (descriptors : DescriptorsOk .persistent pool shared) (undecided : shared.code d = .undecided)
    {j : Nat} (below : j < pc.pinnedBelow (shared.desc d).count) :
    after.Pinned pool d ((shared.desc d).words j).address :=
  (facts.below undecided j below).after_effect effect descriptors undecided

/-- On to the next entry, with one more of them persisted. -/
theorem Effect.pcDurable_enterTarget
    (effect : Effect .persistent pool shared (.mwCAS d calldepth pc) after) (used : shared.InUse d)
    {i : Nat}
    (pinned : shared.code d = .undecided → ∀ j, j < i + 1 →
      after.Pinned pool d ((shared.desc d).words j).address) :
    PcDurable pool after d (.enterTarget (shared.desc d) (i + 1)) := by
  have conflicts : ∀ k rval, Pc.enterTarget (shared.desc d) (i + 1) ≠ .flushConflict k rval ∧
      Pc.enterTarget (shared.desc d) (i + 1) ≠ .clearConflict k rval := by
    intro k rval
    unfold Pc.enterTarget
    split <;> exact ⟨by simp, by simp⟩
  have notFlushed : ¬ (Pc.enterTarget (shared.desc d) (i + 1)).VerdictFlushed := by
    unfold Pc.enterTarget
    split <;> exact id
  refine effect.pcDurable_of_pinned used conflicts notFlushed ?_
  intro undecided j below
  exact pinned undecided j (Nat.lt_of_lt_of_le below (Pc.pinnedBelow_enterTarget _ _))

/-- The flushed verdict stays flushed. -/
theorem PcDurable.verdict_after (facts : PcDurable pool shared d pc)
    (effect : Effect .persistent pool shared (.mwCAS d calldepth pc) after)
    (ok : PcOk .persistent pool shared d pc) (flushed : pc.VerdictFlushed) :
    after.DurableStatus d :=
  (facts.verdict flushed).after_effect effect (ok.decided_of_verdictFlushed flushed)

/-- From the verdict, or from one entry, on to the next entry of the last loop. -/
theorem PcDurable.enterFinal (facts : PcDurable pool shared d pc)
    (effect : Effect .persistent pool shared (.mwCAS d calldepth pc) after)
    (ok : PcOk .persistent pool shared d pc) (flushed : pc.VerdictFlushed) (i : Nat)
    (succeeded : Bool) :
    PcDurable pool after d (.enterFinal (shared.desc d) calldepth i succeeded) := by
  have durable := facts.verdict_after effect ok flushed
  rcases Pc.enterFinal_cases (shared.desc d) calldepth i succeeded with
    ⟨-, here⟩ | ⟨-, here⟩ | ⟨-, here⟩
  · rw [here]
    exact ⟨fun _ j impossible => absurd impossible (Nat.not_lt_zero j),
      (by intros; contradiction), (by intros; contradiction), fun _ => durable⟩
  · exact effect.pcDurable_of_nothing (by rw [here]; exact ⟨rfl, fun _ _ => ⟨by simp, by simp⟩, id⟩)
  · exact effect.pcDurable_of_nothing (by rw [here]; exact ⟨rfl, fun _ _ => ⟨by simp, by simp⟩, id⟩)

/-- A step between two points after the flush of the verdict. -/
theorem PcDurable.keeps_verdict (facts : PcDurable pool shared d pc)
    (effect : Effect .persistent pool shared (.mwCAS d calldepth pc) after)
    (ok : PcOk .persistent pool shared d pc) (flushed : pc.VerdictFlushed)
    (below : next.pinnedBelow (shared.desc d).count = 0)
    (conflicts : ∀ i rval, next ≠ .flushConflict i rval ∧ next ≠ .clearConflict i rval) :
    PcDurable pool after d next := by
  refine ⟨?_, fun i rval here => absurd here (conflicts i rval).1,
    fun i rval here => absurd here (conflicts i rval).2,
    fun _ => facts.verdict_after effect ok flushed⟩
  intro _ j impossible
  rw [effect.count_eq d, below] at impossible
  exact absurd impossible (Nat.not_lt_zero j)

/-- The first loop has met the pointer of another descriptor in its word. -/
theorem Effect.pcDurable_meetOther
    (effect : Effect .persistent pool shared (.mwCAS d calldepth pc) after)
    (descriptors : DescriptorsOk .persistent pool shared)
    (words : ∀ address, WordOk .persistent pool shared address (shared.mem address)) {i : Nat}
    {rval : Word} (met : shared.mem ((shared.desc d).words i).address = rval)
    (notConditional : rval.condcas = false) :
    PcDurable pool after d (.afterCondCAS .persistent pool d (shared.desc d) i rval) := by
  rcases Pc.afterCondCAS_cases d (shared.desc d) i rval with ⟨-, next⟩ |
    ⟨-, -, isPointer, next | next⟩ | ⟨-, -, next⟩
  · exact effect.pcDurable_of_nothing (by rw [next]; exact Pc.nothingDurable_enterInstall _ _)
  · rw [next]
    refine pcDurable_flushConflict ?_
    intro undecided
    have reference : MwRef pool shared ((shared.desc d).words i).address rval := by
      have here := (words ((shared.desc d).words i).address).value_or_mwRef
        (by rw [met]; exact Bool.eq_false_iff.mp notConditional)
      rw [met] at here
      rcases here with value | reference
      · rw [value.1] at isPointer
        cases isPointer
      · exact reference
    obtain ⟨pointer, k, lists⟩ := reference
    rw [effect.words_eq d]
    exact (effect.wordChange _).mwCASPtr_stays descriptors
      (effect.undecided_before lists.inUse undecided) (met.trans pointer)
  · exact effect.pcDurable_of_nothing (by rw [next]; exact ⟨rfl, fun _ _ => ⟨by simp, by simp⟩, id⟩)
  · exact effect.pcDurable_of_nothing (by rw [next]; exact ⟨rfl, fun _ _ => ⟨by simp, by simp⟩, id⟩)

/-- The first loop has resolved the `CondCAS` of another descriptor in its word. -/
theorem Effect.pcDurable_resolveOther {i : Nat} {ret desired : Word} {flag : Bool}
    (effect : Effect .persistent pool shared (.mwCAS d calldepth (.casResolve i ret desired flag))
      (stepMwCAS .persistent pool shared d calldepth (.casResolve i ret desired flag)).1)
    (descriptors : DescriptorsOk .persistent pool shared)
    (ok : PcOk .persistent pool shared d (.casResolve i ret desired flag))
    (met : shared.mem ((shared.desc d).words i).address = ret)
    (expected : desired =
      pool.mwCASPtr (pool.descriptorAt ret.rest) Build.persistent.dirtyFlag) :
    PcDurable pool (stepMwCAS .persistent pool shared d calldepth (.casResolve i ret desired flag)).1 d
      (.afterCondCAS .persistent pool d (shared.desc d) i
        (pool.mwCASPtr (pool.descriptorAt ret.rest) Build.persistent.dirtyFlag)) := by
  subst expected
  obtain ⟨inside, reference, decided⟩ := ok
  rcases Pc.afterCondCAS_cases d (shared.desc d) i
    (pool.mwCASPtr (pool.descriptorAt ret.rest) Build.persistent.dirtyFlag) with ⟨-, next⟩ |
    ⟨-, -, -, next | next⟩ | ⟨-, impossible, -⟩
  · exact effect.pcDurable_of_nothing (by rw [next]; exact Pc.nothingDurable_enterInstall _ _)
  · rw [next]
    refine pcDurable_flushConflict ?_
    rw [Pool.mwCASPtr_rest, Pool.descriptorAt_descriptorAddress, effect.words_eq d]
    intro undecided
    have before := effect.undecided_before reference.2.inUse undecided
    have promoted : flag = true := by
      cases flag with
      | true => rfl
      | false => exact absurd before (decided rfl).ne_undecided
    subst promoted
    refine ⟨true, ?_⟩
    simp only [stepMwCAS, reference.word,
      reference.descriptorPtr Build.persistent.dirtyFlag descriptors, if_true]
    exact Shared.compareExchange64_mem_of_eq met
  · exact effect.pcDurable_of_nothing (by rw [next]; exact ⟨rfl, fun _ _ => ⟨by simp, by simp⟩, id⟩)
  · cases impossible

end AfterStep

/-- What a frame relies on after its own step. -/
theorem Pc.Next.pcDurable {shared : Shared} {d calldepth : Nat} {pc next : Pc}
    (edge : Pc.Next .persistent pool shared d calldepth pc next)
    (descriptors : DescriptorsOk .persistent pool shared)
    (words : ∀ address, WordOk .persistent pool shared address (shared.mem address))
    (ok : FrameOk .persistent pool shared (.mwCAS d calldepth pc))
    (effect : Effect .persistent pool shared (.mwCAS d calldepth pc)
      (stepMwCAS .persistent pool shared d calldepth pc).1)
    (clean : ∀ e address, shared.code e = .undecided →
      shared.mem address = pool.mwCASPtr e false → shared.Pinned pool e address)
    (installed : PcInstalled pool shared d pc) (facts : PcDurable pool shared d pc) :
    PcDurable pool (stepMwCAS .persistent pool shared d calldepth pc).1 d next := by
  obtain ⟨used, pcOk⟩ := ok
  have earlier : shared.code d = .undecided → ∀ j, j < pc.pinnedBelow (shared.desc d).count →
      (stepMwCAS .persistent pool shared d calldepth pc).1.Pinned pool d
        ((shared.desc d).words j).address :=
    fun undecided _ below => facts.pinned_after effect descriptors undecided below
  cases edge with
  | start | clearOldStatus | casOwn =>
    exact effect.pcDurable_of_nothing (Pc.nothingDurable_enterInstall _ _)
  | meetOther met notConditional => exact effect.pcDurable_meetOther descriptors words met notConditional
  | resolveOther met expected => exact effect.pcDurable_resolveOther descriptors pcOk met expected
  | flushConflict i rval =>
    refine ⟨fun _ j impossible => absurd impossible (Nat.not_lt_zero j),
      (by intros; contradiction), ?_, False.elim⟩
    rintro k other same undecided
    cases same
    obtain ⟨dirty, pointer⟩ := facts.conflict i rval rfl undecided
    refine ⟨⟨dirty, pointer⟩, dirty, ?_⟩
    exact (Function.update_self _ _ _).trans pointer
  | targetDirty i met =>
    exact effect.pcDurable_of_pinned used (fun _ _ => ⟨by simp, by simp⟩) id earlier
  | targetClean i met =>
    refine effect.pcDurable_enterTarget used ?_
    intro undecided j below
    rcases Nat.lt_succ_iff_lt_or_eq.mp below with before | rfl
    · exact earlier undecided j before
    · obtain ⟨dirty, pointer⟩ := installed.below undecided j pcOk.1
      cases dirty with
      | true => exact absurd pointer met
      | false => exact (clean d _ undecided pointer).after_effect effect descriptors undecided
  | flushTarget i =>
    refine effect.pcDurable_of_pinned used (fun _ _ => ⟨by simp, by simp⟩) id ?_
    intro undecided j below
    rcases Nat.lt_succ_iff_lt_or_eq.mp below with before | rfl
    · exact earlier undecided j before
    · obtain ⟨dirty, pointer⟩ := installed.below undecided j pcOk.1
      refine ⟨⟨dirty, pointer⟩, dirty, ?_⟩
      exact (Function.update_self _ _ _).trans pointer
  | clearTarget i => exact effect.pcDurable_enterTarget used earlier
  | persistStatus =>
    refine ⟨fun _ j impossible => absurd impossible (Nat.not_lt_zero j),
      (by intros; contradiction), (by intros; contradiction), fun _ => ?_⟩
    have flushed : (stepMwCAS .persistent pool shared d calldepth .persistStatus).1.nvDesc d =
        { shared.nvDesc d with status := (shared.desc d).status } := Function.update_self _ _ _
    unfold Shared.DurableStatus
    rw [flushed]
    rfl
  | loadForClear | storeClear | finalClean | finalOther | finalRetry | finalFlush =>
    exact facts.keeps_verdict effect pcOk trivial rfl fun _ _ => ⟨by simp, by simp⟩
  | loadVerdict | finalClear => exact facts.enterFinal effect pcOk trivial _ _
  | finalVolatile _ _ impossible | decideVolatile _ impossible | bailOwner impossible
  | bailHelper impossible => cases impossible
  | _ => exact effect.pcDurable_of_nothing ⟨rfl, fun _ _ => ⟨by simp, by simp⟩, id⟩

theorem ReadPc.afterClean_ne (val other : Word) :
    ReadPc.afterClean val ≠ .flush other ∧ ReadPc.afterClean val ≠ .clear other := by
  unfold ReadPc.afterClean
  split
  · exact ⟨nofun, nofun⟩
  · split
    · split <;> exact ⟨nofun, nofun⟩
    · split <;> exact ⟨nofun, nofun⟩

theorem ReadPc.afterLoad_ne_clear (val other : Word) :
    ReadPc.afterLoad .persistent val ≠ .clear other := by
  unfold ReadPc.afterLoad
  split
  · split <;> exact nofun
  · simp only
    split
    · exact nofun
    · exact (ReadPc.afterClean_ne val other).2

theorem ReadPc.eq_of_afterLoad_flush {val other : Word}
    (flushes : ReadPc.afterLoad .persistent val = .flush other) :
    other = val ∧ val.condcas = false := by
  unfold ReadPc.afterLoad at flushes
  split at flushes
  · split at flushes <;> cases flushes
  · rename_i notConditional
    simp only at flushes
    split at flushes
    · cases flushes
      exact ⟨rfl, Bool.eq_false_iff.mpr notConditional⟩
    · exact absurd flushes (ReadPc.afterClean_ne val other).1

theorem readPcDurable_of_ne {shared : Shared} {address : Nat} {pc : ReadPc}
    (neither : ∀ val, pc ≠ .flush val ∧ pc ≠ .clear val) : ReadPcDurable pool shared address pc :=
  ⟨fun val here => absurd here (neither val).1, fun val here => absurd here (neither val).2⟩

/-- What the frames of a step rely on after it. -/
theorem Frame.Moves.durable {shared : Shared} {frame : Frame} {move : Move}
    (moves : Frame.Moves .persistent pool shared frame move)
    (descriptors : DescriptorsOk .persistent pool shared)
    (words : ∀ address, WordOk .persistent pool shared address (shared.mem address))
    (ok : FrameOk .persistent pool shared frame)
    (effect : Effect .persistent pool shared frame (frame.step .persistent pool shared).1)
    (clean : ∀ e address, shared.code e = .undecided →
      shared.mem address = pool.mwCASPtr e false → shared.Pinned pool e address)
    (installed : FrameInstalled pool shared frame) (facts : FrameDurable pool shared frame) :
    move.All (FrameDurable pool (frame.step .persistent pool shared).1) := by
  have started : ∀ e, PcDurable pool (frame.step .persistent pool shared).1 e .loadStatus :=
    fun e => pcDurable_of_nothing ⟨rfl, fun _ _ => ⟨nofun, nofun⟩, id⟩
  cases moves with
  | mwCAS moves =>
    cases moves with
    | goto edge => exact edge.pcDurable descriptors words ok effect clean installed facts
    | help i rval =>
      exact ⟨pcDurable_of_nothing ⟨rfl, fun _ _ => ⟨nofun, nofun⟩, id⟩, started _⟩
    | ret => trivial
  | @getValue address pc _ moves =>
    cases moves with
    | load =>
      refine ⟨?_, fun val here => absurd here (ReadPc.afterLoad_ne_clear _ val)⟩
      intro val here isPointer _
      obtain ⟨rfl, notConditional⟩ := ReadPc.eq_of_afterLoad_flush here
      rcases (words address).value_or_mwRef (Bool.eq_false_iff.mp notConditional) with
        value | reference
      · rw [value.1] at isPointer
        cases isPointer
      · exact ⟨_, reference.1⟩
    | loadStatus | casCond => exact readPcDurable_of_ne fun _ => ⟨nofun, nofun⟩
    | flush val =>
      refine ⟨nofun, ?_⟩
      rintro other same isPointer undecided
      cases same
      obtain ⟨dirty, pointer⟩ := facts.conflict val rfl isPointer undecided
      exact ⟨⟨dirty, pointer⟩, dirty, (Function.update_self _ _ _).trans pointer⟩
    | clear val => exact readPcDurable_of_ne fun other => ReadPc.afterClean_ne _ other
    | help val => exact ⟨readPcDurable_of_ne fun _ => ⟨nofun, nofun⟩, started _⟩
    | ret => trivial

/-- A frame that clears the dirty bit of a pointer has flushed the pointer before. -/
theorem FrameDurable.pinned_of_clears {shared : Shared} {frame : Frame} {d address : Nat}
    (facts : FrameDurable pool shared frame) (ok : FrameOk .persistent pool shared frame)
    (descriptors : DescriptorsOk .persistent pool shared)
    (clears : frame.Clears pool shared address (pool.mwCASPtr d true))
    (undecided : shared.code d = .undecided) : shared.Pinned pool d address := by
  have decodes : pool.descriptorAt (pool.mwCASPtr d true).rest = d := by
    rw [Pool.mwCASPtr_rest, Pool.descriptorAt_descriptorAddress]
  cases frame with
  | mwCAS own calldepth pc =>
    cases pc with
    | clearConflict i rval =>
      obtain ⟨rfl, rfl⟩ := clears
      have flushed := facts.flushed i _ rfl
      rw [decodes] at flushed
      exact flushed undecided
    | clearTarget i =>
      obtain ⟨rfl, same⟩ := clears
      obtain ⟨rfl, -⟩ := pool.mwCASPtr_inj same
      exact facts.below undecided i (Nat.lt_succ_self i)
    | finalClear i succeeded =>
      obtain ⟨-, same⟩ := clears
      have plain := (descriptors.entries own ok.1).finalValue_mwcas ok.2.1 succeeded
      have flag : true = (((shared.desc own).words i).finalValue succeeded).mwcas :=
        congrArg Word.mwcas same
      rw [plain] at flag
      cases flag
    | _ => exact clears.elim
  | getValue own pc =>
    cases pc with
    | clear val =>
      obtain ⟨rfl, rfl⟩ := clears
      have flushed := facts.flushed _ rfl rfl
      rw [decodes] at flushed
      exact flushed undecided
    | _ => exact clears.elim

/-! ### Steps -/

namespace ThreadStep

variable {before after : State} {t : Nat} {frame : Frame} {rest : List Frame} {move : Move}
  (step : ThreadStep .persistent pool before t frame rest move after)

include step

theorem durable_entries (durable : before.Durable pool) (d : Nat) (used : after.shared.InUse d) :
    after.shared.DurableEntries d ∨
      ∃ u pc, .mwCAS d 0 pc ∈ after.threads u ∧ (pc = .checkUndecided ∨ pc = .flushDescriptor) := by
  rcases durable.entries d ((step.effect.inUse_iff d).mp used) with entries |
    ⟨u, pc, member, private_⟩
  · exact Or.inl (entries.after_effect step.effect)
  · rcases step.mem_before member with ⟨rfl, rfl⟩ | kept
    · rcases private_ with rfl | rfl
      · refine Or.inr ⟨u, .flushDescriptor, ?_, Or.inr rfl⟩
        cases step.moves with
        | mwCAS moves =>
          cases moves with
          | goto edge =>
            cases edge
            exact step.mem_moved (List.mem_singleton_self _)
      · have flushed : after.shared.nvDesc d = after.shared.desc d := by
          rw [step.shared]
          exact Function.update_self _ _ _
        exact Or.inl ⟨by rw [flushed], by rw [flushed]⟩
    · exact Or.inr ⟨u, pc, kept, private_⟩

variable (invariant : Invariant .persistent pool before) (durable : before.Durable pool)

include invariant durable

theorem durable_clean (d address : Nat) (undecided : after.shared.code d = .undecided)
    (pointer : after.shared.mem address = pool.mwCASPtr d false) :
    after.shared.Pinned pool d address := by
  have change := step.effect.wordChange address
  rw [pointer] at change
  have ok := invariant.frames t frame step.mem_top
  have facts := durable.frames t frame step.mem_top
  generalize found : pool.mwCASPtr d false = word at change
  cases change with
  | same =>
    have reference : MwRef pool before.shared address (pool.mwCASPtr d false) := by
      rw [found]
      refine ((invariant.words address).value_or_mwRef ?_).resolve_left ?_
      · rw [← found]
        exact nofun
      · rw [← found]
        exact pool.mwCASPtr_not_isValue d false
    obtain ⟨-, i, lists⟩ := reference
    rw [Pool.mwCASPtr_rest, Pool.descriptorAt_descriptorAddress] at lists
    have undecidedBefore := step.effect.undecided_before lists.inUse undecided
    exact (durable.clean d address undecidedBefore found.symm).after_effect step.effect
      invariant.descriptors undecidedBefore
  | install => exact absurd found (pool.mwCASPtr_ne_condCASPtr _ _ _ _)
  | promote => cases (pool.mwCASPtr_inj found).2
  | revert lists holds decided =>
    have plain := (Word.isCleanPtr_iff _).mp
      ((invariant.descriptors.entries _ lists.inUse).oldValue _ lists.inside)
    rw [← found] at plain
    cases plain.1
  | clearDirty wasDirty clears =>
    have pointerBefore : before.shared.mem address = pool.mwCASPtr d true := by
      have flags : before.shared.mem address = (before.shared.mem address).clearDirty.setDirty :=
        Word.ext rfl rfl wasDirty rfl
      rw [flags, ← found]
      rfl
    have reference := ((invariant.words address).value_or_mwRef
      (by rw [pointerBefore]; exact nofun)).resolve_left
      (by rw [pointerBefore]; exact pool.mwCASPtr_not_isValue d true)
    obtain ⟨-, i, lists⟩ := reference
    rw [pointerBefore, Pool.mwCASPtr_rest, Pool.descriptorAt_descriptorAddress] at lists
    rw [pointerBefore] at clears
    have undecidedBefore := step.effect.undecided_before lists.inUse undecided
    exact (facts.pinned_of_clears ok invariant.descriptors clears undecidedBefore).after_effect
      step.effect invariant.descriptors undecidedBefore
  | @finalise e i wasDirty succeeded lists holds verdict finalises =>
    have plain := (invariant.descriptors.entries _ lists.inUse).finalValue_mwcas lists.inside
      succeeded
    have flag : true = (((before.shared.desc e).words i).finalValue succeeded).mwcas :=
      congrArg Word.mwcas found
    rw [plain] at flag
    cases flag

theorem durable_frames (installed : before.Installed pool) (u : Nat) (other : Frame)
    (member : other ∈ after.threads u) : FrameDurable pool after.shared other := by
  rcases step.mem_after member with ⟨rfl, new⟩ | ⟨old, -⟩
  · have effect := step.effect
    rw [step.shared] at effect ⊢
    exact (step.moves.durable invariant.descriptors invariant.words
      (invariant.frames u frame step.mem_top) effect durable.clean
      (installed u frame step.mem_top) (durable.frames u frame step.mem_top)).of_mem new
  · exact (durable.frames u other old).after_effect step.effect invariant.descriptors
      (invariant.frames u other old)

end ThreadStep

/-- Write-backs keep what the frames rely on: they write what is in memory. -/
theorem State.Durable.writeBack {state after : State} (durable : state.Durable pool)
    (threads : after.threads = state.threads) (mem : after.shared.mem = state.shared.mem)
    (desc : after.shared.desc = state.shared.desc)
    (nvm : ∀ address, after.shared.nvm address = state.shared.nvm address ∨
      after.shared.nvm address = state.shared.mem address)
    (entries : ∀ d, state.shared.DurableEntries d → after.shared.DurableEntries d)
    (status : ∀ d, state.shared.DurableStatus d → after.shared.DurableStatus d) :
    after.Durable pool := by
  have code : ∀ d, after.shared.code d = state.shared.code d := by
    intro d
    rw [Shared.code, desc]
    rfl
  have used : ∀ d, after.shared.InUse d → state.shared.InUse d := by
    intro d inUse
    unfold Shared.InUse at inUse ⊢
    rwa [code d] at inUse
  have pinned : ∀ {d address : Nat}, state.shared.Pinned pool d address →
      after.shared.Pinned pool d address := by
    intro d address pinned
    refine ⟨by rw [mem]; exact pinned.mem, ?_⟩
    rcases nvm address with same | written
    · rw [same]
      exact pinned.nvm
    · rw [written]
      exact pinned.mem
  refine ⟨?_, ?_, ?_⟩
  · intro d inUse
    rw [threads]
    rcases durable.entries d (used d inUse) with holds | owner
    · exact Or.inl (entries d holds)
    · exact Or.inr owner
  · intro d address undecided pointer
    rw [code d] at undecided
    rw [mem] at pointer
    exact pinned (durable.clean d address undecided pointer)
  · intro t frame member
    rw [threads] at member
    have facts := durable.frames t frame member
    cases frame with
    | mwCAS d calldepth pc =>
      refine ⟨?_, ?_, ?_, fun flushed => status d (facts.verdict flushed)⟩
      · intro undecided j below
        rw [code d] at undecided
        rw [desc] at below ⊢
        exact pinned (facts.below undecided j below)
      · intro i rval here undecided
        rw [code] at undecided
        rw [mem, desc]
        exact facts.conflict i rval here undecided
      · intro i rval here undecided
        rw [code] at undecided
        rw [desc]
        exact pinned (facts.flushed i rval here undecided)
    | getValue address pc =>
      refine ⟨?_, ?_⟩
      · intro val here isPointer undecided
        rw [code] at undecided
        rw [mem]
        exact facts.conflict val here isPointer undecided
      · intro val here isPointer undecided
        rw [code] at undecided
        exact pinned (facts.flushed val here isPointer undecided)

/-- What a frame relies on depends on the descriptors it works with. -/
theorem FrameDurable.of_desc_eq {earlier later : Shared} {frame : Frame}
    (facts : FrameDurable pool earlier frame)
    (mem : later.mem = earlier.mem) (nvm : later.nvm = earlier.nvm)
    (nvDesc : later.nvDesc = earlier.nvDesc)
    (desc : ∀ d, frame.Uses pool d → later.desc d = earlier.desc d) :
    FrameDurable pool later frame := by
  have code : ∀ {d : Nat}, frame.Uses pool d → later.code d = earlier.code d := by
    intro d uses
    rw [Shared.code, desc d uses]
    rfl
  have pinned : ∀ {d address : Nat}, earlier.Pinned pool d address →
      later.Pinned pool d address := by
    intro d address pinned
    exact ⟨by rw [mem]; exact pinned.mem, by rw [nvm]; exact pinned.nvm⟩
  cases frame with
  | mwCAS d calldepth pc =>
    have own : (Frame.mwCAS d calldepth pc).Uses pool d := Or.inl rfl
    refine ⟨?_, ?_, ?_, ?_⟩
    · intro undecided j below
      rw [code own] at undecided
      rw [desc d own] at below ⊢
      exact pinned (facts.below undecided j below)
    · rintro i rval rfl undecided
      rw [code (Or.inr rfl)] at undecided
      rw [mem, desc d own]
      exact facts.conflict i rval rfl undecided
    · rintro i rval rfl undecided
      rw [code (Or.inr rfl)] at undecided
      rw [desc d own]
      exact pinned (facts.flushed i rval rfl undecided)
    · intro flushed
      have before := facts.verdict flushed
      unfold Shared.DurableStatus at before ⊢
      rw [nvDesc, code own]
      exact before
  | getValue address pc =>
    refine ⟨?_, ?_⟩
    · rintro val rfl isPointer undecided
      rw [code ⟨isPointer, rfl⟩] at undecided
      rw [mem]
      exact facts.conflict val rfl isPointer undecided
    · rintro val rfl isPointer undecided
      rw [code ⟨isPointer, rfl⟩] at undecided
      exact pinned (facts.flushed val rfl isPointer undecided)

theorem Shared.DurableEntries.writeBackField {state : State} {d : Nat} (e : Nat) (field : Field)
    (durable : state.shared.DurableEntries d) :
    (state.writeBackField e field).shared.DurableEntries d := by
  by_cases same : d = e
  · subst same
    have written : (state.writeBackField d field).shared.nvDesc d =
        (state.shared.desc d).copyField (state.shared.nvDesc d) field := Function.update_self _ _ _
    refine ⟨?_, ?_⟩
    · rw [written]
      cases field with
      | count => rfl
      | _ => exact durable.count
    · rw [written]
      cases field with
      | status | count => exact durable.words
      | _ =>
        simp only [Descriptor.copyField, Descriptor.setWord, durable.words]
        exact Function.update_eq_self _ _
  · have kept : (state.writeBackField e field).shared.nvDesc d = state.shared.nvDesc d :=
      Function.update_of_ne same _ _
    exact ⟨by rw [kept]; exact durable.count, by rw [kept]; exact durable.words⟩

theorem Shared.DurableStatus.writeBackField {state : State} {d : Nat} (e : Nat) (field : Field)
    (durable : state.shared.DurableStatus d) :
    (state.writeBackField e field).shared.DurableStatus d := by
  unfold Shared.DurableStatus
  by_cases same : d = e
  · subst same
    have written : (state.writeBackField d field).shared.nvDesc d =
        (state.shared.desc d).copyField (state.shared.nvDesc d) field := Function.update_self _ _ _
    rw [written]
    cases field with
    | status => rfl
    | _ => exact durable
  · have kept : (state.writeBackField e field).shared.nvDesc d = state.shared.nvDesc d :=
      Function.update_of_ne same _ _
    rw [kept]
    exact durable

theorem State.Durable.beginMwCAS {state : State} {t d : Nat} {filled : Descriptor}
    (durable : state.Durable pool) (invariant : Invariant .persistent pool state)
    (idle : state.threads t = []) (free : (state.shared.desc d).status = .of .finished) :
    (state.beginMwCAS .persistent t d filled).Durable pool := by
  have unused := Shared.not_inUse_of_finished free
  have kept : ∀ {e : Nat}, e ≠ d →
      (state.beginMwCAS .persistent t d filled).shared.desc e = state.shared.desc e :=
    State.beginMwCAS_desc_of_ne
  have members : ∀ {u : Nat} {other : Frame},
      other ∈ (state.beginMwCAS .persistent t d filled).threads u ↔
        (u = t ∧ other = .mwCAS d 0 .checkUndecided) ∨ other ∈ state.threads u :=
    mem_update_of_idle idle
  refine ⟨?_, ?_, ?_⟩
  · intro e used
    by_cases same : e = d
    · subst same
      exact Or.inr ⟨t, .checkUndecided, members.mpr (Or.inl ⟨rfl, rfl⟩), Or.inl rfl⟩
    · rcases durable.entries e ((Shared.LaterAt.of_desc_eq (kept same).symm).inUse used) with
        entries | ⟨u, pc, member, private_⟩
      · exact Or.inl ⟨by rw [kept same]; exact entries.count, by rw [kept same]; exact entries.words⟩
      · exact Or.inr ⟨u, pc, members.mpr (Or.inr member), private_⟩
  · intro e address undecided pointer
    have different : e ≠ d := by
      rintro rfl
      obtain ⟨u, frame, member, uses⟩ := invariant.exists_uses
        (show (state.shared.mem address).PointsTo pool e from Or.inl ⟨false, pointer⟩)
      exact unused ((invariant.frames u frame member).inUse_of_uses uses)
    rw [Shared.code, kept different] at undecided
    have pinned := durable.clean e address undecided pointer
    exact ⟨pinned.mem, pinned.nvm⟩
  · intro u other member
    rcases members.mp member with ⟨-, rfl⟩ | old
    · exact pcDurable_of_nothing ⟨rfl, fun _ _ => ⟨(by rintro ⟨⟩), (by rintro ⟨⟩)⟩, id⟩
    · refine (durable.frames u other old).of_desc_eq rfl rfl rfl fun e uses => kept ?_
      rintro rfl
      exact unused ((invariant.frames u other old).inUse_of_uses uses)

theorem State.Durable.beginGetValue {state : State} {t address : Nat}
    (durable : state.Durable pool) (idle : state.threads t = []) :
    (state.beginGetValue t address).Durable pool := by
  refine ⟨?_, durable.clean, ?_⟩
  · intro d used
    rcases durable.entries d used with entries | ⟨u, pc, member, private_⟩
    · exact Or.inl entries
    · exact Or.inr ⟨u, pc, (mem_update_of_idle idle).mpr (Or.inr member), private_⟩
  · intro u other member
    rcases (mem_update_of_idle idle).mp member with ⟨-, rfl⟩ | old
    · exact readPcDurable_of_ne fun _ => ⟨nofun, nofun⟩
    · exact durable.frames u other old

theorem State.Durable.recycle {state : State} {d : Nat} (durable : state.Durable pool)
    (unused : state.Unused pool d) : (state.recycle d).Durable pool := by
  have kept : ∀ {e : Nat}, e ≠ d → (state.recycle d).shared.desc e = state.shared.desc e :=
    State.recycle_desc_of_ne
  refine ⟨?_, ?_, ?_⟩
  · intro e used
    have different : e ≠ d := by
      rintro rfl
      exact State.recycle_not_inUse used
    rcases durable.entries e ((Shared.LaterAt.of_desc_eq (kept different).symm).inUse used) with
      entries | owner
    · exact Or.inl ⟨by rw [kept different]; exact entries.count,
        by rw [kept different]; exact entries.words⟩
    · exact Or.inr owner
  · intro e address undecided pointer
    have different : e ≠ d := by
      rintro rfl
      exact State.recycle_not_inUse (Or.inl undecided)
    rw [Shared.code, kept different] at undecided
    have pinned := durable.clean e address undecided pointer
    exact ⟨pinned.mem, pinned.nvm⟩
  · intro u other member
    refine (durable.frames u other member).of_desc_eq rfl rfl rfl fun e uses => kept ?_
    rintro rfl
    exact unused u other member uses

theorem State.Durable.step {before after : State} {action : Action}
    (durable : before.Durable pool) (invariant : Invariant .persistent pool before)
    (installed : before.Installed pool) (recycles : RecyclesUnused pool before action)
    (step : Step .persistent pool before action after) : after.Durable pool := by
  cases step with
  | step performed =>
    obtain ⟨frame, rest, move, step⟩ := invariant.threadStep performed
    exact ⟨step.durable_entries durable, step.durable_clean invariant durable,
      step.durable_frames invariant durable installed⟩
  | mwCAS idle inside free valid added => exact durable.beginMwCAS invariant idle free
  | getValue idle => exact durable.beginGetValue idle
  | writeBack address =>
    refine durable.writeBack rfl rfl rfl ?_ (fun _ entries => ⟨entries.count, entries.words⟩)
      fun _ status => status
    intro other
    by_cases same : other = address
    · subst same
      exact Or.inr (Function.update_self _ _ _)
    · exact Or.inl (Function.update_of_ne same _ _)
  | writeBackField d field =>
    exact durable.writeBack rfl rfl rfl (fun _ => Or.inl rfl)
      (fun _ entries => entries.writeBackField d field) fun _ status => status.writeBackField d field
  | recycle pushed => exact durable.recycle (recycles _ rfl)

/-! ### Runs -/

theorem durable_of_run (run : Run (system .persistent pool))
    (recycles : run.Meets (RecyclesUnused pool)) (meets : run.Meets (NoBareAddress .persistent pool))
    (index : Nat) (inside : index ≤ run.length) : (run.state index).Durable pool := by
  have all := run.invariant_between
    (fun state action => RecyclesUnused pool state action ∧
      NoBareAddress .persistent pool state action)
    (fun state => (Invariant .persistent pool state ∧ state.Installed pool) ∧ state.Durable pool)
    (Nat.zero_le index) inside
    (fun earlier _ below => recycles.and meets earlier (Nat.lt_of_lt_of_le below inside))
    ⟨⟨Initial.invariant run.starts, installed_of_run run recycles meets 0 (Nat.zero_le _)⟩, ?_⟩
    (fun _ _ _ all allowed step => ⟨⟨all.1.1.step allowed.1 step,
      all.1.2.step all.1.1 allowed.1 allowed.2 step⟩, all.2.step all.1.1 all.1.2 allowed.1 step⟩)
  · exact all.2
  · have unused : ∀ d, ¬ (run.state 0).shared.InUse d := by
      intro d
      refine Shared.not_inUse_of_finished ?_
      rw [Initial.fresh run.starts d]
      rfl
    refine ⟨fun d used => absurd used (unused d), ?_, ?_⟩
    · intro d address undecided
      exact absurd (Or.inl undecided) (unused d)
    · intro t frame member
      rw [Initial.idle run.starts t] at member
      cases member

/-- The write-ahead order at one step. When operation `d` succeeds, its pointers and its entries are
durable. When its MwCAS pointer is taken out of a word, its verdict is durable and the value that
takes the place of the pointer is the one of the durable verdict: the new value only if that is
Succeeded. -/
structure WriteAhead (pool : Pool) (before after : Shared) : Prop where
  succeeds : ∀ d, before.code d = .undecided → after.code d = .succeeded →
    (∀ i, i < (before.desc d).count →
      ∃ dirty, before.nvm ((before.desc d).words i).address = pool.mwCASPtr d dirty) ∧
    before.DurableEntries d
  replaces : ∀ d i dirty, i < (before.desc d).count →
    before.mem ((before.desc d).words i).address = pool.mwCASPtr d dirty →
    (∀ dirty, after.mem ((before.desc d).words i).address ≠ pool.mwCASPtr d dirty) →
    (before.nvDesc d).status.code.Decided ∧
      (after.mem ((before.desc d).words i).address).clearDirty =
        ((before.desc d).words i).finalValue ((before.nvDesc d).status.code == .succeeded)

theorem ThreadStep.writeAhead {before after : State} {t : Nat} {frame : Frame} {rest : List Frame}
    {move : Move} (step : ThreadStep .persistent pool before t frame rest move after)
    (invariant : Invariant .persistent pool before) (durable : before.Durable pool) :
    WriteAhead pool before.shared after.shared := by
  have facts := durable.frames t frame step.mem_top
  refine ⟨?_, ?_⟩
  · intro d undecided succeeded
    rcases step.effect.code_cases d with same | ⟨-, -, calldepth, rfl⟩
    · rw [same, undecided] at succeeded
      cases succeeded
    · refine ⟨?_, ?_⟩
      · intro i inside
        refine (facts.below undecided i ?_).nvm
        rw [succeeded]
        exact inside
      · rcases durable.entries d (Or.inl undecided) with entries | ⟨u, pc, member, private_⟩
        · exact entries
        · have alone : pc.Private := by
            rcases private_ with rfl | rfl <;> trivial
          obtain ⟨-, same⟩ := (invariant.alone u d pc member alone).2 t _ step.mem_top (Or.inl rfl)
          cases same
          rcases private_ with impossible | impossible <;> cases impossible
  · intro d i dirty inside pointer gone
    have change := step.effect.wordChange ((before.shared.desc d).words i).address
    generalize after.shared.mem ((before.shared.desc d).words i).address = word at change gone
    cases change with
    | same => exact absurd pointer (gone dirty)
    | install lists holds here =>
      have plain := (Word.isCleanPtr_iff _).mp
        ((invariant.descriptors.entries _ lists.inUse).oldValue _ lists.inside)
      rw [← holds, pointer] at plain
      cases plain.1
    | promote lists holds promotes =>
      exact absurd (pointer.symm.trans holds) (pool.mwCASPtr_ne_condCASPtr _ _ _ _)
    | revert lists holds decided =>
      exact absurd (pointer.symm.trans holds) (pool.mwCASPtr_ne_condCASPtr _ _ _ _)
    | clearDirty wasDirty clears =>
      rw [pointer] at gone
      exact absurd rfl (gone false)
    | @finalise e j wasDirty succeeded lists holds verdict finalises =>
      obtain ⟨rfl, -⟩ := pool.mwCASPtr_inj (pointer.symm.trans holds)
      have entries := invariant.descriptors.entries d lists.inUse
      have same : j = i := entries.eq_of_address_eq lists.inside inside lists.address_eq
      subst same
      have status : before.shared.DurableStatus d := by
        cases frame with
        | mwCAS own calldepth pc =>
          cases pc with
          | finalCAS k flag =>
            obtain ⟨rfl, -, -⟩ := finalises
            exact facts.verdict trivial
          | finalRetry k flag =>
            obtain ⟨rfl, -, -⟩ := finalises
            exact facts.verdict trivial
          | _ => exact finalises.elim
        | getValue address pc => exact finalises.elim
      have code : (before.shared.nvDesc d).status.code = before.shared.code d := status
      refine ⟨?_, ?_⟩
      · rw [code]
        exact verdict.settled.decided
      · rw [code, verdict.beq_succeeded, Word.clearDirty_withDirty]
        exact Word.clearDirty_of_isCleanPtr (entries.finalValue_clean inside succeeded)

/-- In every run of the persistent build without bare addresses that recycles no descriptor in use
every step keeps the write-ahead order. -/
theorem writeAhead_of_run (run : Run (system .persistent pool))
    (recycles : run.Meets (RecyclesUnused pool)) (meets : run.Meets (NoBareAddress .persistent pool))
    (index : Nat) (inside : index < run.length) :
    WriteAhead pool (run.state index).shared (run.state (index + 1)).shared := by
  have invariant := invariant_of_run run recycles index (Nat.le_of_lt inside)
  have durable := durable_of_run run recycles meets index (Nat.le_of_lt inside)
  have step : Step .persistent pool (run.state index) (run.action index) (run.state (index + 1)) :=
    run.steps index inside
  generalize run.state index = before at invariant durable step ⊢
  generalize run.state (index + 1) = after at step ⊢
  generalize run.action index = action at step
  have quiet : ∀ {later : State}, later.shared.mem = before.shared.mem →
      (∀ d, before.shared.code d = .undecided → later.shared.code d ≠ .succeeded) →
      WriteAhead pool before.shared later.shared := by
    intro later mem code
    refine ⟨fun d undecided succeeded => absurd succeeded (code d undecided), ?_⟩
    intro d i dirty _ pointer gone
    rw [mem] at gone
    exact absurd pointer (gone dirty)
  have sameCode : ∀ {code : StatusCode}, code = .undecided → code ≠ .succeeded := by
    rintro code rfl
    decide
  cases step with
  | step performed =>
    obtain ⟨frame, rest, move, step⟩ := invariant.threadStep performed
    exact step.writeAhead invariant durable
  | @mwCAS t d requests filled idle insidePool free valid added =>
    refine quiet rfl ?_
    intro e undecided
    by_cases same : e = d
    · subst same
      rw [State.beginMwCAS_code_self]
      decide
    · rw [Shared.code, State.beginMwCAS_desc_of_ne same]
      exact sameCode undecided
  | getValue | writeBack | writeBackField => exact quiet rfl fun d undecided => sameCode undecided
  | @recycle d pushed =>
    refine quiet rfl ?_
    intro e undecided
    by_cases same : e = d
    · subst same
      rw [Shared.code, State.recycle_desc_self]
      decide
    · rw [Shared.code, State.recycle_desc_of_ne same]
      exact sameCode undecided

/-- The step of an operation on one word that makes it succeed. -/
theorem writeAhead_of_run_single : ∃ run : Run (system .persistent .small),
    run.Meets (RecyclesUnused .small) ∧ run.Meets (NoBareAddress .persistent .small) ∧
      10 < run.length ∧
      (run.state 10).shared.code 0 = .undecided ∧ (run.state 11).shared.code 0 = .succeeded ∧
      WriteAhead .small (run.state 10).shared (run.state 11).shared := by
  obtain ⟨run, length, states, acts, passes⟩ := State.exists_solo_run .persistent .small
    (fun _ => .plain 1) (fun _ => rfl) [.change 8 1 2] 25
    (fun shared frame => frame.avoidsBareAddress .small shared) (by decide +kernel)
    (by decide +kernel)
  have recycles : run.Meets (RecyclesUnused .small) := recyclesUnused_of_actions acts (by decide)
  have meets : run.Meets (NoBareAddress .persistent .small) := by
    intro index inside t acts frame rest stack
    exact Frame.noBareAddress_of_test (passes index inside t acts frame rest stack)
  have before := holds_of_replay (fun state => state.shared.code 0 = .undecided) (states 10)
    (by decide +kernel)
  have after := holds_of_replay (fun state => state.shared.code 0 = .succeeded) (states 11)
    (by decide +kernel)
  exact ⟨run, recycles, meets, by rw [length]; decide, of_decide_eq_true before,
    of_decide_eq_true after, writeAhead_of_run run recycles meets 10 (by rw [length]; decide)⟩

/-- A word that holds the number 4096, the address of descriptor 0, where the operation expects
1. The operation takes it for its own pointer, flushes nothing and succeeds. -/
theorem exists_success_without_pointer : ∃ run : Run (system .persistent .small),
    run.Meets (RecyclesUnused .small) ∧ ∃ index, index < run.length ∧
      ¬ WriteAhead .small (run.state index).shared (run.state (index + 1)).shared := by
  obtain ⟨run, length, states, acts⟩ := State.exists_run .persistent .small
    (fun _ => .plain 4096) (fun _ => rfl) (soloActions [.change 8 1 2] 6) (by decide +kernel)
  refine ⟨run, recyclesUnused_of_actions acts (by decide), 6, by rw [length]; decide, ?_⟩
  intro ahead
  have before := holds_of_replay (fun state => state.shared.code 0 = .undecided ∧
    0 < (state.shared.desc 0).count ∧ ((state.shared.desc 0).words 0).address = 8 ∧
    (state.shared.nvm 8).mwcas = false) (states 6) (by decide +kernel)
  have after := holds_of_replay (fun state => state.shared.code 0 = .succeeded) (states 7)
    (by decide +kernel)
  obtain ⟨undecided, inside, address, plain⟩ := of_decide_eq_true before
  obtain ⟨dirty, pointer⟩ := (ahead.succeeds 0 undecided (of_decide_eq_true after)).1 0 inside
  rw [address] at pointer
  rw [pointer] at plain
  cases plain

end Pmwcas
