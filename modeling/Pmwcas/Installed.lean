/-
This file follows the install phase of operations that are still undecided.

A frame that has come to entry `i` knows that all entries before `i` hold the MwCAS pointer of its
operation, and a frame that goes for Succeeded knows it of all entries. While the operation is
undecided nobody takes these pointers out. The one way to go wrong is the test by which the
persistent build recognises its own pointer: it masks all flags, so a plain value that happens to
be the address of the descriptor passes for the pointer. `Frame.NoBareAddress` excludes it.
-/

import Pmwcas.Invariant

namespace Pmwcas

variable {build : Build} {pool : Pool}

/-! ### Words that hold the pointer of an operation -/

/-- The word of entry `i` of descriptor `d` holds the MwCAS pointer of `d`. -/
def Shared.Installed (pool : Pool) (shared : Shared) (d i : Nat) : Prop :=
  ∃ dirty, shared.mem ((shared.desc d).words i).address = pool.mwCASPtr d dirty

section

variable {shared after : Shared} {frame : Frame} {d i : Nat}

/-- An MwCAS pointer of an undecided operation stays in its word. -/
theorem WordChange.mwCASPtr_stays {address : Nat} {dirty : Bool} {word : Word}
    (change : WordChange build pool shared frame address word)
    (descriptors : DescriptorsOk build pool shared)
    (undecided : shared.code d = .undecided)
    (pointer : shared.mem address = pool.mwCASPtr d dirty) :
    ∃ later, word = pool.mwCASPtr d later := by
  cases change with
  | same => exact ⟨dirty, pointer⟩
  | install lists holds here =>
    have clean := (Word.isCleanPtr_iff _).mp
      ((descriptors.entries _ lists.inUse).oldValue _ lists.inside)
    rw [← holds, pointer] at clean
    cases clean.1
  | promote lists holds promotes =>
    exact absurd (pointer.symm.trans holds) (pool.mwCASPtr_ne_condCASPtr _ _ _ _)
  | revert lists holds decided =>
    exact absurd (pointer.symm.trans holds) (pool.mwCASPtr_ne_condCASPtr _ _ _ _)
  | clearDirty wasDirty clears =>
    rw [pointer]
    exact ⟨false, rfl⟩
  | finalise lists holds verdict finalises =>
    obtain ⟨rfl, -⟩ := pool.mwCASPtr_inj (pointer.symm.trans holds)
    exact absurd undecided verdict.settled.decided.ne_undecided

theorem Shared.Installed.stays (installed : shared.Installed pool d i)
    (effect : Effect build pool shared frame after)
    (descriptors : DescriptorsOk build pool shared)
    (undecided : shared.code d = .undecided) : after.Installed pool d i := by
  obtain ⟨dirty, pointer⟩ := installed
  unfold Shared.Installed
  rw [effect.words_eq d]
  exact (effect.wordChange _).mwCASPtr_stays descriptors undecided pointer

/-- The CondCAS pointer of an undecided operation stays in its word or gives way to the MwCAS
pointer. -/
theorem WordChange.condCASPtr_stays {address : Nat} {word : Word} (inside : i < kMaxCount)
    (change : WordChange build pool shared frame address word)
    (descriptors : DescriptorsOk build pool shared)
    (undecided : shared.code d = .undecided)
    (pointer : shared.mem address = pool.condCASPtr d i) :
    word = pool.condCASPtr d i ∨ ∃ dirty, word = pool.mwCASPtr d dirty := by
  have room : ∀ {e j address : Nat}, shared.Lists e j address → j < kMaxCount :=
    fun lists => Nat.lt_of_lt_of_le lists.inside (descriptors.entries _ lists.inUse).count_le
  cases change with
  | same => exact Or.inl pointer
  | install lists holds here =>
    have clean := (Word.isCleanPtr_iff _).mp
      ((descriptors.entries _ lists.inUse).oldValue _ lists.inside)
    rw [← holds, pointer] at clean
    cases clean.2.1
  | promote lists holds promotes =>
    obtain ⟨rfl, -⟩ := pool.condCASPtr_inj inside (room lists) (pointer.symm.trans holds)
    exact Or.inr ⟨_, rfl⟩
  | revert lists holds decided =>
    obtain ⟨rfl, -⟩ := pool.condCASPtr_inj inside (room lists) (pointer.symm.trans holds)
    exact absurd undecided decided.ne_undecided
  | clearDirty wasDirty clears =>
    rw [pointer] at wasDirty
    cases wasDirty
  | finalise lists holds verdict finalises =>
    exact absurd (holds.symm.trans pointer) (pool.mwCASPtr_ne_condCASPtr _ _ _ _)

end

/-! ### What a frame knows about its operation -/

/-- How many of the first entries the program point relies on to hold the MwCAS pointer. -/
def Pc.installedBelow (count : Nat) : Pc → Nat
  | .installCondCAS i => i
  | .loadDesired i _ => i
  | .recheckWord i _ _ => i
  | .loadResolve i _ _ => i
  | .casResolve i _ _ _ => i
  | .loadOwn i => i
  | .casOwn i _ => i
  | .flushConflict i _ => i
  | .clearConflict i _ => i
  | .help i _ => i
  | .loadTarget _ => count
  | .flushTarget _ => count
  | .clearTarget _ => count
  | .decide myStatus => if myStatus = .succeeded then count else 0
  | _ => 0

/-- What a call on descriptor `d` relies on as long as the operation is undecided. -/
structure PcInstalled (pool : Pool) (shared : Shared) (d : Nat) (pc : Pc) : Prop where
  below : shared.code d = .undecided →
    ∀ j, j < pc.installedBelow (shared.desc d).count → shared.Installed pool d j
  own : shared.code d = .undecided → ∀ i, pc.Resolves i →
    shared.mem ((shared.desc d).words i).address = pool.condCASPtr d i ∨ shared.Installed pool d i

def FrameInstalled (pool : Pool) (shared : Shared) : Frame → Prop
  | .mwCAS d _ pc => PcInstalled pool shared d pc
  | .getValue _ _ => True

theorem Pc.installedBelow_enterTarget (descriptor : Descriptor) (i : Nat) :
    (Pc.enterTarget descriptor i).installedBelow descriptor.count = descriptor.count := by
  unfold Pc.enterTarget
  split <;> rfl

theorem Pc.installedBelow_enterInstall (descriptor : Descriptor) (i : Nat) :
    (Pc.enterInstall build descriptor i).installedBelow descriptor.count ≤ i := by
  unfold Pc.enterInstall
  split
  · exact Nat.le_refl i
  · rename_i beyond
    have all : descriptor.count ≤ i := Nat.le_of_not_lt beyond
    cases build with
    | persistent =>
      simp only
      rw [Pc.installedBelow_enterTarget]
      exact all
    | volatile => exact all

theorem Pc.installedBelow_enterFinal (descriptor : Descriptor) (calldepth i : Nat)
    (succeeded : Bool) :
    (Pc.enterFinal descriptor calldepth i succeeded).installedBelow descriptor.count = 0 := by
  rcases Pc.enterFinal_cases descriptor calldepth i succeeded with
    ⟨-, here⟩ | ⟨-, here⟩ | ⟨-, here⟩ <;>
  · rw [here]
    rfl

theorem Pc.not_resolves_enterInstall (descriptor : Descriptor) (k i : Nat) :
    ¬ (Pc.enterInstall build descriptor k).Resolves i := by
  unfold Pc.enterInstall
  split
  · exact id
  · cases build with
    | persistent =>
      simp only [Pc.enterTarget]
      split <;> exact id
    | volatile => exact id

theorem Pc.not_resolves_enterTarget (descriptor : Descriptor) (k i : Nat) :
    ¬ (Pc.enterTarget descriptor k).Resolves i := by
  unfold Pc.enterTarget
  split <;> exact id

theorem Pc.not_resolves_enterFinal (descriptor : Descriptor) (calldepth k : Nat)
    (succeeded : Bool) (i : Nat) : ¬ (Pc.enterFinal descriptor calldepth k succeeded).Resolves i := by
  rcases Pc.enterFinal_cases descriptor calldepth k succeeded with
    ⟨-, here⟩ | ⟨-, here⟩ | ⟨-, here⟩ <;>
  · rw [here]
    exact id

/-! ### Steps -/

/-- The frame does not take a plain value for the pointer to its own descriptor: its undecided
operation does not meet, in place of an old value, the bare address of its descriptor. -/
def Frame.NoBareAddress (build : Build) (pool : Pool) (shared : Shared) : Frame → Prop
  | .mwCAS d _ (.installCondCAS i) => build = .persistent → shared.code d = .undecided →
      (shared.mem ((shared.desc d).words i).address).IsValue →
      shared.mem ((shared.desc d).words i).address ≠ ((shared.desc d).words i).oldValue →
      (shared.mem ((shared.desc d).words i).address).rest ≠ pool.descriptorAddress d
  | _ => True

/-- A test for it. -/
def Frame.avoidsBareAddress (pool : Pool) (shared : Shared) : Frame → Bool
  | .mwCAS d _ (.installCondCAS i) =>
    (shared.mem ((shared.desc d).words i).address).rest != pool.descriptorAddress d
  | _ => true

theorem Frame.noBareAddress_of_test {shared : Shared} {frame : Frame}
    (passes : frame.avoidsBareAddress pool shared = true) :
    frame.NoBareAddress build pool shared := by
  cases frame with
  | mwCAS d calldepth pc =>
    cases pc with
    | installCondCAS i => exact fun _ _ _ _ => bne_iff_ne.mp passes
    | _ => trivial
  | getValue address pc => trivial

/-- A word taken for the own pointer is the own pointer. -/
theorem Pool.isOwnPtr_mwCASPtr {d : Nat} {rval : Word} (own : pool.isOwnPtr build d rval = true)
    (notConditional : rval.condcas = false)
    (pointer : rval.mwcas = true) : ∃ dirty, rval = pool.mwCASPtr d dirty := by
  cases build with
  | persistent =>
    have same : rval.cleanPtr = Word.plain (pool.descriptorAddress d) := eq_of_beq own
    have rest : rval.rest = pool.descriptorAddress d := congrArg Word.rest same
    exact ⟨rval.dirty, Word.ext pointer notConditional rfl rest⟩
  | volatile => exact ⟨false, eq_of_beq own⟩

section AfterStep

variable {shared after : Shared} {d calldepth : Nat} {pc next : Pc}

/-- A step to a point that relies on nothing new. -/
theorem PcInstalled.keeps (facts : PcInstalled pool shared d pc)
    (effect : Effect build pool shared (.mwCAS d calldepth pc) after)
    (descriptors : DescriptorsOk build pool shared) (used : shared.InUse d)
    (fewer : next.installedBelow (shared.desc d).count ≤ pc.installedBelow (shared.desc d).count)
    (notResolves : ∀ i, ¬ next.Resolves i) : PcInstalled pool after d next := by
  refine ⟨?_, fun _ i resolves => absurd resolves (notResolves i)⟩
  intro undecided j below
  rw [effect.count_eq d] at below
  have before := effect.undecided_before used undecided
  exact (facts.below before j (Nat.lt_of_lt_of_le below fewer)).stays effect descriptors before

/-- The loop advances, having found its pointer in entry `i` or put it there. -/
theorem PcInstalled.advances (facts : PcInstalled pool shared d pc)
    (effect : Effect build pool shared (.mwCAS d calldepth pc) after)
    (descriptors : DescriptorsOk build pool shared) (used : shared.InUse d) {i : Nat}
    (here : pc.installedBelow (shared.desc d).count = i)
    (installed : shared.code d = .undecided → after.Installed pool d i) :
    PcInstalled pool after d (.enterInstall build (shared.desc d) (i + 1)) := by
  refine ⟨?_, fun _ j resolves => absurd resolves (Pc.not_resolves_enterInstall _ _ j)⟩
  intro undecided j below
  rw [effect.count_eq d] at below
  have before := effect.undecided_before used undecided
  have reached : j < i + 1 := Nat.lt_of_lt_of_le below (Pc.installedBelow_enterInstall _ _)
  rcases Nat.lt_succ_iff_lt_or_eq.mp reached with earlier | rfl
  · exact (facts.below before j (by rw [here]; exact earlier)).stays effect descriptors before
  · exact installed before

/-- The loop has met the pointer of another descriptor, or its own one, in its word. -/
theorem PcInstalled.meetOther {i : Nat} {rval : Word}
    (facts : PcInstalled pool shared d (.installCondCAS i))
    (effect : Effect build pool shared (.mwCAS d calldepth (.installCondCAS i)) after)
    (descriptors : DescriptorsOk build pool shared) (used : shared.InUse d)
    (words : ∀ address, WordOk build pool shared address (shared.mem address))
    (noBare : (Frame.mwCAS d calldepth (.installCondCAS i)).NoBareAddress build pool shared)
    (met : shared.mem ((shared.desc d).words i).address = rval)
    (notConditional : rval.condcas = false)
    (different : rval ≠ ((shared.desc d).words i).oldValue) :
    PcInstalled pool after d (.afterCondCAS build pool d (shared.desc d) i rval) := by
  rcases Pc.afterCondCAS_cases d (shared.desc d) i rval with ⟨own, next⟩ |
    ⟨-, -, -, next | next⟩ | ⟨-, -, next⟩
  · rw [next]
    refine facts.advances effect descriptors used rfl fun undecided =>
      Shared.Installed.stays ?_ effect descriptors undecided
    have own := own.resolve_left different
    subst met
    rcases (words _).value_or_mwRef (Bool.eq_false_iff.mp notConditional) with value | reference
    · cases build with
      | persistent =>
        have same : (shared.mem ((shared.desc d).words i).address).cleanPtr =
          Word.plain (pool.descriptorAddress d) := eq_of_beq own
        exact absurd (congrArg Word.rest same) (noBare rfl undecided value different)
      | volatile =>
        have pointer := eq_of_beq own
        rw [pointer] at value
        exact absurd value (pool.mwCASPtr_not_isValue d false)
    · exact Pool.isOwnPtr_mwCASPtr own notConditional reference.flags.1
  · rw [next]
    exact facts.keeps effect descriptors used (Nat.le_refl _) fun _ => id
  · rw [next]
    exact facts.keeps effect descriptors used (Nat.le_refl _) fun _ => id
  · rw [next]
    exact facts.keeps effect descriptors used (Nat.zero_le _) fun _ => id

/-- The loop has resolved the `CondCAS` of another descriptor, or its own one, in its word. -/
theorem PcInstalled.resolveOther {i : Nat} {ret desired : Word} {flag : Bool}
    (facts : PcInstalled pool shared d (.casResolve i ret desired flag))
    (effect : Effect build pool shared (.mwCAS d calldepth (.casResolve i ret desired flag))
      (stepMwCAS build pool shared d calldepth (.casResolve i ret desired flag)).1)
    (descriptors : DescriptorsOk build pool shared) (used : shared.InUse d)
    (ok : PcOk build pool shared d (.casResolve i ret desired flag))
    (met : shared.mem ((shared.desc d).words i).address = ret)
    (expected : desired = pool.mwCASPtr (pool.descriptorAt ret.rest) build.dirtyFlag) :
    PcInstalled pool (stepMwCAS build pool shared d calldepth (.casResolve i ret desired flag)).1 d
      (.afterCondCAS build pool d (shared.desc d) i
        (pool.mwCASPtr (pool.descriptorAt ret.rest) build.dirtyFlag)) := by
  subst expected
  obtain ⟨inside, reference, decided⟩ := ok
  rcases Pc.afterCondCAS_cases d (shared.desc d) i
    (pool.mwCASPtr (pool.descriptorAt ret.rest) build.dirtyFlag) with ⟨own, next⟩ |
    ⟨-, -, -, next | next⟩ | ⟨-, impossible, -⟩
  · rw [next]
    refine facts.advances effect descriptors used rfl fun undecided => ?_
    have clean := (Word.isCleanPtr_iff _).mp ((descriptors.entries d used).oldValue i inside)
    have own := own.resolve_left (by rintro same; rw [← same] at clean; cases clean.1)
    obtain ⟨dirty, same⟩ := Pool.isOwnPtr_mwCASPtr own rfl rfl
    have other : pool.descriptorAt ret.rest = d := (pool.mwCASPtr_inj same).1
    have promoted : flag = true := by
      cases flag with
      | true => rfl
      | false =>
        have decidedOther := decided rfl
        rw [other] at decidedOther
        exact absurd undecided decidedOther.ne_undecided
    subst promoted
    refine ⟨build.dirtyFlag, ?_⟩
    rw [effect.words_eq d]
    simp only [stepMwCAS, reference.word, reference.descriptorPtr build.dirtyFlag descriptors,
      other, if_true]
    exact Shared.compareExchange64_mem_of_eq met
  · rw [next]
    exact facts.keeps effect descriptors used (Nat.le_refl _) fun _ => id
  · rw [next]
    exact facts.keeps effect descriptors used (Nat.le_refl _) fun _ => id
  · cases impossible

/-- The loop has promoted its own `CondCAS`. -/
theorem PcInstalled.casOwn {i : Nat} {flag : Bool}
    (facts : PcInstalled pool shared d (.casOwn i flag))
    (effect : Effect build pool shared (.mwCAS d calldepth (.casOwn i flag))
      (stepMwCAS build pool shared d calldepth (.casOwn i flag)).1)
    (descriptors : DescriptorsOk build pool shared) (used : shared.InUse d)
    (ok : PcOk build pool shared d (.casOwn i flag)) :
    PcInstalled pool (stepMwCAS build pool shared d calldepth (.casOwn i flag)).1 d
      (.enterInstall build (shared.desc d) (i + 1)) := by
  refine facts.advances effect descriptors used rfl fun undecided => ?_
  rcases facts.own undecided i rfl with pointer | installed
  · have promoted : flag = true := by
      cases flag with
      | true => rfl
      | false => exact absurd undecided (ok.2 rfl).ne_undecided
    subst promoted
    refine ⟨build.dirtyFlag, ?_⟩
    rw [effect.words_eq d]
    exact Shared.compareExchange64_mem_of_eq pointer
  · exact installed.stays effect descriptors undecided

end AfterStep

/-- What a frame has left to rely on after its own step. -/
theorem Pc.Next.pcInstalled {shared : Shared} {d calldepth : Nat} {pc next : Pc}
    (edge : Pc.Next build pool shared d calldepth pc next)
    (descriptors : DescriptorsOk build pool shared)
    (words : ∀ address, WordOk build pool shared address (shared.mem address))
    (ok : FrameOk build pool shared (.mwCAS d calldepth pc))
    (effect : Effect build pool shared (.mwCAS d calldepth pc)
      (stepMwCAS build pool shared d calldepth pc).1)
    (noBare : (Frame.mwCAS d calldepth pc).NoBareAddress build pool shared)
    (facts : PcInstalled pool shared d pc) :
    PcInstalled pool (stepMwCAS build pool shared d calldepth pc).1 d next := by
  obtain ⟨used, pcOk⟩ := ok
  have below : ∀ j, (stepMwCAS build pool shared d calldepth pc).1.code d = .undecided →
      j < pc.installedBelow ((stepMwCAS build pool shared d calldepth pc).1.desc d).count →
      (stepMwCAS build pool shared d calldepth pc).1.Installed pool d j := by
    intro j undecided below
    rw [effect.count_eq d] at below
    have before := effect.undecided_before used undecided
    exact (facts.below before j below).stays effect descriptors before
  cases edge with
  | start | clearOldStatus =>
    exact facts.keeps effect descriptors used (Pc.installedBelow_enterInstall _ 0)
      (Pc.not_resolves_enterInstall _ 0)
  | installed met =>
    refine ⟨fun undecided j inside => below j undecided inside, ?_⟩
    rintro - i rfl
    refine Or.inl ?_
    rw [effect.words_eq d]
    exact Shared.compareExchange64_mem_of_eq met
  | meetOther met notConditional different =>
    exact facts.meetOther effect descriptors used words noBare met notConditional different
  | resolveOther met expected => exact facts.resolveOther effect descriptors used pcOk met expected
  | loadOwn i => exact ⟨fun undecided j inside => below j undecided inside, facts.own⟩
  | casOwn => exact facts.casOwn effect descriptors used pcOk
  | targetClean | clearTarget =>
    exact facts.keeps effect descriptors used
      (by rw [Pc.installedBelow_enterTarget]; exact Nat.le_refl _) (Pc.not_resolves_enterTarget _ _)
  | loadVerdict | finalVolatile | finalClear =>
    exact facts.keeps effect descriptors used
      (by rw [Pc.installedBelow_enterFinal]; exact Nat.zero_le _) (Pc.not_resolves_enterFinal _ _ _ _)
  | decidePersistent | decideVolatile =>
    exact facts.keeps effect descriptors used (Nat.zero_le _) fun _ => id
  | _ => exact facts.keeps effect descriptors used (Nat.le_refl _) fun _ => id

/-- What the other frames rely on is not disturbed. -/
theorem FrameInstalled.after_effect {shared after : Shared} {frame other : Frame}
    (facts : FrameInstalled pool shared other) (effect : Effect build pool shared frame after)
    (descriptors : DescriptorsOk build pool shared) (ok : FrameOk build pool shared other) :
    FrameInstalled pool after other := by
  cases other with
  | mwCAS d calldepth pc =>
    have undecidedBefore : after.code d = .undecided → shared.code d = .undecided :=
      effect.undecided_before ok.1
    refine ⟨?_, ?_⟩
    · intro undecided j below
      rw [effect.count_eq d] at below
      exact (facts.below (undecidedBefore undecided) j below).stays effect descriptors
        (undecidedBefore undecided)
    · intro undecided i resolves
      have inside : i < (shared.desc d).count := by
        cases pc with
        | loadOwn k =>
          cases resolves
          exact ok.2
        | casOwn k flag =>
          cases resolves
          exact ok.2.1
        | _ => exact resolves.elim
      have room := Nat.lt_of_lt_of_le inside (descriptors.entries d ok.1).count_le
      unfold Shared.Installed
      rw [effect.words_eq d]
      rcases facts.own (undecidedBefore undecided) i resolves with pointer | ⟨dirty, pointer⟩
      · exact (effect.wordChange _).condCASPtr_stays room descriptors (undecidedBefore undecided)
          pointer
      · exact Or.inr ((effect.wordChange _).mwCASPtr_stays descriptors
          (undecidedBefore undecided) pointer)
  | getValue address pc => trivial

/-! ### Runs -/

/-- The step is not one that takes a plain value for the pointer to its own descriptor. -/
def NoBareAddress (build : Build) (pool : Pool) (state : State) (action : Action) : Prop :=
  ∀ t, action = .step t → ∀ frame rest, state.threads t = frame :: rest →
    frame.NoBareAddress build pool state.shared

/-- Every frame can rely on the entries it has passed. -/
def State.Installed (pool : Pool) (state : State) : Prop :=
  ∀ t, ∀ frame ∈ state.threads t, FrameInstalled pool state.shared frame

theorem pcInstalled_of_nothing {shared : Shared} {d : Nat} {pc : Pc}
    (below : pc.installedBelow (shared.desc d).count = 0) (own : ∀ i, ¬ pc.Resolves i) :
    PcInstalled pool shared d pc := by
  refine ⟨?_, fun _ i resolves => absurd resolves (own i)⟩
  intro _ j impossible
  rw [below] at impossible
  exact absurd impossible (Nat.not_lt_zero j)

theorem Pc.Private.installedBelow {pc : Pc} (alone : pc.Private) (count : Nat) :
    pc.installedBelow count = 0 := by
  cases pc <;> first | exact alone.elim | rfl

theorem Pc.Private.not_resolves {pc : Pc} (alone : pc.Private) (i : Nat) : ¬ pc.Resolves i := by
  cases pc <;> first | exact alone.elim | exact id

theorem ThreadStep.installed {before after : State} {t : Nat} {frame : Frame} {rest : List Frame}
    {move : Move} (step : ThreadStep build pool before t frame rest move after)
    (invariant : Invariant build pool before) (installed : before.Installed pool)
    (noBare : frame.NoBareAddress build pool before.shared) : after.Installed pool := by
  intro u other member
  rcases step.mem_after member with ⟨rfl, new⟩ | ⟨old, -⟩
  · have ok := invariant.frames u frame step.mem_top
    have facts := installed u frame step.mem_top
    have effect := step.effect
    rw [step.shared] at effect ⊢
    cases step.moves with
    | @mwCAS d calldepth pc _ moves =>
      cases moves with
      | goto edge =>
        cases List.mem_singleton.mp new
        exact edge.pcInstalled invariant.descriptors invariant.words ok effect noBare facts
      | help i rval =>
        rcases List.mem_cons.mp new with rfl | new
        · exact pcInstalled_of_nothing rfl fun _ => id
        · cases List.mem_singleton.mp new
          exact ⟨facts.below, fun _ _ resolves => resolves.elim⟩
      | ret => cases new
    | getValue moves =>
      cases moves with
      | help val =>
        rcases List.mem_cons.mp new with rfl | new
        · exact pcInstalled_of_nothing rfl fun _ => id
        · cases List.mem_singleton.mp new
          trivial
      | ret => cases new
      | _ =>
        cases List.mem_singleton.mp new
        trivial
  · exact (installed u other old).after_effect step.effect invariant.descriptors
      (invariant.frames u other old)

/-- What a frame relies on depends on the descriptor of its call and on the words. -/
theorem FrameInstalled.of_desc_eq {earlier later : Shared} {frame : Frame}
    (facts : FrameInstalled pool earlier frame) (mem : later.mem = earlier.mem)
    (desc : ∀ d, frame.Uses pool d → later.desc d = earlier.desc d) :
    FrameInstalled pool later frame := by
  cases frame with
  | mwCAS d calldepth pc =>
    have same := desc d (Or.inl rfl)
    refine ⟨?_, ?_⟩
    · have below := facts.below
      unfold Shared.code Shared.Installed at below ⊢
      rw [same, mem]
      exact below
    · have own := facts.own
      unfold Shared.code Shared.Installed at own ⊢
      rw [same, mem]
      exact own
  | getValue address pc => trivial

theorem State.Installed.step {before after : State} {action : Action}
    (installed : before.Installed pool) (invariant : Invariant build pool before)
    (recycles : RecyclesUnused pool before action) (noBare : NoBareAddress build pool before action)
    (step : Step build pool before action after) : after.Installed pool := by
  cases step with
  | step performed =>
    obtain ⟨frame, rest, move, step⟩ := invariant.threadStep performed
    exact step.installed invariant installed (noBare _ rfl frame rest step.stack)
  | @mwCAS t d requests filled idle inside free valid added =>
    intro u other member
    rcases (mem_update_of_idle idle).mp member with ⟨-, rfl⟩ | old
    · have alone := Pc.entry_private build 0
      exact pcInstalled_of_nothing (alone.installedBelow _) alone.not_resolves
    · refine (installed u other old).of_desc_eq rfl fun e uses => State.beginMwCAS_desc_of_ne ?_
      rintro rfl
      exact Shared.not_inUse_of_finished free ((invariant.frames u other old).inUse_of_uses uses)
  | getValue idle =>
    intro u other member
    rcases (mem_update_of_idle idle).mp member with ⟨-, rfl⟩ | old
    · trivial
    · exact (installed u other old).of_desc_eq rfl fun _ _ => rfl
  | writeBack | writeBackField =>
    intro u other member
    exact (installed u other member).of_desc_eq rfl fun _ _ => rfl
  | recycle pushed =>
    intro u other member
    refine (installed u other member).of_desc_eq rfl fun e uses => State.recycle_desc_of_ne ?_
    rintro rfl
    exact recycles _ rfl u other member uses

/-- In a run without bare addresses every frame can rely on the entries it has passed. -/
theorem installed_of_run (run : Transition.Run (system build pool))
    (recycles : run.Meets (RecyclesUnused pool)) (meets : run.Meets (NoBareAddress build pool))
    (index : Nat) (inside : index ≤ run.length) : (run.state index).Installed pool := by
  have both := run.invariant_between
    (fun state action => RecyclesUnused pool state action ∧ NoBareAddress build pool state action)
    (fun state => Invariant build pool state ∧ state.Installed pool) (Nat.zero_le index) inside
    (fun earlier _ below => recycles.and meets earlier (Nat.lt_of_lt_of_le below inside))
    ⟨Initial.invariant run.starts, ?_⟩
    (fun _ _ _ both allowed step =>
      ⟨both.1.step allowed.1 step, both.2.step both.1 allowed.1 allowed.2 step⟩)
  · exact both.2
  · intro t frame member
    have idle : (run.state 0).threads t = [] := Initial.idle run.starts t
    rw [idle] at member
    cases member

end Pmwcas
