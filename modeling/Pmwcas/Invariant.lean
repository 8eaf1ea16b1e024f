/-
This file proves the invariant of the whole system: the descriptors, the target words and the
frames are in order in every state of every run, of both builds.

A descriptor must not be recycled while a target word points to it. That is where the frames
responsible for the pointers come in: for every pointer in a word there is a frame that is still
to take it out, this frame is inside a call on the descriptor, and so the descriptor is not
recycled yet. The same count shows that the owner of a new descriptor is alone with it, that the
check of its status succeeds, and that a descriptor is on a garbage list exactly from the push of
its owner to its recycling.
-/

import Pmwcas.Control

namespace Pmwcas

variable {build : Build} {pool : Pool}

/-! ### What an effect keeps -/

theorem EntriesOk.later {earlier later : Shared} {d : Nat} (entries : EntriesOk pool earlier d)
    (count : (later.desc d).count = (earlier.desc d).count)
    (words : (later.desc d).words = (earlier.desc d).words) : EntriesOk pool later d where
  inside := entries.inside
  count_le := by rw [count]; exact entries.count_le
  sorted := by
    unfold Descriptor.Sorted
    rw [count, words]
    exact entries.sorted
  address_ne := by rw [count, words]; exact entries.address_ne
  ownDesc := by rw [count, words]; exact entries.ownDesc
  oldValue := by rw [count, words]; exact entries.oldValue
  newValue := by rw [count, words]; exact entries.newValue

/-- The two entries of a descriptor for one word are one entry. -/
theorem EntriesOk.eq_of_address_eq {shared : Shared} {d i j : Nat} (entries : EntriesOk pool shared d)
    (insideI : i < (shared.desc d).count) (insideJ : j < (shared.desc d).count)
    (same : ((shared.desc d).words i).address = ((shared.desc d).words j).address) : i = j := by
  rcases Nat.lt_trichotomy i j with before | equal | after
  · exact absurd same (Nat.ne_of_lt (entries.sorted i j before insideJ))
  · exact equal
  · exact absurd same (Nat.ne_of_gt (entries.sorted j i after insideI))

section Effects

variable {shared after : Shared} {frame : Frame}

theorem Effect.descriptorsOk (effect : Effect build pool shared frame after)
    (descriptors : DescriptorsOk build pool shared) : DescriptorsOk build pool after where
  entries d used :=
    (descriptors.entries d ((effect.inUse_iff d).mp used)).later (effect.count_eq d)
      (effect.words_eq d)
  fresh d unused := by
    have unusedBefore : ¬ shared.InUse d := fun used => unused ((effect.inUse_iff d).mpr used)
    obtain ⟨empty, finished⟩ := descriptors.fresh d unusedBefore
    rw [effect.count_eq d]
    rcases effect.code_cases d with same | ⟨undecided, -⟩
    · exact ⟨empty, same.trans finished⟩
    · exact absurd (Or.inl undecided) unusedBefore
  dirty d := by
    intro dirty
    have old : (shared.desc d).status.dirty = true → build = .persistent ∧ after.Decided d := by
      intro wasDirty
      obtain ⟨persistent, decided⟩ := descriptors.dirty d wasDirty
      exact ⟨persistent, (effect.later d).decided decided⟩
    cases effect with
    | skip | flushWord | flushStatus | flushDescriptor | install | promote | revert | clearDirty
    | finalise | push => exact old dirty
    | @decide e calldepth myStatus undecided decision =>
      by_cases same : d = e
      · subst same
        rw [Shared.storeStatus_status_self] at dirty
        refine ⟨?_, ?_⟩
        · cases build with
          | persistent => rfl
          | volatile => cases dirty
        · rw [Shared.Decided, Shared.code, Shared.storeStatus_status_self]
          exact decision
      · rw [Shared.storeStatus_desc_of_ne _ _ same] at dirty
        exact old dirty
    | @clearStatus e calldepth pc clears =>
      by_cases same : d = e
      · subst same
        rw [Shared.storeStatus_status_self] at dirty
        cases dirty
      · rw [Shared.storeStatus_desc_of_ne _ _ same] at dirty
        exact old dirty

theorem WordOk.later {address : Nat} {word : Word} (ok : WordOk build pool shared address word)
    (later : Shared.Later shared after) : WordOk build pool after address word := by
  refine ⟨?_, ok.clean⟩
  rcases ok.form with value | reference | reference
  · exact Or.inl value
  · exact Or.inr (Or.inl (reference.later (later _)))
  · exact Or.inr (Or.inr (reference.later (later _)))

theorem WordChange.wordOk {address : Nat} {word : Word}
    (change : WordChange build pool shared frame address word)
    (descriptors : DescriptorsOk build pool shared)
    (words : ∀ address, WordOk build pool shared address (shared.mem address)) :
    WordOk build pool shared address word := by
  cases change with
  | same => exact words address
  | install lists holds here =>
    exact ⟨Or.inr (Or.inl (CondRef.of_lists descriptors lists)), fun _ => rfl⟩
  | promote lists holds promotes =>
    refine ⟨Or.inr (Or.inr (MwRef.of_lists _ lists)), ?_⟩
    rintro rfl
    rfl
  | revert lists holds decided =>
    have clean := (descriptors.entries _ lists.inUse).oldValue _ lists.inside
    exact ⟨Or.inl (.of_isCleanPtr clean), fun _ => ((Word.isCleanPtr_iff _).mp clean).2.2⟩
  | clearDirty dirty clears =>
    refine ⟨?_, fun _ => rfl⟩
    rcases (words address).form with value | reference | reference
    · exact Or.inl value.clearDirty
    · have notDirty : (shared.mem address).dirty = false := by
        rw [reference.1]
        rfl
      rw [notDirty] at dirty
      cases dirty
    · exact Or.inr (Or.inr ⟨congrArg Word.clearDirty reference.1, reference.2⟩)
  | @finalise d i dirty succeeded lists holds verdict finalises =>
    have value : (((shared.desc d).words i).finalValue succeeded).IsValue :=
      .of_isCleanPtr ((descriptors.entries _ lists.inUse).finalValue_clean lists.inside succeeded)
    refine ⟨Or.inl value, ?_⟩
    rintro rfl
    rfl

theorem Effect.wordsOk (effect : Effect build pool shared frame after)
    (descriptors : DescriptorsOk build pool shared)
    (words : ∀ address, WordOk build pool shared address (shared.mem address)) (address : Nat) :
    WordOk build pool after address (after.mem address) :=
  ((effect.wordChange address).wordOk descriptors words).later effect.later

/-- An MwCAS pointer in a word was there before, perhaps with the dirty bit, or has just replaced
the CondCAS pointer. -/
theorem WordChange.mwCASPtr_origin {address d : Nat} {dirty : Bool}
    (change : WordChange build pool shared frame address (pool.mwCASPtr d dirty))
    (descriptors : DescriptorsOk build pool shared) :
    (∃ before, shared.mem address = pool.mwCASPtr d before ∧ (before = dirty ∨ before = true)) ∨
      ∃ i, shared.Lists d i address ∧ shared.mem address = pool.condCASPtr d i ∧
        frame.Promotes pool d i := by
  generalize found : pool.mwCASPtr d dirty = word at change
  cases change with
  | same => exact Or.inl ⟨dirty, found.symm, Or.inl rfl⟩
  | install => exact absurd found (pool.mwCASPtr_ne_condCASPtr _ _ _ _)
  | @promote e i lists holds promotes =>
    obtain ⟨rfl, -⟩ := pool.mwCASPtr_inj found
    exact Or.inr ⟨i, lists, holds, promotes⟩
  | revert lists holds decided =>
    have clean := (Word.isCleanPtr_iff _).mp
      ((descriptors.entries _ lists.inUse).oldValue _ lists.inside)
    rw [← found] at clean
    cases clean.1
  | clearDirty wasDirty clears =>
    refine Or.inl ⟨true, ?_, Or.inr rfl⟩
    have flags : (pool.mwCASPtr d dirty).mwcas = (shared.mem address).clearDirty.mwcas ∧
        (pool.mwCASPtr d dirty).condcas = (shared.mem address).clearDirty.condcas ∧
        (pool.mwCASPtr d dirty).rest = (shared.mem address).clearDirty.rest := by
      rw [found]
      exact ⟨rfl, rfl, rfl⟩
    exact Word.ext flags.1.symm flags.2.1.symm wasDirty flags.2.2.symm
  | @finalise e i wasDirty succeeded lists holds verdict finalises =>
    have plain := (descriptors.entries _ lists.inUse).finalValue_mwcas lists.inside succeeded
    have flag : true = (((shared.desc e).words i).finalValue succeeded).mwcas :=
      congrArg Word.mwcas found
    rw [plain] at flag
    cases flag

/-- A CondCAS pointer in a word was there before or has just been installed. -/
theorem WordChange.condCASPtr_origin {address d i : Nat} (inside : i < kMaxCount)
    (change : WordChange build pool shared frame address (pool.condCASPtr d i))
    (descriptors : DescriptorsOk build pool shared)
    (words : ∀ address, WordOk build pool shared address (shared.mem address)) :
    shared.mem address = pool.condCASPtr d i ∨
      ∃ calldepth, frame = .mwCAS d calldepth (.installCondCAS i) ∧ shared.Lists d i address ∧
        shared.mem address = ((shared.desc d).words i).oldValue := by
  generalize found : pool.condCASPtr d i = word at change
  cases change with
  | same => exact Or.inl rfl
  | @install e calldepth j lists holds here =>
    have room := Nat.lt_of_lt_of_le lists.inside (descriptors.entries e lists.inUse).count_le
    obtain ⟨rfl, rfl⟩ := pool.condCASPtr_inj inside room found
    exact Or.inr ⟨calldepth, here, lists, holds⟩
  | promote => exact absurd found.symm (pool.mwCASPtr_ne_condCASPtr _ _ _ _)
  | revert lists holds decided =>
    have clean := (Word.isCleanPtr_iff _).mp
      ((descriptors.entries _ lists.inUse).oldValue _ lists.inside)
    rw [← found] at clean
    cases clean.2.1
  | clearDirty wasDirty clears =>
    have flag : true = (shared.mem address).condcas := congrArg Word.condcas found
    have reference := (words address).condRef flag.symm
    rw [reference.1] at wasDirty
    cases wasDirty
  | @finalise e j wasDirty succeeded lists holds verdict finalises =>
    have plain := (Word.isCleanPtr_iff _).mp
      ((descriptors.entries _ lists.inUse).finalValue_clean lists.inside succeeded)
    have flag : true = (((shared.desc e).words j).finalValue succeeded).condcas :=
      congrArg Word.condcas found
    rw [plain.2.1] at flag
    cases flag

end Effects

/-! ### Stacks -/

/-- A stack has call depth zero at the bottom and one more at every call, and all its frames but
the top one wait for a call. -/
def StackOk : List Frame → Prop
  | [] => True
  | [frame] => frame.calldepth = 0
  | frame :: caller :: rest =>
    frame.calldepth = caller.calldepth + 1 ∧ caller.Calling ∧ StackOk (caller :: rest)

theorem StackOk.tail {frame : Frame} {rest : List Frame} (ok : StackOk (frame :: rest)) :
    StackOk rest := by
  cases rest with
  | nil => trivial
  | cons caller rest => exact ok.2.2

theorem StackOk.calling {frame other : Frame} {rest : List Frame} (ok : StackOk (frame :: rest))
    (member : other ∈ rest) : other.Calling := by
  induction rest generalizing frame with
  | nil => cases member
  | cons caller rest inductionHypothesis =>
    rcases List.mem_cons.mp member with rfl | deeper
    · exact ok.2.1
    · exact inductionHypothesis ok.2.2 deeper

/-- A step leaves a stack: only the call of the top frame is touched. -/
theorem StackOk.of_calldepth_eq {frame next : Frame} {rest : List Frame}
    (ok : StackOk (frame :: rest)) (same : next.calldepth = frame.calldepth) :
    StackOk (next :: rest) := by
  cases rest with
  | nil => exact same.trans ok
  | cons caller rest => exact ⟨same.trans ok.1, ok.2⟩

theorem StackOk.move {shared : Shared} {frame : Frame} {move : Move} {rest : List Frame}
    (ok : StackOk (frame :: rest)) (moves : Frame.Moves build pool shared frame move) :
    StackOk (move.stack rest) := by
  cases moves with
  | mwCAS moves =>
    cases moves with
    | goto => exact ok.of_calldepth_eq rfl
    | help => exact ⟨rfl, trivial, ok.of_calldepth_eq rfl⟩
    | ret => exact ok.tail
  | getValue moves =>
    cases moves with
    | help => exact ⟨rfl, trivial, ok.of_calldepth_eq rfl⟩
    | ret => exact ok.tail
    | _ => exact ok.of_calldepth_eq rfl

/-- There is one frame with call depth zero on a stack. -/
theorem StackOk.eq_of_calldepth_zero {stack : List Frame} (ok : StackOk stack)
    {first second : Frame} (memberFirst : first ∈ stack) (memberSecond : second ∈ stack)
    (zeroFirst : first.calldepth = 0) (zeroSecond : second.calldepth = 0) : first = second := by
  induction stack with
  | nil => cases memberFirst
  | cons frame rest inductionHypothesis =>
    cases rest with
    | nil => rw [List.mem_singleton.mp memberFirst, List.mem_singleton.mp memberSecond]
    | cons caller rest =>
      have deeper : ∀ {other : Frame}, other ∈ frame :: caller :: rest → other.calldepth = 0 →
          other ∈ caller :: rest := by
        intro other member zero
        rcases List.mem_cons.mp member with rfl | inside
        · rw [ok.1] at zero
          cases zero
        · exact inside
      exact inductionHypothesis ok.2.2 (deeper memberFirst zeroFirst)
        (deeper memberSecond zeroSecond)

/-! ### The invariant -/

/-- The invariant of the system. -/
structure Invariant (build : Build) (pool : Pool) (state : State) : Prop where
  descriptors : DescriptorsOk build pool state.shared
  words : ∀ address, WordOk build pool state.shared address (state.shared.mem address)
  frames : ∀ t, ∀ frame ∈ state.threads t, FrameOk build pool state.shared frame
  depths : ∀ t, ∀ frame ∈ state.threads t, frame.DepthOk
  callStacks : ∀ t, StackOk (state.threads t)
  /-- Every CondCAS pointer has a frame that will resolve it. -/
  resolved : ∀ address d i, state.shared.mem address = pool.condCASPtr d i →
    state.shared.Lists d i address → ∃ t, ∃ frame ∈ state.threads t, frame.Resolves d i
  /-- Every MwCAS pointer has a frame that will replace it. -/
  owed : ∀ address d i dirty, state.shared.mem address = pool.mwCASPtr d dirty →
    state.shared.Lists d i address → ∃ t, ∃ frame ∈ state.threads t, frame.Owes d i dirty
  /-- A descriptor has one owner. -/
  owner : ∀ t u d pc other, .mwCAS d 0 pc ∈ state.threads t → .mwCAS d 0 other ∈ state.threads u →
    t = u
  /-- A descriptor in use is owned until it is pushed, and it is pushed once. -/
  owned : ∀ d, state.shared.InUse d → d ∉ state.shared.garbage →
    ∃ t pc, .mwCAS d 0 pc ∈ state.threads t
  pushed : ∀ t d pc, .mwCAS d 0 pc ∈ state.threads t → (d ∈ state.shared.garbage ↔ pc.Pushed)
  garbage_inUse : ∀ d ∈ state.shared.garbage, state.shared.InUse d
  garbage_nodup : state.shared.garbage.Nodup
  /-- The owner of a new descriptor is alone with it. -/
  alone : ∀ t d pc, .mwCAS d 0 pc ∈ state.threads t → pc.Private →
    (state.shared.desc d).status = .of .undecided ∧
      ∀ u, ∀ frame ∈ state.threads u, frame.Uses pool d → u = t ∧ frame = .mwCAS d 0 pc

/-- A frame works with descriptors in use only. -/
theorem FrameOk.inUse_of_uses {shared : Shared} {frame : Frame} {d : Nat}
    (ok : FrameOk build pool shared frame) (uses : frame.Uses pool d) : shared.InUse d := by
  cases frame with
  | mwCAS own calldepth pc =>
    obtain ⟨used, facts⟩ := ok
    rcases uses with rfl | holds
    · exact used
    · cases pc with
      | loadDesired | recheckWord | loadResolve =>
        cases holds
        exact facts.2.2.inUse
      | casResolve =>
        cases holds
        exact facts.2.1.2.inUse
      | flushConflict | clearConflict =>
        cases holds
        obtain ⟨-, -, -, -, i, lists⟩ := facts
        exact lists.inUse
      | help =>
        cases holds
        obtain ⟨-, -, i, lists⟩ := facts
        exact lists.inUse
      | _ => exact holds.elim
  | getValue address pc =>
    cases pc with
    | loadStatus =>
      cases uses
      exact ok.2.inUse
    | casCond =>
      cases uses
      exact ok.1.2.inUse
    | flush | clear =>
      obtain ⟨isPointer, rfl⟩ := uses
      rcases ok.2.2 with value | ⟨-, i, lists⟩
      · rw [value.1] at isPointer
        cases isPointer
      · exact lists.inUse
    | help =>
      cases uses
      obtain ⟨-, i, lists⟩ := ok
      exact lists.inUse
    | _ => exact uses.elim

theorem Pc.Private.not_owes {pc : Pc} (alone : pc.Private) (i : Nat) (dirty : Bool) :
    ¬ pc.Owes i dirty := by
  cases pc <;> first | exact alone.elim | exact id

theorem Pc.Private.not_calling {pc : Pc} (alone : pc.Private) (d calldepth : Nat) :
    ¬ (Frame.mwCAS d calldepth pc).Calling := by
  cases pc <;> first | exact alone.elim | exact id

section

variable {state : State} (invariant : Invariant build pool state)

include invariant

/-- For every pointer in a word some frame is inside a call on the descriptor and will still take
the pointer out. -/
theorem Invariant.exists_owes {address d : Nat}
    (points : (state.shared.mem address).PointsTo pool d) :
    ∃ t, ∃ frame ∈ state.threads t, ∃ i dirty, frame.Owes d i dirty := by
  rcases points with ⟨dirty, pointer⟩ | ⟨i, inside, pointer⟩
  · have reference : MwRef pool state.shared address (state.shared.mem address) := by
      rcases (invariant.words address).form with value | reference | reference
      · rw [pointer] at value
        exact absurd value (pool.mwCASPtr_not_isValue d dirty)
      · have flag := reference.condcas
        rw [pointer] at flag
        cases flag
      · exact reference
    obtain ⟨-, i, lists⟩ := reference
    rw [pointer, Pool.mwCASPtr_rest, Pool.descriptorAt_descriptorAddress] at lists
    obtain ⟨t, frame, member, owes⟩ := invariant.owed address d i dirty pointer lists
    exact ⟨t, frame, member, i, dirty, owes⟩
  · have reference : CondRef pool state.shared address (state.shared.mem address) :=
      (invariant.words address).condRef (by rw [pointer]; rfl)
    have lists := reference.2
    rw [pointer, Pool.condCASPtr_rest, Pool.descriptorAt_wordAddress _ _ _ inside,
      Pool.wordAt_wordAddress _ _ _ inside] at lists
    obtain ⟨t, frame, member, resolves⟩ := invariant.resolved address d i pointer lists
    exact ⟨t, frame, member, i, true, resolves.owes true⟩

theorem Invariant.exists_uses {address d : Nat}
    (points : (state.shared.mem address).PointsTo pool d) :
    ∃ t, ∃ frame ∈ state.threads t, frame.Uses pool d := by
  obtain ⟨t, frame, member, i, dirty, owes⟩ := invariant.exists_owes points
  exact ⟨t, frame, member, owes.uses⟩

/-- No word points to a descriptor its owner is alone with. -/
theorem Invariant.not_pointsTo_of_private {t d address : Nat} {pc : Pc}
    (member : .mwCAS d 0 pc ∈ state.threads t) (alone : pc.Private) :
    ¬ (state.shared.mem address).PointsTo pool d := by
  intro points
  obtain ⟨u, frame, memberFrame, i, dirty, owes⟩ := invariant.exists_owes points
  obtain ⟨-, rfl⟩ := (invariant.alone t d pc member alone).2 u frame memberFrame owes.uses
  exact alone.not_owes i dirty owes.2

theorem Invariant.fresh {t d calldepth : Nat}
    (member : .mwCAS d calldepth .checkUndecided ∈ state.threads t) :
    (state.shared.desc d).status = .of .undecided := by
  have owner : calldepth = 0 := (invariant.depths t _ member).1 trivial
  subst owner
  exact (invariant.alone t d _ member trivial).1

end

/-! ### A step of a thread -/

/-- A step of the top frame of thread `t`: what it does to shared memory and to the stack. -/
structure ThreadStep (build : Build) (pool : Pool) (before : State) (t : Nat) (frame : Frame)
    (rest : List Frame) (move : Move) (after : State) : Prop where
  stack : before.threads t = frame :: rest
  shared : after.shared = (frame.step build pool before.shared).1
  threads : after.threads = Function.update before.threads t (move.stack rest)
  effect : Effect build pool before.shared frame after.shared
  moves : Frame.Moves build pool before.shared frame move
  ok : move.All (FrameOk build pool after.shared)

theorem Invariant.threadStep {before after : State} {t : Nat}
    (invariant : Invariant build pool before)
    (performed : before.stepThread build pool t = some after) :
    ∃ frame rest move, ThreadStep build pool before t frame rest move after := by
  unfold State.stepThread at performed
  split at performed
  · cases performed
  · rename_i frame rest stack
    have member : frame ∈ before.threads t := by
      rw [stack]
      exact List.mem_cons_self
    have ok := invariant.frames t frame member
    have fresh : ∀ d calldepth, frame = .mwCAS d calldepth .checkUndecided →
        (before.shared.desc d).status = .of .undecided := by
      rintro d calldepth rfl
      exact invariant.fresh member
    cases performed
    exact ⟨frame, rest, (frame.step build pool before.shared).2, stack, rfl, rfl,
      Frame.step_effect invariant.descriptors ok,
      Frame.step_moves invariant.descriptors invariant.words ok fresh,
      Frame.step_ok invariant.descriptors invariant.words ok fresh⟩

namespace ThreadStep

variable {before after : State} {t : Nat} {frame : Frame} {rest : List Frame} {move : Move}
  (step : ThreadStep build pool before t frame rest move after)

include step

theorem mem_top : frame ∈ before.threads t := by
  rw [step.stack]
  exact List.mem_cons_self

theorem threads_self : after.threads t = move.stack rest := by
  rw [step.threads, Function.update_self]

theorem threads_of_ne {u : Nat} (other : u ≠ t) : after.threads u = before.threads u := by
  rw [step.threads, Function.update_of_ne other]

theorem mem_moved {next : Frame} (member : next ∈ move.stack []) : next ∈ after.threads t := by
  rw [step.threads_self, Move.stack_eq_append]
  exact List.mem_append_left _ member

/-- A frame after the step is one the step left in place of its own, or it was there before. -/
theorem mem_after {u : Nat} {other : Frame} (member : other ∈ after.threads u) :
    (u = t ∧ other ∈ move.stack []) ∨ (other ∈ before.threads u ∧ (u = t → other ∈ rest)) := by
  by_cases here : u = t
  · subst here
    rw [step.threads_self, Move.stack_eq_append] at member
    rcases List.mem_append.mp member with new | old
    · exact Or.inl ⟨rfl, new⟩
    · refine Or.inr ⟨?_, fun _ => old⟩
      rw [step.stack]
      exact List.mem_cons_of_mem _ old
  · rw [step.threads_of_ne here] at member
    exact Or.inr ⟨member, fun same => absurd same here⟩

/-- A frame before the step is its own, or it is there after the step. -/
theorem mem_before {u : Nat} {other : Frame} (member : other ∈ before.threads u) :
    (u = t ∧ other = frame) ∨ other ∈ after.threads u := by
  by_cases here : u = t
  · subst here
    rw [step.stack] at member
    rcases List.mem_cons.mp member with rfl | deeper
    · exact Or.inl ⟨rfl, rfl⟩
    · refine Or.inr ?_
      rw [step.threads_self, Move.stack_eq_append]
      exact List.mem_append_right _ deeper
  · rw [step.threads_of_ne here]
    exact Or.inr member

theorem exists_mem_of_any {holds : Frame → Prop} (some : move.Any holds) :
    ∃ u, ∃ next ∈ after.threads u, holds next := by
  obtain ⟨next, member, holds⟩ := some.exists_mem
  exact ⟨t, next, step.mem_moved member, holds⟩

/-- The owner after a step was the owner before it; if it moved, along an edge. -/
theorem owner_origin {u d : Nat} {pc : Pc} (member : .mwCAS d 0 pc ∈ after.threads u) :
    (u = t ∧ ∃ source, frame = .mwCAS d 0 source ∧
        (Pc.Next build pool before.shared d 0 source pc ∨ ∃ i rval, source = .help i rval ∧
          pc = .installCondCAS i)) ∨
      (.mwCAS d 0 pc ∈ before.threads u ∧ (u = t → .mwCAS d 0 pc ∈ rest)) := by
  rcases step.mem_after member with ⟨rfl, new⟩ | old
  · refine Or.inl ⟨rfl, ?_⟩
    cases step.moves with
    | mwCAS moves =>
      cases moves with
      | goto edge =>
        cases List.mem_singleton.mp new
        exact ⟨_, rfl, Or.inl edge⟩
      | help i rval =>
        rcases List.mem_cons.mp new with same | new
        · cases same
        · cases List.mem_singleton.mp new
          exact ⟨_, rfl, Or.inr ⟨i, rval, rfl, rfl⟩⟩
      | ret => cases new
    | getValue moves =>
      cases moves with
      | help val =>
        rcases List.mem_cons.mp new with same | new
        · cases same
        · cases List.mem_singleton.mp new
      | ret => cases new
      | _ => cases List.mem_singleton.mp new
  · exact Or.inr old

theorem owner_before {u d : Nat} {pc : Pc} (member : .mwCAS d 0 pc ∈ after.threads u) :
    ∃ source, .mwCAS d 0 source ∈ before.threads u := by
  rcases step.owner_origin member with ⟨rfl, source, rfl, -⟩ | ⟨old, -⟩
  · exact ⟨source, step.mem_top⟩
  · exact ⟨pc, old⟩

/-! ### What a step of a thread keeps -/

variable (invariant : Invariant build pool before)

include invariant

theorem frames (u : Nat) (other : Frame) (member : other ∈ after.threads u) :
    FrameOk build pool after.shared other := by
  rcases step.mem_after member with ⟨-, new⟩ | ⟨old, -⟩
  · exact step.ok.of_mem new
  · exact (invariant.frames u other old).after step.effect

theorem depths (u : Nat) (other : Frame) (member : other ∈ after.threads u) : other.DepthOk := by
  rcases step.mem_after member with ⟨rfl, new⟩ | ⟨old, -⟩
  · have ok := invariant.depths u frame step.mem_top
    cases step.moves with
    | mwCAS moves =>
      cases moves with
      | goto edge =>
        cases List.mem_singleton.mp new
        exact edge.depthOk ok
      | help i rval =>
        rcases List.mem_cons.mp new with rfl | new
        · exact ⟨False.elim, fun _ => Nat.succ_ne_zero _⟩
        · cases List.mem_singleton.mp new
          exact ⟨False.elim, fun bailed => by cases bailed⟩
      | ret => cases new
    | getValue moves =>
      cases moves with
      | help val =>
        rcases List.mem_cons.mp new with rfl | new
        · exact ⟨False.elim, fun _ => Nat.succ_ne_zero _⟩
        · cases List.mem_singleton.mp new
          trivial
      | ret => cases new
      | _ =>
        cases List.mem_singleton.mp new
        trivial
  · exact invariant.depths u other old

theorem callStacks (u : Nat) : StackOk (after.threads u) := by
  by_cases here : u = t
  · subst here
    rw [step.threads_self]
    have ok := invariant.callStacks u
    rw [step.stack] at ok
    exact ok.move step.moves
  · rw [step.threads_of_ne here]
    exact invariant.callStacks u

theorem resolved (address d i : Nat) (found : after.shared.mem address = pool.condCASPtr d i)
    (listsAfter : after.shared.Lists d i address) :
    ∃ u, ∃ other ∈ after.threads u, other.Resolves d i := by
  have lists := (step.effect.lists_iff d i address).mp listsAfter
  have entries := invariant.descriptors.entries d lists.inUse
  have change := step.effect.wordChange address
  rw [found] at change
  rcases change.condCASPtr_origin (Nat.lt_of_lt_of_le lists.inside entries.count_le)
    invariant.descriptors invariant.words with before | ⟨calldepth, rfl, -, met⟩
  · obtain ⟨u, other, member, resolves⟩ := invariant.resolved address d i before lists
    rcases step.mem_before member with ⟨-, rfl⟩ | kept
    · cases other with
      | mwCAS own calldepth pc =>
        obtain ⟨rfl, resolves⟩ := resolves
        cases step.moves with
        | mwCAS moves =>
          rw [step.shared] at found
          exact step.exists_mem_of_any
            (moves.resolves invariant.descriptors lists before found resolves)
      | getValue own pc => exact resolves.elim
    · exact ⟨u, other, kept, resolves⟩
  · cases step.moves with
    | mwCAS moves =>
      rw [← lists.address_eq] at met
      exact step.exists_mem_of_any
        (moves.resolves_of_installed (entries.oldValue i lists.inside) met)

theorem owed (address d i : Nat) (dirty : Bool)
    (found : after.shared.mem address = pool.mwCASPtr d dirty)
    (listsAfter : after.shared.Lists d i address) :
    ∃ u, ∃ other ∈ after.threads u, other.Owes d i dirty := by
  have lists := (step.effect.lists_iff d i address).mp listsAfter
  have entries := invariant.descriptors.entries d lists.inUse
  have change := step.effect.wordChange address
  rw [found] at change
  rcases change.mwCASPtr_origin invariant.descriptors with ⟨wasDirty, before, cleared⟩ |
    ⟨j, listsJ, before, promotes⟩
  · obtain ⟨u, other, member, owes⟩ := invariant.owed address d i wasDirty before lists
    rcases step.mem_before member with ⟨-, rfl⟩ | kept
    · cases other with
      | mwCAS own calldepth pc =>
        obtain ⟨rfl, owes⟩ := owes
        cases step.moves with
        | mwCAS moves =>
          rw [step.shared] at found
          exact step.exists_mem_of_any (moves.owes invariant.descriptors invariant.words lists
            before found owes)
      | getValue own pc => exact owes.elim
    · exact ⟨u, other, kept, owes.of_dirty cleared⟩
  · have same : j = i := entries.eq_of_address_eq listsJ.inside lists.inside
      (listsJ.address_eq.trans lists.address_eq.symm)
    subst same
    obtain ⟨u, other, member, resolves⟩ := invariant.resolved address d j before lists
    rcases step.mem_before member with ⟨-, rfl⟩ | kept
    · exact step.exists_mem_of_any (step.moves.owes_of_promoted promotes resolves dirty)
    · exact ⟨u, other, kept, resolves.owes dirty⟩

theorem owner (u v d : Nat) (pc other : Pc) (memberU : .mwCAS d 0 pc ∈ after.threads u)
    (memberV : .mwCAS d 0 other ∈ after.threads v) : u = v := by
  obtain ⟨pcBefore, memberU⟩ := step.owner_before memberU
  obtain ⟨otherBefore, memberV⟩ := step.owner_before memberV
  exact invariant.owner u v d pcBefore otherBefore memberU memberV

/-- A frame below the top waits for a call. -/
theorem calling_of_mem_rest {other : Frame} (member : other ∈ rest) : other.Calling := by
  have ok := invariant.callStacks t
  rw [step.stack] at ok
  exact ok.calling member

/-- The garbage list grows only by the push of an owner, of a descriptor that was not on it. -/
theorem garbage_cases :
    (after.shared.garbage = before.shared.garbage ∧
        ∀ d calldepth, frame ≠ .mwCAS d calldepth .cleanupPush) ∨
      ∃ d, frame = .mwCAS d 0 .cleanupPush ∧ d ∉ before.shared.garbage ∧
        after.shared.garbage = d :: before.shared.garbage := by
  by_cases pushes : ∃ d calldepth, frame = .mwCAS d calldepth .cleanupPush
  · obtain ⟨d, calldepth, rfl⟩ := pushes
    have owner : calldepth = 0 := (invariant.depths t _ step.mem_top).1 trivial
    subst owner
    refine Or.inr ⟨d, rfl, ?_, ?_⟩
    · intro member
      exact ((invariant.pushed t d _ step.mem_top).mp member).elim
    · rw [step.shared]
      rfl
  · have notPush : ∀ d calldepth, frame ≠ .mwCAS d calldepth .cleanupPush :=
      fun d calldepth here => pushes ⟨d, calldepth, here⟩
    exact Or.inl ⟨step.effect.garbage_eq notPush, notPush⟩

theorem mem_garbage {d : Nat} (member : d ∈ before.shared.garbage) :
    d ∈ after.shared.garbage := by
  rcases step.garbage_cases invariant with ⟨same, -⟩ | ⟨e, -, -, grown⟩
  · rw [same]
    exact member
  · rw [grown]
    exact List.mem_cons_of_mem _ member

theorem owned (d : Nat) (used : after.shared.InUse d) (notPushed : d ∉ after.shared.garbage) :
    ∃ u pc, .mwCAS d 0 pc ∈ after.threads u := by
  have notBefore : d ∉ before.shared.garbage :=
    fun member => notPushed (step.mem_garbage invariant member)
  obtain ⟨u, pc, member⟩ :=
    invariant.owned d ((step.effect.inUse_iff d).mp used) notBefore
  rcases step.mem_before member with ⟨rfl, rfl⟩ | kept
  · have moves := step.moves
    cases moves with
    | mwCAS moves =>
      cases moves with
      | goto edge => exact ⟨u, _, step.mem_moved (List.mem_singleton_self _)⟩
      | help i rval =>
        exact ⟨u, _, step.mem_moved (List.mem_cons_of_mem _ (List.mem_singleton_self _))⟩
      | ret result => exact absurd ((invariant.pushed u d _ member).mpr trivial) notBefore
  · exact ⟨u, pc, kept⟩

theorem pushed (u d : Nat) (pc : Pc) (member : .mwCAS d 0 pc ∈ after.threads u) :
    d ∈ after.shared.garbage ↔ pc.Pushed := by
  rcases step.owner_origin member with ⟨rfl, source, rfl, edge⟩ | ⟨old, notTop⟩
  · have wasPushed := invariant.pushed u d source step.mem_top
    have ok := invariant.depths u _ step.mem_top
    have edgePushed : pc.Pushed ↔ source.Pushed ∨ source = .cleanupPush := by
      rcases edge with edge | ⟨i, rval, rfl, rfl⟩
      · exact edge.pushed ok
      · exact ⟨False.elim, fun impossible => impossible.elim id fun same => by cases same⟩
    rw [edgePushed]
    rcases step.garbage_cases invariant with ⟨same, notPush⟩ | ⟨e, here, -, grown⟩
    · rw [same, wasPushed]
      refine ⟨Or.inl, ?_⟩
      rintro (pushed | rfl)
      · exact pushed
      · exact absurd rfl (notPush d 0)
    · cases here
      rw [grown]
      exact ⟨fun _ => Or.inr rfl, fun _ => List.mem_cons_self⟩
  · have wasPushed := invariant.pushed u d pc old
    rcases step.garbage_cases invariant with ⟨same, -⟩ | ⟨e, rfl, -, grown⟩
    · rw [same]
      exact wasPushed
    · have different : d ≠ e := by
        rintro rfl
        obtain rfl := invariant.owner u t d pc _ old step.mem_top
        have same := (invariant.callStacks u).eq_of_calldepth_zero old step.mem_top rfl rfl
        have calling := step.calling_of_mem_rest invariant (notTop rfl)
        rw [same] at calling
        exact calling
      rw [grown, List.mem_cons, wasPushed]
      exact ⟨fun either => either.resolve_left different, Or.inr⟩

theorem garbage_inUse (d : Nat) (member : d ∈ after.shared.garbage) : after.shared.InUse d := by
  rw [step.effect.inUse_iff d]
  rcases step.garbage_cases invariant with ⟨same, -⟩ | ⟨e, rfl, -, grown⟩
  · rw [same] at member
    exact invariant.garbage_inUse d member
  · rw [grown] at member
    rcases List.mem_cons.mp member with rfl | old
    · exact (invariant.frames t _ step.mem_top).1
    · exact invariant.garbage_inUse d old

theorem garbage_nodup : after.shared.garbage.Nodup := by
  rcases step.garbage_cases invariant with ⟨same, -⟩ | ⟨e, -, notMember, grown⟩
  · rw [same]
    exact invariant.garbage_nodup
  · rw [grown]
    exact List.nodup_cons.mpr ⟨notMember, invariant.garbage_nodup⟩

theorem alone (u d : Nat) (pc : Pc) (member : .mwCAS d 0 pc ∈ after.threads u)
    (isPrivate : pc.Private) :
    (after.shared.desc d).status = .of .undecided ∧
      ∀ v, ∀ other ∈ after.threads v, other.Uses pool d → v = u ∧ other = .mwCAS d 0 pc := by
  rcases step.owner_origin member with ⟨rfl, source, rfl, edge⟩ | ⟨old, notTop⟩
  · -- the owner itself moves, from one private program point to the next
    have steps : source = .checkUndecided ∧ pc = .flushDescriptor ∨
        source = .flushDescriptor ∧ pc = .loadStatus := by
      rcases edge with edge | ⟨i, rval, rfl, rfl⟩
      · exact edge.private isPrivate
      · exact isPrivate.elim
    have sourcePrivate : source.Private := by
      rcases steps with ⟨rfl, -⟩ | ⟨rfl, -⟩ <;> trivial
    obtain ⟨status, onlyOwner⟩ := invariant.alone u d source step.mem_top sourcePrivate
    refine ⟨?_, ?_⟩
    · rw [step.shared]
      rcases steps with ⟨rfl, -⟩ | ⟨rfl, -⟩ <;> exact status
    · intro v other memberOther uses
      rcases step.mem_after memberOther with ⟨rfl, new⟩ | ⟨wasThere, notTop⟩
      · refine ⟨rfl, ?_⟩
        rcases steps with ⟨rfl, rfl⟩ | ⟨rfl, rfl⟩ <;>
        · cases step.moves with
          | mwCAS moves =>
            cases moves with
            | goto edge =>
              cases edge
              exact List.mem_singleton.mp new
      · obtain ⟨rfl, rfl⟩ := onlyOwner v other wasThere uses
        exact absurd (step.calling_of_mem_rest invariant (notTop rfl))
          (sourcePrivate.not_calling d 0)
  · -- another thread moves, and it cannot have come across the descriptor
    obtain ⟨status, onlyOwner⟩ := invariant.alone u d pc old isPrivate
    have otherThread : u ≠ t := by
      rintro rfl
      exact isPrivate.not_calling d 0 (step.calling_of_mem_rest invariant (notTop rfl))
    have unused : ¬ frame.Uses pool d :=
      fun uses => otherThread (onlyOwner t frame step.mem_top uses).1.symm
    refine ⟨?_, ?_⟩
    · rw [step.effect.desc_eq_of_not_uses unused]
      exact status
    · intro v other memberOther uses
      rcases step.mem_after memberOther with ⟨rfl, new⟩ | ⟨wasThere, -⟩
      · rcases (step.moves.uses invariant.descriptors invariant.words).of_mem new uses with
          used | ⟨address, points⟩
        · exact absurd used unused
        · exact absurd points (invariant.not_pointsTo_of_private old isPrivate)
      · exact onlyOwner v other wasThere uses

/-- A step of a thread keeps the invariant. -/
theorem invariant_after : Invariant build pool after where
  descriptors := step.effect.descriptorsOk invariant.descriptors
  words := step.effect.wordsOk invariant.descriptors invariant.words
  frames := step.frames invariant
  depths := step.depths invariant
  callStacks := step.callStacks invariant
  resolved := step.resolved invariant
  owed := step.owed invariant
  owner := step.owner invariant
  owned := step.owned invariant
  pushed := step.pushed invariant
  garbage_inUse := step.garbage_inUse invariant
  garbage_nodup := step.garbage_nodup invariant
  alone := step.alone invariant

end ThreadStep

/-! ### The other steps -/

/-- Giving a call to an idle thread leaves the other frames where they are. -/
theorem mem_update_of_idle {threads : Nat → List Frame} {t u : Nat} {frame other : Frame}
    (idle : threads t = []) :
    other ∈ Function.update threads t [frame] u ↔ (u = t ∧ other = frame) ∨ other ∈ threads u := by
  by_cases here : u = t
  · subst here
    rw [Function.update_self, idle, List.mem_singleton]
    simp
  · rw [Function.update_of_ne here]
    simp [here]

section Begin

variable {state : State} {t d : Nat} {requests : List Request} {filled : Descriptor}

/-- A filled descriptor is in order. -/
theorem entriesOk_of_filledWith {shared : Shared} (inside : d < pool.size)
    (valid : ∀ request ∈ requests, request.Valid)
    (holds : (shared.desc d).FilledWith (pool.descriptorAddress d) requests) :
    EntriesOk pool shared d where
  inside := inside
  count_le := holds.count_le
  sorted := holds.sorted
  address_ne i insideI := by
    obtain ⟨request, member, entry⟩ := holds.entries i insideI
    rw [entry]
    exact (valid request member).address_ne
  ownDesc i insideI := by
    obtain ⟨request, member, entry⟩ := holds.entries i insideI
    rw [entry]
    rfl
  oldValue i insideI := by
    obtain ⟨request, member, entry⟩ := holds.entries i insideI
    rw [entry]
    exact (valid request member).oldValue_clean
  newValue i insideI := by
    obtain ⟨request, member, entry⟩ := holds.entries i insideI
    rw [entry]
    exact (valid request member).newValue_clean

theorem Shared.not_inUse_of_finished {shared : Shared}
    (free : (shared.desc d).status = .of .finished) : ¬ shared.InUse d := by
  unfold Shared.InUse Shared.code
  rw [free]
  exact StatusCode.not_inUse_finished

theorem State.beginMwCAS_desc_self :
    (state.beginMwCAS build t d filled).shared.desc d = { filled with status := .of .undecided } :=
  Function.update_self _ _ _

theorem State.beginMwCAS_desc_of_ne {e : Nat} (different : e ≠ d) :
    (state.beginMwCAS build t d filled).shared.desc e = state.shared.desc e :=
  Function.update_of_ne different _ _

theorem State.beginMwCAS_code_self :
    (state.beginMwCAS build t d filled).shared.code d = .undecided := by
  rw [Shared.code, State.beginMwCAS_desc_self]
  rfl

/-- A new operation takes nothing back, since its descriptor was not in use. -/
theorem State.beginMwCAS_later (unused : ¬ state.shared.InUse d) :
    Shared.Later state.shared (state.beginMwCAS build t d filled).shared := by
  intro e
  by_cases same : e = d
  · subst same
    exact ⟨fun used => absurd used unused, fun used => absurd used unused,
      fun used => absurd used unused, fun decided => absurd decided.inUse unused,
      fun decided => absurd decided.inUse unused⟩
  · exact .of_desc_eq (State.beginMwCAS_desc_of_ne same)

theorem Pc.entry_private (build : Build) (calldepth : Nat) : (Pc.entry build calldepth).Private := by
  cases build with
  | persistent =>
    simp only [Pc.entry]
    split <;> trivial
  | volatile => trivial

theorem pcOk_entry {shared : Shared} (calldepth : Nat) :
    PcOk build pool shared d (.entry build calldepth) := by
  cases build with
  | persistent =>
    simp only [Pc.entry]
    split
    · exact rfl
    · trivial
  | volatile => trivial

theorem Pc.entry_not_pushed (build : Build) (calldepth : Nat) :
    ¬ (Pc.entry build calldepth).Pushed := by
  cases build with
  | persistent =>
    simp only [Pc.entry]
    split <;> exact id
  | volatile => exact id

theorem Pc.entry_ne_bailedHelp (build : Build) (calldepth : Nat) :
    Pc.entry build calldepth ≠ .bailedHelp := by
  intro same
  have alone := Pc.entry_private build calldepth
  rw [same] at alone
  exact alone

theorem Pc.Private.not_holds {pc : Pc} (alone : pc.Private) (e : Nat) : ¬ pc.Holds pool e := by
  cases pc <;> first | exact alone.elim | exact id

theorem Invariant.beginMwCAS (invariant : Invariant build pool state)
    (idle : state.threads t = []) (inside : d < pool.size)
    (free : (state.shared.desc d).status = .of .finished)
    (valid : ∀ request ∈ requests, request.Valid)
    (added : (state.shared.desc d).addEntries (pool.descriptorAddress d) requests = .ok filled) :
    Invariant build pool (state.beginMwCAS build t d filled) := by
  have unused : ¬ state.shared.InUse d := Shared.not_inUse_of_finished free
  have later : Shared.Later state.shared (state.beginMwCAS build t d filled).shared :=
    State.beginMwCAS_later unused
  have holds : filled.FilledWith (pool.descriptorAddress d) requests := by
    have empty := Descriptor.filledWith_nil (pool.descriptorAddress d)
      (invariant.descriptors.fresh d unused).1
    exact Descriptor.addEntries_filledWith empty added
  have members : ∀ {u : Nat} {other : Frame},
      other ∈ (state.beginMwCAS build t d filled).threads u ↔
        (u = t ∧ other = .mwCAS d 0 (.entry build 0)) ∨ other ∈ state.threads u :=
    mem_update_of_idle idle
  have nobody : ∀ u, ∀ other ∈ state.threads u, ¬ other.Uses pool d :=
    fun u other member uses => unused ((invariant.frames u other member).inUse_of_uses uses)
  have notOwned : ∀ u pc, .mwCAS d 0 pc ∉ state.threads u :=
    fun u pc member => nobody u _ member (Or.inl rfl)
  have notPointed : ∀ address, ¬ (state.shared.mem address).PointsTo pool d := by
    intro address points
    obtain ⟨u, other, member, uses⟩ := invariant.exists_uses points
    exact nobody u other member uses
  have listsBefore : ∀ {e i address : Nat}, e ≠ d →
      (state.beginMwCAS build t d filled).shared.Lists e i address →
      state.shared.Lists e i address :=
    fun different lists => lists.of_desc_eq (State.beginMwCAS_desc_of_ne different)
  have usedBefore : ∀ {e : Nat}, e ≠ d →
      (state.beginMwCAS build t d filled).shared.InUse e → state.shared.InUse e :=
    fun different used =>
      (Shared.LaterAt.of_desc_eq (State.beginMwCAS_desc_of_ne different).symm).inUse used
  have usedAfter : (state.beginMwCAS build t d filled).shared.InUse d := by
    unfold Shared.InUse
    rw [State.beginMwCAS_code_self]
    exact Or.inl rfl
  have entriesAfter : EntriesOk pool (state.beginMwCAS build t d filled).shared d := by
    refine entriesOk_of_filledWith inside valid ?_
    rw [State.beginMwCAS_desc_self]
    exact ⟨holds.sorted, holds.count_eq, holds.count_le, holds.entries⟩
  refine
    { descriptors := ⟨?_, ?_, ?_⟩
      words := fun address => (invariant.words address).later later
      frames := ?_, depths := ?_, callStacks := ?_, resolved := ?_, owed := ?_, owner := ?_
      owned := ?_, pushed := ?_, garbage_inUse := ?_, garbage_nodup := invariant.garbage_nodup
      alone := ?_ }
  · intro e used
    by_cases same : e = d
    · subst same
      exact entriesAfter
    · refine (invariant.descriptors.entries e (usedBefore same used)).later ?_ ?_
      · rw [State.beginMwCAS_desc_of_ne same]
      · rw [State.beginMwCAS_desc_of_ne same]
  · intro e dirty
    by_cases same : e = d
    · subst same
      rw [State.beginMwCAS_desc_self] at dirty
      cases dirty
    · rw [State.beginMwCAS_desc_of_ne same] at dirty
      obtain ⟨persistent, decided⟩ := invariant.descriptors.dirty e dirty
      exact ⟨persistent, (later e).decided decided⟩
  · intro e notUsed
    by_cases same : e = d
    · subst same
      exact absurd usedAfter notUsed
    · rw [Shared.code, State.beginMwCAS_desc_of_ne same]
      exact invariant.descriptors.fresh e fun used => notUsed ((later e).inUse used)
  · intro u other member
    rcases members.mp member with ⟨-, rfl⟩ | old
    · exact ⟨usedAfter, pcOk_entry 0⟩
    · exact (invariant.frames u other old).later fun e _ => later e
  · intro u other member
    rcases members.mp member with ⟨-, rfl⟩ | old
    · exact ⟨fun _ => rfl, fun bailed => absurd bailed (Pc.entry_ne_bailedHelp build 0)⟩
    · exact invariant.depths u other old
  · intro u
    show StackOk (Function.update state.threads t [.mwCAS d 0 (.entry build 0)] u)
    by_cases here : u = t
    · subst here
      rw [Function.update_self]
      exact rfl
    · rw [Function.update_of_ne here]
      exact invariant.callStacks u
  · intro address e i pointer lists
    by_cases same : e = d
    · subst same
      have room : i < kMaxCount := Nat.lt_of_lt_of_le lists.inside entriesAfter.count_le
      exact absurd (Or.inr ⟨i, room, pointer⟩) (notPointed address)
    · obtain ⟨u, other, member, resolves⟩ :=
        invariant.resolved address e i pointer (listsBefore same lists)
      exact ⟨u, other, members.mpr (Or.inr member), resolves⟩
  · intro address e i dirty pointer lists
    by_cases same : e = d
    · subst same
      exact absurd (Or.inl ⟨dirty, pointer⟩) (notPointed address)
    · obtain ⟨u, other, member, owes⟩ :=
        invariant.owed address e i dirty pointer (listsBefore same lists)
      exact ⟨u, other, members.mpr (Or.inr member), owes⟩
  · intro u v e pc other memberU memberV
    rcases members.mp memberU with ⟨rfl, new⟩ | oldU <;>
    rcases members.mp memberV with ⟨rfl, newV⟩ | oldV
    · rfl
    · cases new
      exact absurd oldV (notOwned v other)
    · cases newV
      exact absurd oldU (notOwned u pc)
    · exact invariant.owner u v e pc other oldU oldV
  · intro e used notPushed
    by_cases same : e = d
    · subst same
      exact ⟨t, _, members.mpr (Or.inl ⟨rfl, rfl⟩)⟩
    · obtain ⟨u, pc, member⟩ := invariant.owned e (usedBefore same used) notPushed
      exact ⟨u, pc, members.mpr (Or.inr member)⟩
  · intro u e pc member
    rcases members.mp member with ⟨-, new⟩ | old
    · cases new
      refine ⟨fun garbage => absurd (invariant.garbage_inUse d garbage) unused, ?_⟩
      intro pushed
      exact absurd pushed (Pc.entry_not_pushed build 0)
    · exact invariant.pushed u e pc old
  · intro e member
    exact (later e).inUse (invariant.garbage_inUse e member)
  · intro u e pc member isPrivate
    rcases members.mp member with ⟨rfl, new⟩ | old
    · cases new
      refine ⟨by rw [State.beginMwCAS_desc_self], ?_⟩
      intro v other memberOther uses
      rcases members.mp memberOther with ⟨rfl, rfl⟩ | oldOther
      · exact ⟨rfl, rfl⟩
      · exact absurd uses (nobody v other oldOther)
    · have different : e ≠ d := by
        rintro rfl
        exact notOwned u pc old
      obtain ⟨status, onlyOwner⟩ := invariant.alone u e pc old isPrivate
      refine ⟨by rw [State.beginMwCAS_desc_of_ne different]; exact status, ?_⟩
      intro v other memberOther uses
      rcases members.mp memberOther with ⟨-, rfl⟩ | oldOther
      · rcases uses with same | holds
        · exact absurd same.symm different
        · exact absurd holds ((Pc.entry_private build 0).not_holds e)
      · exact onlyOwner v other oldOther uses

end Begin

theorem DescriptorsOk.of_desc_eq {earlier later : Shared}
    (descriptors : DescriptorsOk build pool earlier) (same : later.desc = earlier.desc) :
    DescriptorsOk build pool later where
  entries d used := by
    have before : earlier.InUse d :=
      (Shared.LaterAt.of_desc_eq (congrFun same d).symm).inUse used
    refine (descriptors.entries d before).later ?_ ?_
    · rw [same]
    · rw [same]
  dirty d dirty := by
    rw [same] at dirty
    obtain ⟨persistent, decided⟩ := descriptors.dirty d dirty
    exact ⟨persistent, (Shared.LaterAt.of_desc_eq (congrFun same d)).decided decided⟩
  fresh d unused := by
    rw [Shared.code, same]
    exact descriptors.fresh d fun used =>
      unused ((Shared.LaterAt.of_desc_eq (congrFun same d)).inUse used)

theorem Invariant.beginGetValue {state : State} {t address : Nat}
    (invariant : Invariant build pool state) (idle : state.threads t = []) :
    Invariant build pool (state.beginGetValue t address) := by
  have members : ∀ {u : Nat} {other : Frame},
      other ∈ (state.beginGetValue t address).threads u ↔
        (u = t ∧ other = .getValue address .load) ∨ other ∈ state.threads u :=
    mem_update_of_idle idle
  have old : ∀ {u d : Nat} {pc : Pc},
      .mwCAS d 0 pc ∈ (state.beginGetValue t address).threads u → .mwCAS d 0 pc ∈ state.threads u := by
    intro u d pc member
    rcases members.mp member with ⟨-, impossible⟩ | old
    · cases impossible
    · exact old
  refine
    { descriptors := invariant.descriptors, words := invariant.words
      frames := ?_, depths := ?_, callStacks := ?_, resolved := ?_, owed := ?_, owner := ?_
      owned := ?_, pushed := fun u d pc member => invariant.pushed u d pc (old member)
      garbage_inUse := invariant.garbage_inUse, garbage_nodup := invariant.garbage_nodup
      alone := ?_ }
  · intro u other member
    rcases members.mp member with ⟨-, rfl⟩ | old
    · trivial
    · exact invariant.frames u other old
  · intro u other member
    rcases members.mp member with ⟨-, rfl⟩ | old
    · trivial
    · exact invariant.depths u other old
  · intro u
    show StackOk (Function.update state.threads t [.getValue address .load] u)
    by_cases here : u = t
    · subst here
      rw [Function.update_self]
      exact rfl
    · rw [Function.update_of_ne here]
      exact invariant.callStacks u
  · intro a d i pointer lists
    obtain ⟨u, other, member, resolves⟩ := invariant.resolved a d i pointer lists
    exact ⟨u, other, members.mpr (Or.inr member), resolves⟩
  · intro a d i dirty pointer lists
    obtain ⟨u, other, member, owes⟩ := invariant.owed a d i dirty pointer lists
    exact ⟨u, other, members.mpr (Or.inr member), owes⟩
  · intro u v d pc other memberU memberV
    exact invariant.owner u v d pc other (old memberU) (old memberV)
  · intro d used notPushed
    obtain ⟨u, pc, member⟩ := invariant.owned d used notPushed
    exact ⟨u, pc, members.mpr (Or.inr member)⟩
  · intro u d pc member isPrivate
    obtain ⟨status, onlyOwner⟩ := invariant.alone u d pc (old member) isPrivate
    refine ⟨status, ?_⟩
    intro v other memberOther uses
    rcases members.mp memberOther with ⟨-, rfl⟩ | oldOther
    · exact uses.elim
    · exact onlyOwner v other oldOther uses

/-- The invariant says nothing about the durable copies. -/
theorem Invariant.of_durable {state after : State} (invariant : Invariant build pool state)
    (mem : after.shared.mem = state.shared.mem) (desc : after.shared.desc = state.shared.desc)
    (garbage : after.shared.garbage = state.shared.garbage) (threads : after.threads = state.threads) :
    Invariant build pool after := by
  have later : Shared.Later state.shared after.shared := fun d => .of_desc_eq (congrFun desc d)
  have listsBefore : ∀ {d i address : Nat}, after.shared.Lists d i address →
      state.shared.Lists d i address :=
    fun lists => lists.of_desc_eq (congrFun desc _)
  refine
    { descriptors := invariant.descriptors.of_desc_eq desc
      words := ?_, frames := ?_, depths := ?_, callStacks := ?_, resolved := ?_, owed := ?_
      owner := ?_, owned := ?_, pushed := ?_, garbage_inUse := ?_, garbage_nodup := ?_
      alone := ?_ }
  · intro address
    rw [mem]
    exact (invariant.words address).later later
  · intro u other member
    rw [threads] at member
    exact (invariant.frames u other member).later fun d _ => later d
  · rw [threads]
    exact invariant.depths
  · rw [threads]
    exact invariant.callStacks
  · intro a d i pointer lists
    rw [mem] at pointer
    rw [threads]
    exact invariant.resolved a d i pointer (listsBefore lists)
  · intro a d i dirty pointer lists
    rw [mem] at pointer
    rw [threads]
    exact invariant.owed a d i dirty pointer (listsBefore lists)
  · rw [threads]
    exact invariant.owner
  · intro d used notPushed
    rw [garbage] at notPushed
    rw [threads]
    exact invariant.owned d ((Shared.LaterAt.of_desc_eq (congrFun desc d).symm).inUse used)
      notPushed
  · rw [threads, garbage]
    exact invariant.pushed
  · intro d member
    rw [garbage] at member
    exact (later d).inUse (invariant.garbage_inUse d member)
  · rw [garbage]
    exact invariant.garbage_nodup
  · rw [threads, desc]
    exact invariant.alone

theorem State.recycle_desc_self {state : State} {d : Nat} :
    (state.recycle d).shared.desc d = .initialized :=
  Function.update_self _ _ _

theorem State.recycle_desc_of_ne {state : State} {d e : Nat} (different : e ≠ d) :
    (state.recycle d).shared.desc e = state.shared.desc e :=
  Function.update_of_ne different _ _

theorem State.recycle_not_inUse {state : State} {d : Nat} : ¬ (state.recycle d).shared.InUse d := by
  refine Shared.not_inUse_of_finished ?_
  rw [State.recycle_desc_self]
  rfl

/-- Nothing points to a descriptor that nobody uses. -/
theorem Invariant.not_pointsTo_of_unused {state : State} {d : Nat}
    (invariant : Invariant build pool state) (unused : state.Unused pool d) (address : Nat) :
    ¬ (state.shared.mem address).PointsTo pool d := by
  intro points
  obtain ⟨t, frame, member, uses⟩ := invariant.exists_uses points
  exact unused t frame member uses

theorem WordOk.later_of_pointsTo {earlier later : Shared} {address : Nat} {word : Word}
    (descriptors : DescriptorsOk build pool earlier) (ok : WordOk build pool earlier address word)
    (step : ∀ d, word.PointsTo pool d → Shared.LaterAt earlier later d) :
    WordOk build pool later address word := by
  refine ⟨?_, ok.clean⟩
  rcases ok.form with value | reference | reference
  · exact Or.inl value
  · exact Or.inr (Or.inl (reference.later (step _ (reference.pointsTo descriptors))))
  · exact Or.inr (Or.inr (reference.later (step _ reference.pointsTo)))

theorem Invariant.recycle {state : State} {d : Nat} (invariant : Invariant build pool state)
    (unused : state.Unused pool d) : Invariant build pool (state.recycle d) := by
  have later : ∀ {e : Nat}, e ≠ d → Shared.LaterAt state.shared (state.recycle d).shared e :=
    fun different => .of_desc_eq (State.recycle_desc_of_ne different)
  have notUsed : ∀ {e : Nat}, (state.recycle d).shared.InUse e → e ≠ d := by
    rintro e used rfl
    exact State.recycle_not_inUse used
  have usedBefore : ∀ {e : Nat}, (state.recycle d).shared.InUse e → state.shared.InUse e :=
    fun used =>
      (Shared.LaterAt.of_desc_eq (State.recycle_desc_of_ne (notUsed used)).symm).inUse used
  have listsBefore : ∀ {e i address : Nat}, (state.recycle d).shared.Lists e i address →
      state.shared.Lists e i address :=
    fun lists => lists.of_desc_eq (State.recycle_desc_of_ne (notUsed lists.inUse))
  have garbage : ∀ {e : Nat}, e ∈ (state.recycle d).shared.garbage ↔
      e ≠ d ∧ e ∈ state.shared.garbage :=
    invariant.garbage_nodup.mem_erase_iff
  refine
    { descriptors := ⟨?_, ?_, ?_⟩
      words := ?_, frames := ?_, depths := invariant.depths, callStacks := invariant.callStacks
      resolved := fun address e i pointer lists =>
        invariant.resolved address e i pointer (listsBefore lists)
      owed := fun address e i dirty pointer lists =>
        invariant.owed address e i dirty pointer (listsBefore lists)
      owner := invariant.owner, owned := ?_, pushed := ?_, garbage_inUse := ?_
      garbage_nodup := invariant.garbage_nodup.erase d, alone := ?_ }
  · intro e used
    refine (invariant.descriptors.entries e (usedBefore used)).later ?_ ?_
    · rw [State.recycle_desc_of_ne (notUsed used)]
    · rw [State.recycle_desc_of_ne (notUsed used)]
  · intro e dirty
    by_cases same : e = d
    · subst same
      rw [State.recycle_desc_self] at dirty
      cases dirty
    · rw [State.recycle_desc_of_ne same] at dirty
      obtain ⟨persistent, decided⟩ := invariant.descriptors.dirty e dirty
      exact ⟨persistent, (later same).decided decided⟩
  · intro e notInUse
    by_cases same : e = d
    · subst same
      rw [Shared.code, State.recycle_desc_self]
      exact ⟨rfl, rfl⟩
    · rw [Shared.code, State.recycle_desc_of_ne same]
      exact invariant.descriptors.fresh e fun used => notInUse ((later same).inUse used)
  · intro address
    refine (invariant.words address).later_of_pointsTo invariant.descriptors ?_
    intro e points
    refine later ?_
    rintro rfl
    exact invariant.not_pointsTo_of_unused unused address points
  · intro t frame member
    refine (invariant.frames t frame member).later ?_
    intro e uses
    refine later ?_
    rintro rfl
    exact unused t frame member uses
  · intro e used notPushed
    refine invariant.owned e (usedBefore used) ?_
    intro member
    exact notPushed (garbage.mpr ⟨notUsed used, member⟩)
  · intro t e pc member
    have different : e ≠ d := by
      rintro rfl
      exact unused t _ member (Or.inl rfl)
    rw [← invariant.pushed t e pc member, garbage]
    exact ⟨And.right, fun pushed => ⟨different, pushed⟩⟩
  · intro e member
    obtain ⟨different, pushed⟩ := garbage.mp member
    exact (later different).inUse (invariant.garbage_inUse e pushed)
  · intro t e pc member isPrivate
    have different : e ≠ d := by
      rintro rfl
      exact unused t _ member (Or.inl rfl)
    rw [State.recycle_desc_of_ne different]
    exact invariant.alone t e pc member isPrivate

/-! ### The invariant holds in every state of every run -/

theorem Initial.invariant {state : State} (initial : Initial build state) :
    Invariant build pool state := by
  have nobody : ∀ t frame, frame ∉ state.threads t := by
    intro t frame member
    rw [initial.idle t] at member
    cases member
  have unused : ∀ d, ¬ state.shared.InUse d := by
    intro d
    refine Shared.not_inUse_of_finished ?_
    rw [initial.fresh d]
    rfl
  refine
    { descriptors := ⟨fun d used => absurd used (unused d), ?_, ?_⟩
      words := fun address => ⟨Or.inl (initial.values address), fun volatile =>
        initial.clean volatile address⟩
      frames := fun t frame member => absurd member (nobody t frame)
      depths := fun t frame member => absurd member (nobody t frame)
      callStacks := ?_
      resolved := fun address d i _ lists => absurd lists.inUse (unused d)
      owed := fun address d i dirty _ lists => absurd lists.inUse (unused d)
      owner := fun t u d pc other member => absurd member (nobody t _)
      owned := fun d used => absurd used (unused d)
      pushed := fun t d pc member => absurd member (nobody t _)
      garbage_inUse := ?_, garbage_nodup := ?_
      alone := fun t d pc member => absurd member (nobody t _) }
  · intro d dirty
    rw [initial.fresh d] at dirty
    cases dirty
  · intro d _
    rw [Shared.code, initial.fresh d]
    exact ⟨rfl, rfl⟩
  · intro t
    rw [initial.idle t]
    trivial
  · intro d member
    rw [initial.garbage] at member
    cases member
  · rw [initial.garbage]
    exact List.nodup_nil

/-- Every step of the system that recycles no descriptor in use keeps the invariant. -/
theorem Invariant.step {before after : State} {action : Action}
    (invariant : Invariant build pool before) (recycles : RecyclesUnused pool before action)
    (step : Step build pool before action after) : Invariant build pool after := by
  cases step with
  | step performed =>
    obtain ⟨frame, rest, move, step⟩ := invariant.threadStep performed
    exact step.invariant_after invariant
  | mwCAS idle inside free valid added => exact invariant.beginMwCAS idle inside free valid added
  | getValue idle => exact invariant.beginGetValue idle
  | writeBack address => exact invariant.of_durable rfl rfl rfl rfl
  | writeBackField d field => exact invariant.of_durable rfl rfl rfl rfl
  | recycle pushed => exact invariant.recycle (recycles _ rfl)

/-- A descriptor that is not recycled in a step keeps what its users rely on. -/
theorem Invariant.laterAt {before after : State} {action : Action} {d : Nat}
    (invariant : Invariant build pool before) (step : Step build pool before action after)
    (kept : action ≠ .recycle d) : Shared.LaterAt before.shared after.shared d := by
  cases step with
  | step performed =>
    obtain ⟨frame, rest, move, step⟩ := invariant.threadStep performed
    exact step.effect.later d
  | mwCAS idle inside free valid added =>
    exact State.beginMwCAS_later (Shared.not_inUse_of_finished free) d
  | getValue | writeBack | writeBackField => exact .of_desc_eq rfl
  | @recycle e pushed =>
    refine .of_desc_eq (State.recycle_desc_of_ne ?_)
    rintro rfl
    exact kept rfl

/-- The status code of a descriptor in use changes only by the decision of its operation. -/
theorem Invariant.code_cases {before after : State} {action : Action} {d : Nat}
    (invariant : Invariant build pool before) (step : Step build pool before action after)
    (used : before.shared.InUse d) (kept : action ≠ .recycle d) :
    after.shared.code d = before.shared.code d ∨
      (before.shared.code d = .undecided ∧ (after.shared.code d).Decided) := by
  rcases used with undecided | decided
  · cases step with
    | step performed =>
      obtain ⟨frame, rest, move, step⟩ := invariant.threadStep performed
      rcases step.effect.code_cases d with same | ⟨undecided, decided, -⟩
      · exact Or.inl same
      · exact Or.inr ⟨undecided, decided⟩
    | @mwCAS t e requests filled idle inside free valid added =>
      refine Or.inl ?_
      have different : d ≠ e := by
        rintro rfl
        exact Shared.not_inUse_of_finished free (Or.inl undecided)
      rw [Shared.code, State.beginMwCAS_desc_of_ne different]
      rfl
    | getValue | writeBack | writeBackField => exact Or.inl rfl
    | @recycle e pushed =>
      refine Or.inl ?_
      have different : d ≠ e := by
        rintro rfl
        exact kept rfl
      rw [Shared.code, State.recycle_desc_of_ne different]
      rfl
  · exact Or.inl ((invariant.laterAt step kept).code decided)

/-- The invariant holds in every state of every run that recycles no descriptor in use. -/
theorem invariant_of_run (run : Transition.Run (system build pool))
    (recycles : run.Meets (RecyclesUnused pool)) (index : Nat) (inside : index ≤ run.length) :
    Invariant build pool (run.state index) :=
  run.invariant recycles (fun _ initial => Initial.invariant initial)
    (fun _ _ _ invariant recycles step => invariant.step recycles step) index inside

end Pmwcas
