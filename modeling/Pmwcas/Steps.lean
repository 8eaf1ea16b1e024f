/-
This file goes through the program once. For every program point it proves that a step of a frame
in order has one of the effects of `Effects.lean` on shared memory (`Frame.step_effect`), and that
the frame or frames the step leaves are again in order (`Frame.step_ok`). In particular no step of
a frame in order fails a `RAW_CHECK`; for the first check of an owner that is the hypothesis
`fresh`, which the ownership of a new descriptor gives.
-/

import Pmwcas.Effects

namespace Pmwcas

variable {build : Build} {pool : Pool} {shared : Shared}

/-! ### Pointers and the descriptors they lead to -/

theorem CondRef.word {address : Nat} {pointer : Word} (reference : CondRef pool shared address pointer) :
    (shared.wordDescriptor pool pointer).address = address :=
  reference.2.address_eq

theorem CondRef.descriptorPtr {address : Nat} {pointer : Word} (dirty : Bool)
    (descriptors : DescriptorsOk build pool shared)
    (reference : CondRef pool shared address pointer) :
    (shared.wordDescriptor pool pointer).descriptorPtr dirty =
      pool.mwCASPtr (pool.descriptorAt pointer.rest) dirty := by
  have own := (descriptors.entries _ reference.2.inUse).ownDesc _ reference.2.inside
  unfold WordDescriptor.descriptorPtr Pool.mwCASPtr Shared.wordDescriptor
  rw [own]

theorem CondRef.ownStatus {address : Nat} {pointer : Word}
    (descriptors : DescriptorsOk build pool shared)
    (reference : CondRef pool shared address pointer) :
    shared.ownStatus pool (shared.wordDescriptor pool pointer) =
      (shared.desc (pool.descriptorAt pointer.rest)).status := by
  have own := (descriptors.entries _ reference.2.inUse).ownDesc _ reference.2.inside
  unfold Shared.ownStatus Shared.wordDescriptor
  rw [own, Pool.descriptorAt_descriptorAddress]

theorem MwRef.of_lists {d i address : Nat} (dirty : Bool) (lists : shared.Lists d i address) :
    MwRef pool shared address (pool.mwCASPtr d dirty) := by
  unfold MwRef
  rw [Pool.mwCASPtr_rest, Pool.descriptorAt_descriptorAddress, Pool.mwCASPtr_dirty]
  exact ⟨rfl, i, lists⟩

theorem CondRef.of_lists {d i address : Nat} (descriptors : DescriptorsOk build pool shared)
    (lists : shared.Lists d i address) :
    CondRef pool shared address (pool.condCASPtr d i) := by
  have inside : i < kMaxCount :=
    Nat.lt_of_lt_of_le lists.inside (descriptors.entries d lists.inUse).count_le
  unfold CondRef
  rw [Pool.condCASPtr_rest, Pool.descriptorAt_wordAddress _ _ _ inside,
    Pool.wordAt_wordAddress _ _ _ inside]
  exact ⟨rfl, lists⟩

/-- The entry of a frame's own descriptor lists its word. -/
theorem Shared.lists_self {d i : Nat} (used : shared.InUse d) (inside : i < (shared.desc d).count) :
    shared.Lists d i ((shared.desc d).words i).address :=
  ⟨used, inside, rfl⟩

/-! ### The effect of a step -/

/-- An exchange of a CondCAS pointer for the MwCAS pointer or for the old value. -/
theorem effect_resolve {frame : Frame} {d i address : Nat} {undecided : Bool}
    (lists : shared.Lists d i address)
    (promotes : undecided = true → frame.Promotes pool d i)
    (decided : undecided = false → shared.Decided d) :
    Effect build pool shared frame (shared.compareExchange64 address
      (if undecided then pool.mwCASPtr d build.dirtyFlag else ((shared.desc d).words i).oldValue)
      (pool.condCASPtr d i)) := by
  rcases shared.compareExchange64_cases address
    (if undecided then pool.mwCASPtr d build.dirtyFlag else ((shared.desc d).words i).oldValue)
    (pool.condCASPtr d i) with ⟨holds, exchanged⟩ | ⟨-, exchanged⟩
  · rw [exchanged]
    cases undecided with
    | true => exact .promote lists holds (promotes rfl)
    | false => exact .revert lists holds (decided rfl)
  · rw [exchanged]
    exact .skip _

/-- The same exchange, made through a CondCAS pointer read from the word. -/
theorem effect_resolve_pointer {frame : Frame} {address : Nat} {pointer : Word} {undecided : Bool}
    (descriptors : DescriptorsOk build pool shared)
    (reference : CondRef pool shared address pointer)
    (promotes : undecided = true →
      frame.Promotes pool (pool.descriptorAt pointer.rest) (pool.wordAt pointer.rest))
    (decided : undecided = false → shared.Decided (pool.descriptorAt pointer.rest)) :
    Effect build pool shared frame (shared.compareExchange64
      (shared.wordDescriptor pool pointer).address
      (if undecided then (shared.wordDescriptor pool pointer).descriptorPtr build.dirtyFlag
        else (shared.wordDescriptor pool pointer).oldValue) pointer) := by
  rw [reference.descriptorPtr build.dirtyFlag descriptors, reference.word]
  have resolved : Effect build pool shared frame (shared.compareExchange64 address
      (if undecided then pool.mwCASPtr (pool.descriptorAt pointer.rest) build.dirtyFlag
        else (shared.wordDescriptor pool pointer).oldValue)
      (pool.condCASPtr (pool.descriptorAt pointer.rest) (pool.wordAt pointer.rest))) :=
    effect_resolve reference.2 promotes decided
  rwa [← reference.1] at resolved

/-- An exchange that clears the dirty bit of a word. -/
theorem effect_clear {frame : Frame} {address : Nat} {word : Word} (dirty : word.dirty = true)
    (clears : frame.Clears pool shared address word) :
    Effect build pool shared frame (shared.compareExchange64 address word.clearDirty word) := by
  rcases shared.compareExchange64_cases address word.clearDirty word with
    ⟨holds, exchanged⟩ | ⟨-, exchanged⟩
  · rw [exchanged, ← holds]
    rw [← holds] at dirty clears
    exact .clearDirty dirty clears
  · rw [exchanged]
    exact .skip _

/-- An exchange of the MwCAS pointer for the final value. -/
theorem effect_finalise {frame : Frame} {d i : Nat} {dirty succeeded : Bool}
    (inside : i < (shared.desc d).count) (verdict : shared.Verdict d succeeded)
    (finalises : frame.Finalises d i succeeded) :
    Effect build pool shared frame (shared.compareExchange64 ((shared.desc d).words i).address
      ((((shared.desc d).words i).finalValue succeeded).withDirty build.dirtyFlag)
      (pool.mwCASPtr d dirty)) := by
  rcases shared.compareExchange64_cases ((shared.desc d).words i).address
    ((((shared.desc d).words i).finalValue succeeded).withDirty build.dirtyFlag)
    (pool.mwCASPtr d dirty) with ⟨holds, exchanged⟩ | ⟨-, exchanged⟩
  · rw [exchanged]
    exact .finalise (Shared.lists_self verdict.settled.decided.inUse inside) holds verdict
      finalises
  · rw [exchanged]
    exact .skip _

theorem EntriesOk.finalValue_clean {d i : Nat} (entries : EntriesOk pool shared d)
    (inside : i < (shared.desc d).count) (succeeded : Bool) :
    (((shared.desc d).words i).finalValue succeeded).isCleanPtr = true := by
  cases succeeded with
  | true => exact entries.newValue i inside
  | false => exact entries.oldValue i inside

theorem stepMwCAS_effect {d calldepth : Nat} {pc : Pc}
    (descriptors : DescriptorsOk build pool shared)
    (ok : FrameOk build pool shared (.mwCAS d calldepth pc)) :
    Effect build pool shared (.mwCAS d calldepth pc)
      (stepMwCAS build pool shared d calldepth pc).1 := by
  obtain ⟨used, facts⟩ := ok
  cases pc with
  | checkUndecided | loadStatus | bailedHelp | loadDesired | recheckWord | loadResolve | loadOwn
  | help | loadTarget | checkDecided | loadForClear | loadVerdict | cleanupDirty | cleanupFailed
  | cleanupSucceeded | cleanupReturn | ret | rawCheckFailed => exact .skip _
  | flushDescriptor => exact .flushDescriptor d calldepth
  | persistOldStatus | persistStatus => exact .flushStatus d calldepth _
  | clearOldStatus old =>
    show Effect build pool shared _ (shared.compareExchange32 d old.clearDirty old)
    rcases shared.compareExchange32_cases d old.clearDirty old with ⟨holds, exchanged⟩ |
      ⟨-, exchanged⟩
    · rw [exchanged, ← holds]
      exact .clearStatus trivial
    · rw [exchanged]
      exact .skip _
  | installCondCAS i =>
    show Effect build pool shared _ (shared.compareExchange64 ((shared.desc d).words i).address
      (pool.condCASPtr d i) ((shared.desc d).words i).oldValue)
    rcases shared.compareExchange64_cases ((shared.desc d).words i).address
      (pool.condCASPtr d i) ((shared.desc d).words i).oldValue with ⟨holds, exchanged⟩ |
      ⟨-, exchanged⟩
    · rw [exchanged]
      exact .install (Shared.lists_self used facts) holds
    · rw [exchanged]
      exact .skip _
  | casResolve i pointer desired undecided =>
    obtain ⟨-, reference, decided⟩ := facts
    exact effect_resolve_pointer descriptors reference
      (fun read => by subst read; exact reference.1) decided
  | casOwn i undecided =>
    obtain ⟨inside, decided⟩ := facts
    exact effect_resolve (Shared.lists_self used inside)
      (fun read => by subst read; exact ⟨rfl, rfl⟩) decided
  | flushConflict | flushTarget | finalFlush => exact .flushWord _ _
  | clearConflict i rval =>
    obtain ⟨-, -, dirty, -⟩ := facts
    exact effect_clear dirty ⟨rfl, rfl⟩
  | clearTarget i =>
    have dirty : (pool.mwCASPtr d true).dirty = true := rfl
    exact effect_clear dirty ⟨rfl, rfl⟩
  | decide myStatus =>
    show Effect build pool shared _ (shared.compareExchange32 d
      { code := myStatus, dirty := build.dirtyFlag } (.of .undecided))
    rcases shared.compareExchange32_cases d { code := myStatus, dirty := build.dirtyFlag }
      (.of .undecided) with ⟨holds, exchanged⟩ | ⟨-, exchanged⟩
    · rw [exchanged]
      exact .decide (congrArg Status.code holds) facts
    · rw [exchanged]
      exact .skip _
  | storeClear loaded =>
    obtain ⟨-, -, sameCode⟩ := facts
    have same : loaded.clearDirty = (shared.desc d).status.clearDirty :=
      Status.ext sameCode rfl
    show Effect build pool shared _ (shared.storeStatus d loaded.clearDirty)
    rw [same]
    exact .clearStatus trivial
  | finalCAS i succeeded =>
    obtain ⟨inside, verdict⟩ := facts
    cases build with
    | persistent => exact effect_finalise inside verdict ⟨rfl, rfl, rfl⟩
    | volatile =>
      have clean : (((shared.desc d).words i).finalValue succeeded).withDirty
          Build.volatile.dirtyFlag = ((shared.desc d).words i).finalValue succeeded :=
        Word.clearDirty_of_isCleanPtr
          ((descriptors.entries d used).finalValue_clean inside succeeded)
      show Effect .volatile pool shared _ (shared.compareExchange64
        ((shared.desc d).words i).address (((shared.desc d).words i).finalValue succeeded)
        (pool.mwCASPtr d false))
      rw [← clean]
      exact effect_finalise inside verdict ⟨rfl, rfl, rfl⟩
  | finalRetry i succeeded =>
    obtain ⟨inside, rfl, verdict⟩ := facts
    exact effect_finalise inside verdict ⟨rfl, rfl, rfl⟩
  | finalClear i succeeded => exact effect_clear rfl ⟨rfl, rfl⟩
  | cleanupPush => exact .push d calldepth

theorem stepGetValue_effect {address : Nat} {pc : ReadPc}
    (descriptors : DescriptorsOk build pool shared)
    (ok : FrameOk build pool shared (.getValue address pc)) :
    Effect build pool shared (.getValue address pc)
      (stepGetValue build pool shared address pc).1 := by
  cases pc with
  | load | loadStatus | help | ret | rawCheckFailed => exact .skip _
  | casCond val undecided =>
    obtain ⟨reference, decided⟩ := ok
    exact effect_resolve_pointer descriptors reference
      (fun read => by subst read; exact reference.1) decided
  | flush => exact .flushWord _ _
  | clear val => exact effect_clear ok.2.1 ⟨rfl, rfl⟩

/-- Every step of a frame in order has one of the effects. -/
theorem Frame.step_effect {frame : Frame} (descriptors : DescriptorsOk build pool shared)
    (ok : FrameOk build pool shared frame) :
    Effect build pool shared frame (frame.step build pool shared).1 := by
  cases frame with
  | mwCAS d calldepth pc => exact stepMwCAS_effect descriptors ok
  | getValue address pc => exact stepGetValue_effect descriptors ok

/-! ### The frames a step leaves -/

theorem pcOk_enterTarget {d : Nat} (i : Nat) (persistent : build = .persistent) :
    PcOk build pool shared d (.enterTarget (shared.desc d) i) := by
  unfold Pc.enterTarget
  split
  · rename_i inside
    exact ⟨inside, persistent⟩
  · exact Or.inl rfl

theorem pcOk_enterInstall {d : Nat} (i : Nat) :
    PcOk build pool shared d (.enterInstall build (shared.desc d) i) := by
  unfold Pc.enterInstall
  split
  · rename_i inside
    exact inside
  · cases build with
    | persistent => exact pcOk_enterTarget 0 rfl
    | volatile => exact Or.inl rfl

theorem pcOk_enterFinal {d : Nat} (calldepth i : Nat) {succeeded : Bool}
    (verdict : shared.Verdict d succeeded) :
    PcOk build pool shared d (.enterFinal (shared.desc d) calldepth i succeeded) := by
  unfold Pc.enterFinal
  split
  · rename_i inside
    exact ⟨inside, verdict⟩
  · split
    · exact verdict.settled
    · exact verdict

theorem pcOk_afterCondCAS {d i : Nat} {rval : Word} (inside : i < (shared.desc d).count)
    (form : rval.IsValue ∨ MwRef pool shared ((shared.desc d).words i).address rval) :
    PcOk build pool shared d (.afterCondCAS build pool d (shared.desc d) i rval) := by
  unfold Pc.afterCondCAS
  split
  · exact pcOk_enterInstall (i + 1)
  · split
    · rename_i isPointer
      have reference : MwRef pool shared ((shared.desc d).words i).address rval := by
        rcases form with value | reference
        · exact absurd isPointer (by simp [Word.isMwCASDescriptorPtr, value.1])
        · exact reference
      split
      · rename_i conflict
        exact ⟨inside, conflict.1, conflict.2, reference⟩
      · exact ⟨inside, reference⟩
    · exact Or.inr rfl

theorem readPcOk_afterClean {address : Nat} {val : Word} (clean : val.dirty = false)
    (form : val.IsValue ∨ MwRef pool shared address val) :
    ReadPcOk build pool shared address (.afterClean val) := by
  unfold ReadPc.afterClean
  rw [if_neg (by simp [clean])]
  rcases form with value | reference
  · rw [if_neg (by simp [Word.isMwCASDescriptorPtr, value.1]),
      if_pos ((Word.isCleanPtr_iff val).mpr ⟨value.1, value.2, clean⟩)]
    exact (Word.isCleanPtr_iff val).mpr ⟨value.1, value.2, clean⟩
  · have nonzero : val.rest ≠ 0 := by
      rw [reference.1]
      exact Nat.ne_of_gt (pool.descriptorAddress_pos _)
    have isPointer : val.isMwCASDescriptorPtr = true := reference.flags.1
    rw [if_pos isPointer, if_neg nonzero]
    exact reference

theorem WordOk.condRef {address : Nat} {word : Word} (ok : WordOk build pool shared address word)
    (conditional : word.isCondCASDescriptorPtr = true) : CondRef pool shared address word := by
  rcases ok.form with value | reference | reference
  · exact absurd conditional (by simp [Word.isCondCASDescriptorPtr, value.2])
  · exact reference
  · exact absurd conditional (by simp [Word.isCondCASDescriptorPtr, reference.flags.2])

theorem WordOk.value_or_mwRef {address : Nat} {word : Word}
    (ok : WordOk build pool shared address word)
    (notConditional : ¬ word.isCondCASDescriptorPtr = true) :
    word.IsValue ∨ MwRef pool shared address word := by
  rcases ok.form with value | reference | reference
  · exact Or.inl value
  · exact absurd reference.condcas notConditional
  · exact Or.inr reference

theorem readPcOk_afterLoad {address : Nat} {val : Word} (ok : WordOk build pool shared address val) :
    ReadPcOk build pool shared address (.afterLoad build val) := by
  unfold ReadPc.afterLoad
  by_cases conditional : val.isCondCASDescriptorPtr = true
  · have reference := ok.condRef conditional
    have notDirty : val.isDirtyPtr = false := by
      rw [reference.1]
      rfl
    rw [if_pos conditional, if_neg (by simp [notDirty])]
    exact reference
  · rw [if_neg conditional]
    have form := ok.value_or_mwRef conditional
    cases build with
    | persistent =>
      show ReadPcOk .persistent pool shared address
        (if val.isDirtyPtr then .flush val else .afterClean val)
      split
      · rename_i dirty
        exact ⟨rfl, dirty, form⟩
      · rename_i notDirty
        exact readPcOk_afterClean (Bool.eq_false_iff.mpr notDirty) form
    | volatile =>
      have clean : val.dirty = false := ok.clean rfl
      rcases form with value | reference
      · show ReadPcOk .volatile pool shared address (if val.isMwCASDescriptorPtr then _ else _)
        rw [if_neg (by simp [Word.isMwCASDescriptorPtr, value.1])]
        exact (Word.isCleanPtr_iff val).mpr ⟨value.1, value.2, clean⟩
      · have nonzero : val.rest ≠ 0 := by
          rw [reference.1]
          exact Nat.ne_of_gt (pool.descriptorAddress_pos _)
        have isPointer : val.isMwCASDescriptorPtr = true := reference.flags.1
        show ReadPcOk .volatile pool shared address (if val.isMwCASDescriptorPtr then
          (if val.rest = 0 then _ else _) else _)
        rw [if_pos isPointer, if_neg nonzero]
        exact reference

/-- A frame in order before an effect is in order after it. -/
theorem FrameOk.after {frame other : Frame} {after : Shared} (ok : FrameOk build pool shared other)
    (effect : Effect build pool shared frame after) : FrameOk build pool after other :=
  ok.later fun d _ => effect.later d

theorem Shared.InUse.decided_of_status_ne {d : Nat} (used : shared.InUse d)
    (clean : (shared.desc d).status.dirty = false)
    (different : (shared.desc d).status ≠ .of .undecided) : shared.Decided d := by
  refine StatusCode.InUse.decided_of_ne used ?_
  intro undecided
  exact different ((Status.eq_of_iff _ _).mpr ⟨undecided, clean⟩)

/-- A status read as something else than Undecided is decided: it is dirty only when it is. -/
theorem DescriptorsOk.decided_of_ne {d : Nat} (descriptors : DescriptorsOk build pool shared)
    (used : shared.InUse d) (different : (shared.desc d).status ≠ .of .undecided) :
    shared.Decided d := by
  cases dirty : (shared.desc d).status.dirty with
  | true => exact (descriptors.dirty d dirty).2
  | false => exact used.decided_of_status_ne dirty different

theorem Shared.Settled.verdict {d : Nat} (settled : shared.Settled d) :
    shared.Verdict d ((shared.desc d).status == .of .succeeded) := by
  refine ⟨settled, ?_⟩
  rw [beq_iff_eq, Status.eq_of_iff]
  exact ⟨fun both => both.1, fun succeeded => ⟨succeeded, settled.clean⟩⟩

theorem Shared.Verdict.beq_succeeded {d : Nat} {succeeded : Bool}
    (verdict : shared.Verdict d succeeded) : (shared.code d == .succeeded) = succeeded := by
  cases succeeded with
  | true => exact beq_iff_eq.mpr (verdict.iff_succeeded.mp rfl)
  | false =>
    refine beq_eq_false_iff_ne.mpr ?_
    intro code
    cases verdict.iff_succeeded.mpr code

theorem Shared.Decided.settled_of_volatile {d : Nat} (descriptors : DescriptorsOk .volatile pool shared)
    (decided : shared.Decided d) : shared.Settled d := by
  refine ⟨decided, ?_⟩
  cases dirty : (shared.desc d).status.dirty with
  | true => exact absurd (descriptors.dirty d dirty).1 (by decide)
  | false => rfl

/-- After the exchange that decides, the status is decided, whoever decided it. -/
theorem decided_compareExchange32 {d : Nat} {myStatus : StatusCode}
    (descriptors : DescriptorsOk build pool shared) (used : shared.InUse d)
    (decision : myStatus.Decided) :
    (shared.compareExchange32 d { code := myStatus, dirty := build.dirtyFlag }
      (.of .undecided)).Decided d := by
  rcases shared.compareExchange32_cases d { code := myStatus, dirty := build.dirtyFlag }
    (.of .undecided) with ⟨-, exchanged⟩ | ⟨different, exchanged⟩
  · rw [exchanged, Shared.Decided, Shared.code, Shared.storeStatus_status_self]
    exact decision
  · rw [exchanged]
    exact descriptors.decided_of_ne used different

theorem clean_compareExchange32 {d : Nat} {myStatus : StatusCode}
    (descriptors : DescriptorsOk .volatile pool shared) :
    ((shared.compareExchange32 d { code := myStatus, dirty := false }
      (.of .undecided)).desc d).status.dirty = false := by
  rcases shared.compareExchange32_cases d { code := myStatus, dirty := false }
    (.of .undecided) with ⟨-, exchanged⟩ | ⟨-, exchanged⟩
  · rw [exchanged, Shared.storeStatus_status_self]
  · rw [exchanged]
    cases dirty : (shared.desc d).status.dirty with
    | true => exact absurd (descriptors.dirty d dirty).1 (by decide)
    | false => rfl

theorem stepMwCAS_ok {d calldepth : Nat} {pc : Pc}
    (descriptors : DescriptorsOk build pool shared)
    (words : ∀ address, WordOk build pool shared address (shared.mem address))
    (ok : FrameOk build pool shared (.mwCAS d calldepth pc))
    (fresh : pc = .checkUndecided → (shared.desc d).status = .of .undecided) :
    (stepMwCAS build pool shared d calldepth pc).2.All
      (FrameOk build pool (stepMwCAS build pool shared d calldepth pc).1) := by
  have effect := stepMwCAS_effect descriptors ok
  obtain ⟨used, facts⟩ := ok
  have stays : ∀ next, PcOk build pool shared d next →
      FrameOk build pool (stepMwCAS build pool shared d calldepth pc).1
        (.mwCAS d calldepth next) := by
    intro next holds
    exact FrameOk.after ⟨used, holds⟩ effect
  cases pc with
  | checkUndecided =>
    simp only [stepMwCAS, if_pos (fresh rfl)]
    exact stays .flushDescriptor facts
  | flushDescriptor => exact stays .loadStatus trivial
  | loadStatus =>
    cases build with
    | persistent =>
      simp only [stepMwCAS]
      split
      · exact stays (.persistOldStatus _) rfl
      · exact stays _ (pcOk_enterInstall 0)
    | volatile =>
      simp only [stepMwCAS]
      split
      · exact stays _ (pcOk_enterInstall 0)
      · rename_i different
        have settled : shared.Settled d :=
          (descriptors.decided_of_ne used different).settled_of_volatile descriptors
        split
        · exact stays .cleanupDirty settled
        · exact stays .bailedHelp settled
  | persistOldStatus old => exact stays (.clearOldStatus old) facts
  | clearOldStatus old => exact stays _ (pcOk_enterInstall 0)
  | bailedHelp => exact stays _ facts.verdict
  | installCondCAS i =>
    have inside : i < (shared.desc d).count := facts
    have here := words ((shared.desc d).words i).address
    simp only [stepMwCAS]
    split
    · rename_i conditional
      exact stays (.loadDesired i _) ⟨inside, here.condRef conditional⟩
    · rename_i notConditional
      split
      · exact stays (.loadOwn i) inside
      · exact stays _ (pcOk_afterCondCAS inside (here.value_or_mwRef notConditional))
  | loadDesired i ret =>
    obtain ⟨inside, reference⟩ := facts
    simp only [stepMwCAS, if_pos reference.word]
    exact stays (.recheckWord i ret _) ⟨inside, reference⟩
  | recheckWord i ret desired =>
    obtain ⟨inside, reference⟩ := facts
    simp only [stepMwCAS]
    split
    · exact stays (.loadResolve i ret desired) ⟨inside, reference⟩
    · exact stays (.installCondCAS i) inside
  | loadResolve i ret desired =>
    obtain ⟨inside, reference⟩ := facts
    refine stays (.casResolve i ret desired _) ⟨inside, reference, ?_⟩
    intro read
    rw [beq_eq_false_iff_ne, reference.ownStatus descriptors] at read
    exact descriptors.decided_of_ne reference.2.inUse read
  | casResolve i ret desired undecided =>
    obtain ⟨inside, reference, -⟩ := facts
    by_cases promoted : shared.mem (shared.wordDescriptor pool ret).address = ret ∧
        desired = (shared.wordDescriptor pool ret).descriptorPtr build.dirtyFlag
    · simp only [stepMwCAS, if_pos promoted]
      refine stays _ (pcOk_afterCondCAS inside (Or.inr ?_))
      rw [reference.descriptorPtr build.dirtyFlag descriptors]
      exact MwRef.of_lists _ reference.2
    · simp only [stepMwCAS, if_neg promoted]
      exact stays (.installCondCAS i) inside
  | loadOwn i =>
    refine stays (.casOwn i _) ⟨facts, ?_⟩
    intro read
    rw [beq_eq_false_iff_ne] at read
    exact descriptors.decided_of_ne used read
  | casOwn i undecided =>
    have inside : i < (shared.desc d).count := facts.1
    exact stays _ (pcOk_afterCondCAS inside
      (Or.inl (.of_isCleanPtr ((descriptors.entries d used).oldValue i inside))))
  | flushConflict i rval => exact stays (.clearConflict i rval) facts
  | clearConflict i rval =>
    obtain ⟨inside, -, -, reference⟩ := facts
    exact stays (.help i rval) ⟨inside, reference⟩
  | help i rval =>
    obtain ⟨inside, -, other, lists⟩ := facts
    refine ⟨stays (.installCondCAS i) inside, lists.inUse, ?_⟩
    cases build with
    | persistent => exact trivial
    | volatile => exact trivial
  | loadTarget i =>
    simp only [stepMwCAS]
    split
    · exact stays (.flushTarget i) facts
    · exact stays _ (pcOk_enterTarget (i + 1) facts.2)
  | flushTarget i => exact stays (.clearTarget i) facts
  | clearTarget i => exact stays _ (pcOk_enterTarget (i + 1) facts.2)
  | decide myStatus =>
    have decision : myStatus.Decided := facts
    have decided := decided_compareExchange32 descriptors used decision
    cases build with
    | persistent => exact ⟨decided.inUse, rfl, decided⟩
    | volatile => exact ⟨decided.inUse, decided, clean_compareExchange32 descriptors⟩
  | checkDecided =>
    have notUndecided : (shared.desc d).status.code ≠ .undecided := facts.2.ne_undecided
    simp only [stepMwCAS, if_neg notUndecided]
    exact stays .persistStatus facts
  | persistStatus => exact stays .loadForClear facts
  | loadForClear => exact stays (.storeClear _) ⟨facts.1, facts.2, rfl⟩
  | storeClear loaded =>
    obtain ⟨-, decided, sameCode⟩ := facts
    have after : ((shared.storeStatus d loaded.clearDirty).desc d).status = loaded.clearDirty :=
      Shared.storeStatus_status_self _ _ _
    have settled : (shared.storeStatus d loaded.clearDirty).Settled d := by
      refine ⟨?_, ?_⟩
      · rw [Shared.Decided, Shared.code, after, Status.clearDirty_code, sameCode]
        exact decided
      · rw [after, Status.clearDirty_dirty]
    exact ⟨settled.decided.inUse, settled⟩
  | loadVerdict => exact stays _ (pcOk_enterFinal calldepth 0 facts.verdict)
  | finalCAS i succeeded =>
    obtain ⟨inside, verdict⟩ := facts
    cases build with
    | persistent =>
      simp only [stepMwCAS]
      split
      · exact stays (.finalRetry i succeeded) ⟨inside, rfl, verdict⟩
      · exact stays (.finalFlush i succeeded) ⟨inside, rfl, verdict⟩
    | volatile => exact stays _ (pcOk_enterFinal calldepth (i + 1) verdict)
  | finalRetry i succeeded => exact stays (.finalFlush i succeeded) facts
  | finalFlush i succeeded => exact stays (.finalClear i succeeded) facts
  | finalClear i succeeded => exact stays _ (pcOk_enterFinal calldepth (i + 1) facts.2.2)
  | cleanupDirty =>
    have settled : shared.Settled d := facts
    simp only [stepMwCAS, settled.clean]
    exact stays .cleanupFailed settled
  | cleanupFailed =>
    have settled : shared.Settled d := facts
    simp only [stepMwCAS]
    split
    · exact stays .cleanupPush settled
    · rename_i notFailed
      refine stays .cleanupSucceeded ⟨settled, fun _ => ?_, fun _ => rfl⟩
      refine settled.decided.resolve_right ?_
      intro failed
      exact notFailed ((Status.eq_of_iff _ _).mpr ⟨failed, settled.clean⟩)
  | cleanupSucceeded =>
    have verdict : shared.Verdict d true := facts
    have succeeded : (shared.desc d).status = .of .succeeded :=
      (Status.eq_of_iff _ _).mpr ⟨verdict.iff_succeeded.mp rfl, verdict.settled.clean⟩
    simp only [stepMwCAS, if_pos succeeded]
    exact stays .cleanupPush verdict.settled
  | cleanupPush => exact stays .cleanupReturn facts
  | cleanupReturn => exact stays (.ret _) facts.verdict
  | ret result => trivial
  | rawCheckFailed check => exact absurd facts id

theorem stepGetValue_ok {address : Nat} {pc : ReadPc}
    (descriptors : DescriptorsOk build pool shared)
    (words : ∀ address, WordOk build pool shared address (shared.mem address))
    (ok : FrameOk build pool shared (.getValue address pc)) :
    (stepGetValue build pool shared address pc).2.All
      (FrameOk build pool (stepGetValue build pool shared address pc).1) := by
  have effect := stepGetValue_effect descriptors ok
  have stays : ∀ next, ReadPcOk build pool shared address next →
      FrameOk build pool (stepGetValue build pool shared address pc).1
        (.getValue address next) := by
    intro next holds
    have before : FrameOk build pool shared (.getValue address next) := holds
    exact before.after effect
  cases pc with
  | load => exact stays _ (readPcOk_afterLoad (words address))
  | loadStatus val =>
    have reference : CondRef pool shared address val := ok
    have right : ¬ (build = .volatile ∧ (shared.wordDescriptor pool val).address ≠ address) :=
      fun wrong => wrong.2 reference.word
    simp only [stepGetValue, if_neg right]
    refine stays (.casCond val _) ⟨reference, ?_⟩
    intro read
    rw [beq_eq_false_iff_ne, reference.ownStatus descriptors] at read
    exact descriptors.decided_of_ne reference.2.inUse read
  | casCond val undecided => exact stays .load trivial
  | flush val => exact stays (.clear val) ok
  | clear val =>
    obtain ⟨-, -, form⟩ := ok
    refine stays _ (readPcOk_afterClean rfl ?_)
    rcases form with value | ⟨pointer, lists⟩
    · exact Or.inl value.clearDirty
    · exact Or.inr ⟨congrArg Word.clearDirty pointer, lists⟩
  | help val =>
    obtain ⟨-, other, lists⟩ := ok
    refine ⟨trivial, lists.inUse, ?_⟩
    cases build with
    | persistent => exact trivial
    | volatile => exact trivial
  | ret val => trivial
  | rawCheckFailed check => exact absurd ok id

/-- The frames a step leaves are in order. -/
theorem Frame.step_ok {frame : Frame} (descriptors : DescriptorsOk build pool shared)
    (words : ∀ address, WordOk build pool shared address (shared.mem address))
    (ok : FrameOk build pool shared frame)
    (fresh : ∀ d calldepth, frame = .mwCAS d calldepth .checkUndecided →
      (shared.desc d).status = .of .undecided) :
    (frame.step build pool shared).2.All (FrameOk build pool (frame.step build pool shared).1) := by
  cases frame with
  | mwCAS d calldepth pc =>
    exact stepMwCAS_ok descriptors words ok fun here => fresh d calldepth (by rw [here])
  | getValue address pc => exact stepGetValue_ok descriptors words ok

end Pmwcas
