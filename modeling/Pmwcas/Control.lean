/-
This file says where control goes: how a step moves a thread from program point to program point.

The pointers in target words are matched with the frames that will take them out. A CondCAS
pointer of entry `i` is resolved by the frame that is between the two exchanges of `CondCAS`
(`Frame.Resolves`), and an MwCAS pointer is replaced by any frame that has not yet passed entry `i`
in its final phase (`Pc.Owes`). A frame stays responsible until the pointer is gone.

The owner of a descriptor is the frame with call depth zero. Until it leaves `loadStatus` it is
alone with its descriptor (`Pc.Private`), and it alone goes through `Cleanup`.
-/

import Pmwcas.Steps

namespace Pmwcas

variable {build : Build} {pool : Pool} {shared : Shared}

/-! ### Calls and call depths -/

/-- The call depth of a frame. A reader helps with depth one, so it stands at depth zero. -/
def Frame.calldepth : Frame → Nat
  | .mwCAS _ calldepth _ => calldepth
  | .getValue _ _ => 0

/-- The frame waits for a call it made: it goes on at its retry entry. -/
def Frame.Calling : Frame → Prop
  | .mwCAS _ _ (.installCondCAS _) => True
  | .getValue _ .load => True
  | _ => False

/-- The program points of the owner only. -/
def Pc.OwnerOnly : Pc → Prop
  | .checkUndecided | .flushDescriptor => True
  | .cleanupDirty | .cleanupFailed | .cleanupSucceeded | .cleanupPush | .cleanupReturn => True
  | _ => False

/-- The program points of the owner occur at call depth zero, the early return of a helper
deeper. -/
def Frame.DepthOk : Frame → Prop
  | .mwCAS _ calldepth pc => (pc.OwnerOnly → calldepth = 0) ∧ (pc = .bailedHelp → calldepth ≠ 0)
  | .getValue _ _ => True

/-- The program points before the owner has shown its descriptor to anybody. -/
def Pc.Private : Pc → Prop
  | .checkUndecided | .flushDescriptor | .loadStatus => True
  | _ => False

/-- The owner has pushed its descriptor to the garbage list. -/
def Pc.Pushed : Pc → Prop
  | .cleanupReturn => True
  | .ret _ => True
  | _ => False

theorem Pc.entry_succ (build : Build) (calldepth : Nat) :
    Pc.entry build (calldepth + 1) = .loadStatus := by
  cases build with
  | persistent => simp [Pc.entry]
  | volatile => rfl

/-! ### The install phase -/

/-- The program points of the install phase, up to the decision. -/
def Pc.Installing : Pc → Prop
  | .installCondCAS _ | .loadDesired _ _ | .recheckWord _ _ _ | .loadResolve _ _ _ => True
  | .casResolve _ _ _ _ | .loadOwn _ | .casOwn _ _ => True
  | .flushConflict _ _ | .clearConflict _ _ | .help _ _ => True
  | .loadTarget _ | .flushTarget _ | .clearTarget _ | .decide _ => True
  | _ => False

theorem Pc.installing_enterTarget (descriptor : Descriptor) (i : Nat) :
    (Pc.enterTarget descriptor i).Installing := by
  unfold Pc.enterTarget
  split <;> trivial

theorem Pc.installing_enterInstall (descriptor : Descriptor) (i : Nat) :
    (Pc.enterInstall build descriptor i).Installing := by
  unfold Pc.enterInstall
  split
  · trivial
  · cases build with
    | persistent => exact Pc.installing_enterTarget descriptor 0
    | volatile => trivial

theorem Pc.installing_afterCondCAS (d : Nat) (descriptor : Descriptor) (i : Nat) (rval : Word) :
    (Pc.afterCondCAS build pool d descriptor i rval).Installing := by
  unfold Pc.afterCondCAS
  split
  · exact Pc.installing_enterInstall descriptor (i + 1)
  · split
    · split <;> trivial
    · trivial

/-- Either the install loop advances, and then it has taken the word for its own pointer, or it
stays where it is. -/
theorem Pc.afterCondCAS_cases (d : Nat) (descriptor : Descriptor) (i : Nat) (rval : Word) :
    ((rval = (descriptor.words i).oldValue ∨ pool.isOwnPtr build d rval = true) ∧
        Pc.afterCondCAS build pool d descriptor i rval = .enterInstall build descriptor (i + 1)) ∨
      (rval ≠ (descriptor.words i).oldValue ∧ pool.isOwnPtr build d rval = false ∧
        rval.mwcas = true ∧
        (Pc.afterCondCAS build pool d descriptor i rval = .flushConflict i rval ∨
          Pc.afterCondCAS build pool d descriptor i rval = .help i rval)) ∨
      (rval ≠ (descriptor.words i).oldValue ∧ rval.mwcas = false ∧
        Pc.afterCondCAS build pool d descriptor i rval = .decide .failed) := by
  unfold Pc.afterCondCAS
  split
  · rename_i advances
    exact Or.inl ⟨advances, rfl⟩
  · rename_i stays
    obtain ⟨different, foreign⟩ := not_or.mp stays
    split
    · rename_i isPointer
      refine Or.inr (Or.inl ⟨different, Bool.eq_false_iff.mpr foreign, isPointer, ?_⟩)
      split
      · exact Or.inl rfl
      · exact Or.inr rfl
    · rename_i notPointer
      exact Or.inr (Or.inr ⟨different, Bool.eq_false_iff.mpr notPointer, rfl⟩)

theorem Pc.enterFinal_cases (descriptor : Descriptor) (calldepth i : Nat) (succeeded : Bool) :
    (i < descriptor.count ∧
        Pc.enterFinal descriptor calldepth i succeeded = .finalCAS i succeeded) ∨
      (calldepth = 0 ∧ Pc.enterFinal descriptor calldepth i succeeded = .cleanupDirty) ∨
      (calldepth ≠ 0 ∧ Pc.enterFinal descriptor calldepth i succeeded = .ret succeeded) := by
  unfold Pc.enterFinal
  split
  · rename_i inside
    exact Or.inl ⟨inside, rfl⟩
  · split
    · rename_i owner
      exact Or.inr (Or.inl ⟨owner, rfl⟩)
    · rename_i helper
      exact Or.inr (Or.inr ⟨helper, rfl⟩)

/-! ### Edges between program points -/

/-- Where control goes inside a call on descriptor `d` that is in order, with what the step has
seen. -/
inductive Pc.Next (build : Build) (pool : Pool) (shared : Shared) (d calldepth : Nat) :
    Pc → Pc → Prop where
  | checkUndecided : Pc.Next build pool shared d calldepth .checkUndecided .flushDescriptor
  | flushDescriptor : Pc.Next build pool shared d calldepth .flushDescriptor .loadStatus
  | oldStatus (persistent : build = .persistent)
      (dirty : (shared.desc d).status.dirty = true) :
      Pc.Next build pool shared d calldepth .loadStatus (.persistOldStatus (shared.desc d).status)
  | start (clean : (shared.desc d).status.dirty = false)
      (undecided : build = .volatile → (shared.desc d).status = .of .undecided) :
      Pc.Next build pool shared d calldepth .loadStatus (.enterInstall build (shared.desc d) 0)
  | bailOwner (early : build = .volatile) (decided : shared.Decided d) (owner : calldepth = 0) :
      Pc.Next build pool shared d calldepth .loadStatus .cleanupDirty
  | bailHelper (early : build = .volatile) (decided : shared.Decided d) (helper : calldepth ≠ 0) :
      Pc.Next build pool shared d calldepth .loadStatus .bailedHelp
  | persistOldStatus (old : Status) :
      Pc.Next build pool shared d calldepth (.persistOldStatus old) (.clearOldStatus old)
  | clearOldStatus (old : Status) :
      Pc.Next build pool shared d calldepth (.clearOldStatus old)
        (.enterInstall build (shared.desc d) 0)
  | bailedHelp (succeeded : Bool) :
      Pc.Next build pool shared d calldepth .bailedHelp (.ret succeeded)
  | meetCondCAS {i : Nat} {ret : Word}
      (met : shared.mem ((shared.desc d).words i).address = ret) (conditional : ret.condcas = true) :
      Pc.Next build pool shared d calldepth (.installCondCAS i) (.loadDesired i ret)
  | installed {i : Nat} (met : shared.mem ((shared.desc d).words i).address =
        ((shared.desc d).words i).oldValue) :
      Pc.Next build pool shared d calldepth (.installCondCAS i) (.loadOwn i)
  | meetOther {i : Nat} {rval : Word}
      (met : shared.mem ((shared.desc d).words i).address = rval)
      (notConditional : rval.condcas = false)
      (different : rval ≠ ((shared.desc d).words i).oldValue) :
      Pc.Next build pool shared d calldepth (.installCondCAS i)
        (.afterCondCAS build pool d (shared.desc d) i rval)
  | loadDesired (i : Nat) (ret : Word) :
      Pc.Next build pool shared d calldepth (.loadDesired i ret) (.recheckWord i ret
        (if (shared.desc (pool.descriptorAt ret.rest)).status = .of .undecided then
          pool.mwCASPtr (pool.descriptorAt ret.rest) build.dirtyFlag
        else (shared.wordDescriptor pool ret).oldValue))
  | recheckSame (i : Nat) (ret desired : Word)
      (met : shared.mem ((shared.desc d).words i).address = ret) :
      Pc.Next build pool shared d calldepth (.recheckWord i ret desired)
        (.loadResolve i ret desired)
  | recheckChanged (i : Nat) (ret desired : Word)
      (changed : shared.mem ((shared.desc d).words i).address ≠ ret) :
      Pc.Next build pool shared d calldepth (.recheckWord i ret desired) (.installCondCAS i)
  | loadResolve (i : Nat) (ret desired : Word) :
      Pc.Next build pool shared d calldepth (.loadResolve i ret desired)
        (.casResolve i ret desired
          ((shared.desc (pool.descriptorAt ret.rest)).status == .of .undecided))
  | resolveOther {i : Nat} {ret desired : Word} {undecided : Bool}
      (met : shared.mem ((shared.desc d).words i).address = ret)
      (expected : desired = pool.mwCASPtr (pool.descriptorAt ret.rest) build.dirtyFlag) :
      Pc.Next build pool shared d calldepth (.casResolve i ret desired undecided)
        (.afterCondCAS build pool d (shared.desc d) i
          (pool.mwCASPtr (pool.descriptorAt ret.rest) build.dirtyFlag))
  | resolveRetry (i : Nat) (ret desired : Word) (undecided : Bool)
      (unexpected : shared.mem ((shared.desc d).words i).address = ret →
        desired ≠ pool.mwCASPtr (pool.descriptorAt ret.rest) build.dirtyFlag) :
      Pc.Next build pool shared d calldepth (.casResolve i ret desired undecided)
        (.installCondCAS i)
  | loadOwn (i : Nat) :
      Pc.Next build pool shared d calldepth (.loadOwn i)
        (.casOwn i ((shared.desc d).status == .of .undecided))
  | casOwn (i : Nat) (undecided : Bool) :
      Pc.Next build pool shared d calldepth (.casOwn i undecided)
        (.enterInstall build (shared.desc d) (i + 1))
  | flushConflict (i : Nat) (rval : Word) :
      Pc.Next build pool shared d calldepth (.flushConflict i rval) (.clearConflict i rval)
  | clearConflict (i : Nat) (rval : Word) :
      Pc.Next build pool shared d calldepth (.clearConflict i rval) (.help i rval)
  | targetDirty (i : Nat)
      (met : shared.mem ((shared.desc d).words i).address = pool.mwCASPtr d true) :
      Pc.Next build pool shared d calldepth (.loadTarget i) (.flushTarget i)
  | targetClean (i : Nat)
      (met : shared.mem ((shared.desc d).words i).address ≠ pool.mwCASPtr d true) :
      Pc.Next build pool shared d calldepth (.loadTarget i)
        (.enterTarget (shared.desc d) (i + 1))
  | flushTarget (i : Nat) :
      Pc.Next build pool shared d calldepth (.flushTarget i) (.clearTarget i)
  | clearTarget (i : Nat) :
      Pc.Next build pool shared d calldepth (.clearTarget i)
        (.enterTarget (shared.desc d) (i + 1))
  | decidePersistent (myStatus : StatusCode) (persistent : build = .persistent) :
      Pc.Next build pool shared d calldepth (.decide myStatus) .checkDecided
  | decideVolatile (myStatus : StatusCode) (volatile : build = .volatile) :
      Pc.Next build pool shared d calldepth (.decide myStatus) .loadVerdict
  | checkDecided : Pc.Next build pool shared d calldepth .checkDecided .persistStatus
  | persistStatus : Pc.Next build pool shared d calldepth .persistStatus .loadForClear
  | loadForClear : Pc.Next build pool shared d calldepth .loadForClear
      (.storeClear (shared.desc d).status)
  | storeClear (status : Status) :
      Pc.Next build pool shared d calldepth (.storeClear status) .loadVerdict
  | loadVerdict : Pc.Next build pool shared d calldepth .loadVerdict
      (.enterFinal (shared.desc d) calldepth 0 ((shared.desc d).status == .of .succeeded))
  | finalClean (i : Nat) (succeeded : Bool) (persistent : build = .persistent)
      (met : shared.mem ((shared.desc d).words i).address = pool.mwCASPtr d false) :
      Pc.Next build pool shared d calldepth (.finalCAS i succeeded) (.finalRetry i succeeded)
  | finalOther (i : Nat) (succeeded : Bool) (persistent : build = .persistent)
      (met : shared.mem ((shared.desc d).words i).address ≠ pool.mwCASPtr d false) :
      Pc.Next build pool shared d calldepth (.finalCAS i succeeded) (.finalFlush i succeeded)
  | finalVolatile (i : Nat) (succeeded : Bool) (volatile : build = .volatile) :
      Pc.Next build pool shared d calldepth (.finalCAS i succeeded)
        (.enterFinal (shared.desc d) calldepth (i + 1) succeeded)
  | finalRetry (i : Nat) (succeeded : Bool) :
      Pc.Next build pool shared d calldepth (.finalRetry i succeeded) (.finalFlush i succeeded)
  | finalFlush (i : Nat) (succeeded : Bool) :
      Pc.Next build pool shared d calldepth (.finalFlush i succeeded) (.finalClear i succeeded)
  | finalClear (i : Nat) (succeeded : Bool) :
      Pc.Next build pool shared d calldepth (.finalClear i succeeded)
        (.enterFinal (shared.desc d) calldepth (i + 1) succeeded)
  | cleanupDirty : Pc.Next build pool shared d calldepth .cleanupDirty .cleanupFailed
  | cleanupFailed : Pc.Next build pool shared d calldepth .cleanupFailed .cleanupPush
  | cleanupNotFailed : Pc.Next build pool shared d calldepth .cleanupFailed .cleanupSucceeded
  | cleanupSucceeded : Pc.Next build pool shared d calldepth .cleanupSucceeded .cleanupPush
  | cleanupPush : Pc.Next build pool shared d calldepth .cleanupPush .cleanupReturn
  | cleanupReturn : Pc.Next build pool shared d calldepth .cleanupReturn
      (.ret ((shared.desc d).status == .of .succeeded))

/-- What a step of a call on descriptor `d` does to the stack. -/
inductive Pc.Moves (build : Build) (pool : Pool) (shared : Shared) (d calldepth : Nat) :
    Pc → Move → Prop where
  | goto {pc next : Pc} (edge : Pc.Next build pool shared d calldepth pc next) :
      Pc.Moves build pool shared d calldepth pc (.goto (.mwCAS d calldepth next))
  | help (i : Nat) (rval : Word) :
      Pc.Moves build pool shared d calldepth (.help i rval)
        (.call (.mwCAS d calldepth (.installCondCAS i))
          (.mwCAS (pool.descriptorAt rval.rest) (calldepth + 1) .loadStatus))
  | ret (result : Bool) : Pc.Moves build pool shared d calldepth (.ret result) .done

theorem stepMwCAS_moves {d calldepth : Nat} {pc : Pc}
    (descriptors : DescriptorsOk build pool shared)
    (words : ∀ address, WordOk build pool shared address (shared.mem address))
    (ok : FrameOk build pool shared (.mwCAS d calldepth pc))
    (fresh : pc = .checkUndecided → (shared.desc d).status = .of .undecided) :
    Pc.Moves build pool shared d calldepth pc (stepMwCAS build pool shared d calldepth pc).2 := by
  obtain ⟨used, facts⟩ := ok
  cases pc with
  | checkUndecided =>
    simp only [stepMwCAS, if_pos (fresh rfl)]
    exact .goto .checkUndecided
  | flushDescriptor => exact .goto .flushDescriptor
  | loadStatus =>
    cases build with
    | persistent =>
      simp only [stepMwCAS]
      split
      · rename_i dirty
        exact .goto (.oldStatus rfl dirty)
      · rename_i clean
        exact .goto (.start (Bool.eq_false_iff.mpr clean) fun impossible => by cases impossible)
    | volatile =>
      simp only [stepMwCAS]
      split
      · rename_i undecided
        exact .goto (.start (by rw [undecided]; rfl) fun _ => undecided)
      · rename_i different
        have decided := descriptors.decided_of_ne used different
        split
        · rename_i owner
          exact .goto (.bailOwner rfl decided owner)
        · rename_i helper
          exact .goto (.bailHelper rfl decided helper)
  | persistOldStatus old => exact .goto (.persistOldStatus old)
  | clearOldStatus old => exact .goto (.clearOldStatus old)
  | bailedHelp => exact .goto (.bailedHelp _)
  | installCondCAS i =>
    simp only [stepMwCAS]
    split
    · rename_i conditional
      exact .goto (.meetCondCAS rfl conditional)
    · rename_i notConditional
      split
      · rename_i same
        exact .goto (.installed same)
      · rename_i different
        exact .goto (.meetOther rfl (Bool.eq_false_iff.mpr notConditional) different)
  | loadDesired i ret =>
    obtain ⟨-, reference⟩ := facts
    simp only [stepMwCAS, if_pos reference.word, reference.ownStatus descriptors,
      reference.descriptorPtr build.dirtyFlag descriptors]
    exact .goto (.loadDesired i ret)
  | recheckWord i ret desired =>
    obtain ⟨-, reference⟩ := facts
    simp only [stepMwCAS, reference.word]
    split
    · rename_i same
      exact .goto (.recheckSame i ret desired same)
    · rename_i changed
      exact .goto (.recheckChanged i ret desired changed)
  | loadResolve i ret desired =>
    obtain ⟨-, reference⟩ := facts
    simp only [stepMwCAS, reference.ownStatus descriptors]
    exact .goto (.loadResolve i ret desired)
  | casResolve i ret desired undecided =>
    obtain ⟨-, reference, -⟩ := facts
    by_cases promoted : shared.mem ((shared.desc d).words i).address = ret ∧
        desired = pool.mwCASPtr (pool.descriptorAt ret.rest) build.dirtyFlag
    · simp only [stepMwCAS, reference.word, reference.descriptorPtr build.dirtyFlag descriptors,
        if_pos promoted]
      exact .goto (.resolveOther promoted.1 promoted.2)
    · simp only [stepMwCAS, reference.word, reference.descriptorPtr build.dirtyFlag descriptors,
        if_neg promoted]
      exact .goto (.resolveRetry i ret desired undecided fun met same => promoted ⟨met, same⟩)
  | loadOwn i => exact .goto (.loadOwn i)
  | casOwn i undecided =>
    have advances : Pc.afterCondCAS build pool d (shared.desc d) i
        ((shared.desc d).words i).oldValue = .enterInstall build (shared.desc d) (i + 1) :=
      if_pos (Or.inl rfl)
    simp only [stepMwCAS, advances]
    exact .goto (.casOwn i undecided)
  | flushConflict i rval => exact .goto (.flushConflict i rval)
  | clearConflict i rval => exact .goto (.clearConflict i rval)
  | help i rval =>
    simp only [stepMwCAS, Pc.entry_succ]
    exact .help i rval
  | loadTarget i =>
    simp only [stepMwCAS]
    split
    · rename_i dirty
      exact .goto (.targetDirty i dirty)
    · rename_i clean
      exact .goto (.targetClean i clean)
  | flushTarget i => exact .goto (.flushTarget i)
  | clearTarget i => exact .goto (.clearTarget i)
  | decide myStatus =>
    cases build with
    | persistent => exact .goto (.decidePersistent myStatus rfl)
    | volatile => exact .goto (.decideVolatile myStatus rfl)
  | checkDecided =>
    have notUndecided : (shared.desc d).status.code ≠ .undecided := facts.2.ne_undecided
    simp only [stepMwCAS, if_neg notUndecided]
    exact .goto .checkDecided
  | persistStatus => exact .goto .persistStatus
  | loadForClear => exact .goto .loadForClear
  | storeClear loaded => exact .goto (.storeClear loaded)
  | loadVerdict => exact .goto .loadVerdict
  | finalCAS i succeeded =>
    cases build with
    | persistent =>
      simp only [stepMwCAS]
      split
      · rename_i clean
        exact .goto (.finalClean i succeeded rfl clean)
      · rename_i other
        exact .goto (.finalOther i succeeded rfl other)
    | volatile => exact .goto (.finalVolatile i succeeded rfl)
  | finalRetry i succeeded => exact .goto (.finalRetry i succeeded)
  | finalFlush i succeeded => exact .goto (.finalFlush i succeeded)
  | finalClear i succeeded => exact .goto (.finalClear i succeeded)
  | cleanupDirty =>
    have settled : shared.Settled d := facts
    simp only [stepMwCAS, settled.clean]
    exact .goto .cleanupDirty
  | cleanupFailed =>
    simp only [stepMwCAS]
    split
    · exact .goto .cleanupFailed
    · exact .goto .cleanupNotFailed
  | cleanupSucceeded =>
    have verdict : shared.Verdict d true := facts
    have succeeded : (shared.desc d).status = .of .succeeded :=
      (Status.eq_of_iff _ _).mpr ⟨verdict.iff_succeeded.mp rfl, verdict.settled.clean⟩
    simp only [stepMwCAS, if_pos succeeded]
    exact .goto .cleanupSucceeded
  | cleanupPush => exact .goto .cleanupPush
  | cleanupReturn => exact .goto .cleanupReturn
  | ret result => exact .ret result
  | rawCheckFailed check => exact absurd facts id

/-- What a step of a read of the word at `address` does to the stack. -/
inductive ReadPc.Moves (build : Build) (pool : Pool) (shared : Shared) (address : Nat) :
    ReadPc → Move → Prop where
  | load : ReadPc.Moves build pool shared address .load
      (.goto (.getValue address (.afterLoad build (shared.mem address))))
  | loadStatus (val : Word) : ReadPc.Moves build pool shared address (.loadStatus val)
      (.goto (.getValue address (.casCond val
        ((shared.desc (pool.descriptorAt val.rest)).status == .of .undecided))))
  | casCond (val : Word) (undecided : Bool) :
      ReadPc.Moves build pool shared address (.casCond val undecided)
        (.goto (.getValue address .load))
  | flush (val : Word) : ReadPc.Moves build pool shared address (.flush val)
      (.goto (.getValue address (.clear val)))
  | clear (val : Word) : ReadPc.Moves build pool shared address (.clear val)
      (.goto (.getValue address (.afterClean val.clearDirty)))
  | help (val : Word) : ReadPc.Moves build pool shared address (.help val)
      (.call (.getValue address .load) (.mwCAS (pool.descriptorAt val.rest) 1 .loadStatus))
  | ret (val : Word) : ReadPc.Moves build pool shared address (.ret val) .done

theorem stepGetValue_moves {address : Nat} {pc : ReadPc}
    (descriptors : DescriptorsOk build pool shared)
    (ok : FrameOk build pool shared (.getValue address pc)) :
    ReadPc.Moves build pool shared address pc (stepGetValue build pool shared address pc).2 := by
  cases pc with
  | load => exact .load
  | loadStatus val =>
    have reference : CondRef pool shared address val := ok
    have right : ¬ (build = .volatile ∧ (shared.wordDescriptor pool val).address ≠ address) :=
      fun wrong => wrong.2 reference.word
    simp only [stepGetValue, if_neg right, reference.ownStatus descriptors]
    exact .loadStatus val
  | casCond val undecided => exact .casCond val undecided
  | flush val => exact .flush val
  | clear val => exact .clear val
  | help val =>
    have first : Pc.entry build 1 = .loadStatus := Pc.entry_succ build 0
    simp only [stepGetValue, first]
    exact .help val
  | ret val => exact .ret val
  | rawCheckFailed check => exact absurd ok id

/-- What a step of a frame in order does to the stack. -/
inductive Frame.Moves (build : Build) (pool : Pool) (shared : Shared) : Frame → Move → Prop where
  | mwCAS {d calldepth : Nat} {pc : Pc} {move : Move}
      (moves : Pc.Moves build pool shared d calldepth pc move) :
      Frame.Moves build pool shared (.mwCAS d calldepth pc) move
  | getValue {address : Nat} {pc : ReadPc} {move : Move}
      (moves : ReadPc.Moves build pool shared address pc move) :
      Frame.Moves build pool shared (.getValue address pc) move

theorem Frame.step_moves {frame : Frame} (descriptors : DescriptorsOk build pool shared)
    (words : ∀ address, WordOk build pool shared address (shared.mem address))
    (ok : FrameOk build pool shared frame)
    (fresh : ∀ d calldepth, frame = .mwCAS d calldepth .checkUndecided →
      (shared.desc d).status = .of .undecided) :
    Frame.Moves build pool shared frame (frame.step build pool shared).2 := by
  cases frame with
  | mwCAS d calldepth pc =>
    exact .mwCAS (stepMwCAS_moves descriptors words ok fun here => fresh d calldepth (by rw [here]))
  | getValue address pc => exact .getValue (stepGetValue_moves descriptors ok)

/-! ### The owner -/

theorem Pc.Installing.depthOk {pc : Pc} (installing : pc.Installing) (d calldepth : Nat) :
    (Frame.mwCAS d calldepth pc).DepthOk := by
  cases pc <;> first | exact installing.elim | exact ⟨False.elim, fun bailed => by cases bailed⟩

theorem Pc.Installing.not_private {pc : Pc} (installing : pc.Installing) : ¬ pc.Private := by
  cases pc <;> first | exact installing.elim | exact id

theorem Pc.Installing.not_pushed {pc : Pc} (installing : pc.Installing) : ¬ pc.Pushed := by
  cases pc <;> first | exact installing.elim | exact id

theorem Pc.Next.depthOk {d calldepth : Nat} {pc next : Pc}
    (edge : Pc.Next build pool shared d calldepth pc next)
    (ok : (Frame.mwCAS d calldepth pc).DepthOk) : (Frame.mwCAS d calldepth next).DepthOk := by
  have final : ∀ i succeeded, (Frame.mwCAS d calldepth
      (.enterFinal (shared.desc d) calldepth i succeeded)).DepthOk := by
    intro i succeeded
    rcases Pc.enterFinal_cases (shared.desc d) calldepth i succeeded with
      ⟨-, here⟩ | ⟨owner, here⟩ | ⟨-, here⟩
    · rw [here]
      exact ⟨False.elim, fun bailed => by cases bailed⟩
    · rw [here]
      exact ⟨fun _ => owner, fun bailed => by cases bailed⟩
    · rw [here]
      exact ⟨False.elim, fun bailed => by cases bailed⟩
  cases edge with
  | checkUndecided | cleanupDirty | cleanupFailed | cleanupNotFailed | cleanupSucceeded
  | cleanupPush => exact ⟨fun _ => ok.1 trivial, fun bailed => by cases bailed⟩
  | bailOwner _ _ owner => exact ⟨fun _ => owner, fun bailed => by cases bailed⟩
  | bailHelper _ _ helper => exact ⟨False.elim, fun _ => helper⟩
  | start | clearOldStatus | casOwn =>
    exact (Pc.installing_enterInstall _ _).depthOk d calldepth
  | meetOther | resolveOther => exact (Pc.installing_afterCondCAS d _ _ _).depthOk d calldepth
  | targetClean | clearTarget => exact (Pc.installing_enterTarget _ _).depthOk d calldepth
  | loadVerdict | finalVolatile | finalClear => exact final _ _
  | _ => exact ⟨False.elim, fun bailed => by cases bailed⟩

/-- Nobody goes back to the program points where the owner is alone. -/
theorem Pc.Next.private {d calldepth : Nat} {pc next : Pc}
    (edge : Pc.Next build pool shared d calldepth pc next) (alone : next.Private) :
    pc = .checkUndecided ∧ next = .flushDescriptor ∨
      pc = .flushDescriptor ∧ next = .loadStatus := by
  have final : ∀ i succeeded, ¬ (Pc.enterFinal (shared.desc d) calldepth i succeeded).Private := by
    intro i succeeded
    rcases Pc.enterFinal_cases (shared.desc d) calldepth i succeeded with
      ⟨-, here⟩ | ⟨-, here⟩ | ⟨-, here⟩ <;>
    · rw [here]
      exact id
  cases edge with
  | checkUndecided => exact Or.inl ⟨rfl, rfl⟩
  | flushDescriptor => exact Or.inr ⟨rfl, rfl⟩
  | start | clearOldStatus | casOwn =>
    exact absurd alone (Pc.installing_enterInstall _ _).not_private
  | meetOther | resolveOther =>
    exact absurd alone (Pc.installing_afterCondCAS d _ _ _).not_private
  | targetClean | clearTarget => exact absurd alone (Pc.installing_enterTarget _ _).not_private
  | loadVerdict | finalVolatile | finalClear => exact absurd alone (final _ _)
  | _ => exact alone.elim

/-- The owner comes past its push only by pushing. -/
theorem Pc.Next.pushed {d : Nat} {pc next : Pc} (edge : Pc.Next build pool shared d 0 pc next)
    (ok : (Frame.mwCAS d 0 pc).DepthOk) : next.Pushed ↔ pc.Pushed ∨ pc = .cleanupPush := by
  have final : ∀ i succeeded, ¬ (Pc.enterFinal (shared.desc d) 0 i succeeded).Pushed := by
    intro i succeeded
    rcases Pc.enterFinal_cases (shared.desc d) 0 i succeeded with
      ⟨-, here⟩ | ⟨-, here⟩ | ⟨impossible, -⟩
    · rw [here]
      exact id
    · rw [here]
      exact id
    · exact absurd rfl impossible
  have before : ∀ {before after : Pc}, ¬ after.Pushed → ¬ (before.Pushed ∨ before = .cleanupPush) →
      (after.Pushed ↔ before.Pushed ∨ before = .cleanupPush) :=
    fun notAfter notBefore => ⟨fun after => absurd after notAfter, fun here => absurd here notBefore⟩
  cases edge with
  | cleanupPush => exact ⟨fun _ => Or.inr rfl, fun _ => trivial⟩
  | cleanupReturn => exact ⟨fun _ => Or.inl trivial, fun _ => trivial⟩
  | bailedHelp => exact absurd rfl (ok.2 rfl)
  | start | clearOldStatus | casOwn =>
    exact before (Pc.installing_enterInstall _ _).not_pushed (by simp [Pc.Pushed])
  | meetOther | resolveOther =>
    exact before (Pc.installing_afterCondCAS d _ _ _).not_pushed (by simp [Pc.Pushed])
  | targetClean | clearTarget =>
    exact before (Pc.installing_enterTarget _ _).not_pushed (by simp [Pc.Pushed])
  | loadVerdict | finalVolatile | finalClear => exact before (final _ _) (by simp [Pc.Pushed])
  | _ => exact before id (by simp [Pc.Pushed])

/-! ### Pointers in local variables -/

/-- The word holds a pointer to descriptor `d` or to one of its word descriptors. -/
def Word.PointsTo (pool : Pool) (d : Nat) (word : Word) : Prop :=
  (∃ dirty, word = pool.mwCASPtr d dirty) ∨ ∃ i, i < kMaxCount ∧ word = pool.condCASPtr d i

theorem CondRef.pointsTo {address : Nat} {pointer : Word}
    (descriptors : DescriptorsOk build pool shared)
    (reference : CondRef pool shared address pointer) :
    pointer.PointsTo pool (pool.descriptorAt pointer.rest) :=
  Or.inr ⟨_, Nat.lt_of_lt_of_le reference.2.inside
    (descriptors.entries _ reference.2.inUse).count_le, reference.1⟩

theorem MwRef.pointsTo {address : Nat} {pointer : Word}
    (reference : MwRef pool shared address pointer) :
    pointer.PointsTo pool (pool.descriptorAt pointer.rest) :=
  Or.inl ⟨_, reference.1⟩

theorem Pc.not_holds_enterInstall (descriptor : Descriptor) (i e : Nat) :
    ¬ (Pc.enterInstall build descriptor i).Holds pool e := by
  unfold Pc.enterInstall
  split
  · exact id
  · cases build with
    | persistent =>
      simp only [Pc.enterTarget]
      split <;> exact id
    | volatile => exact id

theorem Pc.not_holds_enterTarget (descriptor : Descriptor) (i e : Nat) :
    ¬ (Pc.enterTarget descriptor i).Holds pool e := by
  unfold Pc.enterTarget
  split <;> exact id

theorem Pc.not_holds_enterFinal (descriptor : Descriptor) (calldepth i e : Nat)
    (succeeded : Bool) :
    ¬ (Pc.enterFinal descriptor calldepth i succeeded).Holds pool e := by
  rcases Pc.enterFinal_cases descriptor calldepth i succeeded with
    ⟨-, here⟩ | ⟨-, here⟩ | ⟨-, here⟩ <;>
  · rw [here]
    exact id

theorem Pc.holds_afterCondCAS {d i e : Nat} {descriptor : Descriptor} {rval : Word}
    (holds : (Pc.afterCondCAS build pool d descriptor i rval).Holds pool e) :
    rval.mwcas = true ∧ pool.descriptorAt rval.rest = e := by
  unfold Pc.afterCondCAS at holds
  split at holds
  · exact absurd holds (Pc.not_holds_enterInstall descriptor (i + 1) e)
  · split at holds
    · rename_i isPointer
      split at holds <;> exact ⟨isPointer, holds⟩
    · exact holds.elim

/-- A pointer in a local variable was there before or has just been read from a target word. -/
theorem Pc.Next.holds {d calldepth e : Nat} {pc next : Pc}
    (edge : Pc.Next build pool shared d calldepth pc next)
    (descriptors : DescriptorsOk build pool shared)
    (words : ∀ address, WordOk build pool shared address (shared.mem address))
    (holds : next.Holds pool e) :
    pc.Holds pool e ∨ ∃ address, (shared.mem address).PointsTo pool e := by
  cases edge with
  | meetCondCAS met conditional =>
    subst met
    cases holds
    exact Or.inr ⟨_, ((words _).condRef conditional).pointsTo descriptors⟩
  | meetOther met notConditional different =>
    subst met
    obtain ⟨isPointer, rfl⟩ := Pc.holds_afterCondCAS holds
    rcases (words _).value_or_mwRef (Bool.eq_false_iff.mp notConditional) with value | reference
    · exact absurd isPointer (by simp [value.1])
    · exact Or.inr ⟨_, reference.pointsTo⟩
  | loadDesired | recheckSame | loadResolve | flushConflict | clearConflict => exact Or.inl holds
  | resolveOther met expected =>
    have same := (Pc.holds_afterCondCAS holds).2
    rw [Pool.mwCASPtr_rest, Pool.descriptorAt_descriptorAddress] at same
    exact Or.inl same
  | start | clearOldStatus | casOwn =>
    exact absurd holds (Pc.not_holds_enterInstall _ _ e)
  | targetClean | clearTarget => exact absurd holds (Pc.not_holds_enterTarget _ _ e)
  | loadVerdict | finalVolatile | finalClear =>
    exact absurd holds (Pc.not_holds_enterFinal _ _ _ e _)
  | _ => exact holds.elim

theorem ReadPc.holds_afterClean {e : Nat} {val : Word}
    (holds : (ReadPc.afterClean val).Holds pool e) :
    val.mwcas = true ∧ pool.descriptorAt val.rest = e := by
  unfold ReadPc.afterClean at holds
  split at holds
  · exact holds.elim
  · split at holds
    · rename_i isPointer
      split at holds
      · exact holds.elim
      · exact ⟨isPointer, holds⟩
    · split at holds <;> exact holds.elim

theorem ReadPc.holds_afterLoad {e address : Nat} {val : Word}
    (descriptors : DescriptorsOk build pool shared) (ok : WordOk build pool shared address val)
    (holds : (ReadPc.afterLoad build val).Holds pool e) : val.PointsTo pool e := by
  unfold ReadPc.afterLoad at holds
  split at holds
  · rename_i conditional
    have reference := ok.condRef conditional
    split at holds
    · exact holds.elim
    · cases holds
      exact reference.pointsTo descriptors
  · rename_i notConditional
    have pointer : val.mwcas = true ∧ pool.descriptorAt val.rest = e := by
      cases build with
      | persistent =>
        simp only at holds
        split at holds
        · exact holds
        · exact ReadPc.holds_afterClean holds
      | volatile =>
        simp only at holds
        split at holds
        · rename_i isPointer
          split at holds
          · exact holds.elim
          · exact ⟨isPointer, holds⟩
        · exact holds.elim
    obtain ⟨isPointer, rfl⟩ := pointer
    rcases ok.value_or_mwRef notConditional with value | reference
    · exact absurd isPointer (by simp [value.1])
    · exact reference.pointsTo

/-- The frames a step leaves use a descriptor only if its own frame did or a target word points to
it. -/
theorem Frame.Moves.uses {frame : Frame} {move : Move} {e : Nat}
    (moves : Frame.Moves build pool shared frame move)
    (descriptors : DescriptorsOk build pool shared)
    (words : ∀ address, WordOk build pool shared address (shared.mem address)) :
    move.All fun next => next.Uses pool e →
      frame.Uses pool e ∨ ∃ address, (shared.mem address).PointsTo pool e := by
  cases moves with
  | mwCAS moves =>
    cases moves with
    | goto edge =>
      intro uses
      rcases uses with own | holds
      · exact Or.inl (Or.inl own)
      · rcases edge.holds descriptors words holds with held | read
        · exact Or.inl (Or.inr held)
        · exact Or.inr read
    | help i rval =>
      refine ⟨?_, ?_⟩
      · intro uses
        rcases uses with own | holds
        · exact Or.inl (Or.inl own)
        · exact holds.elim
      · intro uses
        rcases uses with own | holds
        · exact Or.inl (Or.inr own)
        · exact holds.elim
    | ret => trivial
  | getValue moves =>
    cases moves with
    | load => exact fun holds => Or.inr ⟨_, ReadPc.holds_afterLoad descriptors (words _) holds⟩
    | loadStatus | flush => exact Or.inl
    | casCond => exact False.elim
    | clear val =>
      intro holds
      have pointer := ReadPc.holds_afterClean holds
      exact Or.inl pointer
    | help val =>
      refine ⟨False.elim, ?_⟩
      intro uses
      rcases uses with own | holds
      · exact Or.inl own
      · exact holds.elim
    | ret => trivial

/-! ### Who takes the pointers out again -/

/-- The frame at this program point will still replace the MwCAS pointer, dirty or not, in entry
`i` of its descriptor. -/
def Pc.Owes (i : Nat) (dirty : Bool) : Pc → Prop
  | .checkUndecided | .flushDescriptor | .loadStatus => False
  | .persistOldStatus _ | .clearOldStatus _ | .bailedHelp => False
  | .finalCAS k _ => k ≤ i
  | .finalRetry k _ => k < i ∨ (k = i ∧ dirty = false)
  | .finalFlush k _ => k < i
  | .finalClear k _ => k < i
  | .cleanupDirty | .cleanupFailed | .cleanupSucceeded | .cleanupPush | .cleanupReturn => False
  | .ret _ | .rawCheckFailed _ => False
  | _ => True

/-- The program point is between the two exchanges of `CondCAS` on entry `i`. -/
def Pc.Resolves (i : Nat) : Pc → Prop
  | .loadOwn k => k = i
  | .casOwn k _ => k = i
  | _ => False

def Frame.Owes (d i : Nat) (dirty : Bool) : Frame → Prop
  | .mwCAS own _ pc => own = d ∧ pc.Owes i dirty
  | .getValue _ _ => False

def Frame.Resolves (d i : Nat) : Frame → Prop
  | .mwCAS own _ pc => own = d ∧ pc.Resolves i
  | .getValue _ _ => False

theorem Pc.Installing.owes {pc : Pc} (installing : pc.Installing) (i : Nat) (dirty : Bool) :
    pc.Owes i dirty := by
  cases pc <;> first | exact installing.elim | trivial

theorem Pc.Resolves.owes {pc : Pc} {i : Nat} (resolves : pc.Resolves i) (dirty : Bool) :
    pc.Owes i dirty := by
  cases pc <;> first | exact resolves.elim | trivial

theorem Frame.Resolves.owes {frame : Frame} {d i : Nat} (resolves : frame.Resolves d i)
    (dirty : Bool) : frame.Owes d i dirty := by
  cases frame with
  | mwCAS own calldepth pc => exact ⟨resolves.1, Pc.Resolves.owes resolves.2 dirty⟩
  | getValue address pc => exact resolves.elim

/-- Who owes the replacement of a dirty pointer owes it also when the dirty bit is gone. -/
theorem Frame.Owes.of_dirty {frame : Frame} {d i : Nat} {before after : Bool}
    (owes : frame.Owes d i before) (cleared : before = after ∨ before = true) :
    frame.Owes d i after := by
  rcases cleared with rfl | rfl
  · exact owes
  · cases frame with
    | mwCAS own calldepth pc =>
      obtain ⟨same, owes⟩ := owes
      refine ⟨same, ?_⟩
      cases pc with
      | finalRetry k succeeded =>
        rcases owes with smaller | ⟨-, impossible⟩
        · exact Or.inl smaller
        · cases impossible
      | _ => exact owes
    | getValue address pc => exact owes.elim

theorem Frame.Owes.uses {frame : Frame} {d i : Nat} {dirty : Bool}
    (owes : frame.Owes d i dirty) : frame.Uses pool d := by
  cases frame with
  | mwCAS own calldepth pc => exact Or.inl owes.1
  | getValue address pc => exact owes.elim

theorem Pc.owes_enterFinal {descriptor : Descriptor} {k i : Nat} (calldepth : Nat)
    (succeeded dirty : Bool) (before : k ≤ i) (inside : i < descriptor.count) :
    (Pc.enterFinal descriptor calldepth k succeeded).Owes i dirty := by
  have here : Pc.enterFinal descriptor calldepth k succeeded = .finalCAS k succeeded :=
    if_pos (Nat.lt_of_le_of_lt before inside)
  rw [here]
  exact before

/-- An exchange that finds its comparand leaves the new value. -/
theorem Shared.compareExchange64_mem_of_eq {address : Nat} {newValue comparand : Word}
    (found : shared.mem address = comparand) :
    (shared.compareExchange64 address newValue comparand).mem address = newValue := by
  rw [Shared.compareExchange64, if_pos found, Shared.storeWord_mem_self]

theorem Shared.compareExchange64_eq_self {address : Nat} {newValue comparand : Word}
    (other : shared.mem address ≠ comparand) :
    shared.compareExchange64 address newValue comparand = shared :=
  if_neg other

theorem EntriesOk.finalValue_mwcas {d i : Nat} (entries : EntriesOk pool shared d)
    (inside : i < (shared.desc d).count) (succeeded : Bool) :
    (((shared.desc d).words i).finalValue succeeded).mwcas = false :=
  ((Word.isCleanPtr_iff _).mp (entries.finalValue_clean inside succeeded)).1

/-- A frame that owes the replacement of an MwCAS pointer still owes it after a step that leaves
the pointer in the word. -/
theorem Pc.Moves.owes {d calldepth i address : Nat} {pc : Pc} {move : Move}
    {dirtyBefore dirtyAfter : Bool}
    (moves : Pc.Moves build pool shared d calldepth pc move)
    (descriptors : DescriptorsOk build pool shared)
    (words : ∀ address, WordOk build pool shared address (shared.mem address))
    (lists : shared.Lists d i address)
    (before : shared.mem address = pool.mwCASPtr d dirtyBefore)
    (after : (stepMwCAS build pool shared d calldepth pc).1.mem address =
      pool.mwCASPtr d dirtyAfter)
    (owes : pc.Owes i dirtyBefore) : move.Any (Frame.Owes d i dirtyAfter) := by
  obtain ⟨used, inside, rfl⟩ := lists
  have entries := descriptors.entries d used
  have gone : ∀ {succeeded dirty : Bool},
      (((shared.desc d).words i).finalValue succeeded).withDirty dirty ≠
        pool.mwCASPtr d dirtyAfter := by
    intro succeeded dirty same
    have flag : (((shared.desc d).words i).finalValue succeeded).mwcas = true :=
      congrArg Word.mwcas same
    rw [entries.finalValue_mwcas inside succeeded] at flag
    cases flag
  have swapped : ∀ {newValue : Word}, (shared.compareExchange64 ((shared.desc d).words i).address
      newValue (pool.mwCASPtr d dirtyBefore)).mem ((shared.desc d).words i).address = newValue :=
    Shared.compareExchange64_mem_of_eq before
  cases moves with
  | goto edge =>
    cases edge with
    | start | clearOldStatus | casOwn => exact ⟨rfl, (Pc.installing_enterInstall _ _).owes i _⟩
    | meetOther | resolveOther => exact ⟨rfl, (Pc.installing_afterCondCAS d _ _ _).owes i _⟩
    | targetClean | clearTarget => exact ⟨rfl, (Pc.installing_enterTarget _ _).owes i _⟩
    | loadVerdict => exact ⟨rfl, Pc.owes_enterFinal calldepth _ _ (Nat.zero_le i) inside⟩
    | finalClean k succeeded persistent met =>
      subst persistent
      rcases Nat.lt_or_eq_of_le (show k ≤ i from owes) with smaller | rfl
      · exact ⟨rfl, Or.inl smaller⟩
      · refine ⟨rfl, Or.inr ⟨rfl, ?_⟩⟩
        have clean : dirtyBefore = false := (pool.mwCASPtr_inj (before.symm.trans met)).2
        have same : shared.mem ((shared.desc d).words k).address = pool.mwCASPtr d dirtyAfter := by
          have unchanged : (stepMwCAS .persistent pool shared d calldepth
              (.finalCAS k succeeded)).1 = shared :=
            Shared.compareExchange64_eq_self (by rw [met]; exact fun same => by cases same)
          rwa [unchanged] at after
        exact (pool.mwCASPtr_inj (same.symm.trans met)).2
    | finalOther k succeeded persistent met =>
      subst persistent
      rcases Nat.lt_or_eq_of_le (show k ≤ i from owes) with smaller | rfl
      · exact ⟨rfl, smaller⟩
      · cases dirtyBefore with
        | true => exact absurd (swapped.symm.trans after) gone
        | false => exact absurd before met
    | finalVolatile k succeeded volatile =>
      subst volatile
      rcases Nat.lt_or_eq_of_le (show k ≤ i from owes) with smaller | rfl
      · exact ⟨rfl, Pc.owes_enterFinal calldepth _ _ smaller inside⟩
      · have clean : dirtyBefore = false := by
          have notDirty := (words ((shared.desc d).words k).address).clean rfl
          rwa [before] at notDirty
        subst clean
        exact absurd (swapped.symm.trans after) gone
    | finalRetry k succeeded =>
      rcases owes with smaller | ⟨rfl, rfl⟩
      · exact ⟨rfl, smaller⟩
      · exact absurd (swapped.symm.trans after) gone
    | finalFlush k succeeded => exact ⟨rfl, owes⟩
    | finalClear k succeeded =>
      exact ⟨rfl, Pc.owes_enterFinal calldepth _ _ (Nat.succ_le_of_lt owes) inside⟩
    | checkUndecided | flushDescriptor | oldStatus | bailOwner | bailHelper | persistOldStatus
    | bailedHelp | cleanupDirty | cleanupFailed | cleanupNotFailed | cleanupSucceeded | cleanupPush
    | cleanupReturn => exact owes.elim
    | _ => exact ⟨rfl, trivial⟩
  | help k rval => exact Or.inl ⟨rfl, trivial⟩
  | ret result => exact owes.elim

/-- A frame between the two exchanges of `CondCAS` stays there until the CondCAS pointer is
gone. -/
theorem Pc.Moves.resolves {d calldepth i address : Nat} {pc : Pc} {move : Move}
    (moves : Pc.Moves build pool shared d calldepth pc move)
    (descriptors : DescriptorsOk build pool shared)
    (lists : shared.Lists d i address)
    (before : shared.mem address = pool.condCASPtr d i)
    (after : (stepMwCAS build pool shared d calldepth pc).1.mem address = pool.condCASPtr d i)
    (resolves : pc.Resolves i) : move.Any (Frame.Resolves d i) := by
  obtain ⟨used, inside, rfl⟩ := lists
  have entries := descriptors.entries d used
  cases moves with
  | goto edge =>
    cases edge with
    | loadOwn k => exact ⟨rfl, resolves⟩
    | casOwn k undecided =>
      have same : k = i := resolves
      subst same
      have swapped : (stepMwCAS build pool shared d calldepth (.casOwn k undecided)).1.mem
          ((shared.desc d).words k).address =
          if undecided then pool.mwCASPtr d build.dirtyFlag
          else ((shared.desc d).words k).oldValue :=
        Shared.compareExchange64_mem_of_eq before
      have flag := congrArg Word.condcas (swapped.symm.trans after)
      have clean := (Word.isCleanPtr_iff _).mp (entries.oldValue k inside)
      cases undecided with
      | true => cases flag
      | false =>
        simp only [Bool.false_eq_true, if_false, clean.2.1] at flag
        cases flag
    | _ => exact resolves.elim
  | help => exact resolves.elim
  | ret => exact resolves.elim

/-- The frame that has just put a CondCAS pointer in a word goes on to resolve it. -/
theorem Pc.Moves.resolves_of_installed {d calldepth i : Nat} {move : Move}
    (moves : Pc.Moves build pool shared d calldepth (.installCondCAS i) move)
    (clean : ((shared.desc d).words i).oldValue.isCleanPtr = true)
    (met : shared.mem ((shared.desc d).words i).address = ((shared.desc d).words i).oldValue) :
    move.Any (Frame.Resolves d i) := by
  cases moves with
  | goto edge =>
    cases edge with
    | meetCondCAS same conditional =>
      rw [← same, met, ((Word.isCleanPtr_iff _).mp clean).2.1] at conditional
      cases conditional
    | installed => exact ⟨rfl, rfl⟩
    | meetOther same _ different => exact absurd (same.symm.trans met) different

/-- The owner of the second exchange of `CondCAS` owes the pointer it puts in. -/
theorem Pc.Moves.owes_of_promoted {d calldepth i : Nat} {undecided : Bool} {move : Move}
    (moves : Pc.Moves build pool shared d calldepth (.casOwn i undecided) move) (dirty : Bool) :
    move.Any (Frame.Owes d i dirty) := by
  cases moves with
  | goto edge =>
    cases edge with
    | casOwn => exact ⟨rfl, (Pc.installing_enterInstall _ _).owes i dirty⟩

theorem Frame.Moves.owes_of_promoted {frame : Frame} {move : Move} {d i : Nat}
    (moves : Frame.Moves build pool shared frame move) (promotes : frame.Promotes pool d i)
    (resolves : frame.Resolves d i) (dirty : Bool) : move.Any (Frame.Owes d i dirty) := by
  cases moves with
  | @mwCAS own calldepth pc move moves =>
    obtain ⟨rfl, resolves⟩ := resolves
    cases pc with
    | casOwn k undecided =>
      have same : k = i := resolves
      subst same
      exact moves.owes_of_promoted dirty
    | loadOwn => exact promotes.elim
    | _ => exact resolves.elim
  | getValue moves => exact resolves.elim

end Pmwcas
