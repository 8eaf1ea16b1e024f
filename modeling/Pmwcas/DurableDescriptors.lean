/-
This file is about the durable copies of the descriptors that one thread fills, runs and recycles,
when every cache line reaches NVM at any time and on its own. `FreeDescriptor` and `AddEntry` do not
flush, so a durable copy can mix the lines of several operations. The condition `WritesBackSafely`
names the lines whose arrival makes such mixtures, and in runs without them every durable
descriptor in use shows the entries of one operation that was called on it.
-/

import Mathlib
import Pmwcas.Effects
import Pmwcas.Solo

namespace Pmwcas

open Transition

/-! ### Entries of one operation -/

/-- Two entries agree in what an operation does with a word. -/
def WordDescriptor.Agrees (first second : WordDescriptor) : Prop :=
  first.address = second.address ∧ first.oldValue = second.oldValue ∧
    first.newValue = second.newValue

/-- All entries of the descriptor are entries of the operation `content`. -/
def Descriptor.BelongsTo (descriptor content : Descriptor) : Prop :=
  descriptor.count ≤ content.count ∧
    ∀ w, w < descriptor.count → (descriptor.words w).Agrees (content.words w)

theorem Descriptor.belongsTo_self (descriptor : Descriptor) : descriptor.BelongsTo descriptor :=
  ⟨Nat.le_refl _, fun _ _ => ⟨rfl, rfl, rfl⟩⟩

theorem Descriptor.BelongsTo.of_eq {first second content : Descriptor} (belongs : second.BelongsTo content)
    (count : first.count = second.count) (words : first.words = second.words) :
    first.BelongsTo content := by
  unfold Descriptor.BelongsTo
  rw [count, words]
  exact belongs

theorem Descriptor.belongsTo_of_empty {descriptor : Descriptor} (empty : descriptor.count = 0)
    (content : Descriptor) : descriptor.BelongsTo content := by
  unfold Descriptor.BelongsTo
  rw [empty]
  exact ⟨Nat.zero_le _, fun w inside => absurd inside (Nat.not_lt_zero w)⟩

theorem Descriptor.BelongsTo.trans {first second third : Descriptor}
    (one : first.BelongsTo second) (two : second.BelongsTo third) : first.BelongsTo third := by
  refine ⟨Nat.le_trans one.1 two.1, ?_⟩
  intro w inside
  have left := one.2 w inside
  have right := two.2 w (Nat.lt_of_lt_of_le inside one.1)
  exact ⟨left.1.trans right.1, left.2.1.trans right.2.1, left.2.2.trans right.2.2⟩

/-- Every durable descriptor in use shows the entries of one operation that was called on it. -/
def Solo.Coherent (called : Nat → Descriptor → Prop) (solo : Solo) : Prop :=
  ∀ d, (solo.shared.nvDesc d).status.code.InUse →
    ∃ content, called d content ∧ (solo.shared.nvDesc d).BelongsTo content

/-! ### The lines that make no mixture -/

/-- The program points up to the first flush. -/
def Pc.isEarly : Pc → Bool
  | .checkUndecided => true
  | .flushDescriptor => true
  | _ => false

/-- The operation on descriptor `d` has been called and has not flushed the descriptor yet. -/
def Solo.Early (solo : Solo) (d : Nat) : Prop :=
  ∃ pc, pc.isEarly = true ∧ solo.control = .running [.mwCAS d 0 pc]

/-- The durable copy of descriptor `d` after the arrival of a line. -/
def Solo.afterWriteBack (solo : Solo) (d line : Nat) : Descriptor :=
  (solo.shared.desc d).copyFields (Field.inLine line) (solo.shared.nvDesc d)

/-- The first line, which holds the status, does not arrive between the store of Undecided and the
first flush, unless the entries in the other lines have arrived already. No other line that changes
an entry arrives as long as the durable status is in use. -/
def Solo.WritesBackSafely (solo : Solo) : SoloAction → Prop
  | .writeBack d line =>
    if line = 0 then solo.Early d → (solo.afterWriteBack d line).BelongsTo (solo.shared.desc d)
    else (solo.shared.nvDesc d).status.code.InUse →
      (solo.afterWriteBack d line).BelongsTo (solo.shared.nvDesc d)
  | _ => True

/-! ### What the arrival of a line changes -/

section

variable {source target : Descriptor}

theorem Descriptor.copyFields_words (same : target.words = source.words) (fields : List Field) :
    (source.copyFields fields target).words = source.words ∧
      ((source.copyFields fields target).status = target.status ∨
        (source.copyFields fields target).status = source.status) := by
  induction fields generalizing target with
  | nil => exact ⟨same, Or.inl rfl⟩
  | cons field rest inductionHypothesis =>
    have copied : (source.copyField target field).words = source.words := by
      cases field <;> simp [Descriptor.copyField, Descriptor.setWord, same]
    have status : (source.copyField target field).status = target.status ∨
        (source.copyField target field).status = source.status := by
      cases field with
      | status => exact Or.inr rfl
      | _ => exact Or.inl rfl
    obtain ⟨sameAfter, kept | taken⟩ := inductionHypothesis copied
    · refine ⟨sameAfter, ?_⟩
      rw [← kept] at status
      exact status
    · exact ⟨sameAfter, Or.inr taken⟩

theorem Descriptor.copyFields_header (fields : List Field) (absent : .status ∉ fields)
    (absentCount : .count ∉ fields) :
    (source.copyFields fields target).status = target.status ∧
      (source.copyFields fields target).count = target.count := by
  induction fields generalizing target with
  | nil => exact ⟨rfl, rfl⟩
  | cons field rest inductionHypothesis =>
    obtain ⟨status, count⟩ := @inductionHypothesis (source.copyField target field)
      (fun member => absent (List.mem_cons_of_mem _ member))
      (fun member => absentCount (List.mem_cons_of_mem _ member))
    show (source.copyFields rest (source.copyField target field)).status = _ ∧
      (source.copyFields rest (source.copyField target field)).count = _
    rw [status, count]
    cases field with
    | status => exact absurd List.mem_cons_self absent
    | count => exact absurd List.mem_cons_self absentCount
    | _ => exact ⟨rfl, rfl⟩

theorem Field.inLine_zero : Field.inLine 0 = [.status, .count, .address 0, .oldValue 0] := by
  decide

theorem Field.header_not_mem_inLine {line : Nat} (later : line ≠ 0) :
    Field.status ∉ Field.inLine line ∧ Field.count ∉ Field.inLine line := by
  have first : ∀ field : Field, field.offset / kCacheLineSize = 0 → field ∉ Field.inLine line := by
    intro field zero member
    have here := (List.mem_filter.mp member).2
    rw [zero] at here
    exact later (beq_iff_eq.mp here).symm
  exact ⟨first .status (by decide), first .count (by decide)⟩

end

/-! ### The frames of one thread -/

/-- The top frame has loaded the status it is about to store, and it is before its first flush only
if it is the only one. All other frames wait in the install loop for a call to return. -/
inductive FramesOk (desc : Nat → Descriptor) : List Frame → Prop where
  | mk {d calldepth : Nat} {pc : Pc} {rest : List Frame}
      (early : pc.isEarly = true →
        calldepth = 0 ∧ rest = [] ∧ (desc d).status = .of .undecided)
      (loaded : ∀ status, pc = .storeClear status → status = (desc d).status)
      (waiting : ∀ frame ∈ rest, ∃ e depth i, frame = .mwCAS e depth (.installCondCAS i)) :
      FramesOk desc (.mwCAS d calldepth pc :: rest)

/-- A program point that needs nothing to be known. -/
def Pc.Plain (pc : Pc) : Prop := pc.isEarly = false ∧ ∀ status, pc ≠ .storeClear status

theorem Pc.plain_enterTarget (descriptor : Descriptor) (index : Nat) :
    (Pc.enterTarget descriptor index).Plain := by
  unfold Pc.enterTarget
  split <;> exact ⟨rfl, fun _ here => by cases here⟩

theorem Pc.plain_enterInstall (descriptor : Descriptor) (index : Nat) :
    (Pc.enterInstall .persistent descriptor index).Plain := by
  unfold Pc.enterInstall
  split
  · exact ⟨rfl, fun _ here => by cases here⟩
  · exact Pc.plain_enterTarget descriptor 0

theorem Pc.plain_enterFinal (descriptor : Descriptor) (calldepth index : Nat) (succeeded : Bool) :
    (Pc.enterFinal descriptor calldepth index succeeded).Plain := by
  unfold Pc.enterFinal
  split
  · exact ⟨rfl, fun _ here => by cases here⟩
  · split <;> exact ⟨rfl, fun _ here => by cases here⟩

theorem Pc.plain_afterCondCAS (pool : Pool) (d : Nat) (descriptor : Descriptor) (index : Nat)
    (rval : Word) : (Pc.afterCondCAS .persistent pool d descriptor index rval).Plain := by
  unfold Pc.afterCondCAS
  split
  · exact Pc.plain_enterInstall descriptor (index + 1)
  · split
    · split <;> exact ⟨rfl, fun _ here => by cases here⟩
    · exact ⟨rfl, fun _ here => by cases here⟩

/-- Where a step of a call on `d` goes, but for the check before the first flush. -/
inductive Goes (after : Shared) (d calldepth : Nat) : Move → Prop where
  | plain {pc : Pc} (isPlain : pc.Plain) : Goes after d calldepth (.goto (.mwCAS d calldepth pc))
  | clear : Goes after d calldepth (.goto (.mwCAS d calldepth (.storeClear (after.desc d).status)))
  | help (i e : Nat) : Goes after d calldepth (.call (.mwCAS d calldepth (.installCondCAS i))
      (.mwCAS e (calldepth + 1) .loadStatus))
  | back : Goes after d calldepth .done

section

variable {pool : Pool} {shared : Shared} {d calldepth : Nat}

theorem stepMwCAS_goes {pc : Pc} (notCheck : pc ≠ .checkUndecided) :
    Goes (stepMwCAS .persistent pool shared d calldepth pc).1 d calldepth
      (stepMwCAS .persistent pool shared d calldepth pc).2 := by
  have plain : ∀ {after : Shared} {next : Pc}, next.isEarly = false →
      (∀ status, next ≠ .storeClear status) →
      Goes after d calldepth (.goto (.mwCAS d calldepth next)) :=
    fun early clear => .plain ⟨early, clear⟩
  cases pc with
  | checkUndecided => exact absurd rfl notCheck
  | loadStatus =>
    simp only [stepMwCAS]
    split
    · exact plain rfl fun _ here => by cases here
    · exact .plain (Pc.plain_enterInstall _ _)
  | clearOldStatus old => exact .plain (Pc.plain_enterInstall _ _)
  | installCondCAS i =>
    simp only [stepMwCAS]
    split
    · exact plain rfl fun _ here => by cases here
    · split
      · exact plain rfl fun _ here => by cases here
      · exact .plain (Pc.plain_afterCondCAS _ _ _ _ _)
  | casResolve i ret desired undecided =>
    simp only [stepMwCAS]
    generalize shared.compareExchange64 _ _ _ = after
    split
    · exact .plain (Pc.plain_afterCondCAS _ _ _ _ _)
    · exact plain rfl fun _ here => by cases here
  | casOwn i undecided => exact .plain (Pc.plain_afterCondCAS _ _ _ _ _)
  | help i rval =>
    have entry : Pc.entry .persistent (calldepth + 1) = .loadStatus := rfl
    simp only [stepMwCAS, entry]
    exact .help i _
  | loadTarget i =>
    simp only [stepMwCAS]
    split
    · exact plain rfl fun _ here => by cases here
    · exact .plain (Pc.plain_enterTarget _ _)
  | clearTarget i => exact .plain (Pc.plain_enterTarget _ _)
  | loadForClear => exact .clear
  | loadVerdict => exact .plain (Pc.plain_enterFinal _ _ _ _)
  | finalClear i succeeded => exact .plain (Pc.plain_enterFinal _ _ _ _)
  | ret result => exact .back
  | loadDesired | recheckWord | checkDecided | finalCAS | cleanupDirty | cleanupFailed
  | cleanupSucceeded =>
    simp only [stepMwCAS]
    split <;> exact plain rfl fun _ here => by cases here
  | _ => exact plain rfl fun _ here => by cases here

/-- The status that a step of a call writes, and what it makes durable of it. -/
structure Shared.StatusKept (shared after : Shared) (d : Nat) : Prop where
  inUse : (after.desc d).status.code.InUse → (shared.desc d).status.code.InUse
  durable : after.nvDesc d = shared.nvDesc d ∨
    after.nvDesc d = { shared.nvDesc d with status := (shared.desc d).status }

theorem Shared.statusKept_of_eq {after : Shared} (desc : after.desc = shared.desc)
    (nvDesc : after.nvDesc = shared.nvDesc) : shared.StatusKept after d := by
  refine ⟨?_, Or.inl ?_⟩
  · rw [desc]
    exact id
  · rw [nvDesc]

theorem Shared.statusKept_storeStatus {status : Status}
    (used : status.code.InUse → (shared.desc d).status.code.InUse) :
    shared.StatusKept (shared.storeStatus d status) d := by
  refine ⟨?_, Or.inl rfl⟩
  rw [Shared.storeStatus_status_self]
  exact used

theorem Shared.statusKept_compareExchange32 {newStatus comparand : Status}
    (used : newStatus.code.InUse → comparand.code.InUse) :
    shared.StatusKept (shared.compareExchange32 d newStatus comparand) d := by
  unfold Shared.compareExchange32
  split
  · rename_i same
    refine Shared.statusKept_storeStatus ?_
    rw [same]
    exact used
  · exact Shared.statusKept_of_eq rfl rfl

theorem Shared.statusKept_compareExchange64 (address : Nat) (newValue comparand : Word) :
    shared.StatusKept (shared.compareExchange64 address newValue comparand) d := by
  unfold Shared.compareExchange64
  split <;> exact Shared.statusKept_of_eq rfl rfl

theorem Shared.statusKept_persistStatus : shared.StatusKept (shared.persistStatus d) d :=
  ⟨id, Or.inr (Function.update_self _ _ _)⟩

theorem stepMwCAS_statusKept {pc : Pc} (notFlush : pc ≠ .flushDescriptor)
    (loaded : ∀ status, pc = .storeClear status → status = (shared.desc d).status) :
    shared.StatusKept (stepMwCAS .persistent pool shared d calldepth pc).1 d := by
  cases pc with
  | flushDescriptor => exact absurd rfl notFlush
  | persistOldStatus | persistStatus => exact Shared.statusKept_persistStatus
  | clearOldStatus old => exact Shared.statusKept_compareExchange32 id
  | decide myStatus => exact Shared.statusKept_compareExchange32 fun _ => Or.inl rfl
  | storeClear status =>
    refine Shared.statusKept_storeStatus ?_
    rw [loaded status rfl]
    exact id
  | installCondCAS | casResolve | casOwn | clearConflict | clearTarget | finalCAS | finalRetry
  | finalClear => exact Shared.statusKept_compareExchange64 _ _ _
  | _ => exact Shared.statusKept_of_eq rfl rfl

end

/-! ### The invariant -/

/-- What the thread is doing is in order. -/
def ControlTraced (desc : Nat → Descriptor) : Control → Prop
  | .idle => True
  | .writing d pending => (desc d).Rewrites pending
  | .running callStack => FramesOk desc callStack

/-- Descriptors in use have the entries of a called operation, as long as they are counted, and their
durable copies have them too from the first flush on. -/
structure Solo.Traced (called : Nat → Descriptor → Prop) (solo : Solo) : Prop where
  control : ControlTraced solo.shared.desc solo.control
  entries : ∀ d, (solo.shared.desc d).status.code.InUse →
    ∃ content, called d content ∧ (solo.shared.desc d).BelongsTo content
  durable : ∀ d, (solo.shared.desc d).status.code.InUse → ¬ solo.Early d →
    (solo.shared.nvDesc d).status.code.InUse ∧
      (solo.shared.nvDesc d).words = (solo.shared.desc d).words
  coherent : solo.Coherent called

theorem Goes.traced {after : Shared} {d calldepth : Nat} {move : Move} {rest : List Frame}
    (goes : Goes after d calldepth move)
    (waiting : ∀ frame ∈ rest, ∃ e depth i, frame = .mwCAS e depth (.installCondCAS i)) :
    ControlTraced after.desc (.run (move.stack rest)) := by
  cases goes with
  | plain isPlain =>
    refine .mk ?_ ?_ waiting
    · intro early
      rw [isPlain.1] at early
      cases early
    · intro status here
      exact absurd here (isPlain.2 status)
  | clear =>
    refine .mk (fun early => by cases early) ?_ waiting
    intro status here
    cases here
    rfl
  | help i e =>
    refine .mk (fun early => by cases early) (fun status here => by cases here) ?_
    intro frame member
    rcases List.mem_cons.mp member with rfl | later
    · exact ⟨d, calldepth, i, rfl⟩
    · exact waiting frame later
  | back =>
    cases rest with
    | nil => exact trivial
    | cons frame rest =>
      obtain ⟨e, depth, i, rfl⟩ := waiting frame List.mem_cons_self
      exact .mk (fun early => by cases early) (fun status here => by cases here)
        fun other member => waiting other (List.mem_cons_of_mem _ member)

theorem Solo.Traced.mono {called calledAfter : Nat → Descriptor → Prop} {solo : Solo}
    (traced : solo.Traced called)
    (grows : ∀ d content, called d content → calledAfter d content) : solo.Traced calledAfter := by
  refine ⟨traced.control, ?_, traced.durable, ?_⟩
  · intro d used
    obtain ⟨content, isCalled, same⟩ := traced.entries d used
    exact ⟨content, grows d content isCalled, same⟩
  · intro d used
    obtain ⟨content, isCalled, belongs⟩ := traced.coherent d used
    exact ⟨content, grows d content isCalled, belongs⟩

/-! ### The steps -/

section

variable {pool : Pool} {called : Nat → Descriptor → Prop} {before after : Solo}

theorem Solo.not_early {solo : Solo} (idle : ∀ callStack, solo.control ≠ .running callStack)
    (d : Nat) : ¬ solo.Early d := by
  rintro ⟨pc, -, running⟩
  exact idle _ running

theorem ControlTraced.store {desc : Nat → Descriptor} {d : Nat} {pending : List Descriptor}
    (rewrites : (desc d).Rewrites pending) : ControlTraced desc (.store d pending) := by
  cases pending with
  | nil => trivial
  | cons next rest => exact rewrites

/-- A step that leaves the descriptors and their durable copies alone, outside of a call. -/
theorem Solo.Traced.of_desc_eq (traced : before.Traced called)
    (idle : ∀ callStack, before.control ≠ .running callStack)
    (control : ControlTraced after.shared.desc after.control) (desc : after.shared.desc = before.shared.desc)
    (nvDesc : after.shared.nvDesc = before.shared.nvDesc) : after.Traced called := by
  refine ⟨control, ?_, ?_, ?_⟩
  · rw [desc]
    exact traced.entries
  · rw [desc, nvDesc]
    exact fun d used _ => traced.durable d used (Solo.not_early idle d)
  · unfold Solo.Coherent
    rw [nvDesc]
    exact traced.coherent

theorem Solo.Traced.mwCAS {d : Nat} (traced : before.Traced called)
    (idle : before.control = .idle) (isCalled : called d (before.shared.desc d)) :
    Solo.Traced called {
      shared := before.shared.storeStatus d (.of .undecided)
      control := .running [.mwCAS d 0 (.entry .persistent 0)] } := by
  have kept := before.shared.kept_storeStatus d (.of .undecided)
  have notEarly : ∀ e, ¬ before.Early e := Solo.not_early fun callStack running => by
    rw [idle] at running
    cases running
  refine ⟨.mk (fun _ => ⟨rfl, rfl, Shared.storeStatus_status_self _ _ _⟩)
    (fun status here => by cases here) (fun frame member => absurd member List.not_mem_nil), ?_, ?_,
    traced.coherent⟩
  · intro e used
    by_cases same : e = d
    · subst same
      exact ⟨_, isCalled, (Descriptor.belongsTo_self _).of_eq kept.count kept.words⟩
    · rw [kept.desc e same] at used ⊢
      exact traced.entries e used
  · intro e used later
    by_cases same : e = d
    · subst same
      exact absurd ⟨.checkUndecided, rfl, rfl⟩ later
    · rw [kept.desc e same] at used ⊢
      exact traced.durable e used (notEarly e)

theorem Solo.Traced.write {d : Nat} {content : Descriptor} {rest : List Descriptor}
    (traced : before.Traced called) (writing : before.control = .writing d (content :: rest)) :
    Solo.Traced called {
      shared := before.shared.setDesc d content
      control := .store d rest } := by
  have rewrites := traced.control
  rw [writing] at rewrites
  obtain ⟨stored, following⟩ := Descriptor.Rewrites.store rewrites
  have notEarly : ∀ e, ¬ before.Early e := Solo.not_early fun callStack running => by
    rw [writing] at running
    cases running
  have here : (before.shared.setDesc d content).desc d = content := Function.update_self _ _ _
  have cleared : content.status.code.InUse → content = { before.shared.desc d with count := 0 } := by
    intro used
    rcases stored with finished | same
    · rw [finished] at used
      exact absurd used (by decide)
    · exact same
  have others : ∀ e, e ≠ d → (before.shared.setDesc d content).desc e = before.shared.desc e :=
    fun e different => Function.update_of_ne different _ _
  refine ⟨.store (by rw [here]; exact following), ?_, ?_, traced.coherent⟩
  · intro e used
    by_cases same : e = d
    · subst same
      rw [here] at used ⊢
      have same := cleared used
      rw [same] at used ⊢
      obtain ⟨called, isCalled, -⟩ := traced.entries e used
      exact ⟨called, isCalled, Descriptor.belongsTo_of_empty rfl called⟩
    · rw [others e same] at used ⊢
      exact traced.entries e used
  · intro e used _
    by_cases same : e = d
    · subst same
      rw [here] at used ⊢
      have same := cleared used
      rw [same] at used ⊢
      exact traced.durable e used (notEarly e)
    · rw [others e same] at used ⊢
      exact traced.durable e used (notEarly e)

theorem Solo.Traced.flushDescriptor {d : Nat} (traced : before.Traced called)
    (running : before.control = .running [.mwCAS d 0 .flushDescriptor])
    (undecided : (before.shared.desc d).status = .of .undecided) :
    Solo.Traced called {
      shared := before.shared.flushDescriptor d
      control := .running [.mwCAS d 0 .loadStatus] } := by
  have used : (before.shared.desc d).status.code.InUse := by
    rw [undecided]
    exact Or.inl rfl
  have here : (before.shared.flushDescriptor d).nvDesc d = before.shared.desc d :=
    Function.update_self _ _ _
  have others : ∀ e, e ≠ d → (before.shared.flushDescriptor d).nvDesc e = before.shared.nvDesc e :=
    fun e different => Function.update_of_ne different _ _
  refine ⟨.mk (fun early => by cases early) (fun status same => by cases same)
    (fun frame member => absurd member List.not_mem_nil), traced.entries, ?_, ?_⟩
  · intro e usedHere _
    by_cases same : e = d
    · subst same
      rw [here]
      exact ⟨used, rfl⟩
    · rw [others e same]
      refine traced.durable e usedHere ?_
      rintro ⟨pc, -, runningOther⟩
      rw [running] at runningOther
      cases runningOther
      exact same rfl
  · intro e usedHere
    by_cases same : e = d
    · subst same
      rw [here]
      exact traced.entries e used
    · rw [others e same] at usedHere ⊢
      exact traced.coherent e usedHere

/-- A step of a call after its first flush. -/
theorem Solo.Traced.later {d calldepth : Nat} {pc : Pc} {rest : List Frame}
    (traced : before.Traced called)
    (running : before.control = .running (.mwCAS d calldepth pc :: rest))
    (notEarly : pc.isEarly = false)
    (control : ControlTraced after.shared.desc after.control)
    (shared : after.shared = (stepMwCAS .persistent pool before.shared d calldepth pc).1) :
    after.Traced called := by
  have frames := traced.control
  rw [running] at frames
  obtain ⟨-, loaded, -⟩ := frames
  have kept := stepMwCAS_kept pool before.shared d calldepth pc
  have status : before.shared.StatusKept
      (stepMwCAS .persistent pool before.shared d calldepth pc).1 d := by
    refine stepMwCAS_statusKept ?_ loaded
    rintro rfl
    cases notEarly
  rw [← shared] at kept status
  have settled : ∀ e, ¬ before.Early e := by
    rintro e ⟨early, isEarly, runningOther⟩
    rw [running] at runningOther
    cases runningOther
    rw [notEarly] at isEarly
    cases isEarly
  have durable : ∀ e, (before.shared.desc e).status.code.InUse →
      (after.shared.nvDesc e).status.code.InUse ∧
        (after.shared.nvDesc e).words = (before.shared.desc e).words := by
    intro e used
    have first := traced.durable e used (settled e)
    by_cases same : e = d
    · subst same
      rcases status.durable with unchanged | flushed
      · rw [unchanged]
        exact first
      · rw [flushed]
        exact ⟨used, first.2⟩
    · rw [kept.nvDesc e same]
      exact first
  refine ⟨control, ?_, ?_, ?_⟩
  · intro e used
    by_cases same : e = d
    · subst same
      obtain ⟨content, isCalled, belongs⟩ := traced.entries e (status.inUse used)
      exact ⟨content, isCalled, belongs.of_eq kept.count kept.words⟩
    · rw [kept.desc e same] at used ⊢
      exact traced.entries e used
  · intro e used _
    by_cases same : e = d
    · subst same
      obtain ⟨usedAfter, words⟩ := durable e (status.inUse used)
      exact ⟨usedAfter, words.trans kept.words.symm⟩
    · rw [kept.desc e same] at used ⊢
      exact durable e used
  · intro e used
    by_cases same : e = d
    · subst same
      rcases status.durable with unchanged | flushed
      · rw [unchanged] at used ⊢
        exact traced.coherent e used
      · rw [flushed] at used ⊢
        obtain ⟨content, isCalled, belongs⟩ :=
          traced.coherent e (traced.durable e used (settled e)).1
        exact ⟨content, isCalled, belongs⟩
    · rw [kept.nvDesc e same] at used ⊢
      exact traced.coherent e used

theorem Solo.Traced.frame {frame : Frame} {rest : List Frame} (traced : before.Traced called)
    (running : before.control = .running (frame :: rest)) :
    Solo.Traced called {
      shared := (frame.step .persistent pool before.shared).1
      control := .run ((frame.step .persistent pool before.shared).2.stack rest) } := by
  have frames := traced.control
  rw [running] at frames
  cases frames with
  | @mk d calldepth pc _ early loaded waiting =>
  cases isEarly : pc.isEarly with
  | false =>
    refine traced.later running isEarly ?_ rfl
    refine (stepMwCAS_goes ?_).traced waiting
    rintro rfl
    cases isEarly
  | true =>
    obtain ⟨rfl, rfl, undecided⟩ := early isEarly
    cases pc with
    | checkUndecided =>
      have step : (Frame.mwCAS d 0 .checkUndecided).step .persistent pool before.shared =
          (before.shared, .goto (.mwCAS d 0 .flushDescriptor)) := by
        simp only [Frame.step, stepMwCAS, undecided, if_true]
      rw [step]
      refine ⟨.mk (fun _ => ⟨rfl, rfl, undecided⟩) (fun status here => by cases here) waiting,
        traced.entries, ?_, traced.coherent⟩
      intro e used notEarly
      refine traced.durable e used ?_
      rintro ⟨pc, -, runningOther⟩
      rw [running] at runningOther
      cases runningOther
      exact notEarly ⟨.flushDescriptor, rfl, rfl⟩
    | flushDescriptor => exact traced.flushDescriptor running undecided
    | _ => cases isEarly

theorem Solo.Traced.writeBack {d line : Nat} (traced : before.Traced called)
    (safe : before.WritesBackSafely (.writeBack d line)) :
    Solo.Traced called { before with shared := { before.shared with
      nvDesc := Function.update before.shared.nvDesc d (before.afterWriteBack d line) } } := by
  have settled : (before.shared.desc d).status.code.InUse → ¬ before.Early d →
      (before.afterWriteBack d line).status.code.InUse ∧
        (before.afterWriteBack d line).words = (before.shared.desc d).words := by
    intro used notEarly
    obtain ⟨usedDurable, same⟩ := traced.durable d used notEarly
    obtain ⟨sameAfter, kept | taken⟩ := Descriptor.copyFields_words same (Field.inLine line)
    · refine ⟨?_, sameAfter⟩
      rw [Solo.afterWriteBack, kept]
      exact usedDurable
    · refine ⟨?_, sameAfter⟩
      rw [Solo.afterWriteBack, taken]
      exact used
  have coherent : (before.afterWriteBack d line).status.code.InUse →
      ∃ content, called d content ∧ (before.afterWriteBack d line).BelongsTo content := by
    intro used
    by_cases first : line = 0
    · subst first
      have status : (before.afterWriteBack d 0).status = (before.shared.desc d).status := by
        rw [Solo.afterWriteBack, Field.inLine_zero]
        rfl
      have count : (before.afterWriteBack d 0).count = (before.shared.desc d).count := by
        rw [Solo.afterWriteBack, Field.inLine_zero]
        rfl
      rw [status] at used
      obtain ⟨content, isCalled, belongs⟩ := traced.entries d used
      refine ⟨content, isCalled, ?_⟩
      by_cases early : before.Early d
      · exact Descriptor.BelongsTo.trans (safe early) belongs
      · exact belongs.of_eq count (settled used early).2
    · have status : (before.afterWriteBack d line).status = (before.shared.nvDesc d).status :=
        (Descriptor.copyFields_header _ (Field.header_not_mem_inLine first).1
          (Field.header_not_mem_inLine first).2).1
      rw [status] at used
      obtain ⟨content, isCalled, belongs⟩ := traced.coherent d used
      simp only [Solo.WritesBackSafely, if_neg first] at safe
      exact ⟨content, isCalled, (safe used).trans belongs⟩
  refine ⟨traced.control, traced.entries, ?_, ?_⟩
  · intro e used notEarly
    by_cases same : e = d
    · subst same
      show ((Function.update before.shared.nvDesc e _) e).status.code.InUse ∧
        ((Function.update before.shared.nvDesc e _) e).words = _
      rw [Function.update_self]
      exact settled used notEarly
    · show ((Function.update before.shared.nvDesc d _) e).status.code.InUse ∧
        ((Function.update before.shared.nvDesc d _) e).words = _
      rw [Function.update_of_ne same]
      exact traced.durable e used notEarly
  · intro e used
    by_cases same : e = d
    · subst same
      simp only [Function.update_self] at used ⊢
      exact coherent used
    · simp only [Function.update_of_ne same] at used ⊢
      exact traced.coherent e used

theorem Solo.Traced.step {action : SoloAction} {calledAfter : Nat → Descriptor → Prop}
    (traced : before.Traced called) (safe : before.WritesBackSafely action)
    (grows : ∀ d content, called d content → calledAfter d content)
    (adds : ∀ d, action = .mwCAS d → calledAfter d (before.shared.desc d))
    (step : SoloStep pool before action after) : after.Traced calledAfter := by
  have here := traced.mono grows
  cases step with
  | addEntry idle inside free passes =>
    refine here.of_desc_eq ?_ (.store ?_) rfl rfl
    · intro callStack running
      rw [idle] at running
      cases running
    · exact addEntryStores_rewrites _ _ free
  | mwCAS idle inside free => exact here.mwCAS idle (adds _ rfl)
  | @recycle d idle pushed =>
    refine here.of_desc_eq ?_ ?_ rfl rfl
    · intro callStack running
      rw [idle] at running
      cases running
    · show ControlTraced before.shared.desc
        (.store d (freeDescriptorStores (before.shared.desc d)).images)
      exact .store (freeDescriptorStores_rewrites _)
  | write writing => exact here.write writing
  | frame running => exact here.frame running
  | writeBack d line => exact here.writeBack safe

end

/-! ### Runs -/

/-- `content` is what descriptor `d` held when `MwCAS()` was called on it, in one of the first
`index` steps. -/
def Called {pool : Pool} (run : Run (soloSystem pool)) (index d : Nat) (content : Descriptor) :
    Prop :=
  ∃ earlier, earlier < index ∧ run.action earlier = .mwCAS d ∧
    content = (run.state earlier).shared.desc d

theorem SoloInitial.traced {solo : Solo} (initial : SoloInitial solo)
    (called : Nat → Descriptor → Prop) : solo.Traced called := by
  have unused : ∀ d, ¬ (solo.shared.desc d).status.code.InUse := by
    intro d
    rw [initial.fresh d]
    decide
  refine ⟨?_, fun d used => absurd used (unused d), fun d used _ => absurd used (unused d), ?_⟩
  · rw [initial.idle]
    trivial
  · intro d used
    rw [initial.durable.1] at used
    exact absurd used (unused d)

/-- In every run in which lines are written back as `WritesBackSafely` says, whatever the thread
calls, every durable descriptor in use shows the entries of one operation that was called on it. -/
theorem coherent_of_run {pool : Pool} (run : Run (soloSystem pool))
    (meets : run.Meets Solo.WritesBackSafely) (index : Nat) (inside : index ≤ run.length) :
    (run.state index).Coherent (Called run index) := by
  have traced : (run.state index).Traced (Called run index) := by
    induction index with
    | zero => exact SoloInitial.traced run.starts _
    | succ index inductionHypothesis =>
      have here : index < run.length := inside
      refine (inductionHypothesis (Nat.le_of_lt here)).step (meets index here) ?_ ?_
        (Solo.step_of_next (run.steps index here))
      · rintro d content ⟨earlier, before, called, same⟩
        exact ⟨earlier, Nat.lt_succ_of_lt before, called, same⟩
      · intro d called
        exact ⟨index, Nat.lt_succ_self index, called, rfl⟩
  exact traced.coherent

/-- An operation on two words, from the first `AddEntry` to the return. -/
def doubleOperation : List SoloAction :=
  SoloAction.addEntry 0 (.change 8 1 2) :: List.replicate 6 SoloAction.step ++
    SoloAction.addEntry 0 (.change 16 1 3) :: List.replicate 6 SoloAction.step ++
    SoloAction.mwCAS 0 :: List.replicate 35 SoloAction.step

/-- Whether a line is written back. -/
def SoloAction.isWriteBack : SoloAction → Bool
  | .writeBack _ _ => true
  | _ => false

/-- The operation, and the line with the status of its descriptor arrives once more. -/
def rewrittenOperation : List SoloAction := doubleOperation ++ [.writeBack 0 0]

/-- The operation is recycled, and of the stores of `Initialize` the second line arrives. -/
def recycledOperation : List SoloAction :=
  doubleOperation ++ SoloAction.recycle 0 :: List.replicate 23 SoloAction.step ++
    [SoloAction.writeBack 0 1]

/-- The call has returned. -/
def Solo.returned (solo : Solo) : Bool :=
  match solo.control with
  | .running _ => false
  | _ => true

theorem coherent_of_run_rewritten : ∃ run : Run (soloSystem .small),
    ((run.state run.length).shared.nvDesc 0).status.code = .succeeded ∧
      ((run.state run.length).shared.nvDesc 0).count = 2 ∧
      (run.state run.length).Coherent (Called run run.length) := by
  obtain ⟨run, length, states, acts⟩ := Solo.exists_run .small (fun _ => .plain 1)
    rewrittenOperation (by decide +kernel)
  have steps : run.length = 51 := length
  have returned := holds_of_replay Solo.returned (states 50) (by decide +kernel)
  have only : ∀ index < 50, (rewrittenOperation.getD index default).isWriteBack = false := by
    decide +kernel
  have meets : run.Meets Solo.WritesBackSafely := by
    intro index inside
    rw [steps] at inside
    rw [acts index]
    by_cases last : index = 50
    · subst last
      rintro ⟨pc, -, running⟩
      rw [Solo.returned, running] at returned
      cases returned
    · have here := only index (by omega)
      generalize rewrittenOperation.getD index default = action at here
      cases action with
      | writeBack d line => cases here
      | _ => trivial
  have reached := satisfies_of_replay (fun solo : Solo =>
    (solo.shared.nvDesc 0).status.code = .succeeded ∧ (solo.shared.nvDesc 0).count = 2) (states 51)
    (by decide +kernel)
  rw [← steps] at reached
  exact ⟨run, reached.1, reached.2, coherent_of_run run meets run.length (Nat.le_refl _)⟩

/-- Descriptor 0 is recycled after an operation on two words, and of the stores of `Initialize` only
the second line reaches NVM. The durable copy is Succeeded with two entries, the second of which
belongs to no operation: its address is null, and the constructor follows it. -/
theorem exists_mixed_descriptor : ∃ run : Run (soloSystem .small),
    ((run.state run.length).shared.nvDesc 0).status.code = .succeeded ∧
      1 < ((run.state run.length).shared.nvDesc 0).count ∧
      (((run.state run.length).shared.nvDesc 0).words 1).address = 0 ∧
      ¬ (run.state run.length).Coherent (Called run run.length) ∧
      (descriptorPool .small 1 ((run.state run.length).flushedImage .small)).error =
        some .nullPointer := by
  obtain ⟨run, length, states, acts⟩ := Solo.exists_run .small (fun _ => .plain 1)
    recycledOperation (by decide +kernel)
  have steps : run.length = 75 := length
  have only : ∀ index < 75, recycledOperation.getD index default = .mwCAS 0 → index = 14 := by
    decide +kernel
  have filled := satisfies_of_replay (fun solo : Solo => ((solo.shared.desc 0).words 1).address = 16)
    (states 14) (by decide +kernel)
  have reached := satisfies_of_replay (fun solo : Solo =>
    (solo.shared.nvDesc 0).status.code = .succeeded ∧ 1 < (solo.shared.nvDesc 0).count ∧
      ((solo.shared.nvDesc 0).words 1).address = 0 ∧
      (descriptorPool .small 1 (solo.flushedImage .small)).error = some .nullPointer) (states 75)
    (by decide +kernel)
  obtain ⟨succeeded, two, null, aborts⟩ := reached
  refine ⟨run, ?_⟩
  rw [steps]
  refine ⟨succeeded, two, null, ?_, aborts⟩
  intro coherent
  obtain ⟨content, ⟨earlier, before, called, rfl⟩, belongs⟩ :=
    coherent 0 (by rw [succeeded]; exact Or.inr (Or.inl rfl))
  have first : earlier = 14 := only earlier before (by rw [← acts earlier]; exact called)
  have same := (belongs.2 1 two).1
  rw [null, first, filled] at same
  cases same

end Pmwcas
