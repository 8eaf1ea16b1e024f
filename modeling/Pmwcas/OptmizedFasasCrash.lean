/-
This file is about a crash between any two steps of processes that run
`OptmizedFASASDescriptor::process()`, followed by `recoverDescriptor`, where no process makes more
than fifteen attempts on a location. Recovery writes the private word of the last attempt of a
descriptor exactly if its exchange has succeeded. A process may use one private word with several
locations; then it is the last successful one of these attempts whose result the word holds.

`process()` stores `newShareVarValue_` of an attempt before its sequence number. In between, the
shared word may still have the tag of the attempt before, and recovery compares its value with that
of the new attempt: the check fails unless both are the same. It is the only crash that recovery
does not survive.
-/

import Pmwcas.OptmizedFasasRecoverable
import Pmwcas.OptmizedFasasRecovery

namespace Pmwcas.OptmizedFasas

open Transition Stores

variable {config : Config}

/-! ### Recovery after a crash -/

/-- What recovery finds: every executed store survives. -/
def State.image (state : State) (metadata : Metadata) : OptmizedImage :=
  ⟨metadata, state.mem, state.desc⟩

/-- The exchange of the attempt that began in step `first` has succeeded. -/
def AttemptSucceeded (run : Run (system config)) (p : Nat) (call : Call) (first index : Nat) :
    Prop :=
  ∃ swap, first < swap ∧ swap < index ∧ Exchanges run (config.offset p call.locationId) swap

/-- Recovery after a crash before step `index`. -/
structure Recovers (run : Run (system config)) (metadata : Metadata) (index : Nat) : Prop where
  /-- It ends without a failed check, and the private words of successful attempts hold their
  results. -/
  completes : ∃ image,
    (recoverDescriptor config.poolSize).run ((run.state index).image metadata) = .ok image ∧
    ∀ p call first, Attempt run p call first index → AttemptSucceeded run p call first index →
      image.mem (attemptCell run p call first) = attemptResult run p call first
  /-- Whatever the private word of another attempt holds, recovery leaves it there. -/
  unwritten : ∀ p call first, Attempt run p call first index →
    ¬ AttemptSucceeded run p call first index → ∀ content, ∃ image,
    (recoverDescriptor config.poolSize).run
      (((run.state index).image metadata).storeWord (attemptCell run p call first) content) =
        .ok image ∧
    image.mem (attemptCell run p call first) = content

/-- A call has stored its new value and not its sequence number, and the shared word has the tag of
the attempt before, with another value. -/
def State.InWindow (config : Config) (state : State) : Prop :=
  ∃ p call pc, state.procs p = .inside call pc ∧ pc.mixed = true ∧
    state.CarriesTag config (config.offset p call.locationId)
      (state.mem (state.desc (config.offset p call.locationId)).sharedAddress) ∧
    actualValueOf (state.mem (state.desc (config.offset p call.locationId)).sharedAddress) ≠
      call.newval

/-- No last attempt has lost its private word to an attempt of its process on another location: the
last exchange for the word of a successful attempt has the same result, and the word of another
attempt is not the one of a call past its exchange. -/
structure KeepsPrivate (run : Run (system config)) (index : Nat) : Prop where
  results : ∀ p call first, Attempt run p call first index → AttemptSucceeded run p call first index →
    ∀ call' swap, LastSuccess run p call' swap index →
      attemptCell run p call' swap = attemptCell run p call first →
      attemptResult run p call' swap = attemptResult run p call first
  failures : ∀ p call first, Attempt run p call first index →
    ¬ AttemptSucceeded run p call first index → ∀ call' pc,
      (run.state index).procs p = .inside call' pc → pc.swapped = true →
      ((run.state index).desc (config.offset p call'.locationId)).privateAddress ≠
        attemptCell run p call first

/-! ### What recovery finds -/

/-- The image has the descriptors and the shared words of the state. -/
structure Survives (config : Config) (state : State) (start : OptmizedImage) : Prop where
  desc : start.desc = state.desc
  words : ∀ address, config.location address ≠ none → start.mem address = state.mem address

theorem survives_image (state : State) (metadata : Metadata) :
    Survives config state (state.image metadata) :=
  ⟨rfl, fun _ _ => rfl⟩

theorem survives_storeWord (state : State) (metadata : Metadata) {address : Nat}
    (private_ : config.location address = none) (content : Nat) :
    Survives config state ((state.image metadata).storeWord address content) := by
  refine ⟨rfl, fun other shared => ?_⟩
  refine OptmizedImage.storeWord_mem_of_ne _ ?_ content
  rintro rfl
  exact shared private_

section Survives

variable {state : State} {start : OptmizedImage} {d : Nat}

theorem Survives.target (survives : Survives config state start) (sound : Sound config state)
    (placed : (state.desc d).sharedAddress ≠ 0) :
    start.target d = state.mem (state.desc d).sharedAddress := by
  rw [OptmizedImage.target, survives.desc]
  refine survives.words _ ?_
  rw [sound.shared d placed]
  simp

theorem Survives.tagged_iff (survives : Survives config state start) (sound : Sound config state)
    (val : Nat) : start.tagged d val = true ↔ state.CarriesTag config d val := by
  rw [OptmizedImage.tagged, survives.desc, sound.processId, Bool.and_eq_true, beq_iff_eq,
    beq_iff_eq]
  rfl

theorem Survives.rolls_iff (survives : Survives config state start) (sound : Sound config state) :
    rolls start d = true ↔ state.RollsForward config d := by
  by_cases placed : (state.desc d).sharedAddress = 0
  · simp [rolls, State.RollsForward, survives.desc, placed]
  · rw [rolls, survives.target sound placed, Bool.and_eq_true, Bool.and_eq_true, Bool.or_eq_true,
      survives.tagged_iff sound, survives.desc, bne_iff_ne, Bool.not_eq_true', and_assoc]
    rfl

theorem Survives.valueMatches_iff (survives : Survives config state start)
    (sound : Sound config state) (placed : (state.desc d).sharedAddress ≠ 0) :
    valueMatches start d = true ↔
      (state.CarriesTag config d (state.mem (state.desc d).sharedAddress) →
        actualValueOf (state.mem (state.desc d).sharedAddress) =
          (state.desc d).newShareVarValue) := by
  rw [valueMatches, survives.target sound placed, Bool.or_eq_true, Bool.not_eq_true', beq_iff_eq,
    ← Bool.not_eq_true, survives.tagged_iff sound, survives.desc, imp_iff_not_or]

end Survives

theorem Pc.mixed_newval {descriptor : OptmizedFASASDescriptor} {call : Call} {pc : Pc}
    (mixed : pc.mixed = true) (fits : pc.Fits config descriptor call) :
    descriptor.newShareVarValue = call.newval := by
  cases pc <;> first | exact fits.2 | exact fits.2.1 | cases mixed

theorem Pc.swapped_oldval {descriptor : OptmizedFASASDescriptor} {call : Call} {pc : Pc}
    (swapped : pc.swapped = true) (fits : pc.Fits config descriptor call) :
    descriptor.oldShareVarValue = call.oldval := by
  cases pc <;> first | exact fits.1 | cases swapped

/-- The owner of the descriptor has exchanged the word and has not returned. -/
def Swapped (config : Config) (state : State) (d : Nat) : Prop :=
  ∃ pc, state.phase config d = some pc ∧ pc.swapped = true

theorem Local.swapped {descriptor : OptmizedFASASDescriptor} {succeeded tookEffect : Prop}
    {begun : Nat} {pc : Pc} (holds : Local descriptor succeeded tookEffect begun (some pc))
    (swapped : pc.swapped = true) : succeeded ∧ descriptor.isPrivateAddrSet = false := by
  cases pc <;> first | exact ⟨holds.1, holds.2.2.2.1⟩ | cases swapped

/-- A descriptor whose owner is not past its exchange has its flag set, if it took effect. -/
theorem Local.not_swapped {descriptor : OptmizedFASASDescriptor} {succeeded tookEffect : Prop}
    {begun : Nat} {phase : Option Pc} (holds : Local descriptor succeeded tookEffect begun phase)
    (other : ∀ pc, phase = some pc → pc.swapped = false) :
    (tookEffect → descriptor.isPrivateAddrSet = true) ∧ (succeeded → tookEffect) := by
  cases phase with
  | none => exact ⟨holds.2.1, holds.1.1⟩
  | some pc =>
    have notSwapped := other pc rfl
    cases pc with
    | storeOld | storeNew | loadSeq | storeStatus =>
      exact ⟨holds.2.1, fun succeeded => absurd succeeded holds.1⟩
    | clearPrivateAddrSet | clearShareVarSet | loadNewVal | cas =>
      exact ⟨fun took => absurd took holds.2.1, fun succeeded => absurd succeeded holds.1⟩
    | loadStatus | storeSucc | setShareVarSet | storePrivate | setPrivateAddrSet => cases notSwapped
    | loadVal | loadActual | helpCheckSet | helpCheckSeq | helpCheckAgain | helpLoadStatus
    | helpCas | helpCheckLast => exact ⟨holds.2.1, holds.1.1⟩

theorem Local.succ_of_finished {descriptor : OptmizedFASASDescriptor} {succeeded tookEffect : Prop}
    {begun : Nat} {pc : Pc} (holds : Local descriptor succeeded tookEffect begun (some pc))
    (swapped : pc.swapped = true) (finished : pc.unfinished = false) :
    descriptor.statusInfo.succ = true := by
  cases pc with
  | setShareVarSet | storePrivate | setPrivateAddrSet => exact holds.2.2.2.2
  | loadStatus | storeSucc => cases finished
  | _ => cases swapped

section Found

variable {run : Run (system config)} {owner : Nat → Nat} {index d : Nat} {start : OptmizedImage}

/-- Recovery rolls forward the descriptors whose owner is between its exchange and its return. -/
theorem Recoverable.rollsForward_iff (recoverable : Recoverable run owner index)
    (sound : Sound config (run.state index)) :
    (run.state index).RollsForward config d ↔ Swapped config (run.state index) d := by
  have holds := recoverable.locals d
  constructor
  · rintro ⟨placed, unset, succ | carried⟩
    · have took := recoverable.truthful.succ d succ
      by_contra notSwapped
      refine Bool.false_ne_true (unset.symm.trans ((holds.not_swapped fun pc here => ?_).1 took))
      exact Bool.eq_false_iff.mpr fun swapped => notSwapped ⟨pc, here, swapped⟩
    · have took := recoverable.truthful.words _ d (sound.shared d placed) carried
      by_contra notSwapped
      refine Bool.false_ne_true (unset.symm.trans ((holds.not_swapped fun pc here => ?_).1 took))
      exact Bool.eq_false_iff.mpr fun swapped => notSwapped ⟨pc, here, swapped⟩
  · rintro ⟨pc, here, swapped⟩
    obtain ⟨call, inside, same, placed⟩ := sound.offset_of_phase here
    rw [here] at holds
    refine ⟨placed, (holds.swapped swapped).2, ?_⟩
    cases unfinished : pc.unfinished with
    | true => exact recoverable.tags.unfinished d pc here unfinished
    | false => exact .inl (holds.succ_of_finished swapped unfinished)

theorem Recoverable.restorable (recoverable : Recoverable run owner index)
    (sound : Sound config (run.state index)) (survives : Survives config (run.state index) start) :
    Restorable start := by
  have set : ∀ d, rolls start d = true → ((run.state index).desc d).privateAddress ≠ 0 := by
    intro d rolling
    rw [survives.rolls_iff sound, recoverable.rollsForward_iff sound] at rolling
    obtain ⟨pc, here, -⟩ := rolling
    obtain ⟨call, inside, same, -⟩ := sound.offset_of_phase here
    have private_ := (sound.ready _ call pc inside).private_
    rw [same] at private_
    exact private_
  refine ⟨fun d => ?_, fun d rolling => ?_, fun d e rolling placed shared => ?_,
    fun d e first second shared => ?_⟩
  · rw [survives.desc]
    exact recoverable.typed d
  · rw [survives.desc]
    exact set d rolling
  · rw [survives.desc] at placed shared
    have none_ := sound.private_ d (set d rolling)
    rw [shared, sound.shared e placed] at none_
    cases none_
  · rw [survives.desc] at shared
    have owner := recoverable.owned d (set d first)
    rw [shared, recoverable.owned e (set e second)] at owner
    rw [survives.rolls_iff sound, recoverable.rollsForward_iff sound] at first second
    obtain ⟨pc, here, -⟩ := first
    obtain ⟨pc', there, -⟩ := second
    -- The process is in one call, so it is past the exchange of one descriptor.
    obtain ⟨call, inside, same, -⟩ := sound.offset_of_phase here
    obtain ⟨call', inside', same', -⟩ := sound.offset_of_phase there
    rw [owner, inside] at inside'
    cases inside'
    rw [← same, ← same', owner]

/-- The check of recovery fails exactly in the window. -/
theorem Recoverable.inWindow_iff (recoverable : Recoverable run owner index)
    (sound : Sound config (run.state index)) (survives : Survives config (run.state index) start) :
    (run.state index).InWindow config ↔ ∃ d < config.poolSize,
      (start.desc d).sharedAddress ≠ 0 ∧ valueMatches start d = false := by
  rw [survives.desc]
  constructor
  · rintro ⟨p, call, pc, inside, mixed, carried, different⟩
    have ready := sound.ready p call pc inside
    refine ⟨_, ready.pool, ready.shared, ?_⟩
    rw [← Bool.not_eq_true, survives.valueMatches_iff sound ready.shared,
      Pc.mixed_newval mixed (sound.fits p call pc inside)]
    exact fun same => different (same carried)
  · rintro ⟨d, -, placed, fails⟩
    rw [← Bool.not_eq_true, survives.valueMatches_iff sound placed] at fails
    obtain ⟨carried, different⟩ := Classical.not_imp.mp fails
    obtain same | ⟨pc, here, mixed⟩ :=
      (recoverable.tags.words _ d (sound.shared d placed) carried.1).2 carried.2
    · exact absurd same different
    · obtain ⟨call, inside, same, -⟩ := sound.offset_of_phase here
      refine ⟨config.processOf d, call, pc, inside, mixed, ?_⟩
      have newval := Pc.mixed_newval mixed (sound.fits _ call pc inside)
      rw [same] at newval ⊢
      rw [← newval]
      exact ⟨carried, different⟩

end Found

/-! ### The last attempts -/

theorem Pc.swapped_of_unwritten {pc : Pc} (unwritten : pc.unwritten = true) : pc.swapped = true := by
  cases pc <;> first | rfl | cases unwritten

section Attempts

variable {run : Run (system config)} {owner : Nat → Nat} {p index first : Nat} {call : Call}

theorem Attempt.begins (attempt : Attempt run p call first index) (inside : index ≤ run.length) :
    BeginsAttempt run (config.offset p call.locationId) first := by
  obtain ⟨val, compared⟩ := attempt.compared
  exact ⟨Nat.lt_of_lt_of_le attempt.before inside, p, call, val, attempt.acts, compared, rfl⟩

theorem Attempt.ready (attempt : Attempt run p call first index) (inside : index ≤ run.length) :
    (run.state (first + 1)).Ready config p call := by
  obtain ⟨val, compared⟩ := attempt.compared
  exact (Sound.of_run run (first + 1) (Nat.le_trans attempt.before inside)).ready p call _ compared

theorem Attempt.started (attempt : Attempt run p call first index) (inside : index ≤ run.length) :
    ∃ pc, (run.state first).procs p = .inside call pc := by
  obtain ⟨val, compared⟩ := attempt.compared
  have performed : (run.state first).next config (run.action first) =
      some (run.state (first + 1)) := run.steps first (Nat.lt_of_lt_of_le attempt.before inside)
  rw [attempt.acts, State.next] at performed
  split at performed
  · next call' pc here =>
    obtain rfl := State.stepCall_call performed compared
    exact ⟨pc, here⟩
  · cases performed

/-- The exchange of an attempt is made with the private word and for the result it began with. -/
theorem Attempt.succeedsAt (attempt : Attempt run p call first index) (inside : index ≤ run.length)
    {swap : Nat} (recoverable : Recoverable run owner swap) (after : first < swap)
    (before : swap < index) (exchanges : Exchanges run (config.offset p call.locationId) swap) :
    SucceedsAt run p call swap ∧ attemptCell run p call swap = attemptCell run p call first ∧
      attemptResult run p call swap = attemptResult run p call first := by
  obtain ⟨inTime, u, call', val, newVal, acts, exchanging, same, old⟩ := exchanges
  have process := ((Sound.of_run run swap (Nat.le_of_lt inTime)).ready u call' _ exchanging).process
  have processes := congrArg config.processOf same
  have locations := congrArg config.locationOf same
  rw [config.processOf_offset _ process,
    config.processOf_offset _ (attempt.ready inside).process] at processes
  rw [config.locationOf_offset _ process,
    config.locationOf_offset _ (attempt.ready inside).process] at locations
  subst processes
  have earlier : Attempt run u call first swap := ⟨after, attempt.acts, attempt.compared,
    fun between above below => attempt.last between above (Nat.lt_trans below before)⟩
  obtain ⟨rfl, cell, result⟩ :=
    recoverable.current u call first earlier call' _ exchanging locations rfl
  exact ⟨⟨inTime, acts, val, newVal, exchanging, old⟩, cell, result⟩

/-- A private word with a successful attempt has a last one. -/
theorem SucceedsAt.exists_last {swap : Nat} (succeeds : SucceedsAt run p call swap)
    (before : swap < index) : ∃ call' last, LastSuccess run p call' last index ∧
      attemptCell run p call' last = attemptCell run p call swap := by
  obtain ⟨last, inTime, ⟨call', here, cell⟩, none_⟩ := Transition.exists_last (fun step => ∃ call',
    SucceedsAt run p call' step ∧ attemptCell run p call' step = attemptCell run p call swap)
    before ⟨call, succeeds, rfl⟩
  refine ⟨call', last, ⟨inTime, here, fun later call'' after below succeeds' same => ?_⟩, cell⟩
  exact none_ later after below ⟨call'', succeeds', same.trans cell⟩

/-- Recovery leaves a word that is not the private word of a call past its exchange. -/
theorem Recoverable.restored_left {start image : OptmizedImage} {address : Nat}
    (recoverable : Recoverable run owner index) (inside : index ≤ run.length)
    (survives : Survives config (run.state index) start)
    (restored : Restored start (List.range config.poolSize) image) (owns : owner address = p)
    (nobody : ∀ call pc, (run.state index).procs p = .inside call pc → pc.swapped = true →
      ((run.state index).desc (config.offset p call.locationId)).privateAddress ≠ address) :
    image.mem address = start.mem address := by
  have sound := Sound.of_run run index inside
  have restorable := recoverable.restorable sound survives
  refine restored.left _ fun e _ rolling here => ?_
  have mine := recoverable.owned e (survives.desc ▸ restorable.set e rolling)
  rw [survives.rolls_iff sound, recoverable.rollsForward_iff sound] at rolling
  obtain ⟨pc, phase, past⟩ := rolling
  obtain ⟨call, inCall, same, -⟩ := sound.offset_of_phase phase
  rw [survives.desc] at here
  rw [here, owns] at mine
  rw [← mine] at inCall same
  refine nobody call pc inCall past ?_
  rw [same]
  exact here

/-- Recovery leaves the result of the last successful attempt in its private word. -/
theorem Recoverable.restored_cell {start image : OptmizedImage} {swap : Nat}
    (recoverable : Recoverable run owner index) (inside : index ≤ run.length)
    (survives : Survives config (run.state index) start)
    (restored : Restored start (List.range config.poolSize) image)
    (success : LastSuccess run p call swap index)
    (kept : start.mem (attemptCell run p call swap) =
        (run.state index).mem (attemptCell run p call swap) ∨
      ∃ call' pc, (run.state index).procs p = .inside call' pc ∧ pc.swapped = true ∧
        ((run.state index).desc (config.offset p call'.locationId)).privateAddress =
          attemptCell run p call swap) :
    image.mem (attemptCell run p call swap) = attemptResult run p call swap := by
  have sound := Sound.of_run run index inside
  by_cases current : ∃ call' pc, (run.state index).procs p = .inside call' pc ∧
      pc.swapped = true ∧ ((run.state index).desc (config.offset p call'.locationId)).privateAddress =
        attemptCell run p call swap
  · obtain ⟨call', pc, inCall, past, here⟩ := current
    obtain ⟨last, inTime, succeeds, cell, result, none_⟩ :=
      recoverable.swapped p call' pc inCall past
    obtain ⟨rfl, rfl⟩ := success.eq_of_last inTime succeeds (cell.symm.trans here) none_
    have rolling : rolls start (config.offset p call'.locationId) = true := by
      rw [survives.rolls_iff sound, recoverable.rollsForward_iff sound]
      exact ⟨pc, sound.phase_of_inside inCall, past⟩
    have written := restored.rolled _ (List.mem_range.mpr (sound.ready p call' pc inCall).pool) rolling
    have oldval := Pc.swapped_oldval past (sound.fits p call' pc inCall)
    rw [survives.desc, here] at written
    rw [written, ← result, OptmizedFASASDescriptor.privateValue, oldval]
  · obtain ⟨_, _, exchanging, -⟩ := success.succeeds.exchange
    have owns := (recoverable.cell p call _ swap (Nat.le_of_lt success.before) exchanging).2
    rw [recoverable.restored_left inside survives restored owns fun call' pc inCall past here =>
      current ⟨call', pc, inCall, past, here⟩, kept.resolve_right current]
    refine recoverable.written p call swap success ?_
    rintro ⟨call', pc, inCall, unwritten, here⟩
    exact current ⟨call', pc, inCall, Pc.swapped_of_unwritten unwritten, here⟩

end Attempts

/-! ### When recovery succeeds -/

/-- For processes that make at most fifteen attempts on each location and share no private word,
recovery after a crash completes and restores the private words of the last attempts exactly if the
crash is not in the window and no last attempt has lost its private word to one on another
location. -/
theorem recovers_iff (run : Run (system config)) (owner : Nat → Nat)
    (own : run.Meets (OwnPrivate owner)) (few : ∀ d, attempts run d run.length ≤ 15)
    (metadata : Metadata) (index : Nat) (inside : index ≤ run.length) :
    Recovers run metadata index ↔
      ¬ (run.state index).InWindow config ∧ KeepsPrivate run index := by
  have sound := Sound.of_run run index inside
  have recoverable := Recoverable.of_run run own few index inside
  have earlier : ∀ swap < index, Recoverable run owner swap := fun swap before =>
    Recoverable.of_run run own few swap (Nat.le_trans (Nat.le_of_lt before) inside)
  have whole : Survives config (run.state index) ((run.state index).image metadata) :=
    survives_image (run.state index) metadata
  have complete : ¬ (run.state index).InWindow config →
      ∀ start, Survives config (run.state index) start → ∃ image,
        (recoverDescriptor config.poolSize).run start = .ok image ∧
          Restored start (List.range config.poolSize) image := by
    intro outside start survives
    refine recoverDescriptor_run (recoverable.restorable sound survives) config.poolSize
      fun d below placed => ?_
    by_contra fails
    exact outside ((recoverable.inWindow_iff sound survives).mpr
      ⟨d, below, placed, Bool.eq_false_iff.mpr fails⟩)
  constructor
  · rintro ⟨⟨image, performed, results⟩, unwritten⟩
    have outside : ¬ (run.state index).InWindow config := by
      intro window
      rw [recoverable.inWindow_iff sound whole] at window
      obtain ⟨error, failed⟩ := recoverDescriptor_run_error (recoverable.restorable sound whole)
        config.poolSize window
      rw [performed] at failed
      cases failed
    refine ⟨outside, ⟨fun p call first attempt succeeded call' swap success same => ?_,
      fun p call first attempt failed call' pc inCall past here => ?_⟩⟩
    · obtain ⟨image', performed', restored⟩ := complete outside _ whole
      rw [performed] at performed'
      cases performed'
      rw [← recoverable.restored_cell inside whole restored success (.inl rfl), same]
      exact results p call first attempt succeeded
    · -- Recovery writes the result of the current call over any other content.
      obtain ⟨swap, inTime, succeeds, cell, -, none_⟩ := recoverable.swapped p call' pc inCall past
      have success : LastSuccess run p call' swap index :=
        ⟨inTime, succeeds, fun later call'' after below later' =>
          absurd later' (none_ later call'' after below)⟩
      obtain ⟨pc', started⟩ := attempt.started inside
      have private_ := (recoverable.cell p call pc' first (Nat.le_of_lt attempt.before) started).1
      have survives := survives_storeWord (run.state index) metadata private_
        (attemptResult run p call' swap + 1)
      obtain ⟨image, performed, content⟩ :=
        unwritten p call first attempt failed (attemptResult run p call' swap + 1)
      obtain ⟨image', performed', restored⟩ := complete outside _ survives
      rw [performed] at performed'
      cases performed'
      have written := recoverable.restored_cell inside survives restored success
        (.inr ⟨call', pc, inCall, past, cell⟩)
      rw [← cell, here, content] at written
      exact absurd written (Nat.succ_ne_self _)
  · rintro ⟨outside, keeps⟩
    constructor
    · obtain ⟨image, performed, restored⟩ := complete outside _ whole
      refine ⟨image, performed, fun p call first attempt succeeded => ?_⟩
      obtain ⟨swap, after, before, exchanges⟩ := id succeeded
      obtain ⟨succeeds, cell, -⟩ :=
        attempt.succeedsAt inside (earlier swap before) after before exchanges
      obtain ⟨call', last, success, same⟩ := succeeds.exists_last before
      have there := same.trans cell
      rw [← there, recoverable.restored_cell inside whole restored success (.inl rfl)]
      exact keeps.results p call first attempt succeeded call' last success there
    · intro p call first attempt failed content
      obtain ⟨pc', started⟩ := attempt.started inside
      obtain ⟨private_, owns⟩ :=
        recoverable.cell p call pc' first (Nat.le_of_lt attempt.before) started
      have survives := survives_storeWord (run.state index) metadata private_ content
      obtain ⟨image, performed, restored⟩ := complete outside _ survives
      refine ⟨image, performed, ?_⟩
      rw [recoverable.restored_left inside survives restored owns
        (keeps.failures p call first attempt failed)]
      exact OptmizedImage.storeWord_mem_self ..

/-! ### Concrete runs -/

theorem attempts_le_of_tests {run : Run (system config)} {d : Nat} {begins : Nat → Bool}
    (covers : ∀ index, BeginsAttempt run d index → begins index = true) (index : Nat) :
    attempts run d index ≤ ((List.range index).filter begins).length := by
  induction index with
  | zero => exact Nat.zero_le _
  | succ index inductionHypothesis =>
    rw [List.range_succ, List.filter_append, List.length_append]
    by_cases here : BeginsAttempt run d index
    · rw [attempts_succ_of_begins here]
      simp only [covers index here, List.filter_cons_of_pos, List.filter_nil, List.length_singleton]
      exact Nat.succ_le_succ inductionHypothesis
    · rw [attempts_succ_of_not here]
      exact Nat.le_add_right_of_le inductionHypothesis

/-- The process of the last action is at the beginning of an attempt. -/
def State.begun (state : State) : Action → Bool
  | .step p =>
    match state.procs p with
    | .inside _ (.storeOld _) => true
    | _ => false
  | _ => false

/-- The listed steps that begin an attempt. -/
def beginnings (config : Config) (actions : List Action) (index : Nat) : List Nat :=
  (List.range index).filter fun index =>
    (replay (State.next config) (actions.take (index + 1)) (.start config)).any fun state =>
      state.begun (actions.getD index default)

theorem BeginsAttempt.begun {run : Run (system config)} {actions : List Action}
    (states : ∀ index, replay (State.next config) (actions.take index) (.start config) =
      some (run.state index)) (acts : ∀ index, run.action index = actions.getD index default)
    {d index : Nat} (begins : BeginsAttempt run d index) :
    (replay (State.next config) (actions.take (index + 1)) (.start config)).any (fun state =>
      state.begun (actions.getD index default)) = true := by
  obtain ⟨-, p, call, val, action, compared, -⟩ := begins
  rw [states, Option.any_some, ← acts, action]
  simp only [State.begun, compared]

theorem attempts_le_of_replay {run : Run (system config)} {actions : List Action}
    (states : ∀ index, replay (State.next config) (actions.take index) (.start config) =
      some (run.state index)) (acts : ∀ index, run.action index = actions.getD index default)
    (d index : Nat) :
    attempts run d index ≤ (beginnings config actions index).length :=
  attempts_le_of_tests (fun _ begins => begins.begun states acts) index

theorem ownPrivate_of_test {owner : Nat → Nat} {state : State} {action : Action}
    (passes : (match action with
      | .setPrivateAddress p _ address => owner address == p
      | _ => true) = true) : OwnPrivate owner state action := by
  intro p l address acts
  subst acts
  exact eq_of_beq passes

/-- Two processes with the shared words 8 and 16, at two locations. -/
def Config.places : Config :=
  { Config.two with
    poolSize := 4
    location := fun address =>
      if address = 8 then some 0 else if address = 16 then some 1 else none }

/-- Process 1 has the private word 24 for both locations. It replaces 0 by 5 in word 8 and 0 by 7 in
word 16, with the results 1 and 3, and then 7 by 9 in word 16, with the result 1; of this call it has
stored neither the success nor the private word. -/
def exchangedOnly : List Action :=
  [Action.setSharedAddress 1 0 8, .setPrivateAddress 1 0 24, .setOpType 1 0 ⟨true, false, false, 0⟩,
      .setSharedAddress 1 1 16, .setPrivateAddress 1 1 24, .setOpType 1 1 ⟨false, true, false, 3⟩] ++
    wholeCall 0 5 ++ Action.process 1 ⟨1, 0, 7⟩ :: List.replicate 15 (Action.step 1) ++
    Action.setOpType 1 1 ⟨true, false, false, 0⟩ ::
    Action.process 1 ⟨1, 7, 9⟩ :: List.replicate 10 (Action.step 1)

section ExchangedOnly

variable {run : Run (system .places)}
  (states : ∀ index, replay (State.next .places) (exchangedOnly.take index) (.start .places) =
    some (run.state index))
  (acts : ∀ index, run.action index = exchangedOnly.getD index default)

include states acts

theorem begins_of_exchangedOnly {d index : Nat} (before : index < 50)
    (begins : BeginsAttempt run d index) : index = 8 ∨ index = 24 ∨ index = 41 := by
  have member : index ∈ beginnings .places exchangedOnly 50 :=
    List.mem_filter.mpr ⟨List.mem_range.mpr before, begins.begun states acts⟩
  rw [show beginnings .places exchangedOnly 50 = [8, 24, 41] by decide +kernel] at member
  simpa using member

theorem succeeds_of_exchangedOnly {p swap : Nat} {call : Call} (before : swap < 50)
    (succeeds : SucceedsAt run p call swap) : swap = 16 ∨ swap = 32 ∨ swap = 49 := by
  have passes : ∀ swap < 50, (replay (State.next .places) (exchangedOnly.take swap)
      (.start .places)).any (fun state => state.exchanging (exchangedOnly.getD swap default)) = true →
      swap = 16 ∨ swap = 32 ∨ swap = 49 := by
    decide +kernel
  refine passes swap before ?_
  obtain ⟨val, newVal, exchanging, -⟩ := succeeds.exchange
  rw [states, Option.any_some, ← acts, succeeds.acts]
  simp only [State.exchanging, exchanging]

/-- The last attempts of process 1 on its two locations. -/
theorem attempt_of_exchangedOnly {p first : Nat} {call : Call} (inside : 50 ≤ run.length)
    (attempt : Attempt run p call first 50) :
    p = 1 ∧ (call = ⟨0, 0, 5⟩ ∧ first = 8 ∨ call = ⟨1, 7, 9⟩ ∧ first = 41) := by
  have begun := satisfies_of_replay (fun state => state.procs 1 = .inside ⟨0, 0, 5⟩ (.storeOld 0))
    (states 9) (by decide +kernel)
  have between := satisfies_of_replay (fun state =>
    state.procs 1 = .inside ⟨1, 0, 7⟩ (.storeOld 0)) (states 25) (by decide +kernel)
  have begunLast := satisfies_of_replay (fun state =>
    state.procs 1 = .inside ⟨1, 7, 9⟩ (.storeOld (taggedValue 2 7 1))) (states 42)
    (by decide +kernel)
  have mover := attempt.acts
  obtain ⟨val, compared⟩ := attempt.compared
  rcases begins_of_exchangedOnly states acts attempt.before (attempt.begins inside) with
    rfl | rfl | rfl
  · cases ((acts 8).trans (by decide : _ = Action.step 1)).symm.trans mover
    rw [begun] at compared
    cases compared
    exact ⟨rfl, .inl ⟨rfl, rfl⟩⟩
  · cases ((acts 24).trans (by decide : _ = Action.step 1)).symm.trans mover
    rw [between] at compared
    cases compared
    exact absurd ⟨Nat.lt_of_lt_of_le (by decide) inside, 1, _, _,
      (acts 41).trans (by decide), begunLast, rfl⟩ (attempt.last 41 (by decide) (by decide))
  · cases ((acts 41).trans (by decide : _ = Action.step 1)).symm.trans mover
    rw [begunLast] at compared
    cases compared
    exact ⟨rfl, .inr ⟨rfl, rfl⟩⟩

end ExchangedOnly

/-- Recovery after a crash there stores the result 1 of the last call, which is the one of the call
on the other location, too. -/
theorem recovers_iff_exchangedOnly : ∃ run : Run (system .places),
    run.Meets (OwnPrivate fun _ => 1) ∧ (∀ d, attempts run d run.length ≤ 15) ∧
      Attempt run 1 ⟨0, 0, 5⟩ 8 50 ∧ AttemptSucceeded run 1 ⟨0, 0, 5⟩ 8 50 ∧
      attemptCell run 1 ⟨0, 0, 5⟩ 8 = 24 ∧ attemptResult run 1 ⟨0, 0, 5⟩ 8 = 1 ∧
      Attempt run 1 ⟨1, 7, 9⟩ 41 50 ∧ AttemptSucceeded run 1 ⟨1, 7, 9⟩ 41 50 ∧
      attemptCell run 1 ⟨1, 7, 9⟩ 41 = 24 ∧ attemptResult run 1 ⟨1, 7, 9⟩ 41 = 1 ∧
      (run.state 50).mem 24 = 3 ∧ Recovers run ⟨4, 64⟩ 50 := by
  obtain ⟨run, length, states, acts⟩ := exists_run .places exchangedOnly (by decide +kernel)
  have inside : 50 ≤ run.length := by
    rw [length]
    decide
  have own : run.Meets (OwnPrivate fun _ => 1) := by
    intro index inside
    rw [length] at inside
    rw [acts]
    refine ownPrivate_of_test ?_
    revert index
    decide +kernel
  have few : ∀ d, attempts run d run.length ≤ 15 := by
    intro d
    refine Nat.le_trans (attempts_le_of_replay states acts d run.length) ?_
    rw [length]
    decide +kernel
  have compared := satisfies_of_replay (fun state => state.procs 1 = .inside ⟨0, 0, 5⟩ (.storeOld 0))
    (states 9) (by decide +kernel)
  have comparedLast := satisfies_of_replay (fun state =>
    state.procs 1 = .inside ⟨1, 7, 9⟩ (.storeOld (taggedValue 2 7 1))) (states 42)
    (by decide +kernel)
  have location : ∀ {d other first : Nat}, d ≠ other →
      BeginsAttempt run other first → ¬ BeginsAttempt run d first := by
    rintro d other first different ⟨-, p, call, val, acting, here, rfl⟩ ⟨-, q, call', val', acting', there, rfl⟩
    rw [acting] at acting'
    cases acting'
    rw [here] at there
    cases there
    exact different rfl
  have begins24 : BeginsAttempt run 3 24 := by
    refine ⟨Nat.lt_of_lt_of_le (by decide) inside, 1, ⟨1, 0, 7⟩, 0, (acts 24).trans (by decide), ?_, rfl⟩
    exact satisfies_of_replay (fun state => state.procs 1 = .inside ⟨1, 0, 7⟩ (.storeOld 0))
      (states 25) (by decide +kernel)
  have begins41 : BeginsAttempt run 3 41 := ⟨Nat.lt_of_lt_of_le (by decide) inside, 1, ⟨1, 7, 9⟩, _,
    (acts 41).trans (by decide), comparedLast, rfl⟩
  have attempt : Attempt run 1 ⟨0, 0, 5⟩ 8 50 := by
    refine ⟨by decide, (acts 8).trans (by decide), ⟨0, compared⟩, fun index after before begins => ?_⟩
    rcases begins_of_exchangedOnly states acts before begins with rfl | rfl | rfl
    · exact absurd after (by decide)
    · exact location (by decide) begins24 begins
    · exact location (by decide) begins41 begins
  have attemptLast : Attempt run 1 ⟨1, 7, 9⟩ 41 50 := by
    refine ⟨by decide, (acts 41).trans (by decide), ⟨_, comparedLast⟩,
      fun index after before begins => ?_⟩
    rcases begins_of_exchangedOnly states acts before begins with rfl | rfl | rfl <;>
      exact absurd after (by decide)
  have exchanging := satisfies_of_replay (fun state => state.procs 1 = .inside ⟨0, 0, 5⟩
    (.cas 0 (taggedValue 2 5 1)) ∧ state.mem (state.desc 1).sharedAddress = 0)
    (states 16) (by decide +kernel)
  have exchangingLast := satisfies_of_replay (fun state => state.procs 1 = .inside ⟨1, 7, 9⟩
    (.cas (taggedValue 2 7 1) (taggedValue 2 9 2)) ∧
    state.mem (state.desc 3).sharedAddress = taggedValue 2 7 1) (states 49) (by decide +kernel)
  have succeeded : AttemptSucceeded run 1 ⟨0, 0, 5⟩ 8 50 := ⟨16, by decide, by decide,
    Nat.lt_of_lt_of_le (by decide) inside, 1, _, _, _, (acts 16).trans (by decide), exchanging.1, rfl,
    exchanging.2⟩
  have succeededLast : AttemptSucceeded run 1 ⟨1, 7, 9⟩ 41 50 := ⟨49, by decide, by decide,
    Nat.lt_of_lt_of_le (by decide) inside, 1, _, _, _, (acts 49).trans (by decide), exchangingLast.1,
    rfl, exchangingLast.2⟩
  have fields := satisfies_of_replay (fun state => (state.desc 1).privateAddress = 24 ∧
    (state.desc 1).opType.result 0 = 1) (states 8) (by decide +kernel)
  have fieldsLast := satisfies_of_replay (fun state => (state.desc 3).privateAddress = 24 ∧
    (state.desc 3).opType.result 7 = 1) (states 41) (by decide +kernel)
  have fieldsSwap := satisfies_of_replay (fun state => (state.desc 3).privateAddress = 24 ∧
    (state.desc 3).opType.result 7 = 1) (states 49) (by decide +kernel)
  have crashed := satisfies_of_replay (fun state => state.mem 24 = 3 ∧
    state.procs 0 = .idle ∧ state.procs 1 = .inside ⟨1, 7, 9⟩ .loadStatus) (states 50)
    (by decide +kernel)
  have last : SucceedsAt run 1 ⟨1, 7, 9⟩ 49 := ⟨Nat.lt_of_lt_of_le (by decide) inside,
    (acts 49).trans (by decide), _, _, exchangingLast.1, exchangingLast.2⟩
  refine ⟨run, own, few, attempt, succeeded, fields.1, fields.2, attemptLast, succeededLast,
    fieldsLast.1, fieldsLast.2, crashed.1, ?_⟩
  refine (recovers_iff run _ own few ⟨4, 64⟩ 50 inside).mpr ⟨?_, ?_, ?_⟩
  · rintro ⟨p, call, pc, inCall, mixed, -⟩
    have process := ((Sound.of_run run 50 inside).ready p call pc inCall).process
    have two : p = 0 ∨ p = 1 := by
      have below : p < 2 := process
      omega
    rcases two with rfl | rfl
    · rw [crashed.2.1] at inCall
      cases inCall
    · rw [crashed.2.2] at inCall
      cases inCall
      cases mixed
  · intro p call first here _ call' swap success cell
    obtain ⟨rfl, which⟩ := attempt_of_exchangedOnly states acts inside here
    have swapLast : swap = 49 := by
      have placed : attemptCell run 1 call' swap = 24 := by
        rcases which with ⟨rfl, rfl⟩ | ⟨rfl, rfl⟩
        · exact cell.trans fields.1
        · exact cell.trans fieldsLast.1
      have notBefore : ¬ swap < 49 := fun before =>
        success.last 49 ⟨1, 7, 9⟩ before (by decide) last (fieldsSwap.1.trans placed.symm)
      rcases succeeds_of_exchangedOnly states acts success.before success.succeeds with
        rfl | rfl | rfl
      · exact absurd (by decide) notBefore
      · exact absurd (by decide) notBefore
      · rfl
    subst swapLast
    obtain rfl := last.call_eq success.succeeds
    rcases which with ⟨rfl, rfl⟩ | ⟨rfl, rfl⟩
    · exact fieldsSwap.2.trans fields.2.symm
    · exact fieldsSwap.2.trans fieldsLast.2.symm
  · intro p call first here failed
    obtain ⟨rfl, ⟨rfl, rfl⟩ | ⟨rfl, rfl⟩⟩ := attempt_of_exchangedOnly states acts inside here
    · exact absurd succeeded failed
    · exact absurd succeededLast failed

/-- Process 1 has replaced 0 by 5 and begins to replace 5 by 7. It has stored the new value. -/
def storedNewValue : List Action :=
  setAddresses ++ wholeCall 0 5 ++ Action.process 1 ⟨0, 5, 7⟩ :: List.replicate 4 (Action.step 1)

/-- Recovery after a crash there fails its check: the tag is that of the first attempt, and the
value is not the one of the second. -/
theorem exists_not_recovers : ∃ run : Run (system .two),
    (run.Meets (OwnPrivate fun address => if address = 16 then 0 else 1)) ∧
      (∀ d, attempts run d run.length ≤ 15) ∧ ¬ Recovers run ⟨2, 64⟩ run.length := by
  obtain ⟨run, length, states, actions⟩ := exists_run .two storedNewValue (by decide +kernel)
  refine ⟨run, fun index inside => ?_, fun d => ?_, fun recovers => ?_⟩
  · rw [length] at inside
    rw [actions]
    refine ownPrivate_of_test ?_
    revert index
    decide +kernel
  · refine Nat.le_trans (attempts_le_of_replay states actions d run.length) ?_
    rw [length]
    decide +kernel
  · obtain ⟨⟨image, performed, -⟩, -⟩ := recovers
    have failed := satisfies_of_replay (fun state => ((recoverDescriptor 2)
      (state.image ⟨2, 64⟩)).error = some (.rawCheck .valueNotMatch)) (states run.length)
      (by rw [length]; decide +kernel)
    rw [show Config.two.poolSize = 2 from rfl, Program.run_of_some failed] at performed
    cases performed

end Pmwcas.OptmizedFasas
